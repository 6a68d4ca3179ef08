/-
Module: Wok.Spec.Scan
Purpose: A source as a sequence of blank bytes, comments and tokens, and what offsets, columns
  and line flags say about it.
Imports: Wok.Grammar.Scan
Trusted boundary: none
Main exports: columnAfter, place, Recorded, Segmented, WellScanned, LineFlags, BreaksOnFirst
-/
import Wok.Grammar.Scan

namespace Wok.Grammar.Scan

open Wok.Grammar.Trivia (WokComment)

/-- One plus the distance from the last newline, or from the start. -/
def columnAfter (pre : List UInt8) : Nat :=
  (pre.reverse.takeWhile fun b => b != byte '\n').length + 1

/-! ### Segments -/

/-- The segments with the offsets where they start, the first at `i`. -/
def place : Nat → List Segment → List (Nat × Segment)
  | _, [] => []
  | i, seg :: segs => (i, seg) :: place (i + seg.bytes.length) segs

def tokensOf (segs : List Segment) : List WokToken :=
  segs.filterMap fun seg => match seg with
    | .token _ t => some t
    | _ => none

def commentsOf (segs : List Segment) : List WokComment :=
  segs.filterMap fun seg => match seg with
    | .comment _ c => some c
    | _ => none

/-- What is recorded of a segment that starts at an offset of the source; offsets, lengths and
columns are recorded in 32 bits. -/
def Recorded (src : List UInt8) (i : Nat) : Segment → Prop
  | .blank b => isBlank b
  | .comment bs c => bs ≠ [] ∧ c.off = UInt32.ofNat i ∧ c.len = UInt32.ofNat bs.length
  | .token bs t => bs ≠ [] ∧ t.off = UInt32.ofNat i ∧ t.len = UInt32.ofNat bs.length ∧
      t.col = UInt32.ofNat (columnAfter (src.take i)) ∧ t.kind ≠ .eof

/-- A source cut into segments, which the tokens and the comments record. -/
structure Segmented (src : List UInt8) (result : WokScanResult) (segs : List Segment)
    (eof : WokToken) : Prop where
  bytes : segs.flatMap Segment.bytes = src
  recorded : ∀ x ∈ place 0 segs, Recorded src x.1 x.2
  tokens : result.tokens = tokensOf segs ++ [eof]
  comments : result.comments = commentsOf segs
  eof : eof.kind = .eof ∧ eof.off = UInt32.ofNat src.length ∧ eof.len = 0 ∧
    eof.col = UInt32.ofNat (columnAfter src)

/-! ### Spans and columns -/

/-- Spans in order and apart, empty at the end of the file only, blanks outside, and columns. -/
structure WellScanned (src : List UInt8) (tok : List WokToken) (com : List WokComment) :
    Prop where
  tokens_ordered : tok.Pairwise fun a b => a.off.toNat + a.len.toNat ≤ b.off.toNat
  comments_ordered : com.Pairwise fun a b => a.off.toNat + a.len.toNat ≤ b.off.toNat
  disjoint : ∀ t ∈ tok, ∀ c ∈ com, t.off.toNat + t.len.toNat ≤ c.off.toNat ∨
    c.off.toNat + c.len.toNat ≤ t.off.toNat
  tokens_empty : ∀ t ∈ tok, t.len = 0 ↔ t.kind = .eof
  comments_nonempty : ∀ c ∈ com, c.len ≠ 0
  blank : ∀ i, (hi : i < src.length) →
    (∀ t ∈ tok, ¬ (t.off.toNat ≤ i ∧ i < t.off.toNat + t.len.toNat)) →
    (∀ c ∈ com, ¬ (c.off.toNat ≤ i ∧ i < c.off.toNat + c.len.toNat)) → isBlank src[i]
  columns : ∀ t ∈ tok, t.col.toNat = columnAfter (src.take t.off.toNat)
  reaches : ∃ ts e, tok = ts ++ [e] ∧ e.kind = .eof ∧ e.off.toNat = src.length ∧
    ∀ t ∈ ts, t.kind ≠ .eof

/-! ### Line flags -/

/-- A token is flagged exactly when a newline is between the previous token and it, or when it
is the first; `due` says so for the token that comes next. -/
def LineFlags (eof : WokToken) : Bool → List Segment → Prop
  | due, [] => eof.isFirstOnLine = due
  | due, .blank b :: segs => LineFlags eof (due || b == byte '\n') segs
  | due, .comment bs _ :: segs => LineFlags eof (due || bs.contains (byte '\n')) segs
  | due, .token _ t :: segs => t.isFirstOnLine = due ∧ LineFlags eof false segs

/-- A literal with a newline in it stands first on its line. -/
def BreaksOnFirst : Bool → List Segment → Prop
  | _, [] => True
  | due, .blank b :: segs => BreaksOnFirst (due || b == byte '\n') segs
  | due, .comment bs _ :: segs => BreaksOnFirst (due || bs.contains (byte '\n')) segs
  | due, .token bs t :: segs =>
      (isLiteral t.kind = true → [byte '\\', byte '\n'] <:+: bs → due = true) ∧
        BreaksOnFirst false segs

end Wok.Grammar.Scan
