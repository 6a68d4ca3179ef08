/-
Module: Wok.Grammar.Scan
Purpose: The scanner: tokens and comments off the front of a source, with the offsets, columns
  and line flags that they carry, and what is reported on the way.
Imports: Wok.Grammar.Token, Wok.Grammar.Utf8, Wok.Grammar.Trivia
Trusted boundary: none
Main exports: Cursor, Scanner, emit, addComment, advance, skipBlockComment, scanLiteral,
  scanItem, Moves, Segment, Takes, scanItem_takes, scanGo, wokScan
-/
import Mathlib.Data.List.TakeWhile
import Mathlib.Tactic.SplitIfs
import Wok.Grammar.Token
import Wok.Grammar.Trivia
import Wok.Grammar.Utf8

namespace Wok.Grammar.Scan

open Wok.Grammar.Trivia (WokComment)

/-! ### Words and kinds -/

/-- A character of ASCII as a byte. -/
def byte (c : Char) : UInt8 := UInt8.ofNat c.toNat

def bytes (s : String) : List UInt8 := s.toList.map byte

/-- The kind that a word is put out as. -/
def wokWordKind : WokWord → WokKind
  | .none => .bad
  | .once | .own | .lend | .copy | .left | .right | .tighter | .looser | .than | .row | .eff =>
      .varid
  | .plus => .varsym
  | _ => .keyword

/-- The spellings, in the order in which they are compared. -/
def identWords : List (List UInt8 × WokWord) :=
  [(bytes "as", .as_), (bytes "in", .in_), (bytes "if", .if_), (bytes "of", .of_),
   (bytes "let", .let_), (bytes "var", .var), (bytes "use", .use), (bytes "own", .own),
   (bytes "eff", .eff), (bytes "row", .row),
   (bytes "type", .type_), (bytes "case", .case_), (bytes "then", .then_),
   (bytes "else", .else_), (bytes "with", .with_), (bytes "once", .once), (bytes "copy", .copy),
   (bytes "lend", .lend), (bytes "left", .left), (bytes "than", .than),
   (bytes "abort", .abort), (bytes "alias", .alias_), (bytes "class", .class_),
   (bytes "where", .where_), (bytes "right", .right),
   (bytes "module", .module_), (bytes "import", .import_), (bytes "effect", .effect),
   (bytes "handle", .handle), (bytes "return", .return_), (bytes "extern", .extern_),
   (bytes "fixity", .fixity), (bytes "looser", .looser),
   (bytes "foreign", .foreign), (bytes "handler", .handler), (bytes "tighter", .tighter),
   (bytes "instance", .instance_)]

def wordOfIdent (s : List UInt8) : WokWord :=
  match identWords.find? fun w => w.1 = s with
  | some w => w.2
  | none => .none

/-- A run of symbols that is reserved. -/
def reservedSym (s : List UInt8) : WokKind :=
  if s = bytes "=" then .equals
  else if s = bytes ":" then .colon
  else if s = bytes "|" then .bar
  else if s = bytes "->" then .arrow
  else if s = bytes "=>" then .fatarrow
  else if s = bytes "::" then .coloncolon
  else if s = bytes ":=" then .assign
  else .varsym

/-! ### Character classes -/

def bit (c : Char) : UInt64 := 1 <<< (UInt64.ofNat c.toNat &&& 63)

def ccSymLo : UInt64 :=
  bit '!' ||| bit '#' ||| bit '$' ||| bit '%' ||| bit '&' ||| bit '*' ||| bit '+' ||| bit '-' |||
    bit '/' ||| bit ':' ||| bit '<' ||| bit '=' ||| bit '>' ||| bit '?'

def ccSymHi : UInt64 := bit '@' ||| bit '^' ||| bit '|' ||| bit '~'

def isSym (c : UInt8) : Bool :=
  if c < 64 then (ccSymLo >>> c.toUInt64) &&& 1 != 0
  else if c < 128 then (ccSymHi >>> (c - 64).toUInt64) &&& 1 != 0
  else false

def isLower (c : UInt8) : Bool := byte 'a' ≤ c && c ≤ byte 'z'
def isUpper (c : UInt8) : Bool := byte 'A' ≤ c && c ≤ byte 'Z'
def isDigit (c : UInt8) : Bool := byte '0' ≤ c && c ≤ byte '9'

def isIdentStart (c : UInt8) : Bool := isLower c || isUpper c || c == byte '_'
def isIdentCont (c : UInt8) : Bool := isIdentStart c || isDigit c || c == byte '\''

def isHex (c : UInt8) : Bool :=
  isDigit c || (byte 'a' ≤ c && c ≤ byte 'f') || (byte 'A' ≤ c && c ≤ byte 'F')

/-- The escapes of one character. -/
def isEscape (c : UInt8) : Bool :=
  [byte '\\', byte '"', byte '\'', byte 'n', byte 't', byte 'r', byte '0'].contains c

/-! ### The scanner -/

/-- What is reported, and where. -/
inductive LexDiag where
  | utf8 (off : UInt32) (at_ : UInt8)
  | tab (off : UInt32)
  | unterminatedComment (off : UInt32)
  | unterminatedLiteral (off : UInt32) (quote : UInt8)
  | hexDigits (off : UInt32)
  | unknownEscape (off : UInt32) (e : UInt8)
  | semi (off : UInt32)
  | strayByte (off : UInt32) (c : UInt8)
  deriving Repr, DecidableEq

/-- The place in the source: the offset, the column, and whether a line has begun since the
last token. -/
structure Cursor where
  i : Nat
  col : UInt32
  linePending : Bool
  deriving Repr, DecidableEq

structure Scanner extends Cursor where
  tabReportedThisLine : Bool
  tok : List WokToken
  com : List WokComment
  diag : List LexDiag
  deriving Repr, DecidableEq

def tfHasEscape : UInt16 := 2

def Scanner.report (s : Scanner) (d : LexDiag) : Scanner := { s with diag := s.diag ++ [d] }

def emit (s : Scanner) (k : WokKind) (w : WokWord) (off len col : UInt32) (extra : UInt16) :
    Scanner :=
  { s with
    tok := s.tok ++
      [⟨off, len, col, k, w, if s.linePending then extra ||| tfFirstOnLine else extra⟩]
    linePending := false }

def addComment (s : Scanner) (off len : UInt32) (block : Bool) : Scanner :=
  { s with com := s.com ++ [⟨off, len, block⟩] }

def Cursor.advance (s : Cursor) (b : UInt8) : Cursor :=
  if b = byte '\n' then ⟨s.i + 1, 1, true⟩ else { s with i := s.i + 1, col := s.col + 1 }

def advance (s : Scanner) (b : UInt8) : Scanner :=
  { s with
    toCursor := s.toCursor.advance b
    tabReportedThisLine := if b = byte '\n' then false else s.tabReportedThisLine }

/-- The reports of the validation up front. -/
def validateUtf8 (src : List UInt8) (i : Nat) : List LexDiag :=
  let bad := i + wokUtf8FindInvalid (src.drop i)
  if _hbad : bad < src.length then
    .utf8 (UInt32.ofNat bad) (src.getD bad 0) :: validateUtf8 src (bad + 1)
  else []
termination_by src.length - i

/-- The bytes of the source that a token's offset and length select. -/
def textAt (src : List UInt8) (off len : UInt32) : List UInt8 :=
  (src.drop off.toNat).take len.toNat

/-! ### Loops -/

/-- Advance over the bytes of a class. -/
def advanceWhile (f : UInt8 → Bool) : List UInt8 → Scanner → List UInt8 × Scanner
  | [], s => ([], s)
  | b :: p, s => if f b then advanceWhile f p (advance s b) else (b :: p, s)

/-- The loop over a block comment; the depth at its end is 0 when it was closed. -/
def skipBlockGo : UInt32 → List UInt8 → Scanner → UInt32 × List UInt8 × Scanner
  | depth, [], s => (depth, [], s)
  | depth, [b], s => (depth, [], advance s b)
  | depth, b :: b' :: p, s =>
      if b = byte '{' ∧ b' = byte '-' then skipBlockGo (depth + 1) p (advance (advance s b) b')
      else if b = byte '-' ∧ b' = byte '}' then
        if depth - 1 = 0 then (0, p, advance (advance s b) b')
        else skipBlockGo (depth - 1) p (advance (advance s b) b')
      else skipBlockGo depth (b' :: p) (advance s b)

def skipBlockComment (p : List UInt8) (s : Scanner) : List UInt8 × Scanner :=
  let off := UInt32.ofNat s.i
  match skipBlockGo 0 p s with
  | (depth, p, s) =>
      let s := if depth ≠ 0 then s.report (.unterminatedComment off) else s
      (p, addComment s off (UInt32.ofNat s.i - off) true)

/-- Up to two hexadecimal digits. -/
def hexGo : Nat → List UInt8 → Scanner → Nat → Nat × List UInt8 × Scanner
  | 0, p, s, hex => (hex, p, s)
  | _ + 1, [], s, hex => (hex, [], s)
  | left + 1, b :: p, s, hex =>
      if isHex b then hexGo left p (advance s b) (hex + 1) else (hex, b :: p, s)

/-- What follows a backslash at the offset `esc`. -/
def scanEscape (esc : UInt32) (e : UInt8) (p : List UInt8) (s : Scanner) :
    List UInt8 × Scanner :=
  if isEscape e then (p, advance s e)
  else if e = byte 'x' then
    match hexGo 2 p (advance s e) 0 with
    | (hex, p, s) => (p, if hex ≠ 2 then s.report (.hexDigits esc) else s)
  else (p, advance (s.report (.unknownEscape esc e)) e)

theorem hexGo_length (left : Nat) (p : List UInt8) (s : Scanner) (hex : Nat) :
    (hexGo left p s hex).2.1.length ≤ p.length := by
  fun_induction hexGo left p s hex with
  | case1 => exact Nat.le_refl _
  | case2 => exact Nat.le_refl _
  | case3 s hex left b p _ ih =>
      rw [List.length_cons]
      omega
  | case4 => exact Nat.le_refl _

theorem scanEscape_length (esc : UInt32) (e : UInt8) (p : List UInt8) (s : Scanner) :
    (scanEscape esc e p s).1.length ≤ p.length := by
  unfold scanEscape
  split
  · exact Nat.le_refl _
  · split
    · exact hexGo_length 2 p (advance s e) 0
    · exact Nat.le_refl _

/-- The loop over a literal: whether it was closed, and the flags of its token. -/
def literalGo (quote : UInt8) (p : List UInt8) (s : Scanner) (extra : UInt16) :
    Bool × UInt16 × List UInt8 × Scanner :=
  match p with
  | [] => (false, extra, [], s)
  | c :: p =>
      if c = byte '\n' then (false, extra, c :: p, s)
      else if c = byte '\\' then
        match p with
        | [] => (false, extra ||| tfHasEscape, [], advance s c)
        | e :: q =>
            let next := scanEscape (UInt32.ofNat s.i) e q (advance s c)
            literalGo quote next.1 next.2 (extra ||| tfHasEscape)
      else if c = quote then (true, extra, p, advance s c)
      else literalGo quote p (advance s c) extra
termination_by p.length
decreasing_by
  · have hlen := scanEscape_length (UInt32.ofNat s.i) e q (advance s c)
    simp only [List.length_cons]
    omega
  · simp only [List.length_cons]
    omega

def scanLiteral (quote : UInt8) (p : List UInt8) (s : Scanner) : List UInt8 × Scanner :=
  let off := UInt32.ofNat s.i
  match literalGo quote p (advance s quote) 0 with
  | (closed, extra, p, s') =>
      let s' := if closed then s' else s'.report (.unterminatedLiteral off quote)
      (p, emit s' (if quote = byte '"' then .string else .char) .none off
        (UInt32.ofNat s'.i - off) s.col extra)

/-! ### One item -/

/-- A run of symbols: an operator, or a line comment when it is dashes only. -/
def scanSym (src p : List UInt8) (s : Scanner) : List UInt8 × Scanner :=
  let off := UInt32.ofNat s.i
  match advanceWhile isSym p s with
  | (p, s') =>
      let len := UInt32.ofNat s'.i - off
      let allDash := (List.range len.toNat).all fun k =>
        src.getD (off + UInt32.ofNat k).toNat 0 == byte '-'
      if allDash ∧ 2 ≤ len then
        match advanceWhile (fun b => b != byte '\n') p s' with
        | (p, s') => (p, addComment s' off (UInt32.ofNat s'.i - off) false)
      else
        let text := textAt src off len
        (p, emit s' (reservedSym text) (if text = bytes "+" then .plus else .none) off len s.col 0)

/-- An identifier, whose first byte decides between the two classes of names. -/
def scanIdent (src : List UInt8) (c : UInt8) (p : List UInt8) (s : Scanner) :
    List UInt8 × Scanner :=
  let off := UInt32.ofNat s.i
  match advanceWhile isIdentCont p s with
  | (p, s') =>
      let len := UInt32.ofNat s'.i - off
      let w := if isUpper c then .none else wordOfIdent (textAt src off len)
      let k := if isUpper c then .conid else if w ≠ .none then wokWordKind w else .varid
      (p, emit s' k w off len s.col 0)

def scanInt (p : List UInt8) (s : Scanner) : List UInt8 × Scanner :=
  let off := UInt32.ofNat s.i
  match advanceWhile (fun b => isDigit b || b == byte '_') p s with
  | (p, s') => (p, emit s' .int .none off (UInt32.ofNat s'.i - off) s.col 0)

/-- A token of one byte. -/
def emitOne (s : Scanner) (k : WokKind) (c : UInt8) : Scanner :=
  emit (advance s c) k .none (UInt32.ofNat s.i) 1 s.col 0

def scanDot (c : UInt8) (p : List UInt8) (s : Scanner) : List UInt8 × Scanner :=
  match p with
  | b :: q =>
      if b = byte '.' then
        (q, emit (advance (advance s c) b) .dotdot .none (UInt32.ofNat s.i) 2 s.col 0)
      else (p, emitOne s .dot c)
  | [] => (p, emitOne s .dot c)

def punctKind (c : UInt8) : WokKind :=
  if c = byte '(' then .lparen
  else if c = byte ')' then .rparen
  else if c = byte '[' then .lbracket
  else if c = byte ']' then .rbracket
  else if c = byte '{' then .lbrace
  else if c = byte '}' then .rbrace
  else if c = byte ',' then .comma
  else if c = byte '\x60' then .backtick
  else if c = byte '\\' then .lambda
  else .bad

def scanPunct (c : UInt8) (s : Scanner) : Scanner :=
  let s' := emitOne s (punctKind c) c
  if punctKind c = .bad then s'.report (.strayByte (UInt32.ofNat s.i) c) else s'

/-- A tab in indentation is reported, once for each line. -/
def reportTab (s : Scanner) : Scanner :=
  if s.linePending ∧ ¬ s.tabReportedThisLine then
    { s.report (.tab (UInt32.ofNat s.i)) with tabReportedThisLine := true }
  else s

/-- One round of the main loop, at the byte `c` with `p` after it. -/
def scanItem (src : List UInt8) (c : UInt8) (p : List UInt8) (s : Scanner) :
    List UInt8 × Scanner :=
  if c = byte ' ' ∨ c = byte '\n' ∨ c = byte '\r' then (p, advance s c)
  else if c = byte '\t' then (p, advance (reportTab s) c)
  else if c = byte '{' ∧ p.head? = some (byte '-') then skipBlockComment (c :: p) s
  else if isSym c then scanSym src (c :: p) s
  else if c = byte '_' ∧ ¬ p.head?.any isIdentCont then (p, emitOne s .underscore c)
  else if isIdentStart c then scanIdent src c (c :: p) s
  else if isDigit c then scanInt (c :: p) s
  else if c = byte '"' ∨ c = byte '\'' then scanLiteral c p s
  else if c = byte '.' then scanDot c p s
  else if c = byte ';' then (p, (emitOne s .semi c).report (.semi (UInt32.ofNat s.i)))
  else (p, scanPunct c s)

/-! ### What is consumed -/

/-- From one place to a later one over `bs`, with the same tokens and comments so far. -/
structure Moves (bs : List UInt8) (p : List UInt8) (s : Scanner) (p' : List UInt8)
    (s' : Scanner) : Prop where
  input : p = bs ++ p'
  cursor : s'.toCursor = bs.foldl Cursor.advance s.toCursor
  tok : s'.tok = s.tok
  com : s'.com = s.com

namespace Moves

variable {bs bs' p p' p'' : List UInt8} {s s' s'' : Scanner} {b : UInt8}

theorem refl (p : List UInt8) (s : Scanner) : Moves [] p s p s := ⟨rfl, rfl, rfl, rfl⟩

theorem trans (h : Moves bs p s p' s') (h' : Moves bs' p' s' p'' s'') :
    Moves (bs ++ bs') p s p'' s'' where
  input := by rw [h.input, h'.input, List.append_assoc]
  cursor := by rw [h'.cursor, h.cursor, List.foldl_append]
  tok := h'.tok.trans h.tok
  com := h'.com.trans h.com

theorem step (b : UInt8) (p : List UInt8) (s : Scanner) : Moves [b] (b :: p) s p (advance s b) :=
  ⟨rfl, rfl, rfl, rfl⟩

theorem cons (h : Moves bs p (advance s b) p' s') : Moves (b :: bs) (b :: p) s p' s' :=
  (step b p s).trans h

theorem report (d : LexDiag) (h : Moves bs p s p' s') : Moves bs p s p' (s'.report d) :=
  ⟨h.input, h.cursor, h.tok, h.com⟩

theorem length (h : Moves bs p s p' s') : p.length = bs.length + p'.length := by
  rw [h.input, List.length_append]

end Moves

theorem advanceWhile_moves (f : UInt8 → Bool) (p : List UInt8) (s : Scanner) :
    Moves (p.takeWhile f) p s (advanceWhile f p s).1 (advanceWhile f p s).2 := by
  fun_induction advanceWhile f p s with
  | case1 s => exact Moves.refl [] s
  | case2 b p s hf ih =>
      rw [List.takeWhile_cons_of_pos hf]
      exact ih.cons
  | case3 b p s hf =>
      rw [List.takeWhile_cons_of_neg hf]
      exact Moves.refl _ s

theorem skipBlockGo_moves (depth : UInt32) (p : List UInt8) (s : Scanner) :
    ∃ bs, Moves bs p s (skipBlockGo depth p s).2.1 (skipBlockGo depth p s).2.2 ∧
      (p ≠ [] → bs ≠ []) := by
  fun_induction skipBlockGo depth p s with
  | case1 depth s => exact ⟨[], Moves.refl [] s, id⟩
  | case2 depth b s => exact ⟨[b], Moves.step b [] s, fun _ => List.cons_ne_nil b []⟩
  | case3 depth b b' p s _ ih =>
      obtain ⟨bs, hbs, -⟩ := ih
      exact ⟨b :: b' :: bs, hbs.cons.cons, fun _ => List.cons_ne_nil b _⟩
  | case4 depth b b' p s _ _ _ =>
      exact ⟨[b, b'], (Moves.step b' p (advance s b)).cons, fun _ => List.cons_ne_nil b _⟩
  | case5 depth b b' p s _ _ _ ih =>
      obtain ⟨bs, hbs, -⟩ := ih
      exact ⟨b :: b' :: bs, hbs.cons.cons, fun _ => List.cons_ne_nil b _⟩
  | case6 depth b b' p s _ _ ih =>
      obtain ⟨bs, hbs, -⟩ := ih
      exact ⟨b :: bs, hbs.cons, fun _ => List.cons_ne_nil b _⟩

theorem hexGo_moves (left : Nat) (p : List UInt8) (s : Scanner) (hex : Nat) :
    ∃ bs, Moves bs p s (hexGo left p s hex).2.1 (hexGo left p s hex).2.2 ∧
      ∀ b ∈ bs, isHex b = true := by
  fun_induction hexGo left p s hex with
  | case1 p s hex => exact ⟨[], Moves.refl p s, by simp⟩
  | case2 _ s hex => exact ⟨[], Moves.refl [] s, by simp⟩
  | case3 left b p s hex hb ih =>
      obtain ⟨bs, hbs, hhex⟩ := ih
      exact ⟨b :: bs, hbs.cons, List.forall_mem_cons.mpr ⟨hb, hhex⟩⟩
  | case4 left b p s hex _ => exact ⟨[], Moves.refl _ s, by simp⟩

theorem newline_not_hex : isHex (byte '\n') = false := by decide

theorem scanEscape_moves (esc : UInt32) (e : UInt8) (p : List UInt8) (s : Scanner) :
    ∃ bs, Moves (e :: bs) (e :: p) s (scanEscape esc e p s).1 (scanEscape esc e p s).2 ∧
      byte '\n' ∉ bs := by
  unfold scanEscape
  split
  · exact ⟨[], Moves.step e p s, List.not_mem_nil⟩
  · split
    · obtain ⟨bs, hbs, hhex⟩ := hexGo_moves 2 p (advance s e) 0
      refine ⟨bs, ?_, ?_⟩
      · dsimp only
        split
        · exact hbs.cons.report _
        · exact hbs.cons
      · intro hmem
        have := hhex _ hmem
        rw [newline_not_hex] at this
        cases this
    · exact ⟨[], ⟨rfl, rfl, rfl, rfl⟩, List.not_mem_nil⟩

/-- A newline among the bytes of a literal comes right after a backslash. -/
def Escaped (bs : List UInt8) : Prop :=
  byte '\n' ∈ bs → [byte '\\', byte '\n'] <:+: bs

theorem Escaped.cons {bs : List UInt8} {b : UInt8} (hb : b ≠ byte '\n') (h : Escaped bs) :
    Escaped (b :: bs) := by
  intro hmem
  rcases List.mem_cons.mp hmem with heq | hmem
  · exact absurd heq.symm hb
  · exact (h hmem).trans (List.suffix_cons b bs).isInfix

theorem Escaped.escape {hexes bs : List UInt8} {e : UInt8} (hnone : byte '\n' ∉ hexes)
    (h : Escaped bs) : Escaped (byte '\\' :: ((e :: hexes) ++ bs)) := by
  intro hmem
  by_cases he : e = byte '\n'
  · subst he
    exact (List.prefix_append [byte '\\', byte '\n'] (hexes ++ bs)).isInfix
  · have hbs : byte '\n' ∈ bs := by
      rcases List.mem_cons.mp hmem with heq | hmem
      · exact absurd heq (by decide)
      · rcases List.mem_append.mp hmem with hmem | hmem
        · rcases List.mem_cons.mp hmem with heq | hmem
          · exact absurd heq.symm he
          · exact absurd hmem hnone
        · exact hmem
    exact (h hbs).trans (List.suffix_append (byte '\\' :: e :: hexes) bs).isInfix

theorem literalGo_moves (quote : UInt8) (p : List UInt8) (s : Scanner) (extra : UInt16) :
    ∃ bs, Moves bs p s (literalGo quote p s extra).2.2.1 (literalGo quote p s extra).2.2.2 ∧
      Escaped bs := by
  fun_induction literalGo quote p s extra with
  | case1 s extra => exact ⟨[], Moves.refl [] s, by simp [Escaped]⟩
  | case2 s extra p => exact ⟨[], Moves.refl _ s, by simp [Escaped]⟩
  | case3 s extra hc =>
      exact ⟨[byte '\\'], Moves.step _ [] s,
        fun hmem => absurd (List.mem_singleton.mp hmem).symm hc⟩
  | case4 s extra e q hc next ih =>
      obtain ⟨bs, hbs, hescaped⟩ := ih
      obtain ⟨hexes, hmoves, hnone⟩ :=
        scanEscape_moves (UInt32.ofNat s.i) e q (advance s (byte '\\'))
      exact ⟨_, (hmoves.trans hbs).cons, hescaped.escape hnone⟩
  | case5 s extra p hc hesc =>
      exact ⟨[quote], Moves.step _ p s, fun hmem => absurd (List.mem_singleton.mp hmem).symm hc⟩
  | case6 s extra c p hc hesc hquote ih =>
      obtain ⟨bs, hbs, hescaped⟩ := ih
      exact ⟨c :: bs, hbs.cons, hescaped.cons hc⟩

/-- The flags of a literal are its own; the line flag comes with `emit`. -/
theorem literalGo_extra (quote : UInt8) (p : List UInt8) (s : Scanner) (extra : UInt16)
    (h : extra = 0 ∨ extra = tfHasEscape) :
    (literalGo quote p s extra).2.1 = 0 ∨ (literalGo quote p s extra).2.1 = tfHasEscape := by
  have hor : extra ||| tfHasEscape = 0 ∨ extra ||| tfHasEscape = tfHasEscape := by
    rcases h with rfl | rfl
    · right
      rfl
    · right
      rfl
  fun_induction literalGo quote p s extra with
  | case1 => exact h
  | case2 => exact h
  | case3 => exact hor
  | case4 s extra e q hc next ih =>
      apply ih hor
      rcases hor with heq | heq
      · rw [heq]
        right
        rfl
      · rw [heq]
        right
        rfl
  | case5 => exact h
  | case6 s extra c p hc hesc hquote ih => exact ih h hor

/-! ### One round, as a segment of the source -/

def isBlank (b : UInt8) : Bool :=
  b == byte ' ' || b == byte '\t' || b == byte '\r' || b == byte '\n'

/-- What a round takes off the front of the source. -/
inductive Segment where
  | blank (b : UInt8)
  | comment (bytes : List UInt8) (c : WokComment)
  | token (bytes : List UInt8) (t : WokToken)
  deriving Repr, DecidableEq

def Segment.bytes : Segment → List UInt8
  | .blank b => [b]
  | .comment bytes _ => bytes
  | .token bytes _ => bytes

def isLiteral (k : WokKind) : Bool := k == .string || k == .char

/-- The token that stands for `bs` when the scanner is at `s` in front of it. -/
structure Stands (s : Cursor) (bs : List UInt8) (t : WokToken) : Prop where
  nonempty : bs ≠ []
  off : t.off = UInt32.ofNat s.i
  len : t.len = UInt32.ofNat bs.length
  col : t.col = s.col
  first : t.isFirstOnLine = (bs.foldl Cursor.advance s).linePending
  kind : t.kind ≠ .eof
  newline : byte '\n' ∈ bs → isLiteral t.kind ∧ [byte '\\', byte '\n'] <:+: bs

/-- A round that takes a segment. -/
inductive Takes (p : List UInt8) (s : Scanner) (p' : List UInt8) (s' : Scanner) :
    Segment → Prop where
  | blank {b : UInt8} : isBlank b → Moves [b] p s p' s' → Takes p s p' s' (.blank b)
  | comment {bs : List UInt8} {c : WokComment} : bs ≠ [] → p = bs ++ p' →
      s'.toCursor = bs.foldl Cursor.advance s.toCursor → s'.tok = s.tok → s'.com = s.com ++ [c] →
      c.off = UInt32.ofNat s.i → c.len = UInt32.ofNat bs.length → Takes p s p' s' (.comment bs c)
  | token {bs : List UInt8} {t : WokToken} : p = bs ++ p' →
      s'.toCursor = { bs.foldl Cursor.advance s.toCursor with linePending := false } →
      s'.tok = s.tok ++ [t] → s'.com = s.com → Stands s.toCursor bs t →
      Takes p s p' s' (.token bs t)

theorem foldl_advance_i (bs : List UInt8) (s : Cursor) :
    (bs.foldl Cursor.advance s).i = s.i + bs.length := by
  induction bs generalizing s with
  | nil => rfl
  | cons b bs ih =>
      have hstep : (s.advance b).i = s.i + 1 := by
        unfold Cursor.advance
        split <;> rfl
      rw [List.foldl_cons, ih, hstep, List.length_cons]
      omega

variable {src bs p p' : List UInt8} {s s' : Scanner} {c : UInt8}

/-- The length that the code computes from the two offsets. -/
theorem Moves.len (h : Moves bs p s p' s') :
    UInt32.ofNat s'.i - UInt32.ofNat s.i = UInt32.ofNat bs.length := by
  have hi : s'.i = s.i + bs.length := by
    have := foldl_advance_i bs s.toCursor
    rw [← h.cursor] at this
    exact this
  rw [hi, UInt32.ofNat_add]
  grind

theorem Moves.emit {k : WokKind} {w : WokWord} {len : UInt32} {extra : UInt16}
    (h : Moves bs p s p' s') (hne : bs ≠ []) (hlen : len = UInt32.ofNat bs.length)
    (hextra : extra = 0 ∨ extra = tfHasEscape) (hk : k ≠ .eof)
    (hnl : byte '\n' ∈ bs → isLiteral k ∧ [byte '\\', byte '\n'] <:+: bs) :
    ∃ t, Takes p s p' (emit s' k w (UInt32.ofNat s.i) len s.col extra) (.token bs t) := by
  refine ⟨⟨UInt32.ofNat s.i, len, s.col, k, w,
    if s'.linePending then extra ||| tfFirstOnLine else extra⟩,
    .token h.input ?_ ?_ h.com ⟨hne, rfl, hlen, rfl, ?_, hk, hnl⟩⟩
  · rw [← h.cursor]
    rfl
  · change s'.tok ++ _ = _
    rw [h.tok]
  · rw [← h.cursor]
    change ((if s'.linePending then extra ||| tfFirstOnLine else extra) &&& tfFirstOnLine != 0)
      = _
    rcases hextra with rfl | rfl <;> cases s'.linePending <;> rfl

theorem Moves.addComment {block : Bool} {off len : UInt32} (h : Moves bs p s p' s') (hne : bs ≠ [])
    (hoff : off = UInt32.ofNat s.i) (hlen : len = UInt32.ofNat bs.length) :
    ∃ com, Takes p s p' (addComment s' off len block) (.comment bs com) := by
  refine ⟨⟨off, len, block⟩, .comment hne h.input h.cursor h.tok ?_ hoff hlen⟩
  change s'.com ++ _ = _
  rw [h.com]

theorem Takes.report {seg : Segment} (d : LexDiag) (h : Takes p s p' s' seg) :
    Takes p s p' (s'.report d) seg := by
  cases h with
  | blank hb hm => exact .blank hb (hm.report d)
  | comment hne hp hcur htok hcom hoff hlen => exact .comment hne hp hcur htok hcom hoff hlen
  | token hp hcur htok hcom hst => exact .token hp hcur htok hcom hst

theorem not_mem_of_all {f : UInt8 → Bool} {b : UInt8} (hb : f b = false)
    (h : ∀ x ∈ bs, f x = true) : b ∉ bs := by
  intro hmem
  have := h b hmem
  rw [hb] at this
  cases this

theorem not_mem_takeWhile {f : UInt8 → Bool} {b : UInt8} (hb : f b = false) (p : List UInt8) :
    b ∉ p.takeWhile f :=
  not_mem_of_all hb fun _ hx => List.mem_takeWhile_imp hx

/-- A token of one byte that is no newline. -/
theorem emitOne_takes {k : WokKind} (hc : c ≠ byte '\n') (hk : k ≠ .eof) :
    ∃ t, Takes (c :: p) s p (emitOne s k c) (.token [c] t) :=
  (Moves.step c p s).emit (List.cons_ne_nil c []) rfl (Or.inl rfl) hk
    fun hmem => absurd (List.mem_singleton.mp hmem).symm hc

theorem skipBlockComment_takes (h : p ≠ []) :
    ∃ bs com, Takes p s (skipBlockComment p s).1 (skipBlockComment p s).2 (.comment bs com) := by
  obtain ⟨bs, hbs, hne⟩ := skipBlockGo_moves 0 p s
  unfold skipBlockComment
  dsimp only
  split
  · exact ⟨bs, (hbs.report _).addComment (hne h) rfl (hbs.report (.semi 0)).len⟩
  · exact ⟨bs, hbs.addComment (hne h) rfl hbs.len⟩

theorem scanSym_takes (hc : isSym c = true) :
    ∃ seg, Takes (c :: p) s (scanSym src (c :: p) s).1 (scanSym src (c :: p) s).2 seg := by
  have hmoves := advanceWhile_moves isSym (c :: p) s
  have hne : (c :: p).takeWhile isSym ≠ [] := by
    rw [List.takeWhile_cons_of_pos hc]
    exact List.cons_ne_nil _ _
  have hnl : byte '\n' ∉ (c :: p).takeWhile isSym := not_mem_takeWhile (by decide) _
  have hk : ∀ text, reservedSym text ≠ .eof := by
    intro text
    unfold reservedSym
    split_ifs <;> decide
  unfold scanSym
  dsimp only
  split
  · have hmore := hmoves.trans (advanceWhile_moves (fun b => b != byte '\n')
      (advanceWhile isSym (c :: p) s).1 (advanceWhile isSym (c :: p) s).2)
    obtain ⟨com, hcom⟩ := hmore.addComment (List.append_ne_nil_of_left_ne_nil hne _) rfl hmore.len
    exact ⟨_, hcom⟩
  · obtain ⟨t, ht⟩ := hmoves.emit (k := reservedSym _) hne hmoves.len (Or.inl rfl) (hk _)
      fun hmem => absurd hmem hnl
    exact ⟨_, ht⟩

theorem wokWordKind_ne_eof (w : WokWord) : wokWordKind w ≠ .eof := by
  cases w <;> decide

theorem scanIdent_takes (hc : isIdentCont c = true) :
    ∃ bs t, Takes (c :: p) s (scanIdent src c (c :: p) s).1 (scanIdent src c (c :: p) s).2
      (.token bs t) := by
  have hmoves := advanceWhile_moves isIdentCont (c :: p) s
  have hne : (c :: p).takeWhile isIdentCont ≠ [] := by
    rw [List.takeWhile_cons_of_pos hc]
    exact List.cons_ne_nil _ _
  have hnl : byte '\n' ∉ (c :: p).takeWhile isIdentCont := not_mem_takeWhile (by decide) _
  unfold scanIdent
  dsimp only
  refine ⟨_, hmoves.emit hne hmoves.len (Or.inl rfl) ?_ fun hmem => absurd hmem hnl⟩
  split_ifs
  · decide
  · exact wokWordKind_ne_eof _
  · decide

theorem scanInt_takes (hc : isDigit c = true) :
    ∃ bs t, Takes (c :: p) s (scanInt (c :: p) s).1 (scanInt (c :: p) s).2 (.token bs t) := by
  let digit : UInt8 → Bool := fun b => isDigit b || b == byte '_'
  have hmoves := advanceWhile_moves digit (c :: p) s
  have hne : (c :: p).takeWhile digit ≠ [] := by
    rw [List.takeWhile_cons_of_pos (by simp [digit, hc])]
    exact List.cons_ne_nil _ _
  have hnl : byte '\n' ∉ (c :: p).takeWhile digit := not_mem_takeWhile (by decide) _
  unfold scanInt
  exact ⟨_, hmoves.emit hne hmoves.len (Or.inl rfl) (by decide) fun hmem => absurd hmem hnl⟩

theorem scanLiteral_takes (hc : c ≠ byte '\n') :
    ∃ bs t, Takes (c :: p) s (scanLiteral c p s).1 (scanLiteral c p s).2 (.token bs t) := by
  obtain ⟨bs, hbs, hescaped⟩ := literalGo_moves c p (advance s c) 0
  have hextra := literalGo_extra c p (advance s c) 0 (Or.inl rfl)
  have hmoves := hbs.cons
  have hnl : ∀ k : WokKind, isLiteral k → byte '\n' ∈ c :: bs →
      isLiteral k ∧ [byte '\\', byte '\n'] <:+: (c :: bs) :=
    fun k hk hmem => ⟨hk, hescaped.cons hc hmem⟩
  have hkind : isLiteral (if c = byte '"' then .string else .char) = true ∧
      (if c = byte '"' then WokKind.string else .char) ≠ .eof := by
    split <;> decide
  unfold scanLiteral
  dsimp only
  split
  · exact ⟨_, hmoves.emit (List.cons_ne_nil _ _) hmoves.len hextra hkind.2 (hnl _ hkind.1)⟩
  · exact ⟨_, (hmoves.report _).emit (List.cons_ne_nil _ _) (hmoves.report (.semi 0)).len hextra
      hkind.2 (hnl _ hkind.1)⟩

theorem scanDot_takes (hc : c ≠ byte '\n') :
    ∃ bs t, Takes (c :: p) s (scanDot c p s).1 (scanDot c p s).2 (.token bs t) := by
  unfold scanDot
  split
  · rename_i b q
    split
    · rename_i hb
      refine ⟨[c, b], (Moves.step b q (advance s c)).cons.emit (List.cons_ne_nil _ _) rfl
        (Or.inl rfl) (by decide) ?_⟩
      intro hmem
      rcases List.mem_cons.mp hmem with heq | hmem
      · exact absurd heq.symm hc
      · rw [List.mem_singleton, hb] at hmem
        exact absurd hmem (by decide)
    · exact ⟨_, emitOne_takes hc (by decide)⟩
  · exact ⟨_, emitOne_takes hc (by decide)⟩

theorem punctKind_ne_eof (c : UInt8) : punctKind c ≠ .eof := by
  unfold punctKind
  split_ifs <;> decide

/-- Each round takes one segment. -/
theorem scanItem_takes (src : List UInt8) (c : UInt8) (p : List UInt8) (s : Scanner) :
    ∃ seg, Takes (c :: p) s (scanItem src c p s).1 (scanItem src c p s).2 seg := by
  unfold scanItem
  split
  · rename_i hc
    refine ⟨.blank c, .blank ?_ (Moves.step c p s)⟩
    rcases hc with rfl | rfl | rfl <;> decide
  · rename_i hblank
    have hc : c ≠ byte '\n' := fun heq => hblank (Or.inr (Or.inl heq))
    split
    · rename_i htab
      have hmoves : Moves [c] (c :: p) s p (advance (reportTab s) c) := by
        unfold reportTab
        split <;> exact ⟨rfl, rfl, rfl, rfl⟩
      exact ⟨.blank c, .blank (by rw [htab]; decide) hmoves⟩
    · split
      · obtain ⟨bs, com, h⟩ := skipBlockComment_takes (s := s) (List.cons_ne_nil c p)
        exact ⟨_, h⟩
      · split
        · exact scanSym_takes ‹_›
        · split
          · obtain ⟨t, ht⟩ := emitOne_takes (p := p) (s := s) (k := .underscore) hc (by decide)
            exact ⟨_, ht⟩
          · split
            · rename_i hstart
              have hcont : isIdentCont c = true := by simp [isIdentCont, hstart]
              obtain ⟨bs, t, ht⟩ := scanIdent_takes (p := p) (s := s) hcont
              exact ⟨_, ht⟩
            · split
              · obtain ⟨bs, t, ht⟩ := scanInt_takes (p := p) (s := s) ‹_›
                exact ⟨_, ht⟩
              · split
                · obtain ⟨bs, t, ht⟩ := scanLiteral_takes (p := p) (s := s) hc
                  exact ⟨_, ht⟩
                · split
                  · obtain ⟨bs, t, ht⟩ := scanDot_takes (p := p) (s := s) hc
                    exact ⟨_, ht⟩
                  · split
                    · obtain ⟨t, ht⟩ := emitOne_takes (p := p) (s := s) (k := .semi) hc (by decide)
                      exact ⟨_, ht.report _⟩
                    · obtain ⟨t, ht⟩ := emitOne_takes (p := p) (s := s) hc (punctKind_ne_eof c)
                      unfold scanPunct
                      dsimp only
                      split
                      · exact ⟨_, ht.report _⟩
                      · exact ⟨_, ht⟩

/-! ### The main loop -/

theorem Takes.input {seg : Segment} (h : Takes p s p' s' seg) : p = seg.bytes ++ p' := by
  cases h with
  | blank _ hm => exact hm.input
  | comment _ hp _ _ _ _ _ => exact hp
  | token hp _ _ _ _ => exact hp

theorem Takes.nonempty {seg : Segment} (h : Takes p s p' s' seg) : seg.bytes ≠ [] := by
  cases h with
  | blank _ _ => exact List.cons_ne_nil _ _
  | comment hne _ _ _ _ _ _ => exact hne
  | token _ _ _ _ hst => exact hst.nonempty

theorem scanItem_length (src : List UInt8) (c : UInt8) (p : List UInt8) (s : Scanner) :
    (scanItem src c p s).1.length < (c :: p).length := by
  obtain ⟨seg, h⟩ := scanItem_takes src c p s
  have hpos := List.length_pos_iff.mpr h.nonempty
  have hlen := congrArg List.length h.input
  rw [List.length_append] at hlen
  omega

/-- The rounds that are left, with `p` of the source `src` unread. -/
def scanGo (src : List UInt8) (p : List UInt8) (s : Scanner) : Scanner :=
  match p with
  | [] => s
  | c :: p => scanGo src (scanItem src c p s).1 (scanItem src c p s).2
termination_by p.length
decreasing_by exact scanItem_length src c p s

structure WokScanResult where
  tokens : List WokToken
  comments : List WokComment
  diag : List LexDiag
  deriving Repr, DecidableEq

def scannerStart (src : List UInt8) : Scanner :=
  { i := 0, col := 1, linePending := true, tabReportedThisLine := false, tok := [], com := [],
    diag := validateUtf8 src 0 }

def wokScan (src : List UInt8) : WokScanResult :=
  let s := scanGo src src (scannerStart src)
  let s := emit s .eof .none (UInt32.ofNat src.length) 0 s.col 0
  ⟨s.tok, s.com, s.diag⟩

end Wok.Grammar.Scan
