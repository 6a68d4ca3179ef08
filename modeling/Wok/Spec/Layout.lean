/-
Module: Wok.Spec.Layout
Purpose: What the layout filter is for: every line outside brackets closes the blocks
  that it is left of and may open one, and the output shows just that. How many
  tokens that takes.
Imports: Mathlib.Data.List.Chain, Wok.Grammar.Layout
Trusted boundary: none
Main exports: Levels.close, Levels.enter, Position, layoutOf, separators,
  blocksOpened, Scanned, Nested, WellLaid
-/
import Mathlib.Data.List.Chain
import Wok.Grammar.Layout

namespace Wok.Grammar

/-! ### Open blocks -/

def closeLevels (c : UInt32) : List UInt32 → UInt32 → Levels
  | [], top => ⟨top, []⟩
  | next :: below, top => if top > c then closeLevels c below next else ⟨top, next :: below⟩

/-- The blocks that a line at column `c` leaves open. -/
def Levels.close (c : UInt32) (l : Levels) : Levels := closeLevels c l.below l.top

/-- Whether an item at column `c` begins a block of its own. -/
def Levels.canOpen (c : UInt32) (l : Levels) : Bool :=
  l.top < c && l.below.length + 1 < layoutMaxDepth

/-- The open blocks once an item at column `c` has begun. -/
def Levels.enter (c : UInt32) (l : Levels) : Levels :=
  if (l.close c).canOpen c then ⟨c, (l.close c).top :: (l.close c).below⟩ else l.close c

/-! ### Lines -/

/-- Where the filter is between two tokens. -/
structure Position where
  levels : Levels
  state : LayoutState
  deriving Repr, DecidableEq

def Position.start : Position := ⟨⟨1, []⟩, .start⟩

/-- The brackets that are open when a line starts with `t`. -/
def LayoutState.atLine (t : WokToken) (st : LayoutState) : LayoutState :=
  if st.bracket > 0 && !t.isContinuationLead && t.col ≤ st.bracketBlockCol then
    { st with bracket := 0, bracketOpen := none }
  else st

/-- `t` is the first token of a line outside brackets. -/
def Position.startsLine (p : Position) (t : WokToken) : Bool :=
  t.isFirstOnLine && (p.state.atLine t).bracket = 0

/-- `t` is the first token of an item. -/
def Position.startsItem (p : Position) (t : WokToken) : Bool :=
  p.startsLine t && !t.isContinuationLead

/-- The item that `t` starts is not the first of the file. -/
def Position.separates (p : Position) (t : WokToken) : Bool :=
  p.startsItem t && !p.state.firstLogical

/-- The item that `t` starts begins a block. -/
def Position.opens (p : Position) (t : WokToken) : Bool :=
  p.startsItem t && (p.levels.close t.col).canOpen t.col

def Position.levelsAt (p : Position) (t : WokToken) : Levels :=
  if p.startsLine t then
    if t.isContinuationLead then p.levels.close t.col else p.levels.enter t.col
  else p.levels

/-- The number of blocks that end at `t`. -/
def Position.closes (p : Position) (t : WokToken) : Nat :=
  if p.startsLine t then p.levels.below.length - (p.levels.close t.col).below.length else 0

def Position.stateAt (p : Position) (t : WokToken) : LayoutState :=
  if p.startsLine t then { p.state.atLine t with firstLogical := false }
  else if t.isFirstOnLine then p.state.atLine t
  else p.state

def Position.next (p : Position) (t : WokToken) : Position where
  levels := p.levelsAt t
  state := countBracket t (p.levelsAt t) (p.stateAt t)

/-! ### The output -/

def mark (k : WokKind) (t : WokToken) : WokToken := ⟨t.off, 0, t.col, k, .none, 0⟩

/-- The layout tokens before a token. -/
def Position.lead (p : Position) (t : WokToken) : List WokToken :=
  (if p.separates t then [mark .newline t] else []) ++
    (List.replicate (p.closes t) (mark .dedent t) ++
      if p.opens t then [mark .indent t] else [])

def Position.emits (p : Position) (t : WokToken) : List WokToken := p.lead t ++ [t]

def Position.finish (p : Position) (t : WokToken) : List WokToken :=
  (if p.state.firstLogical then [] else [mark .newline t]) ++
    (List.replicate p.levels.below.length (mark .dedent t) ++ [t])

/-- The output for the rest of the tokens, however much room it takes. -/
def layoutOf : Position → List WokToken → List WokToken
  | _, [] => []
  | p, t :: rest =>
      if t.kind = .eof then p.finish t else p.emits t ++ layoutOf (p.next t) rest

/-- The number of items that are set off from what is before them, the end of the
file included. -/
def separators : Position → List WokToken → Nat
  | _, [] => 0
  | p, t :: rest =>
      if t.kind = .eof then (if p.state.firstLogical then 0 else 1)
      else (if p.separates t then 1 else 0) + separators (p.next t) rest

/-- The number of items that begin a block. -/
def blocksOpened : Position → List WokToken → Nat
  | _, [] => 0
  | p, t :: rest =>
      if t.kind = .eof then 0
      else (if p.opens t then 1 else 0) + blocksOpened (p.next t) rest

/-! ### What the parser relies on -/

/-- What the scanner produces: columns count from one, there are no layout tokens and
the end of the file is the last token. -/
structure Scanned (tokens : List WokToken) : Prop where
  ends : ∃ before last, tokens = before ++ [last] ∧ last.kind = .eof ∧
    ∀ t ∈ before, t.kind ≠ .eof
  col : ∀ t ∈ tokens, 1 ≤ t.col
  kind : ∀ t ∈ tokens, t.kind.isLayout = false

/-- Blocks begin at columns right of the blocks that they are in, and each that begins
ends. -/
def Nested : Levels → List WokToken → Prop
  | l, [] => l.below = []
  | l, t :: rest =>
      match t.kind with
      | .indent => l.top < t.col ∧ Nested ⟨t.col, l.top :: l.below⟩ rest
      | .dedent =>
          match l.below with
          | [] => False
          | next :: below => Nested ⟨next, below⟩ rest
      | _ => Nested l rest

/-- The output for `tokens`: blocks are nested and none is empty, and the tokens are
all there in order. -/
structure WellLaid (tokens out : List WokToken) : Prop where
  nested : Nested ⟨1, []⟩ out
  inhabited : out.IsChain fun t u => t.kind = .indent → u.kind ≠ .dedent
  conserved : out.filter (fun t => !t.kind.isLayout) = tokens

/-- The output has room in what is reserved for it. -/
def HasRoom (tokens : List WokToken) : Prop :=
  separators .start tokens + 2 * blocksOpened .start tokens ≤ 2 * tokens.length + 72

instance (tokens : List WokToken) : Decidable (HasRoom tokens) :=
  inferInstanceAs (Decidable (_ ≤ _))

attribute [grind =] closeLevels Nested

end Wok.Grammar
