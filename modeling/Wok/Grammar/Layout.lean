/-
Module: Wok.Grammar.Layout
Purpose: The layout filter: newline, indent and dedent tokens by the columns of the
  lines outside brackets, with faults repaired and reported.
Imports: Wok.Grammar.Token
Trusted boundary: none
Main exports: Levels, Filter, put, popTo, layoutLine, layoutToken, wokLayout
-/
import Wok.Grammar.Token

namespace Wok.Grammar

def layoutMaxDepth : Nat := 64

/-- The columns of the open blocks, the innermost at `top`. The outermost, which is
never closed, is the last of `below`, or `top` when nothing is open. -/
structure Levels where
  top : UInt32
  below : List UInt32
  deriving Repr, DecidableEq

inductive LayoutCode where
  | layBracket
  | layDepth
  | layDedent
  deriving Repr, DecidableEq

/-- What is reported: where, and the text. -/
structure LayoutDiag where
  code : LayoutCode
  off : UInt32
  len : UInt32
  message : String
  deriving Repr, DecidableEq

structure Filter where
  out : List WokToken
  cap : Nat
  stack : Levels
  diag : List LayoutDiag
  deriving Repr, DecidableEq

/-- Emit a layout token at a token. There is no result when the output is full: the
code says that this cannot be reached. -/
def put (f : Filter) (k : WokKind) (at_ : WokToken) : Option Filter :=
  if f.out.length ≥ f.cap then none
  else some { f with out := f.out ++ [⟨at_.off, 0, at_.col, k, .none, 0⟩] }

def putToken (f : Filter) (t : WokToken) : Option Filter :=
  if f.out.length ≥ f.cap then none
  else some { f with out := f.out ++ [t] }

def popLevels (c : UInt32) (at_ : WokToken) : List UInt32 → UInt32 → Filter → Option Filter
  | [], top, f => some { f with stack := ⟨top, []⟩ }
  | next :: below, top, f =>
      if top > c then do
        let f' ← put f .dedent at_
        popLevels c at_ below next f'
      else some { f with stack := ⟨top, next :: below⟩ }

/-- Close every block deeper than `c`. -/
def popTo (f : Filter) (c : UInt32) (at_ : WokToken) : Option Filter :=
  popLevels c at_ f.stack.below f.stack.top f

def Filter.report (f : Filter) (d : LayoutDiag) : Filter :=
  { f with diag := f.diag ++ [d] }

/-- Open a block at column `c`. -/
def Filter.push (f : Filter) (c : UInt32) : Filter :=
  { f with stack := ⟨c, f.stack.top :: f.stack.below⟩ }

/-- What the filter knows besides: the brackets that are open, the column of the
block they were opened in and the outermost of them, and whether no line was met yet. -/
structure LayoutState where
  bracket : UInt32
  bracketBlockCol : UInt32
  bracketOpen : Option WokToken
  firstLogical : Bool
  deriving Repr, DecidableEq

def LayoutState.start : LayoutState := ⟨0, 0, none, true⟩

def bracketOff (st : LayoutState) : UInt32 := (st.bracketOpen.map (·.off)).getD 0

/-- L7: a line that starts an item at or left of the block that the outermost bracket
was opened in is not inside the bracket. -/
def abandonBracket (t : WokToken) (f : Filter) (st : LayoutState) : Filter × LayoutState :=
  if st.bracket > 0 && !t.isContinuationLead && t.col ≤ st.bracketBlockCol then
    (f.report ⟨.layBracket, bracketOff st, 1,
      "unclosed bracket; a new item begins at column " ++ toString t.col ++
        ", which cannot be inside it"⟩,
      { st with bracket := 0, bracketOpen := none })
  else (f, st)

/-- L3 and L6: the block that a new item belongs to. -/
def openItem (t : WokToken) (f : Filter) : Option Filter :=
  if t.col > f.stack.top then
    if f.stack.below.length + 1 ≥ layoutMaxDepth then
      some (f.report ⟨.layDepth, t.off, t.len,
        "indentation nested deeper than " ++ toString layoutMaxDepth ++ " levels"⟩)
    else put (f.push t.col) .indent t
  else if t.col < f.stack.top then do
    let f₁ ← popTo f t.col t
    if f₁.stack.top ≠ t.col then
      let f₂ := f₁.report ⟨.layDedent, t.off, t.len,
        "this line starts at column " ++ toString t.col ++
          ", which matches no open indentation level (nearest is " ++
          toString f₁.stack.top ++ ")"⟩
      if f₂.stack.below.length + 1 < layoutMaxDepth then
        -- keeps the stream balanced
        put (f₂.push t.col) .indent t
      else return f₂
    else return f₁
  else some f

/-- The first token of a line outside brackets. -/
def layoutLine (t : WokToken) (f : Filter) (st : LayoutState) : Option Filter :=
  -- L4 and L5: a continuation closes blocks and asks for no level to match
  if t.isContinuationLead then popTo f t.col t
  else do
    let f₁ ← if st.firstLogical then some f else put f .newline t
    openItem t f₁

/-- Count an opening or a closing bracket, in a block with these columns. -/
def countBracket (t : WokToken) (stack : Levels) (st : LayoutState) : LayoutState :=
  if t.kind.isOpenBracket then
    let st' := if st.bracket = 0 then
        { st with bracketBlockCol := stack.top, bracketOpen := some t }
      else st
    { st' with bracket := st'.bracket + 1 }
  else if t.kind.isCloseBracket then
    if st.bracket > 0 then
      let bracket := st.bracket - 1
      { st with bracket, bracketOpen := if bracket = 0 then none else st.bracketOpen }
    else st
  else st

/-- What happens before a token is put out. -/
def layoutStart (t : WokToken) (f : Filter) (st : LayoutState) : Option (Filter × LayoutState) :=
  if t.isFirstOnLine then
    let (f₀, st₀) := abandonBracket t f st
    if st₀.bracket = 0 then do
      let f₁ ← layoutLine t f₀ st₀
      return (f₁, { st₀ with firstLogical := false })
    else some (f₀, st₀)
  else some (f, st)

def layoutToken (t : WokToken) (f : Filter) (st : LayoutState) :
    Option (Filter × LayoutState) := do
  let (f₁, st₁) ← layoutStart t f st
  let f₂ ← putToken f₁ t
  return (f₂, countBracket t f₁.stack st₁)

/-- L8: the end of the file ends the line and closes every block. -/
def layoutEof (t : WokToken) (f : Filter) (st : LayoutState) : Option Filter := do
  let f₀ := if st.bracket > 0 && st.bracketOpen.isSome then
      f.report ⟨.layBracket, bracketOff st, 1,
        "unclosed bracket; it is still open at end of file"⟩
    else f
  let f₁ ← if st.firstLogical then some f₀ else put f₀ .newline t
  let f₂ ← popTo f₁ 0 t
  putToken f₂ t

def layoutLoop : List WokToken → Filter → LayoutState → Option Filter
  | [], f, _ => some f
  | t :: rest, f, st =>
      if t.kind = .eof then layoutEof t f st
      else do
        let (f', st') ← layoutToken t f st
        layoutLoop rest f' st'

/-- The room for the output that the code says is enough for `n` tokens. -/
def layoutCap (n : Nat) : Nat := n * 3 + layoutMaxDepth + 8

/-- The filter: its output and its reports. -/
def wokLayout (tokens : List WokToken) : Option (List WokToken × List LayoutDiag) := do
  let f ← layoutLoop tokens ⟨[], layoutCap tokens.length, ⟨1, []⟩, []⟩ .start
  return (f.out, f.diag)

end Wok.Grammar
