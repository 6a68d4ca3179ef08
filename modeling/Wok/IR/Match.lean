/-
Module: Wok.IR.Match
Purpose: The decision-tree compiler for pattern matrices: a clause matrix becomes
  nested cases whose leaves jump to the join of the clause they select. The
  analysis of a matrix for redundant clauses and exhaustiveness.
Imports: Mathlib.Algebra.Order.Ring.Int, Wok.IR.Anf
Trusted boundary: none
Main exports: MPat, ConOracle, Row, Head, tupleTag, peelAsRow, chooseColumn,
  switchOn, compileMatch, Coverage, matchCoverage
-/
import Mathlib.Algebra.Order.Ring.Int
import Wok.IR.Anf

namespace Wok.IR

open Wok.TypeChecking (CType)

/-- Patterns of the match compiler; a variable without a name is a wildcard. -/
inductive MPat where
  | var (ty : CType) (v : Option String)
  | con (ty : CType) (c : String) (ps : List MPat)
  | lit (ty : CType) (l : Lit)
  | as (ty : CType) (v : String) (p : MPat)
  deriving Inhabited

/-- What the compiler knows of a constructor tag: its number of fields, and the
complete set of tags of its type where there is one. -/
structure ConOracle where
  coArity : String → Nat
  coSiblings : String → Option (List String)

/-- A clause: one pattern for each scrutinee, the variables bound so far, the
join of its body and the order of that join's parameters. -/
structure Row where
  pats : List MPat
  subst : List (String × Atom)
  join : JoinId
  order : List String
  index : Nat

def tupleTag (n : Nat) : String := "Tuple" ++ toString n

def failLeaf : Expr := .case_ (.lit .unit) []

def removeAt {α : Type} (i : Nat) (xs : List α) : List α := xs.take i ++ xs.drop (i + 1)

def isWildP : MPat → Bool
  | .var .. => true
  | _ => false

def isConP : MPat → Bool
  | .con .. => true
  | _ => false

def MPat.type : MPat → CType
  | .var ty _ => ty
  | .con ty _ _ => ty
  | .lit ty _ => ty
  | .as ty _ _ => ty

def unitType : CType := .con .unit []

def wildField : MPat := .var unitType none

/-- The pattern of a column; the columns of a row are as many as the scrutinees. -/
def Row.pat (r : Row) (i : Nat) : MPat := r.pats.getD i wildField

/-- The scrutinee of a column. -/
def scrutAt (scruts : List Atom) (i : Nat) : Atom := scruts.getD i .unit

/-! ### Rows -/

/-- Strip the as-patterns at the top of a column and bind their names. -/
def peelCol (a : Atom) : MPat → MPat × List (String × Atom)
  | .as _ v p => ((peelCol a p).1, (v, a) :: (peelCol a p).2)
  | p => (p, [])

def peelAsRow (scruts : List Atom) (r : Row) : Row :=
  let peeled := scruts.zipWith peelCol r.pats
  { r with
    pats := peeled.map (·.1)
    subst := r.subst ++ peeled.flatMap (·.2) }

/-- The bindings of the variables of a row of variables. -/
def wildBindings : List MPat → List Atom → List (String × Atom)
  | .var _ (some v) :: ps, a :: as => (v, a) :: wildBindings ps as
  | _ :: ps, _ :: as => wildBindings ps as
  | _, _ => []

def bindRow (scruts : List Atom) (r : Row) : Row :=
  { r with subst := r.subst ++ wildBindings r.pats scruts }

def atomFor (subst : List (String × Atom)) (v : String) : Fresh Atom :=
  match subst.lookup v with
  | some a => return a
  | none => throw ("Match.jumpLeaf: unbound clause variable " ++ v)

def jumpLeaf (r : Row) : Fresh Expr := return .jump r.join (← r.order.mapM (atomFor r.subst))

def bindVar : Option String → Atom → List (String × Atom) → List (String × Atom)
  | none, _, s => s
  | some v, a, s => (v, a) :: s

/-! ### Columns -/

/-- The column to switch on: the leftmost one with a constructor, else the
leftmost one with a pattern that is no variable. -/
def chooseColumn (scruts : List Atom) (rows : List Row) : Nat :=
  let candidates := (List.range scruts.length).filter fun c => !(rows.all (isWildP <| ·.pat c))
  match candidates.filter fun c => rows.any (isConP <| ·.pat c) with
  | c :: _ => c
  | [] => candidates.headD 0

/-- What a switch tests: a constructor tag or a literal. -/
inductive Head where
  | con (c : String)
  | lit (l : Lit)
  deriving DecidableEq, Repr

def Head.conTag : Head → Option String
  | .con c => some c
  | .lit _ => none

def Head.isLit : Head → Bool
  | .lit _ => true
  | .con _ => false

def MPat.head : MPat → Option Head
  | .con _ c _ => some (.con c)
  | .lit _ l => some (.lit l)
  | _ => none

/-- The heads of a column, each once, in order of appearance. -/
def nubHeads (ps : List MPat) : List Head :=
  (ps.filterMap MPat.head).foldl (fun seen h => if h ∈ seen then seen else seen ++ [h]) []

/-- The field types of a constructor, from its first pattern in the column. -/
def fieldTypesOf (c : String) (i : Nat) (rows : List Row) (arity : Nat) : List CType :=
  match rows.findSome? fun r =>
      match r.pat i with
      | .con _ c' subs => if c' = c then some (subs.map MPat.type) else none
      | _ => none with
  | some ts => ts
  | none => List.replicate arity unitType

/-- The row under constructor `c` of column `i`, if its clause can still match. -/
def specCon (c : String) (arity i : Nat) (scrut : Atom) (r : Row) : List Row :=
  match r.pat i with
  | .con _ c' subs =>
      if c' = c then [{ r with pats := subs ++ removeAt i r.pats }] else []
  | .lit .. => []
  | .var _ mv =>
      [{ r with
          pats := List.replicate arity wildField ++ removeAt i r.pats
          subst := bindVar mv scrut r.subst }]
  | .as .. => []

/-- The row under literal `l` of column `i`, if its clause can still match. -/
def specLit (l : Lit) (i : Nat) (scrut : Atom) (r : Row) : List Row :=
  match r.pat i with
  | .lit _ l' => if l' = l then [{ r with pats := removeAt i r.pats }] else []
  | .con .. => []
  | .var _ mv =>
      [{ r with pats := removeAt i r.pats, subst := bindVar mv scrut r.subst }]
  | .as .. => []

/-- The row where column `i` has none of the heads. -/
def defaultRow (i : Nat) (scrut : Atom) (r : Row) : List Row :=
  match r.pat i with
  | .var _ mv =>
      [{ r with pats := removeAt i r.pats, subst := bindVar mv scrut r.subst }]
  | _ => []

/-- Whether the heads are all constructors of their type. -/
def completeHeads (oracle : ConOracle) (heads : List Head) : Bool :=
  let conTags := heads.filterMap Head.conTag
  let hasLit := heads.any Head.isLit
  !hasLit &&
    match conTags with
    | [] => false
    | c0 :: _ =>
        match oracle.coSiblings c0 with
        | none => false
        | some sibs => sibs.all (conTags.contains ·)

/-! ### The compiler -/

/-- Binders for the fields of a constructor. `zip` truncates as the source does. -/
def fieldBinders (names : List Name) (tys : List CType) : List Binder :=
  names.zipWith Binder.mk tys

section Compile

variable (oracle : ConOracle) (compile : List Atom → List Row → Fresh Expr)

def buildHeadAlt (i : Nat) (scrut : Atom) (others : List Atom) (rows : List Row) :
    Head → Fresh Alt
  | .con c => do
      let arity := oracle.coArity c
      let fieldTys := fieldTypesOf c i rows arity
      let fieldNames ← (List.replicate arity "f").mapM freshName
      let rows' := rows.flatMap (specCon c arity i scrut)
      let body ← compile (fieldNames.map Atom.var ++ others) rows'
      return .con c (fieldBinders fieldNames fieldTys) body
  | .lit l => do
      let body ← compile others (rows.flatMap (specLit l i scrut))
      return .lit l body

def buildDefault (i : Nat) (scrut : Atom) (others : List Atom) (rows : List Row)
    (heads : List Head) : Fresh (Option Alt) :=
  if completeHeads oracle heads then return none
  else do
    let body ← compile others (rows.flatMap (defaultRow i scrut))
    return some (.default body)

def switchOn (i : Nat) (scruts : List Atom) (rows : List Row) : Fresh Expr := do
  let scrut := scrutAt scruts i
  let others := removeAt i scruts
  let heads := nubHeads (rows.map (·.pat i))
  let alts ← heads.mapM (buildHeadAlt oracle compile i scrut others rows)
  let mDef ← buildDefault oracle compile i scrut others rows heads
  return .case_ scrut (alts ++ mDef.toList)

end Compile

/-- The compiler with a bound on the depth of its recursion. -/
def compileMatchN (oracle : ConOracle) : Nat → List Atom → List Row → Fresh Expr
  | 0, _, _ => throw "compileMatch: out of fuel"
  | fuel + 1, scruts, rows =>
      match rows.map (peelAsRow scruts) with
      | [] => return failLeaf
      | r0 :: rest =>
          if r0.pats.all isWildP then jumpLeaf (bindRow scruts r0)
          else
            let rows := r0 :: rest
            switchOn oracle (compileMatchN oracle fuel) (chooseColumn scruts rows) scruts rows

mutual

/-- Number of tests and as-bindings in a pattern. -/
def MPat.size : MPat → Nat
  | .var .. => 0
  | .con _ _ ps => 1 + sizes ps
  | .lit .. => 1
  | .as _ _ p => 1 + p.size

def sizes : List MPat → Nat
  | [] => 0
  | p :: ps => p.size + sizes ps

end

/-- Each level of the recursion takes at least one test off the matrix. -/
def matrixSize (rows : List Row) : Nat := (rows.map fun r => sizes r.pats).sum

def compileMatch (oracle : ConOracle) (scruts : List Atom) (rows : List Row) : Fresh Expr :=
  compileMatchN oracle (matrixSize rows + 1) scruts rows

/-! ### Coverage -/

/-- The clauses that never match, by their index, and whether some clause matches
every input. -/
structure Coverage where
  redundant : List Nat
  exhaustive : Bool
  deriving DecidableEq, Repr

/-- Coverage has no scrutinees, so an as-pattern binds nothing here. -/
def stripAs : MPat → MPat
  | .as _ _ p => stripAs p
  | p => p

def stripRow (r : Row) : Row := { r with pats := r.pats.map stripAs }

/-- `chooseColumn` without scrutinees. -/
def pickCol (n : Nat) (rows : List Row) : Nat :=
  let candidates := (List.range n).filter fun c => !(rows.all (isWildP <| ·.pat c))
  match candidates.filter fun c => rows.any (isConP <| ·.pat c) with
  | c :: _ => c
  | [] => candidates.headD 0

/-- `specCon` without scrutinees. -/
def specConP (c : String) (arity i : Nat) (r : Row) : List Row :=
  match r.pat i with
  | .con _ c' subs => if c' = c then [{ r with pats := subs ++ removeAt i r.pats }] else []
  | .lit .. => []
  | .var .. => [{ r with pats := List.replicate arity wildField ++ removeAt i r.pats }]
  | .as .. => []

/-- `specLit` without scrutinees. -/
def specLitP (l : Lit) (i : Nat) (r : Row) : List Row :=
  match r.pat i with
  | .lit _ l' => if l' = l then [{ r with pats := removeAt i r.pats }] else []
  | .con .. => []
  | .var .. => [{ r with pats := removeAt i r.pats }]
  | .as .. => []

/-- `defaultRow` without scrutinees. -/
def defaultRowP (i : Nat) (r : Row) : List Row :=
  match r.pat i with
  | .var .. => [{ r with pats := removeAt i r.pats }]
  | _ => []

section Analyze

variable (oracle : ConOracle) (analyze : Nat → List Row → List Nat × Bool)

/-- What is reached under one head of column `i`; `others` columns remain. -/
def analyzeBranch (i others : Nat) (rows : List Row) : Head → List Nat × Bool
  | .con c => analyze (oracle.coArity c + others) (rows.flatMap (specConP c (oracle.coArity c) i))
  | .lit l => analyze others (rows.flatMap (specLitP l i))

def analyzeDefault (i others : Nat) (rows : List Row) (heads : List Head) : List Nat × Bool :=
  if completeHeads oracle heads then ([], false)
  else analyze others (rows.flatMap (defaultRowP i))

/-- What is reached when column `i` of `n` is switched on. -/
def analyzeSplit (i n : Nat) (rows : List Row) : List Nat × Bool :=
  let heads := nubHeads (rows.map (·.pat i))
  let brs := heads.map (analyzeBranch oracle analyze i (n - 1) rows)
  let other := analyzeDefault oracle analyze i (n - 1) rows heads
  (other.1 ++ brs.flatMap (·.1), other.2 || brs.any (·.2))

end Analyze

/-- The rows reached at a success leaf, by their index, and whether a failure leaf
is reached, with a bound on the depth of the recursion. -/
def analyzeN (oracle : ConOracle) : Nat → Nat → List Row → List Nat × Bool
  | 0, _, _ => ([], true)
  | fuel + 1, n, rows =>
      match rows.map stripRow with
      | [] => ([], true)
      | r0 :: rest =>
          if r0.pats.all isWildP then ([r0.index], false)
          else
            let rows := r0 :: rest
            analyzeSplit oracle (analyzeN oracle fuel) (pickCol n rows) n rows

/-- Redundancy and exhaustiveness of a matrix of `ncols` columns. -/
def matchCoverage (oracle : ConOracle) (ncols : Nat) (rows : List Row) : Coverage :=
  let (reached, anyFail) := analyzeN oracle (matrixSize rows + 1) ncols rows
  { redundant := (rows.filter fun r => !reached.contains r.index).map (·.index)
    exhaustive := !anyFail }

end Wok.IR
