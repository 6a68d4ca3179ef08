/-
Module: Wok.Reordering
Purpose: The fixity table of a module, the overlay of two tables, the comparison of
  operators by a search of the table, and the reordering of flat operator chains.
Imports: Mathlib.Algebra.Order.Ring.Int, Wok.Grammar.Fixity, Wok.Lib.OperatorChains, Wok.Lib.Paths
Trusted boundary: none
Main exports: OpInfo, FixityTable, FixityError, outEdgesIn, stronglyConnComp,
  buildFixityTable, overlayFixities, compareOps, Exp, ReorderFailure, reorderChain
-/
import Mathlib.Algebra.Order.Ring.Int
import Wok.Grammar.Fixity
import Wok.Lib.OperatorChains
import Wok.Lib.Paths

namespace Wok.Reordering

open Wok.Grammar (Assoc Sense OpName FixRel FixDecl)
open Wok.Lib.Chains (Order)
open Wok.Lib.Paths (search)

/-! ### Tables -/

inductive OpKind where
  | sym
  | alpha
  deriving Repr, DecidableEq

structure OpInfo where
  assoc : Assoc
  kind : OpKind
  tighter : List String
  looser : List String
  pos : Option (Int × Int)
  deriving Repr, DecidableEq

/-- A finite map from names, as a list in key order. -/
abbrev Entries := List (String × OpInfo)

/-- `Map.insert`. -/
def insertEntry (name : String) (info : OpInfo) : Entries → Entries
  | [] => [(name, info)]
  | (k, i) :: rest =>
      if name < k then (name, info) :: (k, i) :: rest
      else if name = k then (name, info) :: rest
      else (k, i) :: insertEntry name info rest

structure FixityTable where
  entries : Entries
  deriving Repr, DecidableEq

def emptyFixityTable : FixityTable := ⟨[]⟩

def lookupOp (t : FixityTable) (k : String) : Option OpInfo := t.entries.lookup k

inductive FixityError where
  | redeclaredOp (name : String) (posA posB : Option (Int × Int))
  | selfReference (name : String) (pos : Option (Int × Int))
  | unresolvedNeighbor (name neighbor : String) (pos : Option (Int × Int))
  | cycleInOrder (names : List String)
  deriving Repr, DecidableEq

def fixNameInfo (fn : OpName) : String × OpKind × Option (Int × Int) :=
  (fn.text, if fn.alpha then .alpha else .sym, fn.pos)

/-- The names after `tighter than`, and those after `looser than`. -/
def partitionRels (rels : List FixRel) : List String × List String :=
  rels.foldr (fun r (t, l) =>
    match r.sense with
    | .tighter => (r.name.text :: t, l)
    | .looser => (t, r.name.text :: l)) ([], [])

/-- Direct edges: `k` binds tighter than these, by its own entry or by theirs. -/
def outEdgesIn (m : Entries) (k : String) : List String :=
  ((m.lookup k).map (·.tighter)).getD [] ++
    (m.filter fun e => k ∈ e.2.looser).map (·.1)

/-! ### Strongly connected components -/

inductive SCC where
  | acyclic (vertex : String)
  | cyclic (vertices : List String)
  deriving Repr, DecidableEq

/-- The edges of a vertex; those to what is no vertex do not count. -/
def graphEdges (nodes : List (String × List String)) (v : String) : List String :=
  ((nodes.lookup v).getD []).filter (· ∈ nodes.map (·.1))

def graphReaches (nodes : List (String × List String)) (a b : String) : Bool :=
  let keys := nodes.map (·.1)
  let width := (nodes.map (·.2.length)).sum
  search (graphEdges nodes) b (width * keys.length + 1) [a] [a] = some true

/-- The vertices that `v` reaches and that reach it, itself among them. -/
def component (nodes : List (String × List String)) (v : String) : List String :=
  (nodes.map (·.1)).filter fun w =>
    w = v || graphReaches nodes v w && graphReaches nodes w v

/-- How many vertices a component reaches. -/
def reachCount (nodes : List (String × List String)) (vs : List String) : Nat :=
  ((nodes.map (·.1)).filter fun w => vs.any fun v => w = v || graphReaches nodes v w).length

/-- The strongly connected components, reverse topologically sorted: one that reaches
another one reaches more vertices. -/
def stronglyConnComp (nodes : List (String × List String)) : List SCC :=
  let components := ((nodes.map (·.1)).map (component nodes)).dedup
  (components.mergeSort fun c d => reachCount nodes c ≤ reachCount nodes d).map fun vs =>
    match vs with
    | [v] => if v ∈ graphEdges nodes v then .cyclic [v] else .acyclic v
    | vs => .cyclic vs

/-! ### Building a table -/

def collect (st : Entries × List FixityError) (d : FixDecl) : Entries × List FixityError :=
  let (m, errs) := st
  let (name, kind, pos) := fixNameInfo d.name
  let (tighter, looser) := partitionRels d.rels
  let info : OpInfo := ⟨d.assoc, kind, tighter, looser, pos⟩
  let selfErrs :=
    if name ∈ tighter || name ∈ looser then [FixityError.selfReference name pos] else []
  match m.lookup name with
  | some prev => (m, errs ++ selfErrs ++ [.redeclaredOp name prev.pos pos])
  | none => (insertEntry name info m, errs ++ selfErrs)

def checkNeighbors (m : Entries) : List FixityError :=
  m.flatMap fun (name, info) =>
    ((info.tighter ++ info.looser).filter fun n => (m.lookup n).isNone).map fun n =>
      .unresolvedNeighbor name n info.pos

def checkCycles (m : Entries) : List FixityError :=
  let nodes := m.map fun (k, _) => (k, (outEdgesIn m k).filter (· ≠ k))
  (stronglyConnComp nodes).filterMap fun c =>
    match c with
    | .cyclic cs => some (.cycleInOrder cs)
    | .acyclic _ => none

def buildFixityTable (ds : List FixDecl) : Except (List FixityError) FixityTable :=
  let (table, decErrs) := ds.foldl collect ([], [])
  let allErrs := decErrs ++ checkNeighbors table ++ checkCycles table
  if allErrs.isEmpty then .ok ⟨table⟩ else .error allErrs

/-- The left-biased union. An operator of both tables is an error if its entries
differ. -/
def overlayFixities (a b : FixityTable) : Except (List FixityError) FixityTable :=
  let clashes := a.entries.filterMap fun (k, ai) =>
    match b.entries.lookup k with
    | some bi => if ai ≠ bi then some (FixityError.redeclaredOp k ai.pos bi.pos) else none
    | none => none
  match clashes with
  | [] => .ok ⟨a.entries.foldl (fun m (k, i) => insertEntry k i m) b.entries⟩
  | es => .error es

/-! ### Comparison -/

def assocOf (t : FixityTable) (k : String) : Option Assoc := (lookupOp t k).map (·.assoc)

/-- The names that an edge can lead to. -/
def targets (m : Entries) : List String :=
  m.flatMap (·.2.tighter) ++ m.map (·.1)

/-- Breadth-first search. -/
def reachable (m : Entries) (src dst : String) : Bool :=
  let width := (targets m).length
  search (outEdgesIn m) dst (width * width + 1) [src] [src] = some true

def compareOps (t : FixityTable) (a b : String) : Order :=
  if a = b then .equal
  else if (lookupOp t a).isNone || (lookupOp t b).isNone then .incomparable
  else if reachable t.entries a b then .tighter
  else if reachable t.entries b a then .looser
  else .incomparable

/-! ### Reordering -/

/-- An infix operator: its name, and whether it is in backticks. -/
abbrev InfixOp := OpName × Bool

/-- An expression: a flat chain (`EExpr`), one in parentheses, or any other one, which the
reordering of a chain does not look into. -/
inductive Exp where
  | other (id : Nat)
  | expr (h : Exp) (tails : List (InfixOp × Exp))
  | paren (e : Exp)

inductive ReorderError where
  | fixityErr (e : FixityError)
  | undeclaredOperator (name : String) (pos : Option (Int × Int))
  | incomparableOps (best cur : String) (pos : Option (Int × Int))
  deriving Repr, DecidableEq

/-- A failure: an error, or a call of `error`. -/
inductive ReorderFailure where
  | error (e : ReorderError)
  | panic (message : String)
  deriving Repr, DecidableEq

def checkDeclared (t : FixityTable) (x : InfixOp × Exp) : Except ReorderFailure Unit :=
  match lookupOp t x.1.1.text with
  | some _ => .ok ()
  | none => .error (.error (.undeclaredOperator x.1.1.text x.1.1.pos))

def findLoosestFrom (t : FixityTable) :
    Nat → InfixOp → Nat → List (InfixOp × Exp) → Except ReorderFailure Nat
  | bestIdx, _, _, [] => .ok bestIdx
  | bestIdx, bestOp, i, (op, _) :: xs =>
      match compareOps t op.1.text bestOp.1.text with
      | .tighter => findLoosestFrom t bestIdx bestOp (i + 1) xs
      | .looser => findLoosestFrom t i op (i + 1) xs
      | .equal =>
          match assocOf t bestOp.1.text with
          | some .left => findLoosestFrom t i op (i + 1) xs
          | some .right => findLoosestFrom t bestIdx bestOp (i + 1) xs
          | none => findLoosestFrom t bestIdx bestOp (i + 1) xs
      | .incomparable =>
          .error (.error (.incomparableOps bestOp.1.text op.1.text op.1.pos))

def findLoosest (t : FixityTable) : List (InfixOp × Exp) → Except ReorderFailure Nat
  | [] => .error (.panic "findLoosest: empty tails")
  | (op0, _) :: rest => findLoosestFrom t 0 op0 1 rest

/-- A chain as an operand is put in parentheses. -/
def wrap : Exp → Exp
  | .expr h (x :: xs) => .paren (.expr h (x :: xs))
  | e => e

def combineInfix (lhs : Exp) (op : InfixOp) (rhs : Exp) : Exp :=
  .expr (wrap lhs) [(op, wrap rhs)]

def reorderChain (t : FixityTable) (h : Exp) (tails : List (InfixOp × Exp)) :
    Except ReorderFailure Exp :=
  match tails with
  | [] => .ok h
  | x :: xs => do
      (x :: xs).forM (checkDeclared t)
      let idx ← findLoosest t (x :: xs)
      match hdrop : (x :: xs).drop idx with
      | (splitOp, splitRhs) :: rightTails => do
          let leftExpr ← reorderChain t h ((x :: xs).take idx)
          let rightExpr ← reorderChain t splitRhs rightTails
          return combineInfix leftExpr splitOp rightExpr
      | [] => .error (.panic "reorderChain: findLoosest returned out-of-range index")
termination_by tails.length
decreasing_by
  · have hlen := congrArg List.length hdrop
    simp only [List.length_drop, List.length_cons, List.length_take] at hlen ⊢
    omega
  · have hlen := congrArg List.length hdrop
    simp only [List.length_drop, List.length_cons] at hlen ⊢
    omega

/-- `reorderModuleWith`, up to the chains: the module's own table over the one from
outside. -/
def mergedTable (externalTable : FixityTable) (ds : List FixDecl) :
    Except (List ReorderError) FixityTable :=
  match buildFixityTable ds with
  | .error es => .error (es.map .fixityErr)
  | .ok ownTable =>
      match overlayFixities externalTable ownTable with
      | .error es => .error (es.map .fixityErr)
      | .ok merged => .ok merged

end Wok.Reordering
