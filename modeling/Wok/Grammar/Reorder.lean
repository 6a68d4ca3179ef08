/-
Module: Wok.Grammar.Reorder
Purpose: The pass that gives flat operator chains their structure by the table of
  operators.
Imports: Wok.Grammar.Fixity, Wok.Lib.OperatorChains
Trusted boundary: none
Main exports: Node, Tail, ReorderDiag, compareOps, findLoosest, combineInfix,
  reorderSplit, reorderChain, checkNeighbours
-/
import Wok.Grammar.Fixity
import Wok.Lib.OperatorChains

namespace Wok.Grammar

open Wok.Lib.Chains (Order)

/-! ### Nodes -/

mutual

/-- A node of the tree: a chain, or any other one, which this pass does not look into. -/
inductive Node where
  | other (id off len : Nat)
  | chain (off len : Nat) (head : Node) (ops : List ChainOp)

/-- An operator of a chain with the operand after it (`H_ChainOp`). -/
inductive ChainOp where
  | mk (off len : Nat) (op : OpName) (backtick : Bool) (rhs : Node)

end

def Node.off : Node → Nat
  | .other _ off _ => off
  | .chain off _ _ _ => off

def Node.len : Node → Nat
  | .other _ _ len => len
  | .chain _ len _ _ => len

def ChainOp.op : ChainOp → OpName
  | .mk _ _ op _ _ => op

/-- One place of a flat chain. -/
structure Tail where
  name : OpName
  backtick : Bool
  rhs : Node
  fixIdx : Nat

inductive ReorderDiag where
  | undeclared (name : OpName)
  | neighbourOnly (name : OpName)
  | incomparable (best cur : OpName)
  deriving Repr, DecidableEq

def ReorderDiag.message (position : Nat → Nat × Nat) (d : ReorderDiag) : String :=
  let quote := fun op : OpName => "`" ++ op.text ++ "`"
  let place := fun off => toString (position off).1 ++ ":" ++ toString (position off).2
  match d with
  | .undeclared name =>
      quote name ++ " has no `fixity` declaration; reorder mode cannot place it in a chain "
        ++ "without one"
  | .neighbourOnly name =>
      quote name ++ " is named only as another operator's neighbour and has no `fixity` "
        ++ "declaration of its own"
  | .incomparable best cur =>
      quote best ++ " (" ++ place best.off ++ ") and " ++ quote cur ++ " (" ++ place cur.off
        ++ ") have no declared order: bracket the chain, or relate them with `tighter than`"

/-! ### The pass -/

/-- How `a` stands to `b`, which are at `ai` and `bi` in the table. -/
def compareOps (fix : Fix) (a : String) (ai : Nat) (b : String) (bi : Nat) : Order :=
  if a = b then .equal
  else if fixBit fix ai bi then .tighter
  else if fixBit fix bi ai then .looser
  else .incomparable

/-- Every placeholder is a fault of the file. -/
def checkNeighbours (fix : Fix) : List ReorderDiag :=
  fix.ops.filterMap fun op => if op.declOff.isNone then some (.neighbourOnly op.name) else none

def isLeft (fix : Fix) (i : Nat) : Bool := fix.ops[i]?.map (·.assoc) = some .left

/-- The scan for the loosest operator: `best` at `bestIdx` is the loosest one before
`i`. -/
def findLoosestFrom (fix : Fix) : Tail → Nat → Nat → List Tail → Except ReorderDiag Nat
  | _, bestIdx, _, [] => .ok bestIdx
  | best, bestIdx, i, t :: ts =>
      match compareOps fix t.name.text t.fixIdx best.name.text best.fixIdx with
      | .tighter => findLoosestFrom fix best bestIdx (i + 1) ts
      | .looser => findLoosestFrom fix t i (i + 1) ts
      | .equal =>
          -- the rightmost of a left-associative operator, the leftmost of another one
          if isLeft fix best.fixIdx then findLoosestFrom fix t i (i + 1) ts
          else findLoosestFrom fix best bestIdx (i + 1) ts
      | .incomparable => .error (.incomparable best.name t.name)

def findLoosest (fix : Fix) : Tail → List Tail → Except ReorderDiag Nat
  | t, ts => findLoosestFrom fix t 0 1 ts

/-- A chain of one operator, from the start of its left operand to the end of its right
one. -/
def combineInfix (lhs : Node) (op : OpName) (backtick : Bool) (rhs : Node) : Node :=
  let start := lhs.off
  let stop := rhs.off + rhs.len
  .chain start (stop - start) lhs [.mk op.off (stop - op.off) op backtick rhs]

/-- Find the loosest operator, split there, go on with both sides and rebuild. A scan that
fails is reported, and its slice is left out of the result. -/
def reorderSplit (fix : Fix) (h : Node) (tails : List Tail) : Node × List ReorderDiag :=
  match tails with
  | [] => (h, [])
  | t :: ts =>
      match findLoosest fix t ts with
      | .error d => (h, [d])
      | .ok idx =>
          match hdrop : (t :: ts).drop idx with
          | [] => (h, [])
          | splitAt :: rest =>
              let left := reorderSplit fix h ((t :: ts).take idx)
              let right := reorderSplit fix splitAt.rhs rest
              (combineInfix left.1 splitAt.name splitAt.backtick right.1, left.2 ++ right.2)
termination_by tails.length
decreasing_by
  · have hlen := congrArg List.length hdrop
    simp only [List.length_drop, List.length_cons, List.length_take] at hlen ⊢
    omega
  · have hlen := congrArg List.length hdrop
    simp only [List.length_drop, List.length_cons] at hlen ⊢
    omega

/-- The operators of a chain in the table; the first one that is not there is reported. -/
def resolveTails (fix : Fix) : List ChainOp → Except ReorderDiag (List Tail)
  | [] => .ok []
  | .mk _ _ op backtick rhs :: ops =>
      match fixFind fix.ops op.text with
      | none => .error (.undeclared op)
      | some idx => do
          let tails ← resolveTails fix ops
          return ⟨op, backtick, rhs, idx⟩ :: tails

/-- A chain whose operands have been reordered. -/
def reorderChain (fix : Fix) (off len : Nat) (head : Node) (ops : List ChainOp) :
    Node × List ReorderDiag :=
  match resolveTails fix ops with
  | .error d => (.chain off len head ops, [d])
  | .ok tails => reorderSplit fix head tails

end Wok.Grammar
