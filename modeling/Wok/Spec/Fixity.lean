/-
Module: Wok.Spec.Fixity
Purpose: The relation that fixity declarations state, the orders that the two front ends
  read off their tables, and the structure that two trees of chains share.
Imports: Mathlib.Logic.Relation, Wok.Grammar.Reorder, Wok.Reordering
Trusted boundary: none
Main exports: Fix.Tighter, Fix.Strict, fixFixities, treeNode, Parses, Node.Single, Shape,
  Declares, Binds, tableFixities
-/
import Mathlib.Logic.Relation
import Wok.Grammar.Reorder
import Wok.Reordering

namespace Wok.Grammar

open Wok.Lib.Chains (Order Fixities Tree)

/-! ### The table of name resolution -/

/-- Operator `i` is tighter than `j` by the matrix. -/
def Fix.Tighter (f : Fix) (i j : Nat) : Prop := i < f.n ∧ j < f.n ∧ fixBit f i j = true

/-- The relation of the matrix is a strict partial order. -/
structure Fix.Strict (f : Fix) : Prop where
  irrefl : ∀ i, ¬ f.Tighter i i
  trans : ∀ i j k, f.Tighter i j → f.Tighter j k → f.Tighter i k

/-- No operator is tighter than itself, at one or more removes. -/
def Fix.Acyclic (f : Fix) : Prop := ∀ i, ¬ Relation.TransGen f.Tighter i i

/-- The comparison of names by the matrix; a name that is not in the table compares with
itself only. -/
def fixCompare (f : Fix) (a b : String) : Order :=
  match fixFind f.ops a, fixFind f.ops b with
  | some i, some j => compareOps f a i b j
  | _, _ => if a = b then .equal else .incomparable

def fixFixities (f : Fix) : Fixities String where
  compare := fixCompare f
  left a := (fixFind f.ops a).any (isLeft f)

/-! ### Trees of chains -/

/-- The node of a tree: each chain in it has one operator. -/
def treeNode : Tree (OpName × Bool) Node → Node
  | .leaf n => n
  | .node l o r => combineInfix (treeNode l) o.1 o.2 (treeNode r)

/-- The operators of a flat chain, each with the operand after it. -/
def chainTail (ops : List ChainOp) : List ((OpName × Bool) × Node) :=
  ops.map fun | .mk _ _ op backtick rhs => ((op, backtick), rhs)

/-- A tree has the operands and operators of the chain in their order, and each operator
that heads an operand is tighter than the one above it, or is the same one and on the side
to which it associates. -/
structure Parses (f : Fix) (head : Node) (ops : List ChainOp)
    (t : Tree (OpName × Bool) Node) : Prop where
  head : t.head = head
  tail : t.tail = chainTail ops
  respects : t.Respects (fixFixities f) fun o => o.1.text

mutual

/-- Every chain in a node has one operator. -/
def Node.Single : Node → Prop
  | .other _ _ _ => True
  | .chain _ _ head ops => ops.length = 1 ∧ head.Single ∧ ChainOp.Singles ops

def ChainOp.Singles : List ChainOp → Prop
  | [] => True
  | .mk _ _ _ _ rhs :: ops => rhs.Single ∧ ChainOp.Singles ops

end

/-! ### What two trees share -/

/-- A tree without positions and parentheses. -/
inductive Shape where
  | other (id : Nat)
  | chain (head : Shape) (ops : List ((OpName × Bool) × Shape))

mutual

def Node.shape : Node → Shape
  | .other id _ _ => .other id
  | .chain _ _ head ops => .chain head.shape (ChainOp.shapes ops)

def ChainOp.shapes : List ChainOp → List ((OpName × Bool) × Shape)
  | [] => []
  | .mk _ _ op backtick rhs :: ops => ((op, backtick), rhs.shape) :: ChainOp.shapes ops

end

end Wok.Grammar

namespace Wok.Reordering

open Wok.Grammar (OpName FixDecl FixRel Sense Shape)
open Wok.Lib.Chains (Fixities)

mutual

def Exp.shape : Exp → Shape
  | .other id => .other id
  | .expr h tails => .chain h.shape (Exp.shapes tails)
  | .paren e => e.shape

def Exp.shapes : List (InfixOp × Exp) → List (InfixOp × Shape)
  | [] => []
  | (op, e) :: tails => (op, e.shape) :: Exp.shapes tails

end

/-! ### The relation that is declared -/

/-- `a tighter than b`, or `b looser than a`. -/
def Declares (ds : List FixDecl) (a b : String) : Prop :=
  ∃ d ∈ ds, ∃ r ∈ d.rels,
    (r.sense = .tighter ∧ d.name.text = a ∧ r.name.text = b) ∨
    (r.sense = .looser ∧ r.name.text = a ∧ d.name.text = b)

/-- The direct edges of a table. -/
def Binds (m : Entries) (a b : String) : Prop := b ∈ outEdgesIn m a

def tableFixities (t : FixityTable) : Fixities String where
  compare := compareOps t
  left a := assocOf t a = some .left

/-- `a` is tighter than `b` by the comparison. -/
def TighterOp (t : FixityTable) (a b : String) : Prop := compareOps t a b = .tighter

end Wok.Reordering
