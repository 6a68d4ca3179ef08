/-
Module: Wok.Grammar.ReorderWalk
Purpose: The pass over a whole syntax tree that gives operator chains their structure: the walk
  over the slots of every node, and the regrouping of a chain whose operands are done.
Imports: Wok.Grammar.Ast, Wok.Grammar.Fixity, Wok.Lib.OperatorChains
Trusted boundary: none
Main exports: WokFixOp, WokFixTable, ChainTail, combineInfix, reorderSplit, reorderChain,
  reorderNode, wokReorder
-/
import Wok.Grammar.Ast
import Wok.Grammar.Fixity
import Wok.Lib.OperatorChains

namespace Wok.Grammar.Walk

open Wok.Lib.Chains (Order)

/-! ### The table -/

/-- An operator of the table; one that was never declared has no offset. -/
structure WokFixOp where
  name : WokSpan
  assoc : UInt64
  declOff : Option UInt32
  deriving Repr, DecidableEq

/-- The operators, and rows of `words` words in which the bit `(i, j)` says that `i` binds
tighter than `j`. -/
structure WokFixTable where
  ops : List WokFixOp
  edge : List UInt64
  words : Nat
  deriving Repr, DecidableEq

/-- The context of the walk: the table and the source. -/
structure RO where
  fix : WokFixTable
  src : List UInt8
  deriving Repr, DecidableEq

inductive ReorderDiag where
  | undeclared (name : WokSpan)
  | neighbourOnly (name : WokSpan)
  | incomparable (best cur : WokSpan)
  deriving Repr, DecidableEq

def RO.text (ro : RO) (s : WokSpan) : List UInt8 := (ro.src.drop s.off.toNat).take s.len.toNat

def spanEq (ro : RO) (a b : WokSpan) : Bool := a.len == b.len && ro.text a == ro.text b

def fixFind (ro : RO) (name : WokSpan) : Option Nat :=
  ro.fix.ops.findIdx? fun op => spanEq ro op.name name

def fixTighter (ro : RO) (i j : Nat) : Bool :=
  (ro.fix.edge.getD (i * ro.fix.words + j / 64) 0 >>> UInt64.ofNat (j % 64)) &&& 1 != 0

/-- A place of a flat chain, whose operand has been reordered. -/
structure ChainTail where
  name : WokSpan
  backtick : Bool
  rhs : WokNode
  fixIdx : Nat

/-- Argument order matters: `a` is at the cursor of the scan, `b` the loosest so far. -/
def compareOps (ro : RO) (a : WokSpan) (ai : Nat) (b : WokSpan) (bi : Nat) : Order :=
  if spanEq ro a b then .equal
  else if fixTighter ro ai bi then .tighter
  else if fixTighter ro bi ai then .looser
  else .incomparable

/-- Every placeholder of the table is reported. -/
def checkNeighbours (ro : RO) : List ReorderDiag :=
  ro.fix.ops.filterMap fun op => if op.declOff.isNone then some (.neighbourOnly op.name) else none

/-! ### One chain -/

/-- The scan from place `i` on, with `best` at `bestIdx` the loosest before. -/
def findLoosestFrom (ro : RO) : ChainTail → Nat → Nat → List ChainTail → Except ReorderDiag Nat
  | _, bestIdx, _, [] => .ok bestIdx
  | best, bestIdx, i, t :: ts =>
      match compareOps ro t.name t.fixIdx best.name best.fixIdx with
      | .tighter => findLoosestFrom ro best bestIdx (i + 1) ts
      | .looser => findLoosestFrom ro t i (i + 1) ts
      | .equal =>
          if (ro.fix.ops[best.fixIdx]?.map (·.assoc)) = some assocLeft then
            findLoosestFrom ro t i (i + 1) ts
          else findLoosestFrom ro best bestIdx (i + 1) ts
      | .incomparable => .error (.incomparable best.name t.name)

def findLoosest (ro : RO) (t : ChainTail) (ts : List ChainTail) : Except ReorderDiag Nat :=
  findLoosestFrom ro t 0 1 ts

/-- A chain of one operator, over the span of its operands. -/
def combineInfix (lhs : WokNode) (op : WokSpan) (backtick : Bool) (rhs : WokNode) : WokNode :=
  let start := lhs.off
  let stop := rhs.off + rhs.len
  let opn := .mk .hChainOp op.off (stop - op.off) [.span op, .flag backtick, .node (some rhs)]
  .mk .eChain start (stop - start) [.node (some lhs), .seq [opn]]

/-- Find the loosest operator, split there and go on with both sides. When the scan fails the
slice stops at its first operand. -/
def reorderSplit (ro : RO) (h : WokNode) (tails : List ChainTail) : WokNode × List ReorderDiag :=
  match tails with
  | [] => (h, [])
  | t :: ts =>
      match findLoosest ro t ts with
      | .error d => (h, [d])
      | .ok idx =>
          match _hdrop : (t :: ts).drop idx with
          | [] => (h, [])
          | splitAt :: rest =>
              let left := reorderSplit ro h ((t :: ts).take idx)
              let right := reorderSplit ro splitAt.rhs rest
              (combineInfix left.1 splitAt.name splitAt.backtick right.1, left.2 ++ right.2)
termination_by tails.length
decreasing_by
  · have hlen := congrArg List.length _hdrop
    simp only [List.length_drop, List.length_cons, List.length_take] at hlen ⊢
    omega
  · have hlen := congrArg List.length _hdrop
    simp only [List.length_drop, List.length_cons] at hlen ⊢
    omega

/-- The head and the operators of a chain (`E_Chain_head`, `E_Chain_ops`). -/
def chainParts : List WokSlot → Option (WokNode × List WokNode)
  | [.node (some head), .seq ops] => some (head, ops)
  | _ => none

/-- The fields of an operator node (`H_ChainOp_op`, `H_ChainOp_backtick`, `H_ChainOp_rhs`). -/
def opParts (n : WokNode) : Option (WokSpan × Bool × WokNode) :=
  match n.slots with
  | [.span op, .flag backtick, .node (some rhs)] => some (op, backtick, rhs)
  | _ => none

/-- The operators in the table, up to the first that is not there. A node that is not of the
schema, which the parser never makes, gives no chain. -/
def resolveTails (ro : RO) : List WokNode → Except (List ReorderDiag) (List ChainTail)
  | [] => .ok []
  | n :: ns =>
      match opParts n with
      | none => .error []
      | some (op, backtick, rhs) =>
          match fixFind ro op with
          | none => .error [.undeclared op]
          | some idx =>
              match resolveTails ro ns with
              | .error ds => .error ds
              | .ok ts => .ok (⟨op, backtick, rhs, idx⟩ :: ts)

/-- A chain whose operands have been reordered; it stays as it is when an operator is not
declared. -/
def reorderChain (ro : RO) (n : WokNode) : WokNode × List ReorderDiag :=
  match chainParts n.slots with
  | none => (n, [])
  | some (head, ops) =>
      match resolveTails ro ops with
      | .error ds => (n, ds)
      | .ok tails => reorderSplit ro head tails

/-- A node whose children have been reordered. -/
def reorderBase (ro : RO) (n : WokNode) : WokNode × List ReorderDiag :=
  if n.tag = .eChain then reorderChain ro n else (n, [])

/-! ### The walk -/

mutual

/-- Bottom-up, over every node, optional node and sequence, whatever its family. -/
def reorderNode (ro : RO) : WokNode → WokNode × List ReorderDiag
  | .mk tag off len slots =>
      let children := reorderSlots ro slots
      let base := reorderBase ro (.mk tag off len children.1)
      (base.1, children.2 ++ base.2)

def reorderSlots (ro : RO) : List WokSlot → List WokSlot × List ReorderDiag
  | [] => ([], [])
  | slot :: slots =>
      let s := reorderSlot ro slot
      let ss := reorderSlots ro slots
      (s.1 :: ss.1, s.2 ++ ss.2)

def reorderSlot (ro : RO) : WokSlot → WokSlot × List ReorderDiag
  | .node none => (.node none, [])
  | .node (some n) =>
      let r := reorderNode ro n
      (.node (some r.1), r.2)
  | .seq ns =>
      let r := reorderSeq ro ns
      (.seq r.1, r.2)
  | .span s => (.span s, [])
  | .num v => (.num v, [])
  | .flag b => (.flag b, [])

def reorderSeq (ro : RO) : List WokNode → List WokNode × List ReorderDiag
  | [] => ([], [])
  | n :: ns =>
      let r := reorderNode ro n
      let rs := reorderSeq ro ns
      (r.1 :: rs.1, r.2 ++ rs.2)

end

/-- The table first, the tree second: a placeholder in the table stops the pass. -/
def wokReorder (ro : RO) (file : WokNode) : WokNode × List ReorderDiag :=
  match checkNeighbours ro with
  | [] => reorderNode ro file
  | d :: ds => (file, d :: ds)

attribute [grind =] findLoosestFrom reorderSplit resolveTails chainParts reorderSlots reorderSlot

end Wok.Grammar.Walk
