/-
Module: Wok.Spec.Sexpr
Purpose: What an s-expression stands for: the tree of a node, with the bytes of its names and
  texts in place of spans; which nodes the schema allows; and what a reader must give back.
Imports: Wok.Grammar.Sexpr
Trusted boundary: none
Main exports: SyntaxTree, WokNode.tree, WokNode.Conforms, WokNode.levels, WokNode.texts, Repeats
-/
import Wok.Grammar.Sexpr

namespace Wok.Grammar

/-! ### Trees -/

mutual

/-- A tree: a tag and the values of its fields. -/
inductive SyntaxTree where
  | mk (tag : WokTag) (values : List FieldValue)

inductive FieldValue where
  | node (n : Option SyntaxTree)
  | seq (ns : List SyntaxTree)
  | text (bs : List UInt8)
  | num (v : UInt64)
  | flag (b : Bool)

end

mutual

/-- The tree of a node whose spans index `src`. Positions are no part of it. -/
def WokNode.tree (src : List UInt8) : WokNode → SyntaxTree
  | .mk tag _ _ slots => .mk tag (slotValues src slots)

def slotValues (src : List UInt8) : List WokSlot → List FieldValue
  | [] => []
  | slot :: slots => slot.value src :: slotValues src slots

def WokSlot.value (src : List UInt8) : WokSlot → FieldValue
  | .node none => .node none
  | .node (some n) => .node (some (n.tree src))
  | .seq ns => .seq (nodeTrees src ns)
  | .span s => .text (s.text src)
  | .num v => .num v
  | .flag b => .flag b

def nodeTrees (src : List UInt8) : List WokNode → List SyntaxTree
  | [] => []
  | n :: ns => n.tree src :: nodeTrees src ns

end

/-! ### The schema -/

/-- Every byte of the span is in a source of this size. -/
def WokSpan.Within (size : Nat) (s : WokSpan) : Prop :=
  ∀ i < s.len.toNat, (s.off + UInt32.ofNat i).toNat < size

instance (size : Nat) (s : WokSpan) : Decidable (s.Within size) :=
  inferInstanceAs (Decidable (∀ i < s.len.toNat, (s.off + UInt32.ofNat i).toNat < size))

mutual

/-- A node as the schema has it, its spans in a source of this size. -/
inductive WokNode.Conforms (size : Nat) : WokNode → Prop where
  | mk {tag : WokTag} {off len : UInt32} {slots : List WokSlot}
      (fields : FieldsConform size tag.fields slots) : WokNode.Conforms size (.mk tag off len slots)

/-- One slot for each field. -/
inductive FieldsConform (size : Nat) : List WokField → List WokSlot → Prop where
  | nil : FieldsConform size [] []
  | cons {field : WokField} {fields : List WokField} {slot : WokSlot} {slots : List WokSlot}
      (first : FieldConforms size field slot) (rest : FieldsConform size fields slots) :
      FieldsConform size (field :: fields) (slot :: slots)

/-- A required node is there, and every child is of a family that the field takes. -/
inductive FieldConforms (size : Nat) : WokField → WokSlot → Prop where
  | node {field : WokField} {n : WokNode} (cls : field.cls = .node)
      (family : field.family.accepts n.tag.family) (child : WokNode.Conforms size n) :
      FieldConforms size field (.node (some n))
  | none {field : WokField} (cls : field.cls = .opt) : FieldConforms size field (.node none)
  | some {field : WokField} {n : WokNode} (cls : field.cls = .opt)
      (family : field.family.accepts n.tag.family) (child : WokNode.Conforms size n) :
      FieldConforms size field (.node (some n))
  | seq {field : WokField} {ns : List WokNode} (cls : field.cls = .seq)
      (families : ∀ n ∈ ns, field.family.accepts n.tag.family)
      (children : ∀ n ∈ ns, WokNode.Conforms size n) :
      FieldConforms size field (.seq ns)
  | span {field : WokField} {s : WokSpan} (cls : field.cls = .name ∨ field.cls = .text)
      (within : s.Within size) : FieldConforms size field (.span s)
  | num {field : WokField} {v : UInt64} (cls : field.cls = .int) : FieldConforms size field (.num v)
  | flag {field : WokField} {b : Bool} (cls : field.cls = .flag) :
      FieldConforms size field (.flag b)

end

/-! ### Depth as the writer counts it -/

mutual

/-- A node below an option or a sequence is two levels down. -/
def WokNode.levels : WokNode → Nat
  | .mk tag _ _ slots => 1 + fieldsLevels tag.fields slots

def fieldsLevels : List WokField → List WokSlot → Nat
  | field :: fields, slot :: slots => max (slot.levels field) (fieldsLevels fields slots)
  | _, _ => 0

def WokSlot.levels (field : WokField) : WokSlot → Nat
  | .node (some n) => if field.cls = .opt then 1 + n.levels else n.levels
  | .seq ns => itemsLevels ns
  | _ => 0

def itemsLevels : List WokNode → Nat
  | [] => 0
  | n :: ns => max (1 + n.levels) (itemsLevels ns)

end

/-! ### Names and texts -/

mutual

/-- The bytes of all names and texts, in the order of the fields. -/
def WokNode.texts (src : List UInt8) : WokNode → List UInt8
  | .mk _ _ _ slots => slotsTexts src slots

def slotsTexts (src : List UInt8) : List WokSlot → List UInt8
  | [] => []
  | slot :: slots => slot.texts src ++ slotsTexts src slots

def WokSlot.texts (src : List UInt8) : WokSlot → List UInt8
  | .node (some n) => n.texts src
  | .seq ns => nodesTexts src ns
  | .span s => s.text src
  | _ => []

def nodesTexts (src : List UInt8) : List WokNode → List UInt8
  | [] => []
  | n :: ns => n.texts src ++ nodesTexts src ns

end

/-- Past `2 ^ 32` bytes, where a `u32` starts over, the bytes start over as well. -/
def Repeats (bs : List UInt8) : Prop := ∀ k < bs.length, bs[k % 2 ^ 32]? = bs[k]?

/-- Reading the text gives a tree again. -/
def ReadsAs (text : List UInt8) (t : SyntaxTree) : Prop :=
  ∃ n src, wokSexprRead text = .ok (n, src) ∧ n.tree src = t

end Wok.Grammar
