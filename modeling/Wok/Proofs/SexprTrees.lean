/-
Module: Wok.Proofs.SexprTrees
Purpose: Which nodes are written without a marker, and when the tree that is read back is the
  one that was written.
Imports: Mathlib.Data.List.GetD, Wok.Proofs.SexprRoundTrip
Trusted boundary: none
Main exports: wokSexprDump_err, place_tree_iff, dump_reads_iff
-/
import Mathlib.Data.List.GetD
import Wok.Proofs.SexprRoundTrip

namespace Wok.Grammar

variable {src : List UInt8} {size : Nat} {tag : WokTag} {field : WokField} {slot : WokSlot}
  {fields : List WokField} {slots : List WokSlot} {sep : List UInt8} {depth : Nat}

/-! ### Depth -/

/-- Below the limit, a field is written without a marker exactly when its nodes are within
it. -/
theorem renderField_err (hlimit : depth ≤ wokSexprMaxDepth + 1)
    (hchild : ∀ depth' n, depth ≤ depth' → n.Conforms size →
      ((renderNode src depth' n).err = [] ↔ depth' + n.levels ≤ wokSexprMaxDepth + 1))
    (h : FieldConforms size field slot) :
    (renderField src tag field depth slot).err = [] ↔
      depth + slot.levels field ≤ wokSexprMaxDepth + 1 := by
  have hitems : ∀ ns : List WokNode, (∀ n ∈ ns, n.Conforms size) →
      ((renderItems src (depth + 1) ns).err = [] ↔
        depth + itemsLevels ns ≤ wokSexprMaxDepth + 1) := by
    intro ns hns
    induction ns with
    | nil => simpa [renderItems, itemsLevels] using hlimit
    | cons n ns ih =>
        have hn := hchild (depth + 1) n (by omega) (hns n List.mem_cons_self)
        have htail := ih fun n' hn' => hns n' (List.mem_cons_of_mem n hn')
        simp only [renderItems, itemsLevels, Dump.append_err, putText_err, List.nil_append,
          List.append_eq_nil_iff, hn, htail]
        omega
  cases h with
  | @node field n cls family child =>
      simp only [renderField, WokSlot.levels, cls]
      exact hchild depth n (by omega) child
  | none cls => simpa [renderField, WokSlot.levels, cls] using hlimit
  | @some field n cls family child =>
      have hn := hchild (depth + 1) n (by omega) child
      simp only [renderField, WokSlot.levels, cls, Dump.append_err, putText_err, List.nil_append,
        List.append_nil, hn, if_true]
      omega
  | @seq field ns cls families children =>
      simp only [renderField, WokSlot.levels, cls, Dump.append_err, putText_err, List.nil_append,
        List.append_nil]
      exact hitems ns children
  | span cls within =>
      rcases cls with cls | cls
      · simpa [renderField, WokSlot.levels, cls] using hlimit
      · simpa [renderField, WokSlot.levels, cls] using hlimit
  | num cls => simpa [renderField, WokSlot.levels, cls] using hlimit
  | flag cls => simpa [renderField, WokSlot.levels, cls] using hlimit

theorem renderFields_err (hlimit : depth ≤ wokSexprMaxDepth + 1)
    (hchild : ∀ depth' n, depth ≤ depth' → n.Conforms size →
      ((renderNode src depth' n).err = [] ↔ depth' + n.levels ≤ wokSexprMaxDepth + 1))
    (h : FieldsConform size fields slots) :
    (renderFields src tag sep depth fields slots).err = [] ↔
      depth + fieldsLevels fields slots ≤ wokSexprMaxDepth + 1 := by
  induction fields generalizing slots with
  | nil =>
      cases h
      simpa [renderFields, fieldsLevels] using hlimit
  | cons field fields ih =>
      cases h with
      | cons first rest =>
          have hfirst : (renderField src tag field depth _).err = [] ↔ _ :=
            renderField_err hlimit hchild first
          have hrest := ih rest
          simp only [renderFields, fieldsLevels, Dump.append_err, putText_err, List.nil_append,
            List.append_eq_nil_iff, hfirst, hrest]
          omega

theorem levels_pos (n : WokNode) : 0 < n.levels := by
  cases n
  simp only [WokNode.levels]
  omega

/-- A node of the schema is written without a marker exactly when it is no deeper than the
limit. -/
theorem renderNode_err {n : WokNode} (hn : n.Conforms size) :
    (renderNode src depth n).err = [] ↔ depth + n.levels ≤ wokSexprMaxDepth + 1 := by
  obtain ⟨k, hk⟩ : ∃ k, wokSexprMaxDepth + 1 ≤ depth + k := ⟨wokSexprMaxDepth + 1, by omega⟩
  induction k generalizing depth n with
  | zero =>
      constructor
      · intro herr
        have := depth_le_of_err herr
        omega
      · intro hlevels
        have := levels_pos n
        omega
  | succ k ih =>
      by_cases hdepth : depth ≤ wokSexprMaxDepth
      · cases hn with
        | @mk tag off len slots fields =>
            have hfields : (renderFields src tag (tag.separator depth) (depth + 1) tag.fields
                slots).err = [] ↔ _ :=
              renderFields_err (by omega) (fun depth' n hle hn => ih hn (by omega)) fields
            rw [renderNode_eq hdepth]
            simp only [WokNode.levels, Dump.append_err, putText_err, List.nil_append,
              List.append_nil, hfields]
            omega
      · constructor
        · intro herr
          exact absurd (depth_le_of_err herr) hdepth
        · intro hlevels
          have := levels_pos n
          omega

theorem wokSexprDump_err {n : WokNode} (hn : n.Conforms size) :
    (wokSexprDump src n).err = [] ↔ n.levels ≤ wokSexprMaxDepth := by
  have h : (renderNode src 1 n).err = [] ↔ _ := renderNode_err hn
  simp only [wokSexprDump, Dump.append_err, putText_err, List.append_nil, h]
  omega

/-! ### The tree over the pool -/

/-- From `start` on, a `u32` at a time, the pool shows the bytes. -/
def Shows (pool : List UInt8) (start : Nat) (bs : List UInt8) : Prop :=
  ∀ k < bs.length, pool.getD ((start + k) % 2 ^ 32) 0 = bs.getD k 0

variable {pool : List UInt8} {start : Nat}

theorem shows_nil : Shows pool start [] := by
  intro k hk
  cases hk

theorem shows_append (as bs : List UInt8) :
    Shows pool start (as ++ bs) ↔ Shows pool start as ∧ Shows pool (start + as.length) bs := by
  constructor
  · intro h
    constructor
    · intro k hk
      rw [h k (by rw [List.length_append]; omega), List.getD_append _ _ _ _ hk]
    · intro k hk
      have hsum := h (as.length + k) (by rw [List.length_append]; omega)
      rw [List.getD_append_right _ _ _ _ (by omega)] at hsum
      rw [Nat.add_assoc, hsum, Nat.add_sub_cancel_left]
  · rintro ⟨has, hbs⟩ k hk
    by_cases hlt : k < as.length
    · rw [List.getD_append _ _ _ _ hlt, has k hlt]
    · rw [List.length_append] at hk
      have h := hbs (k - as.length) (by omega)
      rw [List.getD_append_right _ _ _ _ (by omega), ← h]
      congr 2
      omega

theorem span_text_eq_iff (len : UInt32) {bs : List UInt8} (hlen : bs.length = len.toNat) :
    WokSpan.text pool ⟨UInt32.ofNat start, len⟩ = bs ↔ Shows pool start bs := by
  have hindex : ∀ k, (UInt32.ofNat start + UInt32.ofNat k).toNat = (start + k) % 2 ^ 32 := by
    intro k
    simp [UInt32.toNat_add]
  constructor
  · rintro rfl k hk
    rw [WokSpan.length_text] at hk
    simp [WokSpan.text, hk, hindex]
  · intro h
    refine List.ext_getElem (by rw [WokSpan.length_text, hlen]) fun k hk hk' => ?_
    have hshow := h k hk'
    rw [List.getD_eq_getElem _ _ hk'] at hshow
    simp only [WokSpan.text, List.getElem_map, List.getElem_range, hindex]
    exact hshow

mutual

/-- Over a pool, the placed node is the same tree exactly when the pool shows its texts. -/
theorem place_tree_iff (start : Nat) : ∀ n : WokNode,
    (n.place src start).tree pool = n.tree src ↔ Shows pool start (n.texts src)
  | .mk tag off len slots => by
      simp only [WokNode.place, WokNode.tree, WokNode.texts, SyntaxTree.mk.injEq, true_and]
      exact placeSlots_values_iff start slots

theorem placeSlots_values_iff (start : Nat) : ∀ slots : List WokSlot,
    slotValues pool (placeSlots src start slots) = slotValues src slots ↔
      Shows pool start (slotsTexts src slots)
  | [] => by simp [placeSlots, slotValues, slotsTexts, shows_nil]
  | slot :: slots => by
      simp only [placeSlots, slotValues, slotsTexts, List.cons.injEq, shows_append]
      rw [place_value_iff start slot, placeSlots_values_iff _ slots]

theorem place_value_iff (start : Nat) : ∀ slot : WokSlot,
    (slot.place src start).value pool = slot.value src ↔ Shows pool start (slot.texts src)
  | .node none => by simp [WokSlot.place, WokSlot.value, WokSlot.texts, shows_nil]
  | .node (some n) => by
      simp only [WokSlot.place, WokSlot.value, WokSlot.texts, FieldValue.node.injEq,
        Option.some.injEq]
      exact place_tree_iff start n
  | .seq ns => by
      simp only [WokSlot.place, WokSlot.value, WokSlot.texts, FieldValue.seq.injEq]
      exact placeNodes_trees_iff start ns
  | .span s => by
      simp only [WokSlot.place, WokSlot.value, WokSlot.texts, FieldValue.text.injEq]
      exact span_text_eq_iff s.len (WokSpan.length_text src s)
  | .num v => by simp [WokSlot.place, WokSlot.value, WokSlot.texts, shows_nil]
  | .flag b => by simp [WokSlot.place, WokSlot.value, WokSlot.texts, shows_nil]

theorem placeNodes_trees_iff (start : Nat) : ∀ ns : List WokNode,
    nodeTrees pool (placeNodes src start ns) = nodeTrees src ns ↔
      Shows pool start (nodesTexts src ns)
  | [] => by simp [placeNodes, nodeTrees, nodesTexts, shows_nil]
  | n :: ns => by
      simp only [placeNodes, nodeTrees, nodesTexts, List.cons.injEq, shows_append]
      rw [place_tree_iff start n, placeNodes_trees_iff _ ns]

end

/-- A pool of exactly the texts shows them when they repeat past the range of a `u32`. -/
theorem shows_self_iff {bs : List UInt8} : Shows (bs ++ [0]) 0 bs ↔ Repeats bs := by
  have hget : ∀ k < bs.length,
      ((bs ++ [0]).getD ((0 + k) % 2 ^ 32) 0 = bs.getD k 0 ↔ bs[k % 2 ^ 32]? = bs[k]?) := by
    intro k hk
    have hmod : k % 2 ^ 32 < bs.length := Nat.lt_of_le_of_lt (Nat.mod_le _ _) hk
    rw [Nat.zero_add, List.getD_append _ _ _ _ hmod, List.getD_eq_getElem _ _ hmod,
      List.getD_eq_getElem _ _ hk, List.getElem?_eq_getElem hmod, List.getElem?_eq_getElem hk]
    exact Option.some.injEq _ _ |>.symm ▸ Iff.rfl
  exact forall₂_congr hget

theorem place_tree_iff_repeats (n : WokNode) :
    (n.place src 0).tree (n.texts src ++ [0]) = n.tree src ↔ Repeats (n.texts src) := by
  rw [place_tree_iff, shows_self_iff]

/-- One byte more than a `u32` counts, the last one another. -/
def wrapSource : List UInt8 := List.replicate 4294967295 (ch 'a') ++ [ch 'c']

/-- Three names: all bytes but the last, the first, the last. -/
def wrapPath : WokNode :=
  .mk .nModPath 0 0
    [.seq
      [.mk .nName 0 0 [.span ⟨0, 4294967295⟩, .flag false],
        .mk .nName 0 0 [.span ⟨0, 1⟩, .flag false],
        .mk .nName 0 0 [.span ⟨4294967295, 1⟩, .flag false]]]

theorem length_wrapSource : wrapSource.length = 2 ^ 32 := by
  rw [wrapSource, List.length_append, List.length_replicate]
  rfl

theorem wrapPath_conforms : wrapPath.Conforms wrapSource.length := by
  have hwithin : ∀ s : WokSpan, s.Within wrapSource.length := by
    intro s i _
    rw [length_wrapSource]
    exact UInt32.toNat_lt _
  have hname : ∀ s : WokSpan, WokNode.Conforms wrapSource.length
      (.mk .nName 0 0 [.span s, .flag false]) := fun s =>
    .mk (.cons (.span (.inl rfl) (hwithin s)) (.cons (.flag rfl) .nil))
  refine .mk (.cons (.seq rfl (by decide) ?_) .nil)
  intro n hn
  simp only [List.mem_cons, List.not_mem_nil, or_false] at hn
  rcases hn with rfl | rfl | rfl
  · exact hname _
  · exact hname _
  · exact hname _

theorem getD_wrapSource :
    wrapSource.getD 0 0 = ch 'a' ∧ wrapSource.getD 4294967295 0 = ch 'c' := by
  unfold wrapSource
  generalize hm : 4294967295 = m
  constructor
  · rw [List.getD_append _ _ _ _ (by rw [List.length_replicate]; omega),
      List.getD_eq_getElem _ _ (by rw [List.length_replicate]; omega), List.getElem_replicate]
  · rw [List.getD_append_right _ _ _ _ (by rw [List.length_replicate]), List.length_replicate,
      Nat.sub_self]
    rfl

/-- The text of one byte. -/
theorem text_one (src : List UInt8) (off : UInt32) :
    WokSpan.text src ⟨off, 1⟩ = [src.getD off.toNat 0] := by
  simp [WokSpan.text]

theorem text_head (src : List UInt8) {s : WokSpan} (h : s.len.toNat ≠ 0) :
    (s.text src).head? = some (src.getD s.off.toNat 0) := by
  simp [WokSpan.text, List.head?_range, h]

/-- The byte after the first `2 ^ 32` of them is not the first one. -/
theorem not_repeats_of_wrap {bs : List UInt8} {a b c : UInt8} (hlen : bs.length + 1 = 2 ^ 32)
    (hfirst : bs.head? = some a) (hne : a ≠ c) : ¬ Repeats (bs ++ [b, c]) := by
  intro h
  have hrep := h (2 ^ 32) (by rw [List.length_append]; simp only [List.length_cons]; omega)
  rw [Nat.mod_self, List.getElem?_append_left (by omega), ← List.head?_eq_getElem?, hfirst,
    List.getElem?_append_right (by omega)] at hrep
  have hindex : 2 ^ 32 - bs.length = 1 := by omega
  rw [hindex] at hrep
  exact hne (Option.some.inj hrep)

theorem wrapPath_texts :
    wrapPath.texts wrapSource =
      WokSpan.text wrapSource ⟨0, 4294967295⟩ ++ [ch 'a', ch 'c'] := by
  have hfirst : wrapSource.getD (0 : UInt32).toNat 0 = ch 'a' := getD_wrapSource.1
  have hlast : wrapSource.getD (4294967295 : UInt32).toNat 0 = ch 'c' := getD_wrapSource.2
  simp only [wrapPath, WokNode.texts, slotsTexts, WokSlot.texts, nodesTexts, text_one,
    hfirst, hlast, List.append_nil, List.singleton_append]

theorem wrapPath_not_repeats : ¬ Repeats (wrapPath.texts wrapSource) := by
  have hlen : (WokSpan.text wrapSource ⟨0, 4294967295⟩).length + 1 = 2 ^ 32 := by
    rw [WokSpan.length_text]
    decide
  have hfirst : (WokSpan.text wrapSource ⟨0, 4294967295⟩).head? = some (ch 'a') := by
    have hhead := text_head wrapSource (s := ⟨0, 4294967295⟩) (by decide)
    rw [hhead]
    exact congrArg some getD_wrapSource.1
  rw [wrapPath_texts]
  exact not_repeats_of_wrap hlen hfirst (by decide)

end Wok.Grammar
