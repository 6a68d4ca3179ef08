/-
Module: Wok.Proofs.Rows
Purpose: Types with their variables replaced and their rows sorted: sorted rows are
  taken apart at any label.
Imports: Wok.Spec.Unify
Trusted boundary: none
Main exports: insertField_inj, insertField_ne, Ty.eval, norm_subst
-/
import Wok.Spec.Unify

namespace Wok.TypeChecking

variable {l l' : String} {t t' r r' x y : Ty} {ρ ρ' : Nat → Ty}

/-! ### Sorted rows -/

/-- Induction along a row. -/
theorem Ty.rowInduction {P : Ty → Prop}
    (row : ∀ l t rest, P rest → P (.rowExtend l t rest))
    (other : ∀ t, (∀ l u rest, t ≠ .rowExtend l u rest) → P t) : ∀ t, P t
  | .rowExtend l t rest => row l t rest (Ty.rowInduction row other rest)
  | .con _ _ => other _ fun _ _ _ h => nomatch h
  | .arr _ _ _ => other _ fun _ _ _ h => nomatch h
  | .record _ _ => other _ fun _ _ _ h => nomatch h
  | .rowEmpty => other _ fun _ _ _ h => nomatch h
  | .var _ => other _ fun _ _ _ h => nomatch h

/-- Every label of the row is at least `l`. -/
def LabelsFrom (l : String) : Ty → Prop
  | .rowExtend l' _ rest => l ≤ l' ∧ LabelsFrom l rest
  | _ => True

/-- The labels of the row do not decrease. -/
def SortedRow : Ty → Prop
  | .rowExtend l _ rest => LabelsFrom l rest ∧ SortedRow rest
  | _ => True

theorem labelsFrom_of_ne (h : ∀ l u rest, r ≠ .rowExtend l u rest) : LabelsFrom l r := by
  cases r with
  | rowExtend l₀ t rest => exact absurd rfl (h l₀ t rest)
  | _ => trivial

theorem sortedRow_of_ne (h : ∀ l u rest, r ≠ .rowExtend l u rest) : SortedRow r := by
  cases r with
  | rowExtend l₀ t rest => exact absurd rfl (h l₀ t rest)
  | _ => trivial

theorem insertField_of_ne (h : ∀ l u rest, r ≠ .rowExtend l u rest) :
    insertField l t r = .rowExtend l t r := by
  cases r with
  | rowExtend l₀ t rest => exact absurd rfl (h l₀ t rest)
  | _ => rfl

theorem LabelsFrom.mono (h : LabelsFrom l r) (hle : l' ≤ l) : LabelsFrom l' r := by
  induction r using Ty.rowInduction with
  | row l₀ t rest ih => exact ⟨hle.trans h.1, ih h.2⟩
  | other r hr => exact labelsFrom_of_ne hr

theorem LabelsFrom.insertField (h : LabelsFrom l r) (hle : l ≤ l') :
    LabelsFrom l (insertField l' t r) := by
  induction r using Ty.rowInduction with
  | row l₀ t₀ rest ih =>
      rw [TypeChecking.insertField]
      split
      · exact ⟨hle, h⟩
      · exact ⟨h.1, ih h.2⟩
  | other r hr =>
      rw [insertField_of_ne hr]
      exact ⟨hle, h⟩

theorem SortedRow.insertField (h : SortedRow r) : SortedRow (insertField l t r) := by
  induction r using Ty.rowInduction with
  | row l₀ t₀ rest ih =>
      rw [TypeChecking.insertField]
      split
      · next hle => exact ⟨⟨hle, h.1.mono hle⟩, h⟩
      · next hlt => exact ⟨h.1.insertField (le_of_not_ge hlt), ih h.2⟩
  | other r hr =>
      rw [insertField_of_ne hr]
      exact ⟨labelsFrom_of_ne hr, h⟩

/-- The first field with a label, and the row without it. -/
def takeField (l : String) : Ty → Option (Ty × Ty)
  | .rowExtend l' t rest =>
      if l = l' then some (t, rest)
      else (takeField l rest).map fun e => (e.1, .rowExtend l' t e.2)
  | _ => none

theorem takeField_of_ne (h : ∀ l u rest, r ≠ .rowExtend l u rest) : takeField l r = none := by
  cases r with
  | rowExtend l₀ t rest => exact absurd rfl (h l₀ t rest)
  | _ => rfl

theorem takeField_insertField : takeField l (insertField l t r) = some (t, r) := by
  induction r using Ty.rowInduction with
  | row l₀ t₀ rest ih =>
      rw [insertField]
      split
      · rw [takeField, if_pos rfl]
      · next hlt =>
          have hne : l ≠ l₀ := fun heq => hlt heq.le
          rw [takeField, if_neg hne, ih]
          rfl
  | other r hr => rw [insertField_of_ne hr, takeField, if_pos rfl]

/-- What is put into a row can be taken out of it. -/
theorem insertField_inj (h : insertField l t r = insertField l t' r') : t = t' ∧ r = r' := by
  have htake := congrArg (takeField l) h
  rw [takeField_insertField, takeField_insertField] at htake
  cases htake
  exact ⟨rfl, rfl⟩

theorem insertField_of_from (h : LabelsFrom l r) : insertField l t r = .rowExtend l t r := by
  cases r with
  | rowExtend l₀ t₀ rest => rw [insertField, if_pos h.1]
  | _ => rfl

theorem insertField_pair (hne : l ≠ l') :
    (if l ≤ l' then Ty.rowExtend l t (.rowExtend l' t' r)
      else .rowExtend l' t' (.rowExtend l t r)) =
      if l' ≤ l then .rowExtend l' t' (.rowExtend l t r)
      else .rowExtend l t (.rowExtend l' t' r) := by
  rcases lt_or_gt_of_ne hne with hlt | hgt
  · rw [if_pos hlt.le, if_neg (not_le.mpr hlt)]
  · rw [if_neg (not_le.mpr hgt), if_pos hgt.le]

/-- How many fields a row has. -/
def Ty.rowLen : Ty → Nat
  | .rowExtend _ _ rest => rest.rowLen + 1
  | _ => 0

theorem rowLen_of_ne (h : ∀ l u rest, r ≠ .rowExtend l u rest) : r.rowLen = 0 := by
  cases r with
  | rowExtend l₀ t rest => exact absurd rfl (h l₀ t rest)
  | _ => rfl

theorem rowLen_insertField : (insertField l t r).rowLen = r.rowLen + 1 := by
  induction r using Ty.rowInduction with
  | row l₀ t₀ rest ih =>
      rw [insertField]
      split
      · rfl
      · rw [Ty.rowLen, ih, Ty.rowLen]
  | other r hr => rw [insertField_of_ne hr, Ty.rowLen]

/-- Fields with different labels are put in in any order. -/
theorem insertField_comm (hne : l ≠ l') (r : Ty) :
    insertField l t (insertField l' t' r) = insertField l' t' (insertField l t r) := by
  induction r using Ty.rowInduction with
  | row l₀ t₀ rest ih =>
      by_cases hle : l ≤ l₀
      · by_cases hle' : l' ≤ l₀
        · simp only [insertField, hle, hle', if_true]
          exact insertField_pair hne
        · have hlt : l ≤ l' := hle.trans (le_of_not_ge hle')
          simp only [insertField, hle, hle', if_true, if_false]
          rw [if_neg (not_le.mpr (lt_of_le_of_ne hlt hne))]
      · by_cases hle' : l' ≤ l₀
        · have hlt : l' ≤ l := hle'.trans (le_of_not_ge hle)
          simp only [insertField, hle, hle', if_true, if_false]
          rw [if_neg (not_le.mpr (lt_of_le_of_ne hlt (Ne.symm hne)))]
        · simp only [insertField, hle, hle', if_false]
          rw [ih]
  | other r hr =>
      rw [insertField_of_ne hr, insertField_of_ne hr]
      simp only [insertField, insertField_of_ne hr]
      exact insertField_pair hne

theorem labelsFrom_of_insertField {l₀ : String} (h : LabelsFrom l₀ (insertField l x r)) :
    LabelsFrom l₀ r := by
  induction r using Ty.rowInduction with
  | row l₁ t₁ rest ih =>
      rw [insertField] at h
      split at h
      · exact h.2
      · exact ⟨h.1, ih h.2⟩
  | other r hr => exact labelsFrom_of_ne hr

/-- A sorted row is what its fields make when they are put in again. -/
theorem insertField_takeField (h : SortedRow r) (htake : takeField l r = some (x, y)) :
    r = insertField l x y ∧ SortedRow y := by
  induction r using Ty.rowInduction generalizing y with
  | row l₀ t₀ rest ih =>
      rw [takeField] at htake
      split at htake
      · next heq =>
          cases htake
          subst heq
          exact ⟨(insertField_of_from h.1).symm, h.2⟩
      · next hne =>
          rcases Option.map_eq_some_iff.mp htake with ⟨⟨x', z⟩, htake', heq⟩
          cases heq
          rcases ih h.2 htake' with ⟨hrest, hz⟩
          have hfrom : LabelsFrom l₀ z := labelsFrom_of_insertField (hrest ▸ h.1)
          have hback : insertField l₀ t₀ z = .rowExtend l₀ t₀ z := insertField_of_from hfrom
          refine ⟨?_, hfrom, hz⟩
          calc
            Ty.rowExtend l₀ t₀ rest = insertField l₀ t₀ rest := (insertField_of_from h.1).symm
            _ = insertField l₀ t₀ (insertField l x' z) := by rw [← hrest]
            _ = insertField l x' (insertField l₀ t₀ z) := insertField_comm (Ne.symm hne) z
            _ = insertField l x' (.rowExtend l₀ t₀ z) := by rw [hback]
  | other r hr =>
      rw [takeField_of_ne hr] at htake
      cases htake

/-- A field that is put in is found, and no other. -/
theorem takeField_insertField_none (hne : l ≠ l') (h : takeField l r = none) :
    takeField l (insertField l' t r) = none := by
  induction r using Ty.rowInduction with
  | row l₀ t₀ rest ih =>
      rw [insertField]
      split
      · rw [takeField, if_neg hne, h]
        rfl
      · rw [takeField] at h ⊢
        split at h
        · cases h
        · next hl₀ =>
            rw [if_neg hl₀, ih (Option.map_eq_none_iff.mp h)]
            rfl
  | other r hr =>
      rw [insertField_of_ne hr, takeField, if_neg hne, h]
      rfl

/-- If a row has a field and another one with a different label, the latter is in what
is left without the former. -/
theorem insertField_ne (hne : l ≠ l') (hr : SortedRow r)
    (h : insertField l' t r = insertField l x y) :
    ∃ z, r = insertField l x z ∧ y = insertField l' t z ∧ SortedRow z := by
  cases htake : takeField l r with
  | none =>
      have hnone := takeField_insertField_none (t := t) hne htake
      rw [h, takeField_insertField] at hnone
      cases hnone
  | some e =>
      rcases e with ⟨x', z⟩
      rcases insertField_takeField hr htake with ⟨rfl, hz⟩
      rw [insertField_comm (Ne.symm hne)] at h
      rcases insertField_inj h with ⟨rfl, rfl⟩
      exact ⟨z, rfl, rfl, hz⟩

/-! ### Values of variables -/

mutual

/-- A type with its variables replaced and its rows sorted. -/
def Ty.eval (ρ : Nat → Ty) : Ty → Ty
  | .con c ts => .con c (Ty.evalList ρ ts)
  | .arr a r b => .arr (a.eval ρ) (r.eval ρ) (b.eval ρ)
  | .record tag row => .record tag (row.eval ρ)
  | .rowEmpty => .rowEmpty
  | .rowExtend l t rest => insertField l (t.eval ρ) (rest.eval ρ)
  | .var v => ρ v

def Ty.evalList (ρ : Nat → Ty) : List Ty → List Ty
  | [] => []
  | t :: ts => t.eval ρ :: Ty.evalList ρ ts

end

theorem evalList_eq_map (ρ : Nat → Ty) (ts : List Ty) :
    Ty.evalList ρ ts = ts.map (·.eval ρ) := by
  induction ts with
  | nil => rfl
  | cons t ts ih => rw [Ty.evalList, ih, List.map_cons]

theorem SortedRow.eval (h : ∀ v, SortedRow (ρ v)) (t : Ty) : SortedRow (t.eval ρ) := by
  induction t using Ty.rowInduction with
  | row l t rest ih => exact ih.insertField
  | other t ht =>
      cases t with
      | rowExtend l u rest => exact absurd rfl (ht l u rest)
      | var v => exact h v
      | _ => trivial

mutual

/-- Only the values of a type's variables matter. -/
theorem eval_congr : ∀ (t : Ty), (∀ v ∈ t.vars, ρ v = ρ' v) → t.eval ρ = t.eval ρ'
  | .con c ts, h => congrArg (Ty.con c) (evalList_congr ts h)
  | .arr a r b, h => by
      have hb : ∀ v ∈ b.vars, ρ v = ρ' v := fun v hv =>
        h v (List.mem_append_right _ (List.mem_append_right _ hv))
      have hr : ∀ v ∈ r.vars, ρ v = ρ' v := fun v hv =>
        h v (List.mem_append_right _ (List.mem_append_left _ hv))
      rw [Ty.eval, Ty.eval, eval_congr a fun v hv => h v (List.mem_append_left _ hv),
        eval_congr r hr, eval_congr b hb]
  | .record tag row, h => congrArg (Ty.record tag) (eval_congr row h)
  | .rowEmpty, _ => rfl
  | .rowExtend l t rest, h => by
      rw [Ty.eval, Ty.eval, eval_congr t fun v hv => h v (List.mem_append_left _ hv),
        eval_congr rest fun v hv => h v (List.mem_append_right _ hv)]
  | .var v, h => h v List.mem_cons_self

theorem evalList_congr : ∀ (ts : List Ty), (∀ v ∈ Ty.varsList ts, ρ v = ρ' v) →
    Ty.evalList ρ ts = Ty.evalList ρ' ts
  | [], _ => rfl
  | t :: ts, h => by
      rw [Ty.evalList, Ty.evalList, eval_congr t fun v hv => h v (List.mem_append_left _ hv),
        evalList_congr ts fun v hv => h v (List.mem_append_right _ hv)]

end

mutual

theorem subst_congr : ∀ (t : Ty), (∀ v ∈ t.vars, ρ v = ρ' v) → t.subst ρ = t.subst ρ'
  | .con c ts, h => congrArg (Ty.con c) (substList_congr ts h)
  | .arr a r b, h => by
      have hb : ∀ v ∈ b.vars, ρ v = ρ' v := fun v hv =>
        h v (List.mem_append_right _ (List.mem_append_right _ hv))
      have hr : ∀ v ∈ r.vars, ρ v = ρ' v := fun v hv =>
        h v (List.mem_append_right _ (List.mem_append_left _ hv))
      rw [Ty.subst, Ty.subst, subst_congr a fun v hv => h v (List.mem_append_left _ hv),
        subst_congr r hr, subst_congr b hb]
  | .record tag row, h => congrArg (Ty.record tag) (subst_congr row h)
  | .rowEmpty, _ => rfl
  | .rowExtend l t rest, h => by
      rw [Ty.subst, Ty.subst, subst_congr t fun v hv => h v (List.mem_append_left _ hv),
        subst_congr rest fun v hv => h v (List.mem_append_right _ hv)]
  | .var v, h => h v List.mem_cons_self

theorem substList_congr : ∀ (ts : List Ty), (∀ v ∈ Ty.varsList ts, ρ v = ρ' v) →
    Ty.substList ρ ts = Ty.substList ρ' ts
  | [], _ => rfl
  | t :: ts, h => by
      rw [Ty.substList, Ty.substList, subst_congr t fun v hv => h v (List.mem_append_left _ hv),
        substList_congr ts fun v hv => h v (List.mem_append_right _ hv)]

end

mutual

theorem subst_subst (θ ρ : Nat → Ty) :
    ∀ t : Ty, (t.subst θ).subst ρ = t.subst fun v => (θ v).subst ρ
  | .con c ts => congrArg (Ty.con c) (substList_substList θ ρ ts)
  | .arr a r b => by
      rw [Ty.subst, Ty.subst, Ty.subst, subst_subst θ ρ a, subst_subst θ ρ r, subst_subst θ ρ b]
  | .record tag row => congrArg (Ty.record tag) (subst_subst θ ρ row)
  | .rowEmpty => rfl
  | .rowExtend l t rest => by
      rw [Ty.subst, Ty.subst, Ty.subst, subst_subst θ ρ t, subst_subst θ ρ rest]
  | .var _ => rfl

theorem substList_substList (θ ρ : Nat → Ty) : ∀ ts : List Ty,
    Ty.substList ρ (Ty.substList θ ts) = Ty.substList (fun v => (θ v).subst ρ) ts
  | [] => rfl
  | t :: ts => by
      rw [Ty.substList, Ty.substList, Ty.substList, subst_subst θ ρ t, substList_substList θ ρ ts]

end

mutual

theorem norm_subst (θ : Nat → Ty) : ∀ t : Ty, (t.subst θ).norm = t.eval fun v => (θ v).norm
  | .con c ts => congrArg (Ty.con c) (normList_substList θ ts)
  | .arr a r b => by
      rw [Ty.subst, Ty.norm, Ty.eval, norm_subst θ a, norm_subst θ r, norm_subst θ b]
  | .record tag row => congrArg (Ty.record tag) (norm_subst θ row)
  | .rowEmpty => rfl
  | .rowExtend l t rest => by
      rw [Ty.subst, Ty.norm, Ty.eval, norm_subst θ t, norm_subst θ rest]
  | .var _ => rfl

theorem normList_substList (θ : Nat → Ty) : ∀ ts : List Ty,
    Ty.normList (Ty.substList θ ts) = Ty.evalList (fun v => (θ v).norm) ts
  | [] => rfl
  | t :: ts => by
      rw [Ty.substList, Ty.normList, Ty.evalList, norm_subst θ t, normList_substList θ ts]

end

mutual

theorem eval_var : ∀ t : Ty, t.eval .var = t.norm
  | .con c ts => congrArg (Ty.con c) (evalList_var ts)
  | .arr a r b => by rw [Ty.eval, Ty.norm, eval_var a, eval_var r, eval_var b]
  | .record tag row => congrArg (Ty.record tag) (eval_var row)
  | .rowEmpty => rfl
  | .rowExtend l t rest => by rw [Ty.eval, Ty.norm, eval_var t, eval_var rest]
  | .var _ => rfl

theorem evalList_var : ∀ ts : List Ty, Ty.evalList .var ts = Ty.normList ts
  | [] => rfl
  | t :: ts => by rw [Ty.evalList, Ty.normList, eval_var t, evalList_var ts]

end

theorem norm_insertField (l : String) (t r : Ty) :
    (insertField l t r).norm = insertField l t.norm r.norm := by
  induction r using Ty.rowInduction with
  | row l₀ t₀ rest ih =>
      rw [insertField]
      split
      · rfl
      · next hlt =>
          have hne : l₀ ≠ l := fun heq => hlt heq.ge
          rw [Ty.norm, Ty.norm, ih, insertField_comm hne]
  | other r hr => rw [insertField_of_ne hr, Ty.norm]

/-- The values of the variables have their rows sorted. -/
def Normal (ρ : Nat → Ty) : Prop := ∀ v, (ρ v).norm = ρ v

mutual

theorem Normal.eval (h : Normal ρ) : ∀ t : Ty, (t.eval ρ).norm = t.eval ρ
  | .con c ts => congrArg (Ty.con c) (h.evalList ts)
  | .arr a r b => by rw [Ty.eval, Ty.norm, h.eval a, h.eval r, h.eval b]
  | .record tag row => congrArg (Ty.record tag) (h.eval row)
  | .rowEmpty => rfl
  | .rowExtend l t rest => by rw [Ty.eval, norm_insertField, h.eval t, h.eval rest]
  | .var v => h v

theorem Normal.evalList (h : Normal ρ) : ∀ ts : List Ty,
    Ty.normList (Ty.evalList ρ ts) = Ty.evalList ρ ts
  | [] => rfl
  | t :: ts => by rw [Ty.evalList, Ty.normList, h.eval t, h.evalList ts]

end

theorem norm_norm (t : Ty) : t.norm.norm = t.norm := by
  have h := @Normal.eval .var (fun _ => rfl) t
  rwa [eval_var] at h

/-- The parts of a sorted row are sorted. -/
theorem norm_of_insertField (h : (insertField l x y).norm = insertField l x y) :
    x.norm = x ∧ y.norm = y := by
  rw [norm_insertField] at h
  exact insertField_inj h

theorem sortedRow_norm (t : Ty) : SortedRow t.norm := by
  have h := @SortedRow.eval .var (fun _ => trivial) t
  rwa [eval_var] at h

theorem Normal.sortedRow (h : Normal ρ) (t : Ty) : SortedRow (t.eval ρ) := by
  rw [← h.eval t]
  exact sortedRow_norm _

end Wok.TypeChecking
