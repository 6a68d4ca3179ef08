/-
Module: Wok.Lib.Refinement
Purpose: Two machines that take the same inputs, one of them the specification of the
  other: what one step follows, a whole run follows.
Imports: Mathlib.Logic.Basic
Trusted boundary: none
Main exports: exceptBind_ok, exceptBind_error, Allowed, Follows, Refines, Refines.run
-/
import Mathlib.Logic.Basic

namespace Wok.Lib

variable {ι σ τ ε : Type*}

/-! ### Computations that may fail -/

section Except

variable {α β : Type*} {x : Except ε α} {f : α → Except ε β} {r : β} {e : ε}

/-- A result comes from results of both parts. -/
theorem exceptBind_ok (h : x.bind f = .ok r) : ∃ a, x = .ok a ∧ f a = .ok r := by
  cases x with
  | error e => cases h
  | ok a => exact ⟨a, rfl, h⟩

/-- An error is that of the first part or of the second. -/
theorem exceptBind_error (h : x.bind f = .error e) :
    x = .error e ∨ ∃ a, x = .ok a ∧ f a = .error e := by
  cases x with
  | error e' =>
      cases h
      exact .inl rfl
  | ok a => exact .inr ⟨a, rfl, h⟩

end Except

/-! ### Following a specification -/

/-- Every input is allowed in the state of the specification it comes in. -/
def Allowed (spec : ι → τ → Except ε τ) (valid : ι → τ → Prop) : List ι → τ → Prop
  | [], _ => True
  | i :: is, t => valid i t ∧ ∀ t', spec i t = .ok t' → Allowed spec valid is t'

/-- An outcome follows that of the specification: both end in states that `R` relates,
or both end with one error, but for errors that the specification does not know of. -/
def Follows (excused : ε → Prop) (R : σ → τ → Prop) (x : Except ε σ) (y : Except ε τ) : Prop :=
  match x with
  | .ok s => ∃ t, y = .ok t ∧ R s t
  | .error e => excused e ∨ y = .error e

/-- Steps from related states follow the specification. -/
def Refines (step : ι → σ → Except ε σ) (spec : ι → τ → Except ε τ) (valid : ι → τ → Prop)
    (excused : ε → Prop) (R : σ → τ → Prop) : Prop :=
  ∀ i s t, R s t → valid i t → Follows excused R (step i s) (spec i t)

variable {step : ι → σ → Except ε σ} {spec : ι → τ → Except ε τ} {valid : ι → τ → Prop}
  {excused : ε → Prop} {R : σ → τ → Prop} {is : List ι} {s s' : σ} {t : τ} {e : ε}

namespace Follows

variable {x : Except ε σ} {y : Except ε τ}

theorem ok (h : Follows excused R x y) (hx : x = .ok s) : ∃ t, y = .ok t ∧ R s t := by
  rw [hx] at h
  exact h

theorem error (h : Follows excused R x y) (hx : x = .error e) : excused e ∨ y = .error e := by
  rw [hx] at h
  exact h

theorem of_ok (hx : x = .ok s) (hy : y = .ok t) (hR : R s t) : Follows excused R x y := by
  rw [hx]
  exact ⟨t, hy, hR⟩

theorem of_error (hx : x = .error e) (hy : y = .error e) : Follows excused R x y := by
  rw [hx]
  exact .inr hy

theorem of_excused (hx : x = .error e) (he : excused e) : Follows excused R x y := by
  rw [hx]
  exact .inl he

theorem weaken {R' : σ → τ → Prop} {excused' : ε → Prop} (h : Follows excused R x y)
    (he : ∀ e, excused e → excused' e) (hR : ∀ s t, R s t → R' s t) :
    Follows excused' R' x y := by
  cases x with
  | ok s =>
      rcases h with ⟨t, hy, hst⟩
      exact ⟨t, hy, hR s t hst⟩
  | error e => exact h.imp_left (he e)

end Follows

/-- What a step of an implementation follows, a run follows. -/
theorem Refines.run (h : Refines step spec valid excused R) (hR : R s t)
    (hallowed : Allowed spec valid is t) :
    Follows excused R (is.foldlM (fun s i => step i s) s)
      (is.foldlM (fun t i => spec i t) t) := by
  induction is generalizing s t with
  | nil => exact ⟨t, rfl, hR⟩
  | cons i is ih =>
      have hone := h i s t hR hallowed.1
      rw [List.foldlM_cons, List.foldlM_cons]
      cases hs : step i s with
      | ok s₁ =>
          rcases hone.ok hs with ⟨t₁, ht, hR₁⟩
          rw [ht]
          exact ih hR₁ (hallowed.2 t₁ ht)
      | error e =>
          rw [hs] at hone
          rcases hone with he | ht
          · exact .inl he
          · rw [ht]
            exact .inr rfl

theorem Allowed.mono {valid' : ι → τ → Prop} (h : Allowed spec valid is t)
    (hmono : ∀ i t, valid i t → valid' i t) : Allowed spec valid' is t := by
  induction is generalizing t with
  | nil => trivial
  | cons i is ih => exact ⟨hmono i t h.1, fun t' ht' => ih (h.2 t' ht')⟩

/-- One input, and then the others from where it leads. -/
theorem Allowed.next {i : ι} {t' : τ} (hvalid : valid i t) (hi : spec i t = .ok t')
    (h : Allowed spec valid is t') : Allowed spec valid (i :: is) t := by
  refine ⟨hvalid, ?_⟩
  intro t₁ ht₁
  rw [hi] at ht₁
  cases ht₁
  exact h

theorem Allowed.concat {js : List ι} {t' : τ} (h : Allowed spec valid is t)
    (hrun : is.foldlM (fun t i => spec i t) t = .ok t') (h' : Allowed spec valid js t') :
    Allowed spec valid (is ++ js) t := by
  induction is generalizing t with
  | nil =>
      cases hrun
      exact h'
  | cons i is ih =>
      rw [List.foldlM_cons] at hrun
      cases hi : spec i t with
      | ok t₁ =>
          rw [hi] at hrun
          exact .next h.1 hi (ih (h.2 t₁ hi) hrun)
      | error e =>
          rw [hi] at hrun
          cases hrun

theorem Allowed.left {js : List ι} (h : Allowed spec valid (is ++ js) t) :
    Allowed spec valid is t := by
  induction is generalizing t with
  | nil => trivial
  | cons i is ih => exact ⟨h.1, fun t' ht' => ih (h.2 t' ht')⟩

/-- A run in two parts. -/
theorem Allowed.append {js : List ι} {t' : τ} (h : Allowed spec valid (is ++ js) t)
    (hrun : is.foldlM (fun t i => spec i t) t = .ok t') : Allowed spec valid js t' := by
  induction is generalizing t with
  | nil =>
      cases hrun
      exact h
  | cons i is ih =>
      rw [List.foldlM_cons] at hrun
      cases hi : spec i t with
      | ok t₁ =>
          rw [hi] at hrun
          exact ih (h.2 t₁ hi) hrun
      | error e =>
          rw [hi] at hrun
          cases hrun

end Wok.Lib
