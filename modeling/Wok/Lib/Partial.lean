/-
Module: Wok.Lib.Partial
Purpose: Computations with a state and failures that may run out of fuel: their
  monad, results that more fuel does not change, and runs that end.
Imports: Mathlib.Data.Nat.Basic
Trusted boundary: none
Main exports: PartialM, PartialM.bind_ok, PartialM.Extends, Steady, Halts,
  Halts.bind
-/
import Mathlib.Data.Nat.Basic

namespace Wok.Lib

/-- A computation on a state `σ` that may fail with an `ε`; `none` when its fuel is
used up. -/
def PartialM (σ ε α : Type) := σ → Option (Except ε α × σ)

namespace PartialM

variable {σ ε α β ι : Type} {s s' : σ} {x y z : PartialM σ ε α} {f g : α → PartialM σ ε β}
  {a : α} {b : β} {r : Except ε β × σ}

instance : Monad (PartialM σ ε) where
  pure a := fun s => some (.ok a, s)
  bind x f := fun s =>
    match x s with
    | some (.ok a, s') => f a s'
    | some (.error e, s') => some (.error e, s')
    | none => none

theorem bind_apply (x : PartialM σ ε α) (f : α → PartialM σ ε β) (s : σ) :
    (x >>= f) s =
      match x s with
      | some (.ok a, s') => f a s'
      | some (.error e, s') => some (.error e, s')
      | none => none := rfl

instance : LawfulMonad (PartialM σ ε) := LawfulMonad.mk' (m := PartialM σ ε)
  (by
    intro α x
    funext s
    change (match x s with
      | some (.ok a, s') => some (.ok a, s')
      | some (.error e, s') => some (.error e, s')
      | none => none) = x s
    rcases x s with _ | ⟨_ | _, _⟩ <;> rfl)
  (fun _ _ => rfl)
  (by
    intro α β γ x f g
    funext s
    rw [bind_apply, bind_apply, bind_apply]
    rcases x s with _ | ⟨_ | _, _⟩ <;> rfl)

theorem bind_of_ok (h : x s = some (.ok a, s')) : (x >>= f) s = f a s' := by
  rw [bind_apply, h]

theorem bind_of_error {e : ε} (h : x s = some (.error e, s')) :
    (x >>= f) s = some (.error e, s') := by
  rw [bind_apply, h]

theorem bind_some (h : (x >>= f) s = some r) :
    (∃ a s₁, x s = some (.ok a, s₁) ∧ f a s₁ = some r) ∨
      ∃ e s₁, x s = some (.error e, s₁) ∧ r = (.error e, s₁) := by
  rw [bind_apply] at h
  split at h
  next a s₁ hx => exact .inl ⟨a, s₁, hx, h⟩
  next e s₁ hx => exact .inr ⟨e, s₁, hx, (Option.some.inj h).symm⟩
  next => cases h

theorem bind_ok (h : (x >>= f) s = some (.ok b, s')) :
    ∃ a s₁, x s = some (.ok a, s₁) ∧ f a s₁ = some (.ok b, s') := by
  rcases bind_some h with h | ⟨e, s₁, -, heq⟩
  · exact h
  · cases heq

/-- A run over a list that fails does so at one of its elements. -/
theorem forM_error {f : ι → PartialM σ ε PUnit} {xs : List ι} {e : ε}
    (h : xs.forM f s = some (.error e, s')) : ∃ ys i zs s₁, xs = ys ++ i :: zs ∧
      ys.forM f s = some (.ok (), s₁) ∧ f i s₁ = some (.error e, s') := by
  induction xs generalizing s with
  | nil => cases h
  | cons i xs ih =>
      rcases bind_some h with ⟨_, s₁, hi, hxs⟩ | ⟨e', s₁, hi, heq⟩
      · rcases ih hxs with ⟨ys, j, zs, s₂, rfl, hys, hj⟩
        exact ⟨i :: ys, j, zs, s₂, rfl, (bind_of_ok hi).trans hys, hj⟩
      · cases heq
        exact ⟨[], i, xs, s, rfl, rfl, hi⟩

theorem forM_of_error {f : ι → PartialM σ ε PUnit} {ys zs : List ι} {i : ι} {e : ε} {s₁ : σ}
    (hys : ys.forM f s = some (.ok (), s₁)) (hi : f i s₁ = some (.error e, s')) :
    (ys ++ i :: zs).forM f s = some (.error e, s') := by
  induction ys generalizing s with
  | nil =>
      cases hys
      exact bind_of_error hi
  | cons j ys ih =>
      rcases bind_ok hys with ⟨_, s₂, hj, hys⟩
      exact (bind_of_ok hj).trans (ih hys)

/-- `y` has the results that `x` has, and maybe more. -/
def Extends (x y : PartialM σ ε α) : Prop := ∀ ⦃s r⦄, x s = some r → y s = some r

theorem Extends.refl (x : PartialM σ ε α) : x.Extends x := fun _ _ h => h

theorem Extends.trans (h : x.Extends y) (h' : y.Extends z) : x.Extends z :=
  fun _ _ hx => h' (h hx)

theorem Extends.bind (h : x.Extends y) (hf : ∀ a, (f a).Extends (g a)) :
    (x >>= f).Extends (y >>= g) := by
  intro s r hr
  rcases bind_some hr with ⟨a, s₁, hx, hrest⟩ | ⟨e, s₁, hx, rfl⟩
  · rw [bind_of_ok (h hx)]
    exact hf a hrest
  · exact bind_of_error (h hx)

theorem Extends.ite {c : Prop} [Decidable c] {x' y' : PartialM σ ε α} (h : x.Extends y)
    (h' : x'.Extends y') : (if c then x else x').Extends (if c then y else y') := by
  by_cases hc : c
  · simpa only [hc, if_true] using h
  · simpa only [hc, if_false] using h'

theorem Extends.forM {f g : ι → PartialM σ ε PUnit} (xs : List ι)
    (h : ∀ i, (f i).Extends (g i)) : (xs.forM f).Extends (xs.forM g) := by
  induction xs with
  | nil => exact .refl _
  | cons i xs ih =>
      change (f i >>= fun _ => xs.forM f).Extends (g i >>= fun _ => xs.forM g)
      exact (h i).bind fun _ => ih

theorem Extends.mapM {f g : ι → PartialM σ ε α} (xs : List ι)
    (h : ∀ i, (f i).Extends (g i)) : (xs.mapM f).Extends (xs.mapM g) := by
  induction xs with
  | nil => exact .refl _
  | cons i xs ih =>
      rw [List.mapM_cons, List.mapM_cons]
      exact (h i).bind fun _ => ih.bind fun _ => .refl _

end PartialM

/-! ### Fuel -/

variable {σ ε α β ι : Type} {s s' : σ} {f : Nat → PartialM σ ε α}
  {g : Nat → α → PartialM σ ε β}

/-- One more unit of fuel does not change a result. -/
def Steady (f : Nat → PartialM σ ε α) : Prop := ∀ n, (f n).Extends (f (n + 1))

theorem Steady.le (h : Steady f) {n m : Nat} (hle : n ≤ m) : (f n).Extends (f m) := by
  induction hle with
  | refl => exact .refl _
  | step _ ih => exact ih.trans (h _)

theorem Steady.const (x : PartialM σ ε α) : Steady fun _ => x := fun _ => .refl x

/-- With enough fuel there is a result, and more fuel does not change it. -/
def Halts (f : Nat → PartialM σ ε α) (s : σ) : Prop :=
  ∃ n r, ∀ m, n ≤ m → f m s = some r

theorem Steady.halts {r : Except ε α × σ} {n : Nat} (h : Steady f) (hrun : f n s = some r) :
    Halts f s := ⟨n, r, fun _ hle => h.le hle hrun⟩

theorem Halts.const {x : PartialM σ ε α} (h : (x s).isSome) : Halts (fun _ => x) s := by
  rcases Option.isSome_iff_exists.mp h with ⟨r, hr⟩
  exact ⟨0, r, fun _ _ => hr⟩

/-- The second of two computations is only asked about what the first one gives. -/
theorem Halts.bind (h : Halts f s)
    (hnext : ∀ n a s', f n s = some (.ok a, s') → Halts (g · a) s') :
    Halts (fun n => f n >>= g n) s := by
  rcases h with ⟨n, ⟨a | e, s'⟩, hn⟩
  · exact ⟨n, _, fun m hm => PartialM.bind_of_error (hn m hm)⟩
  · rcases hnext n _ s' (hn n le_rfl) with ⟨m, r, hm⟩
    refine ⟨max n m, r, ?_⟩
    intro k hk
    have hrun := hn k (Nat.le_trans (Nat.le_max_left n m) hk)
    exact (PartialM.bind_of_ok hrun).trans (hm k (Nat.le_trans (Nat.le_max_right n m) hk))

theorem Halts.succ (h : Halts (fun n => f (n + 1)) s) : Halts f s := by
  rcases h with ⟨n, r, hn⟩
  refine ⟨n + 1, r, ?_⟩
  intro m hm
  cases m with
  | zero => exact absurd hm (Nat.not_succ_le_zero n)
  | succ m => exact hn m (Nat.le_of_succ_le_succ hm)

end Wok.Lib
