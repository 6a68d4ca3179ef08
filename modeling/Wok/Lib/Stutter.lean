/-
Module: Wok.Lib.Stutter
Purpose: Two systems whose steps agree, but for silent steps that each of them takes on its
  own: their runs show the same things in the same order and have the same results.
Imports: Wok.Lib.System
Trusted boundary: none
Main exports: System.record, Comparable, System.Stutters, System.InStep,
  System.InStep.follows
-/
import Wok.Lib.System

namespace Wok.Lib

universe u

/-- One of the lists goes on from where the other ends. -/
def Comparable {α : Type u} (xs ys : List α) : Prop := xs <+: ys ∨ ys <+: xs

namespace Comparable

variable {α : Type u} {xs ys : List α} {x y : α}

theorem symm (h : Comparable xs ys) : Comparable ys xs := Or.symm h

theorem head_eq (h : Comparable (x :: xs) (y :: ys)) : x = y := by
  rcases h with h | h
  · exact (List.cons_prefix_cons.mp h).1
  · exact (List.cons_prefix_cons.mp h).1.symm

theorem of_append {zs : List α} (h : Comparable (zs ++ xs) (zs ++ ys)) : Comparable xs ys := by
  rcases h with h | h
  · exact .inl ((List.prefix_append_right_inj zs).mp h)
  · exact .inr ((List.prefix_append_right_inj zs).mp h)

end Comparable

namespace System

variable {σ ρ ν κ ω l : Type} {M N : System σ ρ} {view : σ → ν} {result : ρ → κ}
  {silent : σ → Bool} {rank : σ → Nat} {label : σ → Option l} {good : σ → Prop}
  {f : σ → Option ω} {s t : σ}

/-! ### A view that the steps do not look through -/

/-- A run in the view is the view of the run. -/
theorem run_view {u : σ → σ} {w : ρ → ρ} {I : σ → Prop} {P : ρ → Prop}
    (hstep : ∀ s, I s → M.step (u s) = (M.step s).map u w)
    (hkeep : ∀ s t, I s → M.step s = .inl t → I t)
    (hhalt : ∀ s r, I s → M.step s = .inr r → P r) (n : Nat) (hs : I s) :
    M.run n (u s) = (M.run n s).map w ∧ ∀ r, M.run n s = some r → P r := by
  induction n generalizing s with
  | zero => exact ⟨rfl, fun r h => nomatch h⟩
  | succ n ih =>
      cases hnext : M.step s with
      | inl t =>
          have hview : M.step (u s) = .inl (u t) := by rw [hstep s hs, hnext]; rfl
          rw [run_succ_of_step hnext, run_succ_of_step hview]
          exact ih (hkeep s t hs hnext)
      | inr r =>
          have hview : M.step (u s) = .inr (w r) := by rw [hstep s hs, hnext]; rfl
          rw [run_succ_of_halt hnext, run_succ_of_halt hview]
          refine ⟨rfl, ?_⟩
          intro r' h
          cases h
          exact hhalt s r hs hnext

/-! ### What runs show -/

/-- What `f` shows of the states that the first `fuel` steps are taken from. -/
def record (M : System σ ρ) (f : σ → Option ω) : Nat → σ → List ω
  | 0, _ => []
  | fuel + 1, s =>
      (f s).toList ++
        match M.step s with
        | .inl t => M.record f fuel t
        | .inr _ => []

theorem record_succ_of_step {fuel : Nat} (h : M.step s = .inl t) :
    M.record f (fuel + 1) s = (f s).toList ++ M.record f fuel t := by
  simp only [record, h]

theorem record_succ_of_halt {fuel : Nat} {r : ρ} (h : M.step s = .inr r) :
    M.record f (fuel + 1) s = (f s).toList := by
  simp only [record, h, List.append_nil]

/-- Every state that the run from `s` comes to is good. -/
def Throughout (M : System σ ρ) (good : σ → Prop) (s : σ) : Prop :=
  ∀ t, M.Reach (fun _ => True) s t → good t

theorem Throughout.self (h : M.Throughout good s) : good s := h s (.refl s)

theorem Throughout.next (h : M.Throughout good s) (hstep : M.step s = .inl t) :
    M.Throughout good t :=
  fun u hu => h u (hu.head trivial hstep)

/-- A run none of whose states shows anything. -/
theorem record_eq_nil (h : M.Throughout (fun t => f t = none) s) (n : Nat) :
    M.record f n s = [] := by
  induction n generalizing s with
  | zero => rfl
  | succ n ih =>
      cases hstep : M.step s with
      | inl t =>
          rw [record_succ_of_step hstep, h.self, ih (h.next hstep)]
          rfl
      | inr r =>
          rw [record_succ_of_halt hstep, h.self]
          rfl

/-- A silent step stays within the view, and silent steps come to an end. -/
def Stutters (M : System σ ρ) (view : σ → ν) (silent : σ → Bool) (rank : σ → Nat) : Prop :=
  ∀ s, silent s = true → ∃ t, M.step s = .inl t ∧ view t = view s ∧ rank t < rank s

/-- The run from `s` comes to `t` in `n` silent steps. -/
inductive Settles (M : System σ ρ) (silent : σ → Bool) : Nat → σ → σ → Prop where
  | refl (s : σ) : Settles M silent 0 s s
  | head {s t u : σ} {n : Nat} (hsilent : silent s = true) (hstep : M.step s = .inl t)
      (hrest : Settles M silent n t u) : Settles M silent (n + 1) s u

namespace Settles

variable {n : Nat}

theorem throughout (h : M.Settles silent n s t) (hgood : M.Throughout good s) :
    M.Throughout good t := by
  induction h with
  | refl s => exact hgood
  | head _ hstep _ ih => exact ih (hgood.next hstep)

theorem run (h : M.Settles silent n s t) (m : Nat) : M.run (n + m) s = M.run m t := by
  induction h with
  | refl s => rw [Nat.zero_add]
  | head _ hstep _ ih => rw [Nat.add_right_comm, run_succ_of_step hstep, ih]

theorem record (h : M.Settles silent n s t) (hf : ∀ u, silent u = true → f u = none) (m : Nat) :
    M.record f (n + m) s = M.record f m t := by
  induction h with
  | refl s => rw [Nat.zero_add]
  | head hsilent hstep _ ih =>
      rw [Nat.add_right_comm, record_succ_of_step hstep, hf _ hsilent, ih]
      rfl

end Settles

/-- Every run comes to a state that is not silent. -/
theorem Stutters.settles (h : M.Stutters view silent rank) (s : σ) :
    ∃ n t, M.Settles silent n s t ∧ silent t = false ∧ view t = view s := by
  induction hrank : rank s using Nat.strongRecOn generalizing s with
  | ind r ih =>
      cases hs : silent s with
      | false => exact ⟨0, s, .refl s, hs, rfl⟩
      | true =>
          rcases h s hs with ⟨t, hstep, hview, hlt⟩
          rcases ih (rank t) (hrank ▸ hlt) t rfl with ⟨n, u, hsettles, hu, hviewu⟩
          exact ⟨n + 1, u, .head hs hstep hsettles, hu, hviewu.trans hview⟩

/-- The outcomes of two steps look alike. -/
def SameOutcome (view : σ → ν) (result : ρ → κ) : σ ⊕ ρ → σ ⊕ ρ → Prop
  | .inl s, .inl t => view s = view t
  | .inr r, .inr r' => result r = result r'
  | _, _ => False

theorem SameOutcome.symm {x y : σ ⊕ ρ} (h : SameOutcome view result x y) :
    SameOutcome view result y x := by
  cases x <;> cases y <;> first | exact Eq.symm h | exact h

/-- From good states of one view that are not silent, the systems take steps that look
alike, provided that the labels of the states agree. -/
structure InStep (M N : System σ ρ) (view : σ → ν) (result : ρ → κ) (silent : σ → Bool)
    (label : σ → Option l) (good : σ → Prop) : Prop where
  quiet : ∀ s, silent s = true → label s = none
  labelled : ∀ s t, view s = view t → silent s = false → silent t = false → good s → good t →
    (label s).isSome = (label t).isSome
  step : ∀ s t, view s = view t → silent s = false → silent t = false → good s → good t →
    label s = label t → SameOutcome view result (M.step s) (N.step t)

namespace InStep

theorem symm (h : InStep M N view result silent label good) :
    InStep N M view result silent label good where
  quiet := h.quiet
  labelled := fun s t hview hs ht hgs hgt => (h.labelled t s hview.symm ht hs hgt hgs).symm
  step := fun s t hview hs ht hgs hgt hlabel =>
    (h.step t s hview.symm ht hs hgt hgs hlabel.symm).symm

/-- The labels of both states agree when the records of the labels do. -/
theorem label_eq (h : InStep M N view result silent label good) (hview : view s = view t)
    (hs : silent s = false) (ht : silent t = false) (hgs : good s) (hgt : good t)
    (hlabels : Comparable (M.record label 1 s) (N.record label 1 t)) : label s = label t := by
  have hsome := h.labelled s t hview hs ht hgs hgt
  cases hls : label s with
  | none =>
      rw [hls] at hsome
      exact (Option.isNone_iff_eq_none.mp (by simpa using hsome.symm)).symm
  | some x =>
      rw [hls] at hsome
      rcases Option.isSome_iff_exists.mp hsome.symm with ⟨y, hlt⟩
      simp only [record, hls, hlt, Option.toList_some, List.cons_append] at hlabels
      rw [hlt, hlabels.head_eq]

/-- Whatever a run of one system shows, a run of the other shows, and it has the same
result. -/
theorem follows (h : InStep M N view result silent label good)
    (hM : M.Stutters view silent rank) (hN : N.Stutters view silent rank)
    (hquiet : ∀ s, silent s = true → f s = none)
    (hshown : ∀ s t, view s = view t → silent s = false → silent t = false → f s = f t)
    (n : Nat) (hview : view s = view t) (hs : M.Throughout good s) (ht : N.Throughout good t)
    (hlabels : ∀ n m, Comparable (M.record label n s) (N.record label m t)) :
    ∃ m, N.record f m t = M.record f n s ∧
      (N.run m t).map result = (M.run n s).map result := by
  induction n generalizing s t with
  | zero => exact ⟨0, rfl, rfl⟩
  | succ n ih =>
      cases hsilent : silent s with
      | true =>
          rcases hM s hsilent with ⟨s₁, hstep, hview₁, -⟩
          have hlabels₁ : ∀ n m, Comparable (M.record label n s₁) (N.record label m t) := by
            intro n m
            have := hlabels (n + 1) m
            rwa [record_succ_of_step hstep, h.quiet s hsilent] at this
          rcases ih (hview₁.trans hview) (hs.next hstep) ht hlabels₁ with ⟨m, hrec, hrun⟩
          refine ⟨m, ?_, ?_⟩
          · rw [record_succ_of_step hstep, hquiet s hsilent]
            exact hrec
          · rw [run_succ_of_step hstep]
            exact hrun
      | false =>
          -- the other system catches up first
          rcases hN.settles t with ⟨j, u, hsettles, hu, hviewu⟩
          have hsu : view s = view u := hview.trans hviewu.symm
          have hlabelsu : ∀ n m, Comparable (M.record label n s) (N.record label m u) := by
            intro n m
            rw [← hsettles.record h.quiet m]
            exact hlabels n (j + m)
          have hgu := hsettles.throughout ht
          have hlabel := h.label_eq hsu hsilent hu hs.self hgu.self (hlabelsu 1 1)
          have hout := h.step s u hsu hsilent hu hs.self hgu.self hlabel
          have hf := hshown s u hsu hsilent hu
          cases hstep : M.step s with
          | inl s₁ =>
              cases hstepu : N.step u with
              | inr r => rw [hstep, hstepu] at hout; cases hout
              | inl u₁ =>
                  rw [hstep, hstepu] at hout
                  have hlabels₁ : ∀ n m,
                      Comparable (M.record label n s₁) (N.record label m u₁) := by
                    intro n m
                    have := hlabelsu (n + 1) (m + 1)
                    rw [record_succ_of_step hstep, record_succ_of_step hstepu, hlabel] at this
                    exact this.of_append
                  rcases ih hout (hs.next hstep) (hgu.next hstepu) hlabels₁ with
                    ⟨m, hrec, hrun⟩
                  refine ⟨j + (m + 1), ?_, ?_⟩
                  · rw [hsettles.record hquiet, record_succ_of_step hstep,
                      record_succ_of_step hstepu, hrec, hf]
                  · rw [hsettles.run, run_succ_of_step hstep, run_succ_of_step hstepu, hrun]
          | inr r =>
              cases hstepu : N.step u with
              | inl u₁ => rw [hstep, hstepu] at hout; cases hout
              | inr r' =>
                  rw [hstep, hstepu] at hout
                  refine ⟨j + 1, ?_, ?_⟩
                  · rw [hsettles.record hquiet, record_succ_of_halt hstep,
                      record_succ_of_halt hstepu, hf]
                  · rw [hsettles.run, run_succ_of_halt hstep, run_succ_of_halt hstepu]
                    exact congrArg some (Eq.symm hout)

end InStep

end System

end Wok.Lib
