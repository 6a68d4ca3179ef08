/-
Module: Wok.Lib.System
Purpose: Deterministic transition systems that may halt with a result. Runs all
  of whose steps start in a state of a given condition, invariants of such runs,
  and two systems that move in lockstep along them.
Imports: Mathlib.Logic.Relation
Trusted boundary: none
Main exports: System, System.Reach, System.Preserves, System.Reach.invariant,
  System.run, System.exists_run_of_variant, System.exists_run_of_measure,
  System.run_unique, System.run_eq_run, System.checks,
  System.forall_reach_of_checks, System.stateAfter, System.exists_reach_of_stateAfter, eq_of_stuck
-/
import Mathlib.Logic.Relation

namespace Wok.Lib

/-- A deterministic system: each state has a next state or halts with a result. -/
structure System (σ : Type*) (ρ : Type*) where
  step : σ → σ ⊕ ρ

namespace System

variable {σ : Type*} {ρ : Type*} {M N : System σ ρ} {φ ψ I : σ → Prop} {s t : σ}

/-- A step taken from a state that meets `φ`. -/
def StepWhile (M : System σ ρ) (φ : σ → Prop) (s t : σ) : Prop :=
  φ s ∧ M.step s = .inl t

/-- `t` is reached from `s` by a run whose steps all start in `φ`; `t` itself
need not meet `φ`. -/
def Reach (M : System σ ρ) (φ : σ → Prop) : σ → σ → Prop :=
  Relation.ReflTransGen (M.StepWhile φ)

/-- Steps from `φ` keep `I`. -/
def Preserves (M : System σ ρ) (φ I : σ → Prop) : Prop :=
  ∀ s t, I s → φ s → M.step s = .inl t → I t

theorem Reach.refl (s : σ) : M.Reach φ s s :=
  Relation.ReflTransGen.refl

theorem Reach.head {u : σ} (hφ : φ s) (hstep : M.step s = .inl t) (h : M.Reach φ t u) :
    M.Reach φ s u :=
  Relation.ReflTransGen.head ⟨hφ, hstep⟩ h

/-- The invariant rule. -/
theorem Reach.invariant (hI : M.Preserves φ I) (h : M.Reach φ s t) (hs : I s) : I t := by
  induction h with
  | refl => exact hs
  | tail _ hstep ih => exact hI _ _ ih hstep.1 hstep.2

/-- A run whose steps meet `φ` is one whose steps meet any weaker condition. -/
theorem Reach.mono (hφ : ∀ s, φ s → ψ s) (h : M.Reach φ s t) : M.Reach ψ s t :=
  Relation.ReflTransGen.mono (fun _ _ hstep => ⟨hφ _ hstep.1, hstep.2⟩) _ _ h

/-- Run for at most `fuel` steps; `none` when the run has not halted by then. -/
def run (M : System σ ρ) : Nat → σ → Option ρ
  | 0, _ => none
  | fuel + 1, s =>
      match M.step s with
      | .inl t => M.run fuel t
      | .inr r => some r

theorem run_succ_of_step {fuel : Nat} (h : M.step s = .inl t) :
    M.run (fuel + 1) s = M.run fuel t := by
  simp only [run, h]

theorem run_succ_of_halt {fuel : Nat} {r : ρ} (h : M.step s = .inr r) :
    M.run (fuel + 1) s = some r := by
  simp only [run, h]

/-- The rule of total correctness: a run that keeps an invariant and lowers a
well-founded variant halts, with a result that the last state accounts for. -/
theorem exists_run_of_variant {r : σ → σ → Prop} {P : ρ → Prop} (hr : WellFounded r)
    (hstep : ∀ s t, I s → M.step s = .inl t → I t ∧ r t s)
    (hhalt : ∀ s x, I s → M.step s = .inr x → P x) (hs : I s) :
    ∃ fuel x, M.run fuel s = some x ∧ P x := by
  induction s using hr.induction with
  | _ s ih =>
      cases hnext : M.step s with
      | inl t =>
          rcases hstep s t hs hnext with ⟨ht, hlt⟩
          rcases ih t hlt ht with ⟨fuel, x, hrun, hx⟩
          exact ⟨fuel + 1, x, (run_succ_of_step hnext).trans hrun, hx⟩
      | inr x => exact ⟨1, x, run_succ_of_halt hnext, hhalt s x hs hnext⟩

/-- A run that steps lower a measure of halts within that many steps. -/
theorem exists_run_of_measure (μ : σ → Nat) (hμ : ∀ s t, M.step s = .inl t → μ t < μ s)
    (s : σ) {fuel : Nat} (hfuel : μ s < fuel) : ∃ x, M.run fuel s = some x := by
  induction fuel generalizing s with
  | zero => cases hfuel
  | succ fuel ih =>
      cases hnext : M.step s with
      | inl t =>
          rw [run_succ_of_step hnext]
          apply ih
          have hlt := hμ s t hnext
          omega
      | inr x => exact ⟨x, run_succ_of_halt hnext⟩

/-- More fuel does not change the result. -/
theorem run_unique {n m : Nat} {x y : ρ} (h : M.run n s = some x) (h' : M.run m s = some y) :
    x = y := by
  induction n generalizing s m with
  | zero => cases h
  | succ n ih =>
      cases m with
      | zero => cases h'
      | succ m =>
          cases hnext : M.step s with
          | inl t =>
              rw [run_succ_of_step hnext] at h h'
              exact ih h h'
          | inr z =>
              rw [run_succ_of_halt hnext] at h h'
              cases h
              cases h'
              rfl

/-- Two systems that agree on the states of an invariant have the same results
along every run that stays in the condition. -/
theorem run_eq_run (hI : M.Preserves φ I)
    (hagree : ∀ s, I s → φ s → M.step s = N.step s) (fuel : Nat) (hs : I s)
    (hφ : ∀ t, M.Reach φ s t → φ t) :
    M.run fuel s = N.run fuel s := by
  induction fuel generalizing s with
  | zero => rfl
  | succ fuel ih =>
      have hφs : φ s := hφ s (.refl s)
      have hN : N.step s = M.step s := (hagree s hs hφs).symm
      cases hstep : M.step s with
      | inl t =>
          rw [run_succ_of_step hstep, run_succ_of_step (hN.trans hstep)]
          exact ih (hI s t hs hφs hstep) fun u hu => hφ u (hu.head hφs hstep)
      | inr r =>
          rw [run_succ_of_halt hstep, run_succ_of_halt (hN.trans hstep)]

/-- Whether the run halts within `fuel` steps with every state in the condition. -/
def checks (M : System σ ρ) (c : σ → Bool) : Nat → σ → Bool
  | 0, _ => false
  | fuel + 1, s =>
      c s && match M.step s with
        | .inl t => M.checks c fuel t
        | .inr _ => true

/-- A run that has been checked has no state outside the condition. -/
theorem forall_reach_of_checks {c : σ → Bool} {n : Nat} (h : M.checks c n s = true)
    (hreach : M.Reach ψ s t) : c t = true := by
  induction n generalizing s with
  | zero => cases h
  | succ n ih =>
      simp only [checks, Bool.and_eq_true] at h
      cases hreach using Relation.ReflTransGen.head_induction_on with
      | refl => exact h.1
      | head hstep hrest =>
          rw [hstep.2] at h
          exact ih h.2 hrest

/-- The state after `n` steps, all of them taken from the condition. -/
def stateAfter (M : System σ ρ) (c : σ → Bool) : Nat → σ → Option σ
  | 0, s => some s
  | n + 1, s =>
      match c s, M.step s with
      | true, .inl t => M.stateAfter c n t
      | _, _ => none

theorem reach_of_stateAfter {c : σ → Bool} {n : Nat} (h : M.stateAfter c n s = some t) :
    M.Reach (fun s => c s = true) s t := by
  induction n generalizing s with
  | zero =>
      cases h
      exact .refl _
  | succ n ih =>
      simp only [stateAfter] at h
      split at h
      next hc hstep => exact (ih h).head hc hstep
      · cases h

/-- A computed run ends in a reachable state that passes a test. -/
theorem exists_reach_of_stateAfter {c Q : σ → Bool} {n : Nat}
    (h : (M.stateAfter c n s).any Q = true) :
    ∃ t, M.Reach (fun s => c s = true) s t ∧ Q t = true := by
  obtain ⟨t, ht, hQ⟩ := (Option.any_eq_true ..).mp h
  exact ⟨t, reach_of_stateAfter ht, hQ⟩

end System

/-- A deterministic relation leads to one stuck state at most. -/
theorem eq_of_stuck {σ : Type*} {r : σ → σ → Prop} {s t t' : σ} (hr : Relator.RightUnique r)
    (h : Relation.ReflTransGen r s t) (h' : Relation.ReflTransGen r s t') (ht : ∀ u, ¬ r t u)
    (ht' : ∀ u, ¬ r t' u) : t = t' := by
  rcases Relation.ReflTransGen.total_of_right_unique hr h h' with hs | hs
  · rcases Relation.ReflTransGen.cases_head hs with heq | ⟨u, hu, _⟩
    · exact heq
    · exact absurd hu (ht u)
  · rcases Relation.ReflTransGen.cases_head hs with heq | ⟨u, hu, _⟩
    · exact heq.symm
    · exact absurd hu (ht' u)

end Wok.Lib
