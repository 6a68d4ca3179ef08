/-
Module: Wok.Proofs.Unifiers
Purpose: Unification ends, and when it ends well its state stands for a most general
  unifier of the two types.
Imports: Wok.Proofs.UnifyHalts
Trusted boundary: none
Main exports: Unifier.values, unify_mostGeneral
-/
import Wok.Proofs.UnifyHalts

namespace Wok.TypeChecking

open Wok.Lib

variable {s s' : TCState} {a b t : Ty} {θ τ ρ : Nat → Ty} {v w n : Nat} {sp : SourceSpan}
  {lvl : Int}

/-- The values that a unifier gives the variables. -/
theorem Unifier.values (h : Unifier τ s a b) :
    Normal (fun v => (τ v).norm) ∧ Solves (fun v => (τ v).norm) s ∧
      Equal a b fun v => (τ v).norm := by
  refine ⟨fun v => norm_norm _, ?_, ?_⟩
  · intro v t hv hlink
    have hsame := h.link v t hv hlink
    unfold Ty.Same at hsame
    rw [norm_subst] at hsame
    exact hsame
  · have hsame := h.same
    unfold Ty.Same at hsame
    rw [norm_subst, norm_subst] at hsame
    exact hsame

/-- The substitution that a later state stands for is a unifier. -/
theorem Solved.unifier (h : Solved s s' (Equal a b)) (hθ : Realizes θ s') : Unifier θ s a b := by
  rcases h.sound _ hθ.solves with ⟨hρ, heq⟩
  constructor
  · intro v t hv hlink
    unfold Ty.Same
    rw [norm_subst]
    exact hρ v t hv hlink
  · intro v u l k hv hcell
    apply hθ.free
    intro t _ hlink
    rw [h.rigid v u l k hv hcell] at hlink
    cases hlink
  · unfold Ty.Same
    rw [norm_subst, norm_subst]
    exact heq

/-- Every unifier is an instance of it. -/
theorem Solved.factor (h : Solved s s' (Equal a b)) (hθ : Realizes θ s')
    (hτ : Unifier τ s a b) : ∃ τ', ∀ v, v < s.next → (τ v).Same ((θ v).subst τ') := by
  rcases hτ.values with ⟨hnormal, hρ, heq⟩
  rcases h.principal _ hnormal hρ heq with ⟨ρ', hnormal', hagree, hρ'⟩
  refine ⟨ρ', ?_⟩
  intro v hv
  unfold Ty.Same
  rw [hθ.factor h.wellFormed hnormal' hρ' v, hagree v hv]

/-- In every well-formed state unification of any two types ends. When it ends well, the
state stands for a substitution that makes the two types the same up to the order of
distinct labels, and every unifier of the two types is an instance of it. -/
theorem unify_mostGeneral (sp : SourceSpan) (lvl : Int) (s : TCState) (a b : Ty)
    (hs : s.WellFormed) (ha : a.In s) (hb : b.In s) :
    (∃ fuel r, ∀ fuel', fuel ≤ fuel' → unify sp lvl fuel' a b s = some r) ∧
    ∀ fuel s', unify sp lvl fuel a b s = some (.ok (), s') →
      s'.WellFormed ∧ ∃ θ, Realizes θ s' ∧ Unifier θ s a b ∧
        ∀ τ, Unifier τ s a b → ∃ τ', ∀ v, v < s.next → (τ v).Same ((θ v).subst τ') := by
  refine ⟨unify_halts hs ha hb, ?_⟩
  intro fuel s' hrun
  have hsolved := (unify_solved sp lvl fuel s a b s' hs ha hb hrun).1
  rcases exists_realizes hsolved.wellFormed with ⟨θ, hθ⟩
  exact ⟨hsolved.wellFormed, θ, hθ, hsolved.unifier hθ, fun τ hτ => hsolved.factor hθ hτ⟩

/-- Two open rows without a common label. -/
def openRows : TCState where
  cells := fun v => .unbound v 0 .effect
  next := 2
  fresh := 2
  warnings := []

theorem openRows_wellFormed : openRows.WellFormed := by
  refine ⟨fun _ => 0, ?_, ?_⟩
  · intro v t _ hlink
    cases hlink
  · intro v t _ hlink
    cases hlink

theorem unify_mostGeneral_openRows :
    ∃ s' θ, unify none 0 9 (.rowExtend "x" (.con .u64 []) (.var 0))
        (.rowExtend "y" (.con .string []) (.var 1)) openRows = some (.ok (), s') ∧
      Realizes θ s' ∧ Unifier θ openRows (.rowExtend "x" (.con .u64 []) (.var 0))
        (.rowExtend "y" (.con .string []) (.var 1)) := by
  have hin : ∀ l c v, v < 2 → (Ty.rowExtend l (.con c []) (.var v)).In openRows := by
    intro l c v hv w hw
    rcases List.mem_singleton.mp hw with rfl
    exact hv
  rcases unify_mostGeneral none 0 openRows _ _ openRows_wellFormed (hin "x" .u64 0 (by decide))
    (hin "y" .string 1 (by decide)) with ⟨-, hgeneral⟩
  have hrun : ∃ s', unify none 0 9 (.rowExtend "x" (.con .u64 []) (.var 0))
      (.rowExtend "y" (.con .string []) (.var 1)) openRows = some (.ok (), s') := ⟨_, rfl⟩
  rcases hrun with ⟨s', hrun⟩
  rcases hgeneral 9 s' hrun with ⟨-, θ, hθ, hunifier, -⟩
  exact ⟨s', θ, hrun, hθ, hunifier⟩

end Wok.TypeChecking
