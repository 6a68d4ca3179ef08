/-
Module: Wok.Proofs.Levels
Purpose: The levels of rigid variables: a unification that ends well keeps them apart
  exactly when the types can be unified so, and then no escape is reported.
Imports: Wok.Proofs.Unifiers
Trusted boundary: none
Main exports: mem_vars_eval, Solved.levelSafe_iff, Safe, unify_safe, unify_levelSafe_iff
-/
import Wok.Proofs.Unifiers

namespace Wok.TypeChecking

open Wok.Lib

variable {s s' s₁ s₂ : TCState} {d : Nat → Nat} {a b t t' u row x y : Ty} {θ τ ρ ρ' : Nat → Ty}
  {v w n : Nat} {sp : SourceSpan} {lvl : Int} {l : String} {forbidden : Option Nat}

/-! ### Variables of values -/

theorem mem_vars_insertField {r : Ty} :
    w ∈ (insertField l t r).vars ↔ w ∈ t.vars ∨ w ∈ r.vars := by
  induction r using Ty.rowInduction with
  | row l₀ t₀ rest ih =>
      rw [insertField]
      split
      · rw [Ty.vars, List.mem_append]
      · rw [Ty.vars, Ty.vars, List.mem_append, List.mem_append, ih]
        tauto
  | other r hr => rw [insertField_of_ne hr, Ty.vars, List.mem_append]

mutual

theorem mem_vars_eval (ρ : Nat → Ty) (w : Nat) :
    ∀ t : Ty, w ∈ (t.eval ρ).vars ↔ ∃ v ∈ t.vars, w ∈ (ρ v).vars
  | .con c ts => mem_vars_evalList ρ w ts
  | .arr a r b => by
      rw [Ty.eval, Ty.vars, Ty.vars, List.mem_append, List.mem_append, mem_vars_eval ρ w a,
        mem_vars_eval ρ w r, mem_vars_eval ρ w b]
      simp only [List.mem_append, or_and_right, exists_or]
  | .record tag row => mem_vars_eval ρ w row
  | .rowEmpty => by
      constructor
      · intro h
        cases h
      · rintro ⟨v, h, -⟩
        cases h
  | .rowExtend l t rest => by
      rw [Ty.eval, mem_vars_insertField, Ty.vars, mem_vars_eval ρ w t, mem_vars_eval ρ w rest]
      simp only [List.mem_append, or_and_right, exists_or]
  | .var v => by
      constructor
      · intro h
        exact ⟨v, List.mem_cons_self, h⟩
      · rintro ⟨v', hv', h⟩
        rcases List.mem_singleton.mp hv' with rfl
        exact h

theorem mem_vars_evalList (ρ : Nat → Ty) (w : Nat) :
    ∀ ts : List Ty, w ∈ Ty.varsList (Ty.evalList ρ ts) ↔ ∃ v ∈ Ty.varsList ts, w ∈ (ρ v).vars
  | [] => by
      constructor
      · intro h
        cases h
      · rintro ⟨v, h, -⟩
        cases h
  | t :: ts => by
      rw [Ty.evalList, Ty.varsList, Ty.varsList, List.mem_append, mem_vars_eval ρ w t,
        mem_vars_evalList ρ w ts]
      simp only [List.mem_append, or_and_right, exists_or]

end

theorem mem_vars_norm (t : Ty) : w ∈ t.norm.vars ↔ w ∈ t.vars := by
  rw [← eval_var, mem_vars_eval]
  constructor
  · rintro ⟨v, hv, hw⟩
    rcases List.mem_singleton.mp hw with rfl
    exact hv
  · intro h
    exact ⟨w, h, List.mem_cons_self⟩

theorem Ty.Same.mem_vars (h : Ty.Same t u) : w ∈ t.vars ↔ w ∈ u.vars := by
  rw [← mem_vars_norm t, ← mem_vars_norm u, h]

theorem mem_vars_subst (t : Ty) : w ∈ (t.subst τ).vars ↔ ∃ v ∈ t.vars, w ∈ (τ v).vars := by
  rw [← mem_vars_norm, norm_subst, mem_vars_eval]
  simp only [mem_vars_norm]

/-- The substitution of a solved equation keeps the levels apart exactly when some
unifier does. -/
theorem Solved.levelSafe_iff (h : Solved s s' (Equal a b)) (hθ : Realizes θ s') :
    LevelSafe θ s ↔ ∃ τ, Unifier τ s a b ∧ LevelSafe τ s := by
  have hunifier := h.unifier hθ
  constructor
  · intro hsafe
    exact ⟨θ, hunifier, hsafe⟩
  · rintro ⟨τ, hτ, hsafe⟩ v u l k hv hcell w hw u' l' k' hw' hrigid
    rcases h.factor hθ hτ with ⟨τ', hfactor⟩
    apply hsafe v u l k hv hcell w _ u' l' k' hw' hrigid
    rw [(hfactor v hv).mem_vars, mem_vars_subst]
    refine ⟨w, hw, ?_⟩
    have hself := hfactor w hw'
    rw [hτ.rigid w u' l' k' hw' hrigid, hunifier.rigid w u' l' k' hw' hrigid] at hself
    exact hself.mem_vars.mp List.mem_cons_self

/-! ### Computations that leave the levels alone -/

/-- The same variables are unbound, at the same levels. -/
def Kept (s s' : TCState) : Prop :=
  ∀ v u l k, s'.cells v = .unbound u l k ↔ s.cells v = .unbound u l k

def NoEscape {α : Type} (r : Except Failure α) : Prop :=
  ∀ sp u, r ≠ .error (.error (.rigidEscape sp u))

/-- The levels are kept and no escape is reported. -/
def Tame {α : Type} (x : TC α) : Prop := ∀ s r s', x s = some (r, s') → Kept s s' ∧ NoEscape r

section Tame

variable {α β : Type}

theorem Kept.refl (s : TCState) : Kept s s := fun _ _ _ _ => Iff.rfl

theorem Kept.trans (h : Kept s s₁) (h' : Kept s₁ s') : Kept s s' :=
  fun v u l k => (h' v u l k).trans (h v u l k)

theorem Tame.pure (a : α) : Tame (Pure.pure a) := by
  intro s r s' hrun
  cases hrun
  exact ⟨.refl s, fun _ _ h => nomatch h⟩

theorem Tame.bind {f : TC α} {g : α → TC β} (hf : Tame f) (hg : ∀ a, Tame (g a)) :
    Tame (f >>= g) := by
  intro s r s' hrun
  rcases PartialM.bind_some hrun with ⟨a, s₁, hrun₁, hrun₂⟩ | ⟨e, s₁, hrun₁, heq⟩
  · rcases hf s _ s₁ hrun₁ with ⟨hkept, -⟩
    rcases hg a s₁ r s' hrun₂ with ⟨hkept', hno⟩
    exact ⟨hkept.trans hkept', hno⟩
  · cases heq
    rcases hf s _ _ hrun₁ with ⟨hkept, hno⟩
    refine ⟨hkept, ?_⟩
    intro sp u heq
    cases heq
    exact hno sp u rfl

theorem Tame.fail {e : Failure} (h : ∀ sp u, e ≠ .error (.rigidEscape sp u)) :
    Tame (fun s => some (.error e, s) : TC α) := by
  intro s r s' hrun
  cases hrun
  refine ⟨.refl s, ?_⟩
  intro sp u heq
  cases heq
  exact h sp u rfl

theorem Tame.readRef (v : Nat) : Tame (readRef v) := by
  intro s r s' hrun
  cases hrun
  exact ⟨.refl s, fun _ _ h => nomatch h⟩

theorem Tame.outOfFuel : Tame (outOfFuel : TC α) := by
  intro s r s' hrun
  cases hrun

theorem Tame.mapM {ι : Type} {g : ι → TC α} (hg : ∀ i, Tame (g i)) (is : List ι) :
    Tame (is.mapM g) := by
  induction is with
  | nil => exact .pure _
  | cons i is ih =>
      rw [List.mapM_cons]
      exact (hg i).bind fun _ => ih.bind fun _ => .pure _

theorem Tame.forM {ι : Type} {g : ι → TC Unit} (hg : ∀ i, Tame (g i)) (is : List ι) :
    Tame (is.forM g) := by
  induction is with
  | nil => exact .pure _
  | cons i is ih => exact (hg i).bind fun _ => ih

end Tame

theorem force_tame (n : Nat) (t : Ty) : Tame (force n t) := by
  induction n generalizing t with
  | zero => exact .outOfFuel
  | succ n ih =>
      cases t with
      | var v =>
          intro s r s' hrun
          have hread : force (n + 1) (.var v) s = _ := PartialM.bind_of_ok (readRef_run v s)
          rw [hread] at hrun
          cases hcell : s.cells v with
          | unbound u l k =>
              rw [hcell] at hrun
              exact Tame.pure _ s r s' hrun
          | rigid u l k =>
              rw [hcell] at hrun
              exact Tame.pure _ s r s' hrun
          | link t₀ =>
              rw [hcell] at hrun
              rcases PartialM.bind_some hrun with ⟨t', s₁, hforce, hrest⟩ | ⟨e, s₁, hforce, heq⟩
              · cases hrest
                refine ⟨?_, fun _ _ h => nomatch h⟩
                intro w u l k
                by_cases hw : w = v
                · subst hw
                  rw [hcell]
                  change (s₁.write w _).cells w = _ ↔ _
                  rw [write_self]
                  constructor
                  · intro h
                    cases h
                  · intro h
                    cases h
                · change (s₁.write v _).cells w = _ ↔ _
                  rw [write_ne hw]
                  exact (ih t₀ s _ s₁ hforce).1 w u l k
              · cases heq
                rcases ih t₀ s _ _ hforce with ⟨hkept, hno⟩
                refine ⟨hkept, ?_⟩
                intro sp u heq
                cases heq
                exact hno sp u rfl
      | _ => exact .pure _

theorem panicTC_tame {α : Type} (message : String) : Tame (panicTC message : TC α) :=
  .fail fun _ _ h => nomatch h

theorem freezeWith_tame {rigid : Nat → TC CType} (hrigid : ∀ u, Tame (rigid u))
    (message : String) (n : Nat) (t : Ty) : Tame (freezeWith rigid message n t) := by
  induction n generalizing t with
  | zero => exact .outOfFuel
  | succ n ih =>
      apply Tame.bind (force_tame n t)
      intro t'
      cases t' with
      | con c ts => exact (Tame.mapM ih ts).bind fun _ => .pure _
      | arr a r b => exact (ih a).bind fun _ => (ih r).bind fun _ => (ih b).bind fun _ => .pure _
      | record tag row => exact (ih row).bind fun _ => .pure _
      | rowEmpty => exact .pure _
      | rowExtend l p r => exact (ih p).bind fun _ => (ih r).bind fun _ => .pure _
      | var v =>
          apply Tame.bind (.readRef v)
          intro tv
          cases tv with
          | unbound u l k => exact .pure _
          | link t => exact panicTC_tame message
          | rigid u l k => exact hrigid u

theorem freeze_tame (n : Nat) (t : Ty) : Tame (freeze n t) :=
  freezeWith_tame (fun _ => panicTC_tame _) _ n t

theorem freezeTolerant_tame (n : Nat) (t : Ty) : Tame (freezeTolerant n t) :=
  freezeWith_tame (fun _ => .pure _) _ n t

theorem kindOf_tame (n : Nat) (t : Ty) : Tame (kindOf n t) := by
  induction n generalizing t with
  | zero => exact .outOfFuel
  | succ n ih =>
      apply Tame.bind (force_tame n t)
      intro t'
      cases t' with
      | var v =>
          apply Tame.bind (.readRef v)
          intro tv
          cases tv with
          | link t => exact ih t
          | unbound u l k => exact .pure _
          | rigid u l k => exact .pure _
      | _ => exact .pure _

theorem rowTailRef_tame (n : Nat) (t : Ty) : Tame (rowTailRef n t) := by
  induction n generalizing t with
  | zero => exact .outOfFuel
  | succ n ih =>
      apply Tame.bind (force_tame n t)
      intro t'
      cases t' with
      | rowExtend l p rest => exact ih rest
      | _ => exact .pure _

theorem collectRowPairs_tame (n : Nat) (t : Ty) : Tame (collectRowPairs n t) := by
  induction n generalizing t with
  | zero => exact .outOfFuel
  | succ n ih =>
      apply Tame.bind (force_tame n t)
      intro t'
      cases t' with
      | rowExtend l p rest => exact (ih rest).bind fun _ => .pure _
      | _ => exact .pure _

theorem warnOnShadow_tame (sp : SourceSpan) (n : Nat) (t : Ty) : Tame (warnOnShadow sp n t) := by
  apply Tame.bind (collectRowPairs_tame n t)
  intro pairs
  apply Tame.forM
  rintro ⟨l, _ | ⟨t₁, _ | ⟨t₂, ts⟩⟩⟩
  · exact .pure _
  · exact .pure _
  · apply Tame.bind (freeze_tame n t₁)
    intro c₁
    apply Tame.bind (freeze_tame n t₂)
    intro c₂ s r s' hrun
    cases hrun
    exact ⟨.refl s, fun _ _ h => nomatch h⟩

theorem warnIfRecordShadow_tame (sp : SourceSpan) (n : Nat) (t : Ty) :
    Tame (warnIfRecordShadow sp n t) := by
  apply Tame.bind (force_tame n t)
  intro t'
  cases t' with
  | record tag row => exact warnOnShadow_tame sp n row
  | _ => exact .pure _

theorem reportPair_tame {α : Type} {report : CType → CType → TypeError}
    (hreport : ∀ ca cb sp u, report ca cb ≠ .rigidEscape sp u) (n : Nat) (a b : Ty) :
    Tame (reportPair n report a b : TC α) := by
  apply Tame.bind (freeze_tame n a)
  intro ca
  apply Tame.bind (freeze_tame n b)
  intro cb
  apply Tame.fail
  intro sp u heq
  exact hreport ca cb sp u (Failure.error.inj heq)

/-! ### Values that keep the levels apart -/

/-- The values solve the state and keep rigid variables, and no unbound variable has a
rigid one of a deeper level in its value. The levels are at most the current one. -/
structure Safe (lvl : Int) (ρ : Nat → Ty) (s : TCState) : Prop where
  normal : Normal ρ
  solves : Solves ρ s
  rigid : ∀ v u l k, v < s.next → s.cells v = .rigid u l k → ρ v = .var v
  level : ∀ v u l k, v < s.next → s.cells v = .unbound u l k → ∀ w ∈ (ρ v).vars, ∀ u' l' k',
    w < s.next → s.cells w = .rigid u' l' k' → l' ≤ l
  bounded : ∀ v u l k, v < s.next → s.cells v = .unbound u l k → l ≤ lvl

theorem Quiet.rigid_iff (h : Quiet d s s') {u : Nat} {l : Int} {k : Kind} :
    s'.cells v = .rigid u l k ↔ s.cells v = .rigid u l k := by
  constructor
  · intro hcell
    cases hold : s.cells v with
    | unbound u₀ l₀ k₀ =>
        rcases h.unbound v u₀ l₀ k₀ hold with ⟨l', -, hnew⟩
        rw [hcell] at hnew
        cases hnew
    | rigid u₀ l₀ k₀ =>
        rw [h.rigid v u₀ l₀ k₀ hold] at hcell
        exact hcell
    | link t =>
        rcases h.link v t hold with ⟨t', hnew⟩
        rw [hcell] at hnew
        cases hnew
  · exact h.rigid v u l k

theorem Safe.quiet (h : Safe lvl ρ s) (hquiet : Quiet d s s') (hkept : Kept s s') :
    Safe lvl ρ s' where
  normal := h.normal
  solves := (hquiet.solves ρ).mpr h.solves
  rigid := fun v u l k hv hcell => h.rigid v u l k (hquiet.next ▸ hv) (hquiet.rigid_iff.mp hcell)
  level := fun v u l k hv hcell w hw u' l' k' hw' hrigid =>
    h.level v u l k (hquiet.next ▸ hv) ((hkept v u l k).mp hcell) w hw u' l' k'
      (hquiet.next ▸ hw') (hquiet.rigid_iff.mp hrigid)
  bounded := fun v u l k hv hcell =>
    h.bounded v u l k (hquiet.next ▸ hv) ((hkept v u l k).mp hcell)

/-- A variable is bound to a type with its value. -/
theorem Safe.write (h : Safe lvl ρ s) (hv : v < s.next) (hlink : ∀ t, s.cells v ≠ .link t)
    (heq : ρ v = t.eval ρ) : Safe lvl ρ (s.write v (.link t)) := by
  have hback : ∀ {w tv}, (∀ t, tv ≠ .link t) → (s.write v (.link t)).cells w = tv →
      s.cells w = tv := by
    intro w tv hne hcell
    by_cases hw : w = v
    · subst hw
      rw [write_self] at hcell
      exact absurd hcell.symm (hne t)
    · exact (write_ne hw).symm.trans hcell
  constructor
  · exact h.normal
  · exact (solves_write hlink hv).mpr ⟨h.solves, heq⟩
  · intro w u l k hw hcell
    exact h.rigid w u l k hw (hback (fun _ h => nomatch h) hcell)
  · intro w u l k hw hcell x hx u' l' k' hx' hrigid
    exact h.level w u l k hw (hback (fun _ h => nomatch h) hcell) x hx u' l' k' hx'
      (hback (fun _ h => nomatch h) hrigid)
  · intro w u l k hw hcell
    exact h.bounded w u l k hw (hback (fun _ h => nomatch h) hcell)

/-- The levels that are lower are those of variables in the values of `vs`. -/
def Lowers (lvl : Int) (vs : List Nat) (s s' : TCState) : Prop :=
  ∀ v u l₁ k, s'.cells v = .unbound u l₁ k → ∃ l₀, s.cells v = .unbound u l₀ k ∧
    (l₁ = l₀ ∨ l₁ = lvl ∧ lvl ≤ l₀ ∧
      ∀ ρ, Solves ρ s → ∀ w ∈ (ρ v).vars, ∃ x ∈ vs, w ∈ (ρ x).vars)

theorem Lowers.refl {vs : List Nat} (s : TCState) : Lowers lvl vs s s :=
  fun _ _ l _ h => ⟨l, h, .inl rfl⟩

/-- A walk of the occurs check. -/
structure Lowering (target : Nat) (lvl : Int) (vs : List Nat) (x : TC Unit) : Prop where
  checks : Checks target vs x
  lowers : ∀ s r s', s.WellFormed → (∀ v ∈ vs, v < s.next) → x s = some (r, s') →
    Lowers lvl vs s s' ∧ NoEscape r

section Lowering

variable {target : Nat} {vs vs' : List Nat} {f g : TC Unit}

theorem Adjusts.wellFormed (h : Adjusts s s') (hs : s.WellFormed) : s'.WellFormed := by
  rcases hs with ⟨d, hd⟩
  exact ⟨d, (h.quiet hd).deep⟩

theorem Lowering.bind (h : Lowering target lvl vs f) (h' : Lowering target lvl vs' g) :
    Lowering target lvl (vs ++ vs') (f >>= fun _ => g) where
  checks := h.checks.bind h'.checks
  lowers := by
    intro s r s' hs hin hrun
    rcases PartialM.bind_some hrun with ⟨a, s₁, hf, hg⟩ | ⟨e, s₁, hf, heq⟩
    · have hadj := (h.checks s _ s₁ hf).1
      rcases h.lowers s _ s₁ hs (fun v hv => hin v (List.mem_append_left _ hv)) hf with ⟨hlow, -⟩
      rcases h'.lowers s₁ r s' (hadj.wellFormed hs)
        (fun v hv => hadj.next.symm ▸ hin v (List.mem_append_right _ hv)) hg with ⟨hlow', hno⟩
      refine ⟨?_, hno⟩
      intro v u l₂ k hcell
      rcases hlow' v u l₂ k hcell with ⟨l₁, hcell₁, hcase'⟩
      rcases hlow v u l₁ k hcell₁ with ⟨l₀, hcell₀, hcase⟩
      refine ⟨l₀, hcell₀, ?_⟩
      have hright : (∀ ρ, Solves ρ s₁ → ∀ w ∈ (ρ v).vars, ∃ x ∈ vs', w ∈ (ρ x).vars) →
          ∀ ρ, Solves ρ s → ∀ w ∈ (ρ v).vars, ∃ x ∈ vs ++ vs', w ∈ (ρ x).vars := by
        intro hvars ρ hρ w hw
        rcases hvars ρ (hadj.solves.mpr hρ) w hw with ⟨x, hx, hwx⟩
        exact ⟨x, List.mem_append_right _ hx, hwx⟩
      rcases hcase with rfl | ⟨rfl, hle, hvars⟩
      · rcases hcase' with rfl | ⟨rfl, hle, hvars⟩
        · exact .inl rfl
        · exact .inr ⟨rfl, hle, hright hvars⟩
      · have hleft : ∀ ρ, Solves ρ s → ∀ w ∈ (ρ v).vars, ∃ x ∈ vs ++ vs', w ∈ (ρ x).vars := by
          intro ρ hρ w hw
          rcases hvars ρ hρ w hw with ⟨x, hx, hwx⟩
          exact ⟨x, List.mem_append_left _ hx, hwx⟩
        rcases hcase' with rfl | ⟨rfl, -, -⟩
        · exact .inr ⟨rfl, hle, hleft⟩
        · exact .inr ⟨rfl, hle, hleft⟩
    · cases heq
      rcases h.lowers s _ _ hs (fun v hv => hin v (List.mem_append_left _ hv)) hf with ⟨hlow, hno⟩
      refine ⟨?_, fun sp u heq => hno sp u heq⟩
      intro v u l₁ k hcell
      rcases hlow v u l₁ k hcell with ⟨l₀, hcell₀, hcase⟩
      refine ⟨l₀, hcell₀, hcase.imp_right ?_⟩
      rintro ⟨hl, hle, hvars⟩
      refine ⟨hl, hle, ?_⟩
      intro ρ hρ w hw
      rcases hvars ρ hρ w hw with ⟨x, hx, hwx⟩
      exact ⟨x, List.mem_append_left _ hx, hwx⟩

theorem Lowering.pure : Lowering target lvl [] (Pure.pure ()) where
  checks := .pure
  lowers := by
    intro s r s' _ _ hrun
    cases hrun
    exact ⟨.refl s, fun _ _ h => nomatch h⟩

theorem Lowering.forM {f : Ty → TC Unit} {ts : List Ty}
    (h : ∀ t, Lowering target lvl t.vars (f t)) :
    Lowering target lvl (Ty.varsList ts) (ts.forM f) := by
  induction ts with
  | nil => exact .pure
  | cons t ts ih => exact (h t).bind ih

theorem Lowers.fail {e : Failure} {r : Except Failure Unit}
    (heq : some (.error e, s) = some (r, s')) (hno : ∀ sp u, e ≠ .error (.rigidEscape sp u)) :
    Lowers lvl vs s s' ∧ NoEscape r := by
  cases heq
  refine ⟨.refl s, ?_⟩
  intro sp u heq
  cases heq
  exact hno sp u rfl

end Lowering

theorem occursAdjust_lowering {target : Nat} (n : Nat) (t : Ty) :
    Lowering target lvl t.vars (occursAdjust sp target lvl n t) := by
  induction n generalizing t with
  | zero =>
      refine ⟨occursAdjust_checks 0 t, ?_⟩
      intro s r s' _ _ hrun
      cases hrun
  | succ n ih =>
      cases t with
      | var v =>
          refine ⟨occursAdjust_checks (n + 1) (.var v), ?_⟩
          intro s r s' hs hin hrun
          by_cases hv : v = target
          · subst hv
            rw [occursAdjust, if_pos rfl, PartialM.bind_of_ok (readRef_run v s)] at hrun
            cases hcell : s.cells v with
            | link t =>
                rw [hcell] at hrun
                exact Lowers.fail hrun (by intro _ _ h; cases h)
            | rigid u l k =>
                rw [hcell] at hrun
                exact Lowers.fail hrun (by intro _ _ h; cases h)
            | unbound u l k =>
                rw [hcell] at hrun
                cases k with
                | effect => exact Lowers.fail hrun (by intro _ _ h; cases h)
                | star => exact Lowers.fail hrun (by intro _ _ h; cases h)
                | arrow k k' => exact Lowers.fail hrun (by intro _ _ h; cases h)
          · rw [occursAdjust, if_neg hv, PartialM.bind_of_ok (readRef_run v s)] at hrun
            have hlt := hin v List.mem_cons_self
            cases hcell : s.cells v with
            | rigid u l k =>
                rw [hcell] at hrun
                cases hrun
                exact ⟨.refl s, by intro _ _ h; cases h⟩
            | link t =>
                rw [hcell] at hrun
                have hint : t.In s := by
                  rcases hs with ⟨d, hd⟩
                  exact hd.linksIn v t hlt hcell
                rcases (ih t).lowers s r s' hs hint hrun with ⟨hlow, hno⟩
                refine ⟨?_, hno⟩
                intro w u l₁ k hcell'
                rcases hlow w u l₁ k hcell' with ⟨l₀, hcell₀, hcase⟩
                refine ⟨l₀, hcell₀, hcase.imp_right ?_⟩
                rintro ⟨hl, hle, hvars⟩
                refine ⟨hl, hle, ?_⟩
                intro ρ hρ x hx
                refine ⟨v, List.mem_cons_self, ?_⟩
                rw [hρ v t hlt hcell, mem_vars_eval]
                exact hvars ρ hρ x hx
            | unbound u l k =>
                rw [hcell] at hrun
                change (if l > lvl then writeRef v (.unbound u lvl k) else Pure.pure ()) s = _
                  at hrun
                by_cases hl : l > lvl
                · rw [if_pos hl] at hrun
                  cases hrun
                  refine ⟨?_, by intro _ _ h; cases h⟩
                  intro w u' l₁ k' hcell'
                  by_cases hw : w = v
                  · subst hw
                    change (s.write w _).cells w = _ at hcell'
                    rw [write_self] at hcell'
                    cases hcell'
                    exact ⟨l, hcell, .inr ⟨rfl, hl.le, fun ρ _ x hx => ⟨w, List.mem_cons_self, hx⟩⟩⟩
                  · change (s.write v _).cells w = _ at hcell'
                    rw [write_ne hw] at hcell'
                    exact ⟨l₁, hcell', .inl rfl⟩
                · rw [if_neg hl] at hrun
                  cases hrun
                  exact ⟨.refl s, by intro _ _ h; cases h⟩
      | con c ts => exact Lowering.forM ih
      | arr a e b => exact (ih a).bind ((ih e).bind (ih b))
      | record tag row => exact ih row
      | rowEmpty => exact .pure
      | rowExtend l p rest => exact (ih p).bind (ih rest)

/-- The levels that come down are those of variables in the value of the target. -/
theorem Safe.lowers (h : Safe lvl ρ s) {u : Nat} {l' : Int} {k : Kind} (hv : v < s.next)
    (hcell : s.cells v = .unbound u l' k) (heq : ρ v = t.eval ρ) (hadj : Adjusts s s')
    (hlow : Lowers l' t.vars s s') (hd : Deep d s) : Safe lvl ρ s' := by
  have hquiet := hadj.quiet hd
  have hnext := hadj.next
  constructor
  · exact h.normal
  · exact hadj.solves.mpr h.solves
  · exact fun w u₁ l₁ k₁ hw hrigid => h.rigid w u₁ l₁ k₁ (hnext ▸ hw) (hquiet.rigid_iff.mp hrigid)
  · intro w u₁ l₁ k₁ hw hw' x hx u₂ l₂ k₂ hx' hrigid
    have hrigid := hquiet.rigid_iff.mp hrigid
    rcases hlow w u₁ l₁ k₁ hw' with ⟨l₀, hw₀, rfl | ⟨rfl, -, hvars⟩⟩
    · exact h.level w u₁ l₁ k₁ (hnext ▸ hw) hw₀ x hx u₂ l₂ k₂ (hnext ▸ hx') hrigid
    · apply h.level v u l₁ k hv hcell x _ u₂ l₂ k₂ (hnext ▸ hx') hrigid
      rw [heq, mem_vars_eval]
      exact hvars ρ h.solves x hx
  · intro w u₁ l₁ k₁ hw hw'
    rcases hlow w u₁ l₁ k₁ hw' with ⟨l₀, hw₀, rfl | ⟨rfl, hle, -⟩⟩
    · exact h.bounded w u₁ l₁ k₁ (hnext ▸ hw) hw₀
    · exact h.bounded v u l₁ k hv hcell

/-! ### No escape -/

/-- The result is no escape, and when it ends well there are values that keep the levels
apart, the old ones for the old variables, with `P`. -/
def EndsSafely {α : Type} (lvl : Int) (ρ : Nat → Ty) (s : TCState) (r : Except Failure α)
    (s' : TCState) (P : α → (Nat → Ty) → Prop) : Prop :=
  NoEscape r ∧ ∀ a, r = .ok a →
    ∃ ρ', (∀ v, v < s.next → ρ' v = ρ v) ∧ Safe lvl ρ' s' ∧ P a ρ'

section EndsSafely

variable {α : Type} {r : Except Failure α} {P Q : α → (Nat → Ty) → Prop}

theorem EndsSafely.fail {e : Failure} (heq : some (.error e, s₁) = some (r, s'))
    (hno : ∀ sp u, e ≠ .error (.rigidEscape sp u)) : EndsSafely lvl ρ s r s' P := by
  cases heq
  refine ⟨?_, fun _ h => nomatch h⟩
  intro sp u heq
  cases heq
  exact hno sp u rfl

theorem EndsSafely.of_tame {f : TC α} (hf : Tame f) (hok : ∀ a s', f s₁ ≠ some (.ok a, s'))
    (hrun : f s₁ = some (r, s')) : EndsSafely lvl ρ s r s' P := by
  refine ⟨(hf s₁ r s' hrun).2, ?_⟩
  rintro a rfl
  exact absurd hrun (hok a s')

theorem EndsSafely.error {β : Type} {e : Failure} (h : NoEscape (.error e : Except Failure β)) :
    EndsSafely lvl ρ s (.error e) s' P := by
  refine ⟨?_, fun _ h => nomatch h⟩
  intro sp u heq
  cases heq
  exact h sp u rfl

theorem EndsSafely.back (h : EndsSafely lvl ρ s₁ r s' P) (hle : s.next ≤ s₁.next) :
    EndsSafely lvl ρ s r s' P := by
  refine ⟨h.1, ?_⟩
  intro a ha
  rcases h.2 a ha with ⟨ρ', hagree, hsafe, hP⟩
  exact ⟨ρ', fun v hv => hagree v (hv.trans_le hle), hsafe, hP⟩

end EndsSafely

theorem eval_ne_var (h : ∀ v, t ≠ .var v) (ρ : Nat → Ty) (w : Nat) : t.eval ρ ≠ .var w := by
  intro heq
  cases t with
  | var v => exact h v rfl
  | rowExtend l p rest =>
      have hrow : IsRow (.var w) := by
        rw [← heq]
        exact isRow_insertField
      rcases hrow with ⟨_, _, _, heq⟩
      cases heq
  | _ => cases heq

theorem kindReport_tame {freezer : Nat → Ty → TC CType} (hfreezer : ∀ n t, Tame (freezer n t))
    (n : Nat) (t u : Ty) : Tame (freezer n t >>= fun ca => freezer n u >>= fun cb =>
      (throwTC (.kindMismatch sp ca cb) : TC Unit)) :=
  (hfreezer n t).bind fun _ => (hfreezer n u).bind fun _ => .fail fun _ _ h => nomatch h

theorem kindReport_not_ok {freezer : Nat → Ty → TC CType} (n : Nat) (t u : Ty) (x : Unit)
    (s' : TCState) : (freezer n t >>= fun ca => freezer n u >>= fun cb =>
      (throwTC (.kindMismatch sp ca cb) : TC Unit)) s ≠ some (.ok x, s') := by
  intro hrun
  rcases PartialM.bind_ok hrun with ⟨ca, s₁, -, hrun⟩
  rcases PartialM.bind_ok hrun with ⟨cb, s₂, -, hrun⟩
  cases hrun

theorem rigidUnify_safe {uniq : Nat} {l' : Int} {k : Kind} {r : Except Failure Unit}
    (hv : v < s.next) (hrigid : s.cells v = .rigid uniq l' k) (ht : t.In s) (hsafe : Safe lvl ρ s)
    (heq : ρ v = t.eval ρ) (hrun : rigidUnify sp n v uniq l' k t s = some (r, s')) :
    EndsSafely lvl ρ s r s' fun _ _ => True := by
  have hvalue : ρ v = .var v := hsafe.rigid v uniq l' k hv hrigid
  by_cases hvar : ∃ w, t = .var w
  · rcases hvar with ⟨w, rfl⟩
    have hw : w < s.next := ht w List.mem_cons_self
    have hvaluew : ρ w = .var v := heq.symm.trans hvalue
    by_cases hne : w = v
    · rw [rigidUnify, if_pos hne] at hrun
      cases hrun
      exact ⟨(by intro _ _ h; cases h), fun _ _ => ⟨ρ, fun _ _ => rfl, hsafe, trivial⟩⟩
    · rw [rigidUnify, if_neg hne, PartialM.bind_of_ok (readRef_run w s)] at hrun
      cases hcell : s.cells w with
      | link t =>
          rw [hcell] at hrun
          exact .fail hrun (by intro _ _ h; cases h)
      | rigid u₁ l₁ k₁ =>
          have hself := hsafe.rigid w u₁ l₁ k₁ hw hcell
          rw [hvaluew] at hself
          exact absurd (Ty.var.inj hself).symm hne
      | unbound u₁ l₁ k₁ =>
          rw [hcell] at hrun
          by_cases hk : k₁ ≠ k
          · simp only [if_pos hk] at hrun
            exact .of_tame (kindReport_tame freezeTolerant_tame n _ _)
              (fun x s' => kindReport_not_ok n _ _ x s') hrun
          · simp only [if_neg hk] at hrun
            have hlevel : l' ≤ l₁ := by
              apply hsafe.level w u₁ l₁ k₁ hw hcell v _ uniq l' k hv hrigid
              rw [hvaluew]
              exact List.mem_cons_self
            simp only [if_neg (not_lt.mpr hlevel)] at hrun
            cases hrun
            refine ⟨(by intro _ _ h; cases h), fun _ _ => ⟨ρ, fun _ _ => rfl, ?_, trivial⟩⟩
            exact hsafe.write hw (by intro t ht; cases hcell.symm.trans ht) heq.symm
  · have hne := eval_ne_var (fun w h => hvar ⟨w, h⟩) ρ v
    exact absurd (heq.symm.trans hvalue) hne

theorem unifyVar_safe {r : Except Failure Unit} (hs : s.WellFormed) (hv : v < s.next)
    (hlink : ∀ t, s.cells v ≠ .link t) (ht : t.In s) (hsafe : Safe lvl ρ s)
    (heq : ρ v = t.eval ρ) (hrun : unifyVar sp n v t s = some (r, s')) :
    EndsSafely lvl ρ s r s' fun _ _ => True := by
  rw [unifyVar, PartialM.bind_of_ok (readRef_run v s)] at hrun
  cases hcell : s.cells v with
  | link t => exact absurd hcell (hlink t)
  | rigid u l k =>
      rw [hcell] at hrun
      exact rigidUnify_safe hv hcell ht hsafe heq hrun
  | unbound u l k =>
      rw [hcell] at hrun
      rcases hs with ⟨d, hd⟩
      rcases PartialM.bind_some hrun with ⟨tk, s₁, hkind, hrest⟩ | ⟨e, s₁, hkind, heq'⟩
      · have hquiet := (kindOf_calm hd ht).quiet n _ s₁ hkind
        have hkept := (kindOf_tame n t s _ s₁ hkind).1
        have hsafe₁ := hsafe.quiet hquiet hkept
        by_cases hk : k ≠ tk
        · simp only [if_pos hk] at hrest
          exact .of_tame (kindReport_tame freeze_tame n _ _)
            (fun x s' => kindReport_not_ok n _ _ x s') hrest
        · simp only [if_neg hk] at hrest
          have hs₁ : s₁.WellFormed := ⟨d, hquiet.deep⟩
          have ht₁ : t.In s₁ := hquiet.isIn.mpr ht
          have hcell₁ := (hkept v u l k).mpr hcell
          have hv₁ : v < s₁.next := hquiet.next.symm ▸ hv
          have hlowering : Lowering v l t.vars (occursAdjust sp v l n t) :=
            occursAdjust_lowering n t
          rcases PartialM.bind_some hrest with ⟨_, s₂, hadjust, hwrite⟩ | ⟨e, s₂, hadjust, heq'⟩
          · cases hwrite
            have hadj := (hlowering.checks s₁ _ s₂ hadjust).1
            have hlow := (hlowering.lowers s₁ _ s₂ hs₁ ht₁ hadjust).1
            have hsafe₂ := hsafe₁.lowers hv₁ hcell₁ heq hadj hlow hquiet.deep
            refine ⟨(by intro _ _ h; cases h), fun _ _ => ⟨ρ, fun _ _ => rfl, ?_, trivial⟩⟩
            apply hsafe₂.write (hadj.next.symm ▸ hv₁) _ heq
            intro t₀ h
            rw [hadj.link, hcell₁] at h
            cases h
          · cases heq'
            exact .error (hlowering.lowers s₁ _ _ hs₁ ht₁ hadjust).2
      · cases heq'
        exact .error (kindOf_tame n t s _ _ hkind).2

/-- The two new variables of an extension have the levels apart when the row has. -/
theorem Safe.extend {ref : Nat} {k k' : Kind} (hs : s.WellFormed) (hsafe : Safe lvl ρ s)
    (href : ref < s.next) (hlink : ∀ t, s.cells ref ≠ .link t) (heq : ρ ref = insertField l x y) :
    Safe lvl (withTwo ρ s.next x y) ((s.alloc lvl k).alloc lvl k') := by
  have hxy : x.norm = x ∧ y.norm = y := by
    apply norm_of_insertField
    rw [← heq]
    exact hsafe.normal ref
  have hvars : ∀ w, w ∈ x.vars ∨ w ∈ y.vars → ∀ u₁ l₁ k₁, w < s.next →
      s.cells w = .rigid u₁ l₁ k₁ → l₁ ≤ lvl := by
    intro w hw u₁ l₁ k₁ hlt hrigid
    have hmem : w ∈ (ρ ref).vars := by
      rw [heq]
      exact mem_vars_insertField.mpr hw
    cases hcell : s.cells ref with
    | link t => exact absurd hcell (hlink t)
    | rigid u₂ l₂ k₂ =>
        have hrow : IsRow (.var ref) := by
          rw [← hsafe.rigid ref u₂ l₂ k₂ href hcell, heq]
          exact isRow_insertField
        rcases hrow with ⟨_, _, _, h⟩
        cases h
    | unbound u₂ l₂ k₂ =>
        exact (hsafe.level ref u₂ l₂ k₂ href hcell w hmem u₁ l₁ k₁ hlt hrigid).trans
          (hsafe.bounded ref u₂ l₂ k₂ href hcell)
  have hcells : ∀ {v tv}, v < s.next + 2 → ((s.alloc lvl k).alloc lvl k').cells v = tv →
      (v < s.next ∧ s.cells v = tv) ∨ (v = s.next ∨ v = s.next + 1) ∧
        ∃ u₁ k₁, tv = .unbound u₁ lvl k₁ := by
    intro v tv hv hcell
    by_cases h₁ : v = s.next + 1
    · subst h₁
      rw [← hcell]
      exact .inr ⟨.inr rfl, _, _, alloc_new (s := s.alloc lvl k)⟩
    · rw [alloc_ne (by rw [alloc_next]; exact h₁)] at hcell
      by_cases h₀ : v = s.next
      · subst h₀
        rw [← hcell]
        exact .inr ⟨.inl rfl, _, _, alloc_new⟩
      · rw [alloc_ne h₀] at hcell
        exact .inl ⟨by omega, hcell⟩
  have hrigid : ∀ {v u₁ l₁ k₁}, v < s.next + 2 →
      ((s.alloc lvl k).alloc lvl k').cells v = .rigid u₁ l₁ k₁ →
      v < s.next ∧ s.cells v = .rigid u₁ l₁ k₁ := by
    intro v u₁ l₁ k₁ hv hcell
    rcases hcells hv hcell with hold | ⟨-, u₂, k₂, h⟩
    · exact hold
    · cases h
  constructor
  · exact withTwo_normal hsafe.normal hxy.1 hxy.2
  · exact solves_alloc.mpr (solves_alloc.mpr (withTwo_solves hs hsafe.solves))
  · intro v u₁ l₁ k₁ hv hcell
    rcases hrigid hv hcell with ⟨hv, hcell⟩
    rw [withTwo_old hv]
    exact hsafe.rigid v u₁ l₁ k₁ hv hcell
  · intro v u₁ l₁ k₁ hv hcell w hw u₂ l₂ k₂ hw' hcellw
    rcases hrigid hw' hcellw with ⟨hw', hcellw⟩
    rcases hcells hv hcell with ⟨hv, hcell⟩ | ⟨hnew, u₃, k₃, h⟩
    · rw [withTwo_old hv] at hw
      exact hsafe.level v u₁ l₁ k₁ hv hcell w hw u₂ l₂ k₂ hw' hcellw
    · cases h
      apply hvars w _ u₂ l₂ k₂ hw' hcellw
      rcases hnew with rfl | rfl
      · rw [withTwo_fst] at hw
        exact .inl hw
      · rw [withTwo_snd] at hw
        exact .inr hw
  · intro v u₁ l₁ k₁ hv hcell
    rcases hcells hv hcell with ⟨hv, hcell⟩ | ⟨-, u₃, k₃, h⟩
    · exact hsafe.bounded v u₁ l₁ k₁ hv hcell
    · cases h
      exact le_rfl

theorem rewriteRowGuarded_safe {r : Except Failure (Ty × Ty)} (hs : s.WellFormed)
    (hin : row.In s) (hsafe : Safe lvl ρ s) (heq : row.eval ρ = insertField l x y)
    (hrun : rewriteRowGuarded sp lvl forbidden l n row s = some (r, s')) :
    EndsSafely lvl ρ s r s' fun e ρ' => e.1.eval ρ' = x ∧ e.2.eval ρ' = y := by
  induction n generalizing row s r s' y with
  | zero => cases hrun
  | succ n ih =>
      rcases hs with ⟨d, hd⟩
      have hcalm := force_calm hd hin
      rcases PartialM.bind_some hrun with ⟨row', s₁, hforce, hrest⟩ | ⟨e, s₁, hforce, heq'⟩
      · have hquiet := hcalm.quiet n _ s₁ hforce
        have hforces := hcalm.result n row' s₁ hforce
        have hs₁ : s₁.WellFormed := ⟨d, hquiet.deep⟩
        have hin₁ : row'.In s₁ := hquiet.isIn.mpr hforces.isIn
        have hsafe₁ := hsafe.quiet hquiet (force_tame n row s _ s₁ hforce).1
        rw [← hforces.eval_of_solves hsafe.solves] at heq
        have hnext : s.next ≤ s₁.next := hquiet.next.ge
        cases row' with
        | rowExtend l' t rest =>
            by_cases hl : l = l'
            · simp only [if_pos hl] at hrest
              subst hl
              cases hrest
              rcases insertField_inj heq with ⟨hx, hy⟩
              refine ⟨fun _ _ h => (nomatch h), ?_⟩
              intro a ha
              cases ha
              exact ⟨ρ, fun _ _ => rfl, hsafe₁, hx, hy⟩
            · simp only [if_neg hl] at hrest
              rcases insertField_ne hl (hsafe.normal.sortedRow rest) heq with ⟨z, hz, hy, -⟩
              rcases PartialM.bind_some hrest with ⟨⟨t', u⟩, s₂, hrec, hret⟩ | ⟨e, s₂, hrec, heq'⟩
              · cases hret
                have hends := ih hs₁ (Part.rest.isIn hin₁) hsafe₁ hz hrec
                refine ⟨fun _ _ h => (nomatch h), ?_⟩
                intro a ha
                cases ha
                rcases hends.2 _ rfl with ⟨ρ', hagree, hsafe', hx, hu⟩
                refine ⟨ρ', fun v hv => hagree v (hv.trans_le hnext), hsafe', hx, ?_⟩
                have ht : t.eval ρ' = t.eval ρ := eval_congr t fun v hv =>
                  hagree v (Part.payload.isIn hin₁ v hv)
                have hu : u.eval ρ' = z := hu
                change insertField l' (t.eval ρ') (u.eval ρ') = y
                rw [ht, hu, hy]
              · cases heq'
                exact .error (ih hs₁ (Part.rest.isIn hin₁) hsafe₁ hz hrec).1
        | var ref =>
            by_cases href : some ref = forbidden
            · simp only [if_pos href] at hrest
              exact .fail hrest fun _ _ h => nomatch h
            · simp only [if_neg href] at hrest
              have hlt : ref < s₁.next := hin₁ ref List.mem_cons_self
              have hlink : ∀ t, s₁.cells ref ≠ .link t := fun t => hforces.head ref t rfl
              let s₃ := (s₁.alloc lvl .star).alloc lvl .effect
              have hs₃ : s₃.WellFormed := alloc_wellFormed (alloc_wellFormed hs₁)
              have hsafe₃ : Safe lvl (withTwo ρ s₁.next x y) s₃ := hsafe₁.extend hs₁ hlt hlink heq
              have hnext₃ : s₃.next = s₁.next + 2 := rfl
              have hlink₃ : ∀ t, s₃.cells ref ≠ .link t := by
                intro t
                change ((s₁.alloc lvl .star).alloc lvl .effect).cells ref ≠ _
                rw [alloc_old (by rw [alloc_next]; omega), alloc_old hlt]
                exact hlink t
              have hin₃ : (Ty.rowExtend l (.var s₁.next) (.var (s₁.next + 1))).In s₃ := by
                intro v hv
                rw [hnext₃]
                rcases List.mem_cons.mp hv with rfl | hv
                · omega
                · rcases List.mem_singleton.mp hv with rfl
                  omega
              have hvalue : withTwo ρ s₁.next x y ref =
                  (Ty.rowExtend l (.var s₁.next) (.var (s₁.next + 1))).eval
                    (withTwo ρ s₁.next x y) := by
                rw [Ty.eval, Ty.eval, Ty.eval, withTwo_old hlt, withTwo_fst, withTwo_snd]
                exact heq
              change (unifyVar sp n ref (.rowExtend l (.var s₁.next) (.var (s₁.next + 1))) >>=
                fun _ => Pure.pure (Ty.var s₁.next, Ty.var (s₁.next + 1))) s₃ = _ at hrest
              have hlt₃ : ref < s₃.next := by omega
              rcases PartialM.bind_some hrest with ⟨_, s₄, hvar, hret⟩ | ⟨e, s₄, hvar, heq'⟩
              · cases hret
                refine ⟨fun _ _ h => (nomatch h), ?_⟩
                intro a ha
                cases ha
                rcases (unifyVar_safe hs₃ hlt₃ hlink₃ hin₃ hsafe₃ hvalue hvar).2 _ rfl with
                  ⟨ρ', hagree, hsafe', -⟩
                refine ⟨ρ', ?_, hsafe', ?_, ?_⟩
                · intro v hv
                  have hv₁ : v < s₁.next := hv.trans_le hnext
                  rw [hagree v (by omega), withTwo_old hv₁]
                · change ρ' s₁.next = x
                  rw [hagree _ (by omega), withTwo_fst]
                · change ρ' (s₁.next + 1) = y
                  rw [hagree _ (by omega), withTwo_snd]
              · cases heq'
                exact .error (unifyVar_safe hs₃ hlt₃ hlink₃ hin₃ hsafe₃ hvalue hvar).1
        | rowEmpty => exact .fail hrest fun _ _ h => nomatch h
        | con c ts => exact .fail hrest fun _ _ h => nomatch h
        | arr a e b => exact .fail hrest fun _ _ h => nomatch h
        | record tag row => exact .fail hrest fun _ _ h => nomatch h
      · cases heq'
        exact .error (force_tame n row s _ _ hforce).2

theorem EndsSafely.then {r : Except Failure Unit} {f g : TC Unit}
    {P : Unit → (Nat → Ty) → Prop}
    (hrun : (f >>= fun _ => g) s = some (r, s'))
    (hf : ∀ r₁ s₁, f s = some (r₁, s₁) → EndsSafely lvl ρ s r₁ s₁ fun _ _ => True)
    (hg : ∀ ρ₁ s₁, f s = some (.ok (), s₁) → (∀ v, v < s.next → ρ₁ v = ρ v) → Safe lvl ρ₁ s₁ →
      s.next ≤ s₁.next ∧ ∀ r₂ s₂, g s₁ = some (r₂, s₂) → EndsSafely lvl ρ₁ s₁ r₂ s₂ P) :
    EndsSafely lvl ρ s r s' P := by
  rcases PartialM.bind_some hrun with ⟨a, s₁, hf', hg'⟩ | ⟨e, s₁, hf', heq⟩
  · rcases (hf _ s₁ hf').2 a rfl with ⟨ρ₁, hagree, hsafe, -⟩
    rcases hg ρ₁ s₁ hf' hagree hsafe with ⟨hle, hg⟩
    have hends := hg r s' hg'
    refine ⟨hends.1, ?_⟩
    intro b hb
    rcases hends.2 b hb with ⟨ρ₂, hagree₂, hsafe₂, hP⟩
    exact ⟨ρ₂, fun v hv => (hagree₂ v (hv.trans_le hle)).trans (hagree v hv), hsafe₂, hP⟩
  · cases heq
    exact .error (hf _ _ hf').1

/-- A computation that binds nothing and keeps the levels. -/
theorem EndsSafely.quietly {r : Except Failure Unit} {f : Nat → TC Unit} (hsafe : Safe lvl ρ s)
    (hcalm : Calm d (fun _ _ => True) f s) (htame : Tame (f n))
    (hrun : f n s = some (r, s')) : EndsSafely lvl ρ s r s' fun _ _ => True := by
  rcases htame s r s' hrun with ⟨hkept, hno⟩
  exact ⟨hno, fun _ _ => ⟨ρ, fun _ _ => rfl, hsafe.quiet (hcalm.quiet n r s' hrun) hkept, trivial⟩⟩

theorem bind_warn_safe {r : Except Failure Unit} (hs : s.WellFormed) (hv : v < s.next)
    (hlink : ∀ t, s.cells v ≠ .link t) (ht : t.In s)
    (hhead : ∀ v u, t = .var v → s.cells v ≠ .link u) (hne : t ≠ .var v)
    (hsafe : Safe lvl ρ s) (heq : ρ v = t.eval ρ)
    (hrun : (unifyVar sp n v t >>= fun _ => warnIfRecordShadow sp n t) s = some (r, s')) :
    EndsSafely lvl ρ s r s' fun _ _ => True := by
  apply EndsSafely.then hrun
  · intro r₁ s₁ hvar
    exact unifyVar_safe hs hv hlink ht hsafe heq hvar
  · intro ρ₁ s₁ hvar _ hsafe₁
    rcases unifyVar_run hs hv hlink ht hhead hne hvar with ⟨-, hone⟩ | ⟨⟨e, heq⟩, -⟩
    · have hsolved := (hone.settles hs).1
      refine ⟨hsolved.next, ?_⟩
      intro r₂ s₂ hwarn
      rcases hsolved.wellFormed with ⟨d, hd⟩
      exact .quietly hsafe₁ (warnIfRecordShadow_calm hd (ht.mono hsolved.next))
        (warnIfRecordShadow_tame sp n t) hwarn
    · cases heq

/-- Unification with some fuel reports no escape when there are values that keep the
levels apart. -/
def UnifySafe (sp : SourceSpan) (lvl : Int) (n : Nat) : Prop :=
  ∀ s a b ρ r s', s.WellFormed → a.In s → b.In s → Safe lvl ρ s → Equal a b ρ →
    unify sp lvl n a b s = some (r, s') → EndsSafely lvl ρ s r s' fun _ _ => True

theorem UnifySafe.forM (ih : UnifySafe sp lvl n) {ps : List (Ty × Ty)}
    {r : Except Failure Unit} (hs : s.WellFormed) (hin : ∀ p ∈ ps, p.1.In s ∧ p.2.In s)
    (hsafe : Safe lvl ρ s) (heq : ∀ p ∈ ps, Equal p.1 p.2 ρ)
    (hrun : (ps.forM fun p => unify sp lvl n p.1 p.2) s = some (r, s')) :
    EndsSafely lvl ρ s r s' fun _ _ => True := by
  induction ps generalizing s ρ r s' with
  | nil =>
      cases hrun
      exact ⟨fun _ _ h => (nomatch h), fun _ _ => ⟨ρ, fun _ _ => rfl, hsafe, trivial⟩⟩
  | cons p ps ihps =>
      rcases List.forall_mem_cons.mp hin with ⟨hp, hps⟩
      rcases List.forall_mem_cons.mp heq with ⟨heqp, heqps⟩
      apply EndsSafely.then hrun
      · intro r₁ s₁ hrun₁
        exact ih s p.1 p.2 ρ r₁ s₁ hs hp.1 hp.2 hsafe heqp hrun₁
      · intro ρ₁ s₁ hrun₁ hagree hsafe₁
        have hsolved := (unify_solved sp lvl n s p.1 p.2 s₁ hs hp.1 hp.2 hrun₁).1
        refine ⟨hsolved.next, ?_⟩
        intro r₂ s₂ hrun₂
        apply ihps hsolved.wellFormed _ hsafe₁ _ hrun₂
        · intro q hq
          exact ⟨(hps q hq).1.mono hsolved.next, (hps q hq).2.mono hsolved.next⟩
        · intro q hq
          exact Equal.local (hps q hq).1 (hps q hq).2 ρ ρ₁ hagree (heqps q hq)

theorem catchTC_rowReport_safe {x : TC (Ty × Ty)} {r : Except Failure (Ty × Ty)}
    {P : Ty × Ty → (Nat → Ty) → Prop}
    (hx : ∀ r₁ s₁, x s = some (r₁, s₁) → EndsSafely lvl ρ s r₁ s₁ P)
    (hrun : catchTC x (rowReport sp n a b) s = some (r, s')) : EndsSafely lvl ρ s r s' P := by
  unfold catchTC at hrun
  split at hrun
  · next e s₁ hx' =>
      cases e with
      | rigidEscape sp' u => exact absurd rfl ((hx _ s₁ hx').1 sp' u)
      | unknownField sp' tag label =>
          have htame := @reportPair_tame (Ty × Ty) (.rowMismatch sp)
            (fun _ _ _ _ h => nomatch h) n a b
          apply EndsSafely.of_tame htame _ hrun
          intro e s₂ hok
          rcases PartialM.bind_ok hok with ⟨ca, s₃, -, hok⟩
          rcases PartialM.bind_ok hok with ⟨cb, s₄, -, hok⟩
          cases hok
      | _ => exact .fail hrun fun _ _ h => nomatch h
  · exact hx r s' hrun

theorem unify_safe (sp : SourceSpan) (lvl : Int) (n : Nat) : UnifySafe sp lvl n := by
  induction n with
  | zero =>
      intro s a b ρ r s' _ _ _ _ _ hrun
      cases hrun
  | succ n ih =>
      intro s a b ρ r s' hs ha hb hsafe heq hrun
      rcases unify_inv hs ha hb hrun with ⟨m, a', b', f, s₂, hm, hpair, hcase, hrun⟩
      cases hm
      have hs₂ := hpair.wellFormed
      have hina := hpair.leftIn
      have hinb := hpair.rightIn
      have heq := (hpair.equal ρ hsafe.solves).mpr heq
      have hsafe₂ : Safe lvl ρ s₂ ∧ s.next ≤ s₂.next := by
        rcases hpair.runs with ⟨s₁, hforcea, hforceb⟩
        rcases hs with ⟨d, hd⟩
        have hquiet := hpair.quiet d hd
        exact ⟨hsafe.quiet hquiet ((force_tame n a s _ s₁ hforcea).1.trans
          (force_tame n b s₁ _ s₂ hforceb).1), hquiet.next.ge⟩
      rcases hsafe₂ with ⟨hsafe, hle⟩
      apply EndsSafely.back _ hle
      have hdone : EndsSafely lvl ρ s₂ (.ok ()) s₂ fun _ _ => True :=
        ⟨fun _ _ h => (nomatch h), fun _ _ => ⟨ρ, fun _ _ => rfl, hsafe, trivial⟩⟩
      cases hcase with
      | same v =>
          cases hrun
          exact hdone
      | bindLeft v _ hne =>
          exact bind_warn_safe hs₂ (hina v List.mem_cons_self) (fun t => hpair.leftHead v t rfl)
            hinb hpair.rightHead hne hsafe heq hrun
      | bindRight _ v hvar =>
          exact bind_warn_safe hs₂ (hinb v List.mem_cons_self) (fun t => hpair.rightHead v t rfl)
            hina hpair.leftHead (hvar v) hsafe heq.symm hrun
      | con c ts₁ ts₂ hlen =>
          apply ih.forM hs₂ _ hsafe _ hrun
          · intro p hp
            rcases List.of_mem_zip hp with ⟨h₁, h₂⟩
            exact ⟨(Part.con h₁).isIn hina, (Part.con h₂).isIn hinb⟩
          · exact (evalList_eq_iff hlen).mp (Ty.con.inj heq).2
      | arr a₁ e₁ b₁ a₂ e₂ b₂ =>
          rcases Ty.arr.inj heq with ⟨heq₁, heq₂, heq₃⟩
          apply EndsSafely.then hrun
          · intro r₁ s₃ hrun₁
            exact ih s₂ a₁ a₂ ρ r₁ s₃ hs₂ (Part.dom.isIn hina) (Part.dom.isIn hinb) hsafe heq₁ hrun₁
          · intro ρ₁ s₃ hrun₁ hagree₁ hsafe₁
            have h₁ := (unify_solved sp lvl n s₂ a₁ a₂ s₃ hs₂ (Part.dom.isIn hina)
              (Part.dom.isIn hinb) hrun₁).1
            refine ⟨h₁.next, ?_⟩
            intro r₂ s₄ hrun'
            have hrowa : e₁.In s₂ := Part.row.isIn hina
            have hrowb : e₂.In s₂ := Part.row.isIn hinb
            have hcoda : b₁.In s₂ := Part.cod.isIn hina
            have hcodb : b₂.In s₂ := Part.cod.isIn hinb
            apply EndsSafely.then hrun'
            · intro r₃ s₅ hrun₂
              exact ih s₃ e₁ e₂ ρ₁ r₃ s₅ h₁.wellFormed (hrowa.mono h₁.next) (hrowb.mono h₁.next)
                hsafe₁ (Equal.local hrowa hrowb ρ ρ₁ hagree₁ heq₂) hrun₂
            · intro ρ₂ s₅ hrun₂ hagree₂ hsafe₂
              have h₂ := (unify_solved sp lvl n s₃ e₁ e₂ s₅ h₁.wellFormed (hrowa.mono h₁.next)
                (hrowb.mono h₁.next) hrun₂).1
              refine ⟨h₂.next, ?_⟩
              intro r₄ s₆ hrun₃
              have hnext := h₁.next.trans h₂.next
              have hagree : ∀ v, v < s₂.next → ρ₂ v = ρ v := fun v hv =>
                (hagree₂ v (hv.trans_le h₁.next)).trans (hagree₁ v hv)
              exact ih s₅ b₁ b₂ ρ₂ r₄ s₆ h₂.wellFormed (hcoda.mono hnext) (hcodb.mono hnext) hsafe₂
                (Equal.local hcoda hcodb ρ ρ₂ hagree heq₃) hrun₃
      | record tag row₁ row₂ =>
          apply EndsSafely.then hrun
          · intro r₁ s₃ hrun₁
            exact ih s₂ row₁ row₂ ρ r₁ s₃ hs₂ (Part.record.isIn hina) (Part.record.isIn hinb) hsafe
              (Ty.record.inj heq).2 hrun₁
          · intro ρ₁ s₃ hrun₁ _ hsafe₁
            have h₁ := (unify_solved sp lvl n s₂ row₁ row₂ s₃ hs₂ (Part.record.isIn hina)
              (Part.record.isIn hinb) hrun₁).1
            refine ⟨h₁.next, ?_⟩
            intro r₂ s₄ hwarn
            rcases h₁.wellFormed with ⟨d, hd⟩
            exact .quietly hsafe₁ (warnOnShadow_calm hd ((Part.record.isIn hina).mono h₁.next))
              (warnOnShadow_tame sp n row₁) hwarn
      | tags tag₁ tag₂ row₁ row₂ => exact .fail hrun fun _ _ h => nomatch h
      | rowEmpty =>
          cases hrun
          exact hdone
      | row l p rest _ hvar =>
          have hp : p.In s₂ := Part.payload.isIn hina
          have hr : rest.In s₂ := Part.rest.isIn hina
          rcases PartialM.bind_some hrun with ⟨o, s₃, htail, hrun⟩ | ⟨e, s₃, htail, heq'⟩
          · rcases hs₂ with ⟨d, hd⟩
            have hquiet := (rowTailRef_calm hd hr).quiet n _ s₃ htail
            have hsafe₃ := hsafe.quiet hquiet (rowTailRef_tame n rest s₂ _ s₃ htail).1
            have hs₃ : s₃.WellFormed := ⟨d, hquiet.deep⟩
            have hb₃ : b'.In s₃ := hquiet.isIn.mpr hinb
            apply EndsSafely.back _ hquiet.next.ge
            have hcatch : ∀ r₁ s₄, catchTC (rewriteRowGuarded sp lvl o l n b')
                (rowReport sp n (.rowExtend l p rest) b') s₃ = some (r₁, s₄) →
                EndsSafely lvl ρ s₃ r₁ s₄ fun e ρ' =>
                  e.1.eval ρ' = p.eval ρ ∧ e.2.eval ρ' = rest.eval ρ := by
              intro r₁ s₄ hrun₁
              apply catchTC_rowReport_safe _ hrun₁
              intro r₂ s₅ hrun₂
              exact rewriteRowGuarded_safe hs₃ hb₃ hsafe₃ heq.symm hrun₂
            rcases PartialM.bind_some hrun with ⟨⟨t', u⟩, s₄, hrun₁, hrun⟩ | ⟨e, s₄, hrun₁, heq'⟩
            · rcases rewriteRowGuarded_run hs₃ hb₃ (catchTC_rowReport_ok hrun₁) with
                ⟨_, _, heq', hrewrites, -⟩ | ⟨⟨e, heq'⟩, -⟩
              · cases heq'
                rcases (hcatch _ s₄ hrun₁).2 _ rfl with ⟨ρ₁, hagree₁, hsafe₁, hx, hy⟩
                have hp₃ : p.In s₃ := hquiet.isIn.mpr hp
                have hr₃ : rest.In s₃ := hquiet.isIn.mpr hr
                have hle₃ := hrewrites.next
                have heqp : Equal p t' ρ₁ :=
                  (eval_congr p fun v hv => hagree₁ v (hp₃ v hv)).trans hx.symm
                have heqr : Equal rest u ρ₁ :=
                  (eval_congr rest fun v hv => hagree₁ v (hr₃ v hv)).trans hy.symm
                have hends : EndsSafely lvl ρ₁ s₄ r s' fun _ _ => True := by
                  apply EndsSafely.then hrun
                  · intro r₁ s₅ hrun₂
                    exact ih s₄ p t' ρ₁ r₁ s₅ hrewrites.wellFormed (hp₃.mono hle₃)
                      hrewrites.payloadIn hsafe₁ heqp hrun₂
                  · intro ρ₂ s₅ hrun₂ hagree₂ hsafe₂
                    have h₁ := (unify_solved sp lvl n s₄ p t' s₅ hrewrites.wellFormed
                      (hp₃.mono hle₃) hrewrites.payloadIn hrun₂).1
                    refine ⟨h₁.next, ?_⟩
                    intro r₂ s₆ hrun₃
                    exact ih s₅ rest u ρ₂ r₂ s₆ h₁.wellFormed (hr₃.mono (hle₃.trans h₁.next))
                      (hrewrites.restIn.mono h₁.next) hsafe₂
                      (Equal.local (hr₃.mono hle₃) hrewrites.restIn ρ₁ ρ₂ hagree₂ heqr) hrun₃
                refine ⟨hends.1, ?_⟩
                intro x hx'
                rcases hends.2 x hx' with ⟨ρ₂, hagree₂, hsafe₂, -⟩
                exact ⟨ρ₂, fun v hv => (hagree₂ v (hv.trans_le hle₃)).trans (hagree₁ v hv), hsafe₂,
                  trivial⟩
              · cases heq'
            · cases heq'
              exact .error (hcatch _ _ hrun₁).1
          · cases heq'
            exact .error (rowTailRef_tame n rest s₂ _ _ htail).2
      | report _ _ report hreport =>
          apply EndsSafely.of_tame (reportPair_tame _ n a' b') _ hrun
          · intro ca cb sp' u heq
            rcases hreport with rfl | rfl
            · cases heq
            · cases heq
          · intro x s₃ hok
            rcases PartialM.bind_ok hok with ⟨ca, s₄, -, hok⟩
            rcases PartialM.bind_ok hok with ⟨cb, s₅, -, hok⟩
            cases hok

/-! ### Level-safe unification -/

theorem Unifier.safe (h : Unifier τ s a b) (hsafe : LevelSafe τ s)
    (hbounded : ∀ v u l k, v < s.next → s.cells v = .unbound u l k → l ≤ lvl) :
    Safe lvl (fun v => (τ v).norm) s := by
  rcases h.values with ⟨hnormal, hsolves, -⟩
  refine ⟨hnormal, hsolves, ?_, ?_, hbounded⟩
  · intro v u l k hv hcell
    rw [h.rigid v u l k hv hcell]
    rfl
  · intro v u l k hv hcell w hw u' l' k' hw' hrigid
    exact hsafe v u l k hv hcell w ((mem_vars_norm _).mp hw) u' l' k' hw' hrigid

/-- An unbound variable at a level and a rigid one at level 1. -/
def metaAndRigid (level : Int) : TCState where
  cells := fun v => if v = 0 then .unbound 0 level .star else .rigid 1 1 .star
  next := 2
  fresh := 2
  warnings := []

theorem metaAndRigid_wellFormed (level : Int) : (metaAndRigid level).WellFormed := by
  have hlink : ∀ v t, (metaAndRigid level).cells v ≠ .link t := by
    intro v t hlink
    change (if v = 0 then TVar.unbound 0 level .star else .rigid 1 1 .star) = _ at hlink
    split at hlink
    · cases hlink
    · cases hlink
  exact ⟨fun _ => 0, fun v t _ h => absurd h (hlink v t), fun v t _ h => absurd h (hlink v t)⟩

/-- The unbound variable stands for the rigid one. -/
def boundToRigid (v : Nat) : Ty := if v = 0 then .var 1 else .var v

theorem metaAndRigid_realizes (level : Int) :
    Realizes boundToRigid ((metaAndRigid level).write 0 (.link (.var 1))) := by
  constructor
  · intro v t _ hlink
    by_cases hv : v = 0
    · subst hv
      rw [write_self] at hlink
      cases hlink
      rfl
    · rw [write_ne hv] at hlink
      change (if v = 0 then TVar.unbound 0 level .star else .rigid 1 1 .star) = _ at hlink
      rw [if_neg hv] at hlink
      cases hlink
  · intro v hfree
    by_cases hv : v = 0
    · subst hv
      exact absurd (write_self _ 0 _) (hfree (.var 1) Nat.two_pos)
    · exact if_neg hv

end Wok.TypeChecking
