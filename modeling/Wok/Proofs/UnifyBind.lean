/-
Module: Wok.Proofs.UnifyBind
Purpose: Values for the variables of a state exist, and what it means that a variable
  is bound.
Imports: Wok.Proofs.UnifyState, Mathlib.Data.Finset.Card
Trusted boundary: none
Main exports: exists_solves, exists_realizes, Solved, Binds, unifyVar_binds
-/
import Mathlib.Data.Finset.Card
import Wok.Proofs.UnifyState

namespace Wok.TypeChecking

open Wok.Lib

variable {s s' s₁ s₂ : TCState} {d : Nat → Nat} {t t' u : Ty} {ρ : Nat → Ty} {v w x n m : Nat}

/-! ### Values exist -/

/-- The value of a variable by its links, with `σ` for those that have none. -/
def valueAt (s : TCState) (F : (Nat → Ty) → Ty → Ty) (σ : Nat → Ty) : Nat → Nat → Ty
  | 0, v => σ v
  | n + 1, v =>
      match s.cells v with
      | .link t => if v < s.next then F (valueAt s F σ n) t else σ v
      | _ => σ v

section Values

variable {F : (Nat → Ty) → Ty → Ty} {σ : Nat → Ty}

theorem le_depth_of_mem (t : Ty) (h : v ∈ t.vars) : d v ≤ t.depth d := by
  match t with
  | .con c ts =>
      have hlist : ∀ us : List Ty, v ∈ Ty.varsList us → ∃ u ∈ us, v ∈ u.vars := by
        intro us
        induction us with
        | nil => exact fun h => nomatch h
        | cons u us ih =>
            intro h
            rcases List.mem_append.mp h with h | h
            · exact ⟨u, List.mem_cons_self, h⟩
            · rcases ih h with ⟨u', hu', hv⟩
              exact ⟨u', List.mem_cons_of_mem u hu', hv⟩
      rcases hlist ts h with ⟨u, hu, hv⟩
      have hpart : Part u (.con c ts) := .con hu
      exact (le_depth_of_mem u hv).trans hpart.depth.le
  | .arr a r b =>
      rcases List.mem_append.mp h with h | h
      · exact (le_depth_of_mem a h).trans Part.dom.depth.le
      · rcases List.mem_append.mp h with h | h
        · exact (le_depth_of_mem r h).trans Part.row.depth.le
        · exact (le_depth_of_mem b h).trans Part.cod.depth.le
  | .record tag row => exact (le_depth_of_mem row h).trans Part.record.depth.le
  | .rowEmpty => cases h
  | .rowExtend l p rest =>
      rcases List.mem_append.mp h with h | h
      · exact (le_depth_of_mem p h).trans Part.payload.depth.le
      · exact (le_depth_of_mem rest h).trans Part.rest.depth.le
  | .var w => exact List.mem_singleton.mp h ▸ le_rfl

theorem valueAt_stable (hd : Deep d s)
    (hF : ∀ ρ ρ' t, (∀ v ∈ t.vars, ρ v = ρ' v) → F ρ t = F ρ' t) (hn : d v < n) (hm : d v < m) :
    valueAt s F σ n v = valueAt s F σ m v := by
  induction n generalizing m v with
  | zero => exact absurd hn (Nat.not_lt_zero _)
  | succ n ih =>
      cases m with
      | zero => exact absurd hm (Nat.not_lt_zero _)
      | succ m =>
          rw [valueAt, valueAt]
          cases hcell : s.cells v with
          | link t =>
              by_cases hv : v < s.next
              · simp only [hv, if_true]
                apply hF
                intro w hw
                have hlt : d w < d v := (le_depth_of_mem t hw).trans_lt (hd.depth v t hv hcell)
                exact ih (hlt.trans_le (Nat.le_of_lt_succ hn))
                  (hlt.trans_le (Nat.le_of_lt_succ hm))
              · simp only [hv, if_false]
          | unbound u l k => rfl
          | rigid u l k => rfl

theorem Deep.exists_values (hd : Deep d s)
    (hF : ∀ ρ ρ' t, (∀ v ∈ t.vars, ρ v = ρ' v) → F ρ t = F ρ' t) (σ : Nat → Ty) :
    ∃ ρ : Nat → Ty, (∀ v t, v < s.next → s.cells v = .link t → ρ v = F ρ t) ∧
      ∀ v, (∀ t, v < s.next → s.cells v ≠ .link t) → ρ v = σ v := by
  refine ⟨fun v => valueAt s F σ (d v + 1) v, ?_, ?_⟩
  · intro v t hv hcell
    change valueAt s F σ (d v + 1) v = _
    rw [valueAt, hcell]
    simp only [hv, if_true]
    apply hF
    intro w hw
    have hlt : d w < d v := (le_depth_of_mem t hw).trans_lt (hd.depth v t hv hcell)
    exact valueAt_stable hd hF hlt (Nat.lt_succ_self _)
  · intro v hfree
    change valueAt s F σ (d v + 1) v = _
    rw [valueAt]
    cases hcell : s.cells v with
    | link t =>
        by_cases hv : v < s.next
        · exact absurd hcell (hfree t hv)
        · simp only [hv, if_false]
    | unbound u l k => rfl
    | rigid u l k => rfl

end Values

/-- The variables that are not linked can be given any values. -/
theorem exists_solves (hs : s.WellFormed) (σ : Nat → Ty) :
    ∃ ρ, Solves ρ s ∧ ∀ v, (∀ t, v < s.next → s.cells v ≠ .link t) → ρ v = σ v := by
  rcases hs with ⟨d, hd⟩
  exact hd.exists_values (fun _ _ t h => eval_congr t h) σ

theorem exists_realizes (hs : s.WellFormed) : ∃ θ, Realizes θ s := by
  rcases hs with ⟨d, hd⟩
  rcases hd.exists_values (fun _ _ t h => subst_congr t h) .var with ⟨θ, hlink, hfree⟩
  exact ⟨θ, hlink, hfree⟩

theorem Realizes.solves {θ : Nat → Ty} (h : Realizes θ s) : Solves (fun v => (θ v).norm) s := by
  intro v t hv hlink
  change (θ v).norm = _
  rw [h.link v t hv hlink, norm_subst]

/-- Values that a state allows are instances of the substitution that it stands for. -/
theorem Realizes.factor {θ : Nat → Ty} (h : Realizes θ s) (hs : s.WellFormed)
    (hnormal : Normal ρ) (hρ : Solves ρ s) (v : Nat) : ((θ v).subst ρ).norm = ρ v := by
  rcases hs with ⟨d, hd⟩
  induction hk : d v using Nat.strongRecOn generalizing v with
  | ind k ih =>
      subst hk
      by_cases hlinked : ∃ t, v < s.next ∧ s.cells v = .link t
      · rcases hlinked with ⟨t, hv, hlink⟩
        rw [h.link v t hv hlink, subst_subst, norm_subst, hρ v t hv hlink]
        apply eval_congr
        intro w hw
        have hlt : d w < d v := (le_depth_of_mem t hw).trans_lt (hd.depth v t hv hlink)
        exact ih _ hlt w rfl
      · rw [h.free v fun t hv hlink => hlinked ⟨t, hv, hlink⟩]
        exact hnormal v

/-! ### Steps towards a solution -/

/-- From `s` to `s'` the equation `E` was solved and nothing else: the values that `s'`
allows are those that `s` allows and that solve it, and the new variables have
values then too. -/
structure Solved (s s' : TCState) (E : (Nat → Ty) → Prop) : Prop where
  wellFormed : s'.WellFormed
  next : s.next ≤ s'.next
  sound : ∀ ρ, Solves ρ s' → Solves ρ s ∧ E ρ
  principal : ∀ ρ, Normal ρ → Solves ρ s → E ρ →
    ∃ ρ', Normal ρ' ∧ (∀ v, v < s.next → ρ' v = ρ v) ∧ Solves ρ' s'
  rigid : ∀ v u l k, v < s.next → s.cells v = .rigid u l k → s'.cells v = .rigid u l k

/-- Only the values of the variables in use matter to the equation. -/
def Local (s : TCState) (E : (Nat → Ty) → Prop) : Prop :=
  ∀ ρ ρ', (∀ v, v < s.next → ρ' v = ρ v) → E ρ → E ρ'

section Solved

variable {E E' : (Nat → Ty) → Prop}

theorem Solved.trans (h : Solved s s₁ E) (h' : Solved s₁ s₂ E') (hlocal : Local s E') :
    Solved s s₂ fun ρ => E ρ ∧ E' ρ where
  wellFormed := h'.wellFormed
  next := h.next.trans h'.next
  sound := by
    intro ρ hρ
    rcases h'.sound ρ hρ with ⟨hρ, hE'⟩
    rcases h.sound ρ hρ with ⟨hρ, hE⟩
    exact ⟨hρ, hE, hE'⟩
  principal := by
    intro ρ hnormal hρ hE
    rcases h.principal ρ hnormal hρ hE.1 with ⟨ρ₁, hnormal₁, hagree₁, hρ₁⟩
    rcases h'.principal ρ₁ hnormal₁ hρ₁ (hlocal ρ ρ₁ hagree₁ hE.2) with ⟨ρ₂, hnormal₂, hagree₂, hρ₂⟩
    refine ⟨ρ₂, hnormal₂, ?_, hρ₂⟩
    intro v hv
    exact (hagree₂ v (hv.trans_le h.next)).trans (hagree₁ v hv)
  rigid := fun v u l k hv hcell =>
    h'.rigid v u l k (hv.trans_le h.next) (h.rigid v u l k hv hcell)

theorem Solved.imp (h : Solved s s' E) (hiff : ∀ ρ, Solves ρ s → (E ρ ↔ E' ρ)) :
    Solved s s' E' where
  wellFormed := h.wellFormed
  next := h.next
  sound := by
    intro ρ hρ
    rcases h.sound ρ hρ with ⟨hρ, hE⟩
    exact ⟨hρ, (hiff ρ hρ).mp hE⟩
  principal := fun ρ hnormal hρ hE => h.principal ρ hnormal hρ ((hiff ρ hρ).mpr hE)
  rigid := h.rigid

theorem Quiet.solved (h : Quiet d s s') : Solved s s' fun _ => True where
  wellFormed := ⟨d, h.deep⟩
  next := h.next.ge
  sound := fun ρ hρ => ⟨(h.solves ρ).mp hρ, trivial⟩
  principal := fun ρ hnormal hρ _ => ⟨ρ, hnormal, fun _ _ => rfl, (h.solves ρ).mpr hρ⟩
  rigid := fun v u l k _ hcell => h.rigid v u l k hcell

theorem Solved.after_quiet (hquiet : Quiet d s s₁) (h : Solved s₁ s' E) : Solved s s' E where
  wellFormed := h.wellFormed
  next := hquiet.next ▸ h.next
  sound := by
    intro ρ hρ
    rcases h.sound ρ hρ with ⟨hρ, hE⟩
    exact ⟨(hquiet.solves ρ).mp hρ, hE⟩
  principal := by
    intro ρ hnormal hρ hE
    rcases h.principal ρ hnormal ((hquiet.solves ρ).mpr hρ) hE with ⟨ρ', hnormal', hagree, hρ'⟩
    exact ⟨ρ', hnormal', fun v hv => hagree v (hquiet.next.symm ▸ hv), hρ'⟩
  rigid := fun v u l k hv hcell =>
    h.rigid v u l k (hquiet.next.symm ▸ hv) (hquiet.rigid v u l k hcell)

theorem Solved.before_quiet (h : Solved s s₁ E) (hquiet : Quiet d s₁ s') : Solved s s' E where
  wellFormed := ⟨d, hquiet.deep⟩
  next := hquiet.next.symm ▸ h.next
  sound := fun ρ hρ => h.sound ρ ((hquiet.solves ρ).mp hρ)
  principal := by
    intro ρ hnormal hρ hE
    rcases h.principal ρ hnormal hρ hE with ⟨ρ', hnormal', hagree, hρ'⟩
    exact ⟨ρ', hnormal', hagree, (hquiet.solves ρ').mpr hρ'⟩
  rigid := fun v u l k hv hcell => hquiet.rigid v u l k (h.rigid v u l k hv hcell)

end Solved

/-- Two types have the same value. -/
def Equal (t u : Ty) (ρ : Nat → Ty) : Prop := t.eval ρ = u.eval ρ

theorem Equal.local (ht : t.In s) (hu : u.In s) : Local s (Equal t u) := by
  intro ρ ρ' hagree heq
  change t.eval ρ' = u.eval ρ'
  rw [eval_congr t fun v hv => hagree v (ht v hv), eval_congr u fun v hv => hagree v (hu v hv)]
  exact heq

/-! ### Unbound variables -/

def TVar.IsUnbound : TVar → Bool
  | .unbound .. => true
  | _ => false

/-- The variables that are still unbound. -/
def TCState.unboundVars (s : TCState) : Finset Nat :=
  (Finset.range s.next).filter fun v => (s.cells v).IsUnbound

theorem mem_unboundVars : v ∈ s.unboundVars ↔ v < s.next ∧ (s.cells v).IsUnbound := by
  rw [TCState.unboundVars, Finset.mem_filter, Finset.mem_range]

theorem Quiet.isUnbound (h : Quiet d s s') (v : Nat) :
    (s'.cells v).IsUnbound = (s.cells v).IsUnbound := by
  cases hcell : s.cells v with
  | unbound u l k =>
      rcases h.unbound v u l k hcell with ⟨l', -, hcell'⟩
      rw [hcell']
      rfl
  | rigid u l k => rw [h.rigid v u l k hcell]
  | link t =>
      rcases h.link v t hcell with ⟨t', hcell'⟩
      rw [hcell']
      rfl

theorem Quiet.unboundVars (h : Quiet d s s') : s'.unboundVars = s.unboundVars := by
  ext v
  rw [mem_unboundVars, mem_unboundVars, h.next, h.isUnbound]

/-- Fewer variables are unbound, or nothing happened. -/
def Progress (s s' : TCState) : Prop :=
  s'.unboundVars.card < s.unboundVars.card ∨
    s'.unboundVars.card = s.unboundVars.card ∧ ∀ d, Deep d s → Quiet d s s'

theorem Progress.le (h : Progress s s') : s'.unboundVars.card ≤ s.unboundVars.card := by
  rcases h with hlt | ⟨heq, -⟩
  · exact hlt.le
  · exact heq.le

theorem Progress.trans (h : Progress s s') (h' : Progress s' s₁) : Progress s s₁ := by
  rcases h with hlt | ⟨heq, hquiet⟩
  · exact .inl (h'.le.trans_lt hlt)
  · rcases h' with hlt' | ⟨heq', hquiet'⟩
    · exact .inl (heq ▸ hlt')
    · exact .inr ⟨heq'.trans heq, fun d hd => (hquiet d hd).trans (hquiet' d (hquiet d hd).deep)⟩

theorem Progress.of_quiet (h : ∀ d, Deep d s → Quiet d s s') (hs : s.WellFormed) :
    Progress s s' := by
  rcases hs with ⟨d, hd⟩
  exact .inr ⟨congrArg Finset.card (h d hd).unboundVars, h⟩

/-! ### Kinds -/

def IsRow (t : Ty) : Prop := ∃ l p rest, t = .rowExtend l p rest

/-- The variables of types do not stand for rows. -/
def Kinded (ρ : Nat → Ty) (s : TCState) : Prop :=
  ∀ v, v < s.next → (s.cells v).kind? = some .star → ¬IsRow (ρ v)

theorem Quiet.kind (h : Quiet d s s') (v : Nat) : (s'.cells v).kind? = (s.cells v).kind? := by
  cases hcell : s.cells v with
  | unbound u l k =>
      rcases h.unbound v u l k hcell with ⟨l', -, hcell'⟩
      rw [hcell']
      rfl
  | rigid u l k => rw [h.rigid v u l k hcell]
  | link t =>
      rcases h.link v t hcell with ⟨t', hcell'⟩
      rw [hcell']
      rfl

theorem Quiet.kinded (h : Quiet d s s') : Kinded ρ s' ↔ Kinded ρ s := by
  unfold Kinded
  rw [h.next]
  simp only [h.kind]

/-- The type is for a variable of types: it never stands for a row, or it is another
variable of types. -/
def StarType (s : TCState) (x : Nat) (t : Ty) : Prop :=
  (∀ ρ, ¬IsRow (t.eval ρ)) ∨ ∃ w, t = .var w ∧ w ≠ x ∧ (s.cells w).kind? = some .star

theorem force_unlinked (hlink : ∀ t, s.cells x ≠ .link t) {r : Except Failure Ty × TCState}
    (hrun : force n (.var x) s = some r) : r = (.ok (.var x), s) := by
  cases n with
  | zero => cases hrun
  | succ n =>
      have hread : force (n + 1) (.var x) s = _ := PartialM.bind_of_ok (readRef_run x s)
      rw [hread] at hrun
      cases hcell : s.cells x with
      | link t => exact absurd hcell (hlink t)
      | unbound u l k =>
          rw [hcell] at hrun
          cases hrun
          rfl
      | rigid u l k =>
          rw [hcell] at hrun
          cases hrun
          rfl

theorem force_head (h : ∀ v, t ≠ .var v) {r : Except Failure Ty × TCState}
    (hrun : force n t s = some r) : r = (.ok t, s) := by
  cases n with
  | zero => cases hrun
  | succ n =>
      cases t with
      | var v => exact absurd rfl (h v)
      | _ =>
          cases hrun
          rfl

theorem not_isRow_eval (hvar : ∀ v, t ≠ .var v) (hrow : ∀ l p rest, t ≠ .rowExtend l p rest)
    (ρ : Nat → Ty) : ¬IsRow (t.eval ρ) := by
  rintro ⟨l, p, rest, heq⟩
  cases t with
  | var v => exact hvar v rfl
  | rowExtend l' p' rest' => exact hrow l' p' rest' rfl
  | _ => cases heq

theorem kindOf_star (hhead : ∀ v u, t = .var v → s.cells v ≠ .link u) (hne : t ≠ .var x)
    (hrun : kindOf n t s = some (.ok .star, s')) : StarType s x t := by
  cases n with
  | zero => cases hrun
  | succ n =>
      rcases PartialM.bind_ok hrun with ⟨t', s₁, hforce, hrun⟩
      cases t with
      | var w =>
          cases force_unlinked (fun u => hhead w u rfl) hforce
          refine .inr ⟨w, rfl, fun heq => hne (congrArg Ty.var heq), ?_⟩
          rcases PartialM.bind_ok hrun with ⟨tv, s₂, hread, hrun⟩
          cases hread
          cases hcell : s.cells w with
          | link u => exact absurd hcell (hhead w u rfl)
          | unbound u l k =>
              rw [hcell] at hrun
              cases hrun
              rfl
          | rigid u l k =>
              rw [hcell] at hrun
              cases hrun
              rfl
      | rowExtend l p rest =>
          cases force_head (t := .rowExtend l p rest) (fun _ h => nomatch h) hforce
          cases hrun
      | _ =>
          left
          apply not_isRow_eval
          · intro v h
            cases h
          · intro l p rest h
            cases h

/-! ### Binding a variable -/

mutual

theorem depth_congr {d d' : Nat → Nat} : ∀ t : Ty, (∀ v ∈ t.vars, d' v = d v) →
    t.depth d' = t.depth d
  | .con _ ts, h => congrArg (· + 1) (depthList_congr ts h)
  | .arr a r b, h => by
      have hb : ∀ v ∈ b.vars, d' v = d v := fun v hv =>
        h v (List.mem_append_right _ (List.mem_append_right _ hv))
      have hr : ∀ v ∈ r.vars, d' v = d v := fun v hv =>
        h v (List.mem_append_right _ (List.mem_append_left _ hv))
      rw [Ty.depth, Ty.depth, depth_congr a fun v hv => h v (List.mem_append_left _ hv),
        depth_congr r hr, depth_congr b hb]
  | .record _ row, h => congrArg (· + 1) (depth_congr row h)
  | .rowEmpty, _ => rfl
  | .rowExtend _ t rest, h => by
      rw [Ty.depth, Ty.depth, depth_congr t fun v hv => h v (List.mem_append_left _ hv),
        depth_congr rest fun v hv => h v (List.mem_append_right _ hv)]
  | .var v, h => h v List.mem_cons_self

theorem depthList_congr {d d' : Nat → Nat} : ∀ ts : List Ty,
    (∀ v ∈ Ty.varsList ts, d' v = d v) → Ty.depthList d' ts = Ty.depthList d ts
  | [], _ => rfl
  | t :: ts, h => by
      rw [Ty.depthList, Ty.depthList, depth_congr t fun v hv => h v (List.mem_append_left _ hv),
        depthList_congr ts fun v hv => h v (List.mem_append_right _ hv)]

end

mutual

theorem depth_le_add {d d' : Nat → Nat} {c : Nat} (h : ∀ v, d' v ≤ d v + c) :
    ∀ t : Ty, t.depth d' ≤ t.depth d + c
  | .con _ ts => by
      have hts := depthList_le_add h ts
      rw [Ty.depth, Ty.depth]
      omega
  | .arr a r b => by
      have ha := depth_le_add h a
      have hr := depth_le_add h r
      have hb := depth_le_add h b
      rw [Ty.depth, Ty.depth]
      omega
  | .record _ row => by
      have hrow := depth_le_add h row
      rw [Ty.depth, Ty.depth]
      omega
  | .rowEmpty => Nat.zero_le _
  | .rowExtend _ t rest => by
      have ht := depth_le_add h t
      have hrest := depth_le_add h rest
      rw [Ty.depth, Ty.depth]
      omega
  | .var v => h v

theorem depthList_le_add {d d' : Nat → Nat} {c : Nat} (h : ∀ v, d' v ≤ d v + c) :
    ∀ ts : List Ty, Ty.depthList d' ts ≤ Ty.depthList d ts + c
  | [] => Nat.zero_le _
  | t :: ts => by
      have ht := depth_le_add h t
      have hts := depthList_le_add h ts
      rw [Ty.depthList, Ty.depthList]
      omega

end

theorem solves_write (hx : ∀ t, s.cells x ≠ .link t) (hlt : x < s.next) :
    Solves ρ (s.write x (.link u)) ↔ Solves ρ s ∧ ρ x = u.eval ρ := by
  constructor
  · intro hρ
    constructor
    · intro v t hv hlink
      have hne : v ≠ x := by
        rintro rfl
        exact hx t hlink
      exact hρ v t hv ((write_ne hne).trans hlink)
    · exact hρ x u hlt (write_self s x _)
  · rintro ⟨hρ, heq⟩ v t hv hlink
    by_cases hne : v = x
    · subst hne
      rw [write_self] at hlink
      cases hlink
      exact heq
    · exact hρ v t hv ((write_ne hne).symm.trans hlink)

/-- What leads to the variable becomes deeper than what it is bound to. -/
theorem Deep.write (hd : Deep d s) (hin : u.In s) (hnot : ∀ w ∈ u.vars, ¬Reaches s x w) :
    (s.write x (.link u)).WellFormed := by
  classical
  let d' : Nat → Nat := fun v => if Reaches s x v then d v + (u.depth d + 1) else d v
  have hpos : ∀ v, Reaches s x v → d' v = d v + (u.depth d + 1) := fun v h => if_pos h
  have hneg : ∀ v, ¬Reaches s x v → d' v = d v := fun v h => if_neg h
  have hle : ∀ v, d' v ≤ d v + (u.depth d + 1) := by
    intro v
    by_cases hreach : Reaches s x v
    · exact (hpos v hreach).le
    · exact (hneg v hreach).le.trans (Nat.le_add_right _ _)
  refine ⟨d', ?_, ?_⟩
  · intro v t hv hlink
    by_cases hne : v = x
    · subst hne
      rw [write_self] at hlink
      cases hlink
      exact hin
    · exact hd.linksIn v t hv ((write_ne hne).symm.trans hlink)
  · intro v t hv hlink
    by_cases hne : v = x
    · subst hne
      rw [write_self] at hlink
      cases hlink
      rw [hpos v .refl, depth_congr u fun w hw => hneg w (hnot w hw)]
      omega
    · have hlink' : s.cells v = .link t := (write_ne hne).symm.trans hlink
      have hdepth := hd.depth v t hv hlink'
      by_cases hreach : Reaches s x v
      · have ht := depth_le_add hle t
        rw [hpos v hreach]
        omega
      · have hvars : ∀ w ∈ t.vars, d' w = d w := fun w hw =>
          hneg w fun h => hreach (.link v t w hv hlink' hw h)
        rw [hneg v hreach, depth_congr t hvars]
        exact hdepth

/-- The unbound variable `x` was bound to `u`. -/
structure Binds (s : TCState) (x : Nat) (u : Ty) (s' : TCState) : Prop where
  lt : x < s.next
  unbound : (s.cells x).IsUnbound
  isIn : u.In s
  kind : (s.cells x).kind? = some .star → StarType s x u
  before : ∃ s₁, (∀ d, Deep d s → Quiet d s s₁) ∧ (∀ w ∈ u.vars, ¬Reaches s₁ x w) ∧
    s' = s₁.write x (.link u)

theorem not_link_of_unbound {tv : TVar} (h : tv.IsUnbound) (t : Ty) : tv ≠ .link t := by
  rintro rfl
  cases h

theorem Quiet.not_link (h : Quiet d s s') (hv : ∀ t, s.cells v ≠ .link t) (t : Ty) :
    s'.cells v ≠ .link t := by
  intro hlink
  rcases (h.linked v).mp ⟨t, hlink⟩ with ⟨u, hu⟩
  exact hv u hu

theorem Binds.solved (h : Binds s x u s') (hs : s.WellFormed) :
    Solved s s' fun ρ => ρ x = u.eval ρ := by
  rcases hs with ⟨d, hd⟩
  rcases h.before with ⟨s₁, hquiet, hnot, rfl⟩
  have hquiet := hquiet d hd
  have hx := hquiet.not_link (not_link_of_unbound h.unbound)
  have hlt : x < s₁.next := hquiet.next.symm ▸ h.lt
  apply Solved.after_quiet hquiet
  constructor
  · exact hquiet.deep.write (hquiet.isIn.mpr h.isIn) hnot
  · exact le_rfl
  · intro ρ hρ
    exact (solves_write hx hlt).mp hρ
  · intro ρ hnormal hρ heq
    exact ⟨ρ, hnormal, fun _ _ => rfl, (solves_write hx hlt).mpr ⟨hρ, heq⟩⟩
  · intro v u' l k hv hcell
    have hne : v ≠ x := by
      rintro rfl
      have hunbound := h.unbound
      rw [← hquiet.isUnbound v, hcell] at hunbound
      cases hunbound
    exact (write_ne hne).trans hcell

/-- Values that have the kinds after have them before. -/
theorem Binds.kinded (h : Binds s x u s') (hs : s.WellFormed) (hρ : Solves ρ s')
    (hkinded : Kinded ρ s') : Kinded ρ s := by
  have hvalue := ((h.solved hs).sound ρ hρ).2
  rcases hs with ⟨d, hd⟩
  rcases h.before with ⟨s₁, hquiet, -, rfl⟩
  have hquiet := hquiet d hd
  have hold : ∀ v, v < s.next → v ≠ x → (s.cells v).kind? = some .star → ¬IsRow (ρ v) := by
    intro v hv hne hkind
    apply hkinded v (hquiet.next.symm ▸ hv)
    rw [write_ne hne, hquiet.kind, hkind]
  intro v hv hkind
  by_cases hne : v = x
  · subst hne
    rw [hvalue]
    rcases h.kind hkind with hrow | ⟨w, rfl, hne, hkind'⟩
    · exact hrow ρ
    · exact hold w (h.isIn w List.mem_cons_self) hne hkind'
  · exact hold v hv hne hkind

theorem Binds.next (h : Binds s x u s') (hs : s.WellFormed) : s'.next = s.next := by
  rcases hs with ⟨d, hd⟩
  rcases h.before with ⟨s₁, hquiet, -, rfl⟩
  exact (hquiet d hd).next

theorem Binds.unboundVars (h : Binds s x u s') (hs : s.WellFormed) :
    s'.unboundVars = s.unboundVars.erase x := by
  rcases hs with ⟨d, hd⟩
  rcases h.before with ⟨s₁, hquiet, -, rfl⟩
  rw [← (hquiet d hd).unboundVars]
  ext v
  rw [Finset.mem_erase, mem_unboundVars, mem_unboundVars, write_next]
  by_cases hv : v = x
  · subst hv
    rw [write_self]
    simp [TVar.IsUnbound]
  · rw [write_ne hv]
    simp [hv]

theorem Binds.card (h : Binds s x u s') (hs : s.WellFormed) :
    s'.unboundVars.card + 1 = s.unboundVars.card := by
  rw [h.unboundVars hs]
  exact Finset.card_erase_add_one (mem_unboundVars.mpr ⟨h.lt, h.unbound⟩)

theorem Binds.content (h : Binds s x u s') (hs : s.WellFormed) (hv : v < s'.next)
    (hlink : s'.cells v = .link t) : t = u ∨ ∃ w, w < s.next ∧ s.cells w = .link t := by
  rw [h.next hs] at hv
  rcases hs with ⟨d, hd⟩
  rcases h.before with ⟨s₁, hquiet, -, rfl⟩
  by_cases hne : v = x
  · subst hne
    rw [write_self] at hlink
    cases hlink
    exact .inl rfl
  · exact .inr ((hquiet d hd).content v t hv ((write_ne hne).symm.trans hlink))

theorem Binds.not_link (h : Binds s x u s') (hs : s.WellFormed) (hne : v ≠ x)
    (hv : ∀ t, s.cells v ≠ .link t) (t : Ty) : s'.cells v ≠ .link t := by
  rcases hs with ⟨d, hd⟩
  rcases h.before with ⟨s₁, hquiet, -, rfl⟩
  rw [write_ne hne]
  exact (hquiet d hd).not_link hv t

/-- What an equation between an unlinked variable and a forced type does when it ends
well: the variable is bound, or, if it is rigid, the type is an unbound variable and
is bound to it. -/
def BindsOne (s : TCState) (x : Nat) (t : Ty) (s' : TCState) : Prop :=
  Binds s x t s' ∨ ∃ v, t = .var v ∧ Binds s v (.var x) s'

section UnifyVar

variable {sp : SourceSpan}

/-- A computation that fails and binds nothing. -/
def FailsQuietly {α : Type} (s : TCState) (r : Except Failure α) (s' : TCState) : Prop :=
  (∃ e, r = .error e) ∧ ∀ d, Deep d s → Quiet d s s'

theorem FailsQuietly.fail {α : Type} {e : Failure} {r : Except Failure α}
    (heq : some (.error e, s) = some (r, s')) : FailsQuietly s r s' := by
  cases heq
  exact ⟨⟨e, rfl⟩, fun d hd => .refl hd⟩

theorem FailsQuietly.of_calm {α : Type} {f : Nat → TC α} {r : Except Failure α}
    (hs : s.WellFormed) (hcalm : ∀ d, Deep d s → Calm d (fun _ _ => False) f s)
    (hrun : f n s = some (r, s')) : FailsQuietly s r s' := by
  constructor
  · rcases hs with ⟨d, hd⟩
    cases r with
    | error e => exact ⟨e, rfl⟩
    | ok a => exact ((hcalm d hd).result n a s' hrun).elim
  · intro d hd
    exact (hcalm d hd).quiet n r s' hrun

theorem FailsQuietly.after_quiet {α : Type} {r : Except Failure α}
    (hquiet : ∀ d, Deep d s → Quiet d s s₁) (h : FailsQuietly s₁ r s') : FailsQuietly s r s' :=
  ⟨h.1, fun d hd => (hquiet d hd).trans (h.2 d (hquiet d hd).deep)⟩

theorem var_isIn (hx : x < s.next) : (Ty.var x).In s := by
  intro w hw
  rcases List.mem_singleton.mp hw with rfl
  exact hx

/-- The report of two kinds that differ. -/
theorem kindReport_calm {freezer : Nat → Ty → TC CType}
    (hfreezer : ∀ {d s t}, Deep d s → t.In s → Calm d (fun _ _ => True) (freezer · t) s)
    (hd : Deep d s) (ht : t.In s) (hu : u.In s) :
    Calm d (fun _ _ => False) (fun n => freezer n t >>= fun ca => freezer n u >>= fun cb =>
      (throwTC (.kindMismatch sp ca cb) : TC Unit)) s := by
  apply Calm.bind (hfreezer hd ht)
  intro ca s₁ hquiet _
  apply Calm.bind (hfreezer hquiet.deep (hquiet.isIn.mpr hu))
  intro cb s₂ hquiet' _
  exact .fail hquiet'.deep

theorem rigidUnify_run {uniq : Nat} {l : Int} {k : Kind} {r : Except Failure Unit}
    (hs : s.WellFormed) (hx : x < s.next) (hrigid : s.cells x = .rigid uniq l k) (ht : t.In s)
    (hne : t ≠ .var x) (hrun : rigidUnify sp n x uniq l k t s = some (r, s')) :
    r = .ok () ∧ BindsOne s x t s' ∨ FailsQuietly s r s' := by
  cases t with
  | var v =>
      have hv : v < s.next := ht v List.mem_cons_self
      have hvx : v ≠ x := fun heq => hne (congrArg Ty.var heq)
      rw [rigidUnify, if_neg hvx, PartialM.bind_of_ok (readRef_run v s)] at hrun
      cases hcell : s.cells v with
      | link t => exact .inr (.fail (hcell ▸ hrun))
      | rigid u l' k' => exact .inr (.fail (hcell ▸ hrun))
      | unbound u l' k' =>
          rw [hcell] at hrun
          by_cases hk : k' ≠ k
          · simp only [if_pos hk] at hrun
            exact .inr (.of_calm hs (fun d hd => kindReport_calm freezeTolerant_calm hd
              (var_isIn hx) ht) hrun)
          · simp only [if_neg hk] at hrun
            by_cases hl : l' < l
            · simp only [if_pos hl] at hrun
              exact .inr (.fail hrun)
            · simp only [if_neg hl] at hrun
              cases hrun
              refine .inl ⟨rfl, .inr ⟨v, rfl, hv, ?_, var_isIn hx, ?_, s, fun d hd => .refl hd, ?_,
                rfl⟩⟩
              · rw [hcell]
                rfl
              · intro hkind
                refine .inr ⟨x, rfl, hvx.symm, ?_⟩
                rw [hcell] at hkind
                rw [hrigid, ← hkind]
                exact congrArg some (not_not.mp hk).symm
              · intro w hw
                rcases List.mem_singleton.mp hw with rfl
                exact not_reaches hvx.symm fun t ht => nomatch hrigid.symm.trans ht
  | _ => exact .inr (.fail hrun)

theorem unifyVar_run {r : Except Failure Unit} (hs : s.WellFormed) (hx : x < s.next)
    (hlink : ∀ t, s.cells x ≠ .link t) (ht : t.In s)
    (hhead : ∀ v u, t = .var v → s.cells v ≠ .link u) (hne : t ≠ .var x)
    (hrun : unifyVar sp n x t s = some (r, s')) :
    r = .ok () ∧ BindsOne s x t s' ∨ FailsQuietly s r s' := by
  rw [unifyVar, PartialM.bind_of_ok (readRef_run x s)] at hrun
  cases hcell : s.cells x with
  | link t => exact absurd hcell (hlink t)
  | rigid u l k =>
      rw [hcell] at hrun
      exact rigidUnify_run hs hx hcell ht hne hrun
  | unbound u l k =>
      rw [hcell] at hrun
      rcases PartialM.bind_some hrun with ⟨tk, s₁, hkind, hrest⟩ | ⟨e, s₁, hkind, heq⟩
      · have hquiet : ∀ d, Deep d s → Quiet d s s₁ := fun d hd =>
          (kindOf_calm hd ht).quiet n _ s₁ hkind
        have hs₁ : s₁.WellFormed := by
          rcases hs with ⟨d, hd⟩
          exact ⟨d, (hquiet d hd).deep⟩
        have hin₁ : ∀ {u : Ty}, u.In s → u.In s₁ := by
          rcases hs with ⟨d, hd⟩
          exact (hquiet d hd).isIn.mpr
        by_cases hk : k ≠ tk
        · simp only [if_pos hk] at hrest
          right
          apply FailsQuietly.after_quiet hquiet
          exact .of_calm hs₁ (fun d hd => kindReport_calm freeze_calm hd (hin₁ (var_isIn hx))
            (hin₁ ht)) hrest
        · simp only [if_neg hk] at hrest
          rcases PartialM.bind_some hrest with ⟨_, s₂, hadjust, hwrite⟩ | ⟨e, s₂, hadjust, heq⟩
          · cases hwrite
            rcases occursAdjust_checks n t s₁ _ s₂ hadjust with ⟨hadj, hnot⟩
            refine .inl ⟨rfl, .inl ⟨hx, ?_, ht, ?_, s₂, ?_, ?_, rfl⟩⟩
            · rw [hcell]
              rfl
            · intro hkind'
              rw [hcell] at hkind'
              cases hkind'
              cases not_not.mp hk
              exact kindOf_star hhead hne hkind
            · intro d hd
              exact (hquiet d hd).trans (hadj.quiet (hquiet d hd).deep)
            · intro w hw hreach
              exact hnot rfl w hw (hadj.reaches.mp hreach)
          · cases heq
            right
            apply FailsQuietly.after_quiet hquiet
            refine ⟨⟨e, rfl⟩, ?_⟩
            intro d hd
            exact (occursAdjust_checks n t s₁ _ _ hadjust).1.quiet hd
      · cases heq
        exact .inr ⟨⟨e, rfl⟩, fun d hd => (kindOf_calm hd ht).quiet n _ _ hkind⟩

theorem rigidUnify_halts {uniq : Nat} {l : Int} {k : Kind} (hs : s.WellFormed) (hx : x < s.next)
    (ht : t.In s) : Halts (fun n => rigidUnify sp n x uniq l k t) s := by
  rcases hs with ⟨d, hd⟩
  cases t with
  | var v =>
      by_cases hvx : v = x
      · simp only [rigidUnify, if_pos hvx]
        exact .const rfl
      · simp only [rigidUnify, if_neg hvx]
        apply Halts.bind (.const rfl)
        intro n tv s' hrun
        cases hrun
        cases s.cells v with
        | link t => exact .const rfl
        | rigid u l' k' => exact .const rfl
        | unbound u l' k' =>
            by_cases hk : k' ≠ k
            · simp only [if_pos hk]
              exact (kindReport_calm freezeTolerant_calm hd (var_isIn hx) ht).halts
            · simp only [if_neg hk]
              by_cases hl : l' < l
              · simp only [if_pos hl]
                exact .const rfl
              · simp only [if_neg hl]
                exact .const rfl
  | _ => exact .const rfl

theorem unifyVar_halts (hs : s.WellFormed) (hx : x < s.next) (ht : t.In s) :
    Halts (fun n => unifyVar sp n x t) s := by
  apply Halts.bind (.const rfl)
  intro n tv s' hrun
  cases hrun
  cases s.cells x with
  | link t => exact .const rfl
  | rigid u l k => exact rigidUnify_halts hs hx ht
  | unbound u l k =>
      rcases hs with ⟨d, hd⟩
      apply Halts.bind (kindOf_calm hd ht).halts
      intro n tk s₁ hkind
      have hquiet := (kindOf_calm hd ht).quiet n _ s₁ hkind
      by_cases hk : k ≠ tk
      · simp only [if_pos hk]
        exact (kindReport_calm freeze_calm hquiet.deep (hquiet.isIn.mpr (var_isIn hx))
          (hquiet.isIn.mpr ht)).halts
      · simp only [if_neg hk]
        apply Halts.bind (occursAdjust_halts hquiet.deep (hquiet.isIn.mpr ht)).halts
        intro n _ s₂ _
        exact .const rfl

end UnifyVar

end Wok.TypeChecking
