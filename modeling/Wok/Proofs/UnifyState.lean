/-
Module: Wok.Proofs.UnifyState
Purpose: What the reading operations do to the type variables: they bind none.
Imports: Wok.Proofs.Rows, Wok.Proofs.UnifyFuel
Trusted boundary: none
Main exports: Solves, Quiet, Forces, force_forces, freeze_quiet, occursAdjust_adjusts
-/
import Wok.Proofs.Rows
import Wok.Proofs.UnifyFuel

namespace Wok.TypeChecking

open Wok.Lib

variable {s s' s₁ s₂ : TCState} {d : Nat → Nat} {t t' u : Ty} {ρ : Nat → Ty} {v w n : Nat}

/-! ### Values that a state allows -/

/-- A way to give types values, by those of the variables. -/
structure Reading where
  value : (Nat → Ty) → Ty → Ty
  var : ∀ ρ v, value ρ (.var v) = ρ v

def Reading.eval : Reading := ⟨fun ρ t => t.eval ρ, fun _ _ => rfl⟩

def Reading.subst : Reading := ⟨Ty.subst, fun _ _ => rfl⟩

/-- The values agree with the links of the state, by a reading. -/
def SolvesBy (F : Reading) (ρ : Nat → Ty) (s : TCState) : Prop :=
  ∀ v t, v < s.next → s.cells v = .link t → ρ v = F.value ρ t

/-- The values agree with the links of the state. -/
def Solves (ρ : Nat → Ty) (s : TCState) : Prop :=
  ∀ v t, v < s.next → s.cells v = .link t → ρ v = t.eval ρ

/-- The values agree with the links of the variables that are no deeper than `n`. -/
def SolvesTo (F : Reading) (d : Nat → Nat) (n : Nat) (ρ : Nat → Ty) (s : TCState) : Prop :=
  ∀ v t, v < s.next → d v ≤ n → s.cells v = .link t → ρ v = F.value ρ t

theorem SolvesBy.to {F : Reading} (h : SolvesBy F ρ s) (d : Nat → Nat) (n : Nat) :
    SolvesTo F d n ρ s :=
  fun v t hv _ hlink => h v t hv hlink

/-- No variable was bound from `s` to `s'`. Levels may be lower and links may be
shorter. -/
structure Quiet (d : Nat → Nat) (s s' : TCState) : Prop where
  next : s'.next = s.next
  unbound : ∀ v u l k, s.cells v = .unbound u l k → ∃ l', l' ≤ l ∧ s'.cells v = .unbound u l' k
  rigid : ∀ v u l k, s.cells v = .rigid u l k → s'.cells v = .rigid u l k
  link : ∀ v t, s.cells v = .link t → ∃ t', s'.cells v = .link t'
  content : ∀ v t, v < s.next → s'.cells v = .link t → ∃ w, w < s.next ∧ s.cells w = .link t
  deep : Deep d s'
  values : ∀ F ρ, SolvesBy F ρ s' ↔ SolvesBy F ρ s

theorem Quiet.solves (h : Quiet d s s') (ρ : Nat → Ty) : Solves ρ s' ↔ Solves ρ s :=
  h.values .eval ρ

theorem Quiet.refl (h : Deep d s) : Quiet d s s where
  next := rfl
  unbound := fun _ _ l _ h => ⟨l, le_rfl, h⟩
  rigid := fun _ _ _ _ h => h
  link := fun _ t h => ⟨t, h⟩
  content := fun v _ hv h => ⟨v, hv, h⟩
  deep := h
  values := fun _ _ => Iff.rfl

theorem Quiet.trans (h : Quiet d s s') (h' : Quiet d s' s₁) : Quiet d s s₁ where
  next := h'.next.trans h.next
  unbound := by
    intro v u l k hv
    rcases h.unbound v u l k hv with ⟨l₁, hle, hv⟩
    rcases h'.unbound v u l₁ k hv with ⟨l₂, hle', hv⟩
    exact ⟨l₂, hle'.trans hle, hv⟩
  rigid := fun v u l k hv => h'.rigid v u l k (h.rigid v u l k hv)
  link := by
    intro v t hv
    rcases h.link v t hv with ⟨t₁, hv⟩
    exact h'.link v t₁ hv
  content := by
    intro v t hv hlink
    rcases h'.content v t (h.next.symm ▸ hv) hlink with ⟨w, hw, hlink⟩
    exact h.content w t (h.next ▸ hw) hlink
  deep := h'.deep
  values := fun F ρ => (h'.values F ρ).trans (h.values F ρ)

theorem Quiet.isIn (h : Quiet d s s') : t.In s' ↔ t.In s := by
  unfold Ty.In
  rw [h.next]

/-- Whether a variable is linked does not change. -/
theorem Quiet.linked (h : Quiet d s s') (v : Nat) :
    (∃ t, s'.cells v = .link t) ↔ ∃ t, s.cells v = .link t := by
  constructor
  · rintro ⟨t, ht⟩
    cases hv : s.cells v with
    | link t => exact ⟨t, rfl⟩
    | unbound u l k =>
        rcases h.unbound v u l k hv with ⟨l', -, hv'⟩
        rw [ht] at hv'
        cases hv'
    | rigid u l k =>
        have hv' := h.rigid v u l k hv
        rw [ht] at hv'
        cases hv'
  · rintro ⟨t, ht⟩
    exact h.link v t ht

/-! ### Following links -/

theorem readRef_run (v : Nat) (s : TCState) : readRef v s = some (.ok (s.cells v), s) := rfl

def TCState.write (s : TCState) (v : Nat) (tv : TVar) : TCState :=
  { s with cells := fun i => if i = v then tv else s.cells i }

theorem writeRef_run (v : Nat) (tv : TVar) (s : TCState) :
    writeRef v tv s = some (.ok (), s.write v tv) := rfl

@[simp] theorem write_self (s : TCState) (v : Nat) (tv : TVar) : (s.write v tv).cells v = tv :=
  if_pos rfl

theorem write_ne {tv : TVar} (h : w ≠ v) : (s.write v tv).cells w = s.cells w := if_neg h

@[simp] theorem write_next (s : TCState) (v : Nat) (tv : TVar) : (s.write v tv).next = s.next :=
  rfl

/-- What `force` does with a type. -/
structure Forces (d : Nat → Nat) (s : TCState) (t : Ty) (s' : TCState) (t' : Ty) : Prop where
  quiet : Quiet d s s'
  head : ∀ v u, t' = .var v → s'.cells v ≠ .link u
  depth : t'.depth d ≤ t.depth d
  value : ∀ F ρ, SolvesTo F d (t.depth d) ρ s' → F.value ρ t' = F.value ρ t
  above : ∀ v, t.depth d < d v → s'.cells v = s.cells v
  isIn : t'.In s
  content : t' = t ∨ ∃ w, w < s.next ∧ s.cells w = .link t'

theorem Forces.of_head (hd : Deep d s) (ht : t.In s) (h : ∀ v u, t = .var v → s.cells v ≠ .link u) :
    Forces d s t s t :=
  ⟨.refl hd, h, le_rfl, fun _ _ _ => rfl, fun _ _ => rfl, ht, .inl rfl⟩

/-- A link that is made shorter. -/
theorem Quiet.shorten (h : Quiet d s s₁) (hv : v < s.next) (hlink : s.cells v = .link t)
    (hforces : Forces d s t s₁ t') (hdepth : t.depth d < d v) :
    Quiet d s (s₁.write v (.link t')) := by
  have hself : s₁.cells v = .link t := (hforces.above v hdepth).trans hlink
  have hne : ∀ w, d w ≤ t.depth d → (s₁.write v (.link t')).cells w = s₁.cells w := by
    intro w hw
    apply write_ne
    rintro rfl
    exact absurd hw (not_le.mpr hdepth)
  constructor
  · exact h.next
  · intro w u l k hw
    rcases h.unbound w u l k hw with ⟨l', hle, hw'⟩
    refine ⟨l', hle, ?_⟩
    rw [write_ne, hw']
    rintro rfl
    rw [hlink] at hw
    cases hw
  · intro w u l k hw
    rw [write_ne, h.rigid w u l k hw]
    rintro rfl
    rw [hlink] at hw
    cases hw
  · intro w t₀ hw
    by_cases heq : w = v
    · subst heq
      exact ⟨t', write_self s₁ w _⟩
    · rw [write_ne heq]
      exact h.link w t₀ hw
  · intro w t₀ hw hw'
    by_cases heq : w = v
    · subst heq
      rw [write_self] at hw'
      cases hw'
      rcases hforces.content with rfl | hcontent
      · exact ⟨w, hv, hlink⟩
      · exact hcontent
    · rw [write_ne heq] at hw'
      exact h.content w t₀ hw hw'
  · constructor
    · intro w t₀ hw hw'
      have hw : w < s₁.next := hw
      by_cases heq : w = v
      · subst heq
        rw [write_self] at hw'
        cases hw'
        intro x hx
        exact h.next.symm ▸ hforces.isIn x hx
      · rw [write_ne heq] at hw'
        exact h.deep.linksIn w t₀ hw hw'
    · intro w t₀ hw hw'
      by_cases heq : w = v
      · subst heq
        rw [write_self] at hw'
        cases hw'
        exact hforces.depth.trans_lt hdepth
      · rw [write_ne heq] at hw'
        exact h.deep.depth w t₀ hw hw'
  · intro F ρ
    have hv₁ : v < s₁.next := h.next.symm ▸ hv
    rw [← h.values F ρ]
    constructor
    · intro hρ w t₀ hw hw'
      by_cases heq : w = v
      · subst heq
        rw [hself] at hw'
        cases hw'
        have hto : SolvesTo F d (t.depth d) ρ s₁ := by
          intro x t₁ hx hdx hx'
          exact hρ x t₁ hx ((hne x hdx).trans hx')
        rw [hρ w t' hw (write_self s₁ w _), hforces.value F ρ hto]
      · exact hρ w t₀ hw ((write_ne heq).trans hw')
    · intro hρ w t₀ hw hw'
      by_cases heq : w = v
      · subst heq
        rw [write_self] at hw'
        cases hw'
        rw [hρ w t hv₁ hself, hforces.value F ρ (hρ.to d _)]
      · rw [write_ne heq] at hw'
        exact hρ w t₀ hw hw'

theorem force_forces (hd : Deep d s) (ht : t.In s) {r : Except Failure Ty × TCState}
    (hrun : force n t s = some r) : ∃ t' s', r = (.ok t', s') ∧ Forces d s t s' t' := by
  induction n generalizing t r with
  | zero => cases hrun
  | succ n ih =>
      cases t with
      | var v =>
          have hv : v < s.next := ht v List.mem_cons_self
          have hread : force (n + 1) (.var v) s = _ := PartialM.bind_of_ok (readRef_run v s)
          rw [hread] at hrun
          cases hcell : s.cells v with
          | unbound u l k =>
              rw [hcell] at hrun
              cases hrun
              refine ⟨_, _, rfl, .of_head hd ht ?_⟩
              intro w u heq
              cases heq
              rw [hcell]
              exact fun h => nomatch h
          | rigid u l k =>
              rw [hcell] at hrun
              cases hrun
              refine ⟨_, _, rfl, .of_head hd ht ?_⟩
              intro w u heq
              cases heq
              rw [hcell]
              exact fun h => nomatch h
          | link t₀ =>
              rw [hcell] at hrun
              have hdepth := hd.depth v t₀ hv hcell
              rcases PartialM.bind_some hrun with ⟨t', s₁, hforce, hrest⟩ | ⟨e, s₁, hforce, -⟩
              · rcases ih (hd.linksIn v t₀ hv hcell) hforce with ⟨t'', s₁', heq, hforces⟩
                cases heq
                cases hrest
                have hquiet := hforces.quiet.shorten hv hcell hforces hdepth
                refine ⟨t', _, rfl, hquiet, ?_, ?_, ?_, ?_, hforces.isIn, ?_⟩
                · intro w u heq
                  by_cases hw : w = v
                  · subst hw
                    have hle := hforces.depth
                    rw [heq] at hle
                    exact absurd hle (not_le.mpr hdepth)
                  · change (s₁.write v (.link t')).cells w ≠ _
                    rw [write_ne hw]
                    exact hforces.head w u heq
                · exact hforces.depth.trans hdepth.le
                · intro F ρ hρ
                  have hself : (s₁.write v (.link t')).cells v = .link t' := write_self s₁ v _
                  rw [F.var]
                  exact (hρ v t' (hforces.quiet.next.symm ▸ hv) le_rfl hself).symm
                · intro w hw
                  have hw : d v < d w := hw
                  have hne : w ≠ v := by
                    rintro rfl
                    exact lt_irrefl _ hw
                  exact (write_ne hne).trans (hforces.above w (hdepth.trans hw))
                · rcases hforces.content with rfl | hcontent
                  · exact .inr ⟨v, hv, hcell⟩
                  · exact .inr hcontent
              · rcases ih (hd.linksIn v t₀ hv hcell) hforce with ⟨t'', s₁', heq, -⟩
                cases heq
      | _ =>
          cases hrun
          exact ⟨_, _, rfl, .of_head hd ht fun _ _ h => nomatch h⟩

/-! ### Computations that bind no variable -/

/-- With the depths `d`, the computation ends, binds no variable, and gives results with
`P`. -/
structure Calm {α : Type} (d : Nat → Nat) (P : α → TCState → Prop) (x : Nat → TC α)
    (s : TCState) : Prop where
  quiet : ∀ n r s', x n s = some (r, s') → Quiet d s s'
  result : ∀ n a s', x n s = some (.ok a, s') → P a s'
  halts : Halts x s

section Calm

variable {α β : Type} {P P' : α → TCState → Prop} {Q : β → TCState → Prop} {x y : Nat → TC α}
  {f : Nat → α → TC β} {a : α}

theorem Calm.run {z : TC α} {r : Except Failure α} (hrun : z s = some (r, s'))
    (hquiet : Quiet d s s') (h : ∀ a, r = .ok a → P a s') : Calm d P (fun _ => z) s where
  quiet := by
    intro n r' s₁ hrun'
    rw [hrun] at hrun'
    cases hrun'
    exact hquiet
  result := by
    intro n a s₁ hrun'
    rw [hrun] at hrun'
    cases hrun'
    exact h a rfl
  halts := ⟨0, _, fun _ _ => hrun⟩

theorem Calm.pure (hd : Deep d s) (h : P a s) : Calm d P (fun _ => Pure.pure a) s := by
  apply Calm.run rfl (.refl hd)
  intro b heq
  cases heq
  exact h

theorem Calm.fail {e : Failure} (hd : Deep d s) : Calm d P (fun _ s => some (.error e, s)) s :=
  .run rfl (.refl hd) fun _ heq => nomatch heq

theorem Calm.readRef (hd : Deep d s) :
    Calm d (fun tv s' => s' = s ∧ tv = s.cells v) (fun _ => readRef v) s := by
  apply Calm.run (readRef_run v s) (.refl hd)
  intro tv heq
  cases heq
  exact ⟨rfl, rfl⟩

theorem Calm.imp (h : Calm d P x s) (himp : ∀ a s', Quiet d s s' → P a s' → P' a s') :
    Calm d P' x s where
  quiet := h.quiet
  result := fun n a s' hrun => himp a s' (h.quiet n _ s' hrun) (h.result n a s' hrun)
  halts := h.halts

theorem Calm.bind (h : Calm d P x s)
    (hnext : ∀ a s', Quiet d s s' → P a s' → Calm d Q (f · a) s') :
    Calm d Q (fun n => x n >>= f n) s where
  quiet := by
    intro n r s' hrun
    rcases PartialM.bind_some hrun with ⟨a, s₁, hrun₁, hrun₂⟩ | ⟨e, s₁, hrun₁, heq⟩
    · have hquiet := h.quiet n _ s₁ hrun₁
      exact hquiet.trans ((hnext a s₁ hquiet (h.result n a s₁ hrun₁)).quiet n r s' hrun₂)
    · cases heq
      exact h.quiet n _ _ hrun₁
  result := by
    intro n b s' hrun
    rcases PartialM.bind_ok hrun with ⟨a, s₁, hrun₁, hrun₂⟩
    exact (hnext a s₁ (h.quiet n _ s₁ hrun₁) (h.result n a s₁ hrun₁)).result n b s' hrun₂
  halts := by
    apply Halts.bind h.halts
    intro n a s' hrun
    exact (hnext a s' (h.quiet n _ s' hrun) (h.result n a s' hrun)).halts

theorem Calm.succ (hzero : x 0 = outOfFuel) (h : Calm d P (fun n => x (n + 1)) s) :
    Calm d P x s where
  quiet := by
    intro n r s' hrun
    cases n with
    | zero =>
        rw [hzero] at hrun
        cases hrun
    | succ n => exact h.quiet n r s' hrun
  result := by
    intro n a s' hrun
    cases n with
    | zero =>
        rw [hzero] at hrun
        cases hrun
    | succ n => exact h.result n a s' hrun
  halts := h.halts.succ

theorem Calm.ite {c : Prop} [Decidable c] (h : c → Calm d P x s) (h' : ¬c → Calm d P y s) :
    Calm d P (fun n => if c then x n else y n) s := by
  by_cases hc : c
  · simpa only [hc, if_true] using h hc
  · simpa only [hc, if_false] using h' hc

theorem Calm.mapM {ι : Type} {g : Nat → ι → TC α} {is : List ι} (hd : Deep d s)
    (h : ∀ i ∈ is, ∀ s', Quiet d s s' → Calm d (fun _ _ => True) (g · i) s') :
    Calm d (fun _ _ => True) (fun n => is.mapM (g n)) s := by
  induction is generalizing s with
  | nil => exact .pure hd trivial
  | cons i is ih =>
      simp only [List.mapM_cons]
      apply Calm.bind (h i List.mem_cons_self s (.refl hd))
      intro a s₁ hquiet _
      apply Calm.bind (P := fun _ _ => True)
      · apply ih hquiet.deep
        intro j hj s' hquiet'
        exact h j (List.mem_cons_of_mem i hj) s' (hquiet.trans hquiet')
      · intro as s₂ hquiet' _
        exact .pure hquiet'.deep trivial

theorem Calm.forM {ι : Type} {g : Nat → ι → TC Unit} {is : List ι} (hd : Deep d s)
    (h : ∀ i ∈ is, ∀ s', Quiet d s s' → Calm d (fun _ _ => True) (g · i) s') :
    Calm d (fun _ _ => True) (fun n => is.forM (g n)) s := by
  induction is generalizing s with
  | nil => exact .pure hd trivial
  | cons i is ih =>
      apply Calm.bind (h i List.mem_cons_self s (.refl hd))
      intro a s₁ hquiet _
      apply ih hquiet.deep
      intro j hj s' hquiet'
      exact h j (List.mem_cons_of_mem i hj) s' (hquiet.trans hquiet')

end Calm

theorem force_halts (hd : Deep d s) (ht : t.In s) : Halts (fun n => force n t) s := by
  induction hk : t.depth d using Nat.strongRecOn generalizing t with
  | ind k ih =>
      apply Halts.succ
      cases t with
      | var v =>
          have hv : v < s.next := ht v List.mem_cons_self
          apply Halts.bind ⟨0, _, fun _ _ => readRef_run v s⟩
          intro n tv s' hrun
          cases hrun
          cases hcell : s.cells v with
          | link t₀ =>
              have hdepth := hd.depth v t₀ hv hcell
              rw [← hk] at ih
              apply Halts.bind (ih _ hdepth (hd.linksIn v t₀ hv hcell) rfl)
              intro n t' s' _
              exact .const rfl
          | unbound u l k => exact .const rfl
          | rigid u l k => exact .const rfl
      | _ => exact .const rfl

theorem force_calm (hd : Deep d s) (ht : t.In s) :
    Calm d (fun t' s' => Forces d s t s' t') (fun n => force n t) s where
  quiet := by
    intro n r s' hrun
    rcases force_forces hd ht hrun with ⟨t', s₁, heq, hforces⟩
    cases heq
    exact hforces.quiet
  result := by
    intro n t' s' hrun
    rcases force_forces hd ht hrun with ⟨t'', s₁, heq, hforces⟩
    cases heq
    exact hforces
  halts := force_halts hd ht

/-! ### Parts of a type -/

theorem mem_varsList {ts : List Ty} (ht : t ∈ ts) (hv : v ∈ t.vars) : v ∈ Ty.varsList ts := by
  induction ht with
  | head ts => exact List.mem_append_left _ hv
  | tail u _ ih => exact List.mem_append_right _ ih

theorem depth_le_depthList {ts : List Ty} (ht : t ∈ ts) : t.depth d ≤ Ty.depthList d ts := by
  induction ht with
  | head ts => exact le_max_left _ _
  | tail u _ ih => exact ih.trans (le_max_right _ _)

/-- `u` is one of the types that `t` is made of. -/
inductive Part : Ty → Ty → Prop where
  | con {c ts t} (h : t ∈ ts) : Part t (.con c ts)
  | dom {a r b} : Part a (.arr a r b)
  | row {a r b} : Part r (.arr a r b)
  | cod {a r b} : Part b (.arr a r b)
  | record {tag row} : Part row (.record tag row)
  | payload {l p rest} : Part p (.rowExtend l p rest)
  | rest {l p rest} : Part rest (.rowExtend l p rest)

theorem Part.isIn (h : Part u t) (ht : t.In s) : u.In s := by
  intro v hv
  apply ht v
  cases h with
  | con h => exact mem_varsList h hv
  | record => exact hv
  | dom => exact List.mem_append_left _ hv
  | row => exact List.mem_append_right _ (List.mem_append_left _ hv)
  | cod => exact List.mem_append_right _ (List.mem_append_right _ hv)
  | payload => exact List.mem_append_left _ hv
  | rest => exact List.mem_append_right _ hv

theorem Part.depth (h : Part u t) : u.depth d < t.depth d := by
  cases h with
  | con h => exact Nat.lt_succ_of_le (depth_le_depthList h)
  | record => exact Nat.lt_succ_self _
  | dom => exact Nat.lt_succ_of_le (le_max_left _ _)
  | row => exact Nat.lt_succ_of_le ((le_max_left _ _).trans (le_max_right _ _))
  | cod => exact Nat.lt_succ_of_le ((le_max_right _ _).trans (le_max_right _ _))
  | payload => exact Nat.lt_succ_of_le (le_max_left _ _)
  | rest => exact Nat.lt_succ_of_le (le_max_right _ _)

theorem Forces.eval_of_solves (h : Forces d s t s' t') (hρ : Solves ρ s) :
    t'.eval ρ = t.eval ρ :=
  h.value .eval ρ (SolvesBy.to (F := .eval) ((h.quiet.solves ρ).mpr hρ) d _)

/-- A part of what a type was forced to. -/
theorem Forces.part (h : Forces d s t s' t') (hpart : Part u t') :
    u.In s' ∧ u.depth d < t.depth d :=
  ⟨h.quiet.isIn.mpr (hpart.isIn h.isIn), hpart.depth.trans_le h.depth⟩

/-! ### What reads types -/

theorem freezeWith_calm {rigid : Nat → TC CType} {message : String}
    (hrigid : ∀ u s, Deep d s → Calm d (fun _ _ => True) (fun _ => rigid u) s) (hd : Deep d s)
    (ht : t.In s) : Calm d (fun _ _ => True) (fun n => freezeWith rigid message n t) s := by
  induction hk : t.depth d using Nat.strongRecOn generalizing t s with
  | ind k ih =>
      subst hk
      have hpart : ∀ {u t' s₁}, Forces d s t s₁ t' → Part u t' → ∀ s₂, Quiet d s₁ s₂ →
          Calm d (fun _ _ => True) (fun n => freezeWith rigid message n u) s₂ := by
        intro u t' s₁ hforces hpart s₂ hquiet
        rcases hforces.part hpart with ⟨hin, hdepth⟩
        exact ih _ hdepth hquiet.deep (hquiet.isIn.mpr hin) rfl
      apply Calm.succ rfl
      apply Calm.bind (force_calm hd ht)
      intro t' s₁ hquiet hforces
      cases t' with
      | con c ts =>
          apply Calm.bind (P := fun _ _ => True)
          · apply Calm.mapM hquiet.deep
            intro u hu s₂ hquiet'
            exact hpart hforces (.con hu) s₂ hquiet'
          · intro ts' s₂ hquiet' _
            exact .pure hquiet'.deep trivial
      | arr a r b =>
          apply Calm.bind (hpart hforces .dom s₁ (.refl hquiet.deep))
          intro a' s₂ hquiet₂ _
          apply Calm.bind (hpart hforces .row s₂ hquiet₂)
          intro r' s₃ hquiet₃ _
          apply Calm.bind (hpart hforces .cod s₃ (hquiet₂.trans hquiet₃))
          intro b' s₄ hquiet₄ _
          exact .pure hquiet₄.deep trivial
      | record tag row =>
          apply Calm.bind (hpart hforces .record s₁ (.refl hquiet.deep))
          intro row' s₂ hquiet₂ _
          exact .pure hquiet₂.deep trivial
      | rowEmpty => exact .pure hquiet.deep trivial
      | rowExtend l p rest =>
          apply Calm.bind (hpart hforces .payload s₁ (.refl hquiet.deep))
          intro p' s₂ hquiet₂ _
          apply Calm.bind (hpart hforces .rest s₂ hquiet₂)
          intro rest' s₃ hquiet₃ _
          exact .pure hquiet₃.deep trivial
      | var r =>
          apply Calm.bind (Calm.readRef hquiet.deep)
          rintro tv s₂ _ ⟨rfl, rfl⟩
          cases s₂.cells r with
          | unbound u l k => exact .pure hquiet.deep trivial
          | link t => exact .fail hquiet.deep
          | rigid u l k => exact hrigid u s₂ hquiet.deep

theorem freeze_calm (hd : Deep d s) (ht : t.In s) :
    Calm d (fun _ _ => True) (fun n => freeze n t) s :=
  freezeWith_calm (fun _ _ hd => .fail hd) hd ht

theorem freezeTolerant_calm (hd : Deep d s) (ht : t.In s) :
    Calm d (fun _ _ => True) (fun n => freezeTolerant n t) s :=
  freezeWith_calm (fun _ _ hd => .pure hd trivial) hd ht

theorem kindOf_calm (hd : Deep d s) (ht : t.In s) :
    Calm d (fun _ _ => True) (fun n => kindOf n t) s := by
  apply Calm.succ rfl
  apply Calm.bind (force_calm hd ht)
  intro t' s₁ hquiet hforces
  cases t' with
  | var r =>
      apply Calm.bind (Calm.readRef hquiet.deep)
      rintro tv s₂ _ ⟨rfl, rfl⟩
      cases hcell : s₂.cells r with
      | unbound u l k => exact .pure hquiet.deep trivial
      | rigid u l k => exact .pure hquiet.deep trivial
      | link t => exact absurd hcell (hforces.head r t rfl)
  | _ => exact .pure hquiet.deep trivial

theorem reportPair_calm {α : Type} {report : CType → CType → TypeError} (hd : Deep d s)
    (ht : t.In s) (hu : u.In s) :
    Calm d (fun _ _ => False) (fun n => (reportPair n report t u : TC α)) s := by
  apply Calm.bind (freeze_calm hd ht)
  intro ca s₁ hquiet _
  apply Calm.bind (freeze_calm hquiet.deep (hquiet.isIn.mpr hu))
  intro cb s₂ hquiet' _
  exact .fail hquiet'.deep

theorem collectRowPairs_calm (hd : Deep d s) (ht : t.In s) :
    Calm d (fun pairs _ => ∀ p ∈ pairs, p.2.In s) (fun n => collectRowPairs n t) s := by
  induction hk : t.depth d using Nat.strongRecOn generalizing t s with
  | ind k ih =>
      subst hk
      apply Calm.succ rfl
      apply Calm.bind (force_calm hd ht)
      intro t' s₁ hquiet hforces
      cases t' with
      | rowExtend l p rest =>
          rcases hforces.part .rest with ⟨hin, hdepth⟩
          apply Calm.bind (ih _ hdepth hquiet.deep hin rfl)
          intro pairs s₂ hquiet₂ hpairs
          apply Calm.pure hquiet₂.deep
          intro q hq
          rcases List.mem_cons.mp hq with rfl | hq
          · exact hquiet.isIn.mp (hforces.part .payload).1
          · exact hquiet.isIn.mp (hpairs q hq)
      | _ => exact .pure hquiet.deep fun _ h => nomatch h

theorem insertShadow_mem {l : String} {m : List (String × List Ty)} {g : String × List Ty}
    (hg : g ∈ insertShadow l t m) (hu : u ∈ g.2) : u = t ∨ ∃ g' ∈ m, u ∈ g'.2 := by
  induction m with
  | nil =>
      rcases List.mem_singleton.mp hg with rfl
      exact .inl (List.mem_singleton.mp hu)
  | cons g₀ m ih =>
      rcases g₀ with ⟨l', ts⟩
      rw [insertShadow] at hg
      split at hg
      · rcases List.mem_cons.mp hg with rfl | hg
        · rcases List.mem_cons.mp hu with rfl | hu
          · exact .inl rfl
          · exact .inr ⟨_, List.mem_cons_self, hu⟩
        · exact .inr ⟨g, List.mem_cons_of_mem _ hg, hu⟩
      · split at hg
        · rcases List.mem_cons.mp hg with rfl | hg
          · exact .inl (List.mem_singleton.mp hu)
          · exact .inr ⟨g, hg, hu⟩
        · rcases List.mem_cons.mp hg with rfl | hg
          · exact .inr ⟨_, List.mem_cons_self, hu⟩
          · rcases ih hg with heq | ⟨g', hg', hu'⟩
            · exact .inl heq
            · exact .inr ⟨g', List.mem_cons_of_mem _ hg', hu'⟩

/-- The groups hold the types of the fields. -/
theorem mem_grouped {pairs : List (String × Ty)} {m : List (String × List Ty)}
    {g : String × List Ty}
    (hg : g ∈ pairs.foldl (fun m (l, t) => insertShadow l t m) m) (hu : u ∈ g.2) :
    (∃ p ∈ pairs, u = p.2) ∨ ∃ g' ∈ m, u ∈ g'.2 := by
  induction pairs generalizing m with
  | nil => exact .inr ⟨g, hg, hu⟩
  | cons p pairs ih =>
      rcases ih hg with ⟨q, hq, heq⟩ | ⟨g', hg', hu'⟩
      · exact .inl ⟨q, List.mem_cons_of_mem p hq, heq⟩
      · rcases insertShadow_mem hg' hu' with heq | hold
        · exact .inl ⟨p, List.mem_cons_self, heq⟩
        · exact .inr hold

theorem addWarning_calm {w : Warning} (hd : Deep d s) :
    Calm d (fun _ _ => True) (fun _ => addWarning w) s := by
  apply @Calm.run s { s with warnings := w :: s.warnings } _ _ _ _ _ rfl
  · have hquiet := Quiet.refl hd
    exact ⟨hquiet.next, hquiet.unbound, hquiet.rigid, hquiet.link, hquiet.content,
      ⟨hd.linksIn, hd.depth⟩, hquiet.values⟩
  · exact fun _ _ => trivial

theorem checkGroup_calm {sp : SourceSpan} {g : String × List Ty} (hd : Deep d s)
    (hin : ∀ u ∈ g.2, u.In s) : Calm d (fun _ _ => True) (fun n => checkGroup sp n g) s := by
  rcases g with ⟨l, _ | ⟨t₁, _ | ⟨t₂, ts⟩⟩⟩
  · exact .pure hd trivial
  · exact .pure hd trivial
  · apply Calm.bind (freeze_calm hd (hin t₁ List.mem_cons_self))
    intro c₁ s₁ hquiet _
    have hin₂ := hquiet.isIn.mpr (hin t₂ (List.mem_cons_of_mem t₁ List.mem_cons_self))
    apply Calm.bind (freeze_calm hquiet.deep hin₂)
    intro c₂ s₂ hquiet₂ _
    exact addWarning_calm hquiet₂.deep

theorem warnOnShadow_calm {sp : SourceSpan} (hd : Deep d s) (ht : t.In s) :
    Calm d (fun _ _ => True) (fun n => warnOnShadow sp n t) s := by
  apply Calm.bind (collectRowPairs_calm hd ht)
  intro pairs s₁ hquiet hpairs
  apply Calm.forM hquiet.deep
  intro g hg s₂ hquiet₂
  apply checkGroup_calm hquiet₂.deep
  intro u hu
  rcases mem_grouped hg hu with ⟨p, hp, rfl⟩ | ⟨g', hg', -⟩
  · exact (hquiet.trans hquiet₂).isIn.mpr (hpairs p hp)
  · cases hg'

theorem warnIfRecordShadow_calm {sp : SourceSpan} (hd : Deep d s) (ht : t.In s) :
    Calm d (fun _ _ => True) (fun n => warnIfRecordShadow sp n t) s := by
  apply Calm.bind (force_calm hd ht)
  intro t' s₁ hquiet hforces
  cases t' with
  | record tag row => exact warnOnShadow_calm hquiet.deep (hforces.part .record).1
  | _ => exact .pure hquiet.deep trivial

/-- What the values make of a row's end. -/
def tailLen (ρ : Nat → Ty) : Option Nat → Nat
  | some v => (ρ v).rowLen
  | none => 0

theorem rowTailRef_calm (hd : Deep d s) (ht : t.In s) :
    Calm d (fun o _ =>
        (∃ k, ∀ ρ, Solves ρ s → (t.eval ρ).rowLen = k + tailLen ρ o) ∧
        ∀ v, o = some v → v < s.next ∧ ∀ u, s.cells v ≠ .link u)
      (fun n => rowTailRef n t) s := by
  induction hk : t.depth d using Nat.strongRecOn generalizing t s with
  | ind k ih =>
      subst hk
      apply Calm.succ rfl
      apply Calm.bind (force_calm hd ht)
      intro t' s₁ hquiet hforces
      have hend : (∀ v, t' ≠ .var v) → (∀ ρ, (t'.eval ρ).rowLen = 0) →
          Calm d (fun o _ =>
              (∃ k, ∀ ρ, Solves ρ s → (t.eval ρ).rowLen = k + tailLen ρ o) ∧
              ∀ v, o = some v → v < s.next ∧ ∀ u, s.cells v ≠ .link u)
            (fun _ => Pure.pure none) s₁ := by
        intro _ hlen
        apply Calm.pure hquiet.deep
        refine ⟨⟨0, ?_⟩, fun _ h => nomatch h⟩
        intro ρ hρ
        rw [← hforces.eval_of_solves hρ, hlen, tailLen]
      cases t' with
      | rowExtend l p rest =>
          rcases hforces.part .rest with ⟨hin, hdepth⟩
          apply (ih _ hdepth hquiet.deep hin rfl).imp
          rintro o s₂ _ ⟨⟨k, hlen⟩, hvar⟩
          constructor
          · refine ⟨k + 1, ?_⟩
            intro ρ hρ
            rw [← hforces.eval_of_solves hρ, Ty.eval, rowLen_insertField,
              hlen ρ ((hquiet.solves ρ).mpr hρ), Nat.add_right_comm]
          · intro v hv
            rcases hvar v hv with ⟨hlt, hcell⟩
            refine ⟨hquiet.next ▸ hlt, ?_⟩
            intro u hu
            rcases hquiet.link v u hu with ⟨u', hu'⟩
            exact hcell u' hu'
      | var v =>
          apply Calm.pure hquiet.deep
          constructor
          · refine ⟨0, ?_⟩
            intro ρ hρ
            rw [← hforces.eval_of_solves hρ, Nat.zero_add]
            rfl
          · rintro w ⟨⟩
            refine ⟨hforces.isIn v List.mem_cons_self, ?_⟩
            intro u hu
            rcases hquiet.link v u hu with ⟨u', hu'⟩
            exact hforces.head v u' rfl hu'
      | con c ts => exact hend (fun _ h => nomatch h) fun _ => rfl
      | arr a r b => exact hend (fun _ h => nomatch h) fun _ => rfl
      | record tag row => exact hend (fun _ h => nomatch h) fun _ => rfl
      | rowEmpty => exact hend (fun _ h => nomatch h) fun _ => rfl

/-! ### The occurs check -/

/-- Through the links, the variable leads to the target. -/
inductive Reaches (s : TCState) (target : Nat) : Nat → Prop where
  | refl : Reaches s target target
  | link (v : Nat) (t : Ty) (w : Nat) (hv : v < s.next) (hlink : s.cells v = .link t)
      (hw : w ∈ t.vars) (h : Reaches s target w) : Reaches s target v

/-- Only levels are different, and lower. -/
structure Adjusts (s s' : TCState) : Prop where
  next : s'.next = s.next
  unbound : ∀ v u l k, s.cells v = .unbound u l k → ∃ l', l' ≤ l ∧ s'.cells v = .unbound u l' k
  rigid : ∀ v u l k, s.cells v = .rigid u l k → s'.cells v = .rigid u l k
  link : ∀ v t, s'.cells v = .link t ↔ s.cells v = .link t

theorem Adjusts.refl (s : TCState) : Adjusts s s where
  next := rfl
  unbound := fun _ _ l _ h => ⟨l, le_rfl, h⟩
  rigid := fun _ _ _ _ h => h
  link := fun _ _ => Iff.rfl

theorem Adjusts.trans (h : Adjusts s s') (h' : Adjusts s' s₁) : Adjusts s s₁ where
  next := h'.next.trans h.next
  unbound := by
    intro v u l k hv
    rcases h.unbound v u l k hv with ⟨l₁, hle, hv⟩
    rcases h'.unbound v u l₁ k hv with ⟨l₂, hle', hv⟩
    exact ⟨l₂, hle'.trans hle, hv⟩
  rigid := fun v u l k hv => h'.rigid v u l k (h.rigid v u l k hv)
  link := fun v t => (h'.link v t).trans (h.link v t)

theorem Adjusts.reaches (h : Adjusts s s') : Reaches s' v w ↔ Reaches s v w := by
  constructor
  · intro hreach
    induction hreach with
    | refl => exact .refl
    | link _ _ _ hv hlink hw _ ih => exact .link _ _ _ (h.next ▸ hv) ((h.link _ _).mp hlink) hw ih
  · intro hreach
    induction hreach with
    | refl => exact .refl
    | link _ _ _ hv hlink hw _ ih =>
        exact .link _ _ _ (h.next.symm ▸ hv) ((h.link _ _).mpr hlink) hw ih

theorem Adjusts.values (h : Adjusts s s') (F : Reading) : SolvesBy F ρ s' ↔ SolvesBy F ρ s := by
  unfold SolvesBy
  rw [h.next]
  simp only [h.link]

theorem Adjusts.solves (h : Adjusts s s') : Solves ρ s' ↔ Solves ρ s := h.values .eval

theorem Adjusts.quiet (h : Adjusts s s') (hd : Deep d s) : Quiet d s s' where
  next := h.next
  unbound := h.unbound
  rigid := h.rigid
  link := fun v t hv => ⟨t, (h.link v t).mpr hv⟩
  content := fun v t hv hlink => ⟨v, hv, (h.link v t).mp hlink⟩
  deep := by
    constructor
    · intro v t hv hlink w hw
      exact h.next.symm ▸ hd.linksIn v t (h.next ▸ hv) ((h.link v t).mp hlink) w hw
    · intro v t hv hlink
      exact hd.depth v t (h.next ▸ hv) ((h.link v t).mp hlink)
  values := fun F _ => h.values F

/-- A variable that is brought down to a level. -/
theorem Adjusts.lower {u : Nat} {l lvl : Int} {k : Kind} (hv : s.cells v = .unbound u l k)
    (hle : lvl ≤ l) : Adjusts s (s.write v (.unbound u lvl k)) where
  next := rfl
  unbound := by
    intro w u' l' k' hw
    by_cases heq : w = v
    · subst heq
      rw [hv] at hw
      cases hw
      exact ⟨lvl, hle, write_self s w _⟩
    · exact ⟨l', le_rfl, (write_ne heq).trans hw⟩
  rigid := by
    intro w u' l' k' hw
    rw [write_ne, hw]
    rintro rfl
    rw [hv] at hw
    cases hw
  link := by
    intro w t
    by_cases heq : w = v
    · subst heq
      rw [write_self, hv]
      constructor
      · intro h
        cases h
      · intro h
        cases h
    · rw [write_ne heq]

/-- The computation at most lowers levels, and when it ends well none of the variables
leads to the target. -/
def Checks (target : Nat) (vs : List Nat) (x : TC Unit) : Prop :=
  ∀ s r s', x s = some (r, s') →
    Adjusts s s' ∧ (r = .ok () → ∀ w ∈ vs, ¬Reaches s target w)

theorem Checks.bind {target : Nat} {vs vs' : List Nat} {x y : TC Unit}
    (h : Checks target vs x) (h' : Checks target vs' y) :
    Checks target (vs ++ vs') (x >>= fun _ => y) := by
  intro s r s' hrun
  rcases PartialM.bind_some hrun with ⟨a, s₁, hx, hy⟩ | ⟨e, s₁, hx, heq⟩
  · rcases h s _ s₁ hx with ⟨hadj, hvs⟩
    rcases h' s₁ r s' hy with ⟨hadj', hvs'⟩
    refine ⟨hadj.trans hadj', ?_⟩
    intro hr w hw hreach
    rcases List.mem_append.mp hw with hw | hw
    · exact hvs rfl w hw hreach
    · exact hvs' hr w hw (hadj.reaches.mpr hreach)
  · cases heq
    exact ⟨(h s _ _ hx).1, fun h => nomatch h⟩

theorem Checks.fail {target : Nat} {vs : List Nat} {e : Failure} :
    Checks target vs fun s => some (.error e, s) := by
  intro s r s' hrun
  cases hrun
  exact ⟨.refl s, fun h => nomatch h⟩

theorem Checks.pure {target : Nat} : Checks target [] (Pure.pure ()) := by
  intro s r s' hrun
  cases hrun
  exact ⟨.refl s, fun _ _ h => nomatch h⟩

theorem Checks.forM {target : Nat} {f : Ty → TC Unit} {ts : List Ty}
    (h : ∀ t ∈ ts, Checks target t.vars (f t)) : Checks target (Ty.varsList ts) (ts.forM f) := by
  induction ts with
  | nil => exact .pure
  | cons t ts ih =>
      exact (h t List.mem_cons_self).bind (ih fun u hu => h u (List.mem_cons_of_mem t hu))

theorem not_reaches {target : Nat} (hne : v ≠ target) (h : ∀ t, s.cells v ≠ .link t) :
    ¬Reaches s target v := by
  intro hreach
  cases hreach with
  | refl => exact hne rfl
  | link _ _ _ _ hlink => exact h _ hlink

theorem occursAdjust_checks {sp : SourceSpan} {target : Nat} {lvl : Int} (n : Nat) (t : Ty) :
    Checks target t.vars (occursAdjust sp target lvl n t) := by
  induction n generalizing t with
  | zero =>
      intro s r s' hrun
      cases hrun
  | succ n ih =>
      cases t with
      | var v =>
          by_cases hv : v = target
          · subst hv
            rw [occursAdjust, if_pos rfl]
            intro s r s' hrun
            rw [PartialM.bind_of_ok (readRef_run v s)] at hrun
            cases hcell : s.cells v with
            | link t => exact Checks.fail s r s' (hcell ▸ hrun)
            | rigid u l k => exact Checks.fail s r s' (hcell ▸ hrun)
            | unbound u l k =>
                rw [hcell] at hrun
                cases k with
                | effect => exact Checks.fail s r s' hrun
                | star => exact Checks.fail s r s' hrun
                | arrow k k' => exact Checks.fail s r s' hrun
          · rw [occursAdjust, if_neg hv]
            intro s r s' hrun
            rw [PartialM.bind_of_ok (readRef_run v s)] at hrun
            cases hcell : s.cells v with
            | link t =>
                rw [hcell] at hrun
                rcases ih t s r s' hrun with ⟨hadj, hvs⟩
                refine ⟨hadj, ?_⟩
                rintro hr w hw (_ | ⟨_, _, _, _, hlink, hw', hreach⟩)
                · exact hv (List.mem_singleton.mp hw).symm
                · rcases List.mem_singleton.mp hw with rfl
                  rw [hcell] at hlink
                  cases hlink
                  exact hvs hr _ hw' hreach
            | rigid u l k =>
                rw [hcell] at hrun
                cases hrun
                refine ⟨.refl s, ?_⟩
                intro _ w hw
                rcases List.mem_singleton.mp hw with rfl
                exact not_reaches hv fun t ht => nomatch hcell.symm.trans ht
            | unbound u l k =>
                rw [hcell] at hrun
                change (if l > lvl then writeRef v (.unbound u lvl k) else Pure.pure ()) s = _
                  at hrun
                have hnot : ∀ w ∈ [v], ¬Reaches s target w := by
                  intro w hw
                  rcases List.mem_singleton.mp hw with rfl
                  exact not_reaches hv fun t ht => nomatch hcell.symm.trans ht
                by_cases hl : l > lvl
                · rw [if_pos hl] at hrun
                  cases hrun
                  exact ⟨.lower hcell hl.le, fun _ => hnot⟩
                · rw [if_neg hl] at hrun
                  cases hrun
                  exact ⟨.refl s, fun _ => hnot⟩
      | con c ts => exact Checks.forM fun t _ => ih t
      | arr a e b => exact (ih a).bind ((ih e).bind (ih b))
      | record tag row => exact ih row
      | rowEmpty => exact .pure
      | rowExtend l p rest => exact (ih p).bind (ih rest)

theorem occursAdjust_halts {sp : SourceSpan} {target : Nat} {lvl : Int} (hd : Deep d s)
    (ht : t.In s) : Calm d (fun _ _ => True) (fun n => occursAdjust sp target lvl n t) s := by
  induction hk : t.depth d using Nat.strongRecOn generalizing t s with
  | ind k ih =>
      subst hk
      have hpart : ∀ {u}, Part u t → ∀ s', Quiet d s s' →
          Calm d (fun _ _ => True) (fun n => occursAdjust sp target lvl n u) s' := by
        intro u hpart s' hquiet
        exact ih _ hpart.depth hquiet.deep (hquiet.isIn.mpr (hpart.isIn ht)) rfl
      apply Calm.succ rfl
      cases t with
      | var v =>
          apply Calm.ite
          · intro _
            apply Calm.bind (Calm.readRef hd)
            rintro tv s' _ ⟨rfl, rfl⟩
            cases s'.cells target with
            | link t => exact .fail hd
            | rigid u l k => exact .fail hd
            | unbound u l k =>
                cases k with
                | effect => exact .fail hd
                | star => exact .fail hd
                | arrow k k' => exact .fail hd
          · intro _
            apply Calm.bind (Calm.readRef hd)
            rintro tv s' _ ⟨rfl, rfl⟩
            cases hcell : s'.cells v with
            | link t =>
                have hv : v < s'.next := ht v List.mem_cons_self
                exact ih _ (hd.depth v t hv hcell) hd (hd.linksIn v t hv hcell) rfl
            | rigid u l k => exact .pure hd trivial
            | unbound u l k =>
                apply Calm.ite
                · intro hl
                  exact .run rfl ((Adjusts.lower hcell hl.le).quiet hd) fun _ _ => trivial
                · intro _
                  exact .pure hd trivial
      | con c ts =>
          apply Calm.forM hd
          intro u hu s' hquiet
          exact hpart (.con hu) s' hquiet
      | arr a e b =>
          apply Calm.bind (hpart .dom s (.refl hd))
          intro _ s₁ hquiet _
          apply Calm.bind (hpart .row s₁ hquiet)
          intro _ s₂ hquiet' _
          exact hpart .cod s₂ (hquiet.trans hquiet')
      | record tag row => exact hpart .record s (.refl hd)
      | rowEmpty => exact .pure hd trivial
      | rowExtend l p rest =>
          apply Calm.bind (hpart .payload s (.refl hd))
          intro _ s₁ hquiet _
          exact hpart .rest s₁ hquiet

end Wok.TypeChecking
