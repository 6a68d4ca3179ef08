/-
Module: Wok.Proofs.UnifyErrors
Purpose: Unification calls `error` exactly when it comes to an equation or a warning that
  clashes.
Imports: Wok.Spec.UnifyErrors, Wok.Proofs.Levels, Wok.Proofs.UnifyFuel
Trusted boundary: none
Main exports: FailsIff, freeze_failsIff, PanicsIff, unifyVar_panicsIff, row_panics,
  unify_step, unify_returns_iff
-/
import Wok.Spec.UnifyErrors
import Wok.Proofs.Levels
import Wok.Proofs.UnifyFuel

namespace Wok.TypeChecking

open Wok.Lib

variable {s s' s₁ s₂ : TCState} {d : Nat → Nat} {a b t t' u row : Ty} {θ : Nat → Ty}
  {v w n : Nat} {sp : SourceSpan} {lvl : Int} {l : String} {forbidden : Option Nat}

/-! ### What the state stands for -/

theorem Quiet.realizes (h : Quiet d s s') : Realizes θ s' ↔ Realizes θ s := by
  have hlink : ∀ v, (∀ t, v < s'.next → s'.cells v ≠ .link t) ↔
      ∀ t, v < s.next → s.cells v ≠ .link t := by
    intro v
    rw [h.next]
    constructor
    · intro hv t hlt ht
      rcases h.link v t ht with ⟨t', ht'⟩
      exact hv t' hlt ht'
    · intro hv t hlt ht
      rcases (h.linked v).mp ⟨t, ht⟩ with ⟨t', ht'⟩
      exact hv t' hlt ht'
  constructor
  · intro hθ
    exact ⟨(h.values .subst θ).mp hθ.link, fun v hv => hθ.free v ((hlink v).mpr hv)⟩
  · intro hθ
    exact ⟨(h.values .subst θ).mpr hθ.link, fun v hv => hθ.free v ((hlink v).mp hv)⟩

theorem Forces.subst (h : Forces d s t s' t') (hθ : Realizes θ s) : t'.subst θ = t.subst θ :=
  h.value .subst θ (SolvesBy.to (F := .subst) (h.quiet.realizes.mpr hθ).link d _)

theorem Quiet.hasRigid (h : Quiet d s s') : HasRigid s' t ↔ HasRigid s t := by
  unfold HasRigid
  simp only [h.rigid_iff]

theorem Quiet.headKind (h : Quiet d s s') : headKind s' t = headKind s t := by
  cases t with
  | var v => exact h.kind v
  | _ => rfl

theorem hasRigid_con {c : TyCon} {ts : List Ty} :
    HasRigid s ((Ty.con c ts).subst θ) ↔ ∃ t ∈ ts, HasRigid s (t.subst θ) := by
  have hlist : ∀ ts : List Ty, (∃ w ∈ Ty.varsList (Ty.substList θ ts), ∃ u l k,
      s.cells w = .rigid u l k) ↔ ∃ t ∈ ts, HasRigid s (t.subst θ) := by
    intro ts
    induction ts with
    | nil =>
        constructor
        · rintro ⟨w, h, -⟩
          cases h
        · rintro ⟨t, h, -⟩
          cases h
    | cons t ts ih =>
        rw [Ty.substList, Ty.varsList]
        simp only [List.mem_append, or_and_right, exists_or, List.mem_cons, exists_eq_left]
        rw [ih]
        rfl
  exact hlist ts

theorem hasRigid_arr {r : Ty} : HasRigid s (.arr a r b) ↔
    HasRigid s a ∨ HasRigid s r ∨ HasRigid s b := by
  unfold HasRigid
  simp only [Ty.vars, List.mem_append, or_and_right, exists_or]

theorem hasRigid_rowExtend {rest : Ty} : HasRigid s (.rowExtend l t rest) ↔
    HasRigid s t ∨ HasRigid s rest := by
  unfold HasRigid
  simp only [Ty.vars, List.mem_append, or_and_right, exists_or]

theorem hasRigid_var : HasRigid s (.var v) ↔ ∃ u l k, s.cells v = .rigid u l k := by
  constructor
  · rintro ⟨w, hw, h⟩
    rcases List.mem_singleton.mp hw with rfl
    exact h
  · intro h
    exact ⟨v, List.mem_cons_self, h⟩

/-! ### Freezing -/

/-- The computation calls `error` when `P` holds, and ends well otherwise. -/
def FailsIff {α : Type} (x : TC α) (s : TCState) (P : Prop) : Prop :=
  ∀ r s', x s = some (r, s') →
    (∃ a, r = .ok a) ∧ ¬P ∨ (∃ message, r = .error (.panic message)) ∧ P

section FailsIff

variable {α β : Type} {x : TC α} {f : α → TC β} {P Q : Prop}

theorem FailsIff.ok {a : α} (h : x s = some (.ok a, s₁)) : FailsIff x s False := by
  intro r s' hrun
  rw [h] at hrun
  cases hrun
  exact .inl ⟨⟨a, rfl⟩, id⟩

theorem FailsIff.pure (a : α) : FailsIff (Pure.pure a : TC α) s False := .ok rfl

theorem FailsIff.panic (message : String) : FailsIff (panicTC message : TC α) s True := by
  intro r s' hrun
  cases hrun
  exact .inr ⟨⟨message, rfl⟩, trivial⟩

theorem FailsIff.readRef : FailsIff (TypeChecking.readRef v) s False := .ok rfl

theorem FailsIff.iff (h : FailsIff x s P) (hiff : P ↔ Q) : FailsIff x s Q := by
  rw [← hiff]
  exact h

theorem FailsIff.bind (h : FailsIff x s P)
    (hf : ∀ a s₁, x s = some (.ok a, s₁) → FailsIff (f a) s₁ Q) :
    FailsIff (x >>= f) s (P ∨ Q) := by
  intro r s' hrun
  rcases PartialM.bind_some hrun with ⟨a, s₁, hx, hrun⟩ | ⟨e, s₁, hx, heq⟩
  · rcases h _ s₁ hx with ⟨-, hP⟩ | ⟨⟨m, heq⟩, -⟩
    · rcases hf a s₁ hx r s' hrun with ⟨hok, hQ⟩ | ⟨hpanic, hQ⟩
      · exact .inl ⟨hok, not_or.mpr ⟨hP, hQ⟩⟩
      · exact .inr ⟨hpanic, .inr hQ⟩
    · cases heq
  · cases heq
    rcases h _ _ hx with ⟨⟨a, heq⟩, -⟩ | ⟨⟨m, heq⟩, hP⟩
    · cases heq
    · cases heq
      exact .inr ⟨⟨m, rfl⟩, .inl hP⟩

/-- After a computation that always ends well. -/
theorem FailsIff.after {P : Prop} (h : FailsIff x s False)
    (hf : ∀ a s₁, x s = some (.ok a, s₁) → FailsIff (f a) s₁ P) : FailsIff (x >>= f) s P :=
  (h.bind hf).iff (by rw [false_or])

/-- Before a computation that always ends well. -/
theorem FailsIff.before {P : Prop} (h : FailsIff x s P)
    (hf : ∀ a s₁, x s = some (.ok a, s₁) → FailsIff (f a) s₁ False) : FailsIff (x >>= f) s P :=
  (h.bind hf).iff (by rw [or_false])

theorem FailsIff.mapM {ι : Type} {g : ι → TC α} {R : ι → Prop} {I : TCState → Prop}
    {is : List ι} (hs : I s) (hg : ∀ i ∈ is, ∀ s, I s → FailsIff (g i) s (R i))
    (hinv : ∀ i ∈ is, ∀ s a s', I s → g i s = some (.ok a, s') → I s') :
    FailsIff (is.mapM g) s (∃ i ∈ is, R i) := by
  induction is generalizing s with
  | nil =>
      apply (FailsIff.pure _).iff
      constructor
      · exact False.elim
      · rintro ⟨i, h, -⟩
        cases h
  | cons i is ih =>
      rw [List.mapM_cons]
      apply FailsIff.iff (P := R i ∨ ∃ i ∈ is, R i)
      · apply (hg i List.mem_cons_self s hs).bind
        intro a s₁ hrun
        apply FailsIff.before
        · apply ih (hinv i List.mem_cons_self s a s₁ hs hrun)
          · exact fun j hj => hg j (List.mem_cons_of_mem i hj)
          · exact fun j hj => hinv j (List.mem_cons_of_mem i hj)
        · intro as s₂ _
          exact .pure _
      · simp only [List.mem_cons, or_and_right, exists_or, exists_eq_left]

theorem FailsIff.forM {ι : Type} {g : ι → TC Unit} {R : ι → Prop} {I : TCState → Prop}
    {is : List ι} (hs : I s) (hg : ∀ i ∈ is, ∀ s, I s → FailsIff (g i) s (R i))
    (hinv : ∀ i ∈ is, ∀ s a s', I s → g i s = some (.ok a, s') → I s') :
    FailsIff (is.forM g) s (∃ i ∈ is, R i) := by
  induction is generalizing s with
  | nil =>
      apply (FailsIff.pure _).iff
      constructor
      · exact False.elim
      · rintro ⟨i, h, -⟩
        cases h
  | cons i is ih =>
      apply FailsIff.iff (P := R i ∨ ∃ i ∈ is, R i)
      · apply (hg i List.mem_cons_self s hs).bind
        intro a s₁ hrun
        apply ih (hinv i List.mem_cons_self s a s₁ hs hrun)
        · exact fun j hj => hg j (List.mem_cons_of_mem i hj)
        · exact fun j hj => hinv j (List.mem_cons_of_mem i hj)
      · simp only [List.mem_cons, or_and_right, exists_or, exists_eq_left]

end FailsIff

theorem force_failsIff (hd : Deep d s) (ht : t.In s) : FailsIff (force n t) s False := by
  intro r s' hrun
  rcases force_forces hd ht hrun with ⟨t', s₁, heq, -⟩
  cases heq
  exact .inl ⟨⟨t', rfl⟩, id⟩

section Reads

variable {rigid : Nat → TC CType} {message : String} {Q : Prop}

theorem freezeWith_failsIff
    (hcalm : ∀ u s, Deep d s → Calm d (fun _ _ => True) (fun _ => rigid u) s)
    (hrigid : ∀ u s, FailsIff (rigid u) s Q) (hd : Deep d s) (ht : t.In s) (hθ : Realizes θ s) :
    FailsIff (freezeWith rigid message n t) s (Q ∧ HasRigid s (t.subst θ)) := by
  induction n generalizing t s with
  | zero =>
      intro r s' hrun
      cases hrun
  | succ n ih =>
      apply FailsIff.after (force_failsIff hd ht)
      intro t' s₁ hforce
      have hforces := (force_calm hd ht).result n t' s₁ hforce
      have hquiet := hforces.quiet
      have hθ₁ := hquiet.realizes.mpr hθ
      rw [← hforces.subst hθ, ← hquiet.hasRigid]
      have hin : ∀ {u}, Part u t' → u.In s₁ := fun hpart =>
        hquiet.isIn.mpr (hpart.isIn hforces.isIn)
      have hpart : ∀ {u} s₂, Quiet d s₁ s₂ → Part u t' →
          FailsIff (freezeWith rigid message n u) s₂ (Q ∧ HasRigid s₁ (u.subst θ)) := by
        intro u s₂ hquiet₂ hpart
        apply (ih hquiet₂.deep (hquiet₂.isIn.mpr (hin hpart)) (hquiet₂.realizes.mpr hθ₁)).iff
        rw [hquiet₂.hasRigid]
      have hkeeps : ∀ {u s₂ a s₃}, Quiet d s₁ s₂ → Part u t' →
          freezeWith rigid message n u s₂ = some (.ok a, s₃) → Quiet d s₁ s₃ := by
        intro u s₂ a s₃ hquiet₂ hpart hrun
        have hin₂ := hquiet₂.isIn.mpr (hin hpart)
        exact hquiet₂.trans ((freezeWith_calm hcalm hquiet₂.deep hin₂).quiet n _ s₃ hrun)
      have hself := Quiet.refl hquiet.deep
      cases t' with
      | con c ts =>
          have hargs : FailsIff (ts.mapM (freezeWith rigid message n)) s₁
              (∃ t ∈ ts, Q ∧ HasRigid s₁ (t.subst θ)) := by
            apply FailsIff.mapM (I := Quiet d s₁) hself
            · exact fun u hu s₂ hquiet₂ => hpart s₂ hquiet₂ (.con hu)
            · exact fun u hu s₂ a s₃ hquiet₂ hrun => hkeeps hquiet₂ (.con hu) hrun
          apply (hargs.before fun _ _ _ => .pure _).iff
          rw [hasRigid_con]
          constructor
          · rintro ⟨u, hu, hQ, h⟩
            exact ⟨hQ, u, hu, h⟩
          · rintro ⟨hQ, u, hu, h⟩
            exact ⟨u, hu, hQ, h⟩
      | arr a r b =>
          rw [Ty.subst, hasRigid_arr, and_or_left, and_or_left]
          apply (hpart s₁ hself .dom).bind
          intro a' s₂ hrun
          have hquiet₂ := hkeeps hself .dom hrun
          apply (hpart s₂ hquiet₂ .row).bind
          intro r' s₃ hrun
          have hquiet₃ := hkeeps hquiet₂ .row hrun
          exact (hpart s₃ hquiet₃ .cod).before fun _ _ _ => .pure _
      | record tag row => exact (hpart s₁ hself .record).before fun _ _ _ => .pure _
      | rowEmpty =>
          apply (FailsIff.pure _).iff
          constructor
          · exact False.elim
          · rintro ⟨-, w, h, -⟩
            cases h
      | rowExtend l p rest =>
          rw [Ty.subst, hasRigid_rowExtend, and_or_left]
          apply (hpart s₁ hself .payload).bind
          intro p' s₂ hrun
          have hquiet₂ := hkeeps hself .payload hrun
          exact (hpart s₂ hquiet₂ .rest).before fun _ _ _ => .pure _
      | var v =>
          have hlink : ∀ t, s₁.cells v ≠ .link t := fun t => hforces.head v t rfl
          rw [Ty.subst, hθ₁.free v fun t _ => hlink t, hasRigid_var]
          apply FailsIff.after .readRef
          intro tv s₂ hread
          cases hread
          cases hcell : s₁.cells v with
          | link t => exact absurd hcell (hlink t)
          | unbound u l k =>
              apply (FailsIff.pure _).iff
              constructor
              · exact False.elim
              · rintro ⟨-, _, _, _, h⟩
                cases h
          | rigid u l k =>
              apply (hrigid u s₁).iff
              constructor
              · exact fun hQ => ⟨hQ, u, l, k, rfl⟩
              · exact And.left

theorem freeze_failsIff (hd : Deep d s) (ht : t.In s) (hθ : Realizes θ s) :
    FailsIff (freeze n t) s (HasRigid s (t.subst θ)) :=
  (freezeWith_failsIff (fun _ _ hd => .fail hd) (fun _ _ => .panic _) hd ht hθ).iff
    (by rw [true_and])

theorem freezeTolerant_failsIff (hd : Deep d s) (ht : t.In s) (hθ : Realizes θ s) :
    FailsIff (freezeTolerant n t) s False :=
  (freezeWith_failsIff (fun _ _ hd => .pure hd trivial) (fun _ _ => .pure _) hd ht hθ).iff
    (by rw [false_and])

/-- The kind of a type is that of its head. -/
theorem kindOf_kind (hd : Deep d s) (ht : t.In s) (hθ : Realizes θ s) {r : Except Failure Kind}
    (hrun : kindOf n t s = some (r, s')) : ∃ k, r = .ok k ∧ headKind s (t.subst θ) = some k := by
  cases n with
  | zero => cases hrun
  | succ n =>
      rcases PartialM.bind_some hrun with ⟨t', s₁, hforce, hrun⟩ | ⟨e, s₁, hforce, -⟩
      · have hforces := (force_calm hd ht).result n t' s₁ hforce
        have hθ₁ := hforces.quiet.realizes.mpr hθ
        rw [← hforces.subst hθ, ← hforces.quiet.headKind]
        cases t' with
        | var v =>
            have hlink : ∀ t, s₁.cells v ≠ .link t := fun t => hforces.head v t rfl
            rw [Ty.subst, hθ₁.free v fun t _ => hlink t, headKind]
            rcases PartialM.bind_some hrun with ⟨tv, s₂, hread, hrun⟩ | ⟨e, s₂, hread, -⟩
            case inr => cases hread
            cases hread
            cases hcell : s₁.cells v with
            | link t => exact absurd hcell (hlink t)
            | unbound u l k =>
                rw [hcell] at hrun
                cases hrun
                exact ⟨k, rfl, rfl⟩
            | rigid u l k =>
                rw [hcell] at hrun
                cases hrun
                exact ⟨k, rfl, rfl⟩
        | _ =>
            cases hrun
            exact ⟨_, rfl, rfl⟩
      · rcases force_forces hd ht hforce with ⟨_, _, heq, -⟩
        cases heq

end Reads

/-! ### Binding -/

/-- The computation calls `error` when `P` holds and not otherwise, and it does not fail
for a label that was not found. -/
def PanicsIff {α : Type} (x : TC α) (s : TCState) (P : Prop) : Prop :=
  ∀ r s', x s = some (r, s') →
    (∃ message, r = .error (.panic message)) ∧ P ∨
      (∀ message, r ≠ .error (.panic message)) ∧
        (∀ sp tag l, r ≠ .error (.error (.unknownField sp tag l))) ∧ ¬P

section PanicsIff

variable {α β : Type} {x : TC α} {f : α → TC β} {P Q : Prop}

theorem FailsIff.panicsIff (h : FailsIff x s P) : PanicsIff x s P := by
  intro r s' hrun
  rcases h r s' hrun with ⟨⟨a, rfl⟩, hP⟩ | ⟨hpanic, hP⟩
  · exact .inr ⟨(fun _ h => nomatch h), (fun _ _ _ h => nomatch h), hP⟩
  · exact .inl ⟨hpanic, hP⟩

theorem PanicsIff.throw {e : TypeError} (h : ∀ sp tag l, e ≠ .unknownField sp tag l) :
    PanicsIff (throwTC e : TC α) s False := by
  intro r s' hrun
  cases hrun
  refine .inr ⟨(fun _ h => nomatch h), ?_, id⟩
  intro sp tag l heq
  cases heq
  exact h sp tag l rfl

theorem PanicsIff.iff (h : PanicsIff x s P) (hiff : P ↔ Q) : PanicsIff x s Q := by
  rw [← hiff]
  exact h

theorem FailsIff.bind_panicsIff (h : FailsIff x s P)
    (hf : ∀ a s₁, x s = some (.ok a, s₁) → PanicsIff (f a) s₁ Q) :
    PanicsIff (x >>= f) s (P ∨ Q) := by
  intro r s' hrun
  rcases PartialM.bind_some hrun with ⟨a, s₁, hx, hrun⟩ | ⟨e, s₁, hx, heq⟩
  · rcases h _ s₁ hx with ⟨-, hP⟩ | ⟨⟨m, heq⟩, -⟩
    · rcases hf a s₁ hx r s' hrun with ⟨hpanic, hQ⟩ | ⟨hpanic, hfield, hQ⟩
      · exact .inl ⟨hpanic, .inr hQ⟩
      · exact .inr ⟨hpanic, hfield, not_or.mpr ⟨hP, hQ⟩⟩
    · cases heq
  · cases heq
    rcases h _ _ hx with ⟨⟨a, heq⟩, -⟩ | ⟨⟨m, heq⟩, hP⟩
    · cases heq
    · cases heq
      exact .inl ⟨⟨m, rfl⟩, .inl hP⟩

/-- After a computation that always ends well. -/
theorem FailsIff.after_panicsIff (h : FailsIff x s False)
    (hf : ∀ a s₁, x s = some (.ok a, s₁) → PanicsIff (f a) s₁ P) : PanicsIff (x >>= f) s P :=
  (h.bind_panicsIff hf).iff (by rw [false_or])

/-- One computation after another, neither of which calls `error`. -/
theorem PanicsIff.bind (h : PanicsIff x s False)
    (hf : ∀ a s₁, x s = some (.ok a, s₁) → PanicsIff (f a) s₁ False) :
    PanicsIff (x >>= f) s False := by
  intro r s' hrun
  rcases PartialM.bind_some hrun with ⟨a, s₁, hx, hrun⟩ | ⟨e, s₁, hx, heq⟩
  · exact hf a s₁ hx r s' hrun
  · cases heq
    rcases h _ _ hx with ⟨-, hfalse⟩ | ⟨hpanic, hfield, -⟩
    · exact hfalse.elim
    · refine .inr ⟨?_, ?_, id⟩
      · intro m heq
        cases heq
        exact hpanic m rfl
      · intro sp tag l heq
        cases heq
        exact hfield sp tag l rfl

theorem PanicsIff.forM {ι : Type} {g : ι → TC Unit} {I : TCState → Prop} {is : List ι} (hs : I s)
    (hg : ∀ i ∈ is, ∀ s, I s → PanicsIff (g i) s False)
    (hinv : ∀ i ∈ is, ∀ s a s', I s → g i s = some (.ok a, s') → I s') :
    PanicsIff (is.forM g) s False := by
  induction is generalizing s with
  | nil => exact (FailsIff.pure _).panicsIff
  | cons i is ih =>
      apply (hg i List.mem_cons_self s hs).bind
      intro a s₁ hrun
      apply ih (hinv i List.mem_cons_self s a s₁ hs hrun)
      · exact fun j hj => hg j (List.mem_cons_of_mem i hj)
      · exact fun j hj => hinv j (List.mem_cons_of_mem i hj)

theorem reportPair_panicsIff {report : CType → CType → TypeError}
    (hreport : ∀ ca cb sp tag l, report ca cb ≠ .unknownField sp tag l) (hd : Deep d s)
    (ht : t.In s) (hu : u.In s) (hθ : Realizes θ s) :
    PanicsIff (reportPair n report t u : TC α) s
      (HasRigid s (t.subst θ) ∨ HasRigid s (u.subst θ)) := by
  apply (freeze_failsIff hd ht hθ).bind_panicsIff
  intro ca s₁ hrun
  have hquiet := (freeze_calm hd ht).quiet n _ s₁ hrun
  rw [← hquiet.hasRigid (t := u.subst θ), ← or_false (HasRigid s₁ (u.subst θ))]
  apply (freeze_failsIff hquiet.deep (hquiet.isIn.mpr hu) (hquiet.realizes.mpr hθ)).bind_panicsIff
  intro cb s₂ _
  exact .throw (hreport ca cb)

end PanicsIff

/-- The target is unbound. -/
def Free (x : Nat) (s : TCState) : Prop := ∃ u l k, s.cells x = .unbound u l k

theorem occursAdjust_panicsIff {x : Nat} (hx : Free x s) :
    PanicsIff (occursAdjust sp x lvl n t) s False := by
  induction n generalizing t s with
  | zero =>
      intro r s' hrun
      cases hrun
  | succ n ih =>
      have hkeeps : ∀ t s a s', Free x s → occursAdjust sp x lvl n t s = some (.ok a, s') →
          Free x s' := by
        intro t s a s' hfree hrun
        rcases hfree with ⟨u, l, k, hcell⟩
        rcases (occursAdjust_checks n t s _ s' hrun).1.unbound x u l k hcell with ⟨l', -, hcell'⟩
        exact ⟨u, l', k, hcell'⟩
      cases t with
      | var v =>
          by_cases hv : v = x
          · rw [occursAdjust, if_pos hv]
            rcases hx with ⟨u, l, k, hcell⟩
            apply FailsIff.readRef.after_panicsIff
            intro tv s₁ hread
            cases hread
            rw [hcell]
            cases k with
            | effect => exact .throw (by intro _ _ _ h; cases h)
            | star => exact .throw (by intro _ _ _ h; cases h)
            | arrow k k' => exact .throw (by intro _ _ _ h; cases h)
          · rw [occursAdjust, if_neg hv]
            apply FailsIff.readRef.after_panicsIff
            intro tv s₁ hread
            cases hread
            cases s.cells v with
            | link t => exact ih hx
            | rigid u l k => exact (FailsIff.pure _).panicsIff
            | unbound u l k =>
                by_cases hl : l > lvl
                · simp only [if_pos hl]
                  exact (FailsIff.ok rfl).panicsIff
                · simp only [if_neg hl]
                  exact (FailsIff.pure _).panicsIff
      | con c ts => exact .forM hx (fun t _ s hs => ih hs) fun t _ => hkeeps t
      | arr a e b =>
          apply (ih hx).bind
          intro _ s₁ hrun
          have hx₁ := hkeeps _ _ _ _ hx hrun
          apply (ih hx₁).bind
          intro _ s₂ hrun
          exact ih (hkeeps _ _ _ _ hx₁ hrun)
      | record tag row => exact ih hx
      | rowEmpty => exact (FailsIff.pure _).panicsIff
      | rowExtend l p rest =>
          apply (ih hx).bind
          intro _ s₁ hrun
          exact ih (hkeeps _ _ _ _ hx hrun)

theorem rigidUnify_panicsIff {x uniq : Nat} {l : Int} {k : Kind} (hd : Deep d s) (hx : x < s.next)
    (ht : t.In s) (hhead : ∀ v u, t = .var v → s.cells v ≠ .link u) (hθ : Realizes θ s) :
    PanicsIff (rigidUnify sp n x uniq l k t) s False := by
  have hescape : PanicsIff (throwTC (.rigidEscape sp uniq) : TC Unit) s False :=
    .throw (by intro _ _ _ h; cases h)
  cases t with
  | var v =>
      by_cases hvx : v = x
      · rw [rigidUnify, if_pos hvx]
        exact (FailsIff.pure _).panicsIff
      · rw [rigidUnify, if_neg hvx]
        apply FailsIff.readRef.after_panicsIff
        intro tv s₁ hread
        cases hread
        cases hcell : s.cells v with
        | link t => exact absurd hcell (hhead v t rfl)
        | rigid u l' k' => exact hescape
        | unbound u l' k' =>
            by_cases hk : k' ≠ k
            · simp only [if_pos hk]
              apply (freezeTolerant_failsIff hd (var_isIn hx) hθ).after_panicsIff
              intro ca s₁ hrun
              have hquiet := (freezeTolerant_calm hd (var_isIn hx)).quiet n _ s₁ hrun
              apply FailsIff.after_panicsIff (freezeTolerant_failsIff hquiet.deep
                (hquiet.isIn.mpr ht) (hquiet.realizes.mpr hθ))
              intro cb s₂ _
              exact .throw (by intro _ _ _ h; cases h)
            · simp only [if_neg hk]
              by_cases hl : l' < l
              · simp only [if_pos hl]
                exact hescape
              · simp only [if_neg hl]
                exact (FailsIff.ok rfl).panicsIff
  | _ => exact hescape

theorem unifyVar_panicsIff {x : Nat} (hd : Deep d s) (hx : x < s.next)
    (hlink : ∀ t, s.cells x ≠ .link t) (ht : t.In s)
    (hhead : ∀ v u, t = .var v → s.cells v ≠ .link u) (hθ : Realizes θ s) :
    PanicsIff (unifyVar sp n x t) s (KindClash s x (t.subst θ)) := by
  apply FailsIff.readRef.after_panicsIff
  intro tv s₁ hread
  cases hread
  cases hcell : s.cells x with
  | link t => exact absurd hcell (hlink t)
  | rigid u l k =>
      apply (rigidUnify_panicsIff hd hx ht hhead hθ).iff
      constructor
      · exact False.elim
      · rintro ⟨u', l', k', hcell', -⟩
        rw [hcell] at hcell'
        cases hcell'
  | unbound u l k =>
      apply FailsIff.after_panicsIff
      · intro r s' hrun
        rcases kindOf_kind hd ht hθ hrun with ⟨k', rfl, -⟩
        exact .inl ⟨⟨k', rfl⟩, id⟩
      · intro tk s₁ hkind
        have hquiet := (kindOf_calm hd ht).quiet n _ s₁ hkind
        have hθ₁ := hquiet.realizes.mpr hθ
        have hin₁ := hquiet.isIn.mpr ht
        have hx₁ : x < s₁.next := hquiet.next.symm ▸ hx
        rcases kindOf_kind hd ht hθ hkind with ⟨k', heq, hhead'⟩
        cases heq
        have hnot : ¬HasRigid s (Ty.var x) := by
          rw [hasRigid_var]
          rintro ⟨u', l', k', hcell'⟩
          rw [hcell] at hcell'
          cases hcell'
        by_cases hk : k ≠ tk
        · simp only [if_pos hk]
          have hreport : PanicsIff (reportPair n (.kindMismatch sp) (.var x) t : TC Unit) s₁ _ :=
            reportPair_panicsIff (fun _ _ _ _ _ h => nomatch h) hquiet.deep (var_isIn hx₁) hin₁ hθ₁
          apply hreport.iff
          rw [hquiet.hasRigid, hquiet.hasRigid, Ty.subst, hθ.free x fun t _ => hlink t]
          constructor
          · rintro (h | h)
            · exact absurd h hnot
            · refine ⟨u, l, k, hcell, ?_, h⟩
              rw [hhead']
              intro heq
              exact hk (Option.some.inj heq).symm
          · rintro ⟨-, -, -, -, -, h⟩
            exact .inr h
        · simp only [if_neg hk]
          have hfree : Free x s₁ := by
            rcases hquiet.unbound x u l k hcell with ⟨l', -, hcell'⟩
            exact ⟨u, l', k, hcell'⟩
          apply ((occursAdjust_panicsIff hfree).bind _).iff
          · constructor
            · exact False.elim
            · rintro ⟨u', l', k', hcell', hne, -⟩
              rw [hcell] at hcell'
              cases hcell'
              rw [not_not.mp hk] at hne
              exact hne hhead'
          · intro _ s₂ _
            exact (FailsIff.ok rfl).panicsIff

/-! ### Rows -/

theorem Forces.realizes_var (h : Forces d s t s' (.var v)) (hθ : Realizes θ s) :
    t.subst θ = .var v := by
  rw [← h.subst hθ]
  exact (h.quiet.realizes.mpr hθ).free v fun u _ => h.head v u rfl

/-- The variable that was found is the one that the row ends in. -/
theorem rowTailRef_end (hd : Deep d s) (ht : t.In s) (hθ : Realizes θ s)
    {r : Except Failure (Option Nat)} (hrun : rowTailRef n t s = some (r, s')) :
    ∃ o, r = .ok o ∧ ∀ v, o = some v ↔ (t.subst θ).rowEnd = .var v := by
  induction n generalizing t s with
  | zero => cases hrun
  | succ n ih =>
      rcases PartialM.bind_some hrun with ⟨t', s₁, hforce, hrun⟩ | ⟨e, s₁, hforce, -⟩
      · have hforces := (force_calm hd ht).result n t' s₁ hforce
        have hend : (∀ v, (t'.subst θ).rowEnd ≠ .var v) →
            ∀ v, (none : Option Nat) = some v ↔ (t.subst θ).rowEnd = .var v := by
          intro hne v
          constructor
          · exact fun h => nomatch h
          · intro h
            rw [← hforces.subst hθ] at h
            exact absurd h (hne v)
        cases t' with
        | rowExtend l p rest =>
            have hin := (hforces.part .rest).1
            rcases ih hforces.quiet.deep hin (hforces.quiet.realizes.mpr hθ) hrun with ⟨o, heq, ho⟩
            refine ⟨o, heq, ?_⟩
            intro v
            rw [ho v, ← hforces.subst hθ, Ty.subst, Ty.rowEnd]
        | var v =>
            cases hrun
            refine ⟨some v, rfl, ?_⟩
            intro w
            rw [hforces.realizes_var hθ]
            change some v = some w ↔ Ty.var v = Ty.var w
            rw [Option.some.injEq, Ty.var.injEq]
        | _ =>
            cases hrun
            exact ⟨none, rfl, hend fun _ h => nomatch h⟩
      · rcases force_forces hd ht hforce with ⟨_, _, heq, -⟩
        cases heq

theorem realizes_alloc {k : Kind} : Realizes θ (s.alloc lvl k) ↔ Realizes θ s := by
  have hlink : ∀ v t, v < (s.alloc lvl k).next ∧ (s.alloc lvl k).cells v = .link t ↔
      v < s.next ∧ s.cells v = .link t := by
    intro v t
    constructor
    · rintro ⟨hv, h⟩
      exact alloc_link hv h
    · rintro ⟨hv, h⟩
      exact ⟨hv.trans_le (Nat.le_succ _), (alloc_old hv).trans h⟩
  constructor
  · intro hθ
    constructor
    · intro v t hv h
      rcases (hlink v t).mpr ⟨hv, h⟩ with ⟨hv, h⟩
      exact hθ.link v t hv h
    · intro v hfree
      apply hθ.free v
      intro t hv h
      rcases (hlink v t).mp ⟨hv, h⟩ with ⟨hv, h⟩
      exact hfree t hv h
  · intro hθ
    constructor
    · intro v t hv h
      rcases (hlink v t).mp ⟨hv, h⟩ with ⟨hv, h⟩
      exact hθ.link v t hv h
    · intro v hfree
      apply hθ.free v
      intro t hv h
      rcases (hlink v t).mpr ⟨hv, h⟩ with ⟨hv, h⟩
      exact hfree t hv h

/-- A row with two new variables for a label has no rigid variable. -/
theorem not_hasRigid_new {k : Kind} (hθ : Realizes θ s) :
    ¬HasRigid ((s.alloc lvl .star).alloc lvl k)
      ((Ty.rowExtend l (.var s.next) (.var (s.next + 1))).subst θ) := by
  have hfree : ∀ v, s.next ≤ v → θ v = .var v := fun v hv =>
    hθ.free v fun _ hlt => absurd hlt (not_lt.mpr hv)
  have hold : s.next < (s.alloc lvl .star).next := Nat.lt_succ_self _
  have hnew : ((s.alloc lvl .star).alloc lvl k).cells (s.next + 1) = _ := alloc_new
  rw [Ty.subst, Ty.subst, Ty.subst, hfree _ le_rfl, hfree _ (Nat.le_succ _), hasRigid_rowExtend,
    hasRigid_var, hasRigid_var, alloc_old hold, alloc_new, hnew]
  rintro (⟨_, _, _, h⟩ | ⟨_, _, _, h⟩)
  · cases h
  · cases h

/-- What becomes of a search for a label in a row. -/
inductive Looks (d : Nat → Nat) (s : TCState) (forbidden : Option Nat) (l : String) (row : Ty) :
    Except Failure (Ty × Ty) → TCState → Prop where
  | found (e : Ty × Ty) (s' : TCState) (h : ∃ f ∈ row.rowFields, l = f.1) :
      Looks d s forbidden l row (.ok e) s'
  | opened (v : Nat) (r : Except Failure (Ty × Ty)) (s' : TCState)
      (h : row.rowEnd = .var v) (hne : some v ≠ forbidden)
      (hpanic : ∀ message, r ≠ .error (.panic message))
      (hfield : ∀ sp tag l, r ≠ .error (.error (.unknownField sp tag l))) :
      Looks d s forbidden l row r s'
  | missing (sp : SourceSpan) (s' : TCState) (h : ∀ f ∈ row.rowFields, l ≠ f.1)
      (hquiet : Quiet d s s')
      (hend : row.rowEnd = .rowEmpty ∨ ∃ v, row.rowEnd = .var v ∧ some v = forbidden) :
      Looks d s forbidden l row (.error (.error (.unknownField sp "<row>" l))) s'
  | noRow (message : String) (s' : TCState) (h : ∀ f ∈ row.rowFields, l ≠ f.1)
      (hvar : ∀ v, row.rowEnd ≠ .var v)
      (hempty : row.rowEnd ≠ .rowEmpty) :
      Looks d s forbidden l row (.error (.panic message)) s'

theorem rewriteRowGuarded_looks (hd : Deep d s) (hin : row.In s) (hθ : Realizes θ s)
    {r : Except Failure (Ty × Ty)}
    (hrun : rewriteRowGuarded sp lvl forbidden l n row s = some (r, s')) :
    Looks d s forbidden l (row.subst θ) r s' := by
  induction n generalizing row s r s' with
  | zero => cases hrun
  | succ n ih =>
      rcases PartialM.bind_some hrun with ⟨row', s₁, hforce, hrun⟩ | ⟨e, s₁, hforce, -⟩
      · have hforces := (force_calm hd hin).result n row' s₁ hforce
        have hquiet := hforces.quiet
        have hθ₁ := hquiet.realizes.mpr hθ
        rw [← hforces.subst hθ]
        cases row' with
        | rowExtend l' p rest =>
            rw [Ty.subst]
            by_cases hl : l = l'
            · simp only [if_pos hl] at hrun
              cases hrun
              exact .found _ _ ⟨_, List.mem_cons_self, hl⟩
            · simp only [if_neg hl] at hrun
              have hfields : ∀ {q}, (∀ f ∈ (rest.subst θ).rowFields, l ≠ f.1) →
                  ∀ f ∈ (Ty.rowExtend l' q (rest.subst θ)).rowFields, l ≠ f.1 := by
                intro q h f hf
                rcases List.mem_cons.mp hf with rfl | hf
                · exact hl
                · exact h f hf
              rcases PartialM.bind_some hrun with ⟨⟨t', u⟩, s₂, hrec, hret⟩ | ⟨e, s₂, hrec, heq⟩
              · cases hret
                cases ih hquiet.deep (hforces.part .rest).1 hθ₁ hrec with
                | found _ _ h =>
                    rcases h with ⟨f, hf, heq⟩
                    exact .found _ _ ⟨f, List.mem_cons_of_mem _ hf, heq⟩
                | opened v _ _ h hne =>
                    exact .opened v _ _ h hne (fun _ h => nomatch h) fun _ _ _ h => nomatch h
              · cases heq
                cases ih hquiet.deep (hforces.part .rest).1 hθ₁ hrec with
                | opened v _ _ h hne hpanic hfield =>
                    refine .opened v _ _ h hne ?_ ?_
                    · intro m heq
                      cases heq
                      exact hpanic m rfl
                    · intro sp tag l heq
                      cases heq
                      exact hfield sp tag l rfl
                | missing _ _ h hquiet₂ hend =>
                    exact .missing _ _ (hfields h) (hquiet.trans hquiet₂) hend
                | noRow _ _ h hvar hempty => exact .noRow _ _ (hfields h) hvar hempty
        | var v =>
            rw [Ty.subst, hθ₁.free v fun t _ => hforces.head v t rfl]
            by_cases hv : some v = forbidden
            · simp only [if_pos hv] at hrun
              cases hrun
              exact .missing _ _ (fun _ h => nomatch h) hquiet (.inr ⟨v, rfl, hv⟩)
            · simp only [if_neg hv] at hrun
              have hv₁ : v < s₁.next := hquiet.next.symm ▸ hforces.isIn v List.mem_cons_self
              have hvar : PanicsIff (unifyVar sp n v (.rowExtend l (.var s₁.next)
                  (.var (s₁.next + 1)))) ((s₁.alloc lvl .star).alloc lvl .effect) False := by
                apply PanicsIff.iff
                · apply unifyVar_panicsIff hquiet.deep.alloc.alloc _ _ _ _
                    (realizes_alloc.mpr (realizes_alloc.mpr hθ₁))
                  · exact hv₁.trans (Nat.lt_succ_of_lt (Nat.lt_succ_self _))
                  · intro t
                    rw [alloc_old (hv₁.trans (Nat.lt_succ_self _)), alloc_old hv₁]
                    exact hforces.head v t rfl
                  · intro w hw
                    rcases List.mem_cons.mp hw with rfl | hw
                    · exact Nat.lt_succ_of_lt (Nat.lt_succ_self _)
                    · rcases List.mem_singleton.mp hw with rfl
                      exact Nat.lt_succ_self _
                  · intro _ _ h
                    cases h
                · constructor
                  · rintro ⟨-, -, -, -, -, h⟩
                    exact not_hasRigid_new hθ₁ h
                  · exact False.elim
              have hall : PanicsIff (unifyVar sp n v (.rowExtend l (.var s₁.next)
                  (.var (s₁.next + 1))) >>= fun _ =>
                    (Pure.pure (Ty.var s₁.next, Ty.var (s₁.next + 1)) : TC (Ty × Ty)))
                  ((s₁.alloc lvl .star).alloc lvl .effect) False :=
                hvar.bind fun _ _ _ => (FailsIff.pure _).panicsIff
              rcases hall r s' hrun with ⟨-, hfalse⟩ | ⟨hpanic, hfield, -⟩
              · exact hfalse.elim
              · exact .opened v r s' rfl hv hpanic hfield
        | rowEmpty =>
            cases hrun
            exact .missing _ _ (fun _ h => nomatch h) hquiet (.inl rfl)
        | con c ts =>
            cases hrun
            exact .noRow _ _ (fun _ h => nomatch h) (fun _ h => nomatch h) fun h => nomatch h
        | arr a e b =>
            cases hrun
            exact .noRow _ _ (fun _ h => nomatch h) (fun _ h => nomatch h) fun h => nomatch h
        | record tag row =>
            cases hrun
            exact .noRow _ _ (fun _ h => nomatch h) (fun _ h => nomatch h) fun h => nomatch h
      · rcases force_forces hd hin hforce with ⟨_, _, heq, -⟩
        cases heq

/-! ### Shadowed labels -/

theorem collectRowPairs_fields (hd : Deep d s) (ht : t.In s) (hθ : Realizes θ s)
    {r : Except Failure (List (String × Ty))} (hrun : collectRowPairs n t s = some (r, s')) :
    ∃ pairs, r = .ok pairs ∧
      pairs.map (fun p => (p.1, p.2.subst θ)) = (t.subst θ).rowFields := by
  induction n generalizing t s r s' with
  | zero => cases hrun
  | succ n ih =>
      rcases PartialM.bind_some hrun with ⟨t', s₁, hforce, hrun⟩ | ⟨e, s₁, hforce, -⟩
      · have hforces := (force_calm hd ht).result n t' s₁ hforce
        have hθ₁ := hforces.quiet.realizes.mpr hθ
        cases t' with
        | rowExtend l p rest =>
            rw [← hforces.subst hθ]
            have hin := (hforces.part .rest).1
            rcases PartialM.bind_some hrun with ⟨pairs, s₂, hrec, hret⟩ | ⟨e, s₂, hrec, heq⟩
            · cases hret
              rcases ih hforces.quiet.deep hin hθ₁ hrec with ⟨_, heq, hmap⟩
              cases heq
              refine ⟨_, rfl, ?_⟩
              rw [List.map_cons, hmap]
              rfl
            · rcases ih hforces.quiet.deep hin hθ₁ hrec with ⟨_, heq, -⟩
              cases heq
        | var v =>
            cases hrun
            rw [hforces.realizes_var hθ]
            exact ⟨_, rfl, rfl⟩
        | _ =>
            cases hrun
            rw [← hforces.subst hθ]
            exact ⟨_, rfl, rfl⟩
      · rcases force_forces hd ht hforce with ⟨_, _, heq, -⟩
        cases heq

/-- Apply a map to all the types of the groups. -/
def mapGroups (f : Ty → Ty) (m : List (String × List Ty)) : List (String × List Ty) :=
  m.map fun g => (g.1, g.2.map f)

theorem insertShadow_map (f : Ty → Ty) (m : List (String × List Ty)) :
    insertShadow l (f t) (mapGroups f m) = mapGroups f (insertShadow l t m) := by
  induction m with
  | nil => rfl
  | cons g m ih =>
      change (if l = g.1 then _ else if l < g.1 then _ else _) = mapGroups f (if _ then _ else _)
      by_cases heq : l = g.1
      · rw [if_pos heq, if_pos heq]
        rfl
      · rw [if_neg heq, if_neg heq]
        by_cases hlt : l < g.1
        · rw [if_pos hlt, if_pos hlt]
          rfl
        · rw [if_neg hlt, if_neg hlt]
          exact congrArg _ ih

theorem grouped_map (f : Ty → Ty) (pairs : List (String × Ty)) (m : List (String × List Ty)) :
    (pairs.map fun p => (p.1, f p.2)).foldl (fun m (l, t) => insertShadow l t m) (mapGroups f m) =
      mapGroups f (pairs.foldl (fun m (l, t) => insertShadow l t m) m) := by
  induction pairs generalizing m with
  | nil => rfl
  | cons p pairs ih =>
      rw [List.map_cons, List.foldl_cons, List.foldl_cons, ← ih]
      congr 1
      exact insertShadow_map f m

/-- The last two types of the label have a rigid variable. -/
def GroupClash (s : TCState) (θ : Nat → Ty) (ts : List Ty) : Prop :=
  ∃ t₁ t₂ us, ts = t₁ :: t₂ :: us ∧ (HasRigid s (t₁.subst θ) ∨ HasRigid s (t₂.subst θ))

theorem checkGroup_failsIff {g : String × List Ty} (hd : Deep d s) (hin : ∀ u ∈ g.2, u.In s)
    (hθ : Realizes θ s) : FailsIff (checkGroup sp n g) s (GroupClash s θ g.2) := by
  rcases g with ⟨l, ts⟩
  have hshort : (∀ t₁ t₂ us, ts ≠ t₁ :: t₂ :: us) → (False ↔ GroupClash s θ ts) := by
    intro hne
    constructor
    · exact False.elim
    · rintro ⟨t₁, t₂, us, heq, -⟩
      exact hne t₁ t₂ us heq
  rcases ts with _ | ⟨t₁, _ | ⟨t₂, ts⟩⟩
  · exact (FailsIff.pure _).iff (hshort fun _ _ _ h => nomatch h)
  · exact (FailsIff.pure _).iff (hshort fun _ _ _ h => nomatch h)
  · have hin₂ := hin t₂ (List.mem_cons_of_mem t₁ List.mem_cons_self)
    apply FailsIff.iff (P := HasRigid s (t₁.subst θ) ∨ HasRigid s (t₂.subst θ))
    · apply (freeze_failsIff hd (hin t₁ List.mem_cons_self) hθ).bind
      intro c₁ s₁ hrun
      have hquiet := (freeze_calm hd (hin t₁ List.mem_cons_self)).quiet n _ s₁ hrun
      rw [← hquiet.hasRigid]
      apply FailsIff.before
      · exact freeze_failsIff hquiet.deep (hquiet.isIn.mpr hin₂) (hquiet.realizes.mpr hθ)
      · exact fun c₂ s₂ _ => .ok rfl
    · constructor
      · intro h
        exact ⟨t₁, t₂, ts, rfl, h⟩
      · rintro ⟨_, _, _, heq, h⟩
        cases heq
        exact h

theorem warnOnShadow_failsIff (hd : Deep d s) (ht : t.In s) (hθ : Realizes θ s) :
    FailsIff (warnOnShadow sp n t) s (ShadowClash s (t.subst θ)) := by
  apply FailsIff.after
  · intro r s' hrun
    rcases collectRowPairs_fields hd ht hθ hrun with ⟨pairs, rfl, -⟩
    exact .inl ⟨⟨pairs, rfl⟩, id⟩
  · intro pairs s₁ hpairs
    have hcalm := collectRowPairs_calm hd ht
    have hquiet := hcalm.quiet n _ s₁ hpairs
    rcases collectRowPairs_fields hd ht hθ hpairs with ⟨_, heq, hmap⟩
    cases heq
    let grouped := pairs.foldl (fun m (l, t) => insertShadow l t m) []
    have hin : ∀ g ∈ grouped, ∀ s₂, Quiet d s s₂ → ∀ u ∈ g.2, u.In s₂ := by
      intro g hg s₂ hquiet₂ u hu
      rcases mem_grouped hg hu with ⟨p, hp, rfl⟩ | ⟨g', hg', -⟩
      · exact hquiet₂.isIn.mpr (hcalm.result n pairs s₁ hpairs p hp)
      · cases hg'
    have hgroups : FailsIff (grouped.forM (checkGroup sp n)) s₁
        (∃ g ∈ grouped, GroupClash s θ g.2) := by
      apply FailsIff.forM (I := Quiet d s) hquiet
      · intro g hg s₂ hquiet₂
        apply (checkGroup_failsIff hquiet₂.deep (hin g hg s₂ hquiet₂) (hquiet₂.realizes.mpr hθ)).iff
        unfold GroupClash
        simp only [hquiet₂.hasRigid]
      · intro g hg s₂ _ s₃ hquiet₂ hrun
        exact hquiet₂.trans ((checkGroup_calm hquiet₂.deep (hin g hg s₂ hquiet₂)).quiet n _ s₃ hrun)
    apply hgroups.iff
    unfold ShadowClash
    rw [← hmap, show ([] : List (String × List Ty)) = mapGroups (·.subst θ) [] from rfl,
      grouped_map]
    constructor
    · rintro ⟨⟨l, _⟩, hg, t₁, t₂, us, rfl, h⟩
      exact ⟨l, _, _, _, List.mem_map.mpr ⟨_, hg, rfl⟩, h⟩
    · rintro ⟨l, t₁, t₂, us, hmem, h⟩
      rcases List.mem_map.mp hmem with ⟨⟨l', ts⟩, hg, heq⟩
      rcases ts with _ | ⟨u₁, _ | ⟨u₂, ts⟩⟩
      · cases heq
      · cases heq
      · cases heq
        exact ⟨_, hg, u₁, u₂, ts, rfl, h⟩

/-! ### Clashes -/

theorem differ_var_right : differ t (.var v) = false := by
  cases t with
  | _ => rfl

theorem clash_var_left : Clash s (.var v) t ↔ KindClash s v t := by
  constructor
  · intro h
    cases h with
    | kindLeft _ _ h => exact h
    | kindRight _ _ hvar => exact absurd rfl (hvar v)
    | heads _ _ h => cases h
  · exact .kindLeft v t

theorem clash_var_right (hvar : ∀ w, t ≠ .var w) : Clash s t (.var v) ↔ KindClash s v t := by
  constructor
  · intro h
    cases h with
    | kindLeft w => exact absurd rfl (hvar w)
    | kindRight _ _ _ h => exact h
    | heads _ _ h =>
        rw [differ_var_right] at h
        cases h
    | missing _ _ _ _ h => exact absurd rfl (h v)
    | noRow _ _ _ _ _ h => exact absurd rfl (h v)
  · exact .kindRight t v hvar

theorem clash_of_differ (h : differ a b) :
    Clash s a b ↔ HasRigid s a ∨ HasRigid s b := by
  constructor
  · intro hclash
    cases hclash with
    | heads _ _ _ hrigid => exact hrigid
    | kindLeft => cases h
    | kindRight =>
        rw [differ_var_right] at h
        cases h
    | missing =>
        cases b with
        | _ => cases h
    | noRow =>
        cases b with
        | _ => cases h
  · exact .heads a b h

theorem not_clash (ha : ∀ v, a ≠ .var v) (hb : ∀ v, b ≠ .var v)
    (hrow : ∀ l p rest, a ≠ .rowExtend l p rest) (h : differ a b = false) : ¬Clash s a b := by
  intro hclash
  cases hclash with
  | heads _ _ hdiffer =>
      rw [h] at hdiffer
      cases hdiffer
  | kindLeft v => exact ha v rfl
  | kindRight _ v => exact hb v rfl
  | missing l p rest => exact hrow l p rest rfl
  | noRow l p rest => exact hrow l p rest rfl

theorem substList_length (ts : List Ty) : (Ty.substList θ ts).length = ts.length := by
  induction ts with
  | nil => rfl
  | cons t ts ih => exact congrArg Nat.succ ih

/-- The variables that are left are not linked. -/
theorem differ_subst (ha : ∀ v, a = .var v → θ v = .var v) (hb : ∀ v, b = .var v → θ v = .var v) :
    differ (a.subst θ) (b.subst θ) = differ a b := by
  by_cases hvar : ∃ w, b = .var w
  · rcases hvar with ⟨w, rfl⟩
    have hsubst : (Ty.var w).subst θ = .var w := hb w rfl
    rw [hsubst, differ_var_right, differ_var_right]
  · cases a with
    | var v =>
        rw [Ty.subst, ha v rfl]
        rfl
    | con c ts =>
        cases b with
        | var w => exact absurd ⟨w, rfl⟩ hvar
        | con c' ts' => rw [Ty.subst, Ty.subst, differ, differ, substList_length, substList_length]
        | _ => rfl
    | _ =>
        cases b with
        | var w => exact absurd ⟨w, rfl⟩ hvar
        | _ => rfl

theorem subst_ne_var (h : ∀ v, t ≠ .var v) (w : Nat) : t.subst θ ≠ .var w := by
  cases t with
  | var v => exact absurd rfl (h v)
  | _ => exact fun h => nomatch h

/-- The computation failed with a call of `error`. -/
def Panics (r : Except Failure Unit) : Prop := ∃ message, r = .error (.panic message)

theorem PanicsIff.panics {x : TC Unit} {P : Prop} {r : Except Failure Unit} (h : PanicsIff x s P)
    (hrun : x s = some (r, s')) : Panics r ↔ P := by
  rcases h r s' hrun with ⟨hpanic, hP⟩ | ⟨hpanic, -, hP⟩
  · exact ⟨fun _ => hP, fun _ => hpanic⟩
  · constructor
    · rintro ⟨m, heq⟩
      exact absurd heq (hpanic m)
    · exact fun h => absurd h hP

/-! ### One equation -/

theorem warnIfRecordShadow_run (hne : ∀ v, t ≠ .var v) {r : Except Failure Unit}
    (hrun : warnIfRecordShadow sp n t s = some (r, s')) :
    r = .ok () ∨ ∃ tag row, t = .record tag row ∧ warnOnShadow sp n row s = some (r, s') := by
  rcases PartialM.bind_some hrun with ⟨t', s₁, hforce, hrun⟩ | ⟨e, s₁, hforce, heq⟩
  · cases force_head hne hforce
    cases t with
    | record tag row => exact .inr ⟨tag, row, rfl, hrun⟩
    | _ =>
        cases hrun
        exact .inl rfl
  · cases force_head hne hforce

/-- Nothing is shown of a variable that was bound to a variable. -/
theorem BindsOne.warnIfRecordShadow {x : Nat} (hs : s.WellFormed) (hx : ∀ t, s.cells x ≠ .link t)
    (hv : ∀ t, s.cells v ≠ .link t) (hne : v ≠ x) (h : BindsOne s x (.var v) s₁)
    {r : Except Failure Unit} (hrun : warnIfRecordShadow sp n (.var v) s₁ = some (r, s')) :
    r = .ok () := by
  have hforced : ∀ {r s₂}, force n (.var v) s₁ = some (r, s₂) → ∃ w, r = .ok (.var w) := by
    intro r s₂ hforce
    rcases h with h | ⟨w, heq, h⟩
    · cases force_unlinked (h.not_link hs hne hv) hforce
      exact ⟨v, rfl⟩
    · cases heq
      have hx₁ := h.not_link hs (Ne.symm hne) hx
      rcases h.before with ⟨s₀, -, -, rfl⟩
      cases n with
      | zero => cases hforce
      | succ n =>
          rcases PartialM.bind_some hforce with ⟨tv, s₂, hread, hforce⟩ | ⟨e, s₂, hread, -⟩
          · cases hread
            rw [write_self] at hforce
            rcases PartialM.bind_some hforce with ⟨t', s₂, hrec, hret⟩ | ⟨e, s₂, hrec, -⟩
            · cases force_unlinked hx₁ hrec
              cases hret
              exact ⟨x, rfl⟩
            · cases force_unlinked hx₁ hrec
          · cases hread
  rcases PartialM.bind_some hrun with ⟨t', s₂, hforce, hrun⟩ | ⟨e, s₂, hforce, -⟩
  · rcases hforced hforce with ⟨w, heq⟩
    cases heq
    cases hrun
    rfl
  · rcases hforced hforce with ⟨w, heq⟩
    cases heq

/-- A variable is bound, and then there may be warnings. -/
theorem bind_warn_panics {x : Nat} (hd : Deep d s) (hx : x < s.next)
    (hlink : ∀ t, s.cells x ≠ .link t) (ht : t.In s)
    (hhead : ∀ v u, t = .var v → s.cells v ≠ .link u) (hne : t ≠ .var x) (hθ : Realizes θ s)
    {r : Except Failure Unit}
    (hrun : (unifyVar sp n x t >>= fun _ => warnIfRecordShadow sp n t) s = some (r, s')) :
    (KindClash s x (t.subst θ) → Panics r) ∧
    (Panics r → KindClash s x (t.subst θ) ∨ ∃ tag row s₁, t = .record tag row ∧
      unifyVar sp n x t s = some (.ok (), s₁) ∧ warnOnShadow sp n row s₁ = some (r, s')) := by
  have hvar : PanicsIff (unifyVar sp n x t) s _ := unifyVar_panicsIff hd hx hlink ht hhead hθ
  rcases PartialM.bind_some hrun with ⟨_, s₁, hunify, hwarn⟩ | ⟨e, s₁, hunify, heq⟩
  · have hnot : ¬KindClash s x (t.subst θ) := by
      rw [← hvar.panics hunify]
      rintro ⟨m, heq⟩
      cases heq
    refine ⟨fun h => absurd h hnot, ?_⟩
    rintro ⟨m, rfl⟩
    right
    by_cases ht' : ∃ v, t = .var v
    · rcases ht' with ⟨v, rfl⟩
      rcases unifyVar_run ⟨d, hd⟩ hx hlink ht hhead hne hunify with ⟨-, hone⟩ | ⟨⟨e, heq⟩, -⟩
      · have hok := hone.warnIfRecordShadow ⟨d, hd⟩ hlink (fun u => hhead v u rfl)
          (fun heq => hne (congrArg Ty.var heq)) hwarn
        cases hok
      · cases heq
    · rcases warnIfRecordShadow_run (fun v h => ht' ⟨v, h⟩) hwarn with heq | ⟨tag, row, heq, hwarn⟩
      · cases heq
      · exact ⟨tag, row, s₁, heq, hunify, hwarn⟩
  · cases heq
    have hiff := hvar.panics hunify
    exact ⟨hiff.mpr, fun h => .inl (hiff.mp h)⟩

theorem clash_row {p rest : Ty} (hb : ∀ v, b ≠ .var v) (h : Clash s (.rowExtend l p rest) b) :
    (∀ f ∈ b.rowFields, l ≠ f.1) ∧
    ((b.rowEnd = .rowEmpty ∨ ∃ v, b.rowEnd = .var v ∧ rest.rowEnd = .var v) ∧
        (HasRigid s (.rowExtend l p rest) ∨ HasRigid s b) ∨
      (∀ v, b.rowEnd ≠ .var v) ∧ b.rowEnd ≠ .rowEmpty) := by
  cases h with
  | kindRight _ v => exact absurd rfl (hb v)
  | heads _ _ h =>
      cases b with
      | _ => cases h
  | missing _ _ _ _ _ hfield hend hrigid => exact ⟨hfield, .inl ⟨hend, hrigid⟩⟩
  | noRow _ _ _ _ hfield hvar hempty => exact ⟨hfield, .inr ⟨hvar, hempty⟩⟩

/-- What a search for a label leads to, when a row is unified with something else. -/
theorem row_panics {p rest : Ty} (hd : Deep d s) (hin : (Ty.rowExtend l p rest).In s)
    (hb : b.In s) (hvar : ∀ v, b ≠ .var v) (hθ : Realizes θ s) {o : Option Nat}
    (htail : rowTailRef n rest s = some (.ok o, s₁)) {r : Except Failure (Ty × Ty)}
    (hrun : catchTC (rewriteRowGuarded sp lvl o l n b) (rowReport sp n (.rowExtend l p rest) b) s₁ =
      some (r, s')) :
    (∃ message, r = .error (.panic message)) ↔
      Clash s ((Ty.rowExtend l p rest).subst θ) (b.subst θ) := by
  have hquiet := (rowTailRef_calm hd (Part.rest.isIn hin : rest.In s)).quiet n _ s₁ htail
  have hθ₁ := hquiet.realizes.mpr hθ
  have hb' : ∀ v, b.subst θ ≠ .var v := subst_ne_var hvar
  rcases rowTailRef_end hd (Part.rest.isIn hin) hθ htail with ⟨o', heq, ho⟩
  cases heq
  have hlooks : ∀ {r' s₂}, rewriteRowGuarded sp lvl o l n b s₁ = some (r', s₂) →
      Looks d s₁ o l (b.subst θ) r' s₂ := fun hrun =>
    rewriteRowGuarded_looks hquiet.deep (hquiet.isIn.mpr hb) hθ₁ hrun
  have hopen : ∀ v, (b.subst θ).rowEnd = .var v → some v ≠ o →
      ¬Clash s ((Ty.rowExtend l p rest).subst θ) (b.subst θ) := by
    intro v hend hne hclash
    rcases (clash_row hb' hclash).2 with ⟨hempty | ⟨w, hw, hrest⟩, -⟩ | ⟨hno, -⟩
    · rw [hend] at hempty
      cases hempty
    · rw [hend] at hw
      cases hw
      exact hne ((ho v).mpr hrest).symm
    · exact hno v hend
  have hfail : ∀ e : TypeError, ¬∃ message, (.error (.error e) : Except Failure (Ty × Ty)) =
      .error (.panic message) := by
    rintro e ⟨m, heq⟩
    cases heq
  unfold catchTC at hrun
  split at hrun
  · next e s₂ hx =>
      cases hlooks hx with
      | opened v _ _ hend hne _ hfield =>
          have hnot := hopen v hend hne
          cases e with
          | unknownField sp' tag l' => exact absurd rfl (hfield sp' tag l')
          | _ =>
              cases hrun
              exact ⟨fun h => absurd h (hfail _), fun h => absurd h hnot⟩
      | missing sp' _ hfield hquiet₂ hend =>
          have hin₂ := hquiet₂.isIn.mpr (hquiet.isIn.mpr hin)
          have hb₂ := hquiet₂.isIn.mpr (hquiet.isIn.mpr hb)
          have hθ₂ := hquiet₂.realizes.mpr hθ₁
          have hreport : PanicsIff (reportPair n (.rowMismatch sp) (.rowExtend l p rest) b :
              TC (Ty × Ty)) s₂ _ :=
            reportPair_panicsIff (fun _ _ _ _ _ h => nomatch h) hquiet₂.deep hin₂ hb₂ hθ₂
          simp only [(hquiet.trans hquiet₂).hasRigid] at hreport
          have hiff : Clash s ((Ty.rowExtend l p rest).subst θ) (b.subst θ) ↔
              HasRigid s ((Ty.rowExtend l p rest).subst θ) ∨ HasRigid s (b.subst θ) := by
            constructor
            · intro hclash
              rcases (clash_row hb' hclash).2 with ⟨-, hrigid⟩ | ⟨hno, hempty⟩
              · exact hrigid
              · rcases hend with hend | ⟨v, hv, -⟩
                · exact absurd hend hempty
                · exact absurd hv (hno v)
            · intro hrigid
              apply Clash.missing _ _ _ _ hb' hfield _ hrigid
              rcases hend with hend | ⟨v, hv, hforbidden⟩
              · exact .inl hend
              · exact .inr ⟨v, hv, (ho v).mp hforbidden.symm⟩
          rw [hiff]
          rcases hreport r s' hrun with ⟨hpanic, h⟩ | ⟨hpanic, -, h⟩
          · exact ⟨fun _ => h, fun _ => hpanic⟩
          · constructor
            · rintro ⟨m, heq⟩
              exact absurd heq (hpanic m)
            · exact fun h' => absurd h' h
  · next hother =>
      cases hlooks hrun with
      | found e _ h =>
          rcases h with ⟨f, hf, heq⟩
          constructor
          · rintro ⟨m, heq⟩
            cases heq
          · intro hclash
            exact absurd heq ((clash_row hb' hclash).1 f hf)
      | opened v _ _ hend hne hpanic =>
          constructor
          · rintro ⟨m, heq⟩
            exact absurd heq (hpanic m)
          · exact fun h => absurd h (hopen v hend hne)
      | missing sp' => exact absurd hrun (hother _ _)
      | noRow m _ hfield hno hempty =>
          exact ⟨fun _ => .noRow _ _ _ _ hfield hno hempty, fun _ => ⟨m, rfl⟩⟩

theorem Quiet.kindClash (h : Quiet d s s') : KindClash s' v t ↔ KindClash s v t := by
  unfold KindClash
  constructor
  · rintro ⟨u, l, k, hcell, hkind, hrigid⟩
    rw [h.headKind] at hkind
    rw [h.hasRigid] at hrigid
    have hv := h.isUnbound v
    rw [hcell] at hv
    cases hcell' : s.cells v with
    | unbound u' l' k' =>
        rcases h.unbound v u' l' k' hcell' with ⟨l'', -, hcell''⟩
        rw [hcell] at hcell''
        cases hcell''
        exact ⟨u, l', k, rfl, hkind, hrigid⟩
    | _ =>
        rw [hcell'] at hv
        cases hv
  · rintro ⟨u, l, k, hcell, hkind, hrigid⟩
    rcases h.unbound v u l k hcell with ⟨l', -, hcell'⟩
    refine ⟨u, l', k, hcell', ?_, h.hasRigid.mpr hrigid⟩
    rw [h.headKind]
    exact hkind

theorem Clash.imp (hkind : ∀ v t, KindClash s v t → KindClash s₁ v t)
    (hrigid : ∀ t, HasRigid s t → HasRigid s₁ t) (h : Clash s a b) : Clash s₁ a b := by
  cases h with
  | kindLeft _ _ h => exact .kindLeft _ _ (hkind _ _ h)
  | kindRight _ _ hvar h => exact .kindRight _ _ hvar (hkind _ _ h)
  | heads _ _ h hr => exact .heads _ _ h (hr.imp (hrigid _) (hrigid _))
  | missing _ _ _ _ hvar hfield hend hr =>
      exact .missing _ _ _ _ hvar hfield hend (hr.imp (hrigid _) (hrigid _))
  | noRow _ _ _ _ hfield hvar hempty => exact .noRow _ _ _ _ hfield hvar hempty

theorem Quiet.clash (h : Quiet d s s') : Clash s' a b ↔ Clash s a b :=
  ⟨.imp (fun _ _ => h.kindClash.mp) fun _ => h.hasRigid.mp,
    .imp (fun _ _ => h.kindClash.mpr) fun _ => h.hasRigid.mpr⟩

/-- A failure with a call of `error` is that of the equation itself or of a task that it
calls. -/
theorem unify_step (hs : s.WellFormed) (ha : a.In s) (hb : b.In s) (hθ : Realizes θ s)
    {r : Except Failure Unit} (hrun : unify sp lvl (n + 1) a b s = some (r, s')) :
    (Clash s (a.subst θ) (b.subst θ) → Panics r) ∧
    (Panics r → Clash s (a.subst θ) (b.subst θ) ∨ ∃ s₁ task,
      Calls sp lvl n s a b s₁ task ∧ task.run sp lvl n s₁ = some (r, s')) := by
  rcases unify_inv hs ha hb hrun with ⟨m, a', b', f, s₁, hm, hpair, hcase, hrun⟩
  cases hm
  have hforced : Forced n s a b s₁ a' b' := hpair.runs
  rcases hpair.runs with ⟨s₀, hfa, hfb⟩
  rcases hs with ⟨d, hd⟩
  have hforcesa := (force_calm hd ha).result n a' s₀ hfa
  have hquiet₀ := hforcesa.quiet
  have hforcesb := (force_calm hquiet₀.deep (hquiet₀.isIn.mpr hb)).result n b' s₁ hfb
  have hquiet := hpair.quiet d hd
  have hd₁ := hquiet.deep
  have hθ₁ := hquiet.realizes.mpr hθ
  have hfree : ∀ v, (∀ u, s₁.cells v ≠ .link u) → θ v = .var v := fun v h =>
    hθ₁.free v fun u _ => h u
  rw [← hforcesa.subst hθ, ← hforcesb.subst (hquiet₀.realizes.mpr hθ), ← hquiet.clash]
  have hnone : ¬Clash s₁ (a'.subst θ) (b'.subst θ) →
      (Clash s₁ (a'.subst θ) (b'.subst θ) → Panics r) :=
    fun hnot h => absurd h hnot
  cases hcase with
  | same v =>
      cases hrun
      have hv := hfree v fun u => hpair.leftHead v u rfl
      constructor
      · rw [Ty.subst, hv, clash_var_left]
        rintro ⟨u, l, k, hcell, hne, -⟩
        rw [headKind, hcell] at hne
        exact absurd rfl hne
      · rintro ⟨m, heq⟩
        cases heq
  | bindLeft v _ hne =>
      have hv := hfree v fun u => hpair.leftHead v u rfl
      rcases bind_warn_panics hd₁ (hpair.leftIn v List.mem_cons_self)
        (fun u => hpair.leftHead v u rfl) hpair.rightIn hpair.rightHead hne hθ₁ hrun with ⟨h, h'⟩
      rw [Ty.subst, hv, clash_var_left]
      refine ⟨h, ?_⟩
      intro hpanic
      rcases h' hpanic with hclash | ⟨tag, row, s₂, rfl, hbind, hwarn⟩
      · exact .inl hclash
      · exact .inr ⟨s₂, .shadow row, .boundLeft v tag row s₁ s₂ hforced hbind, hwarn⟩
  | bindRight _ v hvar =>
      have hv := hfree v fun u => hpair.rightHead v u rfl
      rcases bind_warn_panics hd₁ (hpair.rightIn v List.mem_cons_self)
        (fun u => hpair.rightHead v u rfl) hpair.leftIn hpair.leftHead (hvar v) hθ₁ hrun with
        ⟨h, h'⟩
      have hsubst : (Ty.var v).subst θ = .var v := hv
      rw [hsubst, clash_var_right (subst_ne_var hvar)]
      refine ⟨h, ?_⟩
      intro hpanic
      rcases h' hpanic with hclash | ⟨tag, row, s₂, rfl, hbind, hwarn⟩
      · exact .inl hclash
      · exact .inr ⟨s₂, .shadow row, .boundRight v tag row s₁ s₂ hforced hbind, hwarn⟩
  | con c ts₁ ts₂ hlen =>
      have hsame : differ ((Ty.con c ts₁).subst θ) ((Ty.con c ts₂).subst θ) = false := by
        rw [Ty.subst, Ty.subst, differ, substList_length, substList_length, hlen]
        simp only [and_self, decide_true, Bool.not_true]
      constructor
      · apply hnone
        exact not_clash (by intro _ h; cases h) (by intro _ h; cases h)
          (by intro _ _ _ h; cases h) hsame
      · rintro ⟨m, rfl⟩
        rcases PartialM.forM_error hrun with ⟨ps, p, qs, s₂, hzip, hps, hp⟩
        exact .inr ⟨s₂, _, .con c ts₁ ts₂ ps p qs s₁ s₂ hforced hlen hzip hps, hp⟩
  | arr a₁ e₁ b₁ a₂ e₂ b₂ =>
      constructor
      · apply hnone
        exact not_clash (by intro _ h; cases h) (by intro _ h; cases h)
          (by intro _ _ _ h; cases h) rfl
      · intro _
        right
        rcases PartialM.bind_some hrun with ⟨_, s₂, hdom, hrun⟩ | ⟨e, s₂, hdom, heq⟩
        · rcases PartialM.bind_some hrun with ⟨_, s₃, hrow, hcod⟩ | ⟨e, s₃, hrow, heq⟩
          · exact ⟨s₃, _, .cod a₁ e₁ b₁ a₂ e₂ b₂ s₁ s₂ s₃ hforced hdom hrow, hcod⟩
          · cases heq
            exact ⟨s₂, _, .row a₁ e₁ b₁ a₂ e₂ b₂ s₁ s₂ hforced hdom, hrow⟩
        · cases heq
          exact ⟨s₁, _, .dom a₁ e₁ b₁ a₂ e₂ b₂ s₁ hforced, hdom⟩
  | record tag row₁ row₂ =>
      constructor
      · apply hnone
        exact not_clash (by intro _ h; cases h) (by intro _ h; cases h)
          (by intro _ _ _ h; cases h) rfl
      · intro _
        right
        rcases PartialM.bind_some hrun with ⟨_, s₂, hrow, hwarn⟩ | ⟨e, s₂, hrow, heq⟩
        · exact ⟨s₂, _, .recordShadow tag row₁ row₂ s₁ s₂ hforced hrow, hwarn⟩
        · cases heq
          exact ⟨s₁, _, .recordRow tag row₁ row₂ s₁ hforced, hrow⟩
  | tags tag₁ tag₂ row₁ row₂ =>
      cases hrun
      constructor
      · apply hnone
        exact not_clash (by intro _ h; cases h) (by intro _ h; cases h)
          (by intro _ _ _ h; cases h) rfl
      · rintro ⟨m, heq⟩
        cases heq
  | rowEmpty =>
      cases hrun
      constructor
      · apply hnone
        exact not_clash (by intro _ h; cases h) (by intro _ h; cases h)
          (by intro _ _ _ h; cases h) rfl
      · rintro ⟨m, heq⟩
        cases heq
  | row l p rest _ hvar =>
      rcases PartialM.bind_some hrun with ⟨o, s₂, htail, hrun⟩ | ⟨e, s₂, htail, -⟩
      · have hrow := fun {r s₃} => @row_panics s₁ s₃ s₂ d b' θ n sp lvl l p rest hd₁
          hpair.leftIn hpair.rightIn hvar hθ₁ o htail r
        rcases PartialM.bind_some hrun with ⟨⟨t', u⟩, s₃, hcatch, hrun⟩ | ⟨e, s₃, hcatch, heq⟩
        · constructor
          · intro hclash
            rcases (hrow hcatch).mpr hclash with ⟨m, heq⟩
            cases heq
          · intro _
            right
            have hrewrite := catchTC_rowReport_ok hcatch
            rcases PartialM.bind_some hrun with ⟨_, s₄, hpayload, hrest⟩ | ⟨e, s₄, hpayload, heq⟩
            · exact ⟨s₄, _, .rest l p rest b' o t' u s₁ s₂ s₃ s₄ hforced hvar htail hrewrite
                hpayload, hrest⟩
            · cases heq
              exact ⟨s₃, _, .payload l p rest b' o t' u s₁ s₂ s₃ hforced hvar htail hrewrite,
                hpayload⟩
        · cases heq
          constructor
          · intro hclash
            rcases (hrow hcatch).mpr hclash with ⟨m, heq⟩
            cases heq
            exact ⟨m, rfl⟩
          · rintro ⟨m, heq⟩
            cases heq
            exact .inl ((hrow hcatch).mp ⟨m, rfl⟩)
      · rcases rowTailRef_end hd₁ (Part.rest.isIn hpair.leftIn) hθ₁ htail with ⟨o, heq, -⟩
        cases heq
  | report _ _ report hreport hdiffer =>
      have hdiffer' : differ (a'.subst θ) (b'.subst θ) := by
        rw [differ_subst]
        · exact hdiffer
        · rintro v rfl
          exact hfree v fun u => hpair.leftHead v u rfl
        · rintro v rfl
          exact hfree v fun u => hpair.rightHead v u rfl
      have hiff : Panics r ↔ HasRigid s₁ (a'.subst θ) ∨ HasRigid s₁ (b'.subst θ) := by
        apply PanicsIff.panics (reportPair_panicsIff _ hd₁ hpair.leftIn hpair.rightIn hθ₁) hrun
        intro ca cb sp' tag l heq
        rcases hreport with rfl | rfl
        · cases heq
        · cases heq
      rw [clash_of_differ hdiffer', hiff]
      exact ⟨id, .inl⟩

theorem Forced.pair {a' b' : Ty} (hs : s.WellFormed) (ha : a.In s) (hb : b.In s)
    (h : Forced n s a b s₁ a' b') : ForcedPair n s a b s₁ a' b' := by
  rcases h with ⟨s₀, hfa, hfb⟩
  exact .of_force hs ha hb hfa hfb

theorem unify_keeps (hs : s.WellFormed) (ha : a.In s) (hb : b.In s)
    (hrun : unify sp lvl n a b s = some (.ok (), s')) : s'.WellFormed ∧ s.next ≤ s'.next := by
  have hsolved := (unify_solved sp lvl n s a b s' hs ha hb hrun).1
  exact ⟨hsolved.wellFormed, hsolved.next⟩

theorem unifyVar_keeps {x : Nat} (hs : s.WellFormed) (hx : x < s.next)
    (hlink : ∀ t, s.cells x ≠ .link t) (ht : t.In s) (hvar : ∀ v, t ≠ .var v)
    (hrun : unifyVar sp n x t s = some (.ok (), s')) : s'.WellFormed ∧ s.next ≤ s'.next := by
  rcases unifyVar_run hs hx hlink ht (fun v _ h => absurd h (hvar v)) (hvar x) hrun with
    ⟨-, hone⟩ | ⟨⟨e, heq⟩, -⟩
  · have hsolved := (hone.settles hs).1
    exact ⟨hsolved.wellFormed, hsolved.next⟩
  · cases heq

/-- The tasks that are called are about variables in use. -/
theorem Calls.isIn {task : Task} (hs : s.WellFormed) (ha : a.In s) (hb : b.In s)
    (h : Calls sp lvl n s a b s₁ task) : s₁.WellFormed ∧ task.In s₁ := by
  cases h with
  | boundLeft v tag row s₀ _ hforced hbind =>
      have hpair := Forced.pair hs ha hb hforced
      have hvar := unifyVar_keeps hpair.wellFormed (hpair.leftIn v List.mem_cons_self)
        (fun u => hpair.leftHead v u rfl) hpair.rightIn (fun _ h => nomatch h) hbind
      exact ⟨hvar.1, (Part.record.isIn hpair.rightIn).mono hvar.2⟩
  | boundRight v tag row s₀ _ hforced hbind =>
      have hpair := Forced.pair hs ha hb hforced
      have hvar := unifyVar_keeps hpair.wellFormed (hpair.rightIn v List.mem_cons_self)
        (fun u => hpair.rightHead v u rfl) hpair.leftIn (fun _ h => nomatch h) hbind
      exact ⟨hvar.1, (Part.record.isIn hpair.leftIn).mono hvar.2⟩
  | con c ts₁ ts₂ ps p qs s₀ _ hforced hlen hzip hrun =>
      have hpair := Forced.pair hs ha hb hforced
      have hin : ∀ p ∈ ts₁.zip ts₂, p.1.In s₀ ∧ p.2.In s₀ := by
        intro p hp
        rcases List.of_mem_zip hp with ⟨h₁, h₂⟩
        exact ⟨(Part.con h₁).isIn hpair.leftIn, (Part.con h₂).isIn hpair.rightIn⟩
      rw [hzip] at hin
      have hsolved := ((unify_solved sp lvl n).forM hpair.wellFormed
        (fun q hq => hin q (List.mem_append_left _ hq)) hrun).1
      rcases hin p (List.mem_append_right _ List.mem_cons_self) with ⟨h₁, h₂⟩
      exact ⟨hsolved.wellFormed, h₁.mono hsolved.next, h₂.mono hsolved.next⟩
  | dom a₁ e₁ b₁ a₂ e₂ b₂ _ hforced =>
      have hpair := Forced.pair hs ha hb hforced
      exact ⟨hpair.wellFormed, Part.dom.isIn hpair.leftIn, Part.dom.isIn hpair.rightIn⟩
  | row a₁ e₁ b₁ a₂ e₂ b₂ s₀ _ hforced hdom =>
      have hpair := Forced.pair hs ha hb hforced
      have h₁ := unify_keeps hpair.wellFormed (Part.dom.isIn hpair.leftIn)
        (Part.dom.isIn hpair.rightIn) hdom
      exact ⟨h₁.1, (Part.row.isIn hpair.leftIn).mono h₁.2, (Part.row.isIn hpair.rightIn).mono h₁.2⟩
  | cod a₁ e₁ b₁ a₂ e₂ b₂ s₀ s₂ _ hforced hdom hrow =>
      have hpair := Forced.pair hs ha hb hforced
      have h₁ := unify_keeps hpair.wellFormed (Part.dom.isIn hpair.leftIn)
        (Part.dom.isIn hpair.rightIn) hdom
      have h₂ := unify_keeps h₁.1 ((Part.row.isIn hpair.leftIn).mono h₁.2)
        ((Part.row.isIn hpair.rightIn).mono h₁.2) hrow
      have hle := h₁.2.trans h₂.2
      exact ⟨h₂.1, (Part.cod.isIn hpair.leftIn).mono hle, (Part.cod.isIn hpair.rightIn).mono hle⟩
  | recordRow tag row₁ row₂ _ hforced =>
      have hpair := Forced.pair hs ha hb hforced
      exact ⟨hpair.wellFormed, Part.record.isIn hpair.leftIn, Part.record.isIn hpair.rightIn⟩
  | recordShadow tag row₁ row₂ s₀ _ hforced hrow =>
      have hpair := Forced.pair hs ha hb hforced
      have h₁ := unify_keeps hpair.wellFormed (Part.record.isIn hpair.leftIn)
        (Part.record.isIn hpair.rightIn) hrow
      exact ⟨h₁.1, (Part.record.isIn hpair.leftIn).mono h₁.2⟩
  | payload l p rest b' o t' u s₀ s₂ _ hforced hvar htail hrow =>
      have hpair := Forced.pair hs ha hb hforced
      rcases hpair.wellFormed with ⟨d, hd⟩
      have hp : p.In s₀ := Part.payload.isIn hpair.leftIn
      have hquiet := (rowTailRef_calm hd (Part.rest.isIn hpair.leftIn)).quiet n _ s₂ htail
      rcases rewriteRowGuarded_run ⟨d, hquiet.deep⟩ (hquiet.isIn.mpr hpair.rightIn) hrow with
        ⟨_, _, heq, hrewrites, -⟩ | ⟨⟨e, heq⟩, -⟩
      · cases heq
        have hp₂ : p.In s₂ := hquiet.isIn.mpr hp
        exact ⟨hrewrites.wellFormed, hp₂.mono hrewrites.next, hrewrites.payloadIn⟩
      · cases heq
  | rest l p rest b' o t' u s₀ s₂ s₃ _ hforced hvar htail hrow hpayload =>
      have hpair := Forced.pair hs ha hb hforced
      rcases hpair.wellFormed with ⟨d, hd⟩
      have hp : p.In s₀ := Part.payload.isIn hpair.leftIn
      have hr : rest.In s₀ := Part.rest.isIn hpair.leftIn
      have hquiet := (rowTailRef_calm hd hr).quiet n _ s₂ htail
      rcases rewriteRowGuarded_run ⟨d, hquiet.deep⟩ (hquiet.isIn.mpr hpair.rightIn) hrow with
        ⟨_, _, heq, hrewrites, -⟩ | ⟨⟨e, heq⟩, -⟩
      · cases heq
        have hp₂ : p.In s₂ := hquiet.isIn.mpr hp
        have hr₂ : rest.In s₂ := hquiet.isIn.mpr hr
        have h₁ := unify_keeps hrewrites.wellFormed (hp₂.mono hrewrites.next) hrewrites.payloadIn
          hpayload
        exact ⟨h₁.1, hr₂.mono (hrewrites.next.trans h₁.2), hrewrites.restIn.mono h₁.2⟩
      · cases heq

/-! ### Runs -/

theorem Task.run_steady (task : Task) : Steady fun n => task.run sp lvl n := by
  cases task with
  | equation a b => exact unify_steady a b
  | shadow row => exact warnOnShadow_steady sp row

theorem Task.run_halts {task : Task} (hs : s.WellFormed) (hin : task.In s) :
    Halts (fun n => task.run sp lvl n) s := by
  cases task with
  | equation a b => exact unify_halts hs hin.1 hin.2
  | shadow row =>
      rcases hs with ⟨d, hd⟩
      exact (warnOnShadow_calm hd hin).halts

theorem Forced.le {a' b' : Ty} {m : Nat} (hle : n ≤ m) (h : Forced n s a b s₁ a' b') :
    Forced m s a b s₁ a' b' := by
  rcases h with ⟨s₀, hfa, hfb⟩
  exact ⟨s₀, (force_steady a).le hle hfa, (force_steady b).le hle hfb⟩

/-- With more fuel the same tasks are called. -/
theorem Calls.le {task : Task} {m : Nat} (hle : n ≤ m) (h : Calls sp lvl n s a b s₁ task) :
    Calls sp lvl m s a b s₁ task := by
  have hunify : ∀ {a b s r}, unify sp lvl n a b s = some r → unify sp lvl m a b s = some r :=
    fun {a b _ _} h => (unify_steady a b).le hle h
  have hvar : ∀ {v t s r}, unifyVar sp n v t s = some r → unifyVar sp m v t s = some r :=
    fun {v t _ _} h => (unifyVar_steady v t).le hle h
  have htail : ∀ {t s r}, rowTailRef n t s = some r → rowTailRef m t s = some r :=
    fun {t _ _} h => (rowTailRef_steady t).le hle h
  have hrow : ∀ {o l t s r}, rewriteRowGuarded sp lvl o l n t s = some r →
      rewriteRowGuarded sp lvl o l m t s = some r :=
    fun {o l t _ _} h => (rewriteRowGuarded_steady o l t).le hle h
  cases h with
  | boundLeft v tag row s₀ _ h hbind => exact .boundLeft v tag row s₀ _ (h.le hle) (hvar hbind)
  | boundRight v tag row s₀ _ h hbind => exact .boundRight v tag row s₀ _ (h.le hle) (hvar hbind)
  | con c ts₁ ts₂ ps p qs s₀ _ h hlen hzip hrun =>
      apply Calls.con c ts₁ ts₂ ps p qs s₀ _ (h.le hle) hlen hzip
      exact PartialM.Extends.forM ps (fun q => (unify_steady q.1 q.2).le hle) hrun
  | dom a₁ e₁ b₁ a₂ e₂ b₂ _ h => exact .dom a₁ e₁ b₁ a₂ e₂ b₂ _ (h.le hle)
  | row a₁ e₁ b₁ a₂ e₂ b₂ s₀ _ h hdom => exact .row a₁ e₁ b₁ a₂ e₂ b₂ s₀ _ (h.le hle) (hunify hdom)
  | cod a₁ e₁ b₁ a₂ e₂ b₂ s₀ s₂ _ h hdom hrow =>
      exact .cod a₁ e₁ b₁ a₂ e₂ b₂ s₀ s₂ _ (h.le hle) (hunify hdom) (hunify hrow)
  | recordRow tag row₁ row₂ _ h => exact .recordRow tag row₁ row₂ _ (h.le hle)
  | recordShadow tag row₁ row₂ s₀ _ h hrow =>
      exact .recordShadow tag row₁ row₂ s₀ _ (h.le hle) (hunify hrow)
  | payload l p rest b' o t' u s₀ s₂ _ h hne ht hr =>
      exact .payload l p rest b' o t' u s₀ s₂ _ (h.le hle) hne (htail ht) (hrow hr)
  | rest l p rest b' o t' u s₀ s₂ s₃ _ h hne ht hr hp =>
      exact .rest l p rest b' o t' u s₀ s₂ s₃ _ (h.le hle) hne (htail ht) (hrow hr) (hunify hp)

/-- An equation goes by the heads of the forced types. -/
theorem Forced.heads {a' b' : Ty} (h : Forced n s a b s₁ a' b') :
    ∃ f, Heads sp lvl a' b' f ∧ unify sp lvl (n + 1) a b s = f n s₁ := by
  rcases unify_succ sp lvl with ⟨body, hbody, hheads⟩
  rcases h with ⟨s₀, hfa, hfb⟩
  refine ⟨body a' b', hheads a' b', ?_⟩
  rw [hbody]
  exact (PartialM.bind_of_ok hfa).trans (PartialM.bind_of_ok hfb)

theorem warnIfRecordShadow_record {tag : String} {r : Except Failure Unit × TCState}
    (hrun : warnOnShadow sp n row s = some r) :
    warnIfRecordShadow sp n (.record tag row) s = some r := by
  cases n with
  | zero => cases hrun
  | succ n => exact hrun

/-- A task that fails makes the equation fail that called it. -/
theorem Calls.fails {task : Task} {e : Failure} (h : Calls sp lvl n s a b s₁ task)
    (hrun : task.run sp lvl n s₁ = some (.error e, s')) :
    unify sp lvl (n + 1) a b s = some (.error e, s') := by
  cases h with
  | boundLeft v tag row s₀ _ h hbind =>
      rcases h.heads with ⟨f, hheads, heq⟩
      rw [heq]
      cases hheads with
      | bindLeft => exact (PartialM.bind_of_ok hbind).trans (warnIfRecordShadow_record hrun)
      | report _ _ _ _ hdiffer => cases hdiffer
  | boundRight v tag row s₀ _ h hbind =>
      rcases h.heads with ⟨f, hheads, heq⟩
      rw [heq]
      cases hheads with
      | bindRight => exact (PartialM.bind_of_ok hbind).trans (warnIfRecordShadow_record hrun)
      | report _ _ _ _ hdiffer => cases hdiffer
  | con c ts₁ ts₂ ps p qs s₀ _ h hlen hzip hps =>
      rcases h.heads with ⟨f, hheads, heq⟩
      rw [heq]
      cases hheads with
      | con =>
          rw [hzip]
          exact PartialM.forM_of_error hps hrun
      | report _ _ _ _ hdiffer =>
          rw [differ, hlen] at hdiffer
          simp only [and_self, decide_true, Bool.not_true] at hdiffer
          cases hdiffer
  | dom a₁ e₁ b₁ a₂ e₂ b₂ _ h =>
      rcases h.heads with ⟨f, hheads, heq⟩
      rw [heq]
      cases hheads with
      | arr => exact PartialM.bind_of_error hrun
      | report _ _ _ _ hdiffer => cases hdiffer
  | row a₁ e₁ b₁ a₂ e₂ b₂ s₀ _ h hdom =>
      rcases h.heads with ⟨f, hheads, heq⟩
      rw [heq]
      cases hheads with
      | arr => exact (PartialM.bind_of_ok hdom).trans (PartialM.bind_of_error hrun)
      | report _ _ _ _ hdiffer => cases hdiffer
  | cod a₁ e₁ b₁ a₂ e₂ b₂ s₀ s₂ _ h hdom hrow =>
      rcases h.heads with ⟨f, hheads, heq⟩
      rw [heq]
      cases hheads with
      | arr => exact (PartialM.bind_of_ok hdom).trans ((PartialM.bind_of_ok hrow).trans hrun)
      | report _ _ _ _ hdiffer => cases hdiffer
  | recordRow tag row₁ row₂ _ h =>
      rcases h.heads with ⟨f, hheads, heq⟩
      rw [heq]
      cases hheads with
      | record => exact PartialM.bind_of_error hrun
      | tags _ _ _ _ hne => exact absurd rfl hne
      | report _ _ _ _ hdiffer => cases hdiffer
  | recordShadow tag row₁ row₂ s₀ _ h hrow =>
      rcases h.heads with ⟨f, hheads, heq⟩
      rw [heq]
      cases hheads with
      | record => exact (PartialM.bind_of_ok hrow).trans hrun
      | tags _ _ _ _ hne => exact absurd rfl hne
      | report _ _ _ _ hdiffer => cases hdiffer
  | payload l p rest b' o t' u s₀ s₂ _ h hvar ht hr =>
      rcases h.heads with ⟨f, hheads, heq⟩
      rw [heq]
      have hcatch : catchTC _ (rowReport sp n (.rowExtend l p rest) b') _ = _ := catchTC_of_ok hr
      cases hheads with
      | bindRight _ v => exact absurd rfl (hvar v)
      | row =>
          exact (PartialM.bind_of_ok ht).trans ((PartialM.bind_of_ok hcatch).trans
            (PartialM.bind_of_error hrun))
      | report _ _ _ _ hdiffer =>
          cases b' with
          | _ => cases hdiffer
  | rest l p rest b' o t' u s₀ s₂ s₃ _ h hvar ht hr hp =>
      rcases h.heads with ⟨f, hheads, heq⟩
      rw [heq]
      have hcatch : catchTC _ (rowReport sp n (.rowExtend l p rest) b') _ = _ := catchTC_of_ok hr
      cases hheads with
      | bindRight _ v => exact absurd rfl (hvar v)
      | row =>
          exact (PartialM.bind_of_ok ht).trans ((PartialM.bind_of_ok hcatch).trans
            ((PartialM.bind_of_ok hp).trans hrun))
      | report _ _ _ _ hdiffer =>
          cases b' with
          | _ => cases hdiffer

theorem Task.clash_of {task : Task} (hs : s.WellFormed) (hin : task.In s)
    {r : Except Failure Unit} (hrun : task.run sp lvl n s = some (r, s')) (hpanic : Panics r) :
    task.Clash s ∨ ∃ a b m s₁ task', task = .equation a b ∧ n = m + 1 ∧
      Calls sp lvl m s a b s₁ task' ∧ task'.run sp lvl m s₁ = some (r, s') := by
  rcases exists_realizes hs with ⟨θ, hθ⟩
  cases task with
  | equation a b =>
      cases n with
      | zero => cases hrun
      | succ n =>
          rcases (unify_step hs hin.1 hin.2 hθ hrun).2 hpanic with
            hclash | ⟨s₁, task', hcalls, hrun⟩
          · exact .inl ⟨θ, hθ, hclash⟩
          · exact .inr ⟨a, b, n, s₁, task', rfl, rfl, hcalls, hrun⟩
  | shadow row =>
      rcases hs with ⟨d, hd⟩
      exact .inl ⟨θ, hθ, ((warnOnShadow_failsIff hd hin hθ).panicsIff.panics hrun).mp hpanic⟩

/-- A task that clashes fails with a call of `error`. -/
theorem Task.Clash.panics {task : Task} (hs : s.WellFormed) (hin : task.In s)
    (hclash : task.Clash s) {r : Except Failure Unit}
    (hrun : task.run sp lvl n s = some (r, s')) : Panics r := by
  cases task with
  | equation a b =>
      rcases hclash with ⟨θ, hθ, hclash⟩
      cases n with
      | zero => cases hrun
      | succ n => exact (unify_step hs hin.1 hin.2 hθ hrun).1 hclash
  | shadow row =>
      rcases hclash with ⟨θ, hθ, hclash⟩
      rcases hs with ⟨d, hd⟩
      exact ((warnOnShadow_failsIff hd hin hθ).panicsIff.panics hrun).mpr hclash

theorem Task.panics_of_run {task : Task} {r : Except Failure Unit} (hs : s.WellFormed)
    (hin : task.In s) (hrun : task.run sp lvl n s = some (r, s')) (hpanic : Panics r) :
    ∃ s₁ task', Comes sp lvl s task s₁ task' ∧ task'.Clash s₁ := by
  induction n using Nat.strongRecOn generalizing s task with
  | ind n ih =>
      rcases Task.clash_of hs hin hrun hpanic with
        hclash | ⟨a, b, m, s₁, task', rfl, rfl, hcalls, hrun'⟩
      · exact ⟨s, task, .here s task, hclash⟩
      · rcases hcalls.isIn hs hin.1 hin.2 with ⟨hs₁, hin₁⟩
        rcases ih m (Nat.lt_succ_self m) hs₁ hin₁ hrun' with ⟨s₂, task₂, hcomes, hclash⟩
        exact ⟨s₂, task₂, .step m s a b s₁ task' s₂ task₂ hcalls hcomes, hclash⟩

theorem Comes.panics {task task' : Task} (h : Comes sp lvl s task s₁ task') (hs : s.WellFormed)
    (hin : task.In s) (hclash : task'.Clash s₁) :
    ∃ n message s', task.run sp lvl n s = some (.error (.panic message), s') := by
  induction h with
  | here s task =>
      have hhalts : Halts (fun n => task.run sp lvl n) s := Task.run_halts hs hin
      rcases hhalts with ⟨n, ⟨r, s'⟩, hrun⟩
      have hrun := hrun n le_rfl
      rcases hclash.panics hs hin hrun with ⟨m, rfl⟩
      exact ⟨n, m, s', hrun⟩
  | step n s a b s₁ task s₂ task' hcalls _ ih =>
      rcases hcalls.isIn hs hin.1 hin.2 with ⟨hs₁, hin₁⟩
      rcases ih hs₁ hin₁ hclash with ⟨k, m, s', hrun⟩
      refine ⟨max n k + 1, m, s', ?_⟩
      apply (hcalls.le (le_max_left n k)).fails
      exact (Task.run_steady task).le (le_max_right n k) hrun

/-- One rigid variable. -/
def oneRigid : TCState where
  cells := fun _ => .rigid 0 1 .star
  next := 1
  fresh := 1
  warnings := []

theorem oneRigid_wellFormed : oneRigid.WellFormed :=
  ⟨fun _ => 0, fun _ _ _ h => (nomatch h), fun _ _ _ h => (nomatch h)⟩

end Wok.TypeChecking
