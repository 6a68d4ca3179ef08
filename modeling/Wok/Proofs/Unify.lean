/-
Module: Wok.Proofs.Unify
Purpose: A unification that ends well solves its equation and nothing else, and binds
  variables unless nothing was to be done.
Imports: Wok.Proofs.UnifyRow
Trusted boundary: none
Main exports: Heads, unify_succ, unify_solved
-/
import Wok.Proofs.UnifyRow

namespace Wok.TypeChecking

open Wok.Lib

variable {s s' s₁ s₂ s₃ : TCState} {d : Nat → Nat} {a b t t' u p rest : Ty} {ρ : Nat → Ty}
  {v w x n : Nat} {sp : SourceSpan} {lvl : Int} {l : String} {forbidden : Option Nat}

/-! ### The cases of an equation -/

/-- What `unify` does with two types without a link at the head. -/
inductive Heads (sp : SourceSpan) (lvl : Int) : Ty → Ty → (Nat → TC Unit) → Prop where
  | same (v : Nat) : Heads sp lvl (.var v) (.var v) fun _ => pure ()
  | bindLeft (v : Nat) (t : Ty) (h : t ≠ .var v) : Heads sp lvl (.var v) t fun n =>
      unifyVar sp n v t >>= fun _ => warnIfRecordShadow sp n t
  | bindRight (t : Ty) (v : Nat) (h : ∀ w, t ≠ .var w) : Heads sp lvl t (.var v) fun n =>
      unifyVar sp n v t >>= fun _ => warnIfRecordShadow sp n t
  | con (c : TyCon) (ts₁ ts₂ : List Ty) (h : ts₁.length = ts₂.length) :
      Heads sp lvl (.con c ts₁) (.con c ts₂) fun n =>
        (ts₁.zip ts₂).forM fun p => unify sp lvl n p.1 p.2
  | arr (a₁ e₁ b₁ a₂ e₂ b₂ : Ty) : Heads sp lvl (.arr a₁ e₁ b₁) (.arr a₂ e₂ b₂) fun n =>
      unify sp lvl n a₁ a₂ >>= fun _ => unify sp lvl n e₁ e₂ >>= fun _ => unify sp lvl n b₁ b₂
  | record (tag : String) (row₁ row₂ : Ty) :
      Heads sp lvl (.record tag row₁) (.record tag row₂) fun n =>
        unify sp lvl n row₁ row₂ >>= fun _ => warnOnShadow sp n row₁
  | tags (tag₁ tag₂ : String) (row₁ row₂ : Ty) (h : tag₁ ≠ tag₂) :
      Heads sp lvl (.record tag₁ row₁) (.record tag₂ row₂) fun _ =>
        throwTC (.nominalMismatch sp tag₁ tag₂)
  | rowEmpty : Heads sp lvl .rowEmpty .rowEmpty fun _ => pure ()
  | row (l : String) (p rest b : Ty) (h : ∀ v, b ≠ .var v) :
      Heads sp lvl (.rowExtend l p rest) b fun n =>
        rowTailRef n rest >>= fun sharedTail =>
          catchTC (rewriteRowGuarded sp lvl sharedTail l n b)
            (rowReport sp n (.rowExtend l p rest) b) >>= fun e =>
          unify sp lvl n p e.1 >>= fun _ => unify sp lvl n rest e.2
  | report (a b : Ty) (report : CType → CType → TypeError)
      (h : report = .mismatch sp ∨ report = .rowMismatch sp) (hdiffer : differ a b) :
      Heads sp lvl a b fun n => reportPair n report a b

/-- An equation is forced on both sides and then goes by its heads. -/
theorem unify_succ (sp : SourceSpan) (lvl : Int) : ∃ body : Ty → Ty → Nat → TC Unit,
    (∀ n a b, unify sp lvl (n + 1) a b =
      force n a >>= fun a' => force n b >>= fun b' => body a' b' n) ∧
    ∀ a' b', Heads sp lvl a' b' (body a' b') := by
  refine ⟨fun a' b' n => _, fun n a b => rfl, ?_⟩
  intro a' b'
  cases a' with
  | var v =>
      cases b' with
      | var w =>
          by_cases heq : v = w
          · subst heq
            simp only [if_true]
            exact .same v
          · simp only [if_neg heq]
            exact .bindLeft v _ fun h => heq (Ty.var.inj h).symm
      | _ => exact .bindLeft v _ fun h => nomatch h
  | con c₁ ts₁ =>
      cases b' with
      | var w => exact .bindRight _ w fun _ h => nomatch h
      | con c₂ ts₂ =>
          by_cases heq : c₁ = c₂ ∧ ts₁.length = ts₂.length
          · rcases heq with ⟨rfl, hlen⟩
            simp only [hlen, true_and, if_true]
            exact .con c₁ ts₁ ts₂ hlen
          · simp only [if_neg heq]
            apply Heads.report _ _ _ (.inl rfl)
            rw [differ, decide_eq_false heq]
            rfl
      | _ => exact .report _ _ _ (.inl rfl) rfl
  | arr a₁ e₁ b₁ =>
      cases b' with
      | var w => exact .bindRight _ w fun _ h => nomatch h
      | arr a₂ e₂ b₂ => exact .arr a₁ e₁ b₁ a₂ e₂ b₂
      | _ => exact .report _ _ _ (.inl rfl) rfl
  | record tag₁ row₁ =>
      cases b' with
      | var w => exact .bindRight _ w fun _ h => nomatch h
      | record tag₂ row₂ =>
          by_cases heq : tag₁ = tag₂
          · subst heq
            simp only [ne_eq, not_true, if_false]
            exact .record tag₁ row₁ row₂
          · simp only [ne_eq, heq, not_false_eq_true, if_true]
            exact .tags tag₁ tag₂ row₁ row₂ heq
      | _ => exact .report _ _ _ (.inl rfl) rfl
  | rowEmpty =>
      cases b' with
      | var w => exact .bindRight _ w fun _ h => nomatch h
      | rowEmpty => exact .rowEmpty
      | rowExtend l t r => exact .report _ _ _ (.inr rfl) rfl
      | _ => exact .report _ _ _ (.inl rfl) rfl
  | rowExtend l p rest =>
      cases b' with
      | var w => exact .bindRight _ w fun _ h => nomatch h
      | _ => exact .row l p rest _ fun _ h => nomatch h

/-! ### One equation after another -/

/-- The equation was solved, and variables were bound unless nothing happened. -/
def Settles (s s' : TCState) (E : (Nat → Ty) → Prop) : Prop := Solved s s' E ∧ Progress s s'

section Settles

variable {E E' : (Nat → Ty) → Prop}

theorem Settles.trans (h : Settles s s₁ E) (h' : Settles s₁ s' E') (hlocal : Local s E') :
    Settles s s' fun ρ => E ρ ∧ E' ρ :=
  ⟨h.1.trans h'.1 hlocal, h.2.trans h'.2⟩

theorem Settles.imp (h : Settles s s' E) (hiff : ∀ ρ, Solves ρ s → (E ρ ↔ E' ρ)) :
    Settles s s' E' := ⟨h.1.imp hiff, h.2⟩

theorem Settles.of_quiet (hs : s.WellFormed) (hquiet : ∀ d, Deep d s → Quiet d s s')
    (hE : ∀ ρ, Solves ρ s → E ρ) : Settles s s' E := by
  refine ⟨?_, .of_quiet hquiet hs⟩
  rcases hs with ⟨d, hd⟩
  exact (hquiet d hd).solved.imp fun ρ hρ => ⟨fun _ => hE ρ hρ, fun _ => trivial⟩

theorem Settles.before_quiet (h : Settles s s₁ E) (hquiet : ∀ d, Deep d s₁ → Quiet d s₁ s') :
    Settles s s' E := by
  have hs₁ := h.1.wellFormed
  refine ⟨?_, h.2.trans (.of_quiet hquiet hs₁)⟩
  rcases hs₁ with ⟨d, hd⟩
  exact h.1.before_quiet (hquiet d hd)

theorem Settles.after_quiet (hs : s.WellFormed) (hquiet : ∀ d, Deep d s → Quiet d s s₁)
    (h : Settles s₁ s' E) : Settles s s' E := by
  refine ⟨?_, (Progress.of_quiet hquiet hs).trans h.2⟩
  rcases hs with ⟨d, hd⟩
  exact h.1.after_quiet (hquiet d hd)

theorem BindsOne.settles (hs : s.WellFormed) (h : BindsOne s v t s') :
    Settles s s' (Equal (.var v) t) := by
  rcases h with hbinds | ⟨w, rfl, hbinds⟩
  · exact ⟨hbinds.solved hs, .inl (by rw [← hbinds.card hs]; exact Nat.lt_succ_self _)⟩
  · refine ⟨(hbinds.solved hs).imp fun ρ _ => ⟨Eq.symm, Eq.symm⟩, .inl ?_⟩
    rw [← hbinds.card hs]
    exact Nat.lt_succ_self _

end Settles

/-- Unification with some fuel settles the equation of any two types. -/
def UnifySettles (sp : SourceSpan) (lvl : Int) (n : Nat) : Prop :=
  ∀ s a b s', s.WellFormed → a.In s → b.In s → unify sp lvl n a b s = some (.ok (), s') →
    Settles s s' (Equal a b)

theorem evalList_eq_iff {ts₁ ts₂ : List Ty} (hlen : ts₁.length = ts₂.length) :
    Ty.evalList ρ ts₁ = Ty.evalList ρ ts₂ ↔ ∀ p ∈ ts₁.zip ts₂, Equal p.1 p.2 ρ := by
  induction ts₁ generalizing ts₂ with
  | nil =>
      cases ts₂ with
      | nil =>
          constructor
          · intro _ p hp
            cases hp
          · intro _
            rfl
      | cons t₂ ts₂ => cases hlen
  | cons t₁ ts₁ ih =>
      cases ts₂ with
      | nil => cases hlen
      | cons t₂ ts₂ =>
          rw [Ty.evalList, Ty.evalList, List.zip_cons_cons, List.forall_mem_cons, List.cons.injEq,
            ih (Nat.succ.inj hlen)]
          rfl

theorem UnifySettles.forM (ih : UnifySettles sp lvl n) {ps : List (Ty × Ty)}
    (hs : s.WellFormed) (hin : ∀ p ∈ ps, p.1.In s ∧ p.2.In s)
    (hrun : (ps.forM fun p => unify sp lvl n p.1 p.2) s = some (.ok (), s')) :
    Settles s s' fun ρ => ∀ p ∈ ps, Equal p.1 p.2 ρ := by
  induction ps generalizing s with
  | nil =>
      cases hrun
      exact .of_quiet hs (fun d hd => .refl hd) fun _ _ _ h => nomatch h
  | cons p ps ihps =>
      rcases PartialM.bind_ok hrun with ⟨_, s₁, hfirst, hrest⟩
      rcases List.forall_mem_cons.mp hin with ⟨hp, hps⟩
      have hfirst := ih s p.1 p.2 s₁ hs hp.1 hp.2 hfirst
      have hnext := hfirst.1.next
      have hrest := ihps hfirst.1.wellFormed (fun q hq =>
        ⟨fun v hv => ((hps q hq).1 v hv).trans_le hnext,
          fun v hv => ((hps q hq).2 v hv).trans_le hnext⟩) hrest
      have hlocal : Local s fun ρ => ∀ q ∈ ps, Equal q.1 q.2 ρ := by
        intro ρ ρ' hagree hall q hq
        exact Equal.local (hps q hq).1 (hps q hq).2 ρ ρ' hagree (hall q hq)
      apply (hfirst.trans hrest hlocal).imp
      intro ρ _
      rw [List.forall_mem_cons]

theorem catchTC_of_ok {α : Type} {x : TC α} {handler : TypeError → TC α} {e : α}
    (hrun : x s = some (.ok e, s')) : catchTC x handler s = some (.ok e, s') := by
  unfold catchTC
  rw [hrun]

/-- Only the rewriting can end well: the handler fails. -/
theorem catchTC_rowReport_ok {x : TC (Ty × Ty)} {e : Ty × Ty}
    (hrun : catchTC x (rowReport sp n a b) s = some (.ok e, s')) : x s = some (.ok e, s') := by
  unfold catchTC at hrun
  split at hrun
  · next err s₁ hx =>
      cases err with
      | unknownField sp' tag label =>
          rcases PartialM.bind_ok hrun with ⟨ca, s₂, -, hrun⟩
          rcases PartialM.bind_ok hrun with ⟨cb, s₃, -, hrun⟩
          cases hrun
      | _ => cases hrun
  · exact hrun

/-! ### A new variable -/

/-- The unbound variable `x` was made equal to `a`, and at most one other variable was
linked, to `x`. -/
structure Pinned (s : TCState) (a : Ty) (x : Nat) (s' : TCState) : Prop where
  card : s'.unboundVars.card + 1 = s.unboundVars.card
  not_link : ∀ v, v ≠ x → (∀ t, s.cells v ≠ .link t) →
    (∀ t, s'.cells v ≠ .link t) ∨
      (a = .var v ∨ ∃ w, w < s.next ∧ s.cells w = .link (.var v)) ∧
      (∀ t, s'.cells x ≠ .link t) ∧ ∀ ρ, Solves ρ s' → ρ v = ρ x
  content : ∀ v t, v < s'.next → s'.cells v = .link t →
    (∃ w, t = .var w) ∨ t = a ∨ ∃ w, w < s.next ∧ s.cells w = .link t
  kinded : ∀ ρ, Solves ρ s' → Kinded ρ s' → Kinded ρ s

theorem Pinned.of_binds (hs : s.WellFormed) (hquiet : ∀ d, Deep d s → Quiet d s s₁)
    (hx : ∀ t, s.cells x ≠ .link t) (ha : t = a ∨ ∃ w, w < s.next ∧ s.cells w = .link t)
    (hne : t ≠ .var x) (h : Binds s₁ x t s₂ ∨ ∃ v, t = .var v ∧ Binds s₁ v (.var x) s₂)
    (hquiet' : ∀ d, Deep d s₂ → Quiet d s₂ s') : Pinned s a x s' := by
  rcases hs with ⟨d, hd⟩
  have hquiet := hquiet d hd
  have hs₁ : s₁.WellFormed := ⟨d, hquiet.deep⟩
  have hs₂ : s₂.WellFormed := by
    rcases h with h | ⟨v, -, h⟩
    · exact (h.solved hs₁).wellFormed
    · exact (h.solved hs₁).wellFormed
  rcases hs₂ with ⟨d', hd'⟩
  have hquiet' := hquiet' d' hd'
  constructor
  · rw [hquiet'.unboundVars, ← hquiet.unboundVars]
    rcases h with h | ⟨v, -, h⟩
    · exact h.card hs₁
    · exact h.card hs₁
  · intro v hvx hv
    have hv₁ := hquiet.not_link hv
    rcases h with h | ⟨y, rfl, h⟩
    · left
      exact hquiet'.not_link (h.not_link hs₁ hvx hv₁)
    · by_cases hvy : v = y
      · subst hvy
        right
        refine ⟨ha.imp_left Eq.symm, ?_, ?_⟩
        · apply hquiet'.not_link
          exact h.not_link hs₁ (Ne.symm hvx) (hquiet.not_link hx)
        · intro ρ hρ
          exact ((h.solved hs₁).sound ρ ((hquiet'.solves ρ).mp hρ)).2
      · left
        exact hquiet'.not_link (h.not_link hs₁ hvy hv₁)
  · intro v t₀ hv hlink
    rcases hquiet'.content v t₀ (hquiet'.next ▸ hv) hlink with ⟨w, hw, hlink⟩
    have hold : (∃ w, w < s₁.next ∧ s₁.cells w = .link t₀) →
        ∃ w, w < s.next ∧ s.cells w = .link t₀ := by
      rintro ⟨w, hw, hlink⟩
      exact hquiet.content w t₀ (hquiet.next ▸ hw) hlink
    rcases h with h | ⟨y, rfl, h⟩
    · rcases h.content hs₁ hw hlink with rfl | hcontent
      · exact .inr ha
      · exact .inr (.inr (hold hcontent))
    · rcases h.content hs₁ hw hlink with rfl | hcontent
      · exact .inl ⟨x, rfl⟩
      · exact .inr (.inr (hold hcontent))
  · intro ρ hρ hkinded
    have hρ := (hquiet'.solves ρ).mp hρ
    have hkinded := hquiet'.kinded.mp hkinded
    apply hquiet.kinded.mp
    rcases h with h | ⟨y, -, h⟩
    · exact h.kinded hs₁ hρ hkinded
    · exact h.kinded hs₁ hρ hkinded

/-- What `force` gives a unification that goes on. -/
theorem unify_forced (hs : s.WellFormed) (ha : a.In s) (hb : b.In s) {r : Except Failure Unit}
    {body : Ty → Ty → Nat → TC Unit}
    (hrun : (force n a >>= fun a' => force n b >>= fun b' => body a' b' n) s = some (r, s')) :
    ∃ a' b' s₁ s₂, body a' b' n s₂ = some (r, s') ∧ force n a s = some (.ok a', s₁) ∧
      force n b s₁ = some (.ok b', s₂) ∧ (∀ d, Deep d s → Forces d s a s₁ a') ∧
      ∀ d, Deep d s₁ → Forces d s₁ b s₂ b' := by
  rcases hs with ⟨d, hd⟩
  rcases PartialM.bind_some hrun with ⟨a', s₁, hfa, hrun⟩ | ⟨e, s₁, hfa, -⟩
  · have hforces : ∀ d, Deep d s → Forces d s a s₁ a' := fun d hd =>
      (force_calm hd ha).result n a' s₁ hfa
    have hquiet := (hforces d hd).quiet
    have hb₁ := hquiet.isIn.mpr hb
    rcases PartialM.bind_some hrun with ⟨b', s₂, hfb, hrun⟩ | ⟨e, s₂, hfb, -⟩
    · exact ⟨a', b', s₁, s₂, hrun, hfa, hfb, hforces, fun d hd =>
        (force_calm hd hb₁).result n b' s₂ hfb⟩
    · rcases force_forces hquiet.deep hb₁ hfb with ⟨_, _, heq, -⟩
      cases heq
  · rcases force_forces hd ha hfa with ⟨_, _, heq, -⟩
    cases heq

/-- The two types of an equation without the links at their heads. -/
structure ForcedPair (n : Nat) (s : TCState) (a b : Ty) (s' : TCState) (a' b' : Ty) : Prop where
  runs : ∃ s₁, force n a s = some (.ok a', s₁) ∧ force n b s₁ = some (.ok b', s')
  quiet : ∀ d, Deep d s → Quiet d s s'
  wellFormed : s'.WellFormed
  leftIn : a'.In s'
  rightIn : b'.In s'
  leftHead : ∀ v u, a' = .var v → s'.cells v ≠ .link u
  rightHead : ∀ v u, b' = .var v → s'.cells v ≠ .link u
  equal : ∀ ρ, Solves ρ s → (Equal a' b' ρ ↔ Equal a b ρ)

theorem ForcedPair.of_force {a' b' : Ty} (hs : s.WellFormed) (ha : a.In s) (hb : b.In s)
    (hforcea : force n a s = some (.ok a', s₁)) (hforceb : force n b s₁ = some (.ok b', s₂)) :
    ForcedPair n s a b s₂ a' b' := by
  have hfa : ∀ d, Deep d s → Forces d s a s₁ a' := fun d hd =>
    (force_calm hd ha).result n a' s₁ hforcea
  have hfb : ∀ d, Deep d s → Forces d s₁ b s₂ b' := fun d hd =>
    (force_calm (hfa d hd).quiet.deep ((hfa d hd).quiet.isIn.mpr hb)).result n b' s₂ hforceb
  have hquiet : ∀ d, Deep d s → Quiet d s s₂ := fun d hd =>
    (hfa d hd).quiet.trans (hfb d hd).quiet
  rcases hs with ⟨d, hd⟩
  have hfa := hfa d hd
  have hfb := hfb d hd
  refine ⟨⟨s₁, hforcea, hforceb⟩, hquiet, ⟨d, hfb.quiet.deep⟩, ?_, ?_, ?_, hfb.head, ?_⟩
  · exact hfb.quiet.isIn.mpr (hfa.quiet.isIn.mpr hfa.isIn)
  · exact hfb.quiet.isIn.mpr hfb.isIn
  · intro v u heq
    exact hfb.quiet.not_link (fun t => hfa.head v t heq) u
  · intro ρ hρ
    have heqa := hfa.eval_of_solves hρ
    have heqb := hfb.eval_of_solves ((hfa.quiet.solves ρ).mpr hρ)
    unfold Equal
    rw [heqa, heqb]

/-- What a unification that has a result did. -/
theorem unify_inv (hs : s.WellFormed) (ha : a.In s) (hb : b.In s) {r : Except Failure Unit}
    (hrun : unify sp lvl n a b s = some (r, s')) : ∃ m a' b' f s₁, n = m + 1 ∧
      ForcedPair m s a b s₁ a' b' ∧ Heads sp lvl a' b' f ∧ f m s₁ = some (r, s') := by
  rcases unify_succ sp lvl with ⟨body, hbody, hheads⟩
  cases n with
  | zero => cases hrun
  | succ n =>
      rw [hbody] at hrun
      rcases unify_forced hs ha hb hrun with ⟨a', b', s₁, s₂, hrun, hforcea, hforceb, -, -⟩
      exact ⟨n, a', b', body a' b', s₂, rfl, .of_force hs ha hb hforcea hforceb, hheads a' b', hrun⟩

/-- A variable is bound, and then there may be warnings. -/
theorem bind_warn_ok (hs : s.WellFormed) (hx : x < s.next) (hlink : ∀ t, s.cells x ≠ .link t)
    (ht : t.In s) (hhead : ∀ v u, t = .var v → s.cells v ≠ .link u) (hne : t ≠ .var x)
    (hrun : (unifyVar sp n x t >>= fun _ => warnIfRecordShadow sp n t) s = some (.ok (), s')) :
    ∃ s₁, BindsOne s x t s₁ ∧ ∀ d, Deep d s₁ → Quiet d s₁ s' := by
  rcases PartialM.bind_ok hrun with ⟨_, s₁, hvar, hwarn⟩
  rcases unifyVar_run hs hx hlink ht hhead hne hvar with ⟨-, hone⟩ | ⟨⟨e, heq⟩, -⟩
  · refine ⟨s₁, hone, ?_⟩
    intro d hd
    have hnext := (hone.settles hs).1.next
    exact (warnIfRecordShadow_calm hd fun v hv => (ht v hv).trans_le hnext).quiet n _ s' hwarn
  · cases heq

theorem BindsOne.of_ne (h : BindsOne s x t s') (ht : ∀ v, t ≠ .var v) : Binds s x t s' := by
  rcases h with h | ⟨v, heq, -⟩
  · exact h
  · exact absurd heq (ht v)

theorem unify_pinned (hs : s.WellFormed) (ha : a.In s) (hx : x < s.next)
    (hlink : ∀ t, s.cells x ≠ .link t) (hne : a ≠ .var x)
    (hcontent : ∀ w, w < s.next → s.cells w ≠ .link (.var x))
    (hrun : unify sp lvl n a (.var x) s = some (.ok (), s')) : Pinned s a x s' := by
  rcases unify_succ sp lvl with ⟨body, hbody, hheads⟩
  cases n with
  | zero => cases hrun
  | succ n =>
      rw [hbody] at hrun
      rcases unify_forced hs ha (var_isIn hx) hrun with ⟨a', b', s₁, s₂, hrun, -, hforce, hfa, -⟩
      rcases hs with ⟨d, hd⟩
      have hforces := hfa d hd
      have hquiet := hforces.quiet
      have hlink₁ := hquiet.not_link hlink
      have hs₁ : s₁.WellFormed := ⟨d, hquiet.deep⟩
      cases force_unlinked hlink₁ hforce
      have ha' : a' ≠ .var x := by
        rintro rfl
        rcases hforces.content with heq | ⟨w, hw, hlink'⟩
        · exact hne heq.symm
        · exact hcontent w hw hlink'
      have hin' : a'.In s₁ := hquiet.isIn.mpr hforces.isIn
      have hx₁ : x < s₁.next := hquiet.next.symm ▸ hx
      have hquiet₁ : ∀ d, Deep d s → Quiet d s s₁ := fun d hd => (hfa d hd).quiet
      generalize hf : body a' (.var x) = f at hrun
      have hcase := hheads a' (.var x)
      rw [hf] at hcase
      cases hcase with
      | same => exact absurd rfl ha'
      | bindLeft y _ hy =>
          rcases bind_warn_ok hs₁ (hin' y List.mem_cons_self) (fun t => hforces.head y t rfl)
            (var_isIn hx₁) (fun v u heq => Ty.var.inj heq ▸ hlink₁ u) hy hrun with
            ⟨s₂, hone, hquiet₂⟩
          apply Pinned.of_binds ⟨d, hd⟩ hquiet₁ hlink hforces.content ha' _ hquiet₂
          rcases hone with hone | ⟨w, heq, hone⟩
          · exact .inr ⟨y, rfl, hone⟩
          · cases heq
            exact .inl hone
      | bindRight _ _ hvar =>
          rcases bind_warn_ok hs₁ hx₁ hlink₁ hin' hforces.head ha' hrun with ⟨s₂, hone, hquiet₂⟩
          apply Pinned.of_binds ⟨d, hd⟩ hquiet₁ hlink hforces.content ha' _ hquiet₂
          exact .inl (hone.of_ne hvar)
      | report report =>
          rcases PartialM.bind_ok hrun with ⟨ca, s₂, -, hrun⟩
          rcases PartialM.bind_ok hrun with ⟨cb, s₃, -, hrun⟩
          cases hrun
      | row l p rest _ h => exact absurd rfl (h x)

/-! ### Rows -/

/-- A row with `m` fields. -/
def longRow : Nat → Ty
  | 0 => .rowEmpty
  | m + 1 => .rowExtend "" .rowEmpty (longRow m)

theorem rowLen_longRow (m : Nat) : (longRow m).rowLen = m := by
  induction m with
  | zero => rfl
  | succ m ih => rw [longRow, Ty.rowLen, ih]

/-- The row was extended and the new payload made equal to the field's. -/
structure Extended (s : TCState) (l : String) (p : Ty) (s₂ : TCState) (t' u : Ty) (ref : Nat)
    (s₃ : TCState) : Prop where
  wellFormed : s.WellFormed
  payloadIn : p.In s
  ref_link : ∀ t, s.cells ref ≠ .link t
  extension : Extension s l s₂ t' u ref
  pinned : Pinned s₂ p s.next s₃
  mono : ∀ ρ, Solves ρ s₃ → Solves ρ s₂

section Extended

variable {ref : Nat}

/-- No link leads to a new variable alone. -/
theorem Extended.fresh (h : Extended s l p s₂ t' u ref s₃) (hv : s.next ≤ v) :
    ¬(p = .var v ∨ ∃ w, w < s₂.next ∧ s₂.cells w = .link (.var v)) := by
  rintro (rfl | ⟨w, hw, hlink⟩)
  · exact absurd (h.payloadIn v List.mem_cons_self) (not_lt.mpr hv)
  · rcases h.extension.content w _ hw hlink with heq | ⟨w', hw', hlink'⟩
    · cases heq
    · rcases h.wellFormed with ⟨d, hd⟩
      exact absurd (hd.linksIn w' _ hw' hlink' v List.mem_cons_self) (not_lt.mpr hv)

theorem Extended.tail_not_link (h : Extended s l p s₂ t' u ref s₃) (t : Ty) :
    s₃.cells (s.next + 1) ≠ .link t := by
  have hunbound : ∀ t, s₂.cells (s.next + 1) ≠ .link t :=
    not_link_of_unbound h.extension.unbound.2
  rcases h.pinned.not_link (s.next + 1) (Nat.succ_ne_self _) hunbound with hlink | ⟨hpin, -, -⟩
  · exact hlink t
  · exact absurd hpin (h.fresh (Nat.le_succ _))

/-- An old variable without a link, other than the one that was bound, has no fields
still if those without a link now have none, the new tail apart. -/
theorem Extended.old_rowLen (h : Extended s l p s₂ t' u ref s₃) (hv : v < s.next)
    (hlink : ∀ t, s.cells v ≠ .link t) (hne : v ≠ ref) (hρ : Solves ρ s₃)
    (hflat : ∀ w, w ≠ s.next + 1 → (∀ t, s₃.cells w ≠ .link t) → (ρ w).rowLen = 0) :
    (ρ v).rowLen = 0 := by
  have hlink₂ := h.extension.not_link v hv hne hlink
  have hvx : v ≠ s.next := hv.ne
  rcases h.pinned.not_link v hvx hlink₂ with hlink₃ | ⟨-, hx, heq⟩
  · exact hflat v (by omega) hlink₃
  · rw [heq ρ hρ]
    exact hflat s.next (Nat.succ_ne_self _).symm hx

/-- A row that does not end in the variable that was bound is not equal to what is left
of the extended one: their tails are not. -/
theorem Extended.unequal {o : Option Nat} {k : Nat} (h : Extended s l p s₂ t' u ref s₃)
    (hs₃ : s₃.WellFormed) (hlen : ∀ ρ, Solves ρ s → (rest.eval ρ).rowLen = k + tailLen ρ o)
    (ho : ∀ v, o = some v → v < s.next ∧ v ≠ ref ∧ ∀ t, s.cells v ≠ .link t)
    (hmono : ∀ ρ, Solves ρ s₂ → Solves ρ s) :
    ∃ ρ, Solves ρ s₃ ∧ ¬Equal rest u ρ := by
  let σ : Nat → Ty := fun v => if v = s.next + 1 then longRow (k + 1) else .rowEmpty
  rcases exists_solves hs₃ σ with ⟨ρ, hρ, hfree⟩
  refine ⟨ρ, hρ, ?_⟩
  intro heq
  have htail : (ρ (s.next + 1)).rowLen = k + 1 := by
    rw [hfree _ fun t _ => h.tail_not_link t]
    simp only [σ, if_true]
    exact rowLen_longRow _
  have hflat : ∀ w, w ≠ s.next + 1 → (∀ t, s₃.cells w ≠ .link t) → (ρ w).rowLen = 0 := by
    intro w hne hlink
    rw [hfree w fun t _ => hlink t]
    simp only [σ, hne, if_false]
    rfl
  have hzero : tailLen ρ o = 0 := by
    cases o with
    | none => rfl
    | some v =>
        rcases ho v rfl with ⟨hv, hne, hlink⟩
        exact h.old_rowLen hv hlink hne hρ hflat
  rcases h.extension.tail with ⟨j, hj⟩
  have hrest := hlen ρ (hmono ρ (h.mono ρ hρ))
  have hu := hj ρ (h.mono ρ hρ)
  rw [show rest.eval ρ = u.eval ρ from heq, hu, htail, hzero] at hrest
  omega

end Extended

theorem Ty.In.mono (ht : t.In s) (hle : s.next ≤ s'.next) : t.In s' :=
  fun v hv => (ht v hv).trans_le hle

theorem Extension.extended {ref : Nat} (hs : s.WellFormed) (hp : p.In s)
    (href : ∀ t, s.cells ref ≠ .link t) (hs₂ : s₂.WellFormed)
    (h : Extension s l s₂ t' u ref) (hrun : unify sp lvl n p t' s₂ = some (.ok (), s₃))
    (hmono : ∀ ρ, Solves ρ s₃ → Solves ρ s₂) : Extended s l p s₂ t' u ref s₃ := by
  have hnext := h.next
  have hnew : ∀ t : Ty, t.In s → t ≠ .var s.next := by
    rintro t ht rfl
    exact absurd (ht s.next List.mem_cons_self) (lt_irrefl _)
  refine ⟨hs, hp, href, h, ?_, hmono⟩
  rw [h.payload] at hrun
  apply unify_pinned hs₂ (hp.mono (by omega)) (by omega) (not_link_of_unbound h.unbound.1)
    (hnew p hp) _ hrun
  intro w hw hlink
  rcases h.content w _ hw hlink with heq | ⟨w', hw', hlink'⟩
  · cases heq
  · rcases hs with ⟨d, hd⟩
    exact hnew _ (hd.linksIn w' _ hw' hlink') rfl

/-- A unification that ends well and equates what was not equal binds a variable. -/
theorem Settles.strict {E : (Nat → Ty) → Prop} (h : Settles s s' E) (hs : s.WellFormed)
    (hρ : Solves ρ s) (hE : ¬E ρ) : s'.unboundVars.card < s.unboundVars.card := by
  rcases h.2 with hlt | ⟨-, hquiet⟩
  · exact hlt
  · rcases hs with ⟨d, hd⟩
    exact absurd (h.1.sound ρ (((hquiet d hd).solves ρ).mpr hρ)).2 hE

/-- The row on the left is taken apart and its parts are unified with those of the one
on the right. -/
theorem UnifySettles.row (ih : UnifySettles sp lvl n) {o : Option Nat} {k : Nat}
    (hs : s.WellFormed) (hin : (Ty.rowExtend l p rest).In s)
    (hlen : ∀ ρ, Solves ρ s → (rest.eval ρ).rowLen = k + tailLen ρ o)
    (ho : ∀ v, o = some v → v < s.next ∧ ∀ t, s.cells v ≠ .link t)
    (hto : RewritesTo o s b l (.ok (t', u)) s₂)
    (hpayload : unify sp lvl n p t' s₂ = some (.ok (), s₃))
    (hrest : unify sp lvl n rest u s₃ = some (.ok (), s')) :
    Settles s s' (Equal (.rowExtend l p rest) b) := by
  rcases hto with ⟨_, _, heq, hrewrites, hcase⟩
  cases heq
  have hp : p.In s := Part.payload.isIn hin
  have hr : rest.In s := Part.rest.isIn hin
  have hs₂ := hrewrites.wellFormed
  have h₁ := ih s₂ p t' s₃ hs₂ (hp.mono hrewrites.next) hrewrites.payloadIn hpayload
  have hnext₁ := h₁.1.next
  have h₂ := ih s₃ rest u s' h₁.1.wellFormed (hr.mono (hrewrites.next.trans hnext₁))
    (hrewrites.restIn.mono hnext₁) hrest
  have hlocal : Local s₂ (Equal rest u) := Equal.local (hr.mono hrewrites.next) hrewrites.restIn
  have hboth := h₁.trans h₂ hlocal
  constructor
  · constructor
    · exact hboth.1.wellFormed
    · exact hrewrites.next.trans hboth.1.next
    · intro ρ hρ
      rcases hboth.1.sound ρ hρ with ⟨hρ, heqp, heqr⟩
      rcases hrewrites.sound ρ hρ with ⟨hρ, heq⟩
      refine ⟨hρ, ?_⟩
      change insertField l (p.eval ρ) (rest.eval ρ) = b.eval ρ
      rw [heq, heqp, heqr]
    · intro ρ hnormal hρ heq
      rcases hrewrites.principal ρ (p.eval ρ) (rest.eval ρ) hnormal hρ heq.symm with
        ⟨ρ₂, hnormal₂, hagree₂, hρ₂, hpayload₂, hrest₂⟩
      have hp₂ : Equal p t' ρ₂ := by
        change p.eval ρ₂ = t'.eval ρ₂
        rw [hpayload₂]
        exact eval_congr p fun v hv => hagree₂ v (hp v hv)
      have hr₂ : Equal rest u ρ₂ := by
        change rest.eval ρ₂ = u.eval ρ₂
        rw [hrest₂]
        exact eval_congr rest fun v hv => hagree₂ v (hr v hv)
      rcases hboth.1.principal ρ₂ hnormal₂ hρ₂ ⟨hp₂, hr₂⟩ with ⟨ρ', hnormal', hagree', hρ'⟩
      refine ⟨ρ', hnormal', ?_, hρ'⟩
      intro v hv
      exact (hagree' v (hv.trans_le hrewrites.next)).trans (hagree₂ v hv)
    · intro v u l k hv hcell
      exact hboth.1.rigid v u l k (hv.trans_le hrewrites.next) (hrewrites.rigid v u l k hv hcell)
  · rcases hcase with hquiet | ⟨ref, hne, hlink, hext⟩
    · exact (Progress.of_quiet hquiet hs).trans hboth.2
    · left
      have hextended := hext.extended hs hp hlink hs₂ hpayload fun ρ hρ => (h₁.1.sound ρ hρ).1
      have ho' : ∀ v, o = some v → v < s.next ∧ v ≠ ref ∧ ∀ t, s.cells v ≠ .link t := by
        intro v hv
        rcases ho v hv with ⟨hlt, hlink⟩
        refine ⟨hlt, ?_, hlink⟩
        rintro rfl
        exact hne hv.symm
      rcases hextended.unequal h₁.1.wellFormed hlen ho' fun ρ hρ => (hrewrites.sound ρ hρ).1 with
        ⟨ρ, hρ, hunequal⟩
      have hlt := h₂.strict h₁.1.wellFormed hρ hunequal
      have hcard := hextended.pinned.card
      have hcard₂ := hext.card
      omega

theorem unify_solved (sp : SourceSpan) (lvl : Int) (n : Nat) : UnifySettles sp lvl n := by
  induction n with
  | zero =>
      intro s a b s' _ _ _ hrun
      cases hrun
  | succ n ih =>
      intro s a b s' hs ha hb hrun
      rcases unify_inv hs ha hb hrun with ⟨m, a', b', f, s₂, hm, hpair, hcase, hrun⟩
      cases hm
      have hs₂ := hpair.wellFormed
      have hina := hpair.leftIn
      have hinb := hpair.rightIn
      apply (Settles.after_quiet hs hpair.quiet _).imp hpair.equal
      cases hcase with
      | same v =>
          cases hrun
          exact .of_quiet hs₂ (fun d hd => .refl hd) fun _ _ => rfl
      | bindLeft v _ hne =>
          rcases bind_warn_ok hs₂ (hina v List.mem_cons_self) (fun t => hpair.leftHead v t rfl) hinb
            hpair.rightHead hne hrun with ⟨s₃, hone, hquiet₃⟩
          exact (hone.settles hs₂).before_quiet hquiet₃
      | bindRight _ v hvar =>
          rcases bind_warn_ok hs₂ (hinb v List.mem_cons_self) (fun t => hpair.rightHead v t rfl)
            hina hpair.leftHead (hvar v) hrun with ⟨s₃, hone, hquiet₃⟩
          apply ((hone.settles hs₂).before_quiet hquiet₃).imp
          intro ρ _
          exact ⟨Eq.symm, Eq.symm⟩
      | con c ts₁ ts₂ hlen =>
          have hin : ∀ p ∈ ts₁.zip ts₂, p.1.In s₂ ∧ p.2.In s₂ := by
            intro p hp
            rcases List.of_mem_zip hp with ⟨h₁, h₂⟩
            exact ⟨(Part.con h₁).isIn hina, (Part.con h₂).isIn hinb⟩
          apply (ih.forM hs₂ hin hrun).imp
          intro ρ _
          rw [← evalList_eq_iff hlen]
          constructor
          · intro heq
            exact congrArg (Ty.con c) heq
          · intro heq
            exact (Ty.con.inj heq).2
      | arr a₁ e₁ b₁ a₂ e₂ b₂ =>
          rcases PartialM.bind_ok hrun with ⟨_, s₃, hrun₁, hrun⟩
          rcases PartialM.bind_ok hrun with ⟨_, s₄, hrun₂, hrun₃⟩
          have h₁ := ih s₂ a₁ a₂ s₃ hs₂ (Part.dom.isIn hina) (Part.dom.isIn hinb) hrun₁
          have h₂ := ih s₃ e₁ e₂ s₄ h₁.1.wellFormed ((Part.row.isIn hina).mono h₁.1.next)
            ((Part.row.isIn hinb).mono h₁.1.next) hrun₂
          have hle := h₁.1.next.trans h₂.1.next
          have h₃ := ih s₄ b₁ b₂ s' h₂.1.wellFormed ((Part.cod.isIn hina).mono hle)
            ((Part.cod.isIn hinb).mono hle) hrun₃
          have h₁₂ := h₁.trans h₂ (Equal.local (Part.row.isIn hina) (Part.row.isIn hinb))
          apply (h₁₂.trans h₃ (Equal.local (Part.cod.isIn hina) (Part.cod.isIn hinb))).imp
          intro ρ _
          unfold Equal
          rw [Ty.eval, Ty.eval, Ty.arr.injEq, and_assoc]
      | record tag row₁ row₂ =>
          rcases PartialM.bind_ok hrun with ⟨_, s₃, hrun₁, hwarn⟩
          have h₁ := ih s₂ row₁ row₂ s₃ hs₂ (Part.record.isIn hina) (Part.record.isIn hinb) hrun₁
          have hquiet₃ : ∀ d, Deep d s₃ → Quiet d s₃ s' := fun d hd =>
            (warnOnShadow_calm hd ((Part.record.isIn hina).mono h₁.1.next)).quiet n _ s' hwarn
          apply (h₁.before_quiet hquiet₃).imp
          intro ρ _
          unfold Equal
          rw [Ty.eval, Ty.eval, Ty.record.injEq, eq_self_iff_true, true_and]
      | tags tag₁ tag₂ row₁ row₂ => cases hrun
      | rowEmpty =>
          cases hrun
          exact .of_quiet hs₂ (fun d hd => .refl hd) fun _ _ => rfl
      | row l p rest _ hvar =>
          rcases PartialM.bind_ok hrun with ⟨o, s₃, htail, hrun⟩
          rcases PartialM.bind_ok hrun with ⟨⟨t', u⟩, s₄, hcatch, hrun⟩
          rcases PartialM.bind_ok hrun with ⟨_, s₅, hpayload, hrest⟩
          have hcalm := fun d (hd : Deep d s₂) =>
            rowTailRef_calm hd (Part.rest.isIn hina : rest.In s₂)
          have hquiet₃ : ∀ d, Deep d s₂ → Quiet d s₂ s₃ := fun d hd =>
            (hcalm d hd).quiet n _ s₃ htail
          apply Settles.after_quiet hs₂ hquiet₃
          rcases hs₂ with ⟨d, hd⟩
          have hquiet₃ := hquiet₃ d hd
          rcases (hcalm d hd).result n o s₃ htail with ⟨⟨k, hlen⟩, ho⟩
          have hs₃ : s₃.WellFormed := ⟨d, hquiet₃.deep⟩
          have hb₃ : b'.In s₃ := hquiet₃.isIn.mpr hinb
          rcases rewriteRowGuarded_run hs₃ hb₃ (catchTC_rowReport_ok hcatch) with
            hto | ⟨⟨e, heq⟩, -⟩
          · apply ih.row hs₃ (hquiet₃.isIn.mpr hina) (k := k) _ _ hto hpayload hrest
            · intro ρ hρ
              exact hlen ρ ((hquiet₃.solves ρ).mp hρ)
            · intro v hv
              rcases ho v hv with ⟨hlt, hlink⟩
              exact ⟨hquiet₃.next.symm ▸ hlt, hquiet₃.not_link hlink⟩
          · cases heq
      | report report =>
          rcases PartialM.bind_ok hrun with ⟨ca, s₃, -, hrun⟩
          rcases PartialM.bind_ok hrun with ⟨cb, s₄, -, hrun⟩
          cases hrun

end Wok.TypeChecking
