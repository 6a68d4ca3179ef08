/-
Module: Wok.Proofs.UnifyRow
Purpose: A row is rewritten so that a label comes first: what it means for the values
  of the variables, and when the row is extended.
Imports: Wok.Proofs.UnifyBind
Trusted boundary: none
Main exports: Rewrites, Extension, rewriteRowGuarded_run, rewriteRowGuarded_halts
-/
import Wok.Proofs.UnifyBind

namespace Wok.TypeChecking

open Wok.Lib

variable {s s' s₁ s₂ : TCState} {d : Nat → Nat} {t t' u row : Ty} {ρ : Nat → Ty} {v w x n : Nat}
  {sp : SourceSpan} {lvl : Int} {l : String} {forbidden : Option Nat}

/-! ### New variables -/

/-- The state with one more unbound variable. -/
def TCState.alloc (s : TCState) (lvl : Int) (k : Kind) : TCState :=
  { s with
    cells := fun i => if i = s.next then .unbound s.fresh lvl k else s.cells i
    next := s.next + 1
    fresh := s.fresh + 1 }

theorem freshTVar_run (lvl : Int) (k : Kind) (s : TCState) :
    freshTVar lvl k s = some (.ok (.var s.next), s.alloc lvl k) := rfl

section Alloc

variable {k : Kind}

theorem alloc_old (hv : v < s.next) : (s.alloc lvl k).cells v = s.cells v := if_neg hv.ne

theorem alloc_ne (hv : v ≠ s.next) : (s.alloc lvl k).cells v = s.cells v := if_neg hv

theorem alloc_new : (s.alloc lvl k).cells s.next = .unbound s.fresh lvl k := if_pos rfl

@[simp] theorem alloc_next : (s.alloc lvl k).next = s.next + 1 := rfl

/-- Below the new counter and linked, a variable is an old one. -/
theorem alloc_link (hv : v < s.next + 1) (hlink : (s.alloc lvl k).cells v = .link t) :
    v < s.next ∧ s.cells v = .link t := by
  rcases Nat.lt_succ_iff_lt_or_eq.mp hv with hlt | rfl
  · exact ⟨hlt, (alloc_old hlt).symm.trans hlink⟩
  · rw [alloc_new] at hlink
    cases hlink

theorem alloc_isIn (ht : t.In s) : t.In (s.alloc lvl k) :=
  fun v hv => (ht v hv).trans_le (Nat.le_succ _)

theorem Deep.alloc (hd : Deep d s) : Deep d (s.alloc lvl k) where
  linksIn := by
    intro v t hv hlink
    rcases alloc_link hv hlink with ⟨hlt, hlink⟩
    exact alloc_isIn (hd.linksIn v t hlt hlink)
  depth := by
    intro v t hv hlink
    rcases alloc_link hv hlink with ⟨hlt, hlink⟩
    exact hd.depth v t hlt hlink

theorem solves_alloc : Solves ρ (s.alloc lvl k) ↔ Solves ρ s := by
  constructor
  · intro hρ v t hv hlink
    exact hρ v t (hv.trans_le (Nat.le_succ _)) ((alloc_old hv).trans hlink)
  · intro hρ v t hv hlink
    rcases alloc_link hv hlink with ⟨hlt, hlink⟩
    exact hρ v t hlt hlink

theorem alloc_wellFormed (hs : s.WellFormed) : (s.alloc lvl k).WellFormed := by
  rcases hs with ⟨d, hd⟩
  exact ⟨d, hd.alloc⟩

theorem alloc_unboundVars : (s.alloc lvl k).unboundVars = insert s.next s.unboundVars := by
  ext v
  rw [Finset.mem_insert, mem_unboundVars, mem_unboundVars, alloc_next]
  by_cases hv : v = s.next
  · subst hv
    rw [alloc_new]
    simp [TVar.IsUnbound]
  · rw [alloc_ne hv]
    have hlt : v < s.next + 1 ↔ v < s.next := by omega
    simp only [hv, hlt, false_or]

theorem alloc_card : (s.alloc lvl k).unboundVars.card = s.unboundVars.card + 1 := by
  rw [alloc_unboundVars]
  apply Finset.card_insert_of_notMem
  intro hmem
  exact absurd (mem_unboundVars.mp hmem).1 (lt_irrefl _)

end Alloc

/-! ### Rewriting a row -/

/-- The label was brought to the head: the row is the label with `t'` and the rest `u`,
for the values that the new state allows; and whatever the row can be taken apart
into is reached. -/
structure Rewrites (s : TCState) (row : Ty) (l : String) (s' : TCState) (t' u : Ty) : Prop where
  wellFormed : s'.WellFormed
  next : s.next ≤ s'.next
  payloadIn : t'.In s'
  restIn : u.In s'
  sound : ∀ ρ, Solves ρ s' →
    Solves ρ s ∧ row.eval ρ = insertField l (t'.eval ρ) (u.eval ρ)
  principal : ∀ ρ x y, Normal ρ → Solves ρ s → row.eval ρ = insertField l x y →
    ∃ ρ', Normal ρ' ∧ (∀ v, v < s.next → ρ' v = ρ v) ∧ Solves ρ' s' ∧ t'.eval ρ' = x ∧ u.eval ρ' = y
  rigid : ∀ v u l k, v < s.next → s.cells v = .rigid u l k → s'.cells v = .rigid u l k

/-- The row ended in the variable `ref`, which was bound to the label with two new
variables. -/
structure Extension (s : TCState) (l : String) (s' : TCState) (t' u : Ty) (ref : Nat) : Prop where
  ref_lt : ref < s.next
  next : s'.next = s.next + 2
  payload : t' = .var s.next
  unbound : (s'.cells s.next).IsUnbound ∧ (s'.cells (s.next + 1)).IsUnbound
  card : s'.unboundVars.card = s.unboundVars.card + 1
  content : ∀ v t, v < s'.next → s'.cells v = .link t →
    t = .rowExtend l (.var s.next) (.var (s.next + 1)) ∨ ∃ w, w < s.next ∧ s.cells w = .link t
  not_link : ∀ v, v < s.next → v ≠ ref → (∀ t, s.cells v ≠ .link t) → ∀ t, s'.cells v ≠ .link t
  tail : ∃ j, ∀ ρ, Solves ρ s' → (u.eval ρ).rowLen = j + (ρ (s.next + 1)).rowLen
  kinded : ∀ ρ, Solves ρ s' → Kinded ρ s' → Kinded ρ s ∧ ¬IsRow (ρ s.next)

theorem Rewrites.after_quiet (hquiet : Quiet d s s₁) (h : Rewrites s₁ row l s' t' u)
    (heval : ∀ ρ, Solves ρ s → row.eval ρ = t.eval ρ) : Rewrites s t l s' t' u where
  wellFormed := h.wellFormed
  next := hquiet.next ▸ h.next
  payloadIn := h.payloadIn
  restIn := h.restIn
  sound := by
    intro ρ hρ
    rcases h.sound ρ hρ with ⟨hρ, heq⟩
    have hρ := (hquiet.solves ρ).mp hρ
    exact ⟨hρ, (heval ρ hρ).symm.trans heq⟩
  principal := by
    intro ρ x y hnormal hρ heq
    rcases h.principal ρ x y hnormal ((hquiet.solves ρ).mpr hρ) ((heval ρ hρ).trans heq) with
      ⟨ρ', hnormal', hagree, hρ', hx, hy⟩
    exact ⟨ρ', hnormal', fun v hv => hagree v (hquiet.next.symm ▸ hv), hρ', hx, hy⟩
  rigid := fun v u l k hv hcell =>
    h.rigid v u l k (hquiet.next.symm ▸ hv) (hquiet.rigid v u l k hcell)

theorem Extension.after_quiet {ref : Nat} (hquiet : Quiet d s s₁)
    (h : Extension s₁ l s' t' u ref) : Extension s l s' t' u ref where
  ref_lt := hquiet.next ▸ h.ref_lt
  next := hquiet.next ▸ h.next
  payload := hquiet.next ▸ h.payload
  unbound := hquiet.next ▸ h.unbound
  card := by
    rw [h.card, hquiet.unboundVars]
  content := by
    intro v t hv hlink
    rcases h.content v t hv hlink with heq | ⟨w, hw, hlink⟩
    · exact .inl (hquiet.next ▸ heq)
    · exact .inr (hquiet.content w t (hquiet.next ▸ hw) hlink)
  not_link := fun v hv hne hlink =>
    h.not_link v (hquiet.next.symm ▸ hv) hne (hquiet.not_link hlink)
  tail := hquiet.next ▸ h.tail
  kinded := by
    intro ρ hρ hkinded
    rcases h.kinded ρ hρ hkinded with ⟨hkinded, hnew⟩
    exact ⟨hquiet.kinded.mp hkinded, hquiet.next ▸ hnew⟩

/-- The label is at the head already. -/
theorem Rewrites.head {rest : Ty} (hs : s.WellFormed) (ht : (Ty.rowExtend l t rest).In s) :
    Rewrites s (.rowExtend l t rest) l s t rest where
  wellFormed := hs
  next := le_rfl
  payloadIn := Part.payload.isIn ht
  restIn := Part.rest.isIn ht
  sound := fun ρ hρ => ⟨hρ, rfl⟩
  principal := by
    intro ρ x y hnormal hρ heq
    rcases insertField_inj heq with ⟨hx, hy⟩
    exact ⟨ρ, hnormal, fun _ _ => rfl, hρ, hx, hy⟩
  rigid := fun _ _ _ _ _ h => h

/-- The label is behind another one. -/
theorem Rewrites.behind {l' : String} {rest : Ty} (hne : l ≠ l')
    (ht : (Ty.rowExtend l' t rest).In s) (h : Rewrites s rest l s' t' u) :
    Rewrites s (.rowExtend l' t rest) l s' t' (.rowExtend l' t u) where
  wellFormed := h.wellFormed
  next := h.next
  payloadIn := h.payloadIn
  restIn := by
    intro v hv
    rcases List.mem_append.mp hv with hv | hv
    · exact (Part.payload.isIn ht v hv).trans_le h.next
    · exact h.restIn v hv
  sound := by
    intro ρ hρ
    rcases h.sound ρ hρ with ⟨hρ, heq⟩
    refine ⟨hρ, ?_⟩
    rw [Ty.eval, heq, Ty.eval, insertField_comm (Ne.symm hne)]
  principal := by
    intro ρ x y hnormal hρ heq
    rcases insertField_ne hne (hnormal.sortedRow rest) heq with ⟨z, hz, hy, -⟩
    rcases h.principal ρ x z hnormal hρ hz with ⟨ρ', hnormal', hagree, hρ', hx, hrest⟩
    refine ⟨ρ', hnormal', hagree, hρ', hx, ?_⟩
    have ht' : t.eval ρ' = t.eval ρ := eval_congr t fun v hv =>
      hagree v (Part.payload.isIn ht v hv)
    rw [Ty.eval, hrest, ht', hy]
  rigid := h.rigid

theorem Extension.behind {ref : Nat} {l' : String} (h : Extension s l s' t' u ref) :
    Extension s l s' t' (.rowExtend l' t u) ref where
  ref_lt := h.ref_lt
  next := h.next
  payload := h.payload
  unbound := h.unbound
  card := h.card
  content := h.content
  not_link := h.not_link
  tail := by
    rcases h.tail with ⟨j, hj⟩
    refine ⟨j + 1, ?_⟩
    intro ρ hρ
    rw [Ty.eval, rowLen_insertField, hj ρ hρ, Nat.add_right_comm]
  kinded := h.kinded

/-- Values for two new variables. -/
def withTwo (ρ : Nat → Ty) (m : Nat) (x y : Ty) : Nat → Ty := fun v =>
  if v = m then x else if v = m + 1 then y else ρ v

section WithTwo

variable {m : Nat} {x y : Ty}

theorem withTwo_old (hv : v < m) : withTwo ρ m x y v = ρ v := by
  have h₁ : v ≠ m := hv.ne
  have h₂ : v ≠ m + 1 := by omega
  simp only [withTwo, h₁, h₂, if_false]

theorem withTwo_fst : withTwo ρ m x y m = x := if_pos rfl

theorem withTwo_snd : withTwo ρ m x y (m + 1) = y := by
  simp only [withTwo, Nat.succ_ne_self, if_false, if_true]

theorem withTwo_normal (h : Normal ρ) (hx : x.norm = x) (hy : y.norm = y) :
    Normal (withTwo ρ m x y) := by
  intro v
  unfold withTwo
  split
  · exact hx
  · split
    · exact hy
    · exact h v

theorem withTwo_solves (hs : s.WellFormed) (hρ : Solves ρ s) :
    Solves (withTwo ρ s.next x y) s := by
  intro v t hv hlink
  rcases hs with ⟨d, hd⟩
  rw [withTwo_old hv, hρ v t hv hlink]
  exact (eval_congr t fun w hw => withTwo_old (hd.linksIn v t hv hlink w hw)).symm

end WithTwo

section Extend

variable {k' : Kind} {ref : Nat}

/-- The variable at the end is bound to the label with two new variables. -/
theorem Binds.rewrites (hs : s.WellFormed) (href : ref < s.next)
    (h : Binds ((s.alloc lvl .star).alloc lvl k') ref
      (.rowExtend l (.var s.next) (.var (s.next + 1))) s') :
    Rewrites s (.var ref) l s' (.var s.next) (.var (s.next + 1)) := by
  have hs₂ : ((s.alloc lvl .star).alloc lvl k').WellFormed := alloc_wellFormed (alloc_wellFormed hs)
  have hsolved := h.solved hs₂
  have hnext : s'.next = s.next + 2 := h.next hs₂
  constructor
  · exact hsolved.wellFormed
  · rw [hnext]
    exact Nat.le_add_right _ _
  · apply var_isIn
    omega
  · apply var_isIn
    omega
  · intro ρ hρ
    rcases hsolved.sound ρ hρ with ⟨hρ, heq⟩
    exact ⟨solves_alloc.mp (solves_alloc.mp hρ), heq⟩
  · intro ρ x y hnormal hρ heq
    have hxy : x.norm = x ∧ y.norm = y := by
      apply norm_of_insertField
      rw [← heq]
      exact hnormal ref
    have hρ₁ : Solves (withTwo ρ s.next x y) s := withTwo_solves hs hρ
    have href₁ : withTwo ρ s.next x y ref = (Ty.rowExtend l (.var s.next) (.var (s.next + 1))).eval
        (withTwo ρ s.next x y) := by
      rw [Ty.eval, Ty.eval, Ty.eval, withTwo_old href, withTwo_fst, withTwo_snd]
      exact heq
    have hnormal₁ : Normal (withTwo ρ s.next x y) := withTwo_normal hnormal hxy.1 hxy.2
    rcases hsolved.principal _ hnormal₁ (solves_alloc.mpr (solves_alloc.mpr hρ₁)) href₁ with
      ⟨ρ₂, hnormal₂, hagree, hρ₂⟩
    refine ⟨ρ₂, hnormal₂, ?_, hρ₂, ?_, ?_⟩
    · intro v hv
      rw [hagree v (hv.trans (by rw [alloc_next, alloc_next]; omega)), withTwo_old hv]
    · rw [Ty.eval, hagree s.next (by rw [alloc_next, alloc_next]; omega), withTwo_fst]
    · rw [Ty.eval, hagree (s.next + 1) (by rw [alloc_next, alloc_next]; omega), withTwo_snd]
  · intro v u₀ l₀ k₀ hv hcell
    apply hsolved.rigid v u₀ l₀ k₀
    · rw [alloc_next, alloc_next]
      omega
    · rw [alloc_old (by rw [alloc_next]; omega), alloc_old hv, hcell]

theorem Binds.extension (hs : s.WellFormed) (href : ref < s.next)
    (h : Binds ((s.alloc lvl .star).alloc lvl k') ref
      (.rowExtend l (.var s.next) (.var (s.next + 1))) s') :
    Extension s l s' (.var s.next) (.var (s.next + 1)) ref := by
  have hs₂ : ((s.alloc lvl .star).alloc lvl k').WellFormed := alloc_wellFormed (alloc_wellFormed hs)
  have hvars : ∀ v, v = s.next ∨ v = s.next + 1 → (s'.cells v).IsUnbound := by
    intro v hv
    have hmem : v ∈ s'.unboundVars := by
      rw [h.unboundVars hs₂, alloc_unboundVars, alloc_unboundVars, alloc_next, Finset.mem_erase]
      refine ⟨by omega, ?_⟩
      rw [Finset.mem_insert, Finset.mem_insert]
      rcases hv with rfl | rfl
      · exact .inr (.inl rfl)
      · exact .inl rfl
    exact (mem_unboundVars.mp hmem).2
  constructor
  · exact href
  · exact h.next hs₂
  · rfl
  · exact ⟨hvars _ (.inl rfl), hvars _ (.inr rfl)⟩
  · have hcard := h.card hs₂
    rw [alloc_card, alloc_card] at hcard
    omega
  · intro v t hv hlink
    rcases h.content hs₂ hv hlink with heq | ⟨w, hw, hlink⟩
    · exact .inl heq
    · rcases alloc_link hw hlink with ⟨hw, hlink⟩
      exact .inr ⟨w, alloc_link hw hlink⟩
  · intro v hv hne hlink t
    apply h.not_link hs₂ hne
    intro t
    rw [alloc_old (by rw [alloc_next]; omega), alloc_old hv]
    exact hlink t
  · refine ⟨0, ?_⟩
    intro ρ _
    rw [Nat.zero_add]
    rfl
  · intro ρ hρ hkinded
    have hkinded := h.kinded hs₂ hρ hkinded
    constructor
    · intro v hv hkind
      apply hkinded v
      · rw [alloc_next, alloc_next]
        omega
      · rw [alloc_old (by rw [alloc_next]; omega), alloc_old hv, hkind]
    · apply hkinded s.next
      · rw [alloc_next, alloc_next]
        omega
      · rw [alloc_old (by rw [alloc_next]; omega), alloc_new]
        rfl

end Extend

/-- What the rewriting of a row comes to when it ends well. -/
def RewritesTo (forbidden : Option Nat) (s : TCState) (row : Ty) (l : String)
    (r : Except Failure (Ty × Ty)) (s' : TCState) : Prop :=
  ∃ t' u, r = .ok (t', u) ∧ Rewrites s row l s' t' u ∧
    ((∀ d, Deep d s → Quiet d s s') ∨
      ∃ ref, some ref ≠ forbidden ∧ (∀ t, s.cells ref ≠ .link t) ∧ Extension s l s' t' u ref)

theorem RewritesTo.after_quiet {r : Except Failure (Ty × Ty)} (hs : s.WellFormed)
    (hquiet : ∀ d, Deep d s → Quiet d s s₁) (heval : ∀ ρ, Solves ρ s → row.eval ρ = t.eval ρ)
    (h : RewritesTo forbidden s₁ row l r s') : RewritesTo forbidden s t l r s' := by
  rcases hs with ⟨d, hd⟩
  rcases h with ⟨t', u, hr, hrewrites, hquiet' | ⟨ref, hne, hlink, hext⟩⟩
  · refine ⟨t', u, hr, hrewrites.after_quiet (hquiet d hd) heval, .inl ?_⟩
    intro d' hd'
    exact (hquiet d' hd').trans (hquiet' d' (hquiet d' hd').deep)
  · refine ⟨t', u, hr, hrewrites.after_quiet (hquiet d hd) heval, .inr ⟨ref, hne, ?_, ?_⟩⟩
    · intro t ht
      rcases (hquiet d hd).link ref t ht with ⟨t', ht'⟩
      exact hlink t' ht'
    · exact hext.after_quiet (hquiet d hd)

theorem rewriteRowGuarded_run {r : Except Failure (Ty × Ty)} (hs : s.WellFormed)
    (hin : row.In s) (hrun : rewriteRowGuarded sp lvl forbidden l n row s = some (r, s')) :
    RewritesTo forbidden s row l r s' ∨ (∃ e, r = .error e) ∧ s'.WellFormed ∧ s.next ≤ s'.next := by
  induction n generalizing row s r s' with
  | zero => cases hrun
  | succ n ih =>
      have hcalm := fun d (hd : Deep d s) => force_calm hd hin
      rcases PartialM.bind_some hrun with ⟨row', s₁, hforce, hrest⟩ | ⟨e, s₁, hforce, heq⟩
      · have hquiet := fun d hd => (hcalm d hd).quiet n _ s₁ hforce
        rcases hs with ⟨d, hd⟩
        have hforces := (hcalm d hd).result n row' s₁ hforce
        have hs₁ : s₁.WellFormed := ⟨d, (hquiet d hd).deep⟩
        have hin₁ : row'.In s₁ := (hquiet d hd).isIn.mpr hforces.isIn
        have hnext : s₁.next = s.next := (hquiet d hd).next
        have hback : ∀ {r s'}, RewritesTo forbidden s₁ row' l r s' →
            RewritesTo forbidden s row l r s' := fun h =>
          h.after_quiet ⟨d, hd⟩ hquiet fun ρ hρ => hforces.eval_of_solves hρ
        have hfail : ∀ {e : Failure}, some (.error e, s₁) = some (r, s') →
            (∃ e, r = .error e) ∧ s'.WellFormed ∧ s.next ≤ s'.next := by
          intro e heq
          cases heq
          exact ⟨⟨e, rfl⟩, hs₁, hnext.ge⟩
        cases row' with
        | rowExtend l' t rest =>
            by_cases hl : l = l'
            · simp only [if_pos hl] at hrest
              subst hl
              cases hrest
              left
              apply hback
              exact ⟨t, rest, rfl, .head hs₁ hin₁, .inl fun d hd => .refl hd⟩
            · simp only [if_neg hl] at hrest
              rcases PartialM.bind_some hrest with ⟨⟨t', u⟩, s₂, hrec, hret⟩ | ⟨e, s₂, hrec, heq⟩
              · cases hret
                rcases ih hs₁ (Part.rest.isIn hin₁) hrec with hto | ⟨⟨e, heq⟩, -⟩
                · rcases hto with ⟨t'', u', heq, hrewrites, hcase⟩
                  cases heq
                  left
                  apply hback
                  refine ⟨t', _, rfl, hrewrites.behind hl hin₁, ?_⟩
                  rcases hcase with hquiet' | ⟨ref, hne, hlink, hext⟩
                  · exact .inl hquiet'
                  · exact .inr ⟨ref, hne, hlink, hext.behind⟩
                · cases heq
              · cases heq
                rcases ih hs₁ (Part.rest.isIn hin₁) hrec with ⟨_, _, heq, -⟩ | ⟨-, hs', hle⟩
                · cases heq
                · exact .inr ⟨⟨e, rfl⟩, hs', hnext ▸ hle⟩
        | var ref =>
            by_cases href : some ref = forbidden
            · simp only [if_pos href] at hrest
              exact .inr (hfail hrest)
            · simp only [if_neg href] at hrest
              have hlt : ref < s₁.next := hin₁ ref List.mem_cons_self
              have hlink : ∀ t, s₁.cells ref ≠ .link t := fun t => hforces.head ref t rfl
              let s₃ := (s₁.alloc lvl .star).alloc lvl .effect
              have hs₃ : s₃.WellFormed := alloc_wellFormed (alloc_wellFormed hs₁)
              have hnext₃ : s₃.next = s₁.next + 2 := rfl
              have hlink₃ : ∀ t, s₃.cells ref ≠ .link t := by
                intro t
                change ((s₁.alloc lvl .star).alloc lvl .effect).cells ref ≠ _
                rw [alloc_old (by rw [alloc_next]; omega), alloc_old hlt]
                exact hlink t
              have hin₃ : (Ty.rowExtend l (.var s₁.next) (.var (s₁.next + 1))).In s₃ := by
                intro v hv
                rw [hnext₃]
                rcases List.mem_cons.mp hv with rfl | hv
                · omega
                · rcases List.mem_singleton.mp hv with rfl
                  omega
              have hlt₃ : ref < s₃.next := by omega
              change (unifyVar sp n ref (.rowExtend l (.var s₁.next) (.var (s₁.next + 1))) >>=
                fun _ => Pure.pure (Ty.var s₁.next, Ty.var (s₁.next + 1))) s₃ = _ at hrest
              rcases PartialM.bind_some hrest with ⟨_, s₄, hvar, hret⟩ | ⟨e, s₄, hvar, heq⟩
              · cases hret
                rcases unifyVar_run hs₃ hlt₃ hlink₃ hin₃ (fun _ _ h => nomatch h)
                  (fun h => nomatch h) hvar with
                  ⟨-, hbinds | ⟨v, heq, -⟩⟩ | ⟨⟨e, heq⟩, -⟩
                · left
                  apply hback
                  exact ⟨_, _, rfl, hbinds.rewrites hs₁ hlt,
                    .inr ⟨ref, href, hlink, hbinds.extension hs₁ hlt⟩⟩
                · cases heq
                · cases heq
              · cases heq
                rcases unifyVar_run hs₃ hlt₃ hlink₃ hin₃ (fun _ _ h => nomatch h)
                  (fun h => nomatch h) hvar with
                  ⟨heq, -⟩ | ⟨-, hquiet'⟩
                · cases heq
                · rcases hs₃ with ⟨d', hd'⟩
                  refine .inr ⟨⟨e, rfl⟩, ⟨d', (hquiet' d' hd').deep⟩, ?_⟩
                  rw [(hquiet' d' hd').next]
                  omega
        | rowEmpty => exact .inr (hfail hrest)
        | con c ts => exact .inr (hfail hrest)
        | arr a e b => exact .inr (hfail hrest)
        | record tag row => exact .inr (hfail hrest)
      · cases heq
        rcases hs with ⟨d, hd⟩
        have hquiet := (hcalm d hd).quiet n _ _ hforce
        exact .inr ⟨⟨e, rfl⟩, ⟨d, hquiet.deep⟩, hquiet.next.ge⟩

theorem rewriteRowGuarded_halts (hd : Deep d s) (hin : row.In s) :
    Halts (fun n => rewriteRowGuarded sp lvl forbidden l n row) s := by
  induction hk : row.depth d using Nat.strongRecOn generalizing row s with
  | ind k ih =>
      subst hk
      apply Halts.succ
      apply Halts.bind (force_calm hd hin).halts
      intro n row' s₁ hforce
      have hquiet := (force_calm hd hin).quiet n _ s₁ hforce
      have hforces := (force_calm hd hin).result n row' s₁ hforce
      cases row' with
      | rowExtend l' t rest =>
          by_cases hl : l = l'
          · simp only [if_pos hl]
            exact .const rfl
          · simp only [if_neg hl]
            rcases hforces.part .rest with ⟨hin', hdepth⟩
            apply Halts.bind (ih _ hdepth hquiet.deep hin' rfl)
            rintro n ⟨t', u⟩ s₂ _
            exact .const rfl
      | var ref =>
          by_cases href : some ref = forbidden
          · simp only [if_pos href]
            exact .const rfl
          · simp only [if_neg href]
            apply Halts.bind (.const rfl)
            intro n tFresh s₂ hrun
            cases hrun
            apply Halts.bind (.const rfl)
            intro n restFresh s₃ hrun
            cases hrun
            apply Halts.bind
            · apply unifyVar_halts
              · exact ⟨d, hquiet.deep.alloc.alloc⟩
              · have hlt := hforces.isIn ref List.mem_cons_self
                rw [← hquiet.next] at hlt
                change ref < s₁.next + 1 + 1
                omega
              · intro v hv
                change v < s₁.next + 1 + 1
                rcases List.mem_cons.mp hv with rfl | hv
                · exact Nat.lt_succ_of_lt (Nat.lt_succ_self _)
                · rcases List.mem_singleton.mp hv with rfl
                  exact Nat.lt_succ_self _
            · intro n _ s₄ _
              exact .const rfl
      | _ => exact .const rfl

end Wok.TypeChecking
