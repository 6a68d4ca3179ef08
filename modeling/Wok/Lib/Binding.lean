/-
Module: Wok.Lib.Binding
Purpose: The binding structure of a piece of syntax, the binder that each occurrence refers
  to, and when a reading in which some scopes are wider refers to the same binders.
Imports: Mathlib.Data.List.Basic
Trusted boundary: none
Main exports: ScopeTree, resolve, ScopeTree.refs, ScopeTree.Free, ScopeTree.Clear,
  ScopeTree.Distinct, refs_congr, resolve_eq_of_refs_eq, refs_wide_iff
-/
import Mathlib.Data.List.Basic

namespace Wok.Lib.Binding

/-- What is bound where: `under bs t` binds `bs` in `t`, and `wide bs t` binds them in `t` only
where scopes are read wide. Binders and occurrences are tokens. -/
inductive ScopeTree (τ : Type*) where
  | leaf
  | ref (v : τ)
  | both (s t : ScopeTree τ)
  | under (bs : List τ) (t : ScopeTree τ)
  | wide (bs : List τ) (t : ScopeTree τ)
  deriving Repr, DecidableEq

variable {τ ν : Type*}

/-- The binders of one scope; a later one hides an earlier one. -/
def push (bs env : List τ) : List τ := bs.reverse ++ env

/-- The tokens that a wide reading binds besides. -/
def ScopeTree.extras : ScopeTree τ → List τ
  | .leaf => []
  | .ref _ => []
  | .both s t => s.extras ++ t.extras
  | .under _ t => t.extras
  | .wide bs t => bs ++ t.extras

/-- No binder is a token that a wide reading binds again inside of its scope. -/
def ScopeTree.Distinct : ScopeTree τ → Prop
  | .leaf => True
  | .ref _ => True
  | .both s t => s.Distinct ∧ t.Distinct
  | .under bs t => (∀ b ∈ bs, b ∉ t.extras) ∧ t.Distinct
  | .wide _ t => t.Distinct

instance ScopeTree.decidableDistinct [DecidableEq τ] : ∀ t : ScopeTree τ, Decidable t.Distinct
  | .leaf => isTrue trivial
  | .ref _ => isTrue trivial
  | .both s t => @instDecidableAnd _ _ s.decidableDistinct t.decidableDistinct
  | .under bs t =>
      @instDecidableAnd _ _ (inferInstanceAs (Decidable (∀ b ∈ bs, b ∉ t.extras)))
        t.decidableDistinct
  | .wide _ t => t.decidableDistinct

variable [DecidableEq ν] (name : τ → ν)

/-- The binder that an occurrence refers to, if one is in scope. -/
def resolve (env : List τ) (n : ν) : Option τ := env.find? fun b => name b = n

/-- The occurrences with their binders. -/
def ScopeTree.refs (wide : Bool) (env : List τ) : ScopeTree τ → List (τ × Option τ)
  | .leaf => []
  | .ref v => [(v, resolve name env (name v))]
  | .both s t => s.refs wide env ++ t.refs wide env
  | .under bs t => t.refs wide (push bs env)
  | .wide bs t => t.refs wide (if wide then push bs env else env)

/-- The name occurs free, in the narrow reading. -/
def ScopeTree.Free (n : ν) : ScopeTree τ → Prop
  | .leaf => False
  | .ref v => name v = n
  | .both s t => s.Free n ∨ t.Free n
  | .under bs t => (∀ b ∈ bs, name b ≠ n) ∧ t.Free n
  | .wide _ t => t.Free n

instance ScopeTree.decidableFree (n : ν) : ∀ t : ScopeTree τ, Decidable (t.Free name n)
  | .leaf => isFalse id
  | .ref v => inferInstanceAs (Decidable (name v = n))
  | .both s t => @instDecidableOr _ _ (s.decidableFree n) (t.decidableFree n)
  | .under bs t =>
      @instDecidableAnd _ _ (inferInstanceAs (Decidable (∀ b ∈ bs, name b ≠ n)))
        (t.decidableFree n)
  | .wide _ t => t.decidableFree n

/-- Nothing that a wide reading binds occurs free there. -/
def ScopeTree.Clear : ScopeTree τ → Prop
  | .leaf => True
  | .ref _ => True
  | .both s t => s.Clear ∧ t.Clear
  | .under _ t => t.Clear
  | .wide bs t => (∀ b ∈ bs, ¬ t.Free name (name b)) ∧ t.Clear

instance ScopeTree.decidableClear : ∀ t : ScopeTree τ, Decidable (t.Clear name)
  | .leaf => isTrue trivial
  | .ref _ => isTrue trivial
  | .both s t => @instDecidableAnd _ _ s.decidableClear t.decidableClear
  | .under _ t => t.decidableClear
  | .wide bs t =>
      @instDecidableAnd _ _
        (@List.decidableBAll _ (fun b => ¬ t.Free name (name b))
          (fun b => @instDecidableNot _ (t.decidableFree name (name b))) bs)
        t.decidableClear

attribute [grind =] ScopeTree.extras ScopeTree.Distinct ScopeTree.refs ScopeTree.Free
  ScopeTree.Clear

/-! ### Resolution -/

section

variable {name} {n : ν} {bs env env' : List τ}

theorem resolve_push (bs env : List τ) (n : ν) :
    resolve name (push bs env) n = (resolve name bs.reverse n).or (resolve name env n) :=
  List.find?_append

theorem resolve_none (h : ∀ b ∈ bs, name b ≠ n) : resolve name bs.reverse n = none := by
  rw [resolve, List.find?_eq_none]
  intro b hb heq
  exact h b (List.mem_reverse.mp hb) (of_decide_eq_true heq)

/-- A name that a scope does not bind is looked up outside of it. -/
theorem resolve_push_of_ne (h : ∀ b ∈ bs, name b ≠ n) :
    resolve name (push bs env) n = resolve name env n := by
  rw [resolve_push, resolve_none h, Option.none_or]

theorem mem_of_resolve {b : τ} (h : resolve name env n = some b) : b ∈ env :=
  List.mem_of_find?_eq_some h

/-- A name that a scope binds refers to a binder of it. -/
theorem exists_resolve_push (env : List τ) {b : τ} (hb : b ∈ bs) (hn : name b = n) :
    ∃ b' ∈ bs, resolve name (push bs env) n = some b' := by
  cases h : resolve name bs.reverse n with
  | none =>
      have hne := List.find?_eq_none.mp h b (List.mem_reverse.mpr hb)
      exact absurd (decide_eq_true hn) hne
  | some b' =>
      refine ⟨b', List.mem_reverse.mp (mem_of_resolve h), ?_⟩
      rw [resolve_push, h, Option.some_or]

/-- A scope keeps the agreement of two environments. -/
theorem resolve_push_congr (bs : List τ) (h : resolve name env n = resolve name env' n) :
    resolve name (push bs env) n = resolve name (push bs env') n := by
  rw [resolve_push, resolve_push, h]

/-! ### References -/

theorem refs_length (t : ScopeTree τ) {w w' : Bool} (env env' : List τ) :
    (t.refs name w env).length = (t.refs name w' env').length := by
  induction t generalizing env env' with
  | leaf => rfl
  | ref v => rfl
  | both s t ihs iht =>
      simp only [ScopeTree.refs, List.length_append]
      rw [ihs env env', iht env env']
  | under bs t ih => exact ih _ _
  | wide bs t ih => exact ih _ _

/-- The references depend on what the free names refer to. -/
theorem refs_congr {w : Bool} {t : ScopeTree τ}
    (h : ∀ n, t.Free name n → resolve name env n = resolve name env' n) :
    t.refs name w env = t.refs name w env' := by
  induction t generalizing env env' with
  | leaf => rfl
  | ref v =>
      simp only [ScopeTree.refs]
      rw [h (name v) rfl]
  | both s t ihs iht =>
      simp only [ScopeTree.refs]
      rw [ihs fun n hn => h n (.inl hn), iht fun n hn => h n (.inr hn)]
  | under bs t ih =>
      refine ih fun n hn => ?_
      by_cases hbs : ∀ b ∈ bs, name b ≠ n
      · exact resolve_push_congr bs (h n ⟨hbs, hn⟩)
      · push Not at hbs
        rcases hbs with ⟨b, hb, hbn⟩
        cases hr : resolve name bs.reverse n with
        | none =>
            have hne := List.find?_eq_none.mp hr b (List.mem_reverse.mpr hb)
            exact absurd (decide_eq_true hbn) hne
        | some b' => rw [resolve_push, resolve_push, hr, Option.some_or, Option.some_or]
  | wide bs t ih =>
      refine ih fun n hn => ?_
      cases w with
      | false => exact h n hn
      | true => exact resolve_push_congr bs (h n hn)

/-- Where the wide and the narrow reading refer to the same binders, a free name has the same
binder in both environments, unless its binder is one that the wide reading binds inside. -/
theorem resolve_eq_of_refs_eq {t : ScopeTree τ} (hn : t.Free name n)
    (heq : t.refs name true env' = t.refs name false env)
    (hout : ∀ b, resolve name env n = some b → b ∉ t.extras) :
    resolve name env' n = resolve name env n := by
  induction t generalizing env env' with
  | leaf => exact hn.elim
  | ref v =>
      simp only [ScopeTree.refs, List.cons.injEq, Prod.mk.injEq, true_and, and_true] at heq
      exact hn ▸ heq
  | both s t ihs iht =>
      rcases List.append_inj heq (refs_length s _ _) with ⟨hs, ht⟩
      rcases hn with hn | hn
      · exact ihs hn hs fun b hb hmem => hout b hb (List.mem_append_left _ hmem)
      · exact iht hn ht fun b hb hmem => hout b hb (List.mem_append_right _ hmem)
  | under bs t ih =>
      have h := ih hn.2 heq fun b hb => hout b (resolve_push_of_ne hn.1 ▸ hb)
      rwa [resolve_push_of_ne hn.1, resolve_push_of_ne hn.1] at h
  | wide bs t ih =>
      have h : resolve name (push bs env') n = resolve name env n :=
        ih hn heq fun b hb hmem => hout b hb (List.mem_append_right _ hmem)
      by_cases hbs : ∀ b ∈ bs, name b ≠ n
      · rwa [resolve_push_of_ne hbs] at h
      · push Not at hbs
        rcases hbs with ⟨b, hb, hbn⟩
        rcases exists_resolve_push env' hb hbn with ⟨b', hb', hr⟩
        exact absurd (List.mem_append_left _ hb') (hout b' (h ▸ hr))

/-- The wide reading refers to the same binders as the narrow one exactly when nothing that
only it binds occurs free there. -/
theorem refs_wide_iff {t : ScopeTree τ} (hd : t.Distinct) (henv : ∀ b ∈ env, b ∉ t.extras) :
    t.refs name true env = t.refs name false env ↔ t.Clear name := by
  induction t generalizing env with
  | leaf => exact ⟨fun _ => trivial, fun _ => rfl⟩
  | ref v => exact ⟨fun _ => trivial, fun _ => rfl⟩
  | both s t ihs iht =>
      have hs := ihs hd.1 fun b hb hmem => henv b hb (List.mem_append_left _ hmem)
      have ht := iht hd.2 fun b hb hmem => henv b hb (List.mem_append_right _ hmem)
      constructor
      · intro heq
        rcases List.append_inj heq (refs_length s _ _) with ⟨h₁, h₂⟩
        exact ⟨hs.mp h₁, ht.mp h₂⟩
      · rintro ⟨h₁, h₂⟩
        exact congrArg₂ (· ++ ·) (hs.mpr h₁) (ht.mpr h₂)
  | under bs t ih =>
      refine ih hd.2 fun b hb => ?_
      rcases List.mem_append.mp hb with hb | hb
      · exact hd.1 b (List.mem_reverse.mp hb)
      · exact henv b hb
  | wide bs t ih =>
      have hin : ∀ b ∈ env, b ∉ t.extras := fun b hb hmem =>
        henv b hb (List.mem_append_right _ hmem)
      have hsame : (∀ b ∈ bs, ¬ t.Free name (name b)) →
          t.refs name true (push bs env) = t.refs name true env := by
        intro hfree
        refine refs_congr fun n hn => ?_
        exact resolve_push_of_ne fun b hb hbn => hfree b hb (hbn ▸ hn)
      constructor
      · intro heq
        have hfree : ∀ b ∈ bs, ¬ t.Free name (name b) := by
          intro b hb hfree
          have h : resolve name (push bs env) (name b) = resolve name env (name b) :=
            resolve_eq_of_refs_eq hfree heq fun b' hb' => hin b' (mem_of_resolve hb')
          rcases exists_resolve_push env hb (Eq.refl (name b)) with ⟨b', hb', hr⟩
          exact henv b' (mem_of_resolve (h ▸ hr)) (List.mem_append_left _ hb')
        exact ⟨hfree, (ih hd hin).mp ((hsame hfree).symm.trans heq)⟩
      · rintro ⟨hfree, hclear⟩
        exact (hsame hfree).trans ((ih hd hin).mpr hclear)

end

end Wok.Lib.Binding
