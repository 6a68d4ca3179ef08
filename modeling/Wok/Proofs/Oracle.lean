/-
Module: Wok.Proofs.Oracle
Layer: Proofs
Purpose: In every environment that a program reaches, constructors and type constructors
  name each other; so the oracle answers for the type of a pattern unless a declared
  constructor of another type has the name of a built-in tag.
Imports: Wok.Proofs.Case, Wok.Spec.Oracle
Trusted boundary: none
Main exports: Coherent, coherent_of_declared, oracle_answers_iff
-/
import Wok.Proofs.Case
import Wok.Spec.Oracle

namespace Wok.Proofs.Oracle

open Wok.IR Wok.TypeChecking Wok.Spec.Oracle Wok.Proofs.Case

variable {E : Type}

/-! ### Constructors and type constructors name each other -/

/-- Every constructor is listed by the type constructor that it names, and every listed
constructor is there and names the type constructor that lists it, once. -/
structure Coherent (env : Env E) : Prop where
  listed : ∀ c ci, lookupCon c env = some ci →
    ∃ ti, lookupTyCon ci.tyCon env = some ti ∧ c ∈ ti.cons
  found : ∀ t ti, lookupTyCon t env = some ti →
    ∀ c ∈ ti.cons, ∃ ci, lookupCon c env = some ci ∧ ci.tyCon = t
  nodup : ∀ t ti, lookupTyCon t env = some ti → ti.cons.Nodup

theorem lookupTyCon_extendTyCon (k t : String) (v : Env.TyConInfo) (env : Env E) :
    lookupTyCon t (extendTyCon k v env) = if t = k then some v else lookupTyCon t env :=
  Dict.lookup_insert k t v env.tyCons

theorem lookupCon_extendCon (k c : String) (v : Env.ConInfo) (env : Env E) :
    lookupCon c (extendCon k v env) = if c = k then some v else lookupCon c env :=
  Dict.lookup_insert k c v env.cons

theorem Coherent.seed {env : Env E} (hcons : env.cons = [])
    (htys : ∀ t ti, lookupTyCon t env = some ti → ti.cons = []) : Coherent env where
  listed c ci h := by
    rw [lookupCon, hcons] at h
    cases h
  found t ti h c hc := by
    rw [htys t ti h] at hc
    cases hc
  nodup t ti h := by
    rw [htys t ti h]
    exact List.nodup_nil

/-- Another environment with the same constructors. -/
theorem Coherent.congr {env env' : Env E} (h : Coherent env) (hcons : env'.cons = env.cons)
    (htys : ∀ t, (lookupTyCon t env').map (·.cons) = (lookupTyCon t env).map (·.cons)) :
    Coherent env' := by
  have hcon : ∀ c, lookupCon c env' = lookupCon c env := fun c => by
    rw [lookupCon, lookupCon, hcons]
  have hback : ∀ t ti, lookupTyCon t env' = some ti →
      ∃ ti', lookupTyCon t env = some ti' ∧ ti'.cons = ti.cons := fun t ti hti => by
    have := htys t
    rw [hti] at this
    exact Option.map_eq_some_iff.mp this.symm
  constructor
  · intro c ci hc
    rw [hcon] at hc
    obtain ⟨ti, hti, hmem⟩ := h.listed c ci hc
    have := htys ci.tyCon
    rw [hti] at this
    obtain ⟨ti', hti', heq⟩ := Option.map_eq_some_iff.mp this
    exact ⟨ti', hti', heq ▸ hmem⟩
  · intro t ti hti c hc
    obtain ⟨ti', hti', heq⟩ := hback t ti hti
    rw [hcon]
    exact h.found t ti' hti' c (heq ▸ hc)
  · intro t ti hti
    obtain ⟨ti', hti', heq⟩ := hback t ti hti
    exact heq ▸ h.nodup t ti' hti'

/-! ### The first pass -/

theorem Coherent.extendTyCon {env : Env E} (h : Coherent env) {t : String} {v : Env.TyConInfo}
    (hfresh : lookupTyCon t env = none) (hv : v.cons = []) : Coherent (extendTyCon t v env) := by
  constructor
  · intro c ci hc
    obtain ⟨ti, hti, hmem⟩ := h.listed c ci hc
    refine ⟨ti, ?_, hmem⟩
    rw [lookupTyCon_extendTyCon, if_neg]
    · exact hti
    · intro heq
      rw [heq, hfresh] at hti
      cases hti
  · intro u ti hu c hc
    rw [lookupTyCon_extendTyCon] at hu
    split at hu
    · cases hu
      rw [hv] at hc
      cases hc
    · exact h.found u ti hu c hc
  · intro u ti hu
    rw [lookupTyCon_extendTyCon] at hu
    split at hu
    · cases hu
      rw [hv]
      exact List.nodup_nil
    · exact h.nodup u ti hu

/-- The declarations have entries of their own, with no constructors yet. -/
structure Pending (ds : List DataDecl) (env : Env E) : Prop where
  names : (ds.map (·.name)).Nodup
  empty : ∀ d ∈ ds, ∃ ti, lookupTyCon d.name env = some ti ∧ ti.cons = []

theorem registerTyCons_spec {ds : List DataDecl} {env env' : Env E}
    (h : registerTyCons env ds = .ok env') (hco : Coherent env) :
    Coherent env' ∧ Pending ds env' ∧
      (∀ d ∈ ds, lookupTyCon d.name env = none) ∧
      ∀ t ti, lookupTyCon t env = some ti → lookupTyCon t env' = some ti := by
  induction ds generalizing env with
  | nil =>
      cases h
      exact ⟨hco, ⟨List.nodup_nil, fun d hd => nomatch hd⟩, fun d hd => (nomatch hd),
        fun t ti ht => ht⟩
  | cons d ds ih =>
      rw [registerTyCons] at h
      split at h
      · cases h
      rename_i hfresh
      obtain ⟨hco', hpend, hnone, hkept⟩ := ih h (hco.extendTyCon hfresh rfl)
      have hother : ∀ d' ∈ ds, d'.name ≠ d.name ∧ lookupTyCon d'.name env = none := by
        intro d' hd'
        have := hnone d' hd'
        rw [lookupTyCon_extendTyCon] at this
        by_cases heq : d'.name = d.name
        · rw [if_pos heq] at this
          cases this
        · rw [if_neg heq] at this
          exact ⟨heq, this⟩
      refine ⟨hco', ⟨?_, ?_⟩, ?_, ?_⟩
      · rw [List.map_cons, List.nodup_cons]
        refine ⟨fun hmem => ?_, hpend.names⟩
        obtain ⟨d', hd', heq⟩ := List.mem_map.mp hmem
        exact (hother d' hd').1 heq
      · intro d' hd'
        rcases List.mem_cons.mp hd' with rfl | hd'
        · exact ⟨_, hkept _ _ (by rw [lookupTyCon_extendTyCon, if_pos rfl]), rfl⟩
        · exact hpend.empty d' hd'
      · intro d' hd'
        rcases List.mem_cons.mp hd' with rfl | hd'
        · exact hfresh
        · exact (hother d' hd').2
      · intro t ti ht
        refine hkept t ti ?_
        rw [lookupTyCon_extendTyCon, if_neg]
        · exact ht
        · intro heq
          rw [heq, hfresh] at ht
          cases ht

/-! ### The second pass -/

/-- The constructors of a type have been added under fresh names. -/
structure Added (t : String) (names : List String) (env env' : Env E) : Prop where
  tyCons : env'.tyCons = env.tyCons
  nodup : names.Nodup
  fresh : ∀ c ∈ names, lookupCon c env = none
  added : ∀ c ∈ names, ∃ ci, lookupCon c env' = some ci ∧ ci.tyCon = t
  kept : ∀ c, c ∉ names → lookupCon c env' = lookupCon c env

/-- A constructor is added before the others. -/
theorem Added.cons {t c : String} {v : Env.ConInfo} {names : List String} {env env' : Env E}
    (hv : v.tyCon = t) (hfresh : lookupCon c env = none)
    (h : Added t names (extendCon c v env) env') : Added t (c :: names) env env' := by
  have hne : ∀ c' ∈ names, c' ≠ c ∧ lookupCon c' env = none := by
    intro c' hc'
    have := h.fresh c' hc'
    rw [lookupCon_extendCon] at this
    by_cases heq : c' = c
    · rw [if_pos heq] at this
      cases this
    · rw [if_neg heq] at this
      exact ⟨heq, this⟩
  have hnot : c ∉ names := fun hmem => (hne c hmem).1 rfl
  constructor
  · exact h.tyCons
  · exact List.nodup_cons.mpr ⟨hnot, h.nodup⟩
  · intro c' hc'
    rcases List.mem_cons.mp hc' with rfl | hc'
    · exact hfresh
    · exact (hne c' hc').2
  · intro c' hc'
    rcases List.mem_cons.mp hc' with rfl | hc'
    · refine ⟨v, ?_, hv⟩
      rw [h.kept c' hnot, lookupCon_extendCon, if_pos rfl]
    · exact h.added c' hc'
  · intro c' hc'
    rw [List.mem_cons, not_or] at hc'
    rw [h.kept c' hc'.2, lookupCon_extendCon, if_neg hc'.1]

theorem foldlM_registerCon {t : String} {pks : List Kind} {conDefs : List ConDef}
    {env env' : Env E} (h : conDefs.foldlM (registerCon t pks) env = .ok env') :
    Added t (positionalCons conDefs) env env' := by
  induction conDefs generalizing env with
  | nil =>
      cases h
      exact ⟨rfl, List.nodup_nil, fun c hc => (nomatch hc), fun c hc => (nomatch hc),
        fun c _ => rfl⟩
  | cons d conDefs ih =>
      rw [List.foldlM_cons] at h
      cases hreg : registerCon t pks env d with
      | error e =>
          rw [hreg] at h
          cases h
      | ok env₁ =>
          rw [hreg] at h
          have hrest := ih h
          cases d with
          | conDef c args =>
              rw [registerCon] at hreg
              split at hreg
              · cases hreg
              · rename_i hfresh
                cases hreg
                exact hrest.cons rfl hfresh
          | conDefRec c fields =>
              rw [registerCon] at hreg
              split at hreg
              · cases hreg
              · cases hreg
                exact ⟨hrest.tyCons, hrest.nodup, hrest.fresh, hrest.added, hrest.kept⟩

theorem setCons_lookup {t : String} {names : List String} {env : Env E} {ti : Env.TyConInfo}
    (h : lookupTyCon t env = some ti) (u : String) :
    lookupTyCon u (setCons t names env) =
      if u = t then some { ti with cons := names } else lookupTyCon u env := by
  rw [setCons, h]
  exact lookupTyCon_extendTyCon t u _ env

theorem setCons_cons {t : String} {names : List String} {env : Env E} {ti : Env.TyConInfo}
    (h : lookupTyCon t env = some ti) (c : String) :
    lookupCon c (setCons t names env) = lookupCon c env := by
  rw [setCons, h]
  rfl

/-- The constructors of one declaration, with its entry. -/
theorem Coherent.declare {env env' : Env E} (h : Coherent env) {t : String} {names : List String}
    {ti : Env.TyConInfo} (hti : lookupTyCon t env = some ti) (hempty : ti.cons = [])
    (hadd : Added t names env env') : Coherent (setCons t names env') := by
  have htys : ∀ u, lookupTyCon u env' = lookupTyCon u env := fun u => by
    rw [lookupTyCon, lookupTyCon, hadd.tyCons]
  have hti' : lookupTyCon t env' = some ti := (htys t).trans hti
  constructor
  · intro c ci hc
    rw [setCons_cons hti'] at hc
    by_cases hmem : c ∈ names
    · obtain ⟨ci', hci', heq⟩ := hadd.added c hmem
      obtain rfl : ci' = ci := Option.some.inj (hci'.symm.trans hc)
      exact ⟨{ ti with cons := names }, by rw [setCons_lookup hti', if_pos heq], hmem⟩
    · rw [hadd.kept c hmem] at hc
      obtain ⟨ti₁, hti₁, hlist⟩ := h.listed c ci hc
      refine ⟨ti₁, ?_, hlist⟩
      rw [setCons_lookup hti', if_neg, htys]
      · exact hti₁
      · intro heq
        -- a constructor of `t` would be listed in its entry, which lists none
        rw [heq, hti] at hti₁
        obtain rfl := Option.some.inj hti₁
        rw [hempty] at hlist
        cases hlist
  · intro u ui hu c hc
    rw [setCons_lookup hti'] at hu
    rw [setCons_cons hti']
    split at hu
    · rename_i heq
      cases hu
      rw [heq]
      exact hadd.added c hc
    · rw [htys] at hu
      obtain ⟨ci, hci, heq⟩ := h.found u ui hu c hc
      refine ⟨ci, ?_, heq⟩
      rw [hadd.kept c, hci]
      intro hmem
      rw [hadd.fresh c hmem] at hci
      cases hci
  · intro u ui hu
    rw [setCons_lookup hti'] at hu
    split at hu
    · cases hu
      exact hadd.nodup
    · rw [htys] at hu
      exact h.nodup u ui hu

/-- The other declarations still wait. -/
theorem Pending.declare {d : DataDecl} {ds : List DataDecl} {names : List String}
    {env env' : Env E} (h : Pending (d :: ds) env) (hadd : Added d.name names env env') :
    Pending ds (setCons d.name names env') := by
  have hnames := List.nodup_cons.mp h.names
  obtain ⟨ti, hti, -⟩ := h.empty d List.mem_cons_self
  have htys : ∀ u, lookupTyCon u env' = lookupTyCon u env := fun u => by
    rw [lookupTyCon, lookupTyCon, hadd.tyCons]
  refine ⟨hnames.2, fun d' hd' => ?_⟩
  obtain ⟨ti', hti', hempty⟩ := h.empty d' (List.mem_cons_of_mem _ hd')
  refine ⟨ti', ?_, hempty⟩
  rw [setCons_lookup ((htys _).trans hti), if_neg, htys]
  · exact hti'
  · intro heq
    exact hnames.1 (List.mem_map.mpr ⟨d', hd', heq⟩)

theorem registerCons_coherent {ds : List DataDecl} {env env' : Env E}
    (h : registerCons env ds = .ok env') (hco : Coherent env) (hpend : Pending ds env) :
    Coherent env' := by
  induction ds generalizing env with
  | nil =>
      cases h
      exact hco
  | cons d ds ih =>
      rw [registerCons] at h
      split at h
      · refine ih h hco ⟨(List.nodup_cons.mp hpend.names).2, fun d' hd' => ?_⟩
        exact hpend.empty d' (List.mem_cons_of_mem _ hd')
      · split at h
        · cases h
        · rename_i hfold
          have hadd := foldlM_registerCon hfold
          obtain ⟨ti, hti, hempty⟩ := hpend.empty d List.mem_cons_self
          exact ih h (hco.declare hti hempty hadd) (hpend.declare hadd)

theorem processDataDecls_coherent {ds : List DataDecl} {env env' : Env E}
    (h : processDataDecls env ds = .ok env') (hco : Coherent env) : Coherent env' := by
  rw [processDataDecls] at h
  split at h
  · cases h
  · rename_i hty
    obtain ⟨hco', hpend, -, -⟩ := registerTyCons_spec hty hco
    exact registerCons_coherent h hco' hpend

/-! ### The overlay -/

theorem lookup_union_right {α : Type} [DecidableEq α] {m₁ m₂ : Dict α}
    (h : differing m₁ m₂ = []) {k : String} {b : α} (hk : m₂.lookup k = some b) :
    (m₁.union m₂).lookup k = some b := by
  rw [Dict.lookup_union]
  cases hl : m₁.lookup k with
  | none => exact hk
  | some a =>
      have := Dict.meet_eq_nil h hl hk
      have heq : a = b := by simpa using this
      rw [heq]
      rfl

theorem lookup_union_left {α : Type} {m₁ m₂ : Dict α} {k : String} {a : α}
    (hk : m₁.lookup k = some a) : (m₁.union m₂).lookup k = some a := by
  rw [Dict.lookup_union, hk]
  rfl

theorem lookup_union_inv {α : Type} {m₁ m₂ : Dict α} {k : String} {a : α}
    (hk : (m₁.union m₂).lookup k = some a) : m₁.lookup k = some a ∨ m₂.lookup k = some a := by
  rw [Dict.lookup_union] at hk
  cases hl : m₁.lookup k with
  | none =>
      rw [hl] at hk
      exact .inr hk
  | some b =>
      rw [hl] at hk
      exact .inl hk

variable [DecidableEq E]

theorem overlayEnvs_ok {env₁ env₂ env : Env E} (h : overlayEnvs env₁ env₂ = .ok env) :
    env.cons = env₁.cons.union env₂.cons ∧ env.tyCons = env₁.tyCons.union env₂.tyCons ∧
      differing env₁.cons env₂.cons = [] ∧ differing env₁.tyCons env₂.tyCons = [] := by
  rw [overlayEnvs] at h
  split at h
  · rename_i hnil
    cases h
    simp only [List.append_eq_nil_iff, List.map_eq_nil_iff] at hnil
    exact ⟨rfl, rfl, hnil.1.1.1.1.1.2, hnil.1.1.1.1.2⟩
  · cases h

theorem Coherent.overlay {env₁ env₂ env : Env E} (h₁ : Coherent env₁) (h₂ : Coherent env₂)
    (h : overlayEnvs env₁ env₂ = .ok env) : Coherent env := by
  obtain ⟨hcons, htys, hdc, hdt⟩ := overlayEnvs_ok h
  constructor
  · intro c ci hc
    rw [lookupCon, hcons] at hc
    rw [lookupTyCon, htys]
    rcases lookup_union_inv hc with hc | hc
    · obtain ⟨ti, hti, hmem⟩ := h₁.listed c ci hc
      exact ⟨ti, lookup_union_left hti, hmem⟩
    · obtain ⟨ti, hti, hmem⟩ := h₂.listed c ci hc
      exact ⟨ti, lookup_union_right hdt hti, hmem⟩
  · intro t ti ht c hc
    rw [lookupTyCon, htys] at ht
    rw [lookupCon, hcons]
    rcases lookup_union_inv ht with ht | ht
    · obtain ⟨ci, hci, heq⟩ := h₁.found t ti ht c hc
      exact ⟨ci, lookup_union_left hci, heq⟩
    · obtain ⟨ci, hci, heq⟩ := h₂.found t ti ht c hc
      exact ⟨ci, lookup_union_right hdc hci, heq⟩
  · intro t ti ht
    rw [lookupTyCon, htys] at ht
    rcases lookup_union_inv ht with ht | ht
    · exact h₁.nodup t ti ht
    · exact h₂.nodup t ti ht

theorem coherent_of_declared {env : Env E} (h : Declared env) : Coherent env := by
  induction h with
  | seed hcons htys => exact Coherent.seed hcons htys
  | other _ hcons htys ih => exact ih.congr hcons htys
  | decls _ hds ih => exact processDataDecls_coherent hds ih
  | overlay _ _ hover ih₁ ih₂ => exact ih₁.overlay ih₂ hover

/-! ### What the elaborator reads -/

omit [DecidableEq E] in
theorem elabEnv_lookupCon (env : Env E) (c : String) :
    env.elabEnv.lookupCon c = (lookupCon c env).map fun ci => ⟨ci.arity, ci.tyCon⟩ :=
  Dict.lookup_mapWithKey (fun _ (ci : Env.ConInfo) => (⟨ci.arity, ci.tyCon⟩ : ConInfo)) env.cons c

omit [DecidableEq E] in
theorem elabEnv_lookupTyCon (env : Env E) (t : String) :
    env.elabEnv.lookupTyCon t = (lookupTyCon t env).map fun ti => ⟨ti.cons⟩ :=
  Dict.lookup_mapWithKey (fun _ (ti : Env.TyConInfo) => (⟨ti.cons⟩ : TyConInfo)) env.tyCons t

/-- For a declared constructor the oracle lists those of its type, each once. -/
theorem oracle_declared {env : Env E} (h : Declared env) {c : String} {ci : ConInfo}
    (hc : env.elabEnv.lookupCon c = some ci) :
    (buildOracle env.elabEnv).coArity c = ci.arity ∧
      ∃ sibs, (buildOracle env.elabEnv).coSiblings c = some sibs ∧ sibs.Nodup ∧
        ∀ c', c' ∈ sibs ↔ ∃ arity, ConOf env.elabEnv (.user ci.tyCon) c' arity := by
  have hco := coherent_of_declared h
  have hc₀ := hc
  rw [elabEnv_lookupCon] at hc₀
  obtain ⟨ci₀, hci₀, rfl⟩ := Option.map_eq_some_iff.mp hc₀
  obtain ⟨ti, hti, hmem⟩ := hco.listed c ci₀ hci₀
  have htyc : env.elabEnv.lookupTyCon ci₀.tyCon = some ⟨ti.cons⟩ := by
    rw [elabEnv_lookupTyCon, hti]
    rfl
  refine ⟨(oracle_con hc).1, ti.cons, ?_, hco.nodup _ _ hti, fun c' => ⟨fun hc' => ?_, ?_⟩⟩
  · rw [(oracle_con hc).2, Wok.Spec.Match.siblings, hc]
    simp [htyc]
  · obtain ⟨ci', hci', heq⟩ := hco.found _ _ hti c' hc'
    refine ⟨ci'.arity, ?_⟩
    rw [ConOf, elabEnv_lookupCon, hci', ← heq]
    rfl
  · rintro ⟨arity, hof⟩
    rw [ConOf, elabEnv_lookupCon] at hof
    obtain ⟨ci', hci', heq⟩ := Option.map_eq_some_iff.mp hof
    obtain ⟨ti', hti', hmem'⟩ := hco.listed c' ci' hci'
    rw [show ci'.tyCon = ci₀.tyCon from congrArg ConInfo.tyCon heq, hti] at hti'
    obtain rfl := Option.some.inj hti'
    exact hmem'

/-! ### The answers -/

/-- For the tag of a pattern of a built-in type that no declaration uses. -/
theorem answers_builtin {env : TypeEnv} {p : TPat} {tag : String} {ty : HeadType}
    (hp : headOf env p = some (tag, ty)) (hty : ∀ t, ty ≠ .user t)
    (hnone : env.lookupCon tag = none) : Answers env (buildOracle env) ty tag := by
  unfold headOf at hp
  split at hp
  · cases hp
    obtain ⟨harity, hsibs⟩ := oracle_tuple hnone
    refine ⟨⟨rfl, harity⟩, _, hsibs, List.nodup_singleton _, fun c => ?_⟩
    simp [ConOf]
  · cases hp
    obtain ⟨harity, hsibs⟩ := oracle_nil hnone
    refine ⟨.inl ⟨rfl, harity⟩, _, hsibs, by decide, fun c => ?_⟩
    simp [ConOf, exists_or]
  · cases hp
    obtain ⟨harity, hsibs⟩ := oracle_cons hnone
    refine ⟨.inr ⟨rfl, harity⟩, _, hsibs, by decide, fun c => ?_⟩
    simp [ConOf, exists_or]
  · obtain ⟨ci, -, heq⟩ := Option.map_eq_some_iff.mp hp
    cases heq
    exact absurd rfl (hty ci.tyCon)
  · cases hp

/-- For the name of a declared constructor: when it is one of the type's, and the type that
declares it has the same constructors. -/
theorem answers_declared_iff {env : Env E} (h : Declared env) {tag : String} {ty : HeadType}
    {ci : ConInfo} (hc : env.elabEnv.lookupCon tag = some ci) :
    Answers env.elabEnv (buildOracle env.elabEnv) ty tag ↔
      ConOf env.elabEnv ty tag ci.arity ∧
        ∀ c, (∃ arity, ConOf env.elabEnv (.user ci.tyCon) c arity) ↔
          ∃ arity, ConOf env.elabEnv ty c arity := by
  obtain ⟨harity, sibs, hsibs, hnodup, hmem⟩ := oracle_declared h hc
  rw [Answers, harity, hsibs]
  constructor
  · rintro ⟨hof, sibs', heq, -, hmem'⟩
    obtain rfl := Option.some.inj heq
    exact ⟨hof, fun c => (hmem c).symm.trans (hmem' c)⟩
  · rintro ⟨hof, hsame⟩
    exact ⟨hof, sibs, rfl, hnodup, fun c => (hmem c).trans (hsame c)⟩

/-- A pattern of a declared type has a declared constructor. -/
theorem headOf_user {env : TypeEnv} {p : TPat} {tag t : String}
    (hp : headOf env p = some (tag, .user t)) :
    ∃ ci, env.lookupCon tag = some ci ∧ ci.tyCon = t := by
  unfold headOf at hp
  split at hp
  · cases hp
  · cases hp
  · cases hp
  · obtain ⟨ci, hci, heq⟩ := Option.map_eq_some_iff.mp hp
    cases heq
    exact ⟨ci, hci, rfl⟩
  · cases hp

/-- With the right answers, a column is complete when it has all the constructors. -/
theorem decides_of_answers {env : TypeEnv} {oracle : ConOracle} {ty : HeadType} {tag : String}
    (h : Answers env oracle ty tag) : Decides env oracle ty tag := by
  obtain ⟨-, sibs, hsibs, -, hmem⟩ := h
  intro heads
  have htags : ∀ c, c ∈ (Head.con tag :: heads).filterMap Head.conTag ↔
      Head.con c ∈ Head.con tag :: heads := by
    intro c
    rw [List.mem_filterMap]
    constructor
    · rintro ⟨head, hhead, heq⟩
      cases head with
      | con c' =>
          cases heq
          exact hhead
      | lit l => cases heq
    · intro hc
      exact ⟨.con c, hc, rfl⟩
  have hlits : (Head.con tag :: heads).any Head.isLit = false ↔
      ∀ head ∈ heads, head.isLit = false := by
    simp [Head.isLit]
  have hfirst : (Head.con tag :: heads).filterMap Head.conTag =
      tag :: heads.filterMap Head.conTag := rfl
  rw [completeHeads, Bool.and_eq_true, Bool.not_eq_true', hlits]
  refine and_congr_right fun _ => ?_
  simp only [hfirst, hsibs]
  rw [List.all_eq_true]
  constructor
  · intro hall c arity hof
    rw [← htags, hfirst]
    simpa using hall c ((hmem c).mpr ⟨arity, hof⟩)
  · intro hall c hc
    obtain ⟨arity, hof⟩ := (hmem c).mp hc
    have := (htags c).mpr (hall c arity hof)
    rw [hfirst] at this
    simpa using this

/-- The oracle answers for the type of the pattern, and so completeness is decided for it,
exactly when no declared constructor stands in the way of a built-in tag. -/
theorem oracle_answers_iff {env : Env E} (h : Declared env) {p : TPat} {tag : String}
    {ty : HeadType} (hp : headOf env.elabEnv p = some (tag, ty)) :
    Answers env.elabEnv (buildOracle env.elabEnv) ty tag ∧
        Decides env.elabEnv (buildOracle env.elabEnv) ty tag ↔
      Unshadowed env.elabEnv ty tag := by
  have hboth : Answers env.elabEnv (buildOracle env.elabEnv) ty tag ∧
        Decides env.elabEnv (buildOracle env.elabEnv) ty tag ↔
      Answers env.elabEnv (buildOracle env.elabEnv) ty tag :=
    ⟨fun hans => hans.1, fun hans => ⟨hans, decides_of_answers hans⟩⟩
  rw [hboth, Unshadowed]
  constructor
  · intro hans
    cases hc : env.elabEnv.lookupCon tag with
    | none => exact .inr (.inl rfl)
    | some ci => exact .inr (.inr ⟨ci, rfl, (answers_declared_iff h hc).mp hans⟩)
  · rintro (⟨t, rfl⟩ | hnone | ⟨ci, hc, hsame⟩)
    · obtain ⟨ci, hci, rfl⟩ := headOf_user hp
      exact (answers_declared_iff h hci).mpr ⟨hci, fun c => Iff.rfl⟩
    · refine answers_builtin hp (fun t hty => ?_) hnone
      obtain ⟨ci, hci, -⟩ := headOf_user (hty ▸ hp)
      rw [hnone] at hci
      cases hci
    · exact (answers_declared_iff h hc).mpr hsame

/-! ### A stack with an empty constructor called `Nil` -/

section Example

def stackDecls : List DataDecl :=
  [⟨"Stack", [.star], false, some [.conDef "Nil" [], .conDef "Push" [.gen 0]]⟩]

def stackEnv : Env Unit := (processDataDecls emptyEnv stackDecls).toOption.getD emptyEnv

theorem stackEnv_declared : Declared stackEnv := by
  have hseed : Declared (emptyEnv : Env Unit) :=
    .seed rfl fun t ti h => by
      rw [lookupTyCon, emptyEnv] at h
      cases h
  exact .decls hseed (rfl : processDataDecls emptyEnv stackDecls = .ok stackEnv)

def emptyList : TPat := .list (.con .list [.gen 0]) []

/-- The pattern of the declared constructor is answered for. -/
theorem oracle_answers_push :
    Answers stackEnv.elabEnv (buildOracle stackEnv.elabEnv) (.user "Stack") "Push" ∧
      Decides stackEnv.elabEnv (buildOracle stackEnv.elabEnv) (.user "Stack") "Push" :=
  (oracle_answers_iff stackEnv_declared (p := .con (.con .list []) "Push" [.wild (.gen 0)])
    rfl).mpr (.inl ⟨"Stack", rfl⟩)

/-- The pattern of the empty list is answered for with the constructors of the stack: the two
list constructors do not count as complete. -/
theorem list_answered_as_stack :
    headOf stackEnv.elabEnv emptyList = some ("Nil", .list) ∧
      (buildOracle stackEnv.elabEnv).coSiblings "Nil" = some ["Nil", "Push"] ∧
      completeHeads (buildOracle stackEnv.elabEnv) [.con "Nil", .con "Cons"] = false ∧
      ¬ (Answers stackEnv.elabEnv (buildOracle stackEnv.elabEnv) .list "Nil" ∧
        Decides stackEnv.elabEnv (buildOracle stackEnv.elabEnv) .list "Nil") := by
  have hsibs : (buildOracle stackEnv.elabEnv).coSiblings "Nil" = some ["Nil", "Push"] := rfl
  refine ⟨rfl, hsibs, rfl, ?_⟩
  rintro ⟨⟨-, sibs, heq, -, hmem⟩, -⟩
  rw [hsibs] at heq
  cases heq
  obtain ⟨arity, hof⟩ := (hmem "Push").mp (by decide)
  simp [ConOf] at hof

end Example

end Wok.Proofs.Oracle
