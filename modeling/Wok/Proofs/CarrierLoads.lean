/-
Module: Wok.Proofs.CarrierLoads
Layer: Proofs
Purpose: Closing each module as it is loaded marks the same type constructors as closing the
  whole program once.
Imports: Wok.Lib.Refinement, Wok.Proofs.Carriers, Wok.Proofs.Oracle
Trusted boundary: none
Main exports: processDataDecls_partly, loads_partly, translateConArg_known, loads_known,
  partOf_closed_eq, carrierClosure_spec
-/
import Wok.Lib.Refinement
import Wok.Proofs.Carriers
import Wok.Proofs.Oracle

namespace Wok.Proofs.Carriers

open Wok.TypeChecking Wok.Spec.Carriers Wok.Proofs.Oracle
open Wok.Lib (Reaches)

variable {E : Type}

/-! ### Declarations -/

theorem Grows.extendTyCon {env : Env E} {k : String} {v : Env.TyConInfo}
    (hfresh : lookupTyCon k env = none) : Grows env (extendTyCon k v env) :=
  .of_lookups (fun _ _ h => h) fun n info hn => by
    refine ⟨info, ?_, rfl, rfl, List.Subset.refl _⟩
    rw [lookupTyCon_extendTyCon, if_neg]
    · exact hn
    · rintro rfl
      rw [hfresh] at hn
      cases hn

theorem Partly.extendTyCon {raw closed : Env E} (h : Partly raw closed) {k : String}
    {v : Env.TyConInfo} (hfresh : lookupTyCon k raw = none) :
    Partly (extendTyCon k v raw) (extendTyCon k v closed) where
  cons := h.cons
  isSome n := by
    rw [lookupTyCon_extendTyCon, lookupTyCon_extendTyCon]
    split
    · rfl
    · exact h.isSome n
  marked n i j hi hj := by
    have hi' := hi
    rw [lookupTyCon_extendTyCon] at hi' hj
    split at hi'
    · rename_i heq
      rw [if_pos heq] at hj
      obtain rfl := Option.some.inj (hi'.symm.trans hj)
      exact .refl hi
    · rename_i hne
      rw [if_neg hne] at hj
      exact (h.marked n i j hi' hj).mono (.extendTyCon hfresh)

theorem registerTyCons_partly {ds : List DataDecl} {raw closed raw' closed' : Env E}
    (h : Partly raw closed) (hraw : registerTyCons raw ds = .ok raw')
    (hclosed : registerTyCons closed ds = .ok closed') : Partly raw' closed' := by
  induction ds generalizing raw closed with
  | nil =>
      cases hraw
      cases hclosed
      exact h
  | cons d ds ih =>
      rw [registerTyCons] at hraw hclosed
      split at hraw
      · cases hraw
      · rename_i hfresh
        split at hclosed
        · cases hclosed
        · exact ih (h.extendTyCon hfresh) hraw hclosed

theorem Partly.extendCon {raw closed : Env E} (h : Partly raw closed) {k : String}
    {v : Env.ConInfo} (hfresh : TypeChecking.lookupCon k raw = none) :
    Partly (extendCon k v raw) (extendCon k v closed) where
  cons := congrArg (Dict.insert k v) h.cons
  isSome := h.isSome
  marked n i j hi hj := by
    refine (h.marked n i j hi hj).mono (.of_lookups (fun c ci hc => ?_) ?_)
    · rw [lookupCon_extendCon, if_neg]
      · exact hc
      · rintro rfl
        rw [hfresh] at hc
        cases hc
    · exact fun n info hn => ⟨info, hn, rfl, rfl, List.Subset.refl _⟩

theorem registerCon_partly {t : String} {pks : List Kind} {d : ConDef}
    {raw closed raw' closed' : Env E} (h : Partly raw closed)
    (hraw : registerCon t pks raw d = .ok raw')
    (hclosed : registerCon t pks closed d = .ok closed') : Partly raw' closed' := by
  cases d with
  | conDef c args =>
      rw [registerCon] at hraw hclosed
      split at hraw
      · cases hraw
      · rename_i hfresh
        split at hclosed
        · cases hclosed
        · cases hraw
          cases hclosed
          exact h.extendCon hfresh
  | conDefRec c fields =>
      rw [registerCon] at hraw hclosed
      split at hraw
      · cases hraw
      · split at hclosed
        · cases hclosed
        · cases hraw
          cases hclosed
          have hgrows : Grows raw { raw with
              recordCons := raw.recordCons.insert c ⟨c, fields, quantifiers pks⟩ } :=
            .of_lookups (fun _ _ hc => hc) fun n info hn => ⟨info, hn, rfl, rfl, List.Subset.refl _⟩
          exact ⟨h.cons, h.isSome, fun n i j hi hj => (h.marked n i j hi hj).mono hgrows⟩

theorem foldlM_registerCon_partly {t : String} {pks : List Kind} {defs : List ConDef}
    {raw closed raw' closed' : Env E} (h : Partly raw closed)
    (hraw : defs.foldlM (registerCon t pks) raw = .ok raw')
    (hclosed : defs.foldlM (registerCon t pks) closed = .ok closed') : Partly raw' closed' := by
  induction defs generalizing raw closed with
  | nil =>
      cases hraw
      cases hclosed
      exact h
  | cons d defs ih =>
      rw [List.foldlM_cons] at hraw hclosed
      obtain ⟨raw₁, hraw₁, hraw⟩ := Lib.exceptBind_ok hraw
      obtain ⟨closed₁, hclosed₁, hclosed⟩ := Lib.exceptBind_ok hclosed
      exact ih (registerCon_partly h hraw₁ hclosed₁) hraw hclosed

theorem Partly.setCons {raw closed : Env E} (h : Partly raw closed) {t : String}
    {names : List String} {ti : Env.TyConInfo} (hti : lookupTyCon t raw = some ti)
    (hempty : ti.cons = []) : Partly (setCons t names raw) (setCons t names closed) := by
  obtain ⟨tj, htj, hmark⟩ := h.entry_raw hti
  have hgrows : Grows raw (TypeChecking.setCons t names raw) := by
    refine .of_lookups (fun c ci hc => (setCons_cons hti c).trans hc) fun n info hn => ?_
    rw [setCons_lookup hti]
    split
    · rename_i heq
      rw [heq, hti] at hn
      obtain rfl := Option.some.inj hn
      exact ⟨_, rfl, rfl, rfl, hempty ▸ List.nil_subset _⟩
    · exact ⟨info, hn, rfl, rfl, List.Subset.refl _⟩
  constructor
  · rw [TypeChecking.setCons, TypeChecking.setCons, hti, htj]
    exact h.cons
  · intro n
    rw [setCons_lookup hti, setCons_lookup htj]
    split
    · rfl
    · exact h.isSome n
  · intro n i j hi hj
    rw [setCons_lookup hti] at hi
    rw [setCons_lookup htj] at hj
    split at hi
    · rename_i heq
      rw [if_pos heq] at hj
      subst heq
      cases hi
      cases hj
      have hmark' := hmark.mono hgrows
      refine ⟨?_, hmark'.declared, ?_, hmark'.carrier, hmark'.affine, hmark'.mem_affines⟩
      · rw [← hmark.same]
      · intro hcar
        rw [hmark.plain hcar]
    · rename_i hne
      rw [if_neg hne] at hj
      exact (h.marked n i j hi hj).mono hgrows

theorem registerCons_partly {ds : List DataDecl} {raw closed raw' closed' : Env E}
    (h : Partly raw closed) (hpend : Pending ds raw) (hraw : registerCons raw ds = .ok raw')
    (hclosed : registerCons closed ds = .ok closed') : Partly raw' closed' := by
  induction ds generalizing raw closed with
  | nil =>
      cases hraw
      cases hclosed
      exact h
  | cons d ds ih =>
      rw [registerCons] at hraw hclosed
      split at hraw
      · rename_i hnone
        rw [hnone] at hclosed
        refine ih h ⟨(List.nodup_cons.mp hpend.names).2, fun d' hd' => ?_⟩ hraw hclosed
        exact hpend.empty d' (List.mem_cons_of_mem _ hd')
      · rename_i defs hdefs
        rw [hdefs] at hclosed
        split at hraw
        · cases hraw
        · rename_i hfold
          dsimp only at hclosed
          split at hclosed
          · cases hclosed
          · rename_i hfold'
            have hadd := foldlM_registerCon hfold
            obtain ⟨ti, hti, hempty⟩ := hpend.empty d List.mem_cons_self
            have hti' := hti
            rw [lookupTyCon, ← hadd.tyCons] at hti'
            exact ih ((foldlM_registerCon_partly h hfold hfold').setCons hti' hempty)
              (hpend.declare hadd) hraw hclosed

theorem processDataDecls_partly {ds : List DataDecl} {raw closed raw' closed' : Env E}
    (h : Partly raw closed) (hco : Coherent raw) (hraw : processDataDecls raw ds = .ok raw')
    (hclosed : processDataDecls closed ds = .ok closed') : Partly raw' closed' := by
  rw [processDataDecls] at hraw hclosed
  split at hraw
  · cases hraw
  · rename_i hty
    split at hclosed
    · cases hclosed
    · rename_i hty'
      obtain ⟨-, hpend, -, -⟩ := registerTyCons_spec hty hco
      exact registerCons_partly (registerTyCons_partly h hty hty') hpend hraw hclosed

/-! ### The environments of a program -/

section Loads

variable [DecidableEq E]

theorem Partly.overlay {raw₁ closed₁ raw₂ closed₂ raw closed : Env E} (h₁ : Partly raw₁ closed₁)
    (h₂ : Partly raw₂ closed₂) (hraw : overlayEnvs raw₁ raw₂ = .ok raw)
    (hclosed : overlayEnvs closed₁ closed₂ = .ok closed) : Partly raw closed := by
  obtain ⟨hcons, htys, hdc, hdt⟩ := overlayEnvs_ok hraw
  obtain ⟨hcons', htys', -, -⟩ := overlayEnvs_ok hclosed
  have hg₁ : Grows raw₁ raw := by
    refine .of_lookups (fun k ci hk => ?_) fun n info hn => ⟨info, ?_, rfl, rfl, fun _ h => h⟩
    · rw [TypeChecking.lookupCon, hcons]
      exact lookup_union_left hk
    · rw [lookupTyCon, htys]
      exact lookup_union_left hn
  have hg₂ : Grows raw₂ raw := by
    refine .of_lookups (fun k ci hk => ?_) fun n info hn => ⟨info, ?_, rfl, rfl, fun _ h => h⟩
    · rw [TypeChecking.lookupCon, hcons]
      exact lookup_union_right hdc hk
    · rw [lookupTyCon, htys]
      exact lookup_union_right hdt hn
  have hlookup : ∀ n, lookupTyCon n raw = (lookupTyCon n raw₁).or (lookupTyCon n raw₂) :=
    fun n => by
      rw [lookupTyCon, htys]
      exact Dict.lookup_union n _ _
  have hlookup' : ∀ n, lookupTyCon n closed =
      (lookupTyCon n closed₁).or (lookupTyCon n closed₂) := fun n => by
    rw [lookupTyCon, htys']
    exact Dict.lookup_union n _ _
  constructor
  · rw [hcons, hcons', h₁.cons, h₂.cons]
  · intro n
    rw [hlookup, hlookup', Option.isSome_or, Option.isSome_or, h₁.isSome, h₂.isSome]
  · intro n i j hi hj
    rw [hlookup] at hi
    rw [hlookup'] at hj
    have hsome := h₁.isSome n
    cases hi₁ : lookupTyCon n raw₁ with
    | some i₁ =>
        obtain ⟨j₁, hj₁, hmark⟩ := h₁.entry_raw hi₁
        rw [hi₁] at hi
        rw [hj₁] at hj
        cases hi
        cases hj
        exact hmark.mono hg₁
    | none =>
        rw [hi₁, Option.isSome_none, Option.isSome_eq_false_iff, Option.isNone_iff_eq_none] at hsome
        rw [hi₁, Option.none_or] at hi
        rw [hsome, Option.none_or] at hj
        exact (h₂.marked n i j hi hj).mono hg₂

theorem loads_declared {raw closed : Env E} (h : Loads raw closed) :
    Spec.Oracle.Declared raw := by
  induction h with
  | seed hcons htys => exact .seed hcons htys
  | other _ hcons htys _ _ ih =>
      exact .other ih hcons fun t => by rw [lookupTyCon, lookupTyCon, htys]
  | decls _ _ hraw _ ih => exact .decls ih hraw
  | overlay _ _ hraw _ ih₁ ih₂ => exact .overlay ih₁ ih₂ hraw
  | close _ ih => exact ih

omit [DecidableEq E] in
theorem Partly.other {raw closed raw' closed' : Env E} (h : Partly raw closed)
    (hcons : raw'.cons = raw.cons) (htys : raw'.tyCons = raw.tyCons)
    (hcons' : closed'.cons = closed.cons) (htys' : closed'.tyCons = closed.tyCons) :
    Partly raw' closed' := by
  have hraw : ∀ n, lookupTyCon n raw' = lookupTyCon n raw := fun n => by
    rw [lookupTyCon, lookupTyCon, htys]
  have hclosed : ∀ n, lookupTyCon n closed' = lookupTyCon n closed := fun n => by
    rw [lookupTyCon, lookupTyCon, htys']
  have hgrows : Grows raw raw' := by
    refine .of_lookups (fun k ci hk => ?_) fun n info hn =>
      ⟨info, (hraw n).trans hn, rfl, rfl, fun _ h => h⟩
    rw [TypeChecking.lookupCon, hcons]
    exact hk
  refine ⟨by rw [hcons, hcons', h.cons], fun n => by rw [hraw, hclosed, h.isSome], ?_⟩
  intro n i j hi hj
  rw [hraw] at hi
  rw [hclosed] at hj
  exact (h.marked n i j hi hj).mono hgrows

theorem loads_partly {raw closed : Env E} (h : Loads raw closed) : Partly raw closed := by
  induction h with
  | seed => exact .refl _
  | other _ hcons htys hcons' htys' ih => exact ih.other hcons htys hcons' htys'
  | decls hload _ hraw hclosed ih =>
      exact processDataDecls_partly ih (coherent_of_declared (loads_declared hload)) hraw hclosed
  | overlay _ _ hraw hclosed ih₁ ih₂ => exact ih₁.overlay ih₂ hraw hclosed
  | close _ ih => exact ih.close

end Loads

/-! ### Fields mention registered type constructors -/

theorem resolveTyCon_user {name m : String} (h : resolveTyCon name = .user m) : m = name := by
  rw [resolveTyCon, resolveTyConName] at h
  repeat' split at h
  all_goals cases h
  rfl

section Known

variable {env : Env E} {ps : ConParams} {m : String}

theorem checkTyCon_registered {p : Abs.ModPath} {args : List Abs.Ty}
    (h : checkTyCon env ps p args = .ok ()) : (lookupTyCon (modPathText p) env).isSome := by
  rw [checkTyCon] at h
  split at h
  · rename_i hinfo
    rw [hinfo]
    rfl
  · cases h

/-- A type constructor of a type that is applied to translated arguments. -/
theorem contains_con {c : TyCon} {args : List CType} (h : Contains m (.con c args)) :
    c = .user m ∨ ∃ t ∈ args, Contains m t := by
  cases h with
  | head => exact .inl rfl
  | arg ht hin => exact .inr ⟨_, ht, hin⟩

theorem con_known {p : Abs.ModPath} {tys : List Abs.Ty} {args : List CType}
    (hcheck : checkTyCon env ps p tys = .ok ())
    (hargs : ∀ t ∈ args, Contains m t → (lookupTyCon m env).isSome)
    (h : Contains m (.con (resolveTyCon (modPathText p)) args)) : (lookupTyCon m env).isSome := by
  rcases contains_con h with hc | ⟨t, ht, hin⟩
  · rw [resolveTyCon_user hc]
    exact checkTyCon_registered hcheck
  · exact hargs t ht hin

theorem paramSlot_known {v : Abs.VarId} {t : CType} (h : paramSlot ps v = .ok t) :
    ¬ Contains m t := by
  rw [paramSlot] at h
  split at h
  · cases h
    exact fun hin => nomatch hin
  · cases h

mutual

theorem walkArg_known : ∀ {ty : Abs.Ty} {t : CType}, walkArg env ps ty = .ok t → Contains m t →
    (lookupTyCon m env).isSome
  | .tVar _, t, h, hin | .tRowArg _, t, h, hin => by
      rw [walkArg] at h
      exact absurd hin (paramSlot_known h)
  | .tFun a b, t, h, hin => by
      rw [walkArg] at h
      obtain ⟨t, -, h⟩ := Lib.exceptBind_ok h
      obtain ⟨u, -, h⟩ := Lib.exceptBind_ok h
      cases h
      cases hin
  | .tCon p, t, h, hin => by
      rw [walkArg] at h
      obtain ⟨⟨⟩, hcheck, h⟩ := Lib.exceptBind_ok h
      cases h
      exact con_known hcheck (fun t ht => absurd ht List.not_mem_nil) hin
  | .tApp f x, t, h, hin => by
      rw [walkArg] at h
      obtain ⟨p, -, h⟩ := Lib.exceptBind_ok h
      obtain ⟨⟨⟩, hcheck, h⟩ := Lib.exceptBind_ok h
      obtain ⟨args, hargs, h⟩ := Lib.exceptBind_ok h
      obtain ⟨arg, harg, h⟩ := Lib.exceptBind_ok h
      cases h
      refine con_known hcheck (fun t ht hin => ?_) hin
      rcases List.mem_append.mp ht with ht | ht
      · exact walkSpine_known hargs ht hin
      · rw [List.mem_singleton.mp ht] at hin
        exact walkArg_known harg hin
  | .tList inner, t, h, hin => by
      rw [walkArg] at h
      obtain ⟨u, hu, h⟩ := Lib.exceptBind_ok h
      cases h
      rcases contains_con hin with hc | ⟨t, ht, hin⟩
      · cases hc
      · rw [List.mem_singleton.mp ht] at hin
        exact walkArg_known hu hin
  | .tTuple a others, t, h, hin => by
      rw [walkArg] at h
      obtain ⟨u, hu, h⟩ := Lib.exceptBind_ok h
      obtain ⟨us, hus, h⟩ := Lib.exceptBind_ok h
      cases h
      rcases contains_con hin with hc | ⟨t, ht, hin'⟩
      · cases hc
      · rcases List.mem_cons.mp ht with rfl | ht
        · exact walkArg_known hu hin'
        · exact walkArgs_known hus ht hin'
  | .tParen ty, t, h, hin => by
      rw [walkArg] at h
      exact walkArg_known h hin
  | .tUnit, t, h, hin => by
      rw [walkArg] at h
      cases h
      rcases contains_con hin with hc | ⟨t, ht, -⟩
      · cases hc
      · cases ht
  | .tQual .., t, h, _ | .tWith .., t, h, _ | .tOwned _, t, h, _ | .tExtend .., t, h, _ => by
      rw [walkArg] at h
      cases h

theorem walkSpine_known : ∀ {ty : Abs.Ty} {ts : List CType}, walkSpine env ps ty = .ok ts →
    ∀ {t : CType}, t ∈ ts → Contains m t → (lookupTyCon m env).isSome
  | .tApp f x, ts, h, t, ht, hin => by
      rw [walkSpine] at h
      obtain ⟨args, hargs, h⟩ := Lib.exceptBind_ok h
      obtain ⟨arg, harg, h⟩ := Lib.exceptBind_ok h
      cases h
      rcases List.mem_append.mp ht with ht | ht
      · exact walkSpine_known hargs ht hin
      · rw [List.mem_singleton.mp ht] at hin
        exact walkArg_known harg hin
  | .tVar _, ts, h, t, ht, _ | .tRowArg _, ts, h, t, ht, _ | .tFun .., ts, h, t, ht, _
  | .tCon _, ts, h, t, ht, _ | .tList _, ts, h, t, ht, _ | .tTuple .., ts, h, t, ht, _
  | .tParen _, ts, h, t, ht, _ | .tUnit, ts, h, t, ht, _ | .tQual .., ts, h, t, ht, _
  | .tWith .., ts, h, t, ht, _ | .tOwned _, ts, h, t, ht, _ | .tExtend .., ts, h, t, ht, _ => by
      rw [walkSpine] at h
      · cases h
        cases ht
      · exact fun f x heq => nomatch heq

theorem walkArgs_known : ∀ {tys : List Abs.Ty} {ts : List CType}, walkArgs env ps tys = .ok ts →
    ∀ {t : CType}, t ∈ ts → Contains m t → (lookupTyCon m env).isSome
  | [], ts, h, t, ht, _ => by
      rw [walkArgs] at h
      cases h
      cases ht
  | ty :: tys, ts, h, t, ht, hin => by
      rw [walkArgs] at h
      obtain ⟨u, hu, h⟩ := Lib.exceptBind_ok h
      obtain ⟨us, hus, h⟩ := Lib.exceptBind_ok h
      cases h
      rcases List.mem_cons.mp ht with rfl | ht
      · exact walkArg_known hu hin
      · exact walkArgs_known hus ht hin

end

theorem translateConArg_known {ty : Abs.Ty} {t : CType} (h : translateConArg env ps ty = .ok t)
    (hin : Contains m t) : (lookupTyCon m env).isSome := by
  rw [translateConArg] at h
  split at h
  · exact walkArg_known h hin
  · cases h

end Known

/-- The fields of all constructors mention registered type constructors only. -/
def Known (env : Env E) : Prop :=
  ∀ k ci, lookupCon k env = some ci → ∀ t ∈ conFieldTys ci.arity ci.scheme.body,
    ∀ m, Contains m t → (lookupTyCon m env).isSome

theorem Known.mono {env env' : Env E} (h : Known env) (hcons : env'.cons = env.cons)
    (htys : ∀ m, (lookupTyCon m env).isSome → (lookupTyCon m env').isSome) : Known env' := by
  intro k ci hk t ht m hin
  rw [lookupCon, hcons] at hk
  exact htys m (h k ci hk t ht m hin)

theorem registerTyCons_mono {ds : List DataDecl} {env env' : Env E}
    (h : registerTyCons env ds = .ok env') :
    env'.cons = env.cons ∧ ∀ m, (lookupTyCon m env).isSome → (lookupTyCon m env').isSome := by
  induction ds generalizing env with
  | nil =>
      cases h
      exact ⟨rfl, fun _ hm => hm⟩
  | cons d ds ih =>
      rw [registerTyCons] at h
      split at h
      · cases h
      · obtain ⟨hcons, htys⟩ := ih h
        refine ⟨hcons, fun m hm => htys m ?_⟩
        rw [lookupTyCon_extendTyCon]
        split
        · rfl
        · exact hm

/-- The fields of a constructor's type are its arguments. -/
theorem conFieldTys_foldr (args : List CType) (result : CType) :
    conFieldTys args.length (args.foldr (fun arg acc => CType.arr arg .rowEmpty acc) result) =
      args := by
  induction args with
  | nil =>
      rw [List.length_nil, conFieldTys]
      exact fun _ _ _ _ h => nomatch h
  | cons arg args ih => rw [List.length_cons, List.foldr_cons, conFieldTys, ih]

/-- The argument types of a declaration's constructors are known. -/
def ArgsKnown (env : Env E) (defs : List ConDef) : Prop :=
  ∀ name args, ConDef.conDef name args ∈ defs → ∀ t ∈ args, ∀ m, Contains m t →
    (lookupTyCon m env).isSome

theorem foldlM_registerCon_known {t : String} {pks : List Kind} {defs : List ConDef}
    {env env' : Env E} (h : defs.foldlM (registerCon t pks) env = .ok env') (hk : Known env)
    (hargs : ArgsKnown env defs) : Known env' := by
  induction defs generalizing env with
  | nil =>
      cases h
      exact hk
  | cons d defs ih =>
      rw [List.foldlM_cons] at h
      obtain ⟨env₁, henv₁, h⟩ := Lib.exceptBind_ok h
      have htail : ArgsKnown env defs := fun name args hmem =>
        hargs name args (List.mem_cons_of_mem _ hmem)
      cases d with
      | conDef c args =>
          rw [registerCon] at henv₁
          split at henv₁
          · cases henv₁
          · cases henv₁
            refine ih h ?_ htail
            intro k ci hk' u hu m hin
            rw [lookupCon_extendCon] at hk'
            split at hk'
            · cases hk'
              dsimp only [mkScheme] at hu
              rw [conFieldTys_foldr] at hu
              exact hargs c args List.mem_cons_self u hu m hin
            · exact hk k ci hk' u hu m hin
      | conDefRec c fields =>
          rw [registerCon] at henv₁
          split at henv₁
          · cases henv₁
          · cases henv₁
            exact ih h (hk.mono rfl fun _ hm => hm) htail

theorem registerCons_known {ds : List DataDecl} {env env' : Env E}
    (h : registerCons env ds = .ok env') (hk : Known env) (hpend : Pending ds env)
    (hargs : ∀ d ∈ ds, ∀ defs, d.conDefs = some defs → ArgsKnown env defs) : Known env' := by
  induction ds generalizing env with
  | nil =>
      cases h
      exact hk
  | cons d ds ih =>
      rw [registerCons] at h
      split at h
      · refine ih h hk ⟨(List.nodup_cons.mp hpend.names).2, fun d' hd' => ?_⟩ fun d' hd' => ?_
        · exact hpend.empty d' (List.mem_cons_of_mem _ hd')
        · exact hargs d' (List.mem_cons_of_mem _ hd')
      · rename_i defs hdefs
        split at h
        · cases h
        · rename_i env₁ hfold
          have hadd := foldlM_registerCon hfold
          have hk₁ := foldlM_registerCon_known hfold hk (hargs d List.mem_cons_self defs hdefs)
          obtain ⟨ti, hti, -⟩ := hpend.empty d List.mem_cons_self
          have hti₁ : lookupTyCon d.name env₁ = some ti := by
            rw [lookupTyCon, hadd.tyCons]
            exact hti
          have htys : ∀ m, (lookupTyCon m env).isSome →
              (lookupTyCon m (setCons d.name (positionalCons defs) env₁)).isSome := by
            intro m hm
            rw [setCons_lookup hti₁]
            split
            · rfl
            · rw [lookupTyCon, hadd.tyCons]
              exact hm
          refine ih h ?_ (hpend.declare hadd) fun d' hd' defs' hdefs' name args hmem u hu m hin =>
            htys m (hargs d' (List.mem_cons_of_mem _ hd') defs' hdefs' name args hmem u hu m hin)
          refine hk₁.mono ?_ fun m hm => htys m ?_
          · rw [setCons, hti₁]
            rfl
          · rwa [lookupTyCon, hadd.tyCons] at hm

theorem processDataDecls_known {ds : List DataDecl} {env env' : Env E}
    (h : processDataDecls env ds = .ok env') (hco : Coherent env) (hk : Known env)
    (htyped : Typed env ds) : Known env' := by
  rw [processDataDecls] at h
  split at h
  · cases h
  · rename_i env₁ hty
    obtain ⟨-, hpend, -, -⟩ := registerTyCons_spec hty hco
    obtain ⟨hcons, hmono⟩ := registerTyCons_mono hty
    refine registerCons_known h (hk.mono hcons hmono) hpend ?_
    intro d hd defs hdefs name args hmem t ht m hin
    obtain ⟨ps, ty, htrans⟩ := htyped env₁ hty d hd defs hdefs name args hmem t ht
    exact translateConArg_known htrans hin

section Main

variable [DecidableEq E]

theorem loads_known {raw closed : Env E} (h : Loads raw closed) : Known raw := by
  induction h with
  | seed hcons _ =>
      intro k ci hk
      rw [lookupCon, hcons] at hk
      cases hk
  | other _ hcons htys _ _ ih =>
      refine ih.mono hcons fun m hm => ?_
      rw [lookupTyCon, htys]
      exact hm
  | decls hload htyped hraw _ ih =>
      exact processDataDecls_known hraw (coherent_of_declared (loads_declared hload)) ih htyped
  | overlay _ _ hraw _ ih₁ ih₂ =>
      obtain ⟨hcons, htys, -, -⟩ := overlayEnvs_ok hraw
      intro k ci hk t ht m hin
      rw [lookupCon, hcons] at hk
      rw [lookupTyCon, htys, Dict.lookup_union, Option.isSome_or, Bool.or_eq_true]
      rcases lookup_union_inv hk with hk | hk
      · exact .inl (ih₁ k ci hk t ht m hin)
      · exact .inr (ih₂ k ci hk t ht m hin)
  | close _ ih => exact ih

omit [DecidableEq E] in
/-- What a part of a program holds is decided in the part. -/
theorem partOf_holds_iff {env whole : Env E} (h : PartOf env whole) (hco : Coherent env)
    {n m : String} (hn : (lookupTyCon n env).isSome) : Holds whole n m ↔ Holds env n m := by
  refine ⟨fun hh => ?_, (partOf_grows h).holds n m⟩
  obtain ⟨info, hinfo⟩ := Option.isSome_iff_exists.mp hn
  obtain ⟨k, hk, ci, hci, hfield⟩ := (holds_of_lookup (h.tyCons n info hinfo)).mp hh
  obtain ⟨ci', hci', -⟩ := hco.found n info hinfo k hk
  obtain rfl := Option.some.inj ((h.cons k ci' hci').symm.trans hci)
  exact (holds_of_lookup hinfo).mpr ⟨k, hk, ci', hci', hfield⟩

omit [DecidableEq E] in
theorem partOf_reaches {env whole : Env E} (h : PartOf env whole) (hco : Coherent env)
    (hk : Known env) {base base' : String → Prop}
    (hbase : ∀ n, (lookupTyCon n env).isSome → base' n → base n) {n : String}
    (hreach : Reaches (Holds whole) base' n) (hn : (lookupTyCon n env).isSome) :
    Reaches (Holds env) base n := by
  revert hn
  refine Reaches.induction
    (motive := fun n => (lookupTyCon n env).isSome → Reaches (Holds env) base n)
    (fun n hb hn => .of_start (hbase n hn hb)) (fun n m hnm _ ih hn => ?_) hreach
  have hholds := (partOf_holds_iff h hco hn).mp hnm
  refine .head hholds (ih ?_)
  obtain ⟨info, hinfo⟩ := Option.isSome_iff_exists.mp hn
  obtain ⟨k, -, ci, hci, t, ht, hin⟩ := (holds_of_lookup hinfo).mp hholds
  exact hk k ci hci t ht m hin

omit [DecidableEq E] in
/-- The entry of a type constructor is closed to the same in a part of a program. -/
theorem partOf_closed_eq {env whole : Env E} (h : PartOf env whole) (hco : Coherent env)
    (hk : Known env) {n : String} (hn : (lookupTyCon n env).isSome) :
    lookupTyCon n (carrierClosure env) = lookupTyCon n (carrierClosure whole) := by
  obtain ⟨info, hinfo⟩ := Option.isSome_iff_exists.mp hn
  have hwhole := h.tyCons n info hinfo
  have hcar : n ∈ (carrierSets env).1 ↔ n ∈ (carrierSets whole).1 := by
    refine ⟨(partOf_grows h).mem_carriers, fun hmem => (mem_carriers env n).mpr ?_⟩
    refine partOf_reaches h hco hk (fun m hm => ?_) ((mem_carriers whole n).mp hmem) hn
    rintro ⟨info', hinfo', hflag⟩
    obtain ⟨info₀, hinfo₀⟩ := Option.isSome_iff_exists.mp hm
    obtain rfl := Option.some.inj ((h.tyCons m info₀ hinfo₀).symm.trans hinfo')
    exact ⟨info₀, hinfo₀, hflag⟩
  have haff : n ∈ (carrierSets env).2 ↔ n ∈ (carrierSets whole).2 := by
    refine ⟨(partOf_grows h).mem_affines, fun hmem => (mem_affines env n).mpr ?_⟩
    refine partOf_reaches h hco hk (fun m hm => ?_) ((mem_affines whole n).mp hmem) hn
    rintro ⟨info', hinfo', hflag⟩
    obtain ⟨info₀, hinfo₀⟩ := Option.isSome_iff_exists.mp hm
    obtain rfl := Option.some.inj ((h.tyCons m info₀ hinfo₀).symm.trans hinfo')
    exact ⟨info₀, hinfo₀, hflag⟩
  rw [lookup_carrierClosure, lookup_carrierClosure, hinfo, hwhole, Option.map_some,
    Option.map_some, markTyCon, markTyCon]
  simp only [hcar, haff]

/-- Closing marks the least sets, closing again changes nothing, and a module that is closed as
it is loaded has the marks of any program it is a part of, be that closed once or on the way. -/
theorem carrierClosure_spec (env : Env E) :
    HoldsLeast env (DeclaredCarrier env) {n | DeclaredCarrier (carrierClosure env) n} ∧
      HoldsLeast env (DeclaredAffine env) {n | DeclaredAffine (carrierClosure env) n} ∧
      carrierClosure (carrierClosure env) = carrierClosure env ∧
      ∀ closed whole closedWhole : Env E, Loads env closed → Loads whole closedWhole →
        PartOf env whole → ∀ n, (lookupTyCon n env).isSome →
          lookupTyCon n (carrierClosure closed) = lookupTyCon n (carrierClosure whole) ∧
            lookupTyCon n (carrierClosure closed) =
              lookupTyCon n (carrierClosure closedWhole) := by
  refine ⟨carriers_least env, affines_least env, carrierClosure_idem env, ?_⟩
  intro closed whole closedWhole hload hwhole hpart n hn
  have heq : lookupTyCon n (carrierClosure closed) = lookupTyCon n (carrierClosure whole) := by
    rw [(loads_partly hload).closed_eq]
    exact partOf_closed_eq hpart (coherent_of_declared (loads_declared hload)) (loads_known hload)
      hn
  exact ⟨heq, heq.trans ((loads_partly hwhole).closed_eq n).symm⟩

end Main

/-! ### A box around a suspension -/

section Example

private def suspension : CType := .con (.user "Suspension") []

/-- `extern type Suspension` and `data Box = Box Suspension`. -/
def boxDecls : List DataDecl :=
  [⟨"Suspension", [], true, none⟩, ⟨"Box", [], false, some [.conDef "Box" [suspension]]⟩]

def boxEnv : Env Unit := (processDataDecls emptyEnv boxDecls).toOption.getD emptyEnv

theorem boxEnv_loads : Loads boxEnv (carrierClosure boxEnv) := by
  have hseed : Loads (emptyEnv : Env Unit) emptyEnv :=
    .seed rfl fun t ti h => by
      rw [lookupTyCon, emptyEnv] at h
      cases h
  refine .close (.decls hseed ?_ (rfl : processDataDecls emptyEnv boxDecls = .ok boxEnv) rfl)
  intro env₁ h d hd defs hdefs name args hmem t ht
  cases h
  simp only [boxDecls, List.mem_cons, List.not_mem_nil, or_false] at hd
  rcases hd with rfl | rfl
  · cases hdefs
  · cases hdefs
    rw [List.mem_singleton, ConDef.conDef.injEq] at hmem
    obtain ⟨-, rfl⟩ := hmem
    rw [List.mem_singleton.mp ht]
    exact ⟨⟨[], []⟩, .tCon (.mpName ⟨(1, 1), "Suspension", by decide⟩), rfl⟩

/-- The box is marked, and so it is in a program that imports it. -/
theorem box_is_carrier :
    DeclaredCarrier (carrierClosure boxEnv) "Box" ∧
      lookupTyCon "Box" (carrierClosure (carrierClosure boxEnv)) =
        lookupTyCon "Box" (carrierClosure boxEnv) := by
  obtain ⟨hleast, -, -, hload⟩ := carrierClosure_spec boxEnv
  constructor
  · exact hleast.1.2 "Box" "Suspension" ⟨suspension, List.mem_singleton_self _, .head⟩
      (hleast.1.1 "Suspension" ⟨_, rfl, rfl⟩)
  · exact (hload _ boxEnv _ boxEnv_loads boxEnv_loads ⟨fun _ _ h => h, fun _ _ h => h⟩ "Box"
      rfl).1

end Example

end Wok.Proofs.Carriers
