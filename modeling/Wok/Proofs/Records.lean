/-
Module: Wok.Proofs.Records
Purpose: When the code of an accepted record expression agrees with the expression and
  with the row that the checker gave it.
Imports: Mathlib.Data.Fintype.EquivFin, Mathlib.Data.List.Nodup, Wok.Spec.Records
Trusted boundary: none
Main exports: Accepted, accepted_of_run, inferRecordWChecked_faithful_iff
-/
import Mathlib.Data.Fintype.EquivFin
import Mathlib.Data.List.Nodup
import Wok.Spec.Records

namespace Wok.IR

open Wok.Interp (Value fieldMap)
open Wok.TypeChecking (CType Kind Ty TyCon TC TCState Failure TypeError SourceSpan FieldExpr
  RecordExpr RecordNode RecordConInfo RecordTC CheckEnv providedPairs entriesRow entryNodes
  rejectLabels checkNames lookupRecordInfo inferField declaredEntries extensionEntries
  overrideNodes inferERecord inferERecordWithExt inferERecordExt partitionTrailing
  inferERecordExtWithExt inferRecordW inferRecordWChecked substCTypeWith throwTC panicTC
  force unify)
open Wok.Lib

/-! ### Fields -/

section Fields

variable {α : Type} {l : String}

theorem lookup_cons_ite (l' : String) (a : α) (fs : List (String × α)) :
    ((l', a) :: fs).lookup l = if l = l' then some a else fs.lookup l := by
  by_cases h : l = l'
  · simp [h]
  · rw [List.lookup_cons, beq_eq_false_iff_ne.mpr h, if_neg h]

theorem mem_labels_iff {fs : List (String × α)} :
    l ∈ fs.map (·.1) ↔ ∃ a, fs.lookup l = some a := by
  induction fs with
  | nil => simp
  | cons f fs ih =>
      rcases f with ⟨l', a⟩
      by_cases h : l = l'
      · simp [h]
      · simp [lookup_cons_ite, h, ih]

theorem lookup_map (f : String → α) (ls : List String) :
    (ls.map fun l => (l, f l)).lookup l = if l ∈ ls then some (f l) else none := by
  induction ls with
  | nil => rfl
  | cons l' ls ih =>
      by_cases h : l = l'
      · simp [h]
      · simp [lookup_cons_ite, h, ih]

theorem lookup_insertField (l' : String) (v : Value) (m : List (String × Value)) :
    (Interp.insertField l' v m).lookup l = if l = l' then some v else m.lookup l := by
  induction m with
  | nil => by_cases h : l = l' <;> simp [Interp.insertField, lookup_cons_ite, h]
  | cons f m ih =>
      rcases f with ⟨l'', w⟩
      rw [Interp.insertField]
      split
      · by_cases h : l = l' <;> simp [lookup_cons_ite, h]
      · split
        next heq =>
          subst heq
          by_cases h : l = l' <;> simp [lookup_cons_ite, h]
        next hne =>
          by_cases h : l = l''
          · subst h
            simp [Ne.symm hne]
          · simp only [lookup_cons_ite, if_neg h, ih]

/-- The last of the fields with a label. -/
theorem lookup_fieldMap (fs : List (String × Value)) :
    (fieldMap fs).lookup l = fs.reverse.lookup l := by
  induction fs using List.reverseRecOn with
  | nil => rfl
  | append_singleton fs f ih =>
      rcases f with ⟨l', v⟩
      have hfold : fieldMap (fs ++ [(l', v)]) = Interp.insertField l' v (fieldMap fs) := by
        simp [fieldMap]
      rw [hfold, lookup_insertField, ih, List.reverse_append]
      by_cases h : l = l' <;> simp [lookup_cons_ite, h]

theorem mem_fieldMap_labels {fs : List (String × Value)} :
    l ∈ (fieldMap fs).map (·.1) ↔ l ∈ fs.map (·.1) := by
  rw [mem_labels_iff, lookup_fieldMap, ← mem_labels_iff, List.map_reverse, List.mem_reverse]

theorem lookup_fieldMap_map (f : String → Value) (ls : List String) :
    (fieldMap (ls.map fun l => (l, f l))).lookup l = if l ∈ ls then some (f l) else none := by
  rw [lookup_fieldMap, ← List.map_reverse, lookup_map]
  simp

end Fields

/-! ### Written fields -/

section Written

variable {E : Type} {fields : List (FieldExpr E)} {l : String}

theorem providedPairs_numbers (fields : List (FieldExpr E)) :
    (providedPairs fields).map (fun p => (p.1, p.2.2)) = (fields.map (·.label)).zipIdx := by
  simp [providedPairs, List.zipIdx_map, Function.comp_def]

theorem providedPairs_labels (fields : List (FieldExpr E)) :
    (providedPairs fields).map (·.1) = fields.map (·.label) := by
  have h := congrArg (List.map Prod.fst) (providedPairs_numbers fields)
  rwa [List.map_map, List.zipIdx_map_fst] at h

/-- The first written field with a label. -/
theorem lookup_zipIdx {ls : List String} {i : Nat} (k : Nat)
    (h : (ls.zipIdx k).lookup l = some i) : l ∈ ls ∧ i = ls.idxOf l + k := by
  induction ls generalizing k with
  | nil => cases h
  | cons l' ls ih =>
      rw [List.zipIdx_cons, lookup_cons_ite] at h
      by_cases hl : l = l'
      · subst hl
        simp at h
        simp [h]
      · rw [if_neg hl] at h
        obtain ⟨hmem, hi⟩ := ih (k + 1) h
        refine ⟨.tail _ hmem, ?_⟩
        rw [List.idxOf_cons_ne _ (Ne.symm hl), hi]
        omega

theorem lookup_map_snd {α β : Type} (f : α → β) (ps : List (String × α)) :
    (ps.map fun p => (p.1, f p.2)).lookup l = (ps.lookup l).map f := by
  induction ps with
  | nil => rfl
  | cons p ps ih =>
      rcases p with ⟨l', a⟩
      by_cases h : l = l'
      · simp [h]
      · simp [lookup_cons_ite, h, ih]

theorem providedPairs_lookup {e : E × Nat} (h : (providedPairs fields).lookup l = some e) :
    l ∈ fields.map (·.label) ∧ e.2 = (fields.map (·.label)).idxOf l := by
  have hnum := lookup_map_snd (l := l) Prod.snd (providedPairs fields)
  rw [providedPairs_numbers, h] at hnum
  exact lookup_zipIdx 0 hnum

end Written

/-! ### Runs of the checker -/

section Runs

variable {α β ι : Type} {x : RecordTC α} {f : α → RecordTC β} {log log' : List Nat}
  {s s' : TCState}

theorem run_bind {b : β} (h : (x >>= f) log s = some (.ok (b, log'), s')) :
    ∃ a log₁ s₁, x log s = some (.ok (a, log₁), s₁) ∧
      f a log₁ s₁ = some (.ok (b, log'), s') := by
  obtain ⟨⟨a, log₁⟩, s₁, hx, hf⟩ := PartialM.bind_ok h
  exact ⟨a, log₁, s₁, hx, hf⟩

theorem run_lift {x : TC α} {a : α}
    (h : (liftM x : RecordTC α) log s = some (.ok (a, log'), s')) :
    x s = some (.ok a, s') ∧ log' = log := by
  obtain ⟨a', s₁, hx, hpure⟩ := PartialM.bind_ok h
  cases hpure
  exact ⟨hx, rfl⟩

theorem run_lift_bind {x : TC α} {b : β}
    (h : ((liftM x : RecordTC α) >>= f) log s = some (.ok (b, log'), s')) :
    ∃ a s₁, x s = some (.ok a, s₁) ∧ f a log s₁ = some (.ok (b, log'), s') := by
  obtain ⟨a, log₁, s₁, hx, hf⟩ := run_bind h
  obtain ⟨hx, rfl⟩ := run_lift hx
  exact ⟨a, s₁, by assumption, hf⟩

theorem run_pure {a b : α} (h : (pure a : RecordTC α) log s = some (.ok (b, log'), s')) :
    b = a ∧ log' = log ∧ s' = s := by
  cases h
  exact ⟨rfl, rfl, rfl⟩

/-- Over a list, each round logs the number of its result. -/
theorem run_mapM {κ γ : Type} {f : ι → RecordTC κ} {key : κ → γ} {key' : ι → γ}
    {num : κ → Nat}
    (hf : ∀ {i log s k log' s'}, f i log s = some (.ok (k, log'), s') →
      key k = key' i ∧ log' = log ++ [num k])
    {xs : List ι} {ks : List κ} (h : xs.mapM f log s = some (.ok (ks, log'), s')) :
    ks.map key = xs.map key' ∧ log' = log ++ ks.map num := by
  induction xs generalizing log s ks with
  | nil =>
      obtain ⟨rfl, rfl, rfl⟩ := run_pure h
      simp
  | cons i xs ih =>
      rw [List.mapM_cons] at h
      obtain ⟨k, log₁, s₁, hk, hrest⟩ := run_bind h
      obtain ⟨ks', log₂, s₂, hks, hdone⟩ := run_bind hrest
      obtain ⟨rfl, rfl, rfl⟩ := run_pure hdone
      obtain ⟨hkey, rfl⟩ := hf hk
      obtain ⟨hkeys, rfl⟩ := ih hks
      simp [hkey, hkeys]

end Runs

section Rules

variable {E N : Type} {infer : E → TC (Ty × N)} {lvl : Int} {fuel : Nat} {sp : SourceSpan}
  {log log' : List Nat} {s s' : TCState} {declared : List String}

theorem inferField_run {fieldT : Ty} {e : E × Nat} {node : N × Nat}
    (h : inferField infer lvl fuel sp fieldT e log s = some (.ok (node, log'), s')) :
    node.2 = e.2 ∧ log' = log ++ [e.2] := by
  obtain ⟨_, log₁, s₁, hmodify, hrest⟩ := run_bind h
  cases hmodify
  obtain ⟨⟨t, n⟩, s₂, hinfer, hrest⟩ := run_lift_bind hrest
  obtain ⟨_, s₃, hunify, hdone⟩ := run_lift_bind hrest
  obtain ⟨rfl, hlog, -⟩ := run_pure hdone
  exact ⟨rfl, hlog⟩

theorem rejectLabels_run {labels : List String} {e : String → TypeError} {u : Unit}
    (h : rejectLabels labels e s = some (.ok u, s')) : labels = [] := by
  cases hmin : labels.min? with
  | some l =>
      rw [rejectLabels, hmin] at h
      cases h
  | none => exact List.min?_eq_none_iff.mp hmin

theorem checkNames_run {conName : String} {allowed provided : List String} {u : Unit}
    (h : checkNames sp conName declared allowed provided s = some (.ok u, s')) :
    (∀ l ∈ provided, l ∈ allowed) ∧ ∀ l ∈ declared, l ∈ provided := by
  obtain ⟨_, s₁, hextra, h⟩ := PartialM.bind_ok h
  have hextra := rejectLabels_run hextra
  have hmissing := rejectLabels_run h
  simp only [List.filter_eq_nil_iff, decide_eq_true_eq, not_not] at hextra hmissing
  exact ⟨hextra, hmissing⟩

/-- Each declared field is the first one that is written with its label. -/
theorem declaredEntries_run {message : String} {paramSubst : List (Nat × Ty)}
    {decls : List (String × CType)} {fields : List (FieldExpr E)}
    {entries : List (String × Ty × N × Nat)}
    (h : declaredEntries infer lvl fuel sp message paramSubst decls (providedPairs fields) log s =
      some (.ok (entries, log'), s')) :
    entries.map (fun t => (t.1, t.2.2.2)) =
        (decls.map (·.1)).map (fun l => (l, (fields.map (·.label)).idxOf l)) ∧
      log' = log ++ entries.map (·.2.2.2) := by
  rw [List.map_map]
  apply run_mapM ?_ h
  rintro ⟨fname, fcty⟩ log s k log' s' h
  cases he : (providedPairs fields).lookup fname with
  | some e =>
      simp only [he] at h
      obtain ⟨node, log₁, s₁, hfield, hdone⟩ := run_bind h
      obtain ⟨rfl, rfl, rfl⟩ := run_pure hdone
      obtain ⟨hnum, rfl⟩ := inferField_run hfield
      rw [Function.comp_apply, hnum, (providedPairs_lookup he).2]
      exact ⟨rfl, rfl⟩
  | none =>
      simp only [he] at h
      cases (run_lift h).1

theorem extensionEntries_run {expRow : Ty} {pairs : List (String × E × Nat)}
    {entries : List (String × Ty × N × Nat)}
    (h : extensionEntries infer lvl fuel sp expRow pairs log s =
      some (.ok (entries, log'), s')) :
    entries.map (fun t => (t.1, t.2.2.2)) = pairs.map (fun p => (p.1, p.2.2)) ∧
      log' = log ++ entries.map (·.2.2.2) := by
  apply run_mapM ?_ h
  intro p log s k log' s' h
  obtain ⟨mft, s₁, hlook, hrest⟩ := run_lift_bind h
  have hentry : ∀ {t log₂ s₂}, (do
      let node ← inferField infer lvl fuel sp t p.2
      pure (p.1, t, node) : RecordTC _) log₂ s₂ = some (.ok (k, log'), s') →
      (k.1, k.2.2.2) = (p.1, p.2.2) ∧ log' = log₂ ++ [k.2.2.2] := by
    intro t log₂ s₂ hfield
    obtain ⟨node, log₃, s₃, hfield, hdone⟩ := run_bind hfield
    obtain ⟨rfl, rfl, rfl⟩ := run_pure hdone
    obtain ⟨hnum, rfl⟩ := inferField_run hfield
    rw [hnum]
    exact ⟨rfl, rfl⟩
  cases mft with
  | some t => exact hentry hrest
  | none =>
      obtain ⟨t, s₂, hvar, hfield⟩ := run_lift_bind hrest
      exact hentry hfield

theorem overrideNodes_run {spreadRow : Ty} {pairs : List (String × E × Nat)}
    {nodes : List (String × N × Nat)}
    (h : overrideNodes infer lvl fuel sp spreadRow pairs log s =
      some (.ok (nodes, log'), s')) :
    nodes.map (fun t => (t.1, t.2.2)) = pairs.map (fun p => (p.1, p.2.2)) ∧
      log' = log ++ nodes.map (·.2.2) := by
  apply run_mapM ?_ h
  intro p log s k log' s' h
  obtain ⟨tr, s₁, hrow, hrest⟩ := run_lift_bind h
  obtain ⟨node, log₂, s₂, hfield, hdone⟩ := run_bind hrest
  obtain ⟨rfl, rfl, rfl⟩ := run_pure hdone
  obtain ⟨hnum, rfl⟩ := inferField_run hfield
  rw [hnum]
  exact ⟨rfl, rfl⟩

/-- Every written field goes to one side, and to the added ones only if its label is not
declared. -/
theorem partitionTrailing_run {extSet : List String} {conName : String}
    {pairs ovs adds : List (String × E × Nat)} {r : List (String × E × Nat) × List _}
    (hadds : ∀ p ∈ adds, p.1 ∉ declared)
    (h : pairs.foldlM (fun acc p =>
      if p.1 ∈ declared then return (p :: acc.1, acc.2)
      else if p.1 ∈ extSet then return (acc.1, p :: acc.2)
      else throwTC (.unknownField sp conName p.1)) (ovs, adds) s = some (.ok r, s')) :
    (r.1 ++ r.2).Perm (pairs ++ (ovs ++ adds)) ∧ ∀ p ∈ r.2, p.1 ∉ declared := by
  induction pairs generalizing ovs adds s with
  | nil =>
      cases h
      exact ⟨.refl _, hadds⟩
  | cons p pairs ih =>
      rw [List.foldlM_cons] at h
      obtain ⟨acc, s₁, hp, h⟩ := PartialM.bind_ok h
      split at hp
      · cases hp
        obtain ⟨hperm, hnot⟩ := ih hadds h
        refine ⟨hperm.trans ?_, hnot⟩
        exact List.perm_middle
      next hdecl =>
        split at hp
        · cases hp
          obtain ⟨hperm, hnot⟩ := ih (List.forall_mem_cons.mpr ⟨hdecl, hadds⟩) h
          refine ⟨hperm.trans ?_, hnot⟩
          rw [← List.append_assoc, ← List.append_assoc]
          exact List.perm_middle
        · cases hp

theorem lookupRecordInfo_run {env : CheckEnv} {conName : String} {info : RecordConInfo}
    (h : lookupRecordInfo env sp conName s = some (.ok info, s')) :
    env.types.lookupRecordCon conName = some info := by
  cases hinfo : env.types.lookupRecordCon conName with
  | none =>
      rw [lookupRecordInfo, hinfo] at h
      cases h
  | some info' =>
      rw [lookupRecordInfo, hinfo] at h
      cases h
      rfl

/-- What an accepted record expression is typed as, and the log of it: the entries with
the numbers of the written fields that they are for. -/
inductive Accepted (declared : List String) : RecordExpr E → Ty → RecordNode N → List Nat →
    Prop where
  | record (conName : String) (fields : List (FieldExpr E))
      (entries : List (String × Ty × N × Nat)) (exts : List (String × Nat))
      (hentries : entries.map (fun t => (t.1, t.2.2.2)) =
        declared.map (fun l => (l, (fields.map (·.label)).idxOf l)) ++ exts)
      (hdeclared : ∀ l ∈ declared, l ∈ fields.map (·.label))
      (hexts : ∀ p ∈ exts, p.1 ∈ fields.map (·.label) ∧ p.1 ∉ declared) :
      Accepted declared (.record conName fields) (.record conName (entriesRow entries .rowEmpty))
        (.record conName (entryNodes entries)) (entries.map (·.2.2.2))
  | recordExt (conName : String) (spread : E) (trailing : List (FieldExpr E)) (node : N)
      (row : Ty) (nodes : List (String × N × Nat)) (entries : List (String × Ty × N × Nat))
      (hnodes : ((nodes ++ entryNodes entries).map (fun t => (t.1, t.2.2))).Perm
        (trailing.map (·.label)).zipIdx)
      (hentries : ∀ t ∈ entries, t.1 ∉ declared) :
      Accepted declared (.recordExt conName spread trailing)
        (.record conName (entriesRow entries row))
        (.recordExt conName node row (nodes ++ entryNodes entries))
        ((nodes ++ entryNodes entries).map (·.2.2))

theorem entryNodes_numbers (entries : List (String × Ty × N × Nat)) :
    (entryNodes entries).map (·.2.2) = entries.map (·.2.2.2) := by
  simp [entryNodes, Function.comp_def]

theorem entryNodes_keys (entries : List (String × Ty × N × Nat)) :
    (entryNodes entries).map (fun t => (t.1, t.2.2)) =
      entries.map (fun t => (t.1, t.2.2.2)) := by
  simp [entryNodes, Function.comp_def]

variable {env : CheckEnv} {ty : Ty} {node : RecordNode N}

theorem inferERecord_run {conName : String} {fields : List (FieldExpr E)}
    (h : inferERecord infer lvl fuel sp env conName fields [] s =
      some (.ok ((ty, node), log'), s')) :
    ∃ info, env.types.lookupRecordCon conName = some info ∧
      Accepted (info.fields.map (·.1)) (.record conName fields) ty node log' := by
  obtain ⟨info, s₁, hinfo, hrest⟩ := run_lift_bind h
  obtain ⟨_, s₂, hnames, hrest⟩ := run_lift_bind hrest
  obtain ⟨subst, s₃, hsubst, hrest⟩ := run_lift_bind hrest
  obtain ⟨entries, log₁, s₄, hentries, hdone⟩ := run_bind hrest
  obtain ⟨heq, rfl, rfl⟩ := run_pure hdone
  cases heq
  obtain ⟨hkeys, rfl⟩ := declaredEntries_run hentries
  have hdeclared := (checkNames_run hnames).2
  rw [providedPairs_labels] at hdeclared
  refine ⟨info, lookupRecordInfo_run hinfo, ?_⟩
  exact .record conName fields entries [] (by rw [hkeys, List.append_nil]) hdeclared
    (fun _ hp => nomatch hp)

theorem inferERecordWithExt_run {conName : String} {info : RecordConInfo}
    {fields : List (FieldExpr E)} {extSet : List String} {expRow : Ty}
    (hext : ∀ l ∈ extSet, l ∉ info.fields.map (·.1))
    (h : inferERecordWithExt infer lvl fuel sp env conName info fields extSet expRow [] s =
      some (.ok ((ty, node), log'), s')) :
    Accepted (info.fields.map (·.1)) (.record conName fields) ty node log' := by
  obtain ⟨_, s₁, hnames, hrest⟩ := run_lift_bind h
  obtain ⟨subst, s₂, hsubst, hrest⟩ := run_lift_bind hrest
  obtain ⟨entries, log₁, s₃, hentries, hrest⟩ := run_bind hrest
  obtain ⟨exts, log₂, s₄, hexts, hdone⟩ := run_bind hrest
  obtain ⟨heq, rfl, rfl⟩ := run_pure hdone
  cases heq
  obtain ⟨hkeys, rfl⟩ := declaredEntries_run hentries
  obtain ⟨hextKeys, rfl⟩ := extensionEntries_run hexts
  have hdeclared := (checkNames_run hnames).2
  rw [providedPairs_labels] at hdeclared
  rw [List.nil_append, ← List.map_append]
  refine .record conName fields (entries ++ exts) _ (by rw [List.map_append, hkeys, hextKeys])
    hdeclared ?_
  intro p hp
  obtain ⟨q, hq, rfl⟩ := List.mem_map.mp hp
  obtain ⟨hq, hlabel⟩ := List.mem_filter.mp hq
  refine ⟨?_, hext _ (of_decide_eq_true hlabel)⟩
  rw [← providedPairs_labels]
  exact List.mem_map_of_mem hq

theorem inferERecordExt_run {conName : String} {spread : E} {trailing : List (FieldExpr E)}
    (h : inferERecordExt infer lvl fuel sp env conName spread trailing [] s =
      some (.ok ((ty, node), log'), s')) :
    ∃ info, env.types.lookupRecordCon conName = some info ∧
      Accepted (info.fields.map (·.1)) (.recordExt conName spread trailing) ty node log' := by
  obtain ⟨info, s₁, hinfo, hrest⟩ := run_lift_bind h
  obtain ⟨⟨spreadT, spreadNode⟩, s₂, hspread, hrest⟩ := run_lift_bind hrest
  obtain ⟨spreadT', s₃, hforce, hrest⟩ := run_lift_bind hrest
  split at hrest
  next tag row =>
    by_cases htag : tag = conName
    · subst htag
      rw [if_pos rfl] at hrest
      obtain ⟨nodes, log₁, s₄, hnodes, hdone⟩ := run_bind hrest
      obtain ⟨heq, rfl, rfl⟩ := run_pure hdone
      cases heq
      obtain ⟨hkeys, rfl⟩ := overrideNodes_run hnodes
      have hperm : ((nodes ++ entryNodes []).map
          fun t : String × N × Nat => (t.1, t.2.2)).Perm
          (trailing.map FieldExpr.label).zipIdx := by
        rw [entryNodes, List.map_nil, List.append_nil, hkeys, providedPairs_numbers]
      have haccepted := @Accepted.recordExt E N (info.fields.map (·.1)) tag spread trailing
        spreadNode row nodes [] hperm (fun _ ht => nomatch ht)
      rw [entryNodes, List.map_nil, List.append_nil] at haccepted
      exact ⟨info, lookupRecordInfo_run hinfo, haccepted⟩
    · rw [if_neg htag] at hrest
      cases (run_lift hrest).1
  next =>
    obtain ⟨ct, s₄, hfreeze, hthrow⟩ := run_lift_bind hrest
    cases (run_lift hthrow).1

theorem inferERecordExtWithExt_run {conName : String} {info : RecordConInfo} {spread : E}
    {trailing : List (FieldExpr E)} {expRow : Ty}
    (h : inferERecordExtWithExt infer lvl fuel sp conName info spread trailing expRow [] s =
      some (.ok ((ty, node), log'), s')) :
    Accepted (info.fields.map (·.1)) (.recordExt conName spread trailing) ty node log' := by
  obtain ⟨⟨spreadT, spreadNode⟩, s₁, hspread, hrest⟩ := run_lift_bind h
  obtain ⟨rowVar, s₂, hvar, hrest⟩ := run_lift_bind hrest
  obtain ⟨_, s₃, hunify, hrest⟩ := run_lift_bind hrest
  obtain ⟨spreadT', s₄, hforce, hrest⟩ := run_lift_bind hrest
  split at hrest
  next tag row =>
    by_cases htag : tag = conName
    · rw [if_pos htag] at hrest
      obtain ⟨expLabels, s₅, hlabels, hrest⟩ := run_lift_bind hrest
      obtain ⟨⟨ovs, adds⟩, s₆, hpart, hrest⟩ := run_lift_bind hrest
      obtain ⟨nodes, log₁, s₇, hnodes, hrest⟩ := run_bind hrest
      obtain ⟨entries, log₂, s₈, hentries, hdone⟩ := run_bind hrest
      obtain ⟨heq, rfl, rfl⟩ := run_pure hdone
      cases heq
      obtain ⟨hkeys, rfl⟩ := overrideNodes_run hnodes
      obtain ⟨hextKeys, rfl⟩ := extensionEntries_run hentries
      obtain ⟨hperm, hadds⟩ := partitionTrailing_run (List.forall_mem_nil _) hpart
      rw [List.nil_append, ← entryNodes_numbers, ← List.map_append]
      apply Accepted.recordExt
      · rw [List.map_append, entryNodes_keys, hkeys, hextKeys, ← List.map_append,
          ← providedPairs_numbers]
        simpa using hperm.map fun p => (p.1, p.2.2)
      · intro t ht
        have hkey : (t.1, t.2.2.2) ∈ adds.map fun p => (p.1, p.2.2) := by
          rw [← hextKeys]
          exact List.mem_map_of_mem ht
        obtain ⟨p, hp, heq⟩ := List.mem_map.mp hkey
        rw [← (Prod.mk.inj heq).1]
        exact hadds p hp
    · rw [if_neg htag] at hrest
      cases (run_lift hrest).1
  next =>
    obtain ⟨ct, s₅, hfreeze, hthrow⟩ := run_lift_bind hrest
    cases (run_lift hthrow).1

/-- Every accepted record expression is typed by one of the four rules. -/
theorem accepted_of_run {expected : Option Ty} {e : RecordExpr E}
    (h : inferRecordWChecked infer lvl fuel sp env expected e [] s =
      some (.ok ((ty, node), log'), s')) :
    ∃ info, env.types.lookupRecordCon e.conName = some info ∧
      Accepted (info.fields.map (·.1)) e ty node log' := by
  have hinferRecordW : ∀ {s : TCState},
      inferRecordW infer lvl fuel sp env e [] s = some (.ok ((ty, node), log'), s') →
      ∃ info, env.types.lookupRecordCon e.conName = some info ∧
        Accepted (info.fields.map (·.1)) e ty node log' := by
    intro s h
    cases e with
    | record conName fields => exact inferERecord_run h
    | recordExt conName spread trailing => exact inferERecordExt_run h
  cases expected with
  | none => exact hinferRecordW h
  | some expected =>
      obtain ⟨info, s₁, hinfo, hrest⟩ := run_lift_bind h
      obtain ⟨expected', s₂, hforce, hrest⟩ := run_lift_bind hrest
      split at hrest
      next tag expRow =>
        split at hrest
        · refine ⟨info, lookupRecordInfo_run hinfo, ?_⟩
          cases e with
          | record conName fields =>
              obtain ⟨extLabels, s₃, hlabels, hrest⟩ := run_lift_bind hrest
              refine inferERecordWithExt_run ?_ hrest
              intro l hl
              exact of_decide_eq_true (List.mem_filter.mp hl).2
          | recordExt conName spread trailing => exact inferERecordExtWithExt_run hrest
        · exact hinferRecordW hrest
      next => exact hinferRecordW hrest

end Rules

/-! ### Numbers of labels -/

section Numbers

variable {declared labels : List String}

theorem mem_of_count (h : ∀ l ∈ labels, declared.count l = 1) {l : String} (hl : l ∈ labels) :
    l ∈ declared :=
  List.count_pos_iff.mp (by rw [h l hl]; exact Nat.one_pos)

/-- Where each label has the number of one of its places, the numbers of the declared
labels are all the numbers exactly when each label has one place and is declared once. -/
theorem numbers_perm_iff {num : String → Option Nat}
    (hnum : ∀ {i l}, num l = some i → labels[i]? = some l)
    (hsome : ∀ l ∈ labels, ∃ i, num l = some i) :
    (declared.filterMap num).Perm (List.range labels.length) ↔
      labels.Nodup ∧ ∀ l ∈ labels, declared.count l = 1 := by
  constructor
  · intro hperm
    have hnodup := hperm.nodup_iff.mpr List.nodup_range
    have hfound : ∀ {i l}, labels[i]? = some l → l ∈ declared ∧ num l = some i := by
      intro i l hl
      have hi : i ∈ declared.filterMap num := by
        rw [hperm.mem_iff, List.mem_range]
        exact (List.getElem?_eq_some_iff.mp hl).1
      obtain ⟨l', hl', heq⟩ := List.mem_filterMap.mp hi
      have hsame := (hnum heq).symm.trans hl
      cases hsame
      exact ⟨hl', heq⟩
    constructor
    · rw [List.nodup_iff_getElem?_ne_getElem?]
      intro i j hij hj heq
      have hl := List.getElem?_eq_getElem hj
      have hi := (hfound (heq.trans hl)).2
      rw [(hfound hl).2] at hi
      exact hij.ne' (Option.some.inj hi)
    · intro l hl
      obtain ⟨i, hi⟩ := List.mem_iff_getElem?.mp hl
      obtain ⟨hmem, heq⟩ := hfound hi
      have hle : declared.count l ≤ (declared.filterMap num).count i := by
        rw [List.count_filterMap]
        apply List.countP_mono_left
        intro l' _ hl'
        rw [eq_of_beq hl', heq]
        exact beq_self_eq_true _
      have hone := List.nodup_iff_count_le_one.mp hnodup i
      exact le_antisymm (hle.trans hone) (List.count_pos_iff.mpr hmem)
  · rintro ⟨hdistinct, hcount⟩
    rw [List.perm_iff_count]
    intro i
    rw [List.count_filterMap]
    cases hi : labels[i]? with
    | none =>
        have hge := List.getElem?_eq_none_iff.mp hi
        rw [List.count_eq_zero_of_not_mem (by simpa using hge), List.countP_eq_zero]
        intro l _ heq
        rw [hnum (eq_of_beq heq)] at hi
        cases hi
    | some l =>
        have hl := List.mem_of_getElem? hi
        have hlt := (List.getElem?_eq_some_iff.mp hi).1
        have hcountP : (fun l' => num l' == some i) = fun l' => l' == l := by
          funext l'
          rw [Bool.eq_iff_iff, beq_iff_eq, beq_iff_eq]
          constructor
          · intro h
            exact Option.some.inj ((hnum h).symm.trans hi)
          · rintro rfl
            obtain ⟨j, hj⟩ := hsome l' hl
            rw [hj, (List.getElem?_inj hlt hdistinct).mp (hi.trans (hnum hj).symm)]
        rw [hcountP]
        change declared.count l = _
        rw [hcount l hl, List.count_eq_one_of_mem List.nodup_range (List.mem_range.mpr hlt)]

/-- The numbers of the first places. -/
theorem positions_perm_iff (hsub : ∀ l ∈ declared, l ∈ labels) :
    (declared.map fun l => labels.idxOf l).Perm (List.range labels.length) ↔
      labels.Nodup ∧ ∀ l ∈ labels, declared.count l = 1 := by
  have hmap : declared.map (fun l => labels.idxOf l) =
      declared.filterMap fun l => if l ∈ labels then some (labels.idxOf l) else none := by
    rw [← List.filterMap_eq_map]
    apply List.filterMap_congr
    intro l hl
    rw [if_pos (hsub l hl)]
    rfl
  rw [hmap, numbers_perm_iff]
  · intro i l h
    split at h
    next hl =>
      cases h
      exact List.getElem?_idxOf hl
    next => cases h
  · intro l hl
    exact ⟨_, if_pos hl⟩

end Numbers

/-! ### The code of a construction -/

section Construction

variable {N : Type} {val : Nat → Value} {spread : Value}

theorem normAll_meaning (fields : List (String × N × Nat)) (k : List Value → Built) :
    normAll (meaning val spread) (fields.map fun f => .field f.2.1 f.2.2) k =
      ⟨fields.map (·.2.2) ++ (k (fields.map fun f => val f.2.2)).evaluated,
        (k (fields.map fun f => val f.2.2)).value⟩ := by
  induction fields generalizing k with
  | nil => rfl
  | cons f fields ih =>
      change Built.after f.2.2 (normAll (meaning val spread) _ fun as => k (val f.2.2 :: as)) = _
      rw [ih]
      rfl

theorem orderFields_eq {α : Type} {declared : List String} {pairs : List (String × α)}
    {f : String → α} (h : ∀ l ∈ declared, pairs.lookup l = some (f l)) :
    orderFields declared pairs = declared.map fun l => (l, f l) := by
  have hordered : declared.filterMap (fun l => (pairs.lookup l).map (l, ·)) =
      declared.map fun l => (l, f l) := by
    rw [← List.filterMap_eq_map]
    apply List.filterMap_congr
    intro l hl
    rw [h l hl]
    rfl
  rw [orderFields, hordered]
  simp

/-- The record has the declared labels, each with the first value that is written for
it. -/
theorem elabRecord_meaning {info : RecordConInfo} {t : String} {labels : List String}
    {entries : List (String × Ty × N × Nat)} {exts : List (String × Nat)}
    (hentries : entries.map (fun t => (t.1, t.2.2.2)) =
      (info.fields.map (·.1)).map (fun l => (l, labels.idxOf l)) ++ exts) :
    elabRecord (meaning val spread) (some info) t (entryNodes entries) =
      ⟨entries.map (·.2.2.2), some (.record t (fieldMap
        ((info.fields.map (·.1)).map fun l => (l, val (labels.idxOf l)))))⟩ := by
  have hpairs : ((entryNodes entries).map (·.1)).zip
        ((entryNodes entries).map fun f => val f.2.2) =
      (entries.map fun t => (t.1, t.2.2.2)).map fun p => (p.1, val p.2) := by
    rw [List.zip_map', ← entryNodes_keys, List.map_map]
    rfl
  have horder : orderFields (info.fields.map (·.1))
        (((entryNodes entries).map (·.1)).zip ((entryNodes entries).map fun f => val f.2.2)) =
      (info.fields.map (·.1)).map fun l => (l, val (labels.idxOf l)) := by
    apply orderFields_eq
    intro l hl
    rw [hpairs, lookup_map_snd, hentries, List.lookup_append, lookup_map, if_pos hl]
    rfl
  rw [elabRecord, normAll_meaning]
  simp only [horder, entryNodes_numbers]
  simp [meaning]

end Construction

/-! ### The code of an extension -/

section Extension

variable {N : Type} {val : Nat → Value} {t : String} {m : List (String × Value)}
  {overrides : List (String × N × Nat)} {lbls : List String} {acc : List (String × Value)}
  {cont : List (String × Value) → Built}

theorem meaning_proj (l : String) (k : Value → Built) :
    (meaning (N := N) val (.record t m)).proj l (.record t m) k =
      match m.lookup l with
      | some w => k w
      | none => ⟨[], none⟩ := rfl

/-- What the extended record has for a label. -/
def pick (val : Nat → Value) (overrides : List (String × N × Nat)) (m : List (String × Value))
    (l : String) : Option Value :=
  match lookupOverride overrides l with
  | some oe => some (val oe.2)
  | none => m.lookup l

theorem buildFieldLets_found {f : String → Value}
    (hf : ∀ l ∈ lbls, pick val overrides m l = some (f l)) :
    buildFieldLets (meaning val (.record t m)) overrides (.record t m) lbls acc cont =
      ⟨lbls.filterMap (fun l => (lookupOverride overrides l).map (·.2)) ++
          (cont (acc.reverse ++ lbls.map fun l => (l, f l))).evaluated,
        (cont (acc.reverse ++ lbls.map fun l => (l, f l))).value⟩ := by
  induction lbls generalizing acc with
  | nil => simp [buildFieldLets]
  | cons l lbls ih =>
      have hl := hf l List.mem_cons_self
      have hrest := fun a => @ih ((l, a) :: acc) fun l' hl' => hf l' (.tail _ hl')
      rw [buildFieldLets]
      cases hlook : lookupOverride overrides l with
      | some oe =>
          have hval : f l = val oe.2 := by
            rw [pick, hlook] at hl
            exact (Option.some.inj hl).symm
          change Built.after oe.2 (buildFieldLets _ _ _ _ ((l, val oe.2) :: acc) _) = _
          simp [hrest, hval, Built.after, hlook]
      | none =>
          have hm : m.lookup l = some (f l) := by
            rwa [pick, hlook] at hl
          simp only [meaning_proj, hm]
          simp [hrest, hlook]

theorem buildFieldLets_missing {l : String} (hl : l ∈ lbls)
    (hpick : pick val overrides m l = none) :
    (buildFieldLets (meaning val (.record t m)) overrides (.record t m) lbls acc cont).value =
      none := by
  induction lbls generalizing acc with
  | nil => cases hl
  | cons l' lbls ih =>
      rw [buildFieldLets]
      cases hlook : lookupOverride overrides l' with
      | some oe =>
          cases hl with
          | head =>
              rw [pick, hlook] at hpick
              cases hpick
          | tail _ hl => exact ih hl
      | none =>
          cases hm : m.lookup l' with
          | none => simp only [meaning_proj, hm]
          | some v =>
              cases hl with
              | head =>
                  rw [pick, hlook, hm] at hpick
                  cases hpick
              | tail _ hl =>
                  simp only [meaning_proj, hm]
                  exact ih hl

/-- The numbers of the overrides that the code evaluates. -/
def usedNumbers (overrides : List (String × N × Nat)) (lbls : List String) : List Nat :=
  lbls.filterMap fun l => (lookupOverride overrides l).map (·.2)

theorem elabRecordExt_meaning {info : RecordConInfo} {spread : N} {f : String → Value}
    (hf : ∀ l ∈ info.fields.map (·.1), pick val overrides m l = some (f l)) :
    elabRecordExt (meaning val (.record t m)) (some info) t spread overrides =
      ⟨usedNumbers overrides (info.fields.map (·.1)), some (.record t (fieldMap
        ((info.fields.map (·.1)).map fun l => (l, f l))))⟩ := by
  change buildFieldLets _ _ _ _ _ _ = _
  rw [buildFieldLets_found hf]
  simp [meaning, usedNumbers]

/-- A record is built only if each declared label is written or in the spread. -/
theorem elabRecordExt_value {info : RecordConInfo} {spread : N} {is : List Nat} {v : Value}
    (h : elabRecordExt (meaning val (.record t m)) (some info) t spread overrides =
      ⟨is, some v⟩) :
    ∃ f : String → Value, (∀ l ∈ info.fields.map (·.1), pick val overrides m l = some (f l)) ∧
      is = usedNumbers overrides (info.fields.map (·.1)) ∧
      v = .record t (fieldMap ((info.fields.map (·.1)).map fun l => (l, f l))) := by
  have hf : ∀ l ∈ info.fields.map (·.1),
      pick val overrides m l = some ((pick val overrides m l).getD default) := by
    intro l hl
    cases hpick : pick val overrides m l with
    | some v => rfl
    | none =>
        have hnone : (elabRecordExt (meaning val (.record t m)) (some info) t spread
          overrides).value = none := buildFieldLets_missing hl hpick
        rw [h] at hnone
        cases hnone
  rw [elabRecordExt_meaning hf] at h
  cases h
  exact ⟨_, hf, rfl, rfl⟩

/-! The written fields as overrides. -/

variable {labels : List String} {l : String}

theorem lookupOverride_number (hkeys : (overrides.map fun t => (t.1, t.2.2)).Perm labels.zipIdx)
    {oe : N × Nat} (h : lookupOverride overrides l = some oe) : labels[oe.2]? = some l := by
  rw [lookupOverride, List.lookup_eq_some_iff] at h
  obtain ⟨before, after, hsplit, -⟩ := h
  have hmem : (l, oe.1, oe.2) ∈ overrides := by
    rw [← List.mem_reverse, hsplit]
    simp
  have hkey := hkeys.mem_iff.mp (List.mem_map_of_mem hmem)
  exact List.mk_mem_zipIdx_iff_getElem?.mp hkey

theorem overrides_labels (hkeys : (overrides.map fun t => (t.1, t.2.2)).Perm labels.zipIdx) :
    (overrides.map (·.1)).Perm labels := by
  have h := hkeys.map Prod.fst
  rwa [List.map_map, List.zipIdx_map_fst] at h

theorem lookupOverride_iff
    (hkeys : (overrides.map fun t => (t.1, t.2.2)).Perm labels.zipIdx) :
    (∃ oe, lookupOverride overrides l = some oe) ↔ l ∈ labels := by
  rw [lookupOverride, ← mem_labels_iff, List.map_reverse, List.mem_reverse,
    (overrides_labels hkeys).mem_iff]

theorem usedNumbers_perm_iff
    (hkeys : (overrides.map fun t => (t.1, t.2.2)).Perm labels.zipIdx) {declared : List String} :
    (usedNumbers overrides declared).Perm (List.range labels.length) ↔
      labels.Nodup ∧ ∀ l ∈ labels, declared.count l = 1 := by
  apply numbers_perm_iff
  · intro i l h
    obtain ⟨oe, hoe, rfl⟩ := Option.map_eq_some_iff.mp h
    exact lookupOverride_number hkeys hoe
  · intro l hl
    obtain ⟨oe, hoe⟩ := (lookupOverride_iff hkeys).mpr hl
    exact ⟨oe.2, by rw [hoe]; rfl⟩

end Extension

/-! ### When the code agrees with the expression -/

section Rows

variable {N : Type} {θ : Nat → Ty} {row : Ty}

theorem rowLabels_entriesRow (entries : List (String × Ty × N × Nat)) :
    rowLabels ((entriesRow entries row).subst θ) =
      entries.map (·.1) ++ rowLabels (row.subst θ) := by
  induction entries with
  | nil => rfl
  | cons t entries ih =>
      change t.1 :: rowLabels ((entriesRow entries row).subst θ) = _
      rw [ih]
      rfl

theorem rowEnd_entriesRow (entries : List (String × Ty × N × Nat)) :
    ((entriesRow entries row).subst θ).rowEnd = (row.subst θ).rowEnd := by
  induction entries with
  | nil => rfl
  | cons t entries ih => exact ih

end Rows

section Agreement

variable {E N : Type} {θ : Nat → Ty} {info : RecordConInfo} {conName : String}
  {declared labels : List String}

/-! A construction. -/

section Construction

variable {fields : List (FieldExpr E)} {entries : List (String × Ty × N × Nat)}
  {exts : List (String × Nat)}

/-- An added field would be in the row and not in the value. -/
theorem record_exts_nil (hinfo : info.fields.map (·.1) = declared)
    (hentries : entries.map (fun t => (t.1, t.2.2.2)) =
      declared.map (fun l => (l, labels.idxOf l)) ++ exts)
    (hexts : ∀ p ∈ exts, p.1 ∉ declared)
    (h : Faithful θ (some info) (.record conName fields)
      (.record conName (entriesRow entries .rowEmpty)) (.record conName (entryNodes entries))
      (entries.map (·.2.2.2))) : exts = [] := by
  obtain ⟨is, fs, row, hbuilt, -, hrow, hhas, -⟩ := h.built (fun _ => default) [] rfl
  rw [elabRecordNode, elabRecord_meaning (by rw [hinfo, hentries]), hinfo] at hbuilt
  cases hbuilt
  cases hrow
  apply List.eq_nil_iff_forall_not_mem.mpr
  intro p hp
  have hrow : p.1 ∈ entries.map (·.1) := by
    have hmem : p ∈ entries.map fun t => (t.1, t.2.2.2) := by
      rw [hentries]
      exact List.mem_append_right _ hp
    obtain ⟨t, ht, rfl⟩ := List.mem_map.mp hmem
    exact List.mem_map_of_mem ht
  have hvalue := hhas.has p.1 (by
    rw [rowLabels_entriesRow]
    exact List.mem_append_left _ hrow)
  rw [mem_fieldMap_labels, List.map_map] at hvalue
  simp only [Function.comp_def, List.map_id'] at hvalue
  exact hexts p hp hvalue

theorem record_plain_iff (hlabels : fields.map (·.label) = labels)
    (hdeclared : ∀ l ∈ declared, l ∈ labels)
    (hentries : entries.map (fun t => (t.1, t.2.2.2)) =
      declared.map (fun l => (l, labels.idxOf l))) :
    EachOnce (.record conName fields : RecordExpr E) (entries.map (·.2.2.2)) ↔
      Plain θ declared (.record conName fields) (.record conName (entryNodes entries)) := by
  have hnums : entries.map (·.2.2.2) = declared.map fun l => labels.idxOf l := by
    have hkeys := congrArg (List.map Prod.snd) hentries
    rwa [List.map_map, List.map_map] at hkeys
  have hlength : fields.length = labels.length := by
    rw [← hlabels, List.length_map]
  change (entries.map (·.2.2.2)).Perm (List.range fields.length) ↔ _
  rw [hnums, hlength, positions_perm_iff hdeclared]
  constructor
  · rintro ⟨hdistinct, hcount⟩
    rw [← hlabels] at hdistinct hcount
    exact ⟨hdistinct, fun f hf => hcount _ (List.mem_map_of_mem hf), trivial⟩
  · intro h
    rw [← hlabels]
    refine ⟨h.distinct, ?_⟩
    intro l hl
    obtain ⟨f, hf, rfl⟩ := List.mem_map.mp hl
    exact h.known f hf

theorem record_faithful (hinfo : info.fields.map (·.1) = declared)
    (hlabels : fields.map (·.label) = labels) (hdeclared : ∀ l ∈ declared, l ∈ labels)
    (hentries : entries.map (fun t => (t.1, t.2.2.2)) =
      declared.map (fun l => (l, labels.idxOf l)))
    (h : Plain θ declared (.record conName fields : RecordExpr E)
      (.record conName (entryNodes entries))) :
    Faithful θ (some info) (.record conName fields)
      (.record conName (entriesRow entries .rowEmpty)) (.record conName (entryNodes entries))
      (entries.map (·.2.2.2)) := by
  have honce := (record_plain_iff hlabels hdeclared hentries).mpr h
  refine ⟨honce, ?_⟩
  rintro val m rfl
  have hbuilt := @elabRecord_meaning N val (.record conName []) info conName labels entries []
    (by rw [hinfo, hentries, List.append_nil])
  rw [hinfo] at hbuilt
  refine ⟨_, _, _, hbuilt, honce, rfl, ?_, ?_⟩
  · have hsame : ∀ l, l ∈ rowLabels ((entriesRow entries .rowEmpty).subst θ) ↔ l ∈ declared := by
      intro l
      have hkeys := congrArg (List.map Prod.fst) hentries
      rw [List.map_map, List.map_map] at hkeys
      rw [rowLabels_entriesRow]
      change l ∈ entries.map (Prod.fst ∘ fun t => (t.1, t.2.2.2)) ++ [] ↔ _
      rw [hkeys, List.append_nil]
      simp [Function.comp_def]
    constructor
    · intro l hl
      rw [mem_fieldMap_labels, List.map_map]
      simpa [Function.comp_def] using (hsame l).mp hl
    · intro _ l hl
      rw [mem_fieldMap_labels, List.map_map] at hl
      exact (hsame l).mpr (by simpa [Function.comp_def] using hl)
  · have hmem := @mem_of_count declared labels (by
      rw [← hlabels]
      intro l hl
      obtain ⟨f, hf, rfl⟩ := List.mem_map.mp hl
      exact h.known f hf)
    have hdistinct : labels.Nodup := by
      rw [← hlabels]
      exact h.distinct
    constructor
    · intro i f hf
      have hlabel : labels[i]? = some f.label := by
        rw [← hlabels, List.getElem?_map]
        exact congrArg (Option.map FieldExpr.label) hf
      obtain ⟨hi, hget⟩ := List.getElem?_eq_some_iff.mp hlabel
      have hin : f.label ∈ labels := List.mem_of_getElem? hlabel
      rw [lookup_fieldMap_map, if_pos (hmem hin), ← hget, hdistinct.idxOf_getElem i hi]
    · intro l hl
      have hnot : l ∉ declared := by
        intro hin
        have hin := hdeclared l hin
        rw [← hlabels] at hin
        obtain ⟨f, hf, rfl⟩ := List.mem_map.mp hin
        exact hl f hf rfl
      rw [lookup_fieldMap_map, if_neg hnot]
      rfl

end Construction

/-! An extension. -/

section Extension

variable {spread : E} {trailing : List (FieldExpr E)} {node : N} {row : Ty}
  {nodes : List (String × N × Nat)} {entries : List (String × Ty × N × Nat)}

/-- An added field would be written and not be declared. -/
theorem recordExt_entries_nil
    (hnodes : ((nodes ++ entryNodes entries).map (fun t => (t.1, t.2.2))).Perm labels.zipIdx)
    (hentries : ∀ t ∈ entries, t.1 ∉ declared) (hcount : ∀ l ∈ labels, declared.count l = 1) :
    entries = [] := by
  apply List.eq_nil_iff_forall_not_mem.mpr
  intro t ht
  apply hentries t ht
  apply mem_of_count hcount
  rw [← (overrides_labels hnodes).mem_iff, List.map_append]
  apply List.mem_append_right
  rw [entryNodes, List.map_map]
  exact List.mem_map_of_mem ht

theorem count_labels (hlabels : trailing.map (·.label) = labels) :
    (∀ l ∈ labels, declared.count l = 1) ↔ ∀ f ∈ trailing, declared.count f.label = 1 := by
  rw [← hlabels]
  exact List.forall_mem_map

theorem extended_labels {f : String → Value} {l : String} :
    l ∈ (fieldMap (declared.map fun l => (l, f l))).map (·.1) ↔ l ∈ declared := by
  rw [mem_fieldMap_labels, List.map_map]
  simp [Function.comp_def]

/-- A spread with one more label shows that the row is closed, and one with just the
labels of the row that these are the declared ones. -/
theorem recordExt_plain (hinfo : info.fields.map (·.1) = declared)
    (hlabels : trailing.map (·.label) = labels)
    (hnodes : ((nodes ++ entryNodes entries).map (fun t => (t.1, t.2.2))).Perm labels.zipIdx)
    (hentries : ∀ t ∈ entries, t.1 ∉ declared)
    (h : Faithful θ (some info) (.recordExt conName spread trailing)
      (.record conName (entriesRow entries row))
      (.recordExt conName node row (nodes ++ entryNodes entries))
      ((nodes ++ entryNodes entries).map (·.2.2))) :
    Plain θ declared (.recordExt conName spread trailing)
      (.recordExt conName node row (nodes ++ entryNodes entries)) := by
  have hlength : trailing.length = labels.length := by
    rw [← hlabels, List.length_map]
  have hspread : ∀ m, HasLabels m (row.subst θ) → ∃ f : String → Value,
      (usedNumbers (nodes ++ entryNodes entries) declared).Perm (List.range labels.length) ∧
      HasLabels (fieldMap (declared.map fun l => (l, f l)))
        ((entriesRow entries row).subst θ) ∧
      ∀ l ∉ labels, (fieldMap (declared.map fun l => (l, f l))).lookup l = m.lookup l := by
    intro m hm
    obtain ⟨is, fs, row', hbuilt, honce, hrow, hhas, hholds⟩ :=
      h.built (fun _ => default) m hm
    cases hrow
    obtain ⟨f, -, rfl, hv⟩ := elabRecordExt_value hbuilt
    cases hv
    change (usedNumbers _ _).Perm (List.range trailing.length) at honce
    rw [hinfo] at honce hhas hholds
    rw [hlength] at honce
    refine ⟨f, honce, hhas, ?_⟩
    intro l hl
    apply hholds.other
    rintro g hg rfl
    apply hl
    rw [← hlabels]
    exact List.mem_map_of_mem hg
  have hlookup : ∀ {ls : List String} {l}, ((ls.map fun l => (l, (default : Value))).lookup l =
      if l ∈ ls then some default else none) := lookup_map _ _
  have hfst : ∀ ls : List String,
      (ls.map fun l => (l, (default : Value))).map (·.1) = ls := by
    intro ls
    simp [Function.comp_def]
  obtain ⟨f, hperm, hhas, -⟩ := hspread ((rowLabels (row.subst θ)).map fun l => (l, default)) (by
    constructor
    · intro l hl
      rwa [hfst]
    · intro _ l hl
      rwa [hfst] at hl)
  obtain ⟨hdistinct, hcount⟩ := (usedNumbers_perm_iff hnodes).mp hperm
  have hnil := recordExt_entries_nil hnodes hentries hcount
  subst hnil
  refine ⟨?_, (count_labels hlabels).mp hcount, ?_⟩
  · rw [← hlabels] at hdistinct
    exact hdistinct
  · have hclosed : (row.subst θ).rowEnd = .rowEmpty := by
      by_contra hopen
      -- a label that is neither in the row nor declared nor written
      obtain ⟨l, hl⟩ := Infinite.exists_notMem_finset
        (rowLabels (row.subst θ) ++ (declared ++ labels)).toFinset
      simp only [List.mem_toFinset, List.mem_append, not_or] at hl
      obtain ⟨g, -, -, hother⟩ := hspread
        ((rowLabels (row.subst θ) ++ [l]).map fun l => (l, default)) (by
          constructor
          · intro l' hl'
            rw [hfst]
            exact List.mem_append_left _ hl'
          · intro hclosed
            exact absurd hclosed hopen)
      have hl' := hother l hl.2.2
      rw [lookup_fieldMap_map, if_neg hl.2.1, hlookup, if_pos (by simp)] at hl'
      cases hl'
    refine ⟨hclosed, ?_⟩
    intro l
    constructor
    · intro hl
      exact extended_labels.mp (hhas.has l hl)
    · intro hl
      exact hhas.only hclosed l (extended_labels.mpr hl)

theorem recordExt_faithful (hinfo : info.fields.map (·.1) = declared)
    (hlabels : trailing.map (·.label) = labels)
    (hnodes : ((nodes ++ entryNodes entries).map (fun t => (t.1, t.2.2))).Perm labels.zipIdx)
    (hentries : ∀ t ∈ entries, t.1 ∉ declared)
    (h : Plain θ declared (.recordExt conName spread trailing)
      (.recordExt conName node row (nodes ++ entryNodes entries))) :
    Faithful θ (some info) (.recordExt conName spread trailing)
      (.record conName (entriesRow entries row))
      (.recordExt conName node row (nodes ++ entryNodes entries))
      ((nodes ++ entryNodes entries).map (·.2.2)) := by
  have hcount := (count_labels hlabels).mpr h.known
  have hdistinct : labels.Nodup := by
    rw [← hlabels]
    exact h.distinct
  have hlength : trailing.length = labels.length := by
    rw [← hlabels, List.length_map]
  have hnil := recordExt_entries_nil hnodes hentries hcount
  subst hnil
  obtain ⟨hclosed, hsame⟩ := h.spread
  constructor
  · have hnums := hnodes.map Prod.snd
    rw [List.map_map, List.zipIdx_map_snd] at hnums
    change List.Perm _ (List.range trailing.length)
    rw [hlength, List.range_eq_range']
    exact hnums
  · intro val m hm
    have hpick : ∀ l ∈ info.fields.map (·.1), pick val (nodes ++ entryNodes []) m l =
        some ((pick val (nodes ++ entryNodes []) m l).getD default) := by
      intro l hl
      rw [pick]
      split
      next => rfl
      next hlook =>
        rw [hinfo, ← hsame] at hl
        obtain ⟨v, hv⟩ := mem_labels_iff.mp (hm.has l hl)
        rw [hv]
        rfl
    refine ⟨_, _, _, elabRecordExt_meaning hpick, ?_, rfl, ?_, ?_⟩
    · change List.Perm _ (List.range trailing.length)
      rw [hinfo, hlength]
      exact (usedNumbers_perm_iff hnodes).mpr ⟨hdistinct, hcount⟩
    · rw [hinfo]
      constructor
      · intro l hl
        exact extended_labels.mpr ((hsame l).mp hl)
      · intro _ l hl
        exact (hsame l).mpr (extended_labels.mp hl)
    · rw [hinfo] at hpick ⊢
      constructor
      · intro i f hf
        have hlabel : labels[i]? = some f.label := by
          rw [← hlabels, List.getElem?_map]
          exact congrArg (Option.map FieldExpr.label) hf
        have hin := List.mem_of_getElem? hlabel
        have hlt := (List.getElem?_eq_some_iff.mp hlabel).1
        obtain ⟨oe, hoe⟩ := (lookupOverride_iff hnodes).mpr hin
        have hnum := lookupOverride_number hnodes hoe
        have hi := (List.getElem?_inj hlt hdistinct).mp (hlabel.trans hnum.symm)
        rw [lookup_fieldMap_map, if_pos (mem_of_count hcount hin), pick, hoe, hi]
        rfl
      · intro l hl
        have hnone : lookupOverride (nodes ++ entryNodes []) l = none := by
          cases hlook : lookupOverride (nodes ++ entryNodes []) l with
          | none => rfl
          | some oe =>
              have hin := (lookupOverride_iff hnodes).mp ⟨oe, hlook⟩
              rw [← hlabels] at hin
              obtain ⟨f, hf, rfl⟩ := List.mem_map.mp hin
              exact absurd rfl (hl f hf)
        by_cases hdecl : l ∈ declared
        · rw [lookup_fieldMap_map, if_pos hdecl, ← hpick l hdecl, pick, hnone]
        · rw [lookup_fieldMap_map, if_neg hdecl]
          cases hm' : m.lookup l with
          | none => rfl
          | some v =>
              have hin := hm.only hclosed l (mem_labels_iff.mpr ⟨v, hm'⟩)
              exact absurd ((hsame l).mp hin) hdecl

end Extension

variable {e : RecordExpr E} {ty : Ty} {node : RecordNode N} {log : List Nat}

theorem Accepted.faithful_iff (h : Accepted (info.fields.map (·.1)) e ty node log) :
    Faithful θ (some info) e ty node log ↔ Plain θ (info.fields.map (·.1)) e node := by
  cases h with
  | record conName fields entries exts hentries hdeclared hexts =>
      constructor
      · intro hfaithful
        have hnil := record_exts_nil rfl hentries (fun p hp => (hexts p hp).2) hfaithful
        subst hnil
        rw [List.append_nil] at hentries
        exact (record_plain_iff rfl hdeclared hentries).mp hfaithful.checked
      · intro hplain
        have hnil : exts = [] := by
          apply List.eq_nil_iff_forall_not_mem.mpr
          intro p hp
          obtain ⟨hin, hnot⟩ := hexts p hp
          exact hnot (mem_of_count ((count_labels rfl).mpr hplain.known) hin)
        subst hnil
        rw [List.append_nil] at hentries
        exact record_faithful rfl rfl hdeclared hentries hplain
  | recordExt conName spread trailing node row nodes entries hnodes hentries =>
      exact ⟨recordExt_plain rfl rfl hnodes hentries,
        recordExt_faithful rfl rfl hnodes hentries⟩

end Agreement

/-- The code of an accepted record expression agrees with the expression and with its type
exactly when no label is written twice, every written label is declared, once, and the
spread has just the declared labels. -/
theorem inferRecordWChecked_faithful_iff {E N : Type} (infer : E → TC (Ty × N)) (lvl : Int)
    (fuel : Nat) (sp : SourceSpan) (env : CheckEnv) (expected : Option Ty) (e : RecordExpr E)
    {s s' : TCState} {ty : Ty} {node : RecordNode N} {checked : List Nat}
    (h : inferRecordWChecked infer lvl fuel sp env expected e [] s =
      some (.ok ((ty, node), checked), s')) (θ : Nat → Ty) :
    Faithful θ (env.types.lookupRecordCon e.conName) e ty node checked ↔
      Plain θ ((env.declared e.conName).map (·.1)) e node := by
  obtain ⟨info, hinfo, haccepted⟩ := accepted_of_run h
  rw [CheckEnv.declared, hinfo]
  exact haccepted.faithful_iff

/-! ### A record with one declared field -/

section Cell

/-- `data Cell = Cell { x : U64 }`. -/
def cellEnv : CheckEnv where
  types := { cons := [], tyCons := [], recordCons := [("Cell", ⟨[("x", .con .u64 [])]⟩)] }
  rcParams _ := []

/-- A literal has the type `U64`. -/
def inferLiteral (n : Nat) : TC (Ty × Nat) := return (.con .u64 [], n)

def noCells : TCState := ⟨fun _ => .link .rowEmpty, 0, 0, []⟩

/-- `Cell { x : U64, y : U64 }`. -/
def wideCell : Ty :=
  .record "Cell" (.rowExtend "x" (.con .u64 []) (.rowExtend "y" (.con .u64 []) .rowEmpty))

/-- `Cell { x = 1, y = 2 }` is accepted at the type of a cell with one more field, and its
code drops that field. -/
theorem wideCell_drops : ∃ ty node checked s',
    inferRecordWChecked inferLiteral 0 9 none cellEnv (some wideCell)
      (.record "Cell" [⟨"x", 1⟩, ⟨"y", 2⟩]) [] noCells = some (.ok ((ty, node), checked), s') ∧
    ty = wideCell ∧
    ¬ Faithful .var (cellEnv.types.lookupRecordCon "Cell")
      (.record "Cell" [⟨"x", 1⟩, ⟨"y", 2⟩]) ty node checked := by
  refine ⟨_, _, _, _, rfl, rfl, ?_⟩
  intro h
  obtain ⟨is, fs, row, hbuilt, -, hrow, hhas, -⟩ := h.built (fun _ => default) [] rfl
  cases hbuilt
  cases hrow
  have hy := hhas.has "y" (by decide)
  exact absurd hy (by decide)

/-- `Cell { x = 1 }` has one field, and its code builds it. -/
theorem cell_faithful : Faithful .var (cellEnv.types.lookupRecordCon "Cell")
    (.record "Cell" [⟨"x", 1⟩]) (.record "Cell" (.rowExtend "x" (.con .u64 []) .rowEmpty))
    (.record "Cell" [("x", 1, 0)]) [0] :=
  (inferRecordWChecked_faithful_iff inferLiteral 0 9 none cellEnv none
    (.record "Cell" [⟨"x", 1⟩]) (s := noCells) rfl .var).mpr
    ⟨by decide, by decide, trivial⟩

end Cell

end Wok.IR
