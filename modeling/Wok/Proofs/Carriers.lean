/-
Module: Wok.Proofs.Carriers
Layer: Proofs
Purpose: The closure of the carrier flags marks the least sets that hold the declared
  carriers and what contains them, and an environment that is partly closed is closed to the
  same.
Imports: Wok.Spec.Carriers
Trusted boundary: none
Main exports: mem_carriers, mem_affines, carriers_least, affines_least, carrierClosure_idem,
  Grows, Marked, Partly, Partly.closed_eq
-/
import Wok.Spec.Carriers

namespace Wok.Proofs.Carriers

open Wok.TypeChecking Wok.Spec.Carriers
open Wok.Lib (Reaches grow)

variable {E : Type}

/-! ### The fields of a type constructor -/

mutual

theorem mentions_iff (s : Finset String) :
    ∀ t : CType, mentions s t = true ↔ ∃ m ∈ s, Contains m t
  | .con c args => by
      have hargs := mentionsAny_iff s args
      constructor
      · intro h
        have hcases : (∃ n, c = .user n ∧ n ∈ s) ∨ mentionsAny s args = true := by
          cases c <;> simp_all [mentions]
        rcases hcases with ⟨n, rfl, hn⟩ | hany
        · exact ⟨n, hn, .head⟩
        · obtain ⟨t, ht, m, hm, hin⟩ := hargs.mp hany
          exact ⟨m, hm, .arg ht hin⟩
      · rintro ⟨m, hm, hin⟩
        cases hin with
        | head => simp [mentions, hm]
        | arg ht hin =>
            have hany := hargs.mpr ⟨_, ht, m, hm, hin⟩
            cases c <;> simp [mentions, hany]
  | .record tag row => by
      rw [mentions, mentions_iff s row]
      constructor
      · rintro ⟨m, hm, hin⟩
        exact ⟨m, hm, .row hin⟩
      · rintro ⟨m, hm, hin⟩
        cases hin with
        | row hin => exact ⟨m, hm, hin⟩
  | .rowExtend l ft rest => by
      rw [mentions, Bool.or_eq_true, mentions_iff s ft, mentions_iff s rest]
      constructor
      · rintro (⟨m, hm, hin⟩ | ⟨m, hm, hin⟩)
        · exact ⟨m, hm, .field hin⟩
        · exact ⟨m, hm, .rest hin⟩
      · rintro ⟨m, hm, hin⟩
        cases hin with
        | field hin => exact .inl ⟨m, hm, hin⟩
        | rest hin => exact .inr ⟨m, hm, hin⟩
  | .arr .. => by
      rw [mentions]
      exact ⟨nofun, fun ⟨_, _, hin⟩ => nomatch hin⟩
  | .rowEmpty => by
      rw [mentions]
      exact ⟨nofun, fun ⟨_, _, hin⟩ => nomatch hin⟩
  | .gen _ => by
      rw [mentions]
      exact ⟨nofun, fun ⟨_, _, hin⟩ => nomatch hin⟩

theorem mentionsAny_iff (s : Finset String) :
    ∀ ts : List CType, mentionsAny s ts = true ↔ ∃ t ∈ ts, ∃ m ∈ s, Contains m t
  | [] => by simp [mentionsAny]
  | t :: ts => by
      rw [mentionsAny, Bool.or_eq_true, mentions_iff s t, mentionsAny_iff s ts,
        List.exists_mem_cons_iff]

end

/-- A field mentions a member exactly when the type constructor holds one. -/
theorem any_mentions_iff (env : Env E) (s : Finset String) (n : String) :
    (fieldTysOf env n).any (mentions s) = true ↔ ∃ m ∈ s, Holds env n m := by
  rw [List.any_eq_true]
  constructor
  · rintro ⟨t, ht, hmem⟩
    obtain ⟨m, hm, hin⟩ := (mentions_iff s t).mp hmem
    exact ⟨m, hm, t, ht, hin⟩
  · rintro ⟨m, hm, t, ht, hin⟩
    exact ⟨t, ht, (mentions_iff s t).mpr ⟨m, hm, hin⟩⟩

theorem mem_tyConNames {env : Env E} {n : String} :
    n ∈ tyConNames env ↔ (lookupTyCon n env).isSome := by
  rw [tyConNames, List.mem_toFinset, lookupTyCon, Dict.lookup_isSome_iff]

theorem mem_tyConsWhere {env : Env E} {p : Env.TyConInfo → Bool} {n : String} :
    n ∈ tyConsWhere p env ↔ ∃ info, lookupTyCon n env = some info ∧ p info = true := by
  rw [tyConsWhere, Finset.mem_filter, mem_tyConNames]
  cases lookupTyCon n env <;> simp

theorem holds_registered {env : Env E} {n m : String} (h : Holds env n m) :
    (lookupTyCon n env).isSome := by
  obtain ⟨t, ht, -⟩ := h
  rw [fieldTysOf] at ht
  split at ht
  · cases ht
  · rename_i heq
    rw [heq]
    rfl

/-! ### The growing sets -/

/-- `r` is `s` grown as far as it does. -/
structure Saturates (env : Env E) (s r : Finset String) : Prop where
  subset : s ⊆ r
  fixed : growSet env r = r
  reaches : ∀ base : String → Prop, (∀ n ∈ s, Reaches (Holds env) base n) →
    ∀ n ∈ r, Reaches (Holds env) base n

theorem growSet_reaches {env : Env E} {s : Finset String} {base : String → Prop}
    (h : ∀ n ∈ s, Reaches (Holds env) base n) :
    ∀ n ∈ growSet env s, Reaches (Holds env) base n := by
  refine Lib.grow_reaches (fun s n hjoin => ?_) h
  rw [joins, Bool.and_eq_true] at hjoin
  exact (any_mentions_iff env s n).mp hjoin.2

theorem Saturates.step {env : Env E} {s r : Finset String} (h : Saturates env (growSet env s) r) :
    Saturates env s r where
  subset := (Lib.subset_grow s).trans h.subset
  fixed := h.fixed
  reaches base hs := h.reaches base (growSet_reaches hs)

theorem fixpoint_saturates (env : Env E) (cs as : Finset String) :
    Saturates env cs (fixpoint env cs as).1 ∧ Saturates env as (fixpoint env cs as).2 := by
  fun_induction fixpoint env cs as with
  | case1 cs as cs' as' hsize =>
      exact ⟨⟨subset_rfl, Lib.grow_eq_of_card cs hsize.1, fun _ hs => hs⟩,
        ⟨subset_rfl, Lib.grow_eq_of_card as hsize.2, fun _ hs => hs⟩⟩
  | case2 cs as cs' as' hsize ih => exact ⟨ih.1.step, ih.2.step⟩

theorem Saturates.mem_iff {env : Env E} {s r : Finset String} (h : Saturates env s r)
    {base : String → Prop} (hs : ∀ n, n ∈ s ↔ base n) (n : String) :
    n ∈ r ↔ Reaches (Holds env) base n := by
  refine Lib.mem_iff_reaches (p := joins env) (fun a b hb hab ha => ?_)
    (fun a ha => h.subset ((hs a).mpr ha))
    (h.reaches base fun a ha => .of_start ((hs a).mp ha)) h.fixed n
  have hany := (any_mentions_iff env r a).mpr ⟨b, hb, hab⟩
  exact ⟨mem_tyConNames.mpr (holds_registered hab), by simp [joins, ha, hany]⟩

theorem mem_carriers (env : Env E) (n : String) :
    n ∈ (carrierSets env).1 ↔ Reaches (Holds env) (DeclaredCarrier env) n :=
  (fixpoint_saturates env _ _).1.mem_iff (fun _ => mem_tyConsWhere) n

theorem mem_affines (env : Env E) (n : String) :
    n ∈ (carrierSets env).2 ↔ Reaches (Holds env) (DeclaredAffine env) n :=
  (fixpoint_saturates env _ _).2.mem_iff
    (fun _ => by simp only [mem_tyConsWhere, Bool.and_eq_true, DeclaredAffine]) n

/-- The affine carriers are carriers. -/
theorem affines_subset (env : Env E) : (carrierSets env).2 ⊆ (carrierSets env).1 := by
  intro n hn
  rw [mem_affines] at hn
  rw [mem_carriers]
  exact hn.mono (fun _ _ h => h) fun _ ⟨info, hinfo, hcar, _⟩ => ⟨info, hinfo, hcar⟩

/-! ### The marked entries -/

theorem lookup_carrierClosure (env : Env E) (n : String) :
    lookupTyCon n (carrierClosure env) =
      (lookupTyCon n env).map (markTyCon (carrierSets env).1 (carrierSets env).2 n) :=
  Dict.lookup_mapWithKey (markTyCon (carrierSets env).1 (carrierSets env).2) env.tyCons n

theorem carrierClosure_isSome (env : Env E) (n : String) :
    (lookupTyCon n (carrierClosure env)).isSome = (lookupTyCon n env).isSome := by
  rw [lookup_carrierClosure, Option.isSome_map]

theorem reaches_registered {env : Env E} {base : String → Prop}
    (hbase : ∀ n, base n → (lookupTyCon n env).isSome) {n : String}
    (h : Reaches (Holds env) base n) : (lookupTyCon n env).isSome :=
  Reaches.induction (motive := fun n => (lookupTyCon n env).isSome) hbase
    (fun _ _ hab _ _ => holds_registered hab) h

/-- The flags of the closed environment are the two sets. -/
theorem declaredCarrier_closure (env : Env E) (n : String) :
    DeclaredCarrier (carrierClosure env) n ↔ n ∈ (carrierSets env).1 := by
  constructor
  · rintro ⟨info, hinfo, hcar⟩
    rw [lookup_carrierClosure] at hinfo
    obtain ⟨info₀, hinfo₀, rfl⟩ := Option.map_eq_some_iff.mp hinfo
    rw [markTyCon] at hcar
    split at hcar
    · assumption
    · exact (mem_carriers env n).mpr (.of_start ⟨info₀, hinfo₀, hcar⟩)
  · intro hn
    have hreg := reaches_registered (fun n ⟨info, hinfo, _⟩ => by rw [hinfo]; rfl)
      ((mem_carriers env n).mp hn)
    obtain ⟨info, hinfo⟩ := Option.isSome_iff_exists.mp hreg
    refine ⟨markTyCon (carrierSets env).1 (carrierSets env).2 n info, ?_, ?_⟩
    · rw [lookup_carrierClosure, hinfo]
      rfl
    · rw [markTyCon, if_pos hn]

theorem declaredAffine_closure (env : Env E) (n : String) :
    DeclaredAffine (carrierClosure env) n ↔ n ∈ (carrierSets env).2 := by
  constructor
  · rintro ⟨info, hinfo, hcar, haff⟩
    have hn := (declaredCarrier_closure env n).mp ⟨info, hinfo, hcar⟩
    rw [lookup_carrierClosure] at hinfo
    obtain ⟨info₀, hinfo₀, rfl⟩ := Option.map_eq_some_iff.mp hinfo
    rw [markTyCon, if_pos hn] at haff
    exact of_decide_eq_true haff
  · intro hn
    have hcar := affines_subset env hn
    obtain ⟨info, hinfo, hflag⟩ := (declaredCarrier_closure env n).mpr hcar
    refine ⟨info, hinfo, hflag, ?_⟩
    rw [lookup_carrierClosure] at hinfo
    obtain ⟨info₀, -, rfl⟩ := Option.map_eq_some_iff.mp hinfo
    rw [markTyCon, if_pos hcar]
    exact decide_eq_true hn

theorem markTyCon_idem (cs as : Finset String) (n : String) (info : Env.TyConInfo) :
    markTyCon cs as n (markTyCon cs as n info) = markTyCon cs as n info := by
  by_cases hn : n ∈ cs
  · simp only [markTyCon, if_pos hn]
  · simp only [markTyCon, if_neg hn]

/-- Marking changes the flags only. -/
theorem markTyCon_cons (cs as : Finset String) (n : String) (info : Env.TyConInfo) :
    (markTyCon cs as n info).cons = info.cons := by
  rw [markTyCon]
  split <;> rfl

theorem fieldTysOf_closure (env : Env E) (n : String) :
    fieldTysOf (carrierClosure env) n = fieldTysOf env n := by
  rw [fieldTysOf, fieldTysOf, lookup_carrierClosure]
  cases lookupTyCon n env with
  | none => rfl
  | some info =>
      simp only [Option.map_some, markTyCon_cons]
      rfl

/-- Closing again finds the same sets. -/
theorem carrierSets_closure (env : Env E) :
    carrierSets (carrierClosure env) = carrierSets env := by
  have hholds : Holds (carrierClosure env) = Holds env := by
    funext n m
    rw [Holds, Holds, fieldTysOf_closure]
  apply Prod.ext
  · ext n
    rw [mem_carriers, hholds]
    constructor
    · intro h
      refine (mem_carriers env n).mpr (h.absorb fun m hm => ?_)
      exact (mem_carriers env m).mp ((declaredCarrier_closure env m).mp hm)
    · intro hn
      exact .of_start ((declaredCarrier_closure env n).mpr hn)
  · ext n
    rw [mem_affines, hholds]
    constructor
    · intro h
      refine (mem_affines env n).mpr (h.absorb fun m hm => ?_)
      exact (mem_affines env m).mp ((declaredAffine_closure env m).mp hm)
    · intro hn
      exact .of_start ((declaredAffine_closure env n).mpr hn)

theorem carrierClosure_idem (env : Env E) :
    carrierClosure (carrierClosure env) = carrierClosure env := by
  rw [carrierClosure, carrierSets_closure]
  simp only [carrierClosure, List.map_map]
  congr 1
  apply List.map_congr_left
  rintro ⟨n, info⟩ -
  simp only [Function.comp, markTyCon_idem]

theorem carriers_least (env : Env E) :
    HoldsLeast env (DeclaredCarrier env) {n | DeclaredCarrier (carrierClosure env) n} := by
  have hset : {n | DeclaredCarrier (carrierClosure env) n} =
      {n | Reaches (Holds env) (DeclaredCarrier env) n} := by
    ext n
    exact (declaredCarrier_closure env n).trans (mem_carriers env n)
  rw [hset]
  exact Lib.reaches_isLeast (Holds env) (DeclaredCarrier env)

theorem affines_least (env : Env E) :
    HoldsLeast env (DeclaredAffine env) {n | DeclaredAffine (carrierClosure env) n} := by
  have hset : {n | DeclaredAffine (carrierClosure env) n} =
      {n | Reaches (Holds env) (DeclaredAffine env) n} := by
    ext n
    exact (declaredAffine_closure env n).trans (mem_affines env n)
  rw [hset]
  exact Lib.reaches_isLeast (Holds env) (DeclaredAffine env)

/-! ### Environments that grow -/

/-- What a type constructor holds and is declared as stays. -/
structure Grows (env env' : Env E) : Prop where
  holds : ∀ n m, Holds env n m → Holds env' n m
  carrier : ∀ n, DeclaredCarrier env n → DeclaredCarrier env' n
  affine : ∀ n, DeclaredAffine env n → DeclaredAffine env' n

theorem Grows.mem_carriers {env env' : Env E} (h : Grows env env') {n : String}
    (hn : n ∈ (carrierSets env).1) : n ∈ (carrierSets env').1 := by
  rw [Carriers.mem_carriers] at *
  exact hn.mono h.holds h.carrier

theorem Grows.mem_affines {env env' : Env E} (h : Grows env env') {n : String}
    (hn : n ∈ (carrierSets env).2) : n ∈ (carrierSets env').2 := by
  rw [Carriers.mem_affines] at *
  exact hn.mono h.holds h.affine

theorem holds_of_lookup {env : Env E} {n m : String} {info : Env.TyConInfo}
    (hn : lookupTyCon n env = some info) :
    Holds env n m ↔ ∃ k ∈ info.cons, ∃ ci, lookupCon k env = some ci ∧
      ∃ t ∈ conFieldTys ci.arity ci.scheme.body, Contains m t := by
  rw [Holds, fieldTysOf, hn]
  simp only [List.mem_flatMap]
  constructor
  · rintro ⟨t, ⟨k, hk, ht⟩, hin⟩
    rw [positionalFields] at ht
    split at ht
    · exact ⟨k, hk, _, ‹_›, t, ht, hin⟩
    · cases ht
  · rintro ⟨k, hk, ci, hci, t, ht, hin⟩
    refine ⟨t, ⟨k, hk, ?_⟩, hin⟩
    rw [positionalFields, hci]
    exact ht

/-- Environments grow where constructors are kept and entries keep their flags and
constructors. -/
theorem Grows.of_lookups {env env' : Env E}
    (hcons : ∀ k ci, lookupCon k env = some ci → lookupCon k env' = some ci)
    (htys : ∀ n info, lookupTyCon n env = some info → ∃ info', lookupTyCon n env' = some info' ∧
      info'.carrier = info.carrier ∧ info'.affine = info.affine ∧ info.cons ⊆ info'.cons) :
    Grows env env' := by
  constructor
  · intro n m h
    obtain ⟨info, hinfo⟩ := Option.isSome_iff_exists.mp (holds_registered h)
    obtain ⟨info', hinfo', -, -, hsub⟩ := htys n info hinfo
    obtain ⟨k, hk, ci, hci, hfield⟩ := (holds_of_lookup hinfo).mp h
    exact (holds_of_lookup hinfo').mpr ⟨k, hsub hk, ci, hcons k ci hci, hfield⟩
  · rintro n ⟨info, hinfo, hcar⟩
    obtain ⟨info', hinfo', hcar', -, -⟩ := htys n info hinfo
    exact ⟨info', hinfo', hcar'.trans hcar⟩
  · rintro n ⟨info, hinfo, hcar, haff⟩
    obtain ⟨info', hinfo', hcar', haff', -⟩ := htys n info hinfo
    exact ⟨info', hinfo', hcar'.trans hcar, haff'.trans haff⟩

theorem partOf_grows {env whole : Env E} (h : PartOf env whole) : Grows env whole :=
  .of_lookups h.cons fun n info hn =>
    ⟨info, h.tyCons n info hn, rfl, rfl, List.Subset.refl info.cons⟩

/-! ### Partly closed environments -/

/-- `j` is the entry `i` of a type constructor, marked no further than closing does. -/
structure Marked (raw : Env E) (n : String) (i j : Env.TyConInfo) : Prop where
  same : { j with carrier := i.carrier, affine := i.affine } = i
  declared : i.carrier = true → j.carrier = true
  plain : j.carrier = false → j = i
  carrier : j.carrier = true → n ∈ (carrierSets raw).1
  affine : i.carrier = true → i.affine = true → j.affine = true
  mem_affines : j.carrier = true → j.affine = true → n ∈ (carrierSets raw).2

/-- The right environment is the left one with some of the marks of its closure. -/
structure Partly (raw closed : Env E) : Prop where
  cons : closed.cons = raw.cons
  isSome : ∀ n, (lookupTyCon n closed).isSome = (lookupTyCon n raw).isSome
  marked : ∀ n i j, lookupTyCon n raw = some i → lookupTyCon n closed = some j → Marked raw n i j

theorem Marked.refl {raw : Env E} {n : String} {i : Env.TyConInfo}
    (h : lookupTyCon n raw = some i) : Marked raw n i i where
  same := rfl
  declared hcar := hcar
  plain _ := rfl
  carrier hcar := (mem_carriers raw n).mpr (.of_start ⟨i, h, hcar⟩)
  affine _ haff := haff
  mem_affines hcar haff := (Carriers.mem_affines raw n).mpr (.of_start ⟨i, h, hcar, haff⟩)

theorem Marked.mono {raw raw' : Env E} {n : String} {i j : Env.TyConInfo} (h : Marked raw n i j)
    (hg : Grows raw raw') : Marked raw' n i j where
  same := h.same
  declared := h.declared
  plain := h.plain
  carrier hcar := hg.mem_carriers (h.carrier hcar)
  affine := h.affine
  mem_affines hcar haff := hg.mem_affines (h.mem_affines hcar haff)

theorem Marked.cons {raw : Env E} {n : String} {i j : Env.TyConInfo} (h : Marked raw n i j) :
    j.cons = i.cons := by
  have hsame := congrArg Env.TyConInfo.cons h.same
  exact hsame

theorem Partly.refl (env : Env E) : Partly env env where
  cons := rfl
  isSome _ := rfl
  marked n i j hi hj := by
    obtain rfl := Option.some.inj (hi.symm.trans hj)
    exact .refl hi

theorem Partly.lookupCon {raw closed : Env E} (h : Partly raw closed) (k : String) :
    lookupCon k closed = lookupCon k raw := by
  rw [TypeChecking.lookupCon, TypeChecking.lookupCon, h.cons]

/-- The entries of both environments. -/
theorem Partly.entry {raw closed : Env E} (h : Partly raw closed) {n : String}
    {j : Env.TyConInfo} (hj : lookupTyCon n closed = some j) :
    ∃ i, lookupTyCon n raw = some i ∧ Marked raw n i j := by
  have hsome := h.isSome n
  rw [hj] at hsome
  obtain ⟨i, hi⟩ := Option.isSome_iff_exists.mp hsome.symm
  exact ⟨i, hi, h.marked n i j hi hj⟩

theorem Partly.entry_raw {raw closed : Env E} (h : Partly raw closed) {n : String}
    {i : Env.TyConInfo} (hi : lookupTyCon n raw = some i) :
    ∃ j, lookupTyCon n closed = some j ∧ Marked raw n i j := by
  have hsome := h.isSome n
  rw [hi] at hsome
  obtain ⟨j, hj⟩ := Option.isSome_iff_exists.mp hsome
  exact ⟨j, hj, h.marked n i j hi hj⟩

theorem Partly.holds {raw closed : Env E} (h : Partly raw closed) :
    Holds closed = Holds raw := by
  funext n m
  apply propext
  constructor
  · intro hh
    obtain ⟨j, hj⟩ := Option.isSome_iff_exists.mp (holds_registered hh)
    obtain ⟨i, hi, hmark⟩ := h.entry hj
    rw [holds_of_lookup hj, hmark.cons] at hh
    simp only [h.lookupCon] at hh
    exact (holds_of_lookup hi).mpr hh
  · intro hh
    obtain ⟨i, hi⟩ := Option.isSome_iff_exists.mp (holds_registered hh)
    obtain ⟨j, hj, hmark⟩ := h.entry_raw hi
    rw [holds_of_lookup hi, ← hmark.cons] at hh
    rw [holds_of_lookup hj]
    simpa only [h.lookupCon] using hh

/-- Closing either environment finds the same sets. -/
theorem Partly.carrierSets {raw closed : Env E} (h : Partly raw closed) :
    carrierSets closed = TypeChecking.carrierSets raw := by
  apply Prod.ext
  · ext n
    rw [mem_carriers, h.holds]
    constructor
    · intro hn
      refine (mem_carriers raw n).mpr (hn.absorb ?_)
      rintro m ⟨j, hj, hcar⟩
      obtain ⟨i, -, hmark⟩ := h.entry hj
      exact (mem_carriers raw m).mp (hmark.carrier hcar)
    · intro hn
      refine ((mem_carriers raw n).mp hn).mono (fun _ _ hh => hh) ?_
      rintro m ⟨i, hi, hcar⟩
      obtain ⟨j, hj, hmark⟩ := h.entry_raw hi
      exact ⟨j, hj, hmark.declared hcar⟩
  · ext n
    rw [mem_affines, h.holds]
    constructor
    · intro hn
      refine (mem_affines raw n).mpr (hn.absorb ?_)
      rintro m ⟨j, hj, hcar, haff⟩
      obtain ⟨i, -, hmark⟩ := h.entry hj
      exact (mem_affines raw m).mp (hmark.mem_affines hcar haff)
    · intro hn
      refine ((mem_affines raw n).mp hn).mono (fun _ _ hh => hh) ?_
      rintro m ⟨i, hi, hcar, haff⟩
      obtain ⟨j, hj, hmark⟩ := h.entry_raw hi
      exact ⟨j, hj, hmark.declared hcar, hmark.affine hcar haff⟩

/-- An entry and its partly marked one are closed to the same. -/
theorem Marked.closed_eq {raw : Env E} {n : String} {i j : Env.TyConInfo}
    (h : Marked raw n i j) :
    markTyCon (carrierSets raw).1 (carrierSets raw).2 n j =
      markTyCon (carrierSets raw).1 (carrierSets raw).2 n i := by
  by_cases hn : n ∈ (carrierSets raw).1
  · simp only [markTyCon, if_pos hn]
    rw [← h.same]
  · have hplain : j = i := by
      apply h.plain
      by_contra hcar
      exact hn (h.carrier (by simpa using hcar))
    rw [hplain]

/-- Closing a partly closed environment is closing the one that was never closed. -/
theorem Partly.closed_eq {raw closed : Env E} (h : Partly raw closed) (n : String) :
    lookupTyCon n (carrierClosure closed) = lookupTyCon n (carrierClosure raw) := by
  rw [lookup_carrierClosure, lookup_carrierClosure, h.carrierSets]
  have hsome := h.isSome n
  cases hi : lookupTyCon n raw with
  | none =>
      rw [hi, Option.isSome_none, Option.isSome_eq_false_iff, Option.isNone_iff_eq_none] at hsome
      rw [hsome]
  | some i =>
      obtain ⟨j, hj, hmark⟩ := h.entry_raw hi
      rw [hj, Option.map_some, Option.map_some, hmark.closed_eq]

/-- Closing marks no further than closing does. -/
theorem Partly.close {raw closed : Env E} (h : Partly raw closed) :
    Partly raw (carrierClosure closed) where
  cons := h.cons
  isSome n := (carrierClosure_isSome closed n).trans (h.isSome n)
  marked n i j hi hj := by
    rw [h.closed_eq, lookup_carrierClosure, hi, Option.map_some] at hj
    obtain rfl := Option.some.inj hj
    by_cases hn : n ∈ (TypeChecking.carrierSets raw).1
    · rw [markTyCon, if_pos hn]
      constructor
      · rfl
      · exact fun _ => rfl
      · exact fun hcar => nomatch hcar
      · exact fun _ => hn
      · intro hcar haff
        exact decide_eq_true ((mem_affines raw n).mpr (.of_start ⟨i, hi, hcar, haff⟩))
      · exact fun _ haff => of_decide_eq_true haff
    · rw [markTyCon, if_neg hn]
      exact .refl hi

end Wok.Proofs.Carriers
