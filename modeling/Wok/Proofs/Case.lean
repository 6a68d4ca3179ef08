/-
Module: Wok.Proofs.Case
Layer: Proofs
Purpose: The two translations of a pattern: that of the match compiler keeps what
  matches and with which parts, and the alternative of the flat route selects,
  tests and binds as the pattern says, short of records.
Imports: Wok.Proofs.Match
Trusted boundary: none
Main exports: toMPat_spec, elabPat_spec
-/
import Wok.Proofs.Match

namespace Wok.Proofs.Case

open Wok.IR Wok.Interp Wok.Spec.Match Wok.Proofs.Match
open Wok.TypeChecking

/-! ### The oracle -/

section Oracle

variable {env : TypeEnv}

theorem tupleArity_tupleTag (n : Nat) : buildOracle.tupleArity (tupleTag n) = some n := by
  have hlist : (tupleTag n).toList = "Tuple".toList ++ Nat.toDigits 10 n := by
    rw [tupleTag, String.toList_append, Nat.toString_eq_repr, Nat.toList_repr]
  have hdigits : (Nat.toDigits 10 n).all Char.isDigit = true := by
    rw [List.all_eq_true]
    exact fun c hc => Nat.isDigit_of_mem_toDigits (by decide) (by decide) hc
  have hval : (Nat.toDigits 10 n).foldl (fun n c => 10 * n + (c.toNat - '0'.toNat)) 0 = n := by
    have := Nat.ofDigitChars_ten_toDigits (n := n)
    rwa [Nat.ofDigitChars_eq_foldl] at this
  have hdrop : (tupleTag n).toList.drop 5 = Nat.toDigits 10 n := by
    rw [hlist]
    rfl
  have htake : (tupleTag n).toList.take 5 = "Tuple".toList := by
    rw [hlist]
    rfl
  unfold buildOracle.tupleArity
  rw [hdrop, htake]
  rw [if_pos ⟨rfl, Nat.toDigits_ne_nil, hdigits⟩, hval]

theorem oracle_con {c : String} {ci : ConInfo} (h : env.lookupCon c = some ci) :
    (buildOracle env).coArity c = ci.arity ∧
      (buildOracle env).coSiblings c = siblings env c := by
  simp [buildOracle, siblings, h]

theorem oracle_tuple {n : Nat} (h : env.lookupCon (tupleTag n) = none) :
    (buildOracle env).coArity (tupleTag n) = n ∧
      (buildOracle env).coSiblings (tupleTag n) = some [tupleTag n] := by
  simp [buildOracle, h, tupleArity_tupleTag]

theorem oracle_nil (h : env.lookupCon "Nil" = none) :
    (buildOracle env).coArity "Nil" = 0 ∧
      (buildOracle env).coSiblings "Nil" = some ["Nil", "Cons"] := by
  have harity : buildOracle.tupleArity "Nil" = none := by decide
  simp [buildOracle, h, harity]

theorem oracle_cons (h : env.lookupCon "Cons" = none) :
    (buildOracle env).coArity "Cons" = 2 ∧
      (buildOracle env).coSiblings "Cons" = some ["Nil", "Cons"] := by
  have harity : buildOracle.tupleArity "Cons" = none := by decide
  simp [buildOracle, h, harity]

end Oracle

/-! ### Patterns of the match compiler -/

/-- What the translation of a pattern keeps: its variables, and, for a value of
its type, whether it matches and with which parts. A record is of no type that the
oracle knows. -/
structure Translates (env : TypeEnv) (p : TPat) (m : MPat) : Prop where
  wellFormed : m.wellFormed (buildOracle env) = true
  vars : m.vars = patNames p
  fits : ∀ v, p.fits env v = true → hitsRecord env p v = false →
    m.fits (buildOracle env) v = true
  matches_eq : ∀ v, p.fits env v = true → m.matches v = p.matches env v
  parts : ∀ v, p.fits env v = true → p.matches env v = true → m.parts v = p.parts env v

/-- The same for the fields of a constructor. -/
structure TranslatesAll (env : TypeEnv) (ps : List TPat) (ms : List MPat) : Prop where
  length : ms.length = ps.length
  wellFormed : MPat.wellFormedAll (buildOracle env) ms = true
  vars : MPat.varsAll ms = (clauseVars ps).map (·.1)
  fits : ∀ vs, fitsAll env ps vs = true → anyHitsRecord env ps vs = false →
    MPat.fitsAll (buildOracle env) ms vs = true
  matches_eq : ∀ vs, fitsAll env ps vs = true → MPat.matchesAll ms vs = matchesAll env ps vs
  parts : ∀ vs, fitsAll env ps vs = true → matchesAll env ps vs = true →
    MPat.partsAll ms vs = partsAll env ps vs

section Translate

variable {env : TypeEnv}

theorem fitsAll_length {ps : List TPat} {vs : List Value} (h : fitsAll env ps vs = true) :
    vs.length = ps.length := by
  induction ps generalizing vs with
  | nil =>
      rcases vs with _ | _
      · rfl
      · simp [fitsAll] at h
  | cons p ps ih =>
      rcases vs with _ | ⟨v, vs⟩
      · simp [fitsAll] at h
      · simp only [fitsAll, Bool.and_eq_true] at h
        simp [ih h.2]

theorem TranslatesAll.nil : TranslatesAll env [] [] where
  length := rfl
  wellFormed := rfl
  vars := rfl
  fits vs h _ := by
    rcases vs with _ | _
    · rfl
    · simp [fitsAll] at h
  matches_eq vs h := by
    rcases vs with _ | _
    · rfl
    · simp [fitsAll] at h
  parts vs h _ := by
    rcases vs with _ | _
    · rfl
    · simp [fitsAll] at h

theorem TranslatesAll.cons {p : TPat} {ps : List TPat} {m : MPat} {ms : List MPat}
    (hp : Translates env p m) (hps : TranslatesAll env ps ms) :
    TranslatesAll env (p :: ps) (m :: ms) where
  length := by rw [List.length_cons, List.length_cons, hps.length]
  wellFormed := by rw [MPat.wellFormedAll, hp.wellFormed, hps.wellFormed]; rfl
  vars := by rw [MPat.varsAll, hp.vars, hps.vars, clauseVars, List.map_append, patNames]
  fits vs h hr := by
    rcases vs with _ | ⟨v, vs⟩
    · simp [fitsAll] at h
    · simp only [fitsAll, Bool.and_eq_true] at h
      simp only [anyHitsRecord, Bool.or_eq_false_iff] at hr
      rw [MPat.fitsAll, hp.fits v h.1 hr.1, hps.fits vs h.2 hr.2]
      rfl
  matches_eq vs h := by
    rcases vs with _ | ⟨v, vs⟩
    · simp [fitsAll] at h
    · simp only [fitsAll, Bool.and_eq_true] at h
      rw [MPat.matchesAll, matchesAll, hp.matches_eq v h.1, hps.matches_eq vs h.2]
  parts vs h hm := by
    rcases vs with _ | ⟨v, vs⟩
    · simp [fitsAll] at h
    · simp only [fitsAll, Bool.and_eq_true] at h
      simp only [matchesAll, Bool.and_eq_true] at hm
      rw [MPat.partsAll, partsAll, hp.parts v h.1 hm.1, hps.parts vs h.2 hm.2]

/-- A record is built by no positional constructor. -/
theorem ne_of_record {ty : CType} {c c' : String} {ps : List TPat}
    {fields : List (String × Value)} (hrecord : env.lookupRecordCon c = none)
    (h : (TPat.con ty c ps).fits env (.record c' fields) = true) : c' ≠ c := by
  rintro rfl
  simp [TPat.fits, isRecordConName, hrecord] at h

/-- A constructor of the environment. -/
theorem Translates.con {c : String} {ps : List TPat} {ms : List MPat} {ci : ConInfo}
    (ty : CType) (hrecord : env.lookupRecordCon c = none) (hc : env.lookupCon c = some ci)
    (harity : ci.arity = ps.length) (hps : TranslatesAll env ps ms) :
    Translates env (.con ty c ps) (.con ty c ms) where
  wellFormed := by
    rw [MPat.wellFormed, hps.wellFormed, (oracle_con hc).1, hps.length, harity]
    simp
  vars := by rw [MPat.vars, hps.vars, patNames, patVars]
  fits v h hr := by
    cases v with
    | con c' vs =>
        simp only [TPat.fits, builtBy, Bool.and_eq_true, Bool.or_eq_true] at h
        simp only [hitsRecord, Bool.and_eq_false_iff, Bool.or_eq_false_iff] at hr
        rcases Option.any_eq_true _ _ |>.mp h.1.1 with ⟨ci', hc', hlen⟩
        have hlen' : ci'.arity = vs.length := by simpa using hlen
        rw [MPat.fits, (oracle_con hc).2, (oracle_con hc').1, hlen', h.1.2]
        by_cases heq : c' = c
        · have hfit : fitsAll env ps vs = true := by simpa [heq] using h.2
          have hfields := (hr.resolve_left (by simp [heq])).2
          rw [hps.fits vs hfit hfields]
          simp
        · simp [heq]
    | record c' fields => cases hr
    | _ => simp [TPat.fits] at h
  matches_eq v h := by
    cases v with
    | con c' vs =>
        simp only [TPat.fits, Bool.and_eq_true, Bool.or_eq_true] at h
        rw [MPat.matches, TPat.matches]
        rcases h.2 with hne | hfit
        · have : (c' == c) = false := by simpa using hne
          rw [this]
          rfl
        · rw [hps.matches_eq vs hfit]
    | record c' fields =>
        rw [TPat.matches, beq_false_of_ne (ne_of_record hrecord h)]
        rfl
    | _ => simp [TPat.fits] at h
  parts v h hm := by
    cases v with
    | con c' vs =>
        simp only [TPat.fits, Bool.and_eq_true, Bool.or_eq_true] at h
        simp only [TPat.matches, Bool.and_eq_true, beq_iff_eq] at hm
        rcases h.2 with hne | hfit
        · simp [hm.1] at hne
        · rw [MPat.parts, TPat.parts, hps.parts vs hfit hm.2]
    | record c' fields =>
        simp only [TPat.matches, Bool.and_eq_true, beq_iff_eq] at hm
        exact absurd hm.1 (ne_of_record hrecord h)
    | _ => simp [TPat.fits] at h

theorem Translates.tuple {ps : List TPat} {ms : List MPat} (ty : CType)
    (htag : env.lookupCon (tupleTag ps.length) = none) (hps : TranslatesAll env ps ms) :
    Translates env (.tuple ty ps) (.con ty (tupleTag ps.length) ms) where
  wellFormed := by
    rw [MPat.wellFormed, hps.wellFormed, (oracle_tuple htag).1, hps.length]
    simp
  vars := by rw [MPat.vars, hps.vars, patNames, patVars]
  fits v h hr := by
    cases v with
    | con c vs =>
        simp only [TPat.fits, Bool.and_eq_true, beq_iff_eq] at h
        have hlen := fitsAll_length h.2
        rw [h.1, MPat.fits, (oracle_tuple htag).1, (oracle_tuple htag).2, hps.fits vs h.2 hr, hlen]
        simp
    | _ => simp [TPat.fits] at h
  matches_eq v h := by
    cases v with
    | con c vs =>
        simp only [TPat.fits, Bool.and_eq_true] at h
        rw [MPat.matches, TPat.matches, hps.matches_eq vs h.2]
    | _ => simp [TPat.fits] at h
  parts v h hm := by
    cases v with
    | con c vs =>
        simp only [TPat.fits, Bool.and_eq_true] at h
        simp only [TPat.matches, Bool.and_eq_true] at hm
        rw [MPat.parts, TPat.parts, hps.parts vs h.2 hm.2]
    | _ => simp [TPat.fits] at h

theorem fits_nil_inv {ty : CType} {v : Value} (h : (TPat.list ty []).fits env v = true) :
    v = .con "Nil" [] ∨ ∃ hd tl, v = .con "Cons" [hd, tl] := by
  simp only [TPat.fits, fitsList] at h
  split at h
  · exact .inl rfl
  · exact .inr ⟨_, _, rfl⟩
  · cases h

theorem fits_cons_inv {ty : CType} {p q : TPat} {v : Value}
    (h : (TPat.cons ty p q).fits env v = true) :
    v = .con "Nil" [] ∨
      ∃ hd tl, v = .con "Cons" [hd, tl] ∧ p.fits env hd = true ∧ q.fits env tl = true := by
  simp only [TPat.fits] at h
  split at h
  · exact .inl rfl
  · rw [Bool.and_eq_true] at h
    exact .inr ⟨_, _, rfl, h⟩
  · cases h

theorem Translates.nil (ty : CType) (hnil : env.lookupCon "Nil" = none)
    (hcons : env.lookupCon "Cons" = none) :
    Translates env (.list ty []) (.con ty "Nil" []) where
  wellFormed := by
    rw [MPat.wellFormed, (oracle_nil hnil).1]
    rfl
  vars := rfl
  fits v h _ := by
    rcases fits_nil_inv h with rfl | ⟨hd, tl, rfl⟩
    · rw [MPat.fits, (oracle_nil hnil).1, (oracle_nil hnil).2]
      rfl
    · rw [MPat.fits, (oracle_cons hcons).1, (oracle_nil hnil).2]
      rfl
  matches_eq v h := by
    rcases fits_nil_inv h with rfl | ⟨hd, tl, rfl⟩
    · rfl
    · rfl
  parts v h _ := by
    rcases fits_nil_inv h with rfl | ⟨hd, tl, rfl⟩
    · rfl
    · rfl

theorem Translates.cons {p q : TPat} {m m' : MPat} (ty : CType)
    (hnil : env.lookupCon "Nil" = none) (hcons : env.lookupCon "Cons" = none)
    (hp : Translates env p m) (hq : Translates env q m') :
    Translates env (.cons ty p q) (.con ty "Cons" [m, m']) where
  wellFormed := by
    rw [MPat.wellFormed, (oracle_cons hcons).1, MPat.wellFormedAll, hp.wellFormed,
      MPat.wellFormedAll, hq.wellFormed]
    rfl
  vars := by
    rw [MPat.vars, MPat.varsAll, MPat.varsAll, MPat.varsAll, hp.vars, hq.vars, List.append_nil,
      patNames, patNames, patNames, patVars, List.map_append]
  fits v h hr := by
    rcases fits_cons_inv h with rfl | ⟨hd, tl, rfl, hhd, htl⟩
    · rw [MPat.fits, (oracle_nil hnil).1, (oracle_cons hcons).2]
      rfl
    · simp only [hitsRecord, Bool.or_eq_false_iff] at hr
      rw [MPat.fits, (oracle_cons hcons).1, (oracle_cons hcons).2, MPat.fitsAll,
        hp.fits hd hhd hr.1, MPat.fitsAll, hq.fits tl htl hr.2]
      rfl
  matches_eq v h := by
    rcases fits_cons_inv h with rfl | ⟨hd, tl, rfl, hhd, htl⟩
    · rfl
    · simp [MPat.matches, TPat.matches, MPat.matchesAll, hp.matches_eq hd hhd,
        hq.matches_eq tl htl]
  parts v h hm := by
    rcases fits_cons_inv h with rfl | ⟨hd, tl, rfl, hhd, htl⟩
    · cases hm
    · simp only [TPat.matches, Bool.and_eq_true] at hm
      simp [MPat.parts, TPat.parts, MPat.partsAll, hp.parts hd hhd hm.1, hq.parts tl htl hm.2]

theorem Translates.as {p : TPat} {m : MPat} (ty : CType) (x : String)
    (hp : Translates env p m) : Translates env (.as ty x p) (.as ty x m) where
  wellFormed := by rw [MPat.wellFormed, hp.wellFormed]
  vars := by rw [MPat.vars, hp.vars, patNames, patNames, patVars, List.map_cons]
  fits v h hr := by
    rw [TPat.fits] at h
    rw [MPat.fits, hp.fits v h hr]
  matches_eq v h := by
    rw [TPat.fits] at h
    rw [MPat.matches, TPat.matches, hp.matches_eq v h]
  parts v h hm := by
    rw [TPat.fits] at h
    rw [TPat.matches] at hm
    rw [MPat.parts, TPat.parts, hp.parts v h hm]

theorem Translates.lit {p : TPat} {l : Lit} (ty : CType) (hvars : patVars p = [])
    (hmatches : ∀ v, (MPat.lit ty l).matches v = p.matches env v)
    (hparts : ∀ v, p.parts env v = []) : Translates env p (.lit ty l) where
  wellFormed := by rw [MPat.wellFormed]
  vars := by rw [MPat.vars, patNames, hvars, List.map_nil]
  fits v _ _ := by rw [MPat.fits]
  matches_eq v _ := hmatches v
  parts v _ _ := by rw [MPat.parts, hparts]

theorem Translates.wild (ty : CType) {p : TPat} (hvars : patVars p = [])
    (hmatches : ∀ v, p.fits env v = true → p.matches env v = true)
    (hparts : ∀ v, p.parts env v = []) : Translates env p (.var ty none) where
  wellFormed := by rw [MPat.wellFormed]
  vars := by rw [MPat.vars, Option.toList, patNames, hvars, List.map_nil]
  fits v _ _ := by rw [MPat.fits]
  matches_eq v h := by rw [MPat.matches, hmatches v h]
  parts v _ _ := by rw [MPat.parts, hparts, Option.toList, List.map_nil]

theorem Translates.var (ty : CType) (x : String) :
    Translates env (.var ty x) (.var ty (some x)) where
  wellFormed := by rw [MPat.wellFormed]
  vars := rfl
  fits v _ _ := by rw [MPat.fits]
  matches_eq v _ := by rw [MPat.matches, TPat.matches]
  parts v _ _ := rfl

mutual

/-- A supported pattern whose tags agree with the oracle is translated. -/
theorem toMPat_spec (env : TypeEnv) : ∀ p : TPat, patUnsupported env p = false →
    tagsAgree env p = true → ∃ m, toMPat env p = .ok m ∧ Translates env p m
  | .var ty x, _, _ => ⟨_, rfl, .var ty x⟩
  | .wild ty, _, _ => ⟨_, rfl, .wild ty rfl (fun _ _ => rfl) fun _ => rfl⟩
  | .unit ty, _, _ => ⟨_, rfl, .wild ty rfl (fun _ h => h) fun _ => rfl⟩
  | .litI ty i, _, _ => ⟨_, rfl, .lit ty rfl (fun v => by cases v <;> rfl) fun _ => rfl⟩
  | .litS ty s, _, _ => ⟨_, rfl, .lit ty rfl (fun v => by cases v <;> rfl) fun _ => rfl⟩
  | .litC ty c, _, _ => ⟨_, rfl, .lit ty rfl (fun v => by cases v <;> rfl) fun _ => rfl⟩
  | .list ty [], _, hag => by
      simp only [tagsAgree, Bool.and_eq_true, Option.isNone_iff_eq_none] at hag
      exact ⟨_, rfl, .nil ty hag.1.1 hag.1.2⟩
  | .list _ (_ :: _), hsup, _ => by cases hsup
  | .tuple ty ps, hsup, hag => by
      simp only [tagsAgree, Bool.and_eq_true, Option.isNone_iff_eq_none] at hag
      rcases toMPats_spec env ps hsup hag.2 with ⟨ms, hms, htr⟩
      refine ⟨_, ?_, .tuple ty hag.1 htr⟩
      rw [toMPat, hms]
      rfl
  | .cons ty p q, hsup, hag => by
      simp only [patUnsupported, Bool.or_eq_false_iff] at hsup
      simp only [tagsAgree, Bool.and_eq_true, Option.isNone_iff_eq_none] at hag
      rcases toMPat_spec env p hsup.1 hag.1.2 with ⟨m, hm, hp⟩
      rcases toMPat_spec env q hsup.2 hag.2 with ⟨m', hm', hq⟩
      refine ⟨_, ?_, .cons ty hag.1.1.1 hag.1.1.2 hp hq⟩
      rw [toMPat, hm, hm']
      rfl
  | .con ty c ps, hsup, hag => by
      simp only [patUnsupported, Bool.or_eq_false_iff, isRecordConName,
        Option.isSome_eq_false_iff, Option.isNone_iff_eq_none] at hsup
      simp only [tagsAgree, Bool.and_eq_true] at hag
      rcases (Option.any_eq_true _ _).mp hag.1 with ⟨ci, hci, harity⟩
      rcases toMPats_spec env ps hsup.2 hag.2 with ⟨ms, hms, htr⟩
      refine ⟨_, ?_, .con ty hsup.1 hci (by simpa using harity) htr⟩
      rw [toMPat, hsup.1, hms]
      rfl
  | .as ty x p, hsup, hag => by
      simp only [patUnsupported] at hsup
      simp only [tagsAgree] at hag
      rcases toMPat_spec env p hsup hag with ⟨m, hm, hp⟩
      refine ⟨_, ?_, hp.as ty x⟩
      rw [toMPat, hm]
      rfl

theorem toMPats_spec (env : TypeEnv) : ∀ ps : List TPat, anyUnsupported env ps = false →
    allTagsAgree env ps = true → ∃ ms, toMPats env ps = .ok ms ∧ TranslatesAll env ps ms
  | [], _, _ => ⟨[], rfl, .nil⟩
  | p :: ps, hsup, hag => by
      simp only [anyUnsupported, Bool.or_eq_false_iff] at hsup
      simp only [allTagsAgree, Bool.and_eq_true] at hag
      rcases toMPat_spec env p hsup.1 hag.1 with ⟨m, hm, hp⟩
      rcases toMPats_spec env ps hsup.2 hag.2 with ⟨ms, hms, hps⟩
      refine ⟨m :: ms, ?_, TranslatesAll.cons hp hps⟩
      rw [toMPats, hm, hms]
      rfl

end

end Translate

/-! ### Wrappers -/

theorem elab_bind_ok {α β : Type} {x : Elab α} {f : α → Elab β} {ctx : ElabCtx} {n : Int}
    {r : β × Int} (h : (x >>= f) ctx n = .ok r) :
    ∃ a m, x ctx n = .ok (a, m) ∧ f a ctx m = .ok r := by
  change (x ctx n >>= fun am => f am.1 ctx am.2) = .ok r at h
  rcases bind_ok h with ⟨⟨a, m⟩, hx, hf⟩
  exact ⟨a, m, hx, hf⟩

theorem bindFresh_run (t : String) (ctx : ElabCtx) (n : Int) :
    bindFresh t ctx n = .ok (⟨t, ⟨n⟩⟩, n + 1) := rfl

theorem elab_bind_fresh {β : Type} {t : String} {f : Name → Elab β} {ctx : ElabCtx} {n : Int} :
    (bindFresh t >>= f) ctx n = f ⟨t, ⟨n⟩⟩ ctx (n + 1) := rfl

section Flat

variable (prims : PrimTable) (globals : Globals) (serial : Nat) (env : TypeEnv)

/-- What tests come to: the body with the variables bound to parts, or the failure
of the `case`. -/
def Outcome (ctx' : ElabCtx) (n : Int) (xs : List String) (sc : Scope) (k : Kont) (eb : Expr)
    (c : Config) : Option (List (String × Value)) → Prop
  | some parts => ∃ sc', Steps prims globals serial c (.eval eb sc' k) ∧
      Binds xs parts ctx' n sc sc'
  | none => Fails prims globals serial c

/-- `w`, made when the supply stood between `base` and `lo`, puts tests and
bindings of the variables `xs` around a body. In a scope where `out` gives a
result, running them comes to that result. -/
def Wrapper (w : Elab Expr → Elab Expr) (base lo : Int) (xs : List String)
    (out : Scope → Option (List (String × Value)) → Prop) : Prop :=
  ∀ body ctx n e n', lo ≤ n → ctx.env = env → ScopeBelow n ctx →
    w body ctx n = .ok (e, n') →
    ∃ ctx' m eb, body ctx' m = .ok (eb, n') ∧ n ≤ m ∧ Extends xs ctx ctx' base m ∧
      ∀ sc k r, out sc r → Outcome prims globals serial ctx' n xs sc k eb (.eval e sc k) r

/-- The parts of a matching value, when matching comes to no record. -/
def selected (p : TPat) (v : Value) : Option (List (String × Value)) :=
  if p.matches env v && !hitsRecord env p v then some (p.parts env v) else none

def selectedAll (ps : List TPat) (vs : List Value) : Option (List (String × Value)) :=
  if matchesAll env ps vs && !anyHitsRecord env ps vs then some (partsAll env ps vs) else none

/-- `f` compiles `p` to an alternative for the scrutinee. -/
def PatSpec (p : TPat) (f : Atom → Elab Expr → Elab Alt) : Prop :=
  ∀ scrut body ctx n alt n', AtomBelow n scrut → ctx.env = env → ScopeBelow n ctx →
    f scrut body ctx n = .ok (alt, n') →
    ∃ ctx' m eb, body ctx' m = .ok (eb, n') ∧ Extends (patNames p) ctx ctx' n m ∧
      ∀ sc k v, resolveAtom prims globals sc scrut = .ok v → p.fits env v = true →
        match altSelect v sc alt with
        | none => headAccepts env p v = false ∧ selected env p v = none
        | some (e0, sc0) => headAccepts env p v = true ∧
            Outcome prims globals serial ctx' n (patNames p) sc k eb (.eval e0 sc0 k)
              (selected env p v)

/-- `w` tests and binds the field that `u` holds. -/
def FieldWrapper (p : TPat) (u : Unique) (w : Elab Expr → Elab Expr) (lo : Int) : Prop :=
  Wrapper prims globals serial env w u.id lo (patNames p) fun sc r =>
    ∃ v, sc.env.lookup u = some v ∧ p.fits env v = true ∧ r = selected env p v

/-- The binders `bs`, minted from `lo` on and before `hi`, hold values that `ps`
are tested on. -/
def holdsFields (ps : List TPat) (bs : List Binder) (sc : Scope)
    (r : Option (List (String × Value))) : Prop :=
  ∃ vs, List.Forall₂ (fun b v => sc.env.lookup (binderUnique b) = some v) bs vs ∧
    fitsAll env ps vs = true ∧ r = selectedAll env ps vs

/-- Binders for the fields of a constructor, and their wrapper. -/
structure Fields (ps : List TPat) (lo hi : Int) (bs : List Binder)
    (w : Elab Expr → Elab Expr) : Prop where
  length : bs.length = ps.length
  new : ∀ b ∈ bs, lo ≤ (binderUnique b).id ∧ (binderUnique b).id < hi
  nodup : (bs.map binderUnique).Nodup
  wrapper : Wrapper prims globals serial env w lo hi ((clauseVars ps).map (·.1))
    (holdsFields env ps bs)

end Flat

section Flat

variable {prims : PrimTable} {globals : Globals} {serial : Nat} {env : TypeEnv}

theorem Outcome.rebase {ctx' : ElabCtx} {n m : Int} {xs : List String} {sc sc' : Scope}
    {k : Kont} {eb : Expr} {c : Config} {r : Option (List (String × Value))} (hnm : n ≤ m)
    (hagree : AgreeBelow n sc sc')
    (h : Outcome prims globals serial ctx' m xs sc' k eb c r) :
    Outcome prims globals serial ctx' n xs sc k eb c r := by
  cases r with
  | none => exact h
  | some parts =>
      rcases h with ⟨sc'', hs, hb⟩
      exact ⟨sc'', hs, hb.rebase hnm hagree⟩

theorem Wrapper.mono {w : Elab Expr → Elab Expr} {base base' lo hi : Int} {xs : List String}
    {out out' : Scope → Option (List (String × Value)) → Prop} (hbase : base' ≤ base)
    (hlo : lo ≤ hi) (hout : ∀ sc r, out' sc r → out sc r)
    (h : Wrapper prims globals serial env w base lo xs out) :
    Wrapper prims globals serial env w base' hi xs out' := by
  intro body ctx n e n' hn henv hctx hrun
  rcases h body ctx n e n' (hlo.trans hn) henv hctx hrun with
    ⟨ctx', m, eb, hbody, hnm, hext, hdyn⟩
  exact ⟨ctx', m, eb, hbody, hnm, hext.mono hbase (List.Subset.refl _),
    fun sc k r hr => hdyn sc k r (hout sc r hr)⟩

theorem Wrapper.id {base lo : Int} (hbase : base ≤ lo) :
    Wrapper prims globals serial env (fun inner => inner) base lo [] fun _ r => r = some [] := by
  intro body ctx n e n' hn _ hctx hrun
  refine ⟨ctx, n, e, hrun, le_rfl, (Extends.refl hctx).mono (hbase.trans hn) (by simp), ?_⟩
  rintro sc k _ rfl
  exact ⟨sc, Steps.refl _, .nil (AgreeBelow.refl _ _)⟩

/-- A variable that a binder of the enclosing constructor holds. -/
theorem Wrapper.local {lo : Int} (x : String) {nm : Name} (hid : nm.uniq.id < lo) :
    Wrapper prims globals serial env (withLocal x nm) nm.uniq.id lo [x] fun sc r =>
      ∃ v, sc.env.lookup nm.uniq = some v ∧ r = some [(x, v)] := by
  intro body ctx n e n' hn _ hctx hrun
  refine ⟨ctx.insertLocal x nm, n, e, hrun, le_rfl,
    .insertLocal x hctx le_rfl (Int.lt_of_lt_of_le hid hn), ?_⟩
  rintro sc k _ ⟨v, hv, rfl⟩
  refine ⟨sc, Steps.refl _, fun y hy => ?_, AgreeBelow.refl _ _⟩
  rw [List.mem_singleton] at hy
  subst hy
  refine ⟨nm, v, ?_, hv, List.mem_singleton_self _⟩
  rw [ElabCtx.insertLocal, List.lookup_cons, beq_self_eq_true]

/-- The results of two wrappers, one inside the other. -/
def both (out out' : Scope → Option (List (String × Value)) → Prop) (sc : Scope)
    (r : Option (List (String × Value))) : Prop :=
  ∃ r1 r2, out sc r1 ∧ out' sc r2 ∧ r = r1.bind fun ps => r2.map (ps ++ ·)

theorem Wrapper.comp {w w' : Elab Expr → Elab Expr} {base lo : Int} {xs ys : List String}
    {out out' : Scope → Option (List (String × Value)) → Prop}
    (h : Wrapper prims globals serial env w base lo xs out)
    (h' : Wrapper prims globals serial env w' base lo ys out')
    (hstable : ∀ sc sc' r, AgreeBelow lo sc sc' → out' sc r → out' sc' r) :
    Wrapper prims globals serial env (fun inner => w (w' inner)) base lo (xs ++ ys)
      (both out out') := by
  intro body ctx n e n' hn henv hctx hrun
  rcases h _ ctx n e n' hn henv hctx hrun with ⟨ctx1, m1, e1, hrun1, hm1, hext1, hdyn1⟩
  rcases h' body ctx1 m1 e1 n' (hn.trans hm1) (hext1.env.trans henv) hext1.below hrun1
    with ⟨ctx2, m2, eb, hbody, hm2, hext2, hdyn2⟩
  refine ⟨ctx2, m2, eb, hbody, hm1.trans hm2, hext1.trans hm2 hext2, ?_⟩
  rintro sc k _ ⟨r1, r2, hr1, hr2, rfl⟩
  have hout := hdyn1 sc k r1 hr1
  cases r1 with
  | none => exact hout
  | some ps =>
      rcases hout with ⟨sc1, hs1, hb1⟩
      have hout2 := hdyn2 sc1 k r2 (hstable sc sc1 r2 (hb1.agree.mono hn) hr2)
      cases r2 with
      | none => exact Fails.of_steps hs1 hout2
      | some qs =>
          rcases hout2 with ⟨sc2, hs2, hb2⟩
          exact ⟨sc2, hs1.trans hs2, hb1.append hm1 hext1.below hext2.free hb2⟩

/-! ### Fields -/

theorem selectedAll_nil : selectedAll env [] [] = some [] := rfl

/-- Fields are selected one after the other. -/
theorem selectedAll_cons (p : TPat) (ps : List TPat) (v : Value) (vs : List Value) :
    selectedAll env (p :: ps) (v :: vs) =
      (selected env p v).bind fun parts => (selectedAll env ps vs).map (parts ++ ·) := by
  simp only [selectedAll, selected, matchesAll, anyHitsRecord, partsAll, Bool.not_or]
  by_cases hp : (p.matches env v && !hitsRecord env p v) = true
  · rw [if_pos hp]
    rw [Bool.and_eq_true] at hp
    rw [hp.1, hp.2, Bool.true_and, Bool.true_and, Option.bind_some]
    by_cases hps : (matchesAll env ps vs && !anyHitsRecord env ps vs) = true
    · rw [if_pos hps, if_pos hps, Option.map_some]
    · rw [if_neg hps, if_neg hps, Option.map_none]
  · have hboth : ¬ (p.matches env v && matchesAll env ps vs &&
        (!hitsRecord env p v && !anyHitsRecord env ps vs)) = true := by
      simp only [Bool.and_eq_true] at hp ⊢
      exact fun h => hp ⟨h.1.1, h.2.1⟩
    rw [if_neg hp, if_neg hboth, Option.bind_none]

theorem holdsFields_stable {ps : List TPat} {bs : List Binder} {hi : Int}
    (hbs : ∀ b ∈ bs, (binderUnique b).id < hi) {sc sc' : Scope}
    {r : Option (List (String × Value))} (hagree : AgreeBelow hi sc sc')
    (h : holdsFields env ps bs sc r) : holdsFields env ps bs sc' r := by
  rcases h with ⟨vs, hvs, hfits, hr⟩
  refine ⟨vs, ?_, hfits, hr⟩
  clear hfits hr
  induction hvs with
  | nil => exact .nil
  | cons hb _ ih =>
      refine .cons ?_ (ih fun b' hb' => hbs b' (List.mem_cons_of_mem _ hb'))
      rw [hagree.env _ (hbs _ List.mem_cons_self)]
      exact hb

theorem Fields.nil (n : Int) :
    Fields prims globals serial env [] n n [] (fun inner => inner) where
  length := rfl
  new := nofun
  nodup := List.nodup_nil
  wrapper := by
    refine (Wrapper.id le_rfl).mono le_rfl le_rfl ?_
    rintro sc r ⟨vs, hvs, _, rfl⟩
    cases hvs
    rfl

theorem Fields.cons {p : TPat} {ps : List TPat} {lo hi : Int} {b : Binder} {bs : List Binder}
    {w w' : Elab Expr → Elab Expr} (hb : lo ≤ (binderUnique b).id ∧ (binderUnique b).id < hi)
    (hne : binderUnique b ∉ bs.map binderUnique)
    (hw : FieldWrapper prims globals serial env p (binderUnique b) w hi)
    (h : Fields prims globals serial env ps lo hi bs w') :
    Fields prims globals serial env (p :: ps) lo hi (b :: bs) (fun inner => w (w' inner)) where
  length := by rw [List.length_cons, List.length_cons, h.length]
  new b' hb' := by
    rcases List.mem_cons.mp hb' with rfl | hb'
    · exact hb
    · exact h.new b' hb'
  nodup := by
    rw [List.map_cons, List.nodup_cons]
    exact ⟨hne, h.nodup⟩
  wrapper := by
    have hfield := Wrapper.mono hb.1 le_rfl (fun _ _ hr => hr) hw
    have hcomp := hfield.comp h.wrapper fun sc sc' r hagree =>
      holdsFields_stable (fun b' hb' => (h.new b' hb').2) hagree
    rw [clauseVars, List.map_append]
    refine hcomp.mono le_rfl le_rfl ?_
    rintro sc r ⟨vs, hvs, hfits, rfl⟩
    cases hvs with
    | @cons _ v _ vs hv hvs =>
        simp only [fitsAll, Bool.and_eq_true] at hfits
        exact ⟨_, _, ⟨v, hv, hfits.1, rfl⟩, ⟨vs, hvs, hfits.2, rfl⟩, selectedAll_cons p ps v vs⟩

theorem Fields.widen {ps : List TPat} {lo lo' hi hi' : Int} {bs : List Binder}
    {w : Elab Expr → Elab Expr} (hlo : lo' ≤ lo) (hhi : hi ≤ hi')
    (h : Fields prims globals serial env ps lo hi bs w) :
    Fields prims globals serial env ps lo' hi' bs w where
  length := h.length
  new b hb := by
    have := h.new b hb
    omega
  nodup := h.nodup
  wrapper := h.wrapper.mono hlo hhi fun _ _ hr => hr

/-- A pattern without variables that matches every value of its type. -/
theorem FieldWrapper.ignore {p : TPat} {u : Unique} {lo : Int} (hid : u.id ≤ lo)
    (hvars : patVars p = [])
    (hsel : ∀ v, p.fits env v = true → selected env p v = some []) :
    FieldWrapper prims globals serial env p u (fun inner => inner) lo := by
  rw [FieldWrapper, patNames, hvars]
  refine (Wrapper.id hid).mono le_rfl le_rfl ?_
  rintro sc r ⟨v, _, hfit, rfl⟩
  exact hsel v hfit

theorem FieldWrapper.var {ty : CType} {x : String} {nm : Name} {lo : Int}
    (hid : nm.uniq.id < lo) :
    FieldWrapper prims globals serial env (.var ty x) nm.uniq (withLocal x nm) lo := by
  refine (Wrapper.local x hid).mono le_rfl le_rfl ?_
  rintro sc r ⟨v, hv, _, rfl⟩
  exact ⟨v, hv, rfl⟩

/-- A nested case of one alternative. -/
theorem FieldWrapper.nested {p : TPat} {nm : Name} {lo : Int} (hid : nm.uniq.id < lo)
    {f : Atom → Elab Expr → Elab Alt} (hf : PatSpec prims globals serial env p f) :
    FieldWrapper prims globals serial env p nm.uniq (wrapNested nm f) lo := by
  intro body ctx n e n' hn henv hctx hrun
  rcases elab_bind_ok hrun with ⟨alt, n1, halt, hret⟩
  cases hret
  have hnm : AtomBelow n (.var nm) := by
    intro u hu
    simp only [atomVars, List.mem_singleton] at hu
    rw [hu]
    omega
  rcases hf (.var nm) body ctx n alt n' hnm henv hctx halt with ⟨ctx', m, eb, hbody, hext, hdyn⟩
  refine ⟨ctx', m, eb, hbody, hext.supply, hext.mono (by omega) (List.Subset.refl _), ?_⟩
  rintro sc k _ ⟨v, hv, hfit, rfl⟩
  have hres : resolveAtom prims globals sc (.var nm) = .ok v := by
    simp only [resolveAtom, hv]
  have halts := hdyn sc k v hres hfit
  have hmatch := matchAlts_cons v sc k alt []
  cases hsel : altSelect v sc alt with
  | none =>
      rw [hsel] at halts hmatch
      rw [halts.2]
      exact ⟨_, _, Steps.refl _, transition_case_fail hres hmatch⟩
  | some es =>
      rw [hsel] at halts hmatch
      have hout := halts.2
      cases hr : selected env p v with
      | none =>
          rw [hr] at hout
          exact Fails.of_steps (.head (transition_case hres hmatch) (Steps.refl _)) hout
      | some parts =>
          rw [hr] at hout
          rcases hout with ⟨sc', hs, hb⟩
          exact ⟨sc', .head (transition_case hres hmatch) hs, hb⟩

/-- One round of `buildSubPats`. -/
theorem buildSubPat_spec {p : TPat} {f : Atom → Elab Expr → Elab Alt}
    (hf : PatSpec prims globals serial env p f) {rest r : SubPats} {ctx : ElabCtx} {n n' : Int}
    (hrun : buildSubPat p f rest ctx n = .ok (r, n')) :
    n' = n + 1 ∧ ∃ b w, binderUnique b = ⟨n⟩ ∧
      r = (b :: rest.1, fun inner => w (rest.2 inner)) ∧
      FieldWrapper prims globals serial env p ⟨n⟩ w n' := by
  cases p with
  | var ty x =>
      cases hrun
      exact ⟨rfl, ⟨⟨x, ⟨n⟩⟩, ty⟩, withLocal x ⟨x, ⟨n⟩⟩, rfl, rfl,
        .var (Int.lt_add_one_iff.mpr le_rfl)⟩
  | wild ty =>
      cases hrun
      exact ⟨rfl, ⟨⟨"_", ⟨n⟩⟩, ty⟩, _, rfl, rfl, .ignore (Int.le_add_one le_rfl) rfl fun _ _ => rfl⟩
  | unit ty =>
      cases hrun
      refine ⟨rfl, ⟨⟨"_", ⟨n⟩⟩, ty⟩, _, rfl, rfl, .ignore (Int.le_add_one le_rfl) rfl ?_⟩
      intro v hv
      have hm : (TPat.unit ty).matches env v = true := hv
      simp [selected, hm, hitsRecord, TPat.parts]
  | _ =>
      cases hrun
      exact ⟨rfl, _, wrapNested ⟨"t", ⟨n⟩⟩ f, rfl, rfl,
        .nested (Int.lt_add_one_iff.mpr le_rfl) hf⟩

theorem buildSubPatFromPat_spec {p : TPat} {f : Atom → Elab Expr → Elab Alt}
    (hf : PatSpec prims globals serial env p f) {r : SubPats} {ctx : ElabCtx} {n n' : Int}
    (hrun : buildSubPatFromPat p f ctx n = .ok (r, n')) :
    n' = n + 1 ∧ ∃ b w, binderUnique b = ⟨n⟩ ∧ r = ([b], w) ∧
      FieldWrapper prims globals serial env p ⟨n⟩ w n' := by
  cases p with
  | var ty x =>
      cases hrun
      exact ⟨rfl, ⟨⟨x, ⟨n⟩⟩, ty⟩, withLocal x ⟨x, ⟨n⟩⟩, rfl, rfl,
        .var (Int.lt_add_one_iff.mpr le_rfl)⟩
  | wild ty =>
      cases hrun
      exact ⟨rfl, ⟨⟨"_", ⟨n⟩⟩, ty⟩, _, rfl, rfl, .ignore (Int.le_add_one le_rfl) rfl fun _ _ => rfl⟩
  | _ =>
      cases hrun
      exact ⟨rfl, _, wrapNested ⟨"t", ⟨n⟩⟩ f, rfl, rfl,
        .nested (Int.lt_add_one_iff.mpr le_rfl) hf⟩

/-! ### Bindings by `let` -/

/-- Bind the name `nm` for `x` to a right-hand side. -/
def letLocal (nm : Name) (x : String) (ty : CType) (rhs : Rhs) (inner : Elab Expr) :
    Elab Expr := do
  let b ← withLocal x nm inner
  return .let_ ⟨nm, ty⟩ rhs b

theorem transition_letAtom {b : Binder} {a : Atom} {body : Expr} {sc : Scope} {k : Kont}
    {v : Value} (ha : resolveAtom prims globals sc a = .ok v) :
    transition prims globals serial (.eval (.let_ b (.atom a) body) sc k) =
      .ok (.config (.eval body { sc with env := bindBinder b v sc.env } k)) := by
  rw [transition, evalExpr, evalRhs, ha]
  rfl

/-! ### Patterns -/

/-- An alternative that every value selects and that binds nothing. -/
theorem PatSpec.ignore {p : TPat} {f : Atom → Elab Expr → Elab Alt}
    (hf : ∀ scrut body, f scrut body = body >>= fun e => pure (.default e))
    (hvars : patVars p = []) (haccept : ∀ v, headAccepts env p v = true)
    (hsel : ∀ v, p.fits env v = true → selected env p v = some []) :
    PatSpec prims globals serial env p f := by
  intro scrut body ctx n alt n' _ _ hctx hrun
  rw [hf] at hrun
  rcases elab_bind_ok hrun with ⟨e, n1, he, hret⟩
  cases hret
  rw [patNames, hvars]
  refine ⟨ctx, n, e, he, .refl hctx, fun sc k v _ hfit => ⟨haccept v, ?_⟩⟩
  rw [hsel v hfit]
  exact ⟨sc, Steps.refl _, .nil (AgreeBelow.refl _ _)⟩

/-- A literal. -/
theorem PatSpec.lit {p : TPat} {l : Lit} {f : Atom → Elab Expr → Elab Alt}
    (hf : ∀ scrut body, f scrut body = body >>= fun e => pure (.lit l e))
    (hvars : patVars p = [])
    (haccept : ∀ l', headAccepts env p (.lit l') = (l' == l))
    (hfits : ∀ v, p.fits env v = true → ∃ l', v = .lit l')
    (hsel : ∀ l', selected env p (.lit l') = if l' = l then some [] else none) :
    PatSpec prims globals serial env p f := by
  intro scrut body ctx n alt n' _ _ hctx hrun
  rw [hf] at hrun
  rcases elab_bind_ok hrun with ⟨e, n1, he, hret⟩
  cases hret
  rw [patNames, hvars]
  refine ⟨ctx, n, e, he, .refl hctx, fun sc k v _ hfit => ?_⟩
  rcases hfits v hfit with ⟨l', rfl⟩
  by_cases hl : l' = l
  · rw [altSelect, if_pos hl, haccept, hsel, if_pos hl]
    exact ⟨by simpa using hl, sc, Steps.refl _, .nil (AgreeBelow.refl _ _)⟩
  · rw [altSelect, if_neg hl, haccept, hsel, if_neg hl]
    exact ⟨by simpa using hl, rfl⟩

/-- A constructor with sub-patterns. -/
theorem PatSpec.con {p : TPat} {tag : String} {ps : List TPat} {mk : Elab SubPats}
    {f : Atom → Elab Expr → Elab Alt}
    (hf : ∀ scrut body ctx n, ctx.env = env → f scrut body ctx n =
      (mk >>= fun r => r.2 body >>= fun e => pure (.con tag r.1 e)) ctx n)
    (hmk : ∀ ctx n r n1, ctx.env = env → mk ctx n = .ok (r, n1) →
      n ≤ n1 ∧ Fields prims globals serial env ps n n1 r.1 r.2)
    (hnames : patNames p = (clauseVars ps).map (·.1))
    (haccept : ∀ c vs, headAccepts env p (.con c vs) = (c == tag && vs.length == ps.length))
    (hfits : ∀ v, p.fits env v = true →
      (∃ c vs, v = .con c vs ∧ (c = tag → fitsAll env ps vs = true)) ∨
        ∃ c fields, v = .record c fields)
    (hrecord : ∀ c fields, headAccepts env p (.record c fields) = false ∧
      selected env p (.record c fields) = none)
    (hsel : ∀ c vs, selected env p (.con c vs) =
      if c = tag then selectedAll env ps vs else none) :
    PatSpec prims globals serial env p f := by
  intro scrut body ctx n alt n' _ henv hctx hrun
  rw [hf _ _ _ _ henv] at hrun
  rcases elab_bind_ok hrun with ⟨⟨bs, w⟩, n1, hbs, hrun⟩
  rcases elab_bind_ok hrun with ⟨e, n2, he, hret⟩
  cases hret
  rcases hmk ctx n _ n1 henv hbs with ⟨hn1, hfields⟩
  rcases hfields.wrapper body ctx n1 e n' le_rfl henv (hctx.mono hn1) he with
    ⟨ctx', m, eb, hbody, _, hext, hdyn⟩
  rw [hnames]
  refine ⟨ctx', m, eb, hbody, hext, fun sc k v _ hfit => ?_⟩
  rcases hfits v hfit with ⟨c, vs, rfl, hall⟩ | ⟨c, fields, rfl⟩
  swap
  · exact hrecord c fields
  by_cases hc : c = tag
  · have hlen : bs.length = vs.length := hfields.length.trans (fitsAll_length (hall hc)).symm
    rw [altSelect, if_pos ⟨hc, hlen⟩, haccept, hsel, if_pos hc]
    refine ⟨?_, ?_⟩
    · rw [fitsAll_length (hall hc), hc, beq_self_eq_true, beq_self_eq_true]
      rfl
    · have hagree : AgreeBelow n sc { sc with env := bindBinders bs vs sc.env } :=
        agreeBelow_bindBinders vs sc fun b hb => (hfields.new b hb).1
      refine Outcome.rebase hn1 hagree (hdyn _ k _ ⟨vs, ?_, hall hc, rfl⟩)
      exact lookup_bindBinders sc.env hlen hfields.nodup
  · rw [altSelect, if_neg fun h => hc h.1, haccept, hsel, if_neg hc]
    refine ⟨?_, rfl⟩
    rw [beq_false_of_ne hc, Bool.false_and]

theorem selected_as (ty : CType) (x : String) (p : TPat) (v : Value) :
    selected env (.as ty x p) v = (selected env p v).map ((x, v) :: ·) := by
  rw [selected, selected, TPat.matches, TPat.parts, hitsRecord]
  split <;> rfl

/-- An as-pattern binds its name inside the tests of the inner pattern. -/
theorem PatSpec.as {p : TPat} {ty : CType} {x : String} {f g : Atom → Elab Expr → Elab Alt}
    (hg : ∀ scrut body ctx n, g scrut body ctx n =
      f scrut (letLocal ⟨x, ⟨n⟩⟩ x ty (.atom scrut) body) ctx (n + 1))
    (hf : PatSpec prims globals serial env p f) :
    PatSpec prims globals serial env (.as ty x p) g := by
  intro scrut body ctx n alt n' hscrut henv hctx hrun
  have hsucc : n ≤ n + 1 := Int.le_add_one le_rfl
  rw [hg] at hrun
  rcases hf scrut _ ctx (n + 1) alt n' (hscrut.mono hsucc) henv (hctx.mono hsucc) hrun with
    ⟨ctx1, m, e1, hbody, hext, hdyn⟩
  rcases elab_bind_ok hbody with ⟨b, m1, hb, hret⟩
  cases hret
  have hnames : patNames (.as ty x p) = x :: patNames p := rfl
  have hins : Extends [x] ctx1 (ctx1.insertLocal x ⟨x, ⟨n⟩⟩) n m :=
    .insertLocal x hext.below le_rfl
      (Int.lt_of_lt_of_le (Int.lt_add_one_iff.mpr le_rfl) hext.supply)
  have hext' := (hext.mono hsucc (List.Subset.refl _)).trans le_rfl hins
  refine ⟨_, m, b, hb, hext'.mono le_rfl ?_, fun sc k v hv hfit => ?_⟩
  · rw [hnames]
    intro y hy
    rcases List.mem_append.mp hy with hy | hy
    · exact List.mem_cons_of_mem _ hy
    · exact List.mem_cons.mpr (.inl (List.mem_singleton.mp hy))
  · rw [TPat.fits] at hfit
    have halt := hdyn sc k v hv hfit
    cases hsel : altSelect v sc alt with
    | none =>
        rw [hsel] at halt
        rw [selected_as, halt.2]
        exact ⟨halt.1, rfl⟩
    | some es =>
        rw [hsel] at halt
        refine ⟨halt.1, ?_⟩
        have hout := halt.2
        rw [selected_as]
        cases hr : selected env p v with
        | none =>
            rw [hr] at hout
            exact hout
        | some parts =>
            rw [hr] at hout
            rcases hout with ⟨sc1, hs, hbinds⟩
            have hv1 : resolveAtom prims globals sc1 scrut = .ok v := by
              rw [resolveAtom_agree (hscrut.mono hsucc) hbinds.agree]
              exact hv
            refine ⟨_, hs.trans (.head (transition_letAtom hv1) (Steps.refl _)), ?_⟩
            exact Binds.insertLocal (b := ⟨⟨x, ⟨n⟩⟩, ty⟩) x v rfl hctx hext hbinds

/-! ### Record patterns -/

/-- A projection around a field's tests; no claim is made on its run. -/
theorem Wrapper.project {p : TPat} {base lo : Int} (l : String) (ty : CType) (rhs : Rhs)
    {w : Name → Elab Expr → Elab Expr} (hbase : base ≤ lo)
    (hw : ∀ nm : Name, FieldWrapper prims globals serial env p nm.uniq (w nm) (nm.uniq.id + 1)) :
    Wrapper prims globals serial env (fun inner => do
      let n ← bindFresh l
      let b ← w n inner
      return .let_ ⟨n, ty⟩ rhs b) base lo (patNames p) fun _ _ => False := by
  intro body ctx n e n' hn henv hctx hrun
  rcases elab_bind_ok hrun with ⟨nm, n1, hnm, hrun⟩
  cases hnm
  rcases elab_bind_ok hrun with ⟨b, n2, hb, hret⟩
  cases hret
  rcases hw ⟨l, ⟨n⟩⟩ body ctx (n + 1) b n' le_rfl henv (hctx.mono (Int.le_add_one le_rfl)) hb
    with ⟨ctx', m, eb, hbody, hm, hext, _⟩
  exact ⟨ctx', m, eb, hbody, (Int.le_add_one le_rfl).trans hm,
    hext.mono (hbase.trans hn) (List.Subset.refl _), fun _ _ _ h => h.elim⟩

theorem buildRecordFieldBinding_spec {scrut : Atom} {l : String} {p : TPat}
    {f : Atom → Elab Expr → Elab Alt} {base lo : Int} (hbase : base ≤ lo)
    (hf : PatSpec prims globals serial env p f) :
    Wrapper prims globals serial env (buildRecordFieldBinding scrut l p f) base lo (patNames p)
      fun _ _ => False := by
  have hlt : ∀ nm : Name, nm.uniq.id < nm.uniq.id + 1 := fun nm => Int.lt_add_one_iff.mpr le_rfl
  cases p with
  | wild ty => exact (Wrapper.id hbase).mono le_rfl le_rfl fun _ _ h => h.elim
  | var ty x =>
      exact Wrapper.project (w := fun nm => withLocal x nm) l ty _ hbase fun nm => .var (hlt nm)
  | _ =>
      exact Wrapper.project (w := fun nm => wrapNested nm f) l _ _ hbase
        fun nm => .nested (hlt nm) hf

/-! ### Elaborated patterns -/

theorem not_isRecordConName {c : String} (h : env.lookupRecordCon c = none) :
    isRecordConName env c = false := by
  rw [isRecordConName, h]
  rfl

/-- What the selection of a constructor pattern comes to on a constructor value. -/
theorem selected_con {ty : CType} {c : String} {ps : List TPat}
    (hrecord : env.lookupRecordCon c = none) (c' : String) (vs : List Value) :
    selected env (.con ty c ps) (.con c' vs) =
      if c' = c then selectedAll env ps vs else none := by
  rw [selected, TPat.matches, TPat.parts, hitsRecord, not_isRecordConName hrecord]
  by_cases hc : c' = c
  · rw [if_pos hc, hc, beq_self_eq_true, Bool.true_and, Bool.false_and, Bool.false_or]
    rfl
  · rw [if_neg hc, beq_false_of_ne hc]
    rfl

theorem selected_tuple {ty : CType} {ps : List TPat} (c : String) (vs : List Value) :
    selected env (.tuple ty ps) (.con c vs) =
      if c = tupleTag ps.length then selectedAll env ps vs else none := by
  rw [selected, TPat.matches, TPat.parts, hitsRecord]
  by_cases hc : c = tupleTag ps.length
  · rw [if_pos hc, hc, beq_self_eq_true, Bool.true_and]
    rfl
  · rw [if_neg hc, beq_false_of_ne hc]
    rfl

theorem PatSpec.wild (ty : CType) :
    PatSpec prims globals serial env (.wild ty) fun a => elabPat a (.wild ty) :=
  .ignore (fun _ _ => rfl) rfl (fun _ => rfl) fun _ _ => rfl

theorem PatSpec.unit (ty : CType) :
    PatSpec prims globals serial env (.unit ty) fun a => elabPat a (.unit ty) := by
  refine .ignore (fun _ _ => rfl) rfl (fun _ => rfl) fun v hv => ?_
  have hm : (TPat.unit ty).matches env v = true := hv
  simp [selected, hm, hitsRecord, TPat.parts]

/-- A variable is a name for what a wildcard matches. -/
theorem PatSpec.var (ty : CType) (x : String) :
    PatSpec prims globals serial env (.var ty x) fun a => elabPat a (.var ty x) := by
  have has : PatSpec prims globals serial env (.as ty x (.wild ty))
      fun a => elabPat a (.var ty x) :=
    PatSpec.as (fun scrut body ctx n => by
      simp only [elabPat, letLocal, elab_bind_fresh, bind_assoc]
      rfl) (PatSpec.wild ty)
  exact has

/-- A record pattern is an alternative that only a constructor without fields
selects. -/
theorem PatSpec.record {ty : CType} {c : String} {ps : List TPat} {rci : RecordConInfo}
    (hrecord : env.lookupRecordCon c = some rci)
    (hps : ∀ scrut labels n, Wrapper prims globals serial env
      (buildRecordFieldBindings scrut labels ps) n n ((clauseVars ps).map (·.1))
      fun _ r => ps = [] ∧ r = some []) :
    PatSpec prims globals serial env (.con ty c ps) fun a => elabPat a (.con ty c ps) := by
  have hname : isRecordConName env c = true := by
    rw [isRecordConName, hrecord]
    rfl
  intro scrut body ctx n alt n' _ henv hctx hrun
  have hrun' : (buildRecordFieldBindings scrut (rci.fields.map (·.1)) ps body >>= fun e =>
      pure (Alt.con c [] e)) ctx n = .ok (alt, n') := by
    rw [← hrun]
    have hfields : ctx.env.lookupRecordCon c = some rci := henv ▸ hrecord
    have hread : (read : Elab ElabCtx) ctx n = .ok (ctx, n) := rfl
    simp only [elabPat, bind, ReaderT.bind, StateT.bind, Except.bind, hread, hfields]
  rcases elab_bind_ok hrun' with ⟨e, n1, he, hret⟩
  cases hret
  rcases hps scrut _ n body ctx n e n' le_rfl henv hctx he with
    ⟨ctx', m, eb, hbody, _, hext, hdyn⟩
  refine ⟨ctx', m, eb, hbody, hext, fun sc k v _ hfit => ?_⟩
  cases v with
  | con c' vs =>
      by_cases hsel : c' = c ∧ vs = []
      · rcases hsel with ⟨rfl, rfl⟩
        have hps : ps = [] := by
          simp only [TPat.fits, Bool.and_eq_true, Bool.or_eq_true] at hfit
          rcases hfit.2 with hne | hall
          · simp at hne
          · exact List.length_eq_zero_iff.mp (fitsAll_length hall).symm
        subst hps
        have hout := hdyn sc k (some []) ⟨rfl, rfl⟩
        have hs : selected env (.con ty c' []) (.con c' []) = some [] := by
          simp [selected, TPat.matches, matchesAll, hitsRecord, anyHitsRecord, TPat.parts,
            partsAll]
        rw [altSelect, if_pos ⟨rfl, rfl⟩, hs]
        refine ⟨?_, ?_⟩
        · simp [headAccepts, hname]
        · rw [patNames, patVars]
          cases sc
          exact hout
      · have hno : altSelect (.con c' vs) sc (.con c [] e) = none := by
          rw [altSelect, if_neg]
          rintro ⟨hc, hlen⟩
          exact hsel ⟨hc, List.length_eq_zero_iff.mp hlen.symm⟩
        rw [hno]
        refine ⟨?_, ?_⟩
        · simpa [headAccepts, hname] using hsel
        · simp only [TPat.fits, Bool.and_eq_true, Bool.or_eq_true] at hfit
          by_cases hc : c' = c
          · subst hc
            rcases hfit.2 with hne | hall
            · simp at hne
            · have hps : ps.isEmpty = false := by
                rw [List.isEmpty_eq_false_iff]
                rintro rfl
                exact hsel ⟨rfl, List.length_eq_zero_iff.mp (fitsAll_length hall)⟩
              simp [selected, hitsRecord, hname, hps]
          · simp [selected, TPat.matches, hc]
  | record c' fields => exact ⟨rfl, by simp [selected, hitsRecord]⟩
  | _ => simp [TPat.fits] at hfit

theorem PatSpec.litI (ty : CType) (i : Int) :
    PatSpec prims globals serial env (.litI ty i) fun a => elabPat a (.litI ty i) := by
  refine .lit (fun _ _ => rfl) rfl (fun _ => rfl) (fun v hv => ?_) fun l => ?_
  · cases v with
    | lit l => exact ⟨l, rfl⟩
    | _ => simp [TPat.fits] at hv
  · simp [selected, TPat.matches, hitsRecord, TPat.parts]

theorem PatSpec.litS (ty : CType) (s : String) :
    PatSpec prims globals serial env (.litS ty s) fun a => elabPat a (.litS ty s) := by
  refine .lit (fun _ _ => rfl) rfl (fun _ => rfl) (fun v hv => ?_) fun l => ?_
  · cases v with
    | lit l => exact ⟨l, rfl⟩
    | _ => simp [TPat.fits] at hv
  · simp [selected, TPat.matches, hitsRecord, TPat.parts]

theorem PatSpec.litC (ty : CType) (c : Char) :
    PatSpec prims globals serial env (.litC ty c) fun a => elabPat a (.litC ty c) := by
  refine .lit (fun _ _ => rfl) rfl (fun _ => rfl) (fun v hv => ?_) fun l => ?_
  · cases v with
    | lit l => exact ⟨l, rfl⟩
    | _ => simp [TPat.fits] at hv
  · simp [selected, TPat.matches, hitsRecord, TPat.parts]

theorem PatSpec.nil (ty : CType) :
    PatSpec prims globals serial env (.list ty []) fun a => elabPat a (.list ty []) := by
  have hmk : ∀ ctx n r n1, ctx.env = env → (pure ([], id) : Elab SubPats) ctx n = .ok (r, n1) →
      n ≤ n1 ∧ Fields prims globals serial env [] n n1 r.1 r.2 := by
    intro ctx n r n1 _ hrun
    cases hrun
    exact ⟨le_rfl, .nil n⟩
  refine .con (fun _ _ _ _ _ => rfl) hmk rfl (fun c vs => ?_) (fun v hv => .inl ?_)
    (fun _ _ => ⟨rfl, rfl⟩) fun c vs => ?_
  · rw [headAccepts]
    cases vs <;> rfl
  · rcases fits_nil_inv hv with rfl | ⟨hd, tl, rfl⟩
    · exact ⟨"Nil", [], rfl, fun _ => rfl⟩
    · exact ⟨"Cons", [hd, tl], rfl, nofun⟩
  · by_cases hc : c = "Nil"
    · subst hc
      cases vs with
      | nil => rfl
      | cons v vs => simp [selected, TPat.matches, matchesList, selectedAll, matchesAll]
    · rw [if_neg hc]
      simp [selected, TPat.matches, matchesList, hc]

theorem selected_cons {ty : CType} {p q : TPat} (c : String) (vs : List Value) :
    selected env (.cons ty p q) (.con c vs) =
      if c = "Cons" then selectedAll env [p, q] vs else none := by
  by_cases hc : c = "Cons"
  · subst hc
    rw [if_pos rfl]
    rcases vs with _ | ⟨hd, _ | ⟨tl, _ | ⟨v, vs⟩⟩⟩
    · simp [selected, TPat.matches, selectedAll, matchesAll]
    · simp [selected, TPat.matches, selectedAll, matchesAll]
    · simp [selected, TPat.matches, TPat.parts, hitsRecord, selectedAll, matchesAll,
        anyHitsRecord, partsAll]
    · simp [selected, TPat.matches, selectedAll, matchesAll]
  · rw [if_neg hc]
    simp [selected, TPat.matches, hc]

/-- The binders of head and tail are minted one after the other. -/
theorem consFields_spec {p q : TPat} {f g : Atom → Elab Expr → Elab Alt}
    (hf : PatSpec prims globals serial env p f) (hg : PatSpec prims globals serial env q g)
    {ctx : ElabCtx} {n n1 n2 : Int} {r r' : SubPats}
    (hhead : buildSubPat p f ([], id) ctx n = .ok (r, n1))
    (htail : buildSubPatFromPat q g ctx n1 = .ok (r', n2)) :
    n ≤ n2 ∧ Fields prims globals serial env [p, q] n n2 (r.1 ++ r'.1)
      fun inner => r.2 (r'.2 inner) := by
  rcases buildSubPat_spec hf hhead with ⟨rfl, b, w, hb, rfl, hw⟩
  rcases buildSubPatFromPat_spec hg htail with ⟨rfl, b', w', hb', rfl, hw'⟩
  have htailNew : n ≤ (binderUnique b').id ∧ (binderUnique b').id < n + 1 + 1 := by
    rw [hb']
    constructor
    · exact Int.le_add_one le_rfl
    · exact Int.lt_add_one_iff.mpr le_rfl
  have hheadNew : n ≤ (binderUnique b).id ∧ (binderUnique b).id < n + 1 + 1 := by
    rw [hb]
    constructor
    · exact le_rfl
    · exact (Int.lt_add_one_iff.mpr (Int.le_add_one le_rfl))
  have hne : binderUnique b ∉ [b'].map binderUnique := by
    rw [List.map_singleton, List.mem_singleton, hb, hb']
    intro heq
    have := congrArg Unique.id heq
    simp only at this
    omega
  have hnil : Fields prims globals serial env [] n (n + 1 + 1) [] fun inner => inner :=
    (Fields.nil n).widen le_rfl (by omega)
  have hq : Fields prims globals serial env [q] n (n + 1 + 1) [b'] fun inner => w' inner :=
    .cons htailNew List.not_mem_nil (hb' ▸ hw') hnil
  have hw2 : FieldWrapper prims globals serial env p (binderUnique b) w (n + 1 + 1) := by
    rw [hb]
    exact Wrapper.mono le_rfl (Int.le_add_one le_rfl) (fun _ _ h => h) hw
  have hp : Fields prims globals serial env [p, q] n (n + 1 + 1) [b, b']
      fun inner => w (w' inner) := .cons hheadNew hne hw2 hq
  exact ⟨by omega, hp⟩

theorem PatSpec.cons (ty : CType) {p q : TPat}
    (hp : PatSpec prims globals serial env p fun a => elabPat a p)
    (hq : PatSpec prims globals serial env q fun a => elabPat a q) :
    PatSpec prims globals serial env (.cons ty p q) fun a => elabPat a (.cons ty p q) := by
  have hmk : ∀ ctx n r n1, ctx.env = env → (buildSubPat p (fun a => elabPat a p) ([], id) >>=
      fun head => buildSubPatFromPat q (fun a => elabPat a q) >>=
      fun tail => (pure (head.1 ++ tail.1, fun body => head.2 (tail.2 body)) : Elab SubPats))
        ctx n = .ok (r, n1) →
      n ≤ n1 ∧ Fields prims globals serial env [p, q] n n1 r.1 r.2 := by
    intro ctx n r n1 _ hrun
    rcases elab_bind_ok hrun with ⟨head, m, hhead, hrun⟩
    rcases elab_bind_ok hrun with ⟨tail, m', htail, hret⟩
    cases hret
    exact consFields_spec hp hq hhead htail
  refine .con (fun scrut body ctx n _ => ?_) hmk ?_ (fun _ _ => rfl) (fun v hv => .inl ?_)
    (fun _ _ => ⟨rfl, rfl⟩) selected_cons
  · simp only [elabPat, bind_assoc, pure_bind]
  · simp [patNames, patVars, clauseVars]
  · rcases fits_cons_inv hv with rfl | ⟨hd, tl, rfl, hhd, htl⟩
    · exact ⟨"Nil", [], rfl, nofun⟩
    · exact ⟨"Cons", [hd, tl], rfl, fun _ => by simp [fitsAll, hhd, htl]⟩

mutual

/-- The alternative of a pattern selects, tests and binds as the pattern says, as
far as the flat route goes. -/
theorem elabPat_spec : ∀ p : TPat, PatSpec prims globals serial env p fun a => elabPat a p
  | .var ty x => .var ty x
  | .wild ty => .wild ty
  | .unit ty => .unit ty
  | .litI ty i => .litI ty i
  | .litS ty s => .litS ty s
  | .litC ty c => .litC ty c
  | .list ty [] => .nil ty
  | .list _ (_ :: _) => fun _ _ _ _ _ _ _ _ _ hrun => by cases hrun
  | .tuple ty ps => by
      refine .con (fun _ _ _ _ _ => rfl) (fun ctx n r n1 => buildSubPats_spec ps) rfl
        (fun _ _ => rfl) (fun v hv => .inl ?_) (fun _ _ => ⟨rfl, rfl⟩) selected_tuple
      cases v with
      | con c vs =>
          simp only [TPat.fits, Bool.and_eq_true] at hv
          exact ⟨c, vs, rfl, fun _ => hv.2⟩
      | _ => simp [TPat.fits] at hv
  | .cons ty p q => .cons ty (elabPat_spec p) (elabPat_spec q)
  | .con ty c ps => by
      cases hrecord : env.lookupRecordCon c with
      | some rci => exact .record hrecord fun scrut labels n => recordFields_spec ps scrut labels
      | none =>
          refine .con (fun scrut body ctx n henv => ?_) (fun ctx n r n1 => buildSubPats_spec ps)
            rfl (fun c' vs => ?_) (fun v hv => ?_) (fun c' fields => ⟨rfl, ?_⟩)
            (selected_con hrecord)
          · change (match ctx.env.lookupRecordCon c with
              | some rci => _
              | none => _ : Elab Alt) ctx n = _
            rw [henv, hrecord]
          · rw [headAccepts, not_isRecordConName hrecord]
            rfl
          · cases v with
            | con c' vs =>
                simp only [TPat.fits, Bool.and_eq_true, Bool.or_eq_true] at hv
                refine .inl ⟨c', vs, rfl, fun hc => ?_⟩
                rcases hv.2 with hne | hall
                · simp [hc] at hne
                · exact hall
            | record c' fields => exact .inr ⟨c', fields, rfl⟩
            | _ => simp [TPat.fits] at hv
          · simp [selected, hitsRecord]
  | .as ty x p => .as (fun _ _ _ _ => rfl) (elabPat_spec p)

theorem buildSubPats_spec : ∀ (ps : List TPat) {ctx : ElabCtx} {n n1 : Int} {r : SubPats},
    ctx.env = env → buildSubPats ps ctx n = .ok (r, n1) →
    n ≤ n1 ∧ Fields prims globals serial env ps n n1 r.1 r.2
  | [], ctx, n, n1, r, _, hrun => by
      cases hrun
      exact ⟨le_rfl, .nil n⟩
  | p :: ps, ctx, n, n1, r, henv, hrun => by
      rcases elab_bind_ok hrun with ⟨rest, n2, hrest, hrun⟩
      rcases buildSubPats_spec ps henv hrest with ⟨hn2, hfields⟩
      rcases buildSubPat_spec (elabPat_spec p) hrun with ⟨rfl, b, w, hb, rfl, hw⟩
      have hnew : n ≤ (binderUnique b).id ∧ (binderUnique b).id < n2 + 1 := by
        rw [hb]
        exact ⟨hn2, Int.lt_add_one_iff.mpr le_rfl⟩
      have hne : binderUnique b ∉ rest.1.map binderUnique := by
        intro hmem
        rcases List.mem_map.mp hmem with ⟨b', hb', heq⟩
        have := (hfields.new b' hb').2
        rw [heq, hb] at this
        exact Int.lt_irrefl n2 this
      rw [← hb] at hw
      have hcons : Fields prims globals serial env (p :: ps) n (n2 + 1) (b :: rest.1)
          (fun inner => w (rest.2 inner)) :=
        .cons hnew hne hw (hfields.widen le_rfl (Int.le_add_one le_rfl))
      exact ⟨hn2.trans (Int.le_add_one le_rfl), hcons⟩

theorem recordFields_spec : ∀ (ps : List TPat) (scrut : Atom) (labels : List String) {n : Int},
    Wrapper prims globals serial env (buildRecordFieldBindings scrut labels ps) n n
      ((clauseVars ps).map (·.1)) fun _ r => ps = [] ∧ r = some []
  | [], scrut, labels, n => by
      have hid : buildRecordFieldBindings scrut labels [] = fun inner => inner := by
        funext inner
        cases labels <;> rfl
      rw [hid]
      exact (Wrapper.id le_rfl).mono le_rfl le_rfl fun _ _ h => h.2
  | p :: ps, scrut, [], n => by
      have hid : buildRecordFieldBindings scrut [] (p :: ps) = fun inner => inner := rfl
      rw [hid]
      intro body ctx m e n' hm _ hctx hrun
      exact ⟨ctx, m, e, hrun, le_rfl, (Extends.refl hctx).mono hm (by simp),
        fun _ _ _ h => absurd h.1 (List.cons_ne_nil p ps)⟩
  | p :: ps, scrut, l :: labels, n => by
      have hfield : Wrapper prims globals serial env
          (buildRecordFieldBinding scrut l p fun a => elabPat a p) n n (patNames p)
          fun _ _ => False := buildRecordFieldBinding_spec le_rfl (elabPat_spec p)
      have hcomp := hfield.comp (recordFields_spec ps scrut labels) fun _ _ _ _ h => h
      rw [clauseVars, List.map_append]
      exact hcomp.mono le_rfl le_rfl fun _ _ h => absurd h.1 (List.cons_ne_nil p ps)

end

end Flat

end Wok.Proofs.Case
