/-
Module: Wok.Proofs.Coverage
Layer: Proofs
Purpose: The coverage analysis is exact where every type has a value, and the
  decision tree of the matrix has the reachable leaves that it reports.
Imports: Wok.Spec.Coverage, Wok.Proofs.Match
Trusted boundary: none
Main exports: analyzeN_exact, matchCoverage_exact
-/
import Wok.Spec.Coverage
import Wok.Proofs.Match

namespace Wok.Proofs.Coverage

open Wok.IR Wok.Interp Wok.Spec.Match Wok.Spec.Coverage Wok.Proofs.Match
open Wok.TypeChecking (CType TypeEnv)

/-! ### As-patterns -/

theorem stripAs_eq (a : Atom) (p : MPat) : stripAs p = (peelCol a p).1 := by
  fun_induction stripAs p with
  | case1 _ _ _ ih => exact ih
  | case2 p hp =>
      cases p with
      | as ty x q => exact absurd rfl (hp ty x q)
      | _ => rfl

theorem stripAs_matches (p : MPat) (v : Value) : (stripAs p).matches v = p.matches v := by
  rw [stripAs_eq .unit, peelCol_matches]

theorem stripAs_size (p : MPat) : (stripAs p).size ≤ p.size := by
  rw [stripAs_eq .unit]
  exact peelCol_size .unit p

theorem stripAs_lits (p : MPat) : (stripAs p).lits = p.lits := by
  fun_induction stripAs p with
  | case1 _ _ _ ih => rw [ih, MPat.lits]
  | case2 p hp => rfl

theorem stripRow_matches (vs : List Value) (r : Row) :
    rowMatches vs (stripRow r) = rowMatches vs r := by
  have h : ∀ ps vs, MPat.matchesAll (ps.map stripAs) vs = MPat.matchesAll ps vs := by
    intro ps
    induction ps with
    | nil => exact fun _ => rfl
    | cons p ps ih =>
        intro vs
        rcases vs with _ | ⟨v, vs⟩
        · rfl
        · rw [List.map_cons, MPat.matchesAll, MPat.matchesAll, stripAs_matches, ih]
  exact h r.pats vs

theorem stripRow_size (rows : List Row) : matrixSize (rows.map stripRow) ≤ matrixSize rows := by
  have h : ∀ ps, sizes (ps.map stripAs) ≤ sizes ps := by
    intro ps
    induction ps with
    | nil => exact le_rfl
    | cons p ps ih => exact Nat.add_le_add (stripAs_size p) ih
  induction rows with
  | nil => exact le_rfl
  | cons r rows ih =>
      rw [List.map_cons, matrixSize_cons, matrixSize_cons]
      exact Nat.add_le_add (h r.pats) ih

theorem stripRow_lits (r : Row) : MPat.litsAll (stripRow r).pats = MPat.litsAll r.pats := by
  have h : ∀ ps, MPat.litsAll (ps.map stripAs) = MPat.litsAll ps := by
    intro ps
    induction ps with
    | nil => rfl
    | cons p ps ih => rw [List.map_cons, MPat.litsAll, MPat.litsAll, stripAs_lits, ih]
  exact h r.pats

theorem stripRow_peeled (r : Row) : peeled (stripRow r) := by
  intro i ty x p heq
  have hpat : (stripRow r).pat i = stripAs (r.pat i) := by
    rw [Row.pat, Row.pat, stripRow, List.getD_eq_getElem?_getD, List.getD_eq_getElem?_getD,
      List.getElem?_map]
    cases r.pats[i]? <;> rfl
  rw [hpat, stripAs_eq .unit] at heq
  exact peelCol_fst_ne_as _ _ _ _ _ heq

/-! ### What is left of a row -/

/-- The index of the first clause that matches. -/
def first (rows : List Row) (vs : List Value) : Option Nat :=
  (rows.find? (rowMatches vs)).map (·.index)

/-- What is left of a row once part of the match is known. -/
def Keeps (vs vs' : List Value) (r : Row) (rs : List Row) : Prop :=
  (rs = [] ∧ rowMatches vs r = false) ∨
    ∃ r', rs = [r'] ∧ r'.index = r.index ∧ rowMatches vs' r' = rowMatches vs r

theorem first_flatMap {rows : List Row} {vs vs' : List Value} {f : Row → List Row}
    (h : ∀ r ∈ rows, Keeps vs vs' r (f r)) : first (rows.flatMap f) vs' = first rows vs := by
  induction rows with
  | nil => rfl
  | cons r rows ih =>
      have htail := ih fun r' hr' => h r' (List.mem_cons_of_mem r hr')
      rcases h r List.mem_cons_self with ⟨hf, hno⟩ | ⟨r', hf, hindex, hm⟩
      · rw [List.flatMap_cons, hf, List.nil_append, htail, first, first, List.find?_cons, hno]
      · rw [List.flatMap_cons, hf, List.singleton_append, first, first, List.find?_cons,
          List.find?_cons, hm]
        cases rowMatches vs r with
        | true => exact congrArg some hindex
        | false => exact htail

section Column

variable {i : Nat} {r : Row} {pre post : List MPat} {p : MPat} {vpre vpost : List Value}
  {v : Value}

theorem column_matches (hcol : Column i r pre p post) (hvpre : vpre.length = i) :
    rowMatches (vpre ++ v :: vpost) r =
      (MPat.matchesAll pre vpre && (p.matches v && MPat.matchesAll post vpost)) := by
  rw [rowMatches, hcol.pats, matchesAll_append (hcol.index.trans hvpre.symm), MPat.matchesAll]

theorem Keeps.replace {q : List MPat} {u : List Value} (hcol : Column i r pre p post)
    (hvpre : vpre.length = i) (hlen : q.length = u.length)
    (hq : MPat.matchesAll q u = p.matches v) :
    Keeps (vpre ++ v :: vpost) (u ++ (vpre ++ vpost)) r
      [{ r with pats := q ++ (pre ++ post) }] := by
  refine .inr ⟨_, rfl, rfl, ?_⟩
  rw [column_matches hcol hvpre, rowMatches, matchesAll_append hlen,
    matchesAll_append (hcol.index.trans hvpre.symm), hq]
  rw [← Bool.and_assoc, ← Bool.and_assoc, Bool.and_comm (p.matches v)]

theorem Keeps.drop (hcol : Column i r pre p post) (hvpre : vpre.length = i)
    (hno : p.matches v = false) {vs' : List Value} : Keeps (vpre ++ v :: vpost) vs' r [] := by
  refine .inl ⟨rfl, ?_⟩
  rw [column_matches hcol hvpre, hno, Bool.false_and, Bool.and_false]

/-- The row under the constructor of the value. -/
theorem specConP_keeps {c : String} {ws : List Value} (hcol : Column i r pre (r.pat i) post)
    (hpeel : peeled r) (hvpre : vpre.length = i)
    (hsubs : ∀ ty subs, r.pat i = .con ty c subs → subs.length = ws.length) :
    Keeps (vpre ++ .con c ws :: vpost) (ws ++ (vpre ++ vpost)) r (specConP c ws.length i r) := by
  rw [specConP, hcol.removeAt]
  cases hp : r.pat i with
  | con ty c' subs =>
      rw [hp] at hcol
      by_cases hc : c' = c
      · subst hc
        simp only [if_true]
        refine .replace hcol hvpre (hsubs ty subs hp) ?_
        rw [MPat.matches, beq_self_eq_true, Bool.true_and]
      · simp only [if_neg hc]
        refine .drop hcol hvpre ?_
        rw [MPat.matches, beq_false_of_ne (Ne.symm hc), Bool.false_and]
  | var ty mv =>
      rw [hp] at hcol
      exact .replace hcol hvpre List.length_replicate (matchesAll_wild ws)
  | lit ty l => exact .drop (hp ▸ hcol) hvpre rfl
  | as ty x p => exact absurd hp (hpeel i ty x p)

/-- The row under the literal that the value is. -/
theorem specLitP_keeps {l : Lit} (hcol : Column i r pre (r.pat i) post) (hpeel : peeled r)
    (hvpre : vpre.length = i) :
    Keeps (vpre ++ .lit l :: vpost) (vpre ++ vpost) r (specLitP l i r) := by
  rw [specLitP, hcol.removeAt]
  cases hp : r.pat i with
  | con ty c subs => exact .drop (hp ▸ hcol) hvpre rfl
  | var ty mv => exact .replace (q := []) (u := []) (hp ▸ hcol) hvpre rfl rfl
  | lit ty l' =>
      rw [hp] at hcol
      by_cases hl : l' = l
      · subst hl
        simp only [if_true]
        refine .replace (q := []) (u := []) hcol hvpre rfl ?_
        simp [MPat.matches, MPat.matchesAll]
      · simp only [if_neg hl]
        refine .drop hcol hvpre ?_
        rw [MPat.matches, beq_false_of_ne (Ne.symm hl)]
  | as ty x p => exact absurd hp (hpeel i ty x p)

/-- The row where the value has no head of the column. -/
theorem defaultRowP_keeps (hcol : Column i r pre (r.pat i) post) (hpeel : peeled r)
    (hvpre : vpre.length = i) (hno : ∀ h, (r.pat i).head = some h → headOf v ≠ some h) :
    Keeps (vpre ++ v :: vpost) (vpre ++ vpost) r (defaultRowP i r) := by
  have hdrop : ∀ h, (r.pat i).head = some h → (r.pat i).matches v = false := by
    intro h hh
    rw [Bool.eq_false_iff]
    exact fun hm => hno h hh (headOf_of_matches hh hm)
  rw [defaultRowP, hcol.removeAt]
  cases hp : r.pat i with
  | var ty mv => exact .replace (q := []) (u := []) (hp ▸ hcol) hvpre rfl rfl
  | con ty c subs =>
      rw [hp] at hcol hdrop
      exact .drop hcol hvpre (hdrop _ rfl)
  | lit ty l =>
      rw [hp] at hcol hdrop
      exact .drop hcol hvpre (hdrop _ rfl)
  | as ty x p => exact absurd hp (hpeel i ty x p)

/-! ### Sizes -/

theorem specConP_smaller (c : String) (arity : Nat) (hcol : Column i r pre (r.pat i) post) :
    Smaller i r (specConP c arity i r) := by
  rw [specConP, hcol.removeAt]
  cases hp : r.pat i with
  | con ty c' subs =>
      rw [hp] at hcol
      by_cases hc : c' = c
      · simp only [hc, if_true]
        exact .keep hcol (by simp [MPat.size]) (by simp [MPat.size])
      · simp only [if_neg hc]
        exact .drop hcol
  | var ty mv =>
      rw [hp] at hcol
      exact .keep hcol (by simp [sizes_wild]) (by simp [isWildP])
  | lit ty l => exact .drop hcol
  | as ty x p => exact .drop hcol

theorem specLitP_smaller (l : Lit) (hcol : Column i r pre (r.pat i) post) :
    Smaller i r (specLitP l i r) := by
  rw [specLitP, hcol.removeAt]
  cases hp : r.pat i with
  | con ty c subs => exact .drop hcol
  | var ty mv => exact .keep (q := []) (p := .var ty mv) (hp ▸ hcol) (Nat.zero_le _) nofun
  | lit ty l' =>
      by_cases hl : l' = l
      · simp only [hl, if_true]
        exact .keep (q := []) (p := .lit ty l') (hp ▸ hcol) (Nat.zero_le _) fun _ => Nat.one_pos
      · simp only [if_neg hl]
        exact .drop hcol
  | as ty x p => exact .drop hcol

theorem defaultRowP_smaller (hcol : Column i r pre (r.pat i) post) :
    Smaller i r (defaultRowP i r) := by
  rw [defaultRowP, hcol.removeAt]
  cases hp : r.pat i with
  | var ty mv => exact .keep (q := []) (p := .var ty mv) (hp ▸ hcol) (Nat.zero_le _) nofun
  | _ => exact .drop hcol

end Column

/-! ### Typed rows -/

section Typed

variable {τ : Type} {sig : Signature τ} {ls : List Lit}

theorem forall₂_append_inv {α β : Type} {R : α → β → Prop} {as bs : List α} {cs : List β}
    (h : List.Forall₂ R (as ++ bs) cs) :
    ∃ cs1 cs2, cs = cs1 ++ cs2 ∧ List.Forall₂ R as cs1 ∧ List.Forall₂ R bs cs2 := by
  induction as generalizing cs with
  | nil => exact ⟨[], cs, rfl, .nil, h⟩
  | cons a as ih =>
      cases h with
      | @cons _ c _ cs hc hcs =>
          rcases ih hcs with ⟨cs1, cs2, rfl, h1, h2⟩
          exact ⟨c :: cs1, cs2, rfl, .cons hc h1, h2⟩

/-- A tag has one list of fields. -/
theorem eq_of_tag {cons : List (String × List τ)} {c : String} {tys tys' : List τ}
    (hnodup : (cons.map (·.1)).Nodup) (h : (c, tys) ∈ cons) (h' : (c, tys') ∈ cons) :
    tys = tys' := by
  have := List.inj_on_of_nodup_map hnodup h h' rfl
  exact congrArg Prod.snd this

/-- A row with patterns of these types and with literals among `ls`. -/
structure RowTyped (sig : Signature τ) (ls : List Lit) (tys : List τ) (r : Row) : Prop where
  pats : List.Forall₂ sig.PatType tys r.pats
  lits : ∀ l ∈ MPat.litsAll r.pats, l ∈ ls

theorem patType_stripAs {t : τ} {p : MPat} (h : sig.PatType t p) :
    sig.PatType t (IR.stripAs p) := by
  fun_induction IR.stripAs p with
  | case1 _ _ _ ih =>
      cases h with
      | as hinner => exact ih hinner
  | case2 p hp => exact h

theorem RowTyped.strip {tys : List τ} {r : Row} (h : RowTyped sig ls tys r) :
    RowTyped sig ls tys (stripRow r) where
  pats := by
    rw [stripRow, List.forall₂_map_right_iff]
    exact h.pats.imp fun _ _ hp => patType_stripAs hp
  lits := by
    rw [stripRow_lits]
    exact h.lits

theorem litsAll_append (ps ps' : List MPat) :
    MPat.litsAll (ps ++ ps') = MPat.litsAll ps ++ MPat.litsAll ps' := by
  induction ps with
  | nil => rfl
  | cons p ps ih => rw [List.cons_append, MPat.litsAll, MPat.litsAll, ih, List.append_assoc]

theorem litsAll_wild (n : Nat) : MPat.litsAll (List.replicate n wildField) = [] := by
  induction n with
  | zero => rfl
  | succ n ih => rw [List.replicate_succ, MPat.litsAll, ih]; rfl

theorem patTypes_wild (tys : List τ) :
    List.Forall₂ sig.PatType tys (List.replicate tys.length wildField) := by
  induction tys with
  | nil => exact .nil
  | cons t tys ih => exact .cons .var ih

variable {i : Nat} {r : Row} {tpre tpost : List τ} {t : τ}

theorem RowTyped.column (h : RowTyped sig ls (tpre ++ t :: tpost) r) (hi : tpre.length = i) :
    ∃ pre post, Column i r pre (r.pat i) post ∧ List.Forall₂ sig.PatType tpre pre ∧
      sig.PatType t (r.pat i) ∧ List.Forall₂ sig.PatType tpost post := by
  rcases forall₂_append_inv h.pats with ⟨pre, rest, heq, hpre, hrest⟩
  cases hrest with
  | @cons _ p _ post hp hpost =>
      have hcol : Column i r pre p post := ⟨heq, hpre.length_eq ▸ hi⟩
      refine ⟨pre, post, hcol.pat ▸ hcol, hpre, ?_, hpost⟩
      rw [hcol.pat]
      exact hp

theorem RowTyped.replace {pre post q : List MPat} {p : MPat} {qtys : List τ}
    (h : RowTyped sig ls (tpre ++ t :: tpost) r) (hcol : Column i r pre p post)
    (hpre : List.Forall₂ sig.PatType tpre pre) (hpost : List.Forall₂ sig.PatType tpost post)
    (hq : List.Forall₂ sig.PatType qtys q) (hlits : ∀ l ∈ MPat.litsAll q, l ∈ p.lits) :
    RowTyped sig ls (qtys ++ (tpre ++ tpost)) { r with pats := q ++ (pre ++ post) } where
  pats := List.rel_append hq (List.rel_append hpre hpost)
  lits l hl := by
    refine h.lits l ?_
    rw [hcol.pats, litsAll_append, MPat.litsAll]
    simp only [litsAll_append, List.mem_append] at hl ⊢
    rcases hl with hl | hl | hl
    · exact .inr (.inl (hlits l hl))
    · exact .inl hl
    · exact .inr (.inr hl)

theorem specConP_typed {c : String} {cons : List (String × List τ)} {ctys : List τ} {r' : Row}
    (h : RowTyped sig ls (tpre ++ t :: tpost) r) (hi : tpre.length = i)
    (hshape : sig.shape t = .data cons) (hc : (c, ctys) ∈ cons)
    (hr' : r' ∈ specConP c ctys.length i r) :
    RowTyped sig ls (ctys ++ (tpre ++ tpost)) r' := by
  rcases h.column hi with ⟨pre, post, hcol, hpre, hp, hpost⟩
  rw [specConP, hcol.removeAt] at hr'
  cases hpat : r.pat i with
  | con ty c' subs =>
      rw [hpat] at hr' hp hcol
      by_cases hcc : c' = c
      · subst hcc
        simp only [if_true, List.mem_singleton] at hr'
        subst hr'
        cases hp with
        | con hshape' hmem hsubs =>
            rw [hshape] at hshape'
            cases hshape'
            have heq := eq_of_tag (sig.tags_nodup t _ hshape) hc hmem
            subst heq
            refine h.replace hcol hpre hpost hsubs fun l hl => ?_
            rwa [MPat.lits]
      · simp only [if_neg hcc] at hr'
        cases hr'
  | var ty mv =>
      rw [hpat] at hr' hcol
      rw [List.mem_singleton] at hr'
      subst hr'
      refine h.replace hcol hpre hpost (patTypes_wild ctys) fun l hl => ?_
      rw [litsAll_wild] at hl
      cases hl
  | lit ty l =>
      rw [hpat] at hr'
      cases hr'
  | as ty x p =>
      rw [hpat] at hr'
      cases hr'

theorem specLitP_typed {l : Lit} {r' : Row} (h : RowTyped sig ls (tpre ++ t :: tpost) r)
    (hi : tpre.length = i) (hr' : r' ∈ specLitP l i r) : RowTyped sig ls (tpre ++ tpost) r' := by
  rcases h.column hi with ⟨pre, post, hcol, hpre, hp, hpost⟩
  have hkeep : RowTyped sig ls (tpre ++ tpost) { r with pats := pre ++ post } :=
    h.replace (q := []) hcol hpre hpost .nil nofun
  rw [specLitP, hcol.removeAt] at hr'
  cases hpat : r.pat i with
  | con ty c subs =>
      rw [hpat] at hr'
      cases hr'
  | var ty mv =>
      rw [hpat, List.mem_singleton] at hr'
      exact hr' ▸ hkeep
  | lit ty l' =>
      rw [hpat] at hr'
      by_cases hl : l' = l
      · simp only [hl, if_true, List.mem_singleton] at hr'
        exact hr' ▸ hkeep
      · simp only [if_neg hl] at hr'
        cases hr'
  | as ty x p =>
      rw [hpat] at hr'
      cases hr'

theorem defaultRowP_typed {r' : Row} (h : RowTyped sig ls (tpre ++ t :: tpost) r)
    (hi : tpre.length = i) (hr' : r' ∈ defaultRowP i r) : RowTyped sig ls (tpre ++ tpost) r' := by
  rcases h.column hi with ⟨pre, post, hcol, hpre, hp, hpost⟩
  have hkeep : RowTyped sig ls (tpre ++ tpost) { r with pats := pre ++ post } :=
    h.replace (q := []) hcol hpre hpost .nil nofun
  rw [defaultRowP, hcol.removeAt] at hr'
  cases hpat : r.pat i with
  | var ty mv =>
      rw [hpat, List.mem_singleton] at hr'
      exact hr' ▸ hkeep
  | _ =>
      rw [hpat] at hr'
      cases hr'

end Typed

/-! ### The analysis -/

section Analysis

variable {τ : Type} {sig : Signature τ} {oracle : ConOracle} {ls : List Lit}

/-- The analysis reports that a clause is reached, or that a failure leaf is. -/
def Reports (res : List Nat × Bool) : Option Nat → Prop
  | some ix => ix ∈ res.1
  | none => res.2 = true

/-- What is reported is what some vector of values of these types and in `Q` comes
to. -/
def Reaches (sig : Signature τ) (tys : List τ) (rows : List Row) (Q : List Value → Prop)
    (o : Option Nat) : Prop :=
  ∃ vs, List.Forall₂ sig.HasType tys vs ∧ Q vs ∧ first rows vs = o

def Exact (sig : Signature τ) (tys : List τ) (rows : List Row) (res : List Nat × Bool) : Prop :=
  ∀ o, Reports res o ↔ Reaches sig tys rows (fun _ => True) o

/-- An analysis that is exact on the matrices of less than a given size. -/
def Analyzes (sig : Signature τ) (ls : List Lit) (analyze : Nat → List Row → List Nat × Bool)
    (bound : Nat) : Prop :=
  ∀ tys rows, matrixSize rows < bound → (∀ r ∈ rows, RowTyped sig ls tys r) →
    Exact sig tys rows (analyze tys.length rows)

/-- A matrix in the middle of the analysis: column `i`, of type `t`, has a test. -/
structure Split (sig : Signature τ) (ls : List Lit) (i : Nat) (tpre : List τ) (t : τ)
    (tpost : List τ) (rows : List Row) : Prop where
  column : tpre.length = i
  typed : ∀ r ∈ rows, RowTyped sig ls (tpre ++ t :: tpost) r
  peeled : ∀ r ∈ rows, peeled r
  test : ∃ r ∈ rows, isWildP (r.pat i) = false

variable {i : Nat} {tpre tpost : List τ} {t : τ} {rows : List Row}
  {analyze : Nat → List Row → List Nat × Bool}

theorem exists_values (hrich : sig.Rich ls) (tys : List τ) :
    ∃ vs, List.Forall₂ sig.HasType tys vs := by
  induction tys with
  | nil => exact ⟨[], .nil⟩
  | cons t tys ih =>
      rcases hrich.inhabited t with ⟨v, hv⟩
      rcases ih with ⟨vs, hvs⟩
      exact ⟨v :: vs, .cons hv hvs⟩

/-- The vectors whose value in column `i` has head `h`. -/
def HasHead (i : Nat) (h : Head) (vs : List Value) : Prop :=
  ∃ vpre v vpost, vs = vpre ++ v :: vpost ∧ vpre.length = i ∧ headOf v = some h

theorem values_column {vpre vpost : List Value} {v : Value} (hi : tpre.length = vpre.length)
    (h : List.Forall₂ sig.HasType (tpre ++ t :: tpost) (vpre ++ v :: vpost)) :
    List.Forall₂ sig.HasType tpre vpre ∧ sig.HasType t v ∧
      List.Forall₂ sig.HasType tpost vpost := by
  rcases forall₂_append_inv h with ⟨cs1, cs2, heq, h1, h2⟩
  rcases List.append_inj heq (hi.symm.trans h1.length_eq) with ⟨rfl, rfl⟩
  cases h2 with
  | cons hv hvpost => exact ⟨h1, hv, hvpost⟩

theorem hasType_con {c : String} {cons : List (String × List τ)} {ctys : List τ} {v : Value}
    (hshape : sig.shape t = .data cons) (hc : (c, ctys) ∈ cons) (hv : sig.HasType t v)
    (hhead : headOf v = some (.con c)) :
    ∃ ws, v = .con c ws ∧ List.Forall₂ sig.HasType ctys ws := by
  cases hv with
  | @con _ _ c' tys ws hshape' hmem hws =>
      cases hhead
      rw [hshape] at hshape'
      cases hshape'
      have heq := eq_of_tag (sig.tags_nodup t _ hshape) hc hmem
      subst heq
      exact ⟨ws, rfl, hws⟩
  | lit _ _ => cases hhead
  | other hshape' =>
      rw [hshape] at hshape'
      cases hshape'

/-- The rows under a constructor come to what the vectors with it come to. -/
theorem analyzeBranch_con (hanalyze : Analyzes sig ls analyze (matrixSize rows))
    (hagrees : sig.Agrees oracle) (hsplit : Split sig ls i tpre t tpost rows)
    {c : String} {cons : List (String × List τ)} {ctys : List τ}
    (hshape : sig.shape t = .data cons) (hc : (c, ctys) ∈ cons) (o : Option Nat) :
    Reports (analyzeBranch oracle analyze i (tpre ++ tpost).length rows (.con c)) o ↔
      Reaches sig (tpre ++ t :: tpost) rows (HasHead i (.con c)) o := by
  have harity : oracle.coArity c = ctys.length := (hagrees t cons c ctys hshape hc).1
  have hsmall : matrixSize (rows.flatMap (specConP c ctys.length i)) < matrixSize rows := by
    refine matrixSize_flatMap_lt (fun r hr => ?_) hsplit.test
    rcases (hsplit.typed r hr).column hsplit.column with ⟨pre, post, hcol, _⟩
    exact specConP_smaller c ctys.length hcol
  have htyped : ∀ r' ∈ rows.flatMap (specConP c ctys.length i),
      RowTyped sig ls (ctys ++ (tpre ++ tpost)) r' := by
    intro r' hr'
    rcases List.mem_flatMap.mp hr' with ⟨r, hr, hr'⟩
    exact specConP_typed (hsplit.typed r hr) hsplit.column hshape hc hr'
  have hexact := hanalyze (ctys ++ (tpre ++ tpost)) _ hsmall htyped o
  have hkeeps : ∀ ws vpre vpost, List.Forall₂ sig.HasType ctys ws → vpre.length = i →
      ∀ r ∈ rows, Keeps (vpre ++ .con c ws :: vpost) (ws ++ (vpre ++ vpost)) r
        (specConP c ctys.length i r) := by
    intro ws vpre vpost hws hvpre r hr
    rcases (hsplit.typed r hr).column hsplit.column with ⟨pre, post, hcol, _, hp, _⟩
    rw [hws.length_eq]
    refine specConP_keeps hcol (hsplit.peeled r hr) hvpre fun ty subs hpat => ?_
    rw [hpat] at hp
    cases hp with
    | con hshape' hmem hsubs =>
        rw [hshape] at hshape'
        cases hshape'
        rw [← hsubs.length_eq, ← hws.length_eq, eq_of_tag (sig.tags_nodup t _ hshape) hc hmem]
  rw [analyzeBranch, harity, ← List.length_append]
  refine hexact.trans ⟨?_, ?_⟩
  · rintro ⟨vs, hvs, _, hfirst⟩
    rcases forall₂_append_inv hvs with ⟨ws, rest, rfl, hws, hrest⟩
    rcases forall₂_append_inv hrest with ⟨vpre, vpost, rfl, hvpre, hvpost⟩
    have hlen : vpre.length = i := hvpre.length_eq ▸ hsplit.column
    refine ⟨vpre ++ .con c ws :: vpost, ?_, ⟨vpre, _, vpost, rfl, hlen, rfl⟩, ?_⟩
    · exact List.rel_append hvpre (.cons (.con hshape hc hws) hvpost)
    · rw [← first_flatMap (hkeeps ws vpre vpost hws hlen)]
      exact hfirst
  · rintro ⟨vs, hvs, ⟨vpre, v, vpost, rfl, hlen, hhead⟩, hfirst⟩
    rcases values_column (hsplit.column.trans hlen.symm) hvs with ⟨hvpre, hv, hvpost⟩
    rcases hasType_con hshape hc hv hhead with ⟨ws, rfl, hws⟩
    refine ⟨ws ++ (vpre ++ vpost), List.rel_append hws (List.rel_append hvpre hvpost), trivial, ?_⟩
    rw [first_flatMap (hkeeps ws vpre vpost hws hlen)]
    exact hfirst

/-- The rows under a literal come to what the vectors with it come to. -/
theorem analyzeBranch_lit (hanalyze : Analyzes sig ls analyze (matrixSize rows))
    (hsplit : Split sig ls i tpre t tpost rows) {l : Lit} {kind : Lit → Prop}
    (hshape : sig.shape t = .lits kind) (hl : kind l) (o : Option Nat) :
    Reports (analyzeBranch oracle analyze i (tpre ++ tpost).length rows (.lit l)) o ↔
      Reaches sig (tpre ++ t :: tpost) rows (HasHead i (.lit l)) o := by
  have hsmall : matrixSize (rows.flatMap (specLitP l i)) < matrixSize rows := by
    refine matrixSize_flatMap_lt (fun r hr => ?_) hsplit.test
    rcases (hsplit.typed r hr).column hsplit.column with ⟨pre, post, hcol, _⟩
    exact specLitP_smaller l hcol
  have htyped : ∀ r' ∈ rows.flatMap (specLitP l i), RowTyped sig ls (tpre ++ tpost) r' := by
    intro r' hr'
    rcases List.mem_flatMap.mp hr' with ⟨r, hr, hr'⟩
    exact specLitP_typed (hsplit.typed r hr) hsplit.column hr'
  have hkeeps : ∀ vpre vpost, vpre.length = i →
      ∀ r ∈ rows, Keeps (vpre ++ .lit l :: vpost) (vpre ++ vpost) r (specLitP l i r) := by
    intro vpre vpost hvpre r hr
    rcases (hsplit.typed r hr).column hsplit.column with ⟨pre, post, hcol, _⟩
    exact specLitP_keeps hcol (hsplit.peeled r hr) hvpre
  rw [analyzeBranch]
  refine (hanalyze (tpre ++ tpost) _ hsmall htyped o).trans ⟨?_, ?_⟩
  · rintro ⟨vs, hvs, _, hfirst⟩
    rcases forall₂_append_inv hvs with ⟨vpre, vpost, rfl, hvpre, hvpost⟩
    have hlen : vpre.length = i := hvpre.length_eq ▸ hsplit.column
    refine ⟨vpre ++ .lit l :: vpost, ?_, ⟨vpre, _, vpost, rfl, hlen, rfl⟩, ?_⟩
    · exact List.rel_append hvpre (.cons (.lit hshape hl) hvpost)
    · rw [← first_flatMap (hkeeps vpre vpost hlen)]
      exact hfirst
  · rintro ⟨vs, hvs, ⟨vpre, v, vpost, rfl, hlen, hhead⟩, hfirst⟩
    rcases values_column (hsplit.column.trans hlen.symm) hvs with ⟨hvpre, hv, hvpost⟩
    have heq : v = .lit l := by
      cases v with
      | lit l' =>
          cases hhead
          rfl
      | con c ws => cases hhead
      | _ => cases hhead
    subst heq
    refine ⟨vpre ++ vpost, List.rel_append hvpre hvpost, trivial, ?_⟩
    rw [first_flatMap (hkeeps vpre vpost hlen)]
    exact hfirst

/-- A head of the column is one of the declared constructors, or a literal of the
column's kind. -/
theorem head_typed (hsplit : Split sig ls i tpre t tpost rows) {h : Head}
    (hh : h ∈ nubHeads (rows.map (·.pat i))) :
    (∃ c cons ctys, h = .con c ∧ sig.shape t = .data cons ∧ (c, ctys) ∈ cons) ∨
      ∃ l kind, h = .lit l ∧ sig.shape t = .lits kind ∧ kind l ∧ l ∈ ls := by
  rcases mem_columnHeads.mp hh with ⟨r, hr, hhead⟩
  rcases (hsplit.typed r hr).column hsplit.column with ⟨pre, post, hcol, _, hp, _⟩
  cases hpat : r.pat i with
  | con ty c subs =>
      rw [hpat] at hp hhead
      cases hhead
      cases hp with
      | con hshape hmem _ => exact .inl ⟨c, _, _, rfl, hshape, hmem⟩
  | lit ty l =>
      rw [hpat] at hp hhead hcol
      cases hhead
      cases hp with
      | lit hshape hl =>
          refine .inr ⟨l, _, rfl, hshape, hl, (hsplit.typed r hr).lits l ?_⟩
          rw [hcol.pats, litsAll_append, MPat.litsAll, MPat.lits]
          exact List.mem_append_right _ (List.mem_append_left _ (List.mem_singleton_self l))
  | var ty mv =>
      rw [hpat] at hhead
      cases hhead
  | as ty x p => exact absurd hpat (hsplit.peeled r hr i ty x p)

theorem analyzeBranch_exact (hanalyze : Analyzes sig ls analyze (matrixSize rows))
    (hagrees : sig.Agrees oracle) (hsplit : Split sig ls i tpre t tpost rows) {h : Head}
    (hh : h ∈ nubHeads (rows.map (·.pat i))) (o : Option Nat) :
    Reports (analyzeBranch oracle analyze i (tpre ++ tpost).length rows h) o ↔
      Reaches sig (tpre ++ t :: tpost) rows (HasHead i h) o := by
  rcases head_typed hsplit hh with ⟨c, cons, ctys, rfl, hshape, hc⟩ | ⟨l, kind, rfl, hshape, hl, _⟩
  · exact analyzeBranch_con hanalyze hagrees hsplit hshape hc o
  · exact analyzeBranch_lit hanalyze hsplit hshape hl o

/-- The vectors whose value in column `i` has none of the heads. -/
def HasNoHead (i : Nat) (heads : List Head) (vs : List Value) : Prop :=
  ∃ vpre v vpost, vs = vpre ++ v :: vpost ∧ vpre.length = i ∧ ∀ h ∈ heads, headOf v ≠ some h

/-- Complete heads leave no value. -/
theorem complete_hasHead (hagrees : sig.Agrees oracle)
    (hsplit : Split sig ls i tpre t tpost rows)
    (hcomplete : completeHeads oracle (nubHeads (rows.map (·.pat i))) = true) {v : Value}
    (hv : sig.HasType t v) : ∃ h ∈ nubHeads (rows.map (·.pat i)), headOf v = some h := by
  rcases completeHeads_inv hcomplete with ⟨c, sibs, hmem, hsibs, hall⟩
  rcases head_typed hsplit hmem with ⟨c', cons, ctys, heq, hshape, hc⟩ | ⟨l, kind, heq, _⟩
  · cases heq
    rw [(hagrees t cons c ctys hshape hc).2] at hsibs
    cases hsibs
    cases hv with
    | @con _ _ c' tys vs hshape' hmem' _ =>
        rw [hshape] at hshape'
        cases hshape'
        exact ⟨.con c', hall c' (List.mem_map_of_mem hmem'), rfl⟩
    | lit hshape' _ =>
        rw [hshape] at hshape'
        cases hshape'
    | other hshape' =>
        rw [hshape] at hshape'
        cases hshape'
  · cases heq

/-- Heads that are all the constructors of their type are complete. -/
theorem completeHeads_of_all (sibs : List String) {heads : List Head} {c : String}
    (hc : .con c ∈ heads) (hlit : ∀ l, Head.lit l ∉ heads)
    (hsibs : ∀ c, .con c ∈ heads → oracle.coSiblings c = some sibs)
    (hall : ∀ c ∈ sibs, .con c ∈ heads) : completeHeads oracle heads = true := by
  have hmem : ∀ c, c ∈ heads.filterMap Head.conTag ↔ .con c ∈ heads := by
    intro c
    rw [List.mem_filterMap]
    constructor
    · rintro ⟨h, hh, heq⟩
      cases h with
      | con c' =>
          cases heq
          exact hh
      | lit l => cases heq
    · exact fun h => ⟨.con c, h, rfl⟩
  have hnoLit : heads.any Head.isLit = false := by
    rw [List.any_eq_false]
    intro h hh
    cases h with
    | con c => exact Bool.false_ne_true
    | lit l => exact absurd hh (hlit l)
  rw [completeHeads, hnoLit]
  cases htags : heads.filterMap Head.conTag with
  | nil =>
      have := (hmem c).mpr hc
      rw [htags] at this
      cases this
  | cons c0 cs =>
      have hc0 : .con c0 ∈ heads := by
        rw [← hmem, htags]
        exact List.mem_cons_self
      simp only [hsibs c0 hc0, Bool.not_false, Bool.true_and, List.all_eq_true]
      intro c' hc'
      rw [← htags, List.contains_iff_mem, hmem]
      exact hall c' hc'

/-- A column with a test has a head. -/
theorem exists_head (hsplit : Split sig ls i tpre t tpost rows) :
    ∃ h, h ∈ nubHeads (rows.map (·.pat i)) := by
  rcases hsplit.test with ⟨r, hr, hwild⟩
  cases hpat : r.pat i with
  | con ty c subs => exact ⟨.con c, mem_columnHeads.mpr ⟨r, hr, by rw [hpat]; rfl⟩⟩
  | lit ty l => exact ⟨.lit l, mem_columnHeads.mpr ⟨r, hr, by rw [hpat]; rfl⟩⟩
  | var ty mv =>
      rw [hpat] at hwild
      cases hwild
  | as ty x p => exact absurd hpat (hsplit.peeled r hr i ty x p)

/-- Other heads leave a value. -/
theorem exists_other (hrich : sig.Rich ls) (hagrees : sig.Agrees oracle)
    (hsplit : Split sig ls i tpre t tpost rows)
    (hcomplete : completeHeads oracle (nubHeads (rows.map (·.pat i))) = false) :
    ∃ v, sig.HasType t v ∧ ∀ h ∈ nubHeads (rows.map (·.pat i)), headOf v ≠ some h := by
  rcases exists_head hsplit with ⟨h0, hh0⟩
  rcases head_typed hsplit hh0 with ⟨c0, cons, _, rfl, hshape, _⟩ | ⟨l0, kind, rfl, hshape, _⟩
  · -- some constructor is no head, else the heads were complete
    have hcons : ∀ h ∈ nubHeads (rows.map (·.pat i)), ∃ c ctys, h = .con c ∧ (c, ctys) ∈ cons := by
      intro h hh
      rcases head_typed hsplit hh with
        ⟨c, cons', ctys, rfl, hshape', hc⟩ | ⟨l, kind, rfl, hshape', _⟩
      · rw [hshape] at hshape'
        cases hshape'
        exact ⟨c, ctys, rfl, hc⟩
      · rw [hshape] at hshape'
        cases hshape'
    have hmissing : ∃ c ctys, (c, ctys) ∈ cons ∧ .con c ∉ nubHeads (rows.map (·.pat i)) := by
      by_contra hall
      rw [completeHeads_of_all (cons.map (·.1)) hh0] at hcomplete
      · cases hcomplete
      · intro l hl
        rcases hcons _ hl with ⟨c, _, heq, _⟩
        cases heq
      · intro c hc
        rcases hcons _ hc with ⟨c', ctys, heq, hmem⟩
        cases heq
        exact (hagrees t cons c ctys hshape hmem).2
      · intro c hc
        rcases List.mem_map.mp hc with ⟨⟨c', ctys⟩, hmem, rfl⟩
        by_contra hno
        exact hall ⟨c', ctys, hmem, hno⟩
    rcases hmissing with ⟨c, ctys, hc, hno⟩
    rcases exists_values hrich ctys with ⟨ws, hws⟩
    refine ⟨.con c ws, .con hshape hc hws, fun h hh heq => ?_⟩
    cases heq
    exact hno hh
  · rcases hrich.fresh t kind hshape with ⟨l, hl, hno⟩
    refine ⟨.lit l, .lit hshape hl, fun h hh heq => ?_⟩
    cases heq
    rcases head_typed hsplit hh with ⟨c, _, _, heq, _⟩ | ⟨l', _, heq, _, _, hmem⟩
    · cases heq
    · cases heq
      exact hno hmem

theorem analyzeDefault_exact (hanalyze : Analyzes sig ls analyze (matrixSize rows))
    (hrich : sig.Rich ls) (hagrees : sig.Agrees oracle)
    (hsplit : Split sig ls i tpre t tpost rows) (o : Option Nat) :
    Reports (analyzeDefault oracle analyze i (tpre ++ tpost).length rows
        (nubHeads (rows.map (·.pat i)))) o ↔
      Reaches sig (tpre ++ t :: tpost) rows (HasNoHead i (nubHeads (rows.map (·.pat i)))) o := by
  rw [analyzeDefault]
  by_cases hcomplete : completeHeads oracle (nubHeads (rows.map (·.pat i))) = true
  · rw [if_pos hcomplete]
    constructor
    · intro h
      cases o with
      | none => cases h
      | some ix => cases h
    · rintro ⟨vs, hvs, ⟨vpre, v, vpost, rfl, hlen, hno⟩, _⟩
      rcases values_column (hsplit.column.trans hlen.symm) hvs with ⟨_, hv, _⟩
      rcases complete_hasHead hagrees hsplit hcomplete hv with ⟨h, hh, hhead⟩
      exact absurd hhead (hno h hh)
  · rw [if_neg hcomplete]
    rw [Bool.not_eq_true] at hcomplete
    have hsmall : matrixSize (rows.flatMap (defaultRowP i)) < matrixSize rows := by
      refine matrixSize_flatMap_lt (fun r hr => ?_) hsplit.test
      rcases (hsplit.typed r hr).column hsplit.column with ⟨pre, post, hcol, _⟩
      exact defaultRowP_smaller hcol
    have htyped : ∀ r' ∈ rows.flatMap (defaultRowP i), RowTyped sig ls (tpre ++ tpost) r' := by
      intro r' hr'
      rcases List.mem_flatMap.mp hr' with ⟨r, hr, hr'⟩
      exact defaultRowP_typed (hsplit.typed r hr) hsplit.column hr'
    have hkeeps : ∀ vpre v vpost, vpre.length = i →
        (∀ h ∈ nubHeads (rows.map (·.pat i)), headOf v ≠ some h) →
        ∀ r ∈ rows, Keeps (vpre ++ v :: vpost) (vpre ++ vpost) r (defaultRowP i r) := by
      intro vpre v vpost hvpre hno r hr
      rcases (hsplit.typed r hr).column hsplit.column with ⟨pre, post, hcol, _⟩
      exact defaultRowP_keeps hcol (hsplit.peeled r hr) hvpre fun h hh =>
        hno h (mem_columnHeads.mpr ⟨r, hr, hh⟩)
    refine (hanalyze (tpre ++ tpost) _ hsmall htyped o).trans ⟨?_, ?_⟩
    · rintro ⟨vs, hvs, _, hfirst⟩
      rcases forall₂_append_inv hvs with ⟨vpre, vpost, rfl, hvpre, hvpost⟩
      rcases exists_other hrich hagrees hsplit hcomplete with ⟨v, hv, hno⟩
      have hlen : vpre.length = i := hvpre.length_eq ▸ hsplit.column
      refine ⟨vpre ++ v :: vpost, List.rel_append hvpre (.cons hv hvpost),
        ⟨vpre, v, vpost, rfl, hlen, hno⟩, ?_⟩
      rw [← first_flatMap (hkeeps vpre v vpost hlen hno)]
      exact hfirst
    · rintro ⟨vs, hvs, ⟨vpre, v, vpost, rfl, hlen, hno⟩, hfirst⟩
      rcases values_column (hsplit.column.trans hlen.symm) hvs with ⟨hvpre, _, hvpost⟩
      refine ⟨vpre ++ vpost, List.rel_append hvpre hvpost, trivial, ?_⟩
      rw [first_flatMap (hkeeps vpre v vpost hlen hno)]
      exact hfirst

/-- Switching on a column reports what one of the branches or the default does. -/
theorem reports_split {n : Nat} (o : Option Nat) :
    Reports (analyzeSplit oracle analyze i n rows) o ↔
      Reports (analyzeDefault oracle analyze i (n - 1) rows (nubHeads (rows.map (·.pat i)))) o ∨
        ∃ h ∈ nubHeads (rows.map (·.pat i)),
          Reports (analyzeBranch oracle analyze i (n - 1) rows h) o := by
  cases o with
  | none => simp [Reports, analyzeSplit]
  | some ix => simp [Reports, analyzeSplit]

theorem analyzeSplit_exact (hanalyze : Analyzes sig ls analyze (matrixSize rows))
    (hrich : sig.Rich ls) (hagrees : sig.Agrees oracle)
    (hsplit : Split sig ls i tpre t tpost rows) :
    Exact sig (tpre ++ t :: tpost) rows
      (analyzeSplit oracle analyze i (tpre ++ t :: tpost).length rows) := by
  intro o
  have hlen : (tpre ++ t :: tpost).length - 1 = (tpre ++ tpost).length := by
    simp
  rw [reports_split, hlen, analyzeDefault_exact hanalyze hrich hagrees hsplit]
  constructor
  · rintro (⟨vs, hvs, _, hfirst⟩ | ⟨h, hh, hreports⟩)
    · exact ⟨vs, hvs, trivial, hfirst⟩
    · rcases (analyzeBranch_exact hanalyze hagrees hsplit hh o).mp hreports with
        ⟨vs, hvs, _, hfirst⟩
      exact ⟨vs, hvs, trivial, hfirst⟩
  · rintro ⟨vs, hvs, _, hfirst⟩
    rcases forall₂_append_inv hvs with ⟨vpre, rest, rfl, hvpre, hrest⟩
    cases hrest with
    | @cons _ v _ vpost hv hvpost =>
        have hvlen : vpre.length = i := hvpre.length_eq ▸ hsplit.column
        by_cases hhead : ∃ h ∈ nubHeads (rows.map (·.pat i)), headOf v = some h
        · rcases hhead with ⟨h, hh, hv'⟩
          exact .inr ⟨h, hh, (analyzeBranch_exact hanalyze hagrees hsplit hh o).mpr
            ⟨_, hvs, ⟨vpre, v, vpost, rfl, hvlen, hv'⟩, hfirst⟩⟩
        · refine .inl ⟨_, hvs, ⟨vpre, v, vpost, rfl, hvlen, fun h hh heq => ?_⟩, hfirst⟩
          exact hhead ⟨h, hh, heq⟩

/-- The analysis is exact on every typed matrix. -/
theorem analyzeN_exact (hrich : sig.Rich ls) (hagrees : sig.Agrees oracle) (fuel : Nat) :
    Analyzes sig ls (analyzeN oracle fuel) fuel := by
  induction fuel with
  | zero => exact fun _ _ h => absurd h (Nat.not_lt_zero _)
  | succ fuel ih =>
      intro tys rows hsize htyped
      have hstrip : ∀ vs, first (rows.map stripRow) vs = first rows vs := by
        intro vs
        have hmap : rows.map stripRow = rows.flatMap fun r => [stripRow r] :=
          List.map_eq_flatMap ..
        rw [hmap]
        exact first_flatMap fun r _ => .inr ⟨stripRow r, rfl, rfl, stripRow_matches vs r⟩
      have hsmall : matrixSize (rows.map stripRow) ≤ fuel :=
        (stripRow_size rows).trans (Nat.le_of_lt_succ hsize)
      have hrows : ∀ r ∈ rows.map stripRow, RowTyped sig ls tys r ∧ peeled r := by
        intro r' hr'
        rcases List.mem_map.mp hr' with ⟨r, hr, rfl⟩
        exact ⟨(htyped r hr).strip, stripRow_peeled r⟩
      suffices h : Exact sig tys (rows.map stripRow) (analyzeN oracle (fuel + 1) tys.length rows) by
        intro o
        rw [h o]
        simp only [Reaches, hstrip]
      rw [analyzeN]
      cases hmatrix : rows.map stripRow with
      | nil =>
          intro o
          rcases exists_values hrich tys with ⟨vs, hvs⟩
          cases o with
          | none => exact ⟨fun _ => ⟨vs, hvs, trivial, rfl⟩, fun _ => rfl⟩
          | some ix =>
              constructor
              · intro h
                cases h
              · rintro ⟨_, _, _, h⟩
                cases h
      | cons r0 rest =>
          rw [hmatrix] at hrows hsmall
          by_cases hwild : r0.pats.all isWildP = true
          · simp only [hwild, if_true]
            have hfirst : ∀ vs, List.Forall₂ sig.HasType tys vs →
                first (r0 :: rest) vs = some r0.index := by
              intro vs hvs
              have hlen : r0.pats.length = vs.length :=
                (hrows r0 List.mem_cons_self).1.pats.length_eq.symm.trans hvs.length_eq
              have hm : rowMatches vs r0 = true := matchesAll_of_wild hlen hwild
              rw [first, List.find?_cons, hm]
              rfl
            intro o
            rcases exists_values hrich tys with ⟨vs, hvs⟩
            constructor
            · intro h
              cases o with
              | none => cases h
              | some ix =>
                  rw [List.mem_singleton.mp h]
                  exact ⟨vs, hvs, trivial, hfirst vs hvs⟩
            · rintro ⟨vs', hvs', _, h⟩
              rw [hfirst vs' hvs'] at h
              subst h
              exact List.mem_singleton_self _
          · have htest : ∃ c < tys.length, isWildP (r0.pat c) = false := by
              simp only [List.all_eq_true, not_forall, Bool.not_eq_true] at hwild
              rcases hwild with ⟨p, hp, hpw⟩
              rcases List.getElem_of_mem hp with ⟨c, hc, rfl⟩
              refine ⟨c, (hrows r0 List.mem_cons_self).1.pats.length_eq ▸ hc, ?_⟩
              rwa [Row.pat, List.getD_eq_getElem?_getD, List.getElem?_eq_getElem hc]
            rcases htest with ⟨c, hc, hpw⟩
            have hcol := pickCol_spec (r0 :: rest) hc ⟨r0, List.mem_cons_self, hpw⟩
            rcases split_at tys hcol.1 with ⟨tpre, t, tpost, rfl, hi⟩
            have hsplit : Split sig ls (pickCol (tpre ++ t :: tpost).length (r0 :: rest)) tpre t
                tpost (r0 :: rest) :=
              ⟨hi, fun r hr => (hrows r hr).1, fun r hr => (hrows r hr).2, hcol.2⟩
            have hanalyze : Analyzes sig ls (analyzeN oracle fuel) (matrixSize (r0 :: rest)) :=
              fun tys rows hlt => ih tys rows (Nat.lt_of_lt_of_le hlt hsmall)
            simp only [hwild]
            exact analyzeSplit_exact hanalyze hrich hagrees hsplit

/-! ### Coverage -/

theorem first_eq_none {vs : List Value} :
    first rows vs = none ↔ ∀ r ∈ rows, rowMatches vs r = false := by
  simp [first]

/-- An index tells the clause. -/
theorem first_eq_some {vs : List Value} {r : Row} (hindex : (rows.map (·.index)).Nodup)
    (hr : r ∈ rows) : first rows vs = some r.index ↔ rows.find? (rowMatches vs) = some r := by
  rw [first, Option.map_eq_some_iff]
  constructor
  · rintro ⟨r', hfind, heq⟩
    rw [hfind, List.inj_on_of_nodup_map hindex (List.mem_of_find?_eq_some hfind) hr heq]
  · exact fun h => ⟨r, h, rfl⟩

theorem coverage_exact {tys : List τ} {reached : List Nat} {anyFail : Bool}
    (hindex : (rows.map (·.index)).Nodup) (hexact : Exact sig tys rows (reached, anyFail)) :
    CoverageExact sig tys rows
      { redundant := (rows.filter fun r => !reached.contains r.index).map (·.index)
        exhaustive := !anyFail } where
  exhaustive := by
    have hnone := hexact none
    simp only [Reports, Reaches, true_and, first_eq_none] at hnone
    constructor
    · intro h vs hvs
      by_contra hno
      have : anyFail = true := hnone.mpr ⟨vs, hvs, fun r hr => by
        rw [Bool.eq_false_iff]
        exact fun hm => hno ⟨r, hr, hm⟩⟩
      simp [this] at h
    · intro h
      rw [Bool.not_eq_true', Bool.eq_false_iff]
      intro hfail
      rcases hnone.mp hfail with ⟨vs, hvs, hall⟩
      rcases h vs hvs with ⟨r, hr, hm⟩
      rw [hall r hr] at hm
      cases hm
  redundant r hr := by
    have hsome := hexact (some r.index)
    simp only [Reports, Reaches, true_and, first_eq_some hindex hr] at hsome
    have hred : r.index ∈ (rows.filter fun r => !reached.contains r.index).map (·.index) ↔
        r.index ∉ reached := by
      simp only [List.mem_map, List.mem_filter, Bool.not_eq_true', List.contains_eq_mem,
        decide_eq_false_iff_not]
      constructor
      · rintro ⟨r', ⟨_, hno⟩, heq⟩
        exact heq ▸ hno
      · exact fun h => ⟨r, ⟨hr, h⟩, rfl⟩
    change r.index ∈ (rows.filter fun r => !reached.contains r.index).map (·.index) ↔ _
    rw [hred, hsome]
    simp

theorem matchCoverage_of_analyze (tys : List τ) (hrich : sig.Rich ls)
    (hagrees : sig.Agrees oracle) (hindex : (rows.map (·.index)).Nodup)
    (htyped : ∀ r ∈ rows, RowTyped sig ls tys r) :
    CoverageExact sig tys rows (matchCoverage oracle tys.length rows) :=
  coverage_exact hindex
    (analyzeN_exact hrich hagrees (matrixSize rows + 1) tys rows (Nat.lt_succ_self _) htyped)

end Analysis

/-! ### The tree of the matrix -/

section Tree

variable {τ : Type} {sig : Signature τ} {oracle : ConOracle}

mutual

/-- A value of the type fits a pattern of the type. -/
theorem fits_of_typed (hagrees : sig.Agrees oracle) : ∀ {p : MPat} {t : τ} {v : Value},
    sig.PatType t p → sig.HasType t v → p.fits oracle v = true
  | .var .., _, _, _, _ => rfl
  | .lit .., _, _, _, _ => rfl
  | .as _ _ p, t, v, hp, hv => by
      cases hp with
      | as hinner =>
          rw [MPat.fits]
          exact fits_of_typed hagrees hinner hv
  | .con ty c ps, t, v, hp, hv => by
      cases hp with
      | @con _ cons _ _ tys _ hshape hmem hfields =>
          cases hv with
          | @con _ cons' c' tys' vs hshape' hmem' hvs =>
              rw [hshape] at hshape'
              cases hshape'
              have harity := (hagrees t cons c' tys' hshape hmem').1
              have hsibs := (hagrees t cons c tys hshape hmem).2
              have hc' : (cons.map (·.1)).contains c' = true := by
                rw [List.contains_iff_mem]
                exact List.mem_map_of_mem hmem'
              rw [MPat.fits, harity, hsibs, hvs.length_eq]
              by_cases hc : c' = c
              · subst hc
                have heq := eq_of_tag (sig.tags_nodup t _ hshape) hmem hmem'
                subst heq
                simp only [Option.all_some, hc', fitsAll_of_typed hagrees hfields hvs]
                simp
              · simp only [Option.all_some, hc']
                simp [hc]
          | lit hshape' _ =>
              rw [hshape] at hshape'
              cases hshape'
          | other hshape' =>
              rw [hshape] at hshape'
              cases hshape'

theorem fitsAll_of_typed (hagrees : sig.Agrees oracle) : ∀ {ps : List MPat} {tys : List τ}
    {vs : List Value}, List.Forall₂ sig.PatType tys ps → List.Forall₂ sig.HasType tys vs →
    MPat.fitsAll oracle ps vs = true
  | [], tys, vs, hps, hvs => by
      cases hps
      cases hvs
      rfl
  | p :: ps, tys, vs, hps, hvs => by
      cases hps with
      | cons hp hps =>
          cases hvs with
          | cons hv hvs =>
              rw [MPat.fitsAll, fits_of_typed hagrees hp hv, fitsAll_of_typed hagrees hps hvs]
              rfl

end

theorem resolves_bindNames {prims : PrimTable} {globals : Globals} {names : List Name}
    {vs : List Value} (hnodup : (names.map (·.uniq)).Nodup) (hlen : names.length = vs.length) :
    Resolves prims globals (bindNames names vs) (names.map .var) vs := by
  let bs : List Binder := names.map fun nm => ⟨nm, unitType⟩
  have hlen' : bs.length = vs.length := by
    rw [List.length_map, hlen]
  have hnodup' : (bs.map binderUnique).Nodup := by
    rw [List.map_map]
    exact hnodup
  have hlook := lookup_bindBinders [] hlen' hnodup'
  rw [List.forall₂_map_left_iff] at hlook
  rw [Resolves, List.forall₂_map_left_iff]
  refine hlook.imp fun nm v hv => ?_
  have hv' : (bindNames names vs).env.lookup nm.uniq = some v := hv
  simp only [resolveAtom, hv']

theorem treeAgrees {tys : List τ} {rows : List Row} {cov : Coverage} {names : List Name} {n : Int}
    {e : Expr} {prims : PrimTable} {globals : Globals} {serial : Nat} (k : Kont)
    (hagrees : sig.Agrees oracle) (htyped : ∀ r ∈ rows, List.Forall₂ sig.PatType tys r.pats)
    (hexact : CoverageExact sig tys rows cov) (hrows : ∀ r ∈ rows, Clause oracle names.length r)
    (hjoins : (rows.map (·.join)).Nodup) (hnodup : (names.map (·.uniq)).Nodup)
    (hlen : names.length = tys.length)
    (hdec : Decides prims globals serial oracle n (names.map .var) rows e) :
    TreeAgrees sig tys rows cov names e prims globals serial k := by
  have hruns : ∀ vs, List.Forall₂ sig.HasType tys vs →
      (∀ r, rows.find? (rowMatches vs) = some r →
        JumpsTo prims globals serial r vs k (.eval e (bindNames names vs) k)) ∧
      (rows.find? (rowMatches vs) = none →
        ReachesFailLeaf prims globals serial k (.eval e (bindNames names vs) k)) := by
    intro vs hvs
    refine clauses_run (by rwa [List.length_map]) hdec k
      (resolves_bindNames hnodup (hlen.trans hvs.length_eq)) fun r hr => ?_
    exact fitsAll_of_typed hagrees (htyped r hr) hvs
  constructor
  · constructor
    · rintro ⟨vs, hvs, hleaf⟩
      rw [Bool.eq_false_iff]
      intro hex
      rcases hexact.exhaustive.mp hex vs hvs with ⟨r, hr, hm⟩
      cases hfind : rows.find? (rowMatches vs) with
      | none =>
          rw [find_none.mp hfind r hr] at hm
          cases hm
      | some r' => exact jumpsTo_not_failLeaf ((hruns vs hvs).1 r' hfind) hleaf
    · intro hno
      by_contra hnone
      have hex : cov.exhaustive = true := by
        refine hexact.exhaustive.mpr fun vs hvs => ?_
        cases hfind : rows.find? (rowMatches vs) with
        | none => exact absurd ⟨vs, hvs, (hruns vs hvs).2 hfind⟩ hnone
        | some r => exact ⟨r, List.mem_of_find?_eq_some hfind, List.find?_some hfind⟩
      rw [hno] at hex
      cases hex
  · intro r hr
    rw [hexact.redundant r hr]
    constructor
    · rintro ⟨vs, hvs, hjump⟩ hred
      cases hfind : rows.find? (rowMatches vs) with
      | none => exact jumpsTo_not_failLeaf hjump ((hruns vs hvs).2 hfind)
      | some r' =>
          have hjoin := jumpsTo_join hjump ((hruns vs hvs).1 r' hfind)
          have heq := List.inj_on_of_nodup_map hjoins hr (List.mem_of_find?_eq_some hfind) hjoin
          exact hred vs hvs (heq ▸ hfind)
    · intro hred
      by_contra hno
      exact hred fun vs hvs hfind => hno ⟨vs, hvs, (hruns vs hvs).1 r hfind⟩

end Tree

/-- Where every type has a value the coverage of a matrix is exact, and the tree
that is built from the matrix has the reachable leaves that it reports. -/
theorem matchCoverage_exact {τ : Type} (sig : Signature τ) (oracle : ConOracle) (tys : List τ)
    (rows : List Row) (hagrees : sig.Agrees oracle) (htyped : sig.Typed tys rows)
    (hrich : sig.Rich (rows.flatMap fun r => MPat.litsAll r.pats)) :
    CoverageExact sig tys rows (matchCoverage oracle tys.length rows) ∧
      ∀ names n, names.length = tys.length → (names.map (·.uniq)).Nodup →
        (∀ nm ∈ names, nm.uniq.id < n) → (∀ r ∈ rows, Clause oracle names.length r) →
        (rows.map (·.join)).Nodup →
        ∃ e n', compileMatch oracle (names.map .var) rows n = .ok (e, n') ∧
          ∀ prims globals serial k, TreeAgrees sig tys rows (matchCoverage oracle tys.length rows)
            names e prims globals serial k := by
  have hexact : CoverageExact sig tys rows (matchCoverage oracle tys.length rows) := by
    refine matchCoverage_of_analyze tys hrich hagrees htyped.index fun r hr => ?_
    exact ⟨htyped.pats r hr, fun l hl => List.mem_flatMap.mpr ⟨r, hr, hl⟩⟩
  refine ⟨hexact, fun names n hlen hnodup hnew hrows hjoins => ?_⟩
  have hscruts : ∀ a ∈ names.map Atom.var, AtomBelow n a := by
    intro a ha
    rcases List.mem_map.mp ha with ⟨nm, hnm, rfl⟩
    intro u hu
    rw [List.mem_singleton.mp hu]
    exact hnew nm hnm
  have hok : ∀ r ∈ rows, RowOk oracle (names.map Atom.var).length n r := by
    intro r hr
    rw [List.length_map]
    exact clause_ok (hrows r hr)
  rcases compileMatch_decides (fun _ => none) (fun _ => none) 0 hscruts hok with
    ⟨e, n', hrun, _, _⟩
  refine ⟨e, n', hrun, fun prims globals serial k => ?_⟩
  rcases compileMatch_decides prims globals serial hscruts hok with ⟨e', m, hrun', _, hdec⟩
  rw [hrun] at hrun'
  cases hrun'
  exact treeAgrees k hagrees htyped.pats hexact hrows hjoins hnodup hlen hdec

/-! ### Two matrices -/

section Matrices

/-- `Bool`, and other types that patterns do not look into. -/
def boolSig : Signature CType where
  shape
    | .con .bool [] => .data [("False", []), ("True", [])]
    | _ => .other
  tags_nodup t cons h := by
    split at h
    · cases h
      decide
    · cases h

def boolOracle : ConOracle where
  coArity _ := 0
  coSiblings c := if c ∈ ["False", "True"] then some ["False", "True"] else none

/-- A clause for a constructor without fields. -/
def tagRow (ty : CType) (c : String) (ix : Nat) : Row :=
  { pats := [.con ty c []], subst := [], join := ⟨⟨ix⟩⟩, order := [], index := ix }

def boolType : CType := .con .bool []

/-- `False -> …; True -> …; True -> …`. -/
def boolRows : List Row :=
  [tagRow boolType "False" 0, tagRow boolType "True" 1, tagRow boolType "True" 2]

theorem boolRows_exact : matchCoverage boolOracle 1 boolRows = ⟨[2], true⟩ ∧
    CoverageExact boolSig [boolType] boolRows (matchCoverage boolOracle 1 boolRows) := by
  have hagrees : boolSig.Agrees boolOracle := by
    intro t cons c tys hshape hmem
    simp only [boolSig] at hshape
    split at hshape
    · cases hshape
      simp only [List.mem_cons, Prod.mk.injEq, List.not_mem_nil, or_false] at hmem
      rcases hmem with ⟨rfl, rfl⟩ | ⟨rfl, rfl⟩
      · exact ⟨rfl, rfl⟩
      · exact ⟨rfl, rfl⟩
    · cases hshape
  have hfalse : boolSig.PatType boolType (.con boolType "False" []) :=
    .con rfl List.mem_cons_self .nil
  have htrue : boolSig.PatType boolType (.con boolType "True" []) :=
    .con rfl (List.mem_cons_of_mem _ List.mem_cons_self) .nil
  have htyped : boolSig.Typed [boolType] boolRows := by
    refine ⟨fun r hr => ?_, by decide⟩
    simp only [boolRows, List.mem_cons, List.not_mem_nil, or_false] at hr
    rcases hr with rfl | rfl | rfl
    · exact .cons hfalse .nil
    · exact .cons htrue .nil
    · exact .cons htrue .nil
  have hrich : boolSig.Rich (boolRows.flatMap fun r => MPat.litsAll r.pats) := by
    refine ⟨fun t => ?_, fun t kind h => ?_⟩
    · by_cases ht : t = boolType
      · subst ht
        exact ⟨.con "True" [], .con rfl (List.mem_cons_of_mem _ List.mem_cons_self) .nil⟩
      · refine ⟨.lit .unit, .other ?_⟩
        simp only [boolSig]
        split
        · exact absurd rfl ht
        · rfl
    · simp only [boolSig] at h
      split at h
      · cases h
      · cases h
  exact ⟨by decide,
    (matchCoverage_exact boolSig boolOracle [boolType] boolRows hagrees htyped hrich).1⟩

/-- `data T = A | B Never`. -/
def neverSig : Signature CType where
  shape
    | .con .never [] => .data []
    | .con (.user "T") [] => .data [("A", []), ("B", [.con .never []])]
    | _ => .other
  tags_nodup t cons h := by
    split at h
    · cases h
      decide
    · cases h
      decide
    · cases h

def neverEnv : TypeEnv where
  cons := [("A", ⟨0, "T"⟩), ("B", ⟨1, "T"⟩)]
  tyCons := [("T", ⟨["A", "B"]⟩)]
  recordCons := []

def neverType : CType := .con (.user "T") []

/-- Every value of `T` is `A`, yet a matrix with a clause for `A` is reported as
not exhaustive. -/
theorem never_reported : neverSig.Agrees (buildOracle neverEnv) ∧
    neverSig.Typed [neverType] [tagRow neverType "A" 0] ∧
    ¬ CoverageExact neverSig [neverType] [tagRow neverType "A" 0]
      (matchCoverage (buildOracle neverEnv) 1 [tagRow neverType "A" 0]) := by
  refine ⟨?_, ⟨fun r hr => ?_, by decide⟩, fun h => ?_⟩
  · intro t cons c tys hshape hmem
    simp only [neverSig] at hshape
    split at hshape
    · cases hshape
      cases hmem
    · cases hshape
      simp only [List.mem_cons, Prod.mk.injEq, List.not_mem_nil, or_false] at hmem
      rcases hmem with ⟨rfl, rfl⟩ | ⟨rfl, rfl⟩
      · exact ⟨rfl, rfl⟩
      · exact ⟨rfl, rfl⟩
    · cases hshape
  · rw [List.mem_singleton.mp hr]
    exact .cons (.con rfl List.mem_cons_self .nil) .nil
  · have hreport : (matchCoverage (buildOracle neverEnv) 1 [tagRow neverType "A" 0]).exhaustive =
        false := by decide
    have hall : ∀ vs, List.Forall₂ neverSig.HasType [neverType] vs →
        ∃ r ∈ [tagRow neverType "A" 0], rowMatches vs r = true := by
      intro vs hvs
      cases hvs with
      | cons hv hnil =>
          cases hnil
          refine ⟨_, List.mem_singleton_self _, ?_⟩
          cases hv with
          | con hshape hmem hfields =>
              cases hshape
              simp only [List.mem_cons, Prod.mk.injEq, List.not_mem_nil, or_false] at hmem
              rcases hmem with ⟨rfl, rfl⟩ | ⟨rfl, rfl⟩
              · cases hfields
                rfl
              · cases hfields with
                | cons hnever _ =>
                    cases hnever with
                    | con hshape hmem _ =>
                        cases hshape
                        cases hmem
                    | lit hshape _ => cases hshape
                    | other hshape => cases hshape
          | lit hshape _ => cases hshape
          | other hshape => cases hshape
    rw [h.exhaustive.mpr hall] at hreport
    cases hreport

end Matrices

end Wok.Proofs.Coverage
