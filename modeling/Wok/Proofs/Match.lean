/-
Module: Wok.Proofs.Match
Layer: Proofs
Purpose: The decision-tree compiler is right: it never runs out of fuel, and the
  tree it builds jumps to the join of the first clause that matches, with the
  parts its variables stand for, or fails when no clause matches.
Imports: Wok.Spec.Match
Trusted boundary: none
Main exports: matchAlts_cons, RowOk, RowFits, Leads, compileMatch_decides,
  compileMatch_selects
-/
import Mathlib.Data.List.Forall2
import Wok.Spec.Match

namespace Wok.Proofs.Match

open Wok.IR Wok.Interp Wok.Spec.Match

/-! ### Lists of patterns and values -/

theorem matchesAll_append {ps : List MPat} {vs : List Value} (h : ps.length = vs.length)
    (ps' : List MPat) (vs' : List Value) :
    MPat.matchesAll (ps ++ ps') (vs ++ vs') =
      (MPat.matchesAll ps vs && MPat.matchesAll ps' vs') := by
  induction ps generalizing vs with
  | nil =>
      have hvs : vs = [] := List.length_eq_zero_iff.mp h.symm
      subst hvs
      simp [MPat.matchesAll]
  | cons p ps ih =>
      rcases vs with _ | ⟨v, vs⟩
      · cases h
      · simp [MPat.matchesAll, ih (Nat.succ.inj h), Bool.and_assoc]

theorem fitsAll_append {oracle : ConOracle} {ps : List MPat} {vs : List Value}
    (h : ps.length = vs.length) (ps' : List MPat) (vs' : List Value) :
    MPat.fitsAll oracle (ps ++ ps') (vs ++ vs') =
      (MPat.fitsAll oracle ps vs && MPat.fitsAll oracle ps' vs') := by
  induction ps generalizing vs with
  | nil =>
      have hvs : vs = [] := List.length_eq_zero_iff.mp h.symm
      subst hvs
      simp [MPat.fitsAll]
  | cons p ps ih =>
      rcases vs with _ | ⟨v, vs⟩
      · cases h
      · simp [MPat.fitsAll, ih (Nat.succ.inj h), Bool.and_assoc]

theorem partsAll_append {ps : List MPat} {vs : List Value} (h : ps.length = vs.length)
    (ps' : List MPat) (vs' : List Value) :
    MPat.partsAll (ps ++ ps') (vs ++ vs') =
      MPat.partsAll ps vs ++ MPat.partsAll ps' vs' := by
  induction ps generalizing vs with
  | nil =>
      have hvs : vs = [] := List.length_eq_zero_iff.mp h.symm
      subst hvs
      simp [MPat.partsAll]
  | cons p ps ih =>
      rcases vs with _ | ⟨v, vs⟩
      · cases h
      · simp [MPat.partsAll, ih (Nat.succ.inj h)]

theorem varsAll_append (ps ps' : List MPat) :
    MPat.varsAll (ps ++ ps') = MPat.varsAll ps ++ MPat.varsAll ps' := by
  induction ps with
  | nil => simp [MPat.varsAll]
  | cons p ps ih => simp [MPat.varsAll, ih]

theorem wellFormedAll_append (oracle : ConOracle) (ps ps' : List MPat) :
    MPat.wellFormedAll oracle (ps ++ ps') =
      (MPat.wellFormedAll oracle ps && MPat.wellFormedAll oracle ps') := by
  induction ps with
  | nil => simp [MPat.wellFormedAll]
  | cons p ps ih => simp [MPat.wellFormedAll, ih, Bool.and_assoc]

theorem sizes_append (ps ps' : List MPat) : sizes (ps ++ ps') = sizes ps + sizes ps' := by
  induction ps with
  | nil => simp [sizes]
  | cons p ps ih => simp [sizes, ih, Nat.add_assoc]

theorem fitsAll_length {oracle : ConOracle} {ps : List MPat} {vs : List Value}
    (h : MPat.fitsAll oracle ps vs = true) : ps.length = vs.length := by
  induction ps generalizing vs with
  | nil =>
      rcases vs with _ | _
      · rfl
      · simp [MPat.fitsAll] at h
  | cons p ps ih =>
      rcases vs with _ | ⟨v, vs⟩
      · simp [MPat.fitsAll] at h
      · simp only [MPat.fitsAll, Bool.and_eq_true] at h
        simp [ih h.2]

/-! ### Wildcards -/

@[simp] theorem wildField_matches (v : Value) : wildField.matches v = true := by
  rw [wildField, MPat.matches]

@[simp] theorem wildField_fits (oracle : ConOracle) (v : Value) :
    wildField.fits oracle v = true := by
  rw [wildField, MPat.fits]

@[simp] theorem wildField_parts (v : Value) : wildField.parts v = [] := by
  rw [wildField, MPat.parts, Option.toList, List.map_nil]

@[simp] theorem wildField_vars : wildField.vars = [] := by
  rw [wildField, MPat.vars, Option.toList]

@[simp] theorem wildField_wellFormed (oracle : ConOracle) :
    wildField.wellFormed oracle = true := by
  rw [wildField, MPat.wellFormed]

@[simp] theorem wildField_size : wildField.size = 0 := by
  rw [wildField, MPat.size]

theorem matchesAll_wild (vs : List Value) :
    MPat.matchesAll (List.replicate vs.length wildField) vs = true := by
  induction vs with
  | nil => rfl
  | cons v vs ih => simpa [List.replicate_succ, MPat.matchesAll] using ih

theorem fitsAll_wild (oracle : ConOracle) (vs : List Value) :
    MPat.fitsAll oracle (List.replicate vs.length wildField) vs = true := by
  induction vs with
  | nil => rfl
  | cons v vs ih => simpa [List.replicate_succ, MPat.fitsAll] using ih

theorem partsAll_wild (n : Nat) (vs : List Value) :
    MPat.partsAll (List.replicate n wildField) vs = [] := by
  induction n generalizing vs with
  | zero => simp [MPat.partsAll]
  | succ n ih =>
      rcases vs with _ | ⟨v, vs⟩
      · simp [List.replicate_succ, MPat.partsAll]
      · simp [List.replicate_succ, MPat.partsAll, ih]

theorem varsAll_wild (n : Nat) : MPat.varsAll (List.replicate n wildField) = [] := by
  induction n with
  | zero => rfl
  | succ n ih => simp [List.replicate_succ, MPat.varsAll, ih]

theorem wellFormedAll_wild (oracle : ConOracle) (n : Nat) :
    MPat.wellFormedAll oracle (List.replicate n wildField) = true := by
  induction n with
  | zero => rfl
  | succ n ih => simp [List.replicate_succ, MPat.wellFormedAll, ih]

theorem sizes_wild (n : Nat) : sizes (List.replicate n wildField) = 0 := by
  induction n with
  | zero => rfl
  | succ n ih => simp [List.replicate_succ, sizes, ih]

/-! ### The machine -/

/-- What an alternative does with a value: its body and the scope it runs in, if
it is selected. -/
def altSelect (v : Value) (sc : Scope) : Alt → Option (Expr × Scope)
  | .con c bs e => match v with
      | .con c' vs =>
          if c' = c ∧ bs.length = vs.length then
            some (e, { sc with env := bindBinders bs vs sc.env })
          else none
      | _ => none
  | .lit l e => match v with
      | .lit l' => if l' = l then some (e, sc) else none
      | _ => none
  | .default e => some (e, sc)

theorem matchAlts_cons (v : Value) (sc : Scope) (k : Kont) (alt : Alt) (rest : List Alt) :
    matchAlts v sc k (alt :: rest) =
      match altSelect v sc alt with
      | some (e, sc') => .ok (.eval e sc' k)
      | none => matchAlts v sc k rest := by
  rcases alt with ⟨c, bs, e⟩ | ⟨l, e⟩ | e
  · cases v with
    | con c' vs =>
        simp only [matchAlts, altSelect]
        split <;> rfl
    | _ => rfl
  · cases v with
    | lit l' =>
        simp only [matchAlts, altSelect]
        split <;> rfl
    | _ => rfl
  · rfl

section

variable {prims : PrimTable} {globals : Globals} {serial : Nat}

/-- A case whose alternatives select a configuration steps to it. -/
theorem transition_case {a : Atom} {v : Value} {alts : List Alt} {sc : Scope} {k : Kont}
    {c : Config} (ha : resolveAtom prims globals sc a = .ok v)
    (halts : matchAlts v sc k alts = .ok c) :
    transition prims globals serial (.eval (.case_ a alts) sc k) = .ok (.config c) := by
  rw [transition, evalExpr, ha]
  change (matchAlts v sc k alts >>= fun c => pure (Move.config c)) = _
  rw [halts]
  rfl

theorem transition_case_fail {a : Atom} {v : Value} {alts : List Alt} {sc : Scope} {k : Kont}
    {e : RuntimeError} (ha : resolveAtom prims globals sc a = .ok v)
    (halts : matchAlts v sc k alts = fail e) :
    transition prims globals serial (.eval (.case_ a alts) sc k) = fail e := by
  rw [transition, evalExpr, ha]
  change (matchAlts v sc k alts >>= fun c => pure (Move.config c)) = _
  rw [halts]
  rfl

end

/-! ### Scopes -/

/-- An atom means the same in scopes that agree on what it mentions. -/
theorem resolveAtom_agree {prims : PrimTable} {globals : Globals} {n : Int} {sc sc' : Scope}
    {a : Atom} (ha : AtomBelow n a) (h : AgreeBelow n sc sc') :
    resolveAtom prims globals sc' a = resolveAtom prims globals sc a := by
  cases a with
  | var nm =>
      have hnm : nm.uniq.id < n := ha nm.uniq (by simp [atomVars])
      simp only [resolveAtom, h.env nm.uniq hnm]
  | lit l => rfl
  | prim m name => rfl

/-- Binders that are minted late leave what is older alone. -/
theorem lookup_bindBinders_of_ne {u : Unique} {bs : List Binder} (vs : List Value) (env : Env)
    (h : ∀ b ∈ bs, binderUnique b ≠ u) :
    (bindBinders bs vs env).lookup u = env.lookup u := by
  unfold bindBinders
  induction bs generalizing vs env with
  | nil => rfl
  | cons b bs ih =>
      rcases vs with _ | ⟨v, vs⟩
      · rfl
      · have hb : (u == binderUnique b) = false := by
          simpa using (h b (by simp)).symm
        rw [List.zip_cons_cons, List.foldl_cons, ih vs _ fun b' hb' => h b' (by simp [hb'])]
        simp [bindBinder, List.lookup_cons, hb]

/-- Distinct binders are bound to their own values. -/
theorem lookup_bindBinders {bs : List Binder} {vs : List Value} (env : Env)
    (hlen : bs.length = vs.length) (hnodup : (bs.map binderUnique).Nodup) :
    List.Forall₂ (fun b v => (bindBinders bs vs env).lookup (binderUnique b) = some v) bs vs := by
  induction bs generalizing vs env with
  | nil =>
      have hvs : vs = [] := List.length_eq_zero_iff.mp hlen.symm
      subst hvs
      exact .nil
  | cons b bs ih =>
      rcases vs with _ | ⟨v, vs⟩
      · cases hlen
      · rw [List.map_cons, List.nodup_cons] at hnodup
        have hb : (bindBinders (b :: bs) (v :: vs) env).lookup (binderUnique b) = some v := by
          have hne : ∀ b' ∈ bs, binderUnique b' ≠ binderUnique b := by
            intro b' hb' heq
            exact hnodup.1 (heq ▸ List.mem_map_of_mem hb')
          have := lookup_bindBinders_of_ne vs (bindBinder b v env) hne
          simpa [bindBinders, bindBinder] using this
        exact .cons hb (ih (bindBinder b v env) (Nat.succ.inj hlen) hnodup.2)

/-- Binding binders that are minted from `n` on. -/
theorem agreeBelow_bindBinders {n : Int} {bs : List Binder} (vs : List Value) (sc : Scope)
    (h : ∀ b ∈ bs, n ≤ (binderUnique b).id) :
    AgreeBelow n sc { sc with env := bindBinders bs vs sc.env } where
  env u hu := by
    refine lookup_bindBinders_of_ne vs sc.env fun b hb heq => ?_
    have := h b hb
    rw [heq] at this
    omega
  joins _ _ := rfl

/-! ### Rows -/

section Rows

variable (prims : PrimTable) (globals : Globals) (serial : Nat) (oracle : ConOracle)

/-- What the compiler relies on for a row. -/
structure RowOk (width : Nat) (n : Int) (r : Row) : Prop where
  width : r.pats.length = width
  wellFormed : MPat.wellFormedAll oracle r.pats = true
  atoms : ∀ xa ∈ r.subst, AtomBelow n xa.2
  order : ∀ x ∈ r.order, x ∈ r.subst.map (·.1) ∨ x ∈ MPat.varsAll r.pats

/-- What typing promises of a row at run time. -/
structure RowFits (sc : Scope) (vs : List Value) (r : Row) : Prop where
  fits : MPat.fitsAll oracle r.pats vs = true
  resolved : ∀ xa ∈ r.subst, ∃ w, resolveAtom prims globals sc xa.2 = .ok w

/-- The variable of the row's clause stands for `w`: by the bindings made so far
or by the patterns still to be matched. -/
def RowBinds (sc : Scope) (vs : List Value) (r : Row) (x : String) (w : Value) : Prop :=
  (∃ a, (x, a) ∈ r.subst ∧ resolveAtom prims globals sc a = .ok w) ∨
    (x, w) ∈ MPat.partsAll r.pats vs

/-- The run comes to the jump of the selected clause, with arguments that hold
what its variables stand for; without one it comes to the failure leaf. -/
def Leads (n : Int) (sc : Scope) (k : Kont) (vs : List Value) (c : Config) :
    Option Row → Prop
  | some r => ∃ sc' args ws,
      TreeSteps prims globals serial c (.eval (.jump r.join args) sc' k) ∧
      resolveAtoms prims globals sc' args = .ok ws ∧
      List.Forall₂ (RowBinds prims globals sc vs r) r.order ws ∧ AgreeBelow n sc sc'
  | none => ∃ sc', TreeSteps prims globals serial c (.eval failLeaf sc' k)

/-- The tree runs as the matrix says. -/
def Decides (n : Int) (scruts : List Atom) (rows : List Row) (e : Expr) : Prop :=
  ∀ sc k vs, Resolves prims globals sc scruts vs →
    (∀ r ∈ rows, RowFits prims globals oracle sc vs r) →
    Leads prims globals serial n sc k vs (.eval e sc k) (rows.find? (rowMatches vs))

/-- A row and what is left of it once part of the match is known: nothing when
the row cannot match, else a row that matches when this one does. -/
def Follows (sc : Scope) (vs : List Value) (sc' : Scope) (vs' : List Value) (r : Row)
    (rs : List Row) : Prop :=
  (rs = [] ∧ rowMatches vs r = false) ∨
    ∃ r', rs = [r'] ∧ r'.join = r.join ∧ r'.order = r.order ∧
      RowFits prims globals oracle sc' vs' r' ∧ rowMatches vs' r' = rowMatches vs r ∧
      ∀ x w, RowBinds prims globals sc' vs' r' x w → RowBinds prims globals sc vs r x w

end Rows

section

variable {prims : PrimTable} {globals : Globals} {serial : Nat} {oracle : ConOracle}

theorem RowOk.mono {width : Nat} {n m : Int} {r : Row} (hnm : n ≤ m)
    (h : RowOk oracle width n r) : RowOk oracle width m r :=
  { h with atoms := fun xa hxa => (h.atoms xa hxa).mono hnm }

/-- The rest of a matrix decides the matrix. -/
theorem Leads.of_follows {n n' : Int} {sc sc' : Scope} {k : Kont} {vs vs' : List Value}
    {c c' : Config} {rows : List Row} {f : Row → List Row}
    (hrows : ∀ r ∈ rows, Follows prims globals oracle sc vs sc' vs' r (f r))
    (hsteps : TreeSteps prims globals serial c c') (hagree : AgreeBelow n sc sc') (hnn' : n ≤ n')
    (h : Leads prims globals serial n' sc' k vs' c'
      ((rows.flatMap f).find? (rowMatches vs'))) :
    Leads prims globals serial n sc k vs c (rows.find? (rowMatches vs)) := by
  induction rows with
  | nil =>
      rcases h with ⟨sc1, hs⟩
      exact ⟨sc1, hsteps.trans hs⟩
  | cons r rows ih =>
      have htail := ih fun r' hr' => hrows r' (List.mem_cons_of_mem r hr')
      rcases hrows r List.mem_cons_self with ⟨hf, hno⟩ | ⟨r', hf, hjoin, horder, _, hm, hb⟩
      · rw [List.find?_cons, hno]
        rw [List.flatMap_cons, hf, List.nil_append] at h
        exact htail h
      · rw [List.flatMap_cons, hf, List.singleton_append, List.find?_cons, hm] at h
        rw [List.find?_cons]
        by_cases hr : rowMatches vs r = true
        · simp only [hr] at h ⊢
          rcases h with ⟨sc1, args, ws, hs, hargs, hws, hag⟩
          rw [hjoin] at hs
          rw [horder] at hws
          exact ⟨sc1, args, ws, hsteps.trans hs, hargs, hws.imp hb,
            hagree.trans (hag.mono hnn')⟩
        · simp only [Bool.not_eq_true] at hr
          simp only [hr] at h ⊢
          exact htail h

/-! ### Columns -/

theorem split_at {α : Type} {i : Nat} (xs : List α) (h : i < xs.length) :
    ∃ pre x post, xs = pre ++ x :: post ∧ pre.length = i :=
  ⟨xs.take i, xs[i], xs.drop (i + 1), by simp, by simp; omega⟩

theorem removeAt_append {α : Type} {pre : List α} (x : α) (post : List α) :
    removeAt pre.length (pre ++ x :: post) = pre ++ post := by
  simp [removeAt, List.drop_append]

/-- Column `i` of the row holds `p`, between `pre` and `post`. -/
structure Column (i : Nat) (r : Row) (pre : List MPat) (p : MPat) (post : List MPat) :
    Prop where
  pats : r.pats = pre ++ p :: post
  index : pre.length = i

theorem Column.pat {i : Nat} {r : Row} {pre post : List MPat} {p : MPat}
    (h : Column i r pre p post) : r.pat i = p := by
  simp [Row.pat, h.pats, ← h.index]

theorem Column.removeAt {i : Nat} {r : Row} {pre post : List MPat} {p : MPat}
    (h : Column i r pre p post) : removeAt i r.pats = pre ++ post := by
  rw [h.pats, ← h.index, removeAt_append]

theorem RowOk.column {width i : Nat} {n : Int} {r : Row} (h : RowOk oracle width n r)
    (hi : i < width) : ∃ pre post, Column i r pre (r.pat i) post := by
  rcases split_at r.pats (by rw [h.width]; exact hi) with ⟨pre, p, post, hp, hpre⟩
  have hcol : Column i r pre p post := ⟨hp, hpre⟩
  exact ⟨pre, post, hcol.pat ▸ hcol⟩

/-- Replacing a column by columns `q` keeps a row in order. -/
theorem RowOk.replace {width i fields : Nat} {n m : Int} {r : Row} {pre post q : List MPat}
    {p : MPat} {subst : List (String × Atom)} (h : RowOk oracle width n r)
    (hcol : Column i r pre p post) (hlen : q.length = fields)
    (hq : MPat.wellFormedAll oracle q = true) (hatoms : ∀ xa ∈ subst, AtomBelow m xa.2)
    (hkeep : ∀ x ∈ r.subst.map (·.1), x ∈ subst.map (·.1))
    (hvars : ∀ x ∈ p.vars, x ∈ subst.map (·.1) ∨ x ∈ MPat.varsAll q) :
    RowOk oracle (fields + (width - 1)) m
      { r with pats := q ++ (pre ++ post), subst := subst } where
  width := by
    have := h.width
    simp only [hcol.pats, List.length_append, List.length_cons] at this ⊢
    omega
  wellFormed := by
    have := h.wellFormed
    simp only [hcol.pats, wellFormedAll_append, MPat.wellFormedAll, Bool.and_eq_true] at this ⊢
    exact ⟨hq, this.1, this.2.2⟩
  atoms := hatoms
  order x hx := by
    rcases h.order x hx with hs | hv
    · exact .inl (hkeep x hs)
    · simp only [hcol.pats, varsAll_append, MPat.varsAll, List.mem_append] at hv ⊢
      rcases hv with hpre | hp | hpost
      · exact .inr (.inr (.inl hpre))
      · rcases hvars x hp with hs | hx
        · exact .inl hs
        · exact .inr (.inl hx)
      · exact .inr (.inr (.inr hpost))

/-- Replacing a column by columns that say the same about its value. -/
theorem Follows.replace {i : Nat} {sc sc' : Scope} {vpre vpost u : List Value} {v : Value}
    {r : Row} {pre post q : List MPat} {p : MPat} {subst : List (String × Atom)}
    (hfits : RowFits prims globals oracle sc (vpre ++ v :: vpost) r)
    (hcol : Column i r pre p post) (hvpre : vpre.length = i)
    (hq : MPat.fitsAll oracle q u = true)
    (hmatches : MPat.matchesAll q u = p.matches v)
    (hparts : ∀ xw ∈ MPat.partsAll q u, xw ∈ p.parts v)
    (hold : ∀ xa ∈ r.subst,
      resolveAtom prims globals sc' xa.2 = resolveAtom prims globals sc xa.2)
    (hsubst : ∀ xa ∈ subst, xa ∈ r.subst ∨
      (resolveAtom prims globals sc' xa.2 = .ok v ∧ (xa.1, v) ∈ p.parts v)) :
    Follows prims globals oracle sc (vpre ++ v :: vpost) sc' (u ++ (vpre ++ vpost)) r
      [{ r with pats := q ++ (pre ++ post), subst := subst }] := by
  have hpre : pre.length = vpre.length := hcol.index.trans hvpre.symm
  have hlen : q.length = u.length := fitsAll_length hq
  have hfit := hfits.fits
  rw [hcol.pats, fitsAll_append hpre] at hfit
  simp only [MPat.fitsAll, Bool.and_eq_true] at hfit
  refine .inr ⟨_, rfl, rfl, rfl, ⟨?_, ?_⟩, ?_, ?_⟩
  · simp only [fitsAll_append hlen, fitsAll_append hpre, Bool.and_eq_true]
    exact ⟨hq, hfit.1, hfit.2.2⟩
  · intro xa hxa
    rcases hsubst xa hxa with hr | ⟨hv, _⟩
    · rcases hfits.resolved xa hr with ⟨w, hw⟩
      exact ⟨w, (hold xa hr).trans hw⟩
    · exact ⟨v, hv⟩
  · simp only [rowMatches, hcol.pats, matchesAll_append hlen, matchesAll_append hpre,
      MPat.matchesAll, hmatches]
    exact Bool.and_left_comm ..
  · intro x w hxw
    rcases hxw with ⟨a, hxa, ha⟩ | hxw
    · rcases hsubst _ hxa with hr | ⟨hv, hpart⟩
      · exact .inl ⟨a, hr, (hold _ hr).symm.trans ha⟩
      · rw [hv] at ha
        cases ha
        refine .inr ?_
        rw [hcol.pats, partsAll_append hpre]
        simp only [MPat.partsAll, List.mem_append]
        exact .inr (.inl hpart)
    · refine .inr ?_
      simp only [hcol.pats, partsAll_append hlen, partsAll_append hpre, MPat.partsAll,
        List.mem_append] at hxw ⊢
      rcases hxw with hx | hl | hr
      · exact .inr (.inl (hparts _ hx))
      · exact .inl hl
      · exact .inr (.inr hr)

/-- A row whose pattern in a column does not match cannot match. -/
theorem Follows.drop {i : Nat} {sc sc' : Scope} {vpre vpost vs' : List Value} {v : Value}
    {r : Row} {pre post : List MPat} {p : MPat} (hcol : Column i r pre p post)
    (hvpre : vpre.length = i) (hno : p.matches v = false) :
    Follows prims globals oracle sc (vpre ++ v :: vpost) sc' vs' r [] := by
  refine .inl ⟨rfl, ?_⟩
  rw [rowMatches, hcol.pats, matchesAll_append (hcol.index.trans hvpre.symm)]
  simp [MPat.matchesAll, hno]

/-! ### What is left of a row -/

/-- A row without an as-pattern at the top of a column. -/
def peeled (r : Row) : Prop := ∀ i ty x p, r.pat i ≠ .as ty x p

/-- The head that a value has in a `case`. -/
def headOf : Value → Option Head
  | .con c _ => some (.con c)
  | .lit l => some (.lit l)
  | _ => none

/-- The fields under the head. -/
def fieldsOf : Value → List Value
  | .con _ vs => vs
  | _ => []

/-- Only a value with the pattern's head matches it. -/
theorem headOf_of_matches {p : MPat} {v : Value} {h : Head} (hp : p.head = some h)
    (hm : p.matches v = true) : headOf v = some h := by
  cases p with
  | var ty mv => cases hp
  | as ty x p => cases hp
  | con ty c ps =>
      cases hp
      cases v with
      | con c' vs =>
          simp only [MPat.matches, Bool.and_eq_true, beq_iff_eq] at hm
          rw [headOf, hm.1]
      | _ => simp [MPat.matches] at hm
  | lit ty l =>
      cases hp
      cases v with
      | lit l' =>
          simp only [MPat.matches, beq_iff_eq] at hm
          rw [headOf, hm]
      | _ => simp [MPat.matches] at hm

theorem mem_bindVar {mv : Option String} {a : Atom} {subst : List (String × Atom)}
    {xa : String × Atom} (h : xa ∈ bindVar mv a subst) :
    xa ∈ subst ∨ (mv = some xa.1 ∧ xa.2 = a) := by
  cases mv with
  | none => exact .inl h
  | some x =>
      rcases List.mem_cons.mp h with rfl | h
      · exact .inr ⟨rfl, rfl⟩
      · exact .inl h

theorem bindVar_keys (mv : Option String) (a : Atom) (subst : List (String × Atom)) :
    (bindVar mv a subst).map (·.1) = mv.toList ++ subst.map (·.1) := by
  cases mv <;> rfl

/-- Under a head, a row whose column is a variable keeps its other columns. -/
theorem Follows.var {i : Nat} {sc sc' : Scope} {vpre vpost u : List Value} {v : Value}
    {a : Atom} {r : Row} {pre post q : List MPat} {ty : Wok.TypeChecking.CType}
    {mv : Option String} (hfits : RowFits prims globals oracle sc (vpre ++ v :: vpost) r)
    (hcol : Column i r pre (.var ty mv) post) (hvpre : vpre.length = i)
    (hq : q = List.replicate u.length wildField)
    (hold : ∀ xa ∈ r.subst,
      resolveAtom prims globals sc' xa.2 = resolveAtom prims globals sc xa.2)
    (ha : resolveAtom prims globals sc' a = .ok v) :
    Follows prims globals oracle sc (vpre ++ v :: vpost) sc' (u ++ (vpre ++ vpost)) r
      [{ r with pats := q ++ (pre ++ post), subst := bindVar mv a r.subst }] := by
  subst hq
  refine Follows.replace hfits hcol hvpre (fitsAll_wild oracle u) ?_ ?_ hold ?_
  · rw [matchesAll_wild, MPat.matches]
  · simp [partsAll_wild]
  · intro xa hxa
    rcases mem_bindVar hxa with hr | ⟨hx, hxa⟩
    · exact .inl hr
    · rw [hxa]
      exact .inr ⟨ha, by simp [MPat.parts, hx]⟩

/-- A variable in a column is in order when the column is replaced. -/
theorem RowOk.var {width i : Nat} (arity : Nat) {n m : Int} {r : Row} {pre post q : List MPat}
    {ty : Wok.TypeChecking.CType} {mv : Option String} {a : Atom}
    (h : RowOk oracle width n r) (hcol : Column i r pre (.var ty mv) post) (hnm : n ≤ m)
    (hq : q = List.replicate arity wildField) (ha : AtomBelow m a) :
    RowOk oracle (arity + (width - 1)) m
      { r with pats := q ++ (pre ++ post), subst := bindVar mv a r.subst } := by
  subst hq
  refine h.replace hcol List.length_replicate (wellFormedAll_wild oracle arity) ?_ ?_ ?_
  · intro xa hxa
    rcases mem_bindVar hxa with hr | ⟨_, hxa⟩
    · exact (h.atoms xa hr).mono hnm
    · rwa [hxa]
  · intro x hx
    rw [bindVar_keys]
    exact List.mem_append_right _ hx
  · intro x hx
    rw [MPat.vars] at hx
    rw [bindVar_keys]
    exact .inl (List.mem_append_left _ hx)

section Spec

variable {width i : Nat} {n m : Int} {a : Atom} {r : Row} {sc sc' : Scope}
  {vpre vpost : List Value} {v : Value}

/-- The row under the constructor of the value. -/
theorem specCon_follows {c : String} {ws : List Value} {arity : Nat}
    (hok : RowOk oracle width n r) (hi : i < width) (hpeel : peeled r)
    (hfits : RowFits prims globals oracle sc (vpre ++ .con c ws :: vpost) r)
    (hvpre : vpre.length = i) (harity : arity = ws.length)
    (hold : ∀ xa ∈ r.subst,
      resolveAtom prims globals sc' xa.2 = resolveAtom prims globals sc xa.2)
    (ha : resolveAtom prims globals sc' a = .ok (.con c ws)) :
    Follows prims globals oracle sc (vpre ++ .con c ws :: vpost) sc'
      (ws ++ (vpre ++ vpost)) r (specCon c arity i a r) := by
  rcases hok.column hi with ⟨pre, post, hcol⟩
  rw [specCon, hcol.removeAt]
  cases hp : r.pat i with
  | as ty x p => exact absurd hp (hpeel i ty x p)
  | lit ty l => exact .drop (hp ▸ hcol) hvpre (by simp [MPat.matches])
  | var ty mv => exact .var hfits (hp ▸ hcol) hvpre (by rw [harity]) hold ha
  | con ty c' subs =>
      rw [hp] at hcol
      by_cases hc : c' = c
      · subst hc
        have hsubs : MPat.fitsAll oracle subs ws = true := by
          have hfit := hfits.fits
          rw [hcol.pats, fitsAll_append (hcol.index.trans hvpre.symm)] at hfit
          simp only [MPat.fitsAll, MPat.fits, Bool.and_eq_true] at hfit
          simpa using hfit.2.1.2
        simp only [if_true]
        refine .replace hfits hcol hvpre hsubs ?_ ?_ hold fun xa hxa => .inl hxa
        · simp [MPat.matches]
        · intro xw hxw
          rwa [MPat.parts]
      · simp only [if_neg hc]
        refine .drop hcol hvpre ?_
        simp [MPat.matches, Ne.symm hc]

theorem specCon_ok {c : String} {r' : Row} (hok : RowOk oracle width n r) (hi : i < width)
    (hnm : n ≤ m) (ha : AtomBelow m a) (hr' : r' ∈ specCon c (oracle.coArity c) i a r) :
    RowOk oracle (oracle.coArity c + (width - 1)) m r' := by
  rcases hok.column hi with ⟨pre, post, hcol⟩
  rw [specCon, hcol.removeAt] at hr'
  cases hp : r.pat i with
  | as ty x p => simp [hp] at hr'
  | lit ty l => simp [hp] at hr'
  | var ty mv =>
      simp only [hp, List.mem_singleton] at hr'
      subst hr'
      exact hok.var _ (hp ▸ hcol) hnm rfl ha
  | con ty c' subs =>
      rw [hp] at hcol
      by_cases hc : c' = c
      · simp only [hp, hc, if_true, List.mem_singleton] at hr'
        subst hr' hc
        have hwf := hok.wellFormed
        rw [hcol.pats, wellFormedAll_append] at hwf
        simp only [MPat.wellFormedAll, MPat.wellFormed, Bool.and_eq_true, beq_iff_eq] at hwf
        refine hok.replace hcol hwf.2.1.1 hwf.2.1.2 (fun xa hxa => (hok.atoms xa hxa).mono hnm)
          (fun x hx => hx) fun x hx => .inr ?_
        rwa [MPat.vars] at hx
      · simp [hp, hc] at hr'

/-- The row under the literal that the value is. -/
theorem specLit_follows {l : Lit} (hok : RowOk oracle width n r) (hi : i < width)
    (hpeel : peeled r) (hfits : RowFits prims globals oracle sc (vpre ++ .lit l :: vpost) r)
    (hvpre : vpre.length = i) (ha : resolveAtom prims globals sc a = .ok (.lit l)) :
    Follows prims globals oracle sc (vpre ++ .lit l :: vpost) sc (vpre ++ vpost) r
      (specLit l i a r) := by
  rcases hok.column hi with ⟨pre, post, hcol⟩
  rw [specLit, hcol.removeAt]
  cases hp : r.pat i with
  | as ty x p => exact absurd hp (hpeel i ty x p)
  | con ty c ps => exact .drop (hp ▸ hcol) hvpre (by simp [MPat.matches])
  | var ty mv =>
      exact Follows.var (u := []) (q := []) hfits (hp ▸ hcol) hvpre rfl (fun _ _ => rfl) ha
  | lit ty l' =>
      rw [hp] at hcol
      by_cases hl : l' = l
      · subst hl
        simp only [if_true]
        refine Follows.replace (u := []) (q := []) hfits hcol hvpre rfl ?_ ?_
          (fun _ _ => rfl) fun xa hxa => .inl hxa
        · simp [MPat.matches, MPat.matchesAll]
        · simp [MPat.partsAll]
      · simp only [if_neg hl]
        refine .drop hcol hvpre ?_
        simp [MPat.matches, Ne.symm hl]

theorem specLit_ok {l : Lit} {r' : Row} (hok : RowOk oracle width n r) (hi : i < width)
    (ha : AtomBelow n a) (hr' : r' ∈ specLit l i a r) : RowOk oracle (width - 1) n r' := by
  rcases hok.column hi with ⟨pre, post, hcol⟩
  rw [specLit, hcol.removeAt] at hr'
  cases hp : r.pat i with
  | as ty x p => simp [hp] at hr'
  | con ty c ps => simp [hp] at hr'
  | var ty mv =>
      simp only [hp, List.mem_singleton] at hr'
      subst hr'
      simpa using hok.var (q := []) 0 (hp ▸ hcol) le_rfl rfl ha
  | lit ty l' =>
      rw [hp] at hcol
      by_cases hl : l' = l
      · simp only [hp, hl, if_true, List.mem_singleton] at hr'
        subst hr'
        simpa using hok.replace (q := []) hcol rfl rfl hok.atoms (fun x hx => hx)
          (by simp [MPat.vars])
      · simp [hp, hl] at hr'

/-- The row where the value has no head of the column. -/
theorem defaultRow_follows (hok : RowOk oracle width n r) (hi : i < width) (hpeel : peeled r)
    (hfits : RowFits prims globals oracle sc (vpre ++ v :: vpost) r)
    (hvpre : vpre.length = i) (hhead : ∀ h, (r.pat i).head = some h → headOf v ≠ some h)
    (ha : resolveAtom prims globals sc a = .ok v) :
    Follows prims globals oracle sc (vpre ++ v :: vpost) sc (vpre ++ vpost) r
      (defaultRow i a r) := by
  rcases hok.column hi with ⟨pre, post, hcol⟩
  rw [defaultRow, hcol.removeAt]
  have hdrop : ∀ h, (r.pat i).head = some h →
      Follows prims globals oracle sc (vpre ++ v :: vpost) sc (vpre ++ vpost) r [] := by
    intro h hh
    refine .drop hcol hvpre ?_
    by_contra hm
    exact hhead h hh (headOf_of_matches hh (by simpa using hm))
  cases hp : r.pat i with
  | as ty x p => exact absurd hp (hpeel i ty x p)
  | con ty c ps => exact hdrop (.con c) (by rw [hp]; rfl)
  | lit ty l => exact hdrop (.lit l) (by rw [hp]; rfl)
  | var ty mv =>
      exact Follows.var (u := []) (q := []) hfits (hp ▸ hcol) hvpre rfl (fun _ _ => rfl) ha

theorem defaultRow_ok {r' : Row} (hok : RowOk oracle width n r) (hi : i < width)
    (ha : AtomBelow n a) (hr' : r' ∈ defaultRow i a r) : RowOk oracle (width - 1) n r' := by
  rcases hok.column hi with ⟨pre, post, hcol⟩
  rw [defaultRow, hcol.removeAt] at hr'
  cases hp : r.pat i with
  | var ty mv =>
      simp only [hp, List.mem_singleton] at hr'
      subst hr'
      simpa using hok.var (q := []) 0 (hp ▸ hcol) le_rfl rfl ha
  | _ => simp [hp] at hr'

end Spec

/-! ### The matrix gets smaller -/

theorem matrixSize_cons (r : Row) (rows : List Row) :
    matrixSize (r :: rows) = sizes r.pats + matrixSize rows := by
  simp [matrixSize]

theorem matrixSize_append (rows rows' : List Row) :
    matrixSize (rows ++ rows') = matrixSize rows + matrixSize rows' := by
  simp [matrixSize]

/-- What is left of a row is no larger, and smaller if its column was a test. -/
def Smaller (i : Nat) (r : Row) (rs : List Row) : Prop :=
  matrixSize rs ≤ sizes r.pats ∧ (isWildP (r.pat i) = false → matrixSize rs < sizes r.pats)

theorem matrixSize_flatMap_le {i : Nat} {rows : List Row} {f : Row → List Row}
    (h : ∀ r ∈ rows, Smaller i r (f r)) : matrixSize (rows.flatMap f) ≤ matrixSize rows := by
  induction rows with
  | nil => exact le_rfl
  | cons r rows ih =>
      have hr := (h r List.mem_cons_self).1
      have hrows := ih fun r' hr' => h r' (List.mem_cons_of_mem r hr')
      rw [List.flatMap_cons, matrixSize_append, matrixSize_cons]
      omega

theorem matrixSize_flatMap_lt {i : Nat} {rows : List Row} {f : Row → List Row}
    (h : ∀ r ∈ rows, Smaller i r (f r)) (htest : ∃ r ∈ rows, isWildP (r.pat i) = false) :
    matrixSize (rows.flatMap f) < matrixSize rows := by
  induction rows with
  | nil =>
      rcases htest with ⟨r, hr, _⟩
      cases hr
  | cons r rows ih =>
      have hrows := fun r' hr' => h r' (List.mem_cons_of_mem r hr')
      rw [List.flatMap_cons, matrixSize_append, matrixSize_cons]
      rcases htest with ⟨r', hr', htest⟩
      rcases List.mem_cons.mp hr' with rfl | hr'
      · have h1 := (h r' List.mem_cons_self).2 htest
        have h2 := matrixSize_flatMap_le hrows
        omega
      · have h1 := (h r List.mem_cons_self).1
        have h2 := ih hrows ⟨r', hr', htest⟩
        omega

theorem size_pos {p : MPat} (h : isWildP p = false) : 0 < p.size := by
  cases p with
  | var ty mv => cases h
  | con ty c ps =>
      rw [MPat.size]
      omega
  | lit ty l => exact Nat.one_pos
  | as ty x p =>
      rw [MPat.size]
      omega

section Size

variable {width i : Nat} {n : Int} {a : Atom} {r : Row} {pre post : List MPat} {p : MPat}

theorem Column.sizes (hcol : Column i r pre p post) :
    IR.sizes r.pats = IR.sizes pre + (p.size + IR.sizes post) := by
  rw [hcol.pats, sizes_append, IR.sizes]

theorem Smaller.drop (hcol : Column i r pre p post) : Smaller i r [] := by
  rw [Smaller, hcol.sizes, hcol.pat]
  refine ⟨Nat.zero_le _, fun hp => ?_⟩
  have := size_pos hp
  change 0 < _
  omega

theorem Smaller.keep {q : List MPat} {subst : List (String × Atom)}
    (hcol : Column i r pre p post) (hle : sizes q ≤ p.size)
    (hlt : isWildP p = false → sizes q < p.size) :
    Smaller i r [{ r with pats := q ++ (pre ++ post), subst := subst }] := by
  have hsize : matrixSize [{ r with pats := q ++ (pre ++ post), subst := subst }] =
      sizes q + (sizes pre + sizes post) := by
    simp [matrixSize, sizes_append]
  rw [Smaller, hcol.sizes, hcol.pat, hsize]
  refine ⟨by omega, fun hp => ?_⟩
  have := hlt hp
  omega

theorem specCon_smaller (c : String) (arity : Nat) (hok : RowOk oracle width n r)
    (hi : i < width) : Smaller i r (specCon c arity i a r) := by
  rcases hok.column hi with ⟨pre, post, hcol⟩
  rw [specCon, hcol.removeAt]
  cases hp : r.pat i with
  | con ty c' subs =>
      rw [hp] at hcol
      by_cases hc : c' = c
      · simp only [hc, if_true]
        exact .keep hcol (by simp [MPat.size]) (by simp [MPat.size])
      · simp only [if_neg hc]
        exact .drop hcol
  | var ty mv =>
      rw [hp] at hcol
      exact .keep hcol (by simp [sizes_wild]) (by simp [isWildP])
  | lit ty l => exact .drop hcol
  | as ty x p => exact .drop hcol

theorem specLit_smaller (l : Lit) (hok : RowOk oracle width n r) (hi : i < width) :
    Smaller i r (specLit l i a r) := by
  rcases hok.column hi with ⟨pre, post, hcol⟩
  rw [specLit, hcol.removeAt]
  cases hp : r.pat i with
  | con ty c subs => exact .drop hcol
  | var ty mv => exact .keep (q := []) (p := .var ty mv) (hp ▸ hcol) (Nat.zero_le _) nofun
  | lit ty l' =>
      by_cases hl : l' = l
      · simp only [hl, if_true]
        exact .keep (q := []) (p := .lit ty l') (hp ▸ hcol) (Nat.zero_le _) fun _ => Nat.one_pos
      · simp only [if_neg hl]
        exact .drop hcol
  | as ty x p => exact .drop hcol

theorem defaultRow_smaller (hok : RowOk oracle width n r) (hi : i < width) :
    Smaller i r (defaultRow i a r) := by
  rcases hok.column hi with ⟨pre, post, hcol⟩
  rw [defaultRow, hcol.removeAt]
  cases hp : r.pat i with
  | var ty mv => exact .keep (q := []) (p := .var ty mv) (hp ▸ hcol) (Nat.zero_le _) nofun
  | _ => exact .drop hcol

end Size

/-! ### As-patterns -/

/-- The patterns and the bindings of a row without its outermost as-patterns. -/
theorem peelCol_fst_ne_as (a : Atom) (p : MPat) (ty : Wok.TypeChecking.CType) (x : String)
    (q : MPat) : (peelCol a p).1 ≠ .as ty x q := by
  fun_induction peelCol a p with
  | case1 _ _ _ ih => exact ih
  | case2 p hp => exact fun h => hp _ _ _ h

theorem peelCol_matches (a : Atom) (p : MPat) (v : Value) :
    (peelCol a p).1.matches v = p.matches v := by
  fun_induction peelCol a p with
  | case1 _ _ _ ih => rw [ih, MPat.matches]
  | case2 => rfl

theorem peelCol_fits (a : Atom) (p : MPat) (v : Value) :
    (peelCol a p).1.fits oracle v = p.fits oracle v := by
  fun_induction peelCol a p with
  | case1 _ _ _ ih => rw [ih, MPat.fits]
  | case2 => rfl

theorem peelCol_wellFormed (a : Atom) (p : MPat) :
    (peelCol a p).1.wellFormed oracle = p.wellFormed oracle := by
  fun_induction peelCol a p with
  | case1 _ _ _ ih => rw [ih, MPat.wellFormed]
  | case2 => rfl

theorem peelCol_size (a : Atom) (p : MPat) : (peelCol a p).1.size ≤ p.size := by
  fun_induction peelCol a p with
  | case1 _ _ _ ih =>
      rw [MPat.size]
      exact ih.trans (Nat.le_add_left _ _)
  | case2 => exact le_rfl

theorem peelCol_parts (a : Atom) (p : MPat) (v : Value) :
    p.parts v = (peelCol a p).2.map (fun xa => (xa.1, v)) ++ (peelCol a p).1.parts v := by
  fun_induction peelCol a p with
  | case1 _ _ _ ih => rw [MPat.parts, ih, List.map_cons, List.cons_append]
  | case2 => rfl

theorem peelCol_vars (a : Atom) (p : MPat) :
    p.vars = (peelCol a p).2.map (·.1) ++ (peelCol a p).1.vars := by
  fun_induction peelCol a p with
  | case1 _ _ _ ih => rw [MPat.vars, ih, List.map_cons, List.cons_append]
  | case2 => rfl

theorem peelCol_atom {a : Atom} {p : MPat} {xa : String × Atom} (h : xa ∈ (peelCol a p).2) :
    xa.2 = a := by
  fun_induction peelCol a p with
  | case1 _ _ _ ih =>
      rcases List.mem_cons.mp h with rfl | h
      · rfl
      · exact ih h
  | case2 => cases h

/-- The patterns of a row without their outermost as-patterns. -/
def peelPats (as : List Atom) (ps : List MPat) : List MPat := (as.zipWith peelCol ps).map (·.1)

/-- The bindings that come off. -/
def peelBinds (as : List Atom) (ps : List MPat) : List (String × Atom) :=
  (as.zipWith peelCol ps).flatMap (·.2)

theorem peelAsRow_eq (scruts : List Atom) (r : Row) :
    peelAsRow scruts r =
      { r with pats := peelPats scruts r.pats, subst := r.subst ++ peelBinds scruts r.pats } :=
  rfl

@[simp] theorem peelPats_cons (a : Atom) (as : List Atom) (p : MPat) (ps : List MPat) :
    peelPats (a :: as) (p :: ps) = (peelCol a p).1 :: peelPats as ps := rfl

@[simp] theorem peelBinds_cons (a : Atom) (as : List Atom) (p : MPat) (ps : List MPat) :
    peelBinds (a :: as) (p :: ps) = (peelCol a p).2 ++ peelBinds as ps := rfl

theorem peelPats_length (as : List Atom) (ps : List MPat) :
    (peelPats as ps).length = min as.length ps.length := by
  simp [peelPats]

theorem peelPats_matches {as : List Atom} {ps : List MPat} (h : ps.length = as.length)
    (vs : List Value) : MPat.matchesAll (peelPats as ps) vs = MPat.matchesAll ps vs := by
  induction ps generalizing as vs with
  | nil => rw [List.length_eq_zero_iff.mp h.symm]; rfl
  | cons p ps ih =>
      rcases as with _ | ⟨a, as⟩
      · cases h
      · rcases vs with _ | ⟨v, vs⟩
        · rfl
        · rw [peelPats_cons, MPat.matchesAll, MPat.matchesAll, peelCol_matches,
            ih (Nat.succ.inj h)]

theorem peelPats_fits {as : List Atom} {ps : List MPat} (h : ps.length = as.length)
    (vs : List Value) : MPat.fitsAll oracle (peelPats as ps) vs = MPat.fitsAll oracle ps vs := by
  induction ps generalizing as vs with
  | nil => rw [List.length_eq_zero_iff.mp h.symm]; rfl
  | cons p ps ih =>
      rcases as with _ | ⟨a, as⟩
      · cases h
      · rcases vs with _ | ⟨v, vs⟩
        · rfl
        · rw [peelPats_cons, MPat.fitsAll, MPat.fitsAll, peelCol_fits, ih (Nat.succ.inj h)]

theorem peelPats_wellFormed {as : List Atom} {ps : List MPat}
    (h : MPat.wellFormedAll oracle ps = true) :
    MPat.wellFormedAll oracle (peelPats as ps) = true := by
  induction ps generalizing as with
  | nil => simp [peelPats, MPat.wellFormedAll]
  | cons p ps ih =>
      rcases as with _ | ⟨a, as⟩
      · rfl
      · simp only [MPat.wellFormedAll, Bool.and_eq_true] at h
        rw [peelPats_cons, MPat.wellFormedAll, peelCol_wellFormed, h.1, ih h.2]
        rfl

theorem peelPats_size (as : List Atom) (ps : List MPat) :
    sizes (peelPats as ps) ≤ sizes ps := by
  induction ps generalizing as with
  | nil => simp [peelPats, sizes]
  | cons p ps ih =>
      rcases as with _ | ⟨a, as⟩
      · exact Nat.zero_le _
      · rw [peelPats_cons, sizes, sizes]
        exact Nat.add_le_add (peelCol_size a p) (ih as)

theorem peelPats_ne_as {as : List Atom} {ps : List MPat} {p : MPat}
    (h : p ∈ peelPats as ps) (ty : Wok.TypeChecking.CType) (x : String) (q : MPat) :
    p ≠ .as ty x q := by
  induction ps generalizing as with
  | nil => simp [peelPats] at h
  | cons p' ps ih =>
      rcases as with _ | ⟨a, as⟩
      · simp [peelPats] at h
      · rcases List.mem_cons.mp h with rfl | h
        · exact peelCol_fst_ne_as a p' ty x q
        · exact ih h

theorem peelBinds_atom {as : List Atom} {ps : List MPat} {xa : String × Atom}
    (h : xa ∈ peelBinds as ps) : xa.2 ∈ as := by
  induction ps generalizing as with
  | nil => simp [peelBinds] at h
  | cons p ps ih =>
      rcases as with _ | ⟨a, as⟩
      · simp [peelBinds] at h
      · rcases List.mem_append.mp h with h | h
        · exact peelCol_atom h ▸ List.mem_cons_self
        · exact List.mem_cons_of_mem a (ih h)

/-- A binding that comes off holds a part, and the rest binds the others. -/
theorem peelBinds_parts {as : List Atom} {ps : List MPat} {vs : List Value} {sc : Scope}
    (hres : Resolves prims globals sc as vs) {x : String} {w : Value}
    (h : (∃ a, (x, a) ∈ peelBinds as ps ∧ resolveAtom prims globals sc a = .ok w) ∨
      (x, w) ∈ MPat.partsAll (peelPats as ps) vs) : (x, w) ∈ MPat.partsAll ps vs := by
  induction hres generalizing ps with
  | nil =>
      rcases h with ⟨a, ha, _⟩ | h
      · simp [peelBinds] at ha
      · simp [peelPats, MPat.partsAll] at h
  | @cons a v as vs hav _ ih =>
      rcases ps with _ | ⟨p, ps⟩
      · rcases h with ⟨b, hb, _⟩ | h
        · simp [peelBinds] at hb
        · simp [peelPats, MPat.partsAll] at h
      · rw [MPat.partsAll, peelCol_parts a p v, List.mem_append, List.mem_append, List.mem_map]
        rcases h with ⟨b, hb, hw⟩ | h
        · rcases List.mem_append.mp hb with hb | hb
          · have hba : b = a := peelCol_atom hb
            rw [hba, hav] at hw
            cases hw
            exact .inl (.inl ⟨_, hb, rfl⟩)
          · exact .inr (ih (.inl ⟨b, hb, hw⟩))
        · rcases List.mem_append.mp h with h | h
          · exact .inl (.inr h)
          · exact .inr (ih (.inr h))

theorem peelBinds_vars {as : List Atom} {ps : List MPat} (hlen : ps.length = as.length)
    {x : String} (h : x ∈ MPat.varsAll ps) :
    x ∈ (peelBinds as ps).map (·.1) ∨ x ∈ MPat.varsAll (peelPats as ps) := by
  induction ps generalizing as with
  | nil => cases h
  | cons p ps ih =>
      rcases as with _ | ⟨a, as⟩
      · cases hlen
      · rw [MPat.varsAll, peelCol_vars a p, List.mem_append, List.mem_append] at h
        rcases h with (h | h) | h
        · rw [peelBinds_cons, List.map_append]
          exact .inl (List.mem_append_left _ h)
        · exact .inr (List.mem_append_left _ h)
        · rcases ih (Nat.succ.inj hlen) h with h | h
          · rw [peelBinds_cons, List.map_append]
            exact .inl (List.mem_append_right _ h)
          · exact .inr (List.mem_append_right _ h)

theorem peelAsRow_peeled (scruts : List Atom) (r : Row) : peeled (peelAsRow scruts r) := by
  intro i ty x p
  rw [Row.pat, peelAsRow_eq, List.getD_eq_getElem?_getD]
  cases h : (peelPats scruts r.pats)[i]? with
  | none => exact nofun
  | some q => exact peelPats_ne_as (List.mem_of_getElem? h) ty x p

theorem peelAsRow_ok {n : Int} {scruts : List Atom} {r : Row}
    (h : RowOk oracle scruts.length n r) (hscruts : ∀ a ∈ scruts, AtomBelow n a) :
    RowOk oracle scruts.length n (peelAsRow scruts r) where
  width := by
    rw [peelAsRow_eq, peelPats_length, h.width, min_self]
  wellFormed := peelPats_wellFormed h.wellFormed
  atoms xa hxa := by
    rcases List.mem_append.mp hxa with hxa | hxa
    · exact h.atoms xa hxa
    · exact hscruts _ (peelBinds_atom hxa)
  order x hx := by
    rw [peelAsRow_eq, List.map_append, List.mem_append]
    rcases h.order x hx with hs | hv
    · exact .inl (.inl hs)
    · rcases peelBinds_vars h.width hv with hb | hv
      · exact .inl (.inr hb)
      · exact .inr hv

theorem exists_resolved {sc : Scope} {as : List Atom} {vs : List Value} {a : Atom}
    (h : Resolves prims globals sc as vs) (ha : a ∈ as) :
    ∃ w, resolveAtom prims globals sc a = .ok w := by
  induction h with
  | nil => cases ha
  | cons hav _ ih =>
      rcases List.mem_cons.mp ha with rfl | ha
      · exact ⟨_, hav⟩
      · exact ih ha

theorem peelAsRow_follows {n : Int} {scruts : List Atom} {sc : Scope} {vs : List Value} {r : Row}
    (hres : Resolves prims globals sc scruts vs) (hok : RowOk oracle scruts.length n r)
    (hfits : RowFits prims globals oracle sc vs r) :
    Follows prims globals oracle sc vs sc vs r [peelAsRow scruts r] := by
  refine .inr ⟨_, rfl, rfl, rfl, ⟨?_, ?_⟩, ?_, ?_⟩
  · rw [peelAsRow_eq, peelPats_fits hok.width]
    exact hfits.fits
  · intro xa hxa
    rcases List.mem_append.mp hxa with hxa | hxa
    · exact hfits.resolved xa hxa
    · exact exists_resolved hres (peelBinds_atom hxa)
  · exact peelPats_matches hok.width vs
  · intro x w hxw
    rcases hxw with ⟨a, ha, hw⟩ | hxw
    · rcases List.mem_append.mp ha with ha | ha
      · exact .inl ⟨a, ha, hw⟩
      · exact .inr (peelBinds_parts hres (.inl ⟨a, ha, hw⟩))
    · exact .inr (peelBinds_parts hres (.inr hxw))

theorem peelRows_size (scruts : List Atom) (rows : List Row) :
    matrixSize (rows.map (peelAsRow scruts)) ≤ matrixSize rows := by
  induction rows with
  | nil => exact le_rfl
  | cons r rows ih =>
      rw [List.map_cons, matrixSize_cons, matrixSize_cons]
      exact Nat.add_le_add (peelPats_size scruts r.pats) ih

/-! ### Columns and heads -/

theorem Row.pat_mem {r : Row} {i : Nat} (h : i < r.pats.length) : r.pat i ∈ r.pats := by
  simp [Row.pat, List.getElem?_eq_getElem h]

/-- The chosen column has a test, when some column has. -/
theorem pickCol_spec {n : Nat} (rows : List Row) {c : Nat} (hc : c < n)
    (htest : ∃ r ∈ rows, isWildP (r.pat c) = false) :
    pickCol n rows < n ∧ ∃ r ∈ rows, isWildP (r.pat (pickCol n rows)) = false := by
  have hmem : ∀ d ∈ (List.range n).filter fun c => !(rows.all (isWildP <| ·.pat c)),
      d < n ∧ ∃ r ∈ rows, isWildP (r.pat d) = false := by
    intro d hd
    simpa using hd
  cases hcand : (List.range n).filter fun c => !(rows.all (isWildP <| ·.pat c)) with
  | nil =>
      have : c ∈ (List.range n).filter fun c => !(rows.all (isWildP <| ·.pat c)) := by
        simpa using ⟨hc, htest⟩
      rw [hcand] at this
      cases this
  | cons d ds =>
      rw [hcand] at hmem
      cases hcon : (d :: ds).filter fun c => rows.any (isConP <| ·.pat c) with
      | nil =>
          have hd : pickCol n rows = d := by
            simp only [pickCol, hcand, hcon, List.headD_cons]
          rw [hd]
          exact hmem d List.mem_cons_self
      | cons e es =>
          have he : pickCol n rows = e := by
            simp only [pickCol, hcand, hcon]
          rw [he]
          refine hmem e (List.mem_of_mem_filter (p := fun c => rows.any (isConP <| ·.pat c)) ?_)
          rw [hcon]
          exact List.mem_cons_self

theorem chooseColumn_spec {scruts : List Atom} (rows : List Row) {c : Nat}
    (hc : c < scruts.length) (htest : ∃ r ∈ rows, isWildP (r.pat c) = false) :
    chooseColumn scruts rows < scruts.length ∧
      ∃ r ∈ rows, isWildP (r.pat (chooseColumn scruts rows)) = false :=
  pickCol_spec rows hc htest

theorem mem_nub {h : Head} (hs seen : List Head) :
    h ∈ hs.foldl (fun seen h => if h ∈ seen then seen else seen ++ [h]) seen ↔
      h ∈ seen ∨ h ∈ hs := by
  induction hs generalizing seen with
  | nil => simp
  | cons h' hs ih =>
      rw [List.foldl_cons, ih, List.mem_cons]
      by_cases hmem : h' ∈ seen
      · rw [if_pos hmem]
        constructor
        · rintro (h1 | h1)
          · exact .inl h1
          · exact .inr (.inr h1)
        · rintro (h1 | rfl | h1)
          · exact .inl h1
          · exact .inl hmem
          · exact .inr h1
      · rw [if_neg hmem, List.mem_append, List.mem_singleton, or_assoc]

/-- The heads of a column are those of its patterns. -/
theorem mem_nubHeads {h : Head} {ps : List MPat} :
    h ∈ nubHeads ps ↔ ∃ p ∈ ps, p.head = some h := by
  rw [nubHeads, mem_nub]
  simp

/-! ### The supply -/

/-- A loop of which each round keeps the supply going and establishes `P`. -/
theorem Fresh.mapM_spec {α β : Type} {f : α → Fresh β} {P : α → β → Prop} {n : Int} {xs : List α}
    (h : ∀ x ∈ xs, ∀ m, n ≤ m → ∃ b m', f x m = .ok (b, m') ∧ m ≤ m' ∧ P x b) {m : Int}
    (hnm : n ≤ m) : ∃ bs m', xs.mapM f m = .ok (bs, m') ∧ m ≤ m' ∧ List.Forall₂ P xs bs := by
  induction xs generalizing m with
  | nil => exact ⟨[], m, rfl, le_rfl, .nil⟩
  | cons x xs ih =>
      rcases h x List.mem_cons_self m hnm with ⟨b, m1, hb, hm1, hPb⟩
      rcases ih (fun y hy => h y (List.mem_cons_of_mem x hy)) (hnm.trans hm1) with
        ⟨bs, m2, hbs, hm2, hPbs⟩
      refine ⟨b :: bs, m2, ?_, hm1.trans hm2, .cons hPb hPbs⟩
      rw [List.mapM_cons, Fresh.bind_eq hb, Fresh.bind_eq hbs]
      rfl

/-- Names minted in a row are distinct and new. -/
theorem freshNames (hints : List String) (n : Int) :
    ∃ names, hints.mapM freshName n = .ok (names, n + hints.length) ∧
      names.length = hints.length ∧ (names.map (·.uniq)).Nodup ∧
      ∀ nm ∈ names, n ≤ nm.uniq.id ∧ nm.uniq.id < n + hints.length := by
  induction hints generalizing n with
  | nil => exact ⟨[], by simp; rfl, rfl, List.nodup_nil, nofun⟩
  | cons hint hints ih =>
      rcases ih (n + 1) with ⟨names, hrun, hlen, hnodup, hnew⟩
      have hsucc : ((hint :: hints).length : Int) = hints.length + 1 := by simp
      rw [hsucc]
      refine ⟨⟨hint, ⟨n⟩⟩ :: names, ?_, ?_, ?_, ?_⟩
      · have hone : freshName hint n = .ok (⟨hint, ⟨n⟩⟩, n + 1) := rfl
        rw [List.mapM_cons, Fresh.bind_eq hone, Fresh.bind_eq hrun]
        change Except.ok _ = Except.ok _
        rw [Int.add_assoc, Int.add_comm 1]
      · rw [List.length_cons, List.length_cons, hlen]
      · rw [List.map_cons, List.nodup_cons]
        refine ⟨?_, hnodup⟩
        intro hmem
        rcases List.mem_map.mp hmem with ⟨nm, hnm, heq⟩
        have hid := (hnew nm hnm).1
        rw [heq] at hid
        simp only at hid
        omega
      · intro nm hnm
        rcases List.mem_cons.mp hnm with rfl | hnm
        · simp only
          omega
        · have := hnew nm hnm
          omega

/-! ### Switching on a column -/

theorem resolves_column {sc : Scope} {scruts : List Atom} {vs : List Value} {i : Nat}
    (h : Resolves prims globals sc scruts vs) (hi : i < scruts.length) :
    ∃ vpre v vpost, vs = vpre ++ v :: vpost ∧ vpre.length = i ∧
      resolveAtom prims globals sc (scrutAt scruts i) = .ok v ∧
      Resolves prims globals sc (removeAt i scruts) (vpre ++ vpost) := by
  have hlen : scruts.length = vs.length := List.Forall₂.length_eq h
  rcases split_at vs (hlen ▸ hi) with ⟨vpre, v, vpost, rfl, rfl⟩
  refine ⟨vpre, v, vpost, rfl, rfl, ?_, ?_⟩
  · have hdrop := List.forall₂_drop_append _ _ _ h
    rw [List.drop_eq_getElem_cons hi] at hdrop
    rcases hdrop with _ | ⟨hv, _⟩
    rwa [scrutAt, List.getD_eq_getElem?_getD, List.getElem?_eq_getElem hi]
  · have hdrop := List.forall₂_drop_append _ _ _ h
    rw [List.drop_eq_getElem_cons hi] at hdrop
    rcases hdrop with _ | ⟨_, hpost⟩
    exact List.rel_append (List.forall₂_take_append _ _ _ h) hpost

theorem removeAt_length {α : Type} {i : Nat} {xs : List α} (h : i < xs.length) :
    (removeAt i xs).length = xs.length - 1 := by
  simp [removeAt]
  omega

theorem mem_of_mem_removeAt {α : Type} {i : Nat} {xs : List α} {x : α}
    (h : x ∈ removeAt i xs) : x ∈ xs := by
  rcases List.mem_append.mp h with h | h
  · exact List.mem_of_mem_take h
  · exact List.mem_of_mem_drop h

theorem scrutAt_mem {scruts : List Atom} {i : Nat} (h : i < scruts.length) :
    scrutAt scruts i ∈ scruts := by
  simp [scrutAt, List.getElem?_eq_getElem h]

theorem resolves_agree {n : Int} {sc sc' : Scope} {as : List Atom} {vs : List Value}
    (h : Resolves prims globals sc as vs) (has : ∀ a ∈ as, AtomBelow n a)
    (hagree : AgreeBelow n sc sc') : Resolves prims globals sc' as vs := by
  induction h with
  | nil => exact .nil
  | cons hav _ ih =>
      refine .cons ?_ (ih fun b hb => has b (List.mem_cons_of_mem _ hb))
      rw [resolveAtom_agree (has _ List.mem_cons_self) hagree]
      exact hav

/-- A compiler that is right on the matrices of less than a given size. -/
def Compiles (prims : PrimTable) (globals : Globals) (serial : Nat) (oracle : ConOracle)
    (compile : List Atom → List Row → Fresh Expr) (size : Nat) : Prop :=
  ∀ scruts rows n, matrixSize rows < size → (∀ a ∈ scruts, AtomBelow n a) →
    (∀ r ∈ rows, RowOk oracle scruts.length n r) →
    ∃ e n', compile scruts rows n = .ok (e, n') ∧ n ≤ n' ∧
      Decides prims globals serial oracle n scruts rows e

/-- The alternative of head `h` of column `i`: it is passed by for values of
another head, and decides the matrix for those of this one. -/
structure HeadAlt (prims : PrimTable) (globals : Globals) (serial : Nat) (oracle : ConOracle)
    (n : Int) (i : Nat) (scruts : List Atom) (rows : List Row) (h : Head) (alt : Alt) :
    Prop where
  skip : ∀ sc v, headOf v ≠ some h → altSelect v sc alt = none
  enter : ∀ sc k vpre v vpost, vpre.length = i →
    resolveAtom prims globals sc (scrutAt scruts i) = .ok v →
    Resolves prims globals sc (removeAt i scruts) (vpre ++ vpost) →
    (∀ r ∈ rows, RowFits prims globals oracle sc (vpre ++ v :: vpost) r) →
    headOf v = some h → (∀ c ws, v = .con c ws → ws.length = oracle.coArity c) →
    ∃ e sc', altSelect v sc alt = some (e, sc') ∧
      Leads prims globals serial n sc k (vpre ++ v :: vpost) (.eval e sc' k)
        (rows.find? (rowMatches (vpre ++ v :: vpost)))

/-- A matrix in the middle of compilation: column `i` has a test. -/
structure Switch (oracle : ConOracle) (n : Int) (i : Nat) (scruts : List Atom)
    (rows : List Row) : Prop where
  column : i < scruts.length
  atoms : ∀ a ∈ scruts, AtomBelow n a
  ok : ∀ r ∈ rows, RowOk oracle scruts.length n r
  peeled : ∀ r ∈ rows, peeled r
  test : ∃ r ∈ rows, isWildP (r.pat i) = false

theorem Switch.mono {n m : Int} {i : Nat} {scruts : List Atom} {rows : List Row} (hnm : n ≤ m)
    (h : Switch oracle n i scruts rows) : Switch oracle m i scruts rows :=
  { h with
    atoms := fun a ha => (h.atoms a ha).mono hnm
    ok := fun r hr => (h.ok r hr).mono hnm }

section Switch

variable {compile : List Atom → List Row → Fresh Expr} {n : Int} {i : Nat} {scruts : List Atom}
  {rows : List Row}

theorem fieldTypesOf_length (hsw : Switch oracle n i scruts rows) (c : String) :
    (fieldTypesOf c i rows (oracle.coArity c)).length = oracle.coArity c := by
  unfold fieldTypesOf
  split
  · next ts hts =>
      rcases List.exists_of_findSome?_eq_some hts with ⟨r, hr, hpat⟩
      rcases (hsw.ok r hr).column hsw.column with ⟨pre, post, hcol⟩
      have hwf := (hsw.ok r hr).wellFormed
      cases hp : r.pat i with
      | con ty c' subs =>
          rw [hp] at hpat hcol
          rw [hcol.pats, wellFormedAll_append] at hwf
          simp only [MPat.wellFormedAll, MPat.wellFormed, Bool.and_eq_true, beq_iff_eq] at hwf
          by_cases hc : c' = c
          · simp only [hc, if_true, Option.some.injEq] at hpat
            rw [← hpat, List.length_map, hwf.2.1.1, hc]
          · simp [hc] at hpat
      | _ => simp [hp] at hpat
  · exact List.length_replicate

theorem fieldBinders_uniques {names : List Name} {tys : List Wok.TypeChecking.CType}
    (h : names.length = tys.length) :
    (fieldBinders names tys).map binderUnique = names.map (·.uniq) := by
  induction names generalizing tys with
  | nil => rfl
  | cons nm names ih =>
      rcases tys with _ | ⟨ty, tys⟩
      · cases h
      · rw [fieldBinders, List.zipWith_cons_cons, List.map_cons, List.map_cons, ← fieldBinders,
          ih (Nat.succ.inj h)]
        rfl

/-- The fields of a selected constructor are what the scrutinees of its subtree
hold. -/
theorem resolves_fields {names : List Name} {tys : List Wok.TypeChecking.CType}
    {ws : List Value} (sc : Scope) (hnt : names.length = tys.length)
    (hnw : names.length = ws.length) (hnodup : (names.map (·.uniq)).Nodup) :
    Resolves prims globals
      { sc with env := bindBinders (fieldBinders names tys) ws sc.env }
      (names.map Atom.var) ws := by
  have huniq := fieldBinders_uniques hnt
  have hlen : (fieldBinders names tys).length = names.length := by
    simpa using congrArg List.length huniq
  have hbind := lookup_bindBinders sc.env (hlen.trans hnw) (huniq ▸ hnodup)
  rw [Resolves, List.forall₂_map_left_iff]
  have hmap : List.Forall₂ (fun u v =>
      (bindBinders (fieldBinders names tys) ws sc.env).lookup u = some v)
      (names.map (·.uniq)) ws := by
    rw [← huniq, List.forall₂_map_left_iff]
    exact hbind
  rw [List.forall₂_map_left_iff] at hmap
  refine hmap.imp fun nm w hw => ?_
  simp only [resolveAtom, hw]

theorem RowFits.of_follows {sc sc' : Scope} {vs vs' : List Value} {f : Row → List Row}
    (h : ∀ r ∈ rows, Follows prims globals oracle sc vs sc' vs' r (f r)) {r' : Row}
    (hr' : r' ∈ rows.flatMap f) : RowFits prims globals oracle sc' vs' r' := by
  rcases List.mem_flatMap.mp hr' with ⟨r, hr, hr'⟩
  rcases h r hr with ⟨hnil, _⟩ | ⟨r1, hone, _, _, hfit, _⟩
  · rw [hnil] at hr'
    cases hr'
  · rw [hone, List.mem_singleton] at hr'
    exact hr' ▸ hfit

theorem buildHeadAlt_con (hcompile : Compiles prims globals serial oracle compile
    (matrixSize rows)) (hsw : Switch oracle n i scruts rows) (c : String) :
    ∃ alt n', buildHeadAlt oracle compile i (scrutAt scruts i) (removeAt i scruts) rows
        (.con c) n = .ok (alt, n') ∧ n ≤ n' ∧
      HeadAlt prims globals serial oracle n i scruts rows (.con c) alt := by
  rcases freshNames (List.replicate (oracle.coArity c) "f") n with
    ⟨names, hnames, hlen, hnodup, hnew⟩
  rw [List.length_replicate] at hlen hnames hnew
  have hmono : n ≤ n + (oracle.coArity c : Int) := by omega
  have hscrut : AtomBelow n (scrutAt scruts i) := hsw.atoms _ (scrutAt_mem hsw.column)
  have htys := fieldTypesOf_length hsw c
  have hscruts : ∀ a ∈ names.map Atom.var ++ removeAt i scruts,
      AtomBelow (n + (oracle.coArity c : Int)) a := by
    intro a ha
    rcases List.mem_append.mp ha with ha | ha
    · rcases List.mem_map.mp ha with ⟨nm, hnm, rfl⟩
      intro u hu
      simp only [atomVars, List.mem_singleton] at hu
      exact hu ▸ (hnew nm hnm).2
    · exact (hsw.atoms a (mem_of_mem_removeAt ha)).mono hmono
  have hrows : ∀ r ∈ rows.flatMap (specCon c (oracle.coArity c) i (scrutAt scruts i)),
      RowOk oracle (names.map Atom.var ++ removeAt i scruts).length
        (n + (oracle.coArity c : Int)) r := by
    intro r' hr'
    rcases List.mem_flatMap.mp hr' with ⟨r, hr, hr'⟩
    rw [List.length_append, List.length_map, hlen, removeAt_length hsw.column]
    exact specCon_ok (hsw.ok r hr) hsw.column hmono (hscrut.mono hmono) hr'
  have hsize := matrixSize_flatMap_lt (fun r hr =>
    specCon_smaller (a := scrutAt scruts i) c (oracle.coArity c) (hsw.ok r hr) hsw.column)
    hsw.test
  rcases hcompile _ _ _ hsize hscruts hrows with ⟨body, n', hbody, hn', hdec⟩
  refine ⟨.con c (fieldBinders names (fieldTypesOf c i rows (oracle.coArity c))) body, n',
    ?_, hmono.trans hn', ?_, ?_⟩
  · rw [buildHeadAlt, Fresh.bind_eq hnames, Fresh.bind_eq hbody]
    rfl
  · intro sc v hv
    cases v with
    | con c' ws =>
        rw [altSelect, if_neg]
        rintro ⟨rfl, _⟩
        exact hv rfl
    | _ => rfl
  · intro sc k vpre v vpost hvpre hv hres hfits hhead harity
    cases v with
    | con c' ws =>
        simp only [headOf, Option.some.injEq, Head.con.injEq] at hhead
        subst hhead
        have hws := harity c' ws rfl
        have huniq := fieldBinders_uniques (hlen.trans htys.symm)
        have hbs : (fieldBinders names (fieldTypesOf c' i rows (oracle.coArity c'))).length =
            ws.length := by
          have hlens := congrArg List.length huniq
          rw [List.length_map, List.length_map] at hlens
          exact hlens.trans (hlen.trans hws.symm)
        let sc' : Scope := ⟨bindBinders
          (fieldBinders names (fieldTypesOf c' i rows (oracle.coArity c'))) ws sc.env, sc.joins⟩
        have hagree : AgreeBelow n sc sc' := by
          refine agreeBelow_bindBinders ws sc fun b hb => ?_
          have hmem : binderUnique b ∈ names.map (·.uniq) := huniq ▸ List.mem_map_of_mem hb
          rcases List.mem_map.mp hmem with ⟨nm, hnm, heq⟩
          exact heq ▸ (hnew nm hnm).1
        have hfollows : ∀ r ∈ rows, Follows prims globals oracle sc
            (vpre ++ .con c' ws :: vpost) sc' (ws ++ (vpre ++ vpost)) r
            (specCon c' (oracle.coArity c') i (scrutAt scruts i) r) := by
          intro r hr
          refine specCon_follows (hsw.ok r hr) hsw.column (hsw.peeled r hr) (hfits r hr) hvpre
            hws.symm (fun xa hxa => ?_) ?_
          · exact resolveAtom_agree ((hsw.ok r hr).atoms xa hxa) hagree
          · rw [resolveAtom_agree hscrut hagree]
            exact hv
        refine ⟨body, sc', if_pos ⟨rfl, hbs⟩, ?_⟩
        refine Leads.of_follows hfollows (TreeSteps.refl _) hagree hmono (hdec _ k _ ?_ ?_)
        · refine List.rel_append ?_ (resolves_agree hres (fun a ha => ?_) hagree)
          · exact resolves_fields sc (hlen.trans htys.symm) (hlen.trans hws.symm) hnodup
          · exact hsw.atoms a (mem_of_mem_removeAt ha)
        · exact fun r' hr' => RowFits.of_follows hfollows hr'
    | _ => cases hhead

theorem buildHeadAlt_lit (hcompile : Compiles prims globals serial oracle compile
    (matrixSize rows)) (hsw : Switch oracle n i scruts rows) (l : Lit) :
    ∃ alt n', buildHeadAlt oracle compile i (scrutAt scruts i) (removeAt i scruts) rows
        (.lit l) n = .ok (alt, n') ∧ n ≤ n' ∧
      HeadAlt prims globals serial oracle n i scruts rows (.lit l) alt := by
  have hscrut : AtomBelow n (scrutAt scruts i) := hsw.atoms _ (scrutAt_mem hsw.column)
  have hrows : ∀ r ∈ rows.flatMap (specLit l i (scrutAt scruts i)),
      RowOk oracle (removeAt i scruts).length n r := by
    intro r' hr'
    rcases List.mem_flatMap.mp hr' with ⟨r, hr, hr'⟩
    rw [removeAt_length hsw.column]
    exact specLit_ok (hsw.ok r hr) hsw.column hscrut hr'
  have hsize := matrixSize_flatMap_lt (fun r hr =>
    specLit_smaller (a := scrutAt scruts i) l (hsw.ok r hr) hsw.column) hsw.test
  rcases hcompile _ _ n hsize (fun a ha => hsw.atoms a (mem_of_mem_removeAt ha)) hrows with
    ⟨body, n', hbody, hn', hdec⟩
  refine ⟨.lit l body, n', ?_, hn', ?_, ?_⟩
  · rw [buildHeadAlt, Fresh.bind_eq hbody]
    rfl
  · intro sc v hv
    cases v with
    | lit l' =>
        rw [altSelect, if_neg]
        rintro rfl
        exact hv rfl
    | _ => rfl
  · intro sc k vpre v vpost hvpre hv hres hfits hhead _
    cases v with
    | lit l' =>
        simp only [headOf, Option.some.injEq, Head.lit.injEq] at hhead
        subst hhead
        have hfollows : ∀ r ∈ rows, Follows prims globals oracle sc
            (vpre ++ .lit l' :: vpost) sc (vpre ++ vpost) r
            (specLit l' i (scrutAt scruts i) r) := fun r hr =>
          specLit_follows (hsw.ok r hr) hsw.column (hsw.peeled r hr) (hfits r hr) hvpre hv
        refine ⟨body, sc, if_pos rfl, ?_⟩
        exact Leads.of_follows hfollows (TreeSteps.refl _) (AgreeBelow.refl _ _) le_rfl
          (hdec sc k _ hres fun r' hr' => RowFits.of_follows hfollows hr')
    | _ => cases hhead

theorem Leads.mono {n m : Int} {sc : Scope} {k : Kont} {vs : List Value} {c : Config}
    {r : Option Row} (hnm : n ≤ m) (h : Leads prims globals serial m sc k vs c r) :
    Leads prims globals serial n sc k vs c r := by
  cases r with
  | none => exact h
  | some r =>
      rcases h with ⟨sc', args, ws, hs, hargs, hws, hag⟩
      exact ⟨sc', args, ws, hs, hargs, hws, hag.mono hnm⟩

theorem Leads.of_step {a : Atom} {alts : List Alt} {sc sc' : Scope} {k k' : Kont}
    {vs : List Value} {c : Config} {r : Option Row}
    (hstep : transition prims globals serial (.eval (.case_ a alts) sc' k') = .ok (.config c))
    (h : Leads prims globals serial n sc k vs c r) :
    Leads prims globals serial n sc k vs (.eval (.case_ a alts) sc' k') r := by
  cases r with
  | none =>
      rcases h with ⟨sc', hs⟩
      exact ⟨sc', .head hstep hs⟩
  | some r =>
      rcases h with ⟨sc', args, ws, hs, h⟩
      exact ⟨sc', args, ws, .head hstep hs, h⟩

theorem HeadAlt.mono {m : Int} {h : Head} {alt : Alt} (hnm : n ≤ m)
    (halt : HeadAlt prims globals serial oracle m i scruts rows h alt) :
    HeadAlt prims globals serial oracle n i scruts rows h alt where
  skip := halt.skip
  enter sc k vpre v vpost hvpre hv hres hfits hhead harity := by
    rcases halt.enter sc k vpre v vpost hvpre hv hres hfits hhead harity with
      ⟨e, sc', hsel, hleads⟩
    exact ⟨e, sc', hsel, hleads.mono hnm⟩

/-- The alternatives of the heads of a column. -/
theorem buildHeadAlts (hcompile : Compiles prims globals serial oracle compile
    (matrixSize rows)) (hsw : Switch oracle n i scruts rows) (heads : List Head) :
    ∃ alts n', heads.mapM (buildHeadAlt oracle compile i (scrutAt scruts i)
        (removeAt i scruts) rows) n = .ok (alts, n') ∧ n ≤ n' ∧
      List.Forall₂ (HeadAlt prims globals serial oracle n i scruts rows) heads alts := by
  refine Fresh.mapM_spec (fun h _ m hnm => ?_) le_rfl
  have halt : ∃ alt m', buildHeadAlt oracle compile i (scrutAt scruts i) (removeAt i scruts)
      rows h m = .ok (alt, m') ∧ m ≤ m' ∧
      HeadAlt prims globals serial oracle m i scruts rows h alt := by
    cases h with
    | con c => exact buildHeadAlt_con hcompile (hsw.mono hnm) c
    | lit l => exact buildHeadAlt_lit hcompile (hsw.mono hnm) l
  rcases halt with ⟨alt, m', hrun, hm', h⟩
  exact ⟨alt, m', hrun, hm', h.mono hnm⟩

/-- What the default of a switch has to do: it is there when a value can have
none of the heads, and decides the matrix for such values. -/
structure DefaultAlt (prims : PrimTable) (globals : Globals) (serial : Nat)
    (oracle : ConOracle) (n : Int) (i : Nat) (scruts : List Atom) (rows : List Row)
    (mDef : Option Alt) : Prop where
  enter : ∀ sc k vpre v vpost, vpre.length = i →
    resolveAtom prims globals sc (scrutAt scruts i) = .ok v →
    Resolves prims globals sc (removeAt i scruts) (vpre ++ vpost) →
    (∀ r ∈ rows, RowFits prims globals oracle sc (vpre ++ v :: vpost) r) →
    (∀ h ∈ nubHeads (rows.map (·.pat i)), headOf v ≠ some h) →
    ∃ e, matchAlts v sc k mDef.toList = .ok (.eval e sc k) ∧
      Leads prims globals serial n sc k (vpre ++ v :: vpost) (.eval e sc k)
        (rows.find? (rowMatches (vpre ++ v :: vpost)))

/-- The value of a column with a constructor pattern is built by a constructor of
its type, with all its fields. -/
theorem RowFits.con {width : Nat} {sc : Scope} {vpre vpost : List Value} {v : Value} {r : Row}
    {c : String} (hfits : RowFits prims globals oracle sc (vpre ++ v :: vpost) r)
    (hok : RowOk oracle width n r) (hi : i < width) (hvpre : vpre.length = i)
    (hhead : (r.pat i).head = some (.con c)) :
    ∃ c' ws, v = .con c' ws ∧ ws.length = oracle.coArity c' ∧
      (oracle.coSiblings c).all (·.contains c') = true := by
  rcases hok.column hi with ⟨pre, post, hcol⟩
  cases hp : r.pat i with
  | con ty c1 ps =>
      rw [hp] at hcol hhead
      cases hhead
      have hfit := hfits.fits
      rw [hcol.pats, fitsAll_append (hcol.index.trans hvpre.symm)] at hfit
      simp only [MPat.fitsAll, Bool.and_eq_true] at hfit
      cases v with
      | con c' ws =>
          simp only [MPat.fits, Bool.and_eq_true, beq_iff_eq] at hfit
          exact ⟨c', ws, rfl, hfit.2.1.1.1, hfit.2.1.1.2⟩
      | _ => simp [MPat.fits] at hfit
  | _ => simp [hp, MPat.head] at hhead

theorem completeHeads_inv {heads : List Head} (h : completeHeads oracle heads = true) :
    ∃ c sibs, .con c ∈ heads ∧ oracle.coSiblings c = some sibs ∧
      ∀ c' ∈ sibs, .con c' ∈ heads := by
  have hmem : ∀ c, c ∈ heads.filterMap Head.conTag → .con c ∈ heads := by
    intro c hc
    rcases List.mem_filterMap.mp hc with ⟨h, hh, heq⟩
    cases h with
    | con c' =>
        cases heq
        exact hh
    | lit l => cases heq
  simp only [completeHeads, Bool.and_eq_true] at h
  cases htags : heads.filterMap Head.conTag with
  | nil =>
      rw [htags] at h
      cases h.2
  | cons c0 cs =>
      rw [htags] at h hmem
      cases hs : oracle.coSiblings c0 with
      | none =>
          simp only [hs] at h
          cases h.2
      | some sibs =>
          simp only [hs] at h
          refine ⟨c0, sibs, hmem c0 List.mem_cons_self, hs, fun c' hc' => hmem c' ?_⟩
          have := List.all_eq_true.mp h.2 c' hc'
          simpa using this

theorem mem_columnHeads {h : Head} :
    h ∈ nubHeads (rows.map (·.pat i)) ↔ ∃ r ∈ rows, (r.pat i).head = some h := by
  rw [mem_nubHeads]
  simp

theorem buildDefault_spec (hcompile : Compiles prims globals serial oracle compile
    (matrixSize rows)) (hsw : Switch oracle n i scruts rows) :
    ∃ mDef n', buildDefault oracle compile i (scrutAt scruts i) (removeAt i scruts) rows
        (nubHeads (rows.map (·.pat i))) n = .ok (mDef, n') ∧ n ≤ n' ∧
      DefaultAlt prims globals serial oracle n i scruts rows mDef := by
  by_cases hcomplete : completeHeads oracle (nubHeads (rows.map (·.pat i))) = true
  · refine ⟨none, n, ?_, le_rfl, ⟨?_⟩⟩
    · rw [buildDefault, if_pos hcomplete]
      rfl
    · intro sc k vpre v vpost hvpre _ _ hfits hnone
      rcases completeHeads_inv hcomplete with ⟨c, sibs, hc, hsibs, hall⟩
      rcases mem_columnHeads.mp hc with ⟨r, hr, hhead⟩
      rcases (hfits r hr).con (hsw.ok r hr) hsw.column hvpre hhead with
        ⟨c', ws, rfl, _, hsib⟩
      rw [hsibs] at hsib
      have hc' : c' ∈ sibs := by simpa using hsib
      exact absurd rfl (hnone (.con c') (hall c' hc'))
  · have hscrut : AtomBelow n (scrutAt scruts i) := hsw.atoms _ (scrutAt_mem hsw.column)
    have hrows : ∀ r ∈ rows.flatMap (defaultRow i (scrutAt scruts i)),
        RowOk oracle (removeAt i scruts).length n r := by
      intro r' hr'
      rcases List.mem_flatMap.mp hr' with ⟨r, hr, hr'⟩
      rw [removeAt_length hsw.column]
      exact defaultRow_ok (hsw.ok r hr) hsw.column hscrut hr'
    have hsize := matrixSize_flatMap_lt (fun r hr =>
      defaultRow_smaller (a := scrutAt scruts i) (hsw.ok r hr) hsw.column) hsw.test
    rcases hcompile _ _ n hsize (fun a ha => hsw.atoms a (mem_of_mem_removeAt ha)) hrows with
      ⟨body, n', hbody, hn', hdec⟩
    refine ⟨some (.default body), n', ?_, hn', ⟨?_⟩⟩
    · rw [buildDefault, if_neg hcomplete, Fresh.bind_eq hbody]
      rfl
    · intro sc k vpre v vpost hvpre hv hres hfits hnone
      have hfollows : ∀ r ∈ rows, Follows prims globals oracle sc (vpre ++ v :: vpost) sc
          (vpre ++ vpost) r (defaultRow i (scrutAt scruts i) r) := fun r hr =>
        defaultRow_follows (hsw.ok r hr) hsw.column (hsw.peeled r hr) (hfits r hr) hvpre
          (fun h hh => hnone h (mem_columnHeads.mpr ⟨r, hr, hh⟩)) hv
      refine ⟨body, rfl, ?_⟩
      exact Leads.of_follows hfollows (TreeSteps.refl _) (AgreeBelow.refl _ _) le_rfl
        (hdec sc k _ hres fun r' hr' => RowFits.of_follows hfollows hr')

/-- The alternatives of the heads select what the value's head says. -/
theorem matchAlts_heads {sc : Scope} (k : Kont) {vpre vpost : List Value} {v : Value}
    {heads : List Head} {alts : List Alt} (rest : List Alt) (hvpre : vpre.length = i)
    (halts : List.Forall₂ (HeadAlt prims globals serial oracle n i scruts rows) heads alts)
    (hv : resolveAtom prims globals sc (scrutAt scruts i) = .ok v)
    (hres : Resolves prims globals sc (removeAt i scruts) (vpre ++ vpost))
    (hfits : ∀ r ∈ rows, RowFits prims globals oracle sc (vpre ++ v :: vpost) r)
    (harity : ∀ h ∈ heads, headOf v = some h →
      ∀ c ws, v = .con c ws → ws.length = oracle.coArity c) :
    (∃ e sc', matchAlts v sc k (alts ++ rest) = .ok (.eval e sc' k) ∧
      Leads prims globals serial n sc k (vpre ++ v :: vpost) (.eval e sc' k)
        (rows.find? (rowMatches (vpre ++ v :: vpost)))) ∨
    ((∀ h ∈ heads, headOf v ≠ some h) ∧
      matchAlts v sc k (alts ++ rest) = matchAlts v sc k rest) := by
  induction halts with
  | nil => exact .inr ⟨nofun, rfl⟩
  | @cons h alt heads alts halt _ ih =>
      rw [List.cons_append, matchAlts_cons]
      by_cases hhead : headOf v = some h
      · rcases halt.enter sc k vpre v vpost hvpre hv hres hfits hhead
          (harity h List.mem_cons_self hhead) with ⟨e, sc', hsel, hleads⟩
        rw [hsel]
        exact .inl ⟨e, sc', rfl, hleads⟩
      · rw [halt.skip sc v hhead]
        rcases ih fun h' hh' => harity h' (List.mem_cons_of_mem h hh') with hin | ⟨hno, heq⟩
        · exact .inl hin
        · refine .inr ⟨fun h' hh' => ?_, heq⟩
          rcases List.mem_cons.mp hh' with rfl | hh'
          · exact hhead
          · exact hno h' hh'

theorem DefaultAlt.mono {m : Int} {mDef : Option Alt} (hnm : n ≤ m)
    (h : DefaultAlt prims globals serial oracle m i scruts rows mDef) :
    DefaultAlt prims globals serial oracle n i scruts rows mDef where
  enter sc k vpre v vpost hvpre hv hres hfits hnone := by
    rcases h.enter sc k vpre v vpost hvpre hv hres hfits hnone with ⟨e, hsel, hleads⟩
    exact ⟨e, hsel, hleads.mono hnm⟩

theorem switchOn_spec (hcompile : Compiles prims globals serial oracle compile
    (matrixSize rows)) (hsw : Switch oracle n i scruts rows) :
    ∃ e n', switchOn oracle compile i scruts rows n = .ok (e, n') ∧ n ≤ n' ∧
      Decides prims globals serial oracle n scruts rows e := by
  rcases buildHeadAlts hcompile hsw (nubHeads (rows.map (·.pat i))) with
    ⟨alts, n1, halts, hn1, hheads⟩
  rcases buildDefault_spec hcompile (hsw.mono hn1) with ⟨mDef, n2, hdef, hn2, hdefault⟩
  refine ⟨.case_ (scrutAt scruts i) (alts ++ mDef.toList), n2, ?_, hn1.trans hn2, ?_⟩
  · simp only [switchOn]
    rw [Fresh.bind_eq halts, Fresh.bind_eq hdef]
    rfl
  · intro sc k vs hres hfits
    rcases resolves_column hres hsw.column with ⟨vpre, v, vpost, rfl, hvpre, hv, hrest⟩
    have harity : ∀ h ∈ nubHeads (rows.map (·.pat i)), headOf v = some h →
        ∀ c ws, v = .con c ws → ws.length = oracle.coArity c := by
      rintro h hh hhead c ws rfl
      cases hhead
      rcases mem_columnHeads.mp hh with ⟨r, hr, hpat⟩
      rcases (hfits r hr).con (hsw.ok r hr) hsw.column hvpre hpat with ⟨_, _, heq, hlen, _⟩
      cases heq
      exact hlen
    rcases matchAlts_heads k mDef.toList hvpre hheads hv hrest hfits harity with
      ⟨e, sc', hsel, hleads⟩ | ⟨hnone, hsel⟩
    · exact hleads.of_step (transition_case hv hsel)
    · rcases hdefault.enter sc k vpre v vpost hvpre hv hrest hfits hnone with
        ⟨e, hdef, hleads⟩
      exact (hleads.mono hn1).of_step (transition_case hv (hsel.trans hdef))

end Switch

/-! ### The compiler -/

theorem failLeaf_decides (n : Int) (scruts : List Atom) :
    Decides prims globals serial oracle n scruts [] failLeaf := by
  intro sc k vs _ _
  exact ⟨sc, TreeSteps.refl _⟩

/-- A row of variables matches all values. -/
theorem matchesAll_of_wild {ps : List MPat} {vs : List Value} (hlen : ps.length = vs.length)
    (h : ps.all isWildP = true) : MPat.matchesAll ps vs = true := by
  induction ps generalizing vs with
  | nil => rw [List.length_eq_zero_iff.mp hlen.symm]; rfl
  | cons p ps ih =>
      rcases vs with _ | ⟨v, vs⟩
      · cases hlen
      · rw [List.all_cons, Bool.and_eq_true] at h
        rw [MPat.matchesAll, ih (Nat.succ.inj hlen) h.2, Bool.and_true]
        cases p with
        | var ty mv => exact MPat.matches.eq_1 ..
        | _ => cases h.1

/-- Every variable of a row of variables is bound to its scrutinee. -/
theorem wildBindings_vars {ps : List MPat} {as : List Atom} (hlen : ps.length = as.length)
    (h : ps.all isWildP = true) {x : String} (hx : x ∈ MPat.varsAll ps) :
    x ∈ (wildBindings ps as).map (·.1) := by
  induction ps generalizing as with
  | nil => cases hx
  | cons p ps ih =>
      rcases as with _ | ⟨a, as⟩
      · cases hlen
      · rw [List.all_cons, Bool.and_eq_true] at h
        rw [MPat.varsAll, List.mem_append] at hx
        have htail := ih (Nat.succ.inj hlen) h.2
        cases p with
        | var ty mv =>
            cases mv with
            | none =>
                rcases hx with hx | hx
                · simp [MPat.vars] at hx
                · exact htail hx
            | some y =>
                rcases hx with hx | hx
                · simp only [MPat.vars, Option.toList, List.mem_singleton] at hx
                  exact List.mem_cons.mpr (.inl hx)
                · exact List.mem_cons_of_mem _ (htail hx)
        | _ => cases h.1

theorem wildBindings_parts {ps : List MPat} {as : List Atom} {vs : List Value} {sc : Scope}
    (hres : Resolves prims globals sc as vs) {x : String} {a : Atom}
    (h : (x, a) ∈ wildBindings ps as) :
    ∃ w, resolveAtom prims globals sc a = .ok w ∧ (x, w) ∈ MPat.partsAll ps vs := by
  induction hres generalizing ps with
  | nil => rcases ps with _ | ⟨_ | _ | _ | _, ps⟩ <;> simp [wildBindings] at h
  | @cons b v as vs hbv _ ih =>
      have htail : ∀ p ps', ps = p :: ps' → (x, a) ∈ wildBindings ps' as →
          ∃ w, resolveAtom prims globals sc a = .ok w ∧ (x, w) ∈ MPat.partsAll ps (v :: vs) := by
        rintro p ps' rfl h'
        rcases ih h' with ⟨w, hw, hpart⟩
        exact ⟨w, hw, List.mem_append_right _ hpart⟩
      rcases ps with _ | ⟨p, ps⟩
      · simp [wildBindings] at h
      · cases p with
        | var ty mv =>
            cases mv with
            | none => exact htail _ ps rfl h
            | some y =>
                rcases List.mem_cons.mp h with heq | h
                · cases heq
                  refine ⟨v, hbv, ?_⟩
                  rw [MPat.partsAll, MPat.parts]
                  exact List.mem_append_left _ List.mem_cons_self
                · exact htail _ ps rfl h
        | _ => exact htail _ ps rfl h

/-- The arguments of the jump of a row all of whose variables are bound. -/
theorem jumpArgs {subst : List (String × Atom)} {order : List String} {n : Int}
    (h : ∀ x ∈ order, x ∈ subst.map (·.1)) :
    ∃ args, order.mapM (atomFor subst) n = .ok (args, n) ∧
      List.Forall₂ (fun x a => (x, a) ∈ subst) order args := by
  induction order with
  | nil => exact ⟨[], rfl, .nil⟩
  | cons x order ih =>
      rcases ih fun y hy => h y (List.mem_cons_of_mem x hy) with ⟨args, hargs, hall⟩
      have hmem := h x List.mem_cons_self
      cases hx : subst.lookup x with
      | none =>
          rw [List.lookup_eq_none_iff] at hx
          rcases List.mem_map.mp hmem with ⟨xa, hxa, heq⟩
          exact absurd (hx xa hxa) (by simp [heq])
      | some a =>
          rcases List.lookup_eq_some_iff.mp hx with ⟨l, r, hsplit, _⟩
          have ha : atomFor subst x n = .ok (a, n) := by
            rw [atomFor, hx]
            rfl
          refine ⟨a :: args, ?_, .cons (hsplit ▸ by simp) hall⟩
          rw [List.mapM_cons, Fresh.bind_eq ha, Fresh.bind_eq hargs]
          rfl

/-- Atoms that resolve one by one resolve together. -/
theorem resolveAtoms_of_forall {sc : Scope} {R : String → Value → Prop} {order : List String}
    {args : List Atom}
    (h : List.Forall₂ (fun x a => ∃ w, resolveAtom prims globals sc a = .ok w ∧ R x w)
      order args) :
    ∃ ws, resolveAtoms prims globals sc args = .ok ws ∧ List.Forall₂ R order ws := by
  induction h with
  | nil => exact ⟨[], rfl, .nil⟩
  | @cons x a order args ha _ ih =>
      rcases ha with ⟨w, hw, hR⟩
      rcases ih with ⟨ws, hws, hRs⟩
      refine ⟨w :: ws, ?_, .cons hR hRs⟩
      rw [resolveAtoms] at hws ⊢
      rw [List.mapM_cons, hw]
      change (args.mapM (resolveAtom prims globals sc) >>= fun ws => pure (w :: ws)) = _
      rw [hws]
      rfl

/-- A first row of variables is selected whatever the values are. -/
theorem jumpLeaf_decides {n : Int} {scruts : List Atom} {r : Row} {rows : List Row}
    (hok : RowOk oracle scruts.length n r) (hwild : r.pats.all isWildP = true) :
    ∃ e, jumpLeaf (bindRow scruts r) n = .ok (e, n) ∧
      Decides prims globals serial oracle n scruts (r :: rows) e := by
  have horder : ∀ x ∈ r.order, x ∈ (r.subst ++ wildBindings r.pats scruts).map (·.1) := by
    intro x hx
    rw [List.map_append, List.mem_append]
    rcases hok.order x hx with hs | hv
    · exact .inl hs
    · exact .inr (wildBindings_vars hok.width hwild hv)
  rcases jumpArgs (n := n) horder with ⟨args, hargs, hall⟩
  refine ⟨.jump r.join args, ?_, ?_⟩
  · rw [jumpLeaf]
    exact Fresh.bind_eq hargs
  · intro sc k vs hres hfits
    have hlen : r.pats.length = vs.length := hok.width.trans (List.Forall₂.length_eq hres)
    have hmatch : rowMatches vs r = true := matchesAll_of_wild hlen hwild
    rw [List.find?_cons, hmatch]
    have hsome : List.Forall₂ (fun x a => ∃ w, resolveAtom prims globals sc a = .ok w ∧
        RowBinds prims globals sc vs r x w) r.order args := by
      refine hall.imp fun x a hxa => ?_
      rcases List.mem_append.mp hxa with hxa | hxa
      · rcases (hfits r List.mem_cons_self).resolved _ hxa with ⟨w, hw⟩
        exact ⟨w, hw, .inl ⟨a, hxa, hw⟩⟩
      · rcases wildBindings_parts hres hxa with ⟨w, hw, hpart⟩
        exact ⟨w, hw, .inr hpart⟩
    rcases resolveAtoms_of_forall hsome with ⟨ws, hws, hbinds⟩
    exact ⟨sc, args, ws, TreeSteps.refl _, hws, hbinds, AgreeBelow.refl _ _⟩

/-- The compiler never runs out of fuel, and its trees run as the matrix says. -/
theorem compileMatchN_compiles (fuel : Nat) :
    Compiles prims globals serial oracle (compileMatchN oracle fuel) fuel := by
  induction fuel with
  | zero => exact fun _ _ _ h => absurd h (Nat.not_lt_zero _)
  | succ fuel ih =>
      intro scruts rows n hsize hscruts hrows
      have hpeel : ∀ r ∈ rows.map (peelAsRow scruts),
          RowOk oracle scruts.length n r ∧ peeled r := by
        intro r' hr'
        rcases List.mem_map.mp hr' with ⟨r, hr, rfl⟩
        exact ⟨peelAsRow_ok (hrows r hr) hscruts, peelAsRow_peeled scruts r⟩
      have hpeelSize : matrixSize (rows.map (peelAsRow scruts)) ≤ fuel :=
        (peelRows_size scruts rows).trans (Nat.le_of_lt_succ hsize)
      -- it is enough to decide the matrix without its outermost as-patterns
      suffices h : ∃ e n', compileMatchN oracle (fuel + 1) scruts rows n = .ok (e, n') ∧
          n ≤ n' ∧ Decides prims globals serial oracle n scruts
            (rows.map (peelAsRow scruts)) e by
        rcases h with ⟨e, n', hrun, hn', hdec⟩
        refine ⟨e, n', hrun, hn', fun sc k vs hres hfits => ?_⟩
        have hfollows : ∀ r ∈ rows, Follows prims globals oracle sc vs sc vs r
            [peelAsRow scruts r] :=
          fun r hr => peelAsRow_follows hres (hrows r hr) (hfits r hr)
        have hmap : rows.map (peelAsRow scruts) = rows.flatMap fun r => [peelAsRow scruts r] :=
          List.map_eq_flatMap ..
        rw [hmap] at hdec
        exact Leads.of_follows hfollows (TreeSteps.refl _) (AgreeBelow.refl _ _) le_rfl
          (hdec sc k vs hres fun r' hr' => RowFits.of_follows hfollows hr')
      rw [compileMatchN]
      cases hrows' : rows.map (peelAsRow scruts) with
      | nil => exact ⟨failLeaf, n, rfl, le_rfl, failLeaf_decides n scruts⟩
      | cons r0 rest =>
          rw [hrows'] at hpeel hpeelSize
          by_cases hwild : r0.pats.all isWildP = true
          · have hleaf : ∃ e, jumpLeaf (bindRow scruts r0) n = .ok (e, n) ∧
                Decides prims globals serial oracle n scruts (r0 :: rest) e :=
              jumpLeaf_decides (hpeel r0 List.mem_cons_self).1 hwild
            rcases hleaf with ⟨e, hrun, hdec⟩
            refine ⟨e, n, ?_, le_rfl, hdec⟩
            simp only [hwild, if_true]
            exact hrun
          · have htest : ∃ c < scruts.length, isWildP (r0.pat c) = false := by
              simp only [List.all_eq_true, not_forall, Bool.not_eq_true] at hwild
              rcases hwild with ⟨p, hp, hpw⟩
              rcases List.getElem_of_mem hp with ⟨c, hc, rfl⟩
              refine ⟨c, (hpeel r0 List.mem_cons_self).1.width ▸ hc, ?_⟩
              rwa [Row.pat, List.getD_eq_getElem?_getD, List.getElem?_eq_getElem hc]
            rcases htest with ⟨c, hc, hpw⟩
            have hcol := chooseColumn_spec (r0 :: rest) hc
              ⟨r0, List.mem_cons_self, hpw⟩
            have hsw : Switch oracle n (chooseColumn scruts (r0 :: rest)) scruts
                (r0 :: rest) :=
              ⟨hcol.1, hscruts, fun r hr => (hpeel r hr).1, fun r hr => (hpeel r hr).2, hcol.2⟩
            have hcompile : Compiles prims globals serial oracle (compileMatchN oracle fuel)
                (matrixSize (r0 :: rest)) :=
              fun scruts rows n hlt => ih scruts rows n (Nat.lt_of_lt_of_le hlt hpeelSize)
            simp only [hwild]
            exact switchOn_spec hcompile hsw

variable (prims globals serial) in
/-- The decision tree of a matrix: it is built, and it runs as the matrix says. -/
theorem compileMatch_decides {scruts : List Atom} {rows : List Row} {n : Int}
    (hscruts : ∀ a ∈ scruts, AtomBelow n a)
    (hrows : ∀ r ∈ rows, RowOk oracle scruts.length n r) :
    ∃ e n', compileMatch oracle scruts rows n = .ok (e, n') ∧ n ≤ n' ∧
      Decides prims globals serial oracle n scruts rows e :=
  compileMatchN_compiles _ scruts rows n (Nat.lt_succ_self _) hscruts hrows

/-! ### Matrices of clauses -/

theorem clause_ok {width : Nat} {n : Int} {r : Row} (h : Clause oracle width r) :
    RowOk oracle width n r where
  width := h.width
  wellFormed := h.wellFormed
  atoms := by
    rw [h.subst]
    exact nofun
  order x hx := .inr (h.order x hx)

theorem clause_fits {width : Nat} {r : Row} {sc : Scope} {vs : List Value}
    (h : Clause oracle width r) (hfits : MPat.fitsAll oracle r.pats vs = true) :
    RowFits prims globals oracle sc vs r where
  fits := hfits
  resolved := by
    rw [h.subst]
    exact nofun

theorem clause_jumpsTo {width : Nat} {n : Int} {r : Row} {sc : Scope} {k : Kont}
    {vs : List Value} {c : Config} (h : Clause oracle width r)
    (hleads : Leads prims globals serial n sc k vs c (some r)) :
    JumpsTo prims globals serial r vs k c := by
  rcases hleads with ⟨sc', args, ws, hs, hargs, hws, _⟩
  refine ⟨sc', args, ws, hs, hargs, hws.imp fun x w hxw => ?_⟩
  rcases hxw with ⟨a, ha, _⟩ | hpart
  · rw [h.subst] at ha
    cases ha
  · exact hpart

/-- The jump of a clause is no failure leaf. -/
theorem jumpsTo_not_failLeaf {r : Row} {vs : List Value} {k : Kont} {c : Config}
    (h : JumpsTo prims globals serial r vs k c) : ¬ ReachesFailLeaf prims globals serial k c := by
  rintro ⟨sc1, hs1⟩
  rcases h with ⟨sc2, args, ws, hs2, _, _⟩
  have hfail : ∀ d, transition prims globals serial (.eval failLeaf sc1 k) ≠ .ok (.config d) :=
    nofun
  cases TreeSteps.unique hs1 hs2 (fun _ _ _ _ d _ => hfail d) nofun

theorem find_none {rows : List Row} {vs : List Value} :
    rows.find? (rowMatches vs) = none ↔ ∀ r ∈ rows, rowMatches vs r = false := by
  simp

/-- What a tree does with the clauses of its matrix. -/
theorem clauses_run {scruts : List Atom} {rows : List Row} {n : Int} {e : Expr} {sc : Scope}
    {vs : List Value} (hrows : ∀ r ∈ rows, Clause oracle scruts.length r)
    (hdec : Decides prims globals serial oracle n scruts rows e) (k : Kont)
    (hres : Resolves prims globals sc scruts vs)
    (hfits : ∀ r ∈ rows, MPat.fitsAll oracle r.pats vs = true) :
    (∀ r, rows.find? (rowMatches vs) = some r →
      JumpsTo prims globals serial r vs k (.eval e sc k)) ∧
    (rows.find? (rowMatches vs) = none →
      ReachesFailLeaf prims globals serial k (.eval e sc k)) := by
  have hleads := hdec sc k vs hres fun r hr => clause_fits (hrows r hr) (hfits r hr)
  refine ⟨fun r hfind => ?_, fun hfind => ?_⟩
  · rw [hfind] at hleads
    exact clause_jumpsTo (hrows r (List.mem_of_find?_eq_some hfind)) hleads
  · rw [hfind] at hleads
    exact hleads

/-- A tree jumps to one join at most. -/
theorem jumpsTo_join {r r' : Row} {vs vs' : List Value} {k : Kont} {c : Config}
    (h : JumpsTo prims globals serial r vs k c) (h' : JumpsTo prims globals serial r' vs' k c) :
    r.join = r'.join := by
  rcases h with ⟨sc1, args1, _, hs1, _, _⟩
  rcases h' with ⟨sc2, args2, _, hs2, _, _⟩
  have heq := TreeSteps.unique hs1 hs2 nofun nofun
  rw [Config.eval.injEq, Expr.jump.injEq] at heq
  exact heq.1.1

end

/-- The decision tree of a matrix is built, and on every vector of values it jumps
to the first clause that matches, and to the failure leaf if there is none. -/
theorem compileMatch_selects (oracle : ConOracle) (scruts : List Atom) (rows : List Row) (n : Int)
    (hscruts : ∀ a ∈ scruts, AtomBelow n a)
    (hrows : ∀ r ∈ rows, Clause oracle scruts.length r) :
    ∃ e n', compileMatch oracle scruts rows n = .ok (e, n') ∧
      ∀ prims globals serial sc k vs, Resolves prims globals sc scruts vs →
        (∀ r ∈ rows, MPat.fitsAll oracle r.pats vs = true) →
        (∀ r, rows.find? (rowMatches vs) = some r →
          JumpsTo prims globals serial r vs k (.eval e sc k)) ∧
        (ReachesFailLeaf prims globals serial k (.eval e sc k) ↔
          ∀ r ∈ rows, rowMatches vs r = false) := by
  have hok : ∀ r ∈ rows, RowOk oracle scruts.length n r := fun r hr => clause_ok (hrows r hr)
  rcases compileMatch_decides (fun _ => none) (fun _ => none) 0 hscruts hok with
    ⟨e, n', hrun, _, _⟩
  refine ⟨e, n', hrun, fun prims globals serial sc k vs hres hfits => ?_⟩
  rcases compileMatch_decides prims globals serial hscruts hok with ⟨e', m, hrun', _, hdec⟩
  rw [hrun] at hrun'
  cases hrun'
  rcases clauses_run hrows hdec k hres hfits with ⟨hjumps, hleaf⟩
  refine ⟨hjumps, fun hreach => ?_, fun hnone => hleaf (find_none.mpr hnone)⟩
  cases hfind : rows.find? (rowMatches vs) with
  | some r => exact absurd hreach (jumpsTo_not_failLeaf (hjumps r hfind))
  | none => exact find_none.mp hfind

/-! ### A matrix with an as-pattern -/

section Maybe

/-- `data Maybe a = Nothing | Just a`. -/
def maybeOracle : ConOracle where
  coArity c := if c = "Just" then 1 else 0
  coSiblings c := if c ∈ ["Nothing", "Just"] then some ["Nothing", "Just"] else none

def justOneRow : Row :=
  { pats := [.con unitType "Just" [.lit unitType (.int 1)]], subst := [], join := ⟨⟨10⟩⟩,
    order := [], index := 0 }

def asJustRow : Row :=
  { pats := [.as unitType "w" (.con unitType "Just" [.var unitType (some "y")])], subst := [],
    join := ⟨⟨11⟩⟩, order := ["y", "w"], index := 1 }

def maybeScope : Scope := ⟨[(⟨0⟩, .con "Just" [.lit (.int 2)])], []⟩

/-- `Just 1 -> …; w as (Just y) -> … y w …` on `Just 2`. -/
theorem asJustRow_selected : ∃ e n',
    compileMatch maybeOracle [.var ⟨"m", ⟨0⟩⟩] [justOneRow, asJustRow] 1 = .ok (e, n') ∧
      JumpsTo (fun _ => none) (fun _ => none) 0 asJustRow [.con "Just" [.lit (.int 2)]] []
        (.eval e maybeScope []) := by
  have hscruts : ∀ a ∈ [Atom.var ⟨"m", ⟨0⟩⟩], AtomBelow 1 a := by
    simp [AtomBelow, atomVars]
  have hrows : ∀ r ∈ [justOneRow, asJustRow], Clause maybeOracle 1 r := by
    intro r hr
    simp only [List.mem_cons, List.not_mem_nil, or_false] at hr
    rcases hr with rfl | rfl
    · exact ⟨rfl, rfl, rfl, by decide⟩
    · exact ⟨rfl, rfl, rfl, by decide⟩
  rcases compileMatch_selects maybeOracle [.var ⟨"m", ⟨0⟩⟩] [justOneRow, asJustRow] 1 hscruts hrows
    with ⟨e, n', hrun, hdec⟩
  have hfits : ∀ r ∈ [justOneRow, asJustRow],
      MPat.fitsAll maybeOracle r.pats [.con "Just" [.lit (.int 2)]] = true := by decide
  exact ⟨e, n', hrun, (hdec (fun _ => none) (fun _ => none) 0 maybeScope []
    [.con "Just" [.lit (.int 2)]] (.cons rfl .nil) hfits).1 asJustRow rfl⟩

end Maybe

end Wok.Proofs.Match
