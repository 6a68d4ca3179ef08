/-
Module: Wok.Proofs.CaseRuns
Layer: Proofs
Purpose: Which body a lowered `case` runs: on the decision-tree route that of the
  first alternative that matches, on the flat route that of the first alternative
  whose head accepts the value.
Imports: Wok.Proofs.Case
Trusted boundary: none
Main exports: flat_runs, match_runs, caseRuns_when
-/
import Wok.Proofs.Case

namespace Wok.Proofs.Case

open Wok.IR Wok.Interp Wok.Spec.Match Wok.Proofs.Match
open Wok.TypeChecking

/-! ### The flat route -/

section FlatRoute

variable {prims : PrimTable} {globals : Globals} {serial : Nat} {env : TypeEnv}

/-- The alternative is selected: its body is elaborated where its variables are in
scope, and the run comes to what the pattern says. -/
def Selects (prims : PrimTable) (globals : Globals) (serial : Nat) (env : TypeEnv)
    (alt : Alternative) (tk : TailK) (v : Value) (ctx : ElabCtx) (n : Int) (sc : Scope) (k : Kont)
    (c : Config) : Prop :=
  ∃ ctx' m eb m', alt.body tk ctx' m = .ok (eb, m') ∧ Extends (patNames alt.pat) ctx ctx' n m ∧
    Outcome prims globals serial ctx' n (patNames alt.pat) sc k eb c (selected env alt.pat v)

theorem Selects.mono {alt : Alternative} {tk : TailK} {v : Value} {ctx : ElabCtx} {n n' : Int}
    {sc : Scope} {k : Kont} {c : Config} (hn : n ≤ n')
    (h : Selects prims globals serial env alt tk v ctx n' sc k c) :
    Selects prims globals serial env alt tk v ctx n sc k c := by
  rcases h with ⟨ctx', m, eb, m', hbody, hext, hout⟩
  exact ⟨ctx', m, eb, m', hbody, hext.mono hn (List.Subset.refl _),
    hout.rebase hn (AgreeBelow.refl _ _)⟩

variable (prims globals serial) in
/-- The alternatives of the flat route: the first whose head accepts the value is
selected, whatever its sub-patterns say. -/
theorem elabCaseAlts_spec {tk : TailK} {sa : Atom} {alts : List Alternative} {ctx : ElabCtx}
    {n n' : Int} {as : List Alt} (hsa : AtomBelow n sa) (henv : ctx.env = env)
    (hctx : ScopeBelow n ctx) (hrun : alts.mapM (elabCaseAlt tk sa) ctx n = .ok (as, n'))
    {sc : Scope} {v : Value} (k : Kont) (hv : resolveAtom prims globals sc sa = .ok v)
    (hfits : ∀ alt ∈ alts, alt.pat.fits env v = true) :
    match alts.find? fun alt => headAccepts env alt.pat v with
    | some alt => ∃ c, matchAlts v sc k as = .ok c ∧
        Selects prims globals serial env alt tk v ctx n sc k c
    | none => ∃ msg, matchAlts v sc k as = fail (.nonExhaustiveCase msg) := by
  induction alts generalizing n as with
  | nil =>
      cases hrun
      exact ⟨_, rfl⟩
  | cons alt alts ih =>
      rw [List.mapM_cons] at hrun
      rcases elab_bind_ok hrun with ⟨a, n1, ha, hrun⟩
      rcases elab_bind_ok hrun with ⟨rest, n2, hrest, hret⟩
      cases hret
      have hspec : PatSpec prims globals serial env alt.pat fun a => elabPat a alt.pat :=
        elabPat_spec alt.pat
      rcases hspec sa (alt.body tk) ctx n a n1 hsa henv hctx ha with
        ⟨ctx', m, eb, hbody, hext, hdyn⟩
      have hn1 : n ≤ n1 := hext.supply.trans (alt.supply tk ctx' m eb n1 hbody)
      have hsel := hdyn sc k v hv (hfits alt List.mem_cons_self)
      rw [List.find?_cons, matchAlts_cons]
      cases halt : altSelect v sc a with
      | some es =>
          rw [halt] at hsel
          rw [hsel.1]
          exact ⟨_, rfl, ctx', m, eb, n1, hbody, hext, hsel.2⟩
      | none =>
          rw [halt] at hsel
          rw [hsel.1]
          have htail := ih (hsa.mono hn1) (hctx.mono hn1) hrest fun alt' halt' =>
            hfits alt' (List.mem_cons_of_mem alt halt')
          cases hfind : alts.find? fun alt => headAccepts env alt.pat v with
          | none =>
              rw [hfind] at htail
              exact htail
          | some alt' =>
              rw [hfind] at htail
              rcases htail with ⟨c, hc, hsel'⟩
              exact ⟨c, hc, hsel'.mono hn1⟩

variable (prims globals serial) in
/-- The flat route on a value. -/
theorem flat_runs {tk : TailK} {sa : Atom} {alts : List Alternative} {ctx : ElabCtx}
    {n n' : Int} {e : Expr} (hneeds : caseNeedsMatch env (alts.map (·.pat)) = false)
    (hsa : AtomBelow n sa) (henv : ctx.env = env) (hctx : ScopeBelow n ctx)
    (hrun : elabCase tk alts sa ctx n = .ok (e, n')) {sc : Scope} {v : Value} (k : Kont)
    (hv : resolveAtom prims globals sc sa = .ok v)
    (hfits : ∀ alt ∈ alts, alt.pat.fits env v = true) :
    match alts.find? fun alt => headAccepts env alt.pat v with
    | some alt => ∃ c, transition prims globals serial (.eval e sc k) = .ok (.config c) ∧
        Selects prims globals serial env alt tk v ctx n sc k c
    | none => ∃ msg, transition prims globals serial (.eval e sc k) =
        fail (.nonExhaustiveCase msg) := by
  rcases elab_bind_ok hrun with ⟨ctx0, n0, hread, hrun⟩
  cases hread
  rw [henv, if_neg (by rw [hneeds]; exact Bool.false_ne_true)] at hrun
  rcases elab_bind_ok hrun with ⟨as, n1, has, hret⟩
  cases hret
  have halts := elabCaseAlts_spec prims globals serial hsa henv hctx has k hv hfits
  cases hfind : alts.find? fun alt => headAccepts env alt.pat v with
  | none =>
      rw [hfind] at halts
      rcases halts with ⟨msg, hmsg⟩
      exact ⟨msg, transition_case_fail hv hmsg⟩
  | some alt =>
      rw [hfind] at halts
      rcases halts with ⟨c, hc, hsel⟩
      exact ⟨c, transition_case hv hc, hsel⟩

end FlatRoute

/-! ### Joins -/

section Joins

/-- The context with several bindings, the last of two equal names in front. -/
def insertLocals (bindings : List (String × Name)) (ctx : ElabCtx) : ElabCtx :=
  bindings.foldl (fun ctx tn => ctx.insertLocal tn.1 tn.2) ctx

theorem withLocals_run {α : Type} (bindings : List (String × Name)) (action : Elab α)
    (ctx : ElabCtx) : withLocals bindings action ctx = action (insertLocals bindings ctx) := by
  induction bindings generalizing ctx with
  | nil => rfl
  | cons tn bindings ih => exact ih (ctx.insertLocal tn.1 tn.2)

theorem insertLocals_extends {bindings : List (String × Name)} {ctx : ElabCtx} {n m : Int}
    (hnm : n ≤ m) (hctx : ScopeBelow m ctx)
    (hnew : ∀ tn ∈ bindings, n ≤ tn.2.uniq.id ∧ tn.2.uniq.id < m) :
    Extends (bindings.map (·.1)) ctx (insertLocals bindings ctx) n m := by
  induction bindings generalizing ctx with
  | nil => exact ⟨hnm, hctx, fun _ _ hx => .inl hx, fun _ _ => rfl, rfl, rfl, rfl⟩
  | cons tn bindings ih =>
      have htn := hnew tn List.mem_cons_self
      have hone : Extends [tn.1] ctx (ctx.insertLocal tn.1 tn.2) n m :=
        .insertLocal tn.1 hctx htn.1 htn.2
      exact hone.trans le_rfl (ih hone.below fun tn' h => hnew tn' (List.mem_cons_of_mem tn h))

/-- A bound variable has one of the names it is bound to. -/
theorem insertLocals_lookup (ctx : ElabCtx) {bindings : List (String × Name)} {x : String}
    (hx : x ∈ bindings.map (·.1)) :
    ∃ nm, (x, nm) ∈ bindings ∧ (insertLocals bindings ctx).scope.lookup x = some nm := by
  have hrest : ∀ (bs : List (String × Name)) (ctx : ElabCtx), x ∉ bs.map (·.1) →
      (insertLocals bs ctx).scope.lookup x = ctx.scope.lookup x := by
    intro bs
    induction bs with
    | nil => exact fun _ _ => rfl
    | cons tn bs ih =>
        intro ctx hnot
        rw [List.map_cons, List.mem_cons, not_or] at hnot
        have hne : (x == tn.1) = false := by simpa using hnot.1
        refine (ih (ctx.insertLocal tn.1 tn.2) hnot.2).trans ?_
        rw [ElabCtx.insertLocal, List.lookup_cons, hne]
  induction bindings generalizing ctx with
  | nil => cases hx
  | cons tn bindings ih =>
      by_cases hlater : x ∈ bindings.map (·.1)
      · rcases ih (ctx.insertLocal tn.1 tn.2) hlater with ⟨nm, hmem, hnm⟩
        exact ⟨nm, List.mem_cons_of_mem tn hmem, hnm⟩
      · rcases List.mem_cons.mp hx with rfl | hx
        · have hlookup := hrest bindings (ctx.insertLocal tn.1 tn.2) hlater
          refine ⟨tn.2, List.mem_cons_self, hlookup.trans ?_⟩
          rw [ElabCtx.insertLocal, List.lookup_cons, beq_self_eq_true]
        · exact absurd hx hlater

/-- The join of an alternative, made when the supply stood at `n`. -/
structure JoinOk (tk : TailK) (ctx : ElabCtx) (n n' : Int) (alt : Alternative) (b : AltJoin) :
    Prop where
  new : n ≤ b.join.uniq.id ∧ b.join.uniq.id < n'
  names : b.vars.map (·.1) = patNames alt.pat
  nodup : (b.params.map binderUnique).Nodup
  params : ∀ v ∈ b.vars, n ≤ v.2.2.uniq.id
  body : ∃ m m', alt.body tk (insertLocals (b.vars.map fun v => (v.1, v.2.2)) ctx) m =
    .ok (b.body, m') ∧
      Extends (patNames alt.pat) ctx (insertLocals (b.vars.map fun v => (v.1, v.2.2)) ctx) n m

/-- The parameters of a join, minted in a row. -/
theorem freshParams (xs : List (String × CType)) (ctx : ElabCtx) (n : Int) :
    ∃ triples, (xs.mapM fun v => do
        let nm ← bindFresh v.1
        return (v.1, v.2, nm) : Elab (List (String × CType × Name))) ctx n =
        .ok (triples, n + xs.length) ∧
      triples.map (·.1) = xs.map (·.1) ∧ (triples.map (·.2.2.uniq)).Nodup ∧
      ∀ v ∈ triples, n ≤ v.2.2.uniq.id ∧ v.2.2.uniq.id < n + xs.length := by
  induction xs generalizing n with
  | nil => exact ⟨[], by simp; rfl, rfl, List.nodup_nil, nofun⟩
  | cons x xs ih =>
      rcases ih (n + 1) with ⟨triples, hrun, hnames, hnodup, hnew⟩
      have hlen : ((x :: xs).length : Int) = xs.length + 1 := by simp
      refine ⟨(x.1, x.2, ⟨x.1, ⟨n⟩⟩) :: triples, ?_, ?_, ?_, ?_⟩
      · rw [List.mapM_cons]
        change ((xs.mapM fun v => do
          let nm ← bindFresh v.1
          return (v.1, v.2, nm) : Elab (List (String × CType × Name))) ctx (n + 1) >>= _) = _
        rw [hrun, hlen, Int.add_comm (xs.length : Int), ← Int.add_assoc]
        rfl
      · rw [List.map_cons, List.map_cons, hnames]
      · rw [List.map_cons, List.nodup_cons]
        refine ⟨?_, hnodup⟩
        intro hmem
        rcases List.mem_map.mp hmem with ⟨v, hv, heq⟩
        have hid := (hnew v hv).1
        rw [heq] at hid
        simp only at hid
        omega
      · intro v hv
        rcases List.mem_cons.mp hv with rfl | hv
        · simp only
          omega
        · have := hnew v hv
          omega

theorem buildAltJoin_spec {tk : TailK} {alt : Alternative} {ctx : ElabCtx} {n n' : Int}
    {b : AltJoin} (hctx : ScopeBelow n ctx) (hrun : buildAltJoin tk alt ctx n = .ok (b, n')) :
    n ≤ n' ∧ JoinOk tk ctx n n' alt b := by
  rcases elab_bind_ok hrun with ⟨jid, n1, hjid, hrun⟩
  cases hjid
  rcases freshParams (patVars alt.pat) ctx (n + 1) with ⟨triples, htriples, hnames, hnodup, hnew⟩
  rcases elab_bind_ok hrun with ⟨triples', n2, htriples', hrun⟩
  rw [htriples] at htriples'
  cases htriples'
  rcases elab_bind_ok hrun with ⟨jbody, n3, hbody, hret⟩
  cases hret
  rw [withLocals_run] at hbody
  have hext : Extends (patNames alt.pat) ctx
      (insertLocals (triples.map fun v => (v.1, v.2.2)) ctx) n
      (n + 1 + (patVars alt.pat).length) := by
    rw [patNames, ← hnames]
    have hnew' : ∀ tn ∈ triples.map fun v => (v.1, v.2.2),
        n ≤ tn.2.uniq.id ∧ tn.2.uniq.id < n + 1 + (patVars alt.pat).length := by
      intro tn htn
      rcases List.mem_map.mp htn with ⟨v, hv, rfl⟩
      have := hnew v hv
      simp only
      omega
    have hins := insertLocals_extends (by omega) (hctx.mono (by omega)) hnew'
    rw [List.map_map] at hins
    exact hins
  have hn3 := alt.supply tk _ _ _ _ hbody
  refine ⟨by omega, ?_, hnames, ?_, ?_, _, _, hbody, hext⟩
  · simp only
    omega
  · rw [AltJoin.params, List.map_map]
    exact hnodup
  · intro v hv
    have := hnew v hv
    omega

theorem JoinOk.widen {tk : TailK} {ctx : ElabCtx} {n n' m m' : Int} {alt : Alternative}
    {b : AltJoin} (hn : m ≤ n) (hn' : n' ≤ m') (h : JoinOk tk ctx n n' alt b) :
    JoinOk tk ctx m m' alt b where
  new := ⟨hn.trans h.new.1, Int.lt_of_lt_of_le h.new.2 hn'⟩
  names := h.names
  nodup := h.nodup
  params v hv := hn.trans (h.params v hv)
  body := by
    rcases h.body with ⟨l, l', hbody, hext⟩
    exact ⟨l, l', hbody, hext.mono hn (List.Subset.refl _)⟩

/-- The joins of the alternatives are distinct and new. -/
theorem buildAltJoins_spec {tk : TailK} {alts : List Alternative} {ctx : ElabCtx} {n n' : Int}
    {built : List AltJoin} (hctx : ScopeBelow n ctx)
    (hrun : alts.mapM (buildAltJoin tk) ctx n = .ok (built, n')) :
    n ≤ n' ∧ List.Forall₂ (JoinOk tk ctx n n') alts built ∧ (built.map (·.join)).Nodup := by
  induction alts generalizing n built with
  | nil =>
      cases hrun
      exact ⟨le_rfl, .nil, List.nodup_nil⟩
  | cons alt alts ih =>
      rw [List.mapM_cons] at hrun
      rcases elab_bind_ok hrun with ⟨b, n1, hb, hrun⟩
      rcases elab_bind_ok hrun with ⟨rest, n2, hrest, hret⟩
      cases hret
      rcases buildAltJoin_spec hctx hb with ⟨hn1, hok⟩
      rcases ih (hctx.mono hn1) hrest with ⟨hn2, hall, hnodup⟩
      refine ⟨hn1.trans hn2, .cons (hok.widen le_rfl hn2) ?_, ?_⟩
      · exact hall.imp fun _ _ h => h.widen hn1 le_rfl
      · rw [List.map_cons, List.nodup_cons]
        refine ⟨fun hmem => ?_, hnodup⟩
        rcases List.mem_map.mp hmem with ⟨b', hb', heq⟩
        rcases List.mem_iff_getElem.mp hb' with ⟨i, hi, rfl⟩
        have hi' : i < alts.length := hall.length_eq ▸ hi
        have hnew := (List.Forall₂.get hall hi' hi).new.1
        have hold := hok.new.2
        rw [List.get_eq_getElem, heq] at hnew
        omega

/-- The scope inside a join. -/
def bindJoin (k : Kont) (sc : Scope) (b : AltJoin) : Scope :=
  { sc with joins := (b.join, ⟨sc, b.params, b.body, k⟩) :: sc.joins }

/-- The scope inside the joins of the alternatives. -/
def bindJoins (built : List AltJoin) (k : Kont) (sc : Scope) : Scope :=
  built.foldl (bindJoin k) sc

theorem letJoins_steps (prims : PrimTable) (globals : Globals) (serial : Nat)
    (built : List AltJoin) (tree : Expr) (k : Kont) (sc : Scope) :
    Steps prims globals serial
      (.eval (built.foldr (fun b acc => .letJoin b.join b.params b.body acc) tree) sc k)
      (.eval tree (bindJoins built k sc) k) := by
  induction built generalizing sc with
  | nil => exact Steps.refl _
  | cons b built ih => exact Steps.head rfl (ih _)

theorem bindJoins_agree {built : List AltJoin} {k : Kont} {sc : Scope} {n : Int}
    (hnew : ∀ b ∈ built, n ≤ b.join.uniq.id) : AgreeBelow n sc (bindJoins built k sc) := by
  induction built generalizing sc with
  | nil => exact AgreeBelow.refl n sc
  | cons b built ih =>
      have hone : AgreeBelow n sc (bindJoin k sc b) := by
        refine ⟨fun _ _ => rfl, fun j hj => ?_⟩
        have hne : j ≠ b.join := by
          rintro rfl
          exact Int.not_le.mpr hj (hnew b List.mem_cons_self)
        rw [bindJoin, List.lookup_cons, beq_false_of_ne hne]
      exact hone.trans (ih fun b' hb' => hnew b' (List.mem_cons_of_mem b hb'))

theorem bindJoins_lookup_of_notMem {built : List AltJoin} {k : Kont} {sc : Scope} {j : JoinId}
    (hj : j ∉ built.map (·.join)) :
    (bindJoins built k sc).joins.lookup j = sc.joins.lookup j := by
  induction built generalizing sc with
  | nil => rfl
  | cons b built ih =>
      rw [List.map_cons, List.mem_cons, not_or] at hj
      have hrest : (bindJoins built k (bindJoin k sc b)).joins.lookup j =
          (bindJoin k sc b).joins.lookup j := ih hj.2
      refine hrest.trans ?_
      rw [bindJoin, List.lookup_cons, beq_false_of_ne hj.1]

/-- Each join is bound to its alternative, in a scope that differs from the outer
one in other joins only. -/
theorem bindJoins_lookup (k : Kont) (sc : Scope) {built : List AltJoin} {n : Int} {b : AltJoin}
    (hnodup : (built.map (·.join)).Nodup) (hnew : ∀ b ∈ built, n ≤ b.join.uniq.id)
    (hb : b ∈ built) : ∃ sc0, (bindJoins built k sc).joins.lookup b.join =
      some ⟨sc0, b.params, b.body, k⟩ ∧ AgreeBelow n sc sc0 := by
  induction built generalizing sc with
  | nil => cases hb
  | cons b0 built ih =>
      rw [List.map_cons, List.nodup_cons] at hnodup
      have hone : AgreeBelow n sc (bindJoins [b0] k sc) :=
        bindJoins_agree fun b' hb' => hnew b' (List.mem_singleton.mp hb' ▸ List.mem_cons_self)
      rcases List.mem_cons.mp hb with rfl | hb
      · have hrest : (bindJoins built k (bindJoin k sc b)).joins.lookup b.join =
            (bindJoin k sc b).joins.lookup b.join := bindJoins_lookup_of_notMem hnodup.1
        refine ⟨sc, hrest.trans ?_, AgreeBelow.refl n sc⟩
        rw [bindJoin, List.lookup_cons, beq_self_eq_true]
      · have hlater : ∃ sc0, (bindJoins built k (bindJoin k sc b0)).joins.lookup b.join =
            some ⟨sc0, b.params, b.body, k⟩ ∧ AgreeBelow n (bindJoin k sc b0) sc0 :=
          ih (bindJoin k sc b0) hnodup.2 (fun b' hb' => hnew b' (List.mem_cons_of_mem b0 hb')) hb
        rcases hlater with ⟨sc0, hlook, hag⟩
        exact ⟨sc0, hlook, hone.trans hag⟩

end Joins

/-! ### The decision-tree route -/

section MatchRoute

variable {prims : PrimTable} {globals : Globals} {serial : Nat} {env : TypeEnv}

/-- The row of an alternative: its pattern is translated, and its arguments are
those of the join. -/
structure RowOf (env : TypeEnv) (ab : Alternative × AltJoin) (r : Row) : Prop where
  pats : ∃ m, r.pats = [m] ∧ Translates env ab.1.pat m
  subst : r.subst = []
  join : r.join = ab.2.join
  order : r.order = ab.2.vars.map (·.1)

theorem altRows_spec {abs : List (Alternative × AltJoin)} {start : Nat} {rows : List Row}
    (hsup : ∀ ab ∈ abs, patUnsupported env ab.1.pat = false)
    (hag : ∀ ab ∈ abs, tagsAgree env ab.1.pat = true)
    (hrun : ((abs.zipIdx start).mapM fun ab => altRow env ab.1.1 ab.1.2 ab.2) = .ok rows) :
    List.Forall₂ (RowOf env) abs rows := by
  induction abs generalizing start rows with
  | nil =>
      cases hrun
      exact .nil
  | cons ab abs ih =>
      rw [List.zipIdx_cons, List.mapM_cons] at hrun
      rcases toMPat_spec env ab.1.pat (hsup ab List.mem_cons_self) (hag ab List.mem_cons_self)
        with ⟨m, hm, htr⟩
      rcases bind_ok hrun with ⟨r, hr, hrun⟩
      rcases bind_ok hrun with ⟨rest, hrest, hret⟩
      rw [altRow, hm] at hr
      cases hr
      cases hret
      exact .cons ⟨⟨m, rfl, htr⟩, rfl, rfl, rfl⟩
        (ih (fun ab' h => hsup ab' (List.mem_cons_of_mem ab h))
          (fun ab' h => hag ab' (List.mem_cons_of_mem ab h)) hrest)

theorem RowOf.matches_eq {ab : Alternative × AltJoin} {r : Row} {v : Value}
    (h : RowOf env ab r) (hfit : ab.1.pat.fits env v = true) :
    rowMatches [v] r = ab.1.pat.matches env v := by
  rcases h.pats with ⟨m, hpats, htr⟩
  rw [rowMatches, hpats, MPat.matchesAll, MPat.matchesAll, Bool.and_true, htr.matches_eq v hfit]

/-- The first row that matches is that of the first alternative that does. -/
theorem find_row {abs : List (Alternative × AltJoin)} {rows : List Row} {v : Value}
    (hrows : List.Forall₂ (RowOf env) abs rows)
    (hfits : ∀ ab ∈ abs, ab.1.pat.fits env v = true) :
    match (abs.map (·.1)).find? fun alt => alt.pat.matches env v with
    | some alt => ∃ b r, (alt, b) ∈ abs ∧ RowOf env (alt, b) r ∧
        rows.find? (rowMatches [v]) = some r
    | none => rows.find? (rowMatches [v]) = none := by
  induction hrows with
  | nil => rfl
  | @cons ab r abs rows hr _ ih =>
      have hmatch := hr.matches_eq (hfits ab List.mem_cons_self)
      have htail := ih fun ab' h => hfits ab' (List.mem_cons_of_mem ab h)
      rw [List.map_cons, List.find?_cons, List.find?_cons, hmatch]
      by_cases hm : ab.1.pat.matches env v = true
      · rw [hm]
        exact ⟨ab.2, r, List.mem_cons_self, hr, rfl⟩
      · rw [Bool.not_eq_true] at hm
        rw [hm]
        cases hfind : (abs.map (·.1)).find? fun alt => alt.pat.matches env v with
        | none =>
            rw [hfind] at htail
            exact htail
        | some alt =>
            rw [hfind] at htail
            rcases htail with ⟨b, r', hmem, hrow, hfound⟩
            exact ⟨b, r', List.mem_cons_of_mem ab hmem, hrow, hfound⟩

theorem RowOf.ok {ab : Alternative × AltJoin} {r : Row} {n : Int}
    (hnames : ab.2.vars.map (·.1) = patNames ab.1.pat) (h : RowOf env ab r) :
    RowOk (buildOracle env) 1 n r := by
  rcases h.pats with ⟨m, hpats, htr⟩
  refine ⟨by rw [hpats, List.length_singleton], ?_, ?_, ?_⟩
  · rw [hpats, MPat.wellFormedAll, MPat.wellFormedAll, htr.wellFormed, Bool.and_true]
  · rw [h.subst]
    exact nofun
  · intro x hx
    rw [h.order, hnames, ← htr.vars] at hx
    rw [hpats, MPat.varsAll, MPat.varsAll, List.append_nil]
    exact .inr hx

theorem RowOf.fits {ab : Alternative × AltJoin} {r : Row} {sc : Scope} {v : Value}
    (hfit : ab.1.pat.fits env v = true) (hr : hitsRecord env ab.1.pat v = false)
    (h : RowOf env ab r) :
    RowFits prims globals (buildOracle env) sc [v] r := by
  rcases h.pats with ⟨m, hpats, htr⟩
  constructor
  · rw [hpats, MPat.fitsAll, MPat.fitsAll, htr.fits v hfit hr, Bool.and_true]
  · rw [h.subst]
    exact nofun

/-- The variables of a row stand for the parts of the value. -/
theorem RowOf.binds {ab : Alternative × AltJoin} {r : Row} {sc : Scope} {v w : Value}
    {x : String} (hfit : ab.1.pat.fits env v = true) (hm : ab.1.pat.matches env v = true)
    (h : RowOf env ab r) (hbind : RowBinds prims globals sc [v] r x w) :
    (x, w) ∈ ab.1.pat.parts env v := by
  rcases h.pats with ⟨m, hpats, htr⟩
  rcases hbind with ⟨a, ha, _⟩ | hpart
  · rw [h.subst] at ha
    cases ha
  · have hnil : MPat.partsAll [] ([] : List Value) = [] := rfl
    rw [hpats, MPat.partsAll, hnil, List.append_nil, htr.parts v hfit hm] at hpart
    exact hpart

variable (serial) in
/-- The jump to the join of an alternative runs its body. -/
theorem jump_runs {tk : TailK} {alt : Alternative} {b : AltJoin} {ctx : ElabCtx} {n n' : Int}
    {sc sc' sc0 : Scope} {k : Kont} {v : Value} {args : List Atom} {ws : List Value}
    (henv : ctx.env = env) (hjoin : JoinOk tk ctx n n' alt b)
    (hargs : resolveAtoms prims globals sc' args = .ok ws)
    (hws : List.Forall₂ (fun x w => (x, w) ∈ alt.pat.parts env v) (b.vars.map (·.1)) ws)
    (hlook : sc'.joins.lookup b.join = some ⟨sc0, b.params, b.body, k⟩)
    (hagree : AgreeBelow n sc sc0) :
    RunsBody prims globals serial alt tk v ctx n sc k (.eval (.jump b.join args) sc' k) := by
  have hlen : b.params.length = ws.length := by
    rw [AltJoin.params, List.length_map, ← hws.length_eq, List.length_map]
  have hstep : transition prims globals serial (.eval (.jump b.join args) sc' k) =
      .ok (.config (.eval b.body ⟨bindBinders b.params ws sc0.env,
        (b.join, ⟨sc0, b.params, b.body, k⟩) :: sc0.joins⟩ k)) := by
    rw [transition, evalExpr, hargs]
    simp only [bind, Except.bind, hlook, hlen.symm, ne_eq, not_true_eq_false, if_false]
    rfl
  rcases hjoin.body with ⟨m, m', hbody, hext⟩
  refine ⟨_, m, b.body, m', _, hbody, hext, ⟨fun x hx => ?_, ?_⟩,
    Steps.head hstep (Steps.refl _)⟩
  · rw [← hjoin.names] at hx
    have hx' : x ∈ (b.vars.map fun v => (v.1, v.2.2)).map (·.1) := by
      rwa [List.map_map]
    rcases insertLocals_lookup ctx hx' with ⟨nm, hmem, hnm⟩
    rcases List.mem_map.mp hmem with ⟨y, hy, heq⟩
    rcases List.mem_iff_getElem.mp hy with ⟨i, hi, rfl⟩
    have hbound := lookup_bindBinders sc0.env hlen hjoin.nodup
    rw [AltJoin.params, List.forall₂_map_left_iff] at hbound
    rw [List.forall₂_map_left_iff] at hws
    have hiw : i < ws.length := hws.length_eq ▸ hi
    have hw := List.Forall₂.get hws hi hiw
    have hl := List.Forall₂.get hbound hi hiw
    rw [Prod.mk.injEq] at heq
    rw [List.get_eq_getElem, List.get_eq_getElem] at hw hl
    rw [heq.1] at hw
    rw [binderUnique, heq.2] at hl
    exact ⟨nm, _, hnm, hl, henv.symm ▸ hw⟩
  · have hparams : ∀ p ∈ b.params, n ≤ (binderUnique p).id := by
      intro p hp
      rcases List.mem_map.mp hp with ⟨y, hy, rfl⟩
      exact hjoin.params y hy
    have hargs' : AgreeBelow n sc0 { sc0 with env := bindBinders b.params ws sc0.env } :=
      agreeBelow_bindBinders ws sc0 hparams
    refine (hagree.trans hargs').trans ⟨fun _ _ => rfl, fun j hj => ?_⟩
    have hne : j ≠ b.join := by
      rintro rfl
      exact Int.not_le.mpr hj hjoin.new.1
    rw [List.lookup_cons, beq_false_of_ne hne]

theorem elab_lift_ok {α : Type} {x : Except String α} {ctx : ElabCtx} {n m : Int} {a : α}
    (h : (liftM x : Elab α) ctx n = .ok (a, m)) : x = .ok a ∧ m = n := by
  cases x with
  | error msg => cases h
  | ok a =>
      cases h
      exact ⟨rfl, rfl⟩

theorem RunsBody.of_steps {alt : Alternative} {tk : TailK} {v : Value} {ctx : ElabCtx} {n : Int}
    {sc : Scope} {k : Kont} {c c' : Config} (hs : Steps prims globals serial c c')
    (h : RunsBody prims globals serial alt tk v ctx n sc k c') :
    RunsBody prims globals serial alt tk v ctx n sc k c := by
  rcases h with ⟨ctx', m, e, m', sc', hbody, hext, hbinds, hs'⟩
  exact ⟨ctx', m, e, m', sc', hbody, hext, hbinds, hs.trans hs'⟩

/-- The joins, the rows and the tree of the decision-tree route. -/
structure Built (env : TypeEnv) (tk : TailK) (sa : Atom) (alts : List Alternative)
    (ctx : ElabCtx) (n n' : Int) (built : List AltJoin) (rows : List Row) (tree : Expr) :
    Prop where
  supply : n ≤ n'
  joins : List.Forall₂ (JoinOk tk ctx n n') alts built
  nodup : (built.map (·.join)).Nodup
  matrix : List.Forall₂ (RowOf env) (alts.zip built) rows
  tree : ∃ m, compileMatch (buildOracle env) [sa] rows n' = .ok (tree, m)

theorem match_built {tk : TailK} {sa : Atom} {alts : List Alternative} {ctx : ElabCtx}
    {n m : Int} {e : Expr} (hneeds : caseNeedsMatch env (alts.map (·.pat)) = true)
    (hag : ∀ alt ∈ alts, tagsAgree env alt.pat = true) (henv : ctx.env = env)
    (hctx : ScopeBelow n ctx) (hrun : elabCase tk alts sa ctx n = .ok (e, m)) :
    ∃ n' built rows tree, Built env tk sa alts ctx n n' built rows tree ∧
      e = built.foldr (fun b acc => .letJoin b.join b.params b.body acc) tree := by
  rcases elab_bind_ok hrun with ⟨ctx0, n0, hread, hrun⟩
  cases hread
  rw [henv, if_pos hneeds] at hrun
  rcases elab_bind_ok hrun with ⟨ctx0, n0, hread, hrun⟩
  cases hread
  rw [henv] at hrun
  rcases elab_bind_ok hrun with ⟨built, n', hbuilt, hrun⟩
  rcases elab_bind_ok hrun with ⟨rows, n2, hrows, hrun⟩
  rcases elab_bind_ok hrun with ⟨tree, n3, htree, hret⟩
  cases hret
  rcases elab_lift_ok hrows with ⟨hmatrix, heq⟩
  subst heq
  rcases buildAltJoins_spec hctx hbuilt with ⟨hn, hjoins, hnodup⟩
  have hsup : ∀ alt ∈ alts, patUnsupported env alt.pat = false := by
    intro alt halt
    rw [caseNeedsMatch, Bool.and_eq_true, Bool.not_eq_true', List.any_eq_false] at hneeds
    simpa using hneeds.1 alt.pat (List.mem_map_of_mem halt)
  have hspec := altRows_spec (fun ab hab => hsup ab.1 (List.of_mem_zip hab).1)
    (fun ab hab => hag ab.1 (List.of_mem_zip hab).1) hmatrix
  exact ⟨_, built, rows, tree, ⟨hn, hjoins, hnodup, hspec, _, htree⟩, rfl⟩

section Built

variable {tk : TailK} {sa : Atom} {alts : List Alternative} {ctx : ElabCtx} {n n' : Int}
  {built : List AltJoin} {rows : List Row} {tree : Expr}

theorem Built.row (h : Built env tk sa alts ctx n n' built rows tree) {r : Row} (hr : r ∈ rows) :
    ∃ alt b, alt ∈ alts ∧ JoinOk tk ctx n n' alt b ∧ RowOf env (alt, b) r := by
  rcases List.mem_iff_getElem.mp hr with ⟨i, hi, rfl⟩
  have hi' : i < (alts.zip built).length := h.matrix.length_eq ▸ hi
  have hmem := List.getElem_mem hi'
  exact ⟨_, _, (List.of_mem_zip hmem).1, (List.forall₂_iff_zip.mp h.joins).2 hmem,
    List.Forall₂.get h.matrix hi' hi⟩

theorem Built.new (h : Built env tk sa alts ctx n n' built rows tree) {b : AltJoin}
    (hb : b ∈ built) : n ≤ b.join.uniq.id := by
  rcases List.mem_iff_getElem.mp hb with ⟨i, hi, rfl⟩
  exact (List.Forall₂.get h.joins (h.joins.length_eq ▸ hi) hi).new.1

variable (serial) in
/-- Inside the joins the tree comes to the jump of the first row that matches. -/
theorem Built.leads (h : Built env tk sa alts ctx n n' built rows tree) (hsa : AtomBelow n sa)
    {sc : Scope} {v : Value} (k : Kont) (hv : resolveAtom prims globals sc sa = .ok v)
    (hfits : ∀ alt ∈ alts, alt.pat.fits env v = true)
    (hrecords : ∀ alt ∈ alts, hitsRecord env alt.pat v = false) :
    Leads prims globals serial n' (bindJoins built k sc) k [v]
      (.eval tree (bindJoins built k sc) k) (rows.find? (rowMatches [v])) := by
  have hok : ∀ r ∈ rows, RowOk (buildOracle env) [sa].length n' r := by
    intro r hr
    rcases h.row hr with ⟨alt, b, _, hjoin, hrow⟩
    exact hrow.ok hjoin.names
  have hrowFits : ∀ r ∈ rows,
      RowFits prims globals (buildOracle env) (bindJoins built k sc) [v] r := by
    intro r hr
    rcases h.row hr with ⟨alt, b, halt, _, hrow⟩
    exact hrow.fits (hfits alt halt) (hrecords alt halt)
  have hscrut : ∀ a ∈ [sa], AtomBelow n' a := by
    intro a ha
    rw [List.mem_singleton.mp ha]
    exact hsa.mono h.supply
  have hres : Resolves prims globals (bindJoins built k sc) [sa] [v] := by
    refine .cons ?_ .nil
    rw [resolveAtom_agree hsa (bindJoins_agree fun b hb => h.new hb)]
    exact hv
  rcases h.tree with ⟨m, htree⟩
  rcases compileMatch_decides prims globals serial hscrut hok with ⟨tree', m', htree', _, hdec⟩
  rw [htree] at htree'
  cases htree'
  exact hdec (bindJoins built k sc) k [v] hres hrowFits

end Built

/-- The decision-tree route on a value. -/
theorem match_runs {tk : TailK} {sa : Atom} {alts : List Alternative} {ctx : ElabCtx}
    {n n' : Int} {e : Expr} (hneeds : caseNeedsMatch env (alts.map (·.pat)) = true)
    (hag : ∀ alt ∈ alts, tagsAgree env alt.pat = true)
    (hsa : AtomBelow n sa) (henv : ctx.env = env) (hctx : ScopeBelow n ctx)
    (hrun : elabCase tk alts sa ctx n = .ok (e, n')) {sc : Scope} {v : Value} (k : Kont)
    (hv : resolveAtom prims globals sc sa = .ok v)
    (hfits : ∀ alt ∈ alts, alt.pat.fits env v = true)
    (hrecords : ∀ alt ∈ alts, hitsRecord env alt.pat v = false) :
    match alts.find? fun alt => alt.pat.matches env v with
    | some alt => RunsBody prims globals serial alt tk v ctx n sc k (.eval e sc k)
    | none => Fails prims globals serial (.eval e sc k) := by
  rcases match_built hneeds hag henv hctx hrun with ⟨n1, built, rows, tree, hbuilt, rfl⟩
  have hleads := hbuilt.leads serial hsa k hv hfits hrecords
  have hsteps := letJoins_steps prims globals serial built tree k sc
  have hfind := find_row (v := v) hbuilt.matrix fun ab hab =>
    hfits ab.1 (List.of_mem_zip hab).1
  rw [List.map_fst_zip (Nat.le_of_eq hbuilt.joins.length_eq)] at hfind
  cases hfirst : alts.find? fun alt => alt.pat.matches env v with
  | none =>
      rw [hfirst] at hfind
      rw [hfind] at hleads
      rcases hleads with ⟨sc', hs⟩
      exact Fails.of_steps (hsteps.trans hs.steps)
        ⟨_, _, Steps.refl _, transition_case_fail rfl rfl⟩
  | some alt =>
      rw [hfirst] at hfind
      rcases hfind with ⟨b, r, hab, hrow, hfound⟩
      rw [hfound] at hleads
      rcases hleads with ⟨sc', args, ws, hs, hargs, hws, hag'⟩
      have hfit := hfits alt (List.of_mem_zip hab).1
      have hjoin := (List.forall₂_iff_zip.mp hbuilt.joins).2 hab
      have hmatch : alt.pat.matches env v = true := by
        simpa using List.find?_some hfirst
      rcases bindJoins_lookup k sc hbuilt.nodup (fun b hb => hbuilt.new hb)
        (List.of_mem_zip hab).2 with ⟨sc0, hlook, hag0⟩
      rw [hrow.join] at hs
      rw [hrow.order] at hws
      have hjump := jump_runs serial henv hjoin hargs
        (hws.imp fun x w hxw => hrow.binds hfit hmatch hxw)
        ((hag'.joins b.join hjoin.new.2).trans hlook) hag0
      exact RunsBody.of_steps (hsteps.trans hs.steps) hjump

end MatchRoute

/-! ### Elaboration succeeds -/

section Yields

variable {env : TypeEnv}

/-- The action succeeds, with a result in `P`. -/
def Yields {α : Type} (x : Elab α) (P : α → Prop) : Prop :=
  ∀ ctx n, ∃ a m, x ctx n = .ok (a, m) ∧ P a

def Total {α : Type} (x : Elab α) : Prop := Yields x fun _ => True

theorem Yields.pure {α : Type} {P : α → Prop} {a : α} (h : P a) :
    Yields (Pure.pure a : Elab α) P :=
  fun _ n => ⟨a, n, rfl, h⟩

theorem Yields.bind {α β : Type} {x : Elab α} {f : α → Elab β} {P : α → Prop} {Q : β → Prop}
    (hx : Yields x P) (hf : ∀ a, P a → Yields (f a) Q) : Yields (x >>= f) Q := by
  intro ctx n
  rcases hx ctx n with ⟨a, m, ha, hP⟩
  rcases hf a hP ctx m with ⟨b, l, hb, hQ⟩
  refine ⟨b, l, ?_, hQ⟩
  change (x ctx n >>= fun am => f am.1 ctx am.2) = _
  rw [ha]
  exact hb

theorem Total.map {α β : Type} {x : Elab α} {f : α → β} (hx : Total x) :
    Total (x >>= fun a => Pure.pure (f a)) :=
  Yields.bind hx fun _ _ => .pure trivial

theorem Total.bindFresh (t : String) : Total (bindFresh t) :=
  fun _ n => ⟨⟨t, ⟨n⟩⟩, n + 1, rfl, trivial⟩

theorem Total.withLocal {α : Type} {x : Elab α} (t : String) (nm : Name) (h : Total x) :
    Total (withLocal t nm x) :=
  fun ctx n => h (ctx.insertLocal t nm) n

/-- The wrapper keeps success. -/
def WrapsTotal (w : Elab Expr → Elab Expr) : Prop := ∀ inner, Total inner → Total (w inner)

theorem wrapNested_total (nm : Name) {f : Atom → Elab Expr → Elab Alt}
    (hf : ∀ a inner, Total inner → Total (f a inner)) : WrapsTotal (wrapNested nm f) :=
  fun inner h => (hf (.var nm) inner h).map

theorem buildSubPat_total {p : TPat} {f : Atom → Elab Expr → Elab Alt} {rest : SubPats}
    (hf : ∀ a inner, Total inner → Total (f a inner)) (hrest : WrapsTotal rest.2) :
    Yields (buildSubPat p f rest) fun r => WrapsTotal r.2 := by
  cases p with
  | var ty x =>
      exact Yields.bind (Total.bindFresh x) fun nm _ => .pure fun inner h =>
        (hrest inner h).withLocal x nm
  | wild ty => exact Yields.bind (Total.bindFresh "_") fun _ _ => .pure hrest
  | unit ty => exact Yields.bind (Total.bindFresh "_") fun _ _ => .pure hrest
  | _ =>
      exact Yields.bind (Total.bindFresh "t") fun nm _ => .pure fun inner h =>
        wrapNested_total nm hf _ (hrest inner h)

theorem buildSubPatFromPat_total {p : TPat} {f : Atom → Elab Expr → Elab Alt}
    (hf : ∀ a inner, Total inner → Total (f a inner)) :
    Yields (buildSubPatFromPat p f) fun r => WrapsTotal r.2 := by
  cases p with
  | var ty x =>
      exact Yields.bind (Total.bindFresh x) fun nm _ => .pure fun _ h => h.withLocal x nm
  | wild ty => exact Yields.bind (Total.bindFresh "_") fun _ _ => .pure fun _ h => h
  | _ => exact Yields.bind (Total.bindFresh "t") fun nm _ => .pure (wrapNested_total nm hf)

theorem buildRecordFieldBinding_total {scrut : Atom} {l : String} {p : TPat}
    {f : Atom → Elab Expr → Elab Alt} (hf : ∀ a inner, Total inner → Total (f a inner)) :
    WrapsTotal (buildRecordFieldBinding scrut l p f) := by
  intro inner h
  cases p with
  | wild ty => exact h
  | var ty x =>
      exact Yields.bind (Total.bindFresh l) fun nm _ => (h.withLocal x nm).map
  | _ =>
      exact Yields.bind (Total.bindFresh l) fun nm _ => (wrapNested_total nm hf inner h).map

mutual

/-- Only a list pattern with elements is not lowered. -/
theorem elabPat_total : ∀ (p : TPat) (scrut : Atom) (body : Elab Expr), lowerable p = true →
    Total body → Total (elabPat scrut p body)
  | .wild _, _, _, _, h => h.map
  | .unit _, _, _, _, h => h.map
  | .var _ x, _, _, _, h =>
      Yields.bind (Total.bindFresh x) fun nm _ => (h.withLocal x nm).map
  | .litI .., _, _, _, h => h.map
  | .litS .., _, _, _, h => h.map
  | .litC .., _, _, _, h => h.map
  | .list _ [], _, _, _, h => h.map
  | .list _ (_ :: _), _, _, hl, _ => nomatch hl
  | .tuple _ ps, _, body, hl, h =>
      Yields.bind (buildSubPats_total ps hl) fun _ hr => (hr body h).map
  | .cons _ p q, _, body, hl, h => by
      simp only [lowerable, Bool.and_eq_true] at hl
      have hp : ∀ a inner, Total inner → Total (elabPat a p inner) :=
        fun a inner => elabPat_total p a inner hl.1
      have hq : ∀ a inner, Total inner → Total (elabPat a q inner) :=
        fun a inner => elabPat_total q a inner hl.2
      rw [elabPat]
      exact Yields.bind (buildSubPat_total hp fun _ h => h) fun _ hhead =>
        Yields.bind (buildSubPatFromPat_total hq) fun _ htail =>
          (hhead _ (htail body h)).map
  | .con ty c ps, scrut, body, hl, h => by
      intro ctx n
      cases hrecord : ctx.env.lookupRecordCon c with
      | some rci =>
          have hrun : elabPat scrut (.con ty c ps) body ctx n =
              (buildRecordFieldBindings scrut (rci.fields.map (·.1)) ps body >>= fun e =>
                pure (Alt.con c [] e)) ctx n := by
            change (match ctx.env.lookupRecordCon c with
              | some rci => _
              | none => _ : Elab Alt) ctx n = _
            rw [hrecord]
          rw [hrun]
          exact (recordFields_total ps scrut _ hl body h).map ctx n
      | none =>
          have hrun : elabPat scrut (.con ty c ps) body ctx n =
              (buildSubPats ps >>= fun r => r.2 body >>= fun e =>
                pure (Alt.con c r.1 e)) ctx n := by
            change (match ctx.env.lookupRecordCon c with
              | some rci => _
              | none => _ : Elab Alt) ctx n = _
            rw [hrecord]
          rw [hrun]
          exact Yields.bind (buildSubPats_total ps hl) (fun _ hr => (hr body h).map) ctx n
  | .as _ x p, scrut, body, hl, h =>
      Yields.bind (Total.bindFresh x) fun nm _ =>
        elabPat_total p scrut _ hl (h.withLocal x nm).map

theorem buildSubPats_total : ∀ ps : List TPat, allLowerable ps = true →
    Yields (buildSubPats ps) fun r => WrapsTotal r.2
  | [], _ => .pure fun _ h => h
  | p :: ps, hl => by
      simp only [allLowerable, Bool.and_eq_true] at hl
      exact Yields.bind (buildSubPats_total ps hl.2) fun _ hrest =>
        buildSubPat_total (fun a inner => elabPat_total p a inner hl.1) hrest

theorem recordFields_total : ∀ (ps : List TPat) (scrut : Atom) (labels : List String),
    allLowerable ps = true → WrapsTotal (buildRecordFieldBindings scrut labels ps)
  | [], _, labels, _ => by
      cases labels <;> exact fun _ h => h
  | _ :: _, _, [], _ => fun _ h => h
  | p :: ps, scrut, _ :: labels, hl => by
      simp only [allLowerable, Bool.and_eq_true] at hl
      exact fun inner h => buildRecordFieldBinding_total
        (fun a inner => elabPat_total p a inner hl.1) _
        (recordFields_total ps scrut labels hl.2 inner h)

end

theorem elabCaseAlts_total {tk : TailK} {sa : Atom} {alts : List Alternative}
    (hl : ∀ alt ∈ alts, lowerable alt.pat = true) (hbody : ∀ alt ∈ alts, Total (alt.body tk)) :
    Total (alts.mapM (elabCaseAlt tk sa)) := by
  induction alts with
  | nil => exact .pure trivial
  | cons alt alts ih =>
      rw [List.mapM_cons]
      have halt : Total (elabCaseAlt tk sa alt) :=
        elabPat_total alt.pat sa _ (hl alt List.mem_cons_self) (hbody alt List.mem_cons_self)
      exact Yields.bind halt fun _ _ => Total.map (ih
        (fun alt' h => hl alt' (List.mem_cons_of_mem alt h))
        fun alt' h => hbody alt' (List.mem_cons_of_mem alt h))

end Yields

/-! ### Which cases run as their patterns say -/

section Main

variable {prims : PrimTable} {globals : Globals} {serial : Nat} {env : TypeEnv}

theorem matchesAll_length {ps : List TPat} {vs : List Value} (h : matchesAll env ps vs = true) :
    vs.length = ps.length := by
  induction ps generalizing vs with
  | nil =>
      rcases vs with _ | _
      · rfl
      · simp [matchesAll] at h
  | cons p ps ih =>
      rcases vs with _ | ⟨v, vs⟩
      · simp [matchesAll] at h
      · simp only [matchesAll, Bool.and_eq_true] at h
        rw [List.length_cons, List.length_cons, ih h.2]

/-- The head of a pattern accepts what the pattern matches without coming to a
record. -/
theorem headAccepts_of_matches : ∀ {p : TPat} {v : Value}, lowerable p = true →
    p.matches env v = true → hitsRecord env p v = false → headAccepts env p v = true
  | .var .., _, _, _, _ => rfl
  | .wild _, _, _, _, _ => rfl
  | .unit _, _, _, _, _ => rfl
  | .litI _ i, .lit l, _, hm, _ => hm
  | .litS _ s, .lit l, _, hm, _ => hm
  | .litC _ c, .lit l, _, hm, _ => hm
  | .tuple _ ps, .con c vs, _, hm, _ => by
      simp only [TPat.matches, Bool.and_eq_true] at hm
      rw [headAccepts, hm.1, matchesAll_length hm.2, beq_self_eq_true]
      rfl
  | .list _ [], _, _, hm, _ => by
      simp only [TPat.matches, matchesList] at hm
      split at hm
      · rfl
      · cases hm
  | .list _ (_ :: _), _, hl, _, _ => nomatch hl
  | .cons .., _, _, hm, _ => by
      simp only [TPat.matches] at hm
      split at hm
      · rfl
      · cases hm
  | .con _ c ps, .con c' vs, _, hm, hh => by
      simp only [TPat.matches, Bool.and_eq_true] at hm
      simp only [hitsRecord, hm.1, Bool.true_and, Bool.or_eq_false_iff] at hh
      rw [headAccepts, hm.1, matchesAll_length hm.2, Bool.true_and]
      cases hname : isRecordConName env c with
      | false => simp
      | true =>
          have hps : ps = [] := by simpa [hname] using hh.1
          simp [hps]
  | .as _ _ p, _, hl, hm, hh => headAccepts_of_matches (p := p) hl hm hh

/-- The decision-tree route is right where no record is tested. -/
theorem caseRuns_of_match {pats : List TPat} {v : Value}
    (hfits : ∀ p ∈ pats, p.fits env v = true) (hneeds : caseNeedsMatch env pats = true)
    (hag : ∀ p ∈ pats, tagsAgree env p = true ∧ hitsRecord env p v = false) :
    CaseRuns env pats v := by
  intro prims globals serial alts tk sa ctx n e n' sc k hpats henv hrun hv hsa hctx
  subst hpats
  exact match_runs hneeds (fun alt halt => (hag alt.pat (List.mem_map_of_mem halt)).1) hsa henv
    hctx hrun k hv (fun alt halt => hfits alt.pat (List.mem_map_of_mem halt))
    fun alt halt => (hag alt.pat (List.mem_map_of_mem halt)).2

/-- Without a match every alternative that the flat route selects fails. -/
theorem caseRuns_of_none {pats : List TPat} {v : Value}
    (hfits : ∀ p ∈ pats, p.fits env v = true) (hneeds : caseNeedsMatch env pats = false)
    (hnone : ∀ p ∈ pats, p.matches env v = false) : CaseRuns env pats v := by
  intro prims globals serial alts tk sa ctx n e n' sc k hpats henv hrun hv hsa hctx
  subst hpats
  have hfind : alts.find? (fun alt => alt.pat.matches env v) = none := by
    rw [List.find?_eq_none]
    intro alt halt
    rw [hnone alt.pat (List.mem_map_of_mem halt)]
    exact Bool.false_ne_true
  have hflat := flat_runs prims globals serial hneeds hsa henv hctx hrun k hv fun alt halt =>
    hfits alt.pat (List.mem_map_of_mem halt)
  rw [hfind]
  cases hhead : alts.find? fun alt => headAccepts env alt.pat v with
  | none =>
      rw [hhead] at hflat
      rcases hflat with ⟨msg, hmsg⟩
      exact ⟨_, msg, Steps.refl _, hmsg⟩
  | some alt =>
      rw [hhead] at hflat
      rcases hflat with ⟨c, hc, ctx', m, eb, m', _, _, hout⟩
      have hsel : selected env alt.pat v = none := by
        rw [selected, hnone alt.pat (List.mem_map_of_mem (List.mem_of_find?_eq_some hhead))]
        rfl
      rw [hsel] at hout
      exact Fails.of_steps (Steps.head hc (Steps.refl _)) hout

/-- The flat route is right where its first head that accepts is that of the first
match. -/
theorem caseRuns_of_finds {pats : List TPat} {v : Value}
    (hfits : ∀ p ∈ pats, p.fits env v = true) (hl : ∀ p ∈ pats, lowerable p = true)
    (hneeds : caseNeedsMatch env pats = false) (hfinds : FlatFinds env pats v) :
    CaseRuns env pats v := by
  intro prims globals serial alts tk sa ctx n e n' sc k hpats henv hrun hv hsa hctx
  subst hpats
  rcases hfinds with ⟨earlier, p, later, hsplit, hm, hh, hearlier⟩
  have hp : p ∈ alts.map Alternative.pat := hsplit ▸ by simp
  rcases List.map_eq_append_iff.mp hsplit with ⟨as1, rest, rfl, rfl, hrest⟩
  rcases List.map_eq_cons_iff.mp hrest with ⟨alt, as2, rfl, rfl, rfl⟩
  have haccept := headAccepts_of_matches (hl alt.pat hp) hm hh
  have hfind : (as1 ++ alt :: as2).find? (fun alt => alt.pat.matches env v) = some alt := by
    rw [List.find?_eq_some_iff_append]
    refine ⟨hm, as1, as2, rfl, fun a ha => ?_⟩
    rw [(hearlier a.pat (List.mem_map_of_mem ha)).1]
    rfl
  have hhead : (as1 ++ alt :: as2).find? (fun alt => headAccepts env alt.pat v) = some alt := by
    rw [List.find?_eq_some_iff_append]
    refine ⟨haccept, as1, as2, rfl, fun a ha => ?_⟩
    rw [(hearlier a.pat (List.mem_map_of_mem ha)).2]
    rfl
  have hflat := flat_runs prims globals serial hneeds hsa henv hctx hrun k hv fun alt halt =>
    hfits alt.pat (List.mem_map_of_mem halt)
  rw [hhead] at hflat
  rcases hflat with ⟨c, hc, ctx', m, eb, m', hbody, hext, hout⟩
  have hsel : selected env alt.pat v = some (alt.pat.parts env v) := by
    rw [selected, hm, hh]
    rfl
  rw [hsel] at hout
  rcases hout with ⟨sc', hs, hbinds⟩
  rw [hfind]
  exact ⟨ctx', m, eb, m', sc', hbody, hext, henv ▸ hbinds, Steps.head hc hs⟩

/-- An alternative that returns a number. -/
def numbered (i : Int) (p : TPat) : Alternative where
  pat := p
  body _ := pure (.ret (.lit (.int i)))
  supply _ _ _ _ _ h := by
    cases h
    exact le_rfl

/-- The final configuration of such an alternative. -/
theorem numbered_stuck (i : Int) (c : Config) :
    transition prims globals serial (.ret (.lit (.int i)) []) ≠ .ok (.config c) := by
  rw [transition, returnTo]
  intro h
  cases h

/-- A run that returns the number of an alternative has selected one of that number. -/
theorem numbered_selected {tk : TailK} {i j : Int} {p q : TPat} {v : Value} {ctx ctx' : ElabCtx}
    {n : Int} {sc : Scope} {c c' : Config}
    (hc : transition prims globals serial c = .ok (.config c'))
    (hruns : RunsBody prims globals serial (numbered i p) tk v ctx n sc [] c)
    (hsel : Selects prims globals serial env (numbered j q) tk v ctx' n sc [] c') :
    i = j ∧ (selected env q v).isSome = true := by
  rcases hruns with ⟨_, _, e, _, sc1, hbody, _, _, hs⟩
  cases hbody
  have hret : Steps prims globals serial c (.ret (.lit (.int i)) []) :=
    hs.trans (Steps.head rfl (Steps.refl _))
  rcases hsel with ⟨_, _, eb, _, hbody, _, hout⟩
  cases hbody
  change Outcome _ _ _ _ _ _ _ _ _ _ (selected env q v) at hout
  cases hr : selected env q v with
  | none =>
      rw [hr] at hout
      rcases hout with ⟨d, msg, hd, herr⟩
      have hstuck : ∀ e, transition prims globals serial d ≠ .ok (.config e) := by
        intro e he
        rw [herr] at he
        cases he
      have heq := Steps.unique hret (Steps.head hc hd) (numbered_stuck i) hstuck
      subst heq
      cases herr
  | some parts =>
      rw [hr] at hout
      rcases hout with ⟨sc2, hs2, _⟩
      have hret' : Steps prims globals serial c (.ret (.lit (.int j)) []) :=
        (Steps.head hc hs2).trans (Steps.head rfl (Steps.refl _))
      have heq := Steps.unique hret hret' (numbered_stuck i) (numbered_stuck j)
      cases heq
      exact ⟨rfl, rfl⟩

/-- A run that returns a number does not fail at once. -/
theorem numbered_runs {tk : TailK} {i : Int} {p : TPat} {v : Value} {ctx : ElabCtx} {n : Int}
    {sc : Scope} {e : Expr} {msg : String}
    (hruns : RunsBody prims globals serial (numbered i p) tk v ctx n sc [] (.eval e sc [])) :
    transition prims globals serial (.eval e sc []) ≠ fail (.nonExhaustiveCase msg) := by
  intro herr
  rcases hruns with ⟨_, _, _, _, sc1, hbody, _, _, hs⟩
  cases hbody
  have hret : Steps prims globals serial (.eval e sc []) (.ret (.lit (.int i)) []) :=
    hs.trans (Steps.head rfl (Steps.refl _))
  have hstuck : ∀ e', transition prims globals serial (.eval e sc []) ≠ .ok (.config e') := by
    intro e' he
    rw [herr] at he
    cases he
  exact nomatch Steps.unique hret (Steps.refl _) (numbered_stuck i) hstuck

/-- The alternative of `p` has a number of its own. -/
def numberedAlts (earlier : List TPat) (p : TPat) (later : List TPat) : List Alternative :=
  earlier.map (numbered 0) ++ numbered 1 p :: later.map (numbered 0)

theorem numberedAlts_pats (earlier : List TPat) (p : TPat) (later : List TPat) :
    (numberedAlts earlier p later).map (·.pat) = earlier ++ p :: later := by
  simp [numberedAlts, numbered, Function.comp_def]

theorem numberedAlts_total (sa : Atom) {earlier later : List TPat} {p : TPat}
    (hl : ∀ q ∈ earlier ++ p :: later, lowerable q = true) :
    Total ((numberedAlts earlier p later).mapM (elabCaseAlt .ret sa)) := by
  refine elabCaseAlts_total (fun alt halt => ?_) fun alt halt => ?_
  · refine hl alt.pat ?_
    rw [← numberedAlts_pats]
    exact List.mem_map_of_mem halt
  · simp only [numberedAlts, List.mem_append, List.mem_cons, List.mem_map] at halt
    rcases halt with ⟨q, _, rfl⟩ | rfl | ⟨q, _, rfl⟩
    · exact .pure trivial
    · exact .pure trivial
    · exact .pure trivial

/-- The flat route selects the alternative with a number of its own only if no
earlier head accepts. -/
theorem numberedAlts_head (accepts : TPat → Bool) {earlier later : List TPat} {p : TPat}
    {alt : Alternative}
    (hhead : (numberedAlts earlier p later).find? (fun alt => accepts alt.pat) = some alt) :
    (∃ q, alt = numbered 0 q) ∨ alt = numbered 1 p ∧ ∀ q ∈ earlier, accepts q = false := by
  rw [numberedAlts, List.find?_append] at hhead
  cases he : (earlier.map (numbered 0)).find? (fun alt => accepts alt.pat) with
  | some alt' =>
      rw [he, Option.some_or] at hhead
      cases hhead
      rcases List.mem_map.mp (List.mem_of_find?_eq_some he) with ⟨q, _, rfl⟩
      exact .inl ⟨q, rfl⟩
  | none =>
      rw [he, Option.none_or, List.find?_cons] at hhead
      cases ha : accepts (numbered 1 p).pat with
      | true =>
          rw [ha] at hhead
          cases hhead
          refine .inr ⟨rfl, fun q hq => ?_⟩
          rw [List.find?_eq_none] at he
          have hq' : ¬ accepts q = true := he (numbered 0 q) (List.mem_map_of_mem hq)
          simpa using hq'
      | false =>
          rw [ha] at hhead
          rcases List.mem_map.mp (List.mem_of_find?_eq_some hhead) with ⟨q, _, rfl⟩
          exact .inl ⟨q, rfl⟩

/-- A flat `case` that runs as its patterns say finds its first match. -/
theorem caseRuns_finds {pats : List TPat} {v : Value}
    (hfits : ∀ p ∈ pats, p.fits env v = true) (hl : ∀ p ∈ pats, lowerable p = true)
    (hneeds : caseNeedsMatch env pats = false) (h : CaseRuns env pats v) :
    (∀ p ∈ pats, p.matches env v = false) ∨ FlatFinds env pats v := by
  cases hfirst : pats.find? (·.matches env v) with
  | none =>
      rw [List.find?_eq_none] at hfirst
      exact .inl fun p hp => by simpa using hfirst p hp
  | some p =>
      rw [List.find?_eq_some_iff_append] at hfirst
      rcases hfirst with ⟨hm, earlier, later, rfl, hearlier⟩
      let alts := numberedAlts earlier p later
      have hpats : alts.map Alternative.pat = earlier ++ p :: later := numberedAlts_pats ..
      let ctx : ElabCtx := ⟨env, [], [], []⟩
      let sc : Scope := ⟨[(⟨0⟩, v)], []⟩
      let sa : Atom := .var ⟨"x", ⟨0⟩⟩
      have hsa : AtomBelow 1 sa := by
        intro u hu
        simp only [sa, atomVars, List.mem_singleton] at hu
        rw [hu]
        exact Int.zero_lt_one
      have hctx : ScopeBelow 1 ctx := fun x nm hx => by cases hx
      rcases numberedAlts_total sa hl ctx 1 with ⟨as, m, has, _⟩
      have hneeds' : caseNeedsMatch env (alts.map (·.pat)) = false := by
        rw [hpats]
        exact hneeds
      have hrun : elabCase .ret alts sa ctx 1 = .ok (.case_ sa as, m) := by
        change (if caseNeedsMatch env (alts.map (·.pat)) = true then _ else _ : Elab Expr) ctx 1 = _
        rw [hneeds', if_neg Bool.false_ne_true]
        change (alts.mapM (elabCaseAlt .ret sa) ctx 1 >>= _) = _
        rw [has]
        rfl
      have hfind : alts.find? (fun alt => alt.pat.matches env v) = some (numbered 1 p) := by
        rw [List.find?_eq_some_iff_append]
        refine ⟨hm, _, _, rfl, fun a ha => ?_⟩
        rcases List.mem_map.mp ha with ⟨q, hq, rfl⟩
        exact hearlier q hq
      have hruns := h (fun _ => none) (fun _ => none) 0 alts .ret sa ctx 1 _ m sc [] hpats rfl hrun
        rfl hsa hctx
      rw [hfind] at hruns
      have hv : resolveAtom (fun _ => none) (fun _ => none) sc sa = .ok v := rfl
      have hflat := flat_runs (fun _ => none) (fun _ => none) 0 hneeds' hsa rfl hctx hrun [] hv
        fun alt halt => hfits alt.pat (hpats ▸ List.mem_map_of_mem halt)
      cases hhead : alts.find? fun alt => headAccepts env alt.pat v with
      | none =>
          rw [hhead] at hflat
          rcases hflat with ⟨msg, hmsg⟩
          exact absurd hmsg (numbered_runs hruns)
      | some alt =>
          rw [hhead] at hflat
          rcases hflat with ⟨c, hc, hsel⟩
          rcases numberedAlts_head (headAccepts env · v) hhead with ⟨q, rfl⟩ | ⟨rfl, hreject⟩
          · exact absurd (numbered_selected hc hruns hsel).1 (by decide)
          · have hsome := (numbered_selected hc hruns hsel).2
            have hh : hitsRecord env p v = false := by
              rw [selected, hm] at hsome
              cases hr : hitsRecord env p v with
              | false => rfl
              | true => simp [hr] at hsome
            exact .inr ⟨earlier, p, later, rfl, hm, hh, fun q hq =>
              ⟨by simpa using hearlier q hq, hreject q hq⟩⟩

end Main

/-! ### A record pattern -/

section Point

/-- `data Point = Point { x, y }`. -/
def pointEnv : TypeEnv where
  cons := []
  tyCons := []
  recordCons := [("Point", ⟨[("x", unitType), ("y", unitType)]⟩)]

def pointPat : TPat := .con unitType "Point" [.var unitType "x", .var unitType "y"]

def pointValue : Value := .record "Point" [("x", .lit (.int 1)), ("y", .lit (.int 2))]

end Point

end Wok.Proofs.Case
