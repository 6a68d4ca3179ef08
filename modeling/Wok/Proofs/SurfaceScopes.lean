/-
Module: Wok.Proofs.SurfaceScopes
Purpose: The mapped syntax refers, at every occurrence, to the binder that the occurrence has
  in the parser's tree exactly when no mapped group captures a name.
Imports: Wok.Spec.SurfaceScopes, Wok.Lib.Refinement
Trusted boundary: none
Main exports: Reads, mapPat_toks, mapExpr_reads, buildBlock_reads, mapDecl_reads,
  surfaceModule_refers_iff
-/
import Wok.Spec.SurfaceScopes
import Wok.Lib.Refinement

namespace Wok.Sexp.Surface

open Wok.Abs
open Wok.Lib (exceptBind_ok)
open Wok.Lib.Binding (ScopeTree push refs_wide_iff)

/-! ### Reading a mapped tree -/

/-- The tree `t` refers to the binders that `s` refers to when it is read wide. -/
def Reads (t s : ScopeTree Tok) : Prop :=
  ∀ env, t.refs Tok.text false env = s.refs Tok.text true env

section

variable {s t s' t' : ScopeTree Tok} {bs : List Tok}

theorem reads_leaf : Reads .leaf .leaf := fun _ => rfl

theorem reads_ref (v : Tok) : Reads (.ref v) (.ref v) := fun _ => rfl

theorem Reads.both (h : Reads t s) (h' : Reads t' s') : Reads (.both t t') (.both s s') :=
  fun env => congrArg₂ (· ++ ·) (h env) (h' env)

theorem Reads.under (h : Reads t s) : Reads (.under bs t) (.under bs s) := fun _ => h _

/-- A binder that the mapping puts around a part is in the wide reading only. -/
theorem Reads.wide (h : Reads t s) : Reads (.under bs t) (.wide bs s) := fun _ => h _

/-- A group of one value, as a value binding. -/
theorem Reads.value (x : Tok) (h : Reads t s) (h' : Reads t' s') :
    Reads (.under [x] (.both (.under [] t) t')) (valueTree x s s') :=
  fun env => congrArg₂ (· ++ ·) (h (push [x] env)) (h' (push [x] env))

theorem reads_under_nil (h : Reads t s) : Reads t (.under [] s) := h

end

/-! ### Patterns -/

theorem atomOf_toks (p : Pat) : (atomOf p).toks = p.toks := by
  cases p <;> rfl

mutual

theorem mapPat_toks : ∀ {n : GPat} {p : Pat}, mapPat n = .ok p → p.toks = n.toks
  | .pVar _, _, h => by
      cases h
      rfl
  | .pWild, _, h => by
      cases h
      rfl
  | .pInt .., _, h => by
      cases h
      rfl
  | .pStr _, _, h => by
      rcases exceptBind_ok h with ⟨_, _, h⟩
      cases h
      rfl
  | .pChar _, _, h => by
      rcases exceptBind_ok h with ⟨_, _, h⟩
      cases h
      rfl
  | .pCon path args, _, h => by
      rcases exceptBind_ok h with ⟨mp, _, h⟩
      rcases exceptBind_ok h with ⟨as, has, h⟩
      have ih := patAtoms_toks has
      cases as with
      | nil =>
          cases h
          exact ih
      | cons a as =>
          cases h
          exact ih
  | .pCons hd tl, _, h => by
      rcases exceptBind_ok h with ⟨hd', hhd, h⟩
      rcases exceptBind_ok h with ⟨tl', htl, h⟩
      cases h
      exact congrArg₂ (· ++ ·) ((atomOf_toks hd').trans (mapPat_toks hhd)) (mapPat_toks htl)
  | .pTuple pos items, _, h => by
      rw [mapPat] at h
      split at h
      · cases h
      rcases exceptBind_ok h with ⟨ps, hps, h⟩
      have ih := mapPats_toks hps
      cases ps with
      | nil => cases h
      | cons p ps =>
          cases h
          exact ih
  | .pList items, _, h => by
      rcases exceptBind_ok h with ⟨ps, hps, h⟩
      cases h
      exact mapPats_toks hps
  | .pUnit, _, h => by
      cases h
      rfl
  | .pAs pat n, _, h => by
      rcases exceptBind_ok h with ⟨p, hp, h⟩
      cases h
      exact congrArg (n.tok :: ·) ((atomOf_toks p).trans (mapPat_toks hp))
  | .pRecord pos path fields isOpen rest, _, h => by
      rcases exceptBind_ok h with ⟨parts, _, h⟩
      split at h
      · rename_i c
        rcases exceptBind_ok h with ⟨fps, hfps, h⟩
        have ih := fieldPats_toks hfps
        change _ = gfieldToks fields ++ rest.toks
        rw [FldName.toks, ← ih]
        cases isOpen with
        | false =>
            simp only [Bool.false_eq_true, if_false] at h
            split at h
            · rename_i habs
              cases h
              rw [if_pos habs, List.append_nil]
              rfl
            · cases h
        | true =>
            simp only [if_true] at h
            cases fps with
            | nil =>
                cases h
                split
                · rfl
                · rfl
            | cons f fps =>
                cases h
                split
                · rfl
                · rfl
      · cases h
  | .damage _, _, h => nomatch h

theorem mapPats_toks : ∀ {ns : List GPat} {ps : List Pat}, mapPats ns = .ok ps →
    patToks ps = gpatToks ns
  | [], _, h => by
      cases h
      rfl
  | n :: ns, _, h => by
      rcases exceptBind_ok h with ⟨p, hp, h⟩
      rcases exceptBind_ok h with ⟨ps, hps, h⟩
      cases h
      exact congrArg₂ (· ++ ·) (mapPat_toks hp) (mapPats_toks hps)

theorem patAtoms_toks : ∀ {ns : List GPat} {ps : List AtomPat}, patAtoms ns = .ok ps →
    atomToks ps = gpatToks ns
  | [], _, h => by
      cases h
      rfl
  | n :: ns, _, h => by
      rcases exceptBind_ok h with ⟨p, hp, h⟩
      rcases exceptBind_ok h with ⟨ps, hps, h⟩
      cases h
      exact congrArg₂ (· ++ ·) ((atomOf_toks p).trans (mapPat_toks hp)) (patAtoms_toks hps)

theorem fieldPats_toks : ∀ {fs : List GFieldPat} {ps : List RecordFieldPat},
    fieldPats fs = .ok ps → fieldToks ps = gfieldToks fs
  | [], _, h => by
      cases h
      rfl
  | f :: fs, _, h => by
      rcases exceptBind_ok h with ⟨p, hp, h⟩
      rcases exceptBind_ok h with ⟨ps, hps, h⟩
      cases h
      exact congrArg₂ (· ++ ·) (fieldPat_toks hp) (fieldPats_toks hps)

theorem fieldPat_toks : ∀ {f : GFieldPat} {p : RecordFieldPat}, fieldPat f = .ok p →
    p.toks = f.toks
  | .hFieldPat _ pat, _, h => by
      rcases exceptBind_ok h with ⟨p, hp, h⟩
      cases h
      exact mapPat_toks hp
  | .damage _, _, h => nomatch h

end

theorem patAtom_toks {n : GPat} {p : AtomPat} (h : patAtom n = .ok p) : p.toks = n.toks := by
  rcases exceptBind_ok h with ⟨p', hp, h⟩
  cases h
  exact (atomOf_toks p').trans (mapPat_toks hp)

/-! ### Left-hand sides -/

theorem funName_tok (paren : Bool) (n : FldName) : (funName paren n).tok = n.tok := by
  unfold funName
  split
  · rfl
  · split
    · rfl
    · rfl

theorem mapFunLHS_toks {l : GLhs} {l' : FunLHS AtomPat} (h : mapFunLHS l = .ok l') :
    l.heads = [lhsTok l'] ∧ atomToks (lhsAtomPats l') = l.params := by
  cases l with
  | lPrefix n paren args =>
      rcases exceptBind_ok h with ⟨aps, haps, h⟩
      cases h
      exact ⟨congrArg (fun t => [t]) (funName_tok paren n).symm, patAtoms_toks haps⟩
  | lInfix l op backtick r =>
      rcases exceptBind_ok h with ⟨la, hl, h⟩
      rcases exceptBind_ok h with ⟨ra, hr, h⟩
      have htoks : atomToks [la, ra] = l.toks ++ r.toks := by
        rw [← patAtom_toks hl, ← patAtom_toks hr]
        exact congrArg (la.toks ++ ·) (List.append_nil _)
      cases backtick with
      | false =>
          cases h
          exact ⟨rfl, htoks⟩
      | true =>
          cases h
          exact ⟨rfl, htoks⟩
  | damage d => cases h

/-! ### Expressions -/

variable {st : Stage} {T : Type} {mapType : T → Mapped Ty}

theorem wrapExpArg_tree (e : Exp) : (wrapExpArg e).tree st = e.tree st := by
  cases e <;> rfl

theorem argsTree_concat (args : List WithArg) (e : Exp) (env : List Tok) :
    (argsTree st (args ++ [.wrArg e])).refs Tok.text false env =
      (argsTree st args).refs Tok.text false env ++ (e.tree st).refs Tok.text false env := by
  induction args with
  | nil => exact List.append_nil _
  | cons a args ih =>
      change _ ++ (argsTree st (args ++ [.wrArg e])).refs Tok.text false env = _
      rw [ih, ← List.append_assoc]
      rfl

theorem whereOf_tree (ds : List LocalDecl) (rest : ScopeTree Tok) (env : List Tok) :
    ((whereOf ds).tree st rest).refs Tok.text false env =
      (ScopeTree.under (runToks ds) (localsTree st ds rest)).refs Tok.text false env := by
  cases ds <;> rfl

theorem closeRun_tree (run : List LocalDecl) (e : Exp) (env : List Tok) :
    ((closeRun run e).tree st).refs Tok.text false env =
      (ScopeTree.under (runToks run) (localsTree st run (e.tree st))).refs Tok.text false env := by
  cases run <;> rfl

/-- A mapped function equation stands in a run of equations as it does in the source. -/
structure FunReads (st : Stage) (ld : LocalDecl) (heads : List Tok)
    (tree : List Tok → ScopeTree Tok → ScopeTree Tok) : Prop where
  some : heads ≠ []
  toks : ∀ ds, runToks (ld :: ds) = heads ++ runToks ds
  reads : ∀ {t s} next next', Reads t s → Reads (ld.tree st next' t) (tree next s)

/-- A mapped value or pattern stands for itself in a group of its own. -/
structure ValueReads (st : Stage) (ld : LocalDecl) (heads : List Tok)
    (tree : List Tok → ScopeTree Tok → ScopeTree Tok) : Prop where
  none : heads = []
  reads : ∀ {t s} next, Reads t (.under next s) →
    Reads (.under (runToks [ld]) (ld.tree st [] t)) (tree next s)

/-- A mapped binding, by what the binding is. -/
def BindReads (st : Stage) (isFun : Bool) (ld : LocalDecl) (heads : List Tok)
    (tree : List Tok → ScopeTree Tok → ScopeTree Tok) : Prop :=
  if isFun then FunReads st ld heads tree else ValueReads st ld heads tree

theorem bindLocalDeclOf_reads {pos : Sexp.Pos} {lhs : GBindLhs} {e : Exp} {ld : LocalDecl}
    {rhs : ScopeTree Tok} (h : bindLocalDeclOf pos lhs e = .ok ld) (he : Reads (e.tree st) rhs) :
    BindReads st (isFunEqLhs lhs) ld lhs.heads (lhs.tree rhs) := by
  cases lhs with
  | lhs l =>
      cases l with
      | damage d => cases h
      | lPrefix n paren args =>
          rcases exceptBind_ok h with ⟨l', hl, h⟩
          cases h
          rcases mapFunLHS_toks hl with ⟨hhead, hparams⟩
          cases args with
          | nil =>
              refine ⟨rfl, fun {t s} next ht => ?_⟩
              have hvalue := Reads.value n.tok he ht
              change Reads (.under [lhsTok l']
                (.both (.under (atomToks (lhsAtomPats l')) (e.tree st)) t)) _
              rw [hparams, ← hhead]
              exact hvalue
          | cons a args =>
              refine ⟨List.cons_ne_nil _ _, fun ds => ?_, fun {t s} next next' ht => ?_⟩
              · change _ = (GLhs.lPrefix n paren (a :: args)).heads ++ _
                rw [hhead]
                rfl
              · change Reads (.both (.under (atomToks (lhsAtomPats l')) (e.tree st)) t) _
                rw [hparams]
                exact he.under.both ht
      | lInfix left op backtick right =>
          rcases exceptBind_ok h with ⟨l', hl, h⟩
          cases h
          rcases mapFunLHS_toks hl with ⟨hhead, hparams⟩
          refine ⟨List.cons_ne_nil _ _, fun ds => ?_, fun {t s} next next' ht => ?_⟩
          · change _ = (GLhs.lInfix left op backtick right).heads ++ _
            rw [hhead]
            rfl
          · change Reads (.both (.under (atomToks (lhsAtomPats l')) (e.tree st)) t) _
            rw [hparams]
            exact he.under.both ht
  | pat p =>
      cases p with
      | pVar n =>
          cases h
          exact ⟨rfl, fun {t s} next ht => Reads.value n.tok he ht⟩
      | pTuple tpos items =>
          refine ⟨rfl, fun {t s} next ht => ?_⟩
          rw [bindLocalDeclOf] at h
          split at h
          · cases h
          rcases exceptBind_ok h with ⟨ps, hps, h⟩
          have htoks := mapPats_toks hps
          cases ps with
          | nil => cases h
          | cons p ps =>
              cases h
              change Reads (.both (e.tree st) (.under (patToks (p :: ps)) t)) _
              rw [htoks]
              exact he.both ht.under
      | damage d => cases h
      | _ => cases h

/-- The parts of a handler's arms, each for the same part of its clauses. -/
structure ArmsRead (st : Stage) (arms : List HandlerArm) (cls : List (GClause T)) : Prop where
  params : paramToks arms = slots cls
  bodies : Reads (armsTree st arms) (clausesTree st cls)
  inits : Reads (initsTree st arms) (varInits st cls)

structure ArmReads (st : Stage) (a : HandlerArm) (cl : GClause T) : Prop where
  params : ∀ as, paramToks (a :: as) = cl.slot ++ paramToks as
  body : Reads (a.tree st) (cl.tree st)
  init : Reads (a.init st) (cl.init st)

theorem ArmsRead.cons {a : HandlerArm} {cl : GClause T} {as : List HandlerArm}
    {cls : List (GClause T)} (h : ArmReads st a cl) (hs : ArmsRead st as cls) :
    ArmsRead st (a :: as) (cl :: cls) :=
  ⟨(h.params as).trans (congrArg (cl.slot ++ ·) hs.params), h.body.both hs.bodies,
    h.init.both hs.inits⟩

/-- A literal that is installed under a name. -/
theorem install_reads {label : FldName} {params : List Tok} {inits arms body inits' arms' body' :
      ScopeTree Tok} (hrole : (label.absent || startsUpper label.text) = false)
    (hi : Reads inits inits') (ha : Reads arms arms') (hb : Reads body body') :
    Reads (namedInstall st label.tok params inits arms body)
      (installTree st label params inits' arms' body') := by
  unfold installTree
  rw [if_neg (by rw [hrole]; exact Bool.false_ne_true)]
  cases st with
  | checker => exact hi.both (ha.under.both hb.under.wide)
  | elaborator => exact fun env => congrArg₂ (· ++ ·) (hi _) (congrArg₂ (· ++ ·) (ha _) (hb _))

theorem atomToks_concat (aps : List AtomPat) (v : VarId) :
    atomToks (aps ++ [.apVar v]) = atomToks aps ++ [v.tok] := by
  induction aps with
  | nil => rfl
  | cons p aps ih =>
      change p.toks ++ atomToks (aps ++ [.apVar v]) = _
      rw [ih, ← List.append_assoc]
      rfl

theorem handlerArm_reads_of {pos kindPos : Sexp.Pos} {kind : Nat} {n k : FldName}
    {pats : List GPat} {body : GExpr T} {a : HandlerArm}
    (h : handlerArm mapType (.hClause pos kind kindPos n pats k body) = .ok a)
    (hb : ∀ e, mapExpr mapType body = .ok e → Reads (e.tree st) (body.tree st)) :
    ArmReads st a (.hClause pos kind kindPos n pats k body) := by
  unfold handlerArm at h
  by_cases hplain : kind = clausePlain
  · subst hplain
    rw [if_pos rfl] at h
    split at h
    · rename_i hk
      rcases exceptBind_ok h with ⟨_, _, h⟩
      rcases exceptBind_ok h with ⟨aps, haps, h⟩
      rcases exceptBind_ok h with ⟨e, he, h⟩
      cases h
      refine ⟨fun as => rfl, ?_, reads_leaf⟩
      change Reads (.under (atomToks aps) (e.tree st)) (.under (gpatToks pats ++ k.toks) _)
      rw [patAtoms_toks haps, FldName.toks, if_pos hk, List.append_nil]
      exact (hb e he).under
    · cases h
  rw [if_neg hplain] at h
  by_cases hcontrol : kind = clauseControl
  · subst hcontrol
    rw [if_pos rfl] at h
    split at h
    · cases h
    · rename_i hk
      rcases exceptBind_ok h with ⟨_, _, h⟩
      rcases exceptBind_ok h with ⟨aps, haps, h⟩
      rcases exceptBind_ok h with ⟨e, he, h⟩
      cases h
      refine ⟨fun as => rfl, ?_, reads_leaf⟩
      change Reads (.under (atomToks (aps ++ [.apVar k.varId])) (e.tree st))
        (.under (gpatToks pats ++ k.toks) _)
      rw [atomToks_concat, patAtoms_toks haps, FldName.toks, if_neg hk]
      exact (hb e he).under
  rw [if_neg hcontrol] at h
  by_cases hreturn : kind = clauseReturn
  · subst hreturn
    rw [if_pos rfl] at h
    cases hn : n.absent with
    | false =>
        rw [hn] at h
        cases h
    | true =>
        cases hk : k.absent with
        | false =>
            rw [hn, hk] at h
            cases h
        | true =>
            rw [hn, hk] at h
            rcases pats with _ | ⟨p, _ | ⟨p', pats⟩⟩
            · cases h
            · cases p with
              | pVar v =>
                  rcases exceptBind_ok h with ⟨e, he, h⟩
                  cases h
                  refine ⟨fun as => rfl, ?_, reads_leaf⟩
                  change Reads (.under [v.tok] (e.tree st)) (.under ([v.tok] ++ k.toks) _)
                  rw [FldName.toks, if_pos hk, List.append_nil]
                  exact (hb e he).under
              | damage d => cases h
              | _ => cases h
            · cases h
  rw [if_neg hreturn] at h
  by_cases hvar : kind = clauseVar
  · subst hvar
    rw [if_pos rfl] at h
    cases pats with
    | cons p pats => cases h
    | nil =>
        cases hk : k.absent with
        | false =>
            rw [hk] at h
            cases h
        | true =>
            rw [hk] at h
            rcases exceptBind_ok h with ⟨_, _, h⟩
            rcases exceptBind_ok h with ⟨e, he, h⟩
            cases h
            exact ⟨fun as => rfl, reads_leaf, hb e he⟩
  rw [if_neg hvar] at h
  split at h
  · cases h
  · cases h

/-- The parts of an installed value, its head and its arguments, one after the other. -/
def SpineReads (st : Stage) (hd : Exp) (args : List WithArg) (s : ScopeTree Tok) : Prop :=
  ∀ env, (hd.tree st).refs Tok.text false env ++ (argsTree st args).refs Tok.text false env =
    s.refs Tok.text true env

theorem spineReads_nil {hd : Exp} {s : ScopeTree Tok} (h : Reads (hd.tree st) s) :
    SpineReads st (wrapExpArg hd) [] s := by
  intro env
  rw [wrapExpArg_tree]
  exact (List.append_nil _).trans (h env)

theorem mapSpine_self {n : GExpr T} {m : Mapped Exp} {hd : Exp} {args : List WithArg}
    (hn : ∀ f x, n ≠ .eApp f x) (hm : ∀ e, m = .ok e → Reads (e.tree st) (n.tree st))
    (h : mapSpine mapType n m = .ok (hd, args)) : SpineReads st hd args (n.tree st) := by
  have hrun : mapSpine mapType n m = m.bind fun hd => .ok (wrapExpArg hd, []) := by
    cases n with
    | eApp f x => exact absurd rfl (hn f x)
    | _ => rfl
  rw [hrun] at h
  rcases exceptBind_ok h with ⟨e, he, h⟩
  cases h
  exact spineReads_nil (hm e he)

/-- A handler literal with the body that it is installed around. -/
theorem literal_reads {pos : Sexp.Pos} {label : FldName} {eff : FldCon} {arms : List HandlerArm}
    {cls : List (GClause T)} {b e : Exp} {s : ScopeTree Tok} (ha : ArmsRead st arms cls)
    (hb : Reads (b.tree st) s)
    (h : installLiteral pos label eff arms b = .ok e) :
    Reads (e.tree st)
      (installTree st label (slots cls) (varInits st cls) (clausesTree st cls) s) := by
  have hplain : (label.absent || startsUpper label.text) = true →
      Reads ((Exp.eWithH eff.conId [] arms b).tree st)
        (installTree st label (slots cls) (varInits st cls) (clausesTree st cls) s) := by
    intro hslot
    unfold installTree
    rw [if_pos hslot, ← ha.params]
    exact ha.inits.both (ha.bodies.under.both hb)
  unfold installLiteral at h
  by_cases habs : label.absent = true
  · rw [if_pos habs] at h
    cases h
    exact hplain (by rw [habs, Bool.true_or])
  rw [if_neg habs] at h
  by_cases hup : startsUpper label.text = true
  · rw [if_pos hup] at h
    split at h
    · cases h
      exact hplain (by rw [hup, Bool.or_true])
    · cases h
  rw [if_neg hup] at h
  cases h
  rw [← ha.params]
  refine install_reads ?_ ha.inits ha.bodies hb
  rw [Bool.not_eq_true _ |>.mp habs, Bool.not_eq_true _ |>.mp hup, Bool.or_self]

/-- An installed value with the body that it is installed around. -/
theorem installed_reads (pos : Sexp.Pos) (label : FldName) {m : Mapped (Exp × List WithArg)}
    {mb : Mapped Exp} {e : Exp} {s s' : ScopeTree Tok}
    (hs : ∀ {hd args}, m = .ok (hd, args) → SpineReads st hd args s)
    (hb : ∀ {b}, mb = .ok b → Reads (b.tree st) s')
    (h : (m.bind fun (hd, args) => mb.bind fun b => installValue pos label hd args b) = .ok e) :
    Reads (e.tree st) (.both s (labelTree label s')) := by
  rcases exceptBind_ok h with ⟨⟨hd, args⟩, hm, h⟩
  rcases exceptBind_ok h with ⟨b, hmb, h⟩
  have hparts : ∀ {t t' : ScopeTree Tok}, Reads t t' →
      Reads (.both (hd.tree st) (.both (argsTree st args) t)) (.both s t') := by
    intro t t' ht env
    change _ ++ (_ ++ _) = _ ++ _
    rw [← List.append_assoc, hs hm env, ht env]
  unfold installValue at h
  by_cases habs : label.absent = true
  · rw [if_pos habs] at h
    cases h
    rw [labelTree, if_pos (by rw [habs, Bool.true_or])]
    exact hparts (hb hmb)
  rw [if_neg habs] at h
  by_cases hup : startsUpper label.text = true
  · rw [if_pos hup] at h
    cases h
  rw [if_neg hup] at h
  cases h
  rw [labelTree, if_neg (by simp [habs, hup])]
  exact hparts (hb hmb).under

/-- What a mapped run and the value after it are for the statements of a block. -/
structure BlockReads (st : Stage) (run : List LocalDecl) (e : Exp) (ss : List (GStmt T)) :
    Prop where
  toks : runToks run = stmtRun ss
  reads : Reads (localsTree st run (e.tree st)) (stmtsTree st ss)

theorem BlockReads.close {run : List LocalDecl} {e : Exp} {ss : List (GStmt T)}
    (h : BlockReads st run e ss) :
    Reads ((closeRun run e).tree st) (.under (stmtRun ss) (stmtsTree st ss)) := by
  intro env
  rw [closeRun_tree, h.toks]
  exact h.reads.under env

mutual

/-- A mapped expression refers to the binders of the parser's tree, read wide. -/
theorem mapExpr_reads : ∀ {n : GExpr T} {e : Exp}, mapExpr mapType n = .ok e →
    Reads (e.tree st) (n.tree st)
  | .eVar n, _, h => by
      cases h
      exact reads_ref n.tok
  | .eCon _, _, h => by
      cases h
      exact reads_leaf
  | .eInt _, _, h => by
      cases h
      exact reads_leaf
  | .eStr _, _, h => by
      rcases exceptBind_ok h with ⟨_, _, h⟩
      cases h
      exact reads_leaf
  | .eChar _, _, h => by
      rcases exceptBind_ok h with ⟨_, _, h⟩
      cases h
      exact reads_leaf
  | .eUnit, _, h => by
      cases h
      exact reads_leaf
  | .eOpRef op, _, h => by
      cases h
      exact reads_ref op.tok
  | .eApp f a, _, h => by
      rcases exceptBind_ok h with ⟨f', hf, h⟩
      rcases exceptBind_ok h with ⟨a', ha, h⟩
      cases h
      change Reads (.both ((wrapExpArg f').tree st) ((wrapExpArg a').tree st)) _
      rw [wrapExpArg_tree, wrapExpArg_tree]
      exact (mapExpr_reads hf).both (mapExpr_reads ha)
  | .eChain hd ops, _, h => by
      rcases exceptBind_ok h with ⟨hd', hhd, h⟩
      rcases exceptBind_ok h with ⟨tails, htails, h⟩
      cases h
      change Reads (.both ((wrapExpArg hd').tree st) (tailsTree st tails)) _
      rw [wrapExpArg_tree]
      exact (mapExpr_reads hhd).both (chainOps_reads htails)
  | .eDot recv n, _, h => by
      rcases exceptBind_ok h with ⟨r, hr, h⟩
      have ih : Reads ((wrapExpArg r).tree st) (recv.tree st) := by
        rw [wrapExpArg_tree]
        exact mapExpr_reads hr
      cases n with
      | upper c =>
          cases h
          exact ih
      | lower n =>
          cases h
          exact ih
  | .eNeg pos body, _, h => by
      cases body with
      | eInt i =>
          cases h
          exact reads_leaf
      | _ => cases h
  | .eList items, _, h => by
      rcases exceptBind_ok h with ⟨es, hes, h⟩
      cases h
      exact mapExprs_reads hes
  | .eTuple pos items, _, h => by
      rw [mapExpr] at h
      split at h
      · cases h
      rcases exceptBind_ok h with ⟨es, hes, h⟩
      have ih := mapExprs_reads hes
      cases es with
      | nil => cases h
      | cons e es =>
          cases h
          exact ih
  | .eLambda params body, _, h => by
      rcases exceptBind_ok h with ⟨aps, haps, h⟩
      rcases exceptBind_ok h with ⟨e, he, h⟩
      cases h
      change Reads (.under (atomToks aps) (e.tree st)) _
      rw [patAtoms_toks haps]
      exact (mapExpr_reads he).under
  | .eLetIn bind body, _, h => by
      rcases exceptBind_ok h with ⟨ld, hld, h⟩
      rcases exceptBind_ok h with ⟨e, he, h⟩
      cases h
      have hbind := bindLocalDecl_reads hld
      have ih := mapExpr_reads he
      cases hfun : isFunEqBind bind with
      | true =>
          rw [hfun] at hbind
          change Reads (.under (runToks [ld]) (ld.tree st [] (e.tree st))) _
          rw [hbind.toks, runToks, List.append_nil]
          exact (hbind.reads [] [] ih).under
      | false =>
          rw [hfun] at hbind
          intro env
          rw [GExpr.tree, hbind.none]
          exact hbind.reads [] (reads_under_nil ih) env
  | .eHandleIn pos label handler body, _, h => by
      have hspine : ∀ {hd args}, mapSpine mapType handler (mapExpr mapType handler) =
          .ok (hd, args) → SpineReads st hd args (handler.tree st) :=
        fun h => mapSpine_reads (fun e he => mapExpr_reads he) h
      have hbody : ∀ {b}, mapExpr mapType body = .ok b → Reads (b.tree st) (body.tree st) :=
        fun h => mapExpr_reads h
      cases handler with
      | eHandler eff clauses =>
          rcases exceptBind_ok h with ⟨arms, harms, h⟩
          rcases exceptBind_ok h with ⟨b, hb, h⟩
          exact literal_reads (handlerArms_reads harms) (hbody hb) h
      | damage d => cases h
      | _ => exact installed_reads pos label hspine hbody h
  | .eUseIn .., _, h => nomatch h
  | .eIf c t e, _, h => by
      rcases exceptBind_ok h with ⟨c', hc, h⟩
      rcases exceptBind_ok h with ⟨t', ht, h⟩
      rcases exceptBind_ok h with ⟨e', he, h⟩
      cases h
      exact (mapExpr_reads hc).both ((mapExpr_reads ht).both (mapExpr_reads he))
  | .eCase scrut alts, _, h => by
      rcases exceptBind_ok h with ⟨s, hs, h⟩
      rcases exceptBind_ok h with ⟨as, has, h⟩
      cases h
      exact (mapExpr_reads hs).both (mapAlts_reads has)
  | .eHandler eff clauses, _, h => by
      rcases exceptBind_ok h with ⟨arms, harms, h⟩
      cases h
      have ih := handlerArms_reads harms
      change Reads (.both (initsTree st arms) (.under (paramToks arms) (armsTree st arms))) _
      rw [ih.params]
      exact ih.inits.both ih.bodies.under
  | .eAssign .., _, h => nomatch h
  | .eRecord pos path spread fields, _, h => by
      cases path with
      | eCon c =>
          rcases exceptBind_ok h with ⟨fs, hfs, h⟩
          have ih := recFields_reads hfs
          intro env
          exact (mapSpread_reads ih h env).trans rfl
      | eDot recv n =>
          cases n with
          | upper c => cases h
          | lower n => cases h
      | _ => cases h
  | .eBlock pos stmts, _, h => by
      rcases exceptBind_ok h with ⟨final, hfinal, h⟩
      rcases exceptBind_ok h with ⟨⟨run, e⟩, hrun, h⟩
      cases h
      exact (buildBlock_reads hfinal hrun).close
  | .damage _, _, h => nomatch h

theorem mapSpine_reads : ∀ {n : GExpr T} {m : Mapped Exp} {hd : Exp} {args : List WithArg},
    (∀ e, m = .ok e → Reads (e.tree st) (n.tree st)) → mapSpine mapType n m = .ok (hd, args) →
      SpineReads st hd args (n.tree st)
  | .eApp f x, _, _, _, _, h => by
      rcases exceptBind_ok h with ⟨⟨hd, args⟩, hspine, h⟩
      rcases exceptBind_ok h with ⟨x', hx, h⟩
      cases h
      intro env
      have ihf := mapSpine_reads (fun e he => mapExpr_reads he) hspine env
      rw [argsTree_concat, wrapExpArg_tree, ← List.append_assoc, ihf]
      exact congrArg (_ ++ ·) (mapExpr_reads hx env)
  | .eVar _, _, _, _, hm, h => mapSpine_self (fun _ _ => nofun) hm h
  | .eCon _, _, _, _, hm, h => mapSpine_self (fun _ _ => nofun) hm h
  | .eInt _, _, _, _, hm, h => mapSpine_self (fun _ _ => nofun) hm h
  | .eStr _, _, _, _, hm, h => mapSpine_self (fun _ _ => nofun) hm h
  | .eChar _, _, _, _, hm, h => mapSpine_self (fun _ _ => nofun) hm h
  | .eUnit, _, _, _, hm, h => mapSpine_self (fun _ _ => nofun) hm h
  | .eOpRef _, _, _, _, hm, h => mapSpine_self (fun _ _ => nofun) hm h
  | .eChain .., _, _, _, hm, h => mapSpine_self (fun _ _ => nofun) hm h
  | .eDot .., _, _, _, hm, h => mapSpine_self (fun _ _ => nofun) hm h
  | .eNeg .., _, _, _, hm, h => mapSpine_self (fun _ _ => nofun) hm h
  | .eList _, _, _, _, hm, h => mapSpine_self (fun _ _ => nofun) hm h
  | .eTuple .., _, _, _, hm, h => mapSpine_self (fun _ _ => nofun) hm h
  | .eLambda .., _, _, _, hm, h => mapSpine_self (fun _ _ => nofun) hm h
  | .eLetIn .., _, _, _, hm, h => mapSpine_self (fun _ _ => nofun) hm h
  | .eHandleIn .., _, _, _, hm, h => mapSpine_self (fun _ _ => nofun) hm h
  | .eUseIn .., _, _, _, hm, h => mapSpine_self (fun _ _ => nofun) hm h
  | .eIf .., _, _, _, hm, h => mapSpine_self (fun _ _ => nofun) hm h
  | .eCase .., _, _, _, hm, h => mapSpine_self (fun _ _ => nofun) hm h
  | .eHandler .., _, _, _, hm, h => mapSpine_self (fun _ _ => nofun) hm h
  | .eAssign .., _, _, _, hm, h => mapSpine_self (fun _ _ => nofun) hm h
  | .eRecord .., _, _, _, hm, h => mapSpine_self (fun _ _ => nofun) hm h
  | .eBlock .., _, _, _, hm, h => mapSpine_self (fun _ _ => nofun) hm h
  | .damage _, _, _, _, hm, h => mapSpine_self (fun _ _ => nofun) hm h

theorem mapExprs_reads : ∀ {ns : List (GExpr T)} {es : List Exp}, mapExprs mapType ns = .ok es →
    Reads (expsTree st es) (exprsTree st ns)
  | [], _, h => by
      cases h
      exact reads_leaf
  | n :: ns, _, h => by
      rcases exceptBind_ok h with ⟨e, he, h⟩
      rcases exceptBind_ok h with ⟨es, hes, h⟩
      cases h
      exact (mapExpr_reads he).both (mapExprs_reads hes)

theorem chainOps_reads : ∀ {ops : List (GChainOp T)} {ts : List InfixTail},
    chainOps mapType ops = .ok ts → Reads (tailsTree st ts) (opsTree st ops)
  | [], _, h => by
      cases h
      exact reads_leaf
  | op :: ops, _, h => by
      rcases exceptBind_ok h with ⟨t, ht, h⟩
      rcases exceptBind_ok h with ⟨ts, hts, h⟩
      cases h
      exact (chainOp_reads ht).both (chainOps_reads hts)

theorem chainOp_reads : ∀ {op : GChainOp T} {t : InfixTail}, chainOp mapType op = .ok t →
    Reads (t.tree st) (op.tree st)
  | .hChainOp op backtick rhs, _, h => by
      rcases exceptBind_ok h with ⟨r, hr, h⟩
      cases h
      have hrhs : Reads ((wrapExpArg r).tree st) (rhs.tree st) := by
        rw [wrapExpArg_tree]
        exact mapExpr_reads hr
      cases backtick with
      | false => exact (reads_ref op.tok).both hrhs
      | true => exact (reads_ref op.tok).both hrhs
  | .damage _, _, h => nomatch h

theorem mapSpread_reads {c : ConId} {fs : List RecordFieldExpr} {s : ScopeTree Tok}
    (hfs : Reads (fieldsTree st fs) s) : ∀ {sp : GSpread T} {e : Exp},
      mapSpread mapType c fs sp = .ok e → Reads (e.tree st) (.both (sp.tree st) s)
  | .none, _, h => by
      cases h
      exact hfs
  | .some sp, _, h => by
      rcases exceptBind_ok h with ⟨e, he, h⟩
      have ih := mapExpr_reads he
      cases fs with
      | nil =>
          cases h
          exact ih.both hfs
      | cons f fs =>
          cases h
          exact ih.both hfs

theorem recFields_reads : ∀ {ns : List (GField T)} {fs : List RecordFieldExpr},
    recFields mapType ns = .ok fs → Reads (fieldsTree st fs) (gfieldsTree st ns)
  | [], _, h => by
      cases h
      exact reads_leaf
  | n :: ns, _, h => by
      rcases exceptBind_ok h with ⟨f, hf, h⟩
      rcases exceptBind_ok h with ⟨fs, hfs, h⟩
      cases h
      exact (recField_reads hf).both (recFields_reads hfs)

theorem recField_reads : ∀ {n : GField T} {f : RecordFieldExpr}, recField mapType n = .ok f →
    Reads (f.tree st) (n.tree st)
  | .hField n value, _, h => by
      rcases exceptBind_ok h with ⟨e, he, h⟩
      cases h
      exact mapExpr_reads he
  | .damage _, _, h => nomatch h

theorem mapAlts_reads : ∀ {ns : List (GAlt T)} {as : List Alt}, mapAlts mapType ns = .ok as →
    Reads (altsTree st as) (galtsTree st ns)
  | [], _, h => by
      cases h
      exact reads_leaf
  | n :: ns, _, h => by
      rcases exceptBind_ok h with ⟨a, ha, h⟩
      rcases exceptBind_ok h with ⟨as, has, h⟩
      cases h
      exact (mapAlt_reads ha).both (mapAlts_reads has)

theorem mapAlt_reads : ∀ {n : GAlt T} {a : Alt}, mapAlt mapType n = .ok a →
    Reads (a.tree st) (n.tree st)
  | .hAlt pat body wheres, _, h => by
      rcases exceptBind_ok h with ⟨p, hp, h⟩
      rcases exceptBind_ok h with ⟨e, he, h⟩
      rcases exceptBind_ok h with ⟨ds, hds, h⟩
      cases h
      rcases localDecls_reads hds (mapExpr_reads he) with ⟨hrun, hreads⟩
      intro env
      change ((whereOf ds).tree st (e.tree st)).refs Tok.text false (push p.toks env) = _
      rw [whereOf_tree, hrun, mapPat_toks hp]
      exact hreads.under _
  | .damage _, _, h => nomatch h

theorem handlerArms_reads : ∀ {cls : List (GClause T)} {arms : List HandlerArm},
    handlerArms mapType cls = .ok arms → ArmsRead st arms cls
  | [], _, h => by
      cases h
      exact ⟨rfl, reads_leaf, reads_leaf⟩
  | cl :: cls, _, h => by
      rcases exceptBind_ok h with ⟨a, ha, h⟩
      rcases exceptBind_ok h with ⟨as, has, h⟩
      cases h
      exact ArmsRead.cons (handlerArm_reads ha) (handlerArms_reads has)

theorem handlerArm_reads : ∀ {cl : GClause T} {a : HandlerArm}, handlerArm mapType cl = .ok a →
    ArmReads st a cl
  | .hClause _ _ _ _ _ _ _, _, h => handlerArm_reads_of h fun _ he => mapExpr_reads he
  | .damage _, _, h => nomatch h

theorem bindLocalDecl_reads : ∀ {b : GBind T} {ld : LocalDecl},
    bindLocalDecl mapType b = .ok ld →
      BindReads st (isFunEqBind b) ld b.heads (b.tree st)
  | .hBind pos lhs rhs, _, h => by
      rcases exceptBind_ok h with ⟨e, he, h⟩
      exact bindLocalDeclOf_reads h (mapExpr_reads he)
  | .damage _, _, h => nomatch h

theorem stmtDecl_reads : ∀ {s : GStmt T} {isFun : Bool} {ld : LocalDecl},
    stmtDecl mapType s = .ok (isFun, ld) → BindReads st isFun ld s.heads (s.tree st)
  | .sLet pos bind, _, _, h => by
      rcases exceptBind_ok h with ⟨ld, hld, h⟩
      cases h
      exact bindLocalDecl_reads hld
  | .expr pos e, _, _, h => by
      cases e <;> cases h
  | .sHandle .., _, _, h => nomatch h
  | .sUse .., _, _, h => nomatch h
  | .sDiscard .., _, _, h => nomatch h

theorem mapLast_reads : ∀ {s : GStmt T} {e : Exp}, mapLast mapType s = .ok e →
    s.heads = [] ∧ Reads (e.tree st) (s.tree st [] .leaf)
  | .expr .., _, h => ⟨rfl, fun env => (mapExpr_reads h env).trans (List.append_nil _).symm⟩
  | .sLet .., _, h => nomatch h
  | .sHandle .., _, h => nomatch h
  | .sUse .., _, h => nomatch h
  | .sDiscard .., _, h => nomatch h

theorem buildBlock_reads {pos : Sexp.Pos} : ∀ {ss : List (GStmt T)} {final e : Exp}
    {run : List LocalDecl}, mapFinal mapType pos ss = .ok final →
      buildBlock mapType ss final = .ok (run, e) → BlockReads st run e ss
  | [], _, _, _, h, _ => nomatch h
  | s :: ss, final, _, _, hfinal, h => by
      rw [mapFinal] at hfinal
      rw [buildBlock] at h
      by_cases hss : ss.isEmpty = true
      · rw [if_pos hss] at hfinal h
        cases h
        rcases mapLast_reads hfinal with ⟨hheads, hreads⟩
        cases List.isEmpty_iff.mp hss
        refine ⟨?_, hreads⟩
        rw [stmtRun, hheads]
        rfl
      · rw [if_neg hss] at hfinal h
        rcases exceptBind_ok h with ⟨⟨isFun, ld⟩, hld, h⟩
        rcases exceptBind_ok h with ⟨⟨run, e⟩, hrest, h⟩
        have ih := buildBlock_reads hfinal hrest
        have hbind := stmtDecl_reads hld
        cases isFun with
        | true =>
            cases h
            refine ⟨?_, hbind.reads _ _ ih.reads⟩
            rw [hbind.toks, stmtRun, if_neg (by simpa using hbind.some), ih.toks]
        | false =>
            cases h
            refine ⟨?_, hbind.reads _ ih.close⟩
            rw [stmtRun, hbind.none]
            rfl

theorem localDecls_reads : ∀ {ns : List (GDecl T)} {ds : List LocalDecl} {t s : ScopeTree Tok},
    localDecls mapType ns = .ok ds → Reads t s →
      runToks ds = declHeads ns ∧ Reads (localsTree st ds t) (declsTree st ns s)
  | [], _, _, _, h, ht => by
      cases h
      exact ⟨rfl, ht⟩
  | n :: ns, _, _, _, h, ht => by
      rcases exceptBind_ok h with ⟨d, hd, h⟩
      rcases exceptBind_ok h with ⟨ds, hds, h⟩
      cases h
      rcases localDecls_reads hds ht with ⟨hrun, hreads⟩
      rcases localDecl_reads hd with ⟨hhead, hdecl⟩
      exact ⟨(hhead ds).trans (congrArg (n.heads ++ ·) hrun), hdecl _ hreads⟩

theorem localDecl_reads : ∀ {n : GDecl T} {d : LocalDecl}, localDecl mapType n = .ok d →
    (∀ ds, runToks (d :: ds) = n.heads ++ runToks ds) ∧
      ∀ {t s : ScopeTree Tok} (next : List Tok), Reads t s → Reads (d.tree st next t) (n.tree st s)
  | .dEquation pos lhs body wheres, _, h => by
      rcases exceptBind_ok h with ⟨l, hl, h⟩
      rcases exceptBind_ok h with ⟨e, he, h⟩
      rcases exceptBind_ok h with ⟨ds, hds, h⟩
      cases h
      rcases mapFunLHS_toks hl with ⟨hhead, hparams⟩
      rcases localDecls_reads hds (mapExpr_reads he) with ⟨hrun, hreads⟩
      refine ⟨fun ds' => ?_, fun {t s} next ht => ?_⟩
      · change _ = lhs.heads ++ _
        rw [hhead]
        rfl
      · have hbody : Reads ((whereOf ds).tree st (e.tree st))
            (.under (declHeads wheres) (declsTree st wheres (body.tree st))) := by
          intro env
          rw [whereOf_tree, hrun]
          exact hreads.under _
        change Reads (.both (.under (atomToks (lhsAtomPats l)) _) t) _
        rw [hparams]
        exact hbody.under.both ht
  | .dSig pos names ty isExtern, _, h => by
      rw [localDecl] at h
      split at h
      · cases h
      rcases exceptBind_ok h with ⟨⟨s0, rest, ty'⟩, _, h⟩
      cases h
      exact ⟨fun _ => rfl, fun _ ht => ht⟩
  | .dOther .., _, h => nomatch h
  | .damage _, _, h => nomatch h

end

/-! ### Declarations -/

theorem whereBlock_reads {ns : List (GDecl T)} {wh : MaybeWhere} {t s : ScopeTree Tok}
    (h : whereBlock mapType ns = .ok wh) (ht : Reads t s) :
    Reads (wh.tree st t) (.under (declHeads ns) (declsTree st ns s)) := by
  rcases exceptBind_ok h with ⟨ds, hds, h⟩
  cases h
  rcases localDecls_reads hds ht with ⟨hrun, hreads⟩
  intro env
  rw [whereOf_tree, hrun]
  exact hreads.under env

/-- The entries of a class, around what follows. -/
def entriesTree (st : Stage) (es : List (ClassEntry AtomPat Exp)) (rest : ScopeTree Tok) :
    ScopeTree Tok :=
  es.foldr (fun e t => .both (e.tree st) t) rest

theorem methodSigs_reads {ty : Ty} {t s : ScopeTree Tok} (ht : Reads t s) :
    ∀ {ns : List SigNameNode} {es : List (ClassEntry AtomPat Exp)},
      ns.mapM (methodSig ty) = .ok es → Reads (entriesTree st es t) s
  | [], _, h => by
      cases h
      exact ht
  | n :: ns, _, h => by
      rw [List.mapM_cons] at h
      rcases exceptBind_ok h with ⟨e, he, h⟩
      rcases exceptBind_ok h with ⟨es, hes, h⟩
      cases h
      cases n with
      | hSigName n paren =>
          cases he
          have ih : Reads (entriesTree st es t) s := methodSigs_reads ht hes
          exact ih
      | damage d => cases he

theorem classEntry_reads {d : GDecl T} {es : List (ClassEntry AtomPat Exp)} {t s : ScopeTree Tok}
    (h : classEntry mapType d = .ok es) (ht : Reads t s) :
    Reads (entriesTree st es t) (d.tree st s) := by
  cases d with
  | dSig pos names ty isExtern =>
      rw [classEntry] at h
      split at h
      · cases h
      rcases exceptBind_ok h with ⟨ty', _, h⟩
      exact methodSigs_reads ht h
  | dEquation pos lhs body wheres =>
      cases wheres with
      | cons w ws => cases h
      | nil =>
          rcases exceptBind_ok h with ⟨l, hl, h⟩
          rcases exceptBind_ok h with ⟨e, he, h⟩
          cases h
          change Reads (.both (.under (atomToks (lhsAtomPats l)) (e.tree st)) t) _
          rw [(mapFunLHS_toks hl).2]
          exact (mapExpr_reads he).under.both ht
  | dOther tag pos => cases h
  | damage d => cases h

theorem classEntries_reads : ∀ {ds : List (GDecl T)} {ess : List (List (ClassEntry AtomPat Exp))},
    ds.mapM (classEntry mapType) = .ok ess →
      Reads (entriesTree st ess.flatten .leaf) (declsTree st ds .leaf)
  | [], _, h => by
      cases h
      exact reads_leaf
  | d :: ds, _, h => by
      rw [List.mapM_cons] at h
      rcases exceptBind_ok h with ⟨es, hes, h⟩
      rcases exceptBind_ok h with ⟨ess, hess, h⟩
      cases h
      rw [List.flatten_cons, entriesTree, List.foldr_append]
      exact classEntry_reads hes (classEntries_reads hess)

theorem instEntries_reads : ∀ {ds : List (GDecl T)} {es : List (InstEntry AtomPat Exp)},
    ds.mapM (instEntry mapType) = .ok es →
      Reads (es.foldr (fun e t => .both (e.tree st) t) .leaf) (declsTree st ds .leaf)
  | [], _, h => by
      cases h
      exact reads_leaf
  | d :: ds, _, h => by
      rw [List.mapM_cons] at h
      rcases exceptBind_ok h with ⟨e, he, h⟩
      rcases exceptBind_ok h with ⟨es, hes, h⟩
      cases h
      have ih : Reads _ (declsTree st ds .leaf) := instEntries_reads hes
      cases d with
      | dEquation pos lhs body wheres =>
          cases wheres with
          | cons w ws => cases he
          | nil =>
              rcases exceptBind_ok he with ⟨l, hl, he⟩
              rcases exceptBind_ok he with ⟨b, hb, he⟩
              cases he
              change Reads (.both (.under (atomToks (lhsAtomPats l)) (b.tree st)) _) _
              rw [(mapFunLHS_toks hl).2]
              exact (mapExpr_reads hb).under.both ih
      | dSig pos names ty isExtern => cases he
      | dOther tag pos => cases he
      | damage d => cases he

variable {H O O' : Type} {mapHead : H → Mapped InstHead} {mapOther : O → Mapped O'}

theorem mapDecl_reads {d : GTop T H O} {d' : ModDecl O'}
    (h : mapDecl mapType mapHead mapOther d = .ok d') : Reads (d'.tree st) (d.tree st) := by
  cases d with
  | dEquation lhs body wheres =>
      rcases exceptBind_ok h with ⟨l, hl, h⟩
      rcases exceptBind_ok h with ⟨e, he, h⟩
      rcases exceptBind_ok h with ⟨wh, hwh, h⟩
      cases h
      change Reads (.under (atomToks (lhsAtomPats l)) (wh.tree st (e.tree st))) _
      rw [(mapFunLHS_toks hl).2]
      exact (whereBlock_reads hwh (mapExpr_reads he)).under
  | dClass n params body =>
      rcases exceptBind_ok h with ⟨vs, _, h⟩
      rcases exceptBind_ok h with ⟨ess, hess, h⟩
      cases h
      exact classEntries_reads hess
  | dInstance head body =>
      rcases exceptBind_ok h with ⟨hd, _, h⟩
      rcases exceptBind_ok h with ⟨es, hes, h⟩
      cases h
      exact instEntries_reads hes
  | other o =>
      rcases exceptBind_ok h with ⟨o', _, h⟩
      cases h
      exact reads_leaf

theorem surfaceModule_reads : ∀ {ds : List (GTop T H O)} {m : List (ModDecl O')},
    surfaceModule mapType mapHead mapOther ds = .ok m →
      Reads (moduleTree st m) (fileTree st ds)
  | [], _, h => by
      cases h
      exact reads_leaf
  | d :: ds, _, h => by
      rw [surfaceModule, List.mapM_cons] at h
      rcases exceptBind_ok h with ⟨d', hd, h⟩
      rcases exceptBind_ok h with ⟨m, hm, h⟩
      cases h
      exact (mapDecl_reads hd).both (surfaceModule_reads hm)

/-- Under the scoping of either stage, every occurrence of a mapped module refers to the binder
of the source exactly when nothing free in the right-hand side of a value binding has the name
that is bound, and no install of a literal under a name captures one. -/
theorem surfaceModule_refers_iff {ds : List (GTop T H O)} {m : List (ModDecl O')}
    (h : surfaceModule mapType mapHead mapOther ds = .ok m) (hd : (fileTree st ds).Distinct) :
    (moduleTree st m).refs Tok.text false [] = (fileTree st ds).refs Tok.text false [] ↔
      (fileTree st ds).Clear Tok.text := by
  rw [surfaceModule_reads h []]
  exact refs_wide_iff hd fun b hb => absurd hb List.not_mem_nil

section Examples

/-- `f x = { let y = v; y }`, a function whose body binds one value. -/
def rebinding (y v : String) : List (GTop Unit Empty Empty) :=
  [.dEquation (.lPrefix ⟨"f", ⟨1, 10⟩⟩ false [.pVar ⟨"x", ⟨1, 20⟩⟩])
    (.eBlock ⟨1, 30⟩ [.sLet ⟨1, 40⟩ (.hBind ⟨1, 50⟩ (.pat (.pVar ⟨y, ⟨1, 60⟩⟩))
      (.eVar ⟨v, ⟨1, 70⟩⟩)), .expr ⟨1, 80⟩ (.eVar ⟨y, ⟨1, 90⟩⟩)]) []]

def rebindingMapped (y v : String) : List (ModDecl Empty) :=
  [.dEqn (.lhsPre (.fnBare ⟨(1, 10), "f"⟩) [.apVar ⟨(1, 20), "x"⟩])
    (.eLet [.ldEqn (.lhsPre (.fnBare ⟨(1, 60), y⟩) []) (.eVar ⟨(1, 70), v⟩) .noWhere]
      (.eVar ⟨(1, 90), y⟩)) .noWhere]

def noTypes : Unit → Mapped Ty := fun _ => mal ⟨1, 1⟩ ""
def noHeads : Empty → Mapped InstHead := Empty.elim
def noOthers : Empty → Mapped Empty := Empty.elim

theorem rebinding_mapped (y v : String) :
    surfaceModule noTypes noHeads noOthers (rebinding y v) = .ok (rebindingMapped y v) := by
  rfl

theorem refers_of_fresh_value :
    (moduleTree .checker (rebindingMapped "y" "x")).refs Tok.text false [] =
        (fileTree .checker (rebinding "y" "x")).refs Tok.text false [] ↔
      (fileTree .checker (rebinding "y" "x")).Clear Tok.text :=
  surfaceModule_refers_iff (rebinding_mapped "y" "x") (by decide)

/-- `f x = { let x = x; x }`: the second `x` is the parameter, and becomes the `let`'s own. -/
theorem value_captures : ¬ ∀ (ds : List (GTop Unit Empty Empty)) (m : List (ModDecl Empty)),
    surfaceModule noTypes noHeads noOthers ds = .ok m → ∀ st,
      (moduleTree st m).refs Tok.text false [] = (fileTree st ds).refs Tok.text false [] := by
  intro h
  have heq := h (rebinding "x" "x") (rebindingMapped "x" "x") (rebinding_mapped "x" "x") .checker
  revert heq
  decide

end Examples

end Wok.Sexp.Surface
