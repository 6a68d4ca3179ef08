/-
Module: Wok.IR.Elaborate
Purpose: Lowering of source `case` expressions to Core: the flat route, the
  decision-tree route and the test that chooses between them.
Imports: Wok.IR.Match, Wok.TypeChecking.Env, Wok.TypeChecking.Typed
Trusted boundary: none
Main exports: ElabCtx, Elab, TailK, resolveVar, elabPat, buildOracle, toMPat,
  clauseVars, caseNeedsMatch, Alternative, elabCase
-/
import Wok.IR.Match
import Wok.TypeChecking.Env
import Wok.TypeChecking.Typed

namespace Wok.IR

open Wok.TypeChecking (CType TPat TypeEnv)

/-- The elaboration context: the type environment, the local binders in scope,
the top-level names and the primitives among them. -/
structure ElabCtx where
  env : TypeEnv
  scope : List (String × Name)
  globals : List (String × Name)
  prims : List (Unique × (String × String))

abbrev Elab := ReaderT ElabCtx Fresh

def bindFresh (t : String) : Elab Name := liftM (freshName t)

def ElabCtx.insertLocal (t : String) (n : Name) (ctx : ElabCtx) : ElabCtx :=
  { ctx with scope := (t, n) :: ctx.scope }

/-- Extend the local scope with one binding for the duration of the action. -/
def withLocal {α : Type} (t : String) (n : Name) (action : Elab α) : Elab α :=
  fun ctx => action (ctx.insertLocal t n)

/-- The bindings in order, so that the last of two equal names wins. -/
def withLocals {α : Type} (bindings : List (String × Name)) (action : Elab α) : Elab α :=
  bindings.foldr (fun tn acc => withLocal tn.1 tn.2 acc) action

/-- Local scope first, then the top level, where an extern becomes a primitive,
and last a fresh name. -/
def resolveVar (t : String) : Elab Atom := do
  let ctx ← read
  match ctx.scope.lookup t with
  | some n => return .var n
  | none =>
      match ctx.globals.lookup t with
      | some n =>
          match ctx.prims.lookup n.uniq with
          | some (modName, name) => return .prim modName name
          | none => return .var n
      | none => return .var (← bindFresh t)

/-- Where the branches of control flow deliver their result. -/
inductive TailK where
  | ret
  | jump (j : JoinId)

def deliverAtom : TailK → Atom → Expr
  | .ret, a => .ret a
  | .jump j, a => .jump j [a]

/-! ### The flat route -/

/-- The name of a record constructor is looked up before that of a positional
one. -/
def isRecordConName (env : TypeEnv) (c : String) : Bool := (env.lookupRecordCon c).isSome

def nonEmptyListError : String :=
  "pattern not yet supported: non-empty list literal pattern (use h :: t)"

/-- Binders for fields and a wrapper that puts tests around the body. -/
abbrev SubPats := List Binder × (Elab Expr → Elab Expr)

/-- The wrapper that tests a variable against a single alternative. -/
def wrapNested (n : Name) (elabP : Atom → Elab Expr → Elab Alt) (inner : Elab Expr) :
    Elab Expr := do
  let alt ← elabP (.var n) inner
  return .case_ (.var n) [alt]

/-- One round of `buildSubPats`: the binder of sub-pattern `p` before those of the
later ones, and its test around theirs. -/
def buildSubPat (p : TPat) (elabP : Atom → Elab Expr → Elab Alt) (rest : SubPats) :
    Elab SubPats :=
  let (bs, wraps) := rest
  match p with
  | .var fty tv => do
      let n ← bindFresh tv
      return (⟨n, fty⟩ :: bs, fun inner => withLocal tv n (wraps inner))
  | .wild fty => do
      let n ← bindFresh "_"
      return (⟨n, fty⟩ :: bs, wraps)
  | .unit fty => do
      let n ← bindFresh "_"
      return (⟨n, fty⟩ :: bs, wraps)
  | _ => do
      let n ← bindFresh "t"
      return (⟨n, p.type⟩ :: bs, fun inner => wrapNested n elabP (wraps inner))

/-- The binder and the wrapper of the tail of a cons pattern. -/
def buildSubPatFromPat (p : TPat) (elabP : Atom → Elab Expr → Elab Alt) : Elab SubPats :=
  match p with
  | .wild fty => do
      let n ← bindFresh "_"
      return ([⟨n, fty⟩], id)
  | .var fty tv => do
      let n ← bindFresh tv
      return ([⟨n, fty⟩], withLocal tv n)
  | _ => do
      let n ← bindFresh "t"
      return ([⟨n, p.type⟩], wrapNested n elabP)

/-- Bind field `l` of a record scrutinee to a sub-pattern around `innerCont`; a
wildcard is not projected. -/
def buildRecordFieldBinding (scrut : Atom) (l : String) (subPat : TPat)
    (elabP : Atom → Elab Expr → Elab Alt) (innerCont : Elab Expr) : Elab Expr :=
  match subPat with
  | .wild _ => innerCont
  | .var fty tv => do
      let n ← bindFresh l
      let body ← withLocal tv n innerCont
      return .let_ ⟨n, fty⟩ (.proj l scrut) body
  | _ => do
      let n ← bindFresh l
      let body ← wrapNested n elabP innerCont
      return .let_ ⟨n, subPat.type⟩ (.proj l scrut) body

mutual

/-- Compile a pattern to one alternative for the scrutinee. -/
def elabPat (scrut : Atom) : TPat → Elab Expr → Elab Alt
  | .wild _, body => return .default (← body)
  | .unit _, body => return .default (← body)
  | .var ty v, body => do
      let n ← bindFresh v
      let bodyExpr ← withLocal v n body
      return .default (.let_ ⟨n, ty⟩ (.atom scrut) bodyExpr)
  | .litI _ i, body => return .lit (.int i) (← body)
  | .litS _ s, body => return .lit (.str s) (← body)
  | .litC _ c, body => return .lit (.char c) (← body)
  | .tuple _ subPats, body => do
      let (binders, wrapBody) ← buildSubPats subPats
      return .con (tupleTag subPats.length) binders (← wrapBody body)
  | .list _ [], body => return .con "Nil" [] (← body)
  -- an exact length would need a test that can fall back to later alternatives
  | .list _ (_ :: _), _ => throw nonEmptyListError
  | .cons _ headP tailP, body => do
      let (headBinders, headWrap) ←
        buildSubPat headP (fun a => elabPat a headP) ([], id)
      let (tailBinders, tailWrap) ← buildSubPatFromPat tailP (fun a => elabPat a tailP)
      return .con "Cons" (headBinders ++ tailBinders) (← headWrap (tailWrap body))
  | .con _ conName subPats, body => do
      match (← read).env.lookupRecordCon conName with
      | some rci =>
          let labels := rci.fields.map (·.1)
          return .con conName [] (← buildRecordFieldBindings scrut labels subPats body)
      | none => do
          let (binders, wrapBody) ← buildSubPats subPats
          return .con conName binders (← wrapBody body)
  | .as ty name inner, body => do
      let n ← bindFresh name
      elabPat scrut inner do
        let b ← withLocal name n body
        return .let_ ⟨n, ty⟩ (.atom scrut) b

/-- Bind the fields of a record scrutinee, each label with its sub-pattern. -/
def buildRecordFieldBindings (scrut : Atom) :
    List String → List TPat → Elab Expr → Elab Expr
  | l :: labels, p :: ps, cont =>
      buildRecordFieldBinding scrut l p (fun a => elabPat a p)
        (buildRecordFieldBindings scrut labels ps cont)
  | _, _, cont => cont

/-- Field binders and the body wrapper for sub-patterns; binders are minted from
the last field to the first. -/
def buildSubPats : List TPat → Elab SubPats
  | [] => return ([], id)
  | p :: ps => do
      let rest ← buildSubPats ps
      buildSubPat p (fun a => elabPat a p) rest

end

/-! ### The decision-tree route -/

/-- The arity in a tag `TupleN`, as `buildOracle` reads it. -/
def buildOracle.tupleArity (t : String) : Option Nat :=
  let digits := t.toList.drop 5
  if t.toList.take 5 = "Tuple".toList ∧ digits ≠ [] ∧ digits.all Char.isDigit then
    some (digits.foldl (fun n c => 10 * n + (c.toNat - '0'.toNat)) 0)
  else none

/-- Constructors of the environment are consulted first; the built-in tags of
tuples and lists answer only for names that are none of them. -/
def buildOracle (env : TypeEnv) : ConOracle where
  coArity c :=
    match env.lookupCon c with
    | some ci => ci.arity
    | none =>
        match buildOracle.tupleArity c with
        | some n => n
        | none => if c = "Nil" then 0 else if c = "Cons" then 2 else 0
  coSiblings c :=
    match env.lookupCon c with
    | some ci => (env.lookupTyCon ci.tyCon).map (·.cons)
    | none =>
        match buildOracle.tupleArity c with
        | some n => some [tupleTag n]
        | none => if c ∈ ["Nil", "Cons"] then some ["Nil", "Cons"] else none

def recordHeadError (c : String) : String :=
  "match: record-constructor pattern not supported in a multi-clause / refutable head: " ++ c

mutual

/-- Translate a pattern for the match compiler, which can project no record. -/
def toMPat (env : TypeEnv) : TPat → Except String MPat
  | .var ty v => return .var ty (some v)
  | .wild ty => return .var ty none
  | .unit ty => return .var ty none
  | .litI ty i => return .lit ty (.int i)
  | .litS ty s => return .lit ty (.str s)
  | .litC ty c => return .lit ty (.char c)
  | .tuple ty ps => return .con ty (tupleTag ps.length) (← toMPats env ps)
  | .list ty [] => return .con ty "Nil" []
  | .list _ (_ :: _) => throw "match: non-empty list literal pattern (use h :: t)"
  | .cons ty h t => return .con ty "Cons" [← toMPat env h, ← toMPat env t]
  | .con ty c ps =>
      match env.lookupRecordCon c with
      | some _ => throw (recordHeadError c)
      | none => return .con ty c (← toMPats env ps)
  | .as ty name inner => return .as ty name (← toMPat env inner)

def toMPats (env : TypeEnv) : List TPat → Except String (List MPat)
  | [] => return []
  | p :: ps => return (← toMPat env p) :: (← toMPats env ps)

end

mutual

/-- The variables a pattern binds, in left-to-right order: the parameters of its
clause's join. -/
def patVars : TPat → List (String × CType)
  | .var ty v => [(v, ty)]
  | .tuple _ ps => clauseVars ps
  | .list _ ps => clauseVars ps
  | .cons _ h t => patVars h ++ patVars t
  | .con _ _ ps => clauseVars ps
  | .as ty name inner => (name, ty) :: patVars inner
  | _ => []

def clauseVars : List TPat → List (String × CType)
  | [] => []
  | p :: ps => patVars p ++ clauseVars ps

end

/-! ### The choice of the route -/

mutual

/-- A pattern that can fail to match some value of its type. -/
def isRefutable : TPat → Bool
  | .var .. => false
  | .wild _ => false
  | .unit _ => false
  | .tuple _ ps => anyRefutable ps
  | .as _ _ inner => isRefutable inner
  | _ => true

def anyRefutable : List TPat → Bool
  | [] => false
  | p :: ps => isRefutable p || anyRefutable ps

end

/-- A head that the flat route commits to before a sub-pattern can still fail. -/
def headHasRefutableSub : TPat → Bool
  | .con _ _ ps => anyRefutable ps
  | .cons _ h t => isRefutable h || isRefutable t
  | .tuple _ ps => anyRefutable ps
  | .list _ ps => anyRefutable ps
  | .as _ _ inner => headHasRefutableSub inner
  | _ => false

mutual

/-- A pattern that the match compiler cannot lower. -/
def patUnsupported (env : TypeEnv) : TPat → Bool
  | .con _ c ps => isRecordConName env c || anyUnsupported env ps
  | .list _ [] => false
  | .list _ (_ :: _) => true
  | .cons _ h t => patUnsupported env h || patUnsupported env t
  | .tuple _ ps => anyUnsupported env ps
  | .as _ _ inner => patUnsupported env inner
  | _ => false

def anyUnsupported (env : TypeEnv) : List TPat → Bool
  | [] => false
  | p :: ps => patUnsupported env p || anyUnsupported env ps

end

/-- Whether a `case` with these patterns takes the decision-tree route. -/
def caseNeedsMatch (env : TypeEnv) (pats : List TPat) : Bool :=
  !pats.any (patUnsupported env) && pats.any headHasRefutableSub

/-! ### Case expressions -/

/-- An alternative of a `case`. The elaboration of its body and `where` group is
an action here; all that the lowering of patterns relies on is that the supply of
identities does not go back. -/
structure Alternative where
  pat : TPat
  body : TailK → Elab Expr
  supply : ∀ tk ctx n e n', body tk ctx n = .ok (e, n') → n ≤ n'

def elabCaseAlt (tk : TailK) (scrut : Atom) (alt : Alternative) : Elab Alt :=
  elabPat scrut alt.pat (alt.body tk)

/-- The join of an alternative: its label, its parameters and its body. -/
structure AltJoin where
  join : JoinId
  vars : List (String × CType × Name)
  body : Expr

def AltJoin.params (b : AltJoin) : List Binder := b.vars.map fun v => ⟨v.2.2, v.2.1⟩

def buildAltJoin (tk : TailK) (alt : Alternative) : Elab AltJoin := do
  let jid ← liftM freshJoin
  let triples ← (patVars alt.pat).mapM fun v => do
    let n ← bindFresh v.1
    return (v.1, v.2, n)
  let jbody ← withLocals (triples.map fun v => (v.1, v.2.2)) (alt.body tk)
  return ⟨jid, triples, jbody⟩

/-- The clause of an alternative in the matrix with the scrutinee as its column. -/
def altRow (env : TypeEnv) (alt : Alternative) (b : AltJoin) (ix : Nat) :
    Except String Row := do
  let p ← toMPat env alt.pat
  return { pats := [p], subst := [], join := b.join, order := b.vars.map (·.1), index := ix }

/-- Every alternative becomes a join; the decision tree jumps to them. -/
def elabCaseAltsMatch (tk : TailK) (scrut : Atom) (alts : List Alternative) : Elab Expr := do
  let env := (← read).env
  let built ← alts.mapM (buildAltJoin tk)
  let rows ← liftM (m := Except String)
    ((alts.zip built).zipIdx.mapM fun ab => altRow env ab.1.1 ab.1.2 ab.2)
  let tree ← liftM (compileMatch (buildOracle env) [scrut] rows)
  return built.foldr (fun b acc => .letJoin b.join b.params b.body acc) tree

/-- The `case` expression on an atom that holds the scrutinee. -/
def elabCase (tk : TailK) (alts : List Alternative) (sa : Atom) : Elab Expr := do
  let env := (← read).env
  if caseNeedsMatch env (alts.map (·.pat)) then elabCaseAltsMatch tk sa alts
  else return .case_ sa (← alts.mapM (elabCaseAlt tk sa))

end Wok.IR
