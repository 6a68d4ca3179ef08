/-
Module: Wok.IR.Perceus
Purpose: The insertion of reference-count operations into Core.
Imports: Wok.IR.Escape
Trusted boundary: none
Main exports: seedSupply, coveredExpr, Ctx, ownExpr, onBind, insertRC
-/
import Wok.IR.Escape

namespace Wok.IR

open Wok.TypeChecking (CType)

/-! ### The seed of the supply -/

def uOf (n : Name) : Int := n.uniq.id

def atomMaxU : Atom → Int
  | .var n => uOf n
  | .lit _ => -1
  | .prim .. => -1

/-- The largest identity among atoms and `m`. -/
def atomsMaxU (m : Int) (as : List Atom) : Int :=
  as.foldr (fun a acc => max (atomMaxU a) acc) m

/-- The largest identity among binders and `m`. -/
def bindersMaxU (m : Int) (bs : List Binder) : Int :=
  bs.foldr (fun b acc => max (uOf b.name) acc) m

mutual

/-- The largest identity of a binder or a variable of the expression. The self
binder of an install and the labels of joins are not among them. -/
def exprMaxU : Expr → Int
  | .ret a => atomMaxU a
  | .let_ b r e => max (uOf b.name) (max (rhsMaxU r) (exprMaxU e))
  | .letRec defs e => defsMaxU (exprMaxU e) defs
  | .case_ a alts => altsMaxU (atomMaxU a) alts
  | .letJoin _ ps jb e => bindersMaxU (max (exprMaxU jb) (exprMaxU e)) ps
  | .jump _ as => atomsMaxU (-1) as
  | .handle e h => max (exprMaxU e) (handlerMaxU h)
  | .installHandler a _ e => max (atomMaxU a) (exprMaxU e)

def defsMaxU (m : Int) : List Def → Int
  | [] => m
  | d :: defs => max (defMaxU d) (defsMaxU m defs)

def defMaxU : Def → Int
  | ⟨b, ps, body⟩ => max (uOf b.name) (bindersMaxU (exprMaxU body) ps)

def altsMaxU (m : Int) : List Alt → Int
  | [] => m
  | alt :: alts => max (altMaxU alt) (altsMaxU m alts)

def altMaxU : Alt → Int
  | .con _ bs e => bindersMaxU (exprMaxU e) bs
  | .lit _ e => exprMaxU e
  | .default e => exprMaxU e

def handlerMaxU : Handler → Int
  | ⟨retBinder, retBody, ops, _, param, self⟩ =>
      max (max (uOf retBinder.name) (exprMaxU retBody))
        (armsMaxU (bindersMaxU (-1) (param.toList ++ self.toList)) ops)

def armsMaxU (m : Int) : List OpArm → Int
  | [] => m
  | arm :: arms => max (opArmMaxU arm) (armsMaxU m arms)

def opArmMaxU : OpArm → Int
  | ⟨_, _, args, resume, body⟩ => bindersMaxU (exprMaxU body) (resume :: args)

def rhsMaxU : Rhs → Int
  | .atom a => atomMaxU a
  | .app f as => atomsMaxU (atomMaxU f) as
  | .makeHandler h => handlerMaxU h
  | .con _ as => atomsMaxU (-1) as
  | .lam ps e => bindersMaxU (exprMaxU e) ps
  | .op m _ _ as => atomsMaxU (m.elim (-1) atomMaxU) as
  | .record _ flds => atomsMaxU (-1) (flds.map (·.2))
  | .proj _ a => atomMaxU a
  | .reuseCon tok _ as => atomsMaxU (atomMaxU tok) as
  | .foreignCall _ _ as => atomsMaxU (-1) as

end

def topMaxU (tb : TopBind) : Int :=
  max (uOf tb.name) (bindersMaxU (exprMaxU tb.body) tb.params)

/-- A supply strictly above the largest identity that the walk finds. -/
def seedSupply (cm : CoreModule) : Int :=
  1 + cm.binds.foldr (fun tb acc => max (topMaxU tb) acc) (-1)

/-! ### Coverage -/

mutual

/-- The fragment that the pass instruments. -/
def coveredExpr : Expr → Bool
  | .let_ _ r e => coveredRhs r && coveredExpr e
  | .ret _ => true
  | .case_ _ alts => coveredAlts alts
  | .letJoin _ _ jb e => coveredExpr jb && coveredExpr e
  | .jump .. => true
  | .letRec defs e => coveredDefs defs && coveredExpr e
  | .handle e h => m2bHandlerInFragmentStore h && coveredExpr e && coveredHandler h
  | .installHandler .. => false

def coveredDefs : List Def → Bool
  | [] => true
  | d :: defs => coveredDef d && coveredDefs defs

def coveredDef : Def → Bool
  | ⟨_, _, body⟩ => coveredExpr body

def coveredAlts : List Alt → Bool
  | [] => true
  | alt :: alts => coveredAlt alt && coveredAlts alts

def coveredAlt : Alt → Bool
  | .con _ _ e => coveredExpr e
  | .lit _ e => coveredExpr e
  | .default e => coveredExpr e

def coveredHandler : Handler → Bool
  | ⟨_, retBody, ops, _, _, _⟩ => coveredExpr retBody && coveredArms ops

def coveredArms : List OpArm → Bool
  | [] => true
  | arm :: arms => coveredArm arm && coveredArms arms

def coveredArm : OpArm → Bool
  | ⟨_, _, _, _, body⟩ => coveredExpr body

def coveredRhs : Rhs → Bool
  | .lam _ e => coveredExpr e
  | .makeHandler _ => false
  | _ => true

end

/-! ### Jumps -/

mutual

/-- The joins that an expression jumps to; function bodies are scopes of their own. -/
def jumpTargets : Expr → List JoinId
  | .ret _ => []
  | .jump j _ => [j]
  | .let_ _ _ e => jumpTargets e
  | .case_ _ alts => altJumpTargets alts
  | .letJoin _ _ jb e => jumpTargets jb ++ jumpTargets e
  | .letRec _ e => jumpTargets e
  | .handle e _ => jumpTargets e
  | .installHandler _ _ e => jumpTargets e

def altJumpTargets : List Alt → List JoinId
  | [] => []
  | alt :: alts => jumpTargetsAlt alt ++ altJumpTargets alts

def jumpTargetsAlt : Alt → List JoinId
  | .con _ _ e => jumpTargets e
  | .lit _ e => jumpTargets e
  | .default e => jumpTargets e

end

/-- For each join in scope, the owned variables its body captures and the joins
its body jumps onward to. -/
abbrev JoinCaps := List (JoinId × (UniqueSet × List JoinId))

/-- The joins of `frontier` and those reachable from them. A round that meets no
join in scope is the last, so one round for each join in scope and one more do. -/
def closeJoinsGo (joins : JoinCaps) : Nat → List JoinId → List JoinId → List JoinId
  | 0, seen, _ => seen
  | fuel + 1, seen, frontier =>
      if frontier.isEmpty then seen
      else
        let seen' := seen ++ frontier
        let next := frontier.flatMap fun j => ((joins.lookup j).map (·.2)).getD []
        closeJoinsGo joins fuel seen' (next.filter (· ∉ seen'))

def closeJoins (joins : JoinCaps) (frontier : List JoinId) : List JoinId :=
  closeJoinsGo joins (joins.length + 2) [] frontier

/-- The captures of the joins in a set. -/
def capturesOf (joins : JoinCaps) (js : List JoinId) : UniqueSet :=
  js.flatMap fun j => ((joins.lookup j).map (·.1)).getD []

/-- The variables reserved for the joins that `body` can reach. -/
def reservedCapForBody (joins : JoinCaps) (body : Expr) : UniqueSet :=
  capturesOf joins (closeJoins joins (jumpTargets body))

/-! ### The context of the pass -/

/-- `env` gives each binder in scope, `borrow` the values that are borrowed,
`envAlive` the shared environments kept alive to the end of each path, `envAlias`
the shared environment of each member of a group, and `resume` the resumptions
whose application moves them. -/
structure Ctx where
  env : List (Unique × Binder)
  joins : JoinCaps
  exempt : UniqueSet
  borrow : UniqueSet
  envAlive : UniqueSet
  envAlias : List (Unique × Unique)
  resume : UniqueSet

def bindersEnv (bs : List Binder) : List (Unique × Binder) :=
  bs.map fun b => (binderUnique b, b)

/-- The context of a top-level bind; of two parameters with one identity the
later stands. -/
def ctx0 (ps : List Binder) : Ctx :=
  ⟨bindersEnv ps.reverse, [], [], [], [], [], []⟩

def ctxBind (b : Binder) (c : Ctx) : Ctx :=
  { c with env := (binderUnique b, b) :: c.env }

def ctxBinds (bs : List Binder) (c : Ctx) : Ctx :=
  { c with env := bindersEnv bs ++ c.env }

/-- Joins and shared environments are not in scope in a handler's arm. -/
def armCtxReset (c : Ctx) : Ctx :=
  { c with joins := [], envAlive := [], envAlias := [], resume := [] }

/-- The right-hand side renames a value of the set. -/
def aliasesIn (s : UniqueSet) : Rhs → Bool
  | .atom (.var n) => n.uniq ∈ s
  | _ => false

def aliasesExemptIn (exempt : UniqueSet) (rhs : Rhs) : Bool := aliasesIn exempt rhs

def aliasesBorrowIn (borrow : UniqueSet) (rhs : Rhs) : Bool := aliasesIn borrow rhs

def isContTakeRhs : Rhs → Bool
  | .app (.prim m name) _ => (m, name) = contTakeKey
  | _ => false

/-- The right-hand side yields a resumption. -/
def aliasesResume (resume : UniqueSet) (r : Rhs) : Bool :=
  isContTakeRhs r || aliasesIn resume r

/-- Each member of a group with the member that stands for the shared environment. -/
def groupEnvAlias : List Def → List (Unique × Unique)
  | [] => []
  | d :: defs => (d :: defs).map fun m => (binderUnique m.name, binderUnique d.name)

/-! ### Operands -/

/-- The variables among atoms, with repetitions. -/
def atomUniques (as : List Atom) : List Unique := atomsVars as

/-- Each element with the number of its occurrences, in ascending order. -/
def countOccs (us : List Unique) : List (Unique × Nat) :=
  (UniqueSet.toAscList us).map fun u => (u, us.count u)

def lamCaps (ps : List Binder) (e : Expr) : UniqueSet :=
  (freeVarsExpr e).difference (ps.map binderUnique)

/-- The head of a call when it is a resumption, whose application moves it. -/
def resumeHead (resume : UniqueSet) : Atom → List Atom
  | .var n => if n.uniq ∈ resume then [.var n] else []
  | _ => []

def reuseConError : String :=
  "RReuseCon: produced only by reusePairing post-pass (after insertRC/balanceLint)"

/-- The owned operands that a right-hand side moves, with their occurrences. -/
def ownedOccs (ctx : Ctx) (delta : UniqueSet) (rhs : Rhs) :
    Except String (List (Unique × Nat)) :=
  let owned (us : List Unique) :=
    us.filter fun u => u ∈ delta ∧ u ∉ ctx.exempt ∧ u ∉ ctx.borrow
  let count (as : List Atom) := countOccs (owned (atomUniques as))
  match rhs with
  | .makeHandler _ => .ok []
  | .atom a => .ok (count [a])
  | .app f as =>
      if isContTakeRhs (.app f as) then .ok []
      else .ok (count (resumeHead ctx.resume f ++ as))
  | .con _ as => .ok (count as)
  | .record _ flds => .ok (count (flds.map (·.2)))
  | .proj .. => .ok []
  | .reuseCon .. => .error reuseConError
  | .lam ps e => .ok (countOccs (owned (lamCaps ps e).toAscList))
  | .op _ _ _ as => .ok (count as)
  | .foreignCall _ _ as => .ok (count as)

/-- The operands that a right-hand side consumes, owned or not. -/
def moveOperandUniques : Rhs → Except String (List Unique)
  | .makeHandler _ => .ok []
  | .atom a => .ok (atomUniques [a])
  | .app f as => if isContTakeRhs (.app f as) then .ok [] else .ok (atomUniques as)
  | .con _ as => .ok (atomUniques as)
  | .record _ flds => .ok (atomUniques (flds.map (·.2)))
  | .proj .. => .ok []
  | .reuseCon .. => .error reuseConError
  | .lam ps e => .ok (lamCaps ps e).toAscList
  | .op _ _ _ as => .ok (atomUniques as)
  | .foreignCall _ _ as => .ok (atomUniques as)

/-- The scrutinee when it is an owned variable. -/
def scrutineeParent (exempt delta : UniqueSet) : Atom → Option Unique
  | .var n => if n.uniq ∈ delta ∧ n.uniq ∉ exempt then some n.uniq else none
  | _ => none

/-! ### Emitting dups and drops -/

/-- The heads of the inserted calls, which the interpreter knows by their hint. -/
def dupName : Name := ⟨dupHint, ⟨-1⟩⟩

def dropName : Name := ⟨dropHint, ⟨-1⟩⟩

def unitTy : CType := .con .unit []

/-- Prepend a `__rc_dup` of the binder. -/
def mkDup (b : Binder) : Fresh (Expr → Expr) := do
  let u ← freshUnique
  return .let_ ⟨⟨"_dup", u⟩, b.type⟩ (.app (.var dupName) [.var b.name])

/-- Prepend a `__rc_drop` of the binder. -/
def mkDropFn (b : Binder) : Fresh (Expr → Expr) := do
  let u ← freshUnique
  return .let_ ⟨⟨"_drop", u⟩, unitTy⟩ (.app (.var dropName) [.var b.name])

/-- One dup for each variable of the list that the environment knows. -/
def mkDups (env : List (Unique × Binder)) : List Unique → Fresh (List (Expr → Expr))
  | [] => return []
  | v :: vs =>
      match env.lookup v with
      | some b => do
          let f ← mkDup b
          let fs ← mkDups env vs
          return f :: fs
      | none => mkDups env vs

/-- Each variable of the plan, as often as the plan says. -/
def mkDupsForVars (env : List (Unique × Binder)) (plan : List (Unique × Nat)) :
    Fresh (List (Expr → Expr)) :=
  mkDups env (plan.flatMap fun p => List.replicate p.2 p.1)

/-- Prepend transformers, the first outermost. -/
def prepend (fs : List (Expr → Expr)) (e : Expr) : Expr :=
  fs.foldr (fun f e => f e) e

/-- Prepend one drop for each dead variable that the environment knows. -/
def dropsFor (env : List (Unique × Binder)) : List Unique → Expr → Fresh Expr
  | [], e => return e
  | v :: vs, e =>
      match env.lookup v with
      | none => dropsFor env vs e
      | some b => do
          let f ← mkDropFn b
          let e' ← dropsFor env vs e
          return f e'

/-- The dup of a boxed value that a projection borrows from its record. -/
def projDupFor (b : Binder) (rhs : Rhs) : Fresh (Expr → Expr) :=
  match rhs with
  | .proj .. => if boxedBinder b then mkDup b else return id
  | _ => return id

/-- The drop of a scrutinee at the head of an alternative. -/
def dropParentThen (env : List (Unique × Binder)) (parent : Option Unique) :
    Fresh (Expr → Expr) :=
  match parent.bind (env.lookup ·) with
  | some b => mkDropFn b
  | none => return id

/-! ### The rules -/

/-- A returned member of a group hands its shared environment out. -/
def isTransfer (ctx : Ctx) (u : Unique) : Bool :=
  match ctx.envAlias.lookup u with
  | some e => e ∈ ctx.envAlive
  | none => false

/-- What the rule for a `return` decides: the dups before it, and the variables
that die there. -/
def retPlan (ctx : Ctx) (delta : UniqueSet) (a : Atom) : List (Unique × Nat) × UniqueSet :=
  let owned := (atomVars a).intersection delta
  let retBorrows := (atomVars a).intersection ctx.borrow
  let retEnvs := (retBorrows.filter (isTransfer ctx)).filterMap (ctx.envAlias.lookup ·)
  let escBorrows := retBorrows.filter (! isTransfer ctx ·)
  (countOccs escBorrows, (delta.difference owned).difference retEnvs)

/-- The same for a jump; what the target captures is its to consume. -/
def jumpPlan (ctx : Ctx) (delta : UniqueSet) (j : JoinId) (as : List Atom) :
    List (Unique × Nat) × UniqueSet :=
  let moved := ((atomsVars as).intersection delta).difference ctx.exempt
  let cap := capturesOf ctx.joins (closeJoins ctx.joins [j])
  let borrowArgs := (atomUniques as).filter (· ∈ ctx.borrow)
  (borrowArgs.map fun u => (u, 1), (delta.difference moved).difference cap)

/-- The dups and the drops of a plan before a tail. -/
def ownTail (ctx : Ctx) (plan : List (Unique × Nat) × UniqueSet) (tail : Expr) : Fresh Expr := do
  let dups ← mkDupsForVars ctx.env plan.1
  let dropped ← dropsFor ctx.env plan.2.toAscList tail
  return prepend dups dropped

/-- What the rule for a `let` decides: the dups before it, the variables owned in
its body, those that die with it, and the context of its body. -/
structure LetPlan where
  dups : List (Unique × Nat)
  deltaBody : UniqueSet
  deadNow : UniqueSet
  ctx : Ctx

/-- The context of a `let` body: a renaming of a borrowed, exempt or resumed
value is one itself. -/
def letCtx (ctx : Ctx) (b : Binder) (rhs : Rhs) : Ctx :=
  let u := binderUnique b
  let c := ctxBind b ctx
  if aliasesExemptIn ctx.exempt rhs then { c with exempt := u :: ctx.exempt }
  else if aliasesBorrowIn ctx.borrow rhs then
    let inheritedEnv :=
      match rhs with
      | .atom (.var n) => ((ctx.envAlias.lookup n.uniq).map fun e => (u, e)).toList
      | _ => []
    { c with borrow := u :: ctx.borrow, envAlias := inheritedEnv ++ ctx.envAlias }
  else if aliasesResume ctx.resume rhs then { c with resume := u :: ctx.resume }
  else c

def letPlan (ctx : Ctx) (delta : UniqueSet) (b : Binder) (rhs : Rhs) (body : Expr) :
    Except String LetPlan := do
  let later := freeVarsExpr body
  let rhsOcc ← ownedOccs ctx delta rhs
  let aliasesBorrow := aliasesBorrowIn ctx.borrow rhs
  let borrowMoves ←
    if aliasesBorrow then .ok []
    else (moveOperandUniques rhs).map (·.filter (· ∈ ctx.borrow))
  let bodyReservedCap := reservedCapForBody ctx.joins body
  let neededLater := later ++ bodyReservedCap
  let dupPlan := rhsOcc.map fun p =>
    (p.1, p.2 - 1 + if p.1 ∈ neededLater then 1 else 0)
  let consumedHere := UniqueSet.difference (rhsOcc.map (·.1)) neededLater
  let bAdded :=
    if aliasesExemptIn ctx.exempt rhs || aliasesBorrow then []
    else if boxedBinder b then [binderUnique b]
    else []
  let afterBind := delta.difference consumedHere ++ bAdded
  let deltaBody := afterBind.filter fun v =>
    v ∈ later ∨ v ∈ ctx.exempt ∨ v ∈ bodyReservedCap ∨ v ∈ ctx.envAlive
  return {
    dups := dupPlan.filter (0 < ·.2) ++ countOccs borrowMoves
    deltaBody := deltaBody
    deadNow := afterBind.difference deltaBody
    ctx := letCtx ctx b rhs }

/-- What the rule for a `case` decides: the scrutinee to drop in each alternative,
and the variables owned there. A scrutinee that an alternative or a join it
reaches still uses is kept. -/
def casePlan (ctx : Ctx) (delta : UniqueSet) (a : Atom) (alts : List Alt) :
    Option Unique × UniqueSet :=
  let scr := scrutineeParent ctx.exempt delta a
  let reachableJoins := closeJoins ctx.joins (altJumpTargets alts)
  let capturedByJoins := capturesOf ctx.joins reachableJoins
  let reused := scr.any fun p =>
    p ∈ capturedByJoins || alts.any fun alt => p ∈ freeVarsAlt alt
  let parent := if reused then none else scr
  (parent, parent.elim delta delta.delete)

/-- The boxed fields of an alternative that its body uses. -/
def keptFields (bs : List Binder) (body : Expr) : List Binder :=
  bs.filter fun b => boxedBinder b ∧ binderUnique b ∈ freeVarsExpr body

/-- The scopes of a join: the context of the body it is bound in, and what its
own body owns. -/
def joinPlan (ctx : Ctx) (delta : UniqueSet) (j : JoinId) (ps : List Binder) (jbody : Expr) :
    Ctx × UniqueSet :=
  let cap := (((freeVarsExpr jbody).difference (ps.map binderUnique)).intersection delta).difference
    ctx.exempt
  let ctxBody := { ctx with joins := (j, (cap, jumpTargets jbody)) :: ctx.joins }
  let psBoxed := (ps.filter boxedBinder).map binderUnique
  let transCap := capturesOf ctxBody.joins (closeJoins ctxBody.joins [j])
  (ctxBody, psBoxed ++ transCap)

/-- The owned boxed variables around a group that one member captures. -/
def memberCaps (ctx : Ctx) (delta : UniqueSet) (defs : List Def) (d : Def) : UniqueSet :=
  let groupU := defs.map fun m => binderUnique m.name
  (((freeVarsExpr d.body).difference (d.params.map binderUnique)).difference groupU).filter fun u =>
    u ∈ delta ∧ u ∉ ctx.exempt ∧ u ∉ ctx.borrow ∧ (ctx.env.lookup u).any boxedBinder

/-- The scope of one member: its captures and its siblings are borrowed. -/
def defCtx (ctx : Ctx) (delta : UniqueSet) (defs : List Def) (d : Def) : Ctx :=
  let groupU := defs.map fun m => binderUnique m.name
  { env := bindersEnv d.params.reverse ++ bindersEnv (defs.map Def.name).reverse ++ ctx.env
    joins := []
    exempt := ctx.exempt
    borrow := ctx.borrow ++ groupU ++ memberCaps ctx delta defs d
    envAlive := []
    envAlias := groupEnvAlias defs
    resume := [] }

/-- What the rule for a recursive group decides: the dups before it, what its body
owns, and the context of its body; `d₀` stands for the shared environment. -/
def recPlan (ctx : Ctx) (delta : UniqueSet) (d₀ : Def) (defs : List Def) (body : Expr) :
    List (Unique × Nat) × UniqueSet × Ctx :=
  let env0 := binderUnique d₀.name
  let allCaps : UniqueSet := defs.flatMap (memberCaps ctx delta defs)
  let laterBody := freeVarsExpr body
  let dupPlan := (allCaps.intersection laterBody).toAscList.map fun u => (u, 1)
  let consumedCaps := allCaps.difference laterBody
  let ctxIn := { ctx with
    env := bindersEnv (defs.map Def.name) ++ ctx.env
    borrow := ctx.borrow ++ defs.map fun m => binderUnique m.name
    envAlive := env0 :: ctx.envAlive
    envAlias := ctx.envAlias ++ groupEnvAlias defs }
  (dupPlan, delta.difference consumedCaps ++ [env0], ctxIn)

/-- The scope of a lambda's body, which owns its boxed parameters and captures. -/
def lamScope (ctx : Ctx) (delta : UniqueSet) (ps : List Binder) (e : Expr) : Ctx × UniqueSet :=
  let caps := lamCaps ps e
  let borrowed := ctx.borrow ++ ctx.exempt
  let capsBoxed := caps.filter fun u =>
    u ∈ delta ∧ u ∉ borrowed ∧ (ctx.env.lookup u).any boxedBinder
  let capsBorrow := caps.intersection borrowed
  let psBoxed := (ps.filter boxedBinder).map binderUnique
  ({ env := bindersEnv ps ++ ctx.env
     joins := []
     exempt := ctx.exempt.intersection capsBorrow
     borrow := ctx.borrow.intersection capsBorrow
     envAlive := []
     envAlias := []
     resume := [] },
   psBoxed ++ capsBoxed)

/-- The boxed binders of a scope. -/
def boxedUniques (bs : List Binder) : UniqueSet := (bs.filter boxedBinder).map binderUnique

def emptyGroupError : String := "ownExpr: empty LetRec group"

def installError : String :=
  "proto/handler-values: Perceus insertRC does not support first-class handlers " ++
    "(RC path, off --run)"

mutual

/-- Rewrite an expression so that each variable of `delta` is consumed once. -/
def ownExpr (ctx : Ctx) (delta : UniqueSet) : Expr → Fresh Expr
  | .ret a => ownTail ctx (retPlan ctx delta a) (.ret a)
  | .let_ b rhs body => do
      let rhs' ← ownRhs ctx delta rhs
      let plan ← letPlan ctx delta b rhs body
      let dups ← mkDupsForVars ctx.env plan.dups
      let projDup ← projDupFor b rhs
      let body' ← ownExpr plan.ctx plan.deltaBody body
      let dropped ← dropsFor plan.ctx.env plan.deadNow.toAscList body'
      return prepend dups (.let_ b rhs' (projDup dropped))
  | .case_ a alts => do
      let plan := casePlan ctx delta a alts
      let alts' ← ownAlts ctx plan.2 plan.1 alts
      return .case_ a alts'
  | .letJoin j ps jbody body => do
      let plan := joinPlan ctx delta j ps jbody
      let body' ← ownExpr plan.1 delta body
      let jbody' ← ownExpr (ctxBinds ps plan.1) plan.2 jbody
      return .letJoin j ps jbody' body'
  | .jump j as => ownTail ctx (jumpPlan ctx delta j as) (.jump j as)
  | .letRec [] _ => throw emptyGroupError
  | .letRec (d₀ :: defs) body => do
      let group := d₀ :: defs
      let plan := recPlan ctx delta d₀ group body
      let defs' ← ownDefs ctx delta group group
      let body' ← ownExpr plan.2.2 plan.2.1 body
      let dups ← mkDupsForVars ctx.env plan.1
      return prepend dups (.letRec defs' body')
  | .handle e h =>
      if m2bHandlerInFragmentStore h then do
        let e' ← ownExpr ctx (delta.difference (boxedUniques h.param.toList)) e
        let h' ← ownHandler ctx h
        return .handle e' h'
      else return .handle e h
  | .installHandler .. => throw installError

/-- Alternatives in order; each drops the scrutinee after the dups of its fields. -/
def ownAlts (ctx : Ctx) (outerDelta : UniqueSet) (parent : Option Unique) :
    List Alt → Fresh (List Alt)
  | [] => return []
  | alt :: alts => do
      let alt' ← ownAlt ctx outerDelta parent alt
      let alts' ← ownAlts ctx outerDelta parent alts
      return alt' :: alts'

def ownAlt (ctx : Ctx) (outerDelta : UniqueSet) (parent : Option Unique) : Alt → Fresh Alt
  | .con c bs body => do
      let kept := keptFields bs body
      let ctx' := ctxBinds bs ctx
      let dups ← mkDupsForVars ctx'.env (kept.map fun b => (binderUnique b, 1))
      let dropped ← dropParentThen ctx'.env parent
      let body' ← ownExpr ctx' (outerDelta ++ kept.map binderUnique) body
      return .con c bs (prepend dups (dropped body'))
  | .lit l body => do
      let dropped ← dropParentThen ctx.env parent
      let body' ← ownExpr ctx outerDelta body
      return .lit l (dropped body')
  | .default body => do
      let dropped ← dropParentThen ctx.env parent
      let body' ← ownExpr ctx outerDelta body
      return .default (dropped body')

/-- The members of a group, each a scope of its own. -/
def ownDefs (ctx : Ctx) (delta : UniqueSet) (group : List Def) : List Def → Fresh (List Def)
  | [] => return []
  | d :: defs => do
      let d' ← ownDef ctx delta group d
      let defs' ← ownDefs ctx delta group defs
      return d' :: defs'

def ownDef (ctx : Ctx) (delta : UniqueSet) (group : List Def) : Def → Fresh Def
  | ⟨b, ps, body⟩ => do
      let body' ← ownExpr (defCtx ctx delta group ⟨b, ps, body⟩) (boxedUniques ps) body
      return ⟨b, ps, body'⟩

/-- The return arm, then the operation arms. -/
def ownHandler (ctx : Ctx) : Handler → Fresh Handler
  | ⟨retBinder, retBody, ops, answerJoin, param, self⟩ => do
      let retCtx := ctxBinds (retBinder :: param.toList) (armCtxReset ctx)
      let retBody' ← ownExpr retCtx (boxedUniques (retBinder :: param.toList)) retBody
      let ops' ← ownArms ctx param ops
      return ⟨retBinder, retBody', ops', answerJoin, param, self⟩

def ownArms (ctx : Ctx) (param : Option Binder) : List OpArm → Fresh (List OpArm)
  | [] => return []
  | arm :: arms => do
      let arm' ← ownOpArm ctx param arm
      let arms' ← ownArms ctx param arms
      return arm' :: arms'

def ownOpArm (ctx : Ctx) (param : Option Binder) : OpArm → Fresh OpArm
  | ⟨label, op, args, resume, body⟩ => do
      let bs := args ++ [resume] ++ param.toList
      let armCtx := { ctxBinds bs (armCtxReset ctx) with resume := [binderUnique resume] }
      let body' ← ownExpr armCtx (boxedUniques bs) body
      return ⟨label, op, args, resume, body'⟩

/-- Instrument the body of a lambda. -/
def ownRhs (ctx : Ctx) (delta : UniqueSet) : Rhs → Fresh Rhs
  | .lam ps e => do
      let scope := lamScope ctx delta ps e
      let e' ← ownExpr scope.1 scope.2 e
      return .lam ps e'
  | r => return r

end

/-! ### The pass -/

def onBind (tb : TopBind) : Fresh TopBind :=
  if coveredExpr tb.body then do
    let body' ← ownExpr (ctx0 tb.params) (boxedUniques tb.params) tb.body
    return { tb with body := body' }
  else return tb

/-- The supply goes through the binds from the last to the first. -/
def insertBinds : List TopBind → Fresh (List TopBind)
  | [] => return []
  | tb :: tbs => do
      let tbs' ← insertBinds tbs
      let tb' ← onBind tb
      return tb' :: tbs'

def insertRC (cm : CoreModule) : Except String CoreModule := do
  let (binds, _) ← insertBinds cm.binds (seedSupply cm)
  return ⟨binds⟩

end Wok.IR
