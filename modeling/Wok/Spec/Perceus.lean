/-
Module: Wok.Spec.Perceus
Purpose: What the insertion of reference-count operations must conserve: erasure of
  the inserted bindings, and the identities that occur in a module.
Imports: Wok.IR.Perceus
Trusted boundary: none
Main exports: Position, exprOccs, moduleOccs, eraseExpr, eraseModule, exprAdded,
  addedIds, plainExpr, Conserves, exprCount, insertions
-/
import Wok.IR.Perceus

namespace Wok.Spec.Perceus

open Wok.IR

/-! ### Occurrences of identities -/

/-- Where an identity stands: as a binder or a variable that the walk of the seed
visits, as the self binder of an install, or as the label of a join. -/
inductive Position where
  | term
  | self
  | label
  deriving Repr, DecidableEq

abbrev Occs := List (Position × Int)

def atomOccs : Atom → Occs
  | .var n => [(.term, uOf n)]
  | .lit _ => []
  | .prim .. => []

def atomsOccs (as : List Atom) : Occs := as.flatMap atomOccs

def bindersOccs (bs : List Binder) : Occs := bs.map fun b => (.term, uOf b.name)

def labelOcc (j : JoinId) : Position × Int := (.label, j.uniq.id)

mutual

/-- Every occurrence of an identity in an expression. -/
def exprOccs : Expr → Occs
  | .ret a => atomOccs a
  | .let_ b r e => (.term, uOf b.name) :: (rhsOccs r ++ exprOccs e)
  | .letRec defs e => defsOccs defs ++ exprOccs e
  | .case_ a alts => atomOccs a ++ altsOccs alts
  | .letJoin j ps jb e => labelOcc j :: (bindersOccs ps ++ (exprOccs jb ++ exprOccs e))
  | .jump j as => labelOcc j :: atomsOccs as
  | .handle e h => exprOccs e ++ handlerOccs h
  | .installHandler a self e =>
      atomOccs a ++ (self.toList.map (fun b => (.self, uOf b.name)) ++ exprOccs e)

def defsOccs : List Def → Occs
  | [] => []
  | d :: defs => defOccs d ++ defsOccs defs

def defOccs : Def → Occs
  | ⟨b, ps, body⟩ => (.term, uOf b.name) :: (bindersOccs ps ++ exprOccs body)

def altsOccs : List Alt → Occs
  | [] => []
  | alt :: alts => altOccs alt ++ altsOccs alts

def altOccs : Alt → Occs
  | .con _ bs e => bindersOccs bs ++ exprOccs e
  | .lit _ e => exprOccs e
  | .default e => exprOccs e

def handlerOccs : Handler → Occs
  | ⟨retBinder, retBody, ops, answerJoin, param, self⟩ =>
      bindersOccs (retBinder :: (param.toList ++ self.toList)) ++
        (answerJoin.toList.map labelOcc ++ (exprOccs retBody ++ armsOccs ops))

def armsOccs : List OpArm → Occs
  | [] => []
  | arm :: arms => armOccs arm ++ armsOccs arms

def armOccs : OpArm → Occs
  | ⟨_, _, args, resume, body⟩ => bindersOccs (resume :: args) ++ exprOccs body

def rhsOccs : Rhs → Occs
  | .atom a => atomOccs a
  | .app f as => atomOccs f ++ atomsOccs as
  | .makeHandler h => handlerOccs h
  | .con _ as => atomsOccs as
  | .lam ps e => bindersOccs ps ++ exprOccs e
  | .op m _ _ as => atomsOccs (m.toList ++ as)
  | .record _ flds => atomsOccs (flds.map (·.2))
  | .proj _ a => atomOccs a
  | .reuseCon tok _ as => atomOccs tok ++ atomsOccs as
  | .foreignCall _ _ as => atomsOccs as

end

def bindOccs (tb : TopBind) : Occs :=
  (.term, uOf tb.name) :: (bindersOccs tb.params ++ exprOccs tb.body)

def bindsOccs (tbs : List TopBind) : Occs := tbs.flatMap bindOccs

def moduleOccs (cm : CoreModule) : Occs := bindsOccs cm.binds

/-- How often an identity occurs, in any position. -/
def countId (u : Int) (occs : Occs) : Nat := occs.countP fun p => p.2 = u

/-! ### The inserted bindings -/

/-- A call of `__rc_dup` or `__rc_drop`. -/
def isRcCall : Rhs → Bool
  | .app (.var h) [_] => h.hint = dupHint ∨ h.hint = dropHint
  | _ => false

/-- A binding that a pass with a supply from `lo` on has inserted. -/
def isAdded (lo : Int) (b : Binder) (rhs : Rhs) : Bool :=
  lo ≤ uOf b.name ∧ isRcCall rhs

mutual

/-- The expression without the inserted bindings. -/
def eraseExpr (lo : Int) : Expr → Expr
  | .ret a => .ret a
  | .let_ b r e =>
      if isAdded lo b r then eraseExpr lo e else .let_ b (eraseRhs lo r) (eraseExpr lo e)
  | .letRec defs e => .letRec (eraseDefs lo defs) (eraseExpr lo e)
  | .case_ a alts => .case_ a (eraseAlts lo alts)
  | .letJoin j ps jb e => .letJoin j ps (eraseExpr lo jb) (eraseExpr lo e)
  | .jump j as => .jump j as
  | .handle e h => .handle (eraseExpr lo e) (eraseHandler lo h)
  | .installHandler a self e => .installHandler a self (eraseExpr lo e)

def eraseDefs (lo : Int) : List Def → List Def
  | [] => []
  | d :: defs => eraseDef lo d :: eraseDefs lo defs

def eraseDef (lo : Int) : Def → Def
  | ⟨b, ps, body⟩ => ⟨b, ps, eraseExpr lo body⟩

def eraseAlts (lo : Int) : List Alt → List Alt
  | [] => []
  | alt :: alts => eraseAlt lo alt :: eraseAlts lo alts

def eraseAlt (lo : Int) : Alt → Alt
  | .con c bs e => .con c bs (eraseExpr lo e)
  | .lit l e => .lit l (eraseExpr lo e)
  | .default e => .default (eraseExpr lo e)

def eraseHandler (lo : Int) : Handler → Handler
  | ⟨retBinder, retBody, ops, answerJoin, param, self⟩ =>
      ⟨retBinder, eraseExpr lo retBody, eraseArms lo ops, answerJoin, param, self⟩

def eraseArms (lo : Int) : List OpArm → List OpArm
  | [] => []
  | arm :: arms => eraseArm lo arm :: eraseArms lo arms

def eraseArm (lo : Int) : OpArm → OpArm
  | ⟨label, op, args, resume, body⟩ => ⟨label, op, args, resume, eraseExpr lo body⟩

def eraseRhs (lo : Int) : Rhs → Rhs
  | .lam ps e => .lam ps (eraseExpr lo e)
  | .makeHandler h => .makeHandler (eraseHandler lo h)
  | r => r

end

def eraseBind (lo : Int) (tb : TopBind) : TopBind := { tb with body := eraseExpr lo tb.body }

def eraseModule (lo : Int) (cm : CoreModule) : CoreModule := ⟨cm.binds.map (eraseBind lo)⟩

mutual

/-- The identities of the inserted bindings' binders. -/
def exprAdded (lo : Int) : Expr → List Int
  | .ret _ => []
  | .let_ b r e =>
      if isAdded lo b r then uOf b.name :: exprAdded lo e else rhsAdded lo r ++ exprAdded lo e
  | .letRec defs e => defsAdded lo defs ++ exprAdded lo e
  | .case_ _ alts => altsAdded lo alts
  | .letJoin _ _ jb e => exprAdded lo jb ++ exprAdded lo e
  | .jump .. => []
  | .handle e h => exprAdded lo e ++ handlerAdded lo h
  | .installHandler _ _ e => exprAdded lo e

def defsAdded (lo : Int) : List Def → List Int
  | [] => []
  | d :: defs => defAdded lo d ++ defsAdded lo defs

def defAdded (lo : Int) : Def → List Int
  | ⟨_, _, body⟩ => exprAdded lo body

def altsAdded (lo : Int) : List Alt → List Int
  | [] => []
  | alt :: alts => altAdded lo alt ++ altsAdded lo alts

def altAdded (lo : Int) : Alt → List Int
  | .con _ _ e => exprAdded lo e
  | .lit _ e => exprAdded lo e
  | .default e => exprAdded lo e

def handlerAdded (lo : Int) : Handler → List Int
  | ⟨_, retBody, ops, _, _, _⟩ => exprAdded lo retBody ++ armsAdded lo ops

def armsAdded (lo : Int) : List OpArm → List Int
  | [] => []
  | arm :: arms => armAdded lo arm ++ armsAdded lo arms

def armAdded (lo : Int) : OpArm → List Int
  | ⟨_, _, _, _, body⟩ => exprAdded lo body

def rhsAdded (lo : Int) : Rhs → List Int
  | .lam _ e => exprAdded lo e
  | .makeHandler h => handlerAdded lo h
  | _ => []

end

def addedIds (lo : Int) (cm : CoreModule) : List Int :=
  cm.binds.flatMap fun tb => exprAdded lo tb.body

/-! ### Core before the reuse pass -/

mutual

/-- No constructor reuses a cell yet, and every recursive group has a member. -/
def plainExpr : Expr → Bool
  | .ret _ => true
  | .let_ _ r e => plainRhs r && plainExpr e
  | .letRec defs e => ! defs.isEmpty && plainDefs defs && plainExpr e
  | .case_ _ alts => plainAlts alts
  | .letJoin _ _ jb e => plainExpr jb && plainExpr e
  | .jump .. => true
  | .handle e h => plainExpr e && plainHandler h
  | .installHandler _ _ e => plainExpr e

def plainDefs : List Def → Bool
  | [] => true
  | d :: defs => plainDef d && plainDefs defs

def plainDef : Def → Bool
  | ⟨_, _, body⟩ => plainExpr body

def plainAlts : List Alt → Bool
  | [] => true
  | alt :: alts => plainAlt alt && plainAlts alts

def plainAlt : Alt → Bool
  | .con _ _ e => plainExpr e
  | .lit _ e => plainExpr e
  | .default e => plainExpr e

def plainHandler : Handler → Bool
  | ⟨_, retBody, ops, _, _, _⟩ => plainExpr retBody && plainArms ops

def plainArms : List OpArm → Bool
  | [] => true
  | arm :: arms => plainArm arm && plainArms arms

def plainArm : OpArm → Bool
  | ⟨_, _, _, _, body⟩ => plainExpr body

def plainRhs : Rhs → Bool
  | .lam _ e => plainExpr e
  | .makeHandler h => plainHandler h
  | .reuseCon .. => false
  | _ => true

end

/-- The binds that the pass instruments are plain. -/
def Plain (cm : CoreModule) : Prop :=
  ∀ tb ∈ cm.binds, coveredExpr tb.body = true → plainExpr tb.body = true

/-! ### What the pass must conserve -/

/-- The module comes back when the inserted bindings are erased, and the identity
of each of their binders occurs once. -/
structure Conserves (cm cm' : CoreModule) : Prop where
  erase : eraseModule (seedSupply cm) cm' = cm
  fresh : ∀ u ∈ addedIds (seedSupply cm) cm', countId u (moduleOccs cm') = 1

/-! ### How many bindings the rules insert -/

/-- How many of the variables the environment knows; only these get a binding. -/
def known (env : List (Unique × Binder)) (vs : List Unique) : Nat :=
  vs.countP fun v => (env.lookup v).isSome

def dupCount (env : List (Unique × Binder)) (plan : List (Unique × Nat)) : Nat :=
  known env (plan.flatMap fun p => List.replicate p.2 p.1)

def tailCount (ctx : Ctx) (plan : List (Unique × Nat) × UniqueSet) : Nat :=
  dupCount ctx.env plan.1 + known ctx.env plan.2.toAscList

def projDupCount (b : Binder) : Rhs → Nat
  | .proj .. => if boxedBinder b then 1 else 0
  | _ => 0

mutual

/-- How many dups and drops the plans for an expression ask for. -/
def exprCount (ctx : Ctx) (delta : UniqueSet) : Expr → Nat
  | .ret a => tailCount ctx (retPlan ctx delta a)
  | .let_ b r e =>
      match letPlan ctx delta b r e with
      | .ok plan => rhsCount ctx delta r + dupCount ctx.env plan.dups + projDupCount b r +
          exprCount plan.ctx plan.deltaBody e + known plan.ctx.env plan.deadNow.toAscList
      | .error _ => 0
  | .case_ a alts =>
      let plan := casePlan ctx delta a alts
      altsCount ctx plan.2 plan.1 alts
  | .letJoin j ps jb e =>
      let plan := joinPlan ctx delta j ps jb
      exprCount plan.1 delta e + exprCount (ctxBinds ps plan.1) plan.2 jb
  | .jump j as => tailCount ctx (jumpPlan ctx delta j as)
  | .letRec [] _ => 0
  | .letRec (d₀ :: defs) e =>
      let plan := recPlan ctx delta d₀ (d₀ :: defs) e
      defsCount ctx delta (d₀ :: defs) (d₀ :: defs) + exprCount plan.2.2 plan.2.1 e +
        dupCount ctx.env plan.1
  | .handle e h =>
      exprCount ctx (delta.difference (boxedUniques h.param.toList)) e + handlerCount ctx h
  | .installHandler .. => 0

def altsCount (ctx : Ctx) (outerDelta : UniqueSet) (parent : Option Unique) : List Alt → Nat
  | [] => 0
  | alt :: alts => altCount ctx outerDelta parent alt + altsCount ctx outerDelta parent alts

def altCount (ctx : Ctx) (outerDelta : UniqueSet) (parent : Option Unique) : Alt → Nat
  | .con _ bs e =>
      let kept := keptFields bs e
      let ctx' := ctxBinds bs ctx
      dupCount ctx'.env (kept.map fun b => (binderUnique b, 1)) + known ctx'.env parent.toList +
        exprCount ctx' (outerDelta ++ kept.map binderUnique) e
  | .lit _ e => known ctx.env parent.toList + exprCount ctx outerDelta e
  | .default e => known ctx.env parent.toList + exprCount ctx outerDelta e

def defsCount (ctx : Ctx) (delta : UniqueSet) (group : List Def) : List Def → Nat
  | [] => 0
  | d :: defs => defCount ctx delta group d + defsCount ctx delta group defs

def defCount (ctx : Ctx) (delta : UniqueSet) (group : List Def) : Def → Nat
  | ⟨b, ps, body⟩ => exprCount (defCtx ctx delta group ⟨b, ps, body⟩) (boxedUniques ps) body

def handlerCount (ctx : Ctx) : Handler → Nat
  | ⟨retBinder, retBody, ops, _, param, _⟩ =>
      exprCount (ctxBinds (retBinder :: param.toList) (armCtxReset ctx))
        (boxedUniques (retBinder :: param.toList)) retBody + armsCount ctx param ops

def armsCount (ctx : Ctx) (param : Option Binder) : List OpArm → Nat
  | [] => 0
  | arm :: arms => armCount ctx param arm + armsCount ctx param arms

def armCount (ctx : Ctx) (param : Option Binder) : OpArm → Nat
  | ⟨_, _, args, resume, body⟩ =>
      let bs := args ++ [resume] ++ param.toList
      exprCount { ctxBinds bs (armCtxReset ctx) with resume := [binderUnique resume] }
        (boxedUniques bs) body

def rhsCount (ctx : Ctx) (delta : UniqueSet) : Rhs → Nat
  | .lam ps e =>
      let scope := lamScope ctx delta ps e
      exprCount scope.1 scope.2 e
  | _ => 0

end

def bindCount (tb : TopBind) : Nat :=
  if coveredExpr tb.body then exprCount (ctx0 tb.params) (boxedUniques tb.params) tb.body else 0

def insertions : List TopBind → Nat
  | [] => 0
  | tb :: tbs => insertions tbs + bindCount tb

attribute [grind =] ownExpr exprOccs altOccs rhsOccs eraseExpr eraseRhs exprAdded rhsAdded exprCount
  altCount rhsCount

end Wok.Spec.Perceus
