/-
Module: Wok.IR.ReusePairing
Purpose: The pass that pairs the drop of a matched cell with a later allocation of the
  same constructor, which may then reuse the cell.
Imports: Wok.IR.Perceus
Trusted boundary: none
Main exports: SlotClass, conSlotSig, targetSlotSig, findTarget, findDrop, goExpr,
  reusePairing
-/
import Wok.IR.Perceus

namespace Wok.IR.ReusePairing

open Wok.TypeChecking (CType)

/-! ### Slot signatures -/

/-- The storage class of a constructor's field. -/
inductive SlotClass where
  | litInt
  | litChar
  | litUnit
  | pointer
  | nonEncodable
  deriving Repr, DecidableEq

def slotClassOf : CType → SlotClass
  | .con .u64 [] => .litInt
  | .con .u32 [] => .litInt
  | .con .char [] => .litChar
  | .con .unit [] => .litUnit
  | .con .string [] => .pointer
  | .con .bytes [] => .pointer
  | _ => .pointer

/-- The classes of a constructor's fields, from their types. -/
def conSlotSig (ts : List CType) : List SlotClass := ts.map slotClassOf

def litSlotClass : Lit → SlotClass
  | .int _ => .litInt
  | .str _ => .pointer
  | .char _ => .litChar
  | .unit => .litUnit

/-- The types of the binders in scope, the latest first. -/
abbrev TyEnv := List (Unique × CType)

def bindType (b : Binder) (env : TyEnv) : TyEnv := (binderUnique b, b.type) :: env

def bindTypes (bs : List Binder) (env : TyEnv) : TyEnv := bs.foldr bindType env

/-- `none` for a field whose type is not known. -/
def atomSlotClass (env : TyEnv) : Atom → Option SlotClass
  | .lit l => some (litSlotClass l)
  | .var n => (env.lookup n.uniq).map slotClassOf
  | .prim .. => none

def targetSlotSig (env : TyEnv) (as : List Atom) : Option (List SlotClass) :=
  as.mapM (atomSlotClass env)

/-! ### The names of the pass -/

def dropReuseHint : String := "__rc_drop_reuse"

def dropReuseName : Name := ⟨dropReuseHint, ⟨-1⟩⟩

def tokHint : String := "_tok"

/-- The variable that a call of `__rc_drop` drops, if it is this one. -/
def dropTargetOf (p : Unique) : Rhs → Option Name
  | .app (.var h) [.var v] => if h.hint = dropHint ∧ v.uniq = p then some v else none
  | _ => none

/-! ### One alternative -/

/-- From the drop on, the first allocation along the bindings that is of the matched
constructor with the matched signature. The result puts a token into it. The search stops
at a closure and at an operation, which would capture the token. -/
def findTarget (env : TyEnv) (mc : String) (sig : List SlotClass) :
    Expr → Option (Atom → Expr)
  | .let_ b rhs rest =>
      let continue_ := (findTarget (bindType b env) mc sig rest).map fun rebuild tok =>
        .let_ b rhs (rebuild tok)
      match rhs with
      | .con c fields =>
          if c = mc ∧ targetSlotSig env fields = some sig then
            some fun tok => .let_ b (.reuseCon tok c fields) rest
          else continue_
      | .lam .. => none
      | .op .. => none
      | _ => continue_
  | _ => none

/-- Along the bindings of an alternative, the drop of the scrutinee; with a target for its
cell it becomes the producer of a token, and the target its consumer. -/
def findDrop (env : TyEnv) (mc : String) (p : Unique) (sig : List SlotClass) (sup : Int) :
    Expr → Int × Expr
  | .let_ b rhs rest =>
      match dropTargetOf p rhs with
      | some v =>
          match findTarget (bindType b env) mc sig rest with
          | some rebuild =>
              let tokN : Name := ⟨tokHint, ⟨sup⟩⟩
              (sup + 1, .let_ ⟨tokN, unitTy⟩ (.app (.var dropReuseName) [.var v])
                (rebuild (.var tokN)))
          | none => (sup, .let_ b rhs rest)
      | none =>
          let (sup', rest') := findDrop (bindType b env) mc p sig sup rest
          (sup', .let_ b rhs rest')
  | e => (sup, e)

/-- The variable that a case takes apart. -/
def scrutinee : Atom → Option Unique
  | .var n => some n.uniq
  | _ => none

/-- A nullary constructor has no cell, so its match is left alone. -/
def tryRewriteAlt (env : TyEnv) (scr : Option Unique) (c : String) (bs : List Binder)
    (sup : Int) (body : Expr) : Int × Expr :=
  match scr with
  | some p => if bs.isEmpty then (sup, body)
      else findDrop env c p (conSlotSig (bs.map (·.type))) sup body
  | none => (sup, body)

/-! ### The pass -/

mutual

/-- The arms of handlers are left alone. -/
def goExpr (env : TyEnv) (sup : Int) : Expr → Int × Expr
  | .ret a => (sup, .ret a)
  | .jump j as => (sup, .jump j as)
  | .let_ b rhs body =>
      let (sup₁, rhs') := goRhs env sup rhs
      let (sup₂, body') := goExpr (bindType b env) sup₁ body
      (sup₂, .let_ b rhs' body')
  | .letRec defs body =>
      let env' := bindTypes (defs.map (·.name)) env
      let (sup₁, defs') := goDefs env' sup defs
      let (sup₂, body') := goExpr env' sup₁ body
      (sup₂, .letRec defs' body')
  | .letJoin j ps jbody body =>
      let (sup₁, jbody') := goExpr (bindTypes ps env) sup jbody
      let (sup₂, body') := goExpr env sup₁ body
      (sup₂, .letJoin j ps jbody' body')
  | .handle e h =>
      let (sup₁, e') := goExpr env sup e
      (sup₁, .handle e' h)
  | .installHandler a self body =>
      let (sup₁, body') := goExpr env sup body
      (sup₁, .installHandler a self body')
  | .case_ scrut alts =>
      let (sup', alts') := goAlts env (scrutinee scrut) sup alts
      (sup', .case_ scrut alts')

/-- The body of a lambda is the only right-hand side with an expression to rewrite. -/
def goRhs (env : TyEnv) (sup : Int) : Rhs → Int × Rhs
  | .lam ps e =>
      let (sup', e') := goExpr (bindTypes ps env) sup e
      (sup', .lam ps e')
  | r => (sup, r)

def goAlts (env : TyEnv) (scr : Option Unique) (sup : Int) : List Alt → Int × List Alt
  | [] => (sup, [])
  | alt :: alts =>
      let (sup₁, alt') := rewriteAlt env scr sup alt
      let (sup₂, alts') := goAlts env scr sup₁ alts
      (sup₂, alt' :: alts')

def goDefs (env : TyEnv) (sup : Int) : List Def → Int × List Def
  | [] => (sup, [])
  | d :: ds =>
      let (sup₁, d') := goDef env sup d
      let (sup₂, ds') := goDefs env sup₁ ds
      (sup₂, d' :: ds')

def goDef (env : TyEnv) (sup : Int) : Def → Int × Def
  | ⟨b, ps, body⟩ =>
      let (sup₁, body') := goExpr (bindTypes ps env) sup body
      (sup₁, ⟨b, ps, body'⟩)

/-- First what is nested in the alternative, then the alternative itself. -/
def rewriteAlt (env : TyEnv) (scr : Option Unique) (sup : Int) : Alt → Int × Alt
  | .con c bs body =>
      let (sup₁, body') := goExpr (bindTypes bs env) sup body
      let (sup₂, body'') := tryRewriteAlt (bindTypes bs env) scr c bs sup₁ body'
      (sup₂, .con c bs body'')
  | .lit l body =>
      let (sup', body') := goExpr env sup body
      (sup', .lit l body')
  | .default body =>
      let (sup', body') := goExpr env sup body
      (sup', .default body')

end

/-- One top-level bind, in the scope of its parameters. -/
def stepBind (tb : TopBind) (sup : Int) : Int × TopBind :=
  let (sup', body') := goExpr (bindTypes tb.params []) sup tb.body
  (sup', { tb with body := body' })

/-- The supply goes through the binds from the last to the first. -/
def stepBinds (sup : Int) : List TopBind → Int × List TopBind
  | [] => (sup, [])
  | tb :: tbs =>
      let (sup₁, tbs') := stepBinds sup tbs
      let (sup₂, tb') := stepBind tb sup₁
      (sup₂, tb' :: tbs')

/-- The supply starts above the identities of the module, as that of the insertion of
reference counts does: the source has the walk in both passes. -/
def reusePairing (cm : CoreModule) : CoreModule :=
  ⟨(stepBinds (seedSupply cm) cm.binds).2⟩

end Wok.IR.ReusePairing
