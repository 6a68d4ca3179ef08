/-
Module: Wok.Spec.ReusePairing
Purpose: What the pairing of drops and allocations must keep to: erasure of the tokens, and
  that each token is made once and then used once on the same path, for a cell of the layout
  of the one that it stands for.
Imports: Wok.IR.ReusePairing, Wok.Spec.Perceus
Trusted boundary: none
Main exports: producerOf, consumerOf, Origin, eraseModule, tokens, linearModule
-/
import Wok.IR.ReusePairing
import Wok.Spec.Perceus

namespace Wok.Spec.ReusePairing

open Wok.IR
open Wok.IR.ReusePairing
open Wok.Spec.Perceus

/-! ### Tokens

A token is a variable whose identity the pass has minted, from `lo` on. -/

/-- A drop that produces a token, with the variable that it drops. -/
def producerOf (lo : Int) (b : Binder) : Rhs → Option Name
  | .app (.var h) [.var v] => if h.hint = dropReuseHint ∧ lo ≤ uOf b.name then some v else none
  | _ => none

/-- An allocation that consumes a token, with the token, the constructor and the fields. -/
def consumerOf (lo : Int) : Rhs → Option (Name × String × List Atom)
  | .reuseCon (.var tok) c as => if lo ≤ uOf tok then some (tok, c, as) else none
  | _ => none

mutual

/-- The tokens that are produced in an expression. -/
def exprTokens (lo : Int) : Expr → List Int
  | .ret _ => []
  | .jump .. => []
  | .let_ b r e =>
      (if (producerOf lo b r).isSome then [uOf b.name] else []) ++
        (rhsTokens lo r ++ exprTokens lo e)
  | .letRec ds e => defsTokens lo ds ++ exprTokens lo e
  | .case_ _ alts => altsTokens lo alts
  | .letJoin _ _ jb e => exprTokens lo jb ++ exprTokens lo e
  | .handle e h => exprTokens lo e ++ handlerTokens lo h
  | .installHandler _ _ e => exprTokens lo e

def defsTokens (lo : Int) : List Def → List Int
  | [] => []
  | d :: ds => defTokens lo d ++ defsTokens lo ds

def defTokens (lo : Int) : Def → List Int
  | ⟨_, _, body⟩ => exprTokens lo body

def altsTokens (lo : Int) : List Alt → List Int
  | [] => []
  | alt :: alts => altTokens lo alt ++ altsTokens lo alts

def altTokens (lo : Int) : Alt → List Int
  | .con _ _ e => exprTokens lo e
  | .lit _ e => exprTokens lo e
  | .default e => exprTokens lo e

def handlerTokens (lo : Int) : Handler → List Int
  | ⟨_, retBody, ops, _, _, _⟩ => exprTokens lo retBody ++ armsTokens lo ops

def armsTokens (lo : Int) : List OpArm → List Int
  | [] => []
  | arm :: arms => armTokens lo arm ++ armsTokens lo arms

def armTokens (lo : Int) : OpArm → List Int
  | ⟨_, _, _, _, body⟩ => exprTokens lo body

def rhsTokens (lo : Int) : Rhs → List Int
  | .lam _ e => exprTokens lo e
  | .makeHandler h => handlerTokens lo h
  | _ => []

end

def tokens (lo : Int) (cm : CoreModule) : List Int :=
  cm.binds.flatMap fun tb => exprTokens lo tb.body

/-- How often a variable stands in a piece, its binder included. -/
def termCount (u : Int) (occs : Occs) : Nat := occs.countP fun p => p = (.term, u)

/-! ### Erasure -/

/-- What an erased drop binds its result `()` to, and the identity of its head, which
nothing reads. -/
structure Origin where
  binder : Binder
  head : Unique

mutual

/-- A drop that produces a token becomes a plain drop, and an allocation that consumes one
a plain allocation. `origin` names the results of the drops. -/
def eraseExpr (lo : Int) (origin : Int → Origin) : Expr → Expr
  | .ret a => .ret a
  | .jump j as => .jump j as
  | .let_ b r e =>
      match producerOf lo b r with
      | some v =>
          let o := origin (uOf b.name)
          .let_ o.binder (.app (.var ⟨dropHint, o.head⟩) [.var v]) (eraseExpr lo origin e)
      | none => .let_ b (eraseRhs lo origin r) (eraseExpr lo origin e)
  | .letRec ds e => .letRec (eraseDefs lo origin ds) (eraseExpr lo origin e)
  | .case_ a alts => .case_ a (eraseAlts lo origin alts)
  | .letJoin j ps jb e => .letJoin j ps (eraseExpr lo origin jb) (eraseExpr lo origin e)
  | .handle e h => .handle (eraseExpr lo origin e) (eraseHandler lo origin h)
  | .installHandler a self e => .installHandler a self (eraseExpr lo origin e)

def eraseDefs (lo : Int) (origin : Int → Origin) : List Def → List Def
  | [] => []
  | d :: ds => eraseDef lo origin d :: eraseDefs lo origin ds

def eraseDef (lo : Int) (origin : Int → Origin) : Def → Def
  | ⟨b, ps, body⟩ => ⟨b, ps, eraseExpr lo origin body⟩

def eraseAlts (lo : Int) (origin : Int → Origin) : List Alt → List Alt
  | [] => []
  | alt :: alts => eraseAlt lo origin alt :: eraseAlts lo origin alts

def eraseAlt (lo : Int) (origin : Int → Origin) : Alt → Alt
  | .con c bs e => .con c bs (eraseExpr lo origin e)
  | .lit l e => .lit l (eraseExpr lo origin e)
  | .default e => .default (eraseExpr lo origin e)

def eraseHandler (lo : Int) (origin : Int → Origin) : Handler → Handler
  | ⟨retBinder, retBody, ops, answerJoin, param, self⟩ =>
      ⟨retBinder, eraseExpr lo origin retBody, eraseArms lo origin ops, answerJoin, param, self⟩

def eraseArms (lo : Int) (origin : Int → Origin) : List OpArm → List OpArm
  | [] => []
  | arm :: arms => eraseArm lo origin arm :: eraseArms lo origin arms

def eraseArm (lo : Int) (origin : Int → Origin) : OpArm → OpArm
  | ⟨label, op, args, resume, body⟩ => ⟨label, op, args, resume, eraseExpr lo origin body⟩

def eraseRhs (lo : Int) (origin : Int → Origin) : Rhs → Rhs
  | .lam ps e => .lam ps (eraseExpr lo origin e)
  | .makeHandler h => .makeHandler (eraseHandler lo origin h)
  | .reuseCon tok c as =>
      match consumerOf lo (.reuseCon tok c as) with
      | some _ => .con c as
      | none => .reuseCon tok c as
  | r => r

end

def eraseModule (lo : Int) (origin : Int → Origin) (cm : CoreModule) : CoreModule :=
  ⟨cm.binds.map fun tb => { tb with body := eraseExpr lo origin tb.body }⟩

/-! ### Linear use -/

/-- A constructor and the signature of its fields. -/
abbrev Layout := String × List SlotClass

/-- A right-hand side that makes a closure or performs an operation. -/
def captures : Rhs → Bool
  | .lam .. => true
  | .op .. => true
  | _ => false

mutual

/-- Tokens are used linearly. On the straight line of an alternative whose scrutinee has
been matched, with its variable and layout in `matched`, a drop of that variable may produce
a token. It is then `pending`: the line has to go on, without a capture, to an allocation of
that layout which consumes it. Elsewhere no token is produced or consumed. -/
def linearExpr (lo : Int) (origin : Int → Origin) (env : TyEnv)
    (matched : Option (Unique × Layout)) (pending : Option (Int × Layout)) : Expr → Prop
  | .ret _ => pending = none
  | .jump .. => pending = none
  | .let_ b r e =>
      match producerOf lo b r with
      | some v =>
          let o := origin (uOf b.name)
          pending = none ∧ ∃ layout, matched = some (v.uniq, layout) ∧
            linearExpr lo origin (bindType o.binder env) none (some (uOf b.name, layout)) e
      | none =>
          match consumerOf lo r with
          | some (tok, c, as) =>
              ∃ sig, pending = some (uOf tok, c, sig) ∧ targetSlotSig env as = some sig ∧
                linearExpr lo origin (bindType b env) none none e
          | none =>
              (pending ≠ none → captures r = false) ∧ linearRhs lo origin env r ∧
                linearExpr lo origin (bindType b env) matched pending e
  | .letRec ds e =>
      let env' := bindTypes (ds.map (·.name)) env
      pending = none ∧ linearDefs lo origin env' ds ∧ linearExpr lo origin env' none none e
  | .case_ a alts => pending = none ∧ linearAlts lo origin env (scrutinee a) alts
  | .letJoin _ ps jb e =>
      pending = none ∧ linearExpr lo origin (bindTypes ps env) none none jb ∧
        linearExpr lo origin env none none e
  | .handle e h =>
      pending = none ∧ linearExpr lo origin env none none e ∧ linearHandler lo origin env h
  | .installHandler _ _ e => pending = none ∧ linearExpr lo origin env none none e

def linearDefs (lo : Int) (origin : Int → Origin) (env : TyEnv) : List Def → Prop
  | [] => True
  | d :: ds => linearDef lo origin env d ∧ linearDefs lo origin env ds

def linearDef (lo : Int) (origin : Int → Origin) (env : TyEnv) : Def → Prop
  | ⟨_, ps, body⟩ => linearExpr lo origin (bindTypes ps env) none none body

def linearAlts (lo : Int) (origin : Int → Origin) (env : TyEnv) (scr : Option Unique) :
    List Alt → Prop
  | [] => True
  | alt :: alts => linearAlt lo origin env scr alt ∧ linearAlts lo origin env scr alts

def linearAlt (lo : Int) (origin : Int → Origin) (env : TyEnv) (scr : Option Unique) :
    Alt → Prop
  | .con c bs e =>
      linearExpr lo origin (bindTypes bs env)
        (scr.map fun p => (p, c, conSlotSig (bs.map (·.type)))) none e
  | .lit _ e => linearExpr lo origin env none none e
  | .default e => linearExpr lo origin env none none e

def linearHandler (lo : Int) (origin : Int → Origin) (env : TyEnv) : Handler → Prop
  | ⟨retBinder, retBody, ops, _, param, _⟩ =>
      linearExpr lo origin (bindTypes (retBinder :: param.toList) env) none none retBody ∧
        linearArms lo origin (bindTypes param.toList env) ops

def linearArms (lo : Int) (origin : Int → Origin) (env : TyEnv) : List OpArm → Prop
  | [] => True
  | arm :: arms => linearArm lo origin env arm ∧ linearArms lo origin env arms

def linearArm (lo : Int) (origin : Int → Origin) (env : TyEnv) : OpArm → Prop
  | ⟨_, _, args, resume, body⟩ =>
      linearExpr lo origin (bindTypes (resume :: args) env) none none body

def linearRhs (lo : Int) (origin : Int → Origin) (env : TyEnv) : Rhs → Prop
  | .lam ps e => linearExpr lo origin (bindTypes ps env) none none e
  | .makeHandler h => linearHandler lo origin env h
  | _ => True

end

def linearModule (lo : Int) (origin : Int → Origin) (cm : CoreModule) : Prop :=
  ∀ tb ∈ cm.binds, linearExpr lo origin (bindTypes tb.params []) none none tb.body

/-- The output of the pass against its input: erasing the tokens gives the input back, tokens
are used linearly, and each stands in the output twice, once where it is produced. -/
structure Pairing (cm out : CoreModule) : Prop where
  erases : ∃ origin, eraseModule (seedSupply cm) origin out = cm ∧
    linearModule (seedSupply cm) origin out
  once : (tokens (seedSupply cm) out).Nodup
  twice : ∀ u, seedSupply cm ≤ u →
    termCount u (moduleOccs out) = 2 * (tokens (seedSupply cm) out).count u

attribute [grind =] exprTokens linearExpr eraseExpr

end Wok.Spec.ReusePairing
