/-
Module: Wok.Interp.Machine
Purpose: The transition function of the reference interpreter.
Imports: Wok.Interp.Foreign
Trusted boundary: none
Main exports: Globals, Stop, Move, resolveAtom, findHandler, answerRebind,
  dispatchOp, resume, enter, evalRhs, evalExpr, returnTo, transition
-/
import Wok.Interp.Foreign

namespace Wok.Interp

open Wok.IR

/-- What the environment of top-level binds holds for a name: a function, a
constant whose value is known, or a constant that has not been forced yet. -/
inductive Global where
  | value (v : Value)
  | unforced

abbrev Globals := Unique → Option Global

/-- Why a transition yields no configuration: a run-time error, or the demand
for a constant that must be forced first. -/
inductive Stop where
  | error (e : RuntimeError)
  | force (u : Unique)

/-- The result of a transition: the next configuration, or a call of the
scheduler whose result goes to `extra` and `k`. -/
inductive Move where
  | config (c : Config)
  | drive (thunk : Value) (extra : List Value) (k : Kont)

abbrev Eff := Except Stop

def fail {α : Type} (e : RuntimeError) : Eff α := .error (.error e)

/-- Lift a result of a primitive or of a foreign call. -/
def liftError {α : Type} : Except RuntimeError α → Eff α
  | .ok a => .ok a
  | .error e => .error (.error e)

/-! ### Atoms -/

/-- Resolve an atom: literal, primitive by name, variable by identity in the
local scope and then among the top-level binds. -/
def resolveAtom (prims : PrimTable) (globals : Globals) (sc : Scope) : Atom → Eff Value
  | .lit l => .ok (.lit l)
  | .prim m name =>
      match prims (m, name) with
      | some _ => .ok (.prim m name [])
      | none => fail (.unboundPrim name)
  | .var n =>
      match sc.env.lookup n.uniq with
      | some v => .ok v
      | none =>
          match globals n.uniq with
          | some (.value v) => .ok v
          | some .unforced => .error (.force n.uniq)
          | none => fail (.unboundVar n.hint)

def resolveAtoms (prims : PrimTable) (globals : Globals) (sc : Scope)
    (as : List Atom) : Eff (List Value) :=
  as.mapM (resolveAtom prims globals sc)

def renderJoin (j : JoinId) : String := "j" ++ toString j.uniq.id

/-! ### Case -/

/-- Select the first alternative that matches the scrutinee. -/
def matchAlts (v : Value) (sc : Scope) (k : Kont) : List Alt → Eff Config
  | [] => fail (.nonExhaustiveCase (renderValue v))
  | .con c bs e :: rest =>
      match v with
      | .con c' vs =>
          if c' = c ∧ bs.length = vs.length then
            .ok (.eval e { sc with env := bindBinders bs vs sc.env } k)
          else matchAlts v sc k rest
      | _ => matchAlts v sc k rest
  | .lit l e :: rest =>
      match v with
      | .lit l' => if l' = l then .ok (.eval e sc k) else matchAlts v sc k rest
      | _ => matchAlts v sc k rest
  | .default e :: _ => .ok (.eval e sc k)

/-! ### Operations -/

/-- The target of an operation: `none` is ambient, `some (u, t)` the activation
with self binder `u` and tag `t`. -/
abbrev Target := Option (Unique × Nat)

def coversOp (label op : String) (h : Handler) : Bool :=
  h.ops.any (fun arm => arm.label == label && arm.op == op)

/-- A named target matches only the handler whose self binder and tag agree. -/
def instOk (target : Target) (h : Handler) (tag : Nat) : Bool :=
  match target with
  | none => true
  | some (u, t) => h.self.map binderUnique == some u && tag == t

/-- What `findHandler` returns: the frames above the handler, the handler with
its activation and scope, and the continuation below it. -/
structure Found where
  above : List Frame
  h : Handler
  act : Activation
  sc : Scope
  below : Kont

/-- Walk outward to the nearest handler frame that covers the operation. -/
def findHandler (target : Target) (label op : String) : Kont → Option Found
  | [] => none
  | .let_ b e sc :: k =>
      (findHandler target label op k).map fun f => { f with above := .let_ b e sc :: f.above }
  | .app vs :: k =>
      (findHandler target label op k).map fun f => { f with above := .app vs :: f.above }
  | .handle h act sc :: k =>
      if coversOp label op h && instOk target h act.depth then some ⟨[], h, act, sc, k⟩
      else
        (findHandler target label op k).map
          fun f => { f with above := .handle h act sc :: f.above }

def lookupOpArm (label op : String) (h : Handler) : Option OpArm :=
  h.ops.find? (fun arm => arm.label == label && arm.op == op)

/-- Make the handler's answer join deliver to the resume site `after`. -/
def answerRebind (h : Handler) (after : Kont) (sc : Scope) : Scope :=
  match h.answerJoin with
  | none => sc
  | some j =>
      match sc.joins.lookup j with
      | none => sc
      | some jp =>
          match jp.params with
          | [] => sc
          | pb0 :: _ =>
              { sc with joins := (j, ⟨sc, jp.params, .ret (.var pb0.name), after⟩) :: sc.joins }

/-- The captured continuation, by whether the handler has a parameter. -/
def resumeValue (f : Found) : Value :=
  match f.h.param with
  | none => .cont f.above f.h f.act f.sc
  | some pb => .contP pb f.above f.h f.act f.sc

/-- The continuation a captured one becomes when it is resumed over `after`. -/
def resumeKont (above : List Frame) (h : Handler) (act : Activation) (sc : Scope)
    (after : Kont) : Kont :=
  above ++ .handle h act (answerRebind h after sc) :: after

/-- The same with a new handler parameter. -/
def resumeKontP (pb : Binder) (newParam : Value) (above : List Frame) (h : Handler)
    (act : Activation) (sc : Scope) (after : Kont) : Kont :=
  above ++ .handle h act
    { answerRebind h after sc with env := bindBinder pb newParam sc.env } :: after

/-- Run the arm of the nearest matching handler under the continuation below it. -/
def dispatchOp (target : Target) (label op : String) (argVals : List Value) (k : Kont) :
    Eff Config :=
  match findHandler target label op k with
  | none => fail (.noMatchingHandler label op)
  | some f =>
      match lookupOpArm label op f.h with
      | none => fail (.noMatchingHandler label op)
      | some arm =>
          let env1 := bindBinders arm.args argVals f.sc.env
          let env2 := bindBinder arm.resume (resumeValue f) env1
          .ok (.eval arm.body ⟨env2, f.sc.joins⟩ f.below)

/-! ### Application -/

/-- Apply a value to arguments. A closure called with too many arguments leaves
the rest in a frame; a primitive collects arguments until it is saturated. -/
def enter (prims : PrimTable) (f : Value) (args : List Value) (k : Kont) : Eff Move :=
  match f with
  | .closure env defs ps body =>
      let cenv := recEnv env defs
      if args.length = ps.length then
        .ok (.config (.eval body ⟨bindBinders ps args cenv, []⟩ k))
      else if args.length < ps.length then
        .ok (.config (.ret
          (.closure (bindBinders (ps.take args.length) args cenv) []
            (ps.drop args.length) body) k))
      else
        .ok (.config (.eval body ⟨bindBinders ps (args.take ps.length) cenv, []⟩
          (.app (args.drop ps.length) :: k)))
  | .prim m name held =>
      match prims (m, name) with
      | none => fail (.unboundPrim name)
      | some p =>
          let combined := held ++ args
          if combined.length < p.arity then .ok (.config (.ret (.prim m name combined) k))
          else
            let extra := combined.drop p.arity
            match p.fn (combined.take p.arity) with
            | .error e => fail e
            | .ok (.done v) =>
                if extra.isEmpty then .ok (.config (.ret v k))
                else .ok (.config (.apply v extra k))
            | .ok (.apply g gargs) => .ok (.config (.apply g (gargs ++ extra) k))
            | .ok (.drive thunk) => .ok (.drive thunk extra k)
  | .cont above h act sc =>
      match args with
      | [v] => .ok (.config (.ret v (resumeKont above h act sc k)))
      | _ => fail (.arityError "continuation expects exactly one argument")
  | .contP pb above h act sc =>
      match args with
      | [param, result] =>
          .ok (.config (.ret result (resumeKontP pb param above h act sc k)))
      | _ => fail (.arityError "parameterized continuation expects exactly two arguments")
  | _ => fail (.notAFunction (renderValue f))

/-! ### Evaluation -/

/-- The instance handle an operation goes through. -/
def resolveTarget (prims : PrimTable) (globals : Globals) (sc : Scope) :
    Option Atom → Eff (Option (Unique × Activation))
  | none => .ok none
  | some a => do
      match ← resolveAtom prims globals sc a with
      | .inst u act => .ok (some (u, act))
      | other =>
          fail (.primError ("internal: instance handle not a VInst: " ++ renderValue other))

/-- What dispatch reads of an instance handle. -/
def targetOf (inst : Option (Unique × Activation)) : Target :=
  inst.map fun ua => (ua.1, ua.2.depth)

def evalRhs (prims : PrimTable) (globals : Globals) (b : Binder) (rhs : Rhs) (body : Expr)
    (sc : Scope) (k : Kont) : Eff Move :=
  let cont := fun v => Move.config (.eval body { sc with env := bindBinder b v sc.env } k)
  match rhs with
  | .atom a => do
      let v ← resolveAtom prims globals sc a
      return cont v
  | .con c as => do
      let vs ← resolveAtoms prims globals sc as
      return cont (.con c vs)
  | .lam ps e => return cont (.closure sc.env [] ps e)
  | .record t fields => do
      let vs ← resolveAtoms prims globals sc (fields.map Prod.snd)
      return cont (.record t (fieldMap ((fields.map Prod.fst).zip vs)))
  | .makeHandler h => return cont (.handler h sc.env)
  | .proj l a => do
      match ← resolveAtom prims globals sc a with
      | .record _ m =>
          match m.lookup l with
          | some v => return cont v
          | none => fail (.badProjection l)
      | _ => fail (.badProjection l)
  | .reuseCon .. =>
      fail (.primError "RReuseCon: produced only by reusePairing post-pass")
  | .app f as => do
      let fv ← resolveAtom prims globals sc f
      let vs ← resolveAtoms prims globals sc as
      enter prims fv vs (.let_ b body sc :: k)
  | .op inst label op as => do
      let vs ← resolveAtoms prims globals sc as
      let target ← resolveTarget prims globals sc inst
      let c ← dispatchOp (targetOf target) label op vs (.let_ b body sc :: k)
      return .config c
  | .foreignCall lib sym as => do
      let vs ← resolveAtoms prims globals sc as
      let v ← liftError (evalForeignCall lib sym vs)
      return cont v

/-- The scope of a handled body: a named handler binds its self binder to an
instance handle for this activation. -/
def selfScope (self : Option Binder) (act : Activation) (sc : Scope) : Scope :=
  match self with
  | some sb => { sc with env := bindBinder sb (.inst (binderUnique sb) act) sc.env }
  | none => sc

@[simp] theorem selfScope_joins (self : Option Binder) (act : Activation) (sc : Scope) :
    (selfScope self act sc).joins = sc.joins := by
  cases self <;> rfl

/-- Evaluate an expression; `serial` is the number of installs made so far. -/
def evalExpr (prims : PrimTable) (globals : Globals) (serial : Nat) (e : Expr) (sc : Scope)
    (k : Kont) : Eff Move :=
  match e with
  | .ret a => do
      let v ← resolveAtom prims globals sc a
      return .config (.ret v k)
  | .let_ b rhs body => evalRhs prims globals b rhs body sc k
  | .case_ a alts => do
      let v ← resolveAtom prims globals sc a
      let c ← matchAlts v sc k alts
      return .config c
  | .letRec defs body =>
      return .config (.eval body { sc with env := recEnv sc.env defs } k)
  | .letJoin j ps jbody body =>
      return .config (.eval body { sc with joins := (j, ⟨sc, ps, jbody, k⟩) :: sc.joins } k)
  | .jump j args => do
      let vs ← resolveAtoms prims globals sc args
      match sc.joins.lookup j with
      | none => fail (.unboundVar (renderJoin j))
      | some jp =>
          if vs.length ≠ jp.params.length then
            fail (.arityError ("jump to " ++ renderJoin j ++ ": expected "
              ++ toString jp.params.length ++ " argument(s), got " ++ toString vs.length))
          else
            -- `j` is visible again in its own body, so a join may loop.
            return .config (.eval jp.body
              ⟨bindBinders jp.params vs jp.scope.env, (j, jp) :: jp.scope.joins⟩ jp.kont)
  | .installHandler a self body => do
      match ← resolveAtom prims globals sc a with
      | .handler h env =>
          let act : Activation := ⟨kontDepth k, serial⟩
          let h' := match self with
            | some sb => { h with self := some sb }
            | none => h
          return .config (.eval body (selfScope self act sc)
            (.handle h' act { sc with env := env } :: k))
      | _ => fail (.primError "InstallHandler: not a handler value")
  | .handle body h =>
      let act : Activation := ⟨kontDepth k, serial⟩
      let sc' := selfScope h.self act sc
      return .config (.eval body sc' (.handle h act sc' :: k))

/-- Deliver a value to a continuation. -/
def returnTo (prims : PrimTable) (v : Value) : Kont → Eff Move
  | [] => fail (.primError "internal: returnTo KDone")
  | .let_ b body sc :: k =>
      return .config (.eval body { sc with env := bindBinder b v sc.env } k)
  | .app args :: k => enter prims v args k
  | .handle h _ sc :: k =>
      return .config (.eval h.retBody { sc with env := bindBinder h.retBinder v sc.env } k)

/-- One transition of the interpreter, for a configuration that is not final. -/
def transition (prims : PrimTable) (globals : Globals) (serial : Nat) : Config → Eff Move
  | .eval e sc k => evalExpr prims globals serial e sc k
  | .ret v k => returnTo prims v k
  | .apply f args k => enter prims f args k

/-- The value a configuration is about to apply, and the continuation under which
it applies it. -/
def Config.applied (prims : PrimTable) (globals : Globals) : Config → Option (Value × Kont)
  | .eval (.let_ b (.app f _) body) sc k =>
      match resolveAtom prims globals sc f with
      | .ok v => some (v, .let_ b body sc :: k)
      | .error _ => none
  | .ret v (.app _ :: k) => some (v, k)
  | .apply f _ k => some (f, k)
  | _ => none

/-- The continuation of a configuration. -/
def Config.kont : Config → Kont
  | .eval _ _ k => k
  | .ret _ k => k
  | .apply _ _ k => k

/-- Whether a transition installs a handler. -/
def Config.installs : Config → Bool
  | .eval (.handle ..) _ _ => true
  | .eval (.installHandler ..) _ _ => true
  | _ => false

end Wok.Interp
