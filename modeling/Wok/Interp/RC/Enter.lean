/-
Module: Wok.Interp.RC.Enter
Purpose: Applications and operations of the counted machine: the brackets of a body, calls of
  closures, of members of a recursive group and of primitives, captured continuations.
Imports: Wok.IR.ReusePairing, Wok.Interp.Machine, Wok.Interp.RC.Array,
  Wok.Interp.RC.Brackets, Wok.Interp.RC.Foreign, Wok.Interp.RC.Machine, Wok.Interp.RC.Reuse
Trusted boundary: none
Main exports: RCEnv, resolveRCAtom, resolveRCAtomsAlloc, isTailReturn, windowRouted, callKont,
  enterBodyRC, enterRC, enterPrim, callFn, rcFindHandler, rcDispatchOp
-/
import Wok.IR.ReusePairing
import Wok.Interp.Machine
import Wok.Interp.RC.Array
import Wok.Interp.RC.Brackets
import Wok.Interp.RC.Foreign
import Wok.Interp.RC.Machine
import Wok.Interp.RC.Reuse

namespace Wok.Interp.RC

open Wok.IR
open Wok.IR.ReusePairing (dropReuseHint)
open Wok.Interp (Target coversOp instOk lookupOpArm)

/-! ### The context of a run -/

inductive Placement where
  | arena
  | heap
  deriving Repr, DecidableEq

inductive SliceRep where
  | window
  | counted
  | copy
  deriving Repr, DecidableEq

/-- What every step reads: the primitives, the region plan, the switches of the
death-test and of the depth diagnostic, and where the C runtime puts cells. -/
structure RCEnv where
  prims : String × String → Option RCPrim
  placement : Unique → Option Placement
  sliceRep : Unique → Option SliceRep
  forceWindow : List Unique
  deathTest : Bool
  kontStat : Bool
  allocator : Allocator

/-- The depth of a continuation. The brackets of an activation do not count. -/
def kontDepth : RCKont → Nat
  | [] => 0
  | .arenaClose :: k => kontDepth k
  | .windowClose :: k => kontDepth k
  | .borrowClose :: k => kontDepth k
  | .let_ .. :: k => kontDepth k + 1
  | .app _ :: k => kontDepth k + 1
  | .handle .. :: k => kontDepth k + 1
  | .dropCell _ :: k => kontDepth k + 1

/-! ### Atoms -/

def unboundVar (hint : String) : Fault := .runtime (.unboundVar hint)

def resolveRCAtom (sc : RCScope) : Atom → Except Fault RCValue
  | .lit l => .ok (.lit l)
  | .prim _ name => .error (.runtime (.unboundPrim name))
  | .var n =>
      match sc.env.lookup n.uniq with
      | some v => .ok v
      | none => .error (unboundVar n.hint)

/-- An atom whose value is owned: a string literal becomes a cell. -/
def resolveRCAtomAlloc (A : Allocator) (sc : RCScope) (a : Atom) (s : Store) :
    Except Fault (RCValue × Store) :=
  match a with
  | .lit (.str t) => do
      let (x, s') ← alloc A (.string (encodeUtf8 t)) s
      return (.box x, s')
  | a => do
      let v ← resolveRCAtom sc a
      return (v, s)

def resolveRCAtomsAlloc (A : Allocator) (sc : RCScope) :
    List Atom → Store → Except Fault (List RCValue × Store)
  | [], s => .ok ([], s)
  | a :: as, s => do
      let (v, s₁) ← resolveRCAtomAlloc A sc a s
      let (vs, s₂) ← resolveRCAtomsAlloc A sc as s₁
      return (v :: vs, s₂)

/-- The instance handle that an operation goes through. -/
def resolveInstRC (sc : RCScope) : Option Atom → Except Fault Target
  | none => .ok none
  | some a => do
      match ← resolveRCAtom sc a with
      | .inst u tag => return some (u, tag)
      | _ => .error (primError "internal: instance handle not an RVInst")

/-! ### Bodies -/

mutual

/-- Whether a `let` of the expression meets `p`. The bodies of lambdas and of local
functions are activations of their own. -/
def anyLet (p : Binder → Rhs → Bool) : Expr → Bool
  | .ret _ => false
  | .let_ b rhs e => p b rhs || anyLet p e
  | .letRec _ e => anyLet p e
  | .case_ _ alts => anyLetAlts p alts
  | .letJoin _ _ jb e => anyLet p jb || anyLet p e
  | .jump _ _ => false
  | .handle e h => anyLet p e || anyLetHandler p h
  | .installHandler _ _ e => anyLet p e

def anyLetAlts (p : Binder → Rhs → Bool) : List Alt → Bool
  | [] => false
  | alt :: alts => anyLetAlt p alt || anyLetAlts p alts

def anyLetAlt (p : Binder → Rhs → Bool) : Alt → Bool
  | .con _ _ e => anyLet p e
  | .lit _ e => anyLet p e
  | .default e => anyLet p e

def anyLetHandler (p : Binder → Rhs → Bool) : Handler → Bool
  | ⟨_, retBody, ops, _, _, _⟩ => anyLet p retBody || anyLetArms p ops

def anyLetArms (p : Binder → Rhs → Bool) : List OpArm → Bool
  | [] => false
  | arm :: arms => anyLetArm p arm || anyLetArms p arms

def anyLetArm (p : Binder → Rhs → Bool) : OpArm → Bool
  | ⟨_, _, _, _, body⟩ => anyLet p body

end

/-- Whether a body allocates in an arena of its own. -/
def bodyOpensArena (plc : Unique → Option Placement) : Expr → Bool :=
  anyLet fun b _ => plc (binderUnique b) = some .arena

/-- Whether a body can be lent a buffer. -/
def bodyLendsBorrow : Expr → Bool :=
  anyLet fun _ rhs =>
    match rhs with
    | .foreignCall lib sym _ => lendsBorrow lib sym
    | _ => false

def isTailReturn (b : Binder) : Expr → Bool
  | .ret (.var n) => n.uniq = binderUnique b
  | _ => false

/-- A slice that the death-test watches. -/
def windowRouted (env : RCEnv) (b : Binder) : Bool :=
  env.deathTest &&
    (env.sliceRep (binderUnique b) = some .window || binderUnique b ∈ env.forceWindow)

/-- The continuation of a call. A call in tail position runs under the continuation of its
caller: the frame would only hand its value on. -/
def callKont (env : RCEnv) (b : Binder) (body : Expr) (sc : RCScope) (k : RCKont) : RCKont :=
  if isTailReturn b body ∧ ¬ windowRouted env b then k else .let_ b body sc :: k

/-- Enter a body in its brackets, the one for lent buffers outermost. -/
def enterBodyRC (env : RCEnv) (body : Expr) (sc : RCScope) (k₀ : RCKont) (s₀ : Store) :
    Except Fault RCConfig :=
  let (s, k) := if bodyLendsBorrow body then (borrowOpen s₀, .borrowClose :: k₀) else (s₀, k₀)
  let (s, k) := if env.deathTest then (windowOpen s, .windowClose :: k) else (s, k)
  if bodyOpensArena env.placement body then do
    let s' ← arenaOpenRC s
    return .eval body sc (.arenaClose :: k) s'
  else .ok (.eval body sc k s)

/-! ### Application -/

def notAFunction (what : String) : Fault := .runtime (.notAFunction what)

def increfAll (as : List Addr) (s : Store) : Except Fault Store :=
  as.foldlM (fun s a => incref a s) s

/-- Drop the cell once the body has returned. -/
def deferConsume (consumes : Bool) (a : Addr) (k : RCKont) : RCKont :=
  if consumes then .dropCell a :: k else k

/-- Apply a closure. Its cell is borrowed at a named call head, and used up otherwise. -/
def enterClosure (borrowHead : Bool) (env : RCEnv) (addr : Addr) (cenv : REnv)
    (ps : List Binder) (body : Expr) (mode : CaptureMode) (args : List RCValue) (k : RCKont)
    (s : Store) : Except Fault RCConfig :=
  let borrowOnly := isUncounted addr
  let owned := if borrowOnly then [] else closureOwnedBoxed (.closure cenv ps body mode)
  let consumes := ! borrowHead && ! borrowOnly
  if args.length = ps.length then do
    let s' ← increfAll owned s
    enterBodyRC env body ⟨bindRCBinders ps args cenv, []⟩ (deferConsume consumes addr k) s'
  else if args.length < ps.length then do
    let cenv' := bindRCBinders (ps.take args.length) args cenv
    let (a', s₁) ← alloc env.allocator (.closure cenv' (ps.drop args.length) body mode) s
    let s₂ ← increfAll (countedRefs (cenv.map (·.2))) s₁
    let s₃ ← if consumes then drop addr s₂ else .ok s₂
    return .ret (.box a') k s₃
  else do
    let s' ← increfAll owned s
    enterBodyRC env body ⟨bindRCBinders ps (args.take ps.length) cenv, []⟩
      (.app (args.drop ps.length) :: deferConsume consumes addr k) s'

/-- The captures that the members of a recursive group share. -/
def memberEnv (e : Addr) (s : Store) : Except Fault REnv :=
  match e with
  | .heap i =>
      match derefPure i s with
      | .ok ⟨_, .env m, _⟩ => .ok m
      | .ok _ =>
          if e = emptyEnvSentinelAddr then .ok []
          else .error (primError ("RVRecMember env addr is not NEnv: " ++ showHAddr i))
      | .error err => if e = emptyEnvSentinelAddr then .ok [] else .error err
  | .c _ => .error (primError "deref: C-heap address has no pure reconstruction")
  | _ => .error (primError "RVRecMember env addr is not NEnv")

/-- The handles of the members of a group. -/
def siblings (group : Addr) (defs : List Def) (env : Addr) : List RCValue :=
  (List.range defs.length).map fun j => .recMember group j env

/-- Apply a member of a recursive group, whose siblings are made anew. -/
def enterMember (borrowHead : Bool) (env : RCEnv) (group : Addr) (i : Nat) (envAddr : Addr)
    (args : List RCValue) (k : RCKont) (s : Store) : Except Fault RCConfig := do
  let gc ← deref group s
  match gc.node with
  | .groupCode defs =>
      match defs[i]? with
      | none => .error (.internal "Prelude.!!: index too large")
      | some d => do
          let envFields ← memberEnv envAddr s
          let names := defs.map (·.name)
          let sibs := siblings group defs envAddr
          let ps := d.params
          let base := bindRCBinders names sibs envFields
          if args.length = ps.length then
            enterBodyRC env d.body ⟨bindRCBinders ps args base, []⟩
              (deferConsume (! borrowHead) envAddr k) s
          else if ps.length < args.length then
            enterBodyRC env d.body ⟨bindRCBinders ps (args.take ps.length) base, []⟩
              (.app (args.drop ps.length) :: deferConsume (! borrowHead) envAddr k) s
          else
            let cenv := bindRCBinders (ps.take args.length) args base
            let (a', s₁) ← alloc env.allocator
              (.closure cenv (ps.drop args.length) d.body .borrowCaptures) s
            let s₂ ← increfAll
              (countedRefs ((bindRCBinders names sibs []).map (·.2) ++ envFields.map (·.2))) s₁
            let s₃ ← if borrowHead then .ok s₂ else drop envAddr s₂
            return .ret (.box a') k s₃
  | _ => .error (notAFunction "RVRecMember group addr is not NGroupCode")

/-! ### Captured continuations -/

/-- Make the handler's answer join deliver to the resume site `after`. -/
def answerRebindRC (h : Handler) (after : RCKont) (sc : RCScope) : RCScope :=
  match h.answerJoin with
  | none => sc
  | some j =>
      match sc.joins.lookup j with
      | none => sc
      | some jp =>
          match jp.params with
          | [] => sc
          | pb0 :: _ =>
              { sc with joins := (j, ⟨sc, jp.params, .ret (.var pb0.name), after⟩) :: sc.joins }

def spliceKont (pfx tl : RCKont) : RCKont := pfx ++ tl

/-- Resume a continuation: its frames go back onto the stack. -/
def resumeRC (addr : Addr) (args : List RCValue) (k : RCKont) (s : Store) :
    Except Fault RCConfig := do
  let (c, s') ← moveOutCont addr s
  match c.h.param, args with
  | none, [v] =>
      return .ret v (spliceKont c.pfx (.handle c.h c.tag (answerRebindRC c.h k c.sc) :: k)) s'
  | some pb, [newParam, result] =>
      let hsc := { c.sc with env := bindRCBinder pb newParam c.sc.env }
      return .ret result (spliceKont c.pfx (.handle c.h c.tag (answerRebindRC c.h k hsc) :: k)) s'
  | _, _ => .error (arityError "resume arity does not match handler parameter")

/-- What `rcFindHandler` returns: the frames above the handler, the handler with its tag and
scope, and the continuation below it. -/
structure RCFound where
  above : RCKont
  h : Handler
  tag : Nat
  sc : RCScope
  below : RCKont

def RCFound.push (fr : RCFrame) (f : RCFound) : RCFound := { f with above := fr :: f.above }

/-- Walk outward to the nearest handler frame that covers the operation. -/
def rcFindHandler (target : Target) (label op : String) : RCKont → Option RCFound
  | [] => none
  | .handle h tag sc :: k =>
      if coversOp label op h && instOk target h tag then some ⟨[], h, tag, sc, k⟩
      else (rcFindHandler target label op k).map (·.push (.handle h tag sc))
  | .let_ b e sc :: k => (rcFindHandler target label op k).map (·.push (.let_ b e sc))
  | .app vs :: k => (rcFindHandler target label op k).map (·.push (.app vs))
  | .dropCell a :: k => (rcFindHandler target label op k).map (·.push (.dropCell a))
  | .arenaClose :: k => (rcFindHandler target label op k).map (·.push .arenaClose)
  | .windowClose :: k => (rcFindHandler target label op k).map (·.push .windowClose)
  | .borrowClose :: k => (rcFindHandler target label op k).map (·.push .borrowClose)

def noMatchingHandler (label op : String) : Fault := .runtime (.noMatchingHandler label op)

/-- Run the arm of the handler found, with the frames above it in a new cell. -/
def runArm (A : Allocator) (label op : String) (vs : List RCValue) (s : Store) (f : RCFound) :
    Except Fault RCConfig :=
  match lookupOpArm label op f.h with
  | none => .error (noMatchingHandler label op)
  | some arm => do
      let (cAddr, s') ← alloc A (.cont f.above f.h f.tag f.sc) s
      let env1 := bindRCBinders arm.args vs f.sc.env
      let env2 := bindRCBinder arm.resume (.box cAddr) env1
      return .eval arm.body ⟨env2, f.sc.joins⟩ f.below s'

def rcDispatchOp (A : Allocator) (target : Target) (label op : String) (vs : List RCValue)
    (k : RCKont) (s : Store) : Except Fault RCConfig :=
  match rcFindHandler target label op k with
  | none => .error (noMatchingHandler label op)
  | some f => runArm A label op vs s f

/-! ### Calls -/

/-- Apply a value; at a named call head it is borrowed. -/
def enterRC (borrowHead : Bool) (env : RCEnv) (fv : RCValue) (args : List RCValue) (k : RCKont)
    (s : Store) : Except Fault RCConfig :=
  match fv with
  | .box addr => do
      let c ← deref addr s
      match c.node with
      | .closure cenv ps body mode =>
          enterClosure borrowHead env addr cenv ps body mode args k s
      | .cont .. => resumeRC addr args k s
      | _ => .error (notAFunction "applied a non-closure heap node")
  | .lit _ => .error (notAFunction "applied a literal")
  | .recMember group i envAddr => enterMember borrowHead env group i envAddr args k s
  | .inst .. => .error (notAFunction "applied an instance handle")
  | .reuse _ => .error (notAFunction "applied a reuse token")

/-- Hand on what a primitive left, with the arguments it did not take. -/
def afterPrim (env : RCEnv) (rest : List RCValue) (k : RCKont) (r : RCPrimResult × Store) :
    Except Fault RCConfig :=
  match r with
  | (.done v, s) => if rest.isEmpty then .ok (.ret v k s) else enterRC false env v rest k s
  | (.apply g gargs, s) => enterRC false env g (gargs ++ rest) k s

def enterPrim (env : RCEnv) (p : RCPrim) (args : List RCValue) (k : RCKont) (s : Store) :
    Except Fault RCConfig :=
  if args.length < p.arity then
    .error (arityError
      (p.name ++ ": partial application of a primitive is unsupported in rc M1"))
  else do
    let r ← p.fn (args.take p.arity) s
    afterPrim env (args.drop p.arity) k r

/-- The function that a call head names: the primitive, or the value of a variable. Only
the intrinsics of reference counting are found by their hint. -/
def calleeRC (env : RCEnv) (sc : RCScope) : Atom → Except Fault (RCPrim ⊕ RCValue)
  | .lit _ => .error (notAFunction "literal")
  | .prim m name =>
      match env.prims (m, name) with
      | some p => .ok (.inl p)
      | none => .error (.runtime (.unboundPrim name))
  | .var n =>
      match sc.env.lookup n.uniq with
      | some fv => .ok (.inr fv)
      | none =>
          if n.hint = dupHint ∨ n.hint = dropHint ∨ n.hint = dropReuseHint then
            match env.prims ("", n.hint) with
            | some p => .ok (.inl p)
            | none => .error (unboundVar n.hint)
          else .error (unboundVar n.hint)

def callFn (env : RCEnv) (sc : RCScope) (f : Atom) (args : List RCValue) (k : RCKont)
    (s : Store) : Except Fault RCConfig := do
  match ← calleeRC env sc f with
  | .inl p => enterPrim env p args k s
  | .inr fv => enterRC true env fv args k s

end Wok.Interp.RC
