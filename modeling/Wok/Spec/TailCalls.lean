/-
Module: Wok.Spec.TailCalls
Layer: Spec
Purpose: What the contraction of calls in tail position must not change: the machine that
  pushes every frame, and the view of a run that leaves out the frames that only hand
  their value on, the tags of activations and the depth diagnostic.
Imports: Wok.Interp.RC.Eval, Wok.Lib.Commutes
Trusted boundary: none
Main exports: transitionPlain, runPlain, inert, contractScope, contractKont, contractNode,
  contractStore, shownConfig, silent, delivery, Store.Clear, RCEnv.Uniform
-/
import Wok.Interp.RC.Eval
import Wok.Lib.Commutes

namespace Wok.Interp.RC

open Wok.IR
open Wok.Interp (Target)
open Wok.Lib (System mapVal mapSnd)

/-! ### The machine without the contraction -/

/-- A call under the frame of its `let`, whatever the body of the `let` is. -/
def callPlain (env : RCEnv) (b : Binder) (f : Atom) (as : List Atom) (body : Expr)
    (sc : RCScope) (k : RCKont) (s : Store) : Except Fault RCConfig := do
  let (vs, s₁) ← resolveRCAtomsAlloc env.allocator sc as s
  callFn env sc f vs (.let_ b body sc :: k) s₁

def transitionPlain (env : RCEnv) : RCConfig → Except Fault RCConfig
  | .eval (.let_ b (.app f as) body) sc k s => callPlain env b f as body sc k s
  | c => transition env c

/-- The runs of the machine that pushes every frame. -/
def runPlain (env : RCEnv) : System RCConfig (Except Fault (RCValue × Store)) :=
  machineBy transitionPlain env

/-! ### The view -/

/-- A frame that only hands its value on. -/
def inert (env : RCEnv) (b : Binder) (body : Expr) : Bool :=
  isTailReturn b body && ! windowRouted env b

/-- Handles of activations are told apart by their binders only. -/
def contractValue : RCValue → RCValue
  | .inst u _ => .inst u 0
  | v => v

def contractEnv (e : REnv) : REnv := mapSnd contractValue e

mutual

def contractScope (env : RCEnv) : RCScope → RCScope
  | ⟨e, joins⟩ => ⟨contractEnv e, contractJoins env joins⟩

def contractJoins (env : RCEnv) : List (JoinId × RCJoin) → List (JoinId × RCJoin)
  | [] => []
  | jp :: joins =>
      match jp with
      | (j, p) => (j, contractJoin env p) :: contractJoins env joins

def contractJoin (env : RCEnv) : RCJoin → RCJoin
  | ⟨sc, params, body, k⟩ => ⟨contractScope env sc, params, body, contractKont env k⟩

def contractFrame (env : RCEnv) : RCFrame → List RCFrame
  | .let_ b body sc => if inert env b body then [] else [.let_ b body (contractScope env sc)]
  | .app args => [.app (args.map contractValue)]
  | .handle h _ sc => [.handle h 0 (contractScope env sc)]
  | .dropCell a => [.dropCell a]
  | .arenaClose => [.arenaClose]
  | .windowClose => [.windowClose]
  | .borrowClose => [.borrowClose]

def contractKont (env : RCEnv) : List RCFrame → List RCFrame
  | [] => []
  | fr :: k => contractFrame env fr ++ contractKont env k

end

def contractNode (env : RCEnv) : Node → Node
  | .con t vs => .con t (vs.map contractValue)
  | .array vs => .array (vs.map contractValue)
  | .record t fields => .record t (mapSnd contractValue fields)
  | .closure e ps body mode => .closure (contractEnv e) ps body mode
  | .env e => .env (contractEnv e)
  | .cont pfx h _ sc => .cont (contractKont env pfx) h 0 (contractScope env sc)
  | n => n

def contractCell (env : RCEnv) (c : Cell) : Cell := ⟨c.rc, contractNode env c.node, c.bytes⟩

/-- A store with the cells of the view. -/
def contractStore (env : RCEnv) (s : Store) : Store :=
  { s with
    cells := mapVal (contractCell env) s.cells
    stats := { s.stats with kontPeak := 0 } }

/-- The value that an expression hands on as it is. -/
def boundReturn (sc : RCScope) : Expr → Option RCValue
  | .ret (.var n) => sc.env.lookup n.uniq
  | _ => none

def contractConfig (env : RCEnv) : RCConfig → RCConfig
  | .ret v k s => .ret (contractValue v) (contractKont env k) (contractStore env s)
  | .eval e sc k s => .eval e (contractScope env sc) (contractKont env k) (contractStore env s)

/-- Read the variable that a configuration is about to hand on. -/
def handOn : RCConfig → RCConfig
  | .ret v k s => .ret v k s
  | .eval e sc k s =>
      match boundReturn sc e with
      | some v => .ret v k s
      | none => .eval e sc k s

def shownConfig (env : RCEnv) (c : RCConfig) : RCConfig := handOn (contractConfig env c)

/-- A configuration that is about to hand a value to a frame that hands it on, or to hand on
the value of a variable. -/
def silent (env : RCEnv) : RCConfig → Bool
  | .ret _ (.let_ b body _ :: _) _ => inert env b body
  | .ret .. => false
  | .eval e sc _ _ => (boundReturn sc e).isSome

/-- The store that a step is taken from, as it is seen; silent steps leave it as it is. -/
def shownStore (env : RCEnv) (c : RCConfig) : Option Store :=
  if silent env c then none else some (contractStore env c.store)

def shownResult (env : RCEnv) (r : Except Fault (RCValue × Store)) :
    Except Fault (RCValue × Store) :=
  r.map fun vs => (contractValue vs.1, contractStore env vs.2)

attribute [grind =] contractValue contractFrame contractKont contractNode contractConfig boundReturn
  handOn silent

/-! ### What the view depends on -/

/-- The handlers on a continuation. -/
def handlerCount (k : RCKont) : Nat :=
  k.countP fun
    | .handle .. => true
    | _ => false

/-- The handler that an operation is delivered to, as the number of handlers above it. -/
def handlerIndex (target : Target) (label op : String) (k : RCKont) : Option Nat :=
  (rcFindHandler target label op k).map fun f => handlerCount f.above

/-- Where an operation through a handle goes, when one is performed next. -/
def delivery (env : RCEnv) : RCConfig → Option (Option Nat)
  | .eval (.let_ _ (.op (some a) label op as) _) sc k s =>
      if (resolveRCAtomsAlloc env.allocator sc as s).isOk then
        (resolveInstRC sc (some a)).toOption.map fun target => handlerIndex target label op k
      else none
  | _ => none

/-- No reuse token whose shell is still reserved is in the scope of a frame that only hands
its value on. -/
def frameClear (env : RCEnv) (reserved : Finset Addr) : RCFrame → Prop
  | .let_ b body sc =>
      inert env b body = true → reservationsFromValues reserved (sc.env.map (·.2)) = []
  | _ => True

def kontClear (env : RCEnv) (reserved : Finset Addr) (k : RCKont) : Prop :=
  ∀ fr ∈ k, frameClear env reserved fr

def nodeClear (env : RCEnv) (reserved : Finset Addr) : Node → Prop
  | .cont pfx _ _ _ => kontClear env reserved pfx
  | _ => True

/-- The frames that continuations in the heap hold are clear. -/
def cellsClear (env : RCEnv) (cells : AList fun _ : Int => Cell) (reserved : Finset Addr) :
    Prop :=
  ∀ i c, cells.lookup i = some c → nodeClear env reserved c.node

def Store.Clear (env : RCEnv) (s : Store) : Prop := cellsClear env s.cells s.reserved

/-! ### What the runtime around the machine may depend on -/

def contractPrimResult : RCPrimResult → RCPrimResult
  | .done v => .done (contractValue v)
  | .apply f args => .apply (contractValue f) (args.map contractValue)

/-- A primitive neither looks at the frames of a continuation nor at the tag of a handle,
and what it reserves goes into the token that is its result. -/
structure RCPrim.Uniform (env : RCEnv) (p : RCPrim) : Prop where
  view : ∀ vs s, s.Clear env →
    p.fn (vs.map contractValue) (contractStore env s) =
      (p.fn vs s).map fun r => (contractPrimResult r.1, contractStore env r.2)
  keeps : ∀ vs s r, s.Clear env → p.fn vs s = .ok r →
    r.2.Clear env ∨ ∃ slot, r.1 = .done (.reuse slot)

/-- The C runtime places cells without a look at the continuations of the machine. -/
structure Allocator.Uniform (env : RCEnv) (A : Allocator) : Prop where
  pick : ∀ s, A.pick (contractStore env s) = A.pick s
  buffer : ∀ s, A.buffer (contractStore env s) = A.buffer s

structure RCEnv.Uniform (env : RCEnv) : Prop where
  allocator : env.allocator.Uniform env
  prims : ∀ key p, env.prims key = some p → p.Uniform env

end Wok.Interp.RC
