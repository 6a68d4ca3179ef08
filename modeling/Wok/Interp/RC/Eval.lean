/-
Module: Wok.Interp.RC.Eval
Purpose: The transition function of the counted machine and its runs.
Imports: Wok.Interp.RC.Enter
Trusted boundary: none
Main exports: evalRhsRC, evalExprRC, returnToRC, transition, sampleKontPeak, machineBy, runRC
-/
import Wok.Interp.RC.Enter

namespace Wok.Interp.RC

open Wok.IR
open Wok.Lib (System)

/-! ### Right-hand sides -/

/-- Bind a value and go on. -/
def bindConfig (b : Binder) (body : Expr) (sc : RCScope) (k : RCKont) (r : RCValue × Store) :
    RCConfig :=
  .eval body { sc with env := bindRCBinder b r.1 sc.env } k r.2

/-- Put a cell where the region plan says. -/
def allocRouted (env : RCEnv) (b : Binder) (n : Node) (s : Store) : Except Fault (Addr × Store) :=
  match env.placement (binderUnique b) with
  | some .arena => arenaAlloc env.allocator n s
  | _ => alloc env.allocator n s

def insertFieldRC (label : String) (v : RCValue) :
    List (String × RCValue) → List (String × RCValue)
  | [] => [(label, v)]
  | (l, w) :: rest =>
      if label < l then (label, v) :: (l, w) :: rest
      else if label = l then (label, v) :: rest
      else (l, w) :: insertFieldRC label v rest

/-- The fields of a record in the order of their labels; the last of two equal ones stays. -/
def recordFields (fields : List (String × RCValue)) : List (String × RCValue) :=
  fields.foldl (fun m lv => insertFieldRC lv.1 lv.2 m) []

/-- The captures of a lambda. -/
def lamEnv (ps : List Binder) (e : Expr) (sc : RCScope) : REnv :=
  let fvs := (freeVarsExpr e).difference (ps.map binderUnique)
  sc.env.filter fun uv => uv.1 ∈ fvs

/-- The value of a right-hand side that is neither a call nor an operation. -/
def rhsValue (env : RCEnv) (b : Binder) (rhs : Rhs) (sc : RCScope) (s : Store) :
    Except Fault (RCValue × Store) :=
  match rhs with
  | .atom a => resolveRCAtomAlloc env.allocator sc a s
  | .con c as => do
      let (vs, s₁) ← resolveRCAtomsAlloc env.allocator sc as s
      let (a, s') ← allocRouted env b (.con c vs) s₁
      return (.box a, s')
  | .reuseCon tok c as => do
      let tokVal ← resolveRCAtom sc tok
      let (vs, s₁) ← resolveRCAtomsAlloc env.allocator sc as s
      let (a, s') ← allocAt env.allocator tokVal (.con c vs) s₁
      return (.box a, s')
  | .record t flds => do
      let (vs, s₁) ← resolveRCAtomsAlloc env.allocator sc (flds.map (·.2)) s
      let (a, s') ← allocRouted env b (.record t (recordFields ((flds.map (·.1)).zip vs))) s₁
      return (.box a, s')
  | .lam ps e => do
      let (a, s') ← allocRouted env b (mkClosure (lamEnv ps e sc) ps e) s
      return (.box a, s')
  | .proj l a => do
      let v ← resolveRCAtom sc a
      let fv ← projRC l v s
      return (fv, s)
  | .foreignCall lib sym as => do
      let (vs, s₁) ← resolveRCAtomsAlloc env.allocator sc as s
      rcForeignDispatch env.allocator lib sym vs s₁
  | .makeHandler _ => .error (.internal ("proto/handler-values: the RC interpreter does not " ++
      "support handler value construction (reference --run only)"))
  | .app .. => .error (.internal "rhsValue: a call")
  | .op .. => .error (.internal "rhsValue: an operation")

def evalRhsRC (env : RCEnv) (b : Binder) (rhs : Rhs) (body : Expr) (sc : RCScope) (k : RCKont)
    (s : Store) : Except Fault RCConfig :=
  match rhs with
  | .app f as => do
      let (vs, s₁) ← resolveRCAtomsAlloc env.allocator sc as s
      callFn env sc f vs (callKont env b body sc k) s₁
  | .op inst label op as => do
      let (vs, s₁) ← resolveRCAtomsAlloc env.allocator sc as s
      let target ← resolveInstRC sc inst
      rcDispatchOp env.allocator target label op vs (.let_ b body sc :: k) s₁
  | rhs => do
      let r ← rhsValue env b rhs sc s
      return bindConfig b body sc k r

/-! ### Expressions -/

def renderJoin (j : JoinId) : String := "j" ++ toString j.uniq.id

/-- Run the body of a join where the join was bound; it is visible there itself. -/
def jumpRC (j : JoinId) (sc : RCScope) (vs : List RCValue) (s : Store) : Except Fault RCConfig :=
  match sc.joins.lookup j with
  | none => .error (unboundVar (renderJoin j))
  | some jp =>
      if vs.length ≠ jp.params.length then
        .error (arityError ("jump to " ++ renderJoin j ++ ": expected " ++
          toString jp.params.length ++ " argument(s), got " ++ toString vs.length))
      else
        .ok (.eval jp.body
          ⟨bindRCBinders jp.params vs jp.scope.env, (j, jp) :: jp.scope.joins⟩ jp.kont s)

/-- What the members of a group capture, of the variables that are bound around it. -/
def groupCaptures (defs : List Def) (sc : RCScope) : REnv :=
  let group := defs.map fun d => binderUnique d.name
  let caps := defs.flatMap fun d =>
    ((freeVarsExpr d.body).difference (d.params.map binderUnique)).difference group
  (UniqueSet.toAscList caps).filterMap fun u => (sc.env.lookup u).map fun v => (u, v)

/-- Bind the members of a group: one static cell for the code, and one counted cell for the
captures if there are any. -/
def letRecRC (defs : List Def) (body : Expr) (sc : RCScope) (k : RCKont) (s : Store) : RCConfig :=
  let (gAddr, sg) := allocStatic (.groupCode defs) s
  let fields := groupCaptures defs sc
  let (envAddr, sEnv) :=
    if fields.isEmpty then (emptyEnvSentinelAddr, sg) else allocPure (.env fields) sg
  .eval body
    { sc with env := bindRCBinders (defs.map (·.name)) (siblings gAddr defs envAddr) sc.env }
    k sEnv

/-- The scope of a handled body: a named handler binds its self binder. -/
def selfScopeRC (self : Option Binder) (tag : Nat) (sc : RCScope) : RCScope :=
  match self with
  | some sb => { sc with env := bindRCBinder sb (.inst (binderUnique sb) tag) sc.env }
  | none => sc

def evalExprRC (env : RCEnv) (e : Expr) (sc : RCScope) (k : RCKont) (s : Store) :
    Except Fault RCConfig :=
  match e with
  | .ret a => do
      let (v, s') ← resolveRCAtomAlloc env.allocator sc a s
      return .ret v k s'
  | .let_ b rhs body => evalRhsRC env b rhs body sc k s
  | .case_ a alts => do
      let v ← resolveRCAtom sc a
      matchAltsRC v alts sc k s
  | .letJoin j ps jb body =>
      .ok (.eval body { sc with joins := (j, ⟨sc, ps, jb, k⟩) :: sc.joins } k s)
  | .jump j args => do
      let (vs, s₂) ← resolveRCAtomsAlloc env.allocator sc args s
      jumpRC j sc vs s₂
  | .letRec defs body => .ok (letRecRC defs body sc k s)
  | .installHandler .. => .error (.internal ("proto/handler-values: the RC interpreter does " ++
      "not support first-class handler install (reference --run only)"))
  | .handle body h =>
      let tag := kontDepth k
      let sc' := selfScopeRC h.self tag sc
      .ok (.eval body sc' (.handle h tag sc' :: k) s)

/-! ### Returns -/

/-- A view that the death-test watches is noted when it is bound. -/
def registerWindow (env : RCEnv) (b : Binder) (v : RCValue) (s : Store) : Store :=
  match v with
  | .box a => if windowRouted env b then windowRegister a s else s
  | _ => s

def returnToRC (env : RCEnv) (v : RCValue) (k : RCKont) (s : Store) : Except Fault RCConfig :=
  match k with
  | [] => .error (primError "internal: returnToRC KDoneRC")
  | .let_ b body sc :: k => .ok (bindConfig b body sc k (v, registerWindow env b v s))
  | .app args :: k => enterRC false env v args k s
  | .dropCell a :: k => do
      let s' ← drop a s
      return .ret v k s'
  | .arenaClose :: k => do
      let s' ← arenaClose s
      return .ret v k s'
  | .windowClose :: k => do
      let s' ← windowClose s
      return .ret v k s'
  | .borrowClose :: k => .ok (.ret v k (borrowClose s))
  | .handle h _ sc :: k =>
      .ok (.eval h.retBody { sc with env := bindRCBinder h.retBinder v sc.env } k s)

/-- One transition of the machine. -/
def transition (env : RCEnv) : RCConfig → Except Fault RCConfig
  | .ret v k s => returnToRC env v k s
  | .eval e sc k s => evalExprRC env e sc k s

/-! ### Runs -/

def RCConfig.store : RCConfig → Store
  | .eval _ _ _ s => s
  | .ret _ _ s => s

def bumpKontPeak (k : RCKont) (s : Store) : Store :=
  if s.stats.kontPeak < kontDepth k then
    { s with stats := { s.stats with kontPeak := kontDepth k } }
  else s

/-- Note the depth of the continuation, for the diagnostic. -/
def sampleKontPeak : RCConfig → RCConfig
  | .eval e sc k s => .eval e sc k (bumpKontPeak k s)
  | .ret v k s => .ret v k (bumpKontPeak k s)

/-- One step of a run by a transition function: a value that meets the empty continuation
is the result. -/
def stepBy (trans : RCEnv → RCConfig → Except Fault RCConfig) (env : RCEnv) (c : RCConfig) :
    RCConfig ⊕ Except Fault (RCValue × Store) :=
  match if env.kontStat then sampleKontPeak c else c with
  | .ret v [] s => .inr (.ok (v, s))
  | c =>
      match trans env c with
      | .ok c' => .inl c'
      | .error e => .inr (.error e)

def machineBy (trans : RCEnv → RCConfig → Except Fault RCConfig) (env : RCEnv) :
    System RCConfig (Except Fault (RCValue × Store)) :=
  ⟨stepBy trans env⟩

/-- The runs of the machine. -/
def runRC (env : RCEnv) : System RCConfig (Except Fault (RCValue × Store)) :=
  machineBy transition env

end Wok.Interp.RC
