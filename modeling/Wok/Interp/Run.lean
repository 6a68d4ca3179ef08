/-
Module: Wok.Interp.Run
Purpose: Whole runs of a module on the reference interpreter. The interpreter
  calls itself to force a constant and to run a coroutine; here the suspended
  outer runs are a stack, so that every configuration any of these runs passes
  through is a state of one transition system.
Imports: Wok.Interp.Machine, Wok.Interp.Sched, Wok.Lib.System
Trusted boundary: none
Main exports: HostFrame, State, Program, Program.initial, Program.stepBy,
  Program.system, Program.runModule
-/
import Wok.Interp.Machine
import Wok.Interp.Sched
import Wok.Lib.System

namespace Wok.Interp

open Wok.IR
open Wok.Lib (System)

/-- A run that waits for another run to finish. -/
inductive HostFrame where
  /-- `saved` is the configuration that demanded the constant `u`. -/
  | forcing (u : Unique) (saved : Config) (nextId : Int)
  /-- The run under way belongs to the coroutine `owner`; once its step is folded
  the coroutines of `pending` are enqueued. The scheduler's result goes to `extra`
  and `k`. -/
  | driving (st : Sched) (owner : Owner) (pending : List Parked) (extra : List Value)
      (k : Kont)

/-- The state of a program's run: the running configuration, the id supply, the
number of handler installs so far, the constants forced so far and the suspended
outer runs. -/
structure State where
  cfg : Config
  nextId : Int
  installs : Nat
  consts : List (Unique × Value)
  host : List HostFrame

structure Program where
  prims : PrimTable
  module : CoreModule

/-- The start of a run of an expression on its own. -/
def State.start (body : Expr) : State := ⟨.eval body emptyScope [], 0, 0, [], []⟩

namespace Program

/-- A module with the one bind `main`. -/
def ofMain (prims : PrimTable) (body : Expr) : Program :=
  ⟨prims, ⟨[⟨⟨"main", ⟨0⟩⟩, [], body⟩]⟩⟩

/-- The last bind of a name, as `Map.fromList` keeps it. -/
def lookupBind (p : Program) (u : Unique) : Option TopBind :=
  p.module.binds.reverse.find? (fun tb => tb.name.uniq = u)

/-- The knot-tied environment of top-level binds. A function closes over this
environment itself, so its own environment is empty. -/
def globals (p : Program) (consts : List (Unique × Value)) : Globals := fun u =>
  match p.lookupBind u with
  | none => none
  | some tb =>
      if tb.params.isEmpty then
        match consts.lookup u with
        | some v => some (.value v)
        | none => some .unforced
      else some (.value (.closure [] [] tb.params tb.body))

/-- The identities of the zero-arity binds, in bind order. -/
def cafUniqs (p : Program) : List Unique :=
  (p.module.binds.filter (·.params.isEmpty)).map (·.name.uniq)

/-- The first handle id of a constant's region; the last of equal names wins. -/
def cafSeed (p : Program) (u : Unique) : Int :=
  match ((p.cafUniqs.zipIdx 1).reverse.find? (fun ui => ui.1 = u)) with
  | some ui => ui.2 * idRegionBound
  | none => 0

/-- The start of a run of `main`. -/
def initial (p : Program) : Except RuntimeError State :=
  if maxIdRegion < (p.cafUniqs.length : Int) then
    .error (.primError ("too many top-level constants for the conc handle id-region scheme (max "
      ++ toString maxIdRegion ++ ")"))
  else
    match p.module.binds.find? (fun tb => tb.name.hint = "main") with
    | some ⟨_, [], body⟩ => .ok (State.start body)
    | some _ => .error (.arityError "main must take no arguments")
    | none => .error (.unboundVar "main")

theorem initial_ofMain (prims : PrimTable) (body : Expr) :
    (ofMain prims body).initial = .ok (State.start body) := rfl

/-- Continue a scheduler whose fold is settled. -/
def continueSched (s : State) (st : Sched) (extra : List Value) (k : Kont)
    (rest : List HostFrame) : Except RuntimeError State := do
  match ← schedLoop st with
  | .finished r nextId =>
      let cfg := if extra.isEmpty then Config.ret r k else Config.apply r extra k
      return { s with cfg := cfg, nextId := nextId, host := rest }
  | .resume p st' =>
      return { s with
        cfg := .apply p.carrier [p.resumeVal] []
        nextId := st'.nextId
        host := .driving st' p.owner [] extra k :: rest }

/-- The run under way has ended with `v` and an outer run takes it over. -/
def finish (s : State) (v : Value) : HostFrame → List HostFrame → Except RuntimeError State
  | .forcing u saved nextId, rest =>
      return { s with cfg := saved, nextId := nextId, consts := (u, v) :: s.consts, host := rest }
  | .driving st owner pending extra k, rest => do
      match ← processStep owner v { st with nextId := s.nextId } with
      | .settled st' => continueSched s (pending.foldl (fun q p => enqueue p q) st') extra k rest
      | .start st' starter owner' after =>
          return { s with
            cfg := .apply starter [.lit .unit] []
            nextId := st'.nextId
            host := .driving st' owner' (after :: pending) extra k :: rest }

/-- Carry out the move a transition asks for. -/
def move (s : State) (installed : Bool) : Move → State
  | .config c => { s with cfg := c, installs := s.installs + installed.toNat }
  | .drive thunk extra k =>
      { s with
        cfg := .apply thunk [.lit .unit] []
        host := .driving ⟨s.nextId, [], [], [], none⟩ .root [] extra k :: s.host }

/-- Start the run that forces the constant `u`. -/
def forceConst (p : Program) (s : State) (u : Unique) : Except RuntimeError State :=
  match p.lookupBind u with
  | none => .error (.unboundVar "")
  | some tb =>
      .ok { s with
        cfg := .eval tb.body emptyScope []
        nextId := p.cafSeed u
        host := .forcing u s.cfg s.nextId :: s.host }

/-- A transition function: primitives, top-level environment, number of installs. -/
abbrev Transition := PrimTable → Globals → Nat → Config → Eff Move

/-- A state's successor under a transition function: the next state, or the
result of the run. -/
def stepBy (tr : Transition) (p : Program) (s : State) : State ⊕ Except RuntimeError Value :=
  match s.cfg, s.host with
  | .ret v [], [] => .inr (.ok v)
  | .ret v [], fr :: rest =>
      match finish s v fr rest with
      | .ok s' => .inl s'
      | .error e => .inr (.error e)
  | cfg, _ =>
      match tr p.prims (p.globals s.consts) s.installs cfg with
      | .ok m => .inl (move s cfg.installs m)
      | .error (.force u) =>
          match p.forceConst s u with
          | .ok s' => .inl s'
          | .error e => .inr (.error e)
      | .error (.error e) => .inr (.error e)

/-- The runs of a program under a transition function. -/
def systemBy (tr : Transition) (p : Program) : System State (Except RuntimeError Value) :=
  ⟨p.stepBy tr⟩

/-- The runs of a program on the reference interpreter. -/
abbrev system (p : Program) : System State (Except RuntimeError Value) :=
  p.systemBy transition

/-- Run the module's `main` for at most `fuel` steps. -/
def runModuleBy (tr : Transition) (p : Program) (fuel : Nat) :
    Option (Except RuntimeError Value) :=
  match p.initial with
  | .error e => some (.error e)
  | .ok s => (p.systemBy tr).run fuel s

def runModule (p : Program) (fuel : Nat) : Option (Except RuntimeError Value) :=
  p.runModuleBy transition fuel

end Program

end Wok.Interp
