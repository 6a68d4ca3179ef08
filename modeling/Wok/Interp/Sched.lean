/-
Module: Wok.Interp.Sched
Purpose: The cooperative scheduler behind `runConc`, as the state it keeps
  between the runs it starts.
Imports: Mathlib.Algebra.Order.Ring.Int, Wok.Interp.Value
Trusted boundary: none
Main exports: Owner, Cell, ChanState, Sched, Fold, processStep, schedLoop
-/
import Mathlib.Algebra.Order.Ring.Int
import Wok.Interp.Value

namespace Wok.Interp

open Wok.IR

/-- Which coroutine a step belongs to: the root, an `async` child that fulfils a
promise, or a `spawn` child whose result is dropped. -/
inductive Owner where
  | root
  | fulfils (pid : Int)
  | detached
  deriving Repr, DecidableEq

/-- A parked coroutine: its owner, the value to resume it with, its carrier. -/
structure Parked where
  owner : Owner
  resumeVal : Value
  carrier : Value

/-- A promise cell: the parked awaiters, or the fulfilled value. -/
inductive Cell where
  | pending (waiters : List (Owner × Value))
  | full (v : Value)

/-- A channel: values sent and not yet received, and parked receivers. -/
structure ChanState where
  buffer : List Value
  waiters : List (Owner × Value)

structure Sched where
  nextId : Int
  ready : List Parked
  cells : List (Int × Cell)
  chans : List (Int × ChanState)
  result : Option Value

/-- Size of one interpreter-entry id region. -/
def idRegionBound : Int := 2 ^ 48

/-- Largest region index whose handles still fit in 64 bits. -/
def maxIdRegion : Int := (2 ^ 64 - 1) / idRegionBound

/-- `Map.insert`, replacing the entry of an equal key. -/
def putEntry {α : Type} (key : Int) (a : α) (m : List (Int × α)) : List (Int × α) :=
  (key, a) :: m.filter (fun e => e.1 ≠ key)

def transport (v : Value) : Value := .con "Transport" [v]

def unTransport : Value → Except RuntimeError Value
  | .con "Transport" [v] => .ok v
  | other =>
      .error (.primError ("driveConc: expected a Transport, got " ++ renderValue other))

def enqueue (p : Parked) (st : Sched) : Sched :=
  { st with ready := st.ready ++ [p] }

/-- Mint a fresh handle id; the last id of a region is never handed out. -/
def mint (st : Sched) : Except RuntimeError (Int × Sched) :=
  if (st.nextId + 1) % idRegionBound = 0 then
    .error (.primError "conc: handle id space exhausted for this interpreter entry")
  else .ok (st.nextId, { st with nextId := st.nextId + 1 })

mutual

/-- Whether a value is, or is a data value containing, a captured continuation. -/
def containsCont : Value → Bool
  | .cont .. => true
  | .contP .. => true
  | .con _ fields => anyContainsCont fields
  | .record _ fields => anyFieldContainsCont fields
  | _ => false

def anyContainsCont : List Value → Bool
  | [] => false
  | v :: vs => containsCont v || anyContainsCont vs

def anyFieldContainsCont : List (String × Value) → Bool
  | [] => false
  | (_, v) :: rest => containsCont v || anyFieldContainsCont rest

end

def checkNoCont (boundary : String) (v : Value) : Except RuntimeError Unit :=
  if containsCont v then
    .error (.primError
      ("conc: a continuation cannot cross the transport (carrier in " ++ boundary ++ ")"))
  else .ok ()

/-- A handle that this scheduler did not create. -/
def notOwned (kind : String) (i : Int) : RuntimeError :=
  .primError ("conc: " ++ kind ++ " not owned by this scheduler (created by another runConc, "
    ++ "or forged): " ++ toString i)

/-- Fulfil a promise: cache the value and move its waiters to the ready queue. -/
def fulfil (pid : Int) (raw : Value) (st : Sched) : Except RuntimeError Sched := do
  let v ← unTransport raw
  checkNoCont "Promise" v
  match st.cells.lookup pid with
  | some (.pending ws) =>
      return { st with
        cells := putEntry pid (.full v) st.cells
        ready := st.ready ++ ws.map (fun oc => ⟨oc.1, transport v, oc.2⟩) }
  | some (.full _) =>
      throw (.primError ("driveConc: promise fulfilled twice: " ++ toString pid))
  | none => throw (.primError ("driveConc: fulfil on unknown promise " ++ toString pid))

/-- The effect of folding one step into the scheduler: a new state, or a child
to start first, after whose own first step `after` is enqueued. -/
inductive Fold where
  | settled (st : Sched)
  | start (st : Sched) (starter : Value) (owner : Owner) (after : Parked)

/-- Fold a request of a suspended coroutine. -/
def processRequest (owner : Owner) (reqVal carrier : Value) (st : Sched) :
    Except RuntimeError Fold :=
  match reqVal with
  | .con "ReqYield" [] =>
      return .settled (enqueue ⟨owner, transport (.lit .unit), carrier⟩ st)
  | .con "ReqSpawn" [starterT] => do
      let (fid, st1) ← mint st
      let starter ← unTransport starterT
      return .start st1 starter .detached ⟨owner, transport (.lit (.int fid)), carrier⟩
  | .con "ReqAsync" [starterT] => do
      let (pid, st1) ← mint st
      let starter ← unTransport starterT
      return .start { st1 with cells := putEntry pid (.pending []) st1.cells } starter
        (.fulfils pid) ⟨owner, transport (.lit (.int pid)), carrier⟩
  | .con "ReqAwait" [.lit (.int pid)] =>
      match st.cells.lookup pid with
      | some (.full v) => return .settled (enqueue ⟨owner, transport v, carrier⟩ st)
      | some (.pending ws) =>
          return .settled
            { st with cells := putEntry pid (.pending (ws ++ [(owner, carrier)])) st.cells }
      | none => throw (notOwned "promise" pid)
  | .con "ReqNewChan" [] => do
      let (cid, st1) ← mint st
      return .settled (enqueue ⟨owner, transport (.lit (.int cid)), carrier⟩
        { st1 with chans := putEntry cid ⟨[], []⟩ st1.chans })
  | .con "ReqSend" [.lit (.int cid), msg] => do
      let v ← unTransport msg
      checkNoCont "Chan" v
      match st.chans.lookup cid with
      | some ⟨buf, (rOwner, rCarrier) :: restW⟩ =>
          return .settled (enqueue ⟨owner, transport (.lit .unit), carrier⟩
            (enqueue ⟨rOwner, transport v, rCarrier⟩
              { st with chans := putEntry cid ⟨buf, restW⟩ st.chans }))
      | some ⟨buf, []⟩ =>
          return .settled (enqueue ⟨owner, transport (.lit .unit), carrier⟩
            { st with chans := putEntry cid ⟨buf ++ [v], []⟩ st.chans })
      | none => throw (notOwned "channel" cid)
  | .con "ReqRecv" [.lit (.int cid)] =>
      match st.chans.lookup cid with
      | some ⟨v :: restB, waiters⟩ =>
          return .settled (enqueue ⟨owner, transport v, carrier⟩
            { st with chans := putEntry cid ⟨restB, waiters⟩ st.chans })
      | some ⟨[], waiters⟩ =>
          return .settled
            { st with chans := putEntry cid ⟨[], waiters ++ [(owner, carrier)]⟩ st.chans }
      | none => throw (notOwned "channel" cid)
  | other => throw (.primError ("driveConc: unsupported request: " ++ renderValue other))

/-- Fold the step a coroutine of `owner` has produced. -/
def processStep (owner : Owner) (step : Value) (st : Sched) : Except RuntimeError Fold :=
  match step with
  | .con "Completed" [r] =>
      match owner with
      | .root => return .settled { st with result := some r }
      | .detached => return .settled st
      | .fulfils pid => do
          let st' ← fulfil pid r st
          return .settled st'
  | .con "Suspended" [reqVal, carrier] => processRequest owner reqVal carrier st
  | other => throw (.primError ("driveConc: expected a Step, got " ++ renderValue other))

def Cell.isPending : Cell → Bool
  | .pending _ => true
  | .full _ => false

/-- What the loop does next: the root's result, or a coroutine to resume. -/
inductive Next where
  | finished (r : Value) (nextId : Int)
  | resume (p : Parked) (st : Sched)

/-- One round of the ready queue. -/
def schedLoop (st : Sched) : Except RuntimeError Next :=
  match st.result with
  | some r => return .finished r st.nextId
  | none =>
      match st.ready with
      | [] =>
          if st.cells.any (fun c => c.2.isPending)
              || st.chans.any (fun c => !c.2.waiters.isEmpty) then
            throw (.primError "conc: deadlock")
          else throw (.primError "driveConc: ready queue drained before root completed")
      | p :: rest => return .resume p { st with ready := rest }

end Wok.Interp
