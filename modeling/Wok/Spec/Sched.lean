/-
Module: Wok.Spec.Sched
Purpose: The runs of one scheduler whose coroutines may ask anything in any order, what
  has been asked of it, and the order it keeps; the runs of a program with what has
  happened to each of its schedulers.
Imports: Mathlib.Logic.Function.Basic, Wok.Interp.Run, Wok.Lib.Rendezvous
Trusted boundary: none
Main exports: Drive, Drive.next, History, Drive.Run, Orderly, Log, Program.logged
-/
import Mathlib.Logic.Function.Basic
import Wok.Interp.Run
import Wok.Lib.Rendezvous

namespace Wok.Interp

open Wok.Lib (System)
open Wok.Lib.Rendezvous (pairs unpaired)

/-! ### Runs -/

/-- A scheduler while a coroutine of `owner` runs; those of `pending` wait for the first
step of a child that they have started. -/
structure Drive where
  st : Sched
  owner : Owner
  pending : List Parked

inductive Drive.Outcome where
  | resumed (p : Parked) (d : Drive)
  | started (starter : Value) (d : Drive)
  | finished (r : Value) (nextId : Int)

/-- The coroutine that runs has come to the step `v`, and the supply to `nextId`. -/
def Drive.next (d : Drive) (v : Value) (nextId : Int) : Except RuntimeError Drive.Outcome := do
  match ← processStep d.owner v { d.st with nextId := nextId } with
  | .settled st' =>
      match ← schedLoop (d.pending.foldl (fun q p => enqueue p q) st') with
      | .finished r n => return .finished r n
      | .resume p st'' => return .resumed p ⟨st'', p.owner, []⟩
  | .start st' starter owner' after => return .started starter ⟨st', owner', after :: d.pending⟩

/-- A coroutine that waits: its owner and its carrier. -/
abbrev Fiber := Owner × Value

def Parked.fiber (p : Parked) : Fiber := (p.owner, p.carrier)

/-- What a suspended coroutine has asked for. -/
inductive Ask where
  | send (cid : Int) (v : Value)
  | receive (cid : Int)
  | await (pid : Int)
  | other

/-- What a step asks for, with the carrier; nothing when it is not a suspension. -/
def askOf : Value → Option (Ask × Value)
  | .con "Suspended" [.con "ReqSend" [.lit (.int cid), .con "Transport" [v]], c] =>
      some (.send cid v, c)
  | .con "Suspended" [.con "ReqRecv" [.lit (.int cid)], c] => some (.receive cid, c)
  | .con "Suspended" [.con "ReqAwait" [.lit (.int pid)], c] => some (.await pid, c)
  | .con "Suspended" [_, c] => some (.other, c)
  | _ => none

/-- What has been asked of a scheduler: all suspensions, those that are acknowledged with
a literal, the values sent on each channel, who has asked to receive from it and who has
asked for each promise, each in order. -/
structure History where
  suspended : List Fiber
  acked : List Fiber
  sent : Int → List Value
  asked : Int → List Fiber
  awaited : Int → List Fiber

def History.empty : History := ⟨[], [], fun _ => [], fun _ => [], fun _ => []⟩

/-- One more at the end of the list of `i`. -/
def addTo {α : Type} (i : Int) (a : α) (f : Int → List α) : Int → List α :=
  Function.update f i (f i ++ [a])

def History.note (h : History) (owner : Owner) (v : Value) : History :=
  match askOf v with
  | none => h
  | some (ask, c) =>
      let h := { h with suspended := h.suspended ++ [(owner, c)] }
      match ask with
      | .send cid x =>
          { h with acked := h.acked ++ [(owner, c)], sent := addTo cid x h.sent }
      | .receive cid => { h with asked := addTo cid (owner, c) h.asked }
      | .await pid => { h with awaited := addTo pid (owner, c) h.awaited }
      | .other => { h with acked := h.acked ++ [(owner, c)] }

/-- The runs of a scheduler that starts with the supply `n₀`: what its coroutines have asked
for, the resumptions so far, and its state. A coroutine may come to any step, and the
supply may have been advanced by other schedulers in the meantime. -/
inductive Drive.Run (n₀ : Int) : History → List Parked → Drive → Prop where
  | start : Drive.Run n₀ .empty [] ⟨⟨n₀, [], [], [], none⟩, .root, []⟩
  | resumed {h : History} {done : List Parked} {d d' : Drive} {v : Value} {n : Int} {p : Parked}
      (hrun : Drive.Run n₀ h done d) (hsupply : d.st.nextId ≤ n)
      (hnext : d.next v n = .ok (.resumed p d')) :
      Drive.Run n₀ (h.note d.owner v) (done ++ [p]) d'
  | started {h : History} {done : List Parked} {d d' : Drive} {v : Value} {n : Int}
      {starter : Value} (hrun : Drive.Run n₀ h done d) (hsupply : d.st.nextId ≤ n)
      (hnext : d.next v n = .ok (.started starter d')) :
      Drive.Run n₀ (h.note d.owner v) done d'

/-! ### Order -/

/-- Who waits on the channels, and who on the promises. -/
def chanFibers (st : Sched) : List Fiber := st.chans.flatMap fun e => e.2.waiters

def Cell.waiters : Cell → List Fiber
  | .pending ws => ws
  | .full _ => []

def cellFibers (st : Sched) : List Fiber := st.cells.flatMap fun e => e.2.waiters

/-- The coroutine as it is resumed with a value. -/
def wake (v : Value) (w : Fiber) : Parked := ⟨w.1, transport v, w.2⟩

/-- The first to ask of a channel gets the first value sent, the second one the second. -/
def deliveries (h : History) (cid : Int) : List Parked :=
  pairs (fun w v => wake v w) (h.asked cid) (h.sent cid)

/-- Those who have asked for a promise that is fulfilled get its value. -/
def answers (h : History) (e : Int × Cell) : List Parked :=
  match e.2 with
  | .pending _ => []
  | .full v => (h.awaited e.1).map (wake v)

/-- The order that a scheduler keeps. -/
structure Orderly (h : History) (done : List Parked) (d : Drive) : Prop where
  /-- A channel holds the values and the receivers that came last. -/
  fifo : ∀ cid ch, d.st.chans.lookup cid = some ch →
    ch.buffer = unpaired (h.sent cid) (h.asked cid) ∧
      ch.waiters = unpaired (h.asked cid) (h.sent cid)
  /-- It does not hold both. -/
  exclusive : ∀ cid ch, d.st.chans.lookup cid = some ch → ch.buffer = [] ∨ ch.waiters = []
  /-- Every suspended coroutine has been resumed once or is in one place. -/
  once : h.suspended.Perm
    ((done ++ d.st.ready ++ d.pending).map Parked.fiber ++ chanFibers d.st ++ cellFibers d.st)
  /-- What coroutines are resumed with: an acknowledgement, the value of their turn on a
  channel, or the value of a promise, once each. -/
  delivered : ∃ acks : List Parked, (acks.map Parked.fiber).Perm h.acked ∧
    (∀ a ∈ acks, ∃ l, a.resumeVal = transport (.lit l)) ∧
    (done ++ d.st.ready ++ d.pending).Perm
      (acks ++ (d.st.chans.flatMap fun e => deliveries h e.1) ++
        d.st.cells.flatMap (answers h))

/-! ### Whole programs -/

/-- The schedulers under way, the innermost first. -/
def drives (host : List HostFrame) : List Drive :=
  host.filterMap fun
    | .forcing .. => none
    | .driving st owner pending _ _ => some ⟨st, owner, pending⟩

/-- What has happened to a scheduler, and its number among those of the run. -/
structure DriveLog where
  serial : Nat
  history : History
  resumed : List Parked

/-- What has happened in a run: the handles that have been minted, with the numbers of
their schedulers, how many schedulers have been started, and those under way, the
innermost first. -/
structure Log where
  minted : List (Nat × Int)
  started : Nat
  active : List DriveLog

def Log.empty : Log := ⟨[], 0, []⟩

/-- The handle that a step mints when the supply stands at `nextId`. -/
def mintedBy (v : Value) (nextId : Int) : Option Int :=
  match v with
  | .con "Suspended" [.con "ReqSpawn" [_], _] => some nextId
  | .con "Suspended" [.con "ReqAsync" [_], _] => some nextId
  | .con "Suspended" [.con "ReqNewChan" [], _] => some nextId
  | _ => none

/-- A scheduler is started. -/
def Log.opened (l : Log) : Log :=
  { l with started := l.started + 1, active := ⟨l.started, .empty, []⟩ :: l.active }

/-- The innermost scheduler folds the step `v`. -/
def Log.folded (l : Log) (d : Drive) (v : Value) (nextId : Int) : Log :=
  match l.active with
  | [] => l
  | e :: rest =>
      { l with
        minted := l.minted ++ ((mintedBy v nextId).map fun i => (e.serial, i)).toList
        active :=
          match d.next v nextId with
          | .ok (.resumed p _) =>
              ⟨e.serial, e.history.note d.owner v, e.resumed ++ [p]⟩ :: rest
          | .ok (.started ..) => ⟨e.serial, e.history.note d.owner v, e.resumed⟩ :: rest
          | _ => rest }

namespace Program

/-- What the step from `s` adds. -/
def note (p : Program) (s : State) (l : Log) : Log :=
  match s.cfg, s.host with
  | .ret v [], .driving st owner pending _ _ :: _ => l.folded ⟨st, owner, pending⟩ v s.nextId
  | .ret _ [], _ => l
  | cfg, _ =>
      match transition p.prims (p.globals s.consts) s.installs cfg with
      | .ok (.drive ..) => l.opened
      | _ => l

/-- The runs of a program together with what has happened in them. -/
def logged (p : Program) : System (State × Log) (Except RuntimeError Value) :=
  ⟨fun x =>
    match p.system.step x.1 with
    | .inl t => .inl (t, p.note x.1 x.2)
    | .inr r => .inr r⟩

end Program

end Wok.Interp
