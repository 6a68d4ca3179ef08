/-
Module: Wok.Spec.Handles
Purpose: What a program's schedulers may rely on: that a handle is minted once, whichever
  of them mints it, and which errors of a scheduler a run can report.
Imports: Wok.Spec.Sched
Trusted boundary: none
Main exports: State.loops, Reports, HandlesDistinct
-/
import Wok.Spec.Sched

namespace Wok.Interp

open Wok.IR

/-! ### Constants -/

/-- The constant that a step demands. -/
def Program.demands (p : Program) (s : State) : Option Unique :=
  match transition p.prims (p.globals s.consts) s.installs s.cfg with
  | .error (.force u) => some u
  | _ => none

/-- The constants that are being forced. -/
def forcing (host : List HostFrame) : List Unique :=
  host.filterMap fun
    | .forcing u .. => some u
    | .driving .. => none

/-- A constant is demanded while it is being forced. It has no value then: the host's thunk
waits for itself, and the run comes to no further step. -/
def State.loops (p : Program) (s : State) : Bool :=
  (p.demands s).any fun u => (forcing s.host).contains u

/-! ### Handles -/

/-- A channel or a promise of the scheduler. -/
def Sched.Owns (st : Sched) (i : Int) : Prop :=
  (st.chans.lookup i).isSome ∨ (st.cells.lookup i).isSome

/-- The handles of a run, those of schedulers that are over included. -/
structure HandlesDistinct (l : Log) (ds : List Drive) : Prop where
  /-- No handle is minted twice. -/
  minted : (l.minted.map Prod.snd).Nodup
  serials : (l.active.map DriveLog.serial).Nodup
  /-- A scheduler's channels and promises have handles that it has minted itself, -/
  own : List.Forall₂ (fun d e => ∀ i, d.st.Owns i → (e.serial, i) ∈ l.minted) ds l.active
  /-- and none that another one has minted. -/
  foreign : List.Forall₂
    (fun d e => ∀ n i, (n, i) ∈ l.minted → n ≠ e.serial → ¬ d.st.Owns i) ds l.active

/-! ### Errors -/

/-- What is left of the loop's ready queue, with no result of the root. -/
def Drive.Stalls (d : Drive) (v : Value) (nextId : Int) : Prop :=
  ∃ st', processStep d.owner v { d.st with nextId := nextId } = .ok (.settled st') ∧
    st'.result = none ∧ st'.ready ++ d.pending = []

/-- How a scheduler's step that has `outcome` may fail. -/
structure Reports {α : Type} (d : Drive) (v : Value) (nextId : Int)
    (outcome : α ⊕ Except RuntimeError Value) : Prop where
  drained :
    outcome ≠ .inr (.error (.primError "driveConc: ready queue drained before root completed"))
  twice : ∀ pid : Int,
    outcome ≠ .inr (.error (.primError ("driveConc: promise fulfilled twice: " ++ toString pid)))
  unknown : ∀ pid : Int,
    outcome ≠ .inr (.error (.primError ("driveConc: fulfil on unknown promise " ++ toString pid)))
  /-- A deadlock is reported when no coroutine is ready and the root has not finished, and
  only then. -/
  deadlock : outcome = .inr (.error (.primError "conc: deadlock")) ↔ d.Stalls v nextId

end Wok.Interp
