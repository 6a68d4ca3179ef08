/-
Module: Wok.Interp.RC.Intrinsics
Purpose: The intrinsics of reference counting, which the compiler inserts and the machine
  finds by their hint.
Imports: Wok.IR.ReusePairing, Wok.Interp.RC.Prim, Wok.Interp.RC.Reuse
Trusted boundary: none
Main exports: rcDup, rcDrop, rcDropReuse, rcIntrinsics, rcIntrinsicTable
-/
import Wok.IR.ReusePairing
import Wok.Interp.RC.Prim
import Wok.Interp.RC.Reuse

namespace Wok.Interp.RC

open Wok.IR
open Wok.IR.ReusePairing (dropReuseHint)

/-- Take another reference; literals and handles of activations have none. -/
def rcDup : RCPrim where
  name := dupHint
  arity := 1
  fn
    | [.box a], s => do
        let s' ← incref a s
        return (.done (.box a), s')
    | [.lit l], s => .ok (.done (.lit l), s)
    | [.recMember g i e], s => do
        let s' ← incref e s
        return (.done (.recMember g i e), s')
    | [.inst u t], s => .ok (.done (.inst u t), s)
    | _, _ => .error (arityError dupHint)

def rcDrop : RCPrim where
  name := dropHint
  arity := 1
  fn
    | [.box a], s => do
        let s' ← drop a s
        return (.done (.lit .unit), s')
    | [.lit _], s => .ok (.done (.lit .unit), s)
    | [.recMember _ _ e], s => do
        let s' ← drop e s
        return (.done (.lit .unit), s')
    | [.inst ..], s => .ok (.done (.lit .unit), s)
    | _, _ => .error (arityError dropHint)

/-- Drop, with a token for the shell as the result. -/
def rcDropReuse : RCPrim where
  name := dropReuseHint
  arity := 1
  fn
    | [.box a], s => do
        let (tok, s') ← dropReuse a s
        return (.done tok, s')
    | [.lit _], s => .ok (.done (.reuse none), s)
    | [.recMember _ _ e], s => do
        let (tok, s') ← dropReuse e s
        return (.done tok, s')
    | [.inst ..], s => .ok (.done (.reuse none), s)
    | _, _ => .error (arityError dropReuseHint)

def rcIntrinsics : List RCPrim := [rcDup, rcDrop, rcDropReuse]

/-- The intrinsics are under the empty module name. -/
def rcIntrinsicTable (key : String × String) : Option RCPrim :=
  if key.1 = "" then rcIntrinsics.find? (·.name = key.2) else none

end Wok.Interp.RC
