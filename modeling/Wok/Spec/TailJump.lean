/-
Module: Wok.Spec.TailJump
Layer: Spec
Purpose: What a join point is for: a local function that is called in tail
  position. The machine below runs a join's body under the continuation that is
  current at the jump and never reads the one stored with the join.
Imports: Wok.Interp.Run
Trusted boundary: none
Main exports: transitionTail, Program.systemTail, Program.runModuleTail
-/
import Wok.Interp.Run

namespace Wok.Spec

open Wok.IR Wok.Interp
open Wok.Lib (System)

/-- Call the join `j` in tail position: its body runs in the scope of its
binding, under the continuation `k` of the jump. -/
def jumpTail (prims : PrimTable) (globals : Globals) (j : JoinId) (args : List Atom)
    (sc : Scope) (k : Kont) : Eff Move := do
  let vs ← resolveAtoms prims globals sc args
  match sc.joins.lookup j with
  | none => fail (.unboundVar (renderJoin j))
  | some jp =>
      if vs.length ≠ jp.params.length then
        fail (.arityError ("jump to " ++ renderJoin j ++ ": expected "
          ++ toString jp.params.length ++ " argument(s), got " ++ toString vs.length))
      else
        return .config (.eval jp.body
          ⟨bindBinders jp.params vs jp.scope.env, (j, jp) :: jp.scope.joins⟩ k)

/-- The interpreter's transition with jumps as tail calls. -/
def transitionTail (prims : PrimTable) (globals : Globals) (serial : Nat) : Config → Eff Move
  | .eval (.jump j args) sc k => jumpTail prims globals j args sc k
  | cfg => transition prims globals serial cfg

end Wok.Spec

namespace Wok.Interp.Program

open Wok.Lib (System)

/-- The runs of a program whose jumps are tail calls. -/
def systemTail (p : Program) : System State (Except RuntimeError Value) :=
  p.systemBy Wok.Spec.transitionTail

def runModuleTail (p : Program) (fuel : Nat) : Option (Except RuntimeError Value) :=
  p.runModuleBy Wok.Spec.transitionTail fuel

end Wok.Interp.Program
