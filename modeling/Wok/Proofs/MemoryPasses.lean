/-
Module: Wok.Proofs.MemoryPasses
Purpose: The two passes that manage memory, in a row: what both have added to a module can be
  erased again, last pass first.
Imports: Wok.Proofs.ReusePairing
Trusted boundary: none
Main exports: memoryPasses, memoryPasses_erases
-/
import Wok.Proofs.ReusePairing

namespace Wok.Proofs.MemoryPasses

open Wok.IR
open Wok.IR.ReusePairing
open Wok.Spec.Perceus (Position moduleOccs)
open Wok.Spec.ReusePairing (linearModule tokens)
open Wok.Proofs.ReusePairing
open Wok.Proofs.Perceus (insertRC_plain insertRC_makes term_mem_module)

/-- Reference counts first, and then reuse of the cells that they free. -/
def memoryPasses (cm : CoreModule) : Except String CoreModule := do
  let counted ← insertRC cm
  return reusePairing counted

/-- The tokens of the pairing can be erased from its output, and are no binders of its input. -/
theorem reusePairing_erased (cm : CoreModule) :
    ∃ origin, Spec.ReusePairing.eraseModule (seedSupply cm) origin (reusePairing cm) = cm ∧
      linearModule (seedSupply cm) origin (reusePairing cm) ∧
      (tokens (seedSupply cm) (reusePairing cm)).Nodup ∧
      ∀ u ∈ tokens (seedSupply cm) (reusePairing cm), (Position.term, u) ∉ moduleOccs cm := by
  rcases module_paired cm with ⟨l, origin, hp, ho, hone, hnew⟩
  have hcount : ∀ u, (tokens (seedSupply cm) (reusePairing cm)).count u = l.count u := hp.tokens
  refine ⟨origin, congrArg CoreModule.mk (hp.erase origin ho), hp.linear origin ho, ?_, ?_⟩
  · exact List.nodup_iff_count_le_one.mpr fun u => (hcount u).trans_le (hone u)
  · intro u hu hterm
    have hlow := term_mem_module hterm
    have hhigh := hnew u (hcount u ▸ List.count_pos_iff.mpr hu)
    omega

/-- `f p = case p of Pair a b -> Pair b a`. -/
def swapModule : CoreModule :=
  let u64 : Wok.TypeChecking.CType := .con .u64 []
  let pair : Wok.TypeChecking.CType := .con (.user "Pair") []
  ⟨[⟨⟨"f", ⟨0⟩⟩, [⟨⟨"p", ⟨1⟩⟩, pair⟩],
    .case_ (.var ⟨"p", ⟨1⟩⟩)
      [.con "Pair" [⟨⟨"a", ⟨2⟩⟩, u64⟩, ⟨⟨"b", ⟨3⟩⟩, u64⟩]
        (.let_ ⟨⟨"q", ⟨4⟩⟩, pair⟩ (.con "Pair" [.var ⟨"b", ⟨3⟩⟩, .var ⟨"a", ⟨2⟩⟩])
          (.ret (.var ⟨"q", ⟨4⟩⟩)))]⟩]⟩

/-- The cell of the pair is used for the pair that is built. -/
example : (memoryPasses swapModule).toOption.map (tokens 6) = some [6] := by rfl

end Wok.Proofs.MemoryPasses
