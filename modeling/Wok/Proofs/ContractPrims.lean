/-
Module: Wok.Proofs.ContractPrims
Purpose: The primitives do not look at the frames of continuations or at the tags of
  activations.
Imports: Wok.Interp.RC.Intrinsics, Wok.Proofs.ContractDrop
Trusted boundary: none
Main exports: dropReuse_commutes, uniform_rcDup, uniform_rcDrop, uniform_rcDropReuse,
  uniform_rcIntrinsicTable
-/
import Wok.Interp.RC.Intrinsics
import Wok.Proofs.ContractDrop

namespace Wok.Interp.RC

open Wok.IR
open Wok.Lib (Commutes mapVal erase_mapVal)

variable {env : RCEnv} {A : Allocator} {s s' : Store}

/-- A result of a primitive, in the view. -/
def contractReturn (env : RCEnv) (r : RCPrimResult × Store) : RCPrimResult × Store :=
  (contractPrimResult r.1, contractStore env r.2)

/-- A primitive that leaves the store clear, or reserves a shell for its result. -/
theorem RCPrim.uniform_of_commutes {p : RCPrim}
    (h : ∀ vs s, s.Clear env → Commutes (contractReturn env)
      (fun r => r.2.Clear env ∨ ∃ slot, r.1 = .done (.reuse slot)) (p.fn vs s)
      (p.fn (vs.map contractValue) (contractStore env s))) : p.Uniform env where
  view := fun vs s hs => (h vs s hs).view
  keeps := fun vs s r hs hr => (h vs s hs).keeps r hr

/-! ### Shells -/

theorem readCConValues_commutes (env : RCEnv) (o : WokObj) (s : Store) :
    Commutes (List.map contractValue) (fun _ => True) (readCConValues o s)
      (readCConValues o (contractStore env s)) :=
  .of_view (readCConValues_contract o s).symm

theorem dropReuseC_commutes (p : Ptr) (hs : s.Clear env) :
    Commutes (contractWith env contractValue) (fun r => ∃ slot, r.1 = .reuse slot)
      (dropReuseC p s) (dropReuseC p (contractStore env s)) := by
  refine .bind (wokDec_commutes p hs) fun r h₁ => ?_
  rcases r with ⟨newrc, o, s₁⟩
  refine .ite (.ok rfl ⟨none, rfl⟩) (.ite (.error _) ?_)
  refine .bind (readCConValues_commutes env o s₁) fun vs _ => ?_
  rw [countedRefs_contract]
  exact .bind (dropAll_commutes (countedRefs vs) h₁) fun s₂ _ => .ok rfl ⟨_, rfl⟩

theorem dropReuseH_commutes (i : Int) (hs : s.Clear env) :
    Commutes (contractWith env contractValue) (fun r => ∃ slot, r.1 = .reuse slot)
      (dropReuseH i s) (dropReuseH i (contractStore env s)) := by
  refine .bind (derefPure_clear i hs) fun c hc => ?_
  refine .ite ?_ (.ok ?_ ⟨none, rfl⟩)
  · have hcells : (contractStore env s).cells.erase i =
        mapVal (contractCell env) (s.cells.erase i) := erase_mapVal _ _ i
    simp only [contractCell, cascadeChildren_contract, nodeArity_contract,
      nodeCEligible_contract, hcells]
    exact .bind (dropAll_commutes (s := { s with cells := s.cells.erase i })
      (cascadeChildren c.node) hs.erase) fun s₁ _ => .ok rfl ⟨_, rfl⟩
  · have hcells := insert_contract env s i { c with rc := c.rc - 1 }
    simp only [contractCell] at hcells ⊢
    rw [hcells]
    rfl

theorem dropReuse_commutes (a : Addr) (hs : s.Clear env) :
    Commutes (contractWith env contractValue) (fun r => ∃ slot, r.1 = .reuse slot)
      (dropReuse a s) (dropReuse a (contractStore env s)) := by
  cases a with
  | heap i =>
      simp only [dropReuse, isArenaAddr_contract]
      exact .ite (.ok rfl ⟨none, rfl⟩) (dropReuseH_commutes i hs)
  | c p =>
      simp only [dropReuse, isArenaAddr_contract]
      exact .ite (.ok rfl ⟨none, rfl⟩) (dropReuseC_commutes p hs)
  | inline t => exact .ok rfl ⟨none, rfl⟩
  | inlineStr bs => exact .ok rfl ⟨none, rfl⟩

/-! ### The intrinsics -/

theorem uniform_rcDup (env : RCEnv) : rcDup.Uniform env := by
  refine RCPrim.uniform_of_commutes fun vs s hs => ?_
  rcases vs with _ | ⟨v, _ | ⟨w, vs⟩⟩
  · exact .error _
  · cases v with
    | box a => exact .bind (incref_commutes a hs) fun s₁ h₁ => .ok rfl (.inl h₁)
    | lit l => exact .ok rfl (.inl hs)
    | recMember g i e => exact .bind (incref_commutes e hs) fun s₁ h₁ => .ok rfl (.inl h₁)
    | inst u t => exact .ok rfl (.inl hs)
    | reuse slot => exact .error _
  · cases v <;> exact .error _

theorem uniform_rcDrop (env : RCEnv) : rcDrop.Uniform env := by
  refine RCPrim.uniform_of_commutes fun vs s hs => ?_
  rcases vs with _ | ⟨v, _ | ⟨w, vs⟩⟩
  · exact .error _
  · cases v with
    | box a => exact .bind (drop_commutes a hs) fun s₁ h₁ => .ok rfl (.inl h₁)
    | lit l => exact .ok rfl (.inl hs)
    | recMember g i e => exact .bind (drop_commutes e hs) fun s₁ h₁ => .ok rfl (.inl h₁)
    | inst u t => exact .ok rfl (.inl hs)
    | reuse slot => exact .error _
  · cases v <;> exact .error _

theorem token_of_reuse {r : RCValue × Store} (h : ∃ slot, r.1 = .reuse slot) :
    r.2.Clear env ∨ ∃ slot, RCPrimResult.done r.1 = .done (.reuse slot) := by
  rcases h with ⟨slot, hslot⟩
  exact .inr ⟨slot, by rw [hslot]⟩

theorem uniform_rcDropReuse (env : RCEnv) : rcDropReuse.Uniform env := by
  refine RCPrim.uniform_of_commutes fun vs s hs => ?_
  rcases vs with _ | ⟨v, _ | ⟨w, vs⟩⟩
  · exact .error _
  · cases v with
    | box a => exact .bind (dropReuse_commutes a hs) fun r hr => .ok rfl (token_of_reuse hr)
    | lit l => exact .ok rfl (.inl hs)
    | recMember g i e =>
        exact .bind (dropReuse_commutes e hs) fun r hr => .ok rfl (token_of_reuse hr)
    | inst u t => exact .ok rfl (.inl hs)
    | reuse slot => exact .error _
  · cases v <;> exact .error _

theorem uniform_rcIntrinsicTable (env : RCEnv) {key : String × String} {p : RCPrim}
    (h : rcIntrinsicTable key = some p) : p.Uniform env := by
  unfold rcIntrinsicTable at h
  split_ifs at h
  have hmem := List.mem_of_find?_eq_some h
  simp only [rcIntrinsics, List.mem_cons, List.not_mem_nil, or_false] at hmem
  rcases hmem with rfl | rfl | rfl
  · exact uniform_rcDup env
  · exact uniform_rcDrop env
  · exact uniform_rcDropReuse env

end Wok.Interp.RC
