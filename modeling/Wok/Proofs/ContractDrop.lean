/-
Module: Wok.Proofs.ContractDrop
Purpose: A drop does not look through the view, nor do the operations that drop: the
  brackets of activations, cells that are put to use again and foreign calls.
Imports: Wok.Interp.RC.Foreign, Wok.Interp.RC.Reuse, Wok.Lib.Stutter,
  Wok.Proofs.ContractStore
Trusted boundary: none
Main exports: drop_commutes, dropAll_commutes, arenaClose_commutes
-/
import Wok.Interp.RC.Foreign
import Wok.Interp.RC.Reuse
import Wok.Lib.Stutter
import Wok.Proofs.ContractStore

namespace Wok.Interp.RC

open Wok.IR
open Wok.Lib (Commutes System mapVal mapSnd insert_mapVal erase_mapVal)

variable {env : RCEnv} {A : Allocator} {s s' : Store}

/-! ### Drops on the abstract heap -/

theorem freeReservation_commutes (r : Addr × Int) (hs : s.Clear env) :
    Commutes (contractStore env) (Store.Clear env) (freeReservation r s)
      (freeReservation r (contractStore env s)) := by
  rcases r with ⟨a, bytes⟩
  cases a with
  | heap i => exact .ite (.error _) (.ok rfl (hs.mono (Finset.erase_subset _ _)))
  | c p =>
      refine .ite (.error _) ?_
      refine .bind (.refl (heapPtr s)) fun _ _ => ?_
      exact .bind (wokFree_commutes p hs)
        fun s₂ h₂ => .ok rfl (h₂.mono (Finset.erase_subset _ _))
  | inline t => exact .ok rfl hs
  | inlineStr bs => exact .ok rfl hs

theorem reclaimIfNCont_commutes (i : Int) (hs : s.Clear env) :
    Commutes (contractStore env) (Store.Clear env) (reclaimIfNCont i s)
      (reclaimIfNCont i (contractStore env s)) := by
  unfold reclaimIfNCont
  rw [lookup_contractStore]
  cases hc : s.cells.lookup i with
  | none => exact .ok rfl hs
  | some c =>
      rcases c with ⟨rc, node, bytes⟩
      cases node with
      | cont pfx h tag sc =>
          refine .ite ?_ (.ok rfl hs)
          have hclear : kontClear env s.reserved pfx := hs i _ hc
          have hsame : continuationReservations (contractKont env pfx) s.reserved =
              continuationReservations pfx s.reserved := continuationReservations_contract hclear
          show Commutes _ _ _
            ((continuationReservations (contractKont env pfx) s.reserved).foldlM _ _)
          rw [hsame]
          exact .foldlM (fun t r ht => freeReservation_commutes r ht) _ hs
      | _ => exact .ok rfl hs

theorem dropAddrStepPure_commutes (i : Int) (hs : s.Clear env) :
    Commutes (contractWith env id) (fun r => r.2.Clear env) (dropAddrStepPure i s)
      (dropAddrStepPure i (contractStore env s)) := by
  unfold dropAddrStepPure
  refine .ite (.ok rfl hs) (.ite (.error _) ?_)
  rw [lookup_contractStore]
  cases hc : s.cells.lookup i with
  | none => exact .error _
  | some c =>
      refine .ite (.ok ?_ hs.erase) (.ok ?_ (hs.insert (hs i c hc)))
      · have hcells : (contractStore env s).cells.erase i =
            mapVal (contractCell env) (s.cells.erase i) := erase_mapVal _ _ i
        simp only [contractCell, cascadeChildren_contract, hcells]
        rfl
      · have hcells := insert_contract env s i { c with rc := c.rc - 1 }
        simp only [contractCell] at hcells ⊢
        rw [hcells]
        rfl

theorem dropHAddr_commutes (i : Int) (hs : s.Clear env) :
    Commutes (contractWith env id) (fun r => r.2.Clear env) (dropHAddr i s)
      (dropHAddr i (contractStore env s)) := by
  refine .bind (reclaimIfNCont_commutes i hs) fun s₁ h₁ => ?_
  refine .bind (dropAddrStepPure_commutes i h₁) fun r h₂ => ?_
  exact .ok rfl h₂

/-! ### The worklist -/

/-- The worklist goes on in the view as it does in the store. -/
theorem dropStep_view {st : List Addr × Store} (hs : st.2.Clear env) :
    dropStep (contractWith env id st) =
      (dropStep st).map (contractWith env id) (Except.map (contractStore env)) := by
  rcases st with ⟨work, s⟩
  cases work with
  | nil => rfl
  | cons a rest =>
      cases a with
      | c p =>
          have h := (dropCAddr_commutes p hs).view
          simp only [contractWith, id, dropStep, isArenaAddr_contract, h]
          split_ifs
          · rfl
          · cases dropCAddr p s <;> rfl
      | heap i =>
          have h := (dropHAddr_commutes i hs).view
          simp only [contractWith, id, dropStep, isArenaAddr_contract, h]
          split_ifs
          · rfl
          · cases dropHAddr i s <;> rfl
      | inline t => rfl
      | inlineStr bs => rfl

theorem dropStep_clear {st st' : List Addr × Store} (hs : st.2.Clear env)
    (h : dropStep st = .inl st') : st'.2.Clear env := by
  rcases st with ⟨work, s⟩
  cases work with
  | nil => cases h
  | cons a rest =>
      cases a with
      | c p =>
          simp only [dropStep] at h
          split_ifs at h
          · cases h
            exact hs
          · cases hd : dropCAddr p s with
            | error e => rw [hd] at h; cases h
            | ok r =>
                rw [hd] at h
                cases h
                exact (dropCAddr_commutes p hs).keeps r hd
      | heap i =>
          simp only [dropStep] at h
          split_ifs at h
          · cases h
            exact hs
          · cases hd : dropHAddr i s with
            | error e => rw [hd] at h; cases h
            | ok r =>
                rw [hd] at h
                cases h
                exact (dropHAddr_commutes i hs).keeps r hd
      | inline t => cases h; exact hs
      | inlineStr bs => cases h; exact hs

/-- The worklist ends with a store that it has come to, or with an error. -/
theorem dropStep_halt_clear {st : List Addr × Store} {r : Except Fault Store}
    (hs : st.2.Clear env) (h : dropStep st = .inr r) : ∀ t, r = .ok t → t.Clear env := by
  intro t ht
  subst ht
  rcases st with ⟨work, s⟩
  cases work with
  | nil => cases h; exact hs
  | cons a rest =>
      cases a with
      | c p =>
          simp only [dropStep] at h
          split_ifs at h
          cases hd : dropCAddr p s <;> rw [hd] at h <;> cases h
      | heap i =>
          simp only [dropStep] at h
          split_ifs at h
          cases hd : dropHAddr i s <;> rw [hd] at h <;> cases h
      | inline t => cases h
      | inlineStr bs => cases h

theorem heldRefs_contract (env : RCEnv) (s : Store) :
    heldRefs (contractStore env s) = heldRefs s := by
  have hcells : (contractStore env s).cells.entries =
      s.cells.entries.map (Lib.mapEntry (contractCell env)) := rfl
  have hlength : ∀ e : (_ : Int) × Cell,
      (cascadeChildren (Lib.mapEntry (contractCell env) e).2.node).length =
        (cascadeChildren e.2.node).length := by
    intro e
    exact congrArg List.length (cascadeChildren_contract env e.2.node)
  unfold heldRefs
  rw [hcells, List.map_map]
  congr 2
  exact List.map_congr_left fun e _ => hlength e

theorem drop_commutes (a : Addr) (hs : s.Clear env) :
    Commutes (contractStore env) (Store.Clear env) (drop a s) (drop a (contractStore env s)) := by
  have hrun := System.run_view (M := dropSystem) (I := fun st => st.2.Clear env)
    (P := fun r => ∀ t, r = .ok t → t.Clear env) (fun _ => dropStep_view)
    (fun _ _ => dropStep_clear) (fun _ _ => dropStep_halt_clear) (dropFuel s)
    (s := ([a], s)) hs
  have hview : dropAddr (dropFuel s) a (contractStore env s) =
      (dropAddr (dropFuel s) a s).map (Except.map (contractStore env)) := hrun.1
  have hfuel : dropFuel (contractStore env s) = dropFuel s :=
    congrArg (· + 2) (heldRefs_contract env s)
  unfold drop
  rw [hfuel, hview]
  cases hd : dropAddr (dropFuel s) a s with
  | none => exact .error _
  | some r => exact ⟨rfl, fun t ht => hrun.2 r hd t ht⟩

theorem dropAll_commutes (as : List Addr) (hs : s.Clear env) :
    Commutes (contractStore env) (Store.Clear env) (dropAll as s)
      (dropAll as (contractStore env s)) :=
  .foldlM (fun _ a ht => drop_commutes a ht) as hs

/-! ### Brackets -/

theorem arenaOpenRC_commutes (env : RCEnv) (s : Store) :
    Commutes (contractStore env) (fun _ => True) (arenaOpenRC s)
      (arenaOpenRC (contractStore env s)) := by
  have hbackend : (contractStore env s).backend = s.backend := rfl
  unfold arenaOpenRC
  rw [hbackend]
  cases s.backend with
  | abstractHeap => exact .ok rfl trivial
  | cHeap => exact .bind (.refl (wokArenaOpen s)) fun handle _ => .ok rfl trivial

theorem scanOut_commutes (top : List Int) (is : List Int) :
    Commutes id (fun _ => True) (scanOut top s is) (scanOut top (contractStore env s) is) := by
  refine .foldlM (v := id) (fun acc i _ => ?_) is trivial
  refine .bind (derefPure_commutes env i s) fun c _ => .ok ?_ trivial
  simp only [contractCell, countedRefs_nodeValues_contract]
  rfl

theorem removeArenaCell_contract (env : RCEnv) (s : Store) (i : Int) :
    removeArenaCell (contractStore env s) i = contractStore env (removeArenaCell s i) := by
  unfold removeArenaCell
  rw [lookup_contractStore]
  cases s.cells.lookup i with
  | none => rfl
  | some c =>
      have hcells : (contractStore env s).cells.erase i =
          mapVal (contractCell env) (s.cells.erase i) := erase_mapVal _ _ i
      simp only [Option.map_some, hcells]
      rfl

theorem removeArenaCell_clear (i : Int) (hs : s.Clear env) : (removeArenaCell s i).Clear env := by
  unfold removeArenaCell
  split
  · exact hs
  · exact hs.erase

theorem removeArenaCells_contract (env : RCEnv) (is : List Int) (s : Store) :
    is.foldl removeArenaCell (contractStore env s) =
      contractStore env (is.foldl removeArenaCell s) := by
  induction is generalizing s with
  | nil => rfl
  | cons i is ih => rw [List.foldl_cons, List.foldl_cons, removeArenaCell_contract, ih]

theorem removeArenaCells_clear (is : List Int) (hs : s.Clear env) :
    (is.foldl removeArenaCell s).Clear env := by
  induction is generalizing s with
  | nil => exact hs
  | cons i is ih => exact ih (removeArenaCell_clear i hs)

theorem wokArenaClose_commutes (handle : UInt32) (top : List Ptr) (hs : s.Clear env) :
    Commutes (contractStore env) (Store.Clear env) (wokArenaClose handle top s)
      (wokArenaClose handle top (contractStore env s)) :=
  .ite (.ok rfl hs) (.error _)

/-- The scope of the C runtime that the innermost frame stands for is closed. -/
theorem closeHandle_commutes (top : List Ptr) (restC : List (List Ptr)) (hs : s.Clear env) :
    Commutes (contractStore env) (Store.Clear env)
      (match s.arenaHandles with
        | [] => .error (primError "arenaClose: C-arena handle stack underflow")
        | handle :: restH => do
            let s₃ ← wokArenaClose handle top s
            return { s₃ with arenaC := restC, arenaHandles := restH })
      (match (contractStore env s).arenaHandles with
        | [] => .error (primError "arenaClose: C-arena handle stack underflow")
        | handle :: restH => do
            let s₃ ← wokArenaClose handle top (contractStore env s)
            return { s₃ with arenaC := restC, arenaHandles := restH }) := by
  have hhandles : (contractStore env s).arenaHandles = s.arenaHandles := rfl
  rw [hhandles]
  cases s.arenaHandles with
  | nil => exact .error _
  | cons handle restH =>
      exact .bind (wokArenaClose_commutes handle top hs) fun s₃ h₃ => .ok rfl h₃

theorem closeCArenaFrame_commutes (hs : s.Clear env) :
    Commutes (contractStore env) (Store.Clear env) (closeCArenaFrame s)
      (closeCArenaFrame (contractStore env s)) := by
  have harena : (contractStore env s).arenaC = s.arenaC := rfl
  have hbackend : (contractStore env s).backend = s.backend := rfl
  unfold closeCArenaFrame
  rw [harena, hbackend]
  cases s.arenaC with
  | nil => exact .error _
  | cons top restC =>
      cases s.backend with
      | abstractHeap => exact .ok rfl hs
      | cHeap =>
          refine .bind (.refl (scanOutC top s (ascPtrs top))) fun kids _ => ?_
          refine .bind (dropAll_commutes kids hs) fun s₁ h₁ => ?_
          refine .bind (.refl (arenaBytesC s₁ (ascPtrs top))) fun bytes _ => ?_
          exact closeHandle_commutes top restC (s := { s₁ with
            stats := { s₁.stats with arenaBytes := s₁.stats.arenaBytes - bytes } }) h₁

theorem arenaClose_commutes (hs : s.Clear env) :
    Commutes (contractStore env) (Store.Clear env) (arenaClose s)
      (arenaClose (contractStore env s)) := by
  have harena : (contractStore env s).arena = s.arena := rfl
  unfold arenaClose
  rw [harena]
  cases s.arena with
  | nil => exact .error _
  | cons top rest =>
      refine .bind (scanOut_commutes top (ascInts top)) fun kids _ => ?_
      refine .bind (dropAll_commutes kids hs) fun s₁ h₁ => ?_
      let s₂ : Store := { (ascInts top).foldl removeArenaCell s₁ with arena := rest }
      have h₂ : s₂.Clear env := removeArenaCells_clear (ascInts top) h₁
      simp only [removeArenaCells_contract]
      exact closeCArenaFrame_commutes h₂

theorem windowClose_commutes (hs : s.Clear env) :
    Commutes (contractStore env) (Store.Clear env) (windowClose s)
      (windowClose (contractStore env s)) := by
  have hset : (contractStore env s).windowSet = s.windowSet := rfl
  unfold windowClose
  rw [hset]
  cases s.windowSet with
  | nil => exact .ok rfl hs
  | cons top rest =>
      simp only [lookup_contractStore, Option.isSome_map]
      exact .ite (.error _) (.ok rfl hs)

theorem windowRegister_contract (env : RCEnv) (a : Addr) (s : Store) :
    windowRegister a (contractStore env s) = contractStore env (windowRegister a s) := by
  have hset : (contractStore env s).windowSet = s.windowSet := rfl
  unfold windowRegister
  rw [hset]
  split <;> rfl

theorem borrowClose_contract (env : RCEnv) (s : Store) :
    borrowClose (contractStore env s) = contractStore env (borrowClose s) := by
  have hframes : (contractStore env s).borrowClose = s.borrowClose := rfl
  unfold borrowClose
  rw [hframes]
  split <;> rfl

/-! ### Cells that are used again -/

theorem wokAllocAt_view (env : RCEnv) (tid : UInt32) (ws : List UInt64) (p : Ptr) (s : Store) :
    Commutes (contractStore env) (fun _ => True) (wokAllocAt tid ws p s)
      (wokAllocAt tid ws p (contractStore env s)) := by
  refine .bind (.refl (wokObj p s)) fun o _ => ?_
  exact .ite (.error _) (.ite (.error _) (.ok rfl trivial))

theorem reuseCConAt_view (env : RCEnv) (p : Ptr) (n : Node) (s : Store) :
    Commutes (contractWith env id) (fun _ => True) (reuseCConAt p n s)
      (reuseCConAt p (contractNode env n) (contractStore env s)) := by
  cases n with
  | con con vs =>
      refine .bind (.refl (heapPtr s)) fun _ _ => ?_
      rw [mapM_encodeSlotC_contract, internTag_contract]
      cases vs.mapM encodeSlotC with
      | none => exact .error _
      | some encoded =>
          generalize internTag con s = tagged
          rcases tagged with ⟨tid, s₁⟩
          have hdesc : (contractStore env s₁).conDesc = s₁.conDesc := rfl
          simp only [contractWith, id, hdesc]
          cases s₁.conDesc.lookup tid.toUInt16 with
          | none =>
              exact .bind (wokAllocAt_view env tid _ p (described s₁ tid encoded))
                fun s₂ _ => .ok rfl trivial
          | some existing =>
              refine .ite (.error _) ?_
              exact .bind (wokAllocAt_view env tid _ p s₁) fun s₂ _ => .ok rfl trivial
  | _ => exact .error _

theorem allocAt_view (hA : A.Uniform env) (token : RCValue) (n : Node) (hs : s.Clear env) :
    Commutes (contractWith env id) (fun _ => True) (allocAt A token n s)
      (allocAt A (contractValue token) (contractNode env n) (contractStore env s)) := by
  have hfits : ∀ slot, fitsSlot (contractNode env n) slot = fitsSlot n slot := by
    intro slot
    rw [fitsSlot, fitsSlot, nodeArity_contract, nodeCEligible_contract]
  cases token with
  | reuse slot =>
      cases slot with
      | none => exact .of_view (alloc_contract hA n s)
      | some slot =>
          rcases slot with ⟨a, arity, eligible, bytes⟩
          simp only [contractValue_reuse, allocAt, hfits]
          cases a with
          | heap i =>
              refine .ite (.ok ?_ trivial) (.of_view ?_)
              · have hcells := insert_contract env s i ⟨1, n, bytes⟩
                simp only [contractCell] at hcells
                simp only [hcells]
                rfl
              · exact alloc_contract hA n { s with
                  dead := insert i s.dead
                  stats := recordFree bytes s.stats
                  reserved := s.reserved.erase (.heap i) }
          | c p =>
              let s₁ : Store := { s with reserved := s.reserved.erase (.c p) }
              refine .ite (reuseCConAt_view env p n s₁) ?_
              refine .bind (.refl (heapPtr s)) fun _ _ => ?_
              have h₁ : s₁.Clear env := hs.mono (Finset.erase_subset _ _)
              exact .bind (wokFree_commutes p h₁)
                fun s₂ _ => .of_view (alloc_contract hA n (bumpFreeStats bytes s₂))
          | inline t => exact .error _
          | inlineStr bs => exact .error _
  | _ => exact .error _

/-- What a continuation's cell holds, in the view. -/
def contractCaptured (env : RCEnv) (c : Captured) : Captured :=
  ⟨contractKont env c.pfx, c.h, 0, contractScope env c.sc⟩

theorem moveOutCont_view (env : RCEnv) (a : Addr) (s : Store) :
    Commutes (contractWith env (contractCaptured env)) (fun _ => True) (moveOutCont a s)
      (moveOutCont a (contractStore env s)) := by
  cases a with
  | heap i =>
      refine .bind (derefPure_commutes env i s) fun c _ => ?_
      rcases c with ⟨rc, node, bytes⟩
      cases node with
      | cont pfx h tag sc =>
          refine .ite (.ok ?_ trivial) (.error _)
          have hcells : (contractStore env s).cells.erase i =
              mapVal (contractCell env) (s.cells.erase i) := erase_mapVal _ _ i
          simp only [hcells]
          rfl
      | _ => exact .error _
  | _ => exact .error _

theorem allocStatic_contract (env : RCEnv) (n : Node) (s : Store) :
    allocStatic (contractNode env n) (contractStore env s) =
      contractWith env id (allocStatic n s) := by
  have hcells := insert_contract env s s.nextStatic ⟨1, n, 0⟩
  have hnext : (contractStore env s).nextStatic = s.nextStatic := rfl
  simp only [contractCell] at hcells
  simp only [allocStatic, hnext, hcells]
  rfl

/-! ### Foreign calls -/

theorem bytesBytes_commutes (env : RCEnv) (a : Addr) (s : Store) :
    Commutes id (fun _ => True) (bytesBytes a s) (bytesBytes a (contractStore env s)) := by
  refine .bind (deref_commutes env a s) fun c _ => ?_
  rcases c with ⟨rc, node, bytes⟩
  cases node with
  | bytes bs => exact .ok rfl trivial
  | foreignBytes bs => exact .ok rfl trivial
  | _ => exact .error _

theorem borrowedArg_commutes (env : RCEnv) (a : Addr) (s : Store) :
    Commutes id (fun _ => True) (borrowedArg a s) (borrowedArg a (contractStore env s)) := by
  have hbackend : (contractStore env s).backend = s.backend := rfl
  unfold borrowedArg
  rw [hbackend]
  cases s.backend with
  | abstractHeap =>
      refine .bind (deref_commutes env a s) fun c _ => ?_
      rcases c with ⟨rc, node, bytes⟩
      cases node with
      | bytes bs => exact .ok rfl trivial
      | foreignBytes bs => exact .ok rfl trivial
      | _ => exact .error _
  | cHeap => exact .refl (rcBorrowCHeapPtr a s)

theorem bufferHandle_view (hA : A.Uniform env) (tag : UInt16) (d : Ptr) (n : Nat) (s : Store) :
    bufferHandle A tag d n (contractStore env s) =
      (bufferHandle A tag d n s).map (contractWith env id) :=
  recorded_contract env 24 (wokNew_contract hA ⟨1, tag, 0, [d, UInt64.ofNat n]⟩ s)

theorem adoptCopy_view (hA : A.Uniform env) (a : Addr) (result : List UInt8)
    (hs : s.Clear env) :
    Commutes (contractWith env id) (fun _ => True) (adoptCopy A a result s)
      (adoptCopy A a result (contractStore env s)) := by
  have hbackend : (contractStore env s).backend = s.backend := rfl
  unfold adoptCopy
  rw [hbackend, hA.buffer s]
  cases s.backend with
  | abstractHeap =>
      refine .bind (drop_commutes a hs) fun s₁ _ => ?_
      exact .of_view (alloc_contract hA (.foreignBytes result) s₁)
  | cHeap =>
      cases A.buffer s with
      | none => exact .error _
      | some d =>
          refine .bind (drop_commutes a (s := { s with
            backend := .cHeap
            buffers := (d, result) :: s.buffers }) hs) fun s₁ _ => ?_
          exact .of_view (bufferHandle_view hA _ d _ s₁)

theorem borrowRegister_view (env : RCEnv) (p : Ptr) (size : UInt64) (s : Store) :
    Commutes (contractStore env) (fun _ => True) (borrowRegister p size s)
      (borrowRegister p size (contractStore env s)) := by
  have hframes : (contractStore env s).borrowClose = s.borrowClose := rfl
  unfold borrowRegister
  rw [hframes]
  cases s.borrowClose with
  | nil => exact .error _
  | cons top rest => exact .ok rfl trivial

theorem allocBorrowDemoLend_view (hA : A.Uniform env) (n : Int) (s : Store) :
    Commutes (contractWith env id) (fun _ => True) (allocBorrowDemoLend A n s)
      (allocBorrowDemoLend A n (contractStore env s)) := by
  have hbackend : (contractStore env s).backend = s.backend := rfl
  unfold allocBorrowDemoLend
  rw [hbackend, hA.buffer s]
  cases s.backend with
  | cHeap =>
      cases A.buffer s with
      | none => exact .error _
      | some d =>
          refine .bind (.of_view (bufferHandle_view hA _ d _ { s with
            backend := .cHeap
            buffers := (d, Interp.demoPattern (Interp.clampBorrowDemoLen n)) :: s.buffers }))
            fun r _ => ?_
          exact .bind (borrowRegister_view env d _ r.2) fun s₂ _ => .ok rfl trivial
  | abstractHeap =>
      have hpure := allocPure_contract env
        (.borrowView (Interp.demoPattern (Interp.clampBorrowDemoLen n))) s
      simp only [contractNode] at hpure
      simp only [hpure]
      exact .bind (borrowRegister_view env 0 _ _) fun s₂ _ => .ok rfl trivial

theorem arrayUnique_commutes (env : RCEnv) (a : Addr) (s : Store) :
    Commutes id (fun _ => True) (arrayUnique a s) (arrayUnique a (contractStore env s)) := by
  refine .ite (.ok rfl trivial) ?_
  cases a with
  | c p => exact .bind (.refl (wokObj p s)) fun o _ => .ok rfl trivial
  | heap i => exact .bind (derefPure_commutes env i s) fun c _ => .ok rfl trivial
  | _ => exact .ok rfl trivial

theorem consumeArg_view (hA : A.Uniform env) (a : Addr) (bs : List UInt8) (hs : s.Clear env) :
    Commutes (contractStore env) (Store.Clear env) (consumeArg A a bs s)
      (consumeArg A a bs (contractStore env s)) := by
  refine .bind (arrayUnique_commutes env a s) fun unique _ => ?_
  refine .ite (drop_commutes a hs) ?_
  refine .bind (alloc_commutes hA (n := .bytes bs) hs trivial) fun r h₁ => ?_
  exact .bind (drop_commutes r.1 h₁) fun s₂ h₂ => drop_commutes a h₂

theorem rcForeignDispatch_view (hA : A.Uniform env) (lib sym : String) (vs : List RCValue)
    (hs : s.Clear env) :
    Commutes (contractWith env contractValue) (fun _ => True) (rcForeignDispatch A lib sym vs s)
      (rcForeignDispatch A lib sym (vs.map contractValue) (contractStore env s)) := by
  unfold rcForeignDispatch
  refine .ite ?_ (.ite ?_ (.ite ?_ (.ite ?_ (.error _))))
  · split
    next a byte n =>
      refine .bind (borrowedArg_commutes env a s) fun bs _ => ?_
      exact .bind (drop_commutes a hs) fun s₁ _ => .ok rfl trivial
    next hother =>
      split
      next a byte n heq => exact (hother a byte n (eq_of_map_contract heq (by simp [Plain]))).elim
      · exact .error _
  · split
    next a n =>
      refine .bind (borrowedArg_commutes env a s) fun bs _ => ?_
      exact .bind (adoptCopy_view hA a _ hs) fun r _ => .ok rfl trivial
    next hother =>
      split
      next a n heq => exact (hother a n (eq_of_map_contract heq (by simp [Plain]))).elim
      · exact .error _
  · split
    next n => exact .bind (allocBorrowDemoLend_view hA n s) fun r _ => .ok rfl trivial
    next hother =>
      split
      next n heq => exact (hother n (eq_of_map_contract heq (by simp [Plain]))).elim
      · exact .error _
  · split
    next a =>
      refine .bind (bytesBytes_commutes env a s) fun bs _ => ?_
      exact .bind (consumeArg_view hA a bs hs) fun s₁ _ => .ok rfl trivial
    next hother =>
      split
      next a heq => exact (hother a (eq_of_map_contract heq (by simp [Plain]))).elim
      · exact .error _

end Wok.Interp.RC
