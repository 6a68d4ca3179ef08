/-
Module: Wok.Proofs.Backends
Purpose: The two builds of the allocator, on the same calls: one ledger, so the same
  statistics.
Imports: Wok.Proofs.RcMallocRuns, Wok.Proofs.SlabRuns
Trusted boundary: none
Main exports: LogicalStats, SameStats, backends_agree
-/
import Wok.Proofs.RcMallocRuns
import Wok.Proofs.SlabRuns

namespace Wok.Runtime

open Wok.Lib

/-- The statistics that do not depend on how a build gets its memory. -/
structure LogicalStats where
  allocs : Nat
  frees : Nat
  live : Int
  peak : Int
  curBytes : Nat
  peakBytes : Nat
  arenaBytes : Nat
  arenaPeak : Nat
deriving DecidableEq, Repr

def Counters.logicalStats (h : Counters) : LogicalStats :=
  ⟨h.allocs, h.frees, h.live, h.peak, h.curBytes, h.peakBytes, h.arenaBytes, h.arenaPeak⟩

def Ledger.logicalStats (L : Ledger) : LogicalStats :=
  ⟨L.allocs, L.frees, L.live, L.peak, L.curBytes, L.peakBytes, L.arenaBytes, L.arenaPeak⟩

theorem Tallies.logicalStats {h : Counters} {L : Ledger} (ht : Tallies h L) :
    h.logicalStats = L.logicalStats := by
  simp only [Counters.logicalStats, Ledger.logicalStats, ht.allocs, ht.frees, ht.live, ht.peak,
    ht.curBytes, ht.peakBytes, ht.arenaBytes, ht.arenaPeak]

/-- The outcomes of one program on the two builds: the same statistics where both still
run, and otherwise the same abort, but that memory may be lacking or the check of the
physical bound may fail in one of them only. -/
def SameStats (b : Build) : Except Abort (Client Slab.Heap) → Except Abort (Client RcMalloc.Heap) →
    Prop
  | .ok c, .ok c' => c.st.heap.logicalStats = c'.st.heap.logicalStats
  | .ok _, .error e => e = .outOfMemory
  | .error e, .ok _ => e = .outOfMemory ∨ (e = .physical ∧ b.checkPhysical = true)
  | .error e, .error e' => e = e' ∨ e = .outOfMemory ∨ e' = .outOfMemory ∨
      (e = .physical ∧ b.checkPhysical = true)

/-- After any calls that a program may make both builds report the same statistics,
whatever addresses their `malloc`s choose. -/
theorem backends_agree (M M' : Malloc) (b : Build) (m m' : Memory) (calls : List Call)
    (hm : m.blocks = []) (hm' : m'.blocks = []) (hvalid : Ledger.ValidRun calls {}) :
    SameStats b (Client.run (slabBackend M b) calls (Slab.start m))
      (Client.run (mallocBackend M') calls (RcMalloc.start m')) := by
  have hslab := (Slab.slab_refines M b).run (Slab.agrees_start hm) hvalid
  have hmalloc := (RcMalloc.malloc_refines M').run (RcMalloc.agrees_start hm') hvalid
  cases hs : Client.run (slabBackend M b) calls (Slab.start m) with
  | ok c =>
      rcases hslab.ok hs with ⟨L, hL, g, h⟩
      cases hs' : Client.run (mallocBackend M') calls (RcMalloc.start m') with
      | ok c' =>
          rcases hmalloc.ok hs' with ⟨L', hL', cells, chain, h'⟩
          rw [hL] at hL'
          cases hL'
          exact h.counts.tallies.logicalStats.trans h'.tallies.logicalStats.symm
      | error e =>
          rcases hmalloc.error hs' with he | he
          · exact he.1
          · rw [hL] at he
            cases he
  | error e =>
      cases hs' : Client.run (mallocBackend M') calls (RcMalloc.start m') with
      | ok c' =>
          rcases hmalloc.ok hs' with ⟨L', hL', -⟩
          rcases hslab.error hs with he | he
          · exact he.imp And.left id
          · rw [hL'] at he
            cases he
      | error e' =>
          rcases hslab.error hs with he | he
          · rcases he with he | he
            · exact .inr (.inl he.1)
            · exact .inr (.inr (.inr he))
          · rcases hmalloc.error hs' with he' | he'
            · exact .inr (.inr (.inl he'.1))
            · rw [he] at he'
              cases he'
              exact .inl rfl

/-- Counted cells of three kinds, a scope of the arena, a free and a reuse. -/
theorem backends_agree_mixed :
    let calls := [Call.alloc (.node 5 2), .alloc (.array 100 0), .arenaOpen, .arenaAlloc 6 1,
      .dec 0, .allocAt 7 2 0, .arenaClose 0, .alloc (.string 3), .dec 1, .free 1]
    (∃ c, Client.run (slabBackend .upwards ⟨true⟩) calls (Slab.start ⟨fun _ => 0, [], 0⟩) = .ok c) ∧
    (∃ c, Client.run (mallocBackend .upwards) calls (RcMalloc.start ⟨fun _ => 0, [], 0⟩) = .ok c) ∧
    SameStats ⟨true⟩
      (Client.run (slabBackend .upwards ⟨true⟩) calls (Slab.start ⟨fun _ => 0, [], 0⟩))
      (Client.run (mallocBackend .upwards) calls (RcMalloc.start ⟨fun _ => 0, [], 0⟩)) := by
  have hlen : 100 < 2 ^ 64 ∧ 0 < 256 := by decide
  have hlen' : 3 < 2 ^ 64 := by decide
  refine ⟨⟨_, rfl⟩, ⟨_, rfl⟩, backends_agree .upwards .upwards ⟨true⟩ ⟨fun _ => 0, [], 0⟩
    ⟨fun _ => 0, [], 0⟩ _ rfl rfl ?_⟩
  refine .next ⟨by decide, by decide⟩ rfl (.next hlen rfl (.next trivial rfl ?_))
  refine .next ⟨by decide, by decide⟩ rfl (.next rfl rfl ?_)
  refine .next ⟨by decide, by decide, rfl⟩ rfl (.next trivial rfl (.next hlen' rfl ?_))
  exact .next rfl rfl (.next rfl rfl trivial)

end Wok.Runtime
