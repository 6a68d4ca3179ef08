/-
Module: Wok.Runtime.Slab
Purpose: The slab build of the allocator: bump allocation from slabs with a free list
  for each size class, and the separate arena region with its stack of frontiers.
Imports: Wok.Runtime.Cell
Trusted boundary: none
Main exports: Region, ArenaFrame, Heap, wokHeapNew, wokGrowSlab, takeCell, wokAlloc,
  wokAllocAt, wokFree, wokArrayAlloc, wokStringAlloc, wokStringViewAlloc, wokBytesAlloc,
  wokForeignBytesAlloc, wokBorrowViewAlloc, wokArenaOpen, wokArenaAlloc, wokArenaClose
-/
import Wok.Runtime.Cell

namespace Wok.Runtime.Slab

open Wok.Lib

/-- A bump region: its list of slabs, linked through their first words, the part of
the newest slab that is still free, and how many slabs were got from `malloc`. -/
structure Region where
  slabs : Nat := 0
  bumpPtr : Nat := 0
  bumpEnd : Nat := 0
  nslabs : Nat := 0

/-- The arena's frontier when a scope was opened. -/
structure ArenaFrame where
  slabAtOpen : Nat := 0
  bumpPtrSave : Nat := 0
  bumpEndSave : Nat := 0
  arenaBytesBefore : Nat := 0
deriving DecidableEq

structure Heap extends Counters where
  reused : Nat := 0
  reusedInplace : Nat := 0
  /-- `slabs`, `bump_ptr`, `bump_end` and `nslabs` -/
  counted : Region := {}
  freelist : Nat → Nat := fun _ => 0
  /-- `arena_slabs`, `arena_bump_ptr`, `arena_bump_end` and `arena_nslabs` -/
  arena : Region := {}
  arenaFreeSlabs : Nat := 0
  arenaStack : Nat → ArenaFrame := fun _ => {}

def wokHeapNew : Heap := {}

variable (M : Malloc) (b : Build)

/-! ### Growing a region -/

/-- Put a slab in front of a region, a recycled one if there is one. -/
def wokGrowSlab (r : Region) (recycled : Nat) (s : State Heap) :
    Except Abort (Region × State Heap) :=
  if recycled = 0 then do
    let (slab, mem) ← wokMalloc M wokArenaSize s.mem
    let counters := s.heap.toCounters.physAdd wokArenaSize
    wokCheckPhysical b counters
    return (⟨slab, slab + wokGranule, slab + wokArenaSize, r.nslabs + 1⟩,
      ⟨{ s.heap with toCounters := counters }, mem.write slab r.slabs⟩)
  else
    .ok (⟨recycled, recycled + wokGranule, recycled + wokArenaSize, r.nslabs⟩,
      ⟨s.heap, s.mem.write recycled r.slabs⟩)

def wokNewSlab (s : State Heap) : Except Abort (State Heap) := do
  let (r, s') ← wokGrowSlab M b s.heap.counted 0 s
  return ⟨{ s'.heap with counted := r }, s'.mem⟩

/-- A slab that a close has recycled is taken before a new one. -/
def wokNewArenaSlab (s : State Heap) : Except Abort (State Heap) := do
  let recycled := s.heap.arenaFreeSlabs
  let heap :=
    if recycled ≠ 0 then { s.heap with arenaFreeSlabs := s.mem.words recycled } else s.heap
  let (r, s') ← wokGrowSlab M b s.heap.arena recycled ⟨heap, s.mem⟩
  return ⟨{ s'.heap with arena := r }, s'.mem⟩

/-- Whether a cell does not fit what is left of the newest slab. -/
def Region.full (sz : Nat) (r : Region) : Bool :=
  r.bumpPtr = 0 || r.bumpEnd - r.bumpPtr < sz

/-- Grow the counted region when a cell does not fit. -/
def makeRoom (sz : Nat) (s : State Heap) : Except Abort (State Heap) :=
  if s.heap.counted.full sz then wokNewSlab M b s else .ok s

def makeArenaRoom (sz : Nat) (s : State Heap) : Except Abort (State Heap) :=
  if s.heap.arena.full sz then wokNewArenaSlab M b s else .ok s

/-! ### Counted cells -/

/-- Take a cell from the free list of its class, from the bump region, or, where it
has no class, from `malloc`. All allocations of counted cells share it. -/
def takeCell (sz cls : Nat) (s : State Heap) : Except Abort (Nat × State Heap) :=
  if cls < wokNumClasses then
    let head := s.heap.freelist cls
    if head ≠ 0 then
      .ok (head, ⟨{ s.heap with
        freelist := Function.update s.heap.freelist cls (s.mem.words head)
        reused := s.heap.reused + 1 }, s.mem⟩)
    else do
      let s₁ ← makeRoom M b sz s
      let p := s₁.heap.counted.bumpPtr
      return (p, ⟨{ s₁.heap with
        counted := { s₁.heap.counted with bumpPtr := p + sz } }, s₁.mem⟩)
  else do
    let (p, mem) ← wokMalloc M sz s.mem
    return (p, ⟨{ s.heap with toCounters := s.heap.toCounters.physAdd sz }, mem⟩)

/-- Take a cell, write its first words and count it. -/
def allocCell (sz cls header : Nat) (fields : List Nat) (s : State Heap) :
    Except Abort (Nat × State Heap) := do
  let (p, s₁) ← takeCell M b sz cls s
  return (p, ⟨{ s₁.heap with toCounters := (s₁.heap.toCounters.recordAlloc sz).logicalMark },
    writeFields (p + 8) fields (s₁.mem.write p header)⟩)

def wokAlloc (tag arity : Nat) (s : State Heap) : Except Abort (Nat × State Heap) :=
  if tag < 65536 ∧ arity < 256 then
    allocCell M b (wokCellBytes arity) arity (wokHeader 1 tag arity) [] s
  else .error .assertion

def wokArrayAlloc (len elemkind : Nat) (s : State Heap) : Except Abort (Nat × State Heap) := do
  let sz ← wokArrayCellBytes len
  allocCell M b sz (wokArrayClass len) (wokHeader 1 wokArrayTag elemkind) [len] s

def wokStringAlloc (byteLen : Nat) (s : State Heap) : Except Abort (Nat × State Heap) := do
  let sz ← wokStringCellBytes byteLen
  allocCell M b sz (wokStringClass byteLen) (wokHeader 1 wokStringTag 0) [byteLen] s

def wokBytesAlloc (byteLen : Nat) (s : State Heap) : Except Abort (Nat × State Heap) := do
  let sz ← wokStringCellBytes byteLen
  allocCell M b sz (wokStringClass byteLen) (wokHeader 1 wokBytesTag 0) [byteLen] s

def wokStringViewAlloc (parent off len : Nat) (s : State Heap) :
    Except Abort (Nat × State Heap) :=
  allocCell M b 32 3 (wokHeader 1 wokStringViewTag 0) [parent, off, len] s

def wokForeignBytesAlloc (dataPtr byteLen : Nat) (s : State Heap) :
    Except Abort (Nat × State Heap) :=
  allocCell M b 24 2 (wokHeader 1 wokForeignBytesTag 0) [dataPtr, byteLen] s

def wokBorrowViewAlloc (ptr byteLen : Nat) (s : State Heap) :
    Except Abort (Nat × State Heap) :=
  allocCell M b 24 2 (wokHeader 1 wokBorrowViewTag 0) [ptr, byteLen] s

/-- Stamp a new header on the shell of a node whose count went to zero. -/
def wokAllocAt (tag arity p : Nat) (s : State Heap) : Except Abort (Nat × State Heap) :=
  if ¬ (tag < 65536 ∧ arity < 256) then .error .assertion
  else if arityOf (s.mem.words p) ≠ arity then .error .arityMismatch
  else if rcOf (s.mem.words p) ≠ 0 then .error .liveShell
  else .ok (p, ⟨{ s.heap with reusedInplace := s.heap.reusedInplace + 1 },
    s.mem.write p (wokHeader 1 tag arity)⟩)

def wokFree (p : Nat) (s : State Heap) : Except Abort (State Heap) :=
  if rcOf (s.mem.words p) ≠ 0 then .error .prematureFree
  else do
    let bytes ← wokFreeBytes s.mem.words p
    let cls := wokFreeClass s.mem.words p
    let counters := s.heap.toCounters.recordFree bytes
    if cls < wokNumClasses then
      return ⟨{ s.heap with
        toCounters := counters
        freelist := Function.update s.heap.freelist cls p },
        s.mem.write p (s.heap.freelist cls)⟩
    else
      return ⟨{ s.heap with toCounters := counters.physSub bytes }, s.mem.free p⟩

/-! ### The arena -/

def wokArenaOpen (s : State Heap) : Except Abort (Nat × State Heap) :=
  let handle := s.heap.arenaDepth
  if wokArenaMaxDepth ≤ handle then .error .arenaDepth
  else .ok (handle, ⟨{ s.heap with
    arenaDepth := handle + 1
    arenaStack := Function.update s.heap.arenaStack handle
      ⟨s.heap.arena.slabs, s.heap.arena.bumpPtr, s.heap.arena.bumpEnd, s.heap.arenaBytes⟩ },
    s.mem⟩)

def wokArenaAlloc (tag arity : Nat) (s : State Heap) : Except Abort (Nat × State Heap) :=
  if ¬ (tag < 65536 ∧ arity < 256) then .error .assertion
  else if s.heap.arenaDepth = 0 then .error .noArena
  else do
    let sz := wokCellBytes arity
    let s₁ ← makeArenaRoom M b sz s
    let p := s₁.heap.arena.bumpPtr
    return (p, ⟨{ s₁.heap with
      arena := { s₁.heap.arena with bumpPtr := p + sz }
      toCounters := (s₁.heap.toCounters.recordArena sz).logicalMark },
      s₁.mem.write p (wokHeader 0 tag arity)⟩)

/-- Move the slabs in front of `stop` onto the list of free slabs. -/
def unwindSlabs (stop : Nat) : Nat → Nat → Nat → Memory → Except Abort (Nat × Memory)
  | 0, grown, freeSlabs, mem => if grown = stop then .ok (freeSlabs, mem) else .error .stuck
  | fuel + 1, grown, freeSlabs, mem =>
      if grown = stop then .ok (freeSlabs, mem)
      else unwindSlabs stop fuel (mem.words grown) grown (mem.write grown freeSlabs)

def wokArenaClose (handle : Nat) (s : State Heap) : Except Abort (State Heap) :=
  if s.heap.arenaDepth = 0 ∨ handle ≠ s.heap.arenaDepth - 1 then .error .handleMismatch
  else do
    let f := s.heap.arenaStack handle
    -- the walk does nothing when no slab was taken since the open
    let (freeSlabs, mem) ← unwindSlabs f.slabAtOpen s.mem.blocks.length s.heap.arena.slabs
      s.heap.arenaFreeSlabs s.mem
    return ⟨{ s.heap with
      arena := { s.heap.arena with
        slabs := f.slabAtOpen, bumpPtr := f.bumpPtrSave, bumpEnd := f.bumpEndSave }
      arenaFreeSlabs := freeSlabs
      arenaBytes := f.arenaBytesBefore
      arenaDepth := s.heap.arenaDepth - 1 }, mem⟩

end Wok.Runtime.Slab
