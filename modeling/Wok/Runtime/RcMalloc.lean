/-
Module: Wok.Runtime.RcMalloc
Purpose: The `WOK_RC_MALLOC` build of the allocator: one `malloc` for each cell, and
  arena scopes whose cells are chained through a hidden word in front of them.
Imports: Wok.Runtime.Cell
Trusted boundary: none
Main exports: ArenaFrame, Heap, wokHeapNew, wokAlloc, wokAllocAt, wokFree, wokArrayAlloc,
  wokStringAlloc, wokStringViewAlloc, wokBytesAlloc, wokForeignBytesAlloc,
  wokBorrowViewAlloc, wokArenaOpen, wokArenaAlloc, wokArenaClose
-/
import Wok.Runtime.Cell

namespace Wok.Runtime.RcMalloc

open Wok.Lib

/-- The cells of an arena scope, and the arena bytes when it was opened. -/
structure ArenaFrame where
  chainHead : Nat := 0
  arenaBytesBefore : Nat := 0

structure Heap extends Counters where
  arenaStack : Nat → ArenaFrame := fun _ => {}

def wokHeapNew : Heap := {}

variable (M : Malloc)

/-! ### Counted cells -/

/-- Take a cell from `malloc`, write its first words and count it. All allocations of
counted cells share it. -/
def allocCell (sz header : Nat) (fields : List Nat) (s : State Heap) :
    Except Abort (Nat × State Heap) := do
  let (p, mem) ← wokMalloc M sz s.mem
  return (p, ⟨{ s.heap with
    toCounters := ((s.heap.toCounters.recordAlloc sz).physAdd sz).logicalMark },
    writeFields (p + 8) fields (mem.write p header)⟩)

def wokAlloc (tag arity : Nat) (s : State Heap) : Except Abort (Nat × State Heap) :=
  if tag < 65536 ∧ arity < 256 then
    allocCell M (wokCellBytes arity) (wokHeader 1 tag arity) [] s
  else .error .assertion

def wokArrayAlloc (len elemkind : Nat) (s : State Heap) : Except Abort (Nat × State Heap) := do
  let sz ← wokArrayCellBytes len
  allocCell M sz (wokHeader 1 wokArrayTag elemkind) [len] s

def wokStringAlloc (byteLen : Nat) (s : State Heap) : Except Abort (Nat × State Heap) := do
  let sz ← wokStringCellBytes byteLen
  allocCell M sz (wokHeader 1 wokStringTag 0) [byteLen] s

def wokBytesAlloc (byteLen : Nat) (s : State Heap) : Except Abort (Nat × State Heap) := do
  let sz ← wokStringCellBytes byteLen
  allocCell M sz (wokHeader 1 wokBytesTag 0) [byteLen] s

def wokStringViewAlloc (parent off len : Nat) (s : State Heap) :
    Except Abort (Nat × State Heap) :=
  allocCell M 32 (wokHeader 1 wokStringViewTag 0) [parent, off, len] s

def wokForeignBytesAlloc (dataPtr byteLen : Nat) (s : State Heap) :
    Except Abort (Nat × State Heap) :=
  allocCell M 24 (wokHeader 1 wokForeignBytesTag 0) [dataPtr, byteLen] s

def wokBorrowViewAlloc (ptr byteLen : Nat) (s : State Heap) :
    Except Abort (Nat × State Heap) :=
  allocCell M 24 (wokHeader 1 wokBorrowViewTag 0) [ptr, byteLen] s

def wokAllocAt (tag arity p : Nat) (s : State Heap) : Except Abort (Nat × State Heap) :=
  if ¬ (tag < 65536 ∧ arity < 256) then .error .assertion
  else if arityOf (s.mem.words p) ≠ arity then .error .arityMismatch
  else if rcOf (s.mem.words p) ≠ 0 then .error .liveShell
  else .ok (p, ⟨s.heap, s.mem.write p (wokHeader 1 tag arity)⟩)

def wokFree (p : Nat) (s : State Heap) : Except Abort (State Heap) :=
  if rcOf (s.mem.words p) ≠ 0 then .error .prematureFree
  else do
    let bytes ← wokFreeBytes s.mem.words p
    return ⟨{ s.heap with
      toCounters := (s.heap.toCounters.recordFree bytes).physSub bytes }, s.mem.free p⟩

/-! ### The arena -/

def wokArenaOpen (s : State Heap) : Except Abort (Nat × State Heap) :=
  let handle := s.heap.arenaDepth
  if wokArenaMaxDepth ≤ handle then .error .arenaDepth
  else .ok (handle, ⟨{ s.heap with
    arenaDepth := handle + 1
    arenaStack := Function.update s.heap.arenaStack handle ⟨0, s.heap.arenaBytes⟩ }, s.mem⟩)

/-- The cell lies after a hidden word that links it to the next cell of its scope. -/
def wokArenaAlloc (tag arity : Nat) (s : State Heap) : Except Abort (Nat × State Heap) :=
  if ¬ (tag < 65536 ∧ arity < 256) then .error .assertion
  else if s.heap.arenaDepth = 0 then .error .noArena
  else do
    let cellSz := wokCellBytes arity
    let rawSz := 8 + cellSz
    let (raw, mem) ← wokMalloc M rawSz s.mem
    let p := raw + 8
    let f := s.heap.arenaStack (s.heap.arenaDepth - 1)
    return (p, ⟨{ s.heap with
      arenaStack := Function.update s.heap.arenaStack (s.heap.arenaDepth - 1)
        { f with chainHead := p }
      toCounters := ((s.heap.toCounters.recordArena cellSz).physAdd rawSz).logicalMark },
      (mem.write p (wokHeader 0 tag arity)).write (p - 8) f.chainHead⟩)

/-- Free the cells of a chain. -/
def freeChain : Nat → Nat → State Heap → Except Abort (State Heap)
  | 0, cur, s => if cur = 0 then .ok s else .error .stuck
  | fuel + 1, cur, s =>
      if cur = 0 then .ok s
      else
        let sz := 8 + wokCellBytes (arityOf (s.mem.words cur))
        freeChain fuel (s.mem.words (cur - 8))
          ⟨{ s.heap with toCounters := s.heap.toCounters.physSub sz }, s.mem.free (cur - 8)⟩

def wokArenaClose (handle : Nat) (s : State Heap) : Except Abort (State Heap) :=
  if s.heap.arenaDepth = 0 ∨ handle ≠ s.heap.arenaDepth - 1 then .error .handleMismatch
  else do
    let f := s.heap.arenaStack handle
    let s₁ : State Heap := ⟨{ s.heap with
      arenaBytes := f.arenaBytesBefore
      arenaDepth := s.heap.arenaDepth - 1 }, s.mem⟩
    let s₂ ← freeChain s.mem.blocks.length f.chainHead s₁
    return ⟨{ s₂.heap with
      arenaStack := Function.update s₂.heap.arenaStack handle { f with chainHead := 0 } },
      s₂.mem⟩

end Wok.Runtime.RcMalloc
