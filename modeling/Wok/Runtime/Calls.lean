/-
Module: Wok.Runtime.Calls
Purpose: Programs that call the runtime: the calls of its interface, with cells named
  by the order they were got in, and their effect on either build.
Imports: Wok.Runtime.RcMalloc, Wok.Runtime.Slab
Trusted boundary: the addresses that `malloc` chooses
Main exports: Request, Call, Backend, slabBackend, mallocBackend, Client, Client.step,
  Client.run
-/
import Wok.Runtime.RcMalloc
import Wok.Runtime.Slab

namespace Wok.Runtime

open Wok.Lib

/-- An allocation of a counted cell. -/
inductive Request where
  | node (tag arity : Nat)
  | array (len elemkind : Nat)
  | string (byteLen : Nat)
  | bytes (byteLen : Nat)
  | stringView (parent off len : Nat)
  | foreignBytes (dataPtr byteLen : Nat)
  | borrowView (ptr byteLen : Nat)
deriving DecidableEq, Repr

/-- A call of the runtime. Cells are named by their numbers: the cell that the program
got first is number zero, and a reused shell keeps its number. -/
inductive Call where
  /-- the parent of a view is given by its number -/
  | alloc (r : Request)
  | allocAt (tag arity cell : Nat)
  | dup (cell : Nat)
  | dec (cell : Nat)
  | slotSet (cell i word : Nat)
  | arraySlotSet (cell i word : Nat)
  | dataSet (cell i word : Nat)
  | free (cell : Nat)
  | arenaOpen
  | arenaAlloc (tag arity : Nat)
  | arenaClose (handle : Nat)
deriving DecidableEq, Repr

/-- The calls for the arena. -/
def Call.isArena : Call → Bool
  | .arenaOpen => true
  | .arenaAlloc .. => true
  | .arenaClose _ => true
  | _ => false

/-- The entry points that the two builds implement each in their own way. -/
structure Backend (H : Type) where
  alloc : Request → State H → Except Abort (Nat × State H)
  allocAt : Nat → Nat → Nat → State H → Except Abort (Nat × State H)
  free : Nat → State H → Except Abort (State H)
  arenaOpen : State H → Except Abort (Nat × State H)
  arenaAlloc : Nat → Nat → State H → Except Abort (Nat × State H)
  arenaClose : Nat → State H → Except Abort (State H)

namespace Slab

def alloc (M : Malloc) (b : Build) : Request → State Heap → Except Abort (Nat × State Heap)
  | .node tag arity => wokAlloc M b tag arity
  | .array len elemkind => wokArrayAlloc M b len elemkind
  | .string byteLen => wokStringAlloc M b byteLen
  | .bytes byteLen => wokBytesAlloc M b byteLen
  | .stringView parent off len => wokStringViewAlloc M b parent off len
  | .foreignBytes dataPtr byteLen => wokForeignBytesAlloc M b dataPtr byteLen
  | .borrowView ptr byteLen => wokBorrowViewAlloc M b ptr byteLen

end Slab

def slabBackend (M : Malloc) (b : Build) : Backend Slab.Heap where
  alloc := Slab.alloc M b
  allocAt := Slab.wokAllocAt
  free := Slab.wokFree
  arenaOpen := Slab.wokArenaOpen
  arenaAlloc := Slab.wokArenaAlloc M b
  arenaClose := Slab.wokArenaClose

namespace RcMalloc

def alloc (M : Malloc) : Request → State Heap → Except Abort (Nat × State Heap)
  | .node tag arity => wokAlloc M tag arity
  | .array len elemkind => wokArrayAlloc M len elemkind
  | .string byteLen => wokStringAlloc M byteLen
  | .bytes byteLen => wokBytesAlloc M byteLen
  | .stringView parent off len => wokStringViewAlloc M parent off len
  | .foreignBytes dataPtr byteLen => wokForeignBytesAlloc M dataPtr byteLen
  | .borrowView ptr byteLen => wokBorrowViewAlloc M ptr byteLen

end RcMalloc

def mallocBackend (M : Malloc) : Backend RcMalloc.Heap where
  alloc := RcMalloc.alloc M
  allocAt := RcMalloc.wokAllocAt
  free := RcMalloc.wokFree
  arenaOpen := RcMalloc.wokArenaOpen
  arenaAlloc := RcMalloc.wokArenaAlloc M
  arenaClose := RcMalloc.wokArenaClose

/-- A program with the heap it uses and the addresses of the cells it got so far. -/
structure Client (H : Type) where
  st : State H
  cells : List Nat := []

namespace Client

variable {H : Type} (B : Backend H)

def cell (i : Nat) (c : Client H) : Except Abort Nat :=
  match c.cells[i]? with
  | some p => .ok p
  | none => .error .noCell

/-- The request with the address of the parent in place of its number. -/
def resolve (r : Request) (c : Client H) : Except Abort Request :=
  match r with
  | .stringView parent off len => do
      let p ← c.cell parent
      return .stringView p off len
  | r => .ok r

/-- The next cell is what an allocation returned. -/
def got (cells : List Nat) (r : Nat × State H) : Client H :=
  ⟨r.2, cells ++ [r.1]⟩

def step : Call → Client H → Except Abort (Client H)
  | .alloc r, c => do
      let r' ← c.resolve r
      let res ← B.alloc r' c.st
      return got c.cells res
  | .allocAt tag arity i, c => do
      let p ← c.cell i
      let (q, st) ← B.allocAt tag arity p c.st
      return ⟨st, c.cells.set i q⟩
  | .dup i, c => do
      let p ← c.cell i
      return { c with st := ⟨c.st.heap, wokDup p c.st.mem⟩ }
  | .dec i, c => do
      let p ← c.cell i
      let mem ← wokDec p c.st.mem
      return { c with st := ⟨c.st.heap, mem⟩ }
  | .slotSet i slot word, c => do
      let p ← c.cell i
      let mem ← wokSlotSet p slot word c.st.mem
      return { c with st := ⟨c.st.heap, mem⟩ }
  | .arraySlotSet i slot word, c => do
      let p ← c.cell i
      let mem ← wokArraySlotSet p slot word c.st.mem
      return { c with st := ⟨c.st.heap, mem⟩ }
  | .dataSet i slot word, c => do
      let p ← c.cell i
      let mem ← wokDataSet p slot word c.st.mem
      return { c with st := ⟨c.st.heap, mem⟩ }
  | .free i, c => do
      let p ← c.cell i
      let st ← B.free p c.st
      return { c with st := st }
  | .arenaOpen, c => do
      let (_, st) ← B.arenaOpen c.st
      return { c with st := st }
  | .arenaAlloc tag arity, c => do
      let res ← B.arenaAlloc tag arity c.st
      return got c.cells res
  | .arenaClose handle, c => do
      let st ← B.arenaClose handle c.st
      return { c with st := st }

/-- Make the calls one after the other; the first abort ends the program. -/
def run (calls : List Call) (c : Client H) : Except Abort (Client H) :=
  calls.foldlM (fun c call => step B call c) c

end Client

end Wok.Runtime
