/-
Module: Wok.Interp.RC.Brackets
Purpose: What the brackets of an activation open and close: arena scopes on both heaps, the
  views that must not outlive it, and the foreign buffers that it was lent.
Imports: Mathlib.Data.UInt, Wok.Interp.RC.Alloc
Trusted boundary: none
Main exports: arenaOpenRC, arenaAlloc, arenaClose, windowOpen, windowRegister, windowClose,
  borrowOpen, borrowRegister, borrowClose
-/
import Mathlib.Data.UInt
import Wok.Interp.RC.Alloc

namespace Wok.Interp.RC

open Wok.IR

/-! ### Arenas -/

def arenaOpen (s : Store) : Store :=
  { s with arena := [] :: s.arena, arenaC := [] :: s.arenaC }

/-- The scopes that the C runtime has room for. -/
def wokArenaMaxDepth : Nat := 32

/-- `wok_arena_open`: the handle of a scope is the number of scopes below it. -/
def wokArenaOpen (s : Store) : Except Fault UInt32 :=
  if wokArenaMaxDepth ≤ s.arenaHandles.length then
    .error (.abort "wok_rc: wok_arena_open exceeded max depth 32")
  else .ok (UInt32.ofNat s.arenaHandles.length)

def arenaOpenRC (s : Store) : Except Fault Store :=
  match s.backend with
  | .abstractHeap => .ok (arenaOpen s)
  | .cHeap => do
      let handle ← wokArenaOpen s
      return { arenaOpen s with arenaHandles := handle :: s.arenaHandles }

/-- Bytes of an arena, which are not on the counted books. -/
def recordArena (bytes : Int) (g : Stats) : Stats :=
  { g with
    arenaBytes := g.arenaBytes + bytes
    arenaPeak := max g.arenaPeak (g.arenaBytes + bytes) }

def arenaAllocPureBytes (bytes : Int) (n : Node) (s : Store) : Except Fault (Addr × Store) :=
  match s.arena with
  | [] => .error (.internal "arenaAllocPure: no open arena frame")
  | top :: rest =>
      .ok (.heap s.next, { s with
        cells := s.cells.insert s.next ⟨1, n, bytes⟩
        next := s.next + 1
        arena := (s.next :: top) :: rest
        stats := recordArena bytes s.stats })

def arenaAllocPure (n : Node) (s : Store) : Except Fault (Addr × Store) :=
  arenaAllocPureBytes (wouldBeCBytes n) n s

def arenaAllocPureFallback (n : Node) (s : Store) : Except Fault (Addr × Store) :=
  arenaAllocPureBytes 0 n s

/-- An arena cell of the C runtime: its count stays zero. -/
def arenaAllocCEligible (A : Allocator) (tid : UInt32) (encoded : List (SlotKind × UInt64))
    (n : Node) (s : Store) : Except Fault (Addr × Store) :=
  match s.arenaC with
  | [] => .error (primError "arenaAlloc: no open C-arena frame")
  | top :: rest => do
      let (p, s') ← wokNew A
        ⟨0, tid.toUInt16, UInt8.ofNat encoded.length, encoded.map (·.2)⟩ s
      return (.c p, { s' with
        arenaC := (p :: top) :: rest
        stats := recordArena (wouldBeCBytes n) s'.stats })

/-- A constructor that fits a cell of the C heap, by the descriptor of its tag. -/
def arenaAllocCon (A : Allocator) (con : String) (vs : List RCValue)
    (encoded : List (SlotKind × UInt64)) (s : Store) : Except Fault (Addr × Store) :=
  let (tid, s₁) := internTag con s
  let newKinds := encoded.map (·.1)
  if tid ≥ 65536 then arenaAllocPureFallback (.con con vs) s₁
  else
    match s₁.conDesc.lookup tid.toUInt16 with
    | none => arenaAllocCEligible A tid encoded (.con con vs)
        { s₁ with conDesc := (tid.toUInt16, newKinds) :: s₁.conDesc }
    | some existing =>
        if existing = newKinds then arenaAllocCEligible A tid encoded (.con con vs) s₁
        else arenaAllocPureFallback (.con con vs) s₁

def arenaAlloc (A : Allocator) (n : Node) (s : Store) : Except Fault (Addr × Store) :=
  match s.arena, s.backend, n with
  | [], _, _ => .error (primError "arenaAlloc: no open arena frame")
  | _ :: _, .abstractHeap, n => arenaAllocPure n s
  | _ :: _, .cHeap, .con con vs =>
      if vs.length ≤ 255 then
        match vs.mapM encodeSlotC with
        | some encoded => arenaAllocCon A con vs encoded s
        | none => arenaAllocPure (.con con vs) s
      else arenaAllocPure (.con con vs) s
  | _ :: _, .cHeap, n => arenaAllocPure n s

/-- The elements of a set of indices in their order. -/
def ascInts (xs : List Int) : List Int := xs.dedup.insertionSort (· ≤ ·)

def ascPtrs (xs : List Ptr) : List Ptr := xs.dedup.insertionSort (·.toNat ≤ ·.toNat)

/-- Drop references one after the other. -/
def dropAll (as : List Addr) (s : Store) : Except Fault Store :=
  as.foldlM (fun s a => drop a s) s

def inFrame (top : List Int) : Addr → Bool
  | .heap j => j ∈ top
  | _ => false

def inFrameC (top : List Ptr) : Addr → Bool
  | .c q => q ∈ top
  | _ => false

/-- The counted references out of the arena cells `is`, less those to cells of their frame. -/
def scanOut (top : List Int) (s : Store) (is : List Int) : Except Fault (List Addr) :=
  is.foldlM (fun acc i => do
    let c ← derefPure i s
    return acc ++ (countedRefs (nodeValues c.node)).filter (! inFrame top ·)) []

/-- Give an arena cell of the abstract heap back. -/
def removeArenaCell (s : Store) (i : Int) : Store :=
  match s.cells.lookup i with
  | none => s
  | some c =>
      { s with
        cells := s.cells.erase i
        dead := insert i s.dead
        stats := { s.stats with arenaBytes := s.stats.arenaBytes - c.bytes } }

/-- The counted references out of the arena cells of the C runtime. -/
def scanOutC (top : List Ptr) (s : Store) (ps : List Ptr) : Except Fault (List Addr) :=
  ps.foldlM (fun acc p => do
    let o ← wokObj p s
    let vs ← readCConValues o s
    return acc ++ (countedRefs vs).filter (! inFrameC top ·)) []

def arenaBytesC (s : Store) (ps : List Ptr) : Except Fault Int :=
  ps.foldlM (fun acc p => do
    let o ← wokObj p s
    return acc + (8 + 8 * o.arity.toNat)) 0

/-- `wok_arena_close`: the cells of the scope are freed in one go. -/
def wokArenaClose (handle : UInt32) (top : List Ptr) (s : Store) : Except Fault Store :=
  if handle = UInt32.ofNat (s.arenaHandles.length - 1) then
    .ok { s with objs := top.foldl (fun objs p => objs.erase p) s.objs }
  else .error (.abort "wok_rc: wok_arena_close handle mismatch")

def closeCArenaFrame (s : Store) : Except Fault Store :=
  match s.arenaC with
  | [] => .error (primError "arenaClose: no open C-arena frame")
  | top :: restC =>
      match s.backend with
      | .abstractHeap => .ok { s with arenaC := restC }
      | .cHeap => do
          let kids ← scanOutC top s (ascPtrs top)
          let s₁ ← dropAll kids s
          let bytes ← arenaBytesC s₁ (ascPtrs top)
          let s₂ := { s₁ with
            stats := { s₁.stats with arenaBytes := s₁.stats.arenaBytes - bytes } }
          match s₂.arenaHandles with
          | [] => .error (primError "arenaClose: C-arena handle stack underflow")
          | handle :: restH => do
              let s₃ ← wokArenaClose handle top s₂
              return { s₃ with arenaC := restC, arenaHandles := restH }

/-- Close the innermost arena scope: what its cells refer to is dropped, and then they
are given back. -/
def arenaClose (s : Store) : Except Fault Store :=
  match s.arena with
  | [] => .error (primError "arenaClose: no open arena frame")
  | top :: rest => do
      let kids ← scanOut top s (ascInts top)
      let s₁ ← dropAll kids s
      let s₂ := { (ascInts top).foldl removeArenaCell s₁ with arena := rest }
      closeCArenaFrame s₂

/-! ### Windows -/

def windowOpen (s : Store) : Store := { s with windowSet := [] :: s.windowSet }

/-- Note a view that must not outlive the innermost activation. -/
def windowRegister (a : Addr) (s : Store) : Store :=
  match a, s.windowSet with
  | .heap i, top :: rest => { s with windowSet := (i :: top) :: rest }
  | _, _ => s

def windowClose (s : Store) : Except Fault Store :=
  match s.windowSet with
  | [] => .ok s
  | top :: rest =>
      if top.any fun i => (s.cells.lookup i).isSome then
        .error (primError "view escaped its birth activation (death-test)")
      else .ok { s with windowSet := rest }

/-! ### Borrowed buffers -/

def borrowOpen (s : Store) : Store := { s with borrowClose := [] :: s.borrowClose }

/-- Note a lent buffer, to be closed with the innermost activation. -/
def borrowRegister (p : Ptr) (size : UInt64) (s : Store) : Except Fault Store :=
  match s.borrowClose with
  | [] => .error (.internal ("borrowRegister: borrow produced with no open close-set frame -- " ++
      "the borrowing activation was not entered via enterBodyRC (run borrow-lending " ++
      "expressions via runExprRCBracketed / runModuleRC, not runExprRC)"))
  | top :: rest =>
      let cur := s.stats.borrowLentCur + size
      .ok { s with
        borrowClose := ((p, size) :: top) :: rest
        stats := { s.stats with
          borrowLentCur := cur
          borrowLentPeak := max s.stats.borrowLentPeak cur } }

/-- Close the buffers of the innermost activation. On the abstract heap there are none, and
only the counts move. -/
def borrowClose (s : Store) : Store :=
  match s.borrowClose with
  | [] => s
  | top :: rest =>
      { s with
        borrowClose := rest
        buffers :=
          match s.backend with
          | .abstractHeap => s.buffers
          | .cHeap => s.buffers.filter fun b => ! (top.map (·.1)).contains b.1
        stats := { s.stats with
          closes := s.stats.closes + top.length
          borrowLentCur := s.stats.borrowLentCur - (top.map (·.2)).sum } }

end Wok.Interp.RC
