/-
Module: Wok.Runtime.Cell
Purpose: The cells of the C runtime in memory: header words, byte sizes and size
  classes, the extent that a free reads back, and the counters that both builds of
  the allocator keep.
Imports: Wok.Lib.Memory
Trusted boundary: none
Main exports: Abort, Build, State, wokHeader, wokCellBytes, wokArrayCellBytes,
  wokArrayClass, wokStringCellBytes, wokStringClass, wokFreeBytes, wokFreeClass, wokDup,
  wokDec, writeFields, Counters, wokCheckPhysical, wokMalloc
-/
import Wok.Lib.Memory

namespace Wok.Runtime

open Wok.Lib

/-- The ways a call of the runtime ends the program. -/
inductive Abort where
  | outOfMemory
  | assertion
  | arrayOverflow
  | stringOverflow
  | prematureFree
  | doubleFree
  | arityMismatch
  | liveShell
  | arenaDepth
  | noArena
  | handleMismatch
  /-- the physical-memory invariant is violated -/
  | physical
  /-- a walk along a list of slabs did not come to its end -/
  | stuck
  /-- not a call of the runtime: the program names a cell it never got -/
  | noCell
deriving DecidableEq, Repr

/-- Whether the runtime was built with `WOK_RC_CHECK_PHYSICAL`. -/
structure Build where
  checkPhysical : Bool

/-- A heap of one of the two builds and the memory it manages. -/
structure State (H : Type) where
  heap : H
  mem : Memory

/-! ### Tunables -/

def wokGranule : Nat := 8
def wokArenaSize : Nat := 64 * 1024
def wokNumClasses : Nat := 64
def wokArenaMaxDepth : Nat := 32
def sizeMax : Nat := 2 ^ 64 - 1

/-! ### Tags -/

def wokArrayTag : Nat := 0xFFFF
def wokStringTag : Nat := 0xFFFE
def wokStringViewTag : Nat := 0xFFFD
def wokBytesTag : Nat := 0xFFFC
def wokForeignBytesTag : Nat := 0xFFFB
def wokBorrowViewTag : Nat := 0xFFFA

/-! ### Sizes and classes -/

def wokCellBytes (arity : Nat) : Nat :=
  8 + arity * 8

def wokArrayCellBytes (len : Nat) : Except Abort Nat :=
  if (sizeMax - 16) / 8 < len then .error .arrayOverflow else .ok (16 + len * 8)

def wokArrayClass (len : Nat) : Nat :=
  if len < wokNumClasses - 1 then len + 1 else wokNumClasses

def wokStringCellBytes (byteLen : Nat) : Except Abort Nat :=
  if sizeMax - 16 - 7 < byteLen then .error .stringOverflow
  else .ok (16 + 8 * ((byteLen + 7) % 2 ^ 64 / 8))

def wokStringClass (byteLen : Nat) : Nat :=
  let granules := (byteLen + 7) % 2 ^ 64 / 8
  if granules < wokNumClasses - 1 then granules + 1 else wokNumClasses

/-! ### Header words -/

/-- The first word of a cell: the count, the tag, the arity byte and a `scan` byte
of zero. -/
def wokHeader (rc tag arity : Nat) : Nat :=
  rc + 2 ^ 32 * (tag % 2 ^ 16) + 2 ^ 48 * (arity % 2 ^ 8)

def rcOf (w : Nat) : Nat := w % 2 ^ 32
def tagOf (w : Nat) : Nat := w / 2 ^ 32 % 2 ^ 16
def arityOf (w : Nat) : Nat := w / 2 ^ 48 % 2 ^ 8

def setRc (rc w : Nat) : Nat := w - w % 2 ^ 32 + rc

section HeaderLemmas

variable {rc tag arity w : Nat}

@[simp] theorem rcOf_wokHeader (h : rc < 2 ^ 32) : rcOf (wokHeader rc tag arity) = rc := by
  simp only [rcOf, wokHeader]
  omega

@[simp] theorem tagOf_wokHeader (h : rc < 2 ^ 32) :
    tagOf (wokHeader rc tag arity) = tag % 2 ^ 16 := by
  simp only [tagOf, wokHeader]
  omega

@[simp] theorem arityOf_wokHeader (h : rc < 2 ^ 32) :
    arityOf (wokHeader rc tag arity) = arity % 2 ^ 8 := by
  simp only [arityOf, wokHeader]
  omega

@[simp] theorem rcOf_setRc (h : rc < 2 ^ 32) : rcOf (setRc rc w) = rc := by
  simp only [rcOf, setRc]
  omega

@[simp] theorem tagOf_setRc (h : rc < 2 ^ 32) : tagOf (setRc rc w) = tagOf w := by
  simp only [tagOf, setRc]
  omega

@[simp] theorem arityOf_setRc (h : rc < 2 ^ 32) : arityOf (setRc rc w) = arityOf w := by
  simp only [arityOf, setRc]
  omega

theorem rcOf_lt (w : Nat) : rcOf w < 2 ^ 32 :=
  Nat.mod_lt w (by decide)

end HeaderLemmas

/-! ### The extent of a cell, read back from its header

The tags of the cells without an arity are looked at before the arity is. -/

def wokFreeBytes (words : Nat → Nat) (p : Nat) : Except Abort Nat :=
  let tag := tagOf (words p)
  if tag = wokArrayTag then wokArrayCellBytes (words (p + 8))
  else if tag = wokStringTag then wokStringCellBytes (words (p + 8))
  else if tag = wokBytesTag then wokStringCellBytes (words (p + 8))
  else if tag = wokStringViewTag then .ok 32
  else if tag = wokForeignBytesTag then .ok 24
  else if tag = wokBorrowViewTag then .ok 24
  else .ok (wokCellBytes (arityOf (words p)))

def wokFreeClass (words : Nat → Nat) (p : Nat) : Nat :=
  let tag := tagOf (words p)
  if tag = wokArrayTag then wokArrayClass (words (p + 8))
  else if tag = wokStringTag then wokStringClass (words (p + 8))
  else if tag = wokBytesTag then wokStringClass (words (p + 8))
  else if tag = wokStringViewTag then 3
  else if tag = wokForeignBytesTag then 2
  else if tag = wokBorrowViewTag then 2
  else arityOf (words p)

/-! ### Accessors that both builds share -/

def wokDup (p : Nat) (m : Memory) : Memory :=
  m.write p (setRc ((rcOf (m.words p) + 1) % 2 ^ 32) (m.words p))

def wokDec (p : Nat) (m : Memory) : Except Abort Memory :=
  if rcOf (m.words p) = 0 then .error .doubleFree
  else .ok (m.write p (setRc (rcOf (m.words p) - 1) (m.words p)))

def wokSlotSet (p i word : Nat) (m : Memory) : Except Abort Memory :=
  if i < arityOf (m.words p) then .ok (m.write (p + 8 + 8 * i) word) else .error .assertion

def wokArraySlotSet (p i word : Nat) (m : Memory) : Except Abort Memory :=
  if tagOf (m.words p) = wokArrayTag ∧ i < m.words (p + 8) then
    .ok (m.write (p + 16 + 8 * i) word)
  else .error .assertion

/-- A word of the body that `wok_string_data` or `wok_bytes_data` points to. -/
def wokDataSet (p i word : Nat) (m : Memory) : Except Abort Memory :=
  if tagOf (m.words p) = wokStringTag ∨ tagOf (m.words p) = wokBytesTag then
    .ok (m.write (p + 16 + 8 * i) word)
  else .error .assertion

/-- Write words one after the other. -/
def writeFields (p : Nat) : List Nat → Memory → Memory
  | [], m => m
  | w :: ws, m => writeFields (p + 8) ws (m.write p w)

/-! ### Counters -/

/-- The fields that both heap structures have. -/
structure Counters where
  allocs : Nat := 0
  frees : Nat := 0
  live : Int := 0
  peak : Int := 0
  curBytes : Nat := 0
  peakBytes : Nat := 0
  curPhysicalBytes : Nat := 0
  peakPhysicalBytes : Nat := 0
  peakLogicalBytes : Nat := 0
  arenaDepth : Nat := 0
  arenaBytes : Nat := 0
  arenaPeak : Nat := 0

namespace Counters

/-- `WOK_PHYS_ADD` -/
def physAdd (delta : Nat) (h : Counters) : Counters :=
  { h with
    curPhysicalBytes := h.curPhysicalBytes + delta
    peakPhysicalBytes := max (h.curPhysicalBytes + delta) h.peakPhysicalBytes }

/-- `WOK_PHYS_SUB` -/
def physSub (delta : Nat) (h : Counters) : Counters :=
  { h with curPhysicalBytes := h.curPhysicalBytes - delta }

/-- `WOK_LOGICAL_MARK` -/
def logicalMark (h : Counters) : Counters :=
  { h with peakLogicalBytes := max (h.curBytes + h.arenaBytes) h.peakLogicalBytes }

/-- What every allocation of a counted cell adds. -/
def recordAlloc (sz : Nat) (h : Counters) : Counters :=
  { h with
    allocs := h.allocs + 1
    live := h.live + 1
    peak := max (h.live + 1) h.peak
    curBytes := h.curBytes + sz
    peakBytes := max (h.curBytes + sz) h.peakBytes }

def recordFree (bytes : Nat) (h : Counters) : Counters :=
  { h with
    frees := h.frees + 1
    live := h.live - 1
    curBytes := h.curBytes - bytes }

def recordArena (sz : Nat) (h : Counters) : Counters :=
  { h with
    arenaBytes := h.arenaBytes + sz
    arenaPeak := max (h.arenaBytes + sz) h.arenaPeak }

/-- The bound that `wok_check_physical` asserts. -/
def PhysicalBound (h : Counters) : Prop :=
  h.peakPhysicalBytes ≤ 4 * h.peakLogicalBytes + 8 * wokArenaSize

instance (h : Counters) : Decidable h.PhysicalBound := inferInstanceAs (Decidable (_ ≤ _))

end Counters

/-- `wok_check_physical`, in a build that has it. -/
def wokCheckPhysical (b : Build) (h : Counters) : Except Abort Unit :=
  if b.checkPhysical ∧ ¬ h.PhysicalBound then .error .physical else .ok ()

/-- `malloc`, whose failure every caller aborts on. -/
def wokMalloc (M : Malloc) (n : Nat) (m : Memory) : Except Abort (Nat × Memory) :=
  match m.malloc M n with
  | some r => .ok r
  | none => .error .outOfMemory

end Wok.Runtime
