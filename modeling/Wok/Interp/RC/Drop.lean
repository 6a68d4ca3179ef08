/-
Module: Wok.Interp.RC.Drop
Purpose: Dropping a counted reference: the worklist over both heaps, the frees of
  the C runtime and the reclaim of reserved shells.
Imports: Wok.Interp.RC.Value, Wok.Lib.System
Trusted boundary: none
Main exports: wokDec, wokFree, freeReservation, dropAddrStepPure, dropCAddr,
  dropSystem, dropAddr
-/
import Wok.Interp.RC.Value
import Wok.Lib.System

namespace Wok.Interp.RC

open Wok.IR
open Wok.Lib (System)

/-- A pointer as `show` prints it. -/
def showPtr (p : Ptr) : String :=
  let digits := String.ofList (Nat.toDigits 16 p.toNat)
  "0x" ++ "".pushn '0' (16 - digits.length) ++ digits

def showHAddr (i : Int) : String :=
  "HAddr " ++ if i < 0 then "(" ++ toString i ++ ")" else toString i

def showCAddr (p : Ptr) : String := "CAddr " ++ showPtr p

def primError (message : String) : Fault := .runtime (.primError message)

/-! ### The C runtime -/

/-- `wok_dec`: lower a cell's count; the new count. A pointer to no cell is a
wild read, which the model stops at. -/
def wokDec (p : Ptr) (s : Store) : Except Fault (Nat × WokObj × Store) :=
  match s.objs.lookup p with
  | none => .error (.abort "wok_rc: not a cell")
  | some o =>
      if o.rc = 0 then .error (.abort "wok_rc: wok_dec on rc==0 (double-free)")
      else
        let o' := { o with rc := o.rc - 1 }
        .ok (o'.rc, o', { s with objs := s.objs.insert p o' })

/-- `wok_free`: return a cell of count zero to the runtime. -/
def wokFree (p : Ptr) (s : Store) : Except Fault Store :=
  match s.objs.lookup p with
  | none => .error (.abort "wok_rc: not a cell")
  | some o =>
      if o.rc = 0 then .ok { s with objs := s.objs.erase p }
      else .error (.abort "wok_rc: wok_free on rc!=0 (premature free)")

/-- The heap context; a pointer was made under the C backend only. -/
def heapPtr (s : Store) : Except Fault Unit :=
  match s.backend with
  | .cHeap => .ok ()
  | .abstractHeap => .error (primError "internal: CAddr freed under AbstractHeap backend")

def bumpFreeStats (bytes : Int) (s : Store) : Store :=
  { s with stats := recordFree bytes s.stats }

/-- The bytes a C cell was charged at its allocation, from its header. -/
def objBytes (o : WokObj) : Int :=
  if o.tag = wokArrayTag then 16 + 8 * wokArrayLen o
  else if o.tag = wokStringTag then 16 + 8 * ((wokStringLen o + 7) / 8).toNat
  else if o.tag = wokStringViewTag then 32
  else if o.tag = wokBytesTag then 16 + 8 * ((wokBytesLen o + 7) / 8).toNat
  else if o.tag = wokForeignBytesTag then 24
  else if o.tag = wokBorrowViewTag then 24
  else 8 + 8 * o.arity.toNat

/-- The counted references a C cell holds, read before it is freed. -/
def objKids (o : WokObj) (s : Store) : Except Fault (List Addr) :=
  if o.tag = wokArrayTag then do
    let kind ← elemKindToSlotKind o.arity
    match kind with
    | .litInt => return []
    | .litChar => return []
    | .litUnit => return []
    | .pointer => return countedRefs (readCArraySlots kind o)
  else if o.tag = wokStringTag then return []
  else if o.tag = wokStringViewTag then return [.c (wokStringViewParent o)]
  else if o.tag = wokBytesTag then return []
  else if o.tag = wokForeignBytesTag then return []
  else if o.tag = wokBorrowViewTag then return []
  else do
    let vs ← readCConValues o s
    return countedRefs vs

/-- Drop a cell of the C runtime: lower its count and free it at zero. The result
lists the references to drop next. -/
def dropCAddr (p : Ptr) (s : Store) : Except Fault (List Addr × Store) := do
  let (newrc, o, s₁) ← wokDec p s
  if newrc ≠ 0 then return ([], s₁)
  else
    let kids ← objKids o s₁
    heapPtr s₁
    let s₂ ← wokFree p s₁
    return (kids, bumpFreeStats (objBytes o) s₂)

/-! ### The abstract heap -/

def doubleReclaim (shown : String) : Fault :=
  primError ("internal: double-reclaim of reservation addr " ++ shown ++ " (not in stReserved)")

/-- Free a reserved shell, which is on neither heap's books of cells. -/
def freeReservation (r : Addr × Int) (s : Store) : Except Fault Store :=
  match r with
  | (.inline _, _) => .ok s
  | (.inlineStr _, _) => .ok s
  | (.heap i, bytes) =>
      if .heap i ∉ s.reserved then .error (doubleReclaim (showHAddr i))
      else .ok { s with
        dead := insert i s.dead
        stats := recordFree bytes s.stats
        reserved := s.reserved.erase (.heap i) }
  | (.c p, bytes) =>
      if .c p ∉ s.reserved then .error (doubleReclaim (showCAddr p))
      else do
        heapPtr s
        let s' ← wokFree p s
        return { bumpFreeStats bytes s' with reserved := s'.reserved.erase (.c p) }

/-- Free the reservations in flight in a continuation that is about to be freed. -/
def reclaimIfNCont (i : Int) (s : Store) : Except Fault Store :=
  match s.cells.lookup i with
  | some ⟨rc, .cont pfx _ _ _, _⟩ =>
      if rc ≤ 1 ∧ i ∉ s.dead then
        (continuationReservations pfx s.reserved).foldlM (fun s r => freeReservation r s) s
      else .ok s
  | _ => .ok s

/-- One step on the abstract heap: `none` when nothing was freed, else the
references to drop next. -/
def dropAddrStepPure (i : Int) (s : Store) : Except Fault (Option (List Addr) × Store) :=
  if isStaticAddr (.heap i) then .ok (none, s)
  else if i ∈ s.dead then .error (primError ("double-free: addr " ++ toString i))
  else
    match s.cells.lookup i with
    | none => .error (primError ("drop of dangling addr " ++ toString i))
    | some c =>
        if c.rc ≤ 1 then
          .ok (some (cascadeChildren c.node),
            { s with
              cells := s.cells.erase i
              dead := insert i s.dead
              stats := recordFree c.bytes s.stats })
        else .ok (none, { s with cells := s.cells.insert i { c with rc := c.rc - 1 } })

/-- Drop a cell of the abstract heap. -/
def dropHAddr (i : Int) (s : Store) : Except Fault (List Addr × Store) := do
  let s₁ ← reclaimIfNCont i s
  let (kids, s₂) ← dropAddrStepPure i s₁
  return (kids.getD [], s₂)

/-! ### The worklist -/

/-- Drop the first address of the worklist; the references that it held come
before the rest. -/
def dropStep : List Addr × Store → (List Addr × Store) ⊕ Except Fault Store
  | ([], s) => .inr (.ok s)
  | (.inline _ :: rest, s) => .inl (rest, s)
  | (.inlineStr _ :: rest, s) => .inl (rest, s)
  | (.c p :: rest, s) =>
      if s.isArenaAddr (.c p) then .inl (rest, s)
      else
        match dropCAddr p s with
        | .ok (kids, s') => .inl (kids ++ rest, s')
        | .error e => .inr (.error e)
  | (.heap i :: rest, s) =>
      if s.isArenaAddr (.heap i) then .inl (rest, s)
      else
        match dropHAddr i s with
        | .ok (kids, s') => .inl (kids ++ rest, s')
        | .error e => .inr (.error e)

def dropSystem : System (List Addr × Store) (Except Fault Store) := ⟨dropStep⟩

/-- Drop one reference, for at most `fuel` rounds of the worklist. -/
def dropAddr (fuel : Nat) (a : Addr) (s : Store) : Option (Except Fault Store) :=
  dropSystem.run fuel ([a], s)

end Wok.Interp.RC
