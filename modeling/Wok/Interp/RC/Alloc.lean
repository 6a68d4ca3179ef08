/-
Module: Wok.Interp.RC.Alloc
Purpose: Allocation on both heaps, reading cells back, and taking another
  reference: tags and slot words, the cells of the C runtime in memory, the charge
  of a cell, and a drop run to its end.
Imports: Wok.Interp.RC.Drop, Wok.Lib.Bytes
Trusted boundary: the addresses that the C runtime and `malloc` choose (`Allocator`)
Main exports: Allocator, internTag, tagName, encodeSlotC, wouldBeCBytes, allocPure,
  alloc, deref, incref, drop
-/
import Wok.Interp.RC.Drop
import Wok.Lib.Bytes

namespace Wok.Interp.RC

open Wok.IR
open Wok.Lib (packBytes unpackBytes)

/-- Where new cells and buffers are put; `none` when there is no memory left. The
choice may depend on the whole store, which no two allocations of a run share. -/
structure Allocator where
  pick : Store → Option Ptr
  buffer : Store → Option Ptr
  /-- a new cell is not put over another one -/
  fresh : ∀ {s p}, pick s = some p → s.objs.lookup p = none
  /-- cells start at multiples of eight -/
  aligned : ∀ {s p}, pick s = some p → p.toNat % 8 = 0

/-! ### Tags -/

def skipTag (reserved : UInt16) (w : UInt32) : UInt32 :=
  if reserved.toUInt32 ≤ w then w + 1 else w

/-- The number of a constructor's name; a new name gets the next number that is
not reserved for a kind of C cell. -/
def internTag (con : String) (s : Store) : UInt32 × Store :=
  match s.tags.lookup con with
  | some w => (w, s)
  | none =>
      let raw := UInt32.ofNat s.tags.length
      -- the reserved tags in ascending order
      let wV := skipTag wokBorrowViewTag raw
      let wF := skipTag wokForeignBytesTag wV
      let w0 := skipTag wokBytesTag wF
      let w1 := skipTag wokStringViewTag w0
      let w2 := skipTag wokStringTag w1
      let w := skipTag wokArrayTag w2
      (w, { s with tags := (con, w) :: s.tags })

def tagName (w : UInt32) (s : Store) : Except Fault String :=
  match s.tags.find? (·.2 = w) with
  | some (con, _) => .ok con
  | none => .error (.internal "tagName: unknown tag id")

/-- The longest string that is kept in the value itself. -/
def maxInlineStr : Nat := 7

/-! ### Slot words -/

def slotKindToElemKind : SlotKind → UInt8
  | .litInt => 0
  | .litChar => 1
  | .litUnit => 2
  | .pointer => 3

/-- Pack the bytes of a short string, the length and the bits `111` below them. -/
def packInlineStr (bs : List UInt8) : UInt64 :=
  let bytesW : UInt64 := bs.foldr (fun b acc => (acc <<< 8) ||| b.toUInt64) 0
  (7 : UInt64) ||| (UInt64.ofNat bs.length <<< 3) ||| (bytesW <<< 6)

/-- A value as a slot word; `none` for an integer outside `Int64`, a member of a
recursive group, an instance handle, a reuse token or a bare string literal. -/
def encodeSlotC : RCValue → Option (SlotKind × UInt64)
  | .lit (.int n) =>
      if -2 ^ 63 ≤ n ∧ n < 2 ^ 63 then some (.litInt, (Int64.ofInt n).toUInt64) else none
  | .lit (.char c) => some (.litChar, UInt64.ofNat c.toNat)
  | .lit .unit => some (.litUnit, 0)
  | .lit (.str _) => none
  | .box (.c p) => some (.pointer, p)
  | .box (.heap i) => some (.pointer, ((Int64.ofInt i) <<< 2).toUInt64 ||| 1)
  | .box (.inline t) => some (.pointer, (t.toUInt64 <<< 3) ||| 3)
  | .box (.inlineStr bs) => some (.pointer, packInlineStr bs)
  | .recMember .. => none
  | .inst .. => none
  | .reuse _ => none

/-! ### The charge of a cell -/

/-- Whether the values of a node fit a constructor cell of the C heap. -/
def nodeCEligible : Node → Bool
  | .con _ vs => vs.length ≤ 255 && vs.all fun v => (encodeSlotC v).isSome
  | _ => false

def nodeArity : Node → UInt32
  | .con _ vs => UInt32.ofNat vs.length
  | _ => 0

def bytesCellCBytes (n : Nat) : Int := 16 + 8 * ((n + 7) / 8)

/-- The bytes a node takes as a C cell, zero if it never is one. -/
def wouldBeCBytes : Node → Int
  | .con con vs => if nodeCEligible (.con con vs) then 8 + 8 * vs.length else 0
  | .array vs => 16 + 8 * vs.length
  | .string bs => bytesCellCBytes bs.length
  | .stringView .. => 32
  | .bytes bs => bytesCellCBytes bs.length
  | .foreignBytes _ => 24
  | .borrowView _ => 24
  | _ => 0

/-! ### The abstract heap -/

def allocPureBytes (bytes : Int) (n : Node) (s : Store) : Addr × Store :=
  (.heap s.next, { s with
    cells := s.cells.insert s.next ⟨1, n, bytes⟩
    next := s.next + 1
    stats := recordAlloc bytes s.stats })

def allocPure (n : Node) (s : Store) : Addr × Store :=
  allocPureBytes (wouldBeCBytes n) n s

/-- An allocation on the abstract heap under the C backend, of a constructor that
did not get a C cell. -/
def allocPureFallback (n : Node) (s : Store) : Addr × Store :=
  allocPureBytes 0 n s

/-- A nullary constructor is an immediate. -/
def allocInline (con : String) (s : Store) : Addr × Store :=
  let (tid, s') := internTag con s
  (.inline tid, s')

def derefPure (i : Int) (s : Store) : Except Fault Cell :=
  if i ∈ s.dead then .error (primError ("use-after-free: addr " ++ toString i))
  else
    match s.cells.lookup i with
    | some c => .ok c
    | none => .error (primError ("dangling addr " ++ toString i))

def increfPure (i : Int) (s : Store) : Except Fault Store :=
  if isStaticAddr (.heap i) then .ok s
  else do
    let c ← derefPure i s
    return { s with cells := s.cells.insert i { c with rc := c.rc + 1 } }

/-! ### Cells of the C runtime -/

/-- A pointer to no cell is a wild read, which the model stops at. -/
def wokObj (p : Ptr) (s : Store) : Except Fault WokObj :=
  match s.objs.lookup p with
  | some o => .ok o
  | none => .error (.abort "wok_rc: not a cell")

def wokDup (p : Ptr) (s : Store) : Except Fault Store := do
  let o ← wokObj p s
  return { s with objs := s.objs.insert p { o with rc := o.rc + 1 } }

/-- A cell in new memory, with its words written. -/
def wokNew (A : Allocator) (o : WokObj) (s : Store) : Except Fault (Ptr × Store) :=
  match A.pick s with
  | some p => .ok (p, { s with objs := s.objs.insert p o })
  | none => .error (.abort "")

def sizeMax : Nat := 2 ^ 64 - 1

/-- `wok_alloc`, and the writes of the slots. -/
def wokAlloc (A : Allocator) (tid : UInt32) (ws : List UInt64) (s : Store) :
    Except Fault (Ptr × Store) :=
  wokNew A ⟨1, tid.toUInt16, UInt8.ofNat ws.length, ws⟩ s

def wokArrayAlloc (A : Allocator) (elemkind : UInt8) (ws : List UInt64) (s : Store) :
    Except Fault (Ptr × Store) :=
  if (sizeMax - 16) / 8 < ws.length then
    .error (.abort "wok_rc: wok_array_alloc len overflows size_t (16 + 8*len)")
  else wokNew A ⟨1, wokArrayTag, elemkind, UInt64.ofNat ws.length :: ws⟩ s

/-- A string or byte cell and the copy of its bytes, the tag apart. -/
def wokBodyAlloc (A : Allocator) (tag : UInt16) (bs : List UInt8) (s : Store) :
    Except Fault (Ptr × Store) :=
  if sizeMax - 16 - 7 < bs.length then
    .error (.abort "wok_rc: wok_string_alloc byte_len overflows size_t (16 + 8*ceil(byte_len/8))")
  else wokNew A ⟨1, tag, 0, UInt64.ofNat bs.length :: packBytes bs⟩ s

def wokStringAlloc (A : Allocator) : List UInt8 → Store → Except Fault (Ptr × Store) :=
  wokBodyAlloc A wokStringTag

def wokBytesAlloc (A : Allocator) : List UInt8 → Store → Except Fault (Ptr × Store) :=
  wokBodyAlloc A wokBytesTag

def wokStringViewAlloc (A : Allocator) (parent : Ptr) (off len : UInt64) (s : Store) :
    Except Fault (Ptr × Store) :=
  wokNew A ⟨1, wokStringViewTag, 0, [parent, off, len]⟩ s

/-- The bytes of a string or byte cell: its words after the length. -/
def wokBody (o : WokObj) : List UInt8 :=
  unpackBytes (fun i => o.word (i + 1)) (o.word 0).toNat

def wokStringByteGet (o : WokObj) (i : Nat) : UInt8 :=
  Lib.byteOfWord (o.word (i / 8 + 1)) (i % 8)

def wokStringViewOffset (o : WokObj) : UInt64 := o.word 1
def wokStringViewLen (o : WokObj) : UInt64 := o.word 2

/-- The buffer a foreign cell points to, which is not on the heap. -/
def foreignBody (o : WokObj) (s : Store) : Except Fault (List UInt8) :=
  match s.buffers.lookup (o.word 0) with
  | some bs => .ok (bs.take (o.word 1).toNat)
  | none => .error (.abort "")

/-- A cell of the C heap as a node; it has no count of its own here. -/
def readCCell (p : Ptr) (s : Store) : Except Fault Cell := do
  let o ← wokObj p s
  if o.tag = wokArrayTag then
    let kind ← elemKindToSlotKind o.arity
    return ⟨0, .array (readCArraySlots kind o), 0⟩
  else if o.tag = wokStringTag then return ⟨0, .string (wokBody o), 0⟩
  else if o.tag = wokStringViewTag then
    return ⟨0, .stringView (.c (wokStringViewParent o)) (wokStringViewOffset o).toNat
      (wokStringViewLen o).toNat, 0⟩
  else if o.tag = wokBytesTag then return ⟨0, .bytes (wokBody o), 0⟩
  else if o.tag = wokForeignBytesTag then
    let bs ← foreignBody o s
    return ⟨0, .foreignBytes bs, 0⟩
  else if o.tag = wokBorrowViewTag then
    let bs ← foreignBody o s
    return ⟨0, .borrowView bs, 0⟩
  else
    let vs ← readCConValues o s
    let con ← tagName o.tag.toUInt32 s
    return ⟨0, .con con vs, 0⟩

/-! ### Both heaps -/

def deref : Addr → Store → Except Fault Cell
  | .c p, s => readCCell p s
  | .heap i, s => derefPure i s
  | .inline tid, s => do
      let con ← tagName tid s
      return ⟨0, .con con [], 0⟩
  | .inlineStr bs, _ => .ok ⟨0, .string bs, 0⟩

/-- Take another reference; inert on a static or arena cell and on an immediate. -/
def incref : Addr → Store → Except Fault Store
  | .c p, s => if s.isArenaAddr (.c p) then .ok s else wokDup p s
  | .heap i, s => if s.isArenaAddr (.heap i) then .ok s else increfPure i s
  | .inline _, s => .ok s
  | .inlineStr _, s => .ok s

def recordAllocS (bytes : Int) (s : Store) : Store :=
  { s with stats := recordAlloc bytes s.stats }

def allocNCon (A : Allocator) (con : String) (vs : List RCValue) (s : Store) :
    Except Fault (Addr × Store) :=
  match s.backend with
  | .abstractHeap =>
      if vs.length > 255 then .ok (allocPure (.con con vs) s)
      else
        match vs.mapM encodeSlotC with
        | none => .ok (allocPure (.con con vs) s)
        | some encoded =>
            let (tid, s₁) := internTag con s
            let newKinds := encoded.map (·.1)
            if tid ≥ 65536 then .ok (allocPureFallback (.con con vs) s₁)
            else
              match s₁.conDesc.lookup tid.toUInt16 with
              | none => .ok (allocPure (.con con vs)
                  { s₁ with conDesc := (tid.toUInt16, newKinds) :: s₁.conDesc })
              | some existing =>
                  if existing = newKinds then .ok (allocPure (.con con vs) s₁)
                  -- another instantiation of the constructor was first
                  else .ok (allocPureFallback (.con con vs) s₁)
  | .cHeap =>
      if vs.length > 255 then .ok (allocPureFallback (.con con vs) s)
      else
        match vs.mapM encodeSlotC with
        | none => .ok (allocPureFallback (.con con vs) s)
        | some encoded =>
            let (tid, s₁) := internTag con s
            let newKinds := encoded.map (·.1)
            let doAlloc := fun (st : Store) => do
              let (p, st') ← wokAlloc A tid (encoded.map (·.2)) st
              return (Addr.c p, recordAllocS (8 + 8 * vs.length) st')
            if tid ≥ 65536 then .ok (allocPureFallback (.con con vs) s₁)
            else
              match s₁.conDesc.lookup tid.toUInt16 with
              | some existing =>
                  if existing = newKinds then doAlloc s₁
                  else .ok (allocPureFallback (.con con vs) s₁)
              | none => doAlloc { s₁ with conDesc := (tid.toUInt16, newKinds) :: s₁.conDesc }

/-- An array of the C heap. The kind of its first element is that of the array. -/
def allocNArray (A : Allocator) (vs : List RCValue) (s : Store) : Except Fault (Addr × Store) :=
  match vs.mapM encodeSlotC with
  | none => .error (primError "allocNArray: non-encodable element in NArray")
  | some encoded => do
      let kind := match encoded with
        | [] => SlotKind.litInt
        | (k, _) :: _ => k
      let (p, s') ← wokArrayAlloc A (slotKindToElemKind kind) (encoded.map (·.2)) s
      return (.c p, recordAllocS (16 + 8 * vs.length) s')

def allocNString (A : Allocator) (bs : List UInt8) (s : Store) : Except Fault (Addr × Store) := do
  let (p, s') ← wokStringAlloc A bs s
  return (.c p, recordAllocS (wouldBeCBytes (.string bs)) s')

def allocNBytes (A : Allocator) (bs : List UInt8) (s : Store) : Except Fault (Addr × Store) := do
  let (p, s') ← wokBytesAlloc A bs s
  return (.c p, recordAllocS (wouldBeCBytes (.bytes bs)) s')

/-- Adopt a foreign buffer: it is on the books for its handle only. -/
def allocForeignBytes (A : Allocator) (bs : List UInt8) (s : Store) :
    Except Fault (Addr × Store) :=
  match A.buffer s with
  | none => .error (.abort "")
  | some d => do
      let s₁ := { s with buffers := (d, bs) :: s.buffers }
      let (p, s') ← wokNew A ⟨1, wokForeignBytesTag, 0, [d, UInt64.ofNat bs.length]⟩ s₁
      return (.c p, recordAllocS 24 s')

/-- A window into a string, which holds a reference to the string. -/
def allocNStringView (A : Allocator) (parent : Addr) (off len : Nat) (s : Store) :
    Except Fault (Addr × Store) :=
  match s.backend with
  | .cHeap =>
      match parent with
      | .c parentPtr => do
          let s₁ ← wokDup parentPtr s
          let (p, s') ← wokStringViewAlloc A parentPtr (UInt64.ofNat off) (UInt64.ofNat len) s₁
          return (.c p, recordAllocS 32 s')
      | _ => .error (primError "allocNStringView CHeap: parent is not a CAddr")
  | .abstractHeap => do
      let s₁ ← incref parent s
      return allocPure (.stringView parent off len) s₁

def alloc (A : Allocator) : Node → Store → Except Fault (Addr × Store)
  | .con con [], s => .ok (allocInline con s)
  | .con con vs, s => allocNCon A con vs s
  | .array vs, s =>
      match s.backend with
      | .cHeap => allocNArray A vs s
      | .abstractHeap => .ok (allocPure (.array vs) s)
  | .string bs, s =>
      if bs.length ≤ maxInlineStr then .ok (.inlineStr bs, s)
      else
        match s.backend with
        | .cHeap => allocNString A bs s
        | .abstractHeap => .ok (allocPure (.string bs) s)
  | .bytes bs, s =>
      match s.backend with
      | .cHeap => allocNBytes A bs s
      | .abstractHeap => .ok (allocPure (.bytes bs) s)
  | .foreignBytes bs, s =>
      match s.backend with
      | .cHeap => allocForeignBytes A bs s
      | .abstractHeap => .ok (allocPure (.foreignBytes bs) s)
  | n, s => .ok (allocPure n s)

/-! ### A drop run to its end -/

/-- The references that the cells of a store hold. -/
def heldRefs (s : Store) : Nat :=
  (s.cells.entries.map fun c => (cascadeChildren c.2.node).length).sum +
    (s.objs.entries.map fun o => ((objKids o.2 s).toOption.getD []).length).sum

/-- Every round of the worklist takes an address off it, and no cell adds the
references that it holds twice. -/
def dropFuel (s : Store) : Nat := heldRefs s + 2

/-- Drop one reference. -/
def drop (a : Addr) (s : Store) : Except Fault Store :=
  (dropAddr (dropFuel s) a s).getD (.error (.internal "dropAddr: out of fuel"))

end Wok.Interp.RC
