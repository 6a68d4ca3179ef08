/-
Module: Wok.Interp.RC.Value
Purpose: Addresses, values, continuations and the store of the counted
  interpreter, with both heaps: the abstract one and the cells of the C runtime.
Imports: Mathlib.Data.Finset.Basic, Mathlib.Data.List.AList, Wok.IR.Escape,
  Wok.Interp.Value
Trusted boundary: none
Main exports: Addr, RCValue, RCFrame, RCKont, Node, Cell, WokObj, Stats, recordAlloc,
  recordFree, Store, countedRefs, continuationOwned, continuationReservations,
  cascadeChildren
-/
import Mathlib.Data.Finset.Basic
import Mathlib.Data.List.AList
import Wok.IR.Escape
import Wok.Interp.Value

namespace Wok.Interp.RC

open Wok.IR

/-- A pointer into the heap of the C runtime. -/
abbrev Ptr := UInt64

/-- A heap address: an index of the abstract heap (negative in the static
region), a cell of the C runtime, or an immediate that has no cell. -/
inductive Addr where
  | heap (i : Int)
  | c (p : Ptr)
  | inline (tag : UInt32)
  | inlineStr (bytes : List UInt8)
  deriving Repr, DecidableEq, Inhabited

/-- A reserved shell carried by a reuse token. -/
structure ReuseSlot where
  addr : Addr
  arity : UInt32
  cEligible : Bool
  bytes : Int
  deriving Repr, DecidableEq, Inhabited

/-- Run-time values. A member of a recursive group holds the static address of
the group's code and the counted address of its environment; an instance handle
and a reuse token own no cell. -/
inductive RCValue where
  | lit (l : Lit)
  | box (a : Addr)
  | recMember (group : Addr) (index : Nat) (env : Addr)
  | inst (self : Unique) (tag : Nat)
  | reuse (slot : Option ReuseSlot)
  deriving Repr, DecidableEq, Inhabited

/-- Environments, in the order of their keys. -/
abbrev REnv := List (Unique × RCValue)

def isStaticAddr : Addr → Bool
  | .heap i => i < 0
  | _ => false

def isInline : Addr → Bool
  | .inline _ => true
  | .inlineStr _ => true
  | _ => false

/-- An address that owns no counted cell, as far as the address alone tells;
`Store.isArenaAddr` is the rest of the test. -/
def isUncounted (a : Addr) : Bool :=
  isStaticAddr a || isInline a

def valueChildren : RCValue → List Addr
  | .lit _ => []
  | .box a => [a]
  | .recMember _ _ e => [e]
  | .inst .. => []
  | .reuse _ => []

/-- The counted addresses that values refer to: what a capture retains and what
the free cascade releases. -/
def countedRefs (vs : List RCValue) : List Addr :=
  vs.flatMap fun v => (valueChildren v).filter (! isUncounted ·)

/-! ### Continuations -/

mutual

/-- A lexical scope: term bindings and join points. -/
structure RCScope where
  env : List (Unique × RCValue)
  joins : List (JoinId × RCJoin)

structure RCJoin where
  scope : RCScope
  params : List Binder
  body : Expr
  kont : List RCFrame

/-- One frame of a continuation. `dropCell` is the deferred drop of a closure
cell with no binder; the three `Close` frames are brackets of an activation. -/
inductive RCFrame where
  | let_ (b : Binder) (body : Expr) (sc : RCScope)
  | app (args : List RCValue)
  | handle (h : Handler) (tag : Nat) (sc : RCScope)
  | dropCell (a : Addr)
  | arenaClose
  | windowClose
  | borrowClose

end

/-- The continuation stack, innermost frame first; the empty stack is `KDoneRC`. -/
abbrev RCKont := List RCFrame

/-- The addresses that the binders in `us` have in a scope, each with its binder. -/
def ownedBy (us : List Unique) (env : REnv) : List (Option Unique × Addr) :=
  us.flatMap fun u =>
    match env.lookup u with
    | some v => (countedRefs [v]).map fun a => (some u, a)
    | none => []

/-- What a pending `let` owns: the variables that its body moves or drops, that
are bound outside it, other than the pending result. -/
def frameOwned (b : Binder) (body : Expr) (sc : RCScope) : List (Option Unique × Addr) :=
  let owned := (nonHeadOccs body ++ dropTargets body).intersection (freeVarsExpr body)
  ownedBy (owned.delete (binderUnique b)).toAscList sc.env

/-- Owned addresses frame by frame; `none` for those that no binder holds. -/
def continuationOwnedGo : RCKont → List (Option Unique × Addr)
  | [] => []
  | .let_ b body sc :: k => frameOwned b body sc ++ continuationOwnedGo k
  | .app args :: k => (countedRefs args).map (fun a => (none, a)) ++ continuationOwnedGo k
  | .dropCell a :: k =>
      (if isUncounted a then [] else [(none, a)]) ++ continuationOwnedGo k
  | .arenaClose :: k => continuationOwnedGo k
  | .windowClose :: k => continuationOwnedGo k
  | .borrowClose :: k => continuationOwnedGo k
  -- a nested handler owns its parameter; the rest of its scope is its surroundings'
  | .handle h _ sc :: k =>
      ownedBy (h.param.toList.map binderUnique) sc.env ++ continuationOwnedGo k

/-- One entry for each binder and address; entries without a binder all stay. -/
def dedupOwned (seen : List (Unique × Addr)) : List (Option Unique × Addr) → List Addr
  | [] => []
  | (some u, a) :: rest =>
      if (u, a) ∈ seen then dedupOwned seen rest
      else a :: dedupOwned ((u, a) :: seen) rest
  | (none, a) :: rest => a :: dedupOwned seen rest

/-- The owned set of a captured continuation: the addresses that its pending
drops and moves would consume if it ran. -/
def continuationOwned (k : RCKont) : List Addr :=
  dedupOwned [] (continuationOwnedGo k)

/-- The shells of the tokens among `vs` that are still reserved. -/
def reservationsFromValues (reserved : Finset Addr) (vs : List RCValue) : List (Addr × Int) :=
  vs.filterMap fun
    | .reuse (some slot) => if slot.addr ∈ reserved then some (slot.addr, slot.bytes) else none
    | _ => none

def continuationReservationsGo (reserved : Finset Addr) : RCKont → List (Addr × Int)
  | [] => []
  | .let_ _ _ sc :: k =>
      reservationsFromValues reserved (sc.env.map (·.2)) ++ continuationReservationsGo reserved k
  | .app args :: k =>
      reservationsFromValues reserved args ++ continuationReservationsGo reserved k
  | .arenaClose :: k => continuationReservationsGo reserved k
  | .windowClose :: k => continuationReservationsGo reserved k
  | .borrowClose :: k => continuationReservationsGo reserved k
  | .handle h _ sc :: k =>
      reservationsFromValues reserved
          (h.param.toList.filterMap fun b => sc.env.lookup (binderUnique b)) ++
        continuationReservationsGo reserved k
  | .dropCell _ :: k => continuationReservationsGo reserved k

/-- The first entry of each address. -/
def dedupReservations (seen : List Addr) : List (Addr × Int) → List (Addr × Int)
  | [] => []
  | (a, b) :: rest =>
      if a ∈ seen then dedupReservations seen rest
      else (a, b) :: dedupReservations (a :: seen) rest

/-- The reservations in flight in a captured continuation, with the bytes charged
for each when its cell was allocated. -/
def continuationReservations (k : RCKont) (reserved : Finset Addr) : List (Addr × Int) :=
  dedupReservations [] (continuationReservationsGo reserved k)

/-! ### Cells -/

inductive CaptureMode where
  | ownCaptures
  | borrowCaptures
  deriving Repr, DecidableEq

/-- A node of the abstract heap. Maps are in the order of their keys. -/
inductive Node where
  | con (tag : String) (fields : List RCValue)
  | array (elems : List RCValue)
  | string (bytes : List UInt8)
  | bytes (bytes : List UInt8)
  | foreignBytes (bytes : List UInt8)
  | borrowView (bytes : List UInt8)
  | record (name : String) (fields : List (String × RCValue))
  | closure (env : REnv) (params : List Binder) (body : Expr) (mode : CaptureMode)
  | groupCode (members : List Def)
  | env (env : REnv)
  | cont (pfx : RCKont) (h : Handler) (tag : Nat) (sc : RCScope)
  | contCell (held : Option Addr)
  | stringView (parent : Addr) (offset length : Nat)

/-- A cell of the abstract heap: its count, its node and the bytes charged for it. -/
structure Cell where
  rc : Nat
  node : Node
  bytes : Int

/-- The values a node holds. A continuation's frames are not among them. -/
def nodeValues : Node → List RCValue
  | .con _ vs => vs
  | .array vs => vs
  | .string _ => []
  | .bytes _ => []
  | .foreignBytes _ => []
  | .borrowView _ => []
  | .record _ fields => fields.map (·.2)
  | .closure env _ _ _ => env.map (·.2)
  | .groupCode _ => []
  | .env env => env.map (·.2)
  | .cont .. => []
  | .contCell held => held.toList.map .box
  | .stringView p _ _ => [.box p]

/-- The addresses to drop when a node's cell is freed: the owned set of a
continuation, the counted references of any other node. -/
def cascadeChildren : Node → List Addr
  | .cont pfx _ _ _ => continuationOwned pfx
  | other => countedRefs (nodeValues other)

/-- The reservations that go with a node when its cell is freed. -/
def nodeReservations (reserved : Finset Addr) : Node → List (Addr × Int)
  | .cont pfx _ _ _ => continuationReservations pfx reserved
  | _ => []

/-! ### Cells of the C runtime -/

/-- A cell of the C runtime as it lies in memory: a count, a tag and one byte
that holds the arity of a constructor or the element kind of an array, and the
8-byte words that follow. -/
structure WokObj where
  rc : Nat
  tag : UInt16
  arity : UInt8
  words : List UInt64
  deriving Repr, DecidableEq

def wokArrayTag : UInt16 := 0xFFFF
def wokStringTag : UInt16 := 0xFFFE
def wokStringViewTag : UInt16 := 0xFFFD
def wokBytesTag : UInt16 := 0xFFFC
def wokForeignBytesTag : UInt16 := 0xFFFB
def wokBorrowViewTag : UInt16 := 0xFFFA

def WokObj.word (o : WokObj) (i : Nat) : UInt64 := o.words.getD i 0

def wokSlotGet (o : WokObj) (i : Nat) : UInt64 := o.word i
def wokArrayLen (o : WokObj) : Nat := (o.word 0).toNat
def wokArraySlotGet (o : WokObj) (i : Nat) : UInt64 := o.word (i + 1)
def wokStringLen (o : WokObj) : UInt64 := o.word 0
def wokBytesLen (o : WokObj) : UInt64 := o.word 0
def wokStringViewParent (o : WokObj) : Ptr := o.word 0

/-- The kind of a slot word. -/
inductive SlotKind where
  | litInt
  | litChar
  | litUnit
  | pointer
  deriving Repr, DecidableEq

/-- A run-time failure of the interpreter, an internal `error` of it, or an abort
of the C runtime. -/
inductive Fault where
  | runtime (e : RuntimeError)
  | internal (message : String)
  | abort (message : String)
  deriving Repr, DecidableEq

def elemKindToSlotKind (w : UInt8) : Except Fault SlotKind :=
  if w = 0 then .ok .litInt
  else if w = 1 then .ok .litChar
  else if w = 2 then .ok .litUnit
  else if w = 3 then .ok .pointer
  else .error (.internal ("elemKindToSlotKind: unknown elemkind byte " ++ toString w))

/-- The bytes of a string packed into a slot word. -/
def unpackInlineStr (w : UInt64) : List UInt8 :=
  let len := ((w >>> 3) &&& 7).toNat
  let bytesW := w >>> 6
  (List.range len).map fun i => (bytesW >>> UInt64.ofNat (8 * i)).toUInt8

def decodeSlotC : SlotKind → UInt64 → RCValue
  | .litInt, w => .lit (.int w.toInt64.toInt)
  | .litChar, w => .lit (.char (Char.ofNat w.toNat))
  | .litUnit, _ => .lit .unit
  | .pointer, w =>
      if w &&& 1 = 0 then .box (.c w)
      else if w &&& 2 = 0 then .box (.heap (w.toInt64.toInt >>> (2 : Nat)))
      else if w &&& 4 = 0 then .box (.inline (w >>> 3).toUInt32)
      else .box (.inlineStr (unpackInlineStr w))

/-- The slots of an array of the given element kind. -/
def readCArraySlots (kind : SlotKind) (o : WokObj) : List RCValue :=
  (List.range (wokArrayLen o)).map fun i => decodeSlotC kind (wokArraySlotGet o i)

def readCWords (o : WokObj) : List UInt64 :=
  (List.range o.arity.toNat).map (wokSlotGet o)

/-! ### The store -/

inductive HeapBackend where
  | abstractHeap
  | cHeap
  deriving Repr, DecidableEq

/-- The counters that an allocation and a free move. Arenas and lent buffers have
books of their own; `kontPeak` is for the diagnostic of the continuation's depth. -/
structure Stats where
  allocs : Int
  frees : Int
  live : Int
  peak : Int
  curBytes : Int
  peakBytes : Int
  arenaBytes : Int := 0
  arenaPeak : Int := 0
  closes : Int := 0
  borrowLentCur : UInt64 := 0
  borrowLentPeak : UInt64 := 0
  kontPeak : Nat := 0
  deriving Repr, DecidableEq

def recordAlloc (bytes : Int) (g : Stats) : Stats :=
  let live := g.live + 1
  let cur := g.curBytes + bytes
  { g with
    allocs := g.allocs + 1
    live := live
    peak := max g.peak live
    curBytes := cur
    peakBytes := max g.peakBytes cur }

def recordFree (bytes : Int) (g : Stats) : Stats :=
  { g with frees := g.frees + 1, live := g.live - 1, curBytes := g.curBytes - bytes }

/-- The store. `objs` is the memory of the C runtime, which the source reaches
through `IO`, and `buffers` are the foreign buffers that it points to; `conDesc`
gives the slot kinds of a constructor's tag, `reserved` the shells held by reuse
tokens, `arena` and `arenaC` the open arena frames with the handles of the C
runtime for them. `tags` are the interned constructor names, the latest first.
`windowSet` and `borrowClose` are the brackets of the open activations: the views
to check and the lent buffers to close when one ends. -/
structure Store where
  cells : AList (fun _ : Int => Cell)
  dead : Finset Int
  stats : Stats
  backend : HeapBackend
  conDesc : List (UInt16 × List SlotKind)
  reserved : Finset Addr
  arena : List (List Int)
  arenaC : List (List Ptr)
  objs : AList (fun _ : Ptr => WokObj)
  next : Int := 0
  tags : List (String × UInt32) := []
  arenaHandles : List UInt32 := []
  buffers : List (Ptr × List UInt8) := []
  nextStatic : Int := -1
  windowSet : List (List Int) := []
  borrowClose : List (List (Ptr × UInt64)) := []

/-- A cell of an open arena frame, which is not counted. -/
def Store.isArenaAddr (s : Store) : Addr → Bool
  | .heap i => s.arena.any (i ∈ ·)
  | .c p => s.arenaC.any (p ∈ ·)
  | _ => false

/-- Decode a constructor's slots by the descriptor of its tag. -/
def readCConValues (o : WokObj) (s : Store) : Except Fault (List RCValue) :=
  let ws := readCWords o
  match s.conDesc.lookup o.tag with
  | none => .error (.internal "readCConValues: no descriptor for tag")
  | some kinds =>
      if kinds.length = ws.length then .ok (List.zipWith decodeSlotC kinds ws)
      else .error (.internal
        ("readCConValues: descriptor arity " ++ toString kinds.length ++ " /= cell arity " ++
          toString ws.length ++ " for tag " ++ toString o.tag))

end Wok.Interp.RC
