/-
Module: Wok.Spec.Ledger
Purpose: What a program may ask of the runtime and what it is owed: the cells it got
  and their sizes, which of them are still there, and the statistics, without any
  memory.
Imports: Mathlib.Algebra.Order.Ring.Int, Mathlib.Algebra.BigOperators.Group.Finset.Basic,
  Wok.Lib.Refinement, Wok.Runtime.Calls
Trusted boundary: none
Main exports: Kind, Kind.size, Kind.cls, Status, Ledger, Ledger.step, Ledger.Valid,
  Ledger.ValidRun
-/
import Mathlib.Algebra.Order.Ring.Int
import Mathlib.Algebra.BigOperators.Group.Finset.Basic
import Wok.Lib.Refinement
import Wok.Runtime.Calls

namespace Wok.Runtime

open Wok.Lib

/-! ### Kinds of cells -/

/-- The kind of a counted cell, with all that its size depends on. -/
inductive Kind where
  | node (tag arity : Nat)
  | array (len : Nat)
  | string (byteLen : Nat)
  | bytes (byteLen : Nat)
  | stringView
  | foreignBytes
  | borrowView
deriving DecidableEq, Repr

namespace Kind

/-- The bytes of a cell: its header and what follows it, in whole words. -/
def size : Kind → Nat
  | .node _ arity => 8 + 8 * arity
  | .array len => 16 + 8 * len
  | .string n => 16 + 8 * ((n + 7) / 8)
  | .bytes n => 16 + 8 * ((n + 7) / 8)
  | .stringView => 32
  | .foreignBytes => 24
  | .borrowView => 24

/-- The size class of a cell; only the classes below 64 have a free list. -/
def cls (k : Kind) : Nat :=
  k.size / 8 - 1

/-- Where a program may write in a cell: the index of its first word and their number. -/
def body : Kind → Nat × Nat
  | .node _ arity => (1, arity)
  | .array len => (2, len)
  | .string n => (2, (n + 7) / 8)
  | .bytes n => (2, (n + 7) / 8)
  | _ => (0, 0)

end Kind

/-- A tag of a constructor, none of the six that are reserved for other cells. -/
def ValidTag (tag : Nat) : Prop :=
  tag < wokBorrowViewTag

instance (tag : Nat) : Decidable (ValidTag tag) := inferInstanceAs (Decidable (_ < _))

namespace Request

def kind : Request → Kind
  | .node tag arity => .node tag arity
  | .array len _ => .array len
  | .string n => .string n
  | .bytes n => .bytes n
  | .stringView .. => .stringView
  | .foreignBytes .. => .foreignBytes
  | .borrowView .. => .borrowView

/-- The abort for a length whose cell would not fit the address space. -/
def overflow : Request → Option Abort
  | .array len _ => if (sizeMax - 16) / 8 < len then some .arrayOverflow else none
  | .string n => if sizeMax - 16 - 7 < n then some .stringOverflow else none
  | .bytes n => if sizeMax - 16 - 7 < n then some .stringOverflow else none
  | _ => none

end Request

/-! ### The ledger -/

/-- What became of a cell. -/
inductive Status where
  | counted (k : Kind) (rc : Nat)
  | freed (k : Kind)
  /-- a cell of the arena scope of that depth -/
  | arena (tag arity scope : Nat)
  | closed
deriving DecidableEq, Repr

namespace Status

/-- The bytes of a counted cell that is live. -/
def bytes : Status → Nat
  | .counted k _ => k.size
  | _ => 0

def one : Status → Nat
  | .counted .. => 1
  | _ => 0

/-- One for a live cell of the class. -/
def ofClass (cls : Nat) : Status → Nat
  | .counted k _ => if k.cls = cls then 1 else 0
  | _ => 0

/-- The bytes of a live cell whose class has no free list. -/
def largeBytes : Status → Nat
  | .counted k _ => if wokNumClasses ≤ k.cls then k.size else 0
  | _ => 0

/-- The bytes of a cell of an open scope below the given depth. -/
def scopeBytes (depth : Nat) : Status → Nat
  | .arena _ arity scope => if scope < depth then 8 + 8 * arity else 0
  | _ => 0

/-- A cell after the scopes from the given depth on are closed. -/
def close (depth : Nat) : Status → Status
  | .arena tag arity scope => if scope < depth then .arena tag arity scope else .closed
  | st => st

end Status

/-- The cells a program got, in that order, the open scopes, and what the statistics
remember of the past. -/
structure Ledger where
  cells : List Status := []
  depth : Nat := 0
  allocs : Nat := 0
  frees : Nat := 0
  peak : Nat := 0
  peakBytes : Nat := 0
  arenaPeak : Nat := 0
  /-- the most counted and arena bytes together -/
  peakLogical : Nat := 0
  /-- the most cells of a class that were live at once -/
  classPeak : Nat → Nat := fun _ => 0

namespace Ledger

/-- The sum of a figure over all cells. -/
def total (f : Status → Nat) (L : Ledger) : Nat :=
  (L.cells.map f).sum

def live (L : Ledger) : Nat := L.total Status.one
def curBytes (L : Ledger) : Nat := L.total Status.bytes
def arenaBytes (L : Ledger) : Nat := L.total (Status.scopeBytes L.depth)

/-- What the classes with a free list took, each at its own peak. -/
def classBytes (L : Ledger) : Nat :=
  ∑ cls ∈ Finset.range wokNumClasses, L.classPeak cls * (8 + 8 * cls)

/-- What every new cell may raise. -/
def mark (L : Ledger) : Ledger :=
  { L with
    peak := max L.live L.peak
    peakBytes := max L.curBytes L.peakBytes
    arenaPeak := max L.arenaBytes L.arenaPeak
    peakLogical := max (L.curBytes + L.arenaBytes) L.peakLogical
    classPeak := fun cls => max (L.total (Status.ofClass cls)) (L.classPeak cls) }

/-- One more counted cell. -/
def addCounted (k : Kind) (L : Ledger) : Ledger :=
  { L with cells := L.cells ++ [Status.counted k 1], allocs := L.allocs + 1 }.mark

/-- One more cell of the innermost scope. -/
def addArena (tag arity : Nat) (L : Ledger) : Ledger :=
  { L with cells := L.cells ++ [Status.arena tag arity (L.depth - 1)] }.mark

def set (i : Nat) (st : Status) (L : Ledger) : Ledger :=
  { L with cells := L.cells.set i st }

/-- The scopes from the given depth on are closed. -/
def closeFrom (depth : Nat) (L : Ledger) : Ledger :=
  { L with cells := L.cells.map (Status.close depth), depth := depth }

def step : Call → Ledger → Except Abort Ledger
  | .alloc r, L =>
      match r.overflow with
      | some e => .error e
      | none => .ok (L.addCounted r.kind)
  | .allocAt tag arity i, L =>
      match L.cells[i]? with
      | some (.counted (.node _ arity') rc) =>
          if arity' ≠ arity then .error .arityMismatch
          else if rc ≠ 0 then .error .liveShell
          else .ok (L.set i (.counted (.node tag arity) 1))
      | _ => .error .noCell
  | .dup i, L =>
      match L.cells[i]? with
      | some (.counted k rc) => .ok (L.set i (.counted k ((rc + 1) % 2 ^ 32)))
      | _ => .error .noCell
  | .dec i, L =>
      match L.cells[i]? with
      | some (.counted k rc) =>
          if rc = 0 then .error .doubleFree else .ok (L.set i (.counted k (rc - 1)))
      | _ => .error .noCell
  | .slotSet .., L => .ok L
  | .arraySlotSet .., L => .ok L
  | .dataSet .., L => .ok L
  | .free i, L =>
      match L.cells[i]? with
      | some (.counted k rc) =>
          if rc ≠ 0 then .error .prematureFree
          else .ok { L.set i (.freed k) with frees := L.frees + 1 }
      | _ => .error .noCell
  | .arenaOpen, L =>
      if wokArenaMaxDepth ≤ L.depth then .error .arenaDepth
      else .ok { L with depth := L.depth + 1 }
  | .arenaAlloc tag arity, L =>
      if L.depth = 0 then .error .noArena
      else .ok (L.addArena tag arity)
  | .arenaClose handle, L =>
      if L.depth = 0 ∨ handle ≠ L.depth - 1 then .error .handleMismatch
      else .ok (L.closeFrom handle)

/-! ### What a program may ask -/

/-- A cell that the program may write a word of the body of, by a call for that kind. -/
def Writes (ofKind : Kind → Bool) (i slot : Nat) (L : Ledger) : Prop :=
  match L.cells[i]? with
  | some (.counted k _) => ofKind k = true ∧ slot < k.body.2
  | some (.arena tag arity _) => ofKind (.node tag arity) = true ∧ slot < arity
  | _ => False

/-- A live counted cell of some kind. -/
def IsCounted (i : Nat) (ofKind : Kind → Bool) (L : Ledger) : Prop :=
  match L.cells[i]? with
  | some (.counted k _) => ofKind k = true
  | _ => False

def isNode : Kind → Bool
  | .node .. => true
  | _ => false

def isArray : Kind → Bool
  | .array _ => true
  | _ => false

def isData : Kind → Bool
  | .string _ => true
  | .bytes _ => true
  | _ => false

def ValidRequest (r : Request) (L : Ledger) : Prop :=
  match r with
  | .node tag arity => ValidTag tag ∧ arity < 256
  | .array len elemkind => len < 2 ^ 64 ∧ elemkind < 256
  | .string n => n < 2 ^ 64
  | .bytes n => n < 2 ^ 64
  | .stringView parent off len => L.IsCounted parent (fun _ => true) ∧ off < 2 ^ 64 ∧ len < 2 ^ 64
  | .foreignBytes ptr n => ptr < 2 ^ 64 ∧ n < 2 ^ 64
  | .borrowView ptr n => ptr < 2 ^ 64 ∧ n < 2 ^ 64

/-- A call that the interface of the runtime allows: its tags are those of constructors,
its numbers fit their types, and it names a live cell of the right kind. A count that is
not zero, a scope that is not the innermost and the like are allowed: the runtime looks at
them itself. -/
def Valid (call : Call) (L : Ledger) : Prop :=
  match call with
  | .alloc r => L.ValidRequest r
  | .allocAt tag arity i => ValidTag tag ∧ arity < 256 ∧ L.IsCounted i isNode
  | .dup i => L.IsCounted i fun _ => true
  | .dec i => L.IsCounted i fun _ => true
  | .slotSet i slot word => L.Writes isNode i slot ∧ word < 2 ^ 64
  | .arraySlotSet i slot word => L.Writes isArray i slot ∧ word < 2 ^ 64
  | .dataSet i slot word => L.Writes isData i slot ∧ word < 2 ^ 64
  | .free i => L.IsCounted i fun _ => true
  | .arenaOpen => True
  | .arenaAlloc tag arity => ValidTag tag ∧ arity < 256
  | .arenaClose _ => True

/-- Every call of the program is allowed when it is made. -/
def ValidRun (calls : List Call) (L : Ledger) : Prop :=
  Allowed step Valid calls L

/-- The ledger after the calls. -/
def run (calls : List Call) (L : Ledger) : Except Abort Ledger :=
  calls.foldlM (fun L call => step call L) L

end Ledger

attribute [grind =] Kind.size Request.kind Request.overflow Ledger.step

end Wok.Runtime
