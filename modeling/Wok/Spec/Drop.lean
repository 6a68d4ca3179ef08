/-
Module: Wok.Spec.Drop
Purpose: What the store is an implementation of: a heap of counted cells at
  abstract and C addresses, the counts that its machine keeps, and the cells that
  a drop gives back.
Imports: Wok.Interp.RC.Drop, Wok.Lib.CountedHeap
Trusted boundary: none
Main exports: Store.counted, Store.liveCells, Store.heap, Store.WellFormed,
  Store.Counted, Store.Fresh, Store.freed, Stats.giveBack
-/
import Wok.Interp.RC.Drop
import Wok.Lib.CountedHeap

namespace Wok.Interp.RC

open Wok.Lib (CountedHeap)

namespace Store

/-- An address whose references are counted: not static, not an immediate and
not in an open arena. -/
def counted (s : Store) (a : Addr) : Bool :=
  !isUncounted a && !s.isArenaAddr a

/-- The counted cells of both heaps. The shells that reuse tokens hold are not
among them: they are no longer in the abstract heap, and their count in the C
heap is zero. -/
def liveCells (s : Store) : Finset Addr :=
  ((s.cells.keys.map Addr.heap ++
      ((s.objs.entries.filter fun o => o.2.rc ≠ 0).map fun o => Addr.c o.1)).filter
    (s.counted ·)).toFinset

/-- The count a cell stores. -/
def countOf (s : Store) : Addr → Nat
  | .heap i => ((s.cells.lookup i).map (·.rc)).getD 0
  | .c p => ((s.objs.lookup p).map (·.rc)).getD 0
  | _ => 0

/-- The references a cell drops when it is freed, as its decoder reads them. -/
def kidsOf (s : Store) : Addr → List Addr
  | .heap i => ((s.cells.lookup i).map fun c => cascadeChildren c.node).getD []
  | .c p =>
      match (s.objs.lookup p).map (objKids · s) with
      | some (.ok kids) => kids
      | _ => []
  | _ => []

/-- The heap of counted cells and counted edges that a store implements. -/
def heap (s : Store) : CountedHeap Addr where
  live := s.liveCells
  count := s.countOf
  kids a := (s.kidsOf a).filter (s.counted ·)

/-- The reserved shells in flight in the continuation at an address. -/
def reservationsAt (s : Store) : Addr → List (Addr × Int)
  | .heap i => ((s.cells.lookup i).map fun c => nodeReservations s.reserved c.node).getD []
  | _ => []

/-- The bytes on the books for a live cell. -/
def bytesOf (s : Store) : Addr → Int
  | .heap i => ((s.cells.lookup i).map (·.bytes)).getD 0
  | .c p => ((s.objs.lookup p).map objBytes).getD 0
  | _ => 0

/-- What every operation of the store keeps to besides the counts. `charge` is
the number of bytes that was charged for the cell of an address when it was
allocated. -/
structure WellFormed (charge : Addr → Int) (s : Store) : Prop where
  /-- an address that was given back has no cell -/
  dead : ∀ i ∈ s.dead, s.cells.lookup i = none
  /-- the C heap is used under its own backend only -/
  backend : ∀ p o, s.objs.lookup p = some o → s.backend = .cHeap
  /-- a cell of the C heap was written with the descriptor of its tag -/
  decodes : ∀ p o, Addr.c p ∈ s.liveCells → s.objs.lookup p = some o →
    ∃ kids, objKids o s = .ok kids
  /-- no static cell is a continuation with a reuse token in flight -/
  static : ∀ i, i < 0 → s.reservationsAt (.heap i) = []
  /-- a reserved shell of the abstract heap has left it but is not given back -/
  reservedHeap : ∀ i, Addr.heap i ∈ s.reserved → s.cells.lookup i = none ∧ i ∉ s.dead
  /-- a reserved shell of the C heap is in memory with a count of zero -/
  reservedC : ∀ p, Addr.c p ∈ s.reserved → ∃ o, s.objs.lookup p = some o ∧ o.rc = 0
  /-- immediates are never reserved -/
  reservedInline : ∀ a ∈ s.reserved, isInline a = false
  /-- the books hold for each cell what was charged for it -/
  charged : ∀ a ∈ s.liveCells, s.bytesOf a = charge a
  /-- a reuse token carries what was charged for its shell -/
  chargedShell : ∀ a ∈ s.liveCells, ∀ r ∈ s.reservationsAt a, r.2 = charge r.1

/-- The count invariant: the count of every live cell is the number of counted
edges to it from live cells and of the handles among `handles`, which are those
that the machine owns, open arenas included. -/
structure Counted (charge : Addr → Int) (s : Store) (handles : List Addr) : Prop where
  wellFormed : s.WellFormed charge
  balanced : s.heap.Balanced [] (handles.filter (s.counted ·))

/-- No address from `next` on is in use, and the cells of open arena frames are
neither free memory nor reserved shells. -/
structure Fresh (s : Store) : Prop where
  next : 0 ≤ s.next
  cells : ∀ i, s.next ≤ i → s.cells.lookup i = none
  dead : ∀ i ∈ s.dead, i < s.next
  reserved : ∀ i, Addr.heap i ∈ s.reserved → i < s.next
  arena : ∀ i, s.isArenaAddr (.heap i) = true → i < s.next
  arenaC : ∀ p, s.isArenaAddr (.c p) = true → s.objs.lookup p ≠ none
  shells : ∀ p, Addr.c p ∈ s.reserved → s.isArenaAddr (.c p) = false

/-- What the run from `s` to `s'` gave back: live cells and reserved shells. -/
def freed (s s' : Store) : Finset Addr :=
  (s.liveCells \ s'.liveCells) ∪ (s.reserved \ s'.reserved)

end Store

/-- The counters after the cells `F` have been given back, each once. -/
def Stats.giveBack (charge : Addr → Int) (F : Finset Addr) (g : Stats) : Stats :=
  { g with
    frees := g.frees + F.card
    live := g.live - F.card
    curBytes := g.curBytes - ∑ a ∈ F, charge a }

end Wok.Interp.RC
