/-
Module: Wok.Spec.Slices
Purpose: The counted machine as a machine of strings: literals, concatenations and slices of
  both kinds, references taken and dropped in between. What a window of a string is, and
  what a slice and the count of a string should come to.
Imports: Wok.Interp.RC.Prim, Wok.Spec.Strings, Wok.Lib.Utf8
Trusted boundary: none
Main exports: StringOp, StringOp.run, StringState, StringStep, StringRuns, IsRoot, InWindow,
  Store.viewsOn, CountLaw, SliceLaw, ByteSliceLaw
-/
import Wok.Interp.RC.Prim
import Wok.Spec.Strings
import Wok.Lib.Utf8

namespace Wok.Interp.RC

open Wok.IR
open Wok.Lib (Boundary)

/-! ### Runs -/

/-- An operation on strings, on handles of the machine. -/
inductive StringOp where
  | literal (t : String)
  | append (a b : Addr)
  | slice (a : Addr) (start len : UInt64)
  | byteSlice (a : Addr) (start len : UInt64)
  | dup (a : Addr)
  | drop (a : Addr)

/-- The handles that an operation takes over. -/
def StringOp.operands : StringOp → List Addr
  | .literal _ => []
  | .append a b => [a, b]
  | .slice a .. => [a]
  | .byteSlice a .. => [a]
  | .dup a => [a]
  | .drop a => [a]

/-- A `U64` as an argument. -/
def indexArg (n : UInt64) : RCValue := .lit (.int n.toNat)

/-- The handles that the machine gets from a primitive. -/
def resultHandles : RCPrimResult → List Addr
  | .done v => valueChildren v
  | .apply f args => (f :: args).flatMap valueChildren

def callPrim (p : RCPrim) (vs : List RCValue) (s : Store) : Except Fault (List Addr × Store) := do
  let (r, s') ← p.fn vs s
  return (resultHandles r, s')

/-- Run an operation; the result is the handles that the machine owns after it. -/
def StringOp.run (A : Allocator) : StringOp → Store → Except Fault (List Addr × Store)
  | .literal t, s => do
      let (a, s') ← alloc A (.string (encodeUtf8 t)) s
      return ([a], s')
  | .append a b, s => callPrim (stringAppend A) [.box a, .box b] s
  | .slice a start len, s => callPrim (stringSlice A) [.box a, indexArg start, indexArg len] s
  | .byteSlice a start len, s =>
      callPrim (stringByteSlice A) [.box a, indexArg start, indexArg len] s
  | .dup a, s => do
      let s' ← incref a s
      return ([a, a], s')
  | .drop a, s => do
      let s' ← RC.drop a s
      return ([], s')

/-- A store and the strings in it that the machine owns. -/
structure StringState where
  store : Store
  handles : List Addr

inductive StringStep (A : Allocator) (st : StringState) (op : StringOp) : StringState → Prop
  | mk {rest made : List Addr} {s' : Store} (howned : st.handles.Perm (op.operands ++ rest))
      (hrun : op.run A st.store = .ok (made, s')) : StringStep A st op ⟨s', made ++ rest⟩

/-- Any sequence of operations. -/
def StringRuns (A : Allocator) : StringState → StringState → Prop :=
  Relation.ReflTransGen fun st st' => ∃ op, StringStep A st op st'

/-! ### Windows -/

def IsString (s : Store) (a : Addr) : Prop := (∃ bs, StringCell s a bs) ∨ IsView s a

/-- A live string of its own with the bytes of this text. -/
def IsRoot (s : Store) (a : Addr) (t : String) : Prop :=
  a ∈ s.liveCells ∧ StringCell s a (encodeUtf8 t)

/-- A window of a live string that is no view: it lies within the bytes, and no code point
is cut at either end. -/
def InWindow (s : Store) (root : Addr) (off len : Nat) : Prop :=
  ∃ t, IsRoot s root t ∧ ¬ IsView s root ∧ off + len ≤ (encodeUtf8 t).length ∧
    Boundary t.toList off ∧ Boundary t.toList (off + len)

/-! ### Counts -/

/-- The string that a view is a window of. -/
def Store.viewParent (s : Store) : Addr → Option Addr
  | .heap i =>
      match s.cells.lookup i with
      | some ⟨_, .stringView parent _ _, _⟩ => some parent
      | _ => none
  | .c p =>
      match s.objs.lookup p with
      | some o => if o.tag = wokStringViewTag then some (.c (wokStringViewParent o)) else none
      | none => none
  | _ => none

/-- The live views of a string. -/
def Store.viewsOn (s : Store) (root : Addr) : Finset Addr :=
  s.liveCells.filter fun a => s.viewParent a = some root

/-- The count of a string moves by the views on it that were made, less those that were
given back, and by the handles to the string itself that the machine got, less those that
it gave up. -/
def CountLaw (st st' : StringState) (root : Addr) : Prop :=
  (st'.store.countOf root : Int) =
    st.store.countOf root +
      ((st'.store.viewsOn root \ st.store.viewsOn root).card -
        (st.store.viewsOn root \ st'.store.viewsOn root).card) +
      (st'.handles.count root - st.handles.count root)

/-! ### Slices -/

/-- The bounds that the primitives take. -/
def IndexInRange (start len : UInt64) : Prop := start.toNat < 2 ^ 63 ∧ len.toNat < 2 ^ 63

def indexOutOfRange : Fault := primError "String: index out of range"

/-- A slice by code points is the window of the text, cut off at its end. -/
def SliceLaw (A : Allocator) (s : Store) (a : Addr) (t : String) (start len : UInt64) : Prop :=
  let run := (stringSlice A).fn [.box a, indexArg start, indexArg len] s
  (¬ IndexInRange start len → run = .error indexOutOfRange) ∧
    (IndexInRange start len → ∃ v s', run = .ok (.done (.box v), s') ∧
      StringAt s' v (encodeUtf8 (String.ofList ((t.toList.drop start.toNat).take len.toNat))))

/-- A slice by bytes is the window of the bytes, cut off at their end, unless that cuts a
code point. -/
def ByteSliceLaw (A : Allocator) (s : Store) (a : Addr) (t : String) (start len : UInt64) :
    Prop :=
  let run := (stringByteSlice A).fn [.box a, indexArg start, indexArg len] s
  let bytes := encodeUtf8 t
  ((∃ e, run = .error e) ↔ ¬ IndexInRange start len ∨
      ¬ Boundary t.toList (min start.toNat bytes.length) ∨
      ¬ Boundary t.toList (min (start.toNat + len.toNat) bytes.length)) ∧
    ∀ r s', run = .ok (r, s') → ∃ v, r = .done (.box v) ∧
      StringAt s' v ((bytes.drop start.toNat).take len.toNat)

end Wok.Interp.RC
