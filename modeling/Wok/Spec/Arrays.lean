/-
Module: Wok.Spec.Arrays
Purpose: Programs that make values of every kind, put them in arrays and work on
  the arrays; what is seen of a value to a depth; when an array can be kept on the
  C heap.
Imports: Wok.Interp.RC.Array, Wok.Spec.Strings
Trusted boundary: none
Main exports: ArrayOp, ArrayState, ArrayOp.step, runOps, Tree, view, Storable,
  ArrayOp.Meets, Meets
-/
import Wok.Interp.RC.Array
import Wok.Spec.Strings

namespace Wok.Interp.RC

open Wok.IR

/-! ### Programs -/

/-- What a program does to a stack of values that it owns. -/
inductive ArrayOp where
  /-- a literal; a string literal makes a string -/
  | lit (l : Lit)
  /-- `byteSlice`, which makes a view of a string if the slice is long -/
  | slice (start len : Nat)
  | con (tag : String) (n : Nat)
  | closure (keys : List Unique) (params : List Binder) (body : Expr)
  | env (keys : List Unique)
  /-- a member of the recursive group whose code is at a static address -/
  | member (group : Int) (index : Nat)
  | dup
  | drop
  /-- bring the value at a depth to the top -/
  | roll (depth : Nat)
  | prim (p : ArrayPrim)

structure ArrayState where
  store : Store
  stack : List RCValue

def badStack : Fault := .internal "stack underflow"

/-- The result of a primitive goes on the stack. -/
def push (stack : List RCValue) (r : RCPrimResult × Store) : ArrayState :=
  match r with
  | (.done v, s) => ⟨s, v :: stack⟩
  | (.apply f _, s) => ⟨s, f :: stack⟩

def pushAddr (stack : List RCValue) (r : Addr × Store) : ArrayState :=
  ⟨r.2, .box r.1 :: stack⟩

/-- The operands of a primitive are on top of the stack, the first one deepest. -/
def ArrayOp.step (A : Allocator) (op : ArrayOp) (st : ArrayState) : Except Fault ArrayState :=
  match op, st with
  | .lit (.str t), ⟨s, stack⟩ => do
      let r ← alloc A (.string (encodeUtf8 t)) s
      return pushAddr stack r
  | .lit l, ⟨s, stack⟩ => .ok ⟨s, .lit l :: stack⟩
  | .slice start len, ⟨s, v :: stack⟩ => do
      let r ← (stringByteSlice A).fn [v, .lit (.int start), .lit (.int len)] s
      return push stack r
  | .con tag n, ⟨s, stack⟩ =>
      if n ≤ stack.length then do
        let r ← alloc A (.con tag (stack.take n).reverse) s
        return pushAddr (stack.drop n) r
      else .error badStack
  | .closure keys params body, ⟨s, stack⟩ =>
      if keys.length ≤ stack.length then do
        let captured := keys.zip (stack.take keys.length).reverse
        let r ← alloc A (.closure captured params body .ownCaptures) s
        return pushAddr (stack.drop keys.length) r
      else .error badStack
  | .env keys, ⟨s, stack⟩ =>
      if keys.length ≤ stack.length then do
        let captured := keys.zip (stack.take keys.length).reverse
        let r ← alloc A (.env captured) s
        return pushAddr (stack.drop keys.length) r
      else .error badStack
  | .member group index, ⟨s, .box e :: stack⟩ =>
      .ok ⟨s, .recMember (.heap group) index e :: stack⟩
  | .dup, ⟨s, v :: stack⟩ => do
      let s' ← dupValue v s
      return ⟨s', v :: v :: stack⟩
  | .drop, ⟨s, v :: stack⟩ => do
      let s' ← dropValue v s
      return ⟨s', stack⟩
  | .roll depth, ⟨s, stack⟩ =>
      match stack[depth]? with
      | some v => .ok ⟨s, v :: stack.eraseIdx depth⟩
      | none => .error badStack
  | .prim p, ⟨s, stack⟩ =>
      if (p.prim A).arity ≤ stack.length then do
        let args := (stack.take (p.prim A).arity).reverse
        let r ← (p.prim A).fn args s
        return push (stack.drop (p.prim A).arity) r
      else .error badStack
  | _, _ => .error badStack

def runOps (A : Allocator) (ops : List ArrayOp) (st : ArrayState) : Except Fault ArrayState :=
  ops.foldlM (fun st op => op.step A st) st

/-- An empty store. -/
def emptyStore (backend : HeapBackend) : Store where
  cells := ∅
  dead := ∅
  stats :=
    { allocs := 0, frees := 0, live := 0, peak := 0, curBytes := 0, peakBytes := 0 }
  backend := backend
  conDesc := []
  reserved := ∅
  arena := []
  arenaC := []
  objs := ∅

def ArrayState.start (backend : HeapBackend) : ArrayState := ⟨emptyStore backend, []⟩

/-! ### What is seen of a value -/

/-- A value read off the heap: a cell without the values that it holds, and what is
seen of these. -/
inductive Tree where
  | cut
  | lit (l : Lit)
  | str (bytes : List UInt8)
  | node (shape : Node) (kids : List Tree)
  | member (group : Addr) (index : Nat) (env : Tree)
  | inst (self : Unique) (tag : Nat)
  | fault (e : Fault)

/-- A node with `f` applied to every address of its values. A continuation has no
values of its own. -/
def RCValue.mapAddr (f : Addr → Addr) : RCValue → RCValue
  | .box a => .box (f a)
  | .recMember group index env => .recMember group index (f env)
  | v => v

def Node.mapAddr (f : Addr → Addr) : Node → Node
  | .con tag vs => .con tag (vs.map (·.mapAddr f))
  | .array vs => .array (vs.map (·.mapAddr f))
  | .record name fields => .record name (fields.map fun e => (e.1, e.2.mapAddr f))
  | .closure captured params body mode =>
      .closure (captured.map fun e => (e.1, e.2.mapAddr f)) params body mode
  | .env captured => .env (captured.map fun e => (e.1, e.2.mapAddr f))
  | .contCell held => .contCell (held.map f)
  | .stringView parent off len => .stringView (f parent) off len
  | n => n

/-- What a cell is, but for where its values are. -/
def Node.shape (n : Node) : Node := n.mapAddr fun _ => .inline 0

/-- What is seen of a value to a depth: of a string its bytes, of any other cell
what it is and what is seen of its values. -/
def view (s : Store) : Nat → RCValue → Tree
  | 0, _ => .cut
  | _ + 1, .lit l => .lit l
  | _ + 1, .inst self tag => .inst self tag
  | _ + 1, .reuse _ => .cut
  | depth + 1, .recMember group index env => .member group index (view s depth (.box env))
  | depth + 1, .box a =>
      match deref a s with
      | .error e => .fault e
      | .ok c =>
          match c.node with
          | .string bs => .str bs
          | .stringView .. =>
              match stringBytes (.box a) s with
              | .ok bs => .str bs
              | .error e => .fault e
          | n => .node n.shape ((nodeValues n).map (view s depth))

/-! ### Arrays that the C heap can keep -/

/-- The values are those of one array of the C heap: all have slot words, and of
the same kind. -/
def Storable (vs : List RCValue) : Prop :=
  vs.length ≤ (sizeMax - 16) / 8 ∧ ∃ kind, ∀ v ∈ vs, (encodeSlotC v).map (·.1) = some kind

/-- The elements of the array that a primitive makes from its operands; nothing
if it makes no array. -/
def ArrayPrim.made (p : ArrayPrim) (args : List RCValue) (s : Store) : List RCValue :=
  match p, args with
  | .new, [kv, v] =>
      match asIndex kv with
      | .ok k => List.replicate k v
      | .error _ => []
  | .fromList, [xs] =>
      match collectList xs s with
      | .ok (elems, _) => elems
      | .error _ => []
  | .set, [arr, iv, v] =>
      match asIndex iv, arrayElems arr s with
      | .ok i, .ok vs => setAt i v vs
      | _, _ => []
  | .resize, [arr, mv, fill] =>
      match asIndex mv, arrayElems arr s with
      | .ok m, .ok vs => vs.take m ++ List.replicate (m - vs.length) fill
      | _, _ => []
  | _, _ => []

/-- As many cells as an operation may make, and one more. -/
def ArrayOp.cost (op : ArrayOp) (st : ArrayState) : Nat :=
  match op, st.stack with
  | .prim .toList, arr :: _ =>
      match arrayElems arr st.store with
      | .ok vs => vs.length + 2
      | .error _ => 2
  | _, _ => 2

/-- There is memory for `n` more cells than are in use. -/
def Allocator.RoomFor (A : Allocator) (n : Nat) (s : Store) : Prop :=
  ∀ t : Store, (∃ ps : List Ptr, ps.length < n ∧
    ∀ p, s.objs.lookup p = none → p ∉ ps → t.objs.lookup p = none) → (A.pick t).isSome

/-- Neither memory nor the numbers for cells and constructors run out within `n`
allocations. -/
structure Supplied (A : Allocator) (n : Nat) (s : Store) : Prop where
  room : A.RoomFor n s
  cells : s.next + n ≤ 2 ^ 61
  tags : s.tags.length + n ≤ 2 ^ 15

/-- The condition on an operation in a state of the C heap: its resources suffice,
a string fits its cell, and any array that it makes can be kept. What is set is an
array, as the types of a program have it. -/
structure ArrayOp.Meets (A : Allocator) (op : ArrayOp) (st : ArrayState) : Prop where
  supplied : Supplied A (op.cost st) st.store
  string : ∀ t, op = .lit (.str t) → (encodeUtf8 t).length ≤ sizeMax - 16 - 7
  static : ∀ group index, op = .member group index → group < 0
  storable : ∀ p, op = .prim p →
    Storable (p.made (st.stack.take (p.prim A).arity).reverse st.store)
  isArray : op = .prim .set → ∀ v i arr stack, st.stack = v :: i :: arr :: stack →
    ∃ vs, arrayElems arr st.store = .ok vs

/-- Every operation of a run meets its condition. -/
def Meets (A : Allocator) : List ArrayOp → ArrayState → Prop
  | [], _ => True
  | op :: ops, st => op.Meets A st ∧ ∀ st', op.step A st = .ok st' → Meets A ops st'

/-- Two runs agree: both fail for the same reason, or both leave stacks whose
values look the same to any depth. -/
inductive Agree : Except Fault ArrayState → Except Fault ArrayState → Prop
  | error (e : Fault) : Agree (.error e) (.error e)
  | ok {st st' : ArrayState}
      (h : ∀ depth, st.stack.map (view st.store depth) = st'.stack.map (view st'.store depth)) :
      Agree (.ok st) (.ok st')

end Wok.Interp.RC
