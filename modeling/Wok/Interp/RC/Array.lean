/-
Module: Wok.Interp.RC.Array
Purpose: The array primitives of the counted interpreter. They own their operands
  and move them into the result or drop them.
Imports: Wok.Interp.RC.Prim
Trusted boundary: none
Main exports: dupValue, dupN, collectList, buildList, arraySetSlotInPlace,
  arraySetCopy, arrayPrims
-/
import Wok.Interp.RC.Prim

namespace Wok.Interp.RC

open Wok.IR

/-! ### Operands -/

/-- Take another reference to all that a value refers to. -/
def dupValue (v : RCValue) (s : Store) : Except Fault Store :=
  (valueChildren v).foldlM (fun s a => incref a s) s

/-- `k` more references. -/
def dupN : Nat → RCValue → Store → Except Fault Store
  | 0, _, s => .ok s
  | k + 1, v, s => do
      let s' ← dupValue v s
      dupN k v s'

def dupValues (vs : List RCValue) (s : Store) : Except Fault Store :=
  vs.foldlM (fun s v => dupValue v s) s

def asIndex : RCValue → Except Fault Nat
  | .lit (.int n) =>
      if n < 0 then .error (primError "Array: negative index")
      else if n > 2 ^ 63 - 1 then .error (primError "Array: index out of range")
      else .ok n.toNat
  | _ => .error (primError "Array: expected U64 index")

def notAnArray : Fault := primError "Array: not an array"

def arrayElems (v : RCValue) (s : Store) : Except Fault (List RCValue) :=
  match v with
  | .box a => do
      let c ← deref a s
      match c.node with
      | .array vs => return vs
      | _ => .error notAnArray
  | _ => .error notAnArray

/-- An array of the C heap has its length in its header. -/
def arrayLenOf : Addr → Store → Except Fault Nat
  | .c p, s => do
      let o ← wokObj p s
      return wokArrayLen o
  | .heap i, s => do
      let c ← derefPure i s
      match c.node with
      | .array vs => return vs.length
      | _ => .error notAnArray
  -- an immediate is a string or a nullary constructor
  | _, _ => .error notAnArray

/-- Whether the reference at hand is the only one to the array. -/
def arrayUnique (a : Addr) (s : Store) : Except Fault Bool :=
  if isUncounted a then .ok false
  else
    match a with
    | .c p => do
        let o ← wokObj p s
        return o.rc == 1
    | .heap i => do
        let c ← derefPure i s
        return c.rc == 1
    | _ => .ok false

/-- Replace the element at an index. -/
def setAt (i : Nat) (x : RCValue) (xs : List RCValue) : List RCValue :=
  xs.zipIdx.map fun (el, j) => if j = i then x else el

def slotOutOfRange : Fault := primError "arraySetSlotInPlace: index out of range"

def wokArraySlotSet (p : Ptr) (i : Nat) (w : UInt64) (o : WokObj) (s : Store) : Store :=
  { s with objs := s.objs.insert p { o with words := o.words.set (i + 1) w } }

/-- Overwrite an element of an array that has one reference; the old element. `enc`
is the slot of the new one. -/
def arraySetSlotInPlace (enc : SlotKind × UInt64) (a : Addr) (i : Nat) (v : RCValue)
    (s : Store) : Except Fault (RCValue × Store) :=
  match a with
  | .c p => do
      let o ← wokObj p s
      if i ≥ wokArrayLen o then .error slotOutOfRange
      else
        let kind ← elemKindToSlotKind o.arity
        let oldEl := decodeSlotC kind (wokArraySlotGet o i)
        if enc.1 = kind then return (oldEl, wokArraySlotSet p i enc.2 o s)
        else .error (primError
          "arraySetSlotInPlace: new element SlotKind does not match the array elemkind")
  | .heap idx => do
      let c ← derefPure idx s
      match c.node with
      | .array vs =>
          match vs[i]? with
          | some oldEl =>
              let c' := { c with node := .array (setAt i v vs) }
              return (oldEl, { s with cells := s.cells.insert idx c' })
          | none => .error slotOutOfRange
      | _ => .error (primError "arraySetSlotInPlace: address is not an array")
  | .inline _ => .error (primError "arraySetSlotInPlace: inline handle is not an array")
  | .inlineStr _ => .error (primError "arraySetSlotInPlace: inline string is not an array")

/-! ### Lists -/

def notAList : Fault := primError "Array.fromList: not a list"

/-- No list has more cells than there are addresses. -/
def listFuel : Nat := 2 ^ 64

/-- The elements of a `Cons`/`Nil` list, with another reference to each. -/
def collectListGo : Nat → RCValue → Store → Except Fault (List RCValue × Store)
  | 0, _, _ => .error (.internal "collectList: cyclic list")
  | fuel + 1, v, s =>
      match v with
      | .box a => do
          let c ← deref a s
          match c.node with
          | .con con [h, tl] =>
              if con = "Cons" then do
                let s₁ ← dupValue h s
                let (rest, s₂) ← collectListGo fuel tl s₁
                return (h :: rest, s₂)
              else .error notAList
          | .con con [] => if con = "Nil" then .ok ([], s) else .error notAList
          | _ => .error notAList
      | _ => .error notAList

def collectList : RCValue → Store → Except Fault (List RCValue × Store) :=
  collectListGo listFuel

/-- Put elements before a list, from the last one on, with another reference to each. -/
def buildListGo (A : Allocator) : List RCValue → RCValue × Store → Except Fault (RCValue × Store)
  | [], acc => .ok acc
  | x :: xs, acc => do
      let (rest, st₁) ← buildListGo A xs acc
      let st₂ ← dupValue x st₁
      let (cell, st₃) ← alloc A (.con "Cons" [x, rest]) st₂
      return (.box cell, st₃)

def buildList (A : Allocator) (vs : List RCValue) (s : Store) : Except Fault (RCValue × Store) := do
  let (nilAddr, s₁) ← alloc A (.con "Nil" []) s
  buildListGo A vs (.box nilAddr, s₁)

/-! ### The primitives -/

def arrayNew (A : Allocator) : RCPrim where
  name := "new"
  arity := 2
  fn
    | [kv, v], s => do
        let k ← asIndex kv
        if k = 0 then do
          let s₁ ← dropValue v s
          let (a, s₂) ← alloc A (.array []) s₁
          return (.done (.box a), s₂)
        else do
          -- one reference is at hand
          let s₁ ← dupN (k - 1) v s
          let (a, s₂) ← alloc A (.array (List.replicate k v)) s₁
          return (.done (.box a), s₂)
    | _, _ => .error (arityError "Array.new")

def arrayFromList (A : Allocator) : RCPrim where
  name := "fromList"
  arity := 1
  fn
    | [xs], s => do
        let (elems, s₁) ← collectList xs s
        let (na, s₂) ← alloc A (.array elems) s₁
        let s₃ ← dropValue xs s₂
        return (.done (.box na), s₃)
    | _, _ => .error (arityError "Array.fromList")

def arrayToList (A : Allocator) : RCPrim where
  name := "toList"
  arity := 1
  fn
    | [.box a], s => do
        let vs ← arrayElems (.box a) s
        let (lst, s₁) ← buildList A vs s
        let s₂ ← drop a s₁
        return (.done lst, s₂)
    | _, _ => .error (arityError "Array.toList")

def arrayIndex : RCPrim where
  name := "index"
  arity := 2
  fn
    | [.box a, iv], s => do
        let i ← asIndex iv
        let vs ← arrayElems (.box a) s
        match vs[i]? with
        | none => .error (primError "Array.index: out of bounds")
        | some el => do
            let s₁ ← dupValue el s
            let s₂ ← drop a s₁
            return (.done el, s₂)
    | _, _ => .error (arityError "Array.index")

def arrayLength : RCPrim where
  name := "length"
  arity := 1
  fn
    | [.box a], s => do
        let vs ← arrayElems (.box a) s
        let s₁ ← drop a s
        return (.done (.lit (.int vs.length)), s₁)
    | _, _ => .error (arityError "Array.length")

/-- Set an element in place. -/
def arraySetInPlace (enc : SlotKind × UInt64) (a : Addr) (i : Nat) (v : RCValue) (s : Store) :
    Except Fault (RCPrimResult × Store) := do
  let (oldEl, s₁) ← arraySetSlotInPlace enc a i v s
  let s₂ ← dropValue oldEl s₁
  return (.done (.box a), s₂)

/-- Set an element in a copy: the other elements get another reference. -/
def arraySetCopy (A : Allocator) (a : Addr) (i : Nat) (v : RCValue) (s : Store) :
    Except Fault (RCPrimResult × Store) := do
  let vs ← arrayElems (.box a) s
  let s₁ ← dupValues (vs.eraseIdx i) s
  let (na, s₂) ← alloc A (.array (setAt i v vs)) s₁
  let s₃ ← drop a s₂
  return (.done (.box na), s₃)

def arraySet (A : Allocator) : RCPrim where
  name := "set"
  arity := 3
  fn
    | [.box a, iv, v], s => do
        let i ← asIndex iv
        let n ← arrayLenOf a s
        if i ≥ n then .error (primError "Array.set: out of bounds")
        else do
          let unique ← arrayUnique a s
          match if unique then encodeSlotC v else none with
          | some enc => arraySetInPlace enc a i v s
          | none => arraySetCopy A a i v s
    | _, _ => .error (arityError "Array.set")

def arrayResize (A : Allocator) : RCPrim where
  name := "resize"
  arity := 3
  fn
    | [.box a, mv, fill], s => do
        let m ← asIndex mv
        let vs ← arrayElems (.box a) s
        let k := m - vs.length
        let kept := vs.take m
        let s₁ ← dupValues kept s
        let s₂ ← if k = 0 then dropValue fill s₁ else dupN (k - 1) fill s₁
        let (na, s₃) ← alloc A (.array (kept ++ List.replicate k fill)) s₂
        let s₄ ← drop a s₃
        return (.done (.box na), s₄)
    | _, _ => .error (arityError "Array.resize")

/-- The primitives on arrays. -/
inductive ArrayPrim where
  | new
  | fromList
  | toList
  | index
  | length
  | set
  | resize
  deriving Repr, DecidableEq

def ArrayPrim.prim (A : Allocator) : ArrayPrim → RCPrim
  | .new => arrayNew A
  | .fromList => arrayFromList A
  | .toList => arrayToList A
  | .index => arrayIndex
  | .length => arrayLength
  | .set => arraySet A
  | .resize => arrayResize A

end Wok.Interp.RC
