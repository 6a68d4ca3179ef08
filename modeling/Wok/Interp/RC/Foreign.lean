/-
Module: Wok.Interp.RC.Foreign
Purpose: The blessed foreign calls on the counted machine. The callee releases the cells of
  its arguments.
Imports: Wok.FFI.Blessed, Wok.Interp.Foreign, Wok.Interp.RC.Array, Wok.Interp.RC.Brackets
Trusted boundary: the C functions behave as their pure models; the addresses that `malloc`
  chooses (`Allocator`)
Main exports: rcForeignDispatch, lendsBorrow
-/
import Wok.FFI.Blessed
import Wok.Interp.Foreign
import Wok.Interp.RC.Array
import Wok.Interp.RC.Brackets

namespace Wok.Interp.RC

open Wok.IR

/-! ### Arguments -/

def rcReadBytes (a : Addr) (s : Store) : Except Fault (List UInt8) := do
  let c ← deref a s
  match c.node with
  | .bytes bs => return bs
  | .foreignBytes bs => return bs
  | _ => .error (primError "foreign call: expected Bytes argument, got node")

/-- The buffer that C reads for the time of a call. -/
def rcBorrowCHeapPtr (a : Addr) (s : Store) : Except Fault (List UInt8) :=
  match a with
  | .c p => do
      let o ← wokObj p s
      if o.tag = wokBytesTag then return wokBody o
      else if o.tag = wokForeignBytesTag then foreignBody o s
      else .error (primError "rcBorrowCHeapPtr: unexpected cell tag for Bytes arg")
  | _ => .error (primError "rcBorrowCHeapPtr: expected CAddr on CHeap")

def borrowedArg (a : Addr) (s : Store) : Except Fault (List UInt8) :=
  match s.backend with
  | .abstractHeap => rcReadBytes a s
  | .cHeap => rcBorrowCHeapPtr a s

def bytesBytes (a : Addr) (s : Store) : Except Fault (List UInt8) := do
  let c ← deref a s
  match c.node with
  | .bytes bs => return bs
  | .foreignBytes bs => return bs
  | _ => .error (primError "Bytes: not a Bytes cell")

/-! ### Results -/

/-- The handle of a buffer that is not on the heap. -/
def bufferHandle (A : Allocator) (tag : UInt16) (d : Ptr) (n : Nat) (s : Store) :
    Except Fault (Addr × Store) := do
  let (p, s') ← wokNew A ⟨1, tag, 0, [d, UInt64.ofNat n]⟩ s
  return (.c p, recordAllocS 24 s')

/-- The copy that `strndup` makes is adopted as it is; the argument is dropped once it has
been read. -/
def adoptCopy (A : Allocator) (a : Addr) (result : List UInt8) (s : Store) :
    Except Fault (Addr × Store) :=
  match s.backend with
  | .abstractHeap => do
      let s₁ ← drop a s
      alloc A (.foreignBytes result) s₁
  | .cHeap =>
      match A.buffer s with
      | none => .error (primError "strndup (RC CHeap): C allocation failed (NULL)")
      | some d => do
          let s₁ ← drop a { s with buffers := (d, result) :: s.buffers }
          bufferHandle A wokForeignBytesTag d result.length s₁

/-- A buffer that is lent until the activation ends. -/
def allocBorrowDemoLend (A : Allocator) (n : Int) (s : Store) : Except Fault (Addr × Store) :=
  let len := clampBorrowDemoLen n
  match s.backend with
  | .cHeap =>
      match A.buffer s with
      | none => .error (.abort "")
      | some d => do
          let (a, s₁) ← bufferHandle A wokBorrowViewTag d len
            { s with buffers := (d, demoPattern len) :: s.buffers }
          let s₂ ← borrowRegister d (UInt64.ofNat len) s₁
          return (a, s₂)
  | .abstractHeap => do
      let (a, s₁) := allocPure (.borrowView (demoPattern len)) s
      let s₂ ← borrowRegister 0 (UInt64.ofNat len) s₁
      return (a, s₂)

/-- Hand a buffer over: a shared one is copied, and the copy is what C frees. -/
def consumeArg (A : Allocator) (a : Addr) (bs : List UInt8) (s : Store) : Except Fault Store := do
  let unique ← arrayUnique a s
  if unique then drop a s
  else
    let (cpy, s₁) ← alloc A (.bytes bs) s
    let s₂ ← drop cpy s₁
    drop a s₂

/-! ### Dispatch -/

def rcForeignDispatch (A : Allocator) (lib sym : String) (vs : List RCValue) (s : Store) :
    Except Fault (RCValue × Store) :=
  if lib = "c" ∧ sym = "memchr" then
    match vs with
    | [.box a, .lit (.int byte), .lit (.int n)] => do
        let bs ← borrowedArg a s
        let s₁ ← drop a s
        return (.lit (.int (foreignMemchr bs (UInt64.ofInt byte) (UInt64.ofInt n)).toNat), s₁)
    | _ => .error (primError "memchr (RC): expected (Bytes, U64, U64)")
  else if lib = "c" ∧ sym = "strndup" then
    match vs with
    | [.box a, .lit (.int n)] => do
        let bs ← borrowedArg a s
        let (r, s₁) ← adoptCopy A a (foreignStrndup bs (UInt64.ofInt n)) s
        return (.box r, s₁)
    | _ => .error (primError "strndup (RC): expected (Bytes, U64)")
  else if lib = "wok" ∧ sym = "lendBuffer" then
    match vs with
    | [.lit (.int n)] => do
        let (r, s₁) ← allocBorrowDemoLend A n s
        return (.box r, s₁)
    | _ => .error (primError "lendBuffer (RC): expected (U64)")
  else if lib = "wok" ∧ sym = "consume" then
    match vs with
    | [.box a] => do
        let bs ← bytesBytes a s
        let s₁ ← consumeArg A a bs s
        return (.lit (.int (referenceFNV1a bs).toNat), s₁)
    | _ => .error (primError "consume (RC): expected (owned Bytes)")
  else
    .error (primError ("foreign symbol not available in the RC interpreter: " ++ lib ++ "." ++ sym))

/-- Whether a call of a symbol lends a buffer. -/
def lendsBorrow (lib sym : String) : Bool :=
  match FFI.lookupBlessed lib sym with
  | some sig => sig.ret == .borrow
  | none => false

end Wok.Interp.RC
