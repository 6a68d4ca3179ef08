/-
Module: Wok.Interp.RC.Prim
Purpose: The string primitives of the counted interpreter. They consume their
  operands: each drops the strings it was handed once it has read them.
Imports: Wok.Interp.RC.Alloc
Trusted boundary: the search, the hash and the edit distance of the vendored
  string library (`StringZilla`)
Main exports: RCPrim, RCPrimResult, StringZilla, stringBytes, asStringIndex,
  buildSlice, stringPrims
-/
import Wok.Interp.RC.Alloc

namespace Wok.Interp.RC

open Wok.IR

inductive RCPrimResult where
  | done (v : RCValue)
  | apply (f : RCValue) (args : List RCValue)

structure RCPrim where
  name : String
  arity : Nat
  fn : List RCValue → Store → Except Fault (RCPrimResult × Store)

def arityError (message : String) : Fault := .runtime (.arityError message)

/-- Release the references of a value. -/
def dropValue (v : RCValue) (s : Store) : Except Fault Store :=
  (valueChildren v).foldlM (fun s a => drop a s) s

def allocBool (A : Allocator) (b : Bool) (s : Store) : Except Fault (RCValue × Store) := do
  let tag := if b then "True" else "False"
  let (a, s') ← alloc A (.con tag []) s
  return (.box a, s')

/-! ### UTF-8 -/

def encodeUtf8 (t : String) : List UInt8 := t.toByteArray.data.toList

/-- `decodeUtf8` raises an exception on bytes that are not UTF-8. -/
def decodeUtf8 (bs : List UInt8) : Except Fault String :=
  match String.fromUTF8? ⟨bs.toArray⟩ with
  | some t => .ok t
  | none => .error (.internal "Cannot decode input")

/-- The width that a leading byte announces. -/
def utf8Width (b : UInt8) : Except Fault Nat :=
  if b < 0x80 then .ok 1
  else if b < 0xC0 then .error (primError "utf8: byte offset is not a codepoint boundary")
  else if b < 0xE0 then .ok 2
  else if b < 0xF0 then .ok 3
  else if b < 0xF8 then .ok 4
  else .error (primError "utf8: invalid lead byte")

def bsIndex (bs : List UInt8) (i : Nat) : Except Fault UInt8 :=
  match bs[i]? with
  | some b => .ok b
  | none => .error (.internal "Data.ByteString.index: index too large")

def chr (cp : Nat) : Except Fault Char :=
  if cp.isValidChar then .ok (Char.ofNat cp)
  else .error (.internal "Prelude.chr: bad argument")

/-- The six bits of a continuation byte. -/
def contBits (bs : List UInt8) (i : Nat) : Except Fault Nat := do
  let b ← bsIndex bs i
  return (b &&& 0x3F).toNat

/-- The code point whose encoding starts at byte `i`, and its width. -/
def decodeCharAt (bs : List UInt8) (i : Nat) : Except Fault (Char × Nat) := do
  let b0 ← bsIndex bs i
  let w ← utf8Width b0
  let cp ← match w with
    | 1 => pure b0.toNat
    | 2 => do
        let c1 ← contBits bs (i + 1)
        pure ((b0 &&& 0x1F).toNat <<< 6 ||| c1)
    | 3 => do
        let c1 ← contBits bs (i + 1)
        let c2 ← contBits bs (i + 2)
        pure ((b0 &&& 0x0F).toNat <<< 12 ||| c1 <<< 6 ||| c2)
    | _ => do
        let c1 ← contBits bs (i + 1)
        let c2 ← contBits bs (i + 2)
        let c3 ← contBits bs (i + 3)
        pure ((b0 &&& 0x07).toNat <<< 18 ||| c1 <<< 12 ||| c2 <<< 6 ||| c3)
  let c ← chr cp
  return (c, w)

/-! ### The vendored string library -/

/-- What the string library computes from bytes. -/
structure StringZilla where
  find : List UInt8 → List UInt8 → Option Nat
  hash : List UInt8 → UInt64
  editDistance : List UInt8 → List UInt8 → UInt64

def wokSzNotFound : UInt64 := 0xFFFFFFFFFFFFFFFF

/-- The first occurrence of `needle` at or after byte `from`. -/
def wokSzFind (sz : StringZilla) (hay needle : List UInt8) (start : Nat) : UInt64 :=
  if start > hay.length then wokSzNotFound
  else if needle.length = 0 then UInt64.ofNat start
  else if needle.length > hay.length - start then wokSzNotFound
  else
    match sz.find (hay.drop start) needle with
    | none => wokSzNotFound
    | some m => UInt64.ofNat start + UInt64.ofNat m

/-! ### Operands -/

def notAString : Fault := primError "String: not a string"

/-- The bytes of a string; those of a view are a window of its parent's. Parents
are followed for at most `depth` steps. -/
def stringBytesGo : Nat → Addr → Store → Except Fault (List UInt8)
  | 0, _, _ => .error (.internal "stringBytes: cyclic views")
  | depth + 1, a, s => do
      let c ← deref a s
      match c.node with
      | .string bs => return bs
      | .stringView p off len => do
          let pb ← stringBytesGo depth p s
          return (pb.drop off).take len
      | _ => .error notAString

/-- No chain of parents is longer than there are cells. -/
def stringBytes (v : RCValue) (s : Store) : Except Fault (List UInt8) :=
  match v with
  | .box a => stringBytesGo (s.cells.entries.length + s.objs.entries.length + 2) a s
  | _ => .error notAString

def asStringIndex : RCValue → Except Fault Nat
  | .lit (.int n) =>
      if n < 0 then .error (primError "String: negative index")
      else if n > 2 ^ 63 - 1 then .error (primError "String: index out of range")
      else .ok n.toNat
  | _ => .error (primError "String: expected U64 index")

/-! ### Reading a string -/

/-- A primitive of one string whose result is a literal. -/
def readString (name message : String) (read : List UInt8 → Except Fault Lit) : RCPrim where
  name := name
  arity := 1
  fn
    | [.box a], s => do
        let bs ← stringBytes (.box a) s
        let l ← read bs
        let s₁ ← drop a s
        return (.done (.lit l), s₁)
    | _, _ => .error (arityError message)

/-- The literal at an index of a string. -/
def readStringAt (read : List UInt8 → Nat → Except Fault Lit) (a : Addr) (iv : RCValue)
    (s : Store) : Except Fault (RCPrimResult × Store) := do
  let bs ← stringBytes (.box a) s
  let i ← asStringIndex iv
  let l ← read bs i
  let s₁ ← drop a s
  return (.done (.lit l), s₁)

/-- A primitive of a string and an index whose result is a literal. -/
def stringAt (name message : String) (read : List UInt8 → Nat → Except Fault Lit) : RCPrim where
  name := name
  arity := 2
  fn
    | [.box a, iv], s => readStringAt read a iv s
    | _, _ => .error (arityError message)

/-- A primitive of two strings, which are dropped before the result is made. -/
def twoStrings (name message : String)
    (make : List UInt8 → List UInt8 → Store → Except Fault (RCValue × Store)) : RCPrim where
  name := name
  arity := 2
  fn
    | [.box aa, .box ba], s => do
        let bsa ← stringBytes (.box aa) s
        let bsb ← stringBytes (.box ba) s
        let s₁ ← drop aa s
        let s₂ ← drop ba s₁
        let (v, s₃) ← make bsa bsb s₂
        return (.done v, s₃)
    | _, _ => .error (arityError message)

def stringLength : RCPrim :=
  readString "length" "String.length" fun bs => do
    let t ← decodeUtf8 bs
    return .int t.toList.length

def stringIndex : RCPrim :=
  stringAt "index" "String.index" fun bs i => do
    let t ← decodeUtf8 bs
    match t.toList[i]? with
    | none => .error (primError "String.index: out of bounds")
    | some c => return .char c

def stringByteLength : RCPrim :=
  readString "byteLength" "String.byteLength" fun bs => .ok (.int bs.length)

def byteAtOf (bs : List UInt8) (i : Nat) : Except Fault Lit :=
  match bs[i]? with
  | none => .error (primError "String.byteAt: out of bounds")
  | some b => .ok (.int b.toNat)

def stringByteAtViaBytes : Addr → RCValue → Store → Except Fault (RCPrimResult × Store) :=
  readStringAt byteAtOf

/-- A string cell of the C heap is read in place; a view is not such a cell. -/
def stringByteAt : RCPrim where
  name := "byteAt"
  arity := 2
  fn
    | [.box (.c p), iv], s =>
        match s.backend with
        | .cHeap => do
            let o ← wokObj p s
            if o.tag = wokStringTag then
              let i ← asStringIndex iv
              if i ≥ (wokStringLen o).toNat then
                .error (primError "String.byteAt: out of bounds")
              else
                let s₁ ← drop (.c p) s
                return (.done (.lit (.int (wokStringByteGet o i).toNat)), s₁)
            else stringByteAtViaBytes (.c p) iv s
        | .abstractHeap => stringByteAtViaBytes (.c p) iv s
    | [.box a, iv], s => stringByteAtViaBytes a iv s
    | _, _ => .error (arityError "String.byteAt")

def stringAppend (A : Allocator) : RCPrim :=
  twoStrings "append" "String.append" fun bsa bsb s => do
    let (na, s') ← alloc A (.string (bsa ++ bsb)) s
    return (.box na, s')

def eqString (A : Allocator) : RCPrim :=
  twoStrings "eqString" "eqString" fun bsa bsb s => allocBool A (bsa == bsb) s

def stringIndexOfFromRaw (sz : StringZilla) : RCPrim where
  name := "indexOfFromRaw"
  arity := 3
  fn
    | [.box ha, .box na, fromV], s => do
        let bh ← stringBytes (.box ha) s
        let bn ← stringBytes (.box na) s
        let i ← asStringIndex fromV
        let s₁ ← drop ha s
        let s₂ ← drop na s₁
        return (.done (.lit (.int (wokSzFind sz bh bn i).toNat)), s₂)
    | _, _ => .error (arityError "String.indexOfFromRaw")

def stringHash (sz : StringZilla) : RCPrim :=
  readString "hash" "String.hash" fun bs => .ok (.int (sz.hash bs).toNat)

def stringEditDistance (sz : StringZilla) : RCPrim :=
  twoStrings "editDistance" "String.editDistance" fun bsa bsb s =>
    .ok (.lit (.int (sz.editDistance bsa bsb).toNat), s)

/-! ### Slices -/

/-- Whether byte `i` continues a code point. -/
def splitsCodepoint (bs : List UInt8) (i : Nat) : Bool :=
  0 < i && (bs[i]?.map fun b => b &&& 0xC0 == 0x80).getD false

/-- The string that is no view itself, and the offset in it. -/
def sliceRoot (a : Addr) (thisOff : Nat) : Node → Except Fault (Addr × Nat)
  | .stringView root o _ => .ok (root, o + thisOff)
  | .string _ => .ok (a, thisOff)
  | _ => .error (primError "buildSlice: not a string cell")

/-- The result of a slice: a short window is copied into the value, a longer one
becomes a view of the string that is no view itself. -/
def buildSlice (A : Allocator) (a : Addr) (thisOff : Nat) (wb : List UInt8) (s : Store) :
    Except Fault (RCPrimResult × Store) :=
  if wb.length ≤ maxInlineStr then do
    let s₁ ← drop a s
    return (.done (.box (.inlineStr wb)), s₁)
  else do
    let c ← deref a s
    let (rootAddr, absOff) ← sliceRoot a thisOff c.node
    let (va, s₁) ← allocNStringView A rootAddr absOff wb.length s
    let s₂ ← drop a s₁
    return (.done (.box va), s₂)

/-- A primitive that takes a window of a string, given by a start and a length. -/
def sliceOf (A : Allocator) (name message : String)
    (window : List UInt8 → Nat → Nat → Except Fault (Nat × List UInt8)) : RCPrim where
  name := name
  arity := 3
  fn
    | [.box a, startV, lenV], s => do
        let pb ← stringBytes (.box a) s
        let start ← asStringIndex startV
        let len ← asStringIndex lenV
        let (off, wb) ← window pb start len
        buildSlice A a off wb s
    | _, _ => .error (arityError message)

/-- Where a window that is cut off at `n` starts and ends. -/
def clampWindow (n start len : Nat) : Nat × Nat :=
  let start' := min start n
  (start', start' + min len (n - start'))

/-- The bytes from one offset to another. -/
def byteRange (pb : List UInt8) (lo hi : Nat) : List UInt8 :=
  (pb.drop lo).take (hi - lo)

def stringSlice (A : Allocator) : RCPrim :=
  sliceOf A "slice" "String.slice" fun pb start len => do
    let t ← decodeUtf8 pb
    let (start', end') := clampWindow t.toList.length start len
    -- the byte offset of a code point is the width of those before it
    let cpToByteOff := fun k => (encodeUtf8 (String.ofList (t.toList.take k))).length
    let byteStart := cpToByteOff start'
    let byteEnd := cpToByteOff end'
    return (byteStart, byteRange pb byteStart byteEnd)

def stringByteSlice (A : Allocator) : RCPrim :=
  sliceOf A "byteSlice" "String.byteSlice" fun pb start len =>
    let (start', end') := clampWindow pb.length start len
    if splitsCodepoint pb start' then
      .error (primError "String.byteSlice: start splits a multibyte codepoint")
    else if splitsCodepoint pb end' then
      .error (primError "String.byteSlice: end splits a multibyte codepoint")
    else .ok (start', byteRange pb start' end')

/-! ### Characters and bytes -/

def decodeCharAtRC : RCPrim :=
  stringAt "decodeCharAt" "decodeCharAt" fun bs i => do
    if i ≥ bs.length then .error (primError "String.decodeCharAt: out of bounds")
    else
      let (c, _) ← decodeCharAt bs i
      return .char c

def charWidthAtRC : RCPrim :=
  stringAt "charWidthAt" "charWidthAt" fun bs i => do
    if i ≥ bs.length then .error (primError "String.charWidthAt: out of bounds")
    else
      let b ← bsIndex bs i
      let w ← utf8Width b
      return .int w

def bytesToBytesRC (A : Allocator) : RCPrim where
  name := "toBytes"
  arity := 1
  fn
    | [.box a], s => do
        let bs ← stringBytes (.box a) s
        let (na, s₁) ← alloc A (.bytes bs) s
        let s₂ ← drop a s₁
        return (.done (.box na), s₂)
    | _, _ => .error (arityError "toBytes")

/-- The primitives that take a string. -/
def stringPrims (A : Allocator) (sz : StringZilla) : List RCPrim :=
  [stringLength, stringIndex, stringByteLength, stringByteAt, stringAppend A, eqString A,
    stringIndexOfFromRaw sz, stringHash sz, stringEditDistance sz, stringSlice A,
    stringByteSlice A, decodeCharAtRC, charWidthAtRC, bytesToBytesRC A]

end Wok.Interp.RC
