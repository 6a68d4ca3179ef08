/-
Module: Wok.Interp.Foreign
Purpose: The pure models of the blessed foreign symbols.
Imports: Wok.Interp.Value
Trusted boundary: none
Main exports: evalForeignCall
-/
import Wok.Interp.Value

namespace Wok.Interp

open Wok.IR

/-- C `memchr` on a buffer: the offset of the first matching byte, and the
clamped scan length when there is none. -/
def foreignMemchr (bs : List UInt8) (byte n : UInt64) : UInt64 :=
  let scanned := bs.take (min n (UInt64.ofNat bs.length)).toNat
  match scanned.findIdx? (· == byte.toUInt8) with
  | some i => UInt64.ofNat i
  | none => min n (UInt64.ofNat bs.length)

/-- C `strndup`: the bytes up to the first NUL, at most `n` of them. -/
def foreignStrndup (bs : List UInt8) (n : UInt64) : List UInt8 :=
  (bs.take (min n (UInt64.ofNat bs.length)).toNat).takeWhile (· ≠ 0)

/-- 64-bit FNV-1a. -/
def referenceFNV1a (bs : List UInt8) : UInt64 :=
  bs.foldl (fun h b => (h ^^^ b.toUInt64) * 0x100000001b3) 0xcbf29ce484222325

/-- The bytes `i mod 256` for `i < n`. -/
def demoPattern (n : Nat) : List UInt8 :=
  (List.range n).map UInt8.ofNat

def borrowDemoCapacity : Int := 65536

/-- Clamp a demo-buffer length, floored at 0. -/
def clampBorrowDemoLen (n : Int) : Nat :=
  (max 0 (min n borrowDemoCapacity)).toNat

/-- Dispatch a foreign call on its library and symbol. -/
def evalForeignCall (lib sym : String) (args : List Value) : Except RuntimeError Value :=
  if lib = "c" ∧ sym = "memchr" then
    match args with
    | [.bytes buf, .lit (.int byte), .lit (.int n)] =>
        .ok (.lit (.int (foreignMemchr buf (UInt64.ofInt byte) (UInt64.ofInt n)).toNat))
    | _ => .error (.primError "memchr: expected (Bytes, U64, U64)")
  else if lib = "c" ∧ sym = "strndup" then
    match args with
    | [.bytes buf, .lit (.int n)] => .ok (.bytes (foreignStrndup buf (UInt64.ofInt n)))
    | _ => .error (.primError "strndup: expected (Bytes, U64)")
  else if lib = "wok" ∧ sym = "lendBuffer" then
    match args with
    | [.lit (.int n)] => .ok (.bytes (demoPattern (clampBorrowDemoLen n)))
    | _ => .error (.primError "lendBuffer: expected (U64)")
  else if lib = "wok" ∧ sym = "consume" then
    match args with
    | [.bytes bs] => .ok (.lit (.int (referenceFNV1a bs).toNat))
    | _ => .error (.primError "consume: expected (Bytes)")
  else
    .error (.primError
      ("foreign symbol not available in the interpreter: " ++ lib ++ "." ++ sym))

end Wok.Interp
