/-
Module: Wok.Grammar.Utf8
Purpose: The search of a source file for the first byte that is not well-formed UTF-8: a
  decoder by table, and a fast path over blocks of eight ASCII bytes.
Imports: Mathlib.Data.List.Defs
Trusted boundary: none
Main exports: utf8d, dfaStep, wokUtf8SeqLen, skipAscii, wokUtf8FindInvalid
-/
import Mathlib.Data.List.Defs

namespace Wok.Grammar

def utf8Accept : Nat := 0
def utf8Reject : Nat := 12

/-- The class of each of the 256 bytes, and after them the next state of each of the nine
states for each of the twelve classes. -/
def utf8d : List Nat := [
  0, 0, 0, 0, 0, 0, 0, 0, 0, 0, 0, 0, 0, 0, 0, 0,
  0, 0, 0, 0, 0, 0, 0, 0, 0, 0, 0, 0, 0, 0, 0, 0,
  0, 0, 0, 0, 0, 0, 0, 0, 0, 0, 0, 0, 0, 0, 0, 0,
  0, 0, 0, 0, 0, 0, 0, 0, 0, 0, 0, 0, 0, 0, 0, 0,
  0, 0, 0, 0, 0, 0, 0, 0, 0, 0, 0, 0, 0, 0, 0, 0,
  0, 0, 0, 0, 0, 0, 0, 0, 0, 0, 0, 0, 0, 0, 0, 0,
  0, 0, 0, 0, 0, 0, 0, 0, 0, 0, 0, 0, 0, 0, 0, 0,
  0, 0, 0, 0, 0, 0, 0, 0, 0, 0, 0, 0, 0, 0, 0, 0,
  1, 1, 1, 1, 1, 1, 1, 1, 1, 1, 1, 1, 1, 1, 1, 1,
  9, 9, 9, 9, 9, 9, 9, 9, 9, 9, 9, 9, 9, 9, 9, 9,
  7, 7, 7, 7, 7, 7, 7, 7, 7, 7, 7, 7, 7, 7, 7, 7,
  7, 7, 7, 7, 7, 7, 7, 7, 7, 7, 7, 7, 7, 7, 7, 7,
  8, 8, 2, 2, 2, 2, 2, 2, 2, 2, 2, 2, 2, 2, 2, 2,
  2, 2, 2, 2, 2, 2, 2, 2, 2, 2, 2, 2, 2, 2, 2, 2,
  10, 3, 3, 3, 3, 3, 3, 3, 3, 3, 3, 3, 3, 4, 3, 3,
  11, 6, 6, 6, 5, 8, 8, 8, 8, 8, 8, 8, 8, 8, 8, 8,
  0, 12, 24, 36, 60, 96, 84, 12, 12, 12, 48, 72,
  12, 12, 12, 12, 12, 12, 12, 12, 12, 12, 12, 12,
  12, 0, 12, 12, 12, 12, 12, 0, 12, 0, 12, 12,
  12, 24, 12, 12, 12, 12, 12, 24, 12, 24, 12, 12,
  12, 12, 12, 12, 12, 12, 12, 24, 12, 12, 12, 12,
  12, 24, 12, 12, 12, 12, 12, 12, 12, 24, 12, 12,
  12, 12, 12, 12, 12, 12, 12, 36, 12, 36, 12, 12,
  12, 36, 12, 12, 12, 12, 12, 36, 12, 36, 12, 12,
  12, 36, 12, 12, 12, 12, 12, 12, 12, 12, 12, 12
]

def dfaStep (state : Nat) (byte : UInt8) : Nat :=
  utf8d.getD (256 + state + utf8d.getD byte.toNat 0) 0

/-- At most `limit` steps from a state; `i` bytes have been read. -/
def seqLenGo : Nat → Nat → Nat → List UInt8 → Nat
  | 0, _, _, _ => 0
  | _ + 1, _, _, [] => 0
  | limit + 1, state, i, b :: p =>
      let state := dfaStep state b
      if state = utf8Reject then 0
      else if state = utf8Accept then i + 1
      else seqLenGo limit state (i + 1) p

/-- The length of the code point that starts here, or 0. -/
def wokUtf8SeqLen (p : List UInt8) : Nat :=
  seqLenGo 4 utf8Accept 0 p

/-- Eight bytes as they are copied into a word. -/
def loadWord (bytes : List UInt8) : UInt64 :=
  bytes.foldr (fun b w => (w <<< 8) ||| b.toUInt64) 0

def highBits : UInt64 := 0x8080808080808080

/-- The fast path, eight bytes at a time. -/
def skipAscii : List UInt8 → Nat → List UInt8 × Nat
  | b0 :: b1 :: b2 :: b3 :: b4 :: b5 :: b6 :: b7 :: p, i =>
      if loadWord [b0, b1, b2, b3, b4, b5, b6, b7] &&& highBits != 0 then
        (b0 :: b1 :: b2 :: b3 :: b4 :: b5 :: b6 :: b7 :: p, i)
      else skipAscii p (i + 8)
  | p, i => (p, i)

theorem skipAscii_length (p : List UInt8) (i : Nat) : (skipAscii p i).1.length ≤ p.length := by
  fun_induction skipAscii p i with
  | case1 => exact Nat.le_refl _
  | case2 b0 b1 b2 b3 b4 b5 b6 b7 p i _ ih =>
      simp only [List.length_cons]
      omega
  | case3 => exact Nat.le_refl _

/-- The search from offset `i` on, where `p` is what follows, in a buffer of `n` bytes. -/
def findInvalidGo (n : Nat) (p : List UInt8) (i : Nat) : Nat :=
  match _hskip : skipAscii p i with
  | ([], _) => n
  | (b :: q, j) =>
      if b < 0x80 then findInvalidGo n q (j + 1)
      else if _hseq : wokUtf8SeqLen (b :: q) = 0 then j
      else findInvalidGo n ((b :: q).drop (wokUtf8SeqLen (b :: q))) (j + wokUtf8SeqLen (b :: q))
termination_by p.length
decreasing_by
  all_goals
    have hlen := skipAscii_length p i
    rw [_hskip] at hlen
    simp only [List.length_cons, List.length_drop] at hlen ⊢
    omega

def wokUtf8FindInvalid (p : List UInt8) : Nat :=
  findInvalidGo p.length p 0

end Wok.Grammar
