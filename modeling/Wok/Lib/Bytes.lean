/-
Module: Wok.Lib.Bytes
Purpose: Byte strings laid out in 64-bit words, the least significant byte first:
  what a byte read gives back of what a copy wrote.
Imports: Mathlib.Data.List.Basic, Mathlib.Data.Nat.Bitwise
Trusted boundary: none
Main exports: leNat, wordOfBytes, byteOfWord, toNat_tagged, toNat_packed, packBytes,
  unpackBytes, unpackBytes_packBytes
-/
import Mathlib.Data.List.Basic
import Mathlib.Data.Nat.Bitwise

namespace Wok.Lib

/-- The number that bytes stand for, the least significant one first. -/
def leNat (bs : List UInt8) : Nat :=
  bs.foldr (fun b acc => b.toNat + 256 * acc) 0

@[simp] theorem leNat_nil : leNat [] = 0 := rfl

@[simp] theorem leNat_cons (b : UInt8) (bs : List UInt8) :
    leNat (b :: bs) = b.toNat + 256 * leNat bs := rfl

theorem leNat_lt (bs : List UInt8) : leNat bs < 256 ^ bs.length := by
  induction bs with
  | nil => exact Nat.one_pos
  | cons b bs ih =>
      have hb : b.toNat < 256 := b.toNat_lt
      rw [leNat_cons, List.length_cons, Nat.pow_succ]
      omega

/-- The byte at a place is a digit of the number. -/
theorem leNat_digit (bs : List UInt8) (j : Nat) :
    leNat bs / 256 ^ j % 256 = (bs.getD j 0).toNat := by
  induction bs generalizing j with
  | nil => simp
  | cons b bs ih =>
      have hb : b.toNat < 256 := b.toNat_lt
      cases j with
      | zero =>
          rw [leNat_cons, Nat.pow_zero, Nat.div_one, List.getD_cons_zero]
          omega
      | succ j =>
          have hshift : leNat (b :: bs) / 256 = leNat bs := by
            rw [leNat_cons]
            omega
          rw [Nat.pow_succ', ← Nat.div_div_eq_div_mul, hshift, List.getD_cons_succ]
          exact ih j

/-! ### Words -/

/-- At most eight bytes in one word. -/
def wordOfBytes (bs : List UInt8) : UInt64 :=
  UInt64.ofNat (leNat bs)

def byteOfWord (w : UInt64) (j : Nat) : UInt8 :=
  UInt8.ofNat (w.toNat / 256 ^ j)

theorem byteOfWord_wordOfBytes {bs : List UInt8} (h : bs.length ≤ 8) (j : Nat) :
    byteOfWord (wordOfBytes bs) j = bs.getD j 0 := by
  have hlt : leNat bs < 2 ^ 64 := by
    calc leNat bs < 256 ^ bs.length := leNat_lt bs
      _ ≤ 256 ^ 8 := Nat.pow_le_pow_right (by decide) h
      _ = 2 ^ 64 := by decide
  apply UInt8.toNat_inj.mp
  rw [byteOfWord, wordOfBytes, UInt64.toNat_ofNat', Nat.mod_eq_of_lt hlt, UInt8.toNat_ofNat']
  exact leNat_digit bs j

/-- Bits put below a shifted word. -/
theorem toNat_tagged (x t : UInt64) {k : Nat} (hk : k < 64) (ht : t.toNat < 2 ^ k) :
    ((x <<< UInt64.ofNat k) ||| t).toNat = x.toNat % 2 ^ (64 - k) * 2 ^ k + t.toNat := by
  have hk' : (UInt64.ofNat k).toNat % 64 = k := by
    rw [UInt64.toNat_ofNat']
    omega
  have hshift : (x <<< UInt64.ofNat k).toNat = x.toNat % 2 ^ (64 - k) * 2 ^ k := by
    rw [UInt64.toNat_shiftLeft, hk', Nat.shiftLeft_eq, ← Nat.mul_mod_mul_right, ← Nat.pow_add,
      Nat.sub_add_cancel hk.le]
  rw [UInt64.toNat_or, hshift, ← Nat.shiftLeft_eq, Nat.shiftLeft_add_eq_or_of_lt ht]

/-- Bytes shifted into a word from the last one on. -/
theorem toNat_packed {bs : List UInt8} (h : bs.length ≤ 8) :
    (bs.foldr (fun b (acc : UInt64) => (acc <<< 8) ||| b.toUInt64) 0).toNat = leNat bs := by
  induction bs with
  | nil => rfl
  | cons b bs ih =>
      have hlen : bs.length ≤ 7 := Nat.le_of_succ_le_succ h
      have hb : b.toUInt64.toNat = b.toNat := by simp
      have hlt := b.toNat_lt
      rw [List.foldr_cons]
      have hstep := toNat_tagged
        (bs.foldr (fun b (acc : UInt64) => (acc <<< 8) ||| b.toUInt64) 0) b.toUInt64 (k := 8)
        (by decide) (by omega)
      have hle : leNat bs < 2 ^ 56 := by
        calc leNat bs < 256 ^ bs.length := leNat_lt bs
          _ ≤ 256 ^ 7 := Nat.pow_le_pow_right (by decide) hlen
          _ = 2 ^ 56 := by decide
      rw [ih (by omega), Nat.mod_eq_of_lt hle, hb] at hstep
      rw [leNat_cons]
      refine hstep.trans ?_
      omega

/-! ### Byte strings -/

/-- The words that hold a byte string; the last one is filled up with zeros. -/
def packBytes (bs : List UInt8) : List UInt64 :=
  (List.range ((bs.length + 7) / 8)).map fun i => wordOfBytes ((bs.drop (8 * i)).take 8)

@[simp] theorem length_packBytes (bs : List UInt8) :
    (packBytes bs).length = (bs.length + 7) / 8 := by
  simp [packBytes]

/-- The first `n` bytes at the words `word 0`, `word 1`, ... -/
def unpackBytes (word : Nat → UInt64) (n : Nat) : List UInt8 :=
  (List.range n).map fun k => byteOfWord (word (k / 8)) (k % 8)

@[simp] theorem length_unpackBytes (word : Nat → UInt64) (n : Nat) :
    (unpackBytes word n).length = n := by
  simp [unpackBytes]

theorem getElem?_unpackBytes (word : Nat → UInt64) {n k : Nat} (h : k < n) :
    (unpackBytes word n)[k]? = some (byteOfWord (word (k / 8)) (k % 8)) := by
  simp [unpackBytes, h]

/-- A copy of a byte string reads back as the byte string. -/
theorem unpackBytes_packBytes (bs : List UInt8) {word : Nat → UInt64}
    (hword : ∀ i < (packBytes bs).length, word i = (packBytes bs).getD i 0) :
    unpackBytes word bs.length = bs := by
  apply List.ext_getElem?
  intro k
  by_cases hk : k < bs.length
  · have hi : k / 8 < (bs.length + 7) / 8 := by omega
    have hplace : 8 * (k / 8) + k % 8 = k := Nat.div_add_mod k 8
    have hmod : k % 8 < 8 := Nat.mod_lt k (by decide)
    have hchunk : (packBytes bs).getD (k / 8) 0 =
        wordOfBytes ((bs.drop (8 * (k / 8))).take 8) := by
      simp [packBytes, List.getD_eq_getElem?_getD, hi]
    rw [getElem?_unpackBytes word hk, hword _ (by simpa using hi), hchunk,
      byteOfWord_wordOfBytes (List.length_take_le _ _), List.getD_eq_getElem?_getD,
      List.getElem?_take, if_pos hmod, List.getElem?_drop, hplace, List.getElem?_eq_getElem hk]
    rfl
  · rw [List.getElem?_eq_none (by simpa using hk), List.getElem?_eq_none (by simpa using hk)]

end Wok.Lib
