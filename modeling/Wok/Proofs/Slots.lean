/-
Module: Wok.Proofs.Slots
Purpose: A slot word of the C heap gives back the value that it was made from.
Imports: Mathlib.Data.Nat.Bitwise, Wok.Interp.RC.Alloc
Trusted boundary: none
Main exports: WordAddr, WordValue, encodeSlotC_of_wordValue, decode_of_encode, slotCounted,
  slot_codec
-/
import Mathlib.Data.Nat.Bitwise
import Wok.Lib.Bytes
import Wok.Interp.RC.Alloc

namespace Wok.Interp.RC

open Wok.IR

/-! ### Bits -/

/-- A bit that is zero, as a mask reads it. -/
theorem and_two_pow_eq_zero (w : UInt64) {i : Nat} (hi : i < 64) :
    w &&& UInt64.ofNat (2 ^ i) = 0 ↔ w.toNat / 2 ^ i % 2 = 0 := by
  have hpow : (UInt64.ofNat (2 ^ i)).toNat = 2 ^ i := by
    rw [UInt64.toNat_ofNat', Nat.mod_eq_of_lt (Nat.pow_lt_pow_right (by omega) hi)]
  rw [← UInt64.toNat_inj, UInt64.toNat_and, hpow, Nat.and_two_pow, Nat.testBit_eq_decide_div_mod_eq]
  have hpos : 0 < 2 ^ i := Nat.two_pow_pos i
  rcases Nat.mod_two_eq_zero_or_one (w.toNat / 2 ^ i) with h | h
  · simp [h]
  · simp [h]

/-- What a pointer slot holds, by the lowest bits of its word. -/
theorem decodeSlotC_pointer (w : UInt64) :
    decodeSlotC .pointer w =
      if w.toNat % 2 = 0 then .box (.c w)
      else if w.toNat / 2 % 2 = 0 then .box (.heap (w.toInt64.toInt >>> (2 : Nat)))
      else if w.toNat / 4 % 2 = 0 then .box (.inline (w >>> 3).toUInt32)
      else .box (.inlineStr (unpackInlineStr w)) := by
  have h1 : (w &&& 1 = 0) = (w.toNat % 2 = 0) := by
    have h := and_two_pow_eq_zero w (i := 0) (by decide)
    simpa using h
  have h2 : (w &&& 2 = 0) = (w.toNat / 2 % 2 = 0) :=
    propext (and_two_pow_eq_zero w (i := 1) (by decide))
  have h4 : (w &&& 4 = 0) = (w.toNat / 4 % 2 = 0) :=
    propext (and_two_pow_eq_zero w (i := 2) (by decide))
  rw [decodeSlotC]
  simp only [h1, h2, h4]

/-! ### Addresses -/

theorem decode_heap {i : Int} (hlo : -2 ^ 61 ≤ i) (hhi : i < 2 ^ 61) :
    decodeSlotC .pointer (((Int64.ofInt i) <<< 2).toUInt64 ||| 1) = .box (.heap i) := by
  let w : UInt64 := ((Int64.ofInt i) <<< 2).toUInt64 ||| 1
  have hx : (Int64.ofInt i).toUInt64.toNat = (i % 2 ^ 64).toNat := by
    rw [← Int64.toNat_toBitVec]
    simp
  have hw : w.toNat = (Int64.ofInt i).toUInt64.toNat % 2 ^ 62 * 4 + 1 :=
    Lib.toNat_tagged (Int64.ofInt i).toUInt64 1 (k := 2) (by decide) (by decide)
  rw [hx] at hw
  have hint : w.toInt64.toInt = 4 * i + 1 := by
    rw [← Int64.toInt_toBitVec, UInt64.toBitVec_toInt64, BitVec.toInt_eq_toNat_bmod,
      UInt64.toNat_toBitVec, Int.bmod]
    omega
  rw [decodeSlotC_pointer]
  change (if w.toNat % 2 = 0 then _ else if w.toNat / 2 % 2 = 0 then _ else _) = _
  rw [if_neg (by omega), if_pos (by omega), hint, Int.shiftRight_eq_div_pow]
  congr 2
  omega

theorem decode_inline (t : UInt32) :
    decodeSlotC .pointer ((t.toUInt64 <<< 3) ||| 3) = .box (.inline t) := by
  let w : UInt64 := (t.toUInt64 <<< 3) ||| 3
  have hw : w.toNat = t.toUInt64.toNat % 2 ^ 61 * 8 + 3 :=
    Lib.toNat_tagged t.toUInt64 3 (k := 3) (by decide) (by decide)
  have ht : t.toUInt64.toNat = t.toNat := by simp
  have hlt := t.toNat_lt
  rw [decodeSlotC_pointer]
  change (if w.toNat % 2 = 0 then _ else if w.toNat / 2 % 2 = 0 then _ else
    if w.toNat / 4 % 2 = 0 then _ else _) = _
  rw [if_neg (by omega), if_neg (by omega), if_pos (by omega)]
  congr 2
  apply UInt32.toNat_inj.mp
  rw [UInt64.toNat_toUInt32, UInt64.toNat_shiftRight]
  change w.toNat >>> 3 % 2 ^ 32 = _
  rw [Nat.shiftRight_eq_div_pow]
  omega

/-! ### Short strings -/

theorem toNat_packInlineStr {bs : List UInt8} (h : bs.length ≤ maxInlineStr) :
    (packInlineStr bs).toNat = Lib.leNat bs * 64 + bs.length * 8 + 7 := by
  unfold maxInlineStr at h
  let bytesW : UInt64 := bs.foldr (fun b acc => (acc <<< 8) ||| b.toUInt64) 0
  have hbytes : bytesW.toNat = Lib.leNat bs := Lib.toNat_packed (by omega)
  have hlen : (UInt64.ofNat bs.length).toNat = bs.length := by
    rw [UInt64.toNat_ofNat']
    omega
  have hlow : (UInt64.ofNat bs.length <<< 3 ||| 7).toNat = bs.length * 8 + 7 := by
    have hstep := Lib.toNat_tagged (UInt64.ofNat bs.length) 7 (k := 3) (by decide) (by decide)
    rw [hlen, Nat.mod_eq_of_lt (by omega)] at hstep
    exact hstep
  have hword : packInlineStr bs = (bytesW <<< 6) ||| (UInt64.ofNat bs.length <<< 3 ||| 7) := by
    unfold packInlineStr
    rw [UInt64.or_comm (7 : UInt64), UInt64.or_comm]
  have hle : Lib.leNat bs < 2 ^ 56 := by
    calc Lib.leNat bs < 256 ^ bs.length := Lib.leNat_lt bs
      _ ≤ 256 ^ 7 := Nat.pow_le_pow_right (by decide) h
      _ = 2 ^ 56 := by decide
  have hstep := Lib.toNat_tagged bytesW (UInt64.ofNat bs.length <<< 3 ||| 7) (k := 6) (by decide)
    (by rw [hlow]; omega)
  rw [hword]
  refine hstep.trans ?_
  rw [hbytes, hlow]
  omega

theorem unpackInlineStr_pack {bs : List UInt8} (h : bs.length ≤ maxInlineStr) :
    unpackInlineStr (packInlineStr bs) = bs := by
  have hw := toNat_packInlineStr h
  unfold maxInlineStr at h
  have hlen : ((packInlineStr bs >>> 3) &&& 7).toNat = bs.length := by
    rw [UInt64.toNat_and, UInt64.toNat_shiftRight]
    change (packInlineStr bs).toNat >>> 3 &&& 7 = _
    rw [hw, Nat.shiftRight_eq_div_pow, show 7 = 2 ^ 3 - 1 from rfl, Nat.and_two_pow_sub_one_eq_mod]
    omega
  have hbytes : (packInlineStr bs >>> 6).toNat = Lib.leNat bs := by
    rw [UInt64.toNat_shiftRight]
    change (packInlineStr bs).toNat >>> 6 = _
    rw [hw, Nat.shiftRight_eq_div_pow]
    omega
  unfold unpackInlineStr
  simp only [hlen]
  apply List.ext_getElem
  · simp
  · intro i hi hi'
    rw [List.getElem_map, List.getElem_range]
    apply UInt8.toNat_inj.mp
    have hshift : (UInt64.ofNat (8 * i)).toNat % 64 = 8 * i := by
      rw [UInt64.toNat_ofNat']
      omega
    rw [UInt64.toNat_toUInt8, UInt64.toNat_shiftRight, hbytes, hshift, Nat.shiftRight_eq_div_pow,
      Nat.pow_mul]
    have hdigit := Lib.leNat_digit bs i
    rw [List.getD_eq_getElem _ _ hi'] at hdigit
    exact hdigit

theorem decode_inlineStr {bs : List UInt8} (h : bs.length ≤ maxInlineStr) :
    decodeSlotC .pointer (packInlineStr bs) = .box (.inlineStr bs) := by
  have hw := toNat_packInlineStr h
  rw [decodeSlotC_pointer, if_neg (by omega), if_neg (by omega), if_neg (by omega),
    unpackInlineStr_pack h]

/-! ### Every slot -/

/-- The addresses that a slot of a C cell can hold. -/
def WordAddr : Addr → Prop
  | .c p => p.toNat % 2 = 0
  | .heap i => -2 ^ 61 ≤ i ∧ i < 2 ^ 61
  | .inline _ => True
  | .inlineStr bs => bs.length ≤ maxInlineStr

/-- The values that a slot of a C cell can hold. -/
def WordValue : RCValue → Prop
  | .lit (.int n) => -2 ^ 63 ≤ n ∧ n < 2 ^ 63
  | .lit (.char _) => True
  | .lit .unit => True
  | .box a => WordAddr a
  | _ => False

theorem encodeSlotC_addr {a : Addr} (h : WordAddr a) :
    ∃ w, encodeSlotC (.box a) = some (.pointer, w) ∧ decodeSlotC .pointer w = .box a := by
  cases a with
  | c p =>
      refine ⟨_, rfl, ?_⟩
      change p.toNat % 2 = 0 at h
      rw [decodeSlotC_pointer, if_pos h]
  | heap i => exact ⟨_, rfl, decode_heap h.1 h.2⟩
  | inline t => exact ⟨_, rfl, decode_inline t⟩
  | inlineStr bs => exact ⟨_, rfl, decode_inlineStr h⟩

theorem encodeSlotC_of_wordValue {v : RCValue} (h : WordValue v) :
    ∃ kind w, encodeSlotC v = some (kind, w) ∧ decodeSlotC kind w = v := by
  match v, h with
  | .lit (.int n), h =>
      refine ⟨_, _, if_pos h, ?_⟩
      rw [decodeSlotC, Int64.toInt64_toUInt64, Int64.toInt_ofInt_of_le h.1 h.2]
  | .lit (.char c), _ =>
      refine ⟨_, _, rfl, ?_⟩
      have hc : (UInt64.ofNat c.toNat).toNat = c.toNat := by
        rw [UInt64.toNat_ofNat']
        have hlt := c.val.toNat_lt
        exact Nat.mod_eq_of_lt (hlt.trans (by decide))
      rw [decodeSlotC, hc, Char.ofNat_toNat]
  | .lit .unit, _ => exact ⟨_, _, rfl, rfl⟩
  | .box a, h =>
      rcases encodeSlotC_addr h with ⟨w, hencode, hdecode⟩
      exact ⟨_, w, hencode, hdecode⟩

/-- What the encoder takes it gives back, if the addresses can be held. -/
theorem decode_of_encode {v : RCValue} {e : SlotKind × UInt64} (h : encodeSlotC v = some e)
    (haddr : ∀ a ∈ valueChildren v, WordAddr a) : decodeSlotC e.1 e.2 = v := by
  have hword : WordValue v := by
    match v, h with
    | .lit (.int n), h =>
        by_contra hrange
        have hrange : ¬ (-2 ^ 63 ≤ n ∧ n < 2 ^ 63) := hrange
        rw [encodeSlotC, if_neg hrange] at h
        cases h
    | .lit (.char c), _ => trivial
    | .lit .unit, _ => trivial
    | .box a, _ => exact haddr a List.mem_cons_self
  rcases encodeSlotC_of_wordValue hword with ⟨kind, w, hencode, hdecode⟩
  rw [h] at hencode
  cases hencode
  exact hdecode

/-- A slot that is no pointer holds no reference. -/
theorem valueChildren_of_kind {v : RCValue} {kind : SlotKind} {w : UInt64}
    (h : encodeSlotC v = some (kind, w)) (hkind : kind ≠ .pointer) : valueChildren v = [] := by
  match v, h with
  | .lit l, _ => rfl
  | .box (.c p), h =>
      cases h
      exact absurd rfl hkind
  | .box (.heap i), h =>
      cases h
      exact absurd rfl hkind
  | .box (.inline t), h =>
      cases h
      exact absurd rfl hkind
  | .box (.inlineStr bs), h =>
      cases h
      exact absurd rfl hkind

/-! ### The encoding as a whole -/

/-- What comes out of a slot can be held by one. -/
theorem wordValue_decode (kind : SlotKind) (w : UInt64) : WordValue (decodeSlotC kind w) := by
  cases kind with
  | litInt => exact ⟨w.toInt64.le_toInt, w.toInt64.toInt_lt⟩
  | litChar => trivial
  | litUnit => trivial
  | pointer =>
      rw [decodeSlotC_pointer]
      split
      next h => exact h
      · split
        · have hlo := w.toInt64.le_toInt
          have hhi := w.toInt64.toInt_lt
          rw [Int.shiftRight_eq_div_pow]
          constructor <;> omega
        · split
          · trivial
          · have hlen : ((w >>> 3) &&& 7).toNat ≤ 7 := by
              rw [UInt64.toNat_and, UInt64.toNat_ofNat]
              exact Nat.and_le_right
            show (unpackInlineStr w).length ≤ maxInlineStr
            rw [unpackInlineStr, List.length_map, List.length_range]
            exact hlen

/-- The encoding loses nothing exactly on the values that a slot can hold. -/
theorem decode_encode_iff {v : RCValue} {e : SlotKind × UInt64} (h : encodeSlotC v = some e) :
    decodeSlotC e.1 e.2 = v ↔ WordValue v := by
  constructor
  · intro hdecode
    exact hdecode ▸ wordValue_decode e.1 e.2
  · intro hword
    rcases encodeSlotC_of_wordValue hword with ⟨kind, w, hencode, hdecode⟩
    obtain rfl : e = (kind, w) := Option.some.inj (h.symm.trans hencode)
    exact hdecode

/-- Whether a value owns a reference that is counted. -/
def counted (v : RCValue) : Bool :=
  !(countedRefs [v]).isEmpty

/-- The class of a slot by its bits alone: a pointer that is aligned, or an abstract address
whose sign is not set. -/
def slotCounted (kind : SlotKind) (w : UInt64) : Bool :=
  kind = .pointer && (w &&& 1 = 0 || (w &&& 2 = 0 && w &&& 0x8000000000000000 = 0))

theorem counted_decode (kind : SlotKind) (w : UInt64) :
    counted (decodeSlotC kind w) = slotCounted kind w := by
  cases kind with
  | litInt => rfl
  | litChar => rfl
  | litUnit => rfl
  | pointer =>
      have h1 : (w &&& 1 = 0) = (w.toNat % 2 = 0) := by
        have h := and_two_pow_eq_zero w (i := 0) (by decide)
        simpa using h
      have h2 : (w &&& 2 = 0) = (w.toNat / 2 % 2 = 0) :=
        propext (and_two_pow_eq_zero w (i := 1) (by decide))
      have hsign : (w &&& 0x8000000000000000 = 0) = (w.toNat / 9223372036854775808 % 2 = 0) :=
        propext (and_two_pow_eq_zero w (i := 63) (by decide))
      rw [decodeSlotC_pointer, slotCounted]
      simp only [h1, h2, hsign, decide_true, Bool.true_and]
      have hlt := w.toNat_lt
      have hint : w.toInt64.toInt = Int.bmod w.toNat (2 ^ 64) := by
        rw [← Int64.toInt_toBitVec, UInt64.toBitVec_toInt64, BitVec.toInt_eq_toNat_bmod,
          UInt64.toNat_toBitVec]
      by_cases hptr : w.toNat % 2 = 0
      · simp [hptr, counted, countedRefs, valueChildren, isUncounted, isStaticAddr, isInline]
      · by_cases habs : w.toNat / 2 % 2 = 0
        · have hneg : w.toInt64.toInt >>> (2 : Nat) < 0 ↔
              ¬ w.toNat / 9223372036854775808 % 2 = 0 := by
            rw [hint, Int.shiftRight_eq_div_pow, Int.bmod]
            constructor <;> intro h <;> omega
          by_cases hs : w.toNat / 9223372036854775808 % 2 = 0
          · have hpos : ¬ w.toInt64.toInt >>> (2 : Nat) < 0 := fun h => hneg.mp h hs
            simp [hptr, habs, hs, hpos, counted, countedRefs, valueChildren, isUncounted,
              isStaticAddr, isInline]
          · have hlow : w.toInt64.toInt >>> (2 : Nat) < 0 := hneg.mpr hs
            have hone : w.toNat / 9223372036854775808 % 2 = 1 := by omega
            simp [hptr, habs, hone, hlow, counted, countedRefs, valueChildren, isUncounted,
              isStaticAddr, isInline]
        · by_cases hcon : w.toNat / 4 % 2 = 0 <;>
            simp [hptr, habs, hcon, counted, countedRefs, valueChildren, isUncounted, isStaticAddr,
              isInline]

/-- On the values that a slot can hold the encoding is undone by decoding, has no collisions,
and shows by its bits whether the value is counted. -/
theorem slot_codec {v : RCValue} {e : SlotKind × UInt64} (h : encodeSlotC v = some e) :
    (decodeSlotC e.1 e.2 = v ↔ WordValue v) ∧
    (WordValue v → ∀ v', WordValue v' → encodeSlotC v' = some e → v' = v) ∧
    (WordValue v → slotCounted e.1 e.2 = counted v) := by
  refine ⟨decode_encode_iff h, ?_, ?_⟩
  · intro hv v' hv' h'
    rw [← (decode_encode_iff h).mpr hv, ← (decode_encode_iff h').mpr hv']
  · intro hv
    rw [← counted_decode, (decode_encode_iff h).mpr hv]

theorem slot_codec_heap :
    slotCounted .pointer 29 = true ∧ decodeSlotC .pointer 29 = .box (.heap 7) :=
  have h : encodeSlotC (.box (.heap 7)) = some (.pointer, 29) := by decide
  have hword : WordValue (.box (.heap 7)) := by constructor <;> decide
  ⟨(slot_codec h).2.2 hword, (slot_codec h).1.mpr hword⟩

end Wok.Interp.RC
