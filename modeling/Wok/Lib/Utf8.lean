/-
Module: Wok.Lib.Utf8
Purpose: A text against the bytes of its UTF-8 form: an ASCII byte is always a character of
  its own, and the bytes of any other character are all above ASCII.
Imports: Mathlib.Data.List.Basic
Trusted boundary: none
Main exports: utf8, asChar, utf8_cons_ascii, utf8_append_ascii, utf8_cons_high, utf8_map_asChar,
  Encoding, encoding_iff, StopsAt, offset, Boundary, utf8_window, splits_iff
-/
import Mathlib.Data.List.Basic

namespace Wok.Lib

/-- The bytes of a text. -/
def utf8 (t : List Char) : List UInt8 := t.flatMap String.utf8EncodeChar

def asChar (b : UInt8) : Char := Char.ofNat b.toNat

@[simp] theorem utf8_nil : utf8 [] = [] := rfl

theorem utf8_cons (c : Char) (t : List Char) : utf8 (c :: t) = String.utf8EncodeChar c ++ utf8 t :=
  List.flatMap_cons

theorem utf8_append (t t' : List Char) : utf8 (t ++ t') = utf8 t ++ utf8 t' := List.flatMap_append

theorem utf8EncodeChar_ascii {c : Char} (h : c.toNat < 128) :
    String.utf8EncodeChar c = [UInt8.ofNat c.toNat] := by
  have hle : c.val.toNat ≤ 0x7f := Nat.le_of_lt_succ h
  unfold String.utf8EncodeChar
  rw [if_pos hle]
  rfl

theorem ofNat_toNat_of_lt {n : Nat} (h : n < 256) : (UInt8.ofNat n).toNat = n := by
  rw [UInt8.toNat_ofNat']
  exact Nat.mod_eq_of_lt h

/-- The bytes of a character above ASCII. -/
theorem utf8EncodeChar_high {c : Char} (h : 128 ≤ c.toNat) :
    String.utf8EncodeChar c ≠ [] ∧
      ∀ b ∈ String.utf8EncodeChar c, 128 ≤ b.toNat ∧ b.toNat < 248 := by
  have hgt : ¬ c.val.toNat ≤ 0x7f := Nat.not_le.mpr h
  unfold String.utf8EncodeChar
  rw [if_neg hgt]
  have hbyte : ∀ n, 128 ≤ n → n < 248 →
      128 ≤ (UInt8.ofNat n).toNat ∧ (UInt8.ofNat n).toNat < 248 := by
    intro n hlo hhi
    rw [ofNat_toNat_of_lt (by omega)]
    exact ⟨hlo, hhi⟩
  split
  · refine ⟨List.cons_ne_nil _ _, ?_⟩
    simp only [List.forall_mem_cons, List.not_mem_nil, false_imp_iff, implies_true, and_true]
    exact ⟨hbyte _ (by omega) (by omega), hbyte _ (by omega) (by omega)⟩
  · split
    · refine ⟨List.cons_ne_nil _ _, ?_⟩
      simp only [List.forall_mem_cons, List.not_mem_nil, false_imp_iff, implies_true, and_true]
      exact ⟨hbyte _ (by omega) (by omega), hbyte _ (by omega) (by omega),
        hbyte _ (by omega) (by omega)⟩
    · refine ⟨List.cons_ne_nil _ _, ?_⟩
      simp only [List.forall_mem_cons, List.not_mem_nil, false_imp_iff, implies_true, and_true]
      exact ⟨hbyte _ (by omega) (by omega), hbyte _ (by omega) (by omega),
        hbyte _ (by omega) (by omega), hbyte _ (by omega) (by omega)⟩

theorem asChar_toNat {b : UInt8} (h : b.toNat < 128) : (asChar b).toNat = b.toNat := by
  have hvalid : b.toNat.isValidChar := Or.inl (by omega)
  rw [asChar, Char.ofNat, dif_pos hvalid]
  rfl

theorem asChar_ofNat {c : Char} (h : c.toNat < 128) : asChar (UInt8.ofNat c.toNat) = c := by
  unfold asChar
  rw [ofNat_toNat_of_lt (by omega), Char.ofNat_toNat]

theorem utf8_asChar {b : UInt8} (h : b.toNat < 128) : String.utf8EncodeChar (asChar b) = [b] := by
  rw [utf8EncodeChar_ascii (by rw [asChar_toNat h]; exact h), asChar_toNat h, UInt8.ofNat_toNat]

theorem utf8_map_asChar {bs : List UInt8} (h : ∀ b ∈ bs, b.toNat < 128) :
    utf8 (bs.map asChar) = bs := by
  induction bs with
  | nil => rfl
  | cons b bs ih =>
      rw [List.map_cons, utf8_cons, utf8_asChar (h b List.mem_cons_self),
        ih fun b' hb' => h b' (List.mem_cons_of_mem b hb')]
      rfl

theorem utf8_eq_nil {t : List Char} (h : utf8 t = []) : t = [] := by
  cases t with
  | nil => rfl
  | cons c t =>
      rw [utf8_cons, List.append_eq_nil_iff] at h
      exact absurd h.1 String.utf8EncodeChar_ne_nil

variable {t : List Char} {b : UInt8} {bs rest : List UInt8}

/-- An ASCII byte is a character of its own. -/
theorem utf8_cons_ascii (h : utf8 t = b :: rest) (hb : b.toNat < 128) :
    ∃ t', t = asChar b :: t' ∧ utf8 t' = rest := by
  cases t with
  | nil => cases h
  | cons c t =>
      rw [utf8_cons] at h
      rcases Nat.lt_or_ge c.toNat 128 with hc | hc
      · rw [utf8EncodeChar_ascii hc] at h
        obtain ⟨rfl, rfl⟩ := List.cons.inj h
        exact ⟨t, by rw [asChar_ofNat hc], rfl⟩
      · obtain ⟨hne, hhigh⟩ := utf8EncodeChar_high hc
        obtain ⟨x, xs, hx⟩ := List.exists_cons_of_ne_nil hne
        rw [hx] at h
        obtain ⟨rfl, -⟩ := List.cons.inj h
        have := (hhigh x (by rw [hx]; exact List.mem_cons_self)).1
        omega

theorem utf8_append_ascii (hbs : ∀ b ∈ bs, b.toNat < 128) (h : utf8 t = bs ++ rest) :
    ∃ t', t = bs.map asChar ++ t' ∧ utf8 t' = rest := by
  induction bs generalizing t with
  | nil => exact ⟨t, rfl, h⟩
  | cons b bs ih =>
      obtain ⟨t₁, rfl, h₁⟩ := utf8_cons_ascii h (hbs b List.mem_cons_self)
      obtain ⟨t₂, rfl, h₂⟩ := ih (fun b' hb' => hbs b' (List.mem_cons_of_mem b hb')) h₁
      exact ⟨t₂, rfl, h₂⟩

/-- A byte above ASCII begins a character above ASCII, whose bytes are all above ASCII. -/
theorem utf8_cons_high (h : utf8 t = b :: rest) (hb : 128 ≤ b.toNat) :
    ∃ c t' more, t = c :: t' ∧ 128 ≤ c.toNat ∧ String.utf8EncodeChar c = b :: more ∧
      (∀ x ∈ more, 128 ≤ x.toNat) ∧ rest = more ++ utf8 t' := by
  cases t with
  | nil => cases h
  | cons c t =>
      rw [utf8_cons] at h
      rcases Nat.lt_or_ge c.toNat 128 with hc | hc
      · rw [utf8EncodeChar_ascii hc] at h
        obtain ⟨rfl, -⟩ := List.cons.inj h
        rw [ofNat_toNat_of_lt (by omega)] at hb
        omega
      · obtain ⟨hne, hhigh⟩ := utf8EncodeChar_high hc
        obtain ⟨x, xs, hx⟩ := List.exists_cons_of_ne_nil hne
        rw [hx] at h
        obtain ⟨rfl, rfl⟩ := List.cons.inj h
        refine ⟨c, t, xs, rfl, hc, hx, ?_, rfl⟩
        intro y hy
        exact (hhigh y (by rw [hx]; exact List.mem_cons_of_mem x hy)).1

theorem utf8_byte_lt (t : List Char) : ∀ b ∈ utf8 t, b.toNat < 248 := by
  intro b hb
  obtain ⟨c, -, hc⟩ := List.mem_flatMap.mp hb
  rcases Nat.lt_or_ge c.toNat 128 with hlow | hhigh
  · rw [utf8EncodeChar_ascii hlow, List.mem_singleton] at hc
    subst hc
    rw [ofNat_toNat_of_lt (by omega)]
    omega
  · exact ((utf8EncodeChar_high hhigh).2 b hc).2

/-! ### The bytes of one character -/

/-- A byte that continues a character. -/
def Tail (b : UInt8) : Prop := 0x80 ≤ b.toNat ∧ b.toNat < 0xC0

/-- The well-formed byte sequences, by length; the bounds on the second byte leave out the
overlong forms, the surrogates and what is beyond the last code point. -/
inductive Encoding : List UInt8 → Prop where
  | one {a : UInt8} : a.toNat < 0x80 → Encoding [a]
  | two {a b : UInt8} : 0xC2 ≤ a.toNat → a.toNat < 0xE0 → Tail b → Encoding [a, b]
  | three {a b c : UInt8} : 0xE0 ≤ a.toNat → a.toNat < 0xF0 → Tail b → Tail c →
      (a.toNat = 0xE0 → 0xA0 ≤ b.toNat) → (a.toNat = 0xED → b.toNat < 0xA0) → Encoding [a, b, c]
  | four {a b c d : UInt8} : 0xF0 ≤ a.toNat → a.toNat < 0xF5 → Tail b → Tail c → Tail d →
      (a.toNat = 0xF0 → 0x90 ≤ b.toNat) → (a.toNat = 0xF4 → b.toNat < 0x90) →
      Encoding [a, b, c, d]

theorem ofNat_eq {b : UInt8} {n : Nat} (h : n = b.toNat) : UInt8.ofNat n = b := by
  rw [h, UInt8.ofNat_toNat]

/-- The encoding of a code point, by its number. -/
theorem utf8EncodeChar_ofNat {v : Nat} (h : v.isValidChar) :
    String.utf8EncodeChar (Char.ofNat v) =
      if v ≤ 127 then [UInt8.ofNat v]
      else if v ≤ 2047 then [UInt8.ofNat (v / 64 % 32 + 192), UInt8.ofNat (v % 64 + 128)]
      else if v ≤ 65535 then
        [UInt8.ofNat (v / 4096 % 16 + 224), UInt8.ofNat (v / 64 % 64 + 128),
          UInt8.ofNat (v % 64 + 128)]
      else
        [UInt8.ofNat (v / 262144 % 8 + 240), UInt8.ofNat (v / 4096 % 64 + 128),
          UInt8.ofNat (v / 64 % 64 + 128), UInt8.ofNat (v % 64 + 128)] := by
  have hval : (Char.ofNat v).val.toNat = v := by
    rw [Char.ofNat, dif_pos h]
    rfl
  unfold String.utf8EncodeChar
  rw [hval]

theorem encoding_utf8EncodeChar (c : Char) : Encoding (String.utf8EncodeChar c) := by
  obtain ⟨v, hv, rfl⟩ : ∃ v : Nat, v.isValidChar ∧ c = Char.ofNat v :=
    ⟨c.toNat, c.valid, (Char.ofNat_toNat c).symm⟩
  rw [utf8EncodeChar_ofNat hv]
  unfold Nat.isValidChar at hv
  have htail : ∀ n, n < 64 → Tail (UInt8.ofNat (n + 128)) := by
    intro n hn
    rw [Tail, ofNat_toNat_of_lt (by omega)]
    omega
  split
  · apply Encoding.one
    rw [ofNat_toNat_of_lt (by omega)]
    omega
  · split
    · have ha := ofNat_toNat_of_lt (n := v / 64 % 32 + 192) (by omega)
      exact .two (by omega) (by omega) (htail _ (by omega))
    · split
      · have ha := ofNat_toNat_of_lt (n := v / 4096 % 16 + 224) (by omega)
        have hb := ofNat_toNat_of_lt (n := v / 64 % 64 + 128) (by omega)
        exact .three (by omega) (by omega) (htail _ (by omega)) (htail _ (by omega)) (by omega)
          (by omega)
      · have ha := ofNat_toNat_of_lt (n := v / 262144 % 8 + 240) (by omega)
        have hb := ofNat_toNat_of_lt (n := v / 4096 % 64 + 128) (by omega)
        exact .four (by omega) (by omega) (htail _ (by omega)) (htail _ (by omega))
          (htail _ (by omega)) (by omega) (by omega)

theorem Encoding.exists_char {bs : List UInt8} (h : Encoding bs) :
    ∃ c, String.utf8EncodeChar c = bs := by
  cases h with
  | @one a ha => exact ⟨asChar a, utf8_asChar ha⟩
  | @two a b hlo hhi hb =>
      obtain ⟨hb₁, hb₂⟩ := hb
      obtain ⟨v, hv⟩ : ∃ v, v = (a.toNat - 0xC0) * 64 + (b.toNat - 0x80) := ⟨_, rfl⟩
      refine ⟨Char.ofNat v, ?_⟩
      rw [utf8EncodeChar_ofNat (Or.inl (by omega)), if_neg (by omega), if_pos (by omega),
        ofNat_eq (b := a) (by omega), ofNat_eq (b := b) (by omega)]
  | @three a b c hlo hhi hb hc hover hsur =>
      obtain ⟨hb₁, hb₂⟩ := hb
      obtain ⟨hc₁, hc₂⟩ := hc
      obtain ⟨v, hv⟩ : ∃ v, v = (a.toNat - 0xE0) * 4096 + (b.toNat - 0x80) * 64 +
          (c.toNat - 0x80) := ⟨_, rfl⟩
      have hvalid : v.isValidChar := by
        unfold Nat.isValidChar
        omega
      refine ⟨Char.ofNat v, ?_⟩
      rw [utf8EncodeChar_ofNat hvalid, if_neg (by omega), if_neg (by omega), if_pos (by omega),
        ofNat_eq (b := a) (by omega), ofNat_eq (b := b) (by omega), ofNat_eq (b := c) (by omega)]
  | @four a b c d hlo hhi hb hc hd hover hlast =>
      obtain ⟨hb₁, hb₂⟩ := hb
      obtain ⟨hc₁, hc₂⟩ := hc
      obtain ⟨hd₁, hd₂⟩ := hd
      obtain ⟨v, hv⟩ : ∃ v, v = (a.toNat - 0xF0) * 262144 + (b.toNat - 0x80) * 4096 +
          (c.toNat - 0x80) * 64 + (d.toNat - 0x80) := ⟨_, rfl⟩
      have hvalid : v.isValidChar := by
        unfold Nat.isValidChar
        omega
      refine ⟨Char.ofNat v, ?_⟩
      rw [utf8EncodeChar_ofNat hvalid, if_neg (by omega), if_neg (by omega), if_neg (by omega),
        ofNat_eq (b := a) (by omega), ofNat_eq (b := b) (by omega), ofNat_eq (b := c) (by omega),
        ofNat_eq (b := d) (by omega)]

theorem encoding_iff {bs : List UInt8} : Encoding bs ↔ ∃ c, String.utf8EncodeChar c = bs := by
  constructor
  · exact Encoding.exists_char
  · rintro ⟨c, rfl⟩
    exact encoding_utf8EncodeChar c

theorem Encoding.length {bs : List UInt8} (h : Encoding bs) : 0 < bs.length ∧ bs.length ≤ 4 := by
  cases h <;> simp

/-- Where decoding code point by code point stops: at the first place where no code point is
encoded, or at the end. -/
inductive StopsAt : List UInt8 → Nat → Prop where
  | done : StopsAt [] 0
  | stuck {bs : List UInt8} : bs ≠ [] → (∀ c, ¬ String.utf8EncodeChar c <+: bs) → StopsAt bs 0
  | char {rest : List UInt8} {i : Nat} (c : Char) : StopsAt rest i →
      StopsAt (String.utf8EncodeChar c ++ rest) ((String.utf8EncodeChar c).length + i)

theorem StopsAt.ascii {b : UInt8} {i : Nat} (hb : b.toNat < 0x80) (h : StopsAt bs i) :
    StopsAt (b :: bs) (i + 1) := by
  have hstep := StopsAt.char (asChar b) h
  rw [utf8_asChar hb] at hstep
  rw [Nat.add_comm]
  exact hstep

theorem StopsAt.asciis {pre : List UInt8} {i : Nat} (hpre : ∀ b ∈ pre, b.toNat < 0x80)
    (h : StopsAt bs i) : StopsAt (pre ++ bs) (i + pre.length) := by
  induction pre with
  | nil => exact h
  | cons b pre ih =>
      exact (ih fun b' hb' => hpre b' (List.mem_cons_of_mem b hb')).ascii
        (hpre b List.mem_cons_self)

/-! ### Where code points start -/

/-- The bytes before the `n`-th character. -/
def offset (t : List Char) (n : Nat) : Nat := (utf8 (t.take n)).length

/-- Byte `k` is where a character starts, or the end of the text. -/
def Boundary (t : List Char) (k : Nat) : Prop := ∃ n, k = offset t n

/-- The byte at `k`, if any, continues a character. -/
def Splits (bs : List UInt8) (k : Nat) : Prop := 0 < k ∧ ∃ b, bs[k]? = some b ∧ b &&& 0xC0 = 0x80

@[simp] theorem offset_zero (t : List Char) : offset t 0 = 0 := by
  rw [offset, List.take_zero, utf8_nil, List.length_nil]

theorem offset_cons (c : Char) (t : List Char) (n : Nat) :
    offset (c :: t) (n + 1) = (String.utf8EncodeChar c).length + offset t n := by
  rw [offset, List.take_succ_cons, utf8_cons, List.length_append, offset]

theorem offset_mono (t : List Char) {n m : Nat} (h : n ≤ m) : offset t n ≤ offset t m := by
  unfold offset
  rw [← Nat.add_sub_cancel' h, List.take_add, utf8_append, List.length_append]
  omega

theorem offset_of_length_le {t : List Char} {n : Nat} (h : t.length ≤ n) :
    offset t n = (utf8 t).length := by
  rw [offset, List.take_of_length_le h]

theorem offset_le (t : List Char) (n : Nat) : offset t n ≤ (utf8 t).length := by
  rw [← offset_of_length_le (Nat.le_max_right n t.length)]
  exact offset_mono t (Nat.le_max_left n t.length)

/-- The bytes of a window of the characters. -/
theorem offset_add (t : List Char) (n k : Nat) :
    offset t n + (utf8 ((t.drop n).take k)).length = offset t (n + k) := by
  unfold offset
  rw [List.take_add, utf8_append, List.length_append]

/-- A window of the characters is a window of the bytes. -/
theorem utf8_window (t : List Char) (n k : Nat) :
    ((utf8 t).drop (offset t n)).take (offset t (n + k) - offset t n) =
      utf8 ((t.drop n).take k) := by
  have hsplit : utf8 t = utf8 (t.take n) ++ (utf8 ((t.drop n).take k) ++
      utf8 ((t.drop n).drop k)) := by
    rw [← utf8_append, List.take_append_drop, ← utf8_append, List.take_append_drop]
  rw [← offset_add, Nat.add_sub_cancel_left, hsplit]
  unfold offset
  rw [List.drop_left, List.take_left]

/-- Where a character of a window starts in the whole text. -/
theorem offset_window (t : List Char) (n k i : Nat) :
    offset t n + offset ((t.drop n).take k) i = offset t (n + min i k) := by
  unfold offset
  rw [List.take_take, List.take_add, utf8_append, List.length_append]

/-- What a leading byte is not. -/
theorem isUTF8FirstByte_iff {b : UInt8} (h : b.toNat < 248) :
    b.IsUTF8FirstByte ↔ ¬ b &&& 0xC0 = 0x80 := by
  have hall : ∀ n < 248, (UInt8.ofNat n).IsUTF8FirstByte ↔ ¬ UInt8.ofNat n &&& 0xC0 = 0x80 := by
    decide +kernel
  have hb := hall b.toNat h
  rwa [UInt8.ofNat_toNat] at hb

theorem encodeChar_continues {c : Char} {i : Nat} {b : UInt8}
    (h : (String.utf8EncodeChar c)[i]? = some b) : b &&& 0xC0 = 0x80 ↔ i ≠ 0 := by
  obtain ⟨hi, rfl⟩ := List.getElem?_eq_some_iff.mp h
  have hmem : (String.utf8EncodeChar c)[i] ∈ utf8 [c] := by
    rw [utf8_cons, utf8_nil, List.append_nil]
    exact List.getElem_mem hi
  rw [← not_iff_not, ← isUTF8FirstByte_iff (utf8_byte_lt [c] _ hmem), not_not]
  exact UInt8.isUTF8FirstByte_getElem_utf8EncodeChar

/-- A byte of a text that continues a character is where no character starts. -/
theorem splits_iff {t : List Char} {k : Nat} (h : k ≤ (utf8 t).length) :
    Splits (utf8 t) k ↔ ¬ Boundary t k := by
  induction t generalizing k with
  | nil =>
      obtain rfl : k = 0 := Nat.le_zero.mp h
      exact iff_of_false (fun hs => Nat.lt_irrefl 0 hs.1) fun hb => hb ⟨0, rfl⟩
  | cons c t ih =>
      have hpos : 0 < (String.utf8EncodeChar c).length :=
        List.length_pos_iff.mpr String.utf8EncodeChar_ne_nil
      rw [utf8_cons] at h ⊢
      rcases Nat.lt_or_ge k (String.utf8EncodeChar c).length with hlt | hge
      · -- within the first character
        have hbyte := List.getElem?_eq_getElem hlt
        have happ : (String.utf8EncodeChar c ++ utf8 t)[k]? =
            some (String.utf8EncodeChar c)[k] := by
          rw [List.getElem?_append_left hlt, hbyte]
        constructor
        · rintro ⟨hk, -⟩ ⟨n, hn⟩
          cases n with
          | zero =>
              rw [offset_zero] at hn
              omega
          | succ n =>
              rw [offset_cons] at hn
              omega
        · intro hb
          have hk : k ≠ 0 := by
            rintro rfl
            exact hb ⟨0, (offset_zero _).symm⟩
          exact ⟨Nat.pos_of_ne_zero hk, _, happ, (encodeChar_continues hbyte).mpr hk⟩
      · obtain ⟨j, rfl⟩ := Nat.exists_eq_add_of_le hge
        rw [List.length_append] at h
        have happ : (String.utf8EncodeChar c ++ utf8 t)[(String.utf8EncodeChar c).length + j]? =
            (utf8 t)[j]? := by
          rw [List.getElem?_append_right hge, Nat.add_sub_cancel_left]
        have hbound : Boundary (c :: t) ((String.utf8EncodeChar c).length + j) ↔ Boundary t j := by
          constructor
          · rintro ⟨n, hn⟩
            cases n with
            | zero =>
                rw [offset_zero] at hn
                omega
            | succ n =>
                rw [offset_cons] at hn
                exact ⟨n, by omega⟩
          · rintro ⟨n, rfl⟩
            exact ⟨n + 1, (offset_cons c t n).symm⟩
        rw [hbound, ← ih (by omega)]
        unfold Splits
        rw [happ]
        constructor
        · rintro ⟨-, b, hb, hcont⟩
          refine ⟨?_, b, hb, hcont⟩
          -- the next character starts with a leading byte
          by_contra hj
          obtain rfl : j = 0 := by omega
          cases t with
          | nil => cases hb
          | cons d t =>
              have hpos' : 0 < (String.utf8EncodeChar d).length :=
                List.length_pos_iff.mpr String.utf8EncodeChar_ne_nil
              rw [utf8_cons, List.getElem?_append_left hpos'] at hb
              exact (encodeChar_continues hb).mp hcont rfl
        · rintro ⟨-, hb⟩
          exact ⟨by omega, hb⟩

end Wok.Lib
