/-
Module: Wok.Proofs.Utf8Search
Purpose: The search for ill-formed UTF-8 stops where a plain decoder stops, whatever the blocks of
  its fast path, and the runtime accepts exactly the strings it goes through to the end of.
Imports: Wok.Lib.Bytes, Wok.Lib.Utf8, Wok.Grammar.Utf8, Wok.Runtime.Utf8
Trusted boundary: none
Main exports: Completes, completes_start, wokUtf8SeqLen_encode, skipAscii_spec,
  findInvalid_stopsAt, utf8_agree
-/
import Mathlib.Data.List.Basic
import Mathlib.Data.Nat.Bitwise
import Wok.Lib.Bytes
import Wok.Lib.Utf8
import Wok.Grammar.Utf8
import Wok.Runtime.Utf8

namespace Wok.Grammar

open Wok.Lib

/-! ### The table -/

/-- The state after the first byte of a sequence. -/
def leadState (n : Nat) : Nat :=
  if n < 0x80 then 0
  else if n < 0xC2 then 12
  else if n < 0xE0 then 24
  else if n = 0xE0 then 48
  else if n = 0xED then 60
  else if n < 0xF0 then 36
  else if n = 0xF0 then 72
  else if n < 0xF4 then 84
  else if n = 0xF4 then 96
  else 12

/-- The row of a state, checked along the classes of the bytes. -/
def rowIs (state : Nat) (f : Nat → Nat) : Bool :=
  (utf8d.take 256).zipIdx.all fun e => (utf8d.drop (256 + state)).getD e.1 0 == f e.2

theorem dfaStep_of_rowIs {state : Nat} {f : Nat → Nat} (h : rowIs state f = true) (b : UInt8) :
    dfaStep state b = f b.toNat := by
  have hclasses : (utf8d.take 256).length = 256 := by decide +kernel
  have hlen : b.toNat < (utf8d.take 256).length := by
    rw [hclasses]
    exact b.toNat_lt
  have hmem : ((utf8d.take 256)[b.toNat], b.toNat) ∈ (utf8d.take 256).zipIdx :=
    List.mem_zipIdx_iff_getElem?.mpr (List.getElem?_eq_getElem hlen)
  have hclass : utf8d.getD b.toNat 0 = (utf8d.take 256)[b.toNat] := by
    rw [List.getElem_take, List.getD_eq_getElem?_getD, List.getElem?_eq_getElem, Option.getD_some]
  have hrow := List.all_eq_true.mp h _ hmem
  rw [beq_iff_eq, List.getD_eq_getElem?_getD, List.getElem?_drop] at hrow
  rw [dfaStep, hclass, List.getD_eq_getElem?_getD]
  exact hrow

theorem dfaStep_lead (b : UInt8) : dfaStep 0 b = leadState b.toNat :=
  dfaStep_of_rowIs (by decide +kernel) b

/-- The other states: the range of the byte that each waits for, and the state after it. -/
def tailStates : List (Nat × Nat × Nat × Nat) :=
  [(24, 0x80, 0xC0, 0), (36, 0x80, 0xC0, 24), (48, 0xA0, 0xC0, 24), (60, 0x80, 0xA0, 24),
    (72, 0x90, 0xC0, 36), (84, 0x80, 0xC0, 36), (96, 0x80, 0x90, 36)]

theorem row_36 : ((36, 0x80, 0xC0, 24) : Nat × Nat × Nat × Nat) ∈ tailStates := by decide
theorem row_48 : ((48, 0xA0, 0xC0, 24) : Nat × Nat × Nat × Nat) ∈ tailStates := by decide
theorem row_60 : ((60, 0x80, 0xA0, 24) : Nat × Nat × Nat × Nat) ∈ tailStates := by decide
theorem row_72 : ((72, 0x90, 0xC0, 36) : Nat × Nat × Nat × Nat) ∈ tailStates := by decide
theorem row_84 : ((84, 0x80, 0xC0, 36) : Nat × Nat × Nat × Nat) ∈ tailStates := by decide
theorem row_96 : ((96, 0x80, 0x90, 36) : Nat × Nat × Nat × Nat) ∈ tailStates := by decide

theorem dfaStep_tail {state lo hi next : Nat} (h : (state, lo, hi, next) ∈ tailStates)
    (b : UInt8) : dfaStep state b = if lo ≤ b.toNat ∧ b.toNat < hi then next else 12 := by
  have htable : ∀ row ∈ tailStates, rowIs row.1
      (fun n => if row.2.1 ≤ n ∧ n < row.2.2.1 then row.2.2.2 else 12) = true := by
    decide +kernel
  exact dfaStep_of_rowIs (htable _ h) b

/-! ### Runs of the decoder -/

theorem seqLenGo_cons (limit state i : Nat) (b : UInt8) (p : List UInt8) :
    seqLenGo (limit + 1) state i (b :: p) =
      if dfaStep state b = 12 then 0
      else if dfaStep state b = 0 then i + 1
      else seqLenGo limit (dfaStep state b) (i + 1) p := rfl

/-- Bytes that take the decoder from a state to acceptance, with no acceptance before. -/
inductive Completes : Nat → List UInt8 → Prop where
  | last {state : Nat} {b : UInt8} : dfaStep state b = 0 → Completes state [b]
  | more {state : Nat} {b : UInt8} {bs : List UInt8} : dfaStep state b ≠ 0 →
      dfaStep state b ≠ 12 → Completes (dfaStep state b) bs → Completes state (b :: bs)

theorem seqLenGo_completes {state : Nat} {bs : List UInt8} (h : Completes state bs) :
    ∀ {limit : Nat} (i : Nat) (rest : List UInt8), bs.length ≤ limit →
      seqLenGo limit state i (bs ++ rest) = i + bs.length := by
  induction h with
  | @last state b hstep =>
      intro limit i rest hlen
      obtain ⟨limit, rfl⟩ := Nat.exists_eq_add_of_le' hlen
      change seqLenGo (limit + 1) state i (b :: rest) = i + 1
      rw [seqLenGo_cons, hstep, if_neg (by decide), if_pos rfl]
  | @more state b bs haccept hreject _ ih =>
      intro limit i rest hlen
      rw [List.length_cons] at hlen
      obtain ⟨limit, rfl⟩ := Nat.exists_eq_add_of_le' (Nat.le_of_add_left_le hlen)
      have hrest : seqLenGo limit (dfaStep state b) (i + 1) (bs ++ rest) = i + 1 + bs.length :=
        ih (i + 1) rest (by omega)
      rw [List.cons_append, seqLenGo_cons, if_neg hreject, if_neg haccept, hrest,
        List.length_cons]
      omega

theorem seqLenGo_pos {limit state i : Nat} {p : List UInt8} (h : seqLenGo limit state i p ≠ 0) :
    ∃ bs rest, p = bs ++ rest ∧ Completes state bs ∧ seqLenGo limit state i p = i + bs.length := by
  induction limit generalizing state i p with
  | zero => exact absurd rfl h
  | succ limit ih =>
      cases p with
      | nil => exact absurd rfl h
      | cons b p =>
          rw [seqLenGo_cons] at h ⊢
          by_cases hreject : dfaStep state b = 12
          · exact absurd (if_pos hreject) h
          · rw [if_neg hreject] at h ⊢
            by_cases haccept : dfaStep state b = 0
            · exact ⟨[b], p, rfl, .last haccept, if_pos haccept⟩
            · rw [if_neg haccept] at h ⊢
              obtain ⟨bs, rest, rfl, hbs, hlen⟩ := ih h
              refine ⟨b :: bs, rest, rfl, .more haccept hreject hbs, ?_⟩
              rw [hlen, List.length_cons]
              omega

/-! ### What completes a sequence -/

variable {state lo hi next : Nat} {bs : List UInt8}

theorem completes_last (h : (state, lo, hi, 0) ∈ tailStates) :
    Completes state bs ↔ ∃ b : UInt8, bs = [b] ∧ lo ≤ b.toNat ∧ b.toNat < hi := by
  constructor
  · intro hbs
    cases hbs with
    | @last _ b hstep =>
        rw [dfaStep_tail h] at hstep
        split at hstep
        · exact ⟨b, rfl, ‹_›⟩
        · cases hstep
    | more haccept hreject _ =>
        rw [dfaStep_tail h] at haccept hreject
        split at haccept
        · exact absurd rfl haccept
        · rw [if_neg ‹_›] at hreject
          exact absurd rfl hreject
  · rintro ⟨b, rfl, hb⟩
    apply Completes.last
    rw [dfaStep_tail h, if_pos hb]

theorem completes_more (h : (state, lo, hi, next) ∈ tailStates) (h0 : next ≠ 0)
    (h12 : next ≠ 12) :
    Completes state bs ↔
      ∃ (b : UInt8) (t : List UInt8), bs = b :: t ∧ (lo ≤ b.toNat ∧ b.toNat < hi) ∧
        Completes next t := by
  constructor
  · intro hbs
    cases hbs with
    | last hstep =>
        rw [dfaStep_tail h] at hstep
        split at hstep
        · exact absurd hstep h0
        · cases hstep
    | @more _ b t _ hreject ht =>
        rw [dfaStep_tail h] at hreject ht
        split at hreject
        · rw [if_pos ‹_›] at ht
          exact ⟨b, t, rfl, ‹_›, ht⟩
        · exact absurd rfl hreject
  · rintro ⟨b, t, rfl, hb, ht⟩
    have hstep : dfaStep state b = next := by rw [dfaStep_tail h, if_pos hb]
    exact .more (hstep ▸ h0) (hstep ▸ h12) (hstep ▸ ht)

theorem completes_24 : Completes 24 bs ↔ ∃ b, bs = [b] ∧ Lib.Tail b :=
  completes_last (by decide)

theorem completes_36 : Completes 36 bs ↔ ∃ b c, bs = [b, c] ∧ Lib.Tail b ∧ Lib.Tail c := by
  rw [completes_more row_36 (by decide) (by decide)]
  simp only [completes_24]
  constructor
  · rintro ⟨b, _, rfl, hb, c, rfl, hc⟩
    exact ⟨b, c, rfl, hb, hc⟩
  · rintro ⟨b, c, rfl, hb, hc⟩
    exact ⟨b, [c], rfl, hb, c, rfl, hc⟩

/-- After the lead byte of a longer sequence. -/
theorem completes_lead {a : UInt8} {t : List UInt8} (h0 : leadState a.toNat ≠ 0) :
    Completes 0 (a :: t) ↔ leadState a.toNat ≠ 12 ∧ Completes (leadState a.toNat) t := by
  rw [← dfaStep_lead] at h0 ⊢
  constructor
  · intro h
    cases h with
    | last hstep => exact absurd hstep h0
    | more _ hreject ht => exact ⟨hreject, ht⟩
  · rintro ⟨hreject, ht⟩
    exact .more h0 hreject ht

theorem completes_encoding {bs : List UInt8} (h : Encoding bs) : Completes 0 bs := by
  cases h with
  | @one a ha =>
      apply Completes.last
      rw [dfaStep_lead, leadState, if_pos ha]
  | @two a b hlo hhi hb =>
      have hlead : leadState a.toNat = 24 := by
        unfold leadState
        grind
      rw [completes_lead (by rw [hlead]; decide), hlead]
      exact ⟨by decide, completes_24.mpr ⟨b, rfl, hb⟩⟩
  | @three a b c hlo hhi hb hc hover hsur =>
      have hlead : leadState a.toNat =
          if a.toNat = 0xE0 then 48 else if a.toNat = 0xED then 60 else 36 := by
        unfold leadState
        grind
      rw [completes_lead (by rw [hlead]; grind), hlead]
      refine ⟨by grind, ?_⟩
      by_cases h48 : a.toNat = 0xE0
      · rw [if_pos h48]
        exact (completes_more row_48 (by decide) (by decide)).mpr
          ⟨b, [c], rfl, ⟨hover h48, hb.2⟩, completes_24.mpr ⟨c, rfl, hc⟩⟩
      · rw [if_neg h48]
        by_cases h60 : a.toNat = 0xED
        · rw [if_pos h60]
          exact (completes_more row_60 (by decide) (by decide)).mpr
            ⟨b, [c], rfl, ⟨hb.1, hsur h60⟩, completes_24.mpr ⟨c, rfl, hc⟩⟩
        · rw [if_neg h60]
          exact completes_36.mpr ⟨b, c, rfl, hb, hc⟩
  | @four a b c d hlo hhi hb hc hd hover hlast =>
      have hlead : leadState a.toNat =
          if a.toNat = 0xF0 then 72 else if a.toNat = 0xF4 then 96 else 84 := by
        unfold leadState
        grind
      have htail : Completes 36 [c, d] := completes_36.mpr ⟨c, d, rfl, hc, hd⟩
      rw [completes_lead (by rw [hlead]; grind), hlead]
      refine ⟨by grind, ?_⟩
      by_cases h72 : a.toNat = 0xF0
      · rw [if_pos h72]
        exact (completes_more row_72 (by decide) (by decide)).mpr
          ⟨b, [c, d], rfl, ⟨hover h72, hb.2⟩, htail⟩
      · rw [if_neg h72]
        by_cases h96 : a.toNat = 0xF4
        · rw [if_pos h96]
          exact (completes_more row_96 (by decide) (by decide)).mpr
            ⟨b, [c, d], rfl, ⟨hb.1, hlast h96⟩, htail⟩
        · rw [if_neg h96]
          exact (completes_more row_84 (by decide) (by decide)).mpr
            ⟨b, [c, d], rfl, hb, htail⟩

/-- The states a lead byte leads to, read back as ranges of that byte. -/
theorem leadState_cases (n : Nat) :
    (leadState n = 0 ∧ n < 0x80) ∨ leadState n = 12 ∨
      (leadState n = 24 ∧ 0xC2 ≤ n ∧ n < 0xE0) ∨
      (leadState n = 48 ∧ n = 0xE0) ∨ (leadState n = 60 ∧ n = 0xED) ∨
      (leadState n = 36 ∧ 0xE0 < n ∧ n < 0xF0 ∧ n ≠ 0xED) ∨
      (leadState n = 72 ∧ n = 0xF0) ∨ (leadState n = 84 ∧ 0xF0 < n ∧ n < 0xF4) ∨
      (leadState n = 96 ∧ n = 0xF4) := by
  unfold leadState
  grind

theorem encoding_completes {bs : List UInt8} (h : Completes 0 bs) : Encoding bs := by
  cases bs with
  | nil => cases h
  | cons a t =>
      by_cases h0 : leadState a.toNat = 0
      · have ha : a.toNat < 0x80 := by
          rcases leadState_cases a.toNat with h | h | h | h | h | h | h | h | h <;> omega
        cases h with
        | last _ => exact .one ha
        | more haccept _ _ => exact absurd (by rw [dfaStep_lead, h0]) haccept
      · obtain ⟨h12, ht⟩ := (completes_lead h0).mp h
        rcases leadState_cases a.toNat with ⟨hs, _⟩ | hs | ⟨hs, hlo, hhi⟩ | ⟨hs, ha⟩ | ⟨hs, ha⟩ |
          ⟨hs, hlo, hhi, hne⟩ | ⟨hs, ha⟩ | ⟨hs, hlo, hhi⟩ | ⟨hs, ha⟩
        · exact absurd hs h0
        · exact absurd hs h12
        · rw [hs, completes_24] at ht
          obtain ⟨b, rfl, hb⟩ := ht
          exact .two hlo hhi hb
        · rw [hs, completes_more row_48 (by decide) (by decide)] at ht
          obtain ⟨b, t, rfl, hb, ht⟩ := ht
          obtain ⟨c, rfl, hc⟩ := completes_24.mp ht
          exact .three (by omega) (by omega) ⟨by omega, hb.2⟩ hc (fun _ => hb.1) (by omega)
        · rw [hs, completes_more row_60 (by decide) (by decide)] at ht
          obtain ⟨b, t, rfl, hb, ht⟩ := ht
          obtain ⟨c, rfl, hc⟩ := completes_24.mp ht
          exact .three (by omega) (by omega) ⟨hb.1, by omega⟩ hc (by omega) (fun _ => hb.2)
        · rw [hs] at ht
          obtain ⟨b, c, rfl, hb, hc⟩ := completes_36.mp ht
          exact .three (by omega) hhi hb hc (by omega) (by omega)
        · rw [hs, completes_more row_72 (by decide) (by decide)] at ht
          obtain ⟨b, t, rfl, hb, ht⟩ := ht
          obtain ⟨c, d, rfl, hc, hd⟩ := completes_36.mp ht
          exact .four (by omega) (by omega) ⟨by omega, hb.2⟩ hc hd (fun _ => hb.1) (by omega)
        · rw [hs, completes_more row_84 (by decide) (by decide)] at ht
          obtain ⟨b, t, rfl, hb, ht⟩ := ht
          obtain ⟨c, d, rfl, hc, hd⟩ := completes_36.mp ht
          exact .four (by omega) (by omega) hb hc hd (by omega) (by omega)
        · rw [hs, completes_more row_96 (by decide) (by decide)] at ht
          obtain ⟨b, t, rfl, hb, ht⟩ := ht
          obtain ⟨c, d, rfl, hc, hd⟩ := completes_36.mp ht
          exact .four (by omega) (by omega) ⟨hb.1, by omega⟩ hc hd (by omega) (fun _ => hb.2)

/-- The decoder accepts, from its first state, exactly the encodings of code points. -/
theorem completes_start : Completes 0 bs ↔ ∃ c, String.utf8EncodeChar c = bs := by
  rw [← encoding_iff]
  exact ⟨encoding_completes, completes_encoding⟩

theorem wokUtf8SeqLen_encode (c : Char) (rest : List UInt8) :
    wokUtf8SeqLen (String.utf8EncodeChar c ++ rest) = (String.utf8EncodeChar c).length := by
  have hlen := (encoding_utf8EncodeChar c).length.2
  have hrun := seqLenGo_completes (completes_start.mpr ⟨c, rfl⟩) 0 rest hlen
  rw [wokUtf8SeqLen, utf8Accept, hrun, Nat.zero_add]

theorem wokUtf8SeqLen_pos {p : List UInt8} (h : wokUtf8SeqLen p ≠ 0) :
    ∃ c rest, p = String.utf8EncodeChar c ++ rest ∧
      wokUtf8SeqLen p = (String.utf8EncodeChar c).length := by
  obtain ⟨bs, rest, hp, hbs, hlen⟩ := seqLenGo_pos h
  obtain ⟨c, rfl⟩ := completes_start.mp hbs
  refine ⟨c, rest, hp, ?_⟩
  rw [wokUtf8SeqLen, hlen, Nat.zero_add]

/-! ### The fast path -/

theorem loadWord_toNat {bs : List UInt8} (h : bs.length ≤ 8) : (loadWord bs).toNat = leNat bs :=
  toNat_packed h

/-- No byte of a block has its high bit set when the mask leaves nothing of the word. -/
theorem block_ascii {b0 b1 b2 b3 b4 b5 b6 b7 : UInt8}
    (h : loadWord [b0, b1, b2, b3, b4, b5, b6, b7] &&& highBits = 0) :
    ∀ b ∈ [b0, b1, b2, b3, b4, b5, b6, b7], b.toNat < 0x80 := by
  obtain ⟨w, hw⟩ : ∃ w, w = loadWord [b0, b1, b2, b3, b4, b5, b6, b7] := ⟨_, rfl⟩
  have hnat : w.toNat = leNat [b0, b1, b2, b3, b4, b5, b6, b7] := by
    rw [hw]
    exact loadWord_toNat (Nat.le_refl 8)
  have hand : w.toNat &&& highBits.toNat = 0 := by
    rw [← UInt64.toNat_and, hw, h]
    rfl
  have hbit : ∀ i, highBits.toNat.testBit i = true → w.toNat / 2 ^ i % 2 = 0 := by
    intro i hi
    have hzero : (w.toNat &&& highBits.toNat).testBit i = false := by rw [hand, Nat.zero_testBit]
    rw [Nat.testBit_and, hi, Bool.and_true, Nat.testBit_eq_decide_div_mod_eq] at hzero
    have := of_decide_eq_false hzero
    omega
  have h0 := hbit 7 (by decide)
  have h1 := hbit 15 (by decide)
  have h2 := hbit 23 (by decide)
  have h3 := hbit 31 (by decide)
  have h4 := hbit 39 (by decide)
  have h5 := hbit 47 (by decide)
  have h6 := hbit 55 (by decide)
  have h7 := hbit 63 (by decide)
  have l0 := b0.toNat_lt
  have l1 := b1.toNat_lt
  have l2 := b2.toNat_lt
  have l3 := b3.toNat_lt
  have l4 := b4.toNat_lt
  have l5 := b5.toNat_lt
  have l6 := b6.toNat_lt
  have l7 := b7.toNat_lt
  simp only [leNat_cons, leNat_nil] at hnat
  simp only [List.forall_mem_cons, List.not_mem_nil, false_imp_iff, implies_true, and_true]
  refine ⟨?_, ?_, ?_, ?_, ?_, ?_, ?_, ?_⟩ <;> omega

/-- The fast path goes over ASCII bytes only. -/
theorem skipAscii_spec (p : List UInt8) (i : Nat) :
    ∃ pre, p = pre ++ (skipAscii p i).1 ∧ (skipAscii p i).2 = i + pre.length ∧
      ∀ b ∈ pre, b.toNat < 0x80 := by
  fun_induction skipAscii p i with
  | case1 => exact ⟨[], rfl, rfl, by simp⟩
  | case2 b0 b1 b2 b3 b4 b5 b6 b7 p i hmask ih =>
      obtain ⟨pre, hp, hi, hpre⟩ := ih
      have hzero : loadWord [b0, b1, b2, b3, b4, b5, b6, b7] &&& highBits = 0 := by
        simpa using hmask
      refine ⟨[b0, b1, b2, b3, b4, b5, b6, b7] ++ pre, ?_, ?_, ?_⟩
      · rw [List.append_assoc, ← hp]
        rfl
      · rw [hi, List.length_append]
        simp only [List.length_cons, List.length_nil]
        omega
      · intro b hb
        rcases List.mem_append.mp hb with hb | hb
        · exact block_ascii hzero b hb
        · exact hpre b hb
  | case3 => exact ⟨[], rfl, rfl, by simp⟩

/-! ### The search -/

theorem findInvalidGo_stopsAt (n : Nat) (p : List UInt8) (i : Nat) (hn : i + p.length = n) :
    ∃ k, findInvalidGo n p i = i + k ∧ StopsAt p k := by
  fun_induction findInvalidGo n p i with
  | case1 p i j hskip =>
      obtain ⟨pre, hp, hi, hpre⟩ := skipAscii_spec p i
      rw [hskip] at hp
      refine ⟨0 + pre.length, ?_, hp ▸ StopsAt.done.asciis hpre⟩
      rw [hp, List.length_append, List.length_nil] at hn
      omega
  | case2 p i b q j hskip hb ih =>
      obtain ⟨pre, hp, hi, hpre⟩ := skipAscii_spec p i
      rw [hskip] at hp hi
      rw [hp, List.length_append, List.length_cons] at hn
      obtain ⟨k, hk, hstop⟩ := ih (by simp only at hi; omega)
      refine ⟨k + 1 + pre.length, ?_, hp ▸ (hstop.ascii (UInt8.lt_iff_toNat_lt.mp hb)).asciis hpre⟩
      rw [hk]
      simp only at hi
      omega
  | case3 p i b q j hskip hb hseq =>
      obtain ⟨pre, hp, hi, hpre⟩ := skipAscii_spec p i
      rw [hskip] at hp hi
      have hstuck : StopsAt (b :: q) 0 := by
        refine .stuck (List.cons_ne_nil b q) ?_
        rintro c ⟨rest, hrest⟩
        have hlen := wokUtf8SeqLen_encode c rest
        rw [hrest, hseq] at hlen
        exact absurd hlen.symm (Nat.ne_of_gt (encoding_utf8EncodeChar c).length.1)
      refine ⟨0 + pre.length, ?_, hp ▸ hstuck.asciis hpre⟩
      simp only at hi
      omega
  | case4 p i b q j hskip hb hseq ih =>
      obtain ⟨pre, hp, hi, hpre⟩ := skipAscii_spec p i
      rw [hskip] at hp hi
      obtain ⟨c, rest, hq, hlen⟩ := wokUtf8SeqLen_pos hseq
      have hdrop : (b :: q).drop (wokUtf8SeqLen (b :: q)) = rest := by
        rw [hlen, hq, List.drop_left]
      rw [hp, List.length_append, hq, List.length_append] at hn
      simp only at hi
      obtain ⟨k, hk, hstop⟩ := ih (by rw [hdrop]; omega)
      rw [hdrop] at hstop
      refine ⟨(String.utf8EncodeChar c).length + k + pre.length, ?_, ?_⟩
      · rw [hk]
        omega
      · rw [hp, hq]
        exact (StopsAt.char c hstop).asciis hpre

theorem findInvalid_stopsAt (p : List UInt8) : StopsAt p (wokUtf8FindInvalid p) := by
  obtain ⟨k, hk, hstop⟩ := findInvalidGo_stopsAt p.length p 0 (Nat.zero_add _)
  rw [wokUtf8FindInvalid, hk, Nat.zero_add]
  exact hstop

/-- A character at the front is read with its own length, so decoding stops at one place only. -/
theorem stopsAt_unique {p : List UInt8} {i j : Nat} (hi : StopsAt p i) (hj : StopsAt p j) :
    i = j := by
  induction hi generalizing j with
  | done =>
      generalize hp : ([] : List UInt8) = p at hj
      cases hj with
      | done => rfl
      | stuck hne _ => exact absurd hp.symm hne
      | char c _ =>
          have := (encoding_utf8EncodeChar c).length.1
          have := congrArg List.length hp
          simp only [List.length_nil, List.length_append] at this
          omega
  | stuck hne hnone =>
      cases hj with
      | done => rfl
      | stuck _ _ => rfl
      | char c _ => exact absurd (List.prefix_append _ _) (hnone c)
  | @char rest i c _ ih =>
      generalize hp : String.utf8EncodeChar c ++ rest = p at hj
      cases hj with
      | done =>
          have := (encoding_utf8EncodeChar c).length.1
          have := congrArg List.length hp
          simp only [List.length_nil, List.length_append] at this
          omega
      | stuck _ hnone => exact absurd ⟨rest, hp⟩ (hnone c)
      | @char rest' j c' hj =>
          have hlen : (String.utf8EncodeChar c).length = (String.utf8EncodeChar c').length := by
            rw [← wokUtf8SeqLen_encode c rest, hp, wokUtf8SeqLen_encode]
          obtain ⟨_, rfl⟩ := List.append_inj hp hlen
          rw [hlen, ih hj]

/-! ### The runtime -/

/-- The runtime steps by a table with the same entries. -/
theorem validateGo_cons (state : Nat) (b : UInt8) (bytes : List UInt8) :
    Runtime.validateGo state (b :: bytes) =
      if dfaStep state b = 12 then 0 else Runtime.validateGo (dfaStep state b) bytes := by
  have htable : Runtime.wokUtf8d = utf8d := by decide +kernel
  rw [Runtime.validateGo, htable]
  rfl

theorem validateGo_completes {state : Nat} {bs : List UInt8} (h : Completes state bs)
    (rest : List UInt8) : Runtime.validateGo state (bs ++ rest) = Runtime.validateGo 0 rest := by
  induction h with
  | last hstep =>
      rw [List.singleton_append, validateGo_cons, hstep, if_neg (by decide)]
  | more _ hreject _ ih =>
      rw [List.cons_append, validateGo_cons, if_neg hreject, ih]

/-- What is accepted from a state begins with bytes that complete a sequence. -/
theorem validateGo_accepts {state : Nat} {p : List UInt8} (h : Runtime.validateGo state p = 1) :
    (state = 0 ∧ p = []) ∨
      ∃ bs rest, p = bs ++ rest ∧ Completes state bs ∧ Runtime.validateGo 0 rest = 1 := by
  induction p generalizing state with
  | nil =>
      left
      rw [Runtime.validateGo] at h
      split at h
      · exact ⟨‹_›, rfl⟩
      · cases h
  | cons b p ih =>
      right
      rw [validateGo_cons] at h
      by_cases hreject : dfaStep state b = 12
      · rw [if_pos hreject] at h
        cases h
      · rw [if_neg hreject] at h
        by_cases haccept : dfaStep state b = 0
        · rw [haccept] at h
          exact ⟨[b], p, rfl, .last haccept, h⟩
        · rcases ih h with ⟨h0, _⟩ | ⟨bs, rest, rfl, hbs, hrest⟩
          · exact absurd h0 haccept
          · exact ⟨b :: bs, rest, rfl, .more haccept hreject hbs, hrest⟩

theorem wokValidateUtf8_iff (p : List UInt8) :
    Runtime.wokValidateUtf8 p = 1 ↔ StopsAt p p.length := by
  constructor
  · intro h
    induction hn : p.length using Nat.strong_induction_on generalizing p with
    | _ n ih =>
        rcases validateGo_accepts h with ⟨_, rfl⟩ | ⟨bs, rest, rfl, hbs, hrest⟩
        · rw [← hn]
          exact .done
        · obtain ⟨c, rfl⟩ := completes_start.mp hbs
          have hpos := (encoding_utf8EncodeChar c).length.1
          rw [List.length_append] at hn
          rw [← hn]
          exact .char c (ih rest.length (by omega) rest hrest rfl)
  · intro h
    generalize hn : p.length = n at h
    induction h with
    | done => rfl
    | stuck hne _ => exact absurd (List.eq_nil_of_length_eq_zero hn) hne
    | @char rest i c _ ih =>
        rw [List.length_append] at hn
        rw [Runtime.wokValidateUtf8, validateGo_completes (completes_start.mpr ⟨c, rfl⟩) rest]
        exact ih (by omega)

/-- The search stops exactly where decoding code point by code point does, and the runtime
accepts exactly the strings that the search finds nothing in. -/
theorem utf8_agree (p : List UInt8) :
    (∀ i, StopsAt p i ↔ i = wokUtf8FindInvalid p) ∧
    (Runtime.wokValidateUtf8 p = 1 ↔ wokUtf8FindInvalid p = p.length) := by
  have hstops : ∀ i, StopsAt p i ↔ i = wokUtf8FindInvalid p := by
    intro i
    constructor
    · intro h
      exact stopsAt_unique h (findInvalid_stopsAt p)
    · rintro rfl
      exact findInvalid_stopsAt p
  refine ⟨hstops, ?_⟩
  rw [wokValidateUtf8_iff, hstops, eq_comm]

end Wok.Grammar
