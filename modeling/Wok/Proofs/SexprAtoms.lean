/-
Module: Wok.Proofs.SexprAtoms
Purpose: What the reader of s-expressions does on blanks, brackets, words, literals, numbers
  and bits: its results, and that it reads what the writer writes.
Imports: Wok.Spec.Sexpr
Trusted boundary: none
Main exports: expectChar_eq_ok, wordElse_eq_ok, expectChar_reads, wordElse_run,
  decodeString_escape, readStringLit_reads, readUintField_reads, readFlagField_reads
-/
import Wok.Spec.Sexpr

namespace Wok.Grammar

open Wok.Lib
open Wok.Lib.Scanner

variable {c : UInt8} {what ws w i i' rest : List UInt8} {s s' : Reader}
  {atEnd : UInt32 → WokDiag} {other : UInt32 → UInt8 → WokDiag}

/-! ### Results -/

theorem skipWs_run : skipWs i s = .ok ((), i.dropWhile isWs, s) := rfl

theorem pos_run : pos i s = .ok (UInt32.ofNat (s.n - i.length), i, s) := rfl

theorem peekIs_run :
    peekIs c i s = .ok (decide ((i.dropWhile isWs).head? = some c), i.dropWhile isWs, s) := rfl

theorem readWord_run :
    readWord i s =
      .ok (if (i.dropWhile isWs).takeWhile (fun c => !isDelim c) = [] then none
          else some (UInt32.ofNat (s.n - (i.dropWhile isWs).length),
            (i.dropWhile isWs).takeWhile fun c => !isDelim c),
        (i.dropWhile isWs).dropWhile (fun c => !isDelim c), s) := rfl

theorem fault_ne_ok {α : Type} {code : WokDiagCode} {off len : UInt32} {msg : List UInt8}
    {r : α × List UInt8 × Reader} : (fault code off len msg : Read α) i s ≠ .ok r := by
  intro h
  cases h

/-- A fault at the current place is no result. -/
theorem posFault_ne_ok {α : Type} {code : WokDiagCode} {len : UInt32} {msg : List UInt8}
    {r : α × List UInt8 × Reader} :
    (pos >>= fun off => (fault code off len msg : Read α)) i s ≠ .ok r := by
  intro h
  cases h

theorem expectChar_eq_ok :
    expectChar c what i s = .ok ((), i', s') ↔ i.dropWhile isWs = c :: i' ∧ s' = s := by
  unfold expectChar
  rw [bind_run skipWs_run, bind_run input_run]
  cases i.dropWhile isWs with
  | nil =>
      constructor
      · intro h
        cases h
      · rintro ⟨h, _⟩
        cases h
  | cons b bs =>
      by_cases hb : b = c
      · subst hb
        simp only [if_true, seek_run]
        constructor
        · intro h
          cases h
          exact ⟨rfl, rfl⟩
        · rintro ⟨h, rfl⟩
          cases h
          rfl
      · simp only [hb, if_false]
        constructor
        · intro h
          cases h
        · rintro ⟨h, _⟩
          cases h
          exact absurd rfl hb

theorem wordElse_eq_ok {off : UInt32} :
    wordElse atEnd other i s = .ok ((off, w), i', s') ↔
      off = UInt32.ofNat (s.n - (i.dropWhile isWs).length) ∧
        w = (i.dropWhile isWs).takeWhile (fun c => !isDelim c) ∧ w ≠ [] ∧
          i' = (i.dropWhile isWs).dropWhile (fun c => !isDelim c) ∧ s' = s := by
  unfold wordElse
  rw [bind_run readWord_run]
  by_cases hw : (i.dropWhile isWs).takeWhile (fun c => !isDelim c) = []
  · simp only [hw, if_true]
    rw [bind_run pos_run, bind_run input_run]
    constructor
    · intro h
      cases hrest : (i.dropWhile isWs).dropWhile (fun c => !isDelim c) with
      | nil =>
          rw [hrest] at h
          cases h
      | cons b bs =>
          rw [hrest] at h
          cases h
    · rintro ⟨_, rfl, hne, _⟩
      exact absurd rfl hne
  · simp only [hw, if_false, pure_run]
    constructor
    · intro h
      cases h
      exact ⟨rfl, rfl, hw, rfl, rfl⟩
    · rintro ⟨rfl, rfl, _, rfl, rfl⟩
      rfl

/-! ### Reading back blanks, brackets and words -/

def Blank (ws : List UInt8) : Prop := ∀ b ∈ ws, isWs b = true

theorem blank_nil : Blank [] := by simp [Blank]

/-- The input is at its end or goes on with a delimiter. -/
def Stops (rest : List UInt8) : Prop := ∀ b ∈ rest.head?, isDelim b = true

structure IsWord (w : List UInt8) : Prop where
  nonempty : w ≠ []
  solid : ∀ b ∈ w, isDelim b = false

theorem isWord_of_all {w : List UInt8} (hne : w ≠ [])
    (hall : (w.all fun b => ! isDelim b) = true) : IsWord w :=
  ⟨hne, fun b hb => by simpa using List.all_eq_true.mp hall b hb⟩

theorem isWs_of_not_delim (h : isDelim c = false) : isWs c = false := by
  unfold isDelim at h
  simp only [Bool.or_eq_false_iff] at h
  exact h.2

theorem dropWs_blank (hws : Blank ws) : (ws ++ i).dropWhile isWs = i.dropWhile isWs :=
  List.dropWhile_append_of_pos hws

theorem dropWs_solid (h : ∀ b ∈ i.head?, isWs b = false) : i.dropWhile isWs = i := by
  cases i with
  | nil => rfl
  | cons b bs => exact List.dropWhile_cons_of_neg (by simp [h b rfl])

theorem dropWs_bracket (hws : Blank ws) (hc : isWs c = false) :
    (ws ++ c :: rest).dropWhile isWs = c :: rest := by
  rw [dropWs_blank hws]
  exact dropWs_solid fun b hb => by
    cases hb
    exact hc

theorem expectChar_reads (hws : Blank ws) (hc : isWs c = false) :
    Reads (expectChar c what) s (ws ++ [c]) () s fun _ => True := by
  intro rest _
  rw [List.append_assoc]
  exact expectChar_eq_ok.mpr ⟨dropWs_bracket hws hc, rfl⟩

theorem IsWord.dropWs (hw : IsWord w) (hws : Blank ws) :
    (ws ++ (w ++ rest)).dropWhile isWs = w ++ rest := by
  rw [dropWs_blank hws]
  refine dropWs_solid fun b hb => ?_
  cases w with
  | nil => exact absurd rfl hw.nonempty
  | cons b' w =>
      cases hb
      exact isWs_of_not_delim (hw.solid b List.mem_cons_self)

theorem wordElse_run (hws : Blank ws) (hw : IsWord w) (hrest : Stops rest) :
    wordElse atEnd other (ws ++ (w ++ rest)) s =
      .ok ((UInt32.ofNat (s.n - (w ++ rest).length), w), rest, s) := by
  have hsolid : ∀ b ∈ w, (!isDelim b) = true := fun b hb => by simp [hw.solid b hb]
  have hstop : ∀ b ∈ rest.head?, (!isDelim b) = false := fun b hb => by simp [hrest b hb]
  refine wordElse_eq_ok.mpr ⟨?_, ?_, hw.nonempty, ?_, rfl⟩
  · rw [hw.dropWs hws]
  · rw [hw.dropWs hws, takeWhile_append_stop hsolid hstop]
  · rw [hw.dropWs hws, dropWhile_append_stop hsolid hstop]

/-! ### Literals -/

/-- The literal of a list of bytes. -/
def quoted (bs : List UInt8) : List UInt8 := ch '"' :: bs.flatMap escape ++ [ch '"']

theorem hexEscape_value : ∀ c : UInt8, c < 0x20 →
    ∃ hi lo, hexDigit (hexUpper (c.toNat / 16)) = some hi ∧
      hexDigit (hexUpper (c.toNat % 16)) = some lo ∧ UInt8.ofNat ((hi <<< 4) ||| lo) = c := by
  intro c hc
  have hlt : c.toNat < 32 := hc
  have hall : ∀ k < 32, ∃ hi < 16, ∃ lo < 16, hexDigit (hexUpper (k / 16)) = some hi ∧
      hexDigit (hexUpper (k % 16)) = some lo ∧ (hi <<< 4) ||| lo = k := by
    decide +kernel
  obtain ⟨hi, _, lo, _, hhi, hlo, hval⟩ := hall c.toNat hlt
  refine ⟨hi, lo, hhi, hlo, ?_⟩
  rw [hval]
  simp

section

variable {n : Nat} {start : UInt32}

theorem decodeString_quote : decodeString n start (ch '"' :: i) = .ok ([], i) := by
  rw [decodeString.eq_def]
  rfl

theorem decodeString_plain (hquote : c ≠ ch '"') (hback : c ≠ ch '\\') :
    decodeString n start (c :: i) = decoded c (decodeString n start i) := by
  rw [decodeString.eq_def]
  simp only [hquote, hback, if_false]

theorem decodeString_short {e d : UInt8} (he : e ≠ ch 'x') (hd : unescape e = some d) :
    decodeString n start (ch '\\' :: e :: i) = decoded d (decodeString n start i) := by
  have hquote : ch '\\' ≠ ch '"' := by decide
  rw [decodeString.eq_def]
  simp only [hquote, he, hd, if_true, if_false]

theorem decodeString_hex {h l : UInt8} {hi lo : Nat} (hh : hexDigit h = some hi)
    (hl : hexDigit l = some lo) :
    decodeString n start (ch '\\' :: ch 'x' :: h :: l :: i) =
      decoded (UInt8.ofNat ((hi <<< 4) ||| lo)) (decodeString n start i) := by
  have hquote : ch '\\' ≠ ch '"' := by decide
  rw [decodeString.eq_def]
  simp only [hquote, hh, hl, if_true, if_false]

/-- What the writer writes for a byte is decoded as that byte. -/
theorem decodeString_escape :
    decodeString n start (escape c ++ i) = decoded c (decodeString n start i) := by
  unfold escape
  split_ifs with h₁ h₂ h₃ h₄ h₅ h₆
  · subst h₁
    exact decodeString_short (by decide) rfl
  · subst h₂
    exact decodeString_short (by decide) rfl
  · subst h₃
    exact decodeString_short (e := ch 'n') (by decide) rfl
  · subst h₄
    exact decodeString_short (e := ch 't') (by decide) rfl
  · subst h₅
    exact decodeString_short (e := ch 'r') (by decide) rfl
  · obtain ⟨hi, lo, hhi, hlo, hval⟩ := hexEscape_value c h₆
    have h : decodeString n start (_ :: _ :: _ :: _ :: i) = _ := decodeString_hex hhi hlo
    rw [hval] at h
    exact h
  · exact decodeString_plain h₂ h₁

theorem decodeString_quoted (bs : List UInt8) :
    decodeString n start (bs.flatMap escape ++ ch '"' :: rest) = .ok (bs, rest) := by
  induction bs with
  | nil => exact decodeString_quote
  | cons b bs ih =>
      rw [List.flatMap_cons, List.append_assoc, decodeString_escape, ih]
      rfl

end

/-- The span of bytes that are putText at the end of a pool. -/
def Reader.span (s : Reader) (bs : List UInt8) : WokSpan :=
  ⟨UInt32.ofNat s.pool.length, UInt32.ofNat bs.length⟩

def Reader.keep (s : Reader) (bs : List UInt8) : Reader := { s with pool := s.pool ++ bs }

theorem readStringLit_reads (bs : List UInt8) (hws : Blank ws) :
    Reads (readStringLit true) s (ws ++ quoted bs) (s.span bs) (s.keep bs) fun _ => True := by
  intro rest _
  have hinput : ws ++ quoted bs ++ rest =
      ws ++ ch '"' :: (bs.flatMap escape ++ ch '"' :: rest) := by
    simp [quoted]
  have hdrop : (ws ++ ch '"' :: (bs.flatMap escape ++ ch '"' :: rest)).dropWhile isWs =
      ch '"' :: (bs.flatMap escape ++ ch '"' :: rest) := dropWs_bracket hws (by decide)
  have hquote : (ch '"' :: (bs.flatMap escape ++ ch '"' :: rest)).dropWhile isWs =
      ch '"' :: (bs.flatMap escape ++ ch '"' :: rest) := rfl
  rw [hinput]
  unfold readStringLit
  rw [bind_run skipWs_run, hdrop, bind_run pos_run,
    bind_run (expectChar_eq_ok.mpr ⟨hquote, rfl⟩), bind_run get_run,
    bind_run input_run]
  simp only [decodeString_quoted]
  rfl

/-! ### Numbers and bits -/

theorem digitValue_digitByte : ∀ d < 10, digitValue (digitByte d) = some d := by
  decide +kernel

theorem isDelim_digitByte : ∀ d < 10, isDelim (digitByte d) = false := by
  decide +kernel

theorem number_isWord (v : Nat) : IsWord (number v) where
  nonempty := by simp [number, decimal_ne_nil]
  solid := by
    intro b hb
    obtain ⟨d, hd, rfl⟩ := List.mem_map.mp hb
    exact isDelim_digitByte d (lt_of_mem_decimal hd)

theorem digitByte_ascii : ∀ d < 10, (digitByte d).toNat < 128 := by
  decide +kernel

theorem number_ascii (v : Nat) : ∀ b ∈ number v, b.toNat < 128 := by
  intro b hb
  obtain ⟨d, hd, rfl⟩ := List.mem_map.mp hb
  exact digitByte_ascii d (lt_of_mem_decimal hd)

theorem readUintField_reads (v : UInt64) (hws : Blank ws) :
    Reads readUintField s (ws ++ number v.toNat) v s Stops := by
  intro rest hrest
  have hlt : v.toNat < 2 ^ 64 := v.toNat_lt
  have hread : readDecimal digitValue uint64Max 0 (number v.toNat) = .ok v.toNat :=
    readDecimal_decimal digitValue_digitByte (by unfold uint64Max; omega)
  rw [List.append_assoc]
  unfold readUintField fieldWord
  rw [bind_run (wordElse_run hws (number_isWord v.toNat) hrest)]
  simp only [hread, pure_run, UInt64.ofNat_toNat]

theorem flag_isWord (b : Bool) : IsWord (if b then bytes "#t" else bytes "#f") := by
  cases b
  · exact isWord_of_all (by decide) (by decide)
  · exact isWord_of_all (by decide) (by decide)

theorem readFlagField_reads (b : Bool) (hws : Blank ws) :
    Reads readFlagField s (ws ++ if b then bytes "#t" else bytes "#f") b s Stops := by
  intro rest hrest
  have hne : bytes "#f" ≠ bytes "#t" := by decide
  rw [List.append_assoc]
  unfold readFlagField fieldWord
  rw [bind_run (wordElse_run hws (flag_isWord b) hrest)]
  cases b with
  | true => simp only [if_true, pure_run]
  | false => simp only [Bool.false_eq_true, if_false, hne, if_true, pure_run]

end Wok.Grammar
