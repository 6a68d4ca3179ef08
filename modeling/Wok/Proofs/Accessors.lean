/-
Module: Wok.Proofs.Accessors
Purpose: The accessors that both builds share, on a cell the ledger knows: what they
  write stays inside the cell, and its header still agrees with the ledger.
Imports: Wok.Proofs.Cells
Trusted boundary: none
Main exports: Inside, held_setRc, wokDup_inside, wokDec_inside, wokSlotSet_inside,
  wokArraySlotSet_inside, wokDataSet_inside, resolve_ok
-/
import Wok.Proofs.Cells

namespace Wok.Runtime

open Wok.Lib

variable {m m' : Memory} {p slot word rc tag arity : Nat} {k : Kind} {st st' : Status}

/-- The memory changed inside the cell at `p` only, which is now as `st'` says. -/
structure Inside (m m' : Memory) (p : Nat) (st st' : Status) : Prop where
  blocks : m'.blocks = m.blocks
  words : ∀ x, (∀ b, st.block p = some b → ¬ b.Has x) → m'.words x = m.words x
  held : Held m'.words p st'

theorem inside_write {a w : Nat} {b : Block} (hb : st.block p = some b) (ha : b.Has a)
    (hheld : Held (m.write a w).words p st') : Inside m (m.write a w) p st st' := by
  refine ⟨rfl, fun x hx => Memory.words_write_of_ne ?_, hheld⟩
  rintro rfl
  exact hx b hb ha

theorem block_has_self (h : 8 ≤ k.size) : (Block.mk p k.size).Has p :=
  ⟨Nat.le_refl p, by simp only; omega⟩

theorem Kind.le_size (k : Kind) : 8 ≤ k.size := by
  have := k.size_eq
  omega

/-- A new count in the header. -/
theorem held_setRc {rc' : Nat} (h : Held m.words p (.counted k rc)) (hrc : rc' < 2 ^ 32) :
    Held (m.write p (setRc rc' (m.words p))).words p (.counted k rc') := by
  have hword : (m.write p (setRc rc' (m.words p))).words p = setRc rc' (m.words p) :=
    Memory.words_write_self
  have hlen : (m.write p (setRc rc' (m.words p))).words (p + 8) = m.words (p + 8) :=
    Memory.words_write_of_ne (by omega)
  refine ⟨h.1, ?_, ?_⟩
  · rw [hword]
    exact rcOf_setRc hrc
  · have hstamp := h.2.2
    cases k <;> simpa only [Stamped, hword, hlen, tagOf_setRc hrc, arityOf_setRc hrc] using hstamp

theorem wokDup_inside (h : Held m.words p (.counted k rc)) :
    Inside m (wokDup p m) p (.counted k rc) (.counted k ((rc + 1) % 2 ^ 32)) := by
  have heq : wokDup p m = m.write p (setRc ((rc + 1) % 2 ^ 32) (m.words p)) := by
    rw [wokDup, h.2.1]
  rw [heq]
  exact inside_write rfl (block_has_self k.le_size)
    (held_setRc h (Nat.mod_lt _ (by decide)))

theorem wokDec_inside (h : Held m.words p (.counted k rc)) (hrc : rc ≠ 0) :
    ∃ m', wokDec p m = .ok m' ∧ Inside m m' p (.counted k rc) (.counted k (rc - 1)) := by
  have hlt : rc < 2 ^ 32 := h.2.1 ▸ rcOf_lt _
  refine ⟨m.write p (setRc (rc - 1) (m.words p)), ?_, ?_⟩
  · rw [wokDec, h.2.1, if_neg hrc]
  · exact inside_write rfl (block_has_self k.le_size) (held_setRc h (by omega))

theorem wokDec_zero (h : Held m.words p (.counted k 0)) : wokDec p m = .error .doubleFree := by
  rw [wokDec, h.2.1, if_pos rfl]

/-- A write after the header and the length leaves both. -/
theorem held_body {w a : Nat} (h : Held m.words p st) (hp : a ≠ p) (hlen : a ≠ p + 8) :
    Held (m.write a w).words p st := by
  have hword : (m.write a w).words p = m.words p := Memory.words_write_of_ne (Ne.symm hp)
  have hlen' : (m.write a w).words (p + 8) = m.words (p + 8) :=
    Memory.words_write_of_ne (Ne.symm hlen)
  cases st with
  | counted k rc =>
      refine ⟨h.1, hword ▸ h.2.1, h.2.2.congr hword fun _ => hlen'⟩
  | arena tag arity scope => simpa only [Held, hword] using h
  | freed k => trivial
  | closed => trivial

/-- A new header on the shell of a node. -/
theorem inside_stamp {tag' : Nat} (htag : ValidTag tag) (harity : arity < 256) :
    Inside m (m.write p (wokHeader 1 tag arity)) p (.counted (.node tag' arity) 0)
      (.counted (.node tag arity) 1) := by
  refine inside_write rfl (block_has_self (Kind.le_size _)) ⟨⟨htag, harity⟩, ?_, ?_, ?_⟩
  · rw [Memory.words_write_self, rcOf_wokHeader (by decide)]
  · rw [Memory.words_write_self, tagOf_wokHeader (by decide)]
    exact Nat.mod_eq_of_lt htag.lt
  · rw [Memory.words_write_self, arityOf_wokHeader (by decide)]
    exact Nat.mod_eq_of_lt harity

/-- A cell that may be written through an accessor for `ofKind`. -/
def Writable (ofKind : Kind → Bool) (slot : Nat) : Status → Prop
  | .counted k _ => ofKind k = true ∧ slot < k.body.2
  | .arena tag arity _ => ofKind (.node tag arity) = true ∧ slot < arity
  | _ => False

theorem wokSlotSet_inside (h : Held m.words p st) (hw : Writable Ledger.isNode slot st) :
    ∃ m', wokSlotSet p slot word m = .ok m' ∧ Inside m m' p st st := by
  refine ⟨m.write (p + 8 + 8 * slot) word, ?_⟩
  have hword : (m.write (p + 8 + 8 * slot) word).words p = m.words p :=
    Memory.words_write_of_ne (by omega)
  cases st with
  | counted k rc =>
      cases k with
      | node tag arity =>
          have hslot : slot < arity := hw.2
          refine ⟨by rw [wokSlotSet, h.2.2.2, if_pos hslot], inside_write rfl ?_ ?_⟩
          · exact ⟨by simp only; omega, by simp only [Kind.size]; omega⟩
          · simpa only [Held, Stamped, hword] using h
      | _ => cases hw.1
  | arena tag arity scope =>
      have hslot : slot < arity := hw.2
      refine ⟨by rw [wokSlotSet, h.2.2, if_pos hslot], inside_write rfl ?_ ?_⟩
      · exact ⟨by simp only; omega, by simp only; omega⟩
      · simpa only [Held, hword] using h
  | freed k => exact hw.elim
  | closed => exact hw.elim

theorem wokArraySlotSet_inside (h : Held m.words p st) (hw : Writable Ledger.isArray slot st) :
    ∃ m', wokArraySlotSet p slot word m = .ok m' ∧ Inside m m' p st st := by
  refine ⟨m.write (p + 16 + 8 * slot) word, ?_⟩
  cases st with
  | counted k rc =>
      cases k with
      | array len =>
          have hslot : slot < len := hw.2
          have hcond : tagOf (m.words p) = wokArrayTag ∧ slot < m.words (p + 8) :=
            ⟨h.2.2.1, h.2.2.2 ▸ hslot⟩
          refine ⟨by rw [wokArraySlotSet, if_pos hcond], inside_write rfl ?_ ?_⟩
          · exact ⟨by simp only; omega, by simp only [Kind.size]; omega⟩
          · exact held_body h (by omega) (by omega)
      | _ => exact absurd hw.1 nofun
  | arena tag arity scope => exact absurd hw.1 nofun
  | freed k => exact hw.elim
  | closed => exact hw.elim

theorem wokDataSet_inside (h : Held m.words p st) (hw : Writable Ledger.isData slot st) :
    ∃ m', wokDataSet p slot word m = .ok m' ∧ Inside m m' p st st := by
  refine ⟨m.write (p + 16 + 8 * slot) word, ?_⟩
  cases st with
  | counted k rc =>
      cases k with
      | string n =>
          have hslot : slot < (n + 7) / 8 := hw.2
          refine ⟨by rw [wokDataSet, if_pos (.inl h.2.2.1)], inside_write rfl ?_ ?_⟩
          · exact ⟨by simp only; omega, by simp only [Kind.size]; omega⟩
          · exact held_body h (by omega) (by omega)
      | bytes n =>
          have hslot : slot < (n + 7) / 8 := hw.2
          refine ⟨by rw [wokDataSet, if_pos (.inr h.2.2.1)], inside_write rfl ?_ ?_⟩
          · exact ⟨by simp only; omega, by simp only [Kind.size]; omega⟩
          · exact held_body h (by omega) (by omega)
      | _ => exact absurd hw.1 nofun
  | arena tag arity scope => exact absurd hw.1 nofun
  | freed k => exact hw.elim
  | closed => exact hw.elim

/-! ### What a valid call says about the ledger -/

namespace Ledger

variable {L : Ledger} {i : Nat} {ofKind : Kind → Bool}

theorem IsCounted.cell (h : L.IsCounted i ofKind) :
    ∃ k rc, L.cells[i]? = some (.counted k rc) ∧ ofKind k = true := by
  simp only [IsCounted] at h
  split at h
  · next k rc hi => exact ⟨k, rc, hi, h⟩
  · exact h.elim

theorem Writes.cell (h : L.Writes ofKind i slot) :
    ∃ st, L.cells[i]? = some st ∧ Writable ofKind slot st := by
  simp only [Writes] at h
  split at h
  · next k rc hi => exact ⟨_, hi, h⟩
  · next tag arity scope hi => exact ⟨_, hi, h⟩
  · exact h.elim

end Ledger

/-- The request that reaches the runtime is of the kind that was asked for. -/
theorem resolve_ok {H : Type} {c : Client H} {L : Ledger} {r : Request}
    (hlen : c.cells.length = L.cells.length) (hr : L.ValidRequest r) :
    ∃ r', c.resolve r = .ok r' ∧ r'.Ok ∧ r'.kind = r.kind ∧ r'.overflow = r.overflow := by
  cases r with
  | node tag arity => exact ⟨_, rfl, hr, rfl, rfl⟩
  | stringView parent off len =>
      rcases hr.1.cell with ⟨k, rc, hi, -⟩
      have hlt : parent < c.cells.length := hlen ▸ (List.getElem?_eq_some_iff.mp hi).1
      refine ⟨.stringView c.cells[parent] off len, ?_, trivial, rfl, rfl⟩
      simp only [Client.resolve, Client.cell, List.getElem?_eq_getElem hlt]
      rfl
  | array len elemkind => exact ⟨_, rfl, trivial, rfl, rfl⟩
  | string n => exact ⟨_, rfl, trivial, rfl, rfl⟩
  | bytes n => exact ⟨_, rfl, trivial, rfl, rfl⟩
  | foreignBytes ptr n => exact ⟨_, rfl, trivial, rfl, rfl⟩
  | borrowView ptr n => exact ⟨_, rfl, trivial, rfl, rfl⟩

end Wok.Runtime
