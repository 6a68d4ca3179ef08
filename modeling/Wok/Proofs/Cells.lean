/-
Module: Wok.Proofs.Cells
Purpose: The size and class of every kind of cell, what its header says and that a free
  reads them back, and the sums over a ledger's cells.
Imports: Mathlib.Algebra.Order.BigOperators.Group.List,
  Mathlib.Algebra.Order.Ring.Nat, Wok.Spec.Ledger
Trusted boundary: none
Main exports: Kind.slabClass, Stamped, Stamped.freeBytes, Stamped.freeClass, Held,
  Request.header, Slab.alloc_eq, RcMalloc.alloc_eq, held_request
-/
import Mathlib.Algebra.Order.BigOperators.Group.List
import Mathlib.Algebra.Order.Ring.Nat
import Wok.Spec.Ledger

namespace Wok.Runtime

open Wok.Lib

/-! ### Classes -/

/-- The class that the slab build computes for a cell when it allocates it. -/
def Kind.slabClass : Kind → Nat
  | .node _ arity => arity
  | .array len => wokArrayClass len
  | .string n => wokStringClass n
  | .bytes n => wokStringClass n
  | .stringView => 3
  | .foreignBytes => 2
  | .borrowView => 2

/-- The lengths of a cell fit the address space together with its header. -/
def Kind.Fits : Kind → Prop
  | .node tag arity => ValidTag tag ∧ arity < 256
  | .array len => len ≤ (sizeMax - 16) / 8
  | .string n => n ≤ sizeMax - 16 - 7
  | .bytes n => n ≤ sizeMax - 16 - 7
  | _ => True

theorem stringWords_eq {n : Nat} (h : n ≤ sizeMax - 16 - 7) :
    (n + 7) % 2 ^ 64 / 8 = (n + 7) / 8 := by
  rw [Nat.mod_eq_of_lt]
  simp only [sizeMax] at h
  omega

namespace Kind

variable {k : Kind}

theorem size_eq (k : Kind) : k.size = 8 + 8 * k.cls := by
  cases k <;> simp only [cls, size] <;> omega

theorem size_pos (k : Kind) : 0 < k.size := by
  rw [size_eq]
  omega

theorem slabClass_of_lt (hfits : k.Fits) (h : k.cls < wokNumClasses) : k.slabClass = k.cls := by
  cases k with
  | node tag arity => simp only [slabClass, cls, size]; omega
  | array len =>
      have hcls : (Kind.array len).cls = len + 1 := by simp only [cls, size]; omega
      rw [hcls] at h ⊢
      exact if_pos (by omega)
  | string n =>
      have hcls : (Kind.string n).cls = (n + 7) / 8 + 1 := by simp only [cls, size]; omega
      rw [hcls] at h ⊢
      simp only [slabClass, wokStringClass, stringWords_eq hfits]
      exact if_pos (by omega)
  | bytes n =>
      have hcls : (Kind.bytes n).cls = (n + 7) / 8 + 1 := by simp only [cls, size]; omega
      rw [hcls] at h ⊢
      simp only [slabClass, wokStringClass, stringWords_eq hfits]
      exact if_pos (by omega)
  | stringView => rfl
  | foreignBytes => rfl
  | borrowView => rfl

theorem le_slabClass (hfits : k.Fits) (h : wokNumClasses ≤ k.cls) :
    wokNumClasses ≤ k.slabClass := by
  cases k with
  | node tag arity =>
      simp only [cls, size] at h
      simp only [slabClass]
      omega
  | array len =>
      have hcls : (Kind.array len).cls = len + 1 := by simp only [cls, size]; omega
      rw [hcls] at h
      simp only [slabClass, wokArrayClass]
      rw [if_neg (by omega)]
  | string n =>
      have hcls : (Kind.string n).cls = (n + 7) / 8 + 1 := by simp only [cls, size]; omega
      rw [hcls] at h
      simp only [slabClass, wokStringClass, stringWords_eq hfits]
      rw [if_neg (by omega)]
  | bytes n =>
      have hcls : (Kind.bytes n).cls = (n + 7) / 8 + 1 := by simp only [cls, size]; omega
      rw [hcls] at h
      simp only [slabClass, wokStringClass, stringWords_eq hfits]
      rw [if_neg (by omega)]
  | stringView => exact absurd h (by decide)
  | foreignBytes => exact absurd h (by decide)
  | borrowView => exact absurd h (by decide)

end Kind

/-! ### Headers -/

/-- The words of the cell at `p` say that it is of kind `k`. -/
def Stamped (words : Nat → Nat) (p : Nat) : Kind → Prop
  | .node tag arity => tagOf (words p) = tag ∧ arityOf (words p) = arity
  | .array len => tagOf (words p) = wokArrayTag ∧ words (p + 8) = len
  | .string n => tagOf (words p) = wokStringTag ∧ words (p + 8) = n
  | .bytes n => tagOf (words p) = wokBytesTag ∧ words (p + 8) = n
  | .stringView => tagOf (words p) = wokStringViewTag
  | .foreignBytes => tagOf (words p) = wokForeignBytesTag
  | .borrowView => tagOf (words p) = wokBorrowViewTag

theorem ValidTag.ne {tag : Nat} (h : ValidTag tag) :
    tag ≠ wokArrayTag ∧ tag ≠ wokStringTag ∧ tag ≠ wokBytesTag ∧ tag ≠ wokStringViewTag ∧
      tag ≠ wokForeignBytesTag ∧ tag ≠ wokBorrowViewTag := by
  simp only [ValidTag, wokBorrowViewTag] at h
  simp only [wokArrayTag, wokStringTag, wokBytesTag, wokStringViewTag, wokForeignBytesTag,
    wokBorrowViewTag]
  omega

section ReadBack

variable {words : Nat → Nat} {p : Nat} {k : Kind}

theorem Stamped.freeBytes (h : Stamped words p k) (hfits : k.Fits) :
    wokFreeBytes words p = .ok k.size := by
  cases k with
  | node tag arity =>
      rcases h with ⟨htag, harity⟩
      rcases hfits.1.ne with ⟨h₁, h₂, h₃, h₄, h₅, h₆⟩
      simp only [wokFreeBytes, htag, harity, h₁, h₂, h₃, h₄, h₅, h₆, if_false, wokCellBytes,
        Kind.size]
      rw [Nat.mul_comm]
  | array len =>
      rcases h with ⟨htag, hlen⟩
      simp only [Kind.Fits] at hfits
      simp only [wokFreeBytes, htag, if_true, hlen, wokArrayCellBytes, Kind.size,
        if_neg (Nat.not_lt.mpr hfits), Nat.mul_comm]
  | string n =>
      rcases h with ⟨htag, hlen⟩
      simp only [Kind.Fits] at hfits
      simp only [wokFreeBytes, htag, hlen, wokStringCellBytes, stringWords_eq hfits,
        if_neg (Nat.not_lt.mpr hfits)]
      rfl
  | bytes n =>
      rcases h with ⟨htag, hlen⟩
      simp only [Kind.Fits] at hfits
      simp only [wokFreeBytes, htag, hlen, wokStringCellBytes, stringWords_eq hfits,
        if_neg (Nat.not_lt.mpr hfits)]
      rfl
  | stringView => simp only [wokFreeBytes, show tagOf (words p) = _ from h]; rfl
  | foreignBytes => simp only [wokFreeBytes, show tagOf (words p) = _ from h]; rfl
  | borrowView => simp only [wokFreeBytes, show tagOf (words p) = _ from h]; rfl

/-- A free computes the class that the allocation computed. -/
theorem Stamped.freeClass (h : Stamped words p k) (hfits : k.Fits) :
    wokFreeClass words p = k.slabClass := by
  cases k with
  | node tag arity =>
      rcases h with ⟨htag, harity⟩
      rcases hfits.1.ne with ⟨h₁, h₂, h₃, h₄, h₅, h₆⟩
      simp only [wokFreeClass, htag, harity, h₁, h₂, h₃, h₄, h₅, h₆, if_false, Kind.slabClass]
  | array len => simp only [wokFreeClass, h.1, h.2, if_true, Kind.slabClass]
  | string n => simp only [wokFreeClass, h.1, h.2, Kind.slabClass]; rfl
  | bytes n => simp only [wokFreeClass, h.1, h.2, Kind.slabClass]; rfl
  | stringView => simp only [wokFreeClass, show tagOf (words p) = _ from h]; rfl
  | foreignBytes => simp only [wokFreeClass, show tagOf (words p) = _ from h]; rfl
  | borrowView => simp only [wokFreeClass, show tagOf (words p) = _ from h]; rfl

end ReadBack

/-- The range of bytes that a cell which is still there has at `p`. -/
def Status.block (p : Nat) : Status → Option Block
  | .counted k _ => some ⟨p, k.size⟩
  | .arena _ arity _ => some ⟨p, 8 + 8 * arity⟩
  | _ => none

/-- The kind that a counted cell has, or had before it was freed. -/
def Status.kind : Status → Option Kind
  | .counted k _ => some k
  | .freed k => some k
  | _ => none

/-- The memory at `p` agrees with the ledger on the cell there. -/
def Held (words : Nat → Nat) (p : Nat) : Status → Prop
  | .counted k rc => k.Fits ∧ rcOf (words p) = rc ∧ Stamped words p k
  | .arena tag arity _ => arity < 256 ∧ tagOf (words p) = tag ∧ arityOf (words p) = arity
  | _ => True

section Writes

variable {words words' : Nat → Nat} {p a w : Nat} {st : Status} {k : Kind}

theorem Stamped.congr (h : Stamped words p k) (hp : words' p = words p)
    (hlen : k.cls ≠ 0 → words' (p + 8) = words (p + 8)) : Stamped words' p k := by
  cases k with
  | node tag arity => simpa only [Stamped, hp] using h
  | array len =>
      have hcls : (Kind.array len).cls ≠ 0 := by simp only [Kind.cls, Kind.size]; omega
      simpa only [Stamped, hp, hlen hcls] using h
  | string n =>
      have hcls : (Kind.string n).cls ≠ 0 := by simp only [Kind.cls, Kind.size]; omega
      simpa only [Stamped, hp, hlen hcls] using h
  | bytes n =>
      have hcls : (Kind.bytes n).cls ≠ 0 := by simp only [Kind.cls, Kind.size]; omega
      simpa only [Stamped, hp, hlen hcls] using h
  | stringView => simpa only [Stamped, hp] using h
  | foreignBytes => simpa only [Stamped, hp] using h
  | borrowView => simpa only [Stamped, hp] using h

/-- A cell keeps its header and length where its own words are kept. -/
theorem Held.congr (h : Held words p st)
    (heq : ∀ b, st.block p = some b → ∀ x, b.Has x → words' x = words x) :
    Held words' p st := by
  cases st with
  | counted k rc =>
      have hb := heq ⟨p, k.size⟩ rfl
      have hsize := k.size_eq
      have hp : words' p = words p := hb p ⟨Nat.le_refl p, by simp only; omega⟩
      refine ⟨h.1, hp ▸ h.2.1, h.2.2.congr hp ?_⟩
      intro hcls
      exact hb (p + 8) ⟨by simp only; omega, by simp only; omega⟩
  | arena tag arity scope =>
      have hp : words' p = words p :=
        heq ⟨p, 8 + 8 * arity⟩ rfl p ⟨Nat.le_refl p, by simp only; omega⟩
      rw [Held, hp]
      exact h
  | freed k => trivial
  | closed => trivial

theorem Held.write (h : Held words p st) (ha : ∀ b, st.block p = some b → ¬ b.Has a) :
    Held (Function.update words a w) p st := by
  apply h.congr
  intro b hb x hx
  apply Function.update_of_ne
  rintro rfl
  exact ha b hb hx

end Writes

/-! ### Lists of cells -/

/-- A cell of a list with one more at the end. -/
theorem getElem?_concat_cases {α : Type*} {l : List α} {x y : α} {i : Nat}
    (h : (l ++ [x])[i]? = some y) : l[i]? = some y ∨ (i = l.length ∧ y = x) := by
  rcases Nat.lt_trichotomy i l.length with hi | hi | hi
  · rw [List.getElem?_append_left hi] at h
    exact .inl h
  · subst hi
    rw [List.getElem?_concat_length] at h
    exact .inr ⟨rfl, (Option.some.inj h).symm⟩
  · rw [List.getElem?_eq_none (by rw [List.length_append, List.length_singleton]; omega)] at h
    cases h

/-- A cell of a list in which one was put in place of another. -/
theorem getElem?_set_cases {α : Type*} {l : List α} {x y : α} {i j : Nat}
    (h : (l.set i x)[j]? = some y) : (j = i ∧ y = x) ∨ (j ≠ i ∧ l[j]? = some y) := by
  by_cases hji : j = i
  · subst hji
    rw [List.getElem?_set_self' ] at h
    cases hl : l[j]? with
    | none => rw [hl] at h; cases h
    | some z => rw [hl] at h; exact .inl ⟨rfl, (Option.some.inj h).symm⟩
  · rw [List.getElem?_set_ne (Ne.symm hji)] at h
    exact .inr ⟨hji, h⟩

theorem set_eq_self {α : Type*} {l : List α} {x : α} {i : Nat} (h : l[i]? = some x) :
    l.set i x = l := by
  rcases List.getElem?_eq_some_iff.mp h with ⟨hi, rfl⟩
  exact List.set_getElem_self hi

/-! ### Requests -/

namespace Request

/-- The header that an allocation writes. -/
def header : Request → Nat
  | .node tag arity => wokHeader 1 tag arity
  | .array _ elemkind => wokHeader 1 wokArrayTag elemkind
  | .string _ => wokHeader 1 wokStringTag 0
  | .bytes _ => wokHeader 1 wokBytesTag 0
  | .stringView .. => wokHeader 1 wokStringViewTag 0
  | .foreignBytes .. => wokHeader 1 wokForeignBytesTag 0
  | .borrowView .. => wokHeader 1 wokBorrowViewTag 0

/-- The words that an allocation writes after the header. -/
def fields : Request → List Nat
  | .node .. => []
  | .array len _ => [len]
  | .string n => [n]
  | .bytes n => [n]
  | .stringView parent off len => [parent, off, len]
  | .foreignBytes ptr n => [ptr, n]
  | .borrowView ptr n => [ptr, n]

/-- The tag and the arity of a node are in their ranges. -/
def Ok : Request → Prop
  | .node tag arity => ValidTag tag ∧ arity < 256
  | _ => True

variable {r : Request}

theorem fits_of_overflow (hok : r.Ok) (h : r.overflow = none) : r.kind.Fits := by
  cases r <;> simp only [Request.overflow, Request.kind, Kind.Fits, Request.Ok] at *
  case node => exact hok
  all_goals
    split at h
    · cases h
    · omega

theorem length_fields (r : Request) : 8 + 8 * r.fields.length ≤ r.kind.size := by
  cases r <;> simp only [fields, kind, Kind.size, List.length_cons, List.length_nil] <;> omega

end Request

theorem ValidTag.lt {tag : Nat} (h : ValidTag tag) : tag < 65536 := by
  simp only [ValidTag, wokBorrowViewTag] at h
  omega

section Fields

variable {m : Memory} {p x : Nat} {ws : List Nat} {r : Request}

@[simp] theorem writeFields_blocks : (writeFields p ws m).blocks = m.blocks := by
  induction ws generalizing p m with
  | nil => rfl
  | cons w ws ih => exact ih

theorem writeFields_words_of_not_has (h : ¬ (Block.mk p (8 * ws.length)).Has x) :
    (writeFields p ws m).words x = m.words x := by
  induction ws generalizing p m with
  | nil => rfl
  | cons w ws ih =>
      simp only [Block.Has, List.length_cons] at h
      have hx : x ≠ p := by omega
      have htail : ¬ (Block.mk (p + 8) (8 * ws.length)).Has x := by
        simp only [Block.Has]
        omega
      exact (ih htail).trans (Memory.words_write_of_ne hx)

theorem writeFields_words_self {w : Nat} : (writeFields p (w :: ws) m).words p = w := by
  have hx : ¬ (Block.mk (p + 8) (8 * ws.length)).Has p := by
    simp only [Block.Has]
    omega
  exact (writeFields_words_of_not_has hx).trans Memory.words_write_self

/-- The words of a new cell. -/
def stampCell (p : Nat) (r : Request) (m : Memory) : Memory :=
  writeFields (p + 8) r.fields (m.write p r.header)

@[simp] theorem stampCell_blocks : (stampCell p r m).blocks = m.blocks := by
  rw [stampCell, writeFields_blocks, Memory.write_blocks]

theorem stampCell_words_of_not_has (h : ¬ (Block.mk p r.kind.size).Has x) :
    (stampCell p r m).words x = m.words x := by
  have hlen := r.length_fields
  simp only [Block.Has] at h
  have hfields : ¬ (Block.mk (p + 8) (8 * r.fields.length)).Has x := by
    simp only [Block.Has]
    omega
  have hx : x ≠ p := by
    rintro rfl
    have hpos := r.kind.size_pos
    omega
  exact (writeFields_words_of_not_has hfields).trans (Memory.words_write_of_ne hx)

theorem stampCell_words_self : (stampCell p r m).words p = r.header := by
  have hfields : ¬ (Block.mk (p + 8) (8 * r.fields.length)).Has p := by
    simp only [Block.Has]
    omega
  exact (writeFields_words_of_not_has hfields).trans Memory.words_write_self

/-- A new cell is as the ledger has it. -/
theorem held_stampCell (hok : r.Ok) (hr : r.overflow = none) :
    Held (stampCell p r m).words p (.counted r.kind 1) := by
  have hword : (stampCell p r m).words p = r.header := stampCell_words_self
  refine ⟨r.fits_of_overflow hok hr, ?_, ?_⟩
  · rw [hword]
    cases r <;> exact rcOf_wokHeader (by decide)
  · cases r with
    | node tag arity =>
        simp only [Stamped, Request.kind, hword, Request.header]
        rw [tagOf_wokHeader (by decide), arityOf_wokHeader (by decide)]
        exact ⟨Nat.mod_eq_of_lt hok.1.lt, Nat.mod_eq_of_lt hok.2⟩
    | array len elemkind =>
        refine ⟨?_, writeFields_words_self⟩
        rw [hword]
        exact tagOf_wokHeader (by decide)
    | string n =>
        refine ⟨?_, writeFields_words_self⟩
        rw [hword]
        exact tagOf_wokHeader (by decide)
    | bytes n =>
        refine ⟨?_, writeFields_words_self⟩
        rw [hword]
        exact tagOf_wokHeader (by decide)
    | stringView parent off len =>
        simp only [Stamped, Request.kind, hword]
        exact tagOf_wokHeader (by decide)
    | foreignBytes ptr n =>
        simp only [Stamped, Request.kind, hword]
        exact tagOf_wokHeader (by decide)
    | borrowView ptr n =>
        simp only [Stamped, Request.kind, hword]
        exact tagOf_wokHeader (by decide)

end Fields

/-- The allocations of the slab build, as one. -/
theorem Slab.alloc_eq {M : Malloc} {b : Build} {r : Request} {s : State Slab.Heap} (hok : r.Ok) :
    Slab.alloc M b r s =
      match r.overflow with
      | some e => .error e
      | none => Slab.allocCell M b r.kind.size r.kind.slabClass r.header r.fields s := by
  cases r with
  | node tag arity =>
      simp only [alloc, wokAlloc, if_pos (And.intro hok.1.lt hok.2), Request.overflow, Request.kind,
        Kind.size, Kind.slabClass, Request.header, Request.fields, wokCellBytes, Nat.mul_comm]
  | array len elemkind =>
      by_cases h : (sizeMax - 16) / 8 < len
      · simp only [alloc, wokArrayAlloc, wokArrayCellBytes, Request.overflow, if_pos h]
        rfl
      · simp only [alloc, wokArrayAlloc, wokArrayCellBytes, Request.overflow, if_neg h,
          Request.kind, Kind.size, Nat.mul_comm]
        rfl
  | string n =>
      by_cases h : sizeMax - 16 - 7 < n
      · simp only [alloc, wokStringAlloc, wokStringCellBytes, Request.overflow, if_pos h]
        rfl
      · simp only [alloc, wokStringAlloc, wokStringCellBytes, Request.overflow, if_neg h,
          stringWords_eq (Nat.le_of_not_lt h)]
        rfl
  | bytes n =>
      by_cases h : sizeMax - 16 - 7 < n
      · simp only [alloc, wokBytesAlloc, wokStringCellBytes, Request.overflow, if_pos h]
        rfl
      · simp only [alloc, wokBytesAlloc, wokStringCellBytes, Request.overflow, if_neg h,
          stringWords_eq (Nat.le_of_not_lt h)]
        rfl
  | stringView parent off len => rfl
  | foreignBytes ptr n => rfl
  | borrowView ptr n => rfl

/-- The allocations of the malloc build, as one. -/
theorem RcMalloc.alloc_eq {M : Malloc} {r : Request} {s : State RcMalloc.Heap} (hok : r.Ok) :
    RcMalloc.alloc M r s =
      match r.overflow with
      | some e => .error e
      | none => RcMalloc.allocCell M r.kind.size r.header r.fields s := by
  cases r with
  | node tag arity =>
      simp only [alloc, wokAlloc, if_pos (And.intro hok.1.lt hok.2), Request.overflow, Request.kind,
        Kind.size, Request.header, Request.fields, wokCellBytes, Nat.mul_comm]
  | array len elemkind =>
      by_cases h : (sizeMax - 16) / 8 < len
      · simp only [alloc, wokArrayAlloc, wokArrayCellBytes, Request.overflow, if_pos h]
        rfl
      · simp only [alloc, wokArrayAlloc, wokArrayCellBytes, Request.overflow, if_neg h,
          Request.kind, Kind.size, Nat.mul_comm]
        rfl
  | string n =>
      by_cases h : sizeMax - 16 - 7 < n
      · simp only [alloc, wokStringAlloc, wokStringCellBytes, Request.overflow, if_pos h]
        rfl
      · simp only [alloc, wokStringAlloc, wokStringCellBytes, Request.overflow, if_neg h,
          stringWords_eq (Nat.le_of_not_lt h)]
        rfl
  | bytes n =>
      by_cases h : sizeMax - 16 - 7 < n
      · simp only [alloc, wokBytesAlloc, wokStringCellBytes, Request.overflow, if_pos h]
        rfl
      · simp only [alloc, wokBytesAlloc, wokStringCellBytes, Request.overflow, if_neg h,
          stringWords_eq (Nat.le_of_not_lt h)]
        rfl
  | stringView parent off len => rfl
  | foreignBytes ptr n => rfl
  | borrowView ptr n => rfl

/-! ### Lists of cells -/

section CellLists

variable {k : Kind} {i p rc tag arity : Nat}

/-- The memory agrees with the ledger on all cells. -/
def AllHeld (words : Nat → Nat) (cells : List (Nat × Status)) : Prop :=
  ∀ (n p : Nat) (st : Status), cells[n]? = some (p, st) → Held words p st

/-- Cells of the arena among the cells when a counted cell changed. -/
theorem arena_of_set {cells : List (Nat × Status)} {st : Status} {j q tag arity scope : Nat}
    (hst : st.scopeBytes (scope + 1) = 0) (hj : (cells.set i (p, st))[j]? =
      some (q, .arena tag arity scope)) : cells[j]? = some (q, .arena tag arity scope) := by
  rcases getElem?_set_cases hj with ⟨-, heq⟩ | ⟨-, hj⟩
  · cases heq
    simp [Status.scopeBytes] at hst
  · exact hj

theorem counted_of_set {cells : List (Nat × Status)} {st : Status} {j q : Nat}
    (hst : st.bytes = 0) (hj : (cells.set i (p, st))[j]? = some (q, .counted k rc)) :
    j ≠ i ∧ cells[j]? = some (q, .counted k rc) := by
  rcases getElem?_set_cases hj with ⟨-, heq⟩ | hj
  · cases heq
    exact absurd hst k.size_pos.ne'
  · exact hj

/-- The arena cells after the scope of depth `d` was closed. -/
theorem arena_of_close {cells : List (Nat × Status)} {d scope : Nat}
    (hi : (cells.map fun c => (c.1, c.2.close d))[i]? = some (p, .arena tag arity scope)) :
    scope < d ∧ cells[i]? = some (p, .arena tag arity scope) := by
  rw [List.getElem?_map, Option.map_eq_some_iff] at hi
  rcases hi with ⟨⟨q, st⟩, hi, heq⟩
  cases st with
  | arena tag' arity' scope' =>
      simp only [Status.close, Prod.mk.injEq] at heq
      rcases heq with ⟨rfl, heq⟩
      split at heq
      · next hlt =>
          cases heq
          exact ⟨hlt, hi⟩
      · cases heq
  | counted k rc => cases heq
  | freed k => cases heq
  | closed => cases heq

theorem counted_of_close {cells : List (Nat × Status)} {d rc : Nat} {k : Kind}
    (hi : (cells.map fun c => (c.1, c.2.close d))[i]? = some (p, .counted k rc)) :
    cells[i]? = some (p, .counted k rc) := by
  rw [List.getElem?_map, Option.map_eq_some_iff] at hi
  rcases hi with ⟨⟨q, st⟩, hi, heq⟩
  cases st with
  | arena tag' arity' scope' =>
      simp only [Status.close, Prod.mk.injEq] at heq
      rcases heq with ⟨rfl, heq⟩
      split at heq <;> cases heq
  | counted k' rc' =>
      cases heq
      exact hi
  | freed k => cases heq
  | closed => cases heq

end CellLists

/-! ### A new block -/

section NewBlock

variable {M : Malloc} {p n : Nat} {e : Abort}

/-- The memory after `malloc` gave a block. -/
def withBlock (p n : Nat) (m : Memory) : Memory :=
  { m with blocks := ⟨p, n⟩ :: m.blocks, clock := m.clock + 1 }

theorem wokMalloc_ok {m m' : Memory} (h : wokMalloc M n m = .ok (p, m')) :
    M.pick m n = some p ∧ m' = withBlock p n m := by
  simp only [wokMalloc] at h
  split at h
  · next r hr =>
      cases h
      exact Memory.malloc_cases hr
  · cases h

theorem wokMalloc_error {m : Memory} (h : wokMalloc M n m = .error e) :
    e = .outOfMemory ∧ M.pick m n = none := by
  simp only [wokMalloc] at h
  split at h
  · cases h
  · next hm =>
      cases h
      exact ⟨rfl, Option.map_eq_none_iff.mp hm⟩

end NewBlock

end Wok.Runtime
