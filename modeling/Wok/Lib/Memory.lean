/-
Module: Wok.Lib.Memory
Purpose: Byte ranges that do not overlap, a memory of words with `malloc` and
  `free`, and lists linked through memory.
Imports: Mathlib.Algebra.Order.Ring.Int, Mathlib.Data.List.Pairwise,
  Mathlib.Order.Interval.Finset.Nat
Trusted boundary: the addresses that `malloc` chooses (`Malloc`)
Main exports: Block, Block.Apart, Block.Within, Separate, Separate.sum_le, Memory,
  Malloc, Memory.malloc, Memory.free, Malloc.upwards, Linked, Linked.update, Linked.unique
-/
import Mathlib.Algebra.Order.Ring.Int
import Mathlib.Data.List.Pairwise
import Mathlib.Order.Interval.Finset.Nat

namespace Wok.Lib

/-- A range of bytes. -/
structure Block where
  base : Nat
  size : Nat
deriving DecidableEq, Repr

namespace Block

/-- Two ranges without a byte in common. -/
def Apart (a b : Block) : Prop :=
  a.base + a.size ≤ b.base ∨ b.base + b.size ≤ a.base

/-- The first range is a part of the second. -/
def Within (a b : Block) : Prop :=
  b.base ≤ a.base ∧ a.base + a.size ≤ b.base + b.size

/-- The address is one of the range. -/
def Has (b : Block) (x : Nat) : Prop :=
  b.base ≤ x ∧ x < b.base + b.size

variable {a b a' b' : Block} {x : Nat}

instance : Decidable (a.Apart b) := inferInstanceAs (Decidable (_ ∨ _))

instance : Std.Symm Apart := ⟨fun _ _ => Or.symm⟩

theorem Apart.symm (h : a.Apart b) : b.Apart a :=
  Or.symm h

theorem Apart.mono (h : a.Apart b) (ha : a'.Within a) (hb : b'.Within b) : a'.Apart b' := by
  rcases ha with ⟨ha₁, ha₂⟩
  rcases hb with ⟨hb₁, hb₂⟩
  rcases h with h | h
  · exact .inl (by omega)
  · exact .inr (by omega)

theorem Within.refl (a : Block) : a.Within a :=
  ⟨Nat.le_refl _, Nat.le_refl _⟩

theorem Within.trans {c : Block} (h : a.Within b) (h' : b.Within c) : a.Within c :=
  ⟨h'.1.trans h.1, h.2.trans h'.2⟩

theorem Has.of_within (h : a.Has x) (hab : a.Within b) : b.Has x :=
  ⟨hab.1.trans h.1, h.2.trans_le hab.2⟩

theorem Apart.not_has (h : a.Apart b) (ha : a.Has x) : ¬ b.Has x := by
  rintro ⟨hb₁, hb₂⟩
  rcases ha with ⟨ha₁, ha₂⟩
  rcases h with h | h <;> omega

theorem Apart.base_ne (h : a.Apart b) (ha : 0 < a.size) (hb : 0 < b.size) :
    a.base ≠ b.base := by
  intro heq
  rcases h with h | h <;> omega

end Block

open Block

/-! ### Ranges that do not overlap -/

/-- No two of the ranges have a byte in common. -/
def Separate (bs : List Block) : Prop :=
  bs.Pairwise Apart

namespace Separate

variable {bs : List Block} {a b : Block}

theorem apart (h : Separate bs) (ha : a ∈ bs) (hb : b ∈ bs) (hne : a ≠ b) : a.Apart b :=
  h.forall ha hb hne

/-- A range that is not empty is known by where it starts. -/
theorem eq_of_base (h : Separate bs) (ha : a ∈ bs) (hb : b ∈ bs) (hpos : 0 < a.size)
    (hpos' : 0 < b.size) (hbase : a.base = b.base) : a = b := by
  by_contra hne
  exact (h.apart ha hb hne).base_ne hpos hpos' hbase

/-- The bytes of the ranges. -/
def bytes (bs : List Block) : Finset Nat :=
  bs.foldr (fun b U => Finset.Ico b.base (b.base + b.size) ∪ U) ∅

theorem mem_bytes {x : Nat} : x ∈ bytes bs ↔ ∃ b ∈ bs, b.Has x := by
  induction bs with
  | nil => simp [bytes]
  | cons b bs ih =>
      have hcons : bytes (b :: bs) = Finset.Ico b.base (b.base + b.size) ∪ bytes bs := rfl
      rw [hcons, Finset.mem_union, Finset.mem_Ico, ih, List.exists_mem_cons_iff]
      exact Iff.rfl

theorem card_bytes (h : Separate bs) : (bytes bs).card = (bs.map Block.size).sum := by
  induction bs with
  | nil => rfl
  | cons b bs ih =>
      rcases List.pairwise_cons.mp h with ⟨hb, hbs⟩
      have hdisj : Disjoint (Finset.Ico b.base (b.base + b.size)) (bytes bs) := by
        rw [Finset.disjoint_left]
        intro x hx hx'
        rcases mem_bytes.mp hx' with ⟨c, hc, hcx⟩
        exact (hb c hc).not_has (Finset.mem_Ico.mp hx) hcx
      have hcons : bytes (b :: bs) = Finset.Ico b.base (b.base + b.size) ∪ bytes bs := rfl
      rw [hcons, Finset.card_union_of_disjoint hdisj, ih hbs, Nat.card_Ico, List.map_cons,
        List.sum_cons]
      omega

/-- Ranges inside one range are together no longer than it. -/
theorem sum_le {w : Block} (h : Separate bs) (hw : ∀ b ∈ bs, b.Within w) :
    (bs.map Block.size).sum ≤ w.size := by
  have hsub : bytes bs ⊆ Finset.Ico w.base (w.base + w.size) := by
    intro x hx
    rcases mem_bytes.mp hx with ⟨b, hb, hbx⟩
    exact Finset.mem_Ico.mpr (hbx.of_within (hw b hb))
  calc (bs.map Block.size).sum = (bytes bs).card := (card_bytes h).symm
    _ ≤ (Finset.Ico w.base (w.base + w.size)).card := Finset.card_le_card hsub
    _ = w.size := by simp

end Separate

/-! ### Memory -/

/-- The words of the memory by their addresses, the blocks that `malloc` gave out
and that were not freed, and the number of calls of `malloc` so far. -/
structure Memory where
  words : Nat → Nat
  blocks : List Block
  clock : Nat

/-- Where `malloc` puts a block of a given size; `none` when it fails. The choice
may depend on the whole memory, which no two calls of a run share. -/
structure Malloc where
  pick : Memory → Nat → Option Nat
  /-- a block does not overlap one that is still held -/
  fresh : ∀ {m n p}, pick m n = some p → ∀ b ∈ m.blocks, Block.Apart ⟨p, n⟩ b
  /-- blocks start at multiples of eight -/
  aligned : ∀ {m n p}, pick m n = some p → p % 8 = 0
  /-- a block is not at the null pointer -/
  pos : ∀ {m n p}, pick m n = some p → p ≠ 0

namespace Memory

variable {m : Memory} {a x w p : Nat} {bs : List Block}

def write (a w : Nat) (m : Memory) : Memory :=
  { m with words := Function.update m.words a w }

def malloc (M : Malloc) (n : Nat) (m : Memory) : Option (Nat × Memory) :=
  (M.pick m n).map fun p =>
    (p, { m with blocks := ⟨p, n⟩ :: m.blocks, clock := m.clock + 1 })

def free (p : Nat) (m : Memory) : Memory :=
  { m with blocks := m.blocks.filter (·.base ≠ p) }

@[simp] theorem write_blocks : (m.write a w).blocks = m.blocks := rfl
@[simp] theorem write_clock : (m.write a w).clock = m.clock := rfl
@[simp] theorem write_words : (m.write a w).words = Function.update m.words a w := rfl
theorem words_write_self : (m.write a w).words a = w := by
  rw [write_words, Function.update_self]

theorem words_write_of_ne (h : x ≠ a) : (m.write a w).words x = m.words x := by
  rw [write_words, Function.update_of_ne h]

@[simp] theorem free_words : (m.free p).words = m.words := rfl

theorem mem_free {b : Block} : b ∈ (m.free p).blocks ↔ b ∈ m.blocks ∧ b.base ≠ p := by
  simp [free]

/-- What a call of `malloc` that does not fail gives. -/
theorem malloc_cases {M : Malloc} {n : Nat} {m' : Memory} (h : m.malloc M n = some (p, m')) :
    M.pick m n = some p ∧
      m' = { m with blocks := ⟨p, n⟩ :: m.blocks, clock := m.clock + 1 } := by
  simp only [malloc, Option.map_eq_some_iff, Prod.mk.injEq] at h
  rcases h with ⟨q, hq, rfl, rfl⟩
  exact ⟨hq, rfl⟩

end Memory

/-- The first multiple of eight above all blocks and above the null pointer. -/
def Memory.above (m : Memory) : Nat :=
  8 * (m.blocks.foldr (fun b a => max (b.base + b.size) a) 8 / 8 + 1)

theorem Memory.le_above {m : Memory} {b : Block} (h : b ∈ m.blocks) :
    b.base + b.size ≤ m.above := by
  have hfold : ∀ {bs : List Block}, b ∈ bs →
      b.base + b.size ≤ bs.foldr (fun b a => max (b.base + b.size) a) 8 := by
    intro bs hb
    induction bs with
    | nil => cases hb
    | cons c bs ih =>
        rcases List.mem_cons.mp hb with rfl | hb
        · exact Nat.le_max_left _ _
        · exact (ih hb).trans (Nat.le_max_right _ _)
  have hle := hfold h
  simp only [Memory.above]
  omega

/-- A `malloc` that puts every block above all others, and never fails. -/
def Malloc.upwards : Malloc where
  pick := fun m _ => some m.above
  fresh := by
    intro m n p hp b hb
    cases hp
    exact .inr (Memory.le_above hb)
  aligned := by
    intro m n p hp
    cases hp
    simp only [Memory.above]
    omega
  pos := by
    intro m n p hp
    cases hp
    simp only [Memory.above]
    omega

/-! ### Linked lists -/

/-- The nodes `ps`, none of them null, are linked from `p` on by `next`, and the last
link is null. -/
def Linked (next : Nat → Nat) : Nat → List Nat → Prop
  | p, [] => p = 0
  | p, q :: qs => p = q ∧ q ≠ 0 ∧ Linked next (next q) qs

namespace Linked

variable {next next' : Nat → Nat} {p q : Nat} {ps qs : List Nat}

theorem congr (h : Linked next p ps) (heq : ∀ q ∈ ps, next' q = next q) :
    Linked next' p ps := by
  induction ps generalizing p with
  | nil => exact h
  | cons q qs ih =>
      rcases h with ⟨rfl, hne, htail⟩
      refine ⟨rfl, hne, ?_⟩
      rw [heq p List.mem_cons_self]
      exact ih htail fun q hq => heq q (List.mem_cons_of_mem p hq)

/-- A write to no node of the list leaves it as it is. -/
theorem update {a w : Nat} (h : Linked next p ps) (ha : a ∉ ps) :
    Linked (Function.update next a w) p ps := by
  apply h.congr
  intro q hq
  apply Function.update_of_ne
  rintro rfl
  exact ha hq

/-- A new node in front. -/
theorem push {a : Nat} (h : Linked next p ps) (ha : a ∉ ps) (hne : a ≠ 0) :
    Linked (Function.update next a p) a (a :: ps) := by
  refine ⟨rfl, hne, ?_⟩
  rw [Function.update_self]
  exact h.update ha

theorem unique (h : Linked next p ps) (h' : Linked next p qs) : ps = qs := by
  induction ps generalizing p qs with
  | nil =>
      cases qs with
      | nil => rfl
      | cons q qs => exact absurd (h'.1.symm.trans h) h'.2.1
  | cons q ps ih =>
      cases qs with
      | nil => exact absurd (h.1.symm.trans h') h.2.1
      | cons r rs =>
          rcases h with ⟨rfl, -, htail⟩
          rcases h' with ⟨rfl, -, htail'⟩
          rw [ih htail htail']

/-- The list is empty when and only when its head is null. -/
theorem eq_nil_iff (h : Linked next p ps) : ps = [] ↔ p = 0 := by
  cases ps with
  | nil => exact iff_of_true rfl h
  | cons q qs =>
      rcases h with ⟨rfl, hne, -⟩
      exact iff_of_false (List.cons_ne_nil _ _) hne

theorem ne_zero (h : Linked next p ps) (hq : q ∈ ps) : q ≠ 0 := by
  induction ps generalizing p with
  | nil => exact absurd hq List.not_mem_nil
  | cons r rs ih =>
      rcases h with ⟨rfl, hne, htail⟩
      rcases List.mem_cons.mp hq with rfl | hq
      · exact hne
      · exact ih htail hq

/-- A list whose head is not null, taken apart. -/
theorem uncons (h : Linked next p ps) (hne : p ≠ 0) :
    ∃ qs, ps = p :: qs ∧ Linked next (next p) qs := by
  cases ps with
  | nil => exact absurd h hne
  | cons q qs =>
      rcases h with ⟨rfl, -, htail⟩
      exact ⟨qs, rfl, htail⟩

end Linked

end Wok.Lib
