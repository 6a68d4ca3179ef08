/-
Module: Wok.Lib.Saturation
Purpose: The elements from which a relation leads into a given set, and the finite set that
  grows to them.
Imports: Mathlib.Data.Finset.Card, Mathlib.Logic.Relation, Mathlib.Order.Bounds.Basic
Trusted boundary: none
Main exports: Reaches, Reaches.mono, Reaches.absorb, reaches_isLeast, grow, card_lt_of_grow,
  mem_iff_reaches
-/
import Mathlib.Data.Finset.Card
import Mathlib.Logic.Relation
import Mathlib.Order.Bounds.Basic

namespace Wok.Lib

variable {α : Type*}

/-! ### Elements that lead into a set -/

/-- The relation leads from `a` to an element of the base in any number of steps. -/
def Reaches (R : α → α → Prop) (start : α → Prop) (a : α) : Prop :=
  ∃ b, start b ∧ Relation.ReflTransGen R a b

section Reaches

variable {R R' : α → α → Prop} {start start' : α → Prop} {a b : α}

theorem Reaches.of_start (h : start a) : Reaches R start a := ⟨a, h, .refl⟩

theorem Reaches.head (hab : R a b) (h : Reaches R start b) : Reaches R start a := by
  obtain ⟨c, hc, hbc⟩ := h
  exact ⟨c, hc, .head hab hbc⟩

/-- What holds of the base and before each step holds of all. -/
theorem Reaches.induction {motive : α → Prop} (hbase : ∀ a, start a → motive a)
    (hstep : ∀ a b, R a b → Reaches R start b → motive b → motive a) (h : Reaches R start a) :
    motive a := by
  obtain ⟨c, hc, hac⟩ := h
  induction hac using Relation.ReflTransGen.head_induction_on with
  | refl => exact hbase c hc
  | head hab hbc ih => exact hstep _ _ hab ⟨c, hc, hbc⟩ ih

theorem Reaches.mono (hR : ∀ a b, R a b → R' a b) (hbase : ∀ a, start a → start' a)
    (h : Reaches R start a) : Reaches R' start' a :=
  h.induction (fun a ha => .of_start (hbase a ha)) fun a b hab _ hb => .head (hR a b hab) hb

/-- Elements that lead into the base may be counted to it. -/
theorem Reaches.absorb (hbase : ∀ a, start' a → Reaches R start a) (h : Reaches R start' a) :
    Reaches R start a :=
  h.induction hbase fun _ _ hab _ hb => .head hab hb

/-- They are the least set that contains the base and, with an element, all before it. -/
theorem reaches_isLeast (R : α → α → Prop) (start : α → Prop) :
    IsLeast {S : Set α | (∀ a, start a → a ∈ S) ∧ ∀ a b, R a b → b ∈ S → a ∈ S}
      {a | Reaches R start a} := by
  constructor
  · exact ⟨fun a ha => .of_start ha, fun a b hab hb => .head hab hb⟩
  · intro S hS a ha
    exact Reaches.induction (motive := (· ∈ S)) hS.1 (fun a b hab _ hb => hS.2 a b hab hb) ha

end Reaches

/-! ### Growing a finite set -/

section Grow

variable [DecidableEq α] (univ : Finset α) (p : Finset α → α → Bool)

/-- The set and those of `univ` that `p` asks for. -/
def grow (s : Finset α) : Finset α := s ∪ univ.filter fun a => p s a

variable {univ p}

theorem subset_grow (s : Finset α) : s ⊆ grow univ p s := Finset.subset_union_left

theorem grow_eq_of_card (s : Finset α) (h : (grow univ p s).card = s.card) :
    grow univ p s = s :=
  (Finset.eq_of_subset_of_card_le (subset_grow s) h.le).symm

theorem sdiff_grow_subset (s : Finset α) : univ \ grow univ p s ⊆ univ \ s :=
  Finset.sdiff_subset_sdiff subset_rfl (subset_grow s)

/-- A set that grows leaves less of `univ` outside. -/
theorem card_lt_of_grow (s : Finset α) (h : (grow univ p s).card ≠ s.card) :
    (univ \ grow univ p s).card < (univ \ s).card := by
  apply Finset.card_lt_card
  refine ⟨sdiff_grow_subset s, fun hsub => h ?_⟩
  suffices hgrow : grow univ p s ⊆ s from
    congrArg Finset.card (Finset.Subset.antisymm hgrow (subset_grow s))
  intro a ha
  by_contra hs
  rcases Finset.mem_union.mp ha with hmem | hmem
  · exact hs hmem
  · have huniv : a ∈ univ \ s := Finset.mem_sdiff.mpr ⟨(Finset.mem_filter.mp hmem).1, hs⟩
    exact (Finset.mem_sdiff.mp (hsub huniv)).2 ha

/-- Growing stays within the elements that lead into the base. -/
theorem grow_reaches {R : α → α → Prop} {start : α → Prop}
    (hp : ∀ s a, p s a = true → ∃ b ∈ s, R a b) {s : Finset α}
    (h : ∀ a ∈ s, Reaches R start a) : ∀ a ∈ grow univ p s, Reaches R start a := by
  intro a ha
  rcases Finset.mem_union.mp ha with hmem | hmem
  · exact h a hmem
  · obtain ⟨b, hb, hab⟩ := hp s a (Finset.mem_filter.mp hmem).2
    exact .head hab (h b hb)

/-- A set that contains the base, leads into it and no longer grows is all that leads into
it. -/
theorem mem_iff_reaches {R : α → α → Prop} {start : α → Prop} {s : Finset α}
    (hp : ∀ a b, b ∈ s → R a b → a ∉ s → a ∈ univ ∧ p s a = true)
    (hbase : ∀ a, start a → a ∈ s) (hs : ∀ a ∈ s, Reaches R start a) (hfix : grow univ p s = s)
    (a : α) : a ∈ s ↔ Reaches R start a := by
  refine ⟨hs a, Reaches.induction (motive := (· ∈ s)) hbase fun a b hab _ hb => ?_⟩
  by_contra ha
  obtain ⟨huniv, hask⟩ := hp a b hb hab ha
  apply ha
  rw [← hfix]
  exact Finset.mem_union_right _ (Finset.mem_filter.mpr ⟨huniv, hask⟩)

end Grow

end Wok.Lib
