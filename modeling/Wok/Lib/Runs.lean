/-
Module: Wok.Lib.Runs
Purpose: Things put at places, in an order of the places: when each place takes one run of
  the things, and reading the places in order gives the things back.
Imports: Mathlib.Data.List.Nodup, Mathlib.Data.List.Sort
Trusted boundary: none
Main exports: Advances, positions, flatMap_positions, Run, Run.push, Run.push_range,
  idxOf_lt_of_sublist
-/
import Mathlib.Data.List.Nodup
import Mathlib.Data.List.Sort

namespace Wok.Lib

variable {α : Type} [DecidableEq α] {order xs : List α} {a b : α}

/-! ### Places in order -/

theorem idxOf_pairwise (h : order.Nodup) :
    order.Pairwise fun a b => order.idxOf a < order.idxOf b := by
  rw [List.pairwise_iff_getElem]
  intro i j hi hj hij
  rw [h.idxOf_getElem, h.idxOf_getElem]
  exact hij

theorem idxOf_lt_of_sublist (h : order.Nodup) (hsub : [a, b].Sublist order) :
    order.idxOf a < order.idxOf b := by
  have hpair := (idxOf_pairwise h).sublist hsub
  rw [List.pairwise_cons] at hpair
  exact hpair.1 b (List.mem_singleton_self b)

/-- The things go to places that never come earlier in the order. -/
def Advances (order xs : List α) : Prop :=
  xs.Pairwise fun a b => order.idxOf a ≤ order.idxOf b

/-- The things that went to a place. -/
def positions (xs : List α) (a : α) : List Nat :=
  (List.range xs.length).filter fun i => xs[i]? = some a

omit [DecidableEq α] in
theorem range_pairwise (n : Nat) : (List.range n).Pairwise (· < ·) := by
  rw [List.pairwise_iff_getElem]
  intro i j hi hj hij
  simpa using hij

theorem mem_positions {i : Nat} : i ∈ positions xs a ↔ xs[i]? = some a := by
  simp only [positions, List.mem_filter, List.mem_range, decide_eq_true_eq, and_iff_right_iff_imp]
  intro h
  exact (List.getElem?_eq_some_iff.mp h).1

theorem positions_pairwise (xs : List α) (a : α) : (positions xs a).Pairwise (· < ·) :=
  (range_pairwise _).filter _

theorem Advances.idxOf_le (h : Advances order xs) {i j : Nat} (hij : i ≤ j)
    (hi : xs[i]? = some a) (hj : xs[j]? = some b) : order.idxOf a ≤ order.idxOf b := by
  obtain ⟨hil, hi⟩ := List.getElem?_eq_some_iff.mp hi
  obtain ⟨hjl, hj⟩ := List.getElem?_eq_some_iff.mp hj
  rcases Nat.lt_or_eq_of_le hij with hlt | heq
  · have := List.pairwise_iff_getElem.mp h i j hil hjl hlt
    rwa [hi, hj] at this
  · subst heq
    rw [← hi, ← hj]

/-- Reading the places in order gives every thing once, in its order. -/
theorem flatMap_positions (hnodup : order.Nodup) (hmem : ∀ a ∈ xs, a ∈ order)
    (hadvances : Advances order xs) :
    order.flatMap (positions xs) = List.range xs.length := by
  have hsorted : (order.flatMap (positions xs)).Pairwise (· < ·) := by
    rw [List.pairwise_flatMap]
    refine ⟨fun a _ => positions_pairwise xs a, (idxOf_pairwise hnodup).imp ?_⟩
    intro a b hab i hi j hj
    by_contra hji
    have := hadvances.idxOf_le (Nat.le_of_not_lt hji) (mem_positions.mp hj) (mem_positions.mp hi)
    omega
  refine hsorted.eq_of_mem_iff (range_pairwise _) ?_
  intro i
  rw [List.mem_flatMap, List.mem_range]
  constructor
  · rintro ⟨a, -, hi⟩
    exact (List.getElem?_eq_some_iff.mp (mem_positions.mp hi)).1
  · intro hi
    exact ⟨xs[i], hmem _ (List.getElem_mem hi), mem_positions.mpr (List.getElem?_eq_getElem hi)⟩

/-! ### Runs -/

/-- A run of things: the first, and how many. -/
structure Run where
  first : Nat
  count : Nat
  deriving Repr, DecidableEq, Inhabited

namespace Run

/-- The things of the run. -/
def range (r : Run) : List Nat := List.range' r.first r.count

/-- The things of the run in a store. -/
def slice {β : Type} (r : Run) (l : List β) : List β := (l.drop r.first).take r.count

omit [DecidableEq α] in
theorem filterMap_range (l : List α) (r : Run) : r.range.filterMap (l[·]?) = r.slice l := by
  obtain ⟨first, count⟩ := r
  simp only [range, slice]
  induction count generalizing first with
  | zero => simp
  | succ n ih =>
      rw [List.range'_succ, List.filterMap_cons, ih]
      rcases Nat.lt_or_ge first l.length with h | h
      · rw [List.getElem?_eq_getElem h, List.drop_eq_getElem_cons h, List.take_succ_cons]
      · rw [List.getElem?_eq_none h, List.drop_eq_nil_of_le h,
          List.drop_eq_nil_of_le (Nat.le_succ_of_le h), List.take_nil, List.take_nil]

/-- Take in thing `i`: the first one says where the run starts. -/
def push (r : Run) (i : Nat) : Run := ⟨if r.count = 0 then i else r.first, r.count + 1⟩

omit [DecidableEq α] in
@[simp] theorem range_default : (default : Run).range = [] := rfl

end Run

theorem positions_append (xs : List α) (b a : α) :
    positions (xs ++ [b]) a = positions xs a ++ if b = a then [xs.length] else [] := by
  simp only [positions, List.length_append, List.length_cons, List.length_nil, Nat.zero_add,
    List.range_succ, List.filter_append]
  congr 1
  · refine List.filter_congr ?_
    intro i hi
    rw [List.getElem?_append_left (List.mem_range.mp hi)]
  · simp [List.filter_cons]

theorem Advances.mem_positions_of_between (h : Advances order xs) (hmem : a ∈ order) {i j k : Nat}
    (hij : i ≤ j) (hjk : j ≤ k) (hi : i ∈ positions xs a) (hk : k ∈ positions xs a) :
    j ∈ positions xs a := by
  rw [mem_positions] at hi hk ⊢
  have hj : j < xs.length := Nat.lt_of_le_of_lt hjk (List.getElem?_eq_some_iff.mp hk).1
  have hget := List.getElem?_eq_getElem hj
  have hle := h.idxOf_le hij hi hget
  have hge := h.idxOf_le hjk hget hk
  rw [hget, (List.idxOf_inj hmem).mp (Nat.le_antisymm hle hge)]

/-- The things of one place that follow an order stand next to each other. -/
theorem Run.push_range {r : Run} (hmem : a ∈ order) (hadvances : Advances order (xs ++ [a]))
    (hr : r.range = positions xs a) :
    (r.push xs.length).range = positions (xs ++ [a]) a := by
  have hlast := positions_append xs a a
  rw [if_pos rfl, ← hr] at hlast
  rw [hlast]
  unfold Run.push
  by_cases hzero : r.count = 0
  · simp [Run.range, hzero, List.range']
  · rw [if_neg hzero]
    -- a gap between the run and the end would hold a thing of the same place
    have hend : r.first + r.count = xs.length := by
      have hmax : r.first + r.count - 1 ∈ positions xs a := by
        rw [← hr, Run.range, List.mem_range'_1]
        omega
      have hle := (List.getElem?_eq_some_iff.mp (mem_positions.mp hmax)).1
      by_contra hne
      have hgap : r.first + r.count ∈ positions (xs ++ [a]) a := by
        refine hadvances.mem_positions_of_between hmem (i := r.first) (k := xs.length)
          (by omega) (by omega) ?_ ?_
        · rw [hlast, List.mem_append, Run.range, List.mem_range'_1]
          left
          omega
        · rw [hlast]
          exact List.mem_append_right _ (List.mem_singleton_self _)
      rw [hlast, List.mem_append, Run.range, List.mem_range'_1, List.mem_singleton] at hgap
      omega
    simp only [Run.range]
    rw [List.range'_concat, Nat.one_mul, hend]

end Wok.Lib
