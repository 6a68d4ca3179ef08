/-
Module: Wok.Lib.Rendezvous
Purpose: Two streams that are paired off in order, and what waits of either of them:
  a queue of values and a queue of receivers of which one is empty.
Imports: Mathlib.Data.List.Basic
Trusted boundary: none
Main exports: unpaired, pairs, unpaired_or, map_pairs, pairs_met, pairs_waits
-/
import Mathlib.Data.List.Basic

namespace Wok.Lib.Rendezvous

variable {α β γ : Type*} {f : α → β → γ}

/-- What has come on a stream after as many as on the other one. -/
def unpaired (xs : List α) (ys : List β) : List α := xs.drop ys.length

/-- The first with the first, the second with the second. -/
def pairs (f : α → β → γ) (xs : List α) (ys : List β) : List γ := List.zipWith f xs ys

/-- Something waits on one of the streams only. -/
theorem unpaired_or (xs : List α) (ys : List β) : unpaired xs ys = [] ∨ unpaired ys xs = [] := by
  rw [unpaired, unpaired, List.drop_eq_nil_iff, List.drop_eq_nil_iff]
  exact Nat.le_total _ _

/-- The pairs and what waits make up the stream. -/
theorem map_pairs {δ : Type*} {g : γ → δ} {h : α → δ} (hg : ∀ x y, g (f x y) = h x)
    (xs : List α) (ys : List β) :
    (pairs f xs ys).map g ++ (unpaired xs ys).map h = xs.map h := by
  induction xs generalizing ys with
  | nil => simp [pairs, unpaired]
  | cons x xs ih =>
      cases ys with
      | nil => simp [pairs, unpaired]
      | cons y ys => simpa [pairs, unpaired, hg] using ih ys

theorem pairs_comm (xs : List α) (ys : List β) :
    pairs f xs ys = pairs (fun y x => f x y) ys xs :=
  List.zipWith_comm

/-- A newcomer for whom the other stream waits is paired with the oldest there. -/
theorem pairs_met {xs rest : List α} {ys : List β} {x : α} (hwait : unpaired xs ys = x :: rest)
    (y : β) : unpaired xs (ys ++ [y]) = rest ∧ unpaired (ys ++ [y]) xs = [] ∧
      pairs f xs (ys ++ [y]) = pairs f xs ys ++ [f x y] := by
  induction ys generalizing xs with
  | nil =>
      rw [unpaired, List.length_nil, List.drop_zero] at hwait
      subst hwait
      simp [pairs, unpaired]
  | cons y' ys ih =>
      cases xs with
      | nil => simp [unpaired] at hwait
      | cons x' xs =>
          have hwait' : unpaired xs ys = x :: rest := by simpa [unpaired] using hwait
          obtain ⟨hleft, hright, hpairs⟩ := ih hwait'
          rw [unpaired] at hleft hright
          rw [pairs, pairs] at hpairs
          refine ⟨?_, ?_, ?_⟩
          · simpa [unpaired] using hleft
          · simpa [unpaired] using hright
          · simpa [pairs] using hpairs

/-- A newcomer for whom nothing waits waits himself. -/
theorem pairs_waits {xs : List α} {ys : List β} (hnone : unpaired xs ys = []) (y : β) :
    unpaired xs (ys ++ [y]) = [] ∧ unpaired (ys ++ [y]) xs = unpaired ys xs ++ [y] ∧
      pairs f xs (ys ++ [y]) = pairs f xs ys := by
  rw [unpaired, List.drop_eq_nil_iff] at hnone
  refine ⟨?_, ?_, ?_⟩
  · rw [unpaired, List.drop_eq_nil_iff, List.length_append]
    exact Nat.le_trans hnone (Nat.le_add_right _ _)
  · rw [unpaired, unpaired, List.drop_append_of_le_length hnone]
  · induction xs generalizing ys with
    | nil => simp [pairs]
    | cons x xs ih =>
        cases ys with
        | nil => simp at hnone
        | cons y' ys =>
            have hnone' : xs.length ≤ ys.length := by simpa using hnone
            have := ih hnone'
            rw [pairs, pairs] at this
            simpa [pairs] using this

end Wok.Lib.Rendezvous
