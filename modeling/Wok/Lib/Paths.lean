/-
Module: Wok.Lib.Paths
Purpose: Paths in a finite directed graph: a relation closed under one pivot after
  another, the cycles of two relations together, and the search of a graph breadth first.
Imports: Mathlib.Data.List.Dedup, Mathlib.Data.List.Induction, Mathlib.Logic.Relation
Trusted boundary: none
Main exports: pivot, pivots, pivots_iff_transGen, cycle_either_iff, search, search_iff_transGen,
  search_isSome, search_from_iff
-/
import Mathlib.Data.List.Dedup
import Mathlib.Data.List.Induction
import Mathlib.Logic.Relation

namespace Wok.Lib.Paths

open Relation (TransGen)

variable {α : Type*}

/-! ### Closing a relation under pivots -/

section Pivots

variable {r : α → α → Prop} {ks : List α} {a b c : α}

/-- Join what leads to `k` with what `k` leads to. -/
def pivot (r : α → α → Prop) (k : α) (a b : α) : Prop := r a b ∨ r a k ∧ r k b

/-- One pivot after another. -/
def pivots (r : α → α → Prop) (ks : List α) : α → α → Prop := ks.foldl pivot r

theorem pivots_concat (k : α) : pivots r (ks ++ [k]) = pivot (pivots r ks) k := by
  rw [pivots, List.foldl_append]
  rfl

theorem pivots_of_rel (h : r a b) : pivots r ks a b := by
  induction ks using List.reverseRecOn with
  | nil => exact h
  | append_singleton ks k ih =>
      rw [pivots_concat]
      exact .inl ih

theorem transGen_of_pivots (h : pivots r ks a b) : TransGen r a b := by
  induction ks using List.reverseRecOn generalizing a b with
  | nil => exact .single h
  | append_singleton ks k ih =>
      rw [pivots_concat] at h
      rcases h with h | ⟨hak, hkb⟩
      · exact ih h
      · exact (ih hak).trans (ih hkb)

/-- The relation can be followed through what has been a pivot. -/
theorem pivots_trans (hb : b ∈ ks) (hab : pivots r ks a b) (hbc : pivots r ks b c) :
    pivots r ks a c := by
  induction ks using List.reverseRecOn generalizing a b c with
  | nil => cases hb
  | append_singleton ks k ih =>
      rw [pivots_concat] at hab hbc ⊢
      rcases List.mem_append.mp hb with hb | hb
      · rcases hab with hab | ⟨hak, hkb⟩
        · rcases hbc with hbc | ⟨hbk, hkc⟩
          · exact .inl (ih hb hab hbc)
          · exact .inr ⟨ih hb hab hbk, hkc⟩
        · rcases hbc with hbc | ⟨-, hkc⟩
          · exact .inr ⟨hak, ih hb hkb hbc⟩
          · exact .inr ⟨hak, hkc⟩
      · rw [List.mem_singleton] at hb
        subst hb
        refine .inr ⟨?_, ?_⟩
        · exact hab.elim id And.left
        · exact hbc.elim id And.right

/-- With every node a pivot, the result is the relation's transitive closure. -/
theorem pivots_iff_transGen (hks : ∀ a b, r a b → b ∈ ks) :
    pivots r ks a b ↔ TransGen r a b := by
  constructor
  · exact transGen_of_pivots
  · intro h
    induction h with
    | single h => exact pivots_of_rel h
    | @tail b c h hbc ih =>
        have hb : b ∈ ks := by
          cases h with
          | single h => exact hks _ _ h
          | tail _ h => exact hks _ _ h
        exact pivots_trans hb ih (pivots_of_rel hbc)

end Pivots

/-! ### Two relations together -/

section Union

variable {r s : α → α → Prop} {shared : α → Prop}

/-- `r` or `s`. -/
def either (r s : α → α → Prop) (a b : α) : Prop := r a b ∨ s a b

/-- A path of one of the two relations between two nodes of both. -/
def sharedPath (r s : α → α → Prop) (shared : α → Prop) (a b : α) : Prop :=
  shared a ∧ shared b ∧ (TransGen r a b ∨ TransGen s a b)

/-- An edge of one relation and an edge of the other one meet at nodes of both only. -/
structure MeetAt (r s : α → α → Prop) (shared : α → Prop) : Prop where
  fst : ∀ a b c, r a b → s b c → shared b
  snd : ∀ a b c, s a b → r b c → shared b

theorem MeetAt.of_paths (h : MeetAt r s shared) {a b c : α} :
    (TransGen r a b → s b c → shared b) ∧ (TransGen s a b → r b c → shared b) := by
  constructor
  · intro hab hbc
    obtain ⟨d, -, hdb⟩ := TransGen.tail'_iff.mp hab
    exact h.fst d b c hdb hbc
  · intro hab hbc
    obtain ⟨d, -, hdb⟩ := TransGen.tail'_iff.mp hab
    exact h.snd d b c hdb hbc

/-- A path from a node of both: whole segments, and then a path of one relation. -/
theorem segments_of_path (h : MeetAt r s shared) {a b : α} (ha : shared a)
    (hab : TransGen (either r s) a b) :
    ∃ c, shared c ∧ Relation.ReflTransGen (sharedPath r s shared) a c ∧
      (TransGen r c b ∨ TransGen s c b) := by
  induction hab with
  | single hab => exact ⟨a, ha, .refl, hab.imp .single .single⟩
  | @tail b d _ hbd ih =>
      obtain ⟨c, hc, hac, hcb | hcb⟩ := ih
      · rcases hbd with hbd | hbd
        · exact ⟨c, hc, hac, .inl (hcb.tail hbd)⟩
        · have hb := h.of_paths.1 hcb hbd
          exact ⟨b, hb, hac.tail ⟨hc, hb, .inl hcb⟩, .inr (.single hbd)⟩
      · rcases hbd with hbd | hbd
        · have hb := h.of_paths.2 hcb hbd
          exact ⟨b, hb, hac.tail ⟨hc, hb, .inr hcb⟩, .inl (.single hbd)⟩
        · exact ⟨c, hc, hac, .inr (hcb.tail hbd)⟩

/-- A path of both relations is one of either, or it goes through a node of both. -/
theorem path_through_shared (h : MeetAt r s shared) {a b : α}
    (hab : TransGen (either r s) a b) :
    (TransGen r a b ∨ TransGen s a b) ∨
      ∃ c, shared c ∧ TransGen (either r s) a c ∧ TransGen (either r s) c b := by
  induction hab with
  | single hab => exact .inl (hab.imp .single .single)
  | @tail b d hab hbd ih =>
      rcases ih with (hab' | hab') | ⟨c, hc, hac, hcb⟩
      · rcases hbd with hbd | hbd
        · exact .inl (.inl (hab'.tail hbd))
        · exact .inr ⟨b, h.of_paths.1 hab' hbd, hab, .single (.inr hbd)⟩
      · rcases hbd with hbd | hbd
        · exact .inr ⟨b, h.of_paths.2 hab' hbd, hab, .single (.inl hbd)⟩
        · exact .inl (.inr (hab'.tail hbd))
      · exact .inr ⟨c, hc, hac, hcb.tail hbd⟩

theorem path_of_segments {a b : α} (hab : TransGen (sharedPath r s shared) a b) :
    TransGen (either r s) a b := by
  have hsegment : ∀ {a b}, sharedPath r s shared a b → TransGen (either r s) a b := by
    rintro a b ⟨-, -, hab | hab⟩
    · exact TransGen.mono (fun _ _ => Or.inl) _ _ hab
    · exact TransGen.mono (fun _ _ => Or.inr) _ _ hab
  induction hab with
  | single hab => exact hsegment hab
  | tail _ hbc ih => exact ih.trans (hsegment hbc)

/-- Two relations without cycles have one together if the nodes of both are on one. -/
theorem cycle_either_iff (h : MeetAt r s shared) (hr : ∀ a, ¬ TransGen r a a)
    (hs : ∀ a, ¬ TransGen s a a) :
    (∃ a, TransGen (either r s) a a) ↔ ∃ a, TransGen (sharedPath r s shared) a a := by
  constructor
  · rintro ⟨a, ha⟩
    obtain ⟨c, hc, hcycle⟩ : ∃ c, shared c ∧ TransGen (either r s) c c := by
      rcases path_through_shared h ha with (ha | ha) | ⟨c, hc, hac, hca⟩
      · exact absurd ha (hr a)
      · exact absurd ha (hs a)
      · exact ⟨c, hc, hca.trans hac⟩
    obtain ⟨d, hd, hcd, hdc⟩ := segments_of_path h hc hcycle
    exact ⟨c, .tail' hcd ⟨hd, hc, hdc⟩⟩
  · rintro ⟨a, ha⟩
    exact ⟨a, path_of_segments ha⟩

end Union

/-! ### Breadth-first search -/

section Search

variable [DecidableEq α]

/-- Search for a node with an edge to `dst`, from the nodes of the queue on; `none` when
the fuel does not last. -/
def search (next : α → List α) (dst : α) : Nat → List α → List α → Option Bool
  | _, _, [] => some false
  | 0, _, _ :: _ => none
  | fuel + 1, visited, x :: queue =>
      if dst ∈ next x then some true
      else
        let newNodes := (next x).filter (· ∉ visited)
        search next dst fuel (newNodes ++ visited) (queue ++ newNodes)

variable {next : α → List α} {dst : α} {fuel : Nat} {visited queue : List α}

/-- What the search has gone through: all nodes that an edge leads to from a visited node
that no longer waits are visited, and none of them is the one that is searched for. -/
structure Searched (next : α → List α) (dst : α) (visited queue : List α) : Prop where
  waiting : ∀ x ∈ queue, x ∈ visited
  done : ∀ x ∈ visited, x ∉ queue → (∀ y ∈ next x, y ∈ visited) ∧ dst ∉ next x

theorem Searched.step {x : α} (h : Searched next dst visited (x :: queue))
    (hdst : dst ∉ next x) :
    Searched next dst ((next x).filter (· ∉ visited) ++ visited)
      (queue ++ (next x).filter (· ∉ visited)) := by
  constructor
  · intro y hy
    rcases List.mem_append.mp hy with hy | hy
    · exact List.mem_append_right _ (h.waiting y (.tail _ hy))
    · exact List.mem_append_left _ hy
  · intro y hy hwait
    rw [List.mem_append, not_or] at hwait
    rcases List.mem_append.mp hy with hy | hy
    · exact absurd hy hwait.2
    · by_cases hyx : y = x
      · subst hyx
        refine ⟨?_, hdst⟩
        intro z hz
        by_cases hzv : z ∈ visited
        · exact List.mem_append_right _ hzv
        · exact List.mem_append_left _ (List.mem_filter.mpr ⟨hz, decide_eq_true hzv⟩)
      · have hnot : y ∉ x :: queue := by
          rw [List.mem_cons, not_or]
          exact ⟨hyx, hwait.1⟩
        obtain ⟨hnext, hdst⟩ := h.done y hy hnot
        exact ⟨fun z hz => List.mem_append_right _ (hnext z hz), hdst⟩

/-- What an edge leads to. -/
def Edge (next : α → List α) (a b : α) : Prop := b ∈ next a

omit [DecidableEq α] in
theorem Searched.mem_of_reach (h : Searched next dst visited []) {x y : α} (hx : x ∈ visited)
    (hxy : Relation.ReflTransGen (Edge next) x y) : y ∈ visited := by
  induction hxy with
  | refl => exact hx
  | tail _ hstep ih => exact (h.done _ ih List.not_mem_nil).1 _ hstep

/-- The search finds the node exactly when a path leads to it from a visited one. -/
theorem search_iff_transGen {b : Bool} (h : Searched next dst visited queue)
    (hrun : search next dst fuel visited queue = some b) :
    b = true ↔ ∃ x ∈ visited, TransGen (Edge next) x dst := by
  induction fuel generalizing visited queue with
  | zero =>
      cases queue with
      | cons x queue => cases hrun
      | nil =>
          cases hrun
          refine ⟨fun hb => (nomatch hb), ?_⟩
          rintro ⟨x, hx, hpath⟩
          obtain ⟨y, hxy, hy⟩ := Relation.TransGen.tail'_iff.mp hpath
          exact absurd hy (h.done y (h.mem_of_reach hx hxy) List.not_mem_nil).2
  | succ fuel ih =>
      cases queue with
      | nil =>
          cases hrun
          refine ⟨fun hb => (nomatch hb), ?_⟩
          rintro ⟨x, hx, hpath⟩
          obtain ⟨y, hxy, hy⟩ := Relation.TransGen.tail'_iff.mp hpath
          exact absurd hy (h.done y (h.mem_of_reach hx hxy) List.not_mem_nil).2
      | cons x queue =>
          have hx := h.waiting x List.mem_cons_self
          rw [search] at hrun
          by_cases hdst : dst ∈ next x
          · rw [if_pos hdst] at hrun
            cases hrun
            exact ⟨fun _ => ⟨x, hx, .single hdst⟩, fun _ => rfl⟩
          · rw [if_neg hdst] at hrun
            rw [ih (h.step hdst) hrun]
            constructor
            · rintro ⟨y, hy, hpath⟩
              rcases List.mem_append.mp hy with hy | hy
              · exact ⟨x, hx, .head (List.mem_filter.mp hy).1 hpath⟩
              · exact ⟨y, hy, hpath⟩
            · rintro ⟨y, hy, hpath⟩
              exact ⟨y, List.mem_append_right _ hy, hpath⟩

/-- The nodes that have not been visited. -/
def unvisited (nodes visited : List α) : Nat := (nodes.filter (· ∉ visited)).length

/-- A node that is new is one node less to visit. -/
theorem unvisited_lt {nodes new : List α} {y : α} (hy : y ∈ new) (hnode : y ∈ nodes)
    (hnew : y ∉ visited) : unvisited nodes (new ++ visited) < unvisited nodes visited := by
  have hsub : nodes.filter (· ∉ new ++ visited) =
      (nodes.filter (· ∉ visited)).filter (· ∉ new) := by
    rw [List.filter_filter]
    apply List.filter_congr
    intro z _
    simp
  rw [unvisited, hsub]
  apply List.length_filter_lt_length_iff_exists.mpr
  exact ⟨y, List.mem_filter.mpr ⟨hnode, decide_eq_true hnew⟩, by simpa using hy⟩

/-- There is an answer when the fuel is enough for every node and edge. -/
theorem search_isSome {nodes : List α} {width : Nat}
    (hnodes : ∀ x, ∀ y ∈ next x, y ∈ nodes) (hwidth : ∀ x, (next x).length ≤ width)
    (hfuel : queue.length + width * unvisited nodes visited ≤ fuel) :
    (search next dst fuel visited queue).isSome := by
  induction fuel generalizing visited queue with
  | zero =>
      have hqueue : queue = [] := List.eq_nil_iff_length_eq_zero.mpr (by omega)
      rw [hqueue]
      rfl
  | succ fuel ih =>
      cases queue with
      | nil => rfl
      | cons x queue =>
          rw [search]
          by_cases hdst : dst ∈ next x
          · rw [if_pos hdst]
            rfl
          · rw [if_neg hdst]
            apply ih
            rw [List.length_append]
            rw [List.length_cons] at hfuel
            have hle : ((next x).filter (· ∉ visited)).length ≤ width :=
              Nat.le_trans (List.length_filter_le _ _) (hwidth x)
            cases hnew : (next x).filter (· ∉ visited) with
            | nil =>
                rw [List.nil_append, List.length_nil]
                omega
            | cons y ys =>
                rw [hnew] at hle
                have hy : y ∈ (next x).filter (· ∉ visited) := by
                  rw [hnew]
                  exact List.mem_cons_self
                obtain ⟨hnext, hnot⟩ := List.mem_filter.mp hy
                have hlt : unvisited nodes ((y :: ys) ++ visited) < unvisited nodes visited :=
                  unvisited_lt List.mem_cons_self (hnodes x y hnext) (of_decide_eq_true hnot)
                have hmul := Nat.mul_le_mul_left width hlt
                rw [Nat.mul_succ] at hmul
                omega

/-- The search from one node, with fuel for every node and edge, follows paths. -/
theorem search_from_iff {nodes : List α} {width : Nat} {a : α}
    (hnodes : ∀ x, ∀ y ∈ next x, y ∈ nodes) (hwidth : ∀ x, (next x).length ≤ width)
    (hfuel : width * nodes.length + 1 ≤ fuel) :
    search next dst fuel [a] [a] = some true ↔ TransGen (Edge next) a dst := by
  have hunvisited : unvisited nodes [a] ≤ nodes.length := List.length_filter_le _ _
  have hmul := Nat.mul_le_mul_left width hunvisited
  have hsome : (search next dst fuel [a] [a]).isSome := by
    apply search_isSome hnodes hwidth
    rw [List.length_singleton]
    omega
  obtain ⟨found, hfound⟩ := Option.isSome_iff_exists.mp hsome
  have hstart : Searched next dst [a] [a] := ⟨fun x hx => hx, fun x hx hnot => absurd hx hnot⟩
  rw [hfound, Option.some.injEq, search_iff_transGen hstart hfound]
  constructor
  · rintro ⟨x, hx, h⟩
    rw [List.mem_singleton.mp hx] at h
    exact h
  · exact fun h => ⟨a, List.mem_singleton_self a, h⟩

end Search

end Wok.Lib.Paths
