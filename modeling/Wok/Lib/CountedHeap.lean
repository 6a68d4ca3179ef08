/-
Module: Wok.Lib.CountedHeap
Purpose: Finite heaps of reference-counted cells over any type of addresses:
  the balance of counts against edges, pending drops and roots, what one drop
  does to it, and which cells are left when no drop is pending.
Imports: Mathlib.Algebra.Order.BigOperators.Group.Finset,
  Mathlib.Data.Set.Finite.Basic, Mathlib.Logic.Relation, Mathlib.Order.WellFounded
Trusted boundary: none
Main exports: CountedHeap, CountedHeap.Reach, CountedHeap.Acyclic,
  CountedHeap.Balanced, CountedHeap.Shrinks, CountedHeap.Balanced.decrement,
  CountedHeap.Balanced.free, CountedHeap.Balanced.increment, CountedHeap.Balanced.add,
  CountedHeap.Balanced.mem_iff_reach
-/
import Mathlib.Algebra.Order.BigOperators.Group.Finset
import Mathlib.Data.Set.Finite.Basic
import Mathlib.Logic.Relation
import Mathlib.Order.WellFounded

namespace Wok.Lib

open Finset Relation

/-- A finite heap: the live cells, the count each of them stores and the counted
edges out of it, with repetitions. -/
structure CountedHeap (A : Type*) where
  live : Finset A
  count : A → ℕ
  kids : A → List A

namespace CountedHeap

variable {A : Type*} {G K : CountedHeap A} {W H : List A} {a b : A}

/-! ### Edges and what can be reached along them -/

/-- An edge out of a live cell. -/
def Edge (G : CountedHeap A) (b a : A) : Prop :=
  b ∈ G.live ∧ a ∈ G.kids b

/-- `a` can be reached from one of the roots `H` along edges. -/
def Reach (G : CountedHeap A) (H : List A) (a : A) : Prop :=
  ∃ h ∈ H, ReflTransGen G.Edge h a

/-- No live cell reaches itself. -/
def Acyclic (G : CountedHeap A) : Prop :=
  ∀ a, ¬ TransGen G.Edge a a

/-- `K` is what is left of `G`: fewer live cells with the edges they had. -/
structure Shrinks (G K : CountedHeap A) : Prop where
  live : K.live ⊆ G.live
  kids : ∀ a ∈ K.live, K.kids a = G.kids a

theorem Shrinks.refl (G : CountedHeap A) : G.Shrinks G :=
  ⟨Subset.refl _, fun _ _ => rfl⟩

theorem Shrinks.trans {L : CountedHeap A} (h : G.Shrinks K) (h' : K.Shrinks L) :
    G.Shrinks L := by
  constructor
  · exact h'.live.trans h.live
  · intro a ha
    rw [h'.kids a ha, h.kids a (h'.live ha)]

theorem Shrinks.edge (h : G.Shrinks K) (he : K.Edge b a) : G.Edge b a :=
  ⟨h.live he.1, h.kids b he.1 ▸ he.2⟩

theorem Shrinks.acyclic (h : G.Shrinks K) (hG : G.Acyclic) : K.Acyclic :=
  fun a ha => hG a (TransGen.mono (fun _ _ => h.edge) _ _ ha)

/-- What is left and can be reached could be reached before. -/
theorem Shrinks.reach (h : G.Shrinks K) (hr : K.Reach H a) : G.Reach H a := by
  rcases hr with ⟨r, hr, hpath⟩
  exact ⟨r, hr, ReflTransGen.mono (fun _ _ => h.edge) _ _ hpath⟩

/-- A rank that every edge raises shows that there is no cycle. -/
theorem acyclic_of_rank (rank : A → ℕ)
    (h : ∀ b ∈ G.live, ∀ a ∈ G.kids b, rank b < rank a) : G.Acyclic := by
  intro a ha
  have hrank : ∀ {b c}, TransGen G.Edge b c → rank b < rank c := by
    intro b c hbc
    induction hbc with
    | single he => exact h _ he.1 _ he.2
    | tail _ he ih => exact ih.trans (h _ he.1 _ he.2)
  exact lt_irrefl _ (hrank ha)

/-- In an acyclic heap some cell of any inhabited finite set has no edge from
that set. -/
theorem Acyclic.exists_source (hG : G.Acyclic) {S : Finset A} (hne : S.Nonempty) :
    ∃ a ∈ S, ∀ b ∈ S, ¬ G.Edge b a := by
  let above : S → S → Prop := fun b a => TransGen G.Edge b a
  have : IsTrans S above := ⟨fun _ _ _ hab hbc => hab.trans hbc⟩
  have : Std.Irrefl above := ⟨fun a => hG a⟩
  have hwf : WellFounded above := Finite.wellFounded_of_trans_of_irrefl above
  rcases hne with ⟨s, hs⟩
  rcases hwf.has_min Set.univ ⟨⟨s, hs⟩, trivial⟩ with ⟨⟨a, ha⟩, -, hmin⟩
  exact ⟨a, ha, fun b hb he => hmin ⟨b, hb⟩ trivial (.single he)⟩

variable [DecidableEq A]

/-! ### Counts and drops -/

/-- The counted edges from live cells to `a`. -/
def inDegree (G : CountedHeap A) (a : A) : ℕ :=
  ∑ b ∈ G.live, (G.kids b).count a

/-- Every count is the number of edges, pending drops `W` and roots `H` that
refer to the cell; nothing refers to a cell that is not live. -/
structure Balanced (G : CountedHeap A) (W H : List A) : Prop where
  pos : ∀ a ∈ G.live, 0 < G.count a
  count_eq : ∀ a ∈ G.live, G.count a = G.inDegree a + W.count a + H.count a
  closed : ∀ a, a ∉ G.live → G.inDegree a + W.count a + H.count a = 0

/-- `K` is `G` with the count of `a` one lower. -/
structure Decrements (a : A) (G K : CountedHeap A) : Prop where
  live : K.live = G.live
  kids : ∀ b ∈ K.live, K.kids b = G.kids b
  count_self : K.count a + 1 = G.count a
  count_ne : ∀ b ∈ K.live, b ≠ a → K.count b = G.count b

/-- `K` is `G` without the cell `a`. -/
structure Frees (a : A) (G K : CountedHeap A) : Prop where
  live : K.live = G.live.erase a
  kids : ∀ b ∈ K.live, K.kids b = G.kids b
  count : ∀ b ∈ K.live, K.count b = G.count b

omit [DecidableEq A] in
theorem Decrements.shrinks (h : Decrements a G K) : G.Shrinks K :=
  ⟨h.live.subset, h.kids⟩

theorem Frees.shrinks (h : Frees a G K) : G.Shrinks K :=
  ⟨h.live ▸ erase_subset a G.live, h.kids⟩

/-- A pending drop refers to a live cell. -/
theorem Balanced.mem_of_pending (h : G.Balanced W H) (ha : a ∈ W) : a ∈ G.live := by
  by_contra hdead
  have hzero := h.closed a hdead
  have hpos : 0 < W.count a := List.count_pos_iff.mpr ha
  omega

/-- A root refers to a live cell. -/
theorem Balanced.mem_of_root (h : G.Balanced W H) (ha : a ∈ H) : a ∈ G.live := by
  by_contra hdead
  have hzero := h.closed a hdead
  have hpos : 0 < H.count a := List.count_pos_iff.mpr ha
  omega

theorem count_le_inDegree (hb : b ∈ G.live) : (G.kids b).count a ≤ G.inDegree a :=
  single_le_sum (f := fun b => (G.kids b).count a) (fun _ _ => Nat.zero_le _) hb

/-- An edge leads to a live cell. -/
theorem Balanced.mem_of_edge (h : G.Balanced W H) (he : G.Edge b a) : a ∈ G.live := by
  by_contra hdead
  have hzero := h.closed a hdead
  have hpos : 0 < (G.kids b).count a := List.count_pos_iff.mpr he.2
  have hle := count_le_inDegree (a := a) he.1
  omega

/-- A root may be dropped: it becomes a pending drop. -/
theorem Balanced.pend (h : G.Balanced W (a :: H)) : G.Balanced (a :: W) H := by
  have hcount : ∀ b, (a :: W).count b + H.count b = W.count b + (a :: H).count b := by
    intro b
    simp only [List.count_cons]
    omega
  constructor
  · exact h.pos
  · intro b hb
    have heq := h.count_eq b hb
    have hb := hcount b
    omega
  · intro b hb
    have hzero := h.closed b hb
    have hb := hcount b
    omega

theorem inDegree_congr (hlive : K.live = G.live) (hkids : ∀ b ∈ K.live, K.kids b = G.kids b)
    (a : A) : K.inDegree a = G.inDegree a := by
  unfold inDegree
  rw [hlive] at hkids ⊢
  exact sum_congr rfl fun b hb => by rw [hkids b hb]

/-- Taking a cell away takes its edges away. -/
theorem inDegree_frees (h : Frees a G K) (ha : a ∈ G.live) (b : A) :
    K.inDegree b + (G.kids a).count b = G.inDegree b := by
  have hsum : K.inDegree b = ∑ c ∈ G.live.erase a, (G.kids c).count b := by
    unfold inDegree
    have hkids := h.kids
    rw [h.live] at hkids ⊢
    exact sum_congr rfl fun c hc => by rw [hkids c hc]
  rw [hsum]
  exact sum_erase_add G.live (fun c => (G.kids c).count b) ha

/-- A drop of a cell that others refer to lowers its count. -/
theorem Balanced.decrement (h : G.Balanced (a :: W) H) (hdec : Decrements a G K)
    (hcount : 1 < G.count a) : K.Balanced W H := by
  have hdegree := inDegree_congr hdec.live hdec.kids
  have hself := hdec.count_self
  constructor
  · intro b hb
    by_cases hba : b = a
    · subst hba
      omega
    · rw [hdec.count_ne b hb hba]
      exact h.pos b (hdec.live ▸ hb)
  · intro b hb
    have heq := h.count_eq b (hdec.live ▸ hb)
    rw [hdegree]
    by_cases hba : b = a
    · subst hba
      rw [List.count_cons_self] at heq
      omega
    · rw [List.count_cons_of_ne (Ne.symm hba)] at heq
      rw [hdec.count_ne b hb hba]
      exact heq
  · intro b hb
    have hzero := h.closed b (hdec.live ▸ hb)
    have hle : W.count b ≤ (a :: W).count b := List.count_le_count_cons
    rw [hdegree]
    omega

/-- The last drop of a cell frees it: what it referred to is dropped next. -/
theorem Balanced.free (h : G.Balanced (a :: W) H) (hfree : Frees a G K)
    (hcount : G.count a ≤ 1) : K.Balanced (G.kids a ++ W) H := by
  have ha : a ∈ G.live := h.mem_of_pending List.mem_cons_self
  have hdegree := inDegree_frees hfree ha
  -- the dropped reference was the only one: no edge, drop or root is left
  have hlast : G.inDegree a + W.count a + H.count a = 0 := by
    have heq := h.count_eq a ha
    rw [List.count_cons_self] at heq
    omega
  have hlive : ∀ b ∈ K.live, b ∈ G.live ∧ b ≠ a := by
    intro b hb
    rw [hfree.live, mem_erase] at hb
    exact ⟨hb.2, hb.1⟩
  constructor
  · intro b hb
    rw [hfree.count b hb]
    exact h.pos b (hlive b hb).1
  · intro b hb
    rcases hlive b hb with ⟨hbG, hba⟩
    have heq := h.count_eq b hbG
    have hdeg := hdegree b
    rw [List.count_cons_of_ne (Ne.symm hba)] at heq
    rw [hfree.count b hb, List.count_append]
    omega
  · intro b hb
    have hdeg := hdegree b
    rw [List.count_append]
    by_cases hba : b = a
    · subst hba
      omega
    · have hbG : b ∉ G.live := by
        intro hbG
        exact hb (hfree.live ▸ mem_erase.mpr ⟨hba, hbG⟩)
      have hzero := h.closed b hbG
      rw [List.count_cons_of_ne (Ne.symm hba)] at hzero
      omega

/-! ### New references and new cells -/

/-- `K` is `G` with the count of `a` one higher. -/
structure Increments (a : A) (G K : CountedHeap A) : Prop where
  live : K.live = G.live
  kids : ∀ b ∈ K.live, K.kids b = G.kids b
  count_self : K.count a = G.count a + 1
  count_ne : ∀ b ∈ K.live, b ≠ a → K.count b = G.count b

/-- `K` is `G` with a new cell `a`. -/
structure Adds (a : A) (G K : CountedHeap A) : Prop where
  new : a ∉ G.live
  live : K.live = insert a G.live
  kids : ∀ b ∈ G.live, K.kids b = G.kids b
  count : ∀ b ∈ G.live, K.count b = G.count b
  count_self : K.count a = 1

/-- Another reference to a live cell is one more root. -/
theorem Balanced.increment (h : G.Balanced W H) (hinc : Increments a G K) (ha : a ∈ G.live) :
    K.Balanced W (a :: H) := by
  have hdegree := inDegree_congr hinc.live hinc.kids
  have hself := hinc.count_self
  constructor
  · intro b hb
    by_cases hba : b = a
    · subst hba
      omega
    · rw [hinc.count_ne b hb hba]
      exact h.pos b (hinc.live ▸ hb)
  · intro b hb
    have heq := h.count_eq b (hinc.live ▸ hb)
    rw [hdegree]
    by_cases hba : b = a
    · subst hba
      rw [List.count_cons_self]
      omega
    · rw [List.count_cons_of_ne (Ne.symm hba), hinc.count_ne b hb hba]
      exact heq
  · intro b hb
    have hbG : b ∉ G.live := hinc.live ▸ hb
    have hba : b ≠ a := fun heq => hbG (heq ▸ ha)
    rw [hdegree, List.count_cons_of_ne (Ne.symm hba)]
    exact h.closed b hbG

/-- A new cell takes over the roots that it refers to, and is a root itself. -/
theorem Balanced.add (h : G.Balanced W (K.kids a ++ H)) (hadd : Adds a G K) :
    K.Balanced W (a :: H) := by
  have hdegree : ∀ b, K.inDegree b = (K.kids a).count b + G.inDegree b := by
    intro b
    unfold inDegree
    rw [hadd.live, sum_insert hadd.new]
    congr 1
    exact sum_congr rfl fun c hc => by rw [hadd.kids c hc]
  have hnew := h.closed a hadd.new
  simp only [List.count_append] at hnew
  constructor
  · intro b hb
    rw [hadd.live] at hb
    rcases mem_insert.mp hb with rfl | hb
    · rw [hadd.count_self]
      exact Nat.one_pos
    · rw [hadd.count b hb]
      exact h.pos b hb
  · intro b hb
    rw [hadd.live] at hb
    rw [hdegree]
    rcases mem_insert.mp hb with rfl | hb
    · rw [hadd.count_self, List.count_cons_self]
      omega
    · have hne : b ≠ a := fun heq => hadd.new (heq ▸ hb)
      have heq := h.count_eq b hb
      rw [List.count_append] at heq
      rw [hadd.count b hb, List.count_cons_of_ne (Ne.symm hne)]
      omega
  · intro b hb
    rw [hadd.live, mem_insert, not_or] at hb
    have hzero := h.closed b hb.2
    rw [List.count_append] at hzero
    rw [hdegree, List.count_cons_of_ne (Ne.symm hb.1)]
    omega

/-! ### What is left -/

/-- Balance shows it of every address once it is shown of the live cells. -/
theorem Balanced.of_live (hpos : ∀ a ∈ G.live, 0 < G.count a)
    (hcount : ∀ a ∈ G.live, G.count a = G.inDegree a + W.count a + H.count a)
    (hW : ∀ a ∈ W, a ∈ G.live) (hH : ∀ a ∈ H, a ∈ G.live)
    (hkids : ∀ b ∈ G.live, ∀ a ∈ G.kids b, a ∈ G.live) : G.Balanced W H := by
  refine ⟨hpos, hcount, fun a ha => ?_⟩
  have hWa : W.count a = 0 := List.count_eq_zero.mpr fun h => ha (hW a h)
  have hHa : H.count a = 0 := List.count_eq_zero.mpr fun h => ha (hH a h)
  have hdegree : G.inDegree a = 0 :=
    sum_eq_zero fun b hb => List.count_eq_zero.mpr fun h => ha (hkids b hb a h)
  omega

/-- With no drop pending, every live cell of an acyclic heap can be reached. -/
theorem Balanced.reach_of_mem (h : G.Balanced [] H) (hG : G.Acyclic) (ha : a ∈ G.live) :
    G.Reach H a := by
  classical
  by_contra hna
  let lost := G.live.filter (fun b => ¬ G.Reach H b)
  rcases hG.exists_source (S := lost) ⟨a, mem_filter.mpr ⟨ha, hna⟩⟩ with ⟨s, hs, hsource⟩
  rcases mem_filter.mp hs with ⟨hsG, hsR⟩
  -- the count of a lost cell that no lost cell refers to is zero
  have hroot : H.count s = 0 :=
    List.count_eq_zero.mpr fun hsH => hsR ⟨s, hsH, .refl⟩
  have hdegree : G.inDegree s = 0 := by
    apply sum_eq_zero
    intro b hb
    apply List.count_eq_zero.mpr
    intro hkid
    by_cases hbR : G.Reach H b
    · rcases hbR with ⟨r, hr, hpath⟩
      exact hsR ⟨r, hr, hpath.tail ⟨hb, hkid⟩⟩
    · exact hsource b (mem_filter.mpr ⟨hb, hbR⟩) ⟨hb, hkid⟩
  have heq := h.count_eq s hsG
  have hpos := h.pos s hsG
  rw [List.count_nil] at heq
  omega

/-- What the roots reached before the drops is still there after them. -/
theorem Balanced.mem_of_reach (hK : K.Balanced W H) (hGK : G.Shrinks K) (hr : G.Reach H a) :
    a ∈ K.live := by
  rcases hr with ⟨r, hr, hpath⟩
  induction hpath with
  | refl => exact hK.mem_of_root hr
  | tail _ he ih => exact hK.mem_of_edge ⟨ih, hGK.kids _ ih ▸ he.2⟩

/-- When no drop is pending any more, what is left of an acyclic heap is exactly
what the roots reached in it. -/
theorem Balanced.mem_iff_reach (hK : K.Balanced [] H) (hGK : G.Shrinks K) (hG : G.Acyclic) :
    a ∈ K.live ↔ G.Reach H a := by
  constructor
  · intro ha
    exact hGK.reach (hK.reach_of_mem (hGK.acyclic hG) ha)
  · exact hK.mem_of_reach hGK

end CountedHeap

end Wok.Lib
