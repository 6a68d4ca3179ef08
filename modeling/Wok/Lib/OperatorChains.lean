/-
Module: Wok.Lib.OperatorChains
Purpose: Flat chains of infix operators under a partial order of operators: the split at
  a loosest operator, the trees in which every operator stands where it may, and which
  chains have one.
Imports: Mathlib.Data.List.Basic
Trusted boundary: none
Main exports: Order, Fixities, Fixities.Lawful, Tree, Tree.Respects, loosest, split,
  Shielded, split_flatten, split_respects, shielded_iff_split, shielded_iff_tree
-/
import Mathlib.Data.List.Basic

namespace Wok.Lib.Chains

/-! ### Operators -/

/-- How an operator stands to another one. -/
inductive Order where
  | tighter
  | looser
  | equal
  | incomparable
  deriving Repr, DecidableEq

/-- How two operators compare, and which ones group to the left. -/
structure Fixities (κ : Type*) where
  compare : κ → κ → Order
  left : κ → Bool

variable {κ ω α : Type*} {F : Fixities κ}

/-- The comparison is that of a strict partial order. -/
structure Fixities.Lawful (F : Fixities κ) : Prop where
  equal_iff : ∀ {a b}, F.compare a b = .equal ↔ a = b
  looser_iff : ∀ {a b}, F.compare a b = .looser ↔ F.compare b a = .tighter
  trans : ∀ {a b c}, F.compare a b = .tighter → F.compare b c = .tighter →
    F.compare a c = .tighter

/-- `a` may stand at the top of the left operand of `k`. -/
def Fixities.OnLeft (F : Fixities κ) (k a : κ) : Prop :=
  F.compare a k = .tighter ∨ a = k ∧ F.left k = true

/-- `a` may stand at the top of the right operand of `k`. -/
def Fixities.OnRight (F : Fixities κ) (k a : κ) : Prop :=
  F.compare a k = .tighter ∨ a = k ∧ F.left k = false

/-- `a` is `k` or tighter. -/
def Fixities.Below (F : Fixities κ) (k a : κ) : Prop :=
  F.compare a k = .tighter ∨ a = k

theorem Fixities.OnLeft.below {k a : κ} (h : F.OnLeft k a) : F.Below k a :=
  h.imp id And.left

theorem Fixities.OnRight.below {k a : κ} (h : F.OnRight k a) : F.Below k a :=
  h.imp id And.left

namespace Fixities.Lawful

variable (hF : F.Lawful) {a b c k : κ}
include hF

theorem refl : F.compare a a = .equal := hF.equal_iff.mpr rfl

theorem irrefl : F.compare a a ≠ .tighter := by
  rw [hF.refl]
  exact fun h => nomatch h

theorem asymm (h : F.compare a b = .tighter) : F.compare b a ≠ .tighter :=
  fun h' => hF.irrefl (hF.trans h h')

theorem incomparable_symm (h : F.compare a b = .incomparable) :
    F.compare b a = .incomparable := by
  cases hba : F.compare b a with
  | incomparable => rfl
  | tighter =>
      rw [hF.looser_iff.mpr hba] at h
      cases h
  | looser =>
      rw [hF.looser_iff.mp hba] at h
      cases h
  | equal =>
      rw [hF.equal_iff.mp hba, hF.refl] at h
      cases h

theorem tighter_of_below (h : F.compare k c = .tighter) (ha : F.Below k a) :
    F.compare a c = .tighter := by
  rcases ha with ha | rfl
  · exact hF.trans ha h
  · exact h

theorem below_trans (ha : F.Below k a) (hk : F.Below c k) : F.Below c a := by
  rcases hk with hk | rfl
  · exact .inl (hF.tighter_of_below hk ha)
  · exact ha

theorem comparable_of_below (ha : F.Below k a) : F.compare a k ≠ .incomparable := by
  rcases ha with ha | rfl
  · rw [ha]
    exact fun h => nomatch h
  · rw [hF.refl]
    exact fun h => nomatch h

/-- The comparison is determined by which operators are tighter. -/
theorem compare_congr {G : Fixities κ} (hG : G.Lawful)
    (h : ∀ a b, F.compare a b = .tighter ↔ G.compare a b = .tighter) (a b : κ) :
    F.compare a b = G.compare a b := by
  cases hcmp : F.compare a b with
  | tighter => exact ((h a b).mp hcmp).symm
  | looser => exact (hG.looser_iff.mpr ((h b a).mp (hF.looser_iff.mp hcmp))).symm
  | equal => exact (hG.equal_iff.mpr (hF.equal_iff.mp hcmp)).symm
  | incomparable =>
      cases hcmp' : G.compare a b with
      | tighter =>
          rw [(h a b).mpr hcmp'] at hcmp
          cases hcmp
      | looser =>
          rw [hF.looser_iff.mpr ((h b a).mpr (hG.looser_iff.mp hcmp'))] at hcmp
          cases hcmp
      | equal =>
          rw [hF.equal_iff.mpr (hG.equal_iff.mp hcmp')] at hcmp
          cases hcmp
      | incomparable => rfl

end Fixities.Lawful

/-! ### Trees -/

/-- Operands and operators as a binary tree. -/
inductive Tree (ω α : Type*) where
  | leaf (a : α)
  | node (l : Tree ω α) (o : ω) (r : Tree ω α)

namespace Tree

/-- The first operand. -/
def head : Tree ω α → α
  | .leaf a => a
  | .node l _ _ => l.head

/-- The operators in order, each with the operand after it. -/
def tail : Tree ω α → List (ω × α)
  | .leaf _ => []
  | .node l o r => l.tail ++ (o, r.head) :: r.tail

def root : Tree ω α → Option ω
  | .leaf _ => none
  | .node _ o _ => some o

/-- At each node the operands' operators are on a side where they may stand. -/
def Respects (F : Fixities κ) (key : ω → κ) : Tree ω α → Prop
  | .leaf _ => True
  | .node l o r =>
      (∀ o' ∈ l.root, F.OnLeft (key o) (key o')) ∧ (∀ o' ∈ r.root, F.OnRight (key o) (key o')) ∧
        l.Respects F key ∧ r.Respects F key

/-- The tree with other operands. -/
def map {β : Type*} (g : α → β) : Tree ω α → Tree ω β
  | .leaf a => .leaf (g a)
  | .node l o r => .node (l.map g) o (r.map g)

theorem root_mem {t : Tree ω α} {o : ω} (h : t.root = some o) : ∃ a, (o, a) ∈ t.tail := by
  cases t with
  | leaf => cases h
  | node l o' r =>
      cases h
      exact ⟨r.head, List.mem_append_right _ List.mem_cons_self⟩

end Tree

/-! ### The split -/

/-- The scan for a loosest operator, where `best` at `bestIdx` is the loosest one before
`i`; two operators that do not compare end it. -/
def loosestFrom (F : Fixities κ) : κ → Nat → Nat → List κ → Option Nat
  | _, bestIdx, _, [] => some bestIdx
  | best, bestIdx, i, k :: ks =>
      match F.compare k best with
      | .tighter => loosestFrom F best bestIdx (i + 1) ks
      | .looser => loosestFrom F k i (i + 1) ks
      | .equal =>
          if F.left best then loosestFrom F k i (i + 1) ks
          else loosestFrom F best bestIdx (i + 1) ks
      | .incomparable => none

def loosest (F : Fixities κ) : List κ → Option Nat
  | [] => none
  | k :: ks => loosestFrom F k 0 1 ks

theorem loosestFrom_lt {best : κ} {bestIdx i idx : Nat} {ks : List κ} (hbest : bestIdx < i)
    (h : loosestFrom F best bestIdx i ks = some idx) : idx < i + ks.length := by
  induction ks generalizing best bestIdx i with
  | nil =>
      cases h
      exact hbest
  | cons k ks ih =>
      have hnext : ∀ {best : κ} {bestIdx : Nat}, bestIdx < i + 1 →
          loosestFrom F best bestIdx (i + 1) ks = some idx → idx < i + (k :: ks).length := by
        intro best bestIdx hbest h
        have := ih hbest h
        rw [List.length_cons]
        omega
      rw [loosestFrom] at h
      split at h
      · exact hnext (Nat.lt_succ_of_lt hbest) h
      · exact hnext (Nat.lt_succ_self i) h
      · split at h
        · exact hnext (Nat.lt_succ_self i) h
        · exact hnext (Nat.lt_succ_of_lt hbest) h
      · cases h

theorem loosest_lt {ks : List κ} {idx : Nat} (h : loosest F ks = some idx) :
    idx < ks.length := by
  cases ks with
  | nil => cases h
  | cons k ks =>
      have := loosestFrom_lt Nat.zero_lt_one h
      rw [List.length_cons]
      omega

/-- Split at a loosest operator and go on with both sides. -/
def split (F : Fixities κ) (key : ω → κ) (h : α) (xs : List (ω × α)) : Option (Tree ω α) :=
  match xs with
  | [] => some (.leaf h)
  | x :: xs =>
      match loosest F ((x :: xs).map fun x => key x.1) with
      | none => none
      | some idx =>
          match hdrop : (x :: xs).drop idx with
          | [] => none
          | (o, a) :: right => do
              let l ← split F key h ((x :: xs).take idx)
              let r ← split F key a right
              return .node l o r
termination_by xs.length
decreasing_by
  · have hlen := congrArg List.length hdrop
    simp only [List.length_drop, List.length_cons, List.length_take] at hlen ⊢
    omega
  · have hlen := congrArg List.length hdrop
    simp only [List.length_drop, List.length_cons] at hlen ⊢
    omega

/-- `k`, which comes after `as` and before `bs`, is where the chain is split. -/
structure Splits (F : Fixities κ) (as : List κ) (k : κ) (bs : List κ) : Prop where
  left : ∀ a ∈ as, F.OnLeft k a
  right : ∀ b ∈ bs, F.OnRight k b

section Scan

variable (hF : F.Lawful) {as bs ks : List κ} {best k : κ} {idx : Nat}
include hF

/-- One operator further: it is the new place of the split, or the old one stays. -/
theorem Splits.step (h : Splits F as best bs) (hk : F.compare k best ≠ .incomparable) :
    (F.compare k best = .looser ∨ F.compare k best = .equal ∧ F.left best = true) ∧
        Splits F (as ++ best :: bs) k [] ∨
      (F.compare k best = .tighter ∨ F.compare k best = .equal ∧ F.left best = false) ∧
        Splits F as best (bs ++ [k]) := by
  cases hcmp : F.compare k best with
  | incomparable => exact absurd hcmp hk
  | tighter =>
      refine .inr ⟨.inl rfl, h.left, ?_⟩
      intro b hb
      rcases List.mem_append.mp hb with hb | hb
      · exact h.right b hb
      · rw [List.mem_singleton.mp hb]
        exact .inl hcmp
  | looser =>
      have hbest := hF.looser_iff.mp hcmp
      refine .inl ⟨.inl rfl, ?_, List.forall_mem_nil _⟩
      intro a ha
      rcases List.mem_append.mp ha with ha | ha
      · exact .inl (hF.tighter_of_below hbest (h.left a ha).below)
      · rcases List.mem_cons.mp ha with rfl | ha
        · exact .inl hbest
        · exact .inl (hF.tighter_of_below hbest (h.right a ha).below)
  | equal =>
      have heq := hF.equal_iff.mp hcmp
      subst heq
      cases hleft : F.left k with
      | true =>
          refine .inl ⟨.inr ⟨rfl, rfl⟩, ?_, List.forall_mem_nil _⟩
          intro a ha
          rcases List.mem_append.mp ha with ha | ha
          · exact h.left a ha
          · rcases List.mem_cons.mp ha with rfl | ha
            · exact .inr ⟨rfl, hleft⟩
            · rcases h.right a ha with ha | ⟨rfl, -⟩
              · exact .inl ha
              · exact .inr ⟨rfl, hleft⟩
      | false =>
          refine .inr ⟨.inr ⟨rfl, rfl⟩, h.left, ?_⟩
          intro b hb
          rcases List.mem_append.mp hb with hb | hb
          · exact h.right b hb
          · rw [List.mem_singleton.mp hb]
            exact .inr ⟨rfl, hleft⟩

theorem loosestFrom_splits (h : Splits F as best bs)
    (hrun : loosestFrom F best as.length (as.length + bs.length + 1) ks = some idx) :
    ∃ as' k bs', as ++ best :: (bs ++ ks) = as' ++ k :: bs' ∧ as'.length = idx ∧
      Splits F as' k bs' := by
  induction ks generalizing as best bs with
  | nil =>
      cases hrun
      exact ⟨as, best, bs, by rw [List.append_nil], rfl, h⟩
  | cons k ks ih =>
      rw [loosestFrom] at hrun
      have hk : F.compare k best ≠ .incomparable := by
        intro hcmp
        rw [hcmp] at hrun
        cases hrun
      rcases h.step hF hk with ⟨hnew, hsplits⟩ | ⟨hold, hsplits⟩
      · have hrun' : loosestFrom F k (as ++ best :: bs).length
            ((as ++ best :: bs).length + ([] : List κ).length + 1) ks = some idx := by
          have hlength : (as ++ best :: bs).length = as.length + bs.length + 1 := by
            simp
            omega
          rw [hlength]
          rcases hnew with hcmp | ⟨hcmp, hleft⟩
          · simpa [hcmp] using hrun
          · simpa [hcmp, hleft] using hrun
        obtain ⟨as', k', bs', heq, hidx, hsplits'⟩ := ih hsplits hrun'
        refine ⟨as', k', bs', ?_, hidx, hsplits'⟩
        rw [← heq]
        simp
      · have hrun' : loosestFrom F best as.length (as.length + (bs ++ [k]).length + 1) ks =
            some idx := by
          rw [List.length_append, List.length_singleton, ← Nat.add_assoc]
          rcases hold with hcmp | ⟨hcmp, hleft⟩
          · simpa [hcmp] using hrun
          · simpa [hcmp, hleft] using hrun
        obtain ⟨as', k', bs', heq, hidx, hsplits'⟩ := ih hsplits hrun'
        refine ⟨as', k', bs', ?_, hidx, hsplits'⟩
        rw [← heq]
        simp

/-- The scan finds a place to split at. -/
theorem loosest_splits (h : loosest F ks = some idx) :
    ∃ as k bs, ks = as ++ k :: bs ∧ as.length = idx ∧ Splits F as k bs := by
  cases ks with
  | nil => cases h
  | cons k ks =>
      have hstart : Splits F [] k [] := ⟨List.forall_mem_nil _, List.forall_mem_nil _⟩
      exact loosestFrom_splits hF hstart h

end Scan

/-! ### The tree of a split -/

section Run

variable {key : ω → κ} {h : α} {xs : List (ω × α)} {t : Tree ω α}

theorem split_stuck {x : ω × α} (hidx : loosest F ((x :: xs).map fun x => key x.1) = none) :
    split F key h (x :: xs) = none := by
  rw [split, hidx]

theorem split_cons {x : ω × α} {idx : Nat} {o : ω} {a : α} {right : List (ω × α)}
    (hidx : loosest F ((x :: xs).map fun x => key x.1) = some idx)
    (hdrop : (x :: xs).drop idx = (o, a) :: right) :
    split F key h (x :: xs) = (split F key h ((x :: xs).take idx)).bind fun l =>
      (split F key a right).map fun r => .node l o r := by
  rw [split, hidx]
  simp only
  split
  next h =>
    rw [h] at hdrop
    cases hdrop
  next h =>
    rw [h] at hdrop
    cases hdrop
    cases split F key a right <;> rfl

/-- The split does not look at the operands. -/
theorem split_map {β : Type*} (g : α → β) :
    split F key (g h) (xs.map fun x => (x.1, g x.2)) = (split F key h xs).map (Tree.map g) := by
  induction hn : xs.length using Nat.strongRecOn generalizing h xs with
  | _ n ih =>
      cases xs with
      | nil => rw [List.map_nil, split, split, Option.map_some, Tree.map]
      | cons x xs =>
          have hkeys : ((x :: xs).map fun x => (x.1, g x.2)).map (fun x => key x.1) =
              (x :: xs).map fun x => key x.1 := by
            rw [List.map_map]
            rfl
          cases hidx : loosest F ((x :: xs).map fun x => key x.1) with
          | none =>
              rw [split_stuck hidx]
              exact split_stuck (hkeys ▸ hidx)
          | some idx =>
              have hlt := loosest_lt hidx
              rw [List.length_map] at hlt
              obtain ⟨o, a, right, hdrop⟩ : ∃ o a right, (x :: xs).drop idx = (o, a) :: right :=
                ⟨_, _, _, List.drop_eq_getElem_cons hlt⟩
              have hdrop' := congrArg (List.map fun x => (x.1, g x.2)) hdrop
              rw [List.map_drop, List.map_cons] at hdrop'
              have hright := congrArg List.length hdrop
              rw [List.length_drop, List.length_cons] at hright
              rw [List.length_cons] at hn hlt hright
              have hl := @ih _ (by rw [List.length_take, List.length_cons]; omega) h
                ((x :: xs).take idx) rfl
              have hr := @ih _ (by omega) a right rfl
              rw [List.map_take] at hl
              rw [split_cons hidx hdrop]
              refine Eq.trans (split_cons (hkeys ▸ hidx) hdrop') ?_
              refine Eq.trans (congrArg (Option.bind · _) hl) ?_
              rw [hr]
              cases split F key h ((x :: xs).take idx) with
              | none => rfl
              | some l =>
                  cases split F key a right with
                  | none => rfl
                  | some r => rfl

theorem loosestFrom_congr {G : Fixities κ} {best : κ} {bestIdx i : Nat} {ks : List κ}
    (hcmp : ∀ k ∈ best :: ks, ∀ k' ∈ best :: ks, F.compare k k' = G.compare k k')
    (hleft : ∀ k ∈ best :: ks, F.left k = G.left k) :
    loosestFrom F best bestIdx i ks = loosestFrom G best bestIdx i ks := by
  induction ks generalizing best bestIdx i with
  | nil => rfl
  | cons k ks ih =>
      have hstay : ∀ k' ∈ best :: ks, k' ∈ best :: k :: ks := by
        intro k' hk'
        rcases List.mem_cons.mp hk' with rfl | hk'
        · exact List.mem_cons_self
        · exact .tail _ (.tail _ hk')
      have hmove : ∀ k' ∈ k :: ks, k' ∈ best :: k :: ks := fun k' hk' => .tail _ hk'
      have ihstay : ∀ i, loosestFrom F best bestIdx i ks = loosestFrom G best bestIdx i ks :=
        fun i => ih (fun a ha b hb => hcmp a (hstay a ha) b (hstay b hb))
          fun a ha => hleft a (hstay a ha)
      have ihmove : ∀ b i, loosestFrom F k b i ks = loosestFrom G k b i ks :=
        fun b i => ih (fun a ha b hb => hcmp a (hmove a ha) b (hmove b hb))
          fun a ha => hleft a (hmove a ha)
      rw [loosestFrom, loosestFrom, hcmp k (hmove k List.mem_cons_self) best List.mem_cons_self,
        hleft best List.mem_cons_self]
      cases G.compare k best with
      | tighter => exact ihstay _
      | looser => exact ihmove _ _
      | incomparable => rfl
      | equal =>
          simp only
          split
          · exact ihmove _ _
          · exact ihstay _

theorem loosest_congr {G : Fixities κ} {ks : List κ}
    (hcmp : ∀ k ∈ ks, ∀ k' ∈ ks, F.compare k k' = G.compare k k')
    (hleft : ∀ k ∈ ks, F.left k = G.left k) : loosest F ks = loosest G ks := by
  cases ks with
  | nil => rfl
  | cons k ks => exact loosestFrom_congr hcmp hleft

/-- The split looks only at how the operators of the chain compare and group. -/
theorem split_congr {G : Fixities κ}
    (hcmp : ∀ x ∈ xs, ∀ y ∈ xs, F.compare (key x.1) (key y.1) = G.compare (key x.1) (key y.1))
    (hleft : ∀ x ∈ xs, F.left (key x.1) = G.left (key x.1)) :
    split F key h xs = split G key h xs := by
  induction hn : xs.length using Nat.strongRecOn generalizing h xs with
  | _ n ih =>
      cases xs with
      | nil => rw [split, split]
      | cons x xs =>
          have hkeys : loosest F ((x :: xs).map fun x => key x.1) =
              loosest G ((x :: xs).map fun x => key x.1) := by
            apply loosest_congr
            · intro k hk k' hk'
              obtain ⟨y, hy, rfl⟩ := List.mem_map.mp hk
              obtain ⟨y', hy', rfl⟩ := List.mem_map.mp hk'
              exact hcmp y hy y' hy'
            · intro k hk
              obtain ⟨y, hy, rfl⟩ := List.mem_map.mp hk
              exact hleft y hy
          cases hidx : loosest F ((x :: xs).map fun x => key x.1) with
          | none => rw [split_stuck hidx, split_stuck (hkeys ▸ hidx)]
          | some idx =>
              have hlt := loosest_lt hidx
              rw [List.length_map] at hlt
              obtain ⟨o, a, right, hdrop⟩ : ∃ o a right, (x :: xs).drop idx = (o, a) :: right :=
                ⟨_, _, _, List.drop_eq_getElem_cons hlt⟩
              have hsub : ∀ y ∈ right, y ∈ x :: xs := by
                intro y hy
                apply List.mem_of_mem_drop (i := idx)
                rw [hdrop]
                exact .tail _ hy
              have hright := congrArg List.length hdrop
              rw [List.length_drop, List.length_cons] at hright
              rw [List.length_cons] at hn hlt hright
              have hl := @ih _ (by rw [List.length_take, List.length_cons]; omega) h
                ((x :: xs).take idx)
                (fun y hy y' hy' => hcmp y (List.mem_of_mem_take hy) y' (List.mem_of_mem_take hy'))
                (fun y hy => hleft y (List.mem_of_mem_take hy)) rfl
              have hr := @ih _ (by omega) a right
                (fun y hy y' hy' => hcmp y (hsub y hy) y' (hsub y' hy'))
                (fun y hy => hleft y (hsub y hy)) rfl
              rw [split_cons hidx hdrop, split_cons (hkeys ▸ hidx) hdrop, hl, hr]

/-- A chain with an operator is split in two. -/
theorem split_node {x : ω × α} (hsplit : split F key h (x :: xs) = some t) :
    ∃ idx o a right l r, loosest F ((x :: xs).map fun x => key x.1) = some idx ∧
      (x :: xs).drop idx = (o, a) :: right ∧ split F key h ((x :: xs).take idx) = some l ∧
      split F key a right = some r ∧ t = .node l o r := by
  rw [split] at hsplit
  cases hidx : loosest F ((x :: xs).map fun x => key x.1) with
  | none =>
      rw [hidx] at hsplit
      cases hsplit
  | some idx =>
      rw [hidx] at hsplit
      simp only at hsplit
      split at hsplit
      next => cases hsplit
      next o a right hdrop =>
        obtain ⟨l, hl, hsplit⟩ := Option.bind_eq_some_iff.mp hsplit
        obtain ⟨r, hr, hsplit⟩ := Option.bind_eq_some_iff.mp hsplit
        cases hsplit
        exact ⟨idx, o, a, right, l, r, rfl, hdrop, hl, hr, rfl⟩

/-- The tree of a chain, read in order, is the chain. -/
theorem split_flatten (hsplit : split F key h xs = some t) : t.head = h ∧ t.tail = xs := by
  induction hn : xs.length using Nat.strongRecOn generalizing h xs t with
  | _ n ih =>
      cases xs with
      | nil =>
          rw [split] at hsplit
          cases hsplit
          exact ⟨rfl, rfl⟩
      | cons x xs =>
          obtain ⟨idx, o, a, right, l, r, -, hdrop, hl, hr, rfl⟩ := split_node hsplit
          have hlen := congrArg List.length hdrop
          simp only [List.length_drop, List.length_cons] at hlen hn
          obtain ⟨hlh, hlt⟩ := ih _ (by simp only [List.length_take, List.length_cons]; omega)
            hl rfl
          obtain ⟨hrh, hrt⟩ := ih _ (by omega) hr rfl
          refine ⟨hlh, ?_⟩
          rw [Tree.tail, hlt, hrh, hrt, ← hdrop, List.take_append_drop]

/-- Every operator of a split chain stands where it may. -/
theorem split_respects (hF : F.Lawful) (hsplit : split F key h xs = some t) :
    t.Respects F key := by
  induction hn : xs.length using Nat.strongRecOn generalizing h xs t with
  | _ n ih =>
      cases xs with
      | nil =>
          rw [split] at hsplit
          cases hsplit
          exact trivial
      | cons x xs =>
          obtain ⟨idx, o, a, right, l, r, hidx, hdrop, hl, hr, rfl⟩ := split_node hsplit
          have hlen := congrArg List.length hdrop
          simp only [List.length_drop, List.length_cons] at hlen hn
          obtain ⟨as, k, bs, hkeys, has, hsplits⟩ := loosest_splits hF hidx
          -- the keys before and after the place of the split
          have hleft : ((x :: xs).take idx).map (fun x => key x.1) = as := by
            rw [List.map_take, hkeys, ← has, List.take_left]
          have hright : key o = k ∧ right.map (fun x => key x.1) = bs := by
            have hmap := congrArg (List.map fun x => key x.1) hdrop
            rw [List.map_drop, hkeys, ← has, List.drop_left, List.map_cons] at hmap
            exact ⟨(List.cons.inj hmap).1.symm, (List.cons.inj hmap).2.symm⟩
          refine ⟨?_, ?_, ih _ (by simp only [List.length_take, List.length_cons]; omega) hl rfl,
            ih _ (by omega) hr rfl⟩
          · intro o' ho'
            obtain ⟨a', ha'⟩ := Tree.root_mem ho'
            rw [(split_flatten hl).2] at ha'
            rw [hright.1]
            apply hsplits.left
            rw [← hleft]
            exact List.mem_map_of_mem ha'
          · intro o' ho'
            obtain ⟨a', ha'⟩ := Tree.root_mem ho'
            rw [(split_flatten hr).2] at ha'
            rw [hright.1]
            apply hsplits.right
            rw [← hright.2]
            exact List.mem_map_of_mem ha'

end Run

/-! ### Chains that have a tree -/

/-- Between any two operators that do not compare there is one that is looser than
both. -/
def Shielded (F : Fixities κ) (ks : List κ) : Prop :=
  ∀ (i j : Nat) (a b : κ), ks[i]? = some a → ks[j]? = some b → i < j →
    F.compare a b = .incomparable → ∃ (m : Nat) (c : κ), i < m ∧ m < j ∧ ks[m]? = some c ∧
      F.compare a c = .tighter ∧ F.compare b c = .tighter

section Shields

variable {ks ls : List κ}

theorem Shielded.take (h : Shielded F ks) (n : Nat) : Shielded F (ks.take n) := by
  intro i j a b hi hj hij hcmp
  rw [List.getElem?_take] at hi hj
  split at hi
  next hin =>
    split at hj
    next hjn =>
      obtain ⟨m, c, him, hmj, hm, hac, hbc⟩ := h i j a b hi hj hij hcmp
      refine ⟨m, c, him, hmj, ?_, hac, hbc⟩
      rw [List.getElem?_take, if_pos (Nat.lt_trans hmj hjn)]
      exact hm
    next => cases hj
  next => cases hi

theorem Shielded.drop (h : Shielded F ks) (n : Nat) : Shielded F (ks.drop n) := by
  intro i j a b hi hj hij hcmp
  rw [List.getElem?_drop] at hi hj
  obtain ⟨m, c, him, hmj, hm, hac, hbc⟩ := h (n + i) (n + j) a b hi hj (by omega) hcmp
  refine ⟨m - n, c, by omega, by omega, ?_, hac, hbc⟩
  rw [List.getElem?_drop, Nat.add_sub_cancel' (by omega)]
  exact hm

variable (hF : F.Lawful)
include hF

/-- In a shielded chain the scan meets no two operators that do not compare. -/
theorem loosestFrom_isSome {as bs : List κ} {best : κ} {idx i : Nat}
    (hshield : Shielded F (as ++ best :: (bs ++ ks))) (h : Splits F as best bs) :
    (loosestFrom F best idx i ks).isSome := by
  induction ks generalizing as bs best idx i with
  | nil => rfl
  | cons k ks ih =>
      have hk : F.compare k best ≠ .incomparable := by
        intro hcmp
        have hbest : (as ++ best :: (bs ++ k :: ks))[as.length]? = some best := by simp
        have hnext : (as ++ best :: (bs ++ k :: ks))[as.length + bs.length + 1]? = some k := by
          rw [List.getElem?_append_right (by omega)]
          have hsub : as.length + bs.length + 1 - as.length = bs.length + 1 := by omega
          rw [hsub, List.getElem?_cons_succ, List.getElem?_append_right (Nat.le_refl _)]
          simp
        obtain ⟨m, c, him, hmj, hm, hbc, -⟩ := hshield _ _ best k hbest hnext (by omega)
          (hF.incomparable_symm hcmp)
        -- the shield is between the two and so not looser than `best`
        rw [List.getElem?_append_right (by omega)] at hm
        obtain ⟨d, hd⟩ : ∃ d, m - as.length = d + 1 := ⟨m - as.length - 1, by omega⟩
        rw [hd, List.getElem?_cons_succ, List.getElem?_append_left (by omega)] at hm
        rcases h.right c (List.mem_of_getElem? hm) with hc | ⟨rfl, -⟩
        · exact hF.asymm hbc hc
        · exact hF.irrefl hbc
      rw [loosestFrom]
      rcases h.step hF hk with ⟨hnew, hsplits⟩ | ⟨hold, hsplits⟩
      · have hrest := fun idx i => @ih (as ++ best :: bs) [] k idx i
          (by simpa using hshield) hsplits
        rcases hnew with hcmp | ⟨hcmp, hleft⟩
        · simpa [hcmp] using hrest _ _
        · simpa [hcmp, hleft] using hrest _ _
      · have hrest := fun idx i => @ih as (bs ++ [k]) best idx i
          (by simpa using hshield) hsplits
        rcases hold with hcmp | ⟨hcmp, hleft⟩
        · simpa [hcmp] using hrest _ _
        · simpa [hcmp, hleft] using hrest _ _

theorem loosest_isSome {k : κ} (hshield : Shielded F (k :: ks)) :
    (loosest F (k :: ks)).isSome := by
  have hstart : Splits F [] k [] := ⟨List.forall_mem_nil _, List.forall_mem_nil _⟩
  exact loosestFrom_isSome hF hshield hstart

/-- A shielded chain is split to the end. -/
theorem split_isSome {key : ω → κ} {h : α} {xs : List (ω × α)}
    (hshield : Shielded F (xs.map fun x => key x.1)) : ∃ t, split F key h xs = some t := by
  induction hn : xs.length using Nat.strongRecOn generalizing h xs with
  | _ n ih =>
      cases xs with
      | nil =>
          rw [split]
          exact ⟨_, rfl⟩
      | cons x xs =>
          obtain ⟨idx, hidx⟩ : ∃ idx, loosest F ((x :: xs).map fun x => key x.1) = some idx :=
            Option.isSome_iff_exists.mp (loosest_isSome hF hshield)
          obtain ⟨as, k, bs, hkeys, has, -⟩ := loosest_splits hF hidx
          have hlength := congrArg List.length hkeys
          simp only [List.length_map, List.length_append, List.length_cons] at hlength hn
          rw [split, hidx]
          simp only
          split
          next hdrop =>
            have hlen := congrArg List.length hdrop
            simp only [List.length_drop, List.length_cons, List.length_nil] at hlen
            omega
          next o a right hdrop =>
            have hlen := congrArg List.length hdrop
            simp only [List.length_drop, List.length_cons] at hlen
            have hright : right = (x :: xs).drop (idx + 1) := by
              rw [← List.drop_drop, hdrop]
              rfl
            obtain ⟨l, hl⟩ := @ih _ (by simp only [List.length_take, List.length_cons]; omega)
              h ((x :: xs).take idx) (by rw [List.map_take]; exact hshield.take idx) rfl
            obtain ⟨r, hr⟩ := @ih _ (by omega) a right
              (by rw [hright, List.map_drop]; exact hshield.drop (idx + 1)) rfl
            exact ⟨.node l o r, by rw [hl, hr]; rfl⟩

/-- The operators of a tree are no looser than the one at its root. -/
theorem Tree.Respects.below {key : ω → κ} {k : κ} {t : Tree ω α} (h : t.Respects F key)
    (hroot : ∀ o ∈ t.root, F.Below k (key o)) : ∀ x ∈ t.tail, F.Below k (key x.1) := by
  induction t generalizing k with
  | leaf => exact List.forall_mem_nil _
  | node l o r ihl ihr =>
      obtain ⟨hleft, hright, hl, hr⟩ := h
      have ho : F.Below k (key o) := hroot o rfl
      intro x hx
      rcases List.mem_append.mp hx with hx | hx
      · exact hF.below_trans (ihl hl (fun o' ho' => (hleft o' ho').below) x hx) ho
      · rcases List.mem_cons.mp hx with rfl | hx
        · exact ho
        · exact hF.below_trans (ihr hr (fun o' ho' => (hright o' ho').below) x hx) ho

/-- The chain of a tree that respects its operators is shielded: the operator at which
two others part shields them. -/
theorem Tree.Respects.shielded {key : ω → κ} {t : Tree ω α} (h : t.Respects F key) :
    Shielded F (t.tail.map fun x => key x.1) := by
  induction t with
  | leaf =>
      intro i j a b hi
      cases hi
  | node l o r ihl ihr =>
      obtain ⟨hleft, hright, hl, hr⟩ := h
      have hbelowl := hl.below hF fun o' ho' => (hleft o' ho').below
      have hbelowr := hr.below hF fun o' ho' => (hright o' ho').below
      have hkeys : (Tree.node l o r).tail.map (fun x => key x.1) =
          l.tail.map (fun x => key x.1) ++ key o :: r.tail.map (fun x => key x.1) := by
        simp [Tree.tail]
      intro i j a b hi hj hij hcmp
      rw [hkeys] at hi hj ⊢
      have hmid : (l.tail.map (fun x => key x.1) ++ key o ::
          r.tail.map (fun x => key x.1))[l.tail.length]? = some (key o) := by
        simp
      -- what stands before and after the root
      have hbefore : ∀ {i : Nat} {a : κ}, (l.tail.map (fun x => key x.1) ++ key o ::
          r.tail.map (fun x => key x.1))[i]? = some a → i < l.tail.length →
          (l.tail.map (fun x => key x.1))[i]? = some a := by
        intro i a hi hlt
        rwa [List.getElem?_append_left (by simpa using hlt)] at hi
      have hafter : ∀ {i : Nat} {a : κ}, (l.tail.map (fun x => key x.1) ++ key o ::
          r.tail.map (fun x => key x.1))[i]? = some a → l.tail.length < i →
          (r.tail.map (fun x => key x.1))[i - l.tail.length - 1]? = some a := by
        intro i a hi hlt
        rw [List.getElem?_append_right (by simpa using Nat.le_of_lt hlt), List.length_map] at hi
        obtain ⟨d, hd⟩ : ∃ d, i - l.tail.length = d + 1 := ⟨i - l.tail.length - 1, by omega⟩
        rw [hd, List.getElem?_cons_succ] at hi
        rw [hd]
        exact hi
      have hofleft : ∀ {i : Nat} {a : κ}, (l.tail.map (fun x => key x.1))[i]? = some a →
          F.Below (key o) a := by
        intro i a hi
        obtain ⟨x, hx, rfl⟩ := List.mem_map.mp (List.mem_of_getElem? hi)
        exact hbelowl x hx
      have hofright : ∀ {i : Nat} {a : κ}, (r.tail.map (fun x => key x.1))[i]? = some a →
          F.Below (key o) a := by
        intro i a hi
        obtain ⟨x, hx, rfl⟩ := List.mem_map.mp (List.mem_of_getElem? hi)
        exact hbelowr x hx
      rcases Nat.lt_trichotomy i l.tail.length with hil | hil | hil
      · rcases Nat.lt_trichotomy j l.tail.length with hjl | hjl | hjl
        · obtain ⟨m, c, him, hmj, hm, hac, hbc⟩ :=
            ihl hl i j a b (hbefore hi hil) (hbefore hj hjl) hij hcmp
          refine ⟨m, c, him, hmj, ?_, hac, hbc⟩
          rw [List.getElem?_append_left (by simpa using Nat.lt_trans hmj hjl)]
          exact hm
        · rw [hjl, hmid] at hj
          cases hj
          exact absurd hcmp (hF.comparable_of_below (hofleft (hbefore hi hil)))
        · have ha := hofleft (hbefore hi hil)
          have hb := hofright (hafter hj hjl)
          refine ⟨l.tail.length, key o, hil, hjl, hmid, ?_, ?_⟩
          · rcases ha with ha | rfl
            · exact ha
            · exact absurd (hF.incomparable_symm hcmp) (hF.comparable_of_below hb)
          · rcases hb with hb | rfl
            · exact hb
            · exact absurd hcmp (hF.comparable_of_below ha)
      · rw [hil, hmid] at hi
        cases hi
        have hb := hofright (hafter hj (by omega))
        exact absurd (hF.incomparable_symm hcmp) (hF.comparable_of_below hb)
      · obtain ⟨m, c, him, hmj, hm, hac, hbc⟩ := ihr hr _ _ a b (hafter hi hil)
          (hafter hj (by omega)) (by omega) hcmp
        refine ⟨m + l.tail.length + 1, c, by omega, by omega, ?_, hac, hbc⟩
        rw [List.getElem?_append_right (by simp; omega), List.length_map]
        have hsub : m + l.tail.length + 1 - l.tail.length = m + 1 := by omega
        rw [hsub, List.getElem?_cons_succ]
        exact hm

/-- The chains that are split to the end are the shielded ones. -/
theorem shielded_iff_split {key : ω → κ} {h : α} {xs : List (ω × α)} :
    Shielded F (xs.map fun x => key x.1) ↔ ∃ t, split F key h xs = some t := by
  constructor
  · exact split_isSome hF
  · rintro ⟨t, ht⟩
    rw [← (split_flatten ht).2]
    exact (split_respects hF ht).shielded hF

/-- They are those that have a tree in which each operator stands where it may. -/
theorem shielded_iff_tree {key : ω → κ} {h : α} {xs : List (ω × α)} :
    Shielded F (xs.map fun x => key x.1) ↔
      ∃ t : Tree ω α, t.head = h ∧ t.tail = xs ∧ t.Respects F key := by
  constructor
  · intro hshield
    obtain ⟨t, ht⟩ := split_isSome hF (h := h) hshield
    exact ⟨t, (split_flatten ht).1, (split_flatten ht).2, split_respects hF ht⟩
  · rintro ⟨t, -, rfl, ht⟩
    exact ht.shielded hF

end Shields

end Wok.Lib.Chains
