/-
Module: Wok.Proofs.Fixity
Purpose: The matrix of the table of operators: what setting a bit and joining two rows
  do, and that the closure holds exactly the pairs that a path of declared edges joins.
Imports: Mathlib.Data.List.Range, Wok.Spec.Fixity
Trusted boundary: none
Main exports: fixBit_fixSet, fixBit_orRow, closure_tighter, closure_strict,
  checkFixityCycles_eq_nil_iff
-/
import Mathlib.Data.List.Range
import Wok.Spec.Fixity

namespace Wok.Grammar

open Relation (TransGen)
open Wok.Lib.Paths (pivot pivots)

/-! ### Bits -/

theorem fixBit_eq_getLsbD (f : Fix) (i j : Nat) :
    fixBit f i j = (f.edge (i * f.words + j / 64)).getLsbD (j % 64) := by
  have hbit : ∀ (x : BitVec 64) (n : Nat),
      (x >>> n) &&& 1#64 = if x.getLsbD n then 1#64 else 0#64 := by
    intro x n
    apply BitVec.eq_of_getLsbD_eq
    intro m _
    rw [BitVec.getLsbD_and, BitVec.getLsbD_ushiftRight]
    cases m with
    | zero => cases x.getLsbD n <;> simp
    | succ m => cases x.getLsbD n <;> simp
  rw [fixBit, hbit]
  cases (f.edge (i * f.words + j / 64)).getLsbD (j % 64) <;> rfl

/-- Two places of the matrix are in the same word only if they are in the same row. -/
theorem word_inj {words a b i j : Nat} (hb : b < 64 * words) (hj : j < 64 * words)
    (h : a * words + b / 64 = i * words + j / 64) : a = i ∧ b / 64 = j / 64 := by
  have hb' : b / 64 < words := by omega
  have hj' : j / 64 < words := by omega
  have hai : a = i := by
    rcases Nat.lt_trichotomy a i with hlt | heq | hlt
    · have := Nat.mul_le_mul_right words hlt
      rw [Nat.succ_mul] at this
      omega
    · exact heq
    · have := Nat.mul_le_mul_right words hlt
      rw [Nat.succ_mul] at this
      omega
  subst hai
  exact ⟨rfl, by omega⟩

theorem fixBit_fixSet {f : Fix} {i j a b : Nat} (hj : j < 64 * f.words) (hb : b < 64 * f.words) :
    fixBit (fixSet f i j) a b ↔ fixBit f a b ∨ a = i ∧ b = j := by
  rw [fixBit_eq_getLsbD, fixBit_eq_getLsbD]
  simp only [fixSet, writeWord]
  split
  next hat =>
    obtain ⟨rfl, hword⟩ := word_inj hb hj hat
    rw [BitVec.getLsbD_or, ← hat, Bool.or_eq_true]
    have hone : (1#64 <<< (j % 64)).getLsbD (b % 64) = true ↔ b % 64 = j % 64 := by
      simp [BitVec.getLsbD_shiftLeft]
      omega
    rw [hone]
    constructor
    · rintro (h | h)
      · exact .inl h
      · exact .inr ⟨rfl, by omega⟩
    · rintro (h | ⟨-, rfl⟩)
      · exact .inl h
      · exact .inr rfl
  next hat =>
    constructor
    · exact .inl
    · rintro (h | ⟨rfl, rfl⟩)
      · exact h
      · exact absurd rfl hat

/-! ### Rows -/

/-- The inner loop of `orRow` over the words before `m`. -/
def orWords (k i : Nat) (f : Fix) (m : Nat) : Fix :=
  (List.range m).foldl (fun f w =>
    let at_ := i * f.words + w
    writeWord f at_ (f.edge at_ ||| f.edge (k * f.words + w))) f

theorem orWords_succ (k i : Nat) (f : Fix) (m : Nat) :
    orWords k i f (m + 1) =
      writeWord (orWords k i f m) (i * (orWords k i f m).words + m)
        ((orWords k i f m).edge (i * (orWords k i f m).words + m) |||
          (orWords k i f m).edge (k * (orWords k i f m).words + m)) := by
  rw [orWords, List.range_succ, List.foldl_append]
  rfl

/-- The words of row `i` are joined with those of row `k`, which stays as it is, also when
it is row `i`. -/
theorem orWords_edge (k i : Nat) (f : Fix) {m : Nat} (hm : m ≤ f.words) :
    (orWords k i f m).ops = f.ops ∧ (orWords k i f m).words = f.words ∧
      ∀ x, (orWords k i f m).edge x =
        if i * f.words ≤ x ∧ x < i * f.words + m then
          f.edge x ||| f.edge (k * f.words + (x - i * f.words))
        else f.edge x := by
  induction m with
  | zero =>
      refine ⟨rfl, rfl, ?_⟩
      intro x
      rw [if_neg (by omega)]
      rfl
  | succ m ih =>
      obtain ⟨hops, hwords, hedge⟩ := ih (Nat.le_of_succ_le hm)
      have hk : ¬ (i * f.words ≤ k * f.words + m ∧ k * f.words + m < i * f.words + m) := by
        rintro ⟨hle, hlt⟩
        have hki : k < i := by
          by_contra hik
          have := Nat.mul_le_mul_right f.words (Nat.not_lt.mp hik)
          omega
        have := Nat.mul_le_mul_right f.words hki
        rw [Nat.succ_mul] at this
        omega
      rw [orWords_succ, hwords]
      refine ⟨hops, hwords, ?_⟩
      intro x
      simp only [writeWord]
      by_cases hx : x = i * f.words + m
      · rw [if_pos hx, if_pos (by omega), hx, hedge, hedge, if_neg (by omega), if_neg hk]
        congr 3
        omega
      · rw [if_neg hx, hedge]
        by_cases hin : i * f.words ≤ x ∧ x < i * f.words + m
        · rw [if_pos hin, if_pos (by omega)]
        · rw [if_neg hin, if_neg (by omega)]

theorem orRow_eq (k : Nat) (f : Fix) (i : Nat) :
    orRow k f i = if fixBit f i k then orWords k i f f.words else f := rfl

theorem orRow_frame (k : Nat) (f : Fix) (i : Nat) :
    (orRow k f i).ops = f.ops ∧ (orRow k f i).words = f.words := by
  rw [orRow_eq]
  split
  · obtain ⟨hops, hwords, -⟩ := orWords_edge k i f (Nat.le_refl f.words)
    exact ⟨hops, hwords⟩
  · exact ⟨rfl, rfl⟩

/-- What `k` is tighter than, `i` is if it is tighter than `k`. -/
theorem fixBit_orRow {k i a b : Nat} {f : Fix} (hb : b < 64 * f.words) :
    fixBit (orRow k f i) a b ↔ fixBit f a b ∨ a = i ∧ fixBit f i k ∧ fixBit f k b := by
  rw [orRow_eq]
  split
  next hik =>
    obtain ⟨-, hwords, hedge⟩ := orWords_edge k i f (Nat.le_refl f.words)
    rw [fixBit_eq_getLsbD, hwords, hedge]
    have hword : b / 64 < f.words := by omega
    by_cases hai : a = i
    · subst hai
      rw [if_pos (by omega), BitVec.getLsbD_or, Nat.add_sub_cancel_left, ← fixBit_eq_getLsbD,
        ← fixBit_eq_getLsbD, Bool.or_eq_true]
      simp [hik]
    · have hout : ¬ (i * f.words ≤ a * f.words + b / 64 ∧
          a * f.words + b / 64 < i * f.words + f.words) := by
        rintro ⟨hle, hlt⟩
        rcases Nat.lt_or_gt_of_ne hai with h | h
        · have := Nat.mul_le_mul_right f.words h
          rw [Nat.succ_mul] at this
          omega
        · have := Nat.mul_le_mul_right f.words h
          rw [Nat.succ_mul] at this
          omega
      rw [if_neg hout, ← fixBit_eq_getLsbD]
      simp [hai]
  next hik => simp [hik]

/-! ### The closure -/

/-- The loop over the rows before `m`, for one pivot. -/
def pivotRows (k : Nat) (f : Fix) (m : Nat) : Fix := (List.range m).foldl (orRow k) f

theorem pivotRows_succ (k : Nat) (f : Fix) (m : Nat) :
    pivotRows k f (m + 1) = orRow k (pivotRows k f m) m := by
  rw [pivotRows, List.range_succ, List.foldl_append]
  rfl

theorem pivotRows_frame (k : Nat) (f : Fix) (m : Nat) :
    (pivotRows k f m).ops = f.ops ∧ (pivotRows k f m).words = f.words := by
  induction m with
  | zero => exact ⟨rfl, rfl⟩
  | succ m ih =>
      rw [pivotRows_succ]
      obtain ⟨hops, hwords⟩ := orRow_frame k (pivotRows k f m) m
      exact ⟨hops.trans ih.1, hwords.trans ih.2⟩

/-- The rows are changed in place: a row that has its turn later finds the row of the
pivot with no more in it than it had. -/
theorem fixBit_pivotRows {k a b m : Nat} {f : Fix} (hk : k < 64 * f.words)
    (hb : b < 64 * f.words) :
    fixBit (pivotRows k f m) a b ↔ fixBit f a b ∨ a < m ∧ fixBit f a k ∧ fixBit f k b := by
  induction m generalizing a b with
  | zero => simp [pivotRows]
  | succ m ih =>
      have hwords := (pivotRows_frame k f m).2
      rw [pivotRows_succ, fixBit_orRow (by rw [hwords]; exact hb), ih hb, ih hk, ih hb]
      constructor
      · rintro ((h | ⟨ham, hak, hkb⟩) | ⟨rfl, hmk, hkb⟩)
        · exact .inl h
        · exact .inr ⟨by omega, hak, hkb⟩
        · exact .inr ⟨by omega, hmk.elim id fun h => h.2.1, hkb.elim id fun h => h.2.2⟩
      · rintro (h | ⟨ham, hak, hkb⟩)
        · exact .inl (.inl h)
        · rcases Nat.lt_succ_iff_lt_or_eq.mp ham with ham | rfl
          · exact .inl (.inr ⟨ham, hak, hkb⟩)
          · exact .inr ⟨rfl, .inl hak, .inl hkb⟩

/-- The rows are wide enough for a bit for each operator. -/
def Fix.Wide (f : Fix) : Prop := f.n ≤ 64 * f.words

theorem pivotRows_tighter {k : Nat} {f : Fix} (hwide : f.Wide) (hk : k < f.n) :
    (pivotRows k f f.n).Tighter = pivot f.Tighter k := by
  funext a b
  apply propext
  have hn : (pivotRows k f f.n).n = f.n := congrArg List.length (pivotRows_frame k f f.n).1
  rw [Fix.Wide] at hwide
  simp only [Fix.Tighter, pivot, hn]
  constructor
  · rintro ⟨ha, hb, hbit⟩
    rcases (fixBit_pivotRows (by omega) (by omega)).mp hbit with h | ⟨-, hak, hkb⟩
    · exact .inl ⟨ha, hb, h⟩
    · exact .inr ⟨⟨ha, hk, hak⟩, hk, hb, hkb⟩
  · rintro (⟨ha, hb, h⟩ | ⟨⟨ha, -, hak⟩, -, hb, hkb⟩)
    · exact ⟨ha, hb, (fixBit_pivotRows (by omega) (by omega)).mpr (.inl h)⟩
    · exact ⟨ha, hb, (fixBit_pivotRows (by omega) (by omega)).mpr (.inr ⟨ha, hak, hkb⟩)⟩

/-- The loop over the pivots. -/
theorem pivotLoop_tighter {ks : List Nat} {f : Fix} (hwide : f.Wide) (hks : ∀ k ∈ ks, k < f.n) :
    (ks.foldl (fun g k => pivotRows k g g.n) f).ops = f.ops ∧
      (ks.foldl (fun g k => pivotRows k g g.n) f).words = f.words ∧
      (ks.foldl (fun g k => pivotRows k g g.n) f).Tighter = pivots f.Tighter ks := by
  induction ks using List.reverseRecOn with
  | nil => exact ⟨rfl, rfl, rfl⟩
  | append_singleton ks k ih =>
      obtain ⟨hops, hwords, htighter⟩ := ih fun k hk => hks k (List.mem_append_left _ hk)
      have hn := congrArg List.length hops
      rw [List.foldl_append, Wok.Lib.Paths.pivots_concat, ← htighter]
      generalize ks.foldl (fun g k => pivotRows k g g.n) f = g at hops hwords htighter hn ⊢
      have hgn : g.n = f.n := hn
      have hframe := pivotRows_frame k g g.n
      refine ⟨hframe.1.trans hops, hframe.2.trans hwords, ?_⟩
      have hgwide : g.Wide := by
        rw [Fix.Wide, hgn, hwords]
        exact hwide
      have hk : k < g.n := by
        rw [hgn]
        exact hks k (List.mem_append_right _ List.mem_cons_self)
      exact pivotRows_tighter hgwide hk

theorem closure_frame {f : Fix} (hwide : f.Wide) :
    (closure f).ops = f.ops ∧ (closure f).words = f.words := by
  obtain ⟨hops, hwords, -⟩ := pivotLoop_tighter hwide fun k hk => List.mem_range.mp hk
  exact ⟨hops, hwords⟩

/-- The closure holds the pairs that a path of edges joins, and only those. -/
theorem closure_tighter {f : Fix} (hwide : f.Wide) :
    (closure f).Tighter = TransGen f.Tighter := by
  have hloop := (pivotLoop_tighter hwide fun k hk => List.mem_range.mp hk).2.2
  refine Eq.trans hloop ?_
  funext a b
  apply propext
  apply Wok.Lib.Paths.pivots_iff_transGen
  intro a b h
  exact List.mem_range.mpr h.2.1

/-! ### The edges -/

theorem addEdge_frame (head : Nat) (f : Fix) (r : FixRel) :
    (addEdge head f r).ops = f.ops ∧ (addEdge head f r).words = f.words := by
  rw [addEdge]
  split
  · exact ⟨rfl, rfl⟩
  · split
    · exact ⟨rfl, rfl⟩
    · exact ⟨rfl, rfl⟩

theorem foldl_frame {σ : Type*} {g : Fix → σ → Fix}
    (hg : ∀ f x, (g f x).ops = f.ops ∧ (g f x).words = f.words) (xs : List σ) (f : Fix) :
    (xs.foldl g f).ops = f.ops ∧ (xs.foldl g f).words = f.words := by
  induction xs generalizing f with
  | nil => exact ⟨rfl, rfl⟩
  | cons x xs ih =>
      obtain ⟨hops, hwords⟩ := ih (g f x)
      exact ⟨hops.trans (hg f x).1, hwords.trans (hg f x).2⟩

theorem addEdges_frame (f : Fix) (d : FixDecl) :
    (addEdges f d).ops = f.ops ∧ (addEdges f d).words = f.words := by
  rw [addEdges]
  split
  · split
    · exact foldl_frame (addEdge_frame _) _ _
    · exact ⟨rfl, rfl⟩
  · exact ⟨rfl, rfl⟩

theorem declaredFix_frame (ds : List FixDecl) :
    (declaredFix ds).ops = (declareOps ds).1 ∧
      (declaredFix ds).words = ((declareOps ds).1.length + 63) / 64 :=
  foldl_frame addEdges_frame ds _

theorem declaredFix_wide (ds : List FixDecl) : (declaredFix ds).Wide := by
  obtain ⟨hops, hwords⟩ := declaredFix_frame ds
  rw [Fix.Wide, hwords, Fix.n, hops]
  omega

/-- The relation of the table is what the declared edges reach. -/
theorem buildFixity_tighter (ds : List FixDecl) :
    (buildFixity ds).1.Tighter = TransGen (declaredFix ds).Tighter :=
  closure_tighter (declaredFix_wide ds)

theorem buildFixity_ops (ds : List FixDecl) : (buildFixity ds).1.ops = (declareOps ds).1 :=
  (closure_frame (declaredFix_wide ds)).1.trans (declaredFix_frame ds).1

/-- The order of a table without cycles is strict. -/
theorem buildFixity_strict_iff (ds : List FixDecl) :
    (buildFixity ds).1.Strict ↔ (declaredFix ds).Acyclic := by
  constructor
  · intro h i hcycle
    rw [← buildFixity_tighter] at hcycle
    exact h.irrefl i hcycle
  · intro h
    constructor
    · rw [buildFixity_tighter]
      exact h
    · rw [buildFixity_tighter]
      intro i j k hij hjk
      exact hij.trans hjk

/-- A report of a cycle is a place of the diagonal. -/
theorem checkFixityCycles_eq_nil_iff (f : Fix) :
    checkFixityCycles f = [] ↔ ∀ i, ¬ f.Tighter i i := by
  rw [checkFixityCycles, List.filterMap_eq_nil_iff]
  constructor
  · -- the first place of the diagonal is reported
    intro h i
    induction i using Nat.strongRecOn with
    | _ i ih =>
        rintro ⟨hi, -, hbit⟩
        have hnone := h i (List.mem_range.mpr hi)
        have hfirst : ((List.range i).any fun j => fixBit f j j && fixBit f i j && fixBit f j i) =
            false := by
          rw [List.any_eq_false]
          intro j hj
          have hji := List.mem_range.mp hj
          have hjj : fixBit f j j = false := by
            by_contra hne
            exact ih j hji ⟨by omega, by omega, by simpa using hne⟩
          simp [hjj]
        have hop : f.ops[i]? = some f.ops[i] := List.getElem?_eq_getElem hi
        simp only [hbit, hfirst, hop] at hnone
        simp at hnone
  · intro h i hi
    have hbit : fixBit f i i = false := by
      by_contra hne
      exact h i ⟨List.mem_range.mp hi, List.mem_range.mp hi, by simpa using hne⟩
    simp [hbit]

/-- A table is strict when no cycle is reported. -/
theorem buildFixity_strict_of_cycles {ds : List FixDecl}
    (h : checkFixityCycles (buildFixity ds).1 = []) : (buildFixity ds).1.Strict := by
  rw [buildFixity_strict_iff]
  intro i hcycle
  rw [← buildFixity_tighter] at hcycle
  exact (checkFixityCycles_eq_nil_iff _).mp h i hcycle

/-! ### The comparison -/

theorem fixFind_some {ops : List FixOp} {a : String} {i : Nat} (h : fixFind ops a = some i) :
    ∃ op, ops[i]? = some op ∧ op.name.text = a := by
  obtain ⟨hi, ha, -⟩ := List.findIdx?_eq_some_iff_getElem.mp h
  exact ⟨ops[i], List.getElem?_eq_getElem hi, of_decide_eq_true ha⟩

theorem fixFind_lt {ops : List FixOp} {a : String} {i : Nat} (h : fixFind ops a = some i) :
    i < ops.length := (List.findIdx?_eq_some_iff_getElem.mp h).1

theorem fixFind_inj {ops : List FixOp} {a b : String} {i : Nat} (ha : fixFind ops a = some i)
    (hb : fixFind ops b = some i) : a = b := by
  obtain ⟨op, hop, rfl⟩ := fixFind_some ha
  obtain ⟨op', hop', rfl⟩ := fixFind_some hb
  rw [hop] at hop'
  cases hop'
  rfl

theorem fixCompare_of_find {f : Fix} {a b : String} {i j : Nat} (ha : fixFind f.ops a = some i)
    (hb : fixFind f.ops b = some j) : fixCompare f a b = compareOps f a i b j := by
  rw [fixCompare, ha, hb]

theorem fixCompare_eq_tighter {f : Fix} {a b : String} :
    fixCompare f a b = .tighter ↔ a ≠ b ∧ ∃ i j, fixFind f.ops a = some i ∧
      fixFind f.ops b = some j ∧ f.Tighter i j := by
  rw [fixCompare]
  cases ha : fixFind f.ops a with
  | none => by_cases hab : a = b <;> simp [hab]
  | some i =>
      cases hb : fixFind f.ops b with
      | none => by_cases hab : a = b <;> simp [hab]
      | some j =>
          have hi := fixFind_lt ha
          have hj := fixFind_lt hb
          simp only [compareOps]
          split
          next hab => simp [hab]
          next hab =>
            split
            next hbit =>
              exact ⟨fun _ => ⟨hab, i, j, rfl, rfl, hi, hj, hbit⟩, fun _ => rfl⟩
            next hbit =>
              constructor
              · split
                · exact fun h => nomatch h
                · exact fun h => nomatch h
              · rintro ⟨-, _, _, ⟨⟩, ⟨⟩, -, -, h⟩
                exact absurd h hbit

theorem fixCompare_eq_equal {f : Fix} {a b : String} : fixCompare f a b = .equal ↔ a = b := by
  rw [fixCompare]
  by_cases hab : a = b
  · subst hab
    cases fixFind f.ops a <;> simp [compareOps]
  · cases fixFind f.ops a with
    | none => simp [hab]
    | some i =>
        cases fixFind f.ops b with
        | none => simp [hab]
        | some j =>
            simp only [compareOps, hab, iff_false]
            split
            next h => cases h
            next =>
              split
              next => exact fun h => nomatch h
              next =>
                split
                next => exact fun h => nomatch h
                next => exact fun h => nomatch h

theorem fixCompare_eq_looser {f : Fix} (hstrict : f.Strict) {a b : String} :
    fixCompare f a b = .looser ↔ fixCompare f b a = .tighter := by
  rw [fixCompare_eq_tighter]
  constructor
  · intro h
    have hab : a ≠ b := by
      intro hab
      rw [fixCompare_eq_equal.mpr hab] at h
      cases h
    rw [fixCompare] at h
    cases ha : fixFind f.ops a with
    | none => simp [ha, hab] at h
    | some i =>
        cases hb : fixFind f.ops b with
        | none => simp [ha, hb, hab] at h
        | some j =>
            simp only [ha, hb, compareOps, if_neg hab] at h
            split at h
            next => cases h
            next =>
              split at h
              next hbit => exact ⟨hab.symm, j, i, rfl, rfl, fixFind_lt hb, fixFind_lt ha, hbit⟩
              next => cases h
  · rintro ⟨hba, j, i, hb, ha, hji⟩
    have hij : ¬ fixBit f i j := fun hij =>
      hstrict.irrefl i (hstrict.trans i j i ⟨hji.2.1, hji.1, hij⟩ hji)
    rw [fixCompare_of_find ha hb, compareOps, if_neg hba.symm, if_neg hij, if_pos hji.2.2]

/-- In a strict table the bit says which operators of it are tighter. -/
theorem fixCompare_eq_tighter_iff_bit {f : Fix} (hstrict : f.Strict) {a b : String} {i j : Nat}
    (ha : fixFind f.ops a = some i) (hb : fixFind f.ops b = some j) :
    fixCompare f a b = .tighter ↔ fixBit f i j = true := by
  rw [fixCompare_eq_tighter]
  constructor
  · rintro ⟨-, i', j', ha', hb', hbit⟩
    rw [ha] at ha'
    rw [hb] at hb'
    cases ha'
    cases hb'
    exact hbit.2.2
  · intro hbit
    have hij : f.Tighter i j := ⟨fixFind_lt ha, fixFind_lt hb, hbit⟩
    refine ⟨?_, i, j, ha, hb, hij⟩
    rintro rfl
    rw [ha] at hb
    cases hb
    exact hstrict.irrefl i hij

/-- A strict table compares names as a strict partial order does. -/
theorem fixFixities_lawful {f : Fix} (hstrict : f.Strict) : (fixFixities f).Lawful := by
  constructor
  · exact fixCompare_eq_equal
  · exact fixCompare_eq_looser hstrict
  · intro a b c hab hbc
    obtain ⟨-, i, j, ha, hb, hij⟩ := fixCompare_eq_tighter.mp hab
    obtain ⟨-, j', k, hb', hc, hjk⟩ := fixCompare_eq_tighter.mp hbc
    rw [hb] at hb'
    cases hb'
    have hik := hstrict.trans i j k hij hjk
    refine fixCompare_eq_tighter.mpr ⟨?_, i, k, ha, hc, hik⟩
    rintro rfl
    rw [ha] at hc
    cases hc
    exact hstrict.irrefl i hik

end Wok.Grammar
