/-
Module: Wok.Proofs.FixityTable
Purpose: The fixity table of a module: its entries are those of the declarations, its
  edges the declared ones, the search of it follows paths, and it is accepted when every
  operator has one declaration and the relation has no cycle.
Imports: Wok.Spec.Fixity
Trusted boundary: none
Main exports: Sorted, mem_insertEntry, Whole, compareOps_eq_tighter, checkCycles_eq_nil_iff,
  buildFixityTable_ok_iff
-/
import Wok.Spec.Fixity

namespace Wok.Reordering

open Relation (TransGen ReflTransGen)
open Wok.Grammar (Assoc Sense OpName FixRel FixDecl)
open Wok.Lib.Paths

/-! ### Entries -/

/-- The entries are in key order, each key once. -/
def Sorted (m : Entries) : Prop := m.Pairwise fun x y => x.1 < y.1

theorem Sorted.tail {e : String × OpInfo} {m : Entries} (h : Sorted (e :: m)) : Sorted m :=
  (List.pairwise_cons.mp h).2

theorem mem_insertEntry {m : Entries} (h : Sorted m) {name : String} {info : OpInfo}
    {e : String × OpInfo} :
    e ∈ insertEntry name info m ↔ e = (name, info) ∨ e ∈ m ∧ e.1 ≠ name := by
  induction m with
  | nil => simp [insertEntry]
  | cons x m ih =>
      obtain ⟨k, i⟩ := x
      have hk : ∀ y ∈ m, k < y.1 := (List.pairwise_cons.mp h).1
      rw [insertEntry]
      split
      next hlt =>
        have hnew : ∀ y ∈ (k, i) :: m, y.1 ≠ name := by
          rintro y hy rfl
          rcases List.mem_cons.mp hy with rfl | hy
          · exact String.lt_irrefl _ hlt
          · exact String.lt_irrefl _ (String.lt_trans hlt (hk y hy))
        rw [List.mem_cons]
        constructor
        · rintro (he | he)
          · exact .inl he
          · exact .inr ⟨he, hnew e he⟩
        · rintro (he | ⟨he, -⟩)
          · exact .inl he
          · exact .inr he
      next hlt =>
        split
        next heq =>
          subst heq
          rw [List.mem_cons, List.mem_cons]
          constructor
          · rintro (he | he)
            · exact .inl he
            · refine .inr ⟨.inr he, ?_⟩
              intro hname
              have := hk e he
              rw [hname] at this
              exact String.lt_irrefl _ this
          · rintro (he | ⟨he | he, hne⟩)
            · exact .inl he
            · exact absurd (congrArg Prod.fst he) hne
            · exact .inr he
        next hne =>
          rw [List.mem_cons, ih h.tail, List.mem_cons]
          constructor
          · rintro (he | he | ⟨he, hname⟩)
            · refine .inr ⟨.inl he, ?_⟩
              rw [he]
              exact fun h => hne h.symm
            · exact .inl he
            · exact .inr ⟨.inr he, hname⟩
          · rintro (he | ⟨he | he, hname⟩)
            · exact .inr (.inl he)
            · exact .inl he
            · exact .inr (.inr ⟨he, hname⟩)

theorem sorted_insertEntry {m : Entries} (h : Sorted m) (name : String) (info : OpInfo) :
    Sorted (insertEntry name info m) := by
  induction m with
  | nil => exact List.pairwise_singleton _ _
  | cons x m ih =>
      obtain ⟨k, i⟩ := x
      have hk : ∀ y ∈ m, k < y.1 := (List.pairwise_cons.mp h).1
      rw [insertEntry]
      split
      next hlt =>
        apply List.pairwise_cons.mpr
        refine ⟨?_, h⟩
        intro y hy
        rcases List.mem_cons.mp hy with rfl | hy
        · exact hlt
        · exact String.lt_trans hlt (hk y hy)
      next hlt =>
        split
        next heq =>
          subst heq
          exact List.pairwise_cons.mpr ⟨hk, h.tail⟩
        next hne =>
          refine List.pairwise_cons.mpr ⟨?_, ih h.tail⟩
          intro y hy
          rcases (mem_insertEntry h.tail).mp hy with rfl | ⟨hy, -⟩
          · exact Std.lt_of_le_of_ne hlt fun heq => hne heq.symm
          · exact hk y hy

theorem lookup_eq_some_iff {m : Entries} (h : Sorted m) {k : String} {info : OpInfo} :
    m.lookup k = some info ↔ (k, info) ∈ m := by
  induction m with
  | nil => simp
  | cons x m ih =>
      obtain ⟨k', i⟩ := x
      have hk : ∀ y ∈ m, k' < y.1 := (List.pairwise_cons.mp h).1
      rw [List.lookup_cons]
      split
      next heq =>
        have heq := eq_of_beq heq
        subst heq
        constructor
        · intro hi
          cases hi
          exact List.mem_cons_self
        · intro hi
          rcases List.mem_cons.mp hi with hi | hi
          · cases hi
            rfl
          · exact absurd (hk _ hi) (String.lt_irrefl _)
      next hne =>
        rw [ih h.tail, List.mem_cons]
        constructor
        · exact .inr
        · rintro (hi | hi)
          · cases hi
            simp at hne
          · exact hi

/-! ### Edges -/

section Edges

variable {m : Entries} {a b : String}

theorem binds_iff (h : Sorted m) :
    Binds m a b ↔ (∃ info, (a, info) ∈ m ∧ b ∈ info.tighter) ∨
      ∃ info, (b, info) ∈ m ∧ a ∈ info.looser := by
  rw [Binds, outEdgesIn, List.mem_append, List.mem_map]
  constructor
  · rintro (hb | ⟨⟨k, info⟩, hk, rfl⟩)
    · cases ha : m.lookup a with
      | none => simp [ha] at hb
      | some info =>
          rw [ha] at hb
          exact .inl ⟨info, (lookup_eq_some_iff h).mp ha, hb⟩
    · obtain ⟨hk, hlooser⟩ := List.mem_filter.mp hk
      exact .inr ⟨info, hk, of_decide_eq_true hlooser⟩
  · rintro (⟨info, ha, hb⟩ | ⟨info, hb, ha⟩)
    · rw [(lookup_eq_some_iff h).mpr ha]
      exact .inl hb
    · exact .inr ⟨(b, info), List.mem_filter.mpr ⟨hb, decide_eq_true ha⟩, rfl⟩

/-- A table whose neighbours are all in it and whose edges make no cycle. -/
structure Whole (m : Entries) : Prop where
  sorted : Sorted m
  closed : ∀ k info, (k, info) ∈ m → ∀ n ∈ info.tighter ++ info.looser,
    ∃ info', (n, info') ∈ m
  acyclic : ∀ a, ¬ TransGen (Binds m) a a

theorem Whole.binds_mem (h : Whole m) (hab : Binds m a b) :
    (∃ info, (a, info) ∈ m) ∧ ∃ info, (b, info) ∈ m := by
  rcases (binds_iff h.sorted).mp hab with ⟨info, ha, hb⟩ | ⟨info, hb, ha⟩
  · exact ⟨⟨info, ha⟩, h.closed a info ha b (List.mem_append_left _ hb)⟩
  · exact ⟨h.closed b info hb a (List.mem_append_right _ ha), ⟨info, hb⟩⟩

theorem Whole.transGen_mem (h : Whole m) (hab : TransGen (Binds m) a b) :
    (∃ info, (a, info) ∈ m) ∧ ∃ info, (b, info) ∈ m := by
  obtain ⟨c, hac, -⟩ := TransGen.head'_iff.mp hab
  obtain ⟨d, -, hdb⟩ := TransGen.tail'_iff.mp hab
  exact ⟨(h.binds_mem hac).1, (h.binds_mem hdb).2⟩

/-! ### The search -/

theorem mem_targets {x y : String} (h : y ∈ outEdgesIn m x) : y ∈ targets m := by
  rw [outEdgesIn, List.mem_append] at h
  rw [targets, List.mem_append]
  rcases h with h | h
  · cases hx : m.lookup x with
    | none => simp [hx] at h
    | some info =>
        rw [hx] at h
        obtain ⟨pre, post, heq, -⟩ := List.lookup_eq_some_iff.mp hx
        refine .inl (List.mem_flatMap.mpr ⟨(x, info), ?_, h⟩)
        rw [heq]
        exact List.mem_append_right _ List.mem_cons_self
  · obtain ⟨e, he, rfl⟩ := List.mem_map.mp h
    exact .inr (List.mem_map_of_mem (List.mem_filter.mp he).1)

theorem outEdgesIn_length_le (m : Entries) (x : String) :
    (outEdgesIn m x).length ≤ (targets m).length := by
  rw [outEdgesIn, targets, List.length_append, List.length_append, List.length_map,
    List.length_map]
  apply Nat.add_le_add
  · cases hx : m.lookup x with
    | none => exact Nat.zero_le _
    | some info =>
        obtain ⟨pre, post, heq, -⟩ := List.lookup_eq_some_iff.mp hx
        rw [heq, List.flatMap_append, List.flatMap_cons, List.length_append, List.length_append]
        exact Nat.le_trans (Nat.le_add_right _ _) (Nat.le_add_left _ _)
  · exact List.length_filter_le _ _

/-- The search answers, and it follows paths of edges. -/
theorem reachable_iff : reachable m a b = true ↔ TransGen (Binds m) a b := by
  rw [reachable, decide_eq_true_eq]
  exact search_from_iff (fun x y => mem_targets) (outEdgesIn_length_le m) (Nat.le_refl _)

end Edges

/-! ### The comparison -/

theorem compareOps_eq_tighter {t : FixityTable} {a b : String} :
    compareOps t a b = .tighter ↔ a ≠ b ∧ (lookupOp t a).isSome ∧ (lookupOp t b).isSome ∧
      TransGen (Binds t.entries) a b := by
  rw [compareOps, ← reachable_iff]
  by_cases hab : a = b
  · simp [hab]
  · cases lookupOp t a <;> cases lookupOp t b <;> cases reachable t.entries a b <;>
      cases reachable t.entries b a <;> simp [hab]

/-- In a whole table the operators that a path joins are those that are tighter. -/
theorem Whole.tighterOp_iff {t : FixityTable} (h : Whole t.entries) {a b : String} :
    TighterOp t a b ↔ TransGen (Binds t.entries) a b := by
  rw [TighterOp, compareOps_eq_tighter]
  constructor
  · exact fun h => h.2.2.2
  · intro hab
    obtain ⟨⟨ia, ha⟩, ib, hb⟩ := h.transGen_mem hab
    refine ⟨?_, ?_, ?_, hab⟩
    · rintro rfl
      exact h.acyclic a hab
    · rw [lookupOp, (lookup_eq_some_iff h.sorted).mpr ha]
      rfl
    · rw [lookupOp, (lookup_eq_some_iff h.sorted).mpr hb]
      rfl

theorem compareOps_eq_equal {t : FixityTable} {a b : String} :
    compareOps t a b = .equal ↔ a = b := by
  rw [compareOps]
  by_cases hab : a = b
  · simp [hab]
  · cases lookupOp t a <;> cases lookupOp t b <;> cases reachable t.entries a b <;>
      cases reachable t.entries b a <;> simp [hab]

theorem Whole.compareOps_eq_looser {t : FixityTable} (h : Whole t.entries) {a b : String} :
    compareOps t a b = .looser ↔ compareOps t b a = .tighter := by
  have hasymm : reachable t.entries a b = true → reachable t.entries b a = false := by
    intro hab
    by_contra hba
    rw [Bool.not_eq_false, reachable_iff] at hba
    exact h.acyclic a ((reachable_iff.mp hab).trans hba)
  rw [compareOps, compareOps]
  by_cases hab : a = b
  · simp [hab]
  · cases hreach : reachable t.entries a b with
    | true =>
        cases lookupOp t a <;> cases lookupOp t b <;> simp [hab, Ne.symm hab, hasymm hreach]
    | false =>
        cases lookupOp t a <;> cases lookupOp t b <;> cases reachable t.entries b a <;>
          simp [hab, Ne.symm hab]

/-- A whole table compares as a strict partial order does. -/
theorem Whole.lawful {t : FixityTable} (h : Whole t.entries) : (tableFixities t).Lawful := by
  constructor
  · exact compareOps_eq_equal
  · exact h.compareOps_eq_looser
  · intro a b c hab hbc
    exact h.tighterOp_iff.mpr ((h.tighterOp_iff.mp hab).trans (h.tighterOp_iff.mp hbc))

/-! ### Building a table -/

/-- The entry of a declaration. -/
def infoOf (d : FixDecl) : OpInfo :=
  ⟨d.assoc, (fixNameInfo d.name).2.1, (partitionRels d.rels).1, (partitionRels d.rels).2,
    d.name.pos⟩

/-- The declaration relates its operator to itself. -/
def NamesItself (d : FixDecl) : Prop := ∃ r ∈ d.rels, r.name.text = d.name.text

theorem mem_partitionRels (rels : List FixRel) (n : String) :
    (n ∈ (partitionRels rels).1 ↔ ∃ r ∈ rels, r.sense = .tighter ∧ r.name.text = n) ∧
      (n ∈ (partitionRels rels).2 ↔ ∃ r ∈ rels, r.sense = .looser ∧ r.name.text = n) := by
  induction rels with
  | nil => simp [partitionRels]
  | cons r rels ih =>
      rw [partitionRels] at ih ⊢
      rw [List.foldr_cons]
      cases hsense : r.sense <;> simp [ih.1, ih.2, hsense, eq_comm]

theorem collect_eq (m : Entries) (errs : List FixityError) (d : FixDecl) :
    ∃ selfErrs, (selfErrs = [] ↔ ¬ NamesItself d) ∧
      (∀ e ∈ selfErrs, e = .selfReference d.name.text d.name.pos) ∧
      collect (m, errs) d = match m.lookup d.name.text with
        | some prev => (m, errs ++ selfErrs ++ [.redeclaredOp d.name.text prev.pos d.name.pos])
        | none => (insertEntry d.name.text (infoOf d) m, errs ++ selfErrs) := by
  have hself : d.name.text ∈ (partitionRels d.rels).1 ∨ d.name.text ∈ (partitionRels d.rels).2 ↔
      NamesItself d := by
    rw [(mem_partitionRels d.rels _).1, (mem_partitionRels d.rels _).2]
    constructor
    · rintro (⟨r, hr, -, hname⟩ | ⟨r, hr, -, hname⟩)
      · exact ⟨r, hr, hname⟩
      · exact ⟨r, hr, hname⟩
    · rintro ⟨r, hr, hname⟩
      cases hsense : r.sense with
      | tighter => exact .inl ⟨r, hr, hsense, hname⟩
      | looser => exact .inr ⟨r, hr, hsense, hname⟩
  refine ⟨if d.name.text ∈ (partitionRels d.rels).1 || d.name.text ∈ (partitionRels d.rels).2 then
    [.selfReference d.name.text d.name.pos] else [], ?_, ?_, ?_⟩
  · rw [← hself]
    simp
  · intro e he
    split at he
    · exact List.mem_singleton.mp he
    · cases he
  · rfl

/-- The declarations have operators of their own, and none of the table. -/
structure Fresh (m : Entries) (ds : List FixDecl) : Prop where
  nodup : (ds.map (·.name.text)).Nodup
  new : ∀ d ∈ ds, m.lookup d.name.text = none

theorem lookup_insertEntry_eq_none {m : Entries} (h : Sorted m) {name k : String}
    {info : OpInfo} :
    (insertEntry name info m).lookup k = none ↔ k ≠ name ∧ m.lookup k = none := by
  have hnone : ∀ {m : Entries}, Sorted m → (m.lookup k = none ↔ ∀ i, (k, i) ∉ m) := by
    intro m hm
    rw [Option.eq_none_iff_forall_ne_some]
    constructor
    · exact fun hk i hi => hk i ((lookup_eq_some_iff hm).mpr hi)
    · exact fun hk i hi => hk i ((lookup_eq_some_iff hm).mp hi)
  rw [hnone (sorted_insertEntry h name info), hnone h]
  constructor
  · intro hk
    have hne : k ≠ name := by
      rintro rfl
      exact hk info ((mem_insertEntry h).mpr (.inl rfl))
    exact ⟨hne, fun i hi => hk i ((mem_insertEntry h).mpr (.inr ⟨hi, hne⟩))⟩
  · rintro ⟨hne, hk⟩ i hi
    rcases (mem_insertEntry h).mp hi with heq | ⟨hi, -⟩
    · exact hne (congrArg Prod.fst heq)
    · exact hk i hi

theorem fresh_cons_iff {m : Entries} (h : Sorted m) {d : FixDecl} {ds : List FixDecl} :
    Fresh m (d :: ds) ↔
      m.lookup d.name.text = none ∧ Fresh (insertEntry d.name.text (infoOf d) m) ds := by
  constructor
  · rintro ⟨hnodup, hnew⟩
    rw [List.map_cons, List.nodup_cons] at hnodup
    refine ⟨hnew d List.mem_cons_self, hnodup.2, ?_⟩
    intro d' hd'
    rw [lookup_insertEntry_eq_none h]
    refine ⟨?_, hnew d' (.tail _ hd')⟩
    intro heq
    rw [← heq] at hnodup
    exact hnodup.1 (List.mem_map_of_mem hd')
  · rintro ⟨hd, hnodup, hnew⟩
    constructor
    · rw [List.map_cons, List.nodup_cons]
      refine ⟨?_, hnodup⟩
      intro hmem
      obtain ⟨d', hd', heq⟩ := List.mem_map.mp hmem
      exact ((lookup_insertEntry_eq_none h).mp (hnew d' hd')).1 heq
    · intro d' hd'
      rcases List.mem_cons.mp hd' with rfl | hd'
      · exact hd
      · exact ((lookup_insertEntry_eq_none h).mp (hnew d' hd')).2

/-- The entries of declarations that are fresh are added to the table. -/
theorem collect_entries {m : Entries} (hm : Sorted m) {ds : List FixDecl} (h : Fresh m ds)
    (errs : List FixityError) :
    Sorted (ds.foldl collect (m, errs)).1 ∧ ∀ e, e ∈ (ds.foldl collect (m, errs)).1 ↔
      e ∈ m ∨ ∃ d ∈ ds, e = (d.name.text, infoOf d) := by
  induction ds generalizing m errs with
  | nil => simp [hm]
  | cons d ds ih =>
      obtain ⟨hd, hfresh⟩ := (fresh_cons_iff hm).mp h
      obtain ⟨selfErrs, -, -, hcollect⟩ := collect_eq m errs d
      rw [hd] at hcollect
      rw [List.foldl_cons, hcollect]
      obtain ⟨hsorted, hmem⟩ := ih (sorted_insertEntry hm _ _) hfresh (errs ++ selfErrs)
      refine ⟨hsorted, ?_⟩
      intro e
      rw [hmem, mem_insertEntry hm]
      constructor
      · rintro ((rfl | ⟨he, -⟩) | ⟨d', hd', rfl⟩)
        · exact .inr ⟨d, List.mem_cons_self, rfl⟩
        · exact .inl he
        · exact .inr ⟨d', .tail _ hd', rfl⟩
      · rintro (he | ⟨d', hd', rfl⟩)
        · refine .inl (.inr ⟨he, ?_⟩)
          intro heq
          rw [← heq, Option.eq_none_iff_forall_ne_some] at hd
          exact hd e.2 ((lookup_eq_some_iff hm).mpr he)
        · rcases List.mem_cons.mp hd' with rfl | hd'
          · exact .inl (.inl rfl)
          · exact .inr ⟨d', hd', rfl⟩

/-- There are no errors if the declarations are fresh and none names itself. -/
theorem collect_errors {m : Entries} (hm : Sorted m) {ds : List FixDecl}
    (errs : List FixityError) :
    (ds.foldl collect (m, errs)).2 = [] ↔
      errs = [] ∧ Fresh m ds ∧ ∀ d ∈ ds, ¬ NamesItself d := by
  induction ds generalizing m errs with
  | nil =>
      constructor
      · exact fun h => ⟨h, ⟨List.nodup_nil, List.forall_mem_nil _⟩, List.forall_mem_nil _⟩
      · exact fun h => h.1
  | cons d ds ih =>
      obtain ⟨selfErrs, hself, -, hcollect⟩ := collect_eq m errs d
      rw [List.foldl_cons, hcollect, fresh_cons_iff hm, List.forall_mem_cons]
      cases hd : m.lookup d.name.text with
      | some prev =>
          simp only
          rw [ih hm]
          simp
      | none =>
          simp only
          rw [ih (sorted_insertEntry hm _ _), List.append_eq_nil_iff, hself]
          constructor
          · rintro ⟨⟨herrs, hnot⟩, hfresh, hrest⟩
            exact ⟨herrs, ⟨trivial, hfresh⟩, hnot, hrest⟩
          · rintro ⟨herrs, ⟨-, hfresh⟩, hnot, hrest⟩
            exact ⟨⟨herrs, hnot⟩, hfresh, hrest⟩

theorem checkNeighbors_eq_nil_iff {m : Entries} (hm : Sorted m) :
    checkNeighbors m = [] ↔ ∀ k info, (k, info) ∈ m → ∀ n ∈ info.tighter ++ info.looser,
      ∃ info', (n, info') ∈ m := by
  rw [checkNeighbors, List.flatMap_eq_nil_iff]
  constructor
  · intro h k info hk n hn
    have hnone := h (k, info) hk
    rw [List.map_eq_nil_iff, List.filter_eq_nil_iff] at hnone
    have hn' := hnone n hn
    cases hlookup : m.lookup n with
    | none =>
        rw [hlookup] at hn'
        exact absurd rfl hn'
    | some info' => exact ⟨info', (lookup_eq_some_iff hm).mp hlookup⟩
  · rintro h ⟨k, info⟩ hk
    rw [List.map_eq_nil_iff, List.filter_eq_nil_iff]
    intro n hn
    obtain ⟨info', hinfo'⟩ := h k info hk n hn
    rw [(lookup_eq_some_iff hm).mpr hinfo']
    exact Bool.false_ne_true

/-! ### Cycles -/

/-- The graph of `checkCycles`. -/
def cycleNodes (m : Entries) : List (String × List String) :=
  m.map fun e => (e.1, (outEdgesIn m e.1).filter (· ≠ e.1))

theorem graphReaches_iff {nodes : List (String × List String)} {a b : String} :
    graphReaches nodes a b = true ↔ TransGen (Edge (graphEdges nodes)) a b := by
  have hnodes : ∀ x, ∀ y ∈ graphEdges nodes x, y ∈ nodes.map (·.1) := by
    intro x y hy
    exact of_decide_eq_true (List.mem_filter.mp hy).2
  have hwidth : ∀ x, (graphEdges nodes x).length ≤ (nodes.map (·.2.length)).sum := by
    intro x
    refine Nat.le_trans (List.length_filter_le _ _) ?_
    cases hx : nodes.lookup x with
    | none => exact Nat.zero_le _
    | some edges =>
        obtain ⟨pre, post, heq, -⟩ := List.lookup_eq_some_iff.mp hx
        rw [heq, List.map_append, List.map_cons, List.sum_append, List.sum_cons]
        exact Nat.le_trans (Nat.le_add_right _ _) (Nat.le_add_left _ _)
  rw [graphReaches, decide_eq_true_eq]
  exact search_from_iff hnodes hwidth (Nat.le_refl _)

theorem lookup_map_self {β : Type*} (g : String → β) (m : Entries) (a : String) :
    (m.map fun e => (e.1, g e.1)).lookup a = (m.lookup a).map fun _ => g a := by
  induction m with
  | nil => rfl
  | cons e m ih =>
      rw [List.map_cons, List.lookup_cons, List.lookup_cons]
      cases heq : a == e.1 with
      | true =>
          rw [eq_of_beq heq]
          rfl
      | false => exact ih

theorem mem_graphEdges {m : Entries} (hm : Sorted m) {a b : String} :
    b ∈ graphEdges (cycleNodes m) a ↔
      (∃ info, (a, info) ∈ m) ∧ (∃ info, (b, info) ∈ m) ∧ Binds m a b ∧ b ≠ a := by
  have hkeys : b ∈ (cycleNodes m).map (·.1) ↔ ∃ info, (b, info) ∈ m := by
    rw [cycleNodes, List.map_map]
    simp
  have hlookup : (cycleNodes m).lookup a =
      (m.lookup a).map fun _ => (outEdgesIn m a).filter (· ≠ a) :=
    lookup_map_self (fun k => (outEdgesIn m k).filter (· ≠ k)) m a
  rw [graphEdges, List.mem_filter, decide_eq_true_eq, hkeys, hlookup]
  cases ha : m.lookup a with
  | none =>
      have hnot : ¬ ∃ info, (a, info) ∈ m := by
        rintro ⟨info, hinfo⟩
        rw [(lookup_eq_some_iff hm).mpr hinfo] at ha
        cases ha
      simp [hnot]
  | some info =>
      have hmem := (lookup_eq_some_iff hm).mp ha
      simp only [Option.map_some, Option.getD_some, List.mem_filter, decide_eq_true_eq]
      constructor
      · rintro ⟨⟨hb, hne⟩, hin⟩
        exact ⟨⟨info, hmem⟩, hin, hb, hne⟩
      · rintro ⟨-, hin, hb, hne⟩
        exact ⟨⟨hb, hne⟩, hin⟩

/-- A component is reported when two operators of it reach each other. -/
theorem checkCycles_eq_nil_iff_component (m : Entries) :
    checkCycles m = [] ↔ ∀ c ∈ stronglyConnComp (cycleNodes m), ∃ v, c = .acyclic v := by
  have hcheck : checkCycles m = (stronglyConnComp (cycleNodes m)).filterMap _ := rfl
  rw [hcheck, List.filterMap_eq_nil_iff]
  constructor
  · intro h c hc
    cases c with
    | acyclic v => exact ⟨v, rfl⟩
    | cyclic cs => cases h _ hc
  · intro h c hc
    obtain ⟨v, rfl⟩ := h c hc
    rfl

/-- What a component of the graph is made into. -/
theorem mem_stronglyConnComp {nodes : List (String × List String)} {c : SCC} :
    c ∈ stronglyConnComp nodes ↔ ∃ v ∈ nodes.map (·.1),
      c = match component nodes v with
        | [w] => if w ∈ graphEdges nodes w then .cyclic [w] else .acyclic w
        | vs => .cyclic vs := by
  rw [stronglyConnComp, List.mem_map]
  constructor
  · rintro ⟨vs, hvs, rfl⟩
    rw [List.mem_mergeSort, List.mem_dedup, List.mem_map] at hvs
    obtain ⟨v, hv, rfl⟩ := hvs
    exact ⟨v, hv, rfl⟩
  · rintro ⟨v, hv, rfl⟩
    refine ⟨component nodes v, ?_, rfl⟩
    rw [List.mem_mergeSort, List.mem_dedup]
    exact List.mem_map_of_mem hv

theorem cycleNodes_keys (m : Entries) : (cycleNodes m).map (·.1) = m.map (·.1) := by
  rw [cycleNodes, List.map_map]
  rfl

/-- Without operators that are tighter than themselves at once, a component is reported if
a path of edges leads back to its start. -/
theorem checkCycles_eq_nil_iff {m : Entries} (hm : Sorted m)
    (hclosed : ∀ a b, Binds m a b → (∃ info, (a, info) ∈ m) ∧ ∃ info, (b, info) ∈ m)
    (hself : ∀ a, ¬ Binds m a a) :
    checkCycles m = [] ↔ ∀ a, ¬ TransGen (Binds m) a a := by
  have hedge : Edge (graphEdges (cycleNodes m)) = Binds m := by
    funext a b
    apply propext
    rw [Edge, mem_graphEdges hm]
    constructor
    · exact fun h => h.2.2.1
    · intro hab
      refine ⟨(hclosed a b hab).1, (hclosed a b hab).2, hab, ?_⟩
      rintro rfl
      exact hself _ hab
  have hreach : ∀ a b, graphReaches (cycleNodes m) a b = true ↔ TransGen (Binds m) a b := by
    intro a b
    rw [graphReaches_iff, hedge]
  have hkey : ∀ {a info}, (a, info) ∈ m → a ∈ m.map (·.1) :=
    fun h => List.mem_map_of_mem (f := (·.1)) h
  rw [checkCycles_eq_nil_iff_component]
  constructor
  · intro h a hcycle
    obtain ⟨b, hab, hba⟩ := TransGen.head'_iff.mp hcycle
    have hne : b ≠ a := by
      rintro rfl
      exact hself _ hab
    have hba' : TransGen (Binds m) b a := by
      rcases ReflTransGen.cases_head hba with heq | ⟨c, hbc, hca⟩
      · exact absurd heq hne
      · exact TransGen.head' hbc hca
    obtain ⟨⟨ia, ha⟩, ib, hb⟩ := hclosed a b hab
    -- both are in the component of `a`
    have hina : a ∈ component (cycleNodes m) a := by
      rw [component, cycleNodes_keys, List.mem_filter]
      exact ⟨hkey ha, by simp⟩
    have hinb : b ∈ component (cycleNodes m) a := by
      rw [component, cycleNodes_keys, List.mem_filter]
      refine ⟨hkey hb, ?_⟩
      simp [(hreach a b).mpr (.single hab), (hreach b a).mpr hba']
    obtain ⟨v, hv⟩ := h _ (mem_stronglyConnComp.mpr ⟨a, by
      rw [cycleNodes_keys]
      exact hkey ha, rfl⟩)
    split at hv
    next w hw =>
      rw [hw, List.mem_singleton] at hina hinb
      exact hne (hinb.trans hina.symm)
    next => cases hv
  · intro h c hc
    obtain ⟨v, hv, rfl⟩ := mem_stronglyConnComp.mp hc
    rw [cycleNodes_keys] at hv
    have hcomponent : component (cycleNodes m) v = [v] := by
      have hself : component (cycleNodes m) v = (m.map (·.1)).filter (· == v) := by
        rw [component, cycleNodes_keys]
        apply List.filter_congr
        intro w _
        by_cases hwv : w = v
        · simp [hwv]
        · have hnot : ¬ (graphReaches (cycleNodes m) v w = true ∧
              graphReaches (cycleNodes m) w v = true) := by
            rw [hreach, hreach]
            exact fun hvw => h v (hvw.1.trans hvw.2)
          rw [beq_eq_false_iff_ne.mpr hwv]
          simpa [hwv] using hnot
      have hnodup : (m.map (·.1)).Nodup := by
        rw [List.Nodup, List.pairwise_map]
        refine hm.imp ?_
        intro x y hlt heq
        rw [heq] at hlt
        exact String.lt_irrefl _ hlt
      rw [hself, List.filter_beq, List.count_eq_one_of_mem hnodup hv]
      rfl
    refine ⟨v, ?_⟩
    rw [hcomponent]
    simp only
    rw [if_neg]
    exact fun hvv => ((mem_graphEdges hm).mp hvv).2.2.2 rfl

/-! ### Accepted declarations -/

/-- Every operator has one declaration, every neighbour has one, and no operator is
tighter than itself, at one or more removes. -/
structure Sound (ds : List FixDecl) : Prop where
  nodup : (ds.map (·.name.text)).Nodup
  closed : ∀ d ∈ ds, ∀ r ∈ d.rels, ∃ d' ∈ ds, d'.name.text = r.name.text
  acyclic : ∀ a, ¬ TransGen (Declares ds) a a

/-- The table of declarations with operators of their own. -/
def tableOf (ds : List FixDecl) : Entries := (ds.foldl collect ([], [])).1

theorem fresh_nil_iff {ds : List FixDecl} : Fresh [] ds ↔ (ds.map (·.name.text)).Nodup :=
  ⟨fun h => h.nodup, fun h => ⟨h, fun _ _ => rfl⟩⟩

theorem tableOf_entries {ds : List FixDecl} (h : (ds.map (·.name.text)).Nodup) :
    Sorted (tableOf ds) ∧
      ∀ e, e ∈ tableOf ds ↔ ∃ d ∈ ds, e = (d.name.text, infoOf d) := by
  obtain ⟨hsorted, hmem⟩ := collect_entries List.Pairwise.nil (fresh_nil_iff.mpr h) []
  refine ⟨hsorted, ?_⟩
  intro e
  rw [tableOf, hmem]
  simp

/-- The edges of the table are the declared ones. -/
theorem tableOf_binds {ds : List FixDecl} (h : (ds.map (·.name.text)).Nodup) {a b : String} :
    Binds (tableOf ds) a b ↔ Declares ds a b := by
  obtain ⟨hsorted, hmem⟩ := tableOf_entries h
  rw [binds_iff hsorted]
  constructor
  · rintro (⟨info, ha, hb⟩ | ⟨info, hb, ha⟩)
    · obtain ⟨d, hd, heq⟩ := (hmem _).mp ha
      cases heq
      obtain ⟨r, hr, hsense, hname⟩ := (mem_partitionRels d.rels b).1.mp hb
      exact ⟨d, hd, r, hr, .inl ⟨hsense, rfl, hname⟩⟩
    · obtain ⟨d, hd, heq⟩ := (hmem _).mp hb
      cases heq
      obtain ⟨r, hr, hsense, hname⟩ := (mem_partitionRels d.rels a).2.mp ha
      exact ⟨d, hd, r, hr, .inr ⟨hsense, hname, rfl⟩⟩
  · rintro ⟨d, hd, r, hr, ⟨hsense, rfl, hname⟩ | ⟨hsense, hname, rfl⟩⟩
    · exact .inl ⟨infoOf d, (hmem _).mpr ⟨d, hd, rfl⟩,
        (mem_partitionRels d.rels b).1.mpr ⟨r, hr, hsense, hname⟩⟩
    · exact .inr ⟨infoOf d, (hmem _).mpr ⟨d, hd, rfl⟩,
        (mem_partitionRels d.rels a).2.mpr ⟨r, hr, hsense, hname⟩⟩

theorem tableOf_closed {ds : List FixDecl} (h : (ds.map (·.name.text)).Nodup) :
    (∀ k info, (k, info) ∈ tableOf ds → ∀ n ∈ info.tighter ++ info.looser,
        ∃ info', (n, info') ∈ tableOf ds) ↔
      ∀ d ∈ ds, ∀ r ∈ d.rels, ∃ d' ∈ ds, d'.name.text = r.name.text := by
  obtain ⟨-, hmem⟩ := tableOf_entries h
  have hrels : ∀ (d : FixDecl) (n : String), n ∈ (infoOf d).tighter ++ (infoOf d).looser ↔
      ∃ r ∈ d.rels, r.name.text = n := by
    intro d n
    rw [List.mem_append, infoOf, (mem_partitionRels d.rels n).1, (mem_partitionRels d.rels n).2]
    constructor
    · rintro (⟨r, hr, -, hname⟩ | ⟨r, hr, -, hname⟩)
      · exact ⟨r, hr, hname⟩
      · exact ⟨r, hr, hname⟩
    · rintro ⟨r, hr, hname⟩
      cases hsense : r.sense with
      | tighter => exact .inl ⟨r, hr, hsense, hname⟩
      | looser => exact .inr ⟨r, hr, hsense, hname⟩
  constructor
  · intro hclosed d hd r hr
    obtain ⟨info', hinfo'⟩ := hclosed _ _ ((hmem _).mpr ⟨d, hd, rfl⟩) r.name.text
      ((hrels d _).mpr ⟨r, hr, rfl⟩)
    obtain ⟨d', hd', heq⟩ := (hmem _).mp hinfo'
    exact ⟨d', hd', (congrArg Prod.fst heq).symm⟩
  · intro hclosed k info hk n hn
    obtain ⟨d, hd, heq⟩ := (hmem _).mp hk
    cases heq
    obtain ⟨r, hr, rfl⟩ := (hrels d n).mp hn
    obtain ⟨d', hd', hname⟩ := hclosed d hd r hr
    exact ⟨infoOf d', (hmem _).mpr ⟨d', hd', by rw [hname]⟩⟩

theorem buildFixityTable_eq (ds : List FixDecl) :
    buildFixityTable ds =
      if ((ds.foldl collect ([], [])).2 ++ checkNeighbors (tableOf ds) ++
        checkCycles (tableOf ds)).isEmpty then .ok ⟨tableOf ds⟩
      else .error ((ds.foldl collect ([], [])).2 ++ checkNeighbors (tableOf ds) ++
        checkCycles (tableOf ds)) := rfl

theorem declares_self_iff {ds : List FixDecl} :
    (∃ a, Declares ds a a) ↔ ∃ d ∈ ds, NamesItself d := by
  constructor
  · rintro ⟨a, d, hd, r, hr, ⟨-, hname, hrel⟩ | ⟨-, hrel, hname⟩⟩
    · exact ⟨d, hd, r, hr, hrel.trans hname.symm⟩
    · exact ⟨d, hd, r, hr, hrel.trans hname.symm⟩
  · rintro ⟨d, hd, r, hr, hname⟩
    cases hsense : r.sense with
    | tighter => exact ⟨d.name.text, d, hd, r, hr, .inl ⟨hsense, rfl, hname⟩⟩
    | looser => exact ⟨d.name.text, d, hd, r, hr, .inr ⟨hsense, hname, rfl⟩⟩

/-- With a declaration for each operator, the reports of a table are those of a cycle, an
operator that names itself among them. -/
theorem errors_eq_nil_iff {ds : List FixDecl} (hnodup : (ds.map (·.name.text)).Nodup)
    (hclosed : ∀ d ∈ ds, ∀ r ∈ d.rels, ∃ d' ∈ ds, d'.name.text = r.name.text) :
    ((ds.foldl collect ([], [])).2 = [] ∧ checkCycles (tableOf ds) = []) ↔
      ∀ a, ¬ TransGen (Declares ds) a a := by
  obtain ⟨hsorted, hmem⟩ := tableOf_entries hnodup
  have hbinds : Binds (tableOf ds) = Declares ds := by
    funext a b
    exact propext (tableOf_binds hnodup)
  have hends : ∀ a b, Binds (tableOf ds) a b → (∃ info, (a, info) ∈ tableOf ds) ∧
      ∃ info, (b, info) ∈ tableOf ds := by
    intro a b hab
    have hclosed' := (tableOf_closed hnodup).mpr hclosed
    rcases (binds_iff hsorted).mp hab with ⟨info, ha, hb⟩ | ⟨info, hb, ha⟩
    · exact ⟨⟨info, ha⟩, hclosed' a info ha b (List.mem_append_left _ hb)⟩
    · exact ⟨hclosed' b info hb a (List.mem_append_right _ ha), ⟨info, hb⟩⟩
  rw [collect_errors List.Pairwise.nil]
  constructor
  · rintro ⟨⟨-, -, hself⟩, hcycles⟩
    have hnot : ∀ a, ¬ Binds (tableOf ds) a a := by
      intro a ha
      rw [hbinds] at ha
      obtain ⟨d, hd, hnames⟩ := declares_self_iff.mp ⟨a, ha⟩
      exact hself d hd hnames
    rw [← hbinds]
    exact (checkCycles_eq_nil_iff hsorted hends hnot).mp hcycles
  · intro hacyclic
    refine ⟨⟨rfl, fresh_nil_iff.mpr hnodup, ?_⟩, ?_⟩
    · intro d hd hnames
      obtain ⟨a, ha⟩ := declares_self_iff.mpr ⟨d, hd, hnames⟩
      exact hacyclic a (.single ha)
    · rw [checkCycles_eq_nil_iff hsorted hends, hbinds]
      · exact hacyclic
      · intro a ha
        rw [hbinds] at ha
        exact hacyclic a (.single ha)

/-- The declarations that a table is built from are the sound ones. -/
theorem buildFixityTable_ok_iff {ds : List FixDecl} {t : FixityTable} :
    buildFixityTable ds = .ok t ↔ Sound ds ∧ t = ⟨tableOf ds⟩ := by
  have hempty : ((ds.foldl collect ([], [])).2 ++ checkNeighbors (tableOf ds) ++
      checkCycles (tableOf ds)).isEmpty = true ↔ Sound ds := by
    rw [List.isEmpty_iff, List.append_eq_nil_iff, List.append_eq_nil_iff]
    constructor
    · rintro ⟨⟨herrs, hneighbors⟩, hcycles⟩
      have hnodup := fresh_nil_iff.mp ((collect_errors List.Pairwise.nil []).mp herrs).2.1
      have hclosed := (tableOf_closed hnodup).mp
        ((checkNeighbors_eq_nil_iff (tableOf_entries hnodup).1).mp hneighbors)
      exact ⟨hnodup, hclosed, (errors_eq_nil_iff hnodup hclosed).mp ⟨herrs, hcycles⟩⟩
    · rintro ⟨hnodup, hclosed, hacyclic⟩
      obtain ⟨herrs, hcycles⟩ := (errors_eq_nil_iff hnodup hclosed).mpr hacyclic
      refine ⟨⟨herrs, ?_⟩, hcycles⟩
      exact (checkNeighbors_eq_nil_iff (tableOf_entries hnodup).1).mpr
        ((tableOf_closed hnodup).mpr hclosed)
  rw [buildFixityTable_eq]
  split
  next h =>
    constructor
    · intro ht
      cases ht
      exact ⟨hempty.mp h, rfl⟩
    · rintro ⟨-, rfl⟩
      rfl
  next h =>
    constructor
    · exact fun ht => nomatch ht
    · exact fun ht => absurd (hempty.mpr ht.1) h

theorem Sound.whole {ds : List FixDecl} (h : Sound ds) : Whole (tableOf ds) := by
  have hbinds : Binds (tableOf ds) = Declares ds := by
    funext a b
    exact propext (tableOf_binds h.nodup)
  constructor
  · exact (tableOf_entries h.nodup).1
  · exact (tableOf_closed h.nodup).mpr h.closed
  · rw [hbinds]
    exact h.acyclic

end Wok.Reordering
