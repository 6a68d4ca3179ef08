/-
Module: Wok.Proofs.FixityDecls
Purpose: What name resolution makes of fixity declarations: the operators of its table and
  the edges of its matrix are the declared ones, and it accepts the declarations that the
  module's table is built from.
Imports: Wok.Proofs.Fixity, Wok.Proofs.FixityTable
Trusted boundary: none
Main exports: opEntry, declareOps_spec, declaredFix_tighter, fixityAccepted_iff
-/
import Wok.Proofs.Fixity
import Wok.Proofs.FixityTable

namespace Wok.Grammar

open Relation (TransGen)
open Wok.Reordering (Declares Sound)

/-! ### Operators by name -/

/-- The operator of a name. -/
def opEntry (ops : List FixOp) (a : String) : Option FixOp := (fixFind ops a).bind (ops[·]?)

theorem fixFind_append (ops : List FixOp) (op : FixOp) (a : String) :
    fixFind (ops ++ [op]) a =
      (fixFind ops a).or (if op.name.text = a then some ops.length else none) := by
  rw [fixFind, fixFind, List.findIdx?_append]
  congr 1
  by_cases h : op.name.text = a <;> simp [h, List.findIdx?_cons]

theorem opEntry_isSome {ops : List FixOp} {a : String} :
    (opEntry ops a).isSome ↔ (fixFind ops a).isSome := by
  rw [opEntry]
  cases h : fixFind ops a with
  | none => simp
  | some i =>
      obtain ⟨op, hop, -⟩ := fixFind_some h
      simp [hop]

theorem opEntry_append (ops : List FixOp) (op : FixOp) (a : String) :
    opEntry (ops ++ [op]) a = (opEntry ops a).or (if op.name.text = a then some op else none) := by
  rw [opEntry, opEntry, fixFind_append]
  cases h : fixFind ops a with
  | none => by_cases hop : op.name.text = a <;> simp [hop]
  | some i =>
      have hi := fixFind_lt h
      simp [List.getElem?_append_left hi, List.getElem?_eq_getElem hi]

theorem fixFind_modify {g : FixOp → FixOp} (hg : ∀ op, (g op).name = op.name) (ops : List FixOp)
    (k : Nat) (a : String) : fixFind (ops.modify k g) a = fixFind ops a := by
  induction ops generalizing k with
  | nil => cases k <;> rfl
  | cons op ops ih =>
      cases k with
      | zero => simp [fixFind, List.findIdx?_cons, hg]
      | succ k =>
          have := ih k
          rw [fixFind, fixFind] at this
          simp [fixFind, List.findIdx?_cons, this]

theorem opEntry_modify {g : FixOp → FixOp} (hg : ∀ op, (g op).name = op.name) (ops : List FixOp)
    (k : Nat) (a : String) :
    opEntry (ops.modify k g) a =
      if fixFind ops a = some k then (opEntry ops a).map g else opEntry ops a := by
  rw [opEntry, opEntry, fixFind_modify hg]
  cases h : fixFind ops a with
  | none => simp
  | some i =>
      by_cases hik : i = k
      · simp [hik]
      · simp [hik, List.getElem?_modify, Ne.symm hik]

/-! ### Declaring -/

/-- A neighbour that is not known becomes a placeholder. -/
theorem opEntry_addNeighbour (ops : List FixOp) (r : FixRel) (a : String) :
    opEntry (addNeighbour ops r) a =
      (opEntry ops a).or (if r.name.text = a then some ⟨r.name, .left, none⟩ else none) := by
  rw [addNeighbour]
  split
  next i hi =>
    by_cases hra : r.name.text = a
    · subst hra
      have hsome := opEntry_isSome.mpr (Option.isSome_iff_exists.mpr ⟨i, hi⟩)
      obtain ⟨op, hop⟩ := Option.isSome_iff_exists.mp hsome
      simp [hop]
    · simp [hra]
  next => exact opEntry_append ops _ a

/-- Neighbours leave the known operators as they are, and are known afterwards; what they
add has no declaration. -/
theorem opEntry_addNeighbours (rels : List FixRel) (ops : List FixOp) (a : String) :
    (∀ op, opEntry ops a = some op → opEntry (rels.foldl addNeighbour ops) a = some op) ∧
      (opEntry ops a = none → ∀ op, opEntry (rels.foldl addNeighbour ops) a = some op →
        op.declOff = none) ∧
      ∀ r ∈ rels, r.name.text = a → (opEntry (rels.foldl addNeighbour ops) a).isSome := by
  induction rels generalizing ops with
  | nil =>
      refine ⟨fun op h => h, ?_, List.forall_mem_nil _⟩
      intro hnone op hop
      rw [List.foldl_nil, hnone] at hop
      cases hop
  | cons r rels ih =>
      obtain ⟨hkeep, hnew, hin⟩ := ih (addNeighbour ops r)
      have hentry := opEntry_addNeighbour ops r a
      rw [List.foldl_cons]
      refine ⟨?_, ?_, ?_⟩
      · intro op hop
        apply hkeep
        rw [hentry, hop]
        rfl
      · intro hnone op hop
        rw [hnone, Option.none_or] at hentry
        by_cases hra : r.name.text = a
        · rw [if_pos hra] at hentry
          rw [hkeep _ hentry] at hop
          cases hop
          rfl
        · rw [if_neg hra] at hentry
          exact hnew hentry op hop
      · intro r' hr' hname
        rcases List.mem_cons.mp hr' with rfl | hr'
        · rw [if_pos hname] at hentry
          cases hops : opEntry ops a with
          | none =>
              rw [hops] at hentry
              rw [hkeep _ hentry]
              rfl
          | some op =>
              rw [hops] at hentry
              rw [hkeep _ hentry]
              rfl
        · exact hin r' hr' hname

/-- What a declaration of an operator that had none makes of the operators. -/
structure Declaring (ops : List FixOp) (d : FixDecl) (ops' : List FixOp) : Prop where
  own : ∃ op, opEntry ops' d.name.text = some op ∧ op.assoc = d.assoc ∧
    op.declOff = some d.name.off
  kept : ∀ a op, a ≠ d.name.text → opEntry ops a = some op → opEntry ops' a = some op
  new : ∀ a op, a ≠ d.name.text → opEntry ops a = none → opEntry ops' a = some op →
    op.declOff = none
  near : ∀ r ∈ d.rels, (opEntry ops' r.name.text).isSome

/-- The operator has a declaration already. -/
def HasDecl (ops : List FixOp) (a : String) : Prop :=
  ∃ op, opEntry ops a = some op ∧ op.declOff.isSome

theorem declaring_of_entries {ops ops1 : List FixOp} {d : FixDecl}
    (hown : ∃ op, opEntry ops1 d.name.text = some op ∧ op.assoc = d.assoc ∧
      op.declOff = some d.name.off)
    (hothers : ∀ a, a ≠ d.name.text → opEntry ops1 a = opEntry ops a) :
    Declaring ops d (d.rels.foldl addNeighbour ops1) := by
  constructor
  · obtain ⟨op, hop, hassoc, hoff⟩ := hown
    exact ⟨op, (opEntry_addNeighbours d.rels ops1 _).1 op hop, hassoc, hoff⟩
  · intro a op hne hop
    rw [← hothers a hne] at hop
    exact (opEntry_addNeighbours d.rels ops1 a).1 op hop
  · intro a op hne hnone hop
    rw [← hothers a hne] at hnone
    exact (opEntry_addNeighbours d.rels ops1 a).2.1 hnone op hop
  · intro r hr
    exact (opEntry_addNeighbours d.rels ops1 r.name.text).2.2 r hr rfl

theorem declareOp_cases (st : List FixOp × List FixDiag) (d : FixDecl) :
    (HasDecl st.1 d.name.text ∧
        ∃ first, declareOp st d = (st.1, st.2 ++ [.duplicate d.name first])) ∨
      ¬ HasDecl st.1 d.name.text ∧ Declaring st.1 d (declareOp st d).1 ∧
        (declareOp st d).2 = st.2 := by
  rw [declareOp]
  cases hfind : fixFind st.1 d.name.text with
  | none =>
      have hnone : opEntry st.1 d.name.text = none := by
        rw [opEntry, hfind]
        rfl
      refine .inr ⟨?_, ?_, rfl⟩
      · rintro ⟨op, hop, -⟩
        rw [hnone] at hop
        cases hop
      · apply declaring_of_entries
        · refine ⟨⟨d.name, d.assoc, some d.name.off⟩, ?_, rfl, rfl⟩
          rw [opEntry_append, hnone, if_pos rfl]
          rfl
        · intro a hne
          rw [opEntry_append, if_neg (Ne.symm hne), Option.or_none]
  | some k =>
      obtain ⟨op, hop, -⟩ := fixFind_some hfind
      have hentry : opEntry st.1 d.name.text = some op := by
        rw [opEntry, hfind]
        exact hop
      simp only [hop, Option.bind_some]
      cases hoff : op.declOff with
      | some first => exact .inl ⟨⟨op, hentry, by rw [hoff]; rfl⟩, first, rfl⟩
      | none =>
          refine .inr ⟨?_, ?_, rfl⟩
          · rintro ⟨op', hop', hsome⟩
            rw [hentry] at hop'
            cases hop'
            rw [hoff] at hsome
            cases hsome
          · have hname : ∀ op : FixOp,
                ({ op with assoc := d.assoc, declOff := some d.name.off } : FixOp).name = op.name :=
              fun _ => rfl
            apply declaring_of_entries
            · refine ⟨{ op with assoc := d.assoc, declOff := some d.name.off }, ?_, rfl, rfl⟩
              rw [opEntry_modify hname, if_pos hfind, hentry]
              rfl
            · intro a hne
              rw [opEntry_modify hname, if_neg]
              intro ha
              exact hne (fixFind_inj ha hfind)

/-- The operators of declarations, their neighbours, and nothing else that is declared. -/
structure Holds (ds : List FixDecl) (ops : List FixOp) : Prop where
  own : ∀ d ∈ ds, ∃ op, opEntry ops d.name.text = some op ∧ op.assoc = d.assoc ∧
    op.declOff = some d.name.off
  source : ∀ a, HasDecl ops a → ∃ d ∈ ds, d.name.text = a
  near : ∀ d ∈ ds, ∀ r ∈ d.rels, (opEntry ops r.name.text).isSome

theorem Holds.step {ds : List FixDecl} {ops ops' : List FixOp} {d : FixDecl} (h : Holds ds ops)
    (hd : Declaring ops d ops') (hnew : ∀ d' ∈ ds, d'.name.text ≠ d.name.text) :
    Holds (ds ++ [d]) ops' := by
  have hstay : ∀ a, (opEntry ops a).isSome → (opEntry ops' a).isSome := by
    intro a ha
    by_cases hne : a = d.name.text
    · obtain ⟨op, hop, -⟩ := hd.own
      rw [hne, hop]
      rfl
    · obtain ⟨op, hop⟩ := Option.isSome_iff_exists.mp ha
      rw [hd.kept a op hne hop]
      rfl
  constructor
  · intro d' hd'
    rcases List.mem_append.mp hd' with hd' | hd'
    · obtain ⟨op, hop, hrest⟩ := h.own d' hd'
      exact ⟨op, hd.kept _ op (hnew d' hd') hop, hrest⟩
    · rw [List.mem_singleton.mp hd']
      exact hd.own
  · rintro a ⟨op, hop, hoff⟩
    by_cases hne : a = d.name.text
    · exact ⟨d, List.mem_append_right _ List.mem_cons_self, hne.symm⟩
    · cases hold : opEntry ops a with
      | none =>
          rw [hd.new a op hne hold hop] at hoff
          cases hoff
      | some old =>
          have hsame := hd.kept a old hne hold
          rw [hop] at hsame
          cases hsame
          obtain ⟨d', hd', hname⟩ := h.source a ⟨op, hold, hoff⟩
          exact ⟨d', List.mem_append_left _ hd', hname⟩
  · intro d' hd' r hr
    rcases List.mem_append.mp hd' with hd' | hd'
    · exact hstay _ (h.near d' hd' r hr)
    · rw [List.mem_singleton.mp hd'] at hr
      exact hd.near r hr

/-- Nothing is reported when the operators have a declaration each, and then the table
holds them. -/
theorem declareOps_spec (ds : List FixDecl) :
    ((declareOps ds).2 = [] ↔ (ds.map (·.name.text)).Nodup) ∧
      ((ds.map (·.name.text)).Nodup → Holds ds (declareOps ds).1) := by
  induction ds using List.reverseRecOn with
  | nil =>
      refine ⟨⟨fun _ => List.nodup_nil, fun _ => rfl⟩, ?_⟩
      intro _
      constructor
      · exact List.forall_mem_nil _
      · rintro a ⟨op, hop, -⟩
        cases hop
      · exact List.forall_mem_nil _
  | append_singleton ds d ih =>
      obtain ⟨ihdiags, ihholds⟩ := ih
      have hrun : declareOps (ds ++ [d]) = declareOp (declareOps ds) d := by
        rw [declareOps, List.foldl_append]
        rfl
      have hnodup : ((ds ++ [d]).map (·.name.text)).Nodup ↔
          (ds.map (·.name.text)).Nodup ∧ ∀ d' ∈ ds, d'.name.text ≠ d.name.text := by
        rw [List.map_append, List.nodup_append]
        simp
      rw [hrun, hnodup]
      rcases declareOp_cases (declareOps ds) d with ⟨hhas, first, heq⟩ | ⟨hnot, hdecl, hdiags⟩
      · have hdup : ¬ ((ds.map (·.name.text)).Nodup ∧ ∀ d' ∈ ds, d'.name.text ≠ d.name.text) := by
          rintro ⟨hnodup, hne⟩
          obtain ⟨d', hd', hname⟩ := (ihholds hnodup).source _ hhas
          exact hne d' hd' hname
        rw [heq]
        refine ⟨⟨?_, fun h => absurd h hdup⟩, fun h => absurd h hdup⟩
        intro h
        exact absurd (List.append_eq_nil_iff.mp h).2 (List.cons_ne_nil _ _)
      · rw [hdiags, ihdiags]
        have hne : (ds.map (·.name.text)).Nodup → ∀ d' ∈ ds, d'.name.text ≠ d.name.text := by
          intro hnodup d' hd' hname
          obtain ⟨op, hop, -, hoff⟩ := (ihholds hnodup).own d' hd'
          rw [hname] at hop
          exact hnot ⟨op, hop, by rw [hoff]; rfl⟩
        exact ⟨⟨fun h => ⟨h, hne h⟩, fun h => h.1⟩, fun h => (ihholds h.1).step hdecl h.2⟩

/-! ### The edges that are set -/

/-- A declaration of the operator at `head` sets this place. -/
def Sets (ops : List FixOp) (head : Nat) (r : FixRel) (i j : Nat) : Prop :=
  ∃ nb, fixFind ops r.name.text = some nb ∧
    (r.sense = .tighter ∧ i = head ∧ j = nb ∨ r.sense = .looser ∧ i = nb ∧ j = head)

theorem fixBit_addEdge {f : Fix} {head i j : Nat} {r : FixRel} (hwide : f.Wide)
    (hhead : head < f.n) (hj : j < f.n) :
    fixBit (addEdge head f r) i j ↔ fixBit f i j ∨ Sets f.ops head r i j := by
  rw [Fix.Wide] at hwide
  rw [addEdge]
  cases hfind : fixFind f.ops r.name.text with
  | none => simp [Sets, hfind]
  | some nb =>
      have hnb : nb < f.n := fixFind_lt hfind
      cases hsense : r.sense with
      | tighter =>
          simp only
          rw [fixBit_fixSet (by omega) (by omega)]
          simp [Sets, hfind, hsense]
      | looser =>
          simp only
          rw [fixBit_fixSet (by omega) (by omega)]
          simp [Sets, hfind, hsense]

theorem wide_of_frame {f g : Fix} (h : g.ops = f.ops ∧ g.words = f.words) (hf : f.Wide) :
    g.Wide := by
  rw [Fix.Wide, Fix.n, h.1, h.2]
  exact hf

theorem fixBit_foldl_addEdge {rels : List FixRel} {f : Fix} {head i j : Nat} (hwide : f.Wide)
    (hhead : head < f.n) (hj : j < f.n) :
    fixBit (rels.foldl (addEdge head) f) i j ↔
      fixBit f i j ∨ ∃ r ∈ rels, Sets f.ops head r i j := by
  induction rels generalizing f with
  | nil => simp
  | cons r rels ih =>
      have hframe := addEdge_frame head f r
      have hn : (addEdge head f r).n = f.n := congrArg List.length hframe.1
      rw [List.foldl_cons, ih (wide_of_frame hframe hwide) (by rw [hn]; exact hhead)
        (by rw [hn]; exact hj), fixBit_addEdge hwide hhead hj, hframe.1]
      simp [or_assoc]

/-- The declarations that are kept set the places of their relations. -/
theorem fixBit_foldl_addEdges {ds : List FixDecl} {f : Fix} {i j : Nat} (hwide : f.Wide)
    (hj : j < f.n) :
    fixBit (ds.foldl addEdges f) i j ↔
      fixBit f i j ∨ ∃ d ∈ ds, fixIsWinner f.ops d = true ∧
        ∃ head, fixFind f.ops d.name.text = some head ∧
          ∃ r ∈ d.rels, Sets f.ops head r i j := by
  induction ds generalizing f with
  | nil => simp
  | cons d ds ih =>
      have hframe := addEdges_frame f d
      have hn : (addEdges f d).n = f.n := congrArg List.length hframe.1
      have hstep : fixBit (addEdges f d) i j ↔ fixBit f i j ∨ fixIsWinner f.ops d = true ∧
          ∃ head, fixFind f.ops d.name.text = some head ∧
            ∃ r ∈ d.rels, Sets f.ops head r i j := by
        rw [addEdges]
        split
        next hwin =>
          cases hfind : fixFind f.ops d.name.text with
          | none => simp
          | some head =>
              simp only
              rw [fixBit_foldl_addEdge hwide (fixFind_lt hfind) hj]
              simp [hwin]
        next hwin => simp [hwin]
      rw [List.foldl_cons, ih (wide_of_frame hframe hwide) (by rw [hn]; exact hj), hstep, hframe.1]
      simp only [List.mem_cons, exists_eq_or_imp, or_assoc]

theorem fixIsWinner_of_holds {ds : List FixDecl} {ops : List FixOp} (h : Holds ds ops)
    {d : FixDecl} (hd : d ∈ ds) : fixIsWinner ops d = true := by
  obtain ⟨op, hop, -, hoff⟩ := h.own d hd
  rw [opEntry] at hop
  rw [fixIsWinner]
  cases hfind : fixFind ops d.name.text with
  | none =>
      rw [hfind] at hop
      cases hop
  | some head =>
      rw [hfind, Option.bind_some] at hop
      simp only [hop, Option.bind_some, hoff, decide_true]

/-- The edges of the matrix are the declared ones. -/
theorem declaredFix_tighter {ds : List FixDecl} (hnodup : (ds.map (·.name.text)).Nodup)
    {i j : Nat} :
    (declaredFix ds).Tighter i j ↔ ∃ a b, Declares ds a b ∧
      fixFind (declareOps ds).1 a = some i ∧ fixFind (declareOps ds).1 b = some j := by
  have hholds := (declareOps_spec ds).2 hnodup
  have hops := (declaredFix_frame ds).1
  have hempty : ∀ i j, ¬ fixBit ⟨(declareOps ds).1, ((declareOps ds).1.length + 63) / 64,
      fun _ => 0#64⟩ i j := by
    intro i j
    rw [fixBit_eq_getLsbD]
    simp
  have hwide : Fix.Wide ⟨(declareOps ds).1, ((declareOps ds).1.length + 63) / 64,
      fun _ => 0#64⟩ := by
    rw [Fix.Wide, Fix.n]
    simp only
    omega
  rw [Fix.Tighter, Fix.n, hops]
  constructor
  · rintro ⟨hi, hj, hbit⟩
    rcases (fixBit_foldl_addEdges hwide hj).mp hbit with h | ⟨d, hd, -, head, hhead, r, hr, nb,
      hnb, ⟨hsense, rfl, rfl⟩ | ⟨hsense, rfl, rfl⟩⟩
    · exact absurd h (hempty i j)
    · exact ⟨d.name.text, r.name.text, ⟨d, hd, r, hr, .inl ⟨hsense, rfl, rfl⟩⟩, hhead, hnb⟩
    · exact ⟨r.name.text, d.name.text, ⟨d, hd, r, hr, .inr ⟨hsense, rfl, rfl⟩⟩, hnb, hhead⟩
  · rintro ⟨a, b, ⟨d, hd, r, hr, hrel⟩, ha, hb⟩
    refine ⟨fixFind_lt ha, fixFind_lt hb, ?_⟩
    refine (fixBit_foldl_addEdges hwide (fixFind_lt hb)).mpr
      (.inr ⟨d, hd, fixIsWinner_of_holds hholds hd, ?_⟩)
    rcases hrel with ⟨hsense, rfl, rfl⟩ | ⟨hsense, rfl, rfl⟩
    · exact ⟨i, ha, r, hr, j, hb, .inl ⟨hsense, rfl, rfl⟩⟩
    · exact ⟨j, hb, r, hr, i, ha, .inr ⟨hsense, rfl, rfl⟩⟩

/-- Operators that are related are in the table. -/
theorem declares_find {ds : List FixDecl} (hnodup : (ds.map (·.name.text)).Nodup) {a b : String}
    (h : Declares ds a b) :
    (∃ i, fixFind (declareOps ds).1 a = some i) ∧ ∃ j, fixFind (declareOps ds).1 b = some j := by
  have hholds := (declareOps_spec ds).2 hnodup
  obtain ⟨d, hd, r, hr, hrel⟩ := h
  obtain ⟨op, hop, -⟩ := hholds.own d hd
  have hown : ∃ i, fixFind (declareOps ds).1 d.name.text = some i :=
    Option.isSome_iff_exists.mp (opEntry_isSome.mp (by rw [hop]; rfl))
  have hnear : ∃ i, fixFind (declareOps ds).1 r.name.text = some i :=
    Option.isSome_iff_exists.mp (opEntry_isSome.mp (hholds.near d hd r hr))
  rcases hrel with ⟨-, rfl, rfl⟩ | ⟨-, rfl, rfl⟩
  · exact ⟨hown, hnear⟩
  · exact ⟨hnear, hown⟩

/-- Paths of the matrix are paths of the declared relation. -/
theorem declaredFix_transGen {ds : List FixDecl} (hnodup : (ds.map (·.name.text)).Nodup)
    {i j : Nat} :
    TransGen (declaredFix ds).Tighter i j ↔ ∃ a b, TransGen (Declares ds) a b ∧
      fixFind (declareOps ds).1 a = some i ∧ fixFind (declareOps ds).1 b = some j := by
  constructor
  · intro h
    induction h with
    | single h =>
        obtain ⟨a, b, hab, ha, hb⟩ := (declaredFix_tighter hnodup).mp h
        exact ⟨a, b, .single hab, ha, hb⟩
    | tail _ h ih =>
        obtain ⟨a, b, hab, ha, hb⟩ := ih
        obtain ⟨b', c, hbc, hb', hc⟩ := (declaredFix_tighter hnodup).mp h
        have hsame := fixFind_inj hb hb'
        subst hsame
        exact ⟨a, c, hab.tail hbc, ha, hc⟩
  · rintro ⟨a, b, hab, ha, hb⟩
    induction hab generalizing j with
    | single hab => exact .single ((declaredFix_tighter hnodup).mpr ⟨_, _, hab, ha, hb⟩)
    | tail _ hbc ih =>
        obtain ⟨⟨k, hk⟩, -⟩ := declares_find hnodup hbc
        exact (ih hk).tail ((declaredFix_tighter hnodup).mpr ⟨_, _, hbc, hk, hb⟩)

/-- The comparison of two operators of the table is the path between them. -/
theorem buildFixity_compare {ds : List FixDecl} (hnodup : (ds.map (·.name.text)).Nodup)
    {a b : String} :
    fixCompare (buildFixity ds).1 a b = .tighter ↔ a ≠ b ∧ TransGen (Declares ds) a b := by
  rw [fixCompare_eq_tighter, buildFixity_ops, buildFixity_tighter]
  constructor
  · rintro ⟨hne, i, j, hi, hj, hpath⟩
    obtain ⟨a', b', hab, ha', hb'⟩ := (declaredFix_transGen hnodup).mp hpath
    rw [fixFind_inj hi ha', fixFind_inj hj hb']
    rw [fixFind_inj hi ha', fixFind_inj hj hb'] at hne
    exact ⟨hne, hab⟩
  · rintro ⟨hne, hab⟩
    obtain ⟨c, hac, -⟩ := TransGen.head'_iff.mp hab
    obtain ⟨d, -, hdb⟩ := TransGen.tail'_iff.mp hab
    obtain ⟨⟨i, hi⟩, -⟩ := declares_find hnodup hac
    obtain ⟨-, j, hj⟩ := declares_find hnodup hdb
    exact ⟨hne, i, j, hi, hj, (declaredFix_transGen hnodup).mpr ⟨a, b, hab, hi, hj⟩⟩

theorem declaredFix_acyclic_iff {ds : List FixDecl} (hnodup : (ds.map (·.name.text)).Nodup) :
    (declaredFix ds).Acyclic ↔ ∀ a, ¬ TransGen (Declares ds) a a := by
  constructor
  · intro h a ha
    obtain ⟨c, hac, -⟩ := TransGen.head'_iff.mp ha
    obtain ⟨⟨i, hi⟩, -⟩ := declares_find hnodup hac
    exact h i ((declaredFix_transGen hnodup).mpr ⟨a, a, ha, hi, hi⟩)
  · intro h i hi
    obtain ⟨a, b, hab, ha, hb⟩ := (declaredFix_transGen hnodup).mp hi
    rw [fixFind_inj hb ha] at hab
    exact h a hab

/-! ### Accepted declarations -/

/-- Name resolution and the pass report nothing of the declarations. -/
structure FixityAccepted (ds : List FixDecl) : Prop where
  duplicates : (buildFixity ds).2 = []
  cycles : checkFixityCycles (buildFixity ds).1 = []
  neighbours : checkNeighbours (buildFixity ds).1 = []

/-- The names of the table. -/
def opNames (ops : List FixOp) : List String := ops.map (·.name.text)

theorem fixFind_eq_none_iff {ops : List FixOp} {a : String} :
    fixFind ops a = none ↔ a ∉ opNames ops := by
  rw [fixFind, List.findIdx?_eq_none_iff, opNames, List.mem_map, not_exists]
  constructor
  · rintro h op ⟨hop, rfl⟩
    exact of_decide_eq_false (h op hop) rfl
  · intro h op hop
    exact decide_eq_false fun heq => h op ⟨hop, heq⟩

theorem opNames_append {ops : List FixOp} {op : FixOp} (h : (opNames ops).Nodup)
    (hnew : fixFind ops op.name.text = none) : (opNames (ops ++ [op])).Nodup := by
  rw [opNames, List.map_append, List.nodup_append]
  refine ⟨h, List.nodup_singleton _, ?_⟩
  intro a ha b hb heq
  rw [List.map_singleton, List.mem_singleton] at hb
  rw [heq, hb] at ha
  exact fixFind_eq_none_iff.mp hnew ha

theorem opNames_modify {g : FixOp → FixOp} (hg : ∀ op, (g op).name = op.name)
    (ops : List FixOp) (k : Nat) : opNames (ops.modify k g) = opNames ops := by
  induction ops generalizing k with
  | nil => cases k <;> rfl
  | cons op ops ih =>
      cases k with
      | zero => simp [opNames, hg]
      | succ k => simpa [opNames] using ih k

theorem opNames_addNeighbours {ops : List FixOp} (h : (opNames ops).Nodup)
    (rels : List FixRel) : (opNames (rels.foldl addNeighbour ops)).Nodup := by
  induction rels generalizing ops with
  | nil => exact h
  | cons r rels ih =>
      apply ih
      rw [addNeighbour]
      split
      next => exact h
      next hnone => exact opNames_append h hnone

/-- The table has each operator once. -/
theorem declareOps_nodup (ds : List FixDecl) : (opNames (declareOps ds).1).Nodup := by
  induction ds using List.reverseRecOn with
  | nil => exact List.nodup_nil
  | append_singleton ds d ih =>
      rw [declareOps, List.foldl_append]
      rw [declareOps] at ih
      simp only [List.foldl_cons, List.foldl_nil, declareOp]
      split
      · split
        · exact ih
        · apply opNames_addNeighbours
          have hname : ∀ op : FixOp,
              ({ op with assoc := d.assoc, declOff := some d.name.off } : FixOp).name = op.name :=
            fun _ => rfl
          rw [opNames_modify hname]
          exact ih
      next hnone => exact opNames_addNeighbours (opNames_append ih hnone) _

theorem opEntry_of_mem {ops : List FixOp} (h : (opNames ops).Nodup) {op : FixOp}
    (hop : op ∈ ops) : opEntry ops op.name.text = some op := by
  cases hfind : fixFind ops op.name.text with
  | none => exact absurd (List.mem_map_of_mem hop) (fixFind_eq_none_iff.mp hfind)
  | some i =>
      obtain ⟨op', hop', hname⟩ := fixFind_some hfind
      have hsame : op' = op :=
        List.inj_on_of_nodup_map h (List.mem_of_getElem? hop') hop hname
      rw [opEntry, hfind, ← hsame]
      exact hop'

theorem mem_opNames_addNeighbours {rels : List FixRel} {ops : List FixOp} {a : String}
    (h : a ∈ opNames (rels.foldl addNeighbour ops)) :
    a ∈ opNames ops ∨ ∃ r ∈ rels, r.name.text = a := by
  induction rels generalizing ops with
  | nil => exact .inl h
  | cons r rels ih =>
      rcases ih h with h | ⟨r', hr', hname⟩
      · rw [addNeighbour] at h
        split at h
        next => exact .inl h
        next =>
          rw [opNames, List.map_append, List.mem_append, List.map_singleton,
            List.mem_singleton] at h
          rcases h with h | h
          · exact .inl h
          · exact .inr ⟨r, List.mem_cons_self, h.symm⟩
      · exact .inr ⟨r', .tail _ hr', hname⟩

/-- An operator of the table is declared, or it is the neighbour of one that is. -/
theorem mem_opNames_declareOps {ds : List FixDecl} {a : String}
    (h : a ∈ opNames (declareOps ds).1) :
    ∃ d ∈ ds, d.name.text = a ∨ ∃ r ∈ d.rels, r.name.text = a := by
  induction ds using List.reverseRecOn with
  | nil => cases h
  | append_singleton ds d ih =>
      have hold : a ∈ opNames (declareOps ds).1 →
          ∃ d' ∈ ds ++ [d], d'.name.text = a ∨ ∃ r ∈ d'.rels, r.name.text = a := by
        intro h
        obtain ⟨d', hd', hname⟩ := ih h
        exact ⟨d', List.mem_append_left _ hd', hname⟩
      have hnear : ∀ {ops : List FixOp}, a ∈ opNames (d.rels.foldl addNeighbour ops) →
          (a ∈ opNames ops → a ∈ opNames (declareOps ds).1 ∨ d.name.text = a) →
          ∃ d' ∈ ds ++ [d], d'.name.text = a ∨ ∃ r ∈ d'.rels, r.name.text = a := by
        intro ops h hops
        rcases mem_opNames_addNeighbours h with h | hrel
        · rcases hops h with h | h
          · exact hold h
          · exact ⟨d, List.mem_append_right _ List.mem_cons_self, .inl h⟩
        · exact ⟨d, List.mem_append_right _ List.mem_cons_self, .inr hrel⟩
      have hrun : declareOps (ds ++ [d]) = declareOp (declareOps ds) d := by
        rw [declareOps, List.foldl_append]
        rfl
      rw [hrun, declareOp] at h
      split at h
      · split at h
        · exact hold h
        · apply hnear h
          have hname : ∀ op : FixOp,
              ({ op with assoc := d.assoc, declOff := some d.name.off } : FixOp).name = op.name :=
            fun _ => rfl
          rw [opNames_modify hname]
          exact .inl
      next =>
        apply hnear h
        rw [opNames, opNames, List.map_append, List.mem_append, List.map_singleton,
          List.mem_singleton]
        exact fun h => h.imp id Eq.symm

/-- Both front ends accept the same declarations. -/
theorem fixityAccepted_iff (ds : List FixDecl) : FixityAccepted ds ↔ Sound ds := by
  have hneighbours : checkNeighbours (buildFixity ds).1 = [] ↔
      ∀ op ∈ (declareOps ds).1, op.declOff.isSome := by
    rw [checkNeighbours, List.filterMap_eq_nil_iff, buildFixity_ops]
    constructor
    · intro h op hop
      have := h op hop
      cases hoff : op.declOff with
      | none => simp [hoff] at this
      | some off => rfl
    · intro h op hop
      obtain ⟨off, hoff⟩ := Option.isSome_iff_exists.mp (h op hop)
      simp [hoff]
  have hcycles : (ds.map (·.name.text)).Nodup → (checkFixityCycles (buildFixity ds).1 = [] ↔
      ∀ a, ¬ TransGen (Declares ds) a a) := by
    intro hnodup
    rw [checkFixityCycles_eq_nil_iff, buildFixity_tighter]
    exact declaredFix_acyclic_iff hnodup
  constructor
  · rintro ⟨hdups, hcyc, hnear⟩
    have hnodup := (declareOps_spec ds).1.mp hdups
    have hholds := (declareOps_spec ds).2 hnodup
    refine ⟨hnodup, ?_, (hcycles hnodup).mp hcyc⟩
    intro d hd r hr
    obtain ⟨op, hop⟩ := Option.isSome_iff_exists.mp (hholds.near d hd r hr)
    obtain ⟨i, -, hi⟩ := Option.bind_eq_some_iff.mp hop
    exact hholds.source _ ⟨op, hop, hneighbours.mp hnear op (List.mem_of_getElem? hi)⟩
  · rintro ⟨hnodup, hclosed, hacyclic⟩
    have hholds := (declareOps_spec ds).2 hnodup
    refine ⟨(declareOps_spec ds).1.mpr hnodup, (hcycles hnodup).mpr hacyclic, ?_⟩
    rw [hneighbours]
    intro op hop
    have hentry := opEntry_of_mem (declareOps_nodup ds) hop
    have hdeclared : ∃ d ∈ ds, d.name.text = op.name.text := by
      obtain ⟨d, hd, hname | ⟨r, hr, hname⟩⟩ :=
        mem_opNames_declareOps (List.mem_map_of_mem (f := (·.name.text)) hop)
      · exact ⟨d, hd, hname⟩
      · obtain ⟨d', hd', hname'⟩ := hclosed d hd r hr
        exact ⟨d', hd', hname'.trans hname⟩
    obtain ⟨d, hd, hname⟩ := hdeclared
    obtain ⟨op', hop', -, hoff⟩ := hholds.own d hd
    rw [hname, hentry] at hop'
    cases hop'
    rw [hoff]
    rfl

end Wok.Grammar
