/-
Module: Wok.Proofs.Reordering
Purpose: The two front ends on operators: they accept the same declarations, compare
  operators alike and give a chain the same structure; and when the overlay of two tables
  still compares as a strict partial order does.
Imports: Wok.Proofs.FixityDecls, Wok.Proofs.Reorder
Trusted boundary: none
Main exports: reorderChain_split, fixity_agrees, overlay_strict_iff
-/
import Wok.Proofs.FixityDecls
import Wok.Proofs.Reorder

namespace Wok.Reordering

open Relation (TransGen ReflTransGen)
open Wok.Grammar (Assoc Sense OpName FixRel FixDecl Node ChainOp Shape Fix opText chainTail
  treeNode)
open Wok.Lib.Chains
open Wok.Lib.Paths (either sharedPath MeetAt cycle_either_iff)

/-! ### The split of a chain -/

theorem findLoosestFrom_eq {t : FixityTable} {bestOp : InfixOp} (bestIdx i : Nat)
    (xs : List (InfixOp × Exp)) :
    (findLoosestFrom t bestIdx bestOp i xs).toOption =
      loosestFrom (tableFixities t) (opText bestOp) bestIdx i (xs.map fun x => opText x.1) := by
  induction xs generalizing bestIdx bestOp i with
  | nil => rfl
  | cons x xs ih =>
      obtain ⟨op, e⟩ := x
      have hcmp : (tableFixities t).compare (opText op) (opText bestOp) =
          compareOps t op.1.text bestOp.1.text := rfl
      have hleft : (tableFixities t).left (opText bestOp) =
          decide (assocOf t bestOp.1.text = some .left) := rfl
      rw [findLoosestFrom, List.map_cons, loosestFrom, hcmp, hleft]
      cases compareOps t op.1.text bestOp.1.text with
      | tighter => exact ih bestIdx (i + 1)
      | looser => exact ih i (i + 1)
      | incomparable => rfl
      | equal =>
          cases hassoc : assocOf t bestOp.1.text with
          | none => exact ih bestIdx (i + 1)
          | some assoc =>
              cases assoc with
              | left => exact ih i (i + 1)
              | right => exact ih bestIdx (i + 1)

theorem findLoosest_eq {t : FixityTable} (x : InfixOp × Exp) (xs : List (InfixOp × Exp)) :
    (findLoosest t (x :: xs)).toOption =
      loosest (tableFixities t) ((x :: xs).map fun x => opText x.1) :=
  findLoosestFrom_eq 0 1 xs

/-- The expression of a tree. -/
def treeExp : Tree InfixOp Exp → Exp
  | .leaf e => e
  | .node l o r => combineInfix (treeExp l) o (treeExp r)

/-- The operators of a chain are in the table. -/
def AllDeclared (t : FixityTable) (tails : List (InfixOp × Exp)) : Prop :=
  ∀ x ∈ tails, (lookupOp t x.1.1.text).isSome

theorem forM_checkDeclared_cons (t : FixityTable) (x : InfixOp × Exp)
    (tails : List (InfixOp × Exp)) :
    (x :: tails).forM (checkDeclared t) =
      (checkDeclared t x).bind fun _ => tails.forM (checkDeclared t) := rfl

theorem forM_checkDeclared {t : FixityTable} {tails : List (InfixOp × Exp)}
    (h : AllDeclared t tails) : tails.forM (checkDeclared t) = .ok () := by
  induction tails with
  | nil => rfl
  | cons x tails ih =>
      obtain ⟨info, hinfo⟩ := Option.isSome_iff_exists.mp (h x List.mem_cons_self)
      have hx : checkDeclared t x = .ok () := by
        rw [checkDeclared, hinfo]
      rw [forM_checkDeclared_cons, hx]
      exact ih fun y hy => h y (.tail _ hy)

theorem forM_checkDeclared_error {t : FixityTable} {tails : List (InfixOp × Exp)}
    (h : ¬ AllDeclared t tails) : ∃ e, tails.forM (checkDeclared t) = .error e := by
  induction tails with
  | nil => exact absurd (List.forall_mem_nil _) h
  | cons x tails ih =>
      rw [forM_checkDeclared_cons]
      cases hinfo : lookupOp t x.1.1.text with
      | none =>
          refine ⟨.error (.undeclaredOperator x.1.1.text x.1.1.pos), ?_⟩
          have hx : checkDeclared t x =
              .error (.error (.undeclaredOperator x.1.1.text x.1.1.pos)) := by
            rw [checkDeclared, hinfo]
          rw [hx]
          rfl
      | some info =>
          have hx : checkDeclared t x = .ok () := by
            rw [checkDeclared, hinfo]
          have hrest : ¬ AllDeclared t tails := by
            intro hrest
            apply h
            intro y hy
            rcases List.mem_cons.mp hy with rfl | hy
            · rw [hinfo]
              rfl
            · exact hrest y hy
          rw [hx]
          exact ih hrest

/-- What a chain comes out as, against its split. -/
def Outcome (r : Except ReorderFailure Exp) : Option (Tree InfixOp Exp) → Prop
  | some T => r = .ok (treeExp T)
  | none => ∃ e, r = .error e

theorem reorderChain_stuck {t : FixityTable} {h : Exp} {x : InfixOp × Exp}
    {xs : List (InfixOp × Exp)} {e : ReorderFailure} (hdecl : AllDeclared t (x :: xs))
    (hidx : findLoosest t (x :: xs) = .error e) : reorderChain t h (x :: xs) = .error e := by
  rw [reorderChain, forM_checkDeclared hdecl, hidx]
  rfl

theorem reorderChain_cons {t : FixityTable} {h a : Exp} {x : InfixOp × Exp}
    {xs right : List (InfixOp × Exp)} {o : InfixOp} {idx : Nat}
    (hdecl : AllDeclared t (x :: xs)) (hidx : findLoosest t (x :: xs) = .ok idx)
    (hdrop : (x :: xs).drop idx = (o, a) :: right) :
    reorderChain t h (x :: xs) =
      (reorderChain t h ((x :: xs).take idx)).bind fun l =>
        (reorderChain t a right).map fun r => combineInfix l o r := by
  rw [reorderChain, forM_checkDeclared hdecl, hidx]
  simp only [bind, Except.bind]
  split
  next hd =>
    rw [hd] at hdrop
    cases hdrop
    cases reorderChain t h ((x :: xs).take idx) with
    | error e => rfl
    | ok l =>
        simp only
        cases reorderChain t a right <;> rfl
  next hd =>
    rw [hd] at hdrop
    cases hdrop

/-- A chain of operators of the table is split, or the pass fails where the split stops. -/
theorem reorderChain_split {t : FixityTable} {h : Exp} {tails : List (InfixOp × Exp)}
    (hdecl : AllDeclared t tails) :
    Outcome (reorderChain t h tails) (split (tableFixities t) opText h tails) := by
  induction hn : tails.length using Nat.strongRecOn generalizing h tails with
  | _ n ih =>
      cases tails with
      | nil =>
          rw [reorderChain, split]
          exact rfl
      | cons x xs =>
          have hloosest := findLoosest_eq x xs (t := t)
          cases hidx : findLoosest t (x :: xs) with
          | error e =>
              rw [hidx] at hloosest
              rw [reorderChain_stuck hdecl hidx, split_stuck hloosest.symm]
              exact ⟨e, rfl⟩
          | ok idx =>
              rw [hidx] at hloosest
              have hlt := loosest_lt hloosest.symm
              rw [List.length_map] at hlt
              obtain ⟨o, a, right, hdrop⟩ : ∃ o a right, (x :: xs).drop idx = (o, a) :: right :=
                ⟨_, _, _, List.drop_eq_getElem_cons hlt⟩
              have hsub : ∀ y ∈ right, y ∈ x :: xs := by
                intro y hy
                apply List.mem_of_mem_drop (i := idx)
                rw [hdrop]
                exact .tail _ hy
              have hright := congrArg List.length hdrop
              rw [List.length_drop, List.length_cons] at hright
              rw [List.length_cons] at hn hlt hright
              have hl := @ih _ (by rw [List.length_take, List.length_cons]; omega) h
                ((x :: xs).take idx) (fun y hy => hdecl y (List.mem_of_mem_take hy)) rfl
              have hr := @ih _ (by omega) a right (fun y hy => hdecl y (hsub y hy)) rfl
              rw [reorderChain_cons hdecl hidx hdrop, split_cons hloosest.symm hdrop]
              -- the left operand is reordered first, and its failure is the chain's
              cases hsplitl : split (tableFixities t) opText h ((x :: xs).take idx) with
              | none =>
                  rw [hsplitl] at hl
                  obtain ⟨e, he⟩ := hl
                  exact ⟨e, by rw [he]; rfl⟩
              | some l =>
                  rw [hsplitl] at hl
                  rw [hl]
                  cases hsplitr : split (tableFixities t) opText a right with
                  | none =>
                      rw [hsplitr] at hr
                      obtain ⟨e, he⟩ := hr
                      exact ⟨e, by rw [he]; rfl⟩
                  | some r =>
                      rw [hsplitr] at hr
                      rw [hr]
                      exact rfl

/-! ### The same operators -/

section Agreement

variable {ds : List FixDecl} (hsound : Sound ds)
include hsound

/-- Both tables have the declared operators. -/
theorem fixFind_isSome_iff {a : String} :
    (Wok.Grammar.fixFind (Wok.Grammar.buildFixity ds).1.ops a).isSome ↔
      (lookupOp ⟨tableOf ds⟩ a).isSome := by
  have hholds := (Wok.Grammar.declareOps_spec ds).2 hsound.nodup
  obtain ⟨hsorted, hmem⟩ := tableOf_entries hsound.nodup
  rw [Wok.Grammar.buildFixity_ops, ← Wok.Grammar.opEntry_isSome]
  constructor
  · intro h
    obtain ⟨op, hop⟩ := Option.isSome_iff_exists.mp h
    obtain ⟨i, hi, -⟩ := Option.bind_eq_some_iff.mp hop
    obtain ⟨op', hop', hname⟩ := Wok.Grammar.fixFind_some hi
    have hin : a ∈ Wok.Grammar.opNames (Wok.Grammar.declareOps ds).1 := by
      rw [← hname]
      exact List.mem_map_of_mem (f := (·.name.text)) (List.mem_of_getElem? hop')
    have hdeclared : ∃ d ∈ ds, d.name.text = a := by
      obtain ⟨d, hd, hd' | ⟨r, hr, hr'⟩⟩ := Wok.Grammar.mem_opNames_declareOps hin
      · exact ⟨d, hd, hd'⟩
      · obtain ⟨d', hd', hname'⟩ := hsound.closed d hd r hr
        exact ⟨d', hd', hname'.trans hr'⟩
    obtain ⟨d, hd, rfl⟩ := hdeclared
    rw [lookupOp, (lookup_eq_some_iff hsorted).mpr ((hmem _).mpr ⟨d, hd, rfl⟩)]
    rfl
  · intro h
    obtain ⟨info, hinfo⟩ := Option.isSome_iff_exists.mp h
    obtain ⟨d, hd, heq⟩ := (hmem _).mp ((lookup_eq_some_iff hsorted).mp hinfo)
    cases heq
    obtain ⟨op, hop, -⟩ := hholds.own d hd
    rw [hop]
    rfl

theorem buildFixity_lawful :
    (Wok.Grammar.fixFixities (Wok.Grammar.buildFixity ds).1).Lawful := by
  apply Wok.Grammar.fixFixities_lawful
  rw [Wok.Grammar.buildFixity_strict_iff, Wok.Grammar.declaredFix_acyclic_iff hsound.nodup]
  exact hsound.acyclic

/-- Both comparisons are the path between two operators. -/
theorem fixCompare_eq_compareOps (a b : String) :
    Wok.Grammar.fixCompare (Wok.Grammar.buildFixity ds).1 a b =
      compareOps ⟨tableOf ds⟩ a b := by
  have hbinds : Binds (tableOf ds) = Declares ds := by
    funext a b
    exact propext (tableOf_binds hsound.nodup)
  have hwhole : Whole (FixityTable.mk (tableOf ds)).entries := hsound.whole
  refine (buildFixity_lawful hsound).compare_congr hwhole.lawful ?_ a b
  intro a b
  refine (Wok.Grammar.buildFixity_compare hsound.nodup).trans ?_
  refine Iff.trans ?_ hwhole.tighterOp_iff.symm
  rw [hbinds]
  constructor
  · exact fun h => h.2
  · intro h
    refine ⟨?_, h⟩
    rintro rfl
    exact hsound.acyclic a h

/-- Both tables have the declared associativity. -/
theorem fixLeft_eq_tableLeft (a : String) :
    (Wok.Grammar.fixFixities (Wok.Grammar.buildFixity ds).1).left a =
      (tableFixities ⟨tableOf ds⟩).left a := by
  obtain ⟨hsorted, hmem⟩ := tableOf_entries hsound.nodup
  have hiff := fixFind_isSome_iff hsound (a := a)
  have htable : (tableFixities ⟨tableOf ds⟩).left a = true ↔
      (lookupOp ⟨tableOf ds⟩ a).map (·.assoc) = some .left := by
    simp [tableFixities, assocOf]
  have hfix : (Wok.Grammar.fixFixities (Wok.Grammar.buildFixity ds).1).left a =
      (Wok.Grammar.fixFind (Wok.Grammar.buildFixity ds).1.ops a).any
        (Wok.Grammar.isLeft (Wok.Grammar.buildFixity ds).1) := rfl
  rw [Bool.eq_iff_iff, htable, hfix]
  cases hfind : Wok.Grammar.fixFind (Wok.Grammar.buildFixity ds).1.ops a with
  | none =>
      rw [hfind] at hiff
      have hnone : lookupOp ⟨tableOf ds⟩ a = none := by
        cases hlookup : lookupOp ⟨tableOf ds⟩ a with
        | none => rfl
        | some info =>
            rw [hlookup] at hiff
            cases hiff.mpr rfl
      rw [hnone]
      simp
  | some i =>
      rw [hfind] at hiff
      obtain ⟨info, hinfo⟩ := Option.isSome_iff_exists.mp (hiff.mp rfl)
      obtain ⟨d, hd, heq⟩ := (hmem _).mp ((lookup_eq_some_iff hsorted).mp hinfo)
      cases heq
      obtain ⟨op, hop, hassoc, -⟩ :=
        ((Wok.Grammar.declareOps_spec ds).2 hsound.nodup).own d hd
      rw [Wok.Grammar.buildFixity_ops] at hfind
      rw [Wok.Grammar.opEntry, hfind, Option.bind_some] at hop
      rw [hinfo, Option.any_some, Wok.Grammar.isLeft, Wok.Grammar.buildFixity_ops, hop]
      simp [hassoc, infoOf]

end Agreement

/-! ### The same structure -/

/-- The shape of a tree over shapes. -/
def treeShape : Tree InfixOp Shape → Shape
  | .leaf s => s
  | .node l o r => .chain (treeShape l) [(o, treeShape r)]

theorem treeNode_shape (T : Tree InfixOp Node) :
    (treeNode T).shape = treeShape (T.map Node.shape) := by
  induction T with
  | leaf n => rfl
  | node l o r ihl ihr =>
      rw [treeNode, Wok.Grammar.combineInfix, Node.shape, ihl, ChainOp.shapes, ihr]
      rfl

theorem wrap_shape (e : Exp) : (wrap e).shape = e.shape := by
  cases e with
  | other id => rfl
  | paren e => rfl
  | expr h tails => cases tails <;> rfl

theorem treeExp_shape (T : Tree InfixOp Exp) :
    (treeExp T).shape = treeShape (T.map Exp.shape) := by
  induction T with
  | leaf e => rfl
  | node l o r ihl ihr =>
      rw [treeExp, combineInfix, Exp.shape, wrap_shape, ihl, Exp.shapes, wrap_shape, ihr]
      rfl

theorem chainTail_shapes (ops : List ChainOp) :
    (chainTail ops).map (fun x => (x.1, x.2.shape)) = ChainOp.shapes ops := by
  induction ops with
  | nil => rfl
  | cons o ops ih =>
      obtain ⟨off, len, op, backtick, rhs⟩ := o
      rw [ChainOp.shapes, ← ih]
      rfl

theorem tails_shapes (tails : List (InfixOp × Exp)) :
    tails.map (fun x => (x.1, x.2.shape)) = Exp.shapes tails := by
  induction tails with
  | nil => rfl
  | cons x tails ih =>
      obtain ⟨op, e⟩ := x
      rw [Exp.shapes, ← ih]
      rfl

/-- What the two passes make of a chain: both fail, or they give it the same structure. -/
def SameOutcome (r : Node × List Wok.Grammar.ReorderDiag) (r' : Except ReorderFailure Exp) :
    Prop :=
  (r.2 ≠ [] ∧ ∃ e, r' = .error e) ∨ (r.2 = [] ∧ ∃ e, r' = .ok e ∧ e.shape = r.1.shape)

/-- Chains of one shape have the same operators. -/
theorem shapes_names {ops : List ChainOp} {tails : List (InfixOp × Exp)}
    (hops : Exp.shapes tails = ChainOp.shapes ops) (a : String) :
    (∃ x ∈ tails, x.1.1.text = a) ↔ ∃ o ∈ ops, o.op.text = a := by
  have hfst := congrArg (List.map fun x => x.1.1.text) hops
  rw [← tails_shapes, ← chainTail_shapes, List.map_map, List.map_map] at hfst
  have htails : (∃ x ∈ tails, x.1.1.text = a) ↔ a ∈ tails.map fun x => x.1.1.text :=
    List.mem_map.symm
  have hchain : a ∈ (chainTail ops).map (fun x => x.1.1.text) ↔ ∃ o ∈ ops, o.op.text = a := by
    have hkeys : (chainTail ops).map (fun x => x.1.1.text) = (ops.map (·.op)).map (·.text) :=
      (Wok.Grammar.chainTail_keys ops).symm
    rw [hkeys, List.map_map]
    exact List.mem_map
  rw [htails, ← hchain]
  exact iff_of_eq (congrArg (a ∈ ·) hfst)

/-- Both splits of a chain are the split of its shapes. -/
theorem split_shapes {ds : List FixDecl} (hsound : Sound ds) {head : Node}
    {ops : List ChainOp} {h : Exp} {tails : List (InfixOp × Exp)} (hhead : h.shape = head.shape)
    (hops : Exp.shapes tails = ChainOp.shapes ops) :
    (split (Wok.Grammar.fixFixities (Wok.Grammar.buildFixity ds).1) opText head
        (chainTail ops)).map (Wok.Lib.Chains.Tree.map Node.shape) =
      (split (tableFixities ⟨tableOf ds⟩) opText h tails).map
        (Wok.Lib.Chains.Tree.map Exp.shape) := by
  rw [← split_map, ← split_map, chainTail_shapes, tails_shapes, hhead, hops]
  apply split_congr
  · intro x _ y _
    exact fixCompare_eq_compareOps hsound _ _
  · intro x _
    exact fixLeft_eq_tableLeft hsound _

theorem reorderChain_same {ds : List FixDecl} (hsound : Sound ds) (off len : Nat) {head : Node}
    {ops : List ChainOp} {h : Exp} {tails : List (InfixOp × Exp)} (hhead : h.shape = head.shape)
    (hops : Exp.shapes tails = ChainOp.shapes ops) :
    SameOutcome (Wok.Grammar.reorderChain (Wok.Grammar.buildFixity ds).1 off len head ops)
      (reorderChain ⟨tableOf ds⟩ h tails) := by
  have hnames := shapes_names hops
  by_cases hdecl : AllDeclared ⟨tableOf ds⟩ tails
  · have hin : ∀ o ∈ ops,
        (Wok.Grammar.fixFind (Wok.Grammar.buildFixity ds).1.ops o.op.text).isSome := by
      intro o ho
      obtain ⟨x, hx, hname⟩ := (hnames _).mpr ⟨o, ho, rfl⟩
      rw [fixFind_isSome_iff hsound, ← hname]
      exact hdecl x hx
    obtain ⟨ts, hts⟩ := Wok.Grammar.resolveTails_isOk hin
    have hc := Wok.Grammar.reorderChain_agrees off len head hts
    have hh := reorderChain_split (h := h) hdecl
    have hsplit := split_shapes hsound hhead hops
    generalize split (Wok.Grammar.fixFixities (Wok.Grammar.buildFixity ds).1) opText head
      (chainTail ops) = sc at hc hsplit
    generalize split (tableFixities ⟨tableOf ds⟩) opText h tails = sh at hh hsplit
    cases sc with
    | none =>
        cases sh with
        | none => exact .inl ⟨hc, hh⟩
        | some T' => cases hsplit
    | some T =>
        cases sh with
        | none => cases hsplit
        | some T' =>
            have hrun : Wok.Grammar.reorderChain (Wok.Grammar.buildFixity ds).1 off len head ops =
                (treeNode T, []) := hc
            refine .inr ⟨by rw [hrun], treeExp T', hh, ?_⟩
            rw [hrun, treeNode_shape, treeExp_shape]
            exact congrArg treeShape (Option.some.inj hsplit).symm
  · have hout : ¬ ∀ o ∈ ops,
        (Wok.Grammar.fixFind (Wok.Grammar.buildFixity ds).1.ops o.op.text).isSome := by
      intro hin
      apply hdecl
      intro x hx
      obtain ⟨o, ho, hname⟩ := (hnames _).mp ⟨x, hx, rfl⟩
      rw [← hname, ← fixFind_isSome_iff hsound]
      exact hin o ho
    refine .inl ⟨?_, ?_⟩
    · cases hts : Wok.Grammar.resolveTails (Wok.Grammar.buildFixity ds).1 ops with
      | error d =>
          rw [Wok.Grammar.reorderChain, hts]
          exact List.cons_ne_nil _ _
      | ok ts => exact absurd (Wok.Grammar.resolveTails_found hts) hout
    · obtain ⟨e, he⟩ := forM_checkDeclared_error hdecl
      cases tails with
      | nil => exact absurd (List.forall_mem_nil _) hdecl
      | cons x xs =>
          refine ⟨e, ?_⟩
          rw [reorderChain, he]
          rfl

/-- The closure of the matrix is exact, a cycle is reported exactly when there is one, and
on declarations that both front ends accept they compare operators alike and give every
chain the same structure. -/
theorem fixity_front_ends_agree (ds : List FixDecl) :
    (∀ i j, (Wok.Grammar.buildFixity ds).1.Tighter i j ↔
      TransGen (Wok.Grammar.declaredFix ds).Tighter i j) ∧
    (Wok.Grammar.checkFixityCycles (Wok.Grammar.buildFixity ds).1 ≠ [] ↔
      ∃ i, TransGen (Wok.Grammar.declaredFix ds).Tighter i i) ∧
    ((ds.map (·.name.text)).Nodup →
      (∀ i j, (Wok.Grammar.declaredFix ds).Tighter i j ↔ ∃ a b, Declares ds a b ∧
        Wok.Grammar.fixFind (Wok.Grammar.buildFixity ds).1.ops a = some i ∧
        Wok.Grammar.fixFind (Wok.Grammar.buildFixity ds).1.ops b = some j) ∧
      ((∀ d ∈ ds, ∀ r ∈ d.rels, ∃ d' ∈ ds, d'.name.text = r.name.text) →
        ((∃ es, buildFixityTable ds = .error es) ↔ ∃ a, TransGen (Declares ds) a a))) ∧
    (Wok.Grammar.FixityAccepted ds ↔ ∃ t, buildFixityTable ds = .ok t) ∧
    ∀ t, buildFixityTable ds = .ok t →
      (∀ a b i j, Wok.Grammar.fixFind (Wok.Grammar.buildFixity ds).1.ops a = some i →
        Wok.Grammar.fixFind (Wok.Grammar.buildFixity ds).1.ops b = some j →
        Wok.Grammar.compareOps (Wok.Grammar.buildFixity ds).1 a i b j = compareOps t a b ∧
        ((Wok.Grammar.buildFixity ds).1.Tighter i j ↔ TransGen (Declares ds) a b)) ∧
      ∀ (off len : Nat) (head : Node) (ops : List ChainOp) (h : Exp)
        (tails : List (InfixOp × Exp)), h.shape = head.shape →
        Exp.shapes tails = ChainOp.shapes ops →
        SameOutcome
          (Wok.Grammar.reorderChain (Wok.Grammar.buildFixity ds).1 off len head ops)
          (reorderChain t h tails) := by
  have hclosure : ∀ i j, (Wok.Grammar.buildFixity ds).1.Tighter i j ↔
      TransGen (Wok.Grammar.declaredFix ds).Tighter i j := by
    intro i j
    rw [Wok.Grammar.buildFixity_tighter]
  refine ⟨hclosure, ?_, ?_, ?_, ?_⟩
  · rw [Ne, Wok.Grammar.checkFixityCycles_eq_nil_iff, Wok.Grammar.buildFixity_tighter]
    exact not_forall_not
  · intro hnodup
    rw [Wok.Grammar.buildFixity_ops]
    refine ⟨fun i j => Wok.Grammar.declaredFix_tighter hnodup, ?_⟩
    intro hclosed
    have hok : (∃ t, buildFixityTable ds = .ok t) ↔ ∀ a, ¬ TransGen (Declares ds) a a := by
      constructor
      · rintro ⟨t, ht⟩
        exact (buildFixityTable_ok_iff.mp ht).1.acyclic
      · intro hacyclic
        exact ⟨_, buildFixityTable_ok_iff.mpr ⟨⟨hnodup, hclosed, hacyclic⟩, rfl⟩⟩
    have hcycle : (∃ a, TransGen (Declares ds) a a) ↔ ¬ ∃ t, buildFixityTable ds = .ok t := by
      rw [hok, not_forall_not]
    rw [hcycle]
    cases buildFixityTable ds with
    | error es => simp
    | ok t => simp
  · rw [Wok.Grammar.fixityAccepted_iff]
    constructor
    · exact fun h => ⟨_, buildFixityTable_ok_iff.mpr ⟨h, rfl⟩⟩
    · rintro ⟨t, ht⟩
      exact (buildFixityTable_ok_iff.mp ht).1
  · intro t ht
    obtain ⟨hsound, rfl⟩ := buildFixityTable_ok_iff.mp ht
    refine ⟨?_, fun off len head ops h tails => reorderChain_same hsound off len⟩
    intro a b i j hi hj
    rw [← Wok.Grammar.fixCompare_of_find hi hj]
    refine ⟨fixCompare_eq_compareOps hsound a b, ?_⟩
    rw [hclosure, Wok.Grammar.declaredFix_transGen hsound.nodup]
    rw [Wok.Grammar.buildFixity_ops] at hi hj
    constructor
    · rintro ⟨a', b', hab, ha', hb'⟩
      rw [Wok.Grammar.fixFind_inj hi ha', Wok.Grammar.fixFind_inj hj hb']
      exact hab
    · exact fun hab => ⟨a, b, hab, hi, hj⟩

/-- Both front ends accept `*` and `+`, so they agree on them and on `1 + 2 * 3`. -/
theorem arithmetic_agrees : ∃ t, buildFixityTable Wok.Grammar.arithmetic = .ok t ∧
    Wok.Grammar.compareOps (Wok.Grammar.buildFixity Wok.Grammar.arithmetic).1 "*" 0 "+" 1 =
      compareOps t "*" "+" ∧
    SameOutcome
      (Wok.Grammar.reorderChain (Wok.Grammar.buildFixity Wok.Grammar.arithmetic).1 50 9
        (.other 1 50 1) Wok.Grammar.sum)
      (reorderChain t (.other 1)
        [((⟨"+", false, 52, some (3, 3)⟩, false), .other 2),
          ((⟨"*", false, 56, some (3, 7)⟩, false), .other 3)]) := by
  obtain ⟨-, -, -, haccepted, hagree⟩ := fixity_front_ends_agree Wok.Grammar.arithmetic
  obtain ⟨t, ht⟩ := haccepted.mp ⟨by decide, by decide, by decide⟩
  obtain ⟨hcompare, hchain⟩ := hagree t ht
  exact ⟨t, ht, (hcompare "*" "+" 0 1 (by decide) (by decide)).1,
    hchain 50 9 (.other 1 50 1) Wok.Grammar.sum (.other 1) _ rfl rfl⟩

/-! ### The overlay of two tables -/

/-- The left-biased union of the entries. -/
def overlayEntries (a b : Entries) : Entries := a.foldl (fun m (k, i) => insertEntry k i m) b

theorem overlayEntries_spec {a b : Entries} (ha : Sorted a) (hb : Sorted b) :
    Sorted (overlayEntries a b) ∧ ∀ e, e ∈ overlayEntries a b ↔
      e ∈ a ∨ e ∈ b ∧ e.1 ∉ a.map (·.1) := by
  induction a generalizing b with
  | nil =>
      refine ⟨hb, ?_⟩
      intro e
      simp [overlayEntries]
  | cons x a ih =>
      obtain ⟨k, i⟩ := x
      have hk : ∀ y ∈ a, k < y.1 := (List.pairwise_cons.mp ha).1
      obtain ⟨hsorted, hmem⟩ := ih ha.tail (sorted_insertEntry hb k i)
      have hcons : overlayEntries ((k, i) :: a) b = overlayEntries a (insertEntry k i b) := rfl
      have hnot : k ∉ a.map (·.1) := by
        intro hin
        obtain ⟨y, hy, heq⟩ := List.mem_map.mp hin
        have := hk y hy
        rw [heq] at this
        exact String.lt_irrefl _ this
      rw [hcons]
      refine ⟨hsorted, ?_⟩
      intro e
      rw [hmem, mem_insertEntry hb, List.map_cons, List.mem_cons, List.mem_cons, not_or]
      constructor
      · rintro (he | ⟨rfl | ⟨he, hne⟩, hout⟩)
        · exact .inl (.inr he)
        · exact .inl (.inl rfl)
        · exact .inr ⟨he, hne, hout⟩
      · rintro ((rfl | he) | ⟨he, hne, hout⟩)
        · exact .inr ⟨.inl rfl, hnot⟩
        · exact .inl he
        · exact .inr ⟨.inr ⟨he, hne⟩, hout⟩

/-- Two tables that are overlaid have the same entries for the operators of both. -/
theorem overlayFixities_ok {a b m : FixityTable} (hb : Sorted b.entries)
    (h : overlayFixities a b = .ok m) :
    m = ⟨overlayEntries a.entries b.entries⟩ ∧
      ∀ k ai bi, (k, ai) ∈ a.entries → (k, bi) ∈ b.entries → ai = bi := by
  rw [overlayFixities] at h
  simp only at h
  split at h
  next hclashes =>
    refine ⟨(Except.ok.inj h).symm, ?_⟩
    intro k ai bi hai hbi
    have hnone := List.filterMap_eq_nil_iff.mp hclashes (k, ai) hai
    simp only [(lookup_eq_some_iff hb).mpr hbi] at hnone
    by_contra hne
    simp [hne] at hnone
  next => cases h

/-- The entries of two tables that are overlaid are those of either. -/
theorem overlay_entries {a b m : FixityTable} (ha : Sorted a.entries) (hb : Sorted b.entries)
    (h : overlayFixities a b = .ok m) :
    Sorted m.entries ∧ ∀ e, e ∈ m.entries ↔ e ∈ a.entries ∨ e ∈ b.entries := by
  obtain ⟨rfl, hsame⟩ := overlayFixities_ok hb h
  obtain ⟨hsorted, hmem⟩ := overlayEntries_spec ha hb
  refine ⟨hsorted, ?_⟩
  intro e
  rw [hmem]
  constructor
  · rintro (he | ⟨he, -⟩)
    · exact .inl he
    · exact .inr he
  · rintro (he | he)
    · exact .inl he
    · by_cases hin : e.1 ∈ a.entries.map (·.1)
      · obtain ⟨⟨k, ai⟩, hai, heq⟩ := List.mem_map.mp hin
        obtain ⟨k', bi⟩ := e
        simp only at heq
        subst heq
        rw [← hsame k ai bi hai he]
        exact .inl hai
      · exact .inr ⟨he, hin⟩

/-- The edges of the overlay are those of either table. -/
theorem overlay_binds {a b m : FixityTable} (ha : Sorted a.entries) (hb : Sorted b.entries)
    (h : overlayFixities a b = .ok m) (x y : String) :
    Binds m.entries x y ↔ Binds a.entries x y ∨ Binds b.entries x y := by
  obtain ⟨hsorted, hmem⟩ := overlay_entries ha hb h
  rw [binds_iff hsorted, binds_iff ha, binds_iff hb]
  simp only [hmem]
  constructor
  · rintro (⟨info, hin | hin, hrel⟩ | ⟨info, hin | hin, hrel⟩)
    · exact .inl (.inl ⟨info, hin, hrel⟩)
    · exact .inr (.inl ⟨info, hin, hrel⟩)
    · exact .inl (.inr ⟨info, hin, hrel⟩)
    · exact .inr (.inr ⟨info, hin, hrel⟩)
  · rintro ((⟨info, hin, hrel⟩ | ⟨info, hin, hrel⟩) | ⟨info, hin, hrel⟩ | ⟨info, hin, hrel⟩)
    · exact .inl ⟨info, .inl hin, hrel⟩
    · exact .inr ⟨info, .inl hin, hrel⟩
    · exact .inl ⟨info, .inr hin, hrel⟩
    · exact .inr ⟨info, .inr hin, hrel⟩

/-- The comparison of a table is a strict partial order. -/
structure StrictOrder (t : FixityTable) : Prop where
  irrefl : ∀ a, ¬ TighterOp t a a
  asymm : ∀ a b, TighterOp t a b → ¬ TighterOp t b a
  trans : ∀ a b c, TighterOp t a b → TighterOp t b c → TighterOp t a c

/-- The operator is in both tables. -/
def Shared (a b : FixityTable) (k : String) : Prop :=
  (lookupOp a k).isSome ∧ (lookupOp b k).isSome

/-- Of two operators of both tables the first one is tighter in one of the tables. -/
def SharedTighter (a b : FixityTable) (x y : String) : Prop :=
  Shared a b x ∧ Shared a b y ∧ (TighterOp a x y ∨ TighterOp b x y)

theorem isSome_lookupOp {t : FixityTable} (h : Sorted t.entries) {k : String} :
    (lookupOp t k).isSome ↔ ∃ info, (k, info) ∈ t.entries := by
  rw [lookupOp, Option.isSome_iff_exists]
  constructor
  · rintro ⟨info, hinfo⟩
    exact ⟨info, (lookup_eq_some_iff h).mp hinfo⟩
  · rintro ⟨info, hinfo⟩
    exact ⟨info, (lookup_eq_some_iff h).mpr hinfo⟩

/-- The comparison of a table with its neighbours in it is strict if no path of its edges
leads back. -/
theorem strictOrder_iff {t : FixityTable} (hsorted : Sorted t.entries)
    (hclosed : ∀ k info, (k, info) ∈ t.entries → ∀ n ∈ info.tighter ++ info.looser,
      ∃ info', (n, info') ∈ t.entries)
    (hself : ∀ a, ¬ Binds t.entries a a) :
    StrictOrder t ↔ ∀ a, ¬ TransGen (Binds t.entries) a a := by
  constructor
  · intro h a hcycle
    obtain ⟨b, hab, hba⟩ := TransGen.head'_iff.mp hcycle
    have hne : a ≠ b := by
      rintro rfl
      exact hself _ hab
    have hback : TransGen (Binds t.entries) b a := by
      rcases ReflTransGen.cases_head hba with heq | ⟨c, hbc, hca⟩
      · exact absurd heq.symm hne
      · exact TransGen.head' hbc hca
    have hends : (lookupOp t a).isSome ∧ (lookupOp t b).isSome := by
      rw [isSome_lookupOp hsorted, isSome_lookupOp hsorted]
      rcases (binds_iff hsorted).mp hab with ⟨info, ha, hb⟩ | ⟨info, hb, ha⟩
      · exact ⟨⟨info, ha⟩, hclosed a info ha b (List.mem_append_left _ hb)⟩
      · exact ⟨hclosed b info hb a (List.mem_append_right _ ha), ⟨info, hb⟩⟩
    exact h.asymm a b (compareOps_eq_tighter.mpr ⟨hne, hends.1, hends.2, .single hab⟩)
      (compareOps_eq_tighter.mpr ⟨hne.symm, hends.2, hends.1, hback⟩)
  · intro hacyclic
    have hlawful : (tableFixities t).Lawful := Whole.lawful ⟨hsorted, hclosed, hacyclic⟩
    exact ⟨fun a => hlawful.irrefl, fun a b => hlawful.asymm, fun a b c => hlawful.trans⟩

/-- The overlay of two tables that were each accepted compares as a strict partial order
exactly when the operators of both tables are not on a cycle of the two comparisons. -/
theorem overlay_strict_iff (imported own : List FixDecl) (a b m : FixityTable)
    (ha : buildFixityTable imported = .ok a) (hb : buildFixityTable own = .ok b)
    (hm : overlayFixities a b = .ok m) :
    StrictOrder m ↔ ∀ x, ¬ TransGen (SharedTighter a b) x x := by
  have hwholea : Whole a.entries := by
    obtain ⟨hsound, rfl⟩ := buildFixityTable_ok_iff.mp ha
    exact hsound.whole
  have hwholeb : Whole b.entries := by
    obtain ⟨hsound, rfl⟩ := buildFixityTable_ok_iff.mp hb
    exact hsound.whole
  obtain ⟨hsorted, hmem⟩ := overlay_entries hwholea.sorted hwholeb.sorted hm
  have hbinds : Binds m.entries = either (Binds a.entries) (Binds b.entries) := by
    funext x y
    exact propext (overlay_binds hwholea.sorted hwholeb.sorted hm x y)
  have hmeet : MeetAt (Binds a.entries) (Binds b.entries) (Shared a b) := by
    constructor
    · intro x y z hxy hyz
      exact ⟨(isSome_lookupOp hwholea.sorted).mpr (hwholea.binds_mem hxy).2,
        (isSome_lookupOp hwholeb.sorted).mpr (hwholeb.binds_mem hyz).1⟩
    · intro x y z hxy hyz
      exact ⟨(isSome_lookupOp hwholea.sorted).mpr (hwholea.binds_mem hyz).1,
        (isSome_lookupOp hwholeb.sorted).mpr (hwholeb.binds_mem hxy).2⟩
  have hsegment : sharedPath (Binds a.entries) (Binds b.entries) (Shared a b) =
      SharedTighter a b := by
    funext x y
    rw [sharedPath, SharedTighter, hwholea.tighterOp_iff, hwholeb.tighterOp_iff]
  have hclosed : ∀ k info, (k, info) ∈ m.entries → ∀ n ∈ info.tighter ++ info.looser,
      ∃ info', (n, info') ∈ m.entries := by
    intro k info hk n hn
    rcases (hmem _).mp hk with hk | hk
    · obtain ⟨info', hinfo'⟩ := hwholea.closed k info hk n hn
      exact ⟨info', (hmem _).mpr (.inl hinfo')⟩
    · obtain ⟨info', hinfo'⟩ := hwholeb.closed k info hk n hn
      exact ⟨info', (hmem _).mpr (.inr hinfo')⟩
  have hself : ∀ x, ¬ Binds m.entries x x := by
    intro x hx
    rw [hbinds] at hx
    rcases hx with hx | hx
    · exact hwholea.acyclic x (.single hx)
    · exact hwholeb.acyclic x (.single hx)
  rw [strictOrder_iff hsorted hclosed hself, hbinds, ← hsegment, ← not_exists, ← not_exists,
    cycle_either_iff hmeet hwholea.acyclic hwholeb.acyclic]

/-- A table that comes by two ways is overlaid with itself, and stays strict. -/
theorem diamond_strict : ∃ t m, buildFixityTable Wok.Grammar.arithmetic = .ok t ∧
    overlayFixities t t = .ok m ∧ StrictOrder m := by
  have hsound : Sound Wok.Grammar.arithmetic :=
    (Wok.Grammar.fixityAccepted_iff _).mp ⟨by decide, by decide, by decide⟩
  have htable := buildFixityTable_ok_iff.mpr ⟨hsound, rfl⟩
  have hwhole : Whole (FixityTable.mk (tableOf Wok.Grammar.arithmetic)).entries := hsound.whole
  refine ⟨_, _, htable, rfl, ?_⟩
  apply (overlay_strict_iff Wok.Grammar.arithmetic Wok.Grammar.arithmetic _ _ _ htable htable
    rfl).mpr
  intro x hcycle
  have hpath : ∀ {y z}, TransGen (SharedTighter ⟨tableOf Wok.Grammar.arithmetic⟩
      ⟨tableOf Wok.Grammar.arithmetic⟩) y z →
      TransGen (Binds (tableOf Wok.Grammar.arithmetic)) y z := by
    intro y z hyz
    induction hyz with
    | single h => exact hwhole.tighterOp_iff.mp (h.2.2.elim id id)
    | tail _ h ih => exact ih.trans (hwhole.tighterOp_iff.mp (h.2.2.elim id id))
  exact hwhole.acyclic x (hpath hcycle)

/-- The operators `+` and `*`, which are unrelated, with `<+>` between them. -/
def imported : List FixDecl :=
  [⟨⟨"+", false, 7, some (1, 8)⟩, .left, []⟩, ⟨⟨"*", false, 21, some (2, 8)⟩, .left, []⟩,
    ⟨⟨"<+>", false, 35, some (3, 8)⟩, .left, [⟨.tighter, ⟨"*", false, 60, some (3, 33)⟩⟩,
      ⟨.looser, ⟨"+", false, 75, some (3, 48)⟩⟩]⟩]

/-- The same two on the same lines of another file, with `<*>` between them the other way
around. -/
def own : List FixDecl :=
  [⟨⟨"+", false, 7, some (1, 8)⟩, .left, []⟩, ⟨⟨"*", false, 21, some (2, 8)⟩, .left, []⟩,
    ⟨⟨"<*>", false, 35, some (3, 8)⟩, .left, [⟨.tighter, ⟨"+", false, 60, some (3, 33)⟩⟩,
      ⟨.looser, ⟨"*", false, 75, some (3, 48)⟩⟩]⟩]

theorem overlay_cycle : ∃ a b m, buildFixityTable imported = .ok a ∧
    buildFixityTable own = .ok b ∧ overlayFixities a b = .ok m ∧
    compareOps m "+" "*" = .tighter ∧ compareOps m "*" "+" = .tighter ∧ ¬ StrictOrder m := by
  have himported : Sound imported :=
    (Wok.Grammar.fixityAccepted_iff imported).mp ⟨by decide, by decide, by decide⟩
  have hown : Sound own :=
    (Wok.Grammar.fixityAccepted_iff own).mp ⟨by decide, by decide, by decide⟩
  have hplus : compareOps ⟨overlayEntries (tableOf imported) (tableOf own)⟩ "+" "*" =
      .tighter := by
    decide
  have htimes : compareOps ⟨overlayEntries (tableOf imported) (tableOf own)⟩ "*" "+" =
      .tighter := by
    decide
  exact ⟨_, _, _, buildFixityTable_ok_iff.mpr ⟨himported, rfl⟩,
    buildFixityTable_ok_iff.mpr ⟨hown, rfl⟩, rfl, hplus, htimes,
    fun h => h.asymm "+" "*" hplus htimes⟩

end Wok.Reordering
