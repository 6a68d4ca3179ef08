/-
Module: Wok.Proofs.Reorder
Purpose: The reordering of chains is the split of a chain under the order of the table:
  its results are parses, and the check of a chain lets through exactly the chains that
  have one.
Imports: Wok.Proofs.Fixity
Trusted boundary: none
Main exports: reorderSplit_spec, reorderChain_parses, checkChain_iff_reorderChain
-/
import Wok.Proofs.Fixity

namespace Wok.Grammar

open Wok.Lib.Chains

/-! ### The split -/

/-- The places know where their operators are in the table. -/
def Located (f : Fix) (ts : List Tail) : Prop :=
  ∀ t ∈ ts, fixFind f.ops t.name.text = some t.fixIdx

/-- A place without its index. -/
def Tail.entry (t : Tail) : (OpName × Bool) × Node := ((t.name, t.backtick), t.rhs)

theorem findLoosestFrom_eq {f : Fix} {best : Tail} {ts : List Tail} (bestIdx i : Nat)
    (hbest : fixFind f.ops best.name.text = some best.fixIdx) (hts : Located f ts) :
    (findLoosestFrom f best bestIdx i ts).toOption =
      loosestFrom (fixFixities f) best.name.text bestIdx i (ts.map (·.name.text)) := by
  induction ts generalizing best bestIdx i with
  | nil => rfl
  | cons t ts ih =>
      have ht := hts t List.mem_cons_self
      have hts' : Located f ts := fun t' ht' => hts t' (.tail _ ht')
      have hcmp : (fixFixities f).compare t.name.text best.name.text =
          compareOps f t.name.text t.fixIdx best.name.text best.fixIdx :=
        fixCompare_of_find ht hbest
      have hleft : (fixFixities f).left best.name.text = isLeft f best.fixIdx := by
        simp [fixFixities, hbest]
      rw [findLoosestFrom, List.map_cons, loosestFrom, hcmp, hleft]
      cases compareOps f t.name.text t.fixIdx best.name.text best.fixIdx with
      | tighter => exact ih bestIdx (i + 1) hbest hts'
      | looser => exact ih i (i + 1) ht hts'
      | incomparable => rfl
      | equal =>
          simp only
          split
          · exact ih i (i + 1) ht hts'
          · exact ih bestIdx (i + 1) hbest hts'

theorem findLoosest_eq {f : Fix} {t : Tail} {ts : List Tail} (hts : Located f (t :: ts)) :
    (findLoosest f t ts).toOption =
      loosest (fixFixities f) ((t :: ts).map (·.name.text)) :=
  findLoosestFrom_eq 0 1 (hts t List.mem_cons_self) fun t' ht' => hts t' (.tail _ ht')

theorem reorderSplit_cons {f : Fix} {h : Node} {t splitAt : Tail} {ts rest : List Tail}
    {idx : Nat} (hidx : findLoosest f t ts = .ok idx)
    (hdrop : (t :: ts).drop idx = splitAt :: rest) :
    reorderSplit f h (t :: ts) =
      (combineInfix (reorderSplit f h ((t :: ts).take idx)).1 splitAt.name splitAt.backtick
          (reorderSplit f splitAt.rhs rest).1,
        (reorderSplit f h ((t :: ts).take idx)).2 ++ (reorderSplit f splitAt.rhs rest).2) := by
  rw [reorderSplit, hidx]
  simp only
  split
  next h =>
    rw [h] at hdrop
    cases hdrop
  next h =>
    rw [h] at hdrop
    cases hdrop
    rfl

/-- The name of an operator. -/
def opText (o : OpName × Bool) : String := o.1.text

/-- What the pass does to a chain against what the split of the chain gives: it builds the
nodes of the tree, or it reports something where the split stops. -/
def Agrees (r : Node × List ReorderDiag) : Option (Tree (OpName × Bool) Node) → Prop
  | some t => r = (treeNode t, [])
  | none => r.2 ≠ []

theorem reorderSplit_agrees {f : Fix} {h : Node} {ts : List Tail} (hts : Located f ts) :
    Agrees (reorderSplit f h ts) (split (fixFixities f) opText h (ts.map Tail.entry)) := by
  induction hn : ts.length using Nat.strongRecOn generalizing h ts with
  | _ n ih =>
      cases ts with
      | nil =>
          rw [reorderSplit, List.map_nil, split]
          exact rfl
      | cons t ts =>
          have hkeys : ((t :: ts).map Tail.entry).map (fun x => opText x.1) =
              (t :: ts).map (·.name.text) := by
            rw [List.map_map]
            rfl
          have hloosest := findLoosest_eq hts
          rw [← hkeys] at hloosest
          cases hidx : findLoosest f t ts with
          | error d =>
              rw [hidx] at hloosest
              rw [reorderSplit, hidx, List.map_cons, split_stuck hloosest.symm]
              exact List.cons_ne_nil _ _
          | ok idx =>
              rw [hidx] at hloosest
              have hlt := loosest_lt hloosest.symm
              rw [List.length_map, List.length_map] at hlt
              obtain ⟨splitAt, rest, hdrop⟩ :
                  ∃ splitAt rest, (t :: ts).drop idx = splitAt :: rest := by
                rw [List.drop_eq_getElem_cons hlt]
                exact ⟨_, _, rfl⟩
              have hdrop' : ((t :: ts).map Tail.entry).drop idx =
                  ((splitAt.name, splitAt.backtick), splitAt.rhs) :: rest.map Tail.entry := by
                rw [← List.map_drop, hdrop]
                rfl
              have hmem : ∀ x ∈ splitAt :: rest, x ∈ t :: ts := by
                intro x hx
                rw [← hdrop] at hx
                exact List.mem_of_mem_drop hx
              have hrest : rest.length < n := by
                have := congrArg List.length hdrop
                rw [List.length_drop, List.length_cons, List.length_cons] at this
                rw [← hn, List.length_cons]
                omega
              have hleft := @ih _ (by rw [← hn, List.length_take]; omega) h ((t :: ts).take idx)
                (fun x hx => hts x (List.mem_of_mem_take hx)) rfl
              have hright := ih _ hrest (h := splitAt.rhs)
                (fun x hx => hts x (hmem x (.tail _ hx))) rfl
              have hsplit : split (fixFixities f) opText h ((t :: ts).map Tail.entry) =
                  (split (fixFixities f) opText h (((t :: ts).map Tail.entry).take idx)).bind
                    fun l => (split (fixFixities f) opText splitAt.rhs
                      (rest.map Tail.entry)).map fun r =>
                        .node l (splitAt.name, splitAt.backtick) r :=
                split_cons hloosest.symm hdrop'
              rw [reorderSplit_cons hidx hdrop, hsplit, ← List.map_take]
              -- a report on either side is a report of the whole
              cases hl : split (fixFixities f) opText h (((t :: ts).take idx).map Tail.entry) with
              | none =>
                  rw [hl] at hleft
                  exact fun h => hleft (List.append_eq_nil_iff.mp h).1
              | some l =>
                  rw [hl] at hleft
                  cases hr : split (fixFixities f) opText splitAt.rhs (rest.map Tail.entry) with
                  | none =>
                      rw [hr] at hright
                      exact fun h => hright (List.append_eq_nil_iff.mp h).2
                  | some r =>
                      rw [hr] at hright
                      rw [hleft, hright]
                      exact rfl

/-! ### Chains -/

theorem resolveTails_ok {f : Fix} {ops : List ChainOp} {ts : List Tail}
    (h : resolveTails f ops = .ok ts) : Located f ts ∧ ts.map Tail.entry = chainTail ops := by
  induction ops generalizing ts with
  | nil =>
      cases h
      exact ⟨List.forall_mem_nil _, rfl⟩
  | cons o ops ih =>
      obtain ⟨off, len, op, backtick, rhs⟩ := o
      rw [resolveTails] at h
      split at h
      next => cases h
      next idx hidx =>
        cases hrest : resolveTails f ops with
        | error d =>
            rw [hrest] at h
            cases h
        | ok rest =>
            rw [hrest] at h
            cases h
            obtain ⟨hlocated, hentries⟩ := ih hrest
            constructor
            · intro t ht
              rcases List.mem_cons.mp ht with rfl | ht
              · exact hidx
              · exact hlocated t ht
            · rw [List.map_cons, hentries]
              rfl

theorem resolveTails_isOk {f : Fix} {ops : List ChainOp}
    (h : ∀ o ∈ ops, (fixFind f.ops o.op.text).isSome) : ∃ ts, resolveTails f ops = .ok ts := by
  induction ops with
  | nil => exact ⟨[], rfl⟩
  | cons o ops ih =>
      obtain ⟨off, len, op, backtick, rhs⟩ := o
      obtain ⟨ts, hts⟩ := ih fun o ho => h o (.tail _ ho)
      obtain ⟨idx, hidx⟩ := Option.isSome_iff_exists.mp (h _ List.mem_cons_self)
      refine ⟨⟨op, backtick, rhs, idx⟩ :: ts, ?_⟩
      rw [ChainOp.op] at hidx
      rw [resolveTails, hidx]
      simp only [hts]
      rfl

theorem resolveTails_found {f : Fix} {ops : List ChainOp} {ts : List Tail}
    (h : resolveTails f ops = .ok ts) : ∀ o ∈ ops, (fixFind f.ops o.op.text).isSome := by
  induction ops generalizing ts with
  | nil => exact List.forall_mem_nil _
  | cons o ops ih =>
      obtain ⟨off, len, op, backtick, rhs⟩ := o
      rw [resolveTails] at h
      split at h
      next => cases h
      next idx hidx =>
        cases hrest : resolveTails f ops with
        | error d =>
            rw [hrest] at h
            cases h
        | ok rest =>
            intro o ho
            rcases List.mem_cons.mp ho with rfl | ho
            · rw [ChainOp.op, hidx]
              rfl
            · exact ih hrest o ho

/-- The pass on a chain against the split of the chain. -/
theorem reorderChain_agrees {f : Fix} {ops : List ChainOp} {ts : List Tail}
    (off len : Nat) (head : Node) (hts : resolveTails f ops = .ok ts) :
    Agrees (reorderChain f off len head ops)
      (split (fixFixities f) opText head (chainTail ops)) := by
  obtain ⟨hlocated, hentries⟩ := resolveTails_ok hts
  rw [reorderChain, hts, ← hentries]
  exact reorderSplit_agrees hlocated

/-- A split of a chain is a parse of it. -/
theorem parses_of_split {f : Fix} (hstrict : f.Strict) {head : Node} {ops : List ChainOp}
    {t : Tree (OpName × Bool) Node}
    (ht : split (fixFixities f) opText head (chainTail ops) = some t) : Parses f head ops t := by
  constructor
  · exact (split_flatten ht).1
  · exact (split_flatten ht).2
  · exact split_respects (fixFixities_lawful hstrict) ht

theorem treeNode_single {t : Tree (OpName × Bool) Node} (hhead : t.head.Single)
    (htail : ∀ x ∈ t.tail, x.2.Single) : (treeNode t).Single := by
  induction t with
  | leaf n => exact hhead
  | node l o r ihl ihr =>
      have hl := ihl hhead fun x hx => htail x (List.mem_append_left _ hx)
      have hr := ihr (htail (o, r.head) (List.mem_append_right _ List.mem_cons_self))
        fun x hx => htail x (List.mem_append_right _ (.tail _ hx))
      exact ⟨rfl, hl, hr, trivial⟩

theorem chainTail_single {ops : List ChainOp} (h : ChainOp.Singles ops) :
    ∀ x ∈ chainTail ops, x.2.Single := by
  induction ops with
  | nil => exact List.forall_mem_nil _
  | cons o ops ih =>
      obtain ⟨off, len, op, backtick, rhs⟩ := o
      intro x hx
      rcases List.mem_cons.mp hx with rfl | hx
      · exact h.1
      · exact ih h.2 x hx

/-- A chain that the pass accepts becomes a parse of the chain, with one operator in each
chain of the result. -/
theorem reorderChain_parses (ds : List FixDecl) (off len : Nat) (head : Node)
    (ops : List ChainOp) (result : Node) (hstrict : (buildFixity ds).1.Strict)
    (hrun : reorderChain (buildFixity ds).1 off len head ops = (result, [])) :
    ∃ t, result = treeNode t ∧ Parses (buildFixity ds).1 head ops t ∧
      (head.Single → ChainOp.Singles ops → result.Single) := by
  cases hts : resolveTails (buildFixity ds).1 ops with
  | error d =>
      rw [reorderChain, hts] at hrun
      cases hrun
  | ok ts =>
      have hagrees := reorderChain_agrees off len head hts
      rw [hrun] at hagrees
      cases ht : split (fixFixities (buildFixity ds).1) opText head (chainTail ops) with
      | none =>
          rw [ht] at hagrees
          exact absurd rfl hagrees
      | some t =>
          rw [ht] at hagrees
          have hresult : result = treeNode t := (Prod.mk.inj hagrees).1
          have hparses := parses_of_split hstrict ht
          refine ⟨t, hresult, hparses, ?_⟩
          intro hhead hops
          rw [hresult]
          apply treeNode_single
          · rw [hparses.head]
            exact hhead
          · rw [hparses.tail]
            exact chainTail_single hops

/-- `*` and `+`, where `*` is tighter. -/
def arithmetic : List FixDecl :=
  [⟨⟨"*", false, 7, some (1, 8)⟩, .left, [⟨.tighter, ⟨"+", false, 27, some (1, 28)⟩⟩]⟩,
    ⟨⟨"+", false, 36, some (2, 8)⟩, .left, []⟩]

/-- `1 + 2 * 3`. -/
def sum : List ChainOp :=
  [.mk 52 5 ⟨"+", false, 52, some (3, 3)⟩ false (.other 2 54 1),
    .mk 56 3 ⟨"*", false, 56, some (3, 7)⟩ false (.other 3 58 1)]

theorem sum_run : reorderChain (buildFixity arithmetic).1 50 9 (.other 1 50 1) sum =
    (treeNode (.node (.leaf (.other 1 50 1)) (⟨"+", false, 52, some (3, 3)⟩, false)
      (.node (.leaf (.other 2 54 1)) (⟨"*", false, 56, some (3, 7)⟩, false)
        (.leaf (.other 3 58 1)))), []) := by
  have htails : resolveTails (buildFixity arithmetic).1 sum =
      .ok [⟨⟨"+", false, 52, some (3, 3)⟩, false, .other 2 54 1, 1⟩,
        ⟨⟨"*", false, 56, some (3, 7)⟩, false, .other 3 58 1, 0⟩] := rfl
  have hplus : findLoosest (buildFixity arithmetic).1
      ⟨⟨"+", false, 52, some (3, 3)⟩, false, .other 2 54 1, 1⟩
      [⟨⟨"*", false, 56, some (3, 7)⟩, false, .other 3 58 1, 0⟩] = .ok 0 := rfl
  have htimes : findLoosest (buildFixity arithmetic).1
      ⟨⟨"*", false, 56, some (3, 7)⟩, false, .other 3 58 1, 0⟩ [] = .ok 0 := rfl
  rw [reorderChain, htails]
  simp only [reorderSplit_cons hplus rfl, reorderSplit_cons htimes rfl, List.take_zero,
    reorderSplit, List.append_nil, treeNode]

/-- The table of two operators is strict, so the tree of `1 + 2 * 3` is a parse. -/
theorem sum_parses : (buildFixity arithmetic).1.Strict ∧
    ∃ t, treeNode (.node (.leaf (.other 1 50 1)) (⟨"+", false, 52, some (3, 3)⟩, false)
      (.node (.leaf (.other 2 54 1)) (⟨"*", false, 56, some (3, 7)⟩, false)
        (.leaf (.other 3 58 1)))) = treeNode t ∧
      Parses (buildFixity arithmetic).1 (.other 1 50 1) sum t := by
  have hstrict : (buildFixity arithmetic).1.Strict :=
    buildFixity_strict_of_cycles (by decide)
  obtain ⟨t, ht, hparses, -⟩ := reorderChain_parses arithmetic 50 9 (.other 1 50 1) sum _ hstrict
    sum_run
  exact ⟨hstrict, t, ht, hparses⟩

/-! ### The check of a chain -/

section Check

variable {f : Fix} {chain : List OpName}

/-- A check reports the first pair that has a fault. -/
theorem checkChain_eq_none_iff (hn : f.n ≠ 0) :
    checkChain f chain = none ↔
      ∀ i j, i < j → j < chain.length → chainFault f chain i j = none := by
  rw [checkChain]
  split
  next h =>
    have hshort : chain.length < 2 := by
      rw [Bool.or_eq_true, decide_eq_true_eq, decide_eq_true_eq] at h
      exact h.resolve_right hn
    constructor
    · intro _ i j hij hj
      omega
    · exact fun _ => rfl
  next =>
    rw [List.findSome?_eq_none_iff]
    constructor
    · intro h i j hij hj
      have hi := h i (List.mem_range.mpr (Nat.lt_trans hij hj))
      rw [List.findSome?_eq_none_iff] at hi
      exact hi j (List.mem_range'_1.mpr ⟨by omega, by omega⟩)
    · intro h i hi
      rw [List.findSome?_eq_none_iff]
      intro j hj
      have hj' := List.mem_range'_1.mp hj
      exact h i j (by omega) (by omega)

/-- Between operators of a strict table a shield is an operator looser than both. -/
theorem shielded_iff (hstrict : f.Strict) (hchain : ∀ o ∈ chain, (fixFind f.ops o.text).isSome)
    {i j a b : Nat} {fst snd : String} (ha : fixFind f.ops fst = some a)
    (hb : fixFind f.ops snd = some b) (hij : i < j) :
    shielded f chain i j a b = true ↔
      ∃ (m : Nat) (c : String), i < m ∧ m < j ∧ (chain.map (·.text))[m]? = some c ∧
        fixCompare f fst c = .tighter ∧ fixCompare f snd c = .tighter := by
  rw [shielded, List.any_eq_true]
  constructor
  · rintro ⟨m, hm, hshield⟩
    have hm' := List.mem_range'_1.mp hm
    cases hop : chain[m]? with
    | none => simp [hop] at hshield
    | some op =>
        obtain ⟨c, hc⟩ := Option.isSome_iff_exists.mp (hchain op (List.mem_of_getElem? hop))
        rw [hop] at hshield
        simp only [hc, Bool.and_eq_true] at hshield
        refine ⟨m, op.text, by omega, by omega, ?_, ?_, ?_⟩
        · rw [List.getElem?_map, hop]
          rfl
        · exact (fixCompare_eq_tighter_iff_bit hstrict ha hc).mpr hshield.1
        · exact (fixCompare_eq_tighter_iff_bit hstrict hb hc).mpr hshield.2
  · rintro ⟨m, c, him, hmj, hm, hac, hbc⟩
    refine ⟨m, List.mem_range'_1.mpr ⟨by omega, by omega⟩, ?_⟩
    rw [List.getElem?_map, Option.map_eq_some_iff] at hm
    obtain ⟨op, hop, rfl⟩ := hm
    obtain ⟨k, hk⟩ := Option.isSome_iff_exists.mp (hchain op (List.mem_of_getElem? hop))
    simp only [hop, hk, Bool.and_eq_true]
    exact ⟨(fixCompare_eq_tighter_iff_bit hstrict ha hk).mp hac,
      (fixCompare_eq_tighter_iff_bit hstrict hb hk).mp hbc⟩

/-- Two operators of a strict table compare if they are the same or a bit relates them. -/
theorem fixCompare_eq_incomparable_iff {a b : Nat} {fst snd : String}
    (ha : fixFind f.ops fst = some a) (hb : fixFind f.ops snd = some b) :
    fixCompare f fst snd = .incomparable ↔
      ¬ (a = b ∨ fixBit f a b = true ∨ fixBit f b a = true) := by
  have hsame : fst = snd ↔ a = b := by
    constructor
    · rintro rfl
      rw [ha] at hb
      exact Option.some.inj hb
    · rintro rfl
      exact fixFind_inj ha hb
  rw [fixCompare_of_find ha hb, compareOps, ← hsame]
  by_cases h : fst = snd
  · simp [h]
  · cases fixBit f a b <;> cases fixBit f b a <;> simp [h]

theorem chainFault_eq_none_iff {i j a b : Nat} {fst snd : OpName} (hi : chain[i]? = some fst)
    (hj : chain[j]? = some snd) (ha : fixFind f.ops fst.text = some a)
    (hb : fixFind f.ops snd.text = some b) :
    chainFault f chain i j = none ↔
      (fixCompare f fst.text snd.text = .incomparable → shielded f chain i j a b = true) := by
  have hfault : chainFault f chain i j =
      if a = b || fixBit f a b || fixBit f b a || shielded f chain i j a b then none
      else some (.noOrder fst snd) := by
    rw [chainFault, hi, hj]
    simp only [Option.bind_eq_bind, Option.bind_some, ha, hb]
  rw [hfault, fixCompare_eq_incomparable_iff ha hb]
  by_cases hab : a = b <;> cases fixBit f a b <;> cases fixBit f b a <;>
    cases shielded f chain i j a b <;> simp [hab]

/-- The check passes exactly the shielded chains. -/
theorem checkChain_iff_shielded (hstrict : f.Strict)
    (hchain : ∀ o ∈ chain, (fixFind f.ops o.text).isSome) :
    checkChain f chain = none ↔ Shielded (fixFixities f) (chain.map (·.text)) := by
  have hfind : ∀ {i : Nat} {o : OpName}, chain[i]? = some o → ∃ a, fixFind f.ops o.text = some a :=
    fun h => Option.isSome_iff_exists.mp (hchain _ (List.mem_of_getElem? h))
  by_cases hn : f.n = 0
  · have hnil : chain = [] := by
      cases chain with
      | nil => rfl
      | cons o os =>
          obtain ⟨a, ha⟩ := Option.isSome_iff_exists.mp (hchain o List.mem_cons_self)
          have hlt : a < f.n := fixFind_lt ha
          omega
    subst hnil
    constructor
    · intro _ i j a b hi
      cases hi
    · exact fun _ => rfl
  · rw [checkChain_eq_none_iff hn]
    constructor
    · intro h i j a b hi hj hij hcmp
      rw [List.getElem?_map, Option.map_eq_some_iff] at hi hj
      obtain ⟨fst, hfst, rfl⟩ := hi
      obtain ⟨snd, hsnd, rfl⟩ := hj
      obtain ⟨a, ha⟩ := hfind hfst
      obtain ⟨b, hb⟩ := hfind hsnd
      have hnone := h i j hij (List.getElem?_eq_some_iff.mp hsnd).1
      have hshield := (chainFault_eq_none_iff hfst hsnd ha hb).mp hnone hcmp
      exact (shielded_iff hstrict hchain ha hb hij).mp hshield
    · intro h i j hij hj
      have hfst := List.getElem?_eq_getElem (Nat.lt_trans hij hj)
      have hsnd := List.getElem?_eq_getElem hj
      obtain ⟨a, ha⟩ := hfind hfst
      obtain ⟨b, hb⟩ := hfind hsnd
      rw [chainFault_eq_none_iff hfst hsnd ha hb]
      intro hcmp
      rw [shielded_iff hstrict hchain ha hb hij]
      refine h i j _ _ ?_ ?_ hij hcmp
      · rw [List.getElem?_map, hfst]
        rfl
      · rw [List.getElem?_map, hsnd]
        rfl

end Check

theorem chainTail_keys (ops : List ChainOp) :
    (ops.map (·.op)).map (·.text) = (chainTail ops).map fun x => opText x.1 := by
  rw [chainTail, List.map_map, List.map_map]
  apply List.map_congr_left
  rintro ⟨off, len, op, backtick, rhs⟩ -
  rfl

/-- On the operators of a table without cycles the check of a chain, the pass and the
parses of the chain agree: a chain that is let through is given its structure, and one that
is not has none. -/
theorem checkChain_iff_reorderChain (ds : List FixDecl) (off len : Nat) (head : Node)
    (ops : List ChainOp) (hacyclic : (declaredFix ds).Acyclic)
    (hops : ∀ o ∈ ops, (fixFind (buildFixity ds).1.ops o.op.text).isSome) :
    (checkChain (buildFixity ds).1 (ops.map (·.op)) = none ↔
      (reorderChain (buildFixity ds).1 off len head ops).2 = []) ∧
    (checkChain (buildFixity ds).1 (ops.map (·.op)) = none →
      ∃ t, reorderChain (buildFixity ds).1 off len head ops = (treeNode t, []) ∧
        Parses (buildFixity ds).1 head ops t) ∧
    (checkChain (buildFixity ds).1 (ops.map (·.op)) ≠ none →
      ¬ ∃ t, Parses (buildFixity ds).1 head ops t) := by
  have hstrict := (buildFixity_strict_iff ds).mpr hacyclic
  obtain ⟨ts, hts⟩ := resolveTails_isOk hops
  have hagrees := reorderChain_agrees off len head hts
  have hchain : ∀ o ∈ ops.map (·.op), (fixFind (buildFixity ds).1.ops o.text).isSome := by
    intro o ho
    obtain ⟨o', ho', rfl⟩ := List.mem_map.mp ho
    exact hops o' ho'
  have hcheck := checkChain_iff_shielded hstrict hchain
  rw [chainTail_keys] at hcheck
  have hsplit : Shielded (fixFixities (buildFixity ds).1)
      ((chainTail ops).map fun x => opText x.1) ↔
      ∃ t, split (fixFixities (buildFixity ds).1) opText head (chainTail ops) = some t :=
    shielded_iff_split (fixFixities_lawful hstrict)
  have htree : Shielded (fixFixities (buildFixity ds).1)
      ((chainTail ops).map fun x => opText x.1) ↔
      ∃ t : Tree (OpName × Bool) Node, t.head = head ∧ t.tail = chainTail ops ∧
        t.Respects (fixFixities (buildFixity ds).1) opText :=
    shielded_iff_tree (fixFixities_lawful hstrict)
  cases ht : split (fixFixities (buildFixity ds).1) opText head (chainTail ops) with
  | some t =>
      rw [ht] at hagrees
      have hpass := hcheck.mpr (hsplit.mpr ⟨t, ht⟩)
      have hrun : reorderChain (buildFixity ds).1 off len head ops = (treeNode t, []) := hagrees
      refine ⟨⟨?_, fun _ => hpass⟩, fun _ => ⟨t, hrun, parses_of_split hstrict ht⟩, ?_⟩
      · intro _
        rw [hrun]
      · exact fun h => absurd hpass h
  | none =>
      rw [ht] at hagrees
      have hstuck : ¬ Shielded (fixFixities (buildFixity ds).1)
          ((chainTail ops).map fun x => opText x.1) := by
        intro hshield
        obtain ⟨t, ht'⟩ := hsplit.mp hshield
        rw [ht] at ht'
        cases ht'
      refine ⟨⟨?_, fun h => absurd h hagrees⟩, ?_, ?_⟩
      · exact fun h => absurd (hcheck.mp h) hstuck
      · exact fun h => absurd (hcheck.mp h) hstuck
      · rintro - ⟨t, hparses⟩
        exact hstuck (htree.mpr ⟨t, hparses.head, hparses.tail, hparses.respects⟩)

theorem arithmetic_acyclic : (declaredFix arithmetic).Acyclic :=
  (buildFixity_strict_iff arithmetic).mp (buildFixity_strict_of_cycles (by decide))

/-- The operators of `1 + 2 * 3` are in the table, so the check and the pass agree. -/
theorem sum_checked : (∀ o ∈ sum, (fixFind (buildFixity arithmetic).1.ops o.op.text).isSome) ∧
    (checkChain (buildFixity arithmetic).1 (sum.map (·.op)) = none ↔
      (reorderChain (buildFixity arithmetic).1 50 9 (.other 1 50 1) sum).2 = []) := by
  have hops : ∀ o ∈ sum, (fixFind (buildFixity arithmetic).1.ops o.op.text).isSome := by
    intro o ho
    rcases List.mem_cons.mp ho with rfl | ho
    · decide
    · rw [List.mem_singleton.mp ho]
      decide
  exact ⟨hops, (checkChain_iff_reorderChain arithmetic 50 9 (.other 1 50 1) sum
    arithmetic_acyclic hops).1⟩

/-- An operator that the file does not declare is skipped by the check, which lets
`1 + 2 ? 3` through, and rejected by the pass. -/
theorem unknown_operator : (declaredFix arithmetic).Acyclic ∧
    checkChain (buildFixity arithmetic).1
      [⟨"+", false, 52, some (3, 3)⟩, ⟨"?", false, 56, some (3, 7)⟩] = none ∧
    (reorderChain (buildFixity arithmetic).1 50 9 (.other 1 50 1)
      [.mk 52 5 ⟨"+", false, 52, some (3, 3)⟩ false (.other 2 54 1),
        .mk 56 3 ⟨"?", false, 56, some (3, 7)⟩ false (.other 3 58 1)]).2 =
      [.undeclared ⟨"?", false, 56, some (3, 7)⟩] :=
  ⟨arithmetic_acyclic, by decide, rfl⟩

end Wok.Grammar
