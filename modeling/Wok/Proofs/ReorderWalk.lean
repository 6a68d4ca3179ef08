/-
Module: Wok.Proofs.ReorderWalk
Purpose: The pass over a whole tree leaves its own results alone, and what it changes are
  operator chains only, as long as it finds no two operators without an order.
Imports: Wok.Grammar.ReorderWalk
Trusted boundary: none
Main exports: Settled, reorderNode_settled, Chained, Rewritten, reorderNode_rewritten,
  reorder_settles_and_frames, operands_dropped
-/
import Wok.Grammar.ReorderWalk

namespace Wok.Grammar.Walk

open Wok.Lib.Chains (Order)

variable {ro : RO}

/-! ### Results stay as they are -/

/-- The pass leaves the node as it is. -/
def Settled (ro : RO) (n : WokNode) : Prop := (reorderNode ro n).1 = n

def SettledSlots (ro : RO) (slots : List WokSlot) : Prop := (reorderSlots ro slots).1 = slots

theorem reorderNode_fst (ro : RO) (tag : WokTag) (off len : UInt32) (slots : List WokSlot) :
    (reorderNode ro (.mk tag off len slots)).1 =
      (reorderBase ro (.mk tag off len (reorderSlots ro slots).1)).1 := by
  rw [reorderNode]

/-- What the second run makes of a node whose children are settled. -/
theorem reorderNode_of_settled {tag : WokTag} {off len : UInt32} {slots : List WokSlot}
    (h : SettledSlots ro slots) :
    (reorderNode ro (.mk tag off len slots)).1 = (reorderBase ro (.mk tag off len slots)).1 := by
  rw [reorderNode_fst, h]

theorem settledSlots_cons {slot : WokSlot} {slots : List WokSlot} :
    SettledSlots ro (slot :: slots) ↔ (reorderSlot ro slot).1 = slot ∧ SettledSlots ro slots := by
  unfold SettledSlots
  rw [reorderSlots]
  exact List.cons_eq_cons

theorem settledSeq_cons {n : WokNode} {ns : List WokNode} :
    (reorderSeq ro (n :: ns)).1 = n :: ns ↔ Settled ro n ∧ (reorderSeq ro ns).1 = ns := by
  rw [reorderSeq]
  exact List.cons_eq_cons

theorem settled_node_slot {n : WokNode} :
    (reorderSlot ro (.node (some n))).1 = .node (some n) ↔ Settled ro n := by
  rw [reorderSlot]
  constructor
  · intro h
    injection h with h
    exact Option.some.inj h
  · intro h
    exact congrArg (fun m => WokSlot.node (some m)) h

theorem settled_seq_slot {ns : List WokNode} :
    (reorderSlot ro (.seq ns)).1 = .seq ns ↔ (reorderSeq ro ns).1 = ns := by
  rw [reorderSlot]
  constructor
  · intro h
    injection h
  · intro h
    exact congrArg WokSlot.seq h

/-! ### Chains of one operator -/

theorem reorderSplit_cons {h : WokNode} {t splitAt : ChainTail} {ts rest : List ChainTail}
    {idx : Nat} (hidx : findLoosest ro t ts = .ok idx)
    (hdrop : (t :: ts).drop idx = splitAt :: rest) :
    reorderSplit ro h (t :: ts) =
      (combineInfix (reorderSplit ro h ((t :: ts).take idx)).1 splitAt.name splitAt.backtick
          (reorderSplit ro splitAt.rhs rest).1,
        (reorderSplit ro h ((t :: ts).take idx)).2 ++ (reorderSplit ro splitAt.rhs rest).2) := by
  rw [reorderSplit, hidx]
  simp only
  split
  next hnil =>
    rw [hnil] at hdrop
    cases hdrop
  next hcons =>
    rw [hcons] at hdrop
    cases hdrop
    rfl

/-- The scan of one operator splits at it, and both slices beside it are empty. -/
theorem reorderSplit_single (h : WokNode) (t : ChainTail) :
    reorderSplit ro h [t] = (combineInfix h t.name t.backtick t.rhs, []) := by
  have hloosest : findLoosest ro t [] = .ok 0 := rfl
  rw [reorderSplit_cons hloosest rfl, List.take_zero, reorderSplit, reorderSplit,
    List.append_nil]

/-- An operator of the table whose operand is settled. -/
def SettledTail (ro : RO) (t : ChainTail) : Prop :=
  fixFind ro t.name = some t.fixIdx ∧ Settled ro t.rhs

theorem settled_combineInfix {lhs rhs : WokNode} {op : WokSpan} {backtick : Bool} {idx : Nat}
    (hl : Settled ro lhs) (hr : Settled ro rhs) (hop : fixFind ro op = some idx) :
    Settled ro (combineInfix lhs op backtick rhs) := by
  obtain ⟨stop, hstop⟩ : ∃ stop, stop = rhs.off + rhs.len := ⟨_, rfl⟩
  obtain ⟨opn, hopn⟩ : ∃ opn : WokNode, opn = .mk .hChainOp op.off (stop - op.off)
    [.span op, .flag backtick, .node (some rhs)] := ⟨_, rfl⟩
  have hslots : SettledSlots ro [.span op, .flag backtick, .node (some rhs)] := by
    rw [settledSlots_cons, settledSlots_cons, settledSlots_cons, settled_node_slot]
    exact ⟨rfl, rfl, hr, rfl⟩
  have hopn' : Settled ro opn := by
    rw [hopn]
    exact (reorderNode_of_settled hslots).trans rfl
  have hchain : combineInfix lhs op backtick rhs =
      .mk .eChain lhs.off (stop - lhs.off) [.node (some lhs), .seq [opn]] := by
    rw [hopn, hstop]
    rfl
  have hchildren : SettledSlots ro [.node (some lhs), .seq [opn]] := by
    rw [settledSlots_cons, settledSlots_cons, settled_node_slot, settled_seq_slot, settledSeq_cons]
    exact ⟨hl, ⟨hopn', rfl⟩, rfl⟩
  have htails : resolveTails ro [opn] = .ok [⟨op, backtick, rhs, idx⟩] := by
    rw [resolveTails, hopn]
    simp only [opParts, WokNode.slots, hop, resolveTails]
  rw [hchain, Settled, reorderNode_of_settled hchildren, ← hchain]
  rw [hchain]
  change (reorderChain ro (.mk .eChain lhs.off (stop - lhs.off)
    [.node (some lhs), .seq [opn]])).1 = _
  rw [reorderChain]
  simp only [WokNode.slots, chainParts, htails]
  rw [reorderSplit_single, hchain]

theorem settled_reorderSplit {h : WokNode} {tails : List ChainTail} (hh : Settled ro h)
    (ht : ∀ t ∈ tails, SettledTail ro t) : Settled ro (reorderSplit ro h tails).1 := by
  fun_induction reorderSplit ro h tails with
  | case1 h => exact hh
  | case2 h t ts d hidx => exact hh
  | case3 h t ts idx hidx hdrop => exact hh
  | case4 h t ts idx hidx splitAt rest hdrop left right ihl ihr =>
      have hmem : ∀ x ∈ splitAt :: rest, x ∈ t :: ts := by
        intro x hx
        rw [← hdrop] at hx
        exact List.mem_of_mem_drop hx
      obtain ⟨hop, hrhs⟩ := ht splitAt (hmem splitAt List.mem_cons_self)
      have hleft := ihl hh fun x hx => ht x (List.mem_of_mem_take hx)
      have hright := ihr hrhs fun x hx => ht x (hmem x (List.mem_cons_of_mem _ hx))
      exact settled_combineInfix hleft hright hop

/-! ### Chains -/

theorem opParts_settled {n rhs : WokNode} {op : WokSpan} {backtick : Bool}
    (h : opParts n = some (op, backtick, rhs)) (hn : Settled ro n) : Settled ro rhs := by
  obtain ⟨tag, off, len, slots⟩ := n
  have hslots : slots = [.span op, .flag backtick, .node (some rhs)] := by
    rw [opParts, WokNode.slots] at h
    split at h
    · injection h with h
      injection h with h₁ h
      injection h with h₂ h₃
      rw [h₁, h₂, h₃]
    · cases h
  subst hslots
  have hbase : ∀ rhs', (reorderBase ro (.mk tag off len
      [.span op, .flag backtick, .node (some rhs')])).1 =
      .mk tag off len [.span op, .flag backtick, .node (some rhs')] := by
    intro rhs'
    rw [reorderBase]
    split
    · rfl
    · rfl
  have hchildren : (reorderSlots ro [.span op, .flag backtick, .node (some rhs)]).1 =
      [.span op, .flag backtick, .node (some (reorderNode ro rhs).1)] := by
    simp only [reorderSlots, reorderSlot]
  have hnode := hn
  rw [Settled, reorderNode_fst, hchildren, hbase, ← hchildren] at hnode
  injection hnode with _ _ _ hslots
  exact settled_node_slot.mp (settledSlots_cons.mp (settledSlots_cons.mp
    (settledSlots_cons.mp hslots).2).2).1

theorem resolveTails_settled {ops : List WokNode} {tails : List ChainTail}
    (h : resolveTails ro ops = .ok tails) (hops : (reorderSeq ro ops).1 = ops) :
    ∀ t ∈ tails, SettledTail ro t := by
  induction ops generalizing tails with
  | nil =>
      cases h
      exact List.forall_mem_nil _
  | cons n ns ih =>
      obtain ⟨hn, hns⟩ := settledSeq_cons.mp hops
      rw [resolveTails] at h
      cases hparts : opParts n with
      | none =>
          rw [hparts] at h
          cases h
      | some parts =>
          obtain ⟨op, backtick, rhs⟩ := parts
          rw [hparts] at h
          dsimp only at h
          cases hidx : fixFind ro op with
          | none =>
              rw [hidx] at h
              cases h
          | some idx =>
              rw [hidx] at h
              dsimp only at h
              cases hrest : resolveTails ro ns with
              | error ds =>
                  rw [hrest] at h
                  cases h
              | ok rest =>
                  rw [hrest] at h
                  cases h
                  exact List.forall_mem_cons.mpr ⟨⟨hidx, opParts_settled hparts hn⟩, ih hrest hns⟩

theorem chainParts_eq {slots : List WokSlot} {head : WokNode} {ops : List WokNode}
    (h : chainParts slots = some (head, ops)) : slots = [.node (some head), .seq ops] := by
  rw [chainParts.eq_def] at h
  split at h
  · injection h with h
    injection h with h₁ h₂
    rw [h₁, h₂]
  · cases h

theorem reorderBase_other {tag : WokTag} {off len : UInt32} {slots : List WokSlot}
    (h : tag ≠ .eChain) :
    reorderBase ro (.mk tag off len slots) = (.mk tag off len slots, []) := if_neg h

theorem settled_reorderBase {tag : WokTag} {off len : UInt32} {slots : List WokSlot}
    (h : SettledSlots ro slots) : Settled ro (reorderBase ro (.mk tag off len slots)).1 := by
  have hkept : (reorderBase ro (.mk tag off len slots)).1 = .mk tag off len slots →
      Settled ro (reorderBase ro (.mk tag off len slots)).1 := by
    intro heq
    rw [heq]
    exact (reorderNode_of_settled h).trans heq
  by_cases htag : tag = .eChain
  · have hbase : reorderBase ro (.mk tag off len slots) =
        reorderChain ro (.mk tag off len slots) := if_pos htag
    cases hparts : chainParts slots with
    | none =>
        apply hkept
        rw [hbase, reorderChain, WokNode.slots, hparts]
    | some parts =>
        obtain ⟨head, ops⟩ := parts
        have hslots := chainParts_eq hparts
        cases htails : resolveTails ro ops with
        | error ds =>
            apply hkept
            rw [hbase, reorderChain, WokNode.slots, hparts]
            simp only [htails]
        | ok tails =>
            rw [hslots, settledSlots_cons, settledSlots_cons, settled_node_slot,
              settled_seq_slot] at h
            rw [hbase, reorderChain, WokNode.slots, hparts]
            simp only [htails]
            exact settled_reorderSplit h.1 (resolveTails_settled htails h.2.1)
  · apply hkept
    rw [reorderBase_other htag]

mutual

/-- The result of the walk is settled. -/
theorem reorderNode_settled (ro : RO) : ∀ n : WokNode, Settled ro (reorderNode ro n).1
  | .mk tag off len slots => by
      rw [reorderNode_fst]
      exact settled_reorderBase (reorderSlots_settled ro slots)

theorem reorderSlots_settled (ro : RO) :
    ∀ slots : List WokSlot, SettledSlots ro (reorderSlots ro slots).1
  | [] => by
      rw [SettledSlots, reorderSlots]
      rfl
  | slot :: slots => by
      rw [reorderSlots, settledSlots_cons]
      exact ⟨reorderSlot_settled ro slot, reorderSlots_settled ro slots⟩

theorem reorderSlot_settled (ro : RO) :
    ∀ slot : WokSlot, (reorderSlot ro (reorderSlot ro slot).1).1 = (reorderSlot ro slot).1
  | .node none => by
      rw [reorderSlot]
      rfl
  | .node (some n) => by
      rw [reorderSlot]
      exact settled_node_slot.mpr (reorderNode_settled ro n)
  | .seq ns => by
      rw [reorderSlot]
      exact settled_seq_slot.mpr (reorderSeq_settled ro ns)
  | .span s => by
      rw [reorderSlot]
      rfl
  | .num v => by
      rw [reorderSlot]
      rfl
  | .flag b => by
      rw [reorderSlot]
      rfl

theorem reorderSeq_settled (ro : RO) :
    ∀ ns : List WokNode, (reorderSeq ro (reorderSeq ro ns).1).1 = (reorderSeq ro ns).1
  | [] => by
      rw [reorderSeq]
      rfl
  | n :: ns => by
      rw [reorderSeq, settledSeq_cons]
      exact ⟨reorderNode_settled ro n, reorderSeq_settled ro ns⟩

end

/-! ### What is changed -/

/-- A tree of chains of one operator each over a head and the places after it, in order. -/
inductive Chained : WokNode → List (WokSpan × Bool × WokNode) → WokNode → Prop where
  | leaf {h : WokNode} : Chained h [] h
  | op {h left rhs right : WokNode} {op : WokSpan} {backtick : Bool}
      {before after : List (WokSpan × Bool × WokNode)} : Chained h before left →
      Chained rhs after right →
      Chained h (before ++ (op, backtick, rhs) :: after) (combineInfix left op backtick right)

mutual

/-- The second tree is the first with operator chains regrouped: every node stands where it
stood, with its tag, its span and its fields, except that the places of a chain may be joined
by chains of one operator. -/
inductive Rewritten : WokNode → WokNode → Prop where
  | node {tag : WokTag} {off len : UInt32} {slots slots' : List WokSlot} :
      SlotsRewritten slots slots' → Rewritten (.mk tag off len slots) (.mk tag off len slots')
  | chain {off len : UInt32} {slots slots' : List WokSlot} {head n : WokNode}
      {ops : List WokNode} {places : List (WokSpan × Bool × WokNode)} :
      SlotsRewritten slots slots' → chainParts slots' = some (head, ops) →
      ops.map opParts = places.map some → Chained head places n →
      Rewritten (.mk .eChain off len slots) n

inductive SlotsRewritten : List WokSlot → List WokSlot → Prop where
  | nil : SlotsRewritten [] []
  | cons {slot slot' : WokSlot} {slots slots' : List WokSlot} : SlotRewritten slot slot' →
      SlotsRewritten slots slots' → SlotsRewritten (slot :: slots) (slot' :: slots')

inductive SlotRewritten : WokSlot → WokSlot → Prop where
  | none : SlotRewritten (.node none) (.node none)
  | some {n n' : WokNode} : Rewritten n n' → SlotRewritten (.node (some n)) (.node (some n'))
  | seq {ns ns' : List WokNode} : SeqRewritten ns ns' → SlotRewritten (.seq ns) (.seq ns')
  | span {s : WokSpan} : SlotRewritten (.span s) (.span s)
  | num {v : UInt64} : SlotRewritten (.num v) (.num v)
  | flag {b : Bool} : SlotRewritten (.flag b) (.flag b)

inductive SeqRewritten : List WokNode → List WokNode → Prop where
  | nil : SeqRewritten [] []
  | cons {n n' : WokNode} {ns ns' : List WokNode} : Rewritten n n' → SeqRewritten ns ns' →
      SeqRewritten (n :: ns) (n' :: ns')

end

/-- Two operators of one chain have no order. -/
def ReorderDiag.isIncomparable : ReorderDiag → Bool
  | .incomparable _ _ => true
  | _ => false

/-- No report is about two operators without an order. -/
def Ordered (ds : List ReorderDiag) : Prop := ∀ d ∈ ds, d.isIncomparable = false

theorem ordered_append {ds ds' : List ReorderDiag} :
    Ordered (ds ++ ds') ↔ Ordered ds ∧ Ordered ds' := List.forall_mem_append

theorem findLoosestFrom_error {best : ChainTail} {bestIdx i : Nat} {ts : List ChainTail}
    {d : ReorderDiag} (h : findLoosestFrom ro best bestIdx i ts = .error d) :
    d.isIncomparable = true := by
  fun_induction findLoosestFrom ro best bestIdx i ts with
  | case1 => cases h
  | case2 _ _ _ _ _ _ ih => exact ih h
  | case3 _ _ _ _ _ _ ih => exact ih h
  | case4 _ _ _ _ _ _ _ ih => exact ih h
  | case5 _ _ _ _ _ _ _ ih => exact ih h
  | case6 =>
      injection h with h
      rw [← h]
      rfl

theorem findLoosestFrom_lt {best : ChainTail} {bestIdx i : Nat} {ts : List ChainTail} {idx : Nat}
    (hi : bestIdx < i) (h : findLoosestFrom ro best bestIdx i ts = .ok idx) :
    idx < i + ts.length := by
  fun_induction findLoosestFrom ro best bestIdx i ts with
  | case1 =>
      injection h with h
      subst h
      exact hi
  | case2 _ _ _ _ _ _ ih =>
      have := ih (by omega) h
      rw [List.length_cons]
      omega
  | case3 _ _ _ _ _ _ ih =>
      have := ih (by omega) h
      rw [List.length_cons]
      omega
  | case4 _ _ _ _ _ _ _ ih =>
      have := ih (by omega) h
      rw [List.length_cons]
      omega
  | case5 _ _ _ _ _ _ _ ih =>
      have := ih (by omega) h
      rw [List.length_cons]
      omega
  | case6 => cases h

def ChainTail.place (t : ChainTail) : WokSpan × Bool × WokNode := (t.name, t.backtick, t.rhs)

/-- A split with nothing incomparable keeps every place of the chain, in order. -/
theorem reorderSplit_chained {h : WokNode} {tails : List ChainTail}
    (hd : Ordered (reorderSplit ro h tails).2) :
    Chained h (tails.map ChainTail.place) (reorderSplit ro h tails).1 := by
  fun_induction reorderSplit ro h tails with
  | case1 h => exact .leaf
  | case2 h t ts d hidx =>
      have hnone := hd d List.mem_cons_self
      rw [findLoosestFrom_error hidx] at hnone
      cases hnone
  | case3 h t ts idx hidx hdrop =>
      have hlt := findLoosestFrom_lt Nat.one_pos hidx
      have hlen := congrArg List.length hdrop
      rw [List.length_drop, List.length_cons, List.length_nil] at hlen
      omega
  | case4 h t ts idx hidx splitAt rest hdrop left right ihl ihr =>
      obtain ⟨hdl, hdr⟩ := ordered_append.mp hd
      have hcut : (t :: ts).map ChainTail.place =
          ((t :: ts).take idx).map ChainTail.place ++ splitAt.place ::
            rest.map ChainTail.place := by
        rw [← List.map_cons, ← hdrop, ← List.map_append, List.take_append_drop]
      rw [hcut]
      exact .op (ihl hdl) (ihr hdr)

theorem resolveTails_places {ops : List WokNode} {tails : List ChainTail}
    (h : resolveTails ro ops = .ok tails) :
    ops.map opParts = (tails.map ChainTail.place).map some := by
  induction ops generalizing tails with
  | nil =>
      cases h
      rfl
  | cons n ns ih =>
      rw [resolveTails] at h
      cases hparts : opParts n with
      | none =>
          rw [hparts] at h
          cases h
      | some parts =>
          obtain ⟨op, backtick, rhs⟩ := parts
          rw [hparts] at h
          dsimp only at h
          cases hidx : fixFind ro op with
          | none =>
              rw [hidx] at h
              cases h
          | some idx =>
              rw [hidx] at h
              dsimp only at h
              cases hrest : resolveTails ro ns with
              | error ds =>
                  rw [hrest] at h
                  cases h
              | ok rest =>
                  rw [hrest] at h
                  cases h
                  rw [List.map_cons, hparts, ih hrest]
                  rfl

theorem reorderBase_rewritten {tag : WokTag} {off len : UInt32} {slots slots' : List WokSlot}
    (h : SlotsRewritten slots slots')
    (hd : Ordered (reorderBase ro (.mk tag off len slots')).2) :
    Rewritten (.mk tag off len slots) (reorderBase ro (.mk tag off len slots')).1 := by
  by_cases htag : tag = .eChain
  · subst htag
    have hbase : reorderBase ro (.mk .eChain off len slots') =
        reorderChain ro (.mk .eChain off len slots') := if_pos rfl
    rw [hbase, reorderChain, WokNode.slots] at hd ⊢
    cases hparts : chainParts slots' with
    | none => exact .node h
    | some parts =>
        obtain ⟨head, ops⟩ := parts
        rw [hparts] at hd
        dsimp only at hd ⊢
        cases htails : resolveTails ro ops with
        | error ds => exact .node h
        | ok tails =>
            rw [htails] at hd
            exact .chain h hparts (resolveTails_places htails) (reorderSplit_chained hd)
  · rw [reorderBase_other htag]
    exact .node h

mutual

theorem reorderNode_rewritten (ro : RO) :
    ∀ n : WokNode, Ordered (reorderNode ro n).2 → Rewritten n (reorderNode ro n).1
  | .mk tag off len slots, hd => by
      rw [reorderNode] at hd ⊢
      obtain ⟨hchildren, hbase⟩ := ordered_append.mp hd
      exact reorderBase_rewritten (reorderSlots_rewritten ro slots hchildren) hbase

theorem reorderSlots_rewritten (ro : RO) :
    ∀ slots : List WokSlot, Ordered (reorderSlots ro slots).2 →
      SlotsRewritten slots (reorderSlots ro slots).1
  | [], _ => by
      rw [reorderSlots]
      exact .nil
  | slot :: slots, hd => by
      rw [reorderSlots] at hd ⊢
      obtain ⟨hfirst, hrest⟩ := ordered_append.mp hd
      exact .cons (reorderSlot_rewritten ro slot hfirst) (reorderSlots_rewritten ro slots hrest)

theorem reorderSlot_rewritten (ro : RO) :
    ∀ slot : WokSlot, Ordered (reorderSlot ro slot).2 →
      SlotRewritten slot (reorderSlot ro slot).1
  | .node none, _ => by
      rw [reorderSlot]
      exact .none
  | .node (some n), hd => by
      rw [reorderSlot] at hd ⊢
      exact .some (reorderNode_rewritten ro n hd)
  | .seq ns, hd => by
      rw [reorderSlot] at hd ⊢
      exact .seq (reorderSeq_rewritten ro ns hd)
  | .span s, _ => by
      rw [reorderSlot]
      exact .span
  | .num v, _ => by
      rw [reorderSlot]
      exact .num
  | .flag b, _ => by
      rw [reorderSlot]
      exact .flag

theorem reorderSeq_rewritten (ro : RO) :
    ∀ ns : List WokNode, Ordered (reorderSeq ro ns).2 → SeqRewritten ns (reorderSeq ro ns).1
  | [], _ => by
      rw [reorderSeq]
      exact .nil
  | n :: ns, hd => by
      rw [reorderSeq] at hd ⊢
      obtain ⟨hfirst, hrest⟩ := ordered_append.mp hd
      exact .cons (reorderNode_rewritten ro n hfirst) (reorderSeq_rewritten ro ns hrest)

end

mutual

theorem Rewritten.refl : ∀ n : WokNode, Rewritten n n
  | .mk _ _ _ slots => .node (SlotsRewritten.refl slots)

theorem SlotsRewritten.refl : ∀ slots : List WokSlot, SlotsRewritten slots slots
  | [] => .nil
  | slot :: slots => .cons (SlotRewritten.refl slot) (SlotsRewritten.refl slots)

theorem SlotRewritten.refl : ∀ slot : WokSlot, SlotRewritten slot slot
  | .node none => .none
  | .node (some n) => .some (Rewritten.refl n)
  | .seq ns => .seq (SeqRewritten.refl ns)
  | .span _ => .span
  | .num _ => .num
  | .flag _ => .flag

theorem SeqRewritten.refl : ∀ ns : List WokNode, SeqRewritten ns ns
  | [] => .nil
  | n :: ns => .cons (Rewritten.refl n) (SeqRewritten.refl ns)

end

/-- A second run changes nothing, and a run that finds no two operators without an order
regroups operator chains and keeps everything else. -/
theorem reorder_settles_and_frames (ro : RO) (file : WokNode) :
    (wokReorder ro (wokReorder ro file).1).1 = (wokReorder ro file).1 ∧
    (Ordered (wokReorder ro file).2 → Rewritten file (wokReorder ro file).1) := by
  unfold wokReorder
  cases checkNeighbours ro with
  | nil => exact ⟨reorderNode_settled ro file, reorderNode_rewritten ro file⟩
  | cons d ds => exact ⟨rfl, fun _ => Rewritten.refl file⟩

/-! ### Two operators without an order -/

def varNode (off : UInt32) : WokNode := .mk .eVar off 1 [.span ⟨off, 1⟩]

/-- `a + b * c`, where `+` and `*` are declared and not related. -/
def unrelated : RO where
  fix := ⟨[⟨⟨1, 1⟩, assocLeft, some 1⟩, ⟨⟨3, 1⟩, assocLeft, some 3⟩], [0, 0], 1⟩
  src := [0x61, 0x2B, 0x62, 0x2A, 0x63]

def flatChain : WokNode :=
  .mk .eChain 0 5 [.node (some (varNode 0)), .seq [
    .mk .hChainOp 1 2 [.span ⟨1, 1⟩, .flag false, .node (some (varNode 2))],
    .mk .hChainOp 3 2 [.span ⟨3, 1⟩, .flag false, .node (some (varNode 4))]]]

theorem wokReorder_flatChain :
    wokReorder unrelated flatChain = (varNode 0, [.incomparable ⟨1, 1⟩ ⟨3, 1⟩]) := by
  have htails : resolveTails unrelated [
      .mk .hChainOp 1 2 [.span ⟨1, 1⟩, .flag false, .node (some (varNode 2))],
      .mk .hChainOp 3 2 [.span ⟨3, 1⟩, .flag false, .node (some (varNode 4))]] =
      .ok [⟨⟨1, 1⟩, false, varNode 2, 0⟩, ⟨⟨3, 1⟩, false, varNode 4, 1⟩] := by
    rfl
  have hsplit : reorderSplit unrelated (varNode 0)
      [⟨⟨1, 1⟩, false, varNode 2, 0⟩, ⟨⟨3, 1⟩, false, varNode 4, 1⟩] =
      (varNode 0, [.incomparable ⟨1, 1⟩ ⟨3, 1⟩]) := by
    have hscan : findLoosest unrelated ⟨⟨1, 1⟩, false, varNode 2, 0⟩
        [⟨⟨3, 1⟩, false, varNode 4, 1⟩] = .error (.incomparable ⟨1, 1⟩ ⟨3, 1⟩) := by
      rfl
    rw [reorderSplit, hscan]
  have hchain : reorderChain unrelated flatChain =
      (varNode 0, [.incomparable ⟨1, 1⟩ ⟨3, 1⟩]) := by
    unfold reorderChain flatChain
    simp only [WokNode.slots, chainParts, htails]
    exact hsplit
  exact hchain

/-- The same table with `*` tighter than `+`. -/
def related : RO := { unrelated with fix := { unrelated.fix with edge := [0, 1] } }

theorem wokReorder_related :
    wokReorder related flatChain =
      (combineInfix (varNode 0) ⟨1, 1⟩ false (combineInfix (varNode 2) ⟨3, 1⟩ false (varNode 4)),
        []) := by
  have htails : resolveTails related [
      .mk .hChainOp 1 2 [.span ⟨1, 1⟩, .flag false, .node (some (varNode 2))],
      .mk .hChainOp 3 2 [.span ⟨3, 1⟩, .flag false, .node (some (varNode 4))]] =
      .ok [⟨⟨1, 1⟩, false, varNode 2, 0⟩, ⟨⟨3, 1⟩, false, varNode 4, 1⟩] := by
    rfl
  have hscan : findLoosest related ⟨⟨1, 1⟩, false, varNode 2, 0⟩
      [⟨⟨3, 1⟩, false, varNode 4, 1⟩] = .ok 0 := by
    rfl
  have hchain : reorderChain related flatChain =
      (combineInfix (varNode 0) ⟨1, 1⟩ false (combineInfix (varNode 2) ⟨3, 1⟩ false (varNode 4)),
        []) := by
    unfold reorderChain flatChain
    simp only [WokNode.slots, chainParts, htails]
    rw [reorderSplit_cons hscan rfl, List.take_zero, reorderSplit_single, reorderSplit]
    rfl
  exact hchain

/-- A run without reports. -/
theorem reorder_related_frames :
    (wokReorder related flatChain).2 = [] ∧
    Rewritten flatChain (wokReorder related flatChain).1 := by
  refine ⟨by rw [wokReorder_related], (reorder_settles_and_frames related flatChain).2 ?_⟩
  rw [wokReorder_related]
  exact List.forall_mem_nil _

theorem operands_dropped : ¬ Rewritten flatChain (wokReorder unrelated flatChain).1 := by
  rw [wokReorder_flatChain]
  intro h
  generalize hn : varNode 0 = n at h
  cases h with
  | node _ => cases hn
  | @chain _ _ _ slots' head n ops places hslots hparts hmap hchained =>
      cases hchained with
      | op _ _ => cases hn
      | leaf =>
          have hops : ops = [] := List.map_eq_nil_iff.mp hmap
          subst hops
          cases hslots with
          | cons _ hrest =>
              cases hrest with
              | cons hseq hnil =>
                  cases hnil
                  cases hseq with
                  | seq hns =>
                      have hslots := chainParts_eq hparts
                      cases hns with
                      | cons _ _ => cases hslots

end Wok.Grammar.Walk
