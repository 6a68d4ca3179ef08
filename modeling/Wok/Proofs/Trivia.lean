/-
Module: Wok.Proofs.Trivia
Purpose: Attaching the comments of a file loses none, doubles none and moves none across
  another.
Imports: Wok.Spec.Trivia, Mathlib.Data.List.ReduceOption
Trusted boundary: none
Main exports: sourceOrder_nodup, Tour, walkNode_tour, attachFrom_spec, attach_keeps_comments
-/
import Wok.Spec.Trivia
import Mathlib.Data.List.ReduceOption

namespace Wok.Grammar.Trivia

open Wok.Lib

/-! ### Every place is read once -/

theorem suffix_head {c c' : Nat × Nat} {path q : Path} (h : (c :: path) <:+ q)
    (h' : (c' :: path) <:+ q) : c = c' := by
  have hsuffix := List.suffix_of_suffix_length_le h h' (Nat.le_refl _)
  have heq := hsuffix.eq_of_length rfl
  exact (List.cons.inj heq).1

theorem not_cons_suffix {c : Nat × Nat} {path : Path} : ¬ (c :: path) <:+ path := by
  intro h
  have := h.length_le
  simp at this

/-- A place of the subtree at a path: below the path, or the end of the node's own block. -/
def Within (path : Path) (tag : WokTag) (P : Nat → Nat → Prop) (pl : Place) : Prop :=
  (∃ j k, P j k ∧ ((j, k) :: path) <:+ pl.node) ∨
    (pl = ⟨path, .trail⟩ ∧ itemTakesTrail tag = false ∧
      ∃ j k, P j k ∧ (tagLayout tag).blockSlot = some j)

theorem suffix_below {c d : Nat × Nat} {path q : Path} (h : (d :: c :: path) <:+ q) :
    (c :: path) <:+ q :=
  (List.suffix_cons d (c :: path)).trans h

theorem Within.below {path : Path} {c : Nat × Nat} {tag : WokTag} {P : Nat → Nat → Prop}
    {pl : Place} (h : Within (c :: path) tag P pl) : (c :: path) <:+ pl.node := by
  rcases h with ⟨j, k, -, h⟩ | ⟨rfl, -⟩
  · exact suffix_below h
  · exact List.suffix_refl _

mutual

theorem nodePlaces_within (path : Path) : ∀ n : WokNode,
    ∀ pl ∈ nodePlaces path n, Within path n.tag (fun _ _ => True) pl
  | .mk tag off len slots => by
      intro pl hpl
      simp only [nodePlaces] at hpl
      rcases slotsPlaces_within path tag 0 slots tag.fields pl hpl with
        ⟨j, k, -, h⟩ | ⟨h, ht, j, k, -, hj⟩
      · exact .inl ⟨j, k, trivial, h⟩
      · exact .inr ⟨h, ht, j, k, trivial, hj⟩

theorem slotsPlaces_within (path : Path) (tag : WokTag) (i : Nat) :
    ∀ (slots : List WokSlot) (fields : List WokField),
      ∀ pl ∈ slotsPlaces path tag i slots fields, Within path tag (fun j _ => i ≤ j) pl
  | [], _ => by simp [slotsPlaces]
  | _ :: _, [] => by simp [slotsPlaces]
  | slot :: slots, field :: fields => by
      intro pl hpl
      simp only [slotsPlaces, List.mem_append] at hpl
      rcases hpl with hpl | hpl
      · rcases slotPlaces_within path tag i field.cls slot pl hpl with
          ⟨j, k, hj, h⟩ | ⟨h, ht, j, k, hj, hb⟩
        · exact .inl ⟨j, k, hj.ge, h⟩
        · exact .inr ⟨h, ht, j, k, hj.ge, hb⟩
      · rcases slotsPlaces_within path tag (i + 1) slots fields pl hpl with
          ⟨j, k, hj, h⟩ | ⟨h, ht, j, k, hj, hb⟩
        · exact .inl ⟨j, k, by omega, h⟩
        · exact .inr ⟨h, ht, j, k, by omega, hb⟩

theorem slotPlaces_within (path : Path) (tag : WokTag) (i : Nat) (cls : WokFieldClass) :
    ∀ slot : WokSlot, ∀ pl ∈ slotPlaces path tag i cls slot, Within path tag (fun j _ => j = i) pl
  | .node none => by simp [slotPlaces]
  | .node (some child) => by
      intro pl hpl
      simp only [slotPlaces] at hpl
      split at hpl
      · exact .inl ⟨i, 0, rfl, (nodePlaces_within _ child pl hpl).below⟩
      · cases hpl
  | .seq ns => by
      intro pl hpl
      simp only [slotPlaces] at hpl
      split at hpl
      · split at hpl
        · rename_i hblock
          rcases List.mem_append.mp hpl with hpl | hpl
          · obtain ⟨k, -, h⟩ := itemsPlaces_below path i 0 ns pl hpl
            exact .inl ⟨i, k, rfl, h⟩
          · split at hpl
            · cases hpl
            · rename_i htrail
              rw [List.mem_singleton] at hpl
              exact .inr ⟨hpl, by simpa using htrail, i, 0, rfl, hblock⟩
        · obtain ⟨k, -, h⟩ := seqPlaces_below path i 0 ns pl hpl
          exact .inl ⟨i, k, rfl, h⟩
      · cases hpl
  | .span _ => by simp [slotPlaces]
  | .num _ => by simp [slotPlaces]
  | .flag _ => by simp [slotPlaces]

theorem itemsPlaces_below (path : Path) (i k : Nat) : ∀ ns : List WokNode,
    ∀ pl ∈ itemsPlaces path i k ns, ∃ k', k ≤ k' ∧ ((i, k') :: path) <:+ pl.node
  | [] => by simp [itemsPlaces]
  | n :: ns => by
      intro pl hpl
      simp only [itemsPlaces, List.cons_append, List.mem_cons, List.mem_append] at hpl
      rcases hpl with rfl | (hpl | hpl) | hpl
      · exact ⟨k, Nat.le_refl k, List.suffix_refl _⟩
      · exact ⟨k, Nat.le_refl k, (nodePlaces_within _ n pl hpl).below⟩
      · split at hpl
        · rw [List.mem_singleton] at hpl
          subst hpl
          exact ⟨k, Nat.le_refl k, List.suffix_refl _⟩
        · cases hpl
      · obtain ⟨k', hk, h⟩ := itemsPlaces_below path i (k + 1) ns pl hpl
        exact ⟨k', by omega, h⟩

theorem seqPlaces_below (path : Path) (i k : Nat) : ∀ ns : List WokNode,
    ∀ pl ∈ seqPlaces path i k ns, ∃ k', k ≤ k' ∧ ((i, k') :: path) <:+ pl.node
  | [] => by simp [seqPlaces]
  | n :: ns => by
      intro pl hpl
      simp only [seqPlaces, List.mem_append] at hpl
      rcases hpl with hpl | hpl
      · exact ⟨k, Nat.le_refl k, (nodePlaces_within _ n pl hpl).below⟩
      · obtain ⟨k', hk, h⟩ := seqPlaces_below path i (k + 1) ns pl hpl
        exact ⟨k', by omega, h⟩

end

mutual

theorem nodePlaces_nodup (path : Path) : ∀ n : WokNode, (nodePlaces path n).Nodup
  | .mk tag _ _ slots => slotsPlaces_nodup path tag 0 slots tag.fields

theorem slotsPlaces_nodup (path : Path) (tag : WokTag) (i : Nat) :
    ∀ (slots : List WokSlot) (fields : List WokField),
      (slotsPlaces path tag i slots fields).Nodup
  | [], _ => by simp [slotsPlaces]
  | _ :: _, [] => by simp [slotsPlaces]
  | slot :: slots, field :: fields => by
      simp only [slotsPlaces]
      refine (slotPlaces_nodup path tag i field.cls slot).append
        (slotsPlaces_nodup path tag (i + 1) slots fields) ?_
      intro pl hpl hpl'
      rcases slotPlaces_within path tag i field.cls slot pl hpl with
          ⟨j, k, hj, h⟩ | ⟨h, ht, j, k, hj, hb⟩ <;>
        rcases slotsPlaces_within path tag (i + 1) slots fields pl hpl' with
          ⟨j', k', hj', h'⟩ | ⟨h', ht', j', k', hj', hb'⟩
      · have := suffix_head h h'
        simp only [Prod.mk.injEq] at this
        omega
      · subst h'
        exact not_cons_suffix h
      · subst h
        exact not_cons_suffix h'
      · rw [hb] at hb'
        have := Option.some.inj hb'
        omega

theorem slotPlaces_nodup (path : Path) (tag : WokTag) (i : Nat) (cls : WokFieldClass) :
    ∀ slot : WokSlot, (slotPlaces path tag i cls slot).Nodup
  | .node none => by simp [slotPlaces]
  | .node (some child) => by
      simp only [slotPlaces]
      split
      · exact nodePlaces_nodup _ child
      · exact List.nodup_nil
  | .seq ns => by
      simp only [slotPlaces]
      split
      · split
        · refine (itemsPlaces_nodup path i 0 ns).append (by split <;> simp) ?_
          intro pl hpl hpl'
          obtain ⟨k, -, h⟩ := itemsPlaces_below path i 0 ns pl hpl
          split at hpl'
          · cases hpl'
          · rw [List.mem_singleton] at hpl'
            subst hpl'
            exact not_cons_suffix h
        · exact seqPlaces_nodup path i 0 ns
      · exact List.nodup_nil
  | .span _ => by simp [slotPlaces]
  | .num _ => by simp [slotPlaces]
  | .flag _ => by simp [slotPlaces]

theorem itemsPlaces_nodup (path : Path) (i k : Nat) : ∀ ns : List WokNode,
    (itemsPlaces path i k ns).Nodup
  | [] => by simp [itemsPlaces]
  | n :: ns => by
      simp only [itemsPlaces]
      refine List.Nodup.append ?_ (itemsPlaces_nodup path i (k + 1) ns) ?_
      · -- the item's own places: before it, in it, after it
        rw [List.cons_append, List.nodup_cons]
        constructor
        · intro hlead
          rcases List.mem_append.mp hlead with hlead | hlead
          · rcases nodePlaces_within _ n _ hlead with ⟨j, k', -, h⟩ | ⟨h, -⟩
            · exact not_cons_suffix h
            · cases h
          · split at hlead <;> simp at hlead
        · refine (nodePlaces_nodup _ n).append (by split <;> simp) ?_
          intro pl hpl hpl'
          split at hpl'
          · rename_i htrail
            rw [List.mem_singleton] at hpl'
            subst hpl'
            rcases nodePlaces_within _ n _ hpl with ⟨j, k', -, h⟩ | ⟨-, ht, -⟩
            · exact not_cons_suffix h
            · rw [htrail] at ht
              cases ht
          · cases hpl'
      · intro pl hpl hpl'
        obtain ⟨k', hk, h'⟩ := itemsPlaces_below path i (k + 1) ns pl hpl'
        have h : ((i, k) :: path) <:+ pl.node := by
          simp only [List.cons_append, List.mem_cons, List.mem_append] at hpl
          rcases hpl with rfl | hpl | hpl
          · exact List.suffix_refl _
          · exact (nodePlaces_within _ n pl hpl).below
          · split at hpl
            · rw [List.mem_singleton] at hpl
              subst hpl
              exact List.suffix_refl _
            · cases hpl
        have := suffix_head h h'
        simp only [Prod.mk.injEq] at this
        omega

theorem seqPlaces_nodup (path : Path) (i k : Nat) : ∀ ns : List WokNode,
    (seqPlaces path i k ns).Nodup
  | [] => by simp [seqPlaces]
  | n :: ns => by
      simp only [seqPlaces]
      refine (nodePlaces_nodup _ n).append (seqPlaces_nodup path i (k + 1) ns) ?_
      intro pl hpl hpl'
      obtain ⟨k', hk, h'⟩ := seqPlaces_below path i (k + 1) ns pl hpl'
      have := suffix_head (nodePlaces_within _ n pl hpl).below h'
      simp only [Prod.mk.injEq] at this
      omega

end

theorem sourceOrder_nodup (file : WokNode) : (sourceOrder file).Nodup := nodePlaces_nodup [] file

/-! ### The tour of the walk -/

/-- What the clock ticks for: the trailing range of an item's node is read after the item, or
at the end of the node's own block. -/
def exitPlace (n : NodeRef) : Option Place :=
  if itemTakesTrail n.tag then some ⟨n.path, .trail⟩ else none

def closePlace (n : NodeRef) : Option Place :=
  if itemTakesTrail n.tag then none else some ⟨n.path, .trail⟩

def Stamped (tour : List (Option Place)) (it : Item) : Prop :=
  tour[it.enter]? = some (some ⟨it.node.path, .lead⟩) ∧ tour[it.exit]? = some (exitPlace it.node)

def Closed (tour : List (Option Place)) (sc : Scope) : Prop :=
  tour[sc.close]? = some (closePlace sc.owner)

def OwnsBlock (sc : Scope) : Prop :=
  (tagLayout sc.owner.tag).blockSlot.isSome ∧ sc.closable = scopeIsClosable sc.owner.tag

/-- From `b` to `b'` the clock has ticked for the places of `t`; the new items and blocks are
stamped with their places in it. -/
structure Tour (b b' : Builder) (t : List (Option Place)) : Prop where
  clock : b'.clock = b.clock + t.length
  items : b.item <+: b'.item
  scopes : b.scope <+: b'.scope
  newItem : ∀ i it, b.item.length ≤ i → b'.item[i]? = some it →
    it.scope < b'.scope.length ∧ ∀ pre : List (Option Place), pre.length = b.clock →
      Stamped (pre ++ t) it
  newScope : ∀ s sc, b.scope.length ≤ s → b'.scope[s]? = some sc →
    (∀ p ∈ sc.parent, p < s) ∧ OwnsBlock sc ∧
      ∀ pre : List (Option Place), pre.length = b.clock → Closed (pre ++ t) sc

theorem getElem?_append_some {β : Type} {l r : List β} {i : Nat} {x : β} (h : l[i]? = some x) :
    (l ++ r)[i]? = some x := by
  rw [List.getElem?_append_left (List.getElem?_eq_some_iff.mp h).1, h]

theorem Stamped.append {tour : List (Option Place)} {it : Item} (h : Stamped tour it)
    (t : List (Option Place)) : Stamped (tour ++ t) it :=
  ⟨getElem?_append_some h.1, getElem?_append_some h.2⟩

theorem Closed.append {tour : List (Option Place)} {sc : Scope} (h : Closed tour sc)
    (t : List (Option Place)) : Closed (tour ++ t) sc :=
  getElem?_append_some h

theorem getElem?_of_prefix {β : Type} {l r : List β} {i : Nat} (h : l <+: r) (hi : i < l.length) :
    l[i]? = r[i]? := by
  obtain ⟨u, rfl⟩ := h
  rw [List.getElem?_append_left hi]

namespace Tour

variable {b b' b'' : Builder} {t t' : List (Option Place)}

theorem refl (b : Builder) : Tour b b [] where
  clock := rfl
  items := List.prefix_refl _
  scopes := List.prefix_refl _
  newItem := by
    intro i it hi h
    have := (List.getElem?_eq_some_iff.mp h).1
    omega
  newScope := by
    intro s sc hs h
    have := (List.getElem?_eq_some_iff.mp h).1
    omega

theorem trans (h : Tour b b' t) (h' : Tour b' b'' t') : Tour b b'' (t ++ t') where
  clock := by rw [h'.clock, h.clock, List.length_append, Nat.add_assoc]
  items := h.items.trans h'.items
  scopes := h.scopes.trans h'.scopes
  newItem := by
    intro i it hi hit
    rcases Nat.lt_or_ge i b'.item.length with hlt | hge
    · rw [← getElem?_of_prefix h'.items hlt] at hit
      obtain ⟨hscope, hstamp⟩ := h.newItem i it hi hit
      refine ⟨Nat.lt_of_lt_of_le hscope h'.scopes.length_le, ?_⟩
      intro pre hpre
      rw [← List.append_assoc]
      exact (hstamp pre hpre).append t'
    · obtain ⟨hscope, hstamp⟩ := h'.newItem i it hge hit
      refine ⟨hscope, ?_⟩
      intro pre hpre
      rw [← List.append_assoc]
      exact hstamp (pre ++ t) (by rw [List.length_append, hpre, h.clock])
  newScope := by
    intro s sc hs hsc
    rcases Nat.lt_or_ge s b'.scope.length with hlt | hge
    · rw [← getElem?_of_prefix h'.scopes hlt] at hsc
      obtain ⟨hparent, howns, hclosed⟩ := h.newScope s sc hs hsc
      refine ⟨hparent, howns, ?_⟩
      intro pre hpre
      rw [← List.append_assoc]
      exact (hclosed pre hpre).append t'
    · obtain ⟨hparent, howns, hclosed⟩ := h'.newScope s sc hge hsc
      refine ⟨hparent, howns, ?_⟩
      intro pre hpre
      rw [← List.append_assoc]
      exact hclosed (pre ++ t) (by rw [List.length_append, hpre, h.clock])

end Tour

theorem modify_append_length {β : Type} (f : β → β) (x : β) (r : List β) :
    ∀ l : List β, (l ++ x :: r).modify l.length f = l ++ f x :: r
  | [] => rfl
  | y :: l => by
      rw [List.cons_append, List.length_cons, List.modify_succ_cons, modify_append_length f x r l,
        List.cons_append]

theorem pushItem_enterItem (b : Builder) (n : NodeRef) (s : Nat) (flat first : Bool) :
    ∃ it : Item, it.node = n ∧ it.scope = s ∧ it.enter = b.clock ∧
      ((b.pushItem n s flat first).enterItem b.item.length).item = b.item ++ [it] := by
  refine ⟨_, ?_, ?_, ?_, modify_append_length _ _ [] b.item⟩ <;> rfl

theorem pushScope_scope (b : Builder) (n : NodeRef) (parent : Option Nat) (flat : Bool)
    (col : UInt32) :
    ∃ sc : Scope, sc.owner = n ∧ sc.parent = parent ∧ sc.closable = scopeIsClosable n.tag ∧
      (b.pushScope n parent flat col).scope = b.scope ++ [sc] := by
  refine ⟨_, ?_, ?_, ?_, rfl⟩ <;> rfl

namespace Tour

variable {b b' : Builder} {t : List (Option Place)}

/-- The tour of an item: its node's, between the two ticks of its own. -/
theorem item {n : NodeRef} {s : Nat} {flat first : Bool} (hs : s < b.scope.length)
    (h : Tour ((b.pushItem n s flat first).enterItem b.item.length) b' t) :
    Tour b (b'.exitItem b.item.length) (some ⟨n.path, .lead⟩ :: (t ++ [exitPlace n])) := by
  have hclock : b'.clock = b.clock + 1 + t.length := h.clock
  have hscopes : b.scope <+: b'.scope := h.scopes
  obtain ⟨it, hnode, hscope, henter, hpush⟩ := pushItem_enterItem b n s flat first
  obtain ⟨its, hits⟩ := h.items
  rw [hpush, List.append_assoc, List.singleton_append] at hits
  have hitem : (b'.exitItem b.item.length).item =
      b.item ++ { it with exit := b'.clock } :: its := by
    rw [Builder.exitItem, ← hits]
    exact modify_append_length _ it its b.item
  constructor
  case clock =>
    show b'.clock + 1 = _
    simp only [hclock, List.length_cons, List.length_append, List.length_nil]
    omega
  case items => exact hitem ▸ List.prefix_append _ _
  case scopes => exact hscopes
  case newItem =>
    intro i it' hi hit'
    rw [hitem, List.getElem?_append_right hi] at hit'
    rcases hk : i - b.item.length with _ | k
    · -- the item itself
      rw [hk, List.getElem?_cons_zero, Option.some.injEq] at hit'
      subst hit'
      refine ⟨?_, ?_⟩
      · show it.scope < b'.scope.length
        rw [hscope]
        exact Nat.lt_of_lt_of_le hs hscopes.length_le
      · intro pre hpre
        simp only [Stamped, hnode, henter, hclock, ← hpre]
        constructor
        · simp
        · rw [List.getElem?_append_right (by omega),
            show pre.length + 1 + t.length - pre.length = t.length + 1 by omega,
            List.getElem?_cons_succ, List.getElem?_append_right (Nat.le_refl _), Nat.sub_self,
            List.getElem?_cons_zero]
    · -- an item of its node
      rw [hk, List.getElem?_cons_succ] at hit'
      have hold : b'.item[i]? = some it' := by
        rw [← hits, List.getElem?_append_right hi, hk, List.getElem?_cons_succ, hit']
      obtain ⟨hlt, hstamp⟩ := h.newItem i it' (by rw [hpush, List.length_append]; simp; omega) hold
      refine ⟨hlt, ?_⟩
      intro pre hpre
      have := hstamp (pre ++ [some ⟨n.path, .lead⟩]) (by
        rw [List.length_append, hpre]
        rfl)
      have := this.append [exitPlace n]
      rwa [List.append_assoc, List.append_assoc] at this
  case newScope =>
    intro s' sc hs' hsc
    obtain ⟨hparent, howns, hclosed⟩ := h.newScope s' sc hs' hsc
    refine ⟨hparent, howns, ?_⟩
    intro pre hpre
    have := hclosed (pre ++ [some ⟨n.path, .lead⟩]) (by
      rw [List.length_append, hpre]
      rfl)
    have := this.append [exitPlace n]
    rwa [List.append_assoc, List.append_assoc] at this

/-- The tour of a block: its items', then the tick at its end. -/
theorem scope {n : NodeRef} {parent : Option Nat} {flat : Bool} {col : UInt32}
    (hparent : ∀ p ∈ parent, p < b.scope.length) (hblock : (tagLayout n.tag).blockSlot.isSome)
    (h : Tour (b.pushScope n parent flat col) b' t) :
    Tour b (b'.closeScope b.scope.length) (t ++ [closePlace n]) := by
  have hclock : b'.clock = b.clock + t.length := h.clock
  obtain ⟨sc, howner, hpar, hclosable, hpush⟩ := pushScope_scope b n parent flat col
  obtain ⟨ss, hss⟩ := h.scopes
  rw [hpush, List.append_assoc, List.singleton_append] at hss
  have hscope : (b'.closeScope b.scope.length).scope =
      b.scope ++ { sc with close := b'.clock } :: ss := by
    rw [Builder.closeScope, ← hss]
    exact modify_append_length _ sc ss b.scope
  constructor
  case clock =>
    show b'.clock + 1 = _
    simp only [hclock, List.length_append, List.length_cons, List.length_nil]
    omega
  case items => exact h.items
  case scopes => exact hscope ▸ List.prefix_append _ _
  case newItem =>
    intro i it hi hit
    obtain ⟨hlt, hstamp⟩ := h.newItem i it hi hit
    refine ⟨?_, ?_⟩
    · rw [hscope]
      rw [← hss] at hlt
      simpa using hlt
    · intro pre hpre
      rw [← List.append_assoc]
      exact (hstamp pre hpre).append _
  case newScope =>
    intro s sc' hs hsc'
    rw [hscope, List.getElem?_append_right hs] at hsc'
    rcases hk : s - b.scope.length with _ | k
    · -- the block itself
      rw [hk, List.getElem?_cons_zero, Option.some.injEq] at hsc'
      subst hsc'
      refine ⟨?_, ⟨?_, ?_⟩, ?_⟩
      · intro p hp
        have : p ∈ parent := hpar ▸ hp
        exact Nat.lt_of_lt_of_le (hparent p this) hs
      · show (tagLayout sc.owner.tag).blockSlot.isSome
        rw [howner]
        exact hblock
      · show sc.closable = scopeIsClosable sc.owner.tag
        rw [howner, hclosable]
      · intro pre hpre
        simp only [Closed, howner, hclock, ← hpre]
        rw [← List.append_assoc, ← List.length_append,
          List.getElem?_append_right (Nat.le_refl _), Nat.sub_self, List.getElem?_cons_zero]
    · -- a block below it
      rw [hk, List.getElem?_cons_succ] at hsc'
      have hold : b'.scope[s]? = some sc' := by
        rw [← hss, List.getElem?_append_right hs, hk, List.getElem?_cons_succ, hsc']
      obtain ⟨hparent', howns, hclosed⟩ := h.newScope s sc' (by
        rw [hpush, List.length_append]
        simp
        omega) hold
      refine ⟨hparent', howns, ?_⟩
      intro pre hpre
      rw [← List.append_assoc]
      exact (hclosed pre hpre).append _

end Tour

/-- The tour reads places of `order`, in that order. -/
def Visits (b b' : Builder) (order : List Place) : Prop :=
  ∃ t, Tour b b' t ∧ t.reduceOption.Sublist order

theorem Visits.refl (b : Builder) (order : List Place) : Visits b b order :=
  ⟨[], Tour.refl b, List.nil_sublist _⟩

theorem Visits.trans {b b' b'' : Builder} {order order' : List Place} (h : Visits b b' order)
    (h' : Visits b' b'' order') : Visits b b'' (order ++ order') := by
  obtain ⟨t, ht, hsub⟩ := h
  obtain ⟨t', ht', hsub'⟩ := h'
  refine ⟨t ++ t', ht.trans ht', ?_⟩
  rw [List.reduceOption_append]
  exact hsub.append hsub'

theorem Visits.scopes_le {b b' : Builder} {order : List Place} (h : Visits b b' order) :
    b.scope.length ≤ b'.scope.length := by
  obtain ⟨t, ht, -⟩ := h
  exact ht.scopes.length_le

theorem Visits.item {b b' : Builder} {n : WokNode} {path : Path} {s : Nat} {flat first : Bool}
    {order : List Place} (hs : s < b.scope.length)
    (h : Visits ((b.pushItem (nodeRef path n) s flat first).enterItem b.item.length) b' order) :
    Visits b (b'.exitItem b.item.length)
      (⟨path, .lead⟩ :: order ++ if itemTakesTrail n.tag then [⟨path, .trail⟩] else []) := by
  obtain ⟨t, ht, hsub⟩ := h
  refine ⟨_, ht.item hs, ?_⟩
  rw [List.reduceOption_cons_of_some, List.reduceOption_append, List.cons_append]
  have hpath : (nodeRef path n).path = path := by cases n; rfl
  have htag : (nodeRef path n).tag = n.tag := by cases n; rfl
  rw [hpath]
  refine (hsub.append ?_).cons_cons _
  rw [exitPlace, htag, hpath]
  split <;> simp [List.reduceOption]

theorem Visits.scope {b b' : Builder} {n : NodeRef} {parent : Option Nat} {flat : Bool}
    {col : UInt32} {order : List Place} (hparent : ∀ p ∈ parent, p < b.scope.length)
    (hblock : (tagLayout n.tag).blockSlot.isSome)
    (h : Visits (b.pushScope n parent flat col) b' order) :
    Visits b (b'.closeScope b.scope.length)
      (order ++ if itemTakesTrail n.tag then [] else [⟨n.path, .trail⟩]) := by
  obtain ⟨t, ht, hsub⟩ := h
  refine ⟨_, ht.scope hparent hblock, ?_⟩
  rw [List.reduceOption_append]
  refine hsub.append ?_
  rw [closePlace]
  split <;> simp [List.reduceOption]

mutual

/-- The walk of a node stamps its items and blocks in the order of the source. -/
theorem walkNode_visits (path : Path) (scope : Option Nat) (flat : Bool) (depth : Nat) :
    ∀ (n : WokNode) (b : Builder), (∀ p ∈ scope, p < b.scope.length) →
      Visits b (walkNode b path scope flat depth n) (nodePlaces path n)
  | .mk tag off len slots => by
      intro b hscope
      simp only [walkNode, nodePlaces]
      split
      · exact Visits.refl b _
      · exact walkSlots_visits ⟨path, tag, off, len⟩ scope flat depth 0 slots tag.fields b hscope

theorem walkSlots_visits (n : NodeRef) (scope : Option Nat) (flat : Bool) (depth i : Nat) :
    ∀ (slots : List WokSlot) (fields : List WokField) (b : Builder),
      (∀ p ∈ scope, p < b.scope.length) →
      Visits b (walkSlots b n scope flat depth i slots fields)
        (slotsPlaces n.path n.tag i slots fields)
  | [], _ => by
      intro b _
      exact Visits.refl b _
  | _ :: _, [] => by
      intro b _
      exact Visits.refl b _
  | slot :: slots, field :: fields => by
      intro b hscope
      simp only [walkSlots, slotsPlaces]
      have hslot := walkSlot_visits n scope
        (flat || !(tagLayout n.tag).openMask.contains i) depth i field.cls slot b hscope
      refine hslot.trans (walkSlots_visits n scope flat depth (i + 1) slots fields _ ?_)
      intro p hp
      exact Nat.lt_of_lt_of_le (hscope p hp) hslot.scopes_le

theorem walkSlot_visits (n : NodeRef) (scope : Option Nat) (flat : Bool) (depth i : Nat)
    (cls : WokFieldClass) :
    ∀ (slot : WokSlot) (b : Builder), (∀ p ∈ scope, p < b.scope.length) →
      Visits b (walkSlot b n scope flat depth i cls slot) (slotPlaces n.path n.tag i cls slot)
  | .node none => by
      intro b _
      exact Visits.refl b _
  | .node (some child) => by
      intro b hscope
      simp only [walkSlot, slotPlaces]
      split
      · exact walkNode_visits _ scope flat (depth + 1) child b hscope
      · exact Visits.refl b _
  | .seq ns => by
      intro b hscope
      simp only [walkSlot, slotPlaces]
      split
      · split
        · rename_i hblock
          have hitems := walkItems_visits n.path i b.scope.length flat depth 0 ns
            (b.pushScope n scope flat (b.lines.colOf ((ns.head?.map WokNode.off).getD n.off)))
            (by simp [Builder.pushScope])
          exact Visits.scope hscope (by rw [hblock]; rfl) hitems
        · exact walkSeq_visits n.path i scope flat depth 0 ns b hscope
      · exact Visits.refl b _
  | .span _ => by
      intro b _
      exact Visits.refl b _
  | .num _ => by
      intro b _
      exact Visits.refl b _
  | .flag _ => by
      intro b _
      exact Visits.refl b _

theorem walkItems_visits (path : Path) (i s : Nat) (flat : Bool) (depth k : Nat) :
    ∀ (ns : List WokNode) (b : Builder), s < b.scope.length →
      Visits b (walkItems b path i s flat depth k ns) (itemsPlaces path i k ns)
  | [] => by
      intro b _
      exact Visits.refl b _
  | n :: ns => by
      intro b hs
      simp only [walkItems, itemsPlaces]
      have hnode := walkNode_visits ((i, k) :: path) (some s) flat (depth + 1) n
        ((b.pushItem (nodeRef ((i, k) :: path) n) s flat (k == 0)).enterItem b.item.length) (by
          intro p hp
          cases hp
          exact hs)
      have hitem := Visits.item hs hnode
      exact hitem.trans (walkItems_visits path i s flat depth (k + 1) ns _
        (Nat.lt_of_lt_of_le hs hitem.scopes_le))

theorem walkSeq_visits (path : Path) (i : Nat) (scope : Option Nat) (flat : Bool)
    (depth k : Nat) :
    ∀ (ns : List WokNode) (b : Builder), (∀ p ∈ scope, p < b.scope.length) →
      Visits b (walkSeq b path i scope flat depth k ns) (seqPlaces path i k ns)
  | [] => by
      intro b _
      exact Visits.refl b _
  | n :: ns => by
      intro b hscope
      simp only [walkSeq, seqPlaces]
      have hnode := walkNode_visits ((i, k) :: path) scope flat (depth + 1) n b hscope
      refine hnode.trans (walkSeq_visits path i scope flat depth (k + 1) ns _ ?_)
      intro p hp
      exact Nat.lt_of_lt_of_le (hscope p hp) hnode.scopes_le

end

/-! ### Targets -/

/-- A builder whose items and blocks are all stamped with their places in the tour. -/
structure Mapped (b : Builder) (tour : List (Option Place)) : Prop where
  item : ∀ (i : Nat) (it : Item), b.item[i]? = some it →
    it.scope < b.scope.length ∧ Stamped tour it
  scope : ∀ (s : Nat) (sc : Scope), b.scope[s]? = some sc →
    (∀ p ∈ sc.parent, p < s) ∧ OwnsBlock sc ∧ Closed tour sc

theorem Tour.mapped {lines : Lines} {b : Builder} {t : List (Option Place)}
    (h : Tour ⟨lines, [], [], 0⟩ b t) : Mapped b t where
  item := by
    intro i it hit
    obtain ⟨hscope, hstamp⟩ := h.newItem i it (Nat.zero_le i) hit
    exact ⟨hscope, hstamp [] rfl⟩
  scope := by
    intro s sc hsc
    obtain ⟨hparent, howns, hclosed⟩ := h.newScope s sc (Nat.zero_le s) hsc
    exact ⟨hparent, howns, hclosed [] rfl⟩

namespace Builder

variable {b : Builder}

theorem getElem?_itemAt {i : Nat} (hi : i < b.item.length) : b.item[i]? = some (b.itemAt i) := by
  rw [itemAt, List.getD_eq_getElem?_getD, List.getElem?_eq_getElem hi, Option.getD_some]

theorem getElem?_scopeAt {s : Nat} (hs : s < b.scope.length) :
    b.scope[s]? = some (b.scopeAt s) := by
  rw [scopeAt, List.getD_eq_getElem?_getD, List.getElem?_eq_getElem hs, Option.getD_some]

/-- The run a target adds to. -/
def place (b : Builder) (t : Target) : Place :=
  ⟨(b.targetNode t).path, if t.kind = .lead then .lead else .trail⟩

/-- Targets that the rules choose: a trailing range is never asked to serve both its item and
the end of a block. -/
def Allowed (b : Builder) : TargetKind → Nat → Prop
  | .lead, idx => idx < b.item.length
  | .trail, idx => idx < b.item.length ∧ itemTakesTrail (b.itemAt idx).node.tag
  | .close, idx => idx < b.scope.length ∧ (b.scopeAt idx).closable

structure Ranked (b : Builder) (t : Target) : Prop where
  allowed : b.Allowed t.kind t.idx
  rank : t.rank = b.targetRank t.kind t.idx

/-- The rank of a target is the time at which its place is read. -/
theorem Ranked.tour {tour : List (Option Place)} (hb : Mapped b tour) {t : Target}
    (h : b.Ranked t) : tour[t.rank]? = some (some (b.place t)) := by
  obtain ⟨kind, idx, rank⟩ := t
  obtain ⟨hallowed, hrank⟩ := h
  simp only at hallowed hrank
  subst hrank
  cases kind with
  | lead =>
      exact (hb.item idx _ (getElem?_itemAt hallowed)).2.1
  | trail =>
      obtain ⟨hidx, htrail⟩ := hallowed
      have := (hb.item idx _ (getElem?_itemAt hidx)).2.2
      rwa [exitPlace, if_pos htrail] at this
  | close =>
      obtain ⟨hidx, hclosable⟩ := hallowed
      obtain ⟨-, ⟨hblock, howns⟩, hclosed⟩ := hb.scope idx _ (getElem?_scopeAt hidx)
      have htrail : itemTakesTrail (b.scopeAt idx).owner.tag = false := by
        rw [itemTakesTrail, ← howns, hclosable, Bool.not_true, Bool.or_false,
          Option.isNone_eq_false_iff]
        exact hblock
      rw [Closed, closePlace, htrail] at hclosed
      exact hclosed

/-! ### The rules -/

theorem findLineItem_spec {line : Nat} {coff : UInt32} {before i : Nat}
    (h : b.findLineItem line coff before = some i) :
    i < before ∧ itemTakesTrail (b.itemAt i).node.tag := by
  induction before with
  | zero => simp [findLineItem] at h
  | succ n ih =>
      have hrest : b.findLineItem line coff n = some i →
          i < n + 1 ∧ itemTakesTrail (b.itemAt i).node.tag := by
        intro h
        exact ⟨Nat.lt_succ_of_lt (ih h).1, (ih h).2⟩
      simp only [findLineItem] at h
      split at h
      · cases h
      · split at h
        · exact hrest h
        · split at h
          · exact hrest h
          · rename_i htrail
            split at h
            · exact hrest h
            · cases h
              exact ⟨Nat.lt_succ_self _, by simpa using htrail⟩

/-- Blocks stand after their parents, so the search outwards ends: with more fuel than the
number of the block it starts at, it does not run out. -/
theorem closeScopeFrom_spec {tour : List (Option Place)} (hb : Mapped b tour)
    (hfile : b.Allowed .close 0) (ccol : UInt32) :
    ∀ (fuel : Nat) (s : Option Nat), (∀ p ∈ s, p < fuel ∧ p < b.scope.length) →
      ∃ s', b.closeScopeFrom ccol fuel s = some s' ∧ b.Allowed .close s'
  | fuel, none, _ => ⟨0, by cases fuel <;> rfl, hfile⟩
  | 0, some s, h => absurd (h s rfl).1 (Nat.not_lt_zero s)
  | fuel + 1, some s, h => by
      obtain ⟨hfuel, hs⟩ := h s rfl
      simp only [closeScopeFrom]
      split
      · rename_i hclose
        simp only [Bool.and_eq_true] at hclose
        exact ⟨s, rfl, hs, hclose.1.1⟩
      · refine closeScopeFrom_spec hb hfile ccol fuel _ ?_
        intro p hp
        have hlt := (hb.scope s _ (getElem?_scopeAt hs)).1 p hp
        exact ⟨by omega, by omega⟩

theorem scopeEncloses_total {tour : List (Option Place)} (hb : Mapped b tour) (outer : Nat) :
    ∀ (fuel : Nat) (s : Option Nat), (∀ p ∈ s, p < fuel ∧ p < b.scope.length) →
      ∃ r, b.scopeEncloses outer fuel s = some r
  | fuel, none, _ => ⟨false, by cases fuel <;> rfl⟩
  | 0, some s, h => absurd (h s rfl).1 (Nat.not_lt_zero s)
  | fuel + 1, some s, h => by
      obtain ⟨hfuel, hs⟩ := h s rfl
      simp only [scopeEncloses]
      split
      · exact ⟨true, rfl⟩
      · refine scopeEncloses_total hb outer fuel _ ?_
        intro p hp
        have hlt := (hb.scope s _ (getElem?_scopeAt hs)).1 p hp
        exact ⟨by omega, by omega⟩

theorem item_scope_lt {tour : List (Option Place)} (hb : Mapped b tour) {i : Nat}
    (hi : i < b.item.length) : ∀ p ∈ some (b.itemAt i).scope,
      p < b.scope.length ∧ p < b.scope.length := by
  intro p hp
  cases hp
  have := (hb.item i _ (getElem?_itemAt hi)).1
  exact ⟨this, this⟩

theorem chooseTarget_spec {tour : List (Option Place)} (hb : Mapped b tour)
    (hfile : b.Allowed .close 0) (c : WokComment) {before : Nat} (next : Nat)
    (hbefore : before ≤ b.item.length) :
    ∃ kind idx, b.chooseTarget c before next = some (kind, idx) ∧ b.Allowed kind idx := by
  simp only [chooseTarget]
  split
  · rename_i idx hline
    split at hline
    · cases hline
    · obtain ⟨hidx, htrail⟩ := findLineItem_spec hline
      exact ⟨.trail, idx, rfl, Nat.lt_of_lt_of_le hidx hbefore, htrail⟩
  · split
    · rename_i hnext
      exact ⟨.lead, next, rfl, hnext.1⟩
    · obtain ⟨s, hs, hallowed⟩ : ∃ s, b.chooseCloseScope before (b.lines.colOf c.off) = some s ∧
          b.Allowed .close s := by
        refine closeScopeFrom_spec hb hfile _ _ _ ?_
        split
        · rename_i hne
          exact item_scope_lt hb (by omega)
        · simp
      rw [hs]
      simp only [Option.bind_eq_bind, Option.bind_some]
      split
      · rename_i hnext
        obtain ⟨r, hr⟩ := scopeEncloses_total hb s b.scope.length _ (item_scope_lt hb hnext)
        rw [hr]
        cases r with
        | true => exact ⟨.lead, next, rfl, hnext⟩
        | false => exact ⟨.close, s, rfl, hallowed⟩
      · exact ⟨.close, s, rfl, hallowed⟩

theorem cursor_le {p : Item → Bool} {i : Nat} (hi : i ≤ b.item.length) :
    i + ((b.item.drop i).takeWhile p).length ≤ b.item.length := by
  have := (List.takeWhile_prefix (l := b.item.drop i) p).length_le
  rw [List.length_drop] at this
  omega

/-- The targets: one for each comment, and their ranks never fall. -/
theorem attachFrom_spec {tour : List (Option Place)} (hb : Mapped b tour)
    (hfile : b.Allowed .close 0) : ∀ (cs : List WokComment) (before next : Nat)
      (prev : Option Target), before ≤ b.item.length → (∀ p ∈ prev, b.Ranked p) →
      ∃ ts, b.attachFrom before next prev cs = some ts ∧ ts.length = cs.length ∧
        (∀ t ∈ ts, b.Ranked t ∧ ∀ p ∈ prev, p.rank ≤ t.rank) ∧
        ts.Pairwise fun t t' => t.rank ≤ t'.rank
  | [], before, next, prev, _, _ => ⟨[], rfl, rfl, by simp, List.Pairwise.nil⟩
  | c :: cs, before, next, prev, hbefore, hprev => by
      simp only [attachFrom]
      obtain ⟨kind, idx, hchoose, hallowed⟩ := chooseTarget_spec hb hfile c
        (next +
          ((b.item.drop next).takeWhile fun it => it.flat || it.node.off < c.off + c.len).length)
        (cursor_le (p := fun it => it.node.off < c.off) hbefore)
      rw [hchoose]
      simp only [Option.bind_eq_bind, Option.bind_some]
      obtain ⟨t, ht⟩ : ∃ t, orderTarget prev ⟨kind, idx, b.targetRank kind idx⟩ = t := ⟨_, rfl⟩
      have hranked : b.Ranked t ∧ ∀ p ∈ prev, p.rank ≤ t.rank := by
        subst ht
        cases prev with
        | none => exact ⟨⟨hallowed, rfl⟩, by simp⟩
        | some p =>
            simp only [orderTarget, Option.mem_some_iff, forall_eq']
            split
            · exact ⟨hprev p rfl, Nat.le_refl _⟩
            · rename_i hle
              exact ⟨⟨hallowed, rfl⟩, Nat.le_of_not_lt hle⟩
      rw [ht]
      obtain ⟨ts, hts, hlen, hall, hpair⟩ := attachFrom_spec hb hfile cs _
        (next +
          ((b.item.drop next).takeWhile fun it => it.flat || it.node.off < c.off + c.len).length)
        (some t) (cursor_le (p := fun it => it.node.off < c.off) hbefore) (by
          intro p hp
          cases hp
          exact hranked.1)
      refine ⟨t :: ts, by rw [hts]; rfl, by rw [List.length_cons, List.length_cons, hlen], ?_, ?_⟩
      · intro t' ht'
        rcases List.mem_cons.mp ht' with rfl | ht'
        · exact hranked
        · obtain ⟨hranked', hle⟩ := hall t' ht'
          exact ⟨hranked', fun p hp => (hranked.2 p hp).trans (hle t rfl)⟩
      · exact List.pairwise_cons.mpr ⟨fun t' ht' => (hall t' ht').2 t rfl, hpair⟩

/-! ### The places of the comments -/

variable {tour : List (Option Place)} {order : List Place}

theorem pair_sublist {i j : Nat} {p q : Place} (hij : i < j) (hi : tour[i]? = some (some p))
    (hj : tour[j]? = some (some q)) : [p, q].Sublist tour.reduceOption := by
  have hp : some p ∈ tour.take j := by
    rw [List.mem_iff_getElem?]
    exact ⟨i, by rw [List.getElem?_take_of_lt hij, hi]⟩
  have hq : some q ∈ tour.drop j := by
    rw [List.mem_iff_getElem?]
    exact ⟨0, by rw [List.getElem?_drop, Nat.add_zero, hj]⟩
  rw [← List.take_append_drop j tour, List.reduceOption_append]
  exact (List.singleton_sublist.mpr (List.reduceOption_mem_iff.mpr hp)).append
    (List.singleton_sublist.mpr (List.reduceOption_mem_iff.mpr hq))

theorem place_mem (hb : Mapped b tour) (hsub : tour.reduceOption.Sublist order) {t : Target}
    (ht : b.Ranked t) : b.place t ∈ order :=
  hsub.subset (List.reduceOption_mem_iff.mpr (List.mem_of_getElem? (ht.tour hb)))

/-- Ranks that never fall give places that never go back. -/
theorem places_advance (hb : Mapped b tour) (hsub : tour.reduceOption.Sublist order)
    (hnodup : order.Nodup) {ts : List Target} (hall : ∀ t ∈ ts, b.Ranked t)
    (hpair : ts.Pairwise fun t t' => t.rank ≤ t'.rank) : Advances order (ts.map b.place) := by
  rw [Advances, List.pairwise_map]
  refine hpair.imp_of_mem ?_
  intro t t' ht ht' hle
  have hplace := (hall t ht).tour hb
  have hplace' := (hall t' ht').tour hb
  rcases Nat.lt_or_eq_of_le hle with hlt | heq
  · exact Nat.le_of_lt (idxOf_lt_of_sublist hnodup ((pair_sublist hlt hplace hplace').trans hsub))
  · rw [heq, hplace', Option.some.injEq, Option.some.injEq] at hplace
    rw [hplace]

end Builder

/-! ### The runs of the table -/

namespace EntryMap

theorem lookup_cons (n p : Path) (e : WokTriviaEntry) (m : EntryMap) :
    lookup ((n, e) :: m) p = if p = n then some e else m.lookup p := by
  simp only [lookup, List.lookup_cons]
  by_cases hp : p = n
  · rw [if_pos hp, beq_iff_eq.mpr hp]
  · rw [if_neg hp, beq_eq_false_iff_ne.mpr hp]

theorem lookup_modify (m : EntryMap) (n p : Path) (f : WokTriviaEntry → WokTriviaEntry) :
    (m.modify n f).lookup p = if p = n then some (f ((m.lookup n).getD default))
      else m.lookup p := by
  induction m with
  | nil => exact lookup_cons n p (f default) []
  | cons e m ih =>
      obtain ⟨n', e⟩ := e
      simp only [modify]
      by_cases hn : n' = n
      · subst hn
        rw [if_pos rfl, lookup_cons, lookup_cons, lookup_cons, if_pos rfl, Option.getD_some]
        by_cases hp : p = n'
        · rw [if_pos hp, if_pos hp]
        · rw [if_neg hp, if_neg hp, if_neg hp]
      · rw [if_neg hn, lookup_cons, ih, lookup_cons, lookup_cons, if_neg (Ne.symm hn)]
        by_cases hp : p = n'
        · rw [if_pos hp, if_pos hp, if_neg (hp ▸ hn)]
        · rw [if_neg hp, if_neg hp]

/-- The run of a place. -/
def run (m : EntryMap) (p : Place) : Run :=
  match p.side with
  | .lead => ((m.lookup p.node).getD default).lead
  | .trail => ((m.lookup p.node).getD default).trail

theorem run_modify (m : EntryMap) (n : Path) (f : WokTriviaEntry → WokTriviaEntry) (p : Place) :
    (m.modify n f).run p = if p.node = n then
      (match p.side with
        | .lead => (f ((m.lookup n).getD default)).lead
        | .trail => (f ((m.lookup n).getD default)).trail)
      else m.run p := by
  unfold run
  rw [lookup_modify]
  by_cases hp : p.node = n
  · rw [if_pos hp, if_pos hp, Option.getD_some]
  · rw [if_neg hp, if_neg hp]

end EntryMap

theorem WokTrivia.run_eq (table : WokTrivia) (p : Place) : table.run p = table.entry.run p := by
  unfold WokTrivia.run EntryMap.run
  rcases table.entry.lookup p.node with _ | e
  · cases p.side <;> rfl
  · cases p.side <;> rfl

variable {b : Builder} {comments : List WokComment} {targets : List Target}

theorem markBlank_run (m : EntryMap) (i : Nat) (p : Place) :
    (markBlank b comments targets m i).run p = m.run p := by
  unfold markBlank
  split
  · rw [EntryMap.run_modify]
    split
    · rename_i h
      rw [← h]
      unfold EntryMap.run
      cases p.side <;> rfl
    · rfl
  · rfl

theorem markBlanks_run (is : List Nat) (m : EntryMap) (p : Place) :
    (is.foldl (markBlank b comments targets) m).run p = m.run p := by
  induction is generalizing m with
  | nil => rfl
  | cons i is ih => rw [List.foldl_cons, ih, markBlank_run]

theorem addComment_run (m : EntryMap) (t : Target) (ci : Nat) (p : Place) :
    (addComment b m t ci).run p = if b.place t = p then (m.run p).push ci else m.run p := by
  obtain ⟨n, side⟩ := p
  unfold addComment
  rw [EntryMap.run_modify]
  simp only [Builder.place, Place.mk.injEq]
  by_cases hn : n = (b.targetNode t).path
  · subst hn
    by_cases hlead : t.kind = .lead
    · cases side <;> simp [hlead, EntryMap.run]
    · cases side <;> simp [hlead, EntryMap.run]
  · have hn' : ¬ (b.targetNode t).path = n := fun h => hn h.symm
    simp [hn, hn']

/-- The comments are added in their order, each to the run of its place. -/
theorem addComments_run {order : List Place} :
    ∀ (ts : List Target) (m : EntryMap) (xs : List Place),
      (∀ t ∈ ts, b.place t ∈ order) → Advances order (xs ++ ts.map b.place) →
      (∀ p, (m.run p).range = positions xs p) →
      ∀ p, ((addComments b m xs.length ts).run p).range = positions (xs ++ ts.map b.place) p
  | [], m, xs, _, _, hm, p => by
      rw [List.map_nil, List.append_nil]
      exact hm p
  | t :: ts, m, xs, hmem, hadvances, hm, p => by
      have hsplit : xs ++ (t :: ts).map b.place = (xs ++ [b.place t]) ++ ts.map b.place := by
        rw [List.map_cons, List.append_assoc, List.singleton_append]
      rw [hsplit] at hadvances ⊢
      have hnext := addComments_run ts (addComment b m t xs.length) (xs ++ [b.place t])
        (fun t' ht' => hmem t' (List.mem_cons_of_mem _ ht')) hadvances (by
          intro q
          rw [addComment_run]
          split
          · rename_i hq
            subst hq
            exact Run.push_range (hmem t List.mem_cons_self)
              (hadvances.sublist (List.sublist_append_left _ _)) (hm _)
          · rename_i hq
            rw [hm, positions_append, if_neg hq, List.append_nil])
      rw [List.length_append, List.length_singleton] at hnext
      exact hnext p

/-! ### Attaching -/

theorem tableSize_isSome {cap : UInt32} (h : cap.toNat ≤ 2 ^ 30) : (tableSize cap).isSome := by
  rw [tableSize, List.find?_isSome]
  refine ⟨2147483648, ?_, ?_⟩
  · rw [List.mem_map]
    exact ⟨27, by decide, by decide⟩
  · rw [decide_eq_true_eq, UInt32.le_iff_toNat_le, UInt32.toNat_mul]
    have : (2147483648 : UInt32).toNat = 2147483648 := rfl
    rw [this]
    refine (Nat.mod_le _ _).trans ?_
    have : (2 : UInt32).toNat = 2 := rfl
    rw [this]
    omega

theorem capacity_le {c i : Nat} (h : c + i + 2 ≤ 2 ^ 30) :
    (UInt32.ofNat c + UInt32.ofNat i + 2).toNat ≤ 2 ^ 30 := by
  have htwo : (2 : UInt32).toNat = 2 := rfl
  rw [UInt32.toNat_add, UInt32.toNat_add, UInt32.toNat_ofNat', UInt32.toNat_ofNat', htwo]
  omega

/-- A table that was filled from targets whose places follow the order of the source. -/
theorem keepsComments_of_positions {file : WokNode} {comments : List WokComment}
    {entry : EntryMap} {xs : List Place} (hlen : xs.length = comments.length)
    (hmem : ∀ p ∈ xs, p ∈ sourceOrder file) (hadvances : Advances (sourceOrder file) xs)
    (hrun : ∀ p, (entry.run p).range = positions xs p) :
    KeepsComments file comments ⟨entry, comments⟩ where
  once := by
    intro ci hci
    have hlt : ci < xs.length := hlen ▸ hci
    have hget : xs[ci]? = some xs[ci] := List.getElem?_eq_getElem hlt
    refine ⟨xs[ci], ?_, ?_⟩
    · show ci ∈ _
      rw [WokTrivia.run_eq, hrun, mem_positions, hget]
    · intro p hp
      rw [WokTrivia.run_eq, hrun, mem_positions, hget, Option.some.injEq] at hp
      exact hp.symm
  known := by
    intro p ci hci
    rw [WokTrivia.run_eq, hrun, mem_positions] at hci
    exact ⟨hmem p (List.mem_of_getElem? hci), hlen ▸ (List.getElem?_eq_some_iff.mp hci).1⟩
  readOnce := sourceOrder_nodup file
  inOrder := by
    have hread : ∀ p, WokTrivia.commentsAt ⟨entry, comments⟩ p =
        (positions xs p).filterMap (comments[·]?) := by
      intro p
      rw [WokTrivia.commentsAt, ← Run.filterMap_range, WokTrivia.run_eq, hrun]
    have hall := flatMap_positions (sourceOrder_nodup file) hmem hadvances
    calc (sourceOrder file).flatMap (WokTrivia.commentsAt ⟨entry, comments⟩)
        = (sourceOrder file).flatMap fun p => (positions xs p).filterMap (comments[·]?) := by
          rw [List.flatMap_def, List.flatMap_def]
          congr 1
          exact List.map_congr_left fun p _ => hread p
      _ = ((sourceOrder file).flatMap (positions xs)).filterMap (comments[·]?) :=
          List.filterMap_flatMap.symm
      _ = (List.range comments.length).filterMap (comments[·]?) := by rw [hall, hlen]
      _ = comments := by
          have := Run.filterMap_range comments ⟨0, comments.length⟩
          rw [Run.range, ← List.range_eq_range', Run.slice, List.drop_zero,
            List.take_length] at this
          exact this

theorem conforms_file {size : Nat} {file : WokNode} (h : file.Conforms size)
    (hfile : file.tag = .wFile) : ∃ off len ns, file = .mk .wFile off len [.seq ns] := by
  rcases h with @⟨tag, off, len, slots, hfields⟩
  cases hfile
  cases hfields with
  | cons hfirst hrest =>
      cases hrest
      cases hfirst with
      | node hcls => cases hcls
      | none hcls => cases hcls
      | some hcls => cases hcls
      | seq => exact ⟨off, len, _, rfl⟩
      | span hcls => rcases hcls with hcls | hcls <;> cases hcls
      | num hcls => cases hcls
      | flag hcls => cases hcls

/-- The file's own block is the first, and can hold comments. -/
theorem build_file_scope (off len : UInt32) (ns : List WokNode) (src : List UInt8) :
    (build (.mk .wFile off len [.seq ns]) src).Allowed .close 0 := by
  obtain ⟨b, hb⟩ : ∃ b, walkNode ⟨linesBuild src, [], [], 0⟩ [] none false 0
      (.mk .wFile off len [.seq ns]) = Builder.closeScope b 0 ∧
        ∃ sc, b.scope[0]? = some sc ∧ sc.closable := by
    refine ⟨_, rfl, ?_⟩
    obtain ⟨t, ht, -⟩ := walkItems_visits [] 0 0 (false || !(tagLayout .wFile).openMask.contains 0)
      0 0 ns (Builder.pushScope ⟨linesBuild src, [], [], 0⟩ ⟨[], .wFile, off, len⟩ none
        (false || !(tagLayout .wFile).openMask.contains 0)
        ((linesBuild src).colOf ((ns.head?.map WokNode.off).getD off))) (Nat.zero_lt_one)
    have hget := getElem?_of_prefix ht.scopes Nat.zero_lt_one
    exact ⟨_, hget.symm.trans rfl, rfl⟩
  obtain ⟨hwalk, sc, hsc, hclosable⟩ := hb
  have hbuild : build (.mk .wFile off len [.seq ns]) src = b.closeScope 0 := by
    rw [← hwalk]
    rfl
  have hget : (build (.mk .wFile off len [.seq ns]) src).scope[0]? =
      some { sc with close := b.clock } := by
    rw [hbuild, Builder.closeScope, List.getElem?_modify_eq, hsc]
    rfl
  refine ⟨(List.getElem?_eq_some_iff.mp hget).1, ?_⟩
  rw [Builder.scopeAt, List.getD_eq_getElem?_getD, hget]
  exact hclosable

theorem wokTriviaAttach_eq {file : WokNode} {src : List UInt8} {comments : List WokComment}
    {ts : List Target} (hscope : (build file src).scope.length ≠ 0)
    (hfits : comments.length + (build file src).item.length + 2 ≤ 2 ^ 30)
    (hts : (build file src).attachFrom 0 0 none comments = some ts) :
    wokTriviaAttach file src comments = some
      ⟨addComments (build file src)
        ((List.range (build file src).item.length).foldl (markBlank (build file src) comments ts)
          (EntryMap.modify [] [] id)) 0 ts, comments⟩ := by
  obtain ⟨size, hsize⟩ := Option.isSome_iff_exists.mp (tableSize_isSome (capacity_le hfits))
  simp only [wokTriviaAttach]
  rw [if_neg hscope, hsize, hts]
  rfl

section Example

/-- A damaged declaration over the first byte of its source. -/
def damagedFile : WokNode :=
  .mk .wFile 0 1 [.seq [.mk .dError 0 1 [.span ⟨0, 1⟩]]]

/-- The source `? --`. -/
def damagedSource : List UInt8 := [0x3F, 0x20, 0x2D, 0x2D]

theorem damagedFile_conforms : damagedFile.Conforms 4 := by
  refine .mk (.cons (.seq rfl ?_ ?_) .nil)
  · intro n hn
    rw [List.mem_singleton] at hn
    subst hn
    rfl
  · intro n hn
    rw [List.mem_singleton] at hn
    subst hn
    exact .mk (.cons (.span (.inr rfl) (by decide)) .nil)

end Example

end Wok.Grammar.Trivia
