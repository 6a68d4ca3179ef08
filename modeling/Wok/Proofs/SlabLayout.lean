/-
Module: Wok.Proofs.SlabLayout
Purpose: How the slab build divides memory: slabs, cells cut from them, free lists and
  arena frontiers; cells that are there do not overlap, and a write inside one of them
  leaves the lists and the other cells alone.
Imports: Wok.Proofs.Cells
Trusted boundary: none
Main exports: Shape, Places, Places.apart, Owned, Owned.loose, Places.agree,
  AllHeld
-/
import Wok.Proofs.Cells

namespace Wok.Runtime.Slab

open Wok.Lib

/-! ### The division of memory -/

/-- What the memory of a heap is used for. -/
structure Shape where
  /-- the cells that the program got, and what became of them -/
  cells : List (Nat × Status) := []
  slabs : List Nat := []
  arenaSlabs : List Nat := []
  freeSlabs : List Nat := []
  /-- the free list of each class -/
  free : Nat → List Nat := fun _ => []
  /-- the cells ever cut from the slabs of the counted region -/
  carved : List Block := []
  /-- the arena's slabs when each open scope was opened -/
  saved : Nat → List Nat := fun _ => []

def Shape.allSlabs (g : Shape) : List Nat :=
  g.slabs ++ (g.arenaSlabs ++ g.freeSlabs)

def slabBlock (x : Nat) : Block := ⟨x, wokArenaSize⟩

/-- A slab after its link. -/
def slabBody (x : Nat) : Block := ⟨x + wokGranule, wokArenaSize - wokGranule⟩

/-- The range `[ptr, stop)` is the end of the newest slab. -/
def Frontier (slabs : List Nat) (ptr stop : Nat) : Prop :=
  (slabs = [] ∧ ptr = 0 ∧ stop = 0) ∨
    ∃ x rest, slabs = x :: rest ∧ x + wokGranule ≤ ptr ∧ ptr ≤ stop ∧
      stop = x + wokArenaSize ∧ ptr % 8 = 0

/-- A range cut from the slabs before the frontier came to `ptr`. -/
def Behind (slabs : List Nat) (ptr stop : Nat) (b : Block) : Prop :=
  (∃ x ∈ slabs, b.Within (slabBody x)) ∧ b.Apart ⟨ptr, stop - ptr⟩

/-- The blocks got from `malloc`, with the slabs among them. -/
structure BlocksOk (blocks : List Block) (all : List Nat) : Prop where
  separate : Separate blocks
  pos : ∀ b ∈ blocks, 0 < b.size ∧ b.base ≠ 0 ∧ b.base % 8 = 0
  slab : ∀ x ∈ all, slabBlock x ∈ blocks
  nodup : all.Nodup

/-- The lists in memory. -/
structure ListsOk (words : Nat → Nat) (h : Heap) (g : Shape) : Prop where
  slabs : Linked words h.counted.slabs g.slabs
  arenaSlabs : Linked words h.arena.slabs g.arenaSlabs
  freeSlabs : Linked words h.arenaFreeSlabs g.freeSlabs
  free : ∀ cls < wokNumClasses, Linked words (h.freelist cls) (g.free cls)

/-- The counted region and the large cells. -/
structure CountedOk (blocks : List Block) (all slabs : List Nat) (ptr stop : Nat)
    (cells : List (Nat × Status)) (free : Nat → List Nat) (carved : List Block) : Prop where
  frontier : Frontier slabs ptr stop
  separate : Separate carved
  behind : ∀ b ∈ carved, Behind slabs ptr stop b
  pos : ∀ b ∈ carved, 0 < b.size ∧ b.base % 8 = 0
  freeCarved : ∀ cls < wokNumClasses, ∀ p ∈ free cls, ⟨p, 8 + 8 * cls⟩ ∈ carved
  freeNodup : ∀ cls < wokNumClasses, (free cls).Nodup
  small : ∀ {i p rc : Nat} {k : Kind}, cells[i]? = some (p, Status.counted k rc) →
    k.cls < wokNumClasses →
    ⟨p, k.size⟩ ∈ carved ∧ p ∉ free k.cls
  large : ∀ {i p rc : Nat} {k : Kind}, cells[i]? = some (p, Status.counted k rc) →
    wokNumClasses ≤ k.cls →
    ⟨p, k.size⟩ ∈ blocks ∧ p ∉ all
  inj : ∀ {i j p rc rc' : Nat} {k k' : Kind}, cells[i]? = some (p, Status.counted k rc) →
    cells[j]? = some (p, Status.counted k' rc') → i = j

/-- The frontier saved when the scope of depth `d` was opened. -/
structure FrameOk (arenaSlabs : List Nat) (saved : Nat → List Nat)
    (cells : List (Nat × Status)) (d : Nat) (f : ArenaFrame) : Prop where
  suffix : saved d <:+ arenaSlabs
  below : ∀ e ≤ d, saved e <:+ saved d
  head : f.slabAtOpen = (saved d).headD 0
  frontier : Frontier (saved d) f.bumpPtrSave f.bumpEndSave
  cell : ∀ {i p tag arity scope : Nat}, cells[i]? = some (p, Status.arena tag arity scope) →
    scope < d → Behind (saved d) f.bumpPtrSave f.bumpEndSave ⟨p, 8 + 8 * arity⟩

/-- The arena region. -/
structure ArenaOk (arenaSlabs : List Nat) (ptr stop depth : Nat) (stack : Nat → ArenaFrame)
    (saved : Nat → List Nat) (cells : List (Nat × Status)) : Prop where
  frontier : Frontier arenaSlabs ptr stop
  cell : ∀ {i p tag arity scope : Nat}, cells[i]? = some (p, Status.arena tag arity scope) →
    scope < depth ∧ p % 8 = 0 ∧ Behind arenaSlabs ptr stop ⟨p, 8 + 8 * arity⟩
  apart : ∀ {i j p q tag arity scope tag' arity' scope' : Nat},
    cells[i]? = some (p, Status.arena tag arity scope) →
    cells[j]? = some (q, Status.arena tag' arity' scope') → i ≠ j →
    Block.Apart ⟨p, 8 + 8 * arity⟩ ⟨q, 8 + 8 * arity'⟩
  frame : ∀ d < depth, FrameOk arenaSlabs saved cells d (stack d)

/-- The memory is divided as the shape says. -/
structure Places (s : State Heap) (g : Shape) : Prop where
  blocks : BlocksOk s.mem.blocks g.allSlabs
  lists : ListsOk s.mem.words s.heap g
  counted : CountedOk s.mem.blocks g.allSlabs g.slabs s.heap.counted.bumpPtr
    s.heap.counted.bumpEnd g.cells g.free g.carved
  arena : ArenaOk g.arenaSlabs s.heap.arena.bumpPtr s.heap.arena.bumpEnd s.heap.arenaDepth
    s.heap.arenaStack g.saved g.cells

variable {s : State Heap} {g : Shape} {i j : Option Nat} {a p x : Nat} {b c : Block}

/-! ### Slabs -/

theorem slabBody_within (x : Nat) : (slabBody x).Within (slabBlock x) := by
  constructor <;> simp only [slabBody, slabBlock, wokGranule, wokArenaSize] <;> omega

theorem BlocksOk.slab_apart {blocks : List Block} {all : List Nat} {y : Nat}
    (h : BlocksOk blocks all) (hx : x ∈ all) (hy : y ∈ all) (hne : x ≠ y) :
    (slabBlock x).Apart (slabBlock y) := by
  apply h.separate.apart (h.slab x hx) (h.slab y hy)
  intro heq
  exact hne (congrArg Block.base heq)

/-- A byte after the link of a slab is not where the link of a slab is. -/
theorem BlocksOk.not_mem_of_body {blocks : List Block} {all : List Nat}
    (h : BlocksOk blocks all) (hx : x ∈ all) (ha : (slabBody x).Has a) : a ∉ all := by
  intro hall
  by_cases hax : a = x
  · simp only [slabBody, Block.Has, wokGranule] at ha
    omega
  · apply (h.slab_apart hx hall (Ne.symm hax)).not_has (ha.of_within (slabBody_within x))
    exact ⟨Nat.le_refl a, by simp only [slabBlock, wokArenaSize]; omega⟩

/-- Nor is a byte of a block that is not a slab. -/
theorem BlocksOk.not_mem_of_block {blocks : List Block} {all : List Nat}
    (h : BlocksOk blocks all) (hb : b ∈ blocks) (hall : b.base ∉ all) (ha : b.Has a) :
    a ∉ all := by
  intro hmem
  have hne : b ≠ slabBlock a := by
    rintro rfl
    exact hall hmem
  apply (h.separate.apart hb (h.slab a hmem) hne).not_has ha
  exact ⟨Nat.le_refl a, by simp only [slabBlock, wokArenaSize]; omega⟩

theorem Behind.mono {slabs slabs' : List Nat} {ptr stop ptr' stop' : Nat}
    (h : Behind slabs ptr stop b) (hsub : ∀ x ∈ slabs, x ∈ slabs')
    (happ : b.Apart ⟨ptr', stop' - ptr'⟩) : Behind slabs' ptr' stop' b := by
  rcases h with ⟨⟨x, hx, hin⟩, -⟩
  exact ⟨⟨x, hsub x hx, hin⟩, happ⟩

namespace Places

theorem mem_slabs (hx : x ∈ g.slabs) : x ∈ g.allSlabs :=
  List.mem_append_left _ hx

theorem mem_arenaSlabs (hx : x ∈ g.arenaSlabs) : x ∈ g.allSlabs :=
  List.mem_append_right _ (List.mem_append_left _ hx)

theorem mem_freeSlabs (hx : x ∈ g.freeSlabs) : x ∈ g.allSlabs :=
  List.mem_append_right _ (List.mem_append_right _ hx)

theorem slabs_ne_arena {y : Nat} (h : Places s g) (hx : x ∈ g.slabs) (hy : y ∈ g.arenaSlabs) :
    x ≠ y := by
  have hnodup := h.blocks.nodup
  rw [Shape.allSlabs, List.nodup_append] at hnodup
  exact hnodup.2.2 x hx y (List.mem_append_left _ hy)

end Places

/-! ### Owned ranges -/

/-- The range is in use by the counted or arena cell `i`, or taken by no cell at all. -/
inductive Owned (s : State Heap) (g : Shape) (i : Option Nat) (b : Block) : Prop where
  | small (hb : b ∈ g.carved) (hfree : ∀ cls < wokNumClasses, b.base ∉ g.free cls)
      (hlive : ∀ (j : Nat) (k : Kind) (rc : Nat), some j ≠ i →
        g.cells[j]? ≠ some (b.base, .counted k rc))
  | large (hb : b ∈ s.mem.blocks) (hslab : b.base ∉ g.allSlabs)
      (hlive : ∀ (j : Nat) (k : Kind) (rc : Nat), some j ≠ i →
        g.cells[j]? ≠ some (b.base, .counted k rc))
  | arena (hb : ∃ x ∈ g.arenaSlabs, b.Within (slabBody x))
      (hlive : ∀ j p tag arity scope : Nat, some j ≠ i →
        g.cells[j]? = some (p, .arena tag arity scope) → b.Apart ⟨p, 8 + 8 * arity⟩)

namespace CountedOk

variable {blocks carved : List Block} {all slabs : List Nat} {ptr stop : Nat}
  {cells : List (Nat × Status)} {free : Nat → List Nat}

/-- A cell cut from the slabs is on the free list of one class at most. -/
theorem free_unique {cls cls' : Nat} (h : CountedOk blocks all slabs ptr stop cells free carved)
    (hcls : cls < wokNumClasses) (hcls' : cls' < wokNumClasses) (hp : p ∈ free cls)
    (hp' : p ∈ free cls') : cls = cls' := by
  have heq := h.separate.eq_of_base (h.freeCarved cls hcls p hp) (h.freeCarved cls' hcls' p hp')
    (by simp only; omega) (by simp only; omega) rfl
  have hsize := congrArg Block.size heq
  simp only at hsize
  omega

/-- A live cell is on no free list. -/
theorem not_free {i cls rc : Nat} {k : Kind}
    (h : CountedOk blocks all slabs ptr stop cells free carved)
    (hi : cells[i]? = some (p, .counted k rc)) (hk : k.cls < wokNumClasses)
    (hcls : cls < wokNumClasses) : p ∉ free cls := by
  intro hp
  rcases h.small hi hk with ⟨hcarved, hnot⟩
  have heq := h.separate.eq_of_base hcarved (h.freeCarved cls hcls p hp) k.size_pos
    (by simp only; omega) rfl
  have hsize := congrArg Block.size heq
  have hk' := k.size_eq
  simp only at hsize
  have hkcls : k.cls = cls := by omega
  exact hnot (hkcls ▸ hp)

end CountedOk

/-- A cell that is there owns its range. -/
theorem Places.owned {n : Nat} {st : Status} (h : Places s g)
    (hn : g.cells[n]? = some (p, st)) (hb : st.block p = some b) : Owned s g (some n) b := by
  cases st with
  | counted k rc =>
      obtain rfl : (⟨p, k.size⟩ : Block) = b := Option.some.inj hb
      have hlive : ∀ j k' rc', some j ≠ some n → g.cells[j]? ≠ some (p, .counted k' rc') := by
        intro j k' rc' hne hj
        exact hne (congrArg some (h.counted.inj hj hn))
      rcases Nat.lt_or_ge k.cls wokNumClasses with hk | hk
      · exact .small (h.counted.small hn hk).1 (fun cls hcls => h.counted.not_free hn hk hcls)
          hlive
      · exact .large (h.counted.large hn hk).1 (h.counted.large hn hk).2 hlive
  | arena tag arity scope =>
      obtain rfl : (⟨p, 8 + 8 * arity⟩ : Block) = b := Option.some.inj hb
      apply Owned.arena (h.arena.cell hn).2.2.1
      intro j q tag' arity' scope' hne hj
      exact h.arena.apart hn hj fun heq => hne (congrArg some heq.symm)
  | freed k => cases hb
  | closed => cases hb

/-- The slab or the block of its own that a range is in. -/
theorem Owned.host (h : Places s g) (ho : Owned s g i b) :
    (∃ x ∈ g.slabs, b.Within (slabBody x) ∧ b ∈ g.carved) ∨
      (b ∈ s.mem.blocks ∧ b.base ∉ g.allSlabs) ∨
      ∃ x ∈ g.arenaSlabs, b.Within (slabBody x) := by
  cases ho with
  | small hb =>
      rcases (h.counted.behind b hb).1 with ⟨x, hx, hin⟩
      exact .inl ⟨x, hx, hin, hb⟩
  | large hb hslab => exact .inr (.inl ⟨hb, hslab⟩)
  | arena hb => exact .inr (.inr hb)

/-- The address is that of no list node, and of no cell but `i`. -/
structure Loose (g : Shape) (i : Option Nat) (a : Nat) : Prop where
  slab : a ∉ g.allSlabs
  free : ∀ cls < wokNumClasses, a ∉ g.free cls
  cell : ∀ {j p : Nat} {st : Status} {b : Block}, some j ≠ i →
    g.cells[j]? = some (p, st) → st.block p = some b → ¬ b.Has a

/-- A range in a slab is apart from a block that is not a slab. -/
theorem Places.apart_block (h : Places s g) (hx : x ∈ g.allSlabs) (hb : b.Within (slabBody x))
    (hc : c ∈ s.mem.blocks) (hslab : c.base ∉ g.allSlabs) : b.Apart c := by
  have hne : slabBlock x ≠ c := by
    rintro rfl
    exact hslab hx
  exact (h.blocks.separate.apart (h.blocks.slab x hx) hc hne).mono
    (hb.trans (slabBody_within x)) (.refl c)

/-- Ranges in a slab of the counted region and in a slab of the arena are apart. -/
theorem Places.apart_arena {y : Nat} (h : Places s g) (hx : x ∈ g.slabs)
    (hb : b.Within (slabBody x)) (hy : y ∈ g.arenaSlabs) (hc : c.Within (slabBody y)) :
    b.Apart c :=
  (h.blocks.slab_apart (Places.mem_slabs hx) (Places.mem_arenaSlabs hy)
    (h.slabs_ne_arena hx hy)).mono (hb.trans (slabBody_within x)) (hc.trans (slabBody_within y))

/-- The range of a cell is apart from every range that the cell does not own. -/
theorem Owned.apart {n : Nat} {st : Status} (h : Places s g) (ho : Owned s g i b)
    (hn : g.cells[n]? = some (p, st)) (hc : st.block p = some c) (hne : some n ≠ i) :
    b.Apart c := by
  have hown := h.owned hn hc
  cases ho with
  | small hb hfree hlive =>
      rcases (h.counted.behind b hb).1 with ⟨x, hx, hin⟩
      rcases hown.host h with ⟨y, hy, hin', hcarved⟩ | ⟨hc', hslab⟩ | ⟨y, hy, hin'⟩
      · apply h.counted.separate.apart hb hcarved
        rintro rfl
        cases st with
        | counted k rc =>
            obtain rfl : (⟨p, k.size⟩ : Block) = b := Option.some.inj hc
            exact hlive n k rc hne hn
        | arena tag arity scope =>
            obtain rfl : (⟨p, 8 + 8 * arity⟩ : Block) = b := Option.some.inj hc
            rcases (h.arena.cell hn).2.2.1 with ⟨z, hz, hin''⟩
            have happ := h.apart_arena hy hin' hz hin''
            exact happ.base_ne (by simp only; omega) (by simp only; omega) rfl
        | freed k => cases hc
        | closed => cases hc
      · exact h.apart_block (Places.mem_slabs hx) hin hc' hslab
      · exact h.apart_arena hx hin hy hin'
  | large hb hslab hlive =>
      rcases hown.host h with ⟨y, hy, hin', -⟩ | ⟨hc', hslab'⟩ | ⟨y, hy, hin'⟩
      · exact (h.apart_block (Places.mem_slabs hy) hin' hb hslab).symm
      · apply h.blocks.separate.apart hb hc'
        rintro rfl
        cases st with
        | counted k rc =>
            obtain rfl : (⟨p, k.size⟩ : Block) = b := Option.some.inj hc
            exact hlive n k rc hne hn
        | arena tag arity scope =>
            obtain rfl : (⟨p, 8 + 8 * arity⟩ : Block) = b := Option.some.inj hc
            rcases (h.arena.cell hn).2.2.1 with ⟨z, hz, hin''⟩
            have happ := h.apart_block (Places.mem_arenaSlabs hz) hin'' hb hslab
            exact happ.base_ne (by simp only; omega) (by simp only; omega) rfl
        | freed k => cases hc
        | closed => cases hc
      · exact (h.apart_block (Places.mem_arenaSlabs hy) hin' hb hslab).symm
  | arena hb hlive =>
      rcases hb with ⟨x, hx, hin⟩
      cases st with
      | counted k rc =>
          rcases hown.host h with ⟨y, hy, hin', -⟩ | ⟨hc', hslab⟩ | ⟨y, hy, hin'⟩
          · exact (h.apart_arena hy hin' hx hin).symm
          · exact h.apart_block (Places.mem_arenaSlabs hx) hin hc' hslab
          · obtain rfl : (⟨p, k.size⟩ : Block) = c := Option.some.inj hc
            rcases Nat.lt_or_ge k.cls wokNumClasses with hk | hk
            · rcases (h.counted.behind _ (h.counted.small hn hk).1).1 with ⟨z, hz, hin''⟩
              exact (h.apart_arena hz hin'' hx hin).symm
            · exact h.apart_block (Places.mem_arenaSlabs hx) hin (h.counted.large hn hk).1
                (h.counted.large hn hk).2
      | arena tag arity scope =>
          obtain rfl : (⟨p, 8 + 8 * arity⟩ : Block) = c := Option.some.inj hc
          exact hlive n p tag arity scope hne hn
      | freed k => cases hc
      | closed => cases hc

/-- No list goes through an owned range, and no other cell is in it. -/
theorem Owned.loose (h : Places s g) (ho : Owned s g i b) (ha : b.Has a) : Loose g i a where
  slab := by
    rcases ho.host h with ⟨x, hx, hin, -⟩ | ⟨hb, hslab⟩ | ⟨x, hx, hin⟩
    · exact h.blocks.not_mem_of_body (Places.mem_slabs hx) (ha.of_within hin)
    · exact h.blocks.not_mem_of_block hb hslab ha
    · exact h.blocks.not_mem_of_body (Places.mem_arenaSlabs hx) (ha.of_within hin)
  free := by
    intro cls hcls hmem
    have hcarved := h.counted.freeCarved cls hcls a hmem
    have hhas : (⟨a, 8 + 8 * cls⟩ : Block).Has a := ⟨Nat.le_refl a, by simp only; omega⟩
    cases ho with
    | small hb hfree hlive =>
        by_cases heq : b = ⟨a, 8 + 8 * cls⟩
        · subst heq
          exact hfree cls hcls hmem
        · exact (h.counted.separate.apart hb hcarved heq).not_has ha hhas
    | large hb hslab hlive =>
        rcases (h.counted.behind _ hcarved).1 with ⟨x, hx, hin⟩
        exact (h.apart_block (Places.mem_slabs hx) hin hb hslab).not_has hhas ha
    | arena hb hlive =>
        rcases hb with ⟨x, hx, hin⟩
        rcases (h.counted.behind _ hcarved).1 with ⟨y, hy, hin'⟩
        exact (h.apart_arena hy hin' hx hin).not_has hhas ha
  cell := fun hne hn hc => (ho.apart h hn hc hne).not_has ha

/-- Two cells that are there do not overlap. -/
theorem Places.apart {m n q : Nat} {st st' : Status} (h : Places s g)
    (hm : g.cells[m]? = some (p, st)) (hn : g.cells[n]? = some (q, st')) (hne : m ≠ n)
    (hb : st.block p = some b) (hc : st'.block q = some c) : b.Apart c :=
  (h.owned hm hb).apart h hn hc fun heq => hne (Option.some.inj heq).symm

/-! ### Changes of memory -/

section Agree

variable {m : Memory} {words : Nat → Nat}

/-- Nothing else changes when words change in an owned range only. -/
theorem Places.agree (h : Places s g) (ho : Owned s g i b) (hblocks : m.blocks = s.mem.blocks)
    (hwords : ∀ x, ¬ b.Has x → m.words x = s.mem.words x) : Places ⟨s.heap, m⟩ g := by
  refine ⟨hblocks ▸ h.blocks, ⟨?_, ?_, ?_, ?_⟩, hblocks ▸ h.counted, h.arena⟩
  · exact h.lists.slabs.congr fun q hq => hwords q fun hb =>
      (ho.loose h hb).slab (mem_slabs hq)
  · exact h.lists.arenaSlabs.congr fun q hq => hwords q fun hb =>
      (ho.loose h hb).slab (mem_arenaSlabs hq)
  · exact h.lists.freeSlabs.congr fun q hq => hwords q fun hb =>
      (ho.loose h hb).slab (mem_freeSlabs hq)
  · exact fun cls hcls => (h.lists.free cls hcls).congr fun q hq => hwords q fun hb =>
      (ho.loose h hb).free cls hcls hq

theorem Owned.held {n : Nat} {st : Status} (h : Places s g) (ho : Owned s g i b)
    (hheld : AllHeld s.mem.words g.cells) (hwords : ∀ x, ¬ b.Has x → words x = s.mem.words x)
    (hn : g.cells[n]? = some (p, st)) (hne : some n ≠ i) : Held words p st := by
  apply (hheld n p st hn).congr
  intro c hc x hx
  exact hwords x fun hb => (ho.apart h hn hc hne).not_has hb hx

/-- The link of a slab is in no cell. -/
theorem Places.held_slab {w : Nat} (h : Places s g) (hheld : AllHeld words g.cells)
    (hx : x ∈ g.allSlabs) : AllHeld (Function.update words x w) g.cells := by
  intro n p st hn
  apply (hheld n p st hn).write
  intro c hc hc'
  exact ((h.owned hn hc).loose h hc').slab hx

/-- The counters have no part in the division of memory. -/
theorem Places.counters {c : Counters} (h : Places s g) (hd : c.arenaDepth = s.heap.arenaDepth) :
    Places ⟨{ s.heap with toCounters := c }, s.mem⟩ g := by
  refine ⟨h.blocks, ⟨h.lists.slabs, h.lists.arenaSlabs, h.lists.freeSlabs, h.lists.free⟩,
    h.counted, ?_⟩
  have harena := h.arena
  rw [← hd] at harena
  exact harena

end Agree

end Wok.Runtime.Slab
