/-
Module: Wok.Proofs.RcMallocRuns
Purpose: The malloc build follows the ledger too, call by call and so along every run.
Imports: Wok.Proofs.Accessors, Wok.Proofs.Tallies
Trusted boundary: none
Main exports: rawBlock, Blocks, Chains, Sound, freeChain_spec, Agrees, agrees_start,
  malloc_refines
-/
import Wok.Proofs.Accessors
import Wok.Proofs.Tallies

namespace Wok.Runtime.RcMalloc

open Wok.Lib

variable {M : Malloc} {s s' : State Heap} {addrs : List Nat} {L : Ledger}
  {cells cells' : List (Nat × Status)} {chain : Nat → List Nat} {i j p q rc rc' : Nat}
  {k k' : Kind} {st st' : Status} {b r : Block} {blocks blocks' : List Block} {m : Memory}
  {words words' : Nat → Nat} {tag arity depth : Nat} {e : Abort}

/-! ### Blocks -/

/-- The block that a live cell was got in; one of the arena has a hidden word in front. -/
def rawBlock (p : Nat) : Status → Option Block
  | .counted k _ => some ⟨p, k.size⟩
  | .arena _ arity _ => some ⟨p - 8, 16 + 8 * arity⟩
  | _ => none

/-- Every live cell has a block of its own. -/
structure Blocks (blocks : List Block) (cells : List (Nat × Status)) : Prop where
  separate : Separate blocks
  pos : ∀ b ∈ blocks, 0 < b.size ∧ b.base ≠ 0
  mem : ∀ {i p : Nat} {st : Status} {b : Block}, cells[i]? = some (p, st) →
    rawBlock p st = some b → b ∈ blocks
  inj : ∀ {i j p q : Nat} {st st' : Status} {b : Block}, cells[i]? = some (p, st) →
    cells[j]? = some (q, st') → rawBlock p st = some b → rawBlock q st' = some b → i = j

namespace Blocks

theorem apart {c : Block} (h : Blocks blocks cells) (hi : cells[i]? = some (p, st))
    (hj : cells[j]? = some (q, st')) (hb : rawBlock p st = some b) (hc : rawBlock q st' = some c)
    (hne : i ≠ j) : b.Apart c := by
  apply h.separate.apart (h.mem hi hb) (h.mem hj hc)
  rintro rfl
  exact hne (h.inj hi hj hb hc)

/-- Blocks that start at one address are those of one cell. -/
theorem eq_of_base {c : Block} (h : Blocks blocks cells) (hi : cells[i]? = some (p, st))
    (hj : cells[j]? = some (q, st')) (hb : rawBlock p st = some b) (hc : rawBlock q st' = some c)
    (hbase : b.base = c.base) : i = j := by
  have hbc := h.separate.eq_of_base (h.mem hi hb) (h.mem hj hc) (h.pos b (h.mem hi hb)).1
    (h.pos c (h.mem hj hc)).1 hbase
  exact h.inj hi hj hb (hbc ▸ hc)

/-- A cell in a block that `malloc` just gave. -/
theorem add {n x : Nat} (h : Blocks m.blocks cells) (hx : M.pick m n = some x) (hn : 0 < n)
    (hp : rawBlock p st = some ⟨x, n⟩) :
    Blocks (withBlock x n m).blocks (cells ++ [(p, st)]) := by
  have hnew : ∀ {j q : Nat} {st' : Status}, cells[j]? = some (q, st') →
      rawBlock q st' ≠ some ⟨x, n⟩ := by
    intro j q st' hj hb
    exact (M.fresh hx _ (h.mem hj hb)).base_ne hn hn rfl
  constructor
  · exact List.pairwise_cons.mpr ⟨M.fresh hx, h.separate⟩
  · intro b hb
    rcases List.mem_cons.mp hb with rfl | hb
    · exact ⟨hn, M.pos hx⟩
    · exact h.pos b hb
  · intro i q st' b hi hb
    rcases getElem?_concat_cases hi with hi | ⟨-, heq⟩
    · exact List.mem_cons_of_mem _ (h.mem hi hb)
    · cases heq
      rw [hp] at hb
      cases hb
      exact List.mem_cons_self
  · intro i j q q' st₁ st₂ b hi hj hb hc
    rcases getElem?_concat_cases hi with hi | ⟨rfl, heq⟩
    · rcases getElem?_concat_cases hj with hj | ⟨rfl, heq⟩
      · exact h.inj hi hj hb hc
      · cases heq
        rw [hp] at hc
        cases hc
        exact absurd hb (hnew hi)
    · cases heq
      rw [hp] at hb
      cases hb
      rcases getElem?_concat_cases hj with hj | ⟨rfl, -⟩
      · exact absurd hc (hnew hj)
      · rfl

/-- Cells that are live are where they were, and their blocks are still held. -/
theorem keep (h : Blocks blocks cells) (hsub : List.Sublist blocks' blocks)
    (hcells : ∀ (j q : Nat) (st : Status) (b : Block), cells'[j]? = some (q, st) →
      rawBlock q st = some b →
      (∃ st', cells[j]? = some (q, st') ∧ rawBlock q st' = some b) ∧ b ∈ blocks') :
    Blocks blocks' cells' where
  separate := h.separate.sublist hsub
  pos := fun b hb => h.pos b (hsub.subset hb)
  mem := fun hi hb => (hcells _ _ _ _ hi hb).2
  inj := by
    intro i j p q st st' b hi hj hb hc
    rcases hcells i p st b hi hb with ⟨⟨st₁, hi', hb'⟩, -⟩
    rcases hcells j q st' b hj hc with ⟨⟨st₂, hj', hc'⟩, -⟩
    exact h.inj hi' hj' hb' hc'

end Blocks

/-- The range of a live cell is a part of its block. -/
theorem block_within (hr : st.block p = some r) (hb : rawBlock p st = some b) :
    r.Within b := by
  cases st with
  | counted k rc =>
      cases hr
      cases hb
      exact .refl _
  | arena tag arity scope =>
      cases hr
      cases hb
      constructor <;> simp only <;> omega
  | freed k => cases hr
  | closed => cases hr

theorem rawBlock_of_block (hr : st.block p = some r) : ∃ b, rawBlock p st = some b := by
  cases st with
  | counted k rc => exact ⟨_, rfl⟩
  | arena tag arity scope => exact ⟨_, rfl⟩
  | freed k => cases hr
  | closed => cases hr

/-! ### Chains -/

/-- The cells of each open scope are linked through their hidden words. -/
structure Chains (words : Nat → Nat) (stack : Nat → ArenaFrame) (depth : Nat)
    (cells : List (Nat × Status)) (chain : Nat → List Nat) : Prop where
  link : ∀ d < depth, Linked (fun q => words (q - 8)) (stack d).chainHead (chain d)
  nodup : ∀ d < depth, (chain d).Nodup
  mem : ∀ d < depth, ∀ q ∈ chain d, ∃ i tag arity : Nat,
    cells[i]? = some (q, Status.arena tag arity d)
  cell : ∀ {i q tag arity d : Nat}, cells[i]? = some (q, Status.arena tag arity d) →
    d < depth ∧ q ∈ chain d

/-- The hidden word of a cell of the arena is in its block, in front of the cell. -/
theorem Blocks.hidden {d : Nat} (h : Blocks blocks cells)
    (hi : cells[i]? = some (q, .arena tag arity d)) :
    8 < q ∧ (⟨q - 8, 16 + 8 * arity⟩ : Block).Has (q - 8) := by
  have hpos := (h.pos _ (h.mem hi rfl)).2
  simp only at hpos
  exact ⟨by omega, Nat.le_refl _, by simp only; omega⟩

/-- A range that only the cell `i`, if any, has bytes of, and none of its hidden word. -/
structure Owned (cells : List (Nat × Status)) (i : Option Nat) (r : Block) : Prop where
  other : ∀ {j q : Nat} {st : Status} {b : Block}, some j ≠ i → cells[j]? = some (q, st) →
    rawBlock q st = some b → r.Apart b
  hidden : ∀ {j q tag arity d : Nat}, cells[j]? = some (q, Status.arena tag arity d) → some j = i →
    ¬ r.Has (q - 8)

theorem Blocks.owned (h : Blocks blocks cells) (hi : cells[i]? = some (p, st))
    (hr : st.block p = some r) : Owned cells (some i) r where
  other := by
    intro j q st' b hne hj hb
    rcases rawBlock_of_block hr with ⟨c, hc⟩
    have hne' : i ≠ j := fun heq => hne (congrArg some heq.symm)
    exact (h.apart hi hj hc hb hne').mono (block_within hr hc) (.refl b)
  hidden := by
    intro j q tag arity d hj heq
    obtain rfl : j = i := Option.some.inj heq
    rw [hi] at hj
    cases hj
    cases hr
    have hpos := (h.hidden hi).1
    simp only [Block.Has]
    omega

/-- A new block is owned by no cell yet. -/
theorem Blocks.owned_new {n x : Nat} (h : Blocks m.blocks cells) (hx : M.pick m n = some x)
    (hr : r.Within ⟨x, n⟩) : Owned cells none r where
  other := fun _ hj hb => (M.fresh hx _ (h.mem hj hb)).mono hr (.refl _)
  hidden := nofun

section Words

variable {owner : Option Nat} {stack : Nat → ArenaFrame}

/-- What changes in an owned range changes no chain. -/
theorem Chains.congr (h : Chains words stack depth cells chain) (hblocks : Blocks blocks cells)
    (ho : Owned cells owner r) (hwords : ∀ x, ¬ r.Has x → words' x = words x) :
    Chains words' stack depth cells chain where
  link := by
    intro d hd
    apply (h.link d hd).congr
    intro q hq
    apply hwords
    rcases h.mem d hd q hq with ⟨j, tag, arity, hj⟩
    by_cases hown : some j = owner
    · exact ho.hidden hj hown
    · intro hr
      exact (ho.other hown hj rfl).not_has hr (hblocks.hidden hj).2
  nodup := h.nodup
  mem := h.mem
  cell := h.cell

theorem Owned.held (ho : Owned cells owner r) (hheld : AllHeld words cells)
    (hwords : ∀ x, ¬ r.Has x → words' x = words x) (hj : cells[j]? = some (q, st))
    (hne : some j ≠ owner) : Held words' q st := by
  apply (hheld j q st hj).congr
  intro c hc x hx
  apply hwords
  intro hr
  rcases rawBlock_of_block hc with ⟨b, hb⟩
  exact (ho.other hne hj hb).not_has hr (hx.of_within (block_within hc hb))

/-- A counted cell among the cells, or one in another's place, changes no chain. -/
theorem Chains.recast (h : Chains words stack depth cells chain)
    (hcells : ∀ {j q tag arity d : Nat}, cells'[j]? = some (q, Status.arena tag arity d) ↔
      cells[j]? = some (q, Status.arena tag arity d)) :
    Chains words stack depth cells' chain where
  link := h.link
  nodup := h.nodup
  mem := by
    intro d hd q hq
    rcases h.mem d hd q hq with ⟨j, tag, arity, hj⟩
    exact ⟨j, tag, arity, hcells.mpr hj⟩
  cell := fun hj => h.cell (hcells.mp hj)

end Words

/-! ### A heap that agrees with the ledger -/

structure Sound (s : State Heap) (addrs : List Nat) (L : Ledger) (cells : List (Nat × Status))
    (chain : Nat → List Nat) : Prop where
  addrs : addrs = cells.map Prod.fst
  statuses : L.cells = cells.map Prod.snd
  blocks : Blocks s.mem.blocks cells
  chains : Chains s.mem.words s.heap.arenaStack L.depth cells chain
  held : AllHeld s.mem.words cells
  tallies : Tallies s.heap.toCounters L
  frames : ∀ d < L.depth,
    (s.heap.arenaStack d).arenaBytesBefore = L.total (Status.scopeBytes d)

namespace Sound

theorem length (h : Sound s addrs L cells chain) : addrs.length = L.cells.length := by
  rw [h.addrs, h.statuses, List.length_map, List.length_map]

theorem status (h : Sound s addrs L cells chain) (hi : cells[i]? = some (p, st)) :
    L.cells[i]? = some st := by
  rw [h.statuses, List.getElem?_map, hi]
  rfl

/-- The address of a cell of the program. -/
theorem client_cell {c : Client Heap} (h : Sound c.st c.cells L cells chain)
    (hi : L.cells[i]? = some st) : ∃ p, c.cell i = .ok p ∧ cells[i]? = some (p, st) := by
  rw [h.statuses, List.getElem?_map, Option.map_eq_some_iff] at hi
  rcases hi with ⟨⟨p, st'⟩, hi, rfl⟩
  refine ⟨p, ?_, hi⟩
  have hp : c.cells[i]? = some p := by
    rw [h.addrs, List.getElem?_map, hi]
    rfl
  simp only [Client.cell, hp]

theorem set_addrs (h : Sound s addrs L cells chain) (hi : cells[i]? = some (p, st)) :
    addrs = (cells.set i (p, st')).map Prod.fst := by
  rw [List.map_set, h.addrs]
  refine (set_eq_self ?_).symm
  rw [List.getElem?_map, hi]
  rfl

theorem set_statuses (h : Sound s addrs L cells chain) :
    (L.set i st).cells = (cells.set i (p, st)).map Prod.snd := by
  have hset : (L.set i st).cells = L.cells.set i st := rfl
  rw [hset, List.map_set, h.statuses]

/-- The cells of the arena when a counted cell changed. -/
theorem arena_set {stack : Nat → ArenaFrame} (h : Chains words stack depth cells chain)
    (hi : cells[i]? = some (p, .counted k rc)) (hst : ∀ d, st.scopeBytes d = 0) :
    Chains words stack depth (cells.set i (p, st)) chain := by
  apply h.recast
  intro j q tag arity d
  constructor
  · exact arena_of_set (hst _)
  · intro hj
    have hne : i ≠ j := by
      rintro rfl
      rw [hi] at hj
      cases hj
    rw [List.getElem?_set_ne hne, hj]

/-! ### Counted cells -/

/-- A new cell. -/
theorem alloc {r : Request} (h : Sound s addrs L cells chain) (hok : r.Ok)
    (hr : r.overflow = none) (hp : M.pick s.mem r.kind.size = some p) :
    Sound ⟨{ s.heap with toCounters :=
        ((s.heap.toCounters.recordAlloc r.kind.size).physAdd r.kind.size).logicalMark },
      stampCell p r (withBlock p r.kind.size s.mem)⟩ (addrs ++ [p]) (L.addCounted r.kind)
      (cells ++ [(p, .counted r.kind 1)]) chain := by
  have hwords : ∀ x, ¬ (Block.mk p r.kind.size).Has x →
      (stampCell p r (withBlock p r.kind.size s.mem)).words x = s.mem.words x :=
    fun x hx => stampCell_words_of_not_has hx
  have howned := h.blocks.owned_new hp (.refl ⟨p, r.kind.size⟩)
  constructor
  case addrs => rw [h.addrs, List.map_append]; rfl
  case statuses =>
    have happend : (L.addCounted r.kind).cells = L.cells ++ [Status.counted r.kind 1] := rfl
    rw [happend, h.statuses, List.map_append]
    rfl
  case blocks =>
    simp only [stampCell_blocks]
    exact h.blocks.add hp r.kind.size_pos rfl
  case chains =>
    apply (h.chains.congr h.blocks howned hwords).recast
    intro j q tag arity d
    constructor
    · intro hj
      rcases getElem?_concat_cases hj with hj | ⟨-, heq⟩
      · exact hj
      · cases heq
    · intro hj
      exact (List.getElem?_append_left (List.getElem?_eq_some_iff.mp hj).1).trans hj
  case held =>
    intro n q st hn
    rcases getElem?_concat_cases hn with hn | ⟨-, heq⟩
    · exact howned.held h.held hwords hn nofun
    · cases heq
      exact held_stampCell hok hr
  case tallies => exact (h.tallies.addCounted (k := r.kind)).physAdd
  case frames =>
    intro d hd
    rw [Ledger.total_addCounted]
    exact h.frames d hd

/-- A free. -/
theorem free (h : Sound s addrs L cells chain) (hi : cells[i]? = some (p, .counted k 0)) :
    ∃ s', wokFree p s = .ok s' ∧
      Sound s' addrs { L.set i (.freed k) with frees := L.frees + 1 }
        (cells.set i (p, .freed k)) chain := by
  have hheld := h.held i p _ hi
  simp only [wokFree, hheld.2.1, ne_eq, not_true_eq_false, if_false,
    hheld.2.2.freeBytes hheld.1]
  refine ⟨_, rfl, ?_⟩
  constructor
  case addrs => exact h.set_addrs hi
  case statuses => exact h.set_statuses
  case blocks =>
    apply h.blocks.keep List.filter_sublist
    intro j q st b hj hb
    rcases getElem?_set_cases hj with ⟨-, heq⟩ | ⟨hne, hj⟩
    · cases heq
      cases hb
    · refine ⟨⟨st, hj, hb⟩, Memory.mem_free.mpr ⟨h.blocks.mem hj hb, ?_⟩⟩
      intro hbase
      exact hne (h.blocks.eq_of_base hj hi hb rfl hbase)
  case chains => exact arena_set h.chains hi fun _ => rfl
  case held =>
    intro n q st hn
    rcases getElem?_set_cases hn with ⟨-, heq⟩ | ⟨-, hn⟩
    · cases heq
      trivial
    · exact h.held n q st hn
  case tallies => exact (h.tallies.release (h.status hi)).physSub
  case frames =>
    intro d hd
    have htotal := Ledger.total_set (Status.scopeBytes d) (.freed k) (h.status hi)
    have hframe := h.frames d hd
    have hzero : Status.scopeBytes d (.counted k 0) = 0 := rfl
    have hzero' : Status.scopeBytes d (.freed k) = 0 := rfl
    have hgoal : (s.heap.arenaStack d).arenaBytesBefore =
        (L.set i (.freed k)).total (Status.scopeBytes d) := by omega
    exact hgoal

/-- A counted cell gets another count, or another tag. -/
theorem restamp (h : Sound s addrs L cells chain) (hi : cells[i]? = some (p, .counted k rc))
    (hsize : k'.size = k.size)
    (hin : Inside s.mem m p (.counted k rc) (.counted k' rc')) :
    Sound ⟨s.heap, m⟩ addrs (L.set i (.counted k' rc')) (cells.set i (p, .counted k' rc'))
      chain := by
  have hwords : ∀ x, ¬ (Block.mk p k.size).Has x → m.words x = s.mem.words x := by
    intro x hx
    apply hin.words
    intro b hb
    cases hb
    exact hx
  have howned : Owned cells (some i) ⟨p, k.size⟩ := h.blocks.owned hi rfl
  constructor
  case addrs => exact h.set_addrs hi
  case statuses => exact h.set_statuses
  case blocks =>
    rw [hin.blocks]
    apply h.blocks.keep (List.Sublist.refl _)
    intro j q st b hj hb
    rcases getElem?_set_cases hj with ⟨rfl, heq⟩ | ⟨-, hj⟩
    · cases heq
      have hb' : rawBlock p (.counted k rc) = some b := by
        simp only [rawBlock, hsize] at hb
        exact hb
      exact ⟨⟨_, hi, hb'⟩, h.blocks.mem hi hb'⟩
    · exact ⟨⟨st, hj, hb⟩, h.blocks.mem hj hb⟩
  case chains => exact arena_set (h.chains.congr h.blocks howned hwords) hi fun _ => rfl
  case held =>
    intro n q st hn
    rcases getElem?_set_cases hn with ⟨-, heq⟩ | ⟨hne, hn⟩
    · cases heq
      exact hin.held
    · exact howned.held h.held hwords hn fun heq => hne (Option.some.inj heq)
  case tallies => exact h.tallies.restamp (h.status hi) hsize
  case frames =>
    intro d hd
    have htotal := Ledger.total_set (Status.scopeBytes d) (.counted k' rc') (h.status hi)
    have hframe := h.frames d hd
    have hzero : Status.scopeBytes d (.counted k rc) = 0 := rfl
    have hzero' : Status.scopeBytes d (.counted k' rc') = 0 := rfl
    have hgoal : (s.heap.arenaStack d).arenaBytesBefore =
        (L.set i (.counted k' rc')).total (Status.scopeBytes d) := by omega
    exact hgoal

/-- A write in the body of a cell. -/
theorem write (h : Sound s addrs L cells chain) (hi : cells[i]? = some (p, st))
    (hr : st.block p = some r) (hin : Inside s.mem m p st st) :
    Sound ⟨s.heap, m⟩ addrs L cells chain := by
  have hwords : ∀ x, ¬ r.Has x → m.words x = s.mem.words x := by
    intro x hx
    apply hin.words
    intro b hb
    rw [hr] at hb
    cases hb
    exact hx
  have howned := h.blocks.owned hi hr
  refine ⟨h.addrs, h.statuses, hin.blocks ▸ h.blocks, h.chains.congr h.blocks howned hwords, ?_,
    h.tallies, h.frames⟩
  intro n q st' hn
  by_cases hne : n = i
  · subst hne
    rw [hi] at hn
    cases hn
    exact hin.held
  · exact howned.held h.held hwords hn fun heq => hne (Option.some.inj heq)

/-! ### The arena -/

theorem openScope (h : Sound s addrs L cells chain) (hdepth : ¬ wokArenaMaxDepth ≤ L.depth) :
    ∃ s' chain', wokArenaOpen s = .ok (L.depth, s') ∧
      Sound s' addrs { L with depth := L.depth + 1 } cells chain' := by
  have hd := h.tallies.arenaDepth
  simp only [wokArenaOpen, hd, if_neg hdepth]
  refine ⟨_, Function.update chain L.depth [], rfl, h.addrs, h.statuses, h.blocks, ?_, h.held, ?_,
    ?_⟩
  · constructor
    case link =>
      intro d hlt
      rcases Nat.lt_succ_iff_lt_or_eq.mp hlt with hlt | rfl
      · simp only [Function.update_of_ne (Nat.ne_of_lt hlt)]
        exact h.chains.link d hlt
      · simp only [Function.update_self]
        rfl
    case nodup =>
      intro d hlt
      rcases Nat.lt_succ_iff_lt_or_eq.mp hlt with hlt | rfl
      · rw [Function.update_of_ne (Nat.ne_of_lt hlt)]
        exact h.chains.nodup d hlt
      · rw [Function.update_self]
        exact List.nodup_nil
    case mem =>
      intro d hlt q hq
      rcases Nat.lt_succ_iff_lt_or_eq.mp hlt with hlt | rfl
      · rw [Function.update_of_ne (Nat.ne_of_lt hlt)] at hq
        exact h.chains.mem d hlt q hq
      · rw [Function.update_self] at hq
        cases hq
    case cell =>
      intro i q tag arity d hi
      rcases h.chains.cell hi with ⟨hlt, hq⟩
      refine ⟨Nat.lt_succ_of_lt hlt, ?_⟩
      rwa [Function.update_of_ne (Nat.ne_of_lt hlt)]
  · have hscope := Ledger.scopeBytes_depth h.statuses fun hi => (h.chains.cell hi).1
    have htallies := h.tallies.openScope hscope
    rw [hd] at htallies
    exact htallies
  · intro d hlt
    rcases Nat.lt_succ_iff_lt_or_eq.mp hlt with hlt | rfl
    · simp only [Function.update_of_ne (Nat.ne_of_lt hlt)]
      exact h.frames d hlt
    · simp only [Function.update_self]
      exact h.tallies.arenaBytes

/-- A cell of the innermost scope, in front of the chain of the scope. -/
theorem arenaAlloc {x d : Nat} (h : Sound s addrs L cells chain) (hdepth : L.depth = d + 1)
    (htag : ValidTag tag) (harity : arity < 256)
    (hx : M.pick s.mem (16 + 8 * arity) = some x) :
    Sound ⟨{ s.heap with
        arenaStack := Function.update s.heap.arenaStack d
          { s.heap.arenaStack d with chainHead := x + 8 }
        toCounters := ((s.heap.toCounters.recordArena (wokCellBytes arity)).physAdd
          (16 + 8 * arity)).logicalMark },
      ((withBlock x (16 + 8 * arity) s.mem).write (x + 8) (wokHeader 0 tag arity)).write x
        (s.heap.arenaStack d).chainHead⟩ (addrs ++ [x + 8]) (L.addArena tag arity)
      (cells ++ [(x + 8, .arena tag arity d)])
      (Function.update chain d ((x + 8) :: chain d)) := by
  have hscope : L.depth - 1 = d := by omega
  have hraw : rawBlock (x + 8) (.arena tag arity d) = some ⟨x, 16 + 8 * arity⟩ := rfl
  have howned := h.blocks.owned_new hx (.refl ⟨x, 16 + 8 * arity⟩)
  have hwords : ∀ y, ¬ (Block.mk x (16 + 8 * arity)).Has y →
      (((withBlock x (16 + 8 * arity) s.mem).write (x + 8) (wokHeader 0 tag arity)).write x
        (s.heap.arenaStack d).chainHead).words y = s.mem.words y := by
    intro y hy
    simp only [Block.Has] at hy
    rw [Memory.words_write_of_ne (by omega), Memory.words_write_of_ne (by omega)]
    rfl
  have hchains := h.chains.congr h.blocks howned hwords
  have hnew : x + 8 ∉ chain d := by
    intro hmem
    rcases h.chains.mem d (by omega) _ hmem with ⟨j, tag', arity', hj⟩
    exact (M.fresh hx _ (h.blocks.mem hj rfl)).base_ne (by simp only; omega)
      (by simp only; omega) rfl
  constructor
  case addrs => rw [h.addrs, List.map_append]; rfl
  case statuses =>
    have happend : (L.addArena tag arity).cells =
        L.cells ++ [Status.arena tag arity (L.depth - 1)] := rfl
    rw [happend, h.statuses, List.map_append, hscope]
    rfl
  case blocks => exact h.blocks.add hx (by omega) hraw
  case chains =>
    constructor
    case link =>
      intro e he
      by_cases hed : e = d
      · subst hed
        simp only [Function.update_self]
        refine ⟨rfl, by omega, ?_⟩
        have hword : (((withBlock x (16 + 8 * arity) s.mem).write (x + 8)
            (wokHeader 0 tag arity)).write x (s.heap.arenaStack e).chainHead).words (x + 8 - 8) =
            (s.heap.arenaStack e).chainHead := Memory.words_write_self
        exact Eq.mpr (congrArg (fun w => Linked _ w (chain e)) hword) (hchains.link e he)
      · simp only [Function.update_of_ne hed]
        exact hchains.link e he
    case nodup =>
      intro e he
      by_cases hed : e = d
      · subst hed
        rw [Function.update_self]
        exact List.nodup_cons.mpr ⟨hnew, h.chains.nodup e he⟩
      · rw [Function.update_of_ne hed]
        exact h.chains.nodup e he
    case mem =>
      intro e he q hq
      have hold : q ∈ chain e → ∃ i tag' arity' : Nat,
          (cells ++ [(x + 8, Status.arena tag arity d)])[i]? = some (q, .arena tag' arity' e) := by
        intro hq
        rcases h.chains.mem e he q hq with ⟨i, tag', arity', hi⟩
        exact ⟨i, tag', arity', (List.getElem?_append_left
          (List.getElem?_eq_some_iff.mp hi).1).trans hi⟩
      by_cases hed : e = d
      · subst hed
        rw [Function.update_self] at hq
        rcases List.mem_cons.mp hq with rfl | hq
        · exact ⟨cells.length, tag, arity, List.getElem?_concat_length⟩
        · exact hold hq
      · rw [Function.update_of_ne hed] at hq
        exact hold hq
    case cell =>
      intro i q tag' arity' e hi
      rcases getElem?_concat_cases hi with hi | ⟨-, heq⟩
      · rcases h.chains.cell hi with ⟨hlt, hq⟩
        refine ⟨hlt, ?_⟩
        by_cases hed : e = d
        · subst hed
          rw [Function.update_self]
          exact List.mem_cons_of_mem _ hq
        · rwa [Function.update_of_ne hed]
      · cases heq
        refine ⟨by simp only [Ledger.depth_addArena]; omega, ?_⟩
        rw [Function.update_self]
        exact List.mem_cons_self
  case held =>
    intro n q st hn
    rcases getElem?_concat_cases hn with hn | ⟨-, heq⟩
    · exact howned.held h.held hwords hn (Option.some_ne_none n)
    · cases heq
      have hword : (((withBlock x (16 + 8 * arity) s.mem).write (x + 8)
          (wokHeader 0 tag arity)).write x (s.heap.arenaStack d).chainHead).words (x + 8) =
          wokHeader 0 tag arity :=
        (Memory.words_write_of_ne (by omega)).trans Memory.words_write_self
      refine ⟨harity, ?_, ?_⟩
      · rw [hword, tagOf_wokHeader (by decide)]
        exact Nat.mod_eq_of_lt htag.lt
      · rw [hword, arityOf_wokHeader (by decide)]
        exact Nat.mod_eq_of_lt harity
  case tallies =>
    have htallies : Tallies _ (L.addArena tag arity) := h.tallies.addArena (by omega)
    exact htallies.physAdd
  case frames =>
    intro e he
    have he' : e < L.depth := he
    have hzero : Status.scopeBytes e (.arena tag arity (L.depth - 1)) = 0 := if_neg (by omega)
    have hframe := h.frames e he'
    rw [Ledger.total_addArena, hzero, Nat.add_zero]
    by_cases hed : e = d
    · subst hed
      simp only [Function.update_self]
      exact hframe
    · simp only [Function.update_of_ne hed]
      exact hframe

/-! ### Closing a scope -/

/-- The memory without the blocks of a chain. -/
def freeBlocks (qs : List Nat) (m : Memory) : Memory :=
  { m with blocks := m.blocks.filter fun b => b.base ∉ qs.map (· - 8) }

theorem freeBlocks_cons (qs : List Nat) (m : Memory) :
    freeBlocks (q :: qs) m = freeBlocks qs (m.free (q - 8)) := by
  simp only [freeBlocks, Memory.free, List.filter_filter, List.map_cons, List.mem_cons, not_or]
  congr 1
  apply List.filter_congr
  intro b _
  simp [Bool.and_comm]

/-- One step of the walk. -/
def freeCell (cur : Nat) (s : State Heap) : State Heap :=
  ⟨{ s.heap with
      toCounters := s.heap.toCounters.physSub (8 + wokCellBytes (arityOf (s.mem.words cur))) },
    s.mem.free (cur - 8)⟩

/-- The walk frees the cells of the chain, and no others. -/
theorem freeChain_spec {qs : List Nat} {fuel cur : Nat} (hfuel : qs.length ≤ fuel)
    (hlink : Linked (fun q => s.mem.words (q - 8)) cur qs) :
    ∃ c, freeChain fuel cur s = .ok ⟨{ s.heap with toCounters := c }, freeBlocks qs s.mem⟩ ∧
      ∀ L, Tallies s.heap.toCounters L → Tallies c L := by
  induction qs generalizing fuel cur s with
  | nil =>
      refine ⟨s.heap.toCounters, ?_, fun L ht => ht⟩
      have hzero : cur = 0 := hlink
      have hfilter : freeBlocks [] s.mem = s.mem := by simp [freeBlocks]
      rw [hfilter]
      cases fuel <;> rw [freeChain, if_pos hzero]
  | cons q qs ih =>
      rcases hlink with ⟨rfl, hne, htail⟩
      cases fuel with
      | zero => cases hfuel
      | succ fuel =>
          have hstep : freeChain (fuel + 1) cur s =
              freeChain fuel (s.mem.words (cur - 8)) (freeCell cur s) := by
            rw [freeChain, if_neg hne]
            rfl
          rcases ih (s := freeCell cur s) (Nat.le_of_succ_le_succ hfuel) htail with ⟨c, heq, hc⟩
          refine ⟨c, ?_, fun L ht => hc L ht.physSub⟩
          rw [hstep, heq, freeBlocks_cons]
          rfl

/-- There are no more cells in a chain than blocks. -/
theorem length_chain_le {d : Nat} (h : Sound s addrs L cells chain) (hd : d < L.depth) :
    (chain d).length ≤ s.mem.blocks.length := by
  have hcell : ∀ q ∈ chain d, 8 < q ∧ q - 8 ∈ s.mem.blocks.map Block.base := by
    intro q hq
    rcases h.chains.mem d hd q hq with ⟨i, tag, arity, hi⟩
    exact ⟨(h.blocks.hidden hi).1, List.mem_map.mpr ⟨_, h.blocks.mem hi rfl, rfl⟩⟩
  have hnodup : ((chain d).map (· - 8)).Nodup := by
    apply List.Nodup.map_on _ (h.chains.nodup d hd)
    intro x hx y hy heq
    have hx' := (hcell x hx).1
    have hy' := (hcell y hy).1
    omega
  have hsub : (chain d).map (· - 8) ⊆ s.mem.blocks.map Block.base := by
    intro x hx
    rcases List.mem_map.mp hx with ⟨q, hq, rfl⟩
    exact (hcell q hq).2
  have hle := (List.subperm_of_subset hnodup hsub).length_le
  rwa [List.length_map, List.length_map] at hle

theorem closeScope {d : Nat} (h : Sound s addrs L cells chain) (hd : L.depth = d + 1) :
    ∃ s', wokArenaClose d s = .ok s' ∧
      Sound s' addrs (L.closeFrom d) (cells.map fun c => (c.1, c.2.close d)) chain := by
  have hdepth := h.tallies.arenaDepth
  have hlt : d < L.depth := by omega
  have hframe := h.frames d hlt
  have htallies := h.tallies.closeFrom hd
  rw [← hframe] at htallies
  rcases freeChain_spec (s := ⟨{ s.heap with
      arenaBytes := (s.heap.arenaStack d).arenaBytesBefore
      arenaDepth := s.heap.arenaDepth - 1 }, s.mem⟩) (h.length_chain_le hlt)
    (h.chains.link d hlt) with ⟨c, heq, hc⟩
  have hclose : wokArenaClose d s = .ok ⟨{
      toCounters := c
      arenaStack := Function.update s.heap.arenaStack d
        { s.heap.arenaStack d with chainHead := 0 } }, freeBlocks (chain d) s.mem⟩ := by
    have hhandle : ¬ (s.heap.arenaDepth = 0 ∨ d ≠ s.heap.arenaDepth - 1) := by omega
    simp only [wokArenaClose, if_neg hhandle]
    rw [heq]
    rfl
  -- a live cell of a scope below is in no block of the chain
  have hkept : ∀ {j q : Nat} {st : Status} {b : Block},
      (cells.map fun c => (c.1, c.2.close d))[j]? = some (q, st) → rawBlock q st = some b →
      cells[j]? = some (q, st) ∧ b ∈ (freeBlocks (chain d) s.mem).blocks := by
    intro j q st b hj hb
    have hold : cells[j]? = some (q, st) ∧ ∀ tag arity, st ≠ .arena tag arity d := by
      cases st with
      | counted k rc => exact ⟨counted_of_close hj, nofun⟩
      | arena tag arity scope =>
          rcases arena_of_close hj with ⟨hscope, hj⟩
          refine ⟨hj, ?_⟩
          rintro tag' arity' heq
          cases heq
          exact absurd hscope (Nat.lt_irrefl _)
      | freed k => cases hb
      | closed => cases hb
    refine ⟨hold.1, List.mem_filter.mpr ⟨h.blocks.mem hold.1 hb, decide_eq_true ?_⟩⟩
    intro hmem
    rcases List.mem_map.mp hmem with ⟨q', hq', hbase⟩
    rcases h.chains.mem d hlt q' hq' with ⟨i, tag, arity, hi⟩
    obtain rfl := h.blocks.eq_of_base hi hold.1 rfl hb hbase
    rw [hi] at hold
    exact hold.2 tag arity (Prod.mk.inj (Option.some.inj hold.1)).2.symm
  refine ⟨_, hclose, ?_⟩
  constructor
  case addrs =>
    rw [List.map_map, h.addrs]
    rfl
  case statuses =>
    have hcells : (L.closeFrom d).cells = L.cells.map (Status.close d) := rfl
    rw [hcells, h.statuses, List.map_map, List.map_map]
    rfl
  case blocks =>
    apply h.blocks.keep List.filter_sublist
    intro j q st b hj hb
    exact ⟨⟨st, (hkept hj hb).1, hb⟩, (hkept hj hb).2⟩
  case chains =>
    constructor
    case link =>
      intro e he
      have he' : e < d := he
      have hne : e ≠ d := Nat.ne_of_lt he'
      simp only [Function.update_of_ne hne]
      exact h.chains.link e (by omega)
    case nodup =>
      intro e he
      have he' : e < d := he
      exact h.chains.nodup e (by omega)
    case mem =>
      intro e he q hq
      have he' : e < d := he
      rcases h.chains.mem e (by omega) q hq with ⟨i, tag, arity, hi⟩
      refine ⟨i, tag, arity, ?_⟩
      rw [List.getElem?_map, hi]
      simp only [Option.map_some, Status.close, if_pos he']
    case cell =>
      intro i q tag arity e hi
      rcases arena_of_close hi with ⟨he, hi⟩
      exact ⟨he, (h.chains.cell hi).2⟩
  case held =>
    intro n q st hn
    rw [List.getElem?_map, Option.map_eq_some_iff] at hn
    rcases hn with ⟨⟨q', st'⟩, hn, heq'⟩
    obtain ⟨rfl, rfl⟩ := Prod.mk.inj heq'
    have hheld := h.held n q' st' hn
    cases st' with
    | arena tag arity scope =>
        simp only [Status.close]
        split
        · exact hheld
        · trivial
    | counted k rc => exact hheld
    | freed k => trivial
    | closed => trivial
  case tallies => exact hc _ htallies
  case frames =>
    intro e he
    have he' : e < d := he
    have hscope : (L.closeFrom d).total (Status.scopeBytes e) = L.total (Status.scopeBytes e) :=
      Ledger.total_closeFrom fun st => Status.scopeBytes_close he'.le st
    have hne : e ≠ d := Nat.ne_of_lt he'
    rw [hscope]
    simp only [Function.update_of_ne hne]
    exact h.frames e (by omega)

end Sound

/-! ### Calls -/

/-- The program's heap and the ledger agree. -/
def Agrees (c : Client Heap) (L : Ledger) : Prop :=
  ∃ cells chain, Sound c.st c.cells L cells chain

/-- Only a failing `malloc` ends a run of this build without the ledger saying so. -/
def Excused (M : Malloc) (e : Abort) : Prop :=
  e = .outOfMemory ∧ ∃ m n, M.pick m n = none

def start (m : Memory) : Client Heap :=
  ⟨⟨wokHeapNew, m⟩, []⟩

theorem agrees_start (hm : m.blocks = []) : Agrees (start m) {} := by
  have hblocks : (start m).st.mem.blocks = [] := hm
  refine ⟨[], fun _ => [], rfl, rfl, ?_, ⟨nofun, nofun, nofun, nofun⟩, nofun, .start, nofun⟩
  rw [hblocks]
  exact ⟨.nil, nofun, nofun, nofun⟩

/-- An accessor that writes a word of a cell's body. -/
theorem follows_write {c : Client Heap} {ofKind : Kind → Bool} {slot : Nat}
    {f : Nat → Memory → Except Abort Memory} (h : Sound c.st c.cells L cells chain)
    (hw : L.Writes ofKind i slot)
    (hf : ∀ {p st}, Held c.st.mem.words p st → Writable ofKind slot st →
      ∃ m', f p c.st.mem = .ok m' ∧ Inside c.st.mem m' p st st) :
    Follows (Excused M) Agrees
      (do
        let p ← c.cell i
        let mem ← f p c.st.mem
        return { c with st := ⟨c.st.heap, mem⟩ }) (.ok L) := by
  rcases hw.cell with ⟨st, hi, hst⟩
  rcases h.client_cell hi with ⟨p, hp, hg⟩
  rcases hf (h.held i p st hg) hst with ⟨m', hm, hin⟩
  rw [hp]
  simp only [bind, Except.bind, hm]
  refine ⟨L, rfl, cells, chain, ?_⟩
  cases st with
  | counted k rc => exact h.write hg rfl hin
  | arena tag arity scope => exact h.write hg rfl hin
  | freed k => exact hst.elim
  | closed => exact hst.elim

/-- One call of the malloc build follows the ledger. -/
theorem malloc_refines (M : Malloc) :
    Refines (Client.step (mallocBackend M)) Ledger.step Ledger.Valid (Excused M) Agrees := by
  intro call c L hagrees hvalid
  rcases hagrees with ⟨cells, chain, h⟩
  cases call with
  | alloc r =>
      rcases resolve_ok h.length hvalid with ⟨r', hr', hok, hkind, hover⟩
      simp only [Client.step, hr', bind, Except.bind, mallocBackend, RcMalloc.alloc_eq hok,
        Ledger.step, ← hover]
      cases hr : r'.overflow with
      | some e => exact .inr rfl
      | none =>
          simp only [allocCell, bind, Except.bind, ← hkind]
          cases hm : wokMalloc M r'.kind.size c.st.mem with
          | error e =>
              rcases wokMalloc_error hm with ⟨rfl, hpick⟩
              exact .inl ⟨rfl, _, _, hpick⟩
          | ok res =>
              rcases res with ⟨p, m'⟩
              rcases wokMalloc_ok hm with ⟨hp, rfl⟩
              exact ⟨_, rfl, _, _, h.alloc hok hr hp⟩
  | allocAt tag arity i =>
      rcases hvalid with ⟨htag, harity, hcounted⟩
      rcases hcounted.cell with ⟨k, rc, hi, hk⟩
      cases k with
      | node tag' arity' =>
          rcases h.client_cell hi with ⟨p, hp, hg⟩
          have hheld := h.held i p _ hg
          have hrange : tag < 65536 ∧ arity < 256 := ⟨htag.lt, harity⟩
          simp only [Client.step, hp, bind, Except.bind, mallocBackend, wokAllocAt, hrange,
            hheld.2.2.2, hheld.2.1, Ledger.step, hi, and_self, not_true_eq_false, if_false]
          by_cases ha : arity' = arity
          · by_cases hrc : rc = 0
            · subst ha hrc
              simp only [ne_eq, not_true_eq_false, if_false]
              have hset : c.cells.set i p = c.cells := by
                apply set_eq_self
                rw [h.addrs, List.getElem?_map, hg]
                rfl
              have hsize : (Kind.node tag arity').size = (Kind.node tag' arity').size := rfl
              rw [hset]
              exact ⟨_, rfl, _, _, h.restamp hg hsize (inside_stamp htag harity)⟩
            · simp only [ha, hrc, ne_eq, not_true_eq_false, not_false_eq_true, if_true, if_false]
              exact .inr rfl
          · simp only [ha, ne_eq, not_false_eq_true, if_true]
            exact .inr rfl
      | _ => cases hk
  | dup i =>
      rcases Ledger.IsCounted.cell hvalid with ⟨k, rc, hi, -⟩
      rcases h.client_cell hi with ⟨p, hp, hg⟩
      simp only [Client.step, hp, bind, Except.bind, Ledger.step, hi]
      exact ⟨_, rfl, _, _, h.restamp hg rfl (wokDup_inside (h.held i p _ hg))⟩
  | dec i =>
      rcases Ledger.IsCounted.cell hvalid with ⟨k, rc, hi, -⟩
      rcases h.client_cell hi with ⟨p, hp, hg⟩
      simp only [Client.step, hp, bind, Except.bind, Ledger.step, hi]
      by_cases hrc : rc = 0
      · subst hrc
        rw [wokDec_zero (h.held i p _ hg), if_pos rfl]
        exact .inr rfl
      · rcases wokDec_inside (h.held i p _ hg) hrc with ⟨m', hm, hin⟩
        rw [hm, if_neg hrc]
        exact ⟨_, rfl, _, _, h.restamp hg rfl hin⟩
  | slotSet i slot word => exact follows_write h hvalid.1 wokSlotSet_inside
  | arraySlotSet i slot word => exact follows_write h hvalid.1 wokArraySlotSet_inside
  | dataSet i slot word => exact follows_write h hvalid.1 wokDataSet_inside
  | free i =>
      rcases Ledger.IsCounted.cell hvalid with ⟨k, rc, hi, -⟩
      rcases h.client_cell hi with ⟨p, hp, hg⟩
      simp only [Client.step, hp, bind, Except.bind, mallocBackend, Ledger.step, hi]
      by_cases hrc : rc = 0
      · subst hrc
        rcases h.free hg with ⟨s', hfree, h'⟩
        rw [hfree]
        exact ⟨_, rfl, _, _, h'⟩
      · have hword := (h.held i p _ hg).2.1
        simp only [wokFree, hword, hrc, ne_eq, not_false_eq_true, if_true]
        exact .inr rfl
  | arenaOpen =>
      simp only [Client.step, bind, Except.bind, mallocBackend, Ledger.step]
      by_cases hdepth : wokArenaMaxDepth ≤ L.depth
      · have hd := h.tallies.arenaDepth
        simp only [wokArenaOpen, hd, if_pos hdepth]
        exact .inr rfl
      · rcases h.openScope hdepth with ⟨s', chain', hopen, h'⟩
        rw [hopen, if_neg hdepth]
        exact ⟨_, rfl, _, _, h'⟩
  | arenaAlloc tag arity =>
      rcases hvalid with ⟨htag, harity⟩
      have hrange : tag < 65536 ∧ arity < 256 := ⟨htag.lt, harity⟩
      have hd := h.tallies.arenaDepth
      have hsize : 8 + wokCellBytes arity = 16 + 8 * arity := by
        simp only [wokCellBytes]
        omega
      simp only [Client.step, bind, Except.bind, mallocBackend, wokArenaAlloc, Ledger.step, hrange,
        hd, and_self, not_true_eq_false, if_false, hsize]
      by_cases hdepth : L.depth = 0
      · simp only [if_pos hdepth]
        exact .inr rfl
      · simp only [if_neg hdepth]
        cases hm : wokMalloc M (16 + 8 * arity) c.st.mem with
        | error e =>
            rcases wokMalloc_error hm with ⟨rfl, hpick⟩
            exact .inl ⟨rfl, _, _, hpick⟩
        | ok res =>
            rcases res with ⟨x, m'⟩
            rcases wokMalloc_ok hm with ⟨hx, rfl⟩
            exact ⟨_, rfl, _, _, h.arenaAlloc (by omega) htag harity hx⟩
  | arenaClose handle =>
      have hd := h.tallies.arenaDepth
      simp only [Client.step, bind, Except.bind, mallocBackend, Ledger.step]
      by_cases hhandle : L.depth = 0 ∨ handle ≠ L.depth - 1
      · simp only [wokArenaClose, hd, if_pos hhandle]
        exact .inr rfl
      · have hsucc : L.depth = handle + 1 := by omega
        rcases h.closeScope hsucc with ⟨s', hclose, h'⟩
        rw [hclose, if_neg hhandle]
        exact ⟨_, rfl, _, _, h'⟩

end Wok.Runtime.RcMalloc
