/-
Module: Wok.Proofs.SlabArena
Purpose: The arena of the slab build: opening a scope, a cell of the innermost scope, and
  closing it, after which its slabs are on the list of free slabs.
Imports: Wok.Proofs.SlabFree
Trusted boundary: none
Main exports: Sound.openScope, Sound.arenaRoom, Sound.arenaAlloc, unwindSlabs_spec,
  Sound.closeScope
-/
import Wok.Proofs.SlabFree

namespace Wok.Runtime.Slab

open Wok.Lib

variable {M : Malloc} {b : Build} {s s' : State Heap} {L : Ledger} {g g' : Shape}
  {i p x sz tag arity : Nat} {addrs slabs : List Nat} {ptr stop : Nat} {r : Block} {e : Abort}

/-! ### What the arena leaves alone -/

/-- The counted region of a heap with its statistics. -/
structure CountedView where
  counted : Region
  freelist : Nat → Nat
  reused : Nat
  reusedInplace : Nat
  allocs : Nat
  frees : Nat
  live : Int
  peak : Int
  curBytes : Nat
  peakBytes : Nat

def Heap.countedView (h : Heap) : CountedView :=
  ⟨h.counted, h.freelist, h.reused, h.reusedInplace, h.allocs, h.frees, h.live, h.peak,
    h.curBytes, h.peakBytes⟩

/-- The frontier of the arena, as an open saves it. -/
def Heap.frontier (h : Heap) : ArenaFrame :=
  ⟨h.arena.slabs, h.arena.bumpPtr, h.arena.bumpEnd, h.arenaBytes⟩

def Shape.arenaAll (g : Shape) : List Nat :=
  g.arenaSlabs ++ g.freeSlabs

/-- A change of the arena only: of its slabs, and of the words in them. The frames of the
scopes below `depth` stay. -/
structure ArenaOnly (depth : Nat) (s : State Heap) (g : Shape) (s' : State Heap) (g' : Shape) :
    Prop where
  view : s'.heap.countedView = s.heap.countedView
  blocks : ∀ c ∈ s.mem.blocks, c ∈ s'.mem.blocks
  arena : ∀ c ∈ s.mem.blocks, c.base ∈ g'.arenaAll → c.base ∈ g.arenaAll
  kept : ∀ x ∈ g.arenaAll, x ∈ g'.arenaAll
  words : ∀ c ∈ s.mem.blocks, c.base ∉ g.arenaAll → ∀ x, c.Has x →
    s'.mem.words x = s.mem.words x
  frames : ∀ d < depth, g'.saved d = g.saved d ∧ s'.heap.arenaStack d = s.heap.arenaStack d
  cur : s.heap.curPhysicalBytes ≤ s'.heap.curPhysicalBytes
  peak : s'.heap.peakPhysicalBytes ≤ max s.heap.peakPhysicalBytes s'.heap.curPhysicalBytes

theorem ArenaOnly.refl (depth : Nat) (s : State Heap) (g : Shape) : ArenaOnly depth s g s g :=
  ⟨rfl, fun _ hc => hc, fun _ _ hx => hx, fun _ hx => hx, fun _ _ _ _ _ => rfl,
    fun _ _ => ⟨rfl, rfl⟩, Nat.le_refl _, Nat.le_max_left _ _⟩

theorem ArenaOnly.trans {depth : Nat} {s'' : State Heap} {g'' : Shape}
    (h : ArenaOnly depth s g s' g') (h' : ArenaOnly depth s' g' s'' g'') :
    ArenaOnly depth s g s'' g'' where
  view := h'.view.trans h.view
  blocks := fun c hc => h'.blocks c (h.blocks c hc)
  arena := fun c hc hx => h.arena c hc (h'.arena c (h.blocks c hc) hx)
  kept := fun x hx => h'.kept x (h.kept x hx)
  words := fun c hc hx x hin =>
    (h'.words c (h.blocks c hc) (fun hx' => hx (h.arena c hc hx')) x hin).trans
      (h.words c hc hx x hin)
  frames := fun d hd =>
    ⟨(h'.frames d hd).1.trans (h.frames d hd).1, (h'.frames d hd).2.trans (h.frames d hd).2⟩
  cur := h.cur.trans h'.cur
  peak := by
    have hcur := h'.cur
    have hpeak := h.peak
    have hpeak' := h'.peak
    omega

/-! ### Opening a scope -/

theorem Linked.head_eq {next : Nat → Nat} {ps : List Nat} (h : Linked next p ps) :
    p = ps.headD 0 := by
  cases ps with
  | nil => exact h
  | cons q qs => exact h.1

theorem Sound.openScope (h : Sound s addrs L g) (hdepth : ¬ wokArenaMaxDepth ≤ L.depth) :
    ∃ s' g', wokArenaOpen s = .ok (L.depth, s') ∧
      Sound s' addrs { L with depth := L.depth + 1 } g' ∧ ArenaOnly L.depth s g s' g' ∧
      s'.heap.arenaStack L.depth = s.heap.frontier ∧ g'.saved L.depth = g.arenaSlabs := by
  have hd := h.counts.tallies.arenaDepth
  simp only [wokArenaOpen, hd, if_neg hdepth]
  refine ⟨_, { g with saved := Function.update g.saved L.depth g.arenaSlabs }, rfl, ⟨h.addrs,
    h.statuses, ⟨h.places.blocks, ⟨h.places.lists.slabs, h.places.lists.arenaSlabs,
      h.places.lists.freeSlabs, h.places.lists.free⟩, h.places.counted, ?_⟩, h.held, ?_, h.cut⟩,
    ?_, Function.update_self _ _ _, Function.update_self _ _ _⟩
  · have harena := h.places.arena
    rw [hd] at harena
    refine ⟨harena.frontier, fun hi => ?_, harena.apart, ?_⟩
    · rcases harena.cell hi with ⟨hlt, hrest⟩
      exact ⟨Nat.lt_succ_of_lt hlt, hrest⟩
    · intro d hlt
      rcases Nat.lt_succ_iff_lt_or_eq.mp hlt with hlt | rfl
      · have hf := harena.frame d hlt
        have hne : d ≠ L.depth := Nat.ne_of_lt hlt
        simp only [Function.update_of_ne hne]
        refine ⟨?_, ?_, ?_, ?_, ?_⟩
        · rw [Function.update_of_ne hne]
          exact hf.suffix
        · intro e' he
          rw [Function.update_of_ne hne, Function.update_of_ne (by omega)]
          exact hf.below e' he
        · rw [Function.update_of_ne hne]
          exact hf.head
        · rw [Function.update_of_ne hne]
          exact hf.frontier
        · rw [Function.update_of_ne hne]
          exact hf.cell
      · simp only [Function.update_self]
        refine ⟨?_, ?_, ?_, ?_, ?_⟩
        · rw [Function.update_self]
        · intro e' he
          rw [Function.update_self]
          rcases Nat.lt_or_eq_of_le he with he | rfl
          · rw [Function.update_of_ne (Nat.ne_of_lt he)]
            exact (harena.frame e' he).suffix
          · rw [Function.update_self]
        · rw [Function.update_self]
          exact Linked.head_eq h.places.lists.arenaSlabs
        · rw [Function.update_self]
          exact harena.frontier
        · rw [Function.update_self]
          exact fun hi _ => (harena.cell hi).2.2
  · have hscope := Ledger.scopeBytes_depth h.statuses fun hi => hd ▸ (h.places.arena.cell hi).1
    have htallies := h.counts.tallies.openScope hscope
    rw [hd] at htallies
    have harena : Ledger.arenaBytes { L with depth := L.depth + 1 } = L.arenaBytes := by
      rw [← htallies.arenaBytes]
      exact h.counts.tallies.arenaBytes
    refine ⟨htallies, h.counts.nslabs, h.counts.arenaNslabs, h.counts.physical, h.counts.classes,
      h.counts.packed, ?_, ?_, h.counts.arenaHeld, h.counts.arenaPeak, h.counts.marked⟩
    · rw [harena]
      exact h.counts.arenaPacked
    · intro d hlt
      rcases Nat.lt_succ_iff_lt_or_eq.mp hlt with hlt | rfl
      · simp only [Function.update_of_ne (Nat.ne_of_lt hlt)]
        exact h.counts.frames d hlt
      · simp only [Function.update_self]
        exact ⟨h.counts.tallies.arenaBytes, h.counts.arenaPacked⟩
  · refine ⟨rfl, fun c hc => hc, fun c _ hx => hx, fun x hx => hx, fun _ _ _ _ _ => rfl, ?_,
      Nat.le_refl _, Nat.le_max_left _ _⟩
    intro d hlt
    exact ⟨Function.update_of_ne (Nat.ne_of_lt hlt) _ _,
      Function.update_of_ne (Nat.ne_of_lt hlt) _ _⟩

/-! ### Room for a cell -/

/-- What was behind the frontier is behind it when a new slab is in front. -/
theorem Behind.grow {blocks : List Block} {all : List Nat} (h : Behind slabs ptr stop r)
    (hblocks : BlocksOk blocks all) (hslabs : ∀ y ∈ slabs, y ∈ all) (hx : x ∈ all)
    (hnew : x ∉ slabs) : Behind (x :: slabs) (x + wokGranule) (x + wokArenaSize) r := by
  rcases h.1 with ⟨y, hy, hin⟩
  refine ⟨⟨y, List.mem_cons_of_mem x hy, hin⟩, ?_⟩
  have hne : y ≠ x := by
    rintro rfl
    exact hnew hy
  apply (hblocks.slab_apart (hslabs y hy) hx hne).mono (hin.trans (slabBody_within y))
  constructor <;> simp only [slabBlock, wokGranule, wokArenaSize] <;> omega

/-- The frontier of a slab that was just put in front. -/
theorem Frontier.grow (hmod : x % 8 = 0) :
    Frontier (x :: slabs) (x + wokGranule) (x + wokArenaSize) := by
  refine .inr ⟨x, slabs, rfl, Nat.le_refl _, ?_, rfl, ?_⟩
  · simp only [wokGranule, wokArenaSize]
    omega
  · simp only [wokGranule]
    omega

theorem ArenaOk.grow {depth : Nat} {stack : Nat → ArenaFrame} {saved : Nat → List Nat}
    {cells : List (Nat × Status)} {blocks : List Block} {all : List Nat}
    (h : ArenaOk slabs ptr stop depth stack saved cells) (hblocks : BlocksOk blocks all)
    (hslabs : ∀ y ∈ slabs, y ∈ all) (hx : x ∈ all) (hnew : x ∉ slabs) :
    ArenaOk (x :: slabs) (x + wokGranule) (x + wokArenaSize) depth stack saved cells where
  frontier := Frontier.grow (hblocks.pos _ (hblocks.slab x hx)).2.2
  cell := by
    intro i p tag arity scope hi
    rcases h.cell hi with ⟨hlt, hmod, hbehind⟩
    exact ⟨hlt, hmod, hbehind.grow hblocks hslabs hx hnew⟩
  apart := h.apart
  frame := fun d hd =>
    have hf := h.frame d hd
    ⟨hf.suffix.trans (List.suffix_cons x slabs), hf.below, hf.head, hf.frontier, hf.cell⟩

/-- Taking a new slab for the arena. -/
theorem Sound.freshSlab (h : Sound s addrs L g) (hfree : g.freeSlabs = [])
    (hx : M.pick s.mem wokArenaSize = some x)
    (hroom : s.heap.arena.bumpEnd - s.heap.arena.bumpPtr < 2048) :
    Sound ⟨{ s.heap with
        toCounters := s.heap.toCounters.physAdd wokArenaSize
        arena := ⟨x, x + wokGranule, x + wokArenaSize, s.heap.arena.nslabs + 1⟩ },
      (withBlock x wokArenaSize s.mem).write x s.heap.arena.slabs⟩ addrs L
      { g with arenaSlabs := x :: g.arenaSlabs } := by
  have hall := h.places.blocks.fresh_slab hx (by decide)
  have hperm : List.Perm (x :: g.allSlabs)
      (Shape.allSlabs { g with arenaSlabs := x :: g.arenaSlabs }) := List.perm_middle.symm
  have hadd := h.places.blocks.addSlab hx
  have hblocks : BlocksOk (withBlock x wokArenaSize s.mem).blocks
      (Shape.allSlabs { g with arenaSlabs := x :: g.arenaSlabs }) :=
    ⟨hadd.separate, hadd.pos, fun y hy => hadd.slab y (hperm.mem_iff.mpr hy),
      hperm.nodup_iff.mp hadd.nodup⟩
  have hmem : x ∈ Shape.allSlabs { g with arenaSlabs := x :: g.arenaSlabs } :=
    hperm.mem_iff.mp List.mem_cons_self
  have hnew : x ∉ g.arenaSlabs := fun hx' => hall (Places.mem_arenaSlabs hx')
  have hplaces : Places ⟨{ s.heap with
      toCounters := s.heap.toCounters.physAdd wokArenaSize
      arena := ⟨x, x + wokGranule, x + wokArenaSize, s.heap.arena.nslabs + 1⟩ },
      (withBlock x wokArenaSize s.mem).write x s.heap.arena.slabs⟩
      { g with arenaSlabs := x :: g.arenaSlabs } := by
    refine ⟨hblocks, ⟨?_, ?_, ?_, ?_⟩, ?_, ?_⟩
    · exact h.places.lists.slabs.update fun hq => hall (Places.mem_slabs hq)
    · exact h.places.lists.arenaSlabs.push hnew (M.pos hx)
    · exact h.places.lists.freeSlabs.update fun hq => hall (Places.mem_freeSlabs hq)
    · exact fun cls hcls => (h.places.lists.free cls hcls).update
        (h.places.fresh_free hx (by decide) hcls)
    · apply h.places.counted.mono
      intro q k hq hq'
      refine ⟨List.mem_cons_of_mem _ hq, fun hmem' => ?_⟩
      rcases List.mem_cons.mp (hperm.mem_iff.mpr hmem') with rfl | hmem'
      · exact h.places.blocks.fresh hx (by decide) _ hq rfl
      · exact hq' hmem'
    · exact h.places.arena.grow hblocks
        (fun y hy => hperm.mem_iff.mp (List.mem_cons_of_mem x (Places.mem_arenaSlabs hy)))
        hmem hnew
  refine ⟨h.addrs, h.statuses, hplaces, hplaces.held_slab h.held hmem, ?_, h.cut⟩
  have harenaPacked := h.counts.arenaPacked
  have hle := h.counts.tallies.marked.arena
  constructor
  case tallies => exact h.counts.tallies.physAdd
  case nslabs => exact h.counts.nslabs
  case arenaNslabs =>
    have hn := h.counts.arenaNslabs
    simp only [List.length_cons]
    omega
  case physical =>
    have hphys := h.counts.physical
    simp only [Counters.physAdd, List.length_cons] at hphys ⊢
    rw [hphys]
    ring
  case classes => exact h.counts.classes
  case packed => exact h.counts.packed
  case arenaPacked =>
    have hleft : x + wokArenaSize - (x + wokGranule) = 65528 := by
      simp only [wokArenaSize, wokGranule]
      omega
    simp only [List.length_cons, hleft]
    exact harenaPacked.grow (by omega)
  case frames => exact h.counts.frames
  case arenaHeld =>
    have hused := harenaPacked.1
    simp only [wokArenaSize] at hused
    simp only [List.length_cons, hfree, List.length_nil]
    omega
  case arenaPeak =>
    have hpeak := h.counts.arenaPeak
    simp only [List.length_cons]
    exact hpeak.trans (Nat.mul_le_mul_left _ (by omega))
  case marked => exact Nat.le_max_left _ _

/-- Taking a slab for the arena that a close has left. -/
theorem Sound.recycledSlab {rest : List Nat} (h : Sound s addrs L g)
    (hfree : g.freeSlabs = x :: rest)
    (hroom : s.heap.arena.bumpEnd - s.heap.arena.bumpPtr < 2048) :
    Sound ⟨{ s.heap with
        arenaFreeSlabs := s.mem.words x
        arena := ⟨x, x + wokGranule, x + wokArenaSize, s.heap.arena.nslabs⟩ },
      s.mem.write x s.heap.arena.slabs⟩ addrs L
      { g with arenaSlabs := x :: g.arenaSlabs, freeSlabs := rest } := by
  have hnodup := h.places.blocks.nodup
  have hlist := h.places.lists.freeSlabs
  rw [hfree] at hlist
  have hx : x ∈ g.allSlabs := Places.mem_freeSlabs (hfree ▸ List.mem_cons_self)
  have hperm : List.Perm g.allSlabs
      (Shape.allSlabs { g with arenaSlabs := x :: g.arenaSlabs, freeSlabs := rest }) := by
    simp only [Shape.allSlabs, hfree]
    exact List.Perm.append_left _ List.perm_middle
  have hnodup' := hperm.nodup_iff.mp hnodup
  simp only [Shape.allSlabs] at hnodup'
  rw [List.nodup_append] at hnodup'
  rcases hnodup' with ⟨-, hnodupA, hdisj⟩
  have hnodupA' := List.nodup_cons.mp hnodupA
  have hnewA : x ∉ g.arenaSlabs := fun hq => hnodupA'.1 (List.mem_append_left _ hq)
  have hnewF : x ∉ rest := fun hq => hnodupA'.1 (List.mem_append_right _ hq)
  have hnewS : x ∉ g.slabs := fun hq => hdisj x hq x List.mem_cons_self rfl
  have hblocks : BlocksOk s.mem.blocks
      (Shape.allSlabs { g with arenaSlabs := x :: g.arenaSlabs, freeSlabs := rest }) :=
    ⟨h.places.blocks.separate, h.places.blocks.pos,
      fun y hy => h.places.blocks.slab y (hperm.mem_iff.mpr hy), hperm.nodup_iff.mp hnodup⟩
  have hplaces : Places ⟨{ s.heap with
      arenaFreeSlabs := s.mem.words x
      arena := ⟨x, x + wokGranule, x + wokArenaSize, s.heap.arena.nslabs⟩ },
      s.mem.write x s.heap.arena.slabs⟩
      { g with arenaSlabs := x :: g.arenaSlabs, freeSlabs := rest } := by
    refine ⟨hblocks, ⟨?_, ?_, ?_, ?_⟩, ?_, ?_⟩
    · exact h.places.lists.slabs.update hnewS
    · exact h.places.lists.arenaSlabs.push hnewA hlist.2.1
    · exact hlist.2.2.update hnewF
    · intro cls hcls
      refine (h.places.lists.free cls hcls).update fun hq => ?_
      have hcarved := h.places.counted.freeCarved cls hcls x hq
      rcases (h.places.counted.behind _ hcarved).1 with ⟨y, hy, hin⟩
      exact h.places.blocks.not_mem_of_body (Places.mem_slabs hy)
        (Block.Has.of_within ⟨Nat.le_refl x, by simp only; omega⟩ hin) hx
    · apply h.places.counted.mono
      intro q k hq hq'
      exact ⟨hq, fun hmem => hq' (hperm.mem_iff.mpr hmem)⟩
    · exact h.places.arena.grow hblocks
        (fun y hy => hperm.mem_iff.mp (Places.mem_arenaSlabs hy)) (hperm.mem_iff.mp hx) hnewA
  refine ⟨h.addrs, h.statuses, hplaces, hplaces.held_slab h.held (hperm.mem_iff.mp hx), ?_, h.cut⟩
  have hlen : g.freeSlabs.length = rest.length + 1 := by rw [hfree, List.length_cons]
  have hsum : (x :: g.arenaSlabs).length + rest.length =
      g.arenaSlabs.length + g.freeSlabs.length := by
    rw [List.length_cons]
    omega
  constructor
  case tallies => exact h.counts.tallies
  case nslabs => exact h.counts.nslabs
  case arenaNslabs => rw [hsum]; exact h.counts.arenaNslabs
  case physical => rw [hsum]; exact h.counts.physical
  case classes => exact h.counts.classes
  case packed => exact h.counts.packed
  case arenaPacked =>
    have hleft : x + wokArenaSize - (x + wokGranule) = 65528 := by
      simp only [wokArenaSize, wokGranule]
      omega
    simp only [List.length_cons, hleft]
    exact h.counts.arenaPacked.grow (by omega)
  case frames => exact h.counts.frames
  case arenaHeld => rw [hsum]; exact h.counts.arenaHeld
  case arenaPeak => rw [hsum]; exact h.counts.arenaPeak
  case marked => exact h.counts.marked

/-- Taking a new slab writes its link only, and no block that was held is the slab. -/
theorem Sound.freshSlab_only {depth n : Nat} (h : Sound s addrs L g)
    (hx : M.pick s.mem wokArenaSize = some x) :
    ArenaOnly depth s g ⟨{ s.heap with
        toCounters := s.heap.toCounters.physAdd wokArenaSize
        arena := ⟨x, x + wokGranule, x + wokArenaSize, n⟩ },
      (withBlock x wokArenaSize s.mem).write x s.heap.arena.slabs⟩
      { g with arenaSlabs := x :: g.arenaSlabs } where
  view := rfl
  blocks := fun c hc => List.mem_cons_of_mem _ hc
  arena := by
    intro c hc hmem
    rcases List.mem_cons.mp hmem with heq | hmem
    · exact absurd heq (h.places.blocks.fresh hx (by decide) c hc)
    · exact hmem
  kept := fun y hy => List.mem_cons_of_mem x hy
  words := by
    intro c hc _ y hy
    apply Memory.words_write_of_ne
    rintro rfl
    have hself : (⟨y, wokArenaSize⟩ : Block).Has y := ⟨Nat.le_refl y, by simp [wokArenaSize]⟩
    exact (M.fresh hx c hc).not_has hself hy
  frames := fun _ _ => ⟨rfl, rfl⟩
  cur := Nat.le_add_right _ _
  peak := (Nat.max_comm _ _).le

theorem Sound.recycledSlab_only {depth w n : Nat} {rest : List Nat} (h : Sound s addrs L g)
    (hfree : g.freeSlabs = x :: rest) :
    ArenaOnly depth s g ⟨{ s.heap with
        arenaFreeSlabs := w
        arena := ⟨x, x + wokGranule, x + wokArenaSize, n⟩ },
      s.mem.write x s.heap.arena.slabs⟩
      { g with arenaSlabs := x :: g.arenaSlabs, freeSlabs := rest } := by
  have hmem : ∀ y,
      y ∈ Shape.arenaAll { g with arenaSlabs := x :: g.arenaSlabs, freeSlabs := rest } ↔
      y ∈ g.arenaAll := by
    intro y
    simp only [Shape.arenaAll, hfree]
    exact List.perm_middle.symm.mem_iff
  have hx : x ∈ g.freeSlabs := hfree ▸ List.mem_cons_self
  refine ⟨rfl, fun c hc => hc, fun c _ hc => (hmem _).mp hc, fun y hy => (hmem y).mpr hy, ?_,
    fun _ _ => ⟨rfl, rfl⟩, Nat.le_refl _, Nat.le_max_left _ _⟩
  intro c hc hnot y hy
  apply Memory.words_write_of_ne
  rintro rfl
  have hself : (slabBlock y).Has y := ⟨Nat.le_refl y, by simp [slabBlock, wokArenaSize]⟩
  have hne : slabBlock y ≠ c := by
    rintro rfl
    exact hnot (List.mem_append_right _ hx)
  exact (h.places.blocks.separate.apart (h.places.blocks.slab y (Places.mem_freeSlabs hx)) hc
    hne).not_has hself hy

/-- Where the arena takes room for a cell from. -/
theorem Sound.arenaRoom (h : Sound s addrs L g) (hsz : 0 < sz) (hsz' : sz ≤ 2048)
    (hs : makeArenaRoom M b sz s = .ok s') :
    ∃ g', Sound s' addrs L g' ∧ ArenaOnly L.depth s g s' g' ∧
      (b.checkPhysical = true → s.heap.toCounters.PhysicalBound →
        s'.heap.toCounters.PhysicalBound) ∧
      s'.heap.arena.bumpPtr ≠ 0 ∧ sz ≤ s'.heap.arena.bumpEnd - s'.heap.arena.bumpPtr := by
  cases hfull : s.heap.arena.full sz with
  | false =>
      simp only [makeArenaRoom, hfull, Bool.false_eq_true, if_false] at hs
      cases hs
      exact ⟨g, h, .refl L.depth s g, fun _ hbound => hbound, full_eq_false.mp hfull⟩
  | true =>
      have hroom := h.places.arena.frontier.room_lt hfull hsz
      simp only [makeArenaRoom, hfull, if_true] at hs
      rcases exceptBind_ok hs with ⟨⟨r, s₁⟩, hgrow, hs⟩
      cases hs
      have hleft : ∀ x, x + wokGranule ≠ 0 ∧ sz ≤ x + wokArenaSize - (x + wokGranule) := by
        intro x
        simp only [wokGranule, wokArenaSize]
        omega
      by_cases hzero : s.heap.arenaFreeSlabs = 0
      · have hfree := (h.places.lists.freeSlabs.eq_nil_iff).mpr hzero
        simp only [hzero, ne_eq, not_true_eq_false, if_false] at hgrow
        rcases wokGrowSlab_ok hgrow with ⟨x, hx, hcheck, rfl, rfl⟩
        exact ⟨_, h.freshSlab hfree hx (by omega), h.freshSlab_only hx, fun hb _ => hcheck hb,
          hleft x⟩
      · rcases h.places.lists.freeSlabs.uncons hzero with ⟨rest, hfree, -⟩
        simp only [ne_eq, hzero, not_false_eq_true, if_true, wokGrowSlab, if_false] at hgrow
        cases hgrow
        exact ⟨_, h.recycledSlab hfree (by omega), h.recycledSlab_only hfree,
          fun _ hbound => hbound, hleft _⟩

theorem makeArenaRoom_error (hsz : 0 < sz) (hsz' : sz ≤ 2048)
    (hs : makeArenaRoom M b sz s = .error e) : Stops M b s e := by
  cases hfull : s.heap.arena.full sz with
  | false =>
      simp only [makeArenaRoom, hfull, Bool.false_eq_true, if_false] at hs
      cases hs
  | true =>
      simp only [makeArenaRoom, hfull, if_true] at hs
      rcases exceptBind_error hs with hs | ⟨res, hres, hs⟩
      · by_cases hzero : s.heap.arenaFreeSlabs = 0
        · simp only [hzero, ne_eq, not_true_eq_false, if_false] at hs
          rcases wokGrowSlab_error hs with hoom | ⟨rfl, hb, hbound⟩
          · exact .inl hoom
          · exact .inr ⟨rfl, hb, hbound, .inr ⟨sz, hsz, hsz', hfull, hzero⟩⟩
        · simp only [ne_eq, hzero, not_false_eq_true, if_true, wokGrowSlab, if_false] at hs
          cases hs
      · cases hs

/-! ### A cell of the arena -/

theorem ArenaOk.bump {depth : Nat} {stack : Nat → ArenaFrame} {saved : Nat → List Nat}
    {cells : List (Nat × Status)} (h : ArenaOk slabs ptr stop depth stack saved cells)
    (hptr : ptr ≠ 0) (hroom : sz ≤ stop - ptr) (hmod : sz % 8 = 0) :
    ArenaOk slabs (ptr + sz) stop depth stack saved cells ∧
      Behind slabs (ptr + sz) stop ⟨ptr, sz⟩ ∧ ptr % 8 = 0 := by
  rcases h.frontier with ⟨-, hzero, -⟩ | ⟨x, rest, rfl, hx, hle, hstop, halign⟩
  · exact absurd hzero hptr
  refine ⟨⟨.inr ⟨x, rest, rfl, by omega, by omega, hstop, by omega⟩, ?_, h.apart, h.frame⟩,
    ⟨⟨x, List.mem_cons_self, hx, ?_⟩, .inl (Nat.le_refl _)⟩, halign⟩
  · intro i p tag arity scope hi
    rcases h.cell hi with ⟨hlt, hmod', hbehind⟩
    refine ⟨hlt, hmod', hbehind.mono (fun y hy => hy) ?_⟩
    exact hbehind.2.mono (.refl _) ⟨by simp only; omega, by simp only; omega⟩
  · simp only [slabBody, wokGranule, wokArenaSize] at hx hstop ⊢
    omega

/-- One more cell of the innermost scope. -/
theorem ArenaOk.add {depth : Nat} {stack : Nat → ArenaFrame} {saved : Nat → List Nat}
    {cells : List (Nat × Status)} (h : ArenaOk slabs ptr stop depth stack saved cells)
    (hdepth : depth ≠ 0) (hmod : p % 8 = 0) (hbehind : Behind slabs ptr stop ⟨p, 8 + 8 * arity⟩)
    (hapart : ∀ i q tag' arity' scope : Nat, cells[i]? = some (q, .arena tag' arity' scope) →
      Block.Apart ⟨p, 8 + 8 * arity⟩ ⟨q, 8 + 8 * arity'⟩) :
    ArenaOk slabs ptr stop depth stack saved
      (cells ++ [(p, .arena tag arity (depth - 1))]) where
  frontier := h.frontier
  cell := by
    intro i q tag' arity' scope hi
    rcases getElem?_concat_cases hi with hi | ⟨-, heq⟩
    · exact h.cell hi
    · cases heq
      exact ⟨by omega, hmod, hbehind⟩
  apart := by
    intro i j q q' tag₁ arity₁ scope₁ tag₂ arity₂ scope₂ hi hj hne
    rcases getElem?_concat_cases hi with hi | ⟨rfl, heq⟩
    · rcases getElem?_concat_cases hj with hj | ⟨rfl, heq⟩
      · exact h.apart hi hj hne
      · cases heq
        exact (hapart i q tag₁ arity₁ scope₁ hi).symm
    · cases heq
      rcases getElem?_concat_cases hj with hj | ⟨rfl, -⟩
      · exact hapart j q' tag₂ arity₂ scope₂ hj
      · exact absurd rfl hne
  frame := by
    intro d hd
    have hf := h.frame d hd
    refine ⟨hf.suffix, hf.below, hf.head, hf.frontier, ?_⟩
    intro i q tag' arity' scope hi hscope
    rcases getElem?_concat_cases hi with hi | ⟨-, heq⟩
    · exact hf.cell hi hscope
    · cases heq
      omega

/-- A cell of the arena is no counted cell. -/
theorem CountedOk.add_arena {blocks carved : List Block} {all : List Nat}
    {cells : List (Nat × Status)} {free : Nat → List Nat} {scope : Nat}
    (h : CountedOk blocks all slabs ptr stop cells free carved) :
    CountedOk blocks all slabs ptr stop (cells ++ [(p, .arena tag arity scope)]) free carved := by
  have hold : ∀ {j q rc : Nat} {k : Kind},
      (cells ++ [(p, Status.arena tag arity scope)])[j]? = some (q, .counted k rc) →
      cells[j]? = some (q, .counted k rc) := by
    intro j q rc k hj
    rcases getElem?_concat_cases hj with hj | ⟨-, heq⟩
    · exact hj
    · cases heq
  exact ⟨h.frontier, h.separate, h.behind, h.pos, h.freeCarved, h.freeNodup,
    fun hi hk => h.small (hold hi) hk, fun hi hk => h.large (hold hi) hk,
    fun hi hj => h.inj (hold hi) (hold hj)⟩

/-- The counts after a cell of the arena was cut. -/
theorem Counts.addArena {cells : List (Nat × Status)} (hc : Counts s.heap L g)
    (hdepth : L.depth ≠ 0)
    (hroom : wokCellBytes arity ≤ s.heap.arena.bumpEnd - s.heap.arena.bumpPtr) :
    Counts { s.heap with
        toCounters := (s.heap.toCounters.recordArena (wokCellBytes arity)).logicalMark
        arena := { s.heap.arena with
          bumpPtr := s.heap.arena.bumpPtr + wokCellBytes arity } }
      (L.addArena tag arity) { g with cells := cells } := by
  have htotal : ∀ f : Status → Nat, f (.arena tag arity (L.depth - 1)) = 0 →
      (L.addArena tag arity).total f = L.total f := by
    intro f hf
    rw [Ledger.total_addArena, hf, Nat.add_zero]
  have htallies : Tallies _ (L.addArena tag arity) := hc.tallies.addArena hdepth
  have harena : (L.addArena tag arity).arenaBytes = L.arenaBytes + wokCellBytes arity := by
    rw [← htallies.arenaBytes, ← hc.tallies.arenaBytes]
    rfl
  have hcls : ∀ cls, (L.addArena tag arity).classPeak cls = L.classPeak cls := by
    intro cls
    have heq : (L.addArena tag arity).classPeak cls =
        max ((L.addArena tag arity).total (Status.ofClass cls)) (L.classPeak cls) := rfl
    rw [heq, htotal (Status.ofClass cls) rfl, Nat.max_eq_right (hc.tallies.marked.cls cls)]
  have hcut := hc.arenaPacked.cut hroom
  constructor
  case tallies => exact htallies
  case nslabs => exact hc.nslabs
  case arenaNslabs => exact hc.arenaNslabs
  case physical => rw [htotal Status.largeBytes rfl]; exact hc.physical
  case classes =>
    intro cls hlt
    rw [htotal (Status.ofClass cls) rfl, hcls cls]
    exact hc.classes cls hlt
  case packed => rw [Ledger.classBytes_congr fun cls _ => hcls cls]; exact hc.packed
  case arenaPacked =>
    rw [harena]
    rw [Nat.sub_sub] at hcut
    exact hcut
  case frames =>
    intro d hd
    have hzero : Status.scopeBytes d (.arena tag arity (L.depth - 1)) = 0 := by
      have hd' : d < L.depth := hd
      exact if_neg (by omega)
    rw [htotal _ hzero]
    exact hc.frames d hd
  case arenaHeld =>
    have heq : (L.addArena tag arity).arenaPeak =
        max (L.addArena tag arity).arenaBytes L.arenaPeak := rfl
    rw [heq]
    exact hc.arenaHeld.trans (Nat.add_le_add_right (Nat.le_max_right _ _) _)
  case arenaPeak =>
    have heq : (L.addArena tag arity).arenaPeak =
        max (L.addArena tag arity).arenaBytes L.arenaPeak := rfl
    rw [heq, harena]
    apply max_le
    · have hle : wokArenaSize * g.arenaSlabs.length ≤
          wokArenaSize * (g.arenaSlabs.length + g.freeSlabs.length) :=
        Nat.mul_le_mul_left _ (Nat.le_add_right _ _)
      have hused := hcut.2
      refine le_trans ?_ hle
      omega
    · exact hc.arenaPeak
  case marked => exact hc.marked

theorem Sound.arenaAlloc (h : Sound s addrs L g) (hdepth : L.depth ≠ 0) (htag : ValidTag tag)
    (harity : arity < 256) (hptr : s.heap.arena.bumpPtr ≠ 0)
    (hroom : wokCellBytes arity ≤ s.heap.arena.bumpEnd - s.heap.arena.bumpPtr) :
    ∃ g', Sound ⟨{ s.heap with
        toCounters := (s.heap.toCounters.recordArena (wokCellBytes arity)).logicalMark
        arena := { s.heap.arena with bumpPtr := s.heap.arena.bumpPtr + wokCellBytes arity } },
      s.mem.write s.heap.arena.bumpPtr (wokHeader 0 tag arity)⟩
      (addrs ++ [s.heap.arena.bumpPtr]) (L.addArena tag arity) g' ∧
      ArenaOnly L.depth s g ⟨{ s.heap with
        toCounters := (s.heap.toCounters.recordArena (wokCellBytes arity)).logicalMark
        arena := { s.heap.arena with bumpPtr := s.heap.arena.bumpPtr + wokCellBytes arity } },
      s.mem.write s.heap.arena.bumpPtr (wokHeader 0 tag arity)⟩ g' := by
  have hsize : wokCellBytes arity = 8 + 8 * arity := by
    rw [wokCellBytes, Nat.mul_comm]
  rcases h.places.arena.bump hptr hroom (by omega) with ⟨harena, hbehind, hmod⟩
  have hapart : ∀ i q tag' arity' scope : Nat,
      g.cells[i]? = some (q, .arena tag' arity' scope) →
      Block.Apart ⟨s.heap.arena.bumpPtr, 8 + 8 * arity⟩ ⟨q, 8 + 8 * arity'⟩ := by
    intro i q tag' arity' scope hi
    refine (h.places.arena.cell hi).2.2.2.symm.mono ?_ (.refl _)
    exact ⟨Nat.le_refl _, by simp only; omega⟩
  rw [hsize] at hbehind
  have hplaces : Places ⟨{ s.heap with
      arena := { s.heap.arena with bumpPtr := s.heap.arena.bumpPtr + wokCellBytes arity } },
      s.mem⟩ g :=
    ⟨h.places.blocks, ⟨h.places.lists.slabs, h.places.lists.arenaSlabs, h.places.lists.freeSlabs,
      h.places.lists.free⟩, h.places.counted, harena⟩
  have howned : Owned ⟨{ s.heap with
      arena := { s.heap.arena with bumpPtr := s.heap.arena.bumpPtr + wokCellBytes arity } },
      s.mem⟩ g none ⟨s.heap.arena.bumpPtr, 8 + 8 * arity⟩ :=
    .arena hbehind.1 fun j q tag' arity' scope _ hj => hapart j q tag' arity' scope hj
  have hwords : ∀ x, ¬ (Block.mk s.heap.arena.bumpPtr (8 + 8 * arity)).Has x →
      (s.mem.write s.heap.arena.bumpPtr (wokHeader 0 tag arity)).words x = s.mem.words x := by
    intro x hx
    apply Memory.words_write_of_ne
    rintro rfl
    exact hx ⟨Nat.le_refl _, by simp only; omega⟩
  have hplaces' := hplaces.agree howned Memory.write_blocks hwords
  have hd := h.counts.tallies.arenaDepth
  refine ⟨{ g with
    cells := g.cells ++ [(s.heap.arena.bumpPtr, .arena tag arity (L.depth - 1))] }, ?_,
    rfl, fun c hc => hc, fun c _ hc => hc, fun y hy => hy, ?_, fun _ _ => ⟨rfl, rfl⟩,
    Nat.le_refl _, Nat.le_max_left _ _⟩
  on_goal 2 =>
    -- the header is in a slab of the arena
    intro c hc hnot x hx
    apply hwords
    intro hx'
    rcases hbehind.1 with ⟨y, hy, hin⟩
    have hne : slabBlock y ≠ c := by
      rintro rfl
      exact hnot (List.mem_append_left _ hy)
    exact (h.places.blocks.separate.apart (h.places.blocks.slab y (Places.mem_arenaSlabs hy)) hc
      hne).not_has (hx'.of_within (hin.trans (slabBody_within y))) hx
  constructor
  case addrs => rw [h.addrs, List.map_append]; rfl
  case statuses =>
    have happend : (L.addArena tag arity).cells =
        L.cells ++ [Status.arena tag arity (L.depth - 1)] := rfl
    rw [happend, h.statuses, List.map_append]
    rfl
  case places =>
    refine ⟨hplaces'.blocks, ⟨hplaces'.lists.slabs, hplaces'.lists.arenaSlabs,
      hplaces'.lists.freeSlabs, hplaces'.lists.free⟩, hplaces'.counted.add_arena, ?_⟩
    rw [← hd] at hdepth ⊢
    exact harena.add hdepth hmod (hsize ▸ hbehind) hapart
  case held =>
    intro n q st hn
    rcases getElem?_concat_cases hn with hn | ⟨-, heq⟩
    · exact howned.held hplaces h.held hwords hn (Option.some_ne_none n)
    · cases heq
      refine ⟨harity, ?_, ?_⟩
      · rw [Memory.words_write_self, tagOf_wokHeader (by decide)]
        exact Nat.mod_eq_of_lt htag.lt
      · rw [Memory.words_write_self, arityOf_wokHeader (by decide)]
        exact Nat.mod_eq_of_lt harity
  case counts => exact h.counts.addArena hdepth hroom
  case cut => exact h.cut.add_arena

/-! ### Closing a scope -/

/-- The walk moves the slabs in front of the kept ones, in the order it meets them. -/
theorem unwindSlabs_spec {kept fs : List Nat} (gs : List Nat) {fuel grown freeSlabs : Nat}
    {m : Memory} (hfuel : gs.length ≤ fuel) (hgrown : Linked m.words grown (gs ++ kept))
    (hfree : Linked m.words freeSlabs fs) (hnodup : (gs ++ (kept ++ fs)).Nodup) :
    ∃ free' m', unwindSlabs (kept.headD 0) fuel grown freeSlabs m = .ok (free', m') ∧
      m'.blocks = m.blocks ∧ (∀ x ∉ gs, m'.words x = m.words x) ∧
      Linked m'.words free' (gs.reverse ++ fs) := by
  induction gs generalizing fuel grown freeSlabs m fs with
  | nil =>
      have hstop : grown = kept.headD 0 := Linked.head_eq hgrown
      have heq : unwindSlabs (kept.headD 0) fuel grown freeSlabs m = .ok (freeSlabs, m) := by
        cases fuel <;> rw [unwindSlabs, if_pos hstop]
      exact ⟨freeSlabs, m, heq, rfl, fun x _ => rfl, hfree⟩
  | cons y ys ih =>
      rcases hgrown with ⟨rfl, hne, htail⟩
      rcases List.nodup_cons.mp hnodup with ⟨hnew, hnodup'⟩
      have hnewK : grown ∉ ys ++ kept := fun hmem => by
        rcases List.mem_append.mp hmem with hmem | hmem
        · exact hnew (List.mem_append_left _ hmem)
        · exact hnew (List.mem_append_right _ (List.mem_append_left _ hmem))
      have hnewF : grown ∉ fs := fun hmem =>
        hnew (List.mem_append_right _ (List.mem_append_right _ hmem))
      have hstop : grown ≠ kept.headD 0 := by
        cases kept with
        | nil => exact hne
        | cons z zs =>
            rintro rfl
            exact hnewK (List.mem_append_right _ List.mem_cons_self)
      cases fuel with
      | zero => cases hfuel
      | succ fuel =>
          have hperm : List.Perm (grown :: (ys ++ (kept ++ fs))) (ys ++ (kept ++ grown :: fs)) := by
            rw [← List.append_assoc, ← List.append_assoc]
            exact List.perm_middle.symm
          rcases ih (m := m.write grown freeSlabs)
            (Nat.le_of_succ_le_succ hfuel) (htail.update hnewK) (hfree.push hnewF hne)
            (hperm.nodup_iff.mp hnodup) with ⟨free', m', heq, hblocks, hwords, hlink⟩
          refine ⟨free', m', ?_, hblocks, ?_, ?_⟩
          · rw [unwindSlabs, if_neg hstop]
            exact heq
          · intro x hx
            rw [List.mem_cons, not_or] at hx
            rcases hx with ⟨hxy, hx'⟩
            exact (hwords x hx').trans (Memory.words_write_of_ne hxy)
          · rw [List.reverse_cons, List.append_assoc]
            exact hlink

/-- There are no more slabs than blocks. -/
theorem BlocksOk.length_le {blocks : List Block} {all : List Nat} (h : BlocksOk blocks all) :
    all.length ≤ blocks.length := by
  have hnodup : (all.map slabBlock).Nodup :=
    h.nodup.map fun x y heq => congrArg Block.base heq
  have hsub : all.map slabBlock ⊆ blocks := by
    intro c hc
    rcases List.mem_map.mp hc with ⟨x, hx, rfl⟩
    exact h.slab x hx
  have hle := (List.subperm_of_subset hnodup hsub).length_le
  rwa [List.length_map] at hle

theorem CountedOk.close {blocks carved : List Block} {all : List Nat}
    {cells : List (Nat × Status)} {free : Nat → List Nat} {d : Nat}
    (h : CountedOk blocks all slabs ptr stop cells free carved) :
    CountedOk blocks all slabs ptr stop (cells.map fun c => (c.1, c.2.close d)) free carved :=
  ⟨h.frontier, h.separate, h.behind, h.pos, h.freeCarved, h.freeNodup,
    fun hi hk => h.small (counted_of_close hi) hk, fun hi hk => h.large (counted_of_close hi) hk,
    fun hi hj => h.inj (counted_of_close hi) (counted_of_close hj)⟩

/-- The frontier is the one that was saved, and its scopes are those below. -/
theorem ArenaOk.close {d : Nat} {stack : Nat → ArenaFrame} {saved : Nat → List Nat}
    {cells : List (Nat × Status)} (h : ArenaOk slabs ptr stop (d + 1) stack saved cells) :
    ArenaOk (saved d) (stack d).bumpPtrSave (stack d).bumpEndSave d stack saved
      (cells.map fun c => (c.1, c.2.close d)) := by
  have hf := h.frame d (Nat.lt_succ_self d)
  refine ⟨hf.frontier, ?_, ?_, ?_⟩
  · intro i p tag arity scope hi
    rcases arena_of_close hi with ⟨hlt, hi⟩
    exact ⟨hlt, (h.cell hi).2.1, hf.cell hi hlt⟩
  · exact fun hi hj => h.apart (arena_of_close hi).2 (arena_of_close hj).2
  · intro e he
    have hfe := h.frame e (Nat.lt_succ_of_lt he)
    exact ⟨hf.below e he.le, hfe.below, hfe.head, hfe.frontier,
      fun hi hscope => hfe.cell (arena_of_close hi).2 hscope⟩

theorem Counts.close {cells : List (Nat × Status)} {d arenaFree bump : Nat}
    {gs : List Nat} (hc : Counts s.heap L g) (hd : L.depth = d + 1)
    (hgs : gs ++ g.saved d = g.arenaSlabs) :
    Counts { s.heap with
        arena := ⟨bump, (s.heap.arenaStack d).bumpPtrSave, (s.heap.arenaStack d).bumpEndSave,
          s.heap.arena.nslabs⟩
        arenaFreeSlabs := arenaFree
        arenaBytes := (s.heap.arenaStack d).arenaBytesBefore
        arenaDepth := s.heap.arenaDepth - 1 }
      (L.closeFrom d) { g with
        cells := cells
        arenaSlabs := g.saved d
        freeSlabs := gs.reverse ++ g.freeSlabs } := by
  have hframe := hc.frames d (by omega)
  have hclose : ∀ f : Status → Nat, (∀ tag arity scope, f (.arena tag arity scope) = f .closed) →
      (L.closeFrom d).total f = L.total f := by
    intro f hf
    apply Ledger.total_closeFrom
    intro st
    cases st with
    | arena tag arity scope =>
        simp only [Status.close]
        split
        · rfl
        · exact (hf tag arity scope).symm
    | _ => rfl
  have harena : (L.closeFrom d).arenaBytes = L.total (Status.scopeBytes d) :=
    Ledger.total_closeFrom fun st => Status.scopeBytes_close (Nat.le_refl d) st
  have hlen : g.arenaSlabs.length = gs.length + (g.saved d).length := by
    rw [← hgs, List.length_append]
  have hsum : (g.saved d).length + (gs.reverse ++ g.freeSlabs).length =
      g.arenaSlabs.length + g.freeSlabs.length := by
    rw [List.length_append, List.length_reverse]
    omega
  constructor
  case tallies =>
    have htallies := hc.tallies.closeFrom hd
    rw [← hframe.1] at htallies
    exact htallies
  case nslabs => exact hc.nslabs
  case arenaNslabs => rw [hsum]; exact hc.arenaNslabs
  case physical => rw [hsum, hclose Status.largeBytes fun _ _ _ => rfl]; exact hc.physical
  case classes =>
    intro cls hlt
    rw [hclose (Status.ofClass cls) fun _ _ _ => rfl]
    exact hc.classes cls hlt
  case packed => exact hc.packed
  case arenaPacked => rw [harena]; exact hframe.2
  case frames =>
    intro e he
    have he' : e < d := he
    have hscope : (L.closeFrom d).total (Status.scopeBytes e) = L.total (Status.scopeBytes e) :=
      Ledger.total_closeFrom fun st => Status.scopeBytes_close he'.le st
    rw [hscope]
    exact hc.frames e (by omega)
  case arenaHeld => rw [hsum]; exact hc.arenaHeld
  case arenaPeak => rw [hsum]; exact hc.arenaPeak
  case marked => exact hc.marked

theorem Sound.closeScope {d : Nat} (h : Sound s addrs L g) (hd : L.depth = d + 1) :
    ∃ s' g', wokArenaClose d s = .ok s' ∧ Sound s' addrs (L.closeFrom d) g' ∧
      ArenaOnly L.depth s g s' g' ∧ s'.heap.frontier = s.heap.arenaStack d ∧
      g'.arenaSlabs = g.saved d := by
  have hdepth := h.counts.tallies.arenaDepth
  have harena := h.places.arena
  rw [hdepth, hd] at harena
  have hf := harena.frame d (Nat.lt_succ_self d)
  rcases hf.suffix with ⟨gs, hgs⟩
  have hnodup := h.places.blocks.nodup
  have hall : g.allSlabs = g.slabs ++ (gs ++ (g.saved d ++ g.freeSlabs)) := by
    rw [Shape.allSlabs, ← hgs, List.append_assoc]
  have hnodupA : (gs ++ (g.saved d ++ g.freeSlabs)).Nodup := by
    rw [hall] at hnodup
    exact (List.nodup_append.mp hnodup).2.1
  have hlen : gs.length ≤ s.mem.blocks.length := by
    have hle := h.places.blocks.length_le
    rw [hall, List.length_append, List.length_append] at hle
    omega
  have hlink := h.places.lists.arenaSlabs
  rw [← hgs] at hlink
  rcases unwindSlabs_spec gs hlen hlink h.places.lists.freeSlabs hnodupA with
    ⟨free', m', heq, hblocks, hwords, hfree'⟩
  have hclose : wokArenaClose d s = .ok ⟨{ s.heap with
      arena := ⟨(s.heap.arenaStack d).slabAtOpen, (s.heap.arenaStack d).bumpPtrSave,
        (s.heap.arenaStack d).bumpEndSave, s.heap.arena.nslabs⟩
      arenaFreeSlabs := free'
      arenaBytes := (s.heap.arenaStack d).arenaBytesBefore
      arenaDepth := s.heap.arenaDepth - 1 }, m'⟩ := by
    have hhandle : ¬ (s.heap.arenaDepth = 0 ∨ d ≠ s.heap.arenaDepth - 1) := by omega
    simp only [wokArenaClose, if_neg hhandle]
    rw [hf.head, heq]
    rfl
  have hperm : List.Perm g.allSlabs (Shape.allSlabs { g with
      arenaSlabs := g.saved d, freeSlabs := gs.reverse ++ g.freeSlabs }) := by
    rw [hall]
    apply List.Perm.append_left
    simp only
    rw [← List.append_assoc, ← List.append_assoc]
    apply List.Perm.append_right
    exact List.perm_append_comm.trans ((List.reverse_perm gs).symm.append_left _)
  have hmem : ∀ y, y ∈ Shape.arenaAll { g with
      arenaSlabs := g.saved d, freeSlabs := gs.reverse ++ g.freeSlabs } ↔ y ∈ g.arenaAll := by
    intro y
    simp only [Shape.arenaAll, ← hgs, List.mem_append, List.mem_reverse]
    tauto
  have hgsA : ∀ x ∈ gs, x ∈ g.allSlabs := fun x hx =>
    Places.mem_arenaSlabs (hgs ▸ List.mem_append_left _ hx)
  have houtside : ∀ x, x ∉ g.allSlabs → m'.words x = s.mem.words x :=
    fun x hx => hwords x fun hmem => hx (hgsA x hmem)
  have hnotgs : ∀ x ∈ g.slabs ++ g.saved d, x ∉ gs := by
    intro x hx hmem
    rw [hall] at hnodup
    rcases List.mem_append.mp hx with hx | hx
    · exact (List.nodup_append.mp hnodup).2.2 x hx x (List.mem_append_left _ hmem) rfl
    · exact (List.nodup_append.mp hnodupA).2.2 x hmem x (List.mem_append_left _ hx) rfl
  refine ⟨_, { g with
    cells := g.cells.map fun c => (c.1, c.2.close d)
    arenaSlabs := g.saved d
    freeSlabs := gs.reverse ++ g.freeSlabs }, hclose, ⟨?_, ?_, ⟨?_, ⟨?_, ?_, hfree', ?_⟩, ?_, ?_⟩,
      ?_, h.counts.close hd hgs, h.cut.close⟩, ⟨rfl, fun c hc => hblocks ▸ hc, fun c _ hc =>
      (hmem _).mp hc, fun x hx => (hmem x).mpr hx, ?_, fun _ _ => ⟨rfl, rfl⟩,
      Nat.le_refl _, Nat.le_max_left _ _⟩, rfl, rfl⟩
  · rw [List.map_map, h.addrs]
    rfl
  · have hcells : (L.closeFrom d).cells = L.cells.map (Status.close d) := rfl
    rw [hcells, h.statuses, List.map_map, List.map_map]
    rfl
  · exact ⟨hblocks ▸ h.places.blocks.separate, hblocks ▸ h.places.blocks.pos,
      fun x hx => hblocks ▸ h.places.blocks.slab x (hperm.mem_iff.mpr hx),
      hperm.nodup_iff.mp hnodup⟩
  · exact h.places.lists.slabs.congr fun x hx => hwords x (hnotgs x (List.mem_append_left _ hx))
  · rw [hf.head]
    have hkept : Linked s.mem.words ((g.saved d).headD 0) (g.saved d) := by
      have hgoal : ∀ (gs : List Nat) (q : Nat), Linked s.mem.words q (gs ++ g.saved d) →
          Linked s.mem.words ((g.saved d).headD 0) (g.saved d) := by
        intro gs
        induction gs with
        | nil => exact fun q hq => Linked.head_eq hq ▸ hq
        | cons y ys ih => exact fun q hq => ih _ hq.2.2
      exact hgoal gs _ hlink
    exact hkept.congr fun x hx => hwords x (hnotgs x (List.mem_append_right _ hx))
  · intro cls hcls
    refine (h.places.lists.free cls hcls).congr fun x hx => houtside x ?_
    have hcarved := h.places.counted.freeCarved cls hcls x hx
    rcases (h.places.counted.behind _ hcarved).1 with ⟨y, hy, hin⟩
    exact h.places.blocks.not_mem_of_body (Places.mem_slabs hy)
      (Block.Has.of_within ⟨Nat.le_refl x, by simp only; omega⟩ hin)
  · refine CountedOk.close (h.places.counted.mono ?_)
    intro q k hq hq'
    exact ⟨hblocks ▸ hq, fun hmem' => hq' (hperm.mem_iff.mpr hmem')⟩
  · have hnew : s.heap.arenaDepth - 1 = d := by omega
    simp only [hnew]
    exact harena.close
  · intro n q st hn
    rw [List.getElem?_map, Option.map_eq_some_iff] at hn
    rcases hn with ⟨⟨q', st'⟩, hn, heq'⟩
    obtain ⟨rfl, rfl⟩ := Prod.mk.inj heq'
    have hheld : Held m'.words q' st' := by
      apply (h.held n q' st' hn).congr
      intro c hc x hx
      exact houtside x ((h.places.owned hn hc).loose h.places hx).slab
    cases st' with
    | arena tag arity scope =>
        simp only [Status.close]
        split
        · exact hheld
        · trivial
    | counted k rc => exact hheld
    | freed k => trivial
    | closed => trivial
  · intro c hc hnot x hx
    apply hwords
    intro hxg
    have hself : (slabBlock x).Has x := ⟨Nat.le_refl x, by simp [slabBlock, wokArenaSize]⟩
    have hne : slabBlock x ≠ c := by
      rintro rfl
      exact hnot (List.mem_append_left _ (hgs ▸ List.mem_append_left _ hxg))
    exact (h.places.blocks.separate.apart (h.places.blocks.slab x (hgsA x hxg)) hc hne).not_has
      hself hx

end Wok.Runtime.Slab
