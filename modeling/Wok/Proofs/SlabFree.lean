/-
Module: Wok.Proofs.SlabFree
Purpose: Freeing a cell of the slab build, and changing the header or the body of one.
Imports: Wok.Proofs.SlabCounts
Trusted boundary: none
Main exports: Sound, Sound.alloc, Sound.free, Sound.write, Sound.restamp
-/
import Wok.Proofs.SlabCounts

namespace Wok.Runtime.Slab

open Wok.Lib

variable {M : Malloc} {b : Build} {s s' : State Heap} {L : Ledger} {g g' : Shape} {k k' : Kind}
  {i p rc rc' : Nat} {addrs : List Nat}

/-- What was cut from the slabs are the cells that the program got there, live or dead. -/
structure Cut (cells : List (Nat × Status)) (carved : List Block) : Prop where
  mem : ∀ {i p : Nat} {st : Status} {k : Kind}, cells[i]? = some (p, st) → st.kind = some k →
    k.cls < wokNumClasses → ⟨p, k.size⟩ ∈ carved
  got : ∀ b ∈ carved, ∃ (i : Nat) (st : Status) (k : Kind), cells[i]? = some (b.base, st) ∧
    st.kind = some k ∧ k.size = b.size

/-- The state of a heap, the addresses of the program's cells and the ledger agree. -/
structure Sound (s : State Heap) (addrs : List Nat) (L : Ledger) (g : Shape) : Prop where
  addrs : addrs = g.cells.map Prod.fst
  statuses : L.cells = g.cells.map Prod.snd
  places : Places s g
  held : AllHeld s.mem.words g.cells
  counts : Counts s.heap L g
  cut : Cut g.cells g.carved

/-- Nothing happened to the arena. -/
structure SameArena (s : State Heap) (g : Shape) (s' : State Heap) (g' : Shape) : Prop where
  arenaSlabs : g'.arenaSlabs = g.arenaSlabs
  freeSlabs : g'.freeSlabs = g.freeSlabs
  saved : g'.saved = g.saved
  stack : s'.heap.arenaStack = s.heap.arenaStack
  peak : s'.heap.peakPhysicalBytes ≤ max s.heap.peakPhysicalBytes s'.heap.curPhysicalBytes

namespace Cut

variable {cells : List (Nat × Status)} {carved carved' : List Block} {st st' : Status}

/-- A new counted cell. -/
theorem add (h : Cut cells carved) (hsub : ∀ b ∈ carved, b ∈ carved')
    (hnew : ∀ b ∈ carved', b ∈ carved ∨ b = ⟨p, k.size⟩)
    (hmem : k.cls < wokNumClasses → ⟨p, k.size⟩ ∈ carved') :
    Cut (cells ++ [(p, .counted k rc)]) carved' where
  mem := by
    intro i q st k' hi hk hlt
    rcases getElem?_concat_cases hi with hi | ⟨-, heq⟩
    · exact hsub _ (h.mem hi hk hlt)
    · cases heq
      cases hk
      exact hmem hlt
  got := by
    intro b hb
    rcases hnew b hb with hb | rfl
    · rcases h.got b hb with ⟨i, st, k', hi, hk, hsize⟩
      have hlt := (List.getElem?_eq_some_iff.mp hi).1
      exact ⟨i, st, k', (List.getElem?_append_left hlt).trans hi, hk, hsize⟩
    · exact ⟨cells.length, _, k, List.getElem?_concat_length, rfl, rfl⟩

/-- A cell changes and keeps its size. -/
theorem set (h : Cut cells carved) (hi : cells[i]? = some (p, st)) (hk : st.kind = some k)
    (hk' : st'.kind = some k') (hsize : k'.size = k.size) :
    Cut (cells.set i (p, st')) carved where
  mem := by
    intro j q st₁ k₁ hj hk₁ hlt
    rcases getElem?_set_cases hj with ⟨-, heq⟩ | ⟨-, hj⟩
    · cases heq
      obtain rfl : k' = k₁ := Option.some.inj (hk'.symm.trans hk₁)
      have hcls : k'.cls = k.cls := by rw [Kind.cls, hsize, Kind.cls]
      rw [hsize]
      exact h.mem hi hk (hcls ▸ hlt)
    · exact h.mem hj hk₁ hlt
  got := by
    intro b hb
    rcases h.got b hb with ⟨j, st₁, k₁, hj, hk₁, hsize₁⟩
    by_cases hij : i = j
    · subst hij
      rw [hi] at hj
      obtain ⟨rfl, rfl⟩ := Prod.mk.inj (Option.some.inj hj)
      obtain rfl : k = k₁ := Option.some.inj (hk.symm.trans hk₁)
      exact ⟨i, st', k', List.getElem?_set_self (List.getElem?_eq_some_iff.mp hi).1, hk',
        hsize.trans hsize₁⟩
    · exact ⟨j, st₁, k₁, (List.getElem?_set_ne hij).trans hj, hk₁, hsize₁⟩

/-- A cell of the arena is not cut from the counted slabs. -/
theorem add_arena {tag arity scope : Nat} (h : Cut cells carved) :
    Cut (cells ++ [(p, .arena tag arity scope)]) carved where
  mem := by
    intro i q st k hi hk hlt
    rcases getElem?_concat_cases hi with hi | ⟨-, heq⟩
    · exact h.mem hi hk hlt
    · cases heq
      cases hk
  got := by
    intro b hb
    rcases h.got b hb with ⟨i, st, k, hi, hk, hsize⟩
    have hlt := (List.getElem?_eq_some_iff.mp hi).1
    exact ⟨i, st, k, (List.getElem?_append_left hlt).trans hi, hk, hsize⟩

theorem close {d : Nat} (h : Cut cells carved) :
    Cut (cells.map fun c => (c.1, c.2.close d)) carved := by
  have hkind : ∀ st : Status, (st.close d).kind = st.kind := by
    intro st
    cases st with
    | arena tag arity scope =>
        simp only [Status.close]
        split <;> rfl
    | _ => rfl
  constructor
  · intro i p st k hi hk hlt
    rw [List.getElem?_map, Option.map_eq_some_iff] at hi
    rcases hi with ⟨⟨q, st'⟩, hi, heq⟩
    obtain ⟨rfl, rfl⟩ := Prod.mk.inj heq
    rw [hkind] at hk
    exact h.mem hi hk hlt
  · intro b hb
    rcases h.got b hb with ⟨i, st, k, hi, hk, hsize⟩
    refine ⟨i, st.close d, k, ?_, (hkind st).trans hk, hsize⟩
    rw [List.getElem?_map, hi]
    rfl

end Cut

theorem Sound.cell (h : Sound s addrs L g) {st : Status} (hi : L.cells[i]? = some st) :
    ∃ p, addrs[i]? = some p ∧ g.cells[i]? = some (p, st) := by
  rw [h.statuses, List.getElem?_map, Option.map_eq_some_iff] at hi
  rcases hi with ⟨⟨p, st'⟩, hi, rfl⟩
  refine ⟨p, ?_, hi⟩
  rw [h.addrs, List.getElem?_map, hi]
  rfl

theorem Sound.status (h : Sound s addrs L g) {st : Status} (hi : g.cells[i]? = some (p, st)) :
    L.cells[i]? = some st := by
  rw [h.statuses, List.getElem?_map, hi]
  rfl

/-! ### Allocation -/

/-- What was cut when a cell was taken. -/
theorem Takes.carved (ht : Takes M b s g k p s' g') :
    (∀ c ∈ g.carved, c ∈ g'.carved) ∧ ∀ c ∈ g'.carved, c ∈ g.carved ∨ c = ⟨p, k.size⟩ := by
  cases ht with
  | popped hk hfree => exact ⟨fun c hc => hc, fun c hc => .inl hc⟩
  | bumped hk hfree hptr hroom =>
      exact ⟨fun c hc => List.mem_cons_of_mem _ hc, fun c hc => (List.mem_cons.mp hc).symm⟩
  | grown hk hfree hfull hx hcheck =>
      exact ⟨fun c hc => List.mem_cons_of_mem _ hc, fun c hc => (List.mem_cons.mp hc).symm⟩
  | malloced hk hp => exact ⟨fun c hc => hc, fun c hc => .inl hc⟩

theorem Takes.sameArena {cells : List (Nat × Status)} (ht : Takes M b s g k p s' g') :
    SameArena s g s' { g' with cells := cells } := by
  cases ht with
  | popped hk hfree => exact ⟨rfl, rfl, rfl, rfl, Nat.le_max_left _ _⟩
  | bumped hk hfree hptr hroom => exact ⟨rfl, rfl, rfl, rfl, Nat.le_max_left _ _⟩
  | grown hk hfree hfull hx hcheck => exact ⟨rfl, rfl, rfl, rfl, (Nat.max_comm _ _).le⟩
  | malloced hk hp => exact ⟨rfl, rfl, rfl, rfl, (Nat.max_comm _ _).le⟩

/-- A cell is taken, stamped and counted. -/
theorem Sound.alloc {r : Request} (h : Sound s addrs L g) (hok : r.Ok) (hr : r.overflow = none)
    (ht : Takes M b s g r.kind p s' g') :
    ∃ g'', Sound ⟨{ s'.heap with
      toCounters := (s'.heap.toCounters.recordAlloc r.kind.size).logicalMark },
      stampCell p r s'.mem⟩ (addrs ++ [p]) (L.addCounted r.kind) g'' ∧
      SameArena s g s' g'' := by
  have hplaces := ht.places h.places
  have hready := ht.ready h.places
  have hheld := ht.held h.places h.held
  have hcells := ht.cells
  have hwords : ∀ x, ¬ (Block.mk p r.kind.size).Has x →
      (stampCell p r s'.mem).words x = s'.mem.words x :=
    fun x hx => stampCell_words_of_not_has hx
  refine ⟨{ g' with cells := g'.cells ++ [(p, .counted r.kind 1)] }, ?_, ht.sameArena⟩
  constructor
  case addrs => rw [h.addrs, List.map_append, hcells]; rfl
  case statuses =>
    have happend : (L.addCounted r.kind).cells = L.cells ++ [Status.counted r.kind 1] := rfl
    rw [happend, h.statuses, List.map_append, hcells]
    rfl
  case places =>
    have hstamped := hplaces.agree hready.owned stampCell_blocks hwords
    have hready' : Ready ⟨s'.heap, stampCell p r s'.mem⟩ g' p r.kind := by
      refine ⟨hready.small, ?_, hready.new⟩
      simp only [stampCell_blocks]
      exact hready.large
    exact (hready'.add hstamped).counters rfl
  case held =>
    intro n q st hn
    rcases getElem?_concat_cases hn with hn | ⟨-, heq⟩
    · exact hready.owned.held hplaces hheld hwords hn nofun
    · cases heq
      exact held_stampCell hok hr
  case counts => exact h.counts.take h.places ht _
  case cut =>
    rw [hcells]
    exact h.cut.add ht.carved.1 ht.carved.2 fun hk => (hready.small hk).1

/-! ### Freeing -/

theorem ArenaOk.set {arenaSlabs : List Nat} {ptr stop depth : Nat} {stack : Nat → ArenaFrame}
    {saved : Nat → List Nat} {cells : List (Nat × Status)} {st : Status}
    (h : ArenaOk arenaSlabs ptr stop depth stack saved cells)
    (hst : ∀ d, st.scopeBytes d = 0) :
    ArenaOk arenaSlabs ptr stop depth stack saved (cells.set i (p, st)) where
  frontier := h.frontier
  cell := fun hj => h.cell (arena_of_set (hst _) hj)
  apart := fun hj hj' => h.apart (arena_of_set (hst _) hj) (arena_of_set (hst _) hj')
  frame := fun d hd =>
    have hf := h.frame d hd
    ⟨hf.suffix, hf.below, hf.head, hf.frontier, fun hj => hf.cell (arena_of_set (hst _) hj)⟩

/-- A cell with a class goes to the free list of its class. -/
theorem Places.release_small (h : Places s g) (hi : g.cells[i]? = some (p, .counted k rc))
    (hk : k.cls < wokNumClasses) :
    Places ⟨{ s.heap with freelist := Function.update s.heap.freelist k.cls p },
        s.mem.write p (s.heap.freelist k.cls)⟩
      { g with
        cells := g.cells.set i (p, .freed k)
        free := Function.update g.free k.cls (p :: g.free k.cls) } := by
  have hsize := k.size_eq
  have hsmall := h.counted.small hi hk
  have hpos : p ≠ 0 := by
    rintro rfl
    rcases (h.counted.behind _ hsmall.1).1 with ⟨x, -, hin, -⟩
    simp only [slabBody, wokGranule] at hin
    omega
  have hhas : (⟨p, k.size⟩ : Block).Has p := ⟨Nat.le_refl p, by simp only; omega⟩
  have hloose := (h.owned hi rfl).loose h hhas
  have hother : ∀ {cls q : Nat}, q ∈ Function.update g.free k.cls (p :: g.free k.cls) cls →
      (q = p ∧ cls = k.cls) ∨ q ∈ g.free cls := by
    intro cls q hq
    by_cases heq : cls = k.cls
    · subst heq
      rw [Function.update_self] at hq
      rcases List.mem_cons.mp hq with rfl | hq
      · exact .inl ⟨rfl, rfl⟩
      · exact .inr hq
    · rw [Function.update_of_ne heq] at hq
      exact .inr hq
  refine ⟨h.blocks, ⟨?_, ?_, ?_, ?_⟩, ?_, h.arena.set fun _ => rfl⟩
  · exact h.lists.slabs.update fun hmem => hloose.slab (mem_slabs hmem)
  · exact h.lists.arenaSlabs.update fun hmem => hloose.slab (mem_arenaSlabs hmem)
  · exact h.lists.freeSlabs.update fun hmem => hloose.slab (mem_freeSlabs hmem)
  · intro cls hcls
    by_cases heq : cls = k.cls
    · subst heq
      simp only [Function.update_self]
      exact (h.lists.free _ hcls).push hsmall.2 hpos
    · simp only [Function.update_of_ne heq]
      exact (h.lists.free cls hcls).update (hloose.free cls hcls)
  · constructor
    case frontier => exact h.counted.frontier
    case separate => exact h.counted.separate
    case behind => exact h.counted.behind
    case pos => exact h.counted.pos
    case freeCarved =>
      intro cls hcls q hq
      rcases hother hq with ⟨rfl, rfl⟩ | hq
      · exact hsize ▸ hsmall.1
      · exact h.counted.freeCarved cls hcls q hq
    case freeNodup =>
      intro cls hcls
      by_cases heq : cls = k.cls
      · subst heq
        simp only [Function.update_self]
        exact List.nodup_cons.mpr ⟨hsmall.2, h.counted.freeNodup _ hcls⟩
      · simp only [Function.update_of_ne heq]
        exact h.counted.freeNodup cls hcls
    case small =>
      intro j q rc' k' hj hk'
      rcases counted_of_set rfl hj with ⟨hne, hold⟩
      refine ⟨(h.counted.small hold hk').1, fun hq => ?_⟩
      rcases hother hq with ⟨rfl, -⟩ | hq
      · exact hne (h.counted.inj hold hi)
      · exact (h.counted.small hold hk').2 hq
    case large => exact fun hj hk' => h.counted.large (counted_of_set rfl hj).2 hk'
    case inj =>
      exact fun hj hj' => h.counted.inj (counted_of_set rfl hj).2 (counted_of_set rfl hj').2

/-- A cell without a class goes back to `malloc`. -/
theorem Places.release_large (h : Places s g) (hi : g.cells[i]? = some (p, .counted k rc))
    (hk : wokNumClasses ≤ k.cls) :
    Places ⟨s.heap, s.mem.free p⟩ { g with cells := g.cells.set i (p, .freed k) } := by
  have hlarge := h.counted.large hi hk
  refine ⟨⟨?_, ?_, ?_, h.blocks.nodup⟩, ⟨h.lists.slabs, h.lists.arenaSlabs, h.lists.freeSlabs,
    h.lists.free⟩, ?_, h.arena.set fun _ => rfl⟩
  · exact h.blocks.separate.filter _
  · exact fun c hc => h.blocks.pos c (Memory.mem_free.mp hc).1
  · intro x hx
    refine Memory.mem_free.mpr ⟨h.blocks.slab x hx, ?_⟩
    rintro rfl
    exact hlarge.2 hx
  · constructor
    case frontier => exact h.counted.frontier
    case separate => exact h.counted.separate
    case behind => exact h.counted.behind
    case pos => exact h.counted.pos
    case freeCarved => exact h.counted.freeCarved
    case freeNodup => exact h.counted.freeNodup
    case small => exact fun hj hk' => h.counted.small (counted_of_set rfl hj).2 hk'
    case large =>
      intro j q rc' k' hj hk'
      rcases counted_of_set rfl hj with ⟨hne, hold⟩
      refine ⟨Memory.mem_free.mpr ⟨(h.counted.large hold hk').1, ?_⟩,
        (h.counted.large hold hk').2⟩
      rintro rfl
      exact hne (h.counted.inj hold hi)
    case inj =>
      exact fun hj hj' => h.counted.inj (counted_of_set rfl hj).2 (counted_of_set rfl hj').2

/-- The counts after a cell was freed. -/
theorem Counts.release {c : Counters} (free : Nat → List Nat) {freelist : Nat → Nat}
    {cells : List (Nat × Status)} (hc : Counts s.heap L g)
    (hi : L.cells[i]? = some (.counted k rc))
    (htallies : Tallies c { L.set i (.freed k) with frees := L.frees + 1 })
    (hphys : c.curPhysicalBytes + Status.largeBytes (.counted k rc) = s.heap.curPhysicalBytes)
    (hpeak : c.peakPhysicalBytes = s.heap.peakPhysicalBytes)
    (hfree : ∀ cls < wokNumClasses,
      (free cls).length = (g.free cls).length + Status.ofClass cls (.counted k rc)) :
    Counts { s.heap with toCounters := c, freelist := freelist }
      { L.set i (.freed k) with frees := L.frees + 1 } { g with cells := cells, free := free } := by
  have htotal : ∀ f, (L.set i (.freed k)).total f + f (.counted k rc) = L.total f + f (.freed k) :=
    fun f => Ledger.total_set f _ hi
  have hscope : ∀ d, (L.set i (.freed k)).total (Status.scopeBytes d) =
      L.total (Status.scopeBytes d) := fun d => htotal (Status.scopeBytes d)
  constructor
  case tallies => exact htallies
  case nslabs => exact hc.nslabs
  case arenaNslabs => exact hc.arenaNslabs
  case physical =>
    have hlarge := htotal Status.largeBytes
    have hzero : Status.largeBytes (.freed k) = 0 := rfl
    have hold := hc.physical
    have hgoal : c.curPhysicalBytes =
        wokArenaSize * (g.slabs.length + (g.arenaSlabs.length + g.freeSlabs.length)) +
          (L.set i (.freed k)).total Status.largeBytes := by omega
    exact hgoal
  case classes =>
    intro cls hcls
    have hone := htotal (Status.ofClass cls)
    have hzero : Status.ofClass cls (.freed k) = 0 := rfl
    have hold := hc.classes cls hcls
    have hlen := hfree cls hcls
    have hgoal : (L.set i (.freed k)).total (Status.ofClass cls) + (free cls).length =
        L.classPeak cls := by omega
    exact hgoal
  case packed => exact hc.packed
  case arenaPacked =>
    have harena : (L.set i (.freed k)).arenaBytes = L.arenaBytes := hscope L.depth
    have hgoal := hc.arenaPacked
    rw [← harena] at hgoal
    exact hgoal
  case frames =>
    intro d hd
    have hgoal := hc.frames d hd
    rw [← hscope d] at hgoal
    exact hgoal
  case arenaHeld => exact hc.arenaHeld
  case arenaPeak => exact hc.arenaPeak
  case marked =>
    have hmarked := hc.marked
    have hgoal : c.curPhysicalBytes ≤ c.peakPhysicalBytes := by omega
    exact hgoal

/-- A free, whatever the class of the cell. -/
theorem Sound.free (h : Sound s addrs L g) (hi : g.cells[i]? = some (p, .counted k 0)) :
    ∃ s' g', wokFree p s = .ok s' ∧
      Sound s' addrs { L.set i (.freed k) with frees := L.frees + 1 } g' ∧
      SameArena s g s' g' := by
  have hheld := h.held i p _ hi
  have hcls := hheld.2.2.freeClass hheld.1
  have hLi := h.status hi
  have haddrs : addrs = (g.cells.set i (p, .freed k)).map Prod.fst := by
    rw [List.map_set, h.addrs]
    refine (set_eq_self ?_).symm
    rw [List.getElem?_map, hi]
    rfl
  have hstatuses : L.cells.set i (.freed k) = (g.cells.set i (p, .freed k)).map Prod.snd := by
    rw [List.map_set, h.statuses]
  simp only [wokFree, hheld.2.1, ne_eq, not_true_eq_false, if_false,
    hheld.2.2.freeBytes hheld.1, hcls]
  rcases Nat.lt_or_ge k.cls wokNumClasses with hk | hk
  · rw [Kind.slabClass_of_lt hheld.1 hk]
    simp only [bind, Except.bind, if_pos hk]
    refine ⟨_, { g with
      cells := g.cells.set i (p, .freed k)
      free := Function.update g.free k.cls (p :: g.free k.cls) }, rfl, ⟨haddrs, hstatuses,
      (h.places.release_small hi hk).counters rfl, ?_, ?_, h.cut.set hi rfl rfl rfl⟩,
      rfl, rfl, rfl, rfl, Nat.le_max_left _ _⟩
    · intro n q st hn
      rcases getElem?_set_cases hn with ⟨-, heq⟩ | ⟨hne, hn⟩
      · cases heq
        trivial
      · apply (h.places.owned hi rfl).held h.places h.held _ hn fun heq => hne (Option.some.inj heq)
        intro x hx
        apply Memory.words_write_of_ne
        rintro rfl
        exact hx ⟨Nat.le_refl x, by have := k.size_pos; simp only; omega⟩
    · apply h.counts.release _ hLi (h.counts.tallies.release hLi)
      · have hzero : Status.largeBytes (.counted k 0) = 0 := if_neg (Nat.not_le.mpr hk)
        rw [hzero]
        rfl
      · rfl
      · intro cls hlt
        by_cases heq : cls = k.cls
        · subst heq
          simp only [Function.update_self, List.length_cons, Status.ofClass, if_true]
        · simp only [Function.update_of_ne heq, Status.ofClass, if_neg (Ne.symm heq),
            Nat.add_zero]
  · have hge := Kind.le_slabClass hheld.1 hk
    simp only [bind, Except.bind, if_neg (Nat.not_lt.mpr hge)]
    refine ⟨_, { g with cells := g.cells.set i (p, .freed k) }, rfl, ⟨haddrs, hstatuses,
      (h.places.release_large hi hk).counters rfl, ?_, ?_, h.cut.set hi rfl rfl rfl⟩,
      rfl, rfl, rfl, rfl, Nat.le_max_left _ _⟩
    · intro n q st hn
      rcases getElem?_set_cases hn with ⟨-, heq⟩ | ⟨-, hn⟩
      · cases heq
        trivial
      · exact h.held n q st hn
    · apply h.counts.release g.free hLi (h.counts.tallies.release hLi).physSub
      · have hlarge : Status.largeBytes (.counted k 0) = k.size := if_pos hk
        have hle := Ledger.total_set Status.largeBytes (.freed k) hLi
        have hzero : Status.largeBytes (.freed k) = 0 := rfl
        have hphys := h.counts.physical
        simp only [Counters.physSub, Counters.recordFree, hlarge]
        omega
      · rfl
      · intro cls hlt
        have hne : k.cls ≠ cls := by omega
        simp only [Status.ofClass, if_neg hne, Nat.add_zero]

/-! ### Changes inside a cell -/

section Inside

variable {m : Memory} {r : Block}

/-- The words of a cell change, and its header still agrees with the ledger. -/
theorem Sound.write {st : Status} (h : Sound s addrs L g) (hi : g.cells[i]? = some (p, st))
    (hr : st.block p = some r) (hblocks : m.blocks = s.mem.blocks)
    (hwords : ∀ x, ¬ r.Has x → m.words x = s.mem.words x) (hheld : Held m.words p st) :
    Sound ⟨s.heap, m⟩ addrs L g where
  addrs := h.addrs
  statuses := h.statuses
  places := h.places.agree (h.places.owned hi hr) hblocks hwords
  held := by
    intro n q st' hn
    by_cases hne : n = i
    · subst hne
      rw [hi] at hn
      cases hn
      exact hheld
    · exact (h.places.owned hi hr).held h.places h.held hwords hn
        fun heq => hne (Option.some.inj heq)
  counts := h.counts
  cut := h.cut

theorem Places.set_counted (h : Places s g) (hi : g.cells[i]? = some (p, .counted k rc))
    (hsize : k'.size = k.size) :
    Places s { g with cells := g.cells.set i (p, .counted k' rc') } := by
  have hcls : k'.cls = k.cls := by rw [Kind.cls, hsize, Kind.cls]
  -- the cell is where one of the same size was
  have hold : ∀ {j q rc₁ : Nat} {k₁ : Kind},
      (g.cells.set i (p, Status.counted k' rc'))[j]? = some (q, .counted k₁ rc₁) →
      ∃ k₂ rc₂, g.cells[j]? = some (q, .counted k₂ rc₂) ∧ k₂.size = k₁.size ∧ k₂.cls = k₁.cls := by
    intro j q rc₁ k₁ hj
    rcases getElem?_set_cases hj with ⟨rfl, heq⟩ | ⟨-, hj⟩
    · cases heq
      exact ⟨k, rc, hi, hsize.symm, hcls.symm⟩
    · exact ⟨k₁, rc₁, hj, rfl, rfl⟩
  refine ⟨h.blocks, ⟨h.lists.slabs, h.lists.arenaSlabs, h.lists.freeSlabs, h.lists.free⟩, ?_,
    h.arena.set fun _ => rfl⟩
  constructor
  case frontier => exact h.counted.frontier
  case separate => exact h.counted.separate
  case behind => exact h.counted.behind
  case pos => exact h.counted.pos
  case freeCarved => exact h.counted.freeCarved
  case freeNodup => exact h.counted.freeNodup
  case small =>
    intro j q rc₁ k₁ hj hk
    rcases hold hj with ⟨k₂, rc₂, hj, hsize', hcls'⟩
    have := h.counted.small hj (hcls' ▸ hk)
    rwa [hsize', hcls'] at this
  case large =>
    intro j q rc₁ k₁ hj hk
    rcases hold hj with ⟨k₂, rc₂, hj, hsize', hcls'⟩
    have := h.counted.large hj (hcls' ▸ hk)
    rwa [hsize'] at this
  case inj =>
    intro j j' q rc₁ rc₂ k₁ k₂ hj hj'
    rcases hold hj with ⟨_, _, hj, -⟩
    rcases hold hj' with ⟨_, _, hj', -⟩
    exact h.counted.inj hj hj'

/-- The counts do not look at counts of references, nor at tags. -/
theorem Counts.restamp {cells : List (Nat × Status)} (hc : Counts s.heap L g)
    (hi : L.cells[i]? = some (.counted k rc)) (hsize : k'.size = k.size) :
    Counts s.heap (L.set i (.counted k' rc')) { g with cells := cells } := by
  have hcls : k'.cls = k.cls := by rw [Kind.cls, hsize, Kind.cls]
  have htotal : ∀ f, f (.counted k' rc') = f (.counted k rc) →
      (L.set i (.counted k' rc')).total f = L.total f := by
    intro f hf
    have := Ledger.total_set f (.counted k' rc') hi
    omega
  constructor
  case tallies => exact hc.tallies.restamp hi hsize
  case nslabs => exact hc.nslabs
  case arenaNslabs => exact hc.arenaNslabs
  case physical =>
    rw [htotal _ (by simp only [Status.largeBytes, hcls, hsize])]
    exact hc.physical
  case classes =>
    intro cls hlt
    rw [htotal _ (by simp only [Status.ofClass, hcls])]
    exact hc.classes cls hlt
  case packed => exact hc.packed
  case arenaPacked =>
    have harena : (L.set i (.counted k' rc')).arenaBytes = L.arenaBytes :=
      htotal (Status.scopeBytes L.depth) rfl
    rw [harena]
    exact hc.arenaPacked
  case frames =>
    intro d hd
    rw [htotal (Status.scopeBytes d) rfl]
    exact hc.frames d hd
  case arenaHeld => exact hc.arenaHeld
  case arenaPeak => exact hc.arenaPeak
  case marked => exact hc.marked

/-- A cell gets another count, or another tag. -/
theorem Sound.restamp (h : Sound s addrs L g) (hi : g.cells[i]? = some (p, .counted k rc))
    (hsize : k'.size = k.size) (hblocks : m.blocks = s.mem.blocks)
    (hwords : ∀ x, ¬ (Block.mk p k.size).Has x → m.words x = s.mem.words x)
    (hheld : Held m.words p (.counted k' rc')) :
    Sound ⟨s.heap, m⟩ addrs (L.set i (.counted k' rc'))
      { g with cells := g.cells.set i (p, .counted k' rc') } where
  addrs := by
    rw [List.map_set, h.addrs]
    refine (set_eq_self ?_).symm
    rw [List.getElem?_map, hi]
    rfl
  statuses := by
    have hset : (L.set i (.counted k' rc')).cells = L.cells.set i (.counted k' rc') := rfl
    rw [hset, List.map_set, h.statuses]
  places := (h.places.set_counted hi hsize).agree
    ((h.places.set_counted hi hsize).owned
      (show (g.cells.set i (p, .counted k' rc'))[i]? = some (p, .counted k' rc') from
        List.getElem?_set_self (List.getElem?_eq_some_iff.mp hi).1) rfl) hblocks
    (hsize ▸ hwords)
  held := by
    intro n q st hn
    rcases getElem?_set_cases hn with ⟨-, heq⟩ | ⟨hne, hn⟩
    · cases heq
      exact hheld
    · exact (h.places.owned hi rfl).held h.places h.held hwords hn
        fun heq => hne (Option.some.inj heq)
  counts := h.counts.restamp (h.status hi) hsize
  cut := h.cut.set hi rfl rfl hsize

/-- The other counters of the slab build have no part in this. -/
theorem Sound.reused {n n' : Nat} (h : Sound s addrs L g) :
    Sound ⟨{ s.heap with reused := n, reusedInplace := n' }, s.mem⟩ addrs L g :=
  ⟨h.addrs, h.statuses,
    ⟨h.places.blocks, ⟨h.places.lists.slabs, h.places.lists.arenaSlabs, h.places.lists.freeSlabs,
      h.places.lists.free⟩, h.places.counted, h.places.arena⟩,
    h.held,
    ⟨h.counts.tallies, h.counts.nslabs, h.counts.arenaNslabs, h.counts.physical,
      h.counts.classes, h.counts.packed, h.counts.arenaPacked, h.counts.frames,
      h.counts.arenaHeld, h.counts.arenaPeak, h.counts.marked⟩,
    h.cut⟩

end Inside

end Wok.Runtime.Slab
