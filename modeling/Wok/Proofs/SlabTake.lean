/-
Module: Wok.Proofs.SlabTake
Purpose: Where the slab build takes a new counted cell from, and that memory is still
  divided as it should be then.
Imports: Wok.Proofs.SlabLayout
Trusted boundary: none
Main exports: Takes, Stops, takeCell_takes, takeCell_error, Takes.places, Takes.ready,
  Ready.add
-/
import Wok.Proofs.SlabLayout

namespace Wok.Runtime.Slab

open Wok.Lib

variable {M : Malloc} {b : Build} {s s' : State Heap} {g g' : Shape} {k : Kind} {p x n : Nat}
  {e : Abort}

/-! ### A new block -/

theorem wokCheckPhysical_error {h : Counters} (he : wokCheckPhysical b h = .error e) :
    e = .physical ∧ b.checkPhysical = true ∧ ¬ h.PhysicalBound := by
  simp only [wokCheckPhysical] at he
  split at he
  · next hc =>
      cases he
      exact ⟨rfl, hc⟩
  · cases he

section NewBlock

variable {m : Memory} {all : List Nat}

theorem BlocksOk.withBlock (h : BlocksOk m.blocks all) (hp : M.pick m n = some p)
    (hn : 0 < n) : BlocksOk (withBlock p n m).blocks all where
  separate := List.pairwise_cons.mpr ⟨M.fresh hp, h.separate⟩
  pos := by
    intro c hc
    rcases List.mem_cons.mp hc with rfl | hc
    · exact ⟨hn, M.pos hp, M.aligned hp⟩
    · exact h.pos c hc
  slab := fun y hy => List.mem_cons_of_mem _ (h.slab y hy)
  nodup := h.nodup

/-- A new block is at no block that is held. -/
theorem BlocksOk.fresh (h : BlocksOk m.blocks all) (hp : M.pick m n = some p) (hn : 0 < n) :
    ∀ c ∈ m.blocks, c.base ≠ p := by
  intro c hc heq
  exact (M.fresh hp c hc).base_ne hn (h.pos c hc).1 heq.symm

theorem BlocksOk.fresh_slab (h : BlocksOk m.blocks all) (hp : M.pick m n = some p)
    (hn : 0 < n) : p ∉ all := fun hall => h.fresh hp hn _ (h.slab p hall) rfl

theorem BlocksOk.addSlab (h : BlocksOk m.blocks all) (hp : M.pick m wokArenaSize = some p) :
    BlocksOk (Runtime.withBlock p wokArenaSize m).blocks (p :: all) where
  separate := (h.withBlock hp (by decide)).separate
  pos := (h.withBlock hp (by decide)).pos
  slab := by
    intro y hy
    rcases List.mem_cons.mp hy with rfl | hy
    · exact List.mem_cons_self
    · exact List.mem_cons_of_mem _ (h.slab y hy)
  nodup := List.nodup_cons.mpr ⟨h.fresh_slab hp (by decide), h.nodup⟩

theorem CountedOk.mono {blocks blocks' carved : List Block} {all all' slabs : List Nat}
    {ptr stop : Nat} {cells : List (Nat × Status)} {free : Nat → List Nat}
    (h : CountedOk blocks all slabs ptr stop cells free carved)
    (hblocks : ∀ {p k}, ⟨p, Kind.size k⟩ ∈ blocks → p ∉ all →
      ⟨p, k.size⟩ ∈ blocks' ∧ p ∉ all') :
    CountedOk blocks' all' slabs ptr stop cells free carved where
  frontier := h.frontier
  separate := h.separate
  behind := h.behind
  pos := h.pos
  freeCarved := h.freeCarved
  freeNodup := h.freeNodup
  small := h.small
  large := fun hi hk => hblocks (h.large hi hk).1 (h.large hi hk).2
  inj := h.inj

end NewBlock

/-! ### Taking a cell -/

/-- The ways a cell of kind `k` is taken. -/
inductive Takes (M : Malloc) (b : Build) (s : State Heap) (g : Shape) (k : Kind) :
    Nat → State Heap → Shape → Prop where
  /-- from the free list of its class -/
  | popped {p : Nat} {rest : List Nat} (hk : k.cls < wokNumClasses)
      (hfree : g.free k.cls = p :: rest) :
      Takes M b s g k p
        ⟨{ s.heap with
          freelist := Function.update s.heap.freelist k.cls (s.mem.words p)
          reused := s.heap.reused + 1 }, s.mem⟩
        { g with free := Function.update g.free k.cls rest }
  /-- from the newest slab -/
  | bumped (hk : k.cls < wokNumClasses) (hfree : g.free k.cls = [])
      (hptr : s.heap.counted.bumpPtr ≠ 0)
      (hroom : k.size ≤ s.heap.counted.bumpEnd - s.heap.counted.bumpPtr) :
      Takes M b s g k s.heap.counted.bumpPtr
        ⟨{ s.heap with
          counted := { s.heap.counted with bumpPtr := s.heap.counted.bumpPtr + k.size } }, s.mem⟩
        { g with carved := ⟨s.heap.counted.bumpPtr, k.size⟩ :: g.carved }
  /-- from a new slab -/
  | grown {x : Nat} (hk : k.cls < wokNumClasses) (hfree : g.free k.cls = [])
      (hfull : s.heap.counted.full k.size = true) (hx : M.pick s.mem wokArenaSize = some x)
      (hcheck : b.checkPhysical = true →
        (s.heap.toCounters.physAdd wokArenaSize).PhysicalBound) :
      Takes M b s g k (x + wokGranule)
        ⟨{ s.heap with
          toCounters := s.heap.toCounters.physAdd wokArenaSize
          counted := ⟨x, x + wokGranule + k.size, x + wokArenaSize, s.heap.counted.nslabs + 1⟩ },
          (withBlock x wokArenaSize s.mem).write x s.heap.counted.slabs⟩
        { g with slabs := x :: g.slabs, carved := ⟨x + wokGranule, k.size⟩ :: g.carved }
  /-- from `malloc` -/
  | malloced {p : Nat} (hk : wokNumClasses ≤ k.cls) (hp : M.pick s.mem k.size = some p) :
      Takes M b s g k p
        ⟨{ s.heap with toCounters := s.heap.toCounters.physAdd k.size },
          withBlock p k.size s.mem⟩ g

theorem wokGrowSlab_ok {r r' : Region} (h : wokGrowSlab M b r 0 s = .ok (r', s')) :
    ∃ x, M.pick s.mem wokArenaSize = some x ∧
      (b.checkPhysical = true → (s.heap.toCounters.physAdd wokArenaSize).PhysicalBound) ∧
      r' = ⟨x, x + wokGranule, x + wokArenaSize, r.nslabs + 1⟩ ∧
      s' = ⟨{ s.heap with toCounters := s.heap.toCounters.physAdd wokArenaSize },
        (withBlock x wokArenaSize s.mem).write x r.slabs⟩ := by
  rcases exceptBind_ok h with ⟨⟨x, m⟩, hm, h⟩
  rcases exceptBind_ok h with ⟨u, hc, h⟩
  rcases wokMalloc_ok hm with ⟨hx, rfl⟩
  cases h
  refine ⟨x, hx, ?_, rfl, rfl⟩
  intro hb
  by_contra hbound
  simp only [wokCheckPhysical, if_pos (And.intro hb hbound)] at hc
  cases hc

theorem wokGrowSlab_error {r : Region} (h : wokGrowSlab M b r 0 s = .error e) :
    (e = .outOfMemory ∧ ∃ m n, M.pick m n = none) ∨
      (e = .physical ∧ b.checkPhysical = true ∧
        ¬ (s.heap.toCounters.physAdd wokArenaSize).PhysicalBound) := by
  rcases exceptBind_error h with h | ⟨⟨x, m⟩, hm, h⟩
  · rcases wokMalloc_error h with ⟨rfl, hpick⟩
    exact .inl ⟨rfl, _, _, hpick⟩
  · rcases exceptBind_error h with h | ⟨u, hc, h⟩
    · exact .inr (wokCheckPhysical_error h)
    · cases h

/-- A new slab is needed, and the bound does not allow it. -/
def Tight (s : State Heap) : Prop :=
  ¬ (s.heap.toCounters.physAdd wokArenaSize).PhysicalBound ∧
    ((∃ sz, 0 < sz ∧ sz ≤ 512 ∧ s.heap.counted.full sz = true) ∨
      ∃ sz, 0 < sz ∧ sz ≤ 2048 ∧ s.heap.arena.full sz = true ∧ s.heap.arenaFreeSlabs = 0)

/-- What ends a call without the ledger saying so. -/
def Stops (M : Malloc) (b : Build) (s : State Heap) (e : Abort) : Prop :=
  (e = .outOfMemory ∧ ∃ m n, M.pick m n = none) ∨
    (e = .physical ∧ b.checkPhysical = true ∧ Tight s)

theorem full_eq_false {r : Region} {sz : Nat} :
    r.full sz = false ↔ r.bumpPtr ≠ 0 ∧ sz ≤ r.bumpEnd - r.bumpPtr := by
  simp [Region.full]

/-- How a cell was taken. -/
theorem takeCell_takes (h : Places s g) (hfits : k.Fits)
    (ht : takeCell M b k.size k.slabClass s = .ok (p, s')) : ∃ g', Takes M b s g k p s' g' := by
  rcases Nat.lt_or_ge k.cls wokNumClasses with hk | hk
  · have hlist := h.lists.free k.cls hk
    rw [Kind.slabClass_of_lt hfits hk] at ht
    simp only [takeCell, if_pos hk] at ht
    by_cases hhead : s.heap.freelist k.cls = 0
    · have hfree : g.free k.cls = [] := hlist.eq_nil_iff.mpr hhead
      simp only [hhead, ne_eq, not_true_eq_false, if_false] at ht
      rcases exceptBind_ok ht with ⟨s₁, hs₁, ht⟩
      cases ht
      cases hfull : s.heap.counted.full k.size with
      | false =>
          simp only [makeRoom, hfull, Bool.false_eq_true, if_false] at hs₁
          cases hs₁
          rcases full_eq_false.mp hfull with ⟨hptr, hroom⟩
          exact ⟨_, .bumped hk hfree hptr hroom⟩
      | true =>
          simp only [makeRoom, hfull, if_true] at hs₁
          rcases exceptBind_ok hs₁ with ⟨⟨r, s₂⟩, hgrow, hs₁⟩
          cases hs₁
          rcases wokGrowSlab_ok hgrow with ⟨x, hx, hcheck, rfl, rfl⟩
          exact ⟨_, .grown hk hfree hfull hx hcheck⟩
    · simp only [ne_eq, hhead, not_false_eq_true, if_true] at ht
      cases ht
      rcases hlist.uncons hhead with ⟨rest, hfree, -⟩
      exact ⟨_, .popped hk hfree⟩
  · have hcls := Kind.le_slabClass hfits hk
    simp only [takeCell, if_neg (Nat.not_lt.mpr hcls)] at ht
    rcases exceptBind_ok ht with ⟨⟨q, m⟩, hm, ht⟩
    rcases wokMalloc_ok hm with ⟨hq, rfl⟩
    cases ht
    exact ⟨_, .malloced hk hq⟩

/-- Only a lack of memory and the check of the physical bound stop it. -/
theorem takeCell_error (hfits : k.Fits)
    (ht : takeCell M b k.size k.slabClass s = .error e) : Stops M b s e := by
  rcases Nat.lt_or_ge k.cls wokNumClasses with hk | hk
  · rw [Kind.slabClass_of_lt hfits hk] at ht
    simp only [takeCell, if_pos hk] at ht
    by_cases hhead : s.heap.freelist k.cls = 0
    · simp only [hhead, ne_eq, not_true_eq_false, if_false] at ht
      rcases exceptBind_error ht with ht | ⟨s₁, -, ht⟩
      · cases hfull : s.heap.counted.full k.size with
        | false =>
            simp only [makeRoom, hfull, Bool.false_eq_true, if_false] at ht
            cases ht
        | true =>
            simp only [makeRoom, hfull, if_true] at ht
            rcases exceptBind_error ht with ht | ⟨res, -, ht⟩
            · rcases wokGrowSlab_error ht with hoom | ⟨rfl, hb, hbound⟩
              · exact .inl hoom
              · have hsize := k.size_eq
                simp only [wokNumClasses] at hk
                exact .inr ⟨rfl, hb, hbound, .inl ⟨k.size, k.size_pos, by omega, hfull⟩⟩
            · cases ht
      · cases ht
    · simp only [ne_eq, hhead, not_false_eq_true, if_true] at ht
      cases ht
  · have hcls := Kind.le_slabClass hfits hk
    simp only [takeCell, if_neg (Nat.not_lt.mpr hcls)] at ht
    rcases exceptBind_error ht with ht | ⟨res, -, ht⟩
    · rcases wokMalloc_error ht with ⟨rfl, hpick⟩
      exact .inl ⟨rfl, _, _, hpick⟩
    · cases ht

/-! ### The counted region after a cell was taken -/

namespace CountedOk

variable {blocks blocks' carved : List Block} {all slabs : List Nat} {ptr stop sz cls : Nat}
  {cells : List (Nat × Status)} {free : Nat → List Nat} {rest : List Nat}

theorem mem_of_mem_update {cls' : Nat} {q : Nat} (hfree : free cls = p :: rest)
    (hq : q ∈ Function.update free cls rest cls') : q ∈ free cls' := by
  by_cases hcls : cls' = cls
  · subst hcls
    rw [Function.update_self] at hq
    exact hfree ▸ List.mem_cons_of_mem p hq
  · rwa [Function.update_of_ne hcls] at hq

theorem pop (h : CountedOk blocks all slabs ptr stop cells free carved)
    (hfree : free cls = p :: rest) :
    CountedOk blocks all slabs ptr stop cells (Function.update free cls rest) carved where
  frontier := h.frontier
  separate := h.separate
  behind := h.behind
  pos := h.pos
  freeCarved := fun cls' hcls' q hq => h.freeCarved cls' hcls' q (mem_of_mem_update hfree hq)
  freeNodup := by
    intro cls' hcls'
    have hnodup := h.freeNodup cls' hcls'
    by_cases heq : cls' = cls
    · subst heq
      rw [hfree] at hnodup
      rw [Function.update_self]
      exact (List.nodup_cons.mp hnodup).2
    · rwa [Function.update_of_ne heq]
  small := fun hi hk =>
    ⟨(h.small hi hk).1, fun hq => (h.small hi hk).2 (mem_of_mem_update hfree hq)⟩
  large := h.large
  inj := h.inj

/-- The popped cell is on no free list any more. -/
theorem not_mem_pop {cls' : Nat} (h : CountedOk blocks all slabs ptr stop cells free carved)
    (hfree : free cls = p :: rest) (hcls : cls < wokNumClasses) (hcls' : cls' < wokNumClasses) :
    p ∉ Function.update free cls rest cls' := by
  intro hp
  have hmem : p ∈ free cls := hfree ▸ List.mem_cons_self
  obtain rfl := h.free_unique hcls' hcls (mem_of_mem_update hfree hp) hmem
  have hnodup := h.freeNodup cls' hcls'
  rw [hfree] at hnodup
  rw [Function.update_self] at hp
  exact (List.nodup_cons.mp hnodup).1 hp

theorem bump (h : CountedOk blocks all slabs ptr stop cells free carved) (hptr : ptr ≠ 0)
    (hroom : sz ≤ stop - ptr) (hpos : 0 < sz) (hmod : sz % 8 = 0) :
    CountedOk blocks all slabs (ptr + sz) stop cells free (⟨ptr, sz⟩ :: carved) := by
  rcases h.frontier with ⟨-, hzero, -⟩ | ⟨x, rest, rfl, hx, hle, hstop, halign⟩
  · exact absurd hzero hptr
  constructor
  case frontier => exact .inr ⟨x, rest, rfl, by omega, by omega, hstop, by omega⟩
  case separate =>
    refine List.pairwise_cons.mpr ⟨?_, h.separate⟩
    intro c hc
    exact (h.behind c hc).2.symm.mono ⟨Nat.le_refl _, by simp only; omega⟩ (.refl c)
  case behind =>
    intro c hc
    rcases List.mem_cons.mp hc with rfl | hc
    · refine ⟨⟨x, List.mem_cons_self, ?_⟩, .inl (Nat.le_refl _)⟩
      constructor
      · exact hx
      · simp only [slabBody, wokGranule, wokArenaSize] at hx hstop ⊢
        omega
    · apply (h.behind c hc).mono fun y hy => hy
      exact (h.behind c hc).2.mono (.refl c) ⟨by simp only; omega, by simp only; omega⟩
  case pos =>
    intro c hc
    rcases List.mem_cons.mp hc with rfl | hc
    · exact ⟨hpos, halign⟩
    · exact h.pos c hc
  case freeCarved => exact fun cls hcls q hq => List.mem_cons_of_mem _ (h.freeCarved cls hcls q hq)
  case freeNodup => exact h.freeNodup
  case small =>
    exact fun hi hk => ⟨List.mem_cons_of_mem _ (h.small hi hk).1, (h.small hi hk).2⟩
  case large => exact h.large
  case inj => exact h.inj

theorem grow (h : CountedOk blocks all slabs ptr stop cells free carved)
    (hslabs : ∀ y ∈ slabs, y ∈ all) (hblocks : BlocksOk blocks' (x :: all))
    (hlarge : ∀ {p k}, ⟨p, Kind.size k⟩ ∈ blocks → p ∉ all → ⟨p, k.size⟩ ∈ blocks' ∧ p ∉ x :: all) :
    CountedOk blocks' (x :: all) (x :: slabs) (x + wokGranule) (x + wokArenaSize) cells free
      carved := by
  have hmod : x % 8 = 0 := (hblocks.pos _ (hblocks.slab x List.mem_cons_self)).2.2
  have hnodup := (List.nodup_cons.mp hblocks.nodup).1
  constructor
  case frontier =>
    refine .inr ⟨x, slabs, rfl, Nat.le_refl _, ?_, rfl, ?_⟩
    · simp only [wokGranule, wokArenaSize]
      omega
    · simp only [wokGranule]
      omega
  case separate => exact h.separate
  case behind =>
    intro c hc
    rcases (h.behind c hc).1 with ⟨y, hy, hin⟩
    refine ⟨⟨y, List.mem_cons_of_mem x hy, hin⟩, ?_⟩
    have hne : y ≠ x := by
      rintro rfl
      exact hnodup (hslabs y hy)
    have happ := hblocks.slab_apart (List.mem_cons_of_mem x (hslabs y hy)) List.mem_cons_self hne
    apply happ.mono (hin.trans (slabBody_within y))
    constructor <;> simp only [slabBlock, wokGranule, wokArenaSize] <;> omega
  case pos => exact h.pos
  case freeCarved => exact h.freeCarved
  case freeNodup => exact h.freeNodup
  case small => exact h.small
  case large => exact fun hi hk => hlarge (h.large hi hk).1 (h.large hi hk).2
  case inj => exact h.inj

end CountedOk

/-- A new block is at no cell that was cut from a slab. -/
theorem Places.fresh_carved (h : Places s g) (hp : M.pick s.mem n = some p) :
    ∀ c ∈ g.carved, Block.Apart ⟨p, n⟩ c := by
  intro c hc
  rcases (h.counted.behind c hc).1 with ⟨y, hy, hin⟩
  exact (M.fresh hp _ (h.blocks.slab y (mem_slabs hy))).mono (.refl _)
    (hin.trans (slabBody_within y))

theorem Places.fresh_free {cls : Nat} (h : Places s g) (hp : M.pick s.mem n = some p) (hn : 0 < n)
    (hcls : cls < wokNumClasses) : p ∉ g.free cls := by
  intro hmem
  exact (h.fresh_carved hp _ (h.counted.freeCarved cls hcls p hmem)).base_ne hn
    (by simp only; omega) rfl

/-- Memory is divided as before when `malloc` gave a block. -/
theorem Places.withBlock (h : Places s g) (hp : M.pick s.mem n = some p) (hn : 0 < n) :
    Places ⟨s.heap, Runtime.withBlock p n s.mem⟩ g where
  blocks := h.blocks.withBlock hp hn
  lists := h.lists
  counted := h.counted.mono fun hb hall => ⟨List.mem_cons_of_mem _ hb, hall⟩
  arena := h.arena

/-- A new slab in front of a list. -/
theorem ListsOk.push_slab {words : Nat → Nat} {heap : Heap} (h : ListsOk words heap g)
    (hall : x ∉ g.allSlabs) (hfree : ∀ cls < wokNumClasses, x ∉ g.free cls) (hx : x ≠ 0) :
    Linked (Function.update words x heap.counted.slabs) x (x :: g.slabs) ∧
      ListsOk (Function.update words x heap.counted.slabs) heap g := by
  constructor
  · exact h.slabs.push (fun hmem => hall (Places.mem_slabs hmem)) hx
  · exact ⟨h.slabs.update fun hmem => hall (Places.mem_slabs hmem),
      h.arenaSlabs.update fun hmem => hall (Places.mem_arenaSlabs hmem),
      h.freeSlabs.update fun hmem => hall (Places.mem_freeSlabs hmem),
      fun cls hcls => (h.free cls hcls).update (hfree cls hcls)⟩

/-- Memory is still divided as it should be when a cell was taken. -/
theorem Takes.places (h : Places s g) (ht : Takes M b s g k p s' g') : Places s' g' := by
  have hsize := k.size_eq
  cases ht with
  | popped hk hfree =>
      have hlist := h.lists.free k.cls hk
      rw [hfree] at hlist
      refine ⟨h.blocks, ⟨h.lists.slabs, h.lists.arenaSlabs, h.lists.freeSlabs, ?_⟩,
        h.counted.pop hfree, h.arena⟩
      intro cls hcls
      by_cases heq : cls = k.cls
      · subst heq
        simp only [Function.update_self]
        exact hlist.1 ▸ hlist.2.2
      · simp only [Function.update_of_ne heq]
        exact h.lists.free cls hcls
  | bumped hk hfree hptr hroom =>
      exact ⟨h.blocks, ⟨h.lists.slabs, h.lists.arenaSlabs, h.lists.freeSlabs, h.lists.free⟩,
        h.counted.bump hptr hroom k.size_pos (by omega), h.arena⟩
  | @grown x hk hfree hfull hx hcheck =>
      have hall := h.blocks.fresh_slab hx (by decide)
      have hblocks := h.blocks.addSlab hx
      have hlists := h.lists.push_slab hall
        (fun cls hcls => h.fresh_free hx (by decide) hcls) (M.pos hx)
      have hgrow := h.counted.grow (fun y hy => Places.mem_slabs hy) hblocks (by
        intro q k' hb hq
        have hne : q ≠ x := h.blocks.fresh hx (by decide) _ hb
        exact ⟨List.mem_cons_of_mem _ hb, List.not_mem_cons_of_ne_of_not_mem hne hq⟩)
      refine ⟨hblocks, ⟨hlists.1, hlists.2.arenaSlabs, hlists.2.freeSlabs, hlists.2.free⟩, ?_,
        h.arena⟩
      apply hgrow.bump
      · simp only [wokGranule]
        omega
      · simp only [wokNumClasses, wokGranule, wokArenaSize] at hk ⊢
        omega
      · exact k.size_pos
      · omega
  | malloced hk hp =>
      have hwith := h.withBlock hp k.size_pos
      exact ⟨hwith.blocks, ⟨h.lists.slabs, h.lists.arenaSlabs, h.lists.freeSlabs, h.lists.free⟩,
        hwith.counted, h.arena⟩

/-! ### A cell that is not in use yet -/

/-- A range for a new cell of kind `k`. -/
structure Ready (s : State Heap) (g : Shape) (p : Nat) (k : Kind) : Prop where
  small : k.cls < wokNumClasses → ⟨p, k.size⟩ ∈ g.carved ∧ ∀ cls < wokNumClasses, p ∉ g.free cls
  large : wokNumClasses ≤ k.cls → ⟨p, k.size⟩ ∈ s.mem.blocks ∧ p ∉ g.allSlabs
  new : ∀ (j : Nat) (k' : Kind) (rc : Nat), g.cells[j]? ≠ some (p, .counted k' rc)

theorem Ready.owned (h : Ready s g p k) : Owned s g none ⟨p, k.size⟩ := by
  rcases Nat.lt_or_ge k.cls wokNumClasses with hk | hk
  · exact .small (h.small hk).1 (h.small hk).2 fun j k' rc _ => h.new j k' rc
  · exact .large (h.large hk).1 (h.large hk).2 fun j k' rc _ => h.new j k' rc

/-- No cell is at a range that is apart from all that was cut and all that is held. -/
theorem Places.new_of_apart {r : Block} (h : Places s g) (hpos : 0 < r.size)
    (hcarved : ∀ c ∈ g.carved, r.Apart c)
    (hlarge : ∀ c ∈ s.mem.blocks, c.base ∉ g.allSlabs → c.base ≠ r.base) :
    ∀ (j : Nat) (k' : Kind) (rc : Nat), g.cells[j]? ≠ some (r.base, .counted k' rc) := by
  intro j k' rc hj
  rcases Nat.lt_or_ge k'.cls wokNumClasses with hk | hk
  · exact (hcarved _ (h.counted.small hj hk).1).base_ne hpos k'.size_pos rfl
  · exact hlarge _ (h.counted.large hj hk).1 (h.counted.large hj hk).2 rfl

/-- A block that is not a slab is not where a cell was cut from a slab. -/
theorem Places.ne_of_carved {c r : Block} (h : Places s g) (hr : r ∈ g.carved)
    (hc : c ∈ s.mem.blocks) (hslab : c.base ∉ g.allSlabs) : c.base ≠ r.base := by
  rcases (h.counted.behind r hr).1 with ⟨y, hy, hin⟩
  exact ((h.apart_block (mem_slabs hy) hin hc hslab).base_ne (h.counted.pos r hr).1
    (h.blocks.pos c hc).1).symm

theorem Takes.ready (h : Places s g) (ht : Takes M b s g k p s' g') : Ready s' g' p k := by
  have h' := ht.places h
  have hsize := k.size_eq
  cases ht with
  | @popped p rest hk hfree =>
      have hmem : p ∈ g.free k.cls := hfree ▸ List.mem_cons_self
      have hcarved : (⟨p, k.size⟩ : Block) ∈ g.carved := by
        rw [hsize]
        exact h.counted.freeCarved k.cls hk p hmem
      refine ⟨fun _ => ⟨hcarved, fun cls hcls => h.counted.not_mem_pop hfree hk hcls⟩,
        fun hk' => absurd hk (Nat.not_lt.mpr hk'), ?_⟩
      intro j k' rc hj
      rcases Nat.lt_or_ge k'.cls wokNumClasses with hk' | hk'
      · exact h.counted.not_free hj hk' hk hmem
      · exact h.ne_of_carved hcarved (h.counted.large hj hk').1 (h.counted.large hj hk').2 rfl
  | bumped hk hfree hptr hroom =>
      have hmem := List.mem_cons_self (a := (⟨s.heap.counted.bumpPtr, k.size⟩ : Block))
        (l := g.carved)
      have hsep := (List.pairwise_cons.mp h'.counted.separate).1
      refine ⟨fun _ => ⟨hmem, ?_⟩, fun hk' => absurd hk (Nat.not_lt.mpr hk'), ?_⟩
      · intro cls hcls hq
        exact (hsep _ (h.counted.freeCarved cls hcls _ hq)).base_ne k.size_pos
          (by simp only; omega) rfl
      · exact h.new_of_apart (r := ⟨s.heap.counted.bumpPtr, k.size⟩) k.size_pos hsep
          fun c hc hslab => h'.ne_of_carved hmem hc hslab
  | @grown x hk hfree hfull hx hcheck =>
      have hmem := List.mem_cons_self (a := (⟨x + wokGranule, k.size⟩ : Block)) (l := g.carved)
      have hsep := (List.pairwise_cons.mp h'.counted.separate).1
      refine ⟨fun _ => ⟨hmem, ?_⟩, fun hk' => absurd hk (Nat.not_lt.mpr hk'), ?_⟩
      · intro cls hcls hq
        exact (hsep _ (h.counted.freeCarved cls hcls _ hq)).base_ne k.size_pos
          (by simp only; omega) rfl
      · apply h.new_of_apart (r := ⟨x + wokGranule, k.size⟩) k.size_pos hsep
        intro c hc hslab
        apply h'.ne_of_carved hmem (List.mem_cons_of_mem _ hc)
        exact List.not_mem_cons_of_ne_of_not_mem (h.blocks.fresh hx (by decide) c hc) hslab
  | malloced hk hp =>
      refine ⟨fun hk' => absurd hk' (Nat.not_lt.mpr hk), fun _ => ⟨List.mem_cons_self, ?_⟩, ?_⟩
      · exact h.blocks.fresh_slab hp k.size_pos
      · exact h.new_of_apart (r := ⟨p, k.size⟩) k.size_pos (h.fresh_carved hp)
          fun c hc _ => h.blocks.fresh hp k.size_pos c hc

/-- A taken cell holds no memory that the ledger speaks of. -/
theorem Takes.held (h : Places s g) (ht : Takes M b s g k p s' g')
    (hheld : AllHeld s.mem.words g.cells) : AllHeld s'.mem.words g'.cells := by
  have h' := ht.places h
  cases ht with
  | popped hk hfree => exact hheld
  | bumped hk hfree hptr hroom => exact hheld
  | @grown x hk hfree hfull hx hcheck =>
      exact h'.held_slab hheld (List.mem_append_left _ List.mem_cons_self)
  | malloced hk hp => exact hheld

/-- A build with the check keeps the bound where a cell is cut from a slab. -/
theorem Takes.checked (ht : Takes M b s g k p s' g') (hb : b.checkPhysical = true)
    (hk : k.cls < wokNumClasses) (hbound : s.heap.toCounters.PhysicalBound) :
    s'.heap.toCounters.PhysicalBound := by
  cases ht with
  | popped hk' hfree => exact hbound
  | bumped hk' hfree hptr hroom => exact hbound
  | grown hk' hfree hfull hx hcheck => exact hcheck hb
  | malloced hk' hp => exact absurd hk (Nat.not_lt.mpr hk')

theorem Takes.cells (ht : Takes M b s g k p s' g') : g'.cells = g.cells := by
  cases ht <;> rfl

/-- A new counted cell. -/
theorem Ready.add {rc : Nat} (h : Places s g) (hr : Ready s g p k) :
    Places s { g with cells := g.cells ++ [(p, .counted k rc)] } := by
  refine ⟨h.blocks, ⟨h.lists.slabs, h.lists.arenaSlabs, h.lists.freeSlabs, h.lists.free⟩, ?_, ?_⟩
  · constructor
    case frontier => exact h.counted.frontier
    case separate => exact h.counted.separate
    case behind => exact h.counted.behind
    case pos => exact h.counted.pos
    case freeCarved => exact h.counted.freeCarved
    case freeNodup => exact h.counted.freeNodup
    case small =>
      intro i q rc' k' hi hk
      rcases getElem?_concat_cases hi with hi | ⟨-, heq⟩
      · exact h.counted.small hi hk
      · cases heq
        exact ⟨(hr.small hk).1, (hr.small hk).2 _ hk⟩
    case large =>
      intro i q rc' k' hi hk
      rcases getElem?_concat_cases hi with hi | ⟨-, heq⟩
      · exact h.counted.large hi hk
      · cases heq
        exact hr.large hk
    case inj =>
      intro i j q rc₁ rc₂ k₁ k₂ hi hj
      rcases getElem?_concat_cases hi with hi | ⟨rfl, heq⟩
      · rcases getElem?_concat_cases hj with hj | ⟨rfl, heq⟩
        · exact h.counted.inj hi hj
        · cases heq
          exact absurd hi (hr.new i _ _)
      · cases heq
        rcases getElem?_concat_cases hj with hj | ⟨rfl, -⟩
        · exact absurd hj (hr.new j _ _)
        · rfl
  · have hold : ∀ {i q tag arity scope : Nat},
        (g.cells ++ [(p, Status.counted k rc)])[i]? = some (q, .arena tag arity scope) →
        g.cells[i]? = some (q, .arena tag arity scope) := by
      intro i q tag arity scope hi
      rcases getElem?_concat_cases hi with hi | ⟨-, heq⟩
      · exact hi
      · cases heq
    refine ⟨h.arena.frontier, fun hi => h.arena.cell (hold hi),
      fun hi hj => h.arena.apart (hold hi) (hold hj), ?_⟩
    intro d hd
    have hf := h.arena.frame d hd
    exact ⟨hf.suffix, hf.below, hf.head, hf.frontier, fun hi => hf.cell (hold hi)⟩

end Wok.Runtime.Slab
