/-
Module: Wok.Proofs.SlabInvariants
Purpose: What holds of the slab build after any calls that a program may make: its cells
  do not overlap, free lists hold cells of their class, a free finds the class of the
  allocation, and the arena keeps its slabs and restores its frontier.
Imports: Wok.Proofs.SlabRuns
Trusted boundary: none
Main exports: Client.Has, Ledger.Born, CellsSound, slab_cells_sound
-/
import Wok.Proofs.SlabRuns

namespace Wok.Runtime

open Wok.Lib

/-! ### The steps of a ledger -/

/-- What a call gets the program: a cell by a request, or one of the arena. -/
def Call.got : Call → List (Option Request)
  | .alloc r => [some r]
  | .arenaAlloc .. => [none]
  | _ => []

/-- The request that each cell of a program was got by, `none` for a cell of the arena. -/
def requests (calls : List Call) : List (Option Request) :=
  calls.flatMap Call.got

/-- The changes that a call makes to a ledger. -/
inductive Ledger.Change (L : Ledger) : Call → Ledger → Prop where
  | alloc {r : Request} (hr : r.overflow = none) : Change L (.alloc r) (L.addCounted r.kind)
  /-- a new count, or a new tag for a node -/
  | restamp {call : Call} {i rc rc' : Nat} {k k' : Kind} (hgot : call.got = [])
      (harena : call.isArena = false) (hi : L.cells[i]? = some (.counted k rc))
      (hsize : k'.size = k.size) (hclass : k'.slabClass = k.slabClass) :
      Change L call (L.set i (.counted k' rc'))
  | stay {call : Call} (hgot : call.got = []) (harena : call.isArena = false) : Change L call L
  | free {i : Nat} {k : Kind} (hi : L.cells[i]? = some (.counted k 0)) :
      Change L (.free i) { L.set i (.freed k) with frees := L.frees + 1 }
  | arenaOpen : Change L .arenaOpen { L with depth := L.depth + 1 }
  | arenaAlloc {tag arity : Nat} (hdepth : L.depth ≠ 0) :
      Change L (.arenaAlloc tag arity) (L.addArena tag arity)
  | arenaClose {d : Nat} (hdepth : L.depth = d + 1) : Change L (.arenaClose d) (L.closeFrom d)

theorem Ledger.step_change {L L' : Ledger} {call : Call} (h : L.step call = .ok L') :
    L.Change call L' := by
  cases call with
  | alloc r =>
      simp only [Ledger.step] at h
      split at h
      · cases h
      · next hr =>
          cases h
          exact .alloc hr
  | allocAt tag arity i =>
      simp only [Ledger.step] at h
      split at h
      · next tag' arity' rc hi =>
          by_cases ha : arity' = arity
          · by_cases hrc : rc = 0
            · subst ha
              simp only [ne_eq, not_true_eq_false, if_false, hrc] at h
              cases h
              exact .restamp rfl rfl hi rfl rfl
            · simp only [ha, hrc, ne_eq, not_true_eq_false, not_false_eq_true, if_false,
                if_true] at h
              cases h
          · simp only [ha, ne_eq, not_false_eq_true, if_true] at h
            cases h
      · cases h
  | dup i =>
      simp only [Ledger.step] at h
      split at h
      · next k rc hi =>
          cases h
          exact .restamp rfl rfl hi rfl rfl
      · cases h
  | dec i =>
      simp only [Ledger.step] at h
      split at h
      · next k rc hi =>
          by_cases hrc : rc = 0
          · rw [if_pos hrc] at h
            cases h
          · rw [if_neg hrc] at h
            cases h
            exact .restamp rfl rfl hi rfl rfl
      · cases h
  | slotSet i slot word =>
      cases h
      exact .stay rfl rfl
  | arraySlotSet i slot word =>
      cases h
      exact .stay rfl rfl
  | dataSet i slot word =>
      cases h
      exact .stay rfl rfl
  | free i =>
      simp only [Ledger.step] at h
      split at h
      · next k rc hi =>
          by_cases hrc : rc = 0
          · subst hrc
            simp only [ne_eq, not_true_eq_false, if_false] at h
            cases h
            exact .free hi
          · simp only [hrc, ne_eq, not_false_eq_true, if_true] at h
            cases h
      · cases h
  | arenaOpen =>
      simp only [Ledger.step] at h
      split at h
      · cases h
      · cases h
        exact .arenaOpen
  | arenaAlloc tag arity =>
      simp only [Ledger.step] at h
      split at h
      · cases h
      · next hdepth =>
          cases h
          exact .arenaAlloc hdepth
  | arenaClose handle =>
      simp only [Ledger.step] at h
      split at h
      · cases h
      · next hhandle =>
          cases h
          exact .arenaClose (by omega)

/-- The ledger after one call and the rest. -/
theorem Ledger.run_cons {L L' : Ledger} {call : Call} {calls : List Call}
    (h : L.step call = .ok L') : L.run (call :: calls) = L'.run calls := by
  rw [Ledger.run, List.foldlM_cons, h]
  rfl

theorem Ledger.run_append {L L' : Ledger} {calls more : List Call} (h : L.run calls = .ok L') :
    L.run (calls ++ more) = L'.run more := by
  rw [Ledger.run] at h
  rw [Ledger.run, List.foldlM_append, h]
  rfl

/-! ### The requests of a program -/

/-- A cell has the size and the class of the request it was got by, or had them before
it was freed. -/
def Status.OfRequest (r : Option Request) (st : Status) : Prop :=
  ∀ k, st.kind = some k → ∃ r', r = some r' ∧ k.size = r'.kind.size ∧
    k.slabClass = r'.kind.slabClass

namespace Ledger

variable {L L' : Ledger} {rs : List (Option Request)} {call : Call} {calls : List Call}

def Born (rs : List (Option Request)) (L : Ledger) : Prop :=
  rs.length = L.cells.length ∧
    ∀ {i : Nat} {r : Option Request} {st : Status}, rs[i]? = some r → L.cells[i]? = some st →
      st.OfRequest r

/-- A new cell. -/
theorem Born.append {r : Option Request} {st : Status} (h : L.Born rs) (hst : st.OfRequest r)
    (hcells : L'.cells = L.cells ++ [st]) : L'.Born (rs ++ [r]) := by
  refine ⟨by simp [hcells, h.1], ?_⟩
  intro i r' st' hr hst'
  rw [hcells] at hst'
  rcases getElem?_concat_cases hr with hr | ⟨rfl, rfl⟩
  · rcases getElem?_concat_cases hst' with hst' | ⟨rfl, rfl⟩
    · exact h.2 hr hst'
    · have hlt := (List.getElem?_eq_some_iff.mp hr).1
      exact absurd h.1 (Nat.ne_of_gt hlt)
  · rcases getElem?_concat_cases hst' with hst' | ⟨-, rfl⟩
    · have hlt := (List.getElem?_eq_some_iff.mp hst').1
      exact absurd h.1 (Nat.ne_of_gt hlt).symm
    · exact hst

/-- A cell that keeps its size and its class. -/
theorem Born.set {i : Nat} {st st' : Status} (h : L.Born rs) (hi : L.cells[i]? = some st)
    (hst : ∀ r, st.OfRequest r → st'.OfRequest r) (hcells : L'.cells = L.cells.set i st') :
    L'.Born rs := by
  refine ⟨by rw [hcells, List.length_set, h.1], ?_⟩
  intro j r st₁ hr hj
  rw [hcells] at hj
  rcases getElem?_set_cases hj with ⟨rfl, rfl⟩ | ⟨-, hj⟩
  · exact hst r (h.2 hr hi)
  · exact h.2 hr hj

theorem Born.close {d : Nat} (h : L.Born rs) : (L.closeFrom d).Born rs := by
  have hcells : (L.closeFrom d).cells = L.cells.map (Status.close d) := rfl
  refine ⟨by rw [hcells, List.length_map, h.1], ?_⟩
  intro i r st hr hi
  rw [hcells, List.getElem?_map, Option.map_eq_some_iff] at hi
  rcases hi with ⟨st', hi, rfl⟩
  intro k hk
  have hold := h.2 hr hi
  cases st' with
  | arena tag arity scope =>
      simp only [Status.close] at hk
      split at hk <;> cases hk
  | counted k' rc => exact hold k hk
  | freed k' => exact hold k hk
  | closed => cases hk

theorem Born.step (h : L.Born rs) (hstep : L.step call = .ok L') :
    L'.Born (rs ++ call.got) := by
  have hsame : call.got = [] → L'.Born rs → L'.Born (rs ++ call.got) := by
    intro hgot h'
    rwa [hgot, List.append_nil]
  cases step_change hstep with
  | alloc hr =>
      refine h.append ?_ rfl
      rintro k hk
      cases hk
      exact ⟨_, rfl, rfl, rfl⟩
  | restamp hgot harena hi hsize hclass =>
      refine hsame hgot (h.set hi ?_ rfl)
      intro r hr k hk
      cases hk
      rcases hr _ rfl with ⟨r', rfl, hsize', hclass'⟩
      exact ⟨r', rfl, hsize.trans hsize', hclass.trans hclass'⟩
  | stay hgot harena => exact hsame hgot h
  | free hi =>
      refine hsame rfl (h.set hi ?_ rfl)
      intro r hr k hk
      cases hk
      exact hr _ rfl
  | arenaOpen => exact hsame rfl h
  | arenaAlloc hdepth =>
      refine h.append ?_ rfl
      intro k hk
      cases hk
  | arenaClose hdepth => exact hsame rfl h.close

theorem Born.run (h : L.Born rs) (hrun : L.run calls = .ok L') :
    L'.Born (rs ++ requests calls) := by
  induction calls generalizing L rs with
  | nil =>
      cases hrun
      rwa [requests, List.flatMap_nil, List.append_nil]
  | cons call calls ih =>
      rw [Ledger.run, List.foldlM_cons] at hrun
      rcases exceptBind_ok hrun with ⟨L₁, hstep, hrun⟩
      rw [requests, List.flatMap_cons, ← List.append_assoc]
      exact ih (h.step hstep) hrun

end Ledger

/-! ### Cells -/

/-- The cell of that number is at `p`, and its status is that of the ledger. -/
def Client.Has {H : Type} (c : Client H) (L : Ledger) (i p : Nat) (st : Status) : Prop :=
  c.cells[i]? = some p ∧ L.cells[i]? = some st

namespace Slab

variable {M : Malloc} {b : Build} {c : Client Heap} {L : Ledger} {g : Shape} {calls : List Call}
  {m : Memory} {i p : Nat} {st : Status}

/-- What is owed to a program that made the calls and got the heap `c`, where the ledger
is `L`. -/
structure CellsSound (calls : List Call) (c : Client Heap) (L : Ledger) : Prop where
  /-- the ledger has every cell that the program got -/
  cells : c.cells.length = L.cells.length
  /-- two live cells do not overlap -/
  apart : ∀ {i j p q : Nat} {st st' : Status} {r r' : Block}, i ≠ j → c.Has L i p st →
    c.Has L j q st' → st.block p = some r → st'.block q = some r' → r.Apart r'
  /-- a cell of a class is in a slab of the counted region -/
  slab : ∃ slabs, Linked c.st.mem.words c.st.heap.counted.slabs slabs ∧
    (∀ x ∈ slabs, slabBlock x ∈ c.st.mem.blocks) ∧
    ∀ {i p rc : Nat} {k : Kind}, c.Has L i p (.counted k rc) → k.cls < wokNumClasses →
      ∃ x ∈ slabs, (⟨p, k.size⟩ : Block).Within (slabBody x)
  /-- a cell of the arena is in one of its slabs -/
  arenaSlab : ∃ slabs, Linked c.st.mem.words c.st.heap.arena.slabs slabs ∧
    (∀ x ∈ slabs, slabBlock x ∈ c.st.mem.blocks) ∧
    ∀ {i p tag arity scope : Nat}, c.Has L i p (.arena tag arity scope) →
      ∃ x ∈ slabs, (⟨p, 8 + 8 * arity⟩ : Block).Within (slabBody x)
  /-- a cell too large for a class is a block of its own -/
  large : ∀ {i p rc : Nat} {k : Kind}, c.Has L i p (.counted k rc) → wokNumClasses ≤ k.cls →
    ⟨p, k.size⟩ ∈ c.st.mem.blocks
  /-- what is on the free list of a class are freed cells with the bytes of the class, and
  no live cell overlaps them -/
  free : ∀ cls < wokNumClasses, ∃ ps, Linked c.st.mem.words (c.st.heap.freelist cls) ps ∧
    ps.Nodup ∧ ∀ p ∈ ps, (∃ i k, c.Has L i p (.freed k) ∧ k.size = 8 + 8 * cls) ∧
      ∀ {j q : Nat} {st : Status} {r : Block}, c.Has L j q st → st.block q = some r →
        Block.Apart ⟨p, 8 + 8 * cls⟩ r
  /-- a free reads back the bytes and the class that the allocation computed -/
  extent : ∀ {i p rc : Nat} {k : Kind}, c.Has L i p (.counted k rc) →
    ∃ r, (requests calls)[i]? = some (some r) ∧
      wokFreeBytes c.st.mem.words p = .ok r.kind.size ∧
      wokFreeClass c.st.mem.words p = r.kind.slabClass
  curBytes : c.st.heap.curBytes = (L.cells.map Status.bytes).sum
  live : c.st.heap.live = c.st.heap.allocs - c.st.heap.frees ∧
    c.st.heap.live = (L.cells.map Status.one).sum

theorem Sound.has (h : Sound c.st c.cells L g) :
    c.Has L i p st ↔ g.cells[i]? = some (p, st) := by
  simp only [Client.Has, h.addrs, h.statuses, List.getElem?_map, Option.map_eq_some_iff]
  constructor
  · rintro ⟨⟨a, ha, rfl⟩, a', ha', rfl⟩
    rw [ha] at ha'
    cases ha'
    exact ha
  · intro hi
    exact ⟨⟨_, hi, rfl⟩, _, hi, rfl⟩

/-- What is on the free list of a class. -/
theorem Sound.freeList {cls : Nat} (h : Sound c.st c.cells L g) (hcls : cls < wokNumClasses)
    (hp : p ∈ g.free cls) :
    (∃ i k, c.Has L i p (.freed k) ∧ k.size = 8 + 8 * cls) ∧
      ∀ {j q : Nat} {st : Status} {r : Block}, c.Has L j q st → st.block q = some r →
        Block.Apart ⟨p, 8 + 8 * cls⟩ r := by
  have hcarved := h.places.counted.freeCarved cls hcls p hp
  rcases h.cut.got _ hcarved with ⟨i, st, k, hi, hk, hsize⟩
  constructor
  · cases st with
    | freed k' =>
        cases hk
        exact ⟨i, k, h.has.mpr hi, hsize⟩
    | counted k' rc =>
        cases hk
        have hlt : k.cls < wokNumClasses := by
          have hk' := k.size_eq
          simp only at hsize
          omega
        exact absurd hp (h.places.counted.not_free hi hlt hcls)
    | arena tag arity scope => cases hk
    | closed => cases hk
  · intro j q st' r hj hr
    have hj' := h.has.mp hj
    have hown := h.places.owned hj' hr
    by_contra hapart
    -- a range that a cell owns has no address of a free cell
    rcases (h.places.counted.behind _ hcarved).1 with ⟨x, hx, hin⟩
    rcases hown.host h.places with ⟨y, hy, hin', hcarved'⟩ | ⟨hb, hslab⟩ | ⟨y, hy, hin'⟩
    · by_cases heq : (⟨p, 8 + 8 * cls⟩ : Block) = r
      · have hhas : r.Has p := heq ▸ ⟨Nat.le_refl p, by simp only; omega⟩
        exact (hown.loose h.places hhas).free cls hcls hp
      · exact hapart (h.places.counted.separate.apart hcarved hcarved' heq)
    · exact hapart (h.places.apart_block (Places.mem_slabs hx) hin hb hslab)
    · exact hapart (h.places.apart_arena hx hin hy hin')

theorem Sound.cellsSound (h : Sound c.st c.cells L g) (hborn : L.Born (requests calls)) :
    CellsSound calls c L where
  cells := h.length
  apart := fun hne hi hj hr hr' => h.places.apart (h.has.mp hi) (h.has.mp hj) hne hr hr'
  slab := by
    refine ⟨g.slabs, h.places.lists.slabs,
      fun x hx => h.places.blocks.slab x (Places.mem_slabs hx), ?_⟩
    intro i p rc k hi hk
    exact (h.places.counted.behind _ (h.places.counted.small (h.has.mp hi) hk).1).1
  arenaSlab := by
    refine ⟨g.arenaSlabs, h.places.lists.arenaSlabs,
      fun x hx => h.places.blocks.slab x (Places.mem_arenaSlabs hx), ?_⟩
    intro i p tag arity scope hi
    exact (h.places.arena.cell (h.has.mp hi)).2.2.1
  large := fun hi hk => (h.places.counted.large (h.has.mp hi) hk).1
  free := fun cls hcls => ⟨g.free cls, h.places.lists.free cls hcls,
    h.places.counted.freeNodup cls hcls, fun p hp => h.freeList hcls hp⟩
  extent := by
    intro i p rc k hi
    have hheld := h.held i p _ (h.has.mp hi)
    have hlt : i < (requests calls).length := by
      rw [hborn.1]
      exact (List.getElem?_eq_some_iff.mp hi.2).1
    rcases hborn.2 (List.getElem?_eq_getElem hlt) hi.2 k rfl with ⟨r, hr, hsize, hclass⟩
    refine ⟨r, by rw [List.getElem?_eq_getElem hlt, hr], ?_, ?_⟩
    · rw [← hsize]
      exact hheld.2.2.freeBytes hheld.1
    · rw [← hclass]
      exact hheld.2.2.freeClass hheld.1
  curBytes := h.counts.tallies.curBytes
  live := by
    refine ⟨?_, h.counts.tallies.live⟩
    have hbalanced := h.counts.tallies.balanced
    rw [h.counts.tallies.live, h.counts.tallies.allocs, h.counts.tallies.frees]
    omega

/-- After any calls that a program may make, from a heap of the slab build that is new,
its cells are sound; and `slabClass` is the class that every allocation computes. -/
theorem slab_cells_sound (M : Malloc) (b : Build) (m : Memory) (calls : List Call)
    (c : Client Heap) (hm : m.blocks = []) (hvalid : Ledger.ValidRun calls {})
    (hrun : Client.run (slabBackend M b) calls (start m) = .ok c) :
    (∃ L, Ledger.run calls {} = .ok L ∧ CellsSound calls c L) ∧
      ∀ (r : Request) (s : State Heap), r.Ok → r.overflow = none →
        Slab.alloc M b r s = allocCell M b r.kind.size r.kind.slabClass r.header r.fields s := by
  have hfollows := (slab_refines M b).run (agrees_start hm) hvalid
  rcases hfollows.ok hrun with ⟨L, hL, g, h⟩
  have hborn : Ledger.Born [] {} := ⟨rfl, nofun⟩
  refine ⟨⟨L, hL, h.cellsSound (hborn.run hL)⟩, ?_⟩
  intro r s hok hr
  rw [Slab.alloc_eq hok, hr]

/-- A node is freed, and the next node of its class is where it was. -/
theorem slab_cells_sound_reuse :
    ∃ c, Client.run (slabBackend .upwards ⟨true⟩)
      [.alloc (.node 5 2), .alloc (.string 3), .dec 0, .free 0, .alloc (.node 6 2)]
      (start ⟨fun _ => 0, [], 0⟩) = .ok c ∧ c.cells[0]? = c.cells[2]? ∧
      ∃ L, Ledger.run [.alloc (.node 5 2), .alloc (.string 3), .dec 0, .free 0,
        .alloc (.node 6 2)] {} = .ok L ∧
        CellsSound [.alloc (.node 5 2), .alloc (.string 3), .dec 0, .free 0,
          .alloc (.node 6 2)] c L := by
  refine ⟨_, rfl, rfl, (slab_cells_sound .upwards ⟨true⟩ ⟨fun _ => 0, [], 0⟩ _ _ rfl ?_ rfl).1⟩
  have hlen : 3 < 2 ^ 64 := by decide
  refine .next ⟨by decide, by decide⟩ rfl (.next hlen rfl ?_)
  exact .next rfl rfl (.next rfl rfl (.next ⟨by decide, by decide⟩ rfl trivial))

end Slab

end Wok.Runtime
