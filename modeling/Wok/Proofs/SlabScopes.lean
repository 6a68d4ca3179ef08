/-
Module: Wok.Proofs.SlabScopes
Purpose: The arena scopes of the slab build over runs: cells stay until their scope is
  closed, a close restores the frontier of its open, no slab is lost, and nothing else is
  touched.
Imports: Wok.Proofs.SlabInvariants
Trusted boundary: none
Main exports: Sound.later, ArenaLists, ArenaSound, slab_arena_sound
-/
import Wok.Proofs.SlabInvariants

namespace Wok.Runtime

open Wok.Lib

/-! ### Scopes of the ledger -/

namespace Ledger

variable {L L' : Ledger} {call : Call} {calls : List Call} {d i tag arity : Nat}

/-- A scope stays open until it is closed itself. -/
theorem Change.depth (h : L.Change call L') (hd : d < L.depth) (hne : call ≠ .arenaClose d) :
    d < L'.depth := by
  cases h with
  | arenaOpen => exact Nat.lt_succ_of_lt hd
  | @arenaClose e hdepth =>
      have hde : d ≠ e := by
        rintro rfl
        exact hne rfl
      have hlt : d < e := by omega
      exact hlt
  | _ => exact hd

/-- A cell of a scope stays until the scope is closed. -/
theorem Change.arena (h : L.Change call L') (hd : d < L.depth) (hne : call ≠ .arenaClose d)
    (hi : L.cells[i]? = some (.arena tag arity d)) : L'.cells[i]? = some (.arena tag arity d) := by
  have hlt := (List.getElem?_eq_some_iff.mp hi).1
  have hset : ∀ {j : Nat} {k : Kind} {rc : Nat} (st : Status), L.cells[j]? = some (.counted k rc) →
      (L.cells.set j st)[i]? = some (.arena tag arity d) := by
    intro j k rc st hj
    have hne : j ≠ i := by
      rintro rfl
      rw [hi] at hj
      cases hj
    rw [List.getElem?_set_ne hne, hi]
  cases h with
  | alloc hr => exact (List.getElem?_append_left hlt).trans hi
  | restamp hgot harena hj hsize hclass => exact hset _ hj
  | stay hgot harena => exact hi
  | free hj => exact hset _ hj
  | arenaOpen => exact hi
  | arenaAlloc hdepth => exact (List.getElem?_append_left hlt).trans hi
  | @arenaClose e hdepth =>
      have hde : d ≠ e := by
        rintro rfl
        exact hne rfl
      have hclose : (L.closeFrom e).cells = L.cells.map (Status.close e) := rfl
      rw [hclose, List.getElem?_map, hi]
      have hlt' : d < e := by omega
      simp only [Option.map_some, Status.close, if_pos hlt']

end Ledger

namespace Slab

variable {M : Malloc} {b : Build} {c c' : Client Heap} {L L' : Ledger} {g g' : Shape}
  {call : Call} {calls more : List Call} {m : Memory} {d i p tag arity : Nat} {st : Status}

/-! ### Runs -/

/-- What a run leaves of the heap it began with. -/
structure Later (calls : List Call) (c : Client Heap) (L : Ledger) (g : Shape) (c' : Client Heap)
    (L' : Ledger) (g' : Shape) : Prop where
  cells : c.cells <+: c'.cells
  kept : ∀ x ∈ g.arenaAll, x ∈ g'.arenaAll
  /-- the scopes that were open and were not closed -/
  frames : ∀ d < L.depth, .arenaClose d ∉ calls → d < L'.depth ∧ g'.saved d = g.saved d ∧
    c'.st.heap.arenaStack d = c.st.heap.arenaStack d ∧
    ∀ i tag arity : Nat, L.cells[i]? = some (Status.arena tag arity d) →
      L'.cells[i]? = some (Status.arena tag arity d)

theorem Later.refl (c : Client Heap) (L : Ledger) (g : Shape) : Later [] c L g c L g :=
  ⟨List.prefix_refl _, fun _ hx => hx, fun _ hd _ => ⟨hd, rfl, rfl, fun _ _ _ hi => hi⟩⟩

theorem Later.cons {c'' : Client Heap} {L'' : Ledger} {g'' : Shape}
    (hchange : L.Change call L') (hmoves : Moves b call L.depth c g c' g')
    (h : Later calls c' L' g' c'' L'' g'') : Later (call :: calls) c L g c'' L'' g'' where
  cells := hmoves.cells.trans h.cells
  kept := fun x hx => h.kept x (hmoves.kept x hx)
  frames := by
    intro d hd hnot
    rw [List.mem_cons, not_or] at hnot
    have hne : call ≠ .arenaClose d := Ne.symm hnot.1
    rcases h.frames d (hchange.depth hd hne) hnot.2 with ⟨hd'', hsaved, hstack, hcells⟩
    rcases hmoves.frames d hd with ⟨hsaved', hstack'⟩
    exact ⟨hd'', hsaved.trans hsaved', hstack.trans hstack',
      fun i tag arity hi => hcells i tag arity (hchange.arena hd hne hi)⟩

/-- A step that does not abort. -/
theorem Sound.next (h : Sound c.st c.cells L g) (hvalid : L.Valid call)
    (hstep : c.step (slabBackend M b) call = .ok c') :
    ∃ L' g', L.step call = .ok L' ∧ Sound c'.st c'.cells L' g' ∧
      Moves b call L.depth c g c' g' := by
  rcases (slab_leads M b call h hvalid).ok hstep with ⟨L', hL, g', h', hmoves⟩
  exact ⟨L', g', hL, h', hmoves⟩

/-- A run that does not abort. -/
theorem Sound.later (h : Sound c.st c.cells L g) (hvalid : L.ValidRun calls)
    (hrun : Client.run (slabBackend M b) calls c = .ok c') :
    ∃ L' g', L.run calls = .ok L' ∧ Sound c'.st c'.cells L' g' ∧ Later calls c L g c' L' g' := by
  induction calls generalizing c L g with
  | nil =>
      cases hrun
      exact ⟨_, _, rfl, h, .refl _ _ _⟩
  | cons call calls ih =>
      rw [Client.run, List.foldlM_cons] at hrun
      rcases exceptBind_ok hrun with ⟨c₁, hstep, hrun⟩
      rcases h.next hvalid.1 hstep with ⟨L₁, g₁, hL₁, h₁, hmoves⟩
      rcases ih h₁ (hvalid.2 L₁ hL₁) hrun with ⟨L', g', hL', h', hlater⟩
      refine ⟨L', g', ?_, h', hlater.cons (Ledger.step_change hL₁) hmoves⟩
      rw [Ledger.run, List.foldlM_cons, hL₁]
      exact hL'

/-! ### Restoring the frontier -/

/-- The lists of the arena's slabs, in use and free. -/
structure ArenaLists (c : Client Heap) (used free : List Nat) : Prop where
  used : Linked c.st.mem.words c.st.heap.arena.slabs used
  free : Linked c.st.mem.words c.st.heap.arenaFreeSlabs free

theorem Sound.arenaLists (h : Sound c.st c.cells L g) :
    ArenaLists c g.arenaSlabs g.freeSlabs :=
  ⟨h.places.lists.arenaSlabs, h.places.lists.freeSlabs⟩

theorem ArenaLists.unique {used free used' free' : List Nat} (h : ArenaLists c used free)
    (h' : ArenaLists c used' free') : used = used' ∧ free = free' :=
  ⟨h.used.unique h'.used, h.free.unique h'.free⟩

/-- From an open to the close of the same scope. -/
theorem Sound.scope (h : Sound c.st c.cells L g)
    (hvalid : L.ValidRun (.arenaOpen :: (more ++ [.arenaClose L.depth])))
    (hrun : Client.run (slabBackend M b) (.arenaOpen :: (more ++ [.arenaClose L.depth])) c = .ok c')
    (hnot : .arenaClose L.depth ∉ more) :
    c'.st.heap.frontier = c.st.heap.frontier ∧ c'.st.heap.arenaDepth = c.st.heap.arenaDepth ∧
      ∀ used free, ArenaLists c used free → Linked c'.st.mem.words c'.st.heap.arena.slabs used := by
  rw [Client.run, List.foldlM_cons] at hrun
  rcases exceptBind_ok hrun with ⟨c₁, hopen, hrun⟩
  rcases h.next hvalid.1 hopen with ⟨L₁, g₁, hL₁, h₁, hmoves₁⟩
  have hdepth : L₁.depth = L.depth + 1 := by
    cases Ledger.step_change hL₁ with
    | arenaOpen => rfl
    | restamp hgot harena hi hsize hclass => cases harena
    | stay hgot harena => cases harena
  have hvalid₁ := hvalid.2 L₁ hL₁
  rw [List.foldlM_append] at hrun
  rcases exceptBind_ok hrun with ⟨c₂, hmid, hclose⟩
  have hvalidMid : L₁.ValidRun more := hvalid₁.left
  rcases h₁.later hvalidMid hmid with ⟨L₂, g₂, hL₂, h₂, hlater⟩
  have hvalid₂ : L₂.ValidRun [.arenaClose L.depth] := hvalid₁.append hL₂
  rw [List.foldlM_cons] at hclose
  rcases exceptBind_ok hclose with ⟨c₃, hclose, hlast⟩
  cases hlast
  rcases h₂.next hvalid₂.1 hclose with ⟨L₃, g₃, hL₃, h₃, hmoves₃⟩
  have hframe := hlater.frames L.depth (by omega) hnot
  have hopened := hmoves₁.opened rfl
  have hclosed := hmoves₃.closed L.depth rfl
  refine ⟨?_, ?_, ?_⟩
  · rw [hclosed.1, hframe.2.2.1, hopened.1]
  · rw [h₃.counts.tallies.arenaDepth, h.counts.tallies.arenaDepth]
    cases Ledger.step_change hL₃ with
    | arenaClose hdepth => rfl
    | restamp hgot harena hi hsize hclass => cases harena
    | stay hgot harena => cases harena
  · intro used free hlists
    have hused : used = g₃.arenaSlabs := by
      rw [hclosed.2, hframe.2.1, hopened.2]
      exact (hlists.unique h.arenaLists).1
    rw [hused]
    exact h₃.arenaLists.used

/-! ### The arena after any run -/

/-- What is owed to a program that uses the arena, when its heap is `c` and the ledger
is `L`. -/
structure ArenaSound (M : Malloc) (b : Build) (c : Client Heap) (L : Ledger) : Prop where
  /-- a cell of an open scope overlaps no other live cell, until the scope is closed -/
  apart : ∀ {more : List Call} {c' : Client Heap} {i p tag arity scope : Nat},
    L.ValidRun more → Client.run (slabBackend M b) more c = .ok c' →
    c.Has L i p (.arena tag arity scope) → .arenaClose scope ∉ more →
    ∃ L', L.run more = .ok L' ∧ c'.Has L' i p (.arena tag arity scope) ∧
      ∀ {j q : Nat} {st : Status} {r : Block}, i ≠ j → c'.Has L' j q st → st.block q = some r →
        Block.Apart ⟨p, 8 + 8 * arity⟩ r
  /-- a close restores the frontier of its open -/
  close : ∀ {more : List Call} {c' : Client Heap},
    L.ValidRun (.arenaOpen :: (more ++ [.arenaClose L.depth])) →
    Client.run (slabBackend M b) (.arenaOpen :: (more ++ [.arenaClose L.depth])) c = .ok c' →
    .arenaClose L.depth ∉ more →
    c'.st.heap.frontier = c.st.heap.frontier ∧ c'.st.heap.arenaDepth = c.st.heap.arenaDepth ∧
      ∀ used free, ArenaLists c used free → Linked c'.st.mem.words c'.st.heap.arena.slabs used
  /-- every slab that the arena took is in one of its lists, now and later -/
  slabs : ∃ used free, ArenaLists c used free ∧ (used ++ free).Nodup ∧
    (used ++ free).length = c.st.heap.arena.nslabs ∧
    ∀ {more : List Call} {c' : Client Heap}, L.ValidRun more →
      Client.run (slabBackend M b) more c = .ok c' →
      ∃ used' free', ArenaLists c' used' free' ∧ ∀ x ∈ used ++ free, x ∈ used' ++ free'
  /-- a call for the arena leaves the counted region, its cells and its statistics alone -/
  frame : ∀ {call : Call} {c' : Client Heap}, call.isArena = true → L.Valid call →
    c.step (slabBackend M b) call = .ok c' →
    c'.st.heap.countedView = c.st.heap.countedView ∧
      (∀ slabs, Linked c.st.mem.words c.st.heap.counted.slabs slabs → ∀ y ∈ slabs,
        ∀ x, (slabBlock y).Has x → c'.st.mem.words x = c.st.mem.words x) ∧
      ∀ {i p rc : Nat} {k : Kind}, c.Has L i p (.counted k rc) →
        ∀ x, (⟨p, k.size⟩ : Block).Has x → c'.st.mem.words x = c.st.mem.words x

theorem Sound.arenaSound (h : Sound c.st c.cells L g) : ArenaSound M b c L where
  apart := by
    intro more c' i p tag arity scope hvalid hrun hi hnot
    rcases h.later hvalid hrun with ⟨L', g', hL', h', hlater⟩
    have hlt : scope < L.depth := by
      have hcell := (h.places.arena.cell (h.has.mp hi)).1
      rwa [h.counts.tallies.arenaDepth] at hcell
    have hstay := (hlater.frames scope hlt hnot).2.2.2 i tag arity hi.2
    have hp : c'.cells[i]? = some p := by
      rcases hlater.cells with ⟨rest, hrest⟩
      rw [← hrest, List.getElem?_append_left (List.getElem?_eq_some_iff.mp hi.1).1, hi.1]
    refine ⟨L', hL', ⟨hp, hstay⟩, ?_⟩
    intro j q st r hne hj hr
    exact h'.places.apart (h'.has.mp ⟨hp, hstay⟩) (h'.has.mp hj) hne rfl hr
  close := fun hvalid hrun hnot => h.scope hvalid hrun hnot
  slabs := by
    have hnodup := h.places.blocks.nodup
    rw [Shape.allSlabs, List.nodup_append] at hnodup
    refine ⟨g.arenaSlabs, g.freeSlabs, h.arenaLists, hnodup.2.1, ?_, ?_⟩
    · rw [List.length_append]
      exact h.counts.arenaNslabs.symm
    · intro more c' hvalid hrun
      rcases h.later hvalid hrun with ⟨L', g', -, h', hlater⟩
      exact ⟨g'.arenaSlabs, g'.freeSlabs, h'.arenaLists, hlater.kept⟩
  frame := by
    intro call c' hcall hvalid hstep
    rcases h.next hvalid hstep with ⟨L', g', -, -, hmoves⟩
    have honly := hmoves.arena hcall
    have hslab : ∀ y ∈ g.slabs, ∀ x, (slabBlock y).Has x →
        c'.st.mem.words x = c.st.mem.words x := by
      intro y hy
      apply honly.words _ (h.places.blocks.slab y (Places.mem_slabs hy))
      intro hmem
      have hnodup := h.places.blocks.nodup
      rw [Shape.allSlabs, List.nodup_append] at hnodup
      exact hnodup.2.2 y hy y hmem rfl
    refine ⟨honly.view, ?_, ?_⟩
    · intro slabs hslabs y hy
      rw [hslabs.unique h.places.lists.slabs] at hy
      exact hslab y hy
    · intro i p rc k hi x hx
      have hcell := h.has.mp hi
      rcases Nat.lt_or_ge k.cls wokNumClasses with hk | hk
      · rcases (h.places.counted.behind _ (h.places.counted.small hcell hk).1).1 with ⟨y, hy, hin⟩
        exact hslab y hy x (hx.of_within (hin.trans (slabBody_within y)))
      · have hlarge := h.places.counted.large hcell hk
        exact honly.words _ hlarge.1 (fun hmem => hlarge.2 (List.mem_append_right _ hmem)) x hx

/-- The arena is sound after any calls that a program may make. -/
theorem slab_arena_sound (M : Malloc) (b : Build) (m : Memory) (calls : List Call)
    (c : Client Heap) (hm : m.blocks = []) (hvalid : Ledger.ValidRun calls {})
    (hrun : Client.run (slabBackend M b) calls (start m) = .ok c) :
    ∃ L, Ledger.run calls {} = .ok L ∧ ArenaSound M b c L := by
  have hfollows := (slab_refines M b).run (agrees_start hm) hvalid
  rcases hfollows.ok hrun with ⟨L, hL, g, h⟩
  exact ⟨L, hL, h.arenaSound⟩

/-- A scope inside another one, and a counted cell. -/
theorem slab_arena_sound_nested :
    ∃ c, Client.run (slabBackend .upwards ⟨true⟩)
      [.arenaOpen, .arenaAlloc 5 2, .alloc (.node 5 2), .arenaOpen, .arenaAlloc 6 1]
      (start ⟨fun _ => 0, [], 0⟩) = .ok c ∧
      ∃ L, Ledger.run [.arenaOpen, .arenaAlloc 5 2, .alloc (.node 5 2), .arenaOpen,
        .arenaAlloc 6 1] {} = .ok L ∧ ArenaSound .upwards ⟨true⟩ c L := by
  refine ⟨_, rfl, slab_arena_sound .upwards ⟨true⟩ ⟨fun _ => 0, [], 0⟩ _ _ rfl ?_ rfl⟩
  refine .next trivial rfl (.next ⟨by decide, by decide⟩ rfl ?_)
  exact .next ⟨by decide, by decide⟩ rfl (.next trivial rfl (.next ⟨by decide, by decide⟩ rfl
    trivial))

end Slab

end Wok.Runtime
