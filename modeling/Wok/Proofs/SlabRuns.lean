/-
Module: Wok.Proofs.SlabRuns
Purpose: The slab build follows the ledger, call by call and so along every run.
Imports: Wok.Proofs.Accessors, Wok.Proofs.SlabArena
Trusted boundary: none
Main exports: Agrees, Excused, agrees_start, slab_refines
-/
import Wok.Proofs.Accessors
import Wok.Proofs.SlabArena

namespace Wok.Runtime.Slab

open Wok.Lib

variable {M : Malloc} {b : Build} {s : State Heap} {addrs : List Nat} {c c' : Client Heap}
  {L : Ledger} {g : Shape} {i p : Nat} {e : Abort} {m m' : Memory}

/-- The program's heap and the ledger agree. -/
def Agrees (c : Client Heap) (L : Ledger) : Prop :=
  ∃ g, Sound c.st c.cells L g

/-- What ends a run of this build without the ledger saying so: `malloc` fails, or the
check of the physical bound does. -/
def Excused (M : Malloc) (b : Build) (e : Abort) : Prop :=
  (e = .outOfMemory ∧ ∃ m n, M.pick m n = none) ∨ (e = .physical ∧ b.checkPhysical = true)

/-- A program that starts, on a memory in which nothing was got from `malloc`. -/
def start (m : Memory) : Client Heap :=
  ⟨⟨wokHeapNew, m⟩, []⟩

theorem agrees_start (hm : m.blocks = []) : Agrees (start m) {} := by
  have hblocks : (start m).st.mem.blocks = [] := hm
  have hclass : Ledger.classBytes {} = 0 := by
    simp [Ledger.classBytes]
  refine ⟨{}, ?_⟩
  constructor
  case addrs => rfl
  case statuses => rfl
  case places =>
    refine ⟨?_, ⟨rfl, rfl, rfl, fun _ _ => rfl⟩, ?_, ?_⟩
    · rw [hblocks]
      constructor <;> first | exact .nil | (intros; contradiction)
    · constructor <;>
        first | exact .inl ⟨rfl, rfl, rfl⟩ | exact .nil | exact fun _ _ => .nil |
          (intros; contradiction)
    · constructor <;> first | exact .inl ⟨rfl, rfl, rfl⟩ | (intros; contradiction)
  case held =>
    intro _ _ _ h
    cases h
  case counts =>
    refine ⟨.start, rfl, rfl, rfl, fun _ _ => rfl, ?_, ⟨Nat.zero_le _, Nat.zero_le _⟩, ?_,
      Nat.zero_le _, Nat.zero_le _, Nat.le_refl _⟩
    · rw [hclass]
      exact ⟨Nat.zero_le _, Nat.zero_le _⟩
    · intros
      contradiction
  case cut =>
    constructor <;> (intros; contradiction)

/-! ### One call -/

/-- What a call does to the heap, over and above that it follows the ledger: the cells
that the program got stay where they are, the arena loses no slab, and the frames of the
open scopes stay. -/
structure Moves (b : Build) (call : Call) (depth : Nat) (c : Client Heap) (g : Shape)
    (c' : Client Heap) (g' : Shape) : Prop where
  cells : c.cells <+: c'.cells
  kept : ∀ x ∈ g.arenaAll, x ∈ g'.arenaAll
  frames : ∀ d < depth,
    g'.saved d = g.saved d ∧ c'.st.heap.arenaStack d = c.st.heap.arenaStack d
  arena : call.isArena = true → ArenaOnly depth c.st g c'.st g'
  opened : call = .arenaOpen →
    c'.st.heap.arenaStack depth = c.st.heap.frontier ∧ g'.saved depth = g.arenaSlabs
  closed : ∀ d, call = .arenaClose d →
    c'.st.heap.frontier = c.st.heap.arenaStack d ∧ g'.arenaSlabs = g.saved d
  peak : c'.st.heap.peakPhysicalBytes ≤
    max c.st.heap.peakPhysicalBytes c'.st.heap.curPhysicalBytes
  /-- a build with the check keeps the bound, but for cells that are not cut from slabs -/
  checked : b.checkPhysical = true → (∀ r, call = .alloc r → r.kind.cls < wokNumClasses) →
    c.st.heap.toCounters.PhysicalBound → c'.st.heap.toCounters.PhysicalBound

/-- A higher logical peak keeps the bound. -/
theorem physicalBound_mono {h h' : Counters} (hbound : h.PhysicalBound)
    (hpeak : h'.peakPhysicalBytes = h.peakPhysicalBytes)
    (hlogical : h.peakLogicalBytes ≤ h'.peakLogicalBytes) : h'.PhysicalBound := by
  simp only [Counters.PhysicalBound] at hbound ⊢
  omega

theorem wokFree_bound {s' : State Heap} (h : wokFree p s = .ok s')
    (hbound : s.heap.toCounters.PhysicalBound) : s'.heap.toCounters.PhysicalBound := by
  simp only [wokFree] at h
  split at h
  · cases h
  · rcases exceptBind_ok h with ⟨bytes, -, h⟩
    split at h <;> cases h <;> exact hbound

theorem wokArenaOpen_bound {s' : State Heap} {d : Nat} (h : wokArenaOpen s = .ok (d, s'))
    (hbound : s.heap.toCounters.PhysicalBound) : s'.heap.toCounters.PhysicalBound := by
  simp only [wokArenaOpen] at h
  split at h
  · cases h
  · cases h
    exact hbound

theorem wokArenaClose_bound {s' : State Heap} {d : Nat} (h : wokArenaClose d s = .ok s')
    (hbound : s.heap.toCounters.PhysicalBound) : s'.heap.toCounters.PhysicalBound := by
  simp only [wokArenaClose] at h
  split at h
  · cases h
  · rcases exceptBind_ok h with ⟨res, -, h⟩
    cases h
    exact hbound

/-- A call that is not for the arena. -/
theorem SameArena.moves {call : Call} {depth : Nat} {g' : Shape}
    (h : SameArena c.st g c'.st g') (hcells : c.cells <+: c'.cells)
    (hcall : call.isArena = false)
    (hchecked : b.checkPhysical = true → (∀ r, call = .alloc r → r.kind.cls < wokNumClasses) →
      c.st.heap.toCounters.PhysicalBound → c'.st.heap.toCounters.PhysicalBound) :
    Moves b call depth c g c' g' := by
  refine ⟨hcells, ?_, fun d _ => ⟨by rw [h.saved], by rw [h.stack]⟩, ?_, ?_, ?_, h.peak, hchecked⟩
  · intro x hx
    simpa only [Shape.arenaAll, h.arenaSlabs, h.freeSlabs] using hx
  · intro htrue
    rw [hcall] at htrue
    cases htrue
  · rintro rfl
    cases hcall
  · rintro d rfl
    cases hcall

theorem Sound.length (h : Sound s addrs L g) : addrs.length = L.cells.length := by
  rw [h.addrs, h.statuses, List.length_map, List.length_map]

/-- The address of a cell of the program. -/
theorem Sound.client_cell {st : Status} (h : Sound c.st c.cells L g)
    (hi : L.cells[i]? = some st) : ∃ p, c.cell i = .ok p ∧ g.cells[i]? = some (p, st) := by
  rcases h.cell hi with ⟨p, hp, hg⟩
  refine ⟨p, ?_, hg⟩
  simp only [Client.cell, hp]

/-- A change inside a cell that is still of the same size. -/
theorem Sound.inside_restamp {k k' : Kind} {rc rc' : Nat} (h : Sound s addrs L g)
    (hi : g.cells[i]? = some (p, .counted k rc)) (hsize : k'.size = k.size)
    (hin : Inside s.mem m p (.counted k rc) (.counted k' rc')) :
    ∃ g', Sound ⟨s.heap, m⟩ addrs (L.set i (.counted k' rc')) g' ∧
      SameArena s g ⟨s.heap, m⟩ g' := by
  refine ⟨_, h.restamp hi hsize hin.blocks (fun x hx => hin.words x fun b hb => ?_) hin.held,
    rfl, rfl, rfl, rfl, Nat.le_max_left _ _⟩
  obtain rfl : (⟨p, k.size⟩ : Block) = b := Option.some.inj hb
  exact hx

theorem Sound.inside_write {st : Status} (h : Sound s addrs L g)
    (hi : g.cells[i]? = some (p, st)) (hw : ∃ ofKind slot, Writable ofKind slot st)
    (hin : Inside s.mem m p st st) : Sound ⟨s.heap, m⟩ addrs L g := by
  rcases hw with ⟨ofKind, slot, hw⟩
  cases st with
  | counted k rc =>
      exact h.write hi rfl hin.blocks (fun x hx => hin.words x fun b hb =>
        Option.some.inj hb ▸ hx) hin.held
  | arena tag arity scope =>
      exact h.write hi rfl hin.blocks (fun x hx => hin.words x fun b hb =>
        Option.some.inj hb ▸ hx) hin.held
  | freed k => exact hw.elim
  | closed => exact hw.elim

/-- Where a call leads: to a heap that agrees with the ledger after it. -/
def Leads (b : Build) (call : Call) (c : Client Heap) (L : Ledger) (g : Shape) (c' : Client Heap)
    (L' : Ledger) : Prop :=
  ∃ g', Sound c'.st c'.cells L' g' ∧ Moves b call L.depth c g c' g'

/-- An accessor that writes a word of a cell's body. -/
theorem leads_write {call : Call} {ofKind : Kind → Bool} {slot : Nat}
    {f : Nat → Memory → Except Abort Memory} (h : Sound c.st c.cells L g)
    (hw : L.Writes ofKind i slot) (hcall : call.isArena = false)
    (hf : ∀ {p st}, Held c.st.mem.words p st → Writable ofKind slot st →
      ∃ m', f p c.st.mem = .ok m' ∧ Inside c.st.mem m' p st st) :
    Follows (Stops M b c.st) (Leads b call c L g)
      (do
        let p ← c.cell i
        let mem ← f p c.st.mem
        return { c with st := ⟨c.st.heap, mem⟩ }) (.ok L) := by
  rcases hw.cell with ⟨st, hi, hst⟩
  rcases h.client_cell hi with ⟨p, hp, hg⟩
  rcases hf (h.held i p st hg) hst with ⟨m', hm, hin⟩
  rw [hp]
  simp only [bind, Except.bind, hm]
  exact ⟨L, rfl, g, h.inside_write hg ⟨ofKind, slot, hst⟩ hin,
    SameArena.moves ⟨rfl, rfl, rfl, rfl, Nat.le_max_left _ _⟩ (List.prefix_refl _) hcall
      fun _ _ hbound => hbound⟩

/-- One call of the slab build follows the ledger. -/
theorem slab_leads (M : Malloc) (b : Build) (call : Call) (h : Sound c.st c.cells L g)
    (hvalid : L.Valid call) :
    Follows (Stops M b c.st) (Leads b call c L g) (c.step (slabBackend M b) call)
      (L.step call) := by
  cases call with
  | alloc r =>
      rcases resolve_ok h.length hvalid with ⟨r', hr', hok, hkind, hover⟩
      simp only [Client.step, hr', bind, Except.bind, slabBackend, Slab.alloc_eq hok,
        Ledger.step, ← hover]
      cases hr : r'.overflow with
      | some e => exact .inr rfl
      | none =>
          simp only [allocCell, bind, Except.bind]
          have hfits := r'.fits_of_overflow hok hr
          cases ht : takeCell M b r'.kind.size r'.kind.slabClass c.st with
          | error e => exact .inl (takeCell_error hfits ht)
          | ok res =>
              rcases res with ⟨p, s'⟩
              rcases takeCell_takes h.places hfits ht with ⟨g', htakes⟩
              rcases h.alloc hok hr htakes with ⟨g'', h', hsame⟩
              exact ⟨_, rfl, g'', hkind ▸ h', SameArena.moves
                ⟨hsame.arenaSlabs, hsame.freeSlabs, hsame.saved, hsame.stack, hsame.peak⟩
                (List.prefix_append _ _) rfl fun hb hcls hbound =>
                  physicalBound_mono (htakes.checked hb (hkind ▸ hcls r rfl) hbound) rfl
                    (Nat.le_max_right _ _)⟩
  | allocAt tag arity i =>
      rcases hvalid with ⟨htag, harity, hcounted⟩
      rcases hcounted.cell with ⟨k, rc, hi, hk⟩
      cases k with
      | node tag' arity' =>
          rcases h.client_cell hi with ⟨p, hp, hg⟩
          have hheld := h.held i p _ hg
          have hrange : tag < 65536 ∧ arity < 256 := ⟨htag.lt, harity⟩
          simp only [Client.step, hp, bind, Except.bind, slabBackend, wokAllocAt, hrange,
            hheld.2.2.2, hheld.2.1, Ledger.step, hi, and_self, not_true_eq_false, if_false]
          by_cases ha : arity' = arity
          · by_cases hrc : rc = 0
            · subst ha hrc
              simp only [ne_eq, not_true_eq_false, if_false]
              have hsize : (Kind.node tag arity').size = (Kind.node tag' arity').size := rfl
              rcases h.inside_restamp hg hsize (inside_stamp htag harity) with ⟨g', h', hsame⟩
              have hset : c.cells.set i p = c.cells := by
                apply set_eq_self
                rw [h.addrs, List.getElem?_map, hg]
                rfl
              rw [hset]
              exact ⟨_, rfl, g', h'.reused, SameArena.moves
                ⟨hsame.arenaSlabs, hsame.freeSlabs, hsame.saved, rfl, hsame.peak⟩
                (List.prefix_refl _) rfl
        fun _ _ hbound => hbound⟩
            · simp only [ha, hrc, ne_eq, not_true_eq_false, not_false_eq_true, if_true, if_false]
              exact .inr rfl
          · simp only [ha, ne_eq, not_false_eq_true, if_true]
            exact .inr rfl
      | _ => cases hk
  | dup i =>
      rcases Ledger.IsCounted.cell hvalid with ⟨k, rc, hi, -⟩
      rcases h.client_cell hi with ⟨p, hp, hg⟩
      simp only [Client.step, hp, bind, Except.bind, Ledger.step, hi]
      rcases h.inside_restamp hg rfl (wokDup_inside (h.held i p _ hg)) with ⟨g', h', hsame⟩
      exact ⟨_, rfl, g', h', hsame.moves (List.prefix_refl _) rfl
        fun _ _ hbound => hbound⟩
  | dec i =>
      rcases Ledger.IsCounted.cell hvalid with ⟨k, rc, hi, -⟩
      rcases h.client_cell hi with ⟨p, hp, hg⟩
      simp only [Client.step, hp, bind, Except.bind, Ledger.step, hi]
      by_cases hrc : rc = 0
      · subst hrc
        rw [wokDec_zero (h.held i p _ hg), if_pos rfl]
        exact .inr rfl
      · rcases wokDec_inside (h.held i p _ hg) hrc with ⟨m', hm, hin⟩
        rw [hm, if_neg hrc]
        rcases h.inside_restamp hg rfl hin with ⟨g', h', hsame⟩
        exact ⟨_, rfl, g', h', hsame.moves (List.prefix_refl _) rfl
        fun _ _ hbound => hbound⟩
  | slotSet i slot word => exact leads_write h hvalid.1 rfl wokSlotSet_inside
  | arraySlotSet i slot word => exact leads_write h hvalid.1 rfl wokArraySlotSet_inside
  | dataSet i slot word => exact leads_write h hvalid.1 rfl wokDataSet_inside
  | free i =>
      rcases Ledger.IsCounted.cell hvalid with ⟨k, rc, hi, -⟩
      rcases h.client_cell hi with ⟨p, hp, hg⟩
      simp only [Client.step, hp, bind, Except.bind, slabBackend, Ledger.step, hi]
      by_cases hrc : rc = 0
      · subst hrc
        rcases h.free hg with ⟨s', g', hfree, h', hsame⟩
        rw [hfree]
        exact ⟨_, rfl, g', h', SameArena.moves
          ⟨hsame.arenaSlabs, hsame.freeSlabs, hsame.saved, hsame.stack, hsame.peak⟩
          (List.prefix_refl _) rfl fun _ _ hbound => wokFree_bound hfree hbound⟩
      · have hword := (h.held i p _ hg).2.1
        simp only [wokFree, hword, hrc, ne_eq, not_false_eq_true, if_true]
        exact .inr rfl
  | arenaOpen =>
      simp only [Client.step, bind, Except.bind, slabBackend, Ledger.step]
      by_cases hdepth : wokArenaMaxDepth ≤ L.depth
      · have hd := h.counts.tallies.arenaDepth
        simp only [wokArenaOpen, hd, if_pos hdepth]
        exact .inr rfl
      · rcases h.openScope hdepth with ⟨s', g', hopen, h', honly, hsaved⟩
        rw [hopen, if_neg hdepth]
        exact ⟨_, rfl, g', h', List.prefix_refl _, honly.kept, honly.frames, fun _ => honly,
          fun _ => hsaved, (by intro _ h; cases h), honly.peak,
          fun _ _ hbound => wokArenaOpen_bound hopen hbound⟩
  | arenaAlloc tag arity =>
      rcases hvalid with ⟨htag, harity⟩
      have hrange : tag < 65536 ∧ arity < 256 := ⟨htag.lt, harity⟩
      have hd := h.counts.tallies.arenaDepth
      simp only [Client.step, bind, Except.bind, slabBackend, wokArenaAlloc, Ledger.step, hrange,
        hd, and_self, not_true_eq_false, if_false]
      by_cases hdepth : L.depth = 0
      · simp only [if_pos hdepth]
        exact .inr rfl
      · simp only [if_neg hdepth]
        have hsize : wokCellBytes arity = 8 + arity * 8 := rfl
        cases hroom : makeArenaRoom M b (wokCellBytes arity) c.st with
        | error e => exact .inl (makeArenaRoom_error (by omega) (by omega) hroom)
        | ok s₁ =>
            rcases h.arenaRoom (by omega) (by omega) hroom with
              ⟨g₁, h₁, hroom', hchecked, hptr, hfits⟩
            rcases h₁.arenaAlloc hdepth htag harity hptr hfits with ⟨g', h', halloc⟩
            have honly := hroom'.trans halloc
            exact ⟨_, rfl, g', h', List.prefix_append _ _, honly.kept, honly.frames,
              fun _ => honly, (by intro h; cases h),
              (by intro _ h; cases h), honly.peak, fun hb _ hbound =>
                physicalBound_mono (hchecked hb hbound) rfl (Nat.le_max_right _ _)⟩
  | arenaClose handle =>
      have hd := h.counts.tallies.arenaDepth
      simp only [Client.step, bind, Except.bind, slabBackend, Ledger.step]
      by_cases hhandle : L.depth = 0 ∨ handle ≠ L.depth - 1
      · simp only [wokArenaClose, hd, if_pos hhandle]
        exact .inr rfl
      · have hsucc : L.depth = handle + 1 := by omega
        rcases h.closeScope hsucc with ⟨s', g', hclose, h', honly, hfrontier⟩
        rw [hclose, if_neg hhandle]
        refine ⟨_, rfl, g', h', List.prefix_refl _, honly.kept, honly.frames, fun _ => honly,
          (by intro h; cases h), ?_, honly.peak,
          fun _ _ hbound => wokArenaClose_bound hclose hbound⟩
        rintro d heq
        cases heq
        exact hfrontier

theorem slab_refines (M : Malloc) (b : Build) :
    Refines (Client.step (slabBackend M b)) Ledger.step Ledger.Valid (Excused M b) Agrees := by
  intro call c L hagrees hvalid
  rcases hagrees with ⟨g, h⟩
  have hleads := slab_leads M b call h hvalid
  apply hleads.weaken
  · intro e he
    exact he.imp_right fun hphys => ⟨hphys.1, hphys.2.1⟩
  · rintro c' L' ⟨g', h', -⟩
    exact ⟨g', h'⟩

end Wok.Runtime.Slab
