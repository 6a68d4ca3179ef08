/-
Module: Wok.Proofs.SlabPhysical
Purpose: The bound on physical memory: it holds along every run in which the peaks of the
  size classes, taken together, stay within a factor of the logical peak; and it fails in
  a run that moves from one size class to the next.
Imports: Mathlib.Algebra.Order.BigOperators.Group.Finset, Wok.Proofs.SlabScopes
Trusted boundary: none
Main exports: Ledger.Dense, Ledger.Sparse, Sound.bound, slab_physical_bound, shift,
  slab_physical_bound_shift
-/
import Mathlib.Algebra.Order.BigOperators.Group.Finset
import Wok.Proofs.SlabScopes

namespace Wok.Runtime

open Wok.Lib

/-! ### Ledgers that the bound holds for -/

namespace Ledger

variable {L L' : Ledger} {call : Call}

/-- What the classes took at their own peaks, with the part of a slab that its last cell
did not fit in, what the arena took at its peak, and the large cells are together within
the factor that the check allows, and three of its eight slabs are left for the slabs that
are not full yet. -/
def Dense (L : Ledger) : Prop :=
  L.classBytes + L.classBytes / 125 + (L.arenaPeak + L.arenaPeak / 30) +
    L.total Status.largeBytes ≤ 4 * L.peakLogical + 5 * wokArenaSize

instance (L : Ledger) : Decidable L.Dense := inferInstanceAs (Decidable (_ ≤ _))

/-- What the classes and the arena took at their peaks, and the large cells, are together
more than the check allows. -/
def Sparse (L : Ledger) : Prop :=
  4 * L.peakLogical + 8 * wokArenaSize <
    L.classBytes + L.arenaPeak + L.total Status.largeBytes

theorem dense_start : Dense {} := by
  simp [Dense, classBytes, total]

/-- The ledger knows nothing of physical memory. -/
theorem step_ne_physical (L : Ledger) (call : Call) : L.step call ≠ .error .physical := by
  cases call with
  | alloc r =>
      intro h
      simp only [Ledger.step] at h
      split at h
      · next e hr =>
          cases h
          cases r <;> simp [Request.overflow] at hr
      · cases h
  | _ => grind [Ledger.step]

theorem Change.peakLogical (h : L.Change call L') : L.peakLogical ≤ L'.peakLogical := by
  cases h with
  | alloc hr => exact Nat.le_max_right _ _
  | arenaAlloc hdepth => exact Nat.le_max_right _ _
  | _ => exact Nat.le_refl _

end Ledger

namespace Slab

variable {M : Malloc} {b : Build} {c c' : Client Heap} {L L' : Ledger} {g g' : Shape}
  {call : Call} {calls : List Call} {m : Memory} {s : State Heap}

/-- The slabs of both regions, each with what is lost in it. -/
theorem slabs_le {S N used peak large logical : Nat} (hS : 65536 * S ≤ used + 520 * S + 65528)
    (hN : 63480 * N ≤ peak + 65528)
    (hdense : used + used / 125 + (peak + peak / 30) + large ≤ 4 * logical + 5 * wokArenaSize) :
    wokArenaSize * (S + N) + large ≤ 4 * logical + 8 * wokArenaSize := by
  simp only [wokArenaSize] at hdense ⊢
  omega

/-- The memory that is held is within the bound. -/
theorem Sound.bound (h : Sound c.st c.cells L g) (hdense : L.Dense) :
    c.st.heap.curPhysicalBytes ≤ 4 * c.st.heap.peakLogicalBytes + 8 * wokArenaSize := by
  rw [h.counts.physical, h.counts.tallies.peakLogical]
  have hpacked := h.counts.packed.1
  have hroom := h.places.counted.frontier.room_le
  simp only [wokArenaSize] at hpacked
  exact slabs_le (by omega) h.counts.arenaHeld hdense

/-- So it is when one more slab is needed. -/
theorem Sound.not_tight (h : Sound c.st c.cells L g) (hdense : L.Dense)
    (hbound : c.st.heap.toCounters.PhysicalBound) : ¬ Tight c.st := by
  rintro ⟨hnot, hneed⟩
  apply hnot
  have hphysical := h.counts.physical
  have hpacked := h.counts.packed.1
  have hroom := h.places.counted.frontier.room_le
  have hgoal : c.st.heap.curPhysicalBytes + wokArenaSize ≤
      4 * c.st.heap.peakLogicalBytes + 8 * wokArenaSize := by
    rw [hphysical, h.counts.tallies.peakLogical]
    rcases hneed with ⟨sz, hpos, hsz, hfull⟩ | ⟨sz, hpos, hsz, hfull, hfree⟩
    · have hlt := h.places.counted.frontier.room_lt hfull hpos
      have hgrown := slabs_le (S := g.slabs.length + 1)
        (N := g.arenaSlabs.length + g.freeSlabs.length) (by
          simp only [wokArenaSize] at hpacked
          omega) h.counts.arenaHeld hdense
      simp only [wokArenaSize] at hgrown ⊢
      omega
    · have hlt := h.places.arena.frontier.room_lt hfull hpos
      have hnil := (h.places.lists.freeSlabs.eq_nil_iff).mpr hfree
      have harena := h.counts.arenaPacked.1
      have hmarked := h.counts.tallies.marked.arena
      have hgrown := slabs_le (S := g.slabs.length)
        (N := g.arenaSlabs.length + g.freeSlabs.length + 1) (by
          simp only [wokArenaSize] at hpacked
          omega) (by
          simp only [hnil, List.length_nil]
          simp only [wokArenaSize] at harena
          omega) hdense
      simp only [wokArenaSize] at hgrown ⊢
      omega
  simp only [Counters.PhysicalBound, Counters.physAdd] at hbound ⊢
  exact max_le hgoal hbound

/-- One call keeps the bound, and the check does not fail in it. -/
theorem Sound.step_bound (h : Sound c.st c.cells L g) (hvalid : L.Valid call) (hdense : L.Dense)
    (hbound : c.st.heap.toCounters.PhysicalBound) :
    c.step (slabBackend M b) call ≠ .error .physical ∧
      ∀ c' L', c.step (slabBackend M b) call = .ok c' → L.step call = .ok L' → L'.Dense →
        c'.st.heap.toCounters.PhysicalBound := by
  constructor
  · intro hstep
    rcases (slab_leads M b call h hvalid).error hstep with hstop | hL
    · rcases hstop with ⟨heq, -⟩ | ⟨-, -, htight⟩
      · cases heq
      · exact h.not_tight hdense hbound htight
    · exact L.step_ne_physical call hL
  · intro c' L' hstep hL hdense'
    rcases h.next hvalid hstep with ⟨L₁, g', hL₁, h', hmoves⟩
    rw [hL] at hL₁
    cases hL₁
    have hcur := h'.bound hdense'
    have hpeak := hmoves.peak
    have hlogical := (Ledger.step_change hL).peakLogical
    rw [← h.counts.tallies.peakLogical, ← h'.counts.tallies.peakLogical] at hlogical
    simp only [Counters.PhysicalBound] at hbound ⊢
    omega

/-- So do the calls of a run. -/
theorem Sound.run_bound (h : Sound c.st c.cells L g) (hvalid : L.ValidRun calls)
    (hdense : ∀ pre L', pre <+: calls → L.run pre = .ok L' → L'.Dense)
    (hbound : c.st.heap.toCounters.PhysicalBound) :
    Client.run (slabBackend M b) calls c ≠ .error .physical ∧
      ∀ c', Client.run (slabBackend M b) calls c = .ok c' →
        c'.st.heap.toCounters.PhysicalBound := by
  induction calls generalizing c L g with
  | nil =>
      constructor
      · intro hrun
        cases hrun
      · intro c' hrun
        cases hrun
        exact hbound
  | cons call calls ih =>
      have hnow := h.step_bound (M := M) (b := b) hvalid.1 (hdense [] L List.nil_prefix rfl) hbound
      rw [Client.run, List.foldlM_cons]
      cases hstep : c.step (slabBackend M b) call with
      | error e =>
          constructor
          · intro heq
            cases heq
            exact hnow.1 hstep
          · intro c' heq
            cases heq
      | ok c₁ =>
          rcases h.next hvalid.1 hstep with ⟨L₁, g₁, hL₁, h₁, -⟩
          have hdense₁ : ∀ pre L', pre <+: calls → L₁.run pre = .ok L' → L'.Dense := by
            intro pre L' hpre hrun
            refine hdense (call :: pre) L' (List.cons_prefix_cons.mpr ⟨rfl, hpre⟩) ?_
            rw [Ledger.run_cons hL₁]
            exact hrun
          have hbound₁ := hnow.2 c₁ L₁ hstep hL₁ (hdense₁ [] L₁ List.nil_prefix rfl)
          exact ih h₁ (hvalid.2 L₁ hL₁) hdense₁ hbound₁

/-- What the slabs and the large cells hold is at least what was in them at the peaks. -/
theorem Sound.not_bound (h : Sound c.st c.cells L g) (hsparse : L.Sparse) :
    ¬ c.st.heap.toCounters.PhysicalBound := by
  have hpacked := h.counts.packed.2
  have harena := h.counts.arenaPeak
  have hphysical := h.counts.physical
  have hmarked := h.counts.marked
  have hlogical := h.counts.tallies.peakLogical
  rw [Nat.mul_add] at hphysical
  simp only [Ledger.Sparse] at hsparse
  simp only [Counters.PhysicalBound]
  omega

/-- In a run in which every ledger is dense, the check of the physical bound never fails,
and the bound holds in every state that is reached; where the ledger is sparse, it does not
hold. -/
theorem slab_physical_bound (M : Malloc) (b : Build) (m : Memory) (calls : List Call)
    (hm : m.blocks = []) (hvalid : Ledger.ValidRun calls {}) :
    ((∀ pre L, pre <+: calls → Ledger.run pre {} = .ok L → L.Dense) →
      Client.run (slabBackend M b) calls (start m) ≠ .error .physical ∧
        ∀ pre c, pre <+: calls → Client.run (slabBackend M b) pre (start m) = .ok c →
          c.st.heap.toCounters.PhysicalBound) ∧
      ∀ pre c L, pre <+: calls → Client.run (slabBackend M b) pre (start m) = .ok c →
        Ledger.run pre {} = .ok L → L.Sparse → ¬ c.st.heap.toCounters.PhysicalBound := by
  rcases agrees_start hm with ⟨g, h⟩
  have hbound : (start m).st.heap.toCounters.PhysicalBound := Nat.zero_le _
  refine ⟨fun hdense => ⟨(h.run_bound hvalid hdense hbound).1, ?_⟩, ?_⟩
  · rintro pre c ⟨rest, rfl⟩ hrun
    refine (h.run_bound hvalid.left ?_ hbound).2 c hrun
    intro pre' L hpre hL
    exact hdense pre' L (hpre.trans (List.prefix_append pre rest)) hL
  · rintro pre c L ⟨rest, rfl⟩ hrun hL hsparse
    rcases h.later hvalid.left hrun with ⟨L', g', hL', h', -⟩
    rw [hL] at hL'
    cases hL'
    exact h'.not_bound hsparse

/-- One node is allocated. -/
theorem slab_physical_bound_one :
    Client.run (slabBackend .upwards ⟨true⟩) [.alloc (.node 5 2)] (start ⟨fun _ => 0, [], 0⟩) ≠
        .error .physical ∧
      ∀ pre c, pre <+: [.alloc (.node 5 2)] →
        Client.run (slabBackend .upwards ⟨true⟩) pre (start ⟨fun _ => 0, [], 0⟩) = .ok c →
        c.st.heap.toCounters.PhysicalBound := by
  refine (slab_physical_bound .upwards ⟨true⟩ ⟨fun _ => 0, [], 0⟩ [.alloc (.node 5 2)] rfl
    (.next ⟨by decide, by decide⟩ rfl trivial)).1 ?_
  intro pre L hpre hL
  cases pre with
  | nil =>
      cases hL
      exact Ledger.dense_start
  | cons call pre =>
      rcases List.cons_prefix_cons.mp hpre with ⟨rfl, hrest⟩
      obtain rfl := List.prefix_nil.mp hrest
      cases hL
      decide +kernel

end Slab

/-! ### A run that moves from class to class -/

/-- So many dead cells in a row. -/
def retire : Nat → Nat → List Call
  | _, 0 => []
  | i, n + 1 => .dec i :: .free i :: retire (i + 1) n

/-- Nodes of each arity in turn: `n` of them are allocated, and all are freed before the
next arity. The first cell got is number `i`. -/
def shift (n : Nat) : List Nat → Nat → List Call
  | [], _ => []
  | arity :: arities, i =>
      List.replicate n (.alloc (.node 0 arity)) ++ (retire i n ++ shift n arities (i + n))

namespace Ledger

variable {L L' : Ledger} {n arity : Nat} {f : Status → Nat} {pre : List Status} {k : Kind}

/-- All cells of the ledger are dead, and it never had more than the given bytes live. -/
structure Spent (bytes : Nat) (L : Ledger) : Prop where
  dead : ∀ st ∈ L.cells, ∃ k, st = .freed k
  logical : L.peakLogical ≤ bytes

theorem Spent.total {bytes : Nat} (h : L.Spent bytes) (hf : ∀ k, f (.freed k) = 0) :
    L.total f = 0 := by
  rw [Ledger.total, List.sum_eq_zero]
  intro x hx
  rcases List.mem_map.mp hx with ⟨st, hst, rfl⟩
  rcases h.dead st hst with ⟨k, rfl⟩
  exact hf k

theorem total_append (h : L'.cells = L.cells ++ List.replicate n (.counted k 1)) :
    L'.total f = L.total f + n * f (.counted k 1) := by
  simp [total, h]

/-- Some cells are allocated. -/
theorem run_replicate (n : Nat) (L : Ledger) (hr : arity < 256)
    (hmarked : ∀ cls, L.total (Status.ofClass cls) ≤ L.classPeak cls) :
    ∃ L', L.run (List.replicate n (.alloc (.node 0 arity))) = .ok L' ∧
      L.ValidRun (List.replicate n (.alloc (.node 0 arity))) ∧
      L'.cells = L.cells ++ List.replicate n (.counted (.node 0 arity) 1) ∧
      L'.depth = L.depth ∧ (∀ cls, L.classPeak cls ≤ L'.classPeak cls) ∧
      (∀ cls, L'.total (Status.ofClass cls) ≤ L'.classPeak cls) ∧
      L'.peakLogical ≤ max L.peakLogical (L'.curBytes + L'.arenaBytes) := by
  induction n generalizing L with
  | zero =>
      exact ⟨L, rfl, trivial, (List.append_nil _).symm, rfl, fun _ => Nat.le_refl _, hmarked,
        Nat.le_max_left _ _⟩
  | succ n ih =>
      have hstep : L.step (.alloc (.node 0 arity)) = .ok (L.addCounted (.node 0 arity)) := rfl
      have hmarked' : ∀ cls, (L.addCounted (.node 0 arity)).total (Status.ofClass cls) ≤
          (L.addCounted (.node 0 arity)).classPeak cls := fun cls => Nat.le_max_left _ _
      rcases ih (L.addCounted (.node 0 arity)) hmarked' with
        ⟨L', hrun, hvalid, hcells, hdepth, hpeak, hcls, hlogical⟩
      refine ⟨L', ?_, .next ⟨by decide, hr⟩ hstep hvalid, ?_, hdepth, ?_, hcls, ?_⟩
      · rw [List.replicate_succ, run_cons hstep]
        exact hrun
      · have hadd : (L.addCounted (.node 0 arity)).cells =
            L.cells ++ [Status.counted (.node 0 arity) 1] := rfl
        rw [hcells, hadd, List.replicate_succ, List.append_assoc, List.singleton_append]
      · exact fun cls => (Nat.le_max_right _ _).trans (hpeak cls)
      · have hbytes : (L.addCounted (.node 0 arity)).curBytes ≤ L'.curBytes := by
          rw [curBytes, curBytes, total_append hcells]
          exact Nat.le_add_right _ _
        have harena : (L.addCounted (.node 0 arity)).arenaBytes ≤ L'.arenaBytes := by
          rw [arenaBytes, arenaBytes, hdepth, total_append hcells]
          exact Nat.le_add_right _ _
        have hmark : (L.addCounted (.node 0 arity)).peakLogical =
            max ((L.addCounted (.node 0 arity)).curBytes +
              (L.addCounted (.node 0 arity)).arenaBytes) L.peakLogical := rfl
        omega

/-- The last cells are freed. -/
theorem run_retire (n : Nat) (L : Ledger)
    (hcells : L.cells = pre ++ List.replicate n (.counted k 1)) :
    ∃ L', L.run (retire pre.length n) = .ok L' ∧ L.ValidRun (retire pre.length n) ∧
      L'.cells = pre ++ List.replicate n (.freed k) ∧ L'.depth = L.depth ∧
      L'.classPeak = L.classPeak ∧ L'.peakLogical = L.peakLogical := by
  induction n generalizing L pre with
  | zero => exact ⟨L, rfl, trivial, hcells, rfl, rfl, rfl⟩
  | succ n ih =>
      rw [List.replicate_succ] at hcells
      have hi : L.cells[pre.length]? = some (.counted k 1) := by
        rw [hcells, List.getElem?_append_right (Nat.le_refl _), Nat.sub_self]
        rfl
      have hdec : L.step (.dec pre.length) = .ok (L.set pre.length (.counted k 0)) := by
        simp only [Ledger.step, hi]
        rfl
      have hcells₁ : (L.set pre.length (.counted k 0)).cells =
          pre ++ .counted k 0 :: List.replicate n (.counted k 1) := by
        have hset : (L.set pre.length (.counted k 0)).cells =
            L.cells.set pre.length (.counted k 0) := rfl
        rw [hset, hcells, List.set_append_right _ _ (Nat.le_refl _), Nat.sub_self,
          List.set_cons_zero]
      have hi₁ : (L.set pre.length (.counted k 0)).cells[pre.length]? = some (.counted k 0) := by
        rw [hcells₁, List.getElem?_append_right (Nat.le_refl _), Nat.sub_self]
        rfl
      have hfree : (L.set pre.length (.counted k 0)).step (.free pre.length) =
          .ok { (L.set pre.length (.counted k 0)).set pre.length (.freed k) with
            frees := L.frees + 1 } := by
        simp only [Ledger.step, hi₁]
        rfl
      have hcells₂ : ((L.set pre.length (.counted k 0)).set pre.length (.freed k)).cells =
          (pre ++ [.freed k]) ++ List.replicate n (.counted k 1) := by
        have hset : ((L.set pre.length (.counted k 0)).set pre.length (.freed k)).cells =
            (L.set pre.length (.counted k 0)).cells.set pre.length (.freed k) := rfl
        rw [hset, hcells₁, List.set_append_right _ _ (Nat.le_refl _), Nat.sub_self,
          List.set_cons_zero, List.append_assoc, List.singleton_append]
      rcases ih { (L.set pre.length (.counted k 0)).set pre.length (.freed k) with
        frees := L.frees + 1 } hcells₂ with ⟨L', hrun, hvalid, hcells', hdepth, hpeak, hlogical⟩
      rw [List.length_append, List.length_singleton] at hrun hvalid
      have hlive : L.IsCounted pre.length fun _ => true := by
        simp only [IsCounted, hi]
      have hlive₁ : (L.set pre.length (.counted k 0)).IsCounted pre.length fun _ => true := by
        simp only [IsCounted, hi₁]
      refine ⟨L', ?_, .next hlive hdec (.next hlive₁ hfree hvalid), ?_, hdepth, hpeak, hlogical⟩
      · rw [retire, run_cons hdec, run_cons hfree]
        exact hrun
      · rw [hcells', List.append_assoc, List.singleton_append, List.replicate_succ]

/-- After a shift through some arities all cells are dead again, and the peak of each
class is as high as if it had been the only one. -/
theorem run_shift {bytes : Nat} (n : Nat) (arities : List Nat) (L : Ledger) (h : L.Spent bytes)
    (hmax : ∀ a ∈ arities, a < 256 ∧ n * (8 + 8 * a) ≤ bytes) :
    ∃ L', L.run (shift n arities L.cells.length) = .ok L' ∧
      L.ValidRun (shift n arities L.cells.length) ∧ L'.Spent bytes ∧
      (∀ cls, L.classPeak cls ≤ L'.classPeak cls) ∧ ∀ a ∈ arities, n ≤ L'.classPeak a := by
  induction arities generalizing L with
  | nil => exact ⟨L, rfl, trivial, h, fun _ => Nat.le_refl _, nofun⟩
  | cons a arities ih =>
      rcases hmax a List.mem_cons_self with ⟨ha, hbytes⟩
      have hmarked : ∀ cls, L.total (Status.ofClass cls) ≤ L.classPeak cls := by
        intro cls
        rw [h.total fun _ => rfl]
        exact Nat.zero_le _
      rcases run_replicate n L ha hmarked with
        ⟨L₁, hrun₁, hvalid₁, hcells₁, hdepth₁, hpeak₁, hmarked₁, hlogical₁⟩
      rcases run_retire n L₁ hcells₁ with
        ⟨L₂, hrun₂, hvalid₂, hcells₂, hdepth₂, hpeak₂, hlogical₂⟩
      have hlive : L₁.curBytes + L₁.arenaBytes ≤ bytes := by
        have hcur : L₁.curBytes = n * (8 + 8 * a) := by
          rw [curBytes, total_append hcells₁, h.total fun _ => rfl, Nat.zero_add]
          rfl
        have harena : L₁.arenaBytes = 0 := by
          rw [arenaBytes, total_append hcells₁, h.total fun _ => rfl]
          rfl
        omega
      have hspent : L₂.Spent bytes := by
        constructor
        · intro st hst
          rw [hcells₂] at hst
          rcases List.mem_append.mp hst with hst | hst
          · exact h.dead st hst
          · exact ⟨_, List.eq_of_mem_replicate hst⟩
        · have hlogical := h.logical
          omega
      have hlen : L₂.cells.length = L.cells.length + n := by
        rw [hcells₂, List.length_append, List.length_replicate]
      rcases ih L₂ hspent fun a' ha' => hmax a' (List.mem_cons_of_mem a ha') with
        ⟨L', hrun', hvalid', hspent', hpeak', hclass'⟩
      rw [hlen] at hrun' hvalid'
      refine ⟨L', ?_, hvalid₁.concat hrun₁ (hvalid₂.concat hrun₂ hvalid'), hspent', ?_, ?_⟩
      · rw [shift, run_append hrun₁, run_append hrun₂]
        exact hrun'
      · intro cls
        have h₂ := hpeak' cls
        rw [hpeak₂] at h₂
        exact (hpeak₁ cls).trans h₂
      · intro a' ha'
        rcases List.mem_cons.mp ha' with rfl | ha'
        · have hone : L₁.total (Status.ofClass a') = n := by
            have hcls : (Kind.node 0 a').cls = a' := by simp only [Kind.cls, Kind.size]; omega
            rw [total_append hcells₁, h.total fun _ => rfl, Nat.zero_add]
            simp only [Status.ofClass, hcls, if_true, Nat.mul_one]
          have h₁ := hmarked₁ a'
          have h₂ := hpeak' a'
          rw [hpeak₂] at h₂
          omega
        · exact hclass' a' ha'

end Ledger

theorem mem_retire {call : Call} {i n : Nat} (h : call ∈ retire i n) :
    ∃ j, call = .dec j ∨ call = .free j := by
  induction n generalizing i with
  | zero => cases h
  | succ n ih =>
      rcases List.mem_cons.mp h with rfl | h
      · exact ⟨i, .inl rfl⟩
      · rcases List.mem_cons.mp h with rfl | h
        · exact ⟨i, .inr rfl⟩
        · exact ih h

/-- A shift through arities with a class allocates no large cell. -/
theorem small_of_mem_shift {call : Call} {r : Request} {n i : Nat} {arities : List Nat}
    (harities : ∀ a ∈ arities, a < wokNumClasses) (h : call ∈ shift n arities i)
    (hr : call = .alloc r) : r.kind.cls < wokNumClasses := by
  induction arities generalizing i with
  | nil => cases h
  | cons a arities ih =>
      rcases List.mem_append.mp h with h | h
      · obtain rfl := List.eq_of_mem_replicate h
        cases hr
        have hcls : (Request.node 0 a).kind.cls = a := by
          simp only [Request.kind, Kind.cls, Kind.size]
          omega
        rw [hcls]
        exact harities a List.mem_cons_self
      · rcases List.mem_append.mp h with h | h
        · rcases mem_retire h with ⟨j, rfl | rfl⟩ <;> cases hr
        · exact ih (fun a' ha' => harities a' (List.mem_cons_of_mem a ha')) h

namespace Slab

variable {M : Malloc} {b : Build} {c c' : Client Heap} {L : Ledger} {g : Shape}
  {calls : List Call}

/-- A build with the check keeps the bound when no large cell is allocated. -/
theorem Sound.run_checked (h : Sound c.st c.cells L g) (hvalid : L.ValidRun calls)
    (hb : b.checkPhysical = true)
    (hsmall : ∀ call ∈ calls, ∀ r, call = .alloc r → r.kind.cls < wokNumClasses)
    (hbound : c.st.heap.toCounters.PhysicalBound)
    (hrun : Client.run (slabBackend M b) calls c = .ok c') :
    c'.st.heap.toCounters.PhysicalBound := by
  induction calls generalizing c L g with
  | nil =>
      cases hrun
      exact hbound
  | cons call calls ih =>
      rw [Client.run, List.foldlM_cons] at hrun
      rcases exceptBind_ok hrun with ⟨c₁, hstep, hrun⟩
      rcases h.next hvalid.1 hstep with ⟨L₁, g₁, hL₁, h₁, hmoves⟩
      exact ih h₁ (hvalid.2 L₁ hL₁) (fun call' hcall => hsmall call' (List.mem_cons_of_mem _ hcall))
        (hmoves.checked hb (hsmall call List.mem_cons_self) hbound) hrun

/-- The nodes that the next run allocates: 128 of each arity from 50 to 63. -/
def shiftArities : List Nat :=
  List.range' 50 14

theorem sparse_of_shift (hspent : L.Spent 65536)
    (hclass : ∀ a ∈ shiftArities, 128 ≤ L.classPeak a) : L.Sparse := by
  have hsum : 824320 ≤ L.classBytes := by
    have hle : ∑ cls ∈ Finset.range wokNumClasses,
        (if cls ∈ shiftArities then 128 else 0) * (8 + 8 * cls) ≤ L.classBytes := by
      apply Finset.sum_le_sum
      intro cls _
      apply Nat.mul_le_mul_right
      split
      · next hmem => exact hclass cls hmem
      · exact Nat.zero_le _
    exact le_trans (by decide +kernel) hle
  have hlogical := hspent.logical
  simp only [Ledger.Sparse, wokArenaSize]
  omega

/-- A memory in which nothing was got from `malloc`. -/
def fresh : Memory :=
  ⟨fun _ => 0, [], 0⟩

/-- Where `malloc` never fails, only the check ends a run that the ledger allows. -/
theorem upwards_run (b : Build) (hvalid : Ledger.ValidRun calls {})
    (hL : Ledger.run calls {} = .ok L) :
    (b.checkPhysical = true ∧
      Client.run (slabBackend .upwards b) calls (start fresh) = .error .physical) ∨
      ∃ c g, Client.run (slabBackend .upwards b) calls (start fresh) = .ok c ∧
        Sound c.st c.cells L g := by
  have hstart : Agrees (start fresh) {} := agrees_start rfl
  have hfollows := (slab_refines .upwards b).run hstart hvalid
  cases hrun : Client.run (slabBackend .upwards b) calls (start fresh) with
  | error e =>
      rcases hfollows.error hrun with he | he
      · rcases he with ⟨-, m, n, hnone⟩ | ⟨rfl, hb⟩
        · cases hnone
        · exact .inl ⟨hb, rfl⟩
      · rw [Ledger.run] at hL
        rw [hL] at he
        cases he
  | ok c =>
      rcases hfollows.ok hrun with ⟨L', hL', g, h⟩
      rw [Ledger.run] at hL
      rw [hL] at hL'
      cases hL'
      exact .inr ⟨c, g, rfl, h⟩

/-- Memory that was freed in one class never serves another. Going through fourteen classes
with 64 KiB of live cells at most, the heap holds more than 800 KB of slabs: a build with
the check ends with its abort, and one without it goes over the bound. -/
theorem slab_physical_bound_shift :
    Ledger.ValidRun (shift 128 shiftArities 0) {} ∧
      Client.run (slabBackend .upwards ⟨true⟩) (shift 128 shiftArities 0) (start fresh) =
        .error .physical ∧
      ∃ c, Client.run (slabBackend .upwards ⟨false⟩) (shift 128 shiftArities 0) (start fresh) =
        .ok c ∧ ¬ c.st.heap.toCounters.PhysicalBound := by
  have hspent : Ledger.Spent 65536 {} := ⟨nofun, Nat.zero_le _⟩
  have hmax : ∀ a ∈ shiftArities, a < 256 ∧ 128 * (8 + 8 * a) ≤ 65536 := by decide
  have hsmall : ∀ a ∈ shiftArities, a < wokNumClasses := by decide
  rcases Ledger.run_shift 128 shiftArities {} hspent hmax with
    ⟨L, hL, hvalid, hspent', -, hclass⟩
  have hstart : Agrees (start fresh) {} := agrees_start rfl
  refine ⟨hvalid, ?_, ?_⟩
  · rcases upwards_run ⟨true⟩ hvalid hL with ⟨-, hrun⟩ | ⟨c, g, hrun, h⟩
    · exact hrun
    · rcases hstart with ⟨g₀, h₀⟩
      have hbound := h₀.run_checked hvalid rfl
        (fun call hcall r hr => small_of_mem_shift hsmall hcall hr) (Nat.zero_le _) hrun
      exact absurd hbound (h.not_bound (sparse_of_shift hspent' hclass))
  · rcases upwards_run ⟨false⟩ hvalid hL with ⟨hb, -⟩ | ⟨c, g, hrun, h⟩
    · cases hb
    · exact ⟨c, hrun, h.not_bound (sparse_of_shift hspent' hclass)⟩

end Slab

end Wok.Runtime
