/-
Module: Wok.Proofs.SlabCounts
Purpose: The counters of the slab build and how full its slabs are, after each kind of
  change.
Imports: Mathlib.Tactic.Ring, Wok.Proofs.SlabTake, Wok.Proofs.Tallies
Trusted boundary: none
Main exports: Packed, Counts, Counts.take
-/
import Mathlib.Tactic.Ring
import Wok.Proofs.SlabTake
import Wok.Proofs.Tallies

namespace Wok.Runtime

open Wok.Lib

/-! ### Bytes of the classes -/

namespace Ledger

variable {L L' : Ledger} {c : Nat}

theorem classBytes_congr (h : ∀ cls < wokNumClasses, L'.classPeak cls = L.classPeak cls) :
    L'.classBytes = L.classBytes :=
  Finset.sum_congr rfl fun cls hcls => by rw [h cls (Finset.mem_range.mp hcls)]

/-- The peak of one class rises by a cell. -/
theorem classBytes_succ (hc : c < wokNumClasses) (hsucc : L'.classPeak c = L.classPeak c + 1)
    (h : ∀ cls < wokNumClasses, cls ≠ c → L'.classPeak cls = L.classPeak cls) :
    L'.classBytes = L.classBytes + (8 + 8 * c) := by
  have hmem : c ∈ Finset.range wokNumClasses := Finset.mem_range.mpr hc
  have hrest : ∑ cls ∈ (Finset.range wokNumClasses).erase c, L'.classPeak cls * (8 + 8 * cls) =
      ∑ cls ∈ (Finset.range wokNumClasses).erase c, L.classPeak cls * (8 + 8 * cls) := by
    apply Finset.sum_congr rfl
    intro cls hcls
    rw [h cls (Finset.mem_range.mp (Finset.mem_of_mem_erase hcls)) (Finset.ne_of_mem_erase hcls)]
  simp only [classBytes]
  rw [← Finset.add_sum_erase _ _ hmem, ← Finset.add_sum_erase _ _ hmem, hrest, hsucc]
  ring

end Ledger

namespace Slab

/-- In `n` slabs `used` bytes are cut off, at most `waste` bytes of each slab are lost,
its link included, and `room` bytes of the newest are left. -/
def Packed (n used waste room : Nat) : Prop :=
  wokArenaSize * n ≤ used + waste * n + room ∧ used + room + wokGranule * n ≤ wokArenaSize * n

/-- The counters of a heap, and how full its slabs are. A slab of the counted region is
left when less than 512 bytes of it are free, one of the arena when less than 2048 are. -/
structure Counts (h : Heap) (L : Ledger) (g : Shape) : Prop where
  tallies : Tallies h.toCounters L
  nslabs : h.counted.nslabs = g.slabs.length
  arenaNslabs : h.arena.nslabs = g.arenaSlabs.length + g.freeSlabs.length
  physical : h.curPhysicalBytes =
    wokArenaSize * (g.slabs.length + (g.arenaSlabs.length + g.freeSlabs.length)) +
      L.total Status.largeBytes
  classes : ∀ cls < wokNumClasses,
    L.total (Status.ofClass cls) + (g.free cls).length = L.classPeak cls
  packed : Packed g.slabs.length L.classBytes 520 (h.counted.bumpEnd - h.counted.bumpPtr)
  arenaPacked : Packed g.arenaSlabs.length L.arenaBytes 2056 (h.arena.bumpEnd - h.arena.bumpPtr)
  frames : ∀ d < L.depth,
    (h.arenaStack d).arenaBytesBefore = L.total (Status.scopeBytes d) ∧
      Packed (g.saved d).length (L.total (Status.scopeBytes d)) 2056
        ((h.arenaStack d).bumpEndSave - (h.arenaStack d).bumpPtrSave)
  /-- a new arena slab is got only when all of them are full -/
  arenaHeld : 63480 * (g.arenaSlabs.length + g.freeSlabs.length) ≤ L.arenaPeak + 65528
  arenaPeak : L.arenaPeak ≤ wokArenaSize * (g.arenaSlabs.length + g.freeSlabs.length)
  marked : h.curPhysicalBytes ≤ h.peakPhysicalBytes

variable {M : Malloc} {b : Build} {s s' : State Heap} {L : Ledger} {g g' : Shape} {k : Kind}
  {p : Nat} {slabs : List Nat} {ptr stop sz waste used : Nat}

theorem Frontier.room_le (h : Frontier slabs ptr stop) : stop - ptr ≤ 65528 := by
  rcases h with ⟨-, rfl, rfl⟩ | ⟨x, rest, -, hx, hle, hstop, -⟩
  · decide
  · simp only [wokGranule, wokArenaSize] at hx hstop
    omega

/-- A full slab has no room for the cell. -/
theorem Frontier.room_lt {r : Region} (h : Frontier slabs r.bumpPtr r.bumpEnd)
    (hfull : r.full sz = true) (hsz : 0 < sz) : r.bumpEnd - r.bumpPtr < sz := by
  simp only [Region.full, Bool.or_eq_true, decide_eq_true_eq] at hfull
  rcases hfull with hzero | hlt
  · rcases h with ⟨-, -, hstop⟩ | ⟨x, rest, -, hx, -⟩
    · omega
    · simp only [wokGranule] at hx
      omega
  · exact hlt

theorem Packed.cut {n room : Nat} (h : Packed n used waste room) (hsz : sz ≤ room) :
    Packed n (used + sz) waste (room - sz) := by
  rcases h with ⟨h₁, h₂⟩
  constructor <;> omega

/-- One more slab, when what is left of the last one is lost. -/
theorem Packed.grow {n room : Nat} (h : Packed n used waste room) (hroom : room + 8 < waste) :
    Packed (n + 1) used waste 65528 := by
  rcases h with ⟨h₁, h₂⟩
  simp only [wokArenaSize, wokGranule] at h₁ h₂
  constructor
  · rw [Nat.mul_add, Nat.mul_add]
    simp only [wokArenaSize]
    omega
  · rw [Nat.mul_add, Nat.mul_add]
    simp only [wokArenaSize, wokGranule]
    omega

/-- The counts after a cell was taken and counted. -/
theorem Counts.take (h : Places s g) (hc : Counts s.heap L g) (ht : Takes M b s g k p s' g')
    (cells : List (Nat × Status)) :
    Counts { s'.heap with toCounters := (s'.heap.toCounters.recordAlloc k.size).logicalMark }
      (L.addCounted k) { g' with cells := cells } := by
  have hsize := k.size_eq
  have hpos := k.size_pos
  have htotal : ∀ f, (L.addCounted k).total f = L.total f + f (.counted k 1) :=
    fun f => Ledger.total_addCounted
  have hcls : ∀ cls, (L.addCounted k).classPeak cls =
      max ((L.addCounted k).total (Status.ofClass cls)) (L.classPeak cls) := fun cls => rfl
  have hother : ∀ cls < wokNumClasses, cls ≠ k.cls →
      (L.addCounted k).total (Status.ofClass cls) = L.total (Status.ofClass cls) ∧
        (L.addCounted k).classPeak cls = L.classPeak cls := by
    intro cls hlt hne
    have hzero : Status.ofClass cls (.counted k 1) = 0 := if_neg (Ne.symm hne)
    have heq : (L.addCounted k).total (Status.ofClass cls) = L.total (Status.ofClass cls) := by
      rw [htotal, hzero, Nat.add_zero]
    have hle := hc.classes cls hlt
    refine ⟨heq, ?_⟩
    rw [hcls, heq]
    omega
  have hone : (L.addCounted k).total (Status.ofClass k.cls) =
      L.total (Status.ofClass k.cls) + 1 := by
    rw [htotal]
    exact congrArg (L.total (Status.ofClass k.cls) + ·) (if_pos rfl)
  have harena : (L.addCounted k).arenaBytes = L.arenaBytes := htotal _
  have hmax : (L.addCounted k).arenaPeak = L.arenaPeak := by
    have heq : (L.addCounted k).arenaPeak = max (L.addCounted k).arenaBytes L.arenaPeak := rfl
    rw [heq, harena, Nat.max_eq_right hc.tallies.marked.arena]
  have hscope : ∀ d, (L.addCounted k).total (Status.scopeBytes d) =
      L.total (Status.scopeBytes d) := fun d => htotal _
  have hlarge : k.cls < wokNumClasses →
      (L.addCounted k).total Status.largeBytes = L.total Status.largeBytes := by
    intro hk
    rw [htotal]
    exact congrArg (L.total Status.largeBytes + ·) (if_neg (Nat.not_le.mpr hk))
  cases ht with
  | @popped p rest hk hfree =>
      have hclass := hc.classes k.cls hk
      rw [hfree, List.length_cons] at hclass
      have hpeak : ∀ cls < wokNumClasses, (L.addCounted k).classPeak cls = L.classPeak cls := by
        intro cls hlt
        by_cases heq : cls = k.cls
        · subst heq
          rw [hcls, hone]
          omega
        · exact (hother cls hlt heq).2
      constructor
      case tallies => exact hc.tallies.addCounted
      case nslabs => exact hc.nslabs
      case arenaNslabs => exact hc.arenaNslabs
      case physical => rw [hlarge hk]; exact hc.physical
      case classes =>
        intro cls hlt
        rw [hpeak cls hlt]
        by_cases heq : cls = k.cls
        · subst heq
          rw [hone]
          simp only [Function.update_self]
          omega
        · rw [(hother cls hlt heq).1]
          simp only [Function.update_of_ne heq]
          exact hc.classes cls hlt
      case packed => rw [Ledger.classBytes_congr hpeak]; exact hc.packed
      case arenaPacked => rw [harena]; exact hc.arenaPacked
      case frames => intro d hd; rw [hscope]; exact hc.frames d hd
      case arenaHeld => rw [hmax]; exact hc.arenaHeld
      case arenaPeak => rw [hmax]; exact hc.arenaPeak
      case marked => exact hc.marked
  | bumped hk hfree hptr hroom =>
      have hclass := hc.classes k.cls hk
      rw [hfree, List.length_nil] at hclass
      have hpeak : (L.addCounted k).classPeak k.cls = L.classPeak k.cls + 1 := by
        rw [hcls, hone]
        omega
      have hbytes : (L.addCounted k).classBytes = L.classBytes + k.size := by
        rw [hsize]
        exact Ledger.classBytes_succ hk hpeak fun cls hlt hne => (hother cls hlt hne).2
      constructor
      case tallies => exact hc.tallies.addCounted
      case nslabs => exact hc.nslabs
      case arenaNslabs => exact hc.arenaNslabs
      case physical => rw [hlarge hk]; exact hc.physical
      case classes =>
        intro cls hlt
        by_cases heq : cls = k.cls
        · subst heq
          simp only [hone, hpeak, hfree, List.length_nil]
          omega
        · rw [(hother cls hlt heq).1, (hother cls hlt heq).2]
          exact hc.classes cls hlt
      case packed =>
        rw [hbytes]
        have hcut := hc.packed.cut hroom
        rw [Nat.sub_sub] at hcut
        exact hcut
      case arenaPacked => rw [harena]; exact hc.arenaPacked
      case frames => intro d hd; rw [hscope]; exact hc.frames d hd
      case arenaHeld => rw [hmax]; exact hc.arenaHeld
      case arenaPeak => rw [hmax]; exact hc.arenaPeak
      case marked => exact hc.marked
  | @grown x hk hfree hfull hx hcheck =>
      have hclass := hc.classes k.cls hk
      rw [hfree, List.length_nil] at hclass
      have hpeak : (L.addCounted k).classPeak k.cls = L.classPeak k.cls + 1 := by
        rw [hcls, hone]
        omega
      have hbytes : (L.addCounted k).classBytes = L.classBytes + k.size := by
        rw [hsize]
        exact Ledger.classBytes_succ hk hpeak fun cls hlt hne => (hother cls hlt hne).2
      have hroom := h.counted.frontier.room_lt hfull hpos
      simp only [wokNumClasses] at hk
      constructor
      case tallies => exact hc.tallies.physAdd.addCounted
      case nslabs => exact congrArg (· + 1) hc.nslabs
      case arenaNslabs => exact hc.arenaNslabs
      case physical =>
        rw [hlarge hk]
        have hphys := hc.physical
        simp only [Counters.logicalMark, Counters.recordAlloc, Counters.physAdd,
          List.length_cons] at hphys ⊢
        rw [hphys]
        ring
      case classes =>
        intro cls hlt
        by_cases heq : cls = k.cls
        · subst heq
          simp only [hone, hpeak, hfree, List.length_nil]
          omega
        · rw [(hother cls hlt heq).1, (hother cls hlt heq).2]
          exact hc.classes cls hlt
      case packed =>
        rw [hbytes]
        have hcut := (hc.packed.grow (by omega)).cut (by omega : k.size ≤ 65528)
        have hleft : x + wokArenaSize - (x + wokGranule + k.size) = 65528 - k.size := by
          simp only [wokArenaSize, wokGranule]
          omega
        simp only [List.length_cons, hleft]
        exact hcut
      case arenaPacked => rw [harena]; exact hc.arenaPacked
      case frames => intro d hd; rw [hscope]; exact hc.frames d hd
      case arenaHeld => rw [hmax]; exact hc.arenaHeld
      case arenaPeak => rw [hmax]; exact hc.arenaPeak
      case marked => exact Nat.le_max_left _ _
  | malloced hk hp =>
      have hpeak : ∀ cls < wokNumClasses, (L.addCounted k).classPeak cls = L.classPeak cls :=
        fun cls hlt => (hother cls hlt (by omega)).2
      constructor
      case tallies => exact hc.tallies.physAdd.addCounted
      case nslabs => exact hc.nslabs
      case arenaNslabs => exact hc.arenaNslabs
      case physical =>
        have hphys := hc.physical
        have hadd : (L.addCounted k).total Status.largeBytes =
            L.total Status.largeBytes + k.size := by
          rw [htotal]
          exact congrArg (L.total Status.largeBytes + ·) (if_pos hk)
        simp only [Counters.logicalMark, Counters.recordAlloc, Counters.physAdd] at hphys ⊢
        rw [hadd, hphys]
        ring
      case classes =>
        intro cls hlt
        rw [(hother cls hlt (by omega)).1, hpeak cls hlt]
        exact hc.classes cls hlt
      case packed => rw [Ledger.classBytes_congr hpeak]; exact hc.packed
      case arenaPacked => rw [harena]; exact hc.arenaPacked
      case frames => intro d hd; rw [hscope]; exact hc.frames d hd
      case arenaHeld => rw [hmax]; exact hc.arenaHeld
      case arenaPeak => rw [hmax]; exact hc.arenaPeak
      case marked => exact Nat.le_max_left _ _

end Slab

end Wok.Runtime
