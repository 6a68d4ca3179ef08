/-
Module: Wok.Proofs.Tallies
Purpose: The counters of a heap are those of the ledger, whatever the build, after each
  kind of change of the ledger.
Imports: Mathlib.Algebra.Order.BigOperators.Group.List, Mathlib.Algebra.Order.Ring.Nat,
  Wok.Spec.Ledger
Trusted boundary: none
Main exports: Ledger.total_addCounted, Ledger.total_addArena, Ledger.total_set,
  Ledger.total_closeFrom, Tallies, Tallies.addCounted, Tallies.release, Tallies.restamp,
  Tallies.addArena, Tallies.open, Tallies.closeFrom
-/
import Mathlib.Algebra.Order.BigOperators.Group.List
import Mathlib.Algebra.Order.Ring.Nat
import Wok.Spec.Ledger

namespace Wok.Runtime

/-! ### Sums over the cells of a ledger -/

namespace Ledger

variable {L : Ledger} {f f' : Status → Nat} {i tag arity depth : Nat} {st st' : Status} {k : Kind}

theorem total_addCounted : (L.addCounted k).total f = L.total f + f (.counted k 1) := by
  simp [addCounted, mark, total]

theorem total_addArena :
    (L.addArena tag arity).total f = L.total f + f (.arena tag arity (L.depth - 1)) := by
  simp [addArena, mark, total]

theorem total_set (f : Status → Nat) (st' : Status) (h : L.cells[i]? = some st) :
    (L.set i st').total f + f st = L.total f + f st' := by
  have hi : i < L.cells.length := (List.getElem?_eq_some_iff.mp h).1
  have hst : L.cells[i] = st := (List.getElem?_eq_some_iff.mp h).2
  have hsplit : L.cells = L.cells.take i ++ st :: L.cells.drop (i + 1) := by
    rw [← hst, List.getElem_cons_drop, List.take_append_drop]
  have hset : (L.set i st').cells = L.cells.take i ++ st' :: L.cells.drop (i + 1) :=
    List.set_eq_take_append_cons_drop.trans (if_pos hi)
  simp only [total]
  rw [hset]
  conv_rhs => rw [hsplit]
  simp only [List.map_append, List.map_cons, List.sum_append, List.sum_cons]
  omega

theorem total_closeFrom (h : ∀ st, f (st.close depth) = f' st) :
    (L.closeFrom depth).total f = L.total f' := by
  simp only [closeFrom, total, List.map_map]
  congr 1
  apply List.map_congr_left
  intro st _
  exact h st

theorem total_mono (h : ∀ st, f st ≤ f' st) : L.total f ≤ L.total f' :=
  List.sum_le_sum fun st _ => h st

@[simp] theorem depth_addCounted : (L.addCounted k).depth = L.depth := rfl
@[simp] theorem depth_addArena : (L.addArena tag arity).depth = L.depth := rfl

end Ledger

/-- A scope that is closed takes none of the cells of the scopes below. -/
theorem Status.scopeBytes_close {d depth : Nat} (h : d ≤ depth) (st : Status) :
    (st.close depth).scopeBytes d = st.scopeBytes d := by
  cases st with
  | arena tag arity scope =>
      by_cases hscope : scope < depth
      · simp only [Status.close, if_pos hscope]
      · simp only [Status.close, if_neg hscope, Status.scopeBytes]
        rw [if_neg (by omega)]
  | _ => rfl

/-- All cells of the arena are of scopes that are open. -/
theorem Ledger.scopeBytes_depth {L : Ledger} {cells : List (Nat × Status)}
    (hcells : L.cells = cells.map Prod.snd)
    (hscope : ∀ {i q tag arity d : Nat}, cells[i]? = some (q, Status.arena tag arity d) →
      d < L.depth) :
    ∀ st ∈ L.cells, ∀ d ≥ L.depth, st.scopeBytes d = st.scopeBytes L.depth := by
  intro st hst d hge
  rw [hcells] at hst
  rcases List.mem_map.mp hst with ⟨⟨q, st'⟩, hmem, rfl⟩
  rcases List.mem_iff_getElem?.mp hmem with ⟨n, hn⟩
  cases st' with
  | arena tag arity scope =>
      have hlt := hscope hn
      simp only [Status.scopeBytes]
      rw [if_pos hlt, if_pos (by omega)]
  | _ => rfl

/-! ### High-water marks -/

/-- The marks of a ledger are not below what they mark. -/
structure Ledger.Marked (L : Ledger) : Prop where
  live : L.live ≤ L.peak
  bytes : L.curBytes ≤ L.peakBytes
  arena : L.arenaBytes ≤ L.arenaPeak
  logical : L.curBytes + L.arenaBytes ≤ L.peakLogical
  cls : ∀ cls, L.total (Status.ofClass cls) ≤ L.classPeak cls

namespace Ledger

variable {L L' : Ledger}

theorem marked_mark (L : Ledger) : L.mark.Marked where
  live := Nat.le_max_left _ _
  bytes := Nat.le_max_left _ _
  arena := Nat.le_max_left _ _
  logical := Nat.le_max_left _ _
  cls := fun _ => Nat.le_max_left _ _

end Ledger

/-! ### Counters -/

/-- The counters are what the ledger says, those of physical memory apart. -/
structure Tallies (h : Counters) (L : Ledger) : Prop where
  allocs : h.allocs = L.allocs
  frees : h.frees = L.frees
  live : h.live = L.live
  peak : h.peak = L.peak
  curBytes : h.curBytes = L.curBytes
  peakBytes : h.peakBytes = L.peakBytes
  arenaDepth : h.arenaDepth = L.depth
  arenaBytes : h.arenaBytes = L.arenaBytes
  arenaPeak : h.arenaPeak = L.arenaPeak
  peakLogical : h.peakLogicalBytes = L.peakLogical
  balanced : L.live + L.frees = L.allocs
  marked : L.Marked

namespace Tallies

variable {h : Counters} {L : Ledger} {k k' : Kind} {i n rc rc' tag arity depth : Nat}

theorem start : Tallies {} {} := by
  constructor <;> first | rfl | constructor <;> simp [Ledger.live, Ledger.curBytes,
    Ledger.arenaBytes, Ledger.total]

theorem physAdd (ht : Tallies h L) : Tallies (h.physAdd n) L :=
  ⟨ht.allocs, ht.frees, ht.live, ht.peak, ht.curBytes, ht.peakBytes, ht.arenaDepth,
    ht.arenaBytes, ht.arenaPeak, ht.peakLogical, ht.balanced, ht.marked⟩

theorem physSub (ht : Tallies h L) : Tallies (h.physSub n) L :=
  ⟨ht.allocs, ht.frees, ht.live, ht.peak, ht.curBytes, ht.peakBytes, ht.arenaDepth,
    ht.arenaBytes, ht.arenaPeak, ht.peakLogical, ht.balanced, ht.marked⟩

theorem addCounted (ht : Tallies h L) :
    Tallies (h.recordAlloc k.size).logicalMark (L.addCounted k) := by
  have hlive : (L.addCounted k).live = L.live + 1 := Ledger.total_addCounted
  have hbytes : (L.addCounted k).curBytes = L.curBytes + k.size := Ledger.total_addCounted
  have harena : (L.addCounted k).arenaBytes = L.arenaBytes := Ledger.total_addCounted
  constructor
  case allocs => exact congrArg (· + 1) ht.allocs
  case frees => exact ht.frees
  case live =>
    rw [hlive]
    simp only [Counters.logicalMark, Counters.recordAlloc, ht.live]
    omega
  case peak =>
    have hpeak : (L.addCounted k).peak = max (L.addCounted k).live L.peak := rfl
    rw [hpeak, hlive]
    simp only [Counters.logicalMark, Counters.recordAlloc, ht.live, ht.peak]
    omega
  case curBytes =>
    rw [hbytes]
    exact congrArg (· + k.size) ht.curBytes
  case peakBytes =>
    have hpeak : (L.addCounted k).peakBytes = max (L.addCounted k).curBytes L.peakBytes := rfl
    rw [hpeak, hbytes]
    simp only [Counters.logicalMark, Counters.recordAlloc, ht.curBytes, ht.peakBytes]
  case arenaDepth => exact ht.arenaDepth
  case arenaBytes => exact ht.arenaBytes.trans harena.symm
  case arenaPeak =>
    have hpeak : (L.addCounted k).arenaPeak = max (L.addCounted k).arenaBytes L.arenaPeak := rfl
    rw [hpeak, harena, Nat.max_eq_right ht.marked.arena]
    exact ht.arenaPeak
  case peakLogical =>
    have hpeak : (L.addCounted k).peakLogical =
        max ((L.addCounted k).curBytes + (L.addCounted k).arenaBytes) L.peakLogical := rfl
    rw [hpeak, hbytes, harena]
    simp only [Counters.logicalMark, Counters.recordAlloc, ht.curBytes, ht.arenaBytes,
      ht.peakLogical]
  case balanced =>
    have hallocs : (L.addCounted k).allocs = L.allocs + 1 := rfl
    have hfrees : (L.addCounted k).frees = L.frees := rfl
    have hbal := ht.balanced
    omega
  case marked => exact Ledger.marked_mark _

/-- A cell is freed. -/
theorem release (ht : Tallies h L) (hi : L.cells[i]? = some (.counted k rc)) :
    Tallies (h.recordFree k.size) { L.set i (.freed k) with frees := L.frees + 1 } := by
  have htotal : ∀ f, (L.set i (.freed k)).total f + f (.counted k rc) = L.total f + f (.freed k) :=
    fun f => Ledger.total_set f _ hi
  have hlive : (L.set i (.freed k)).live + 1 = L.live := htotal Status.one
  have hbytes : (L.set i (.freed k)).curBytes + k.size = L.curBytes := htotal Status.bytes
  have harena : (L.set i (.freed k)).arenaBytes = L.arenaBytes :=
    htotal (Status.scopeBytes L.depth)
  constructor
  case allocs => exact ht.allocs
  case frees => exact congrArg (· + 1) ht.frees
  case live =>
    have hgoal : (h.recordFree k.size).live = ((L.set i (.freed k)).live : Int) := by
      simp only [Counters.recordFree, ht.live]
      omega
    exact hgoal
  case peak => exact ht.peak
  case curBytes =>
    have hgoal : (h.recordFree k.size).curBytes = (L.set i (.freed k)).curBytes := by
      simp only [Counters.recordFree, ht.curBytes]
      omega
    exact hgoal
  case peakBytes => exact ht.peakBytes
  case arenaDepth => exact ht.arenaDepth
  case arenaBytes => exact ht.arenaBytes.trans harena.symm
  case arenaPeak => exact ht.arenaPeak
  case peakLogical => exact ht.peakLogical
  case balanced =>
    have hbal := ht.balanced
    have hgoal : (L.set i (.freed k)).live + (L.frees + 1) = L.allocs := by omega
    exact hgoal
  case marked =>
    have hm := ht.marked
    constructor
    case live => exact le_trans (by omega : (L.set i (.freed k)).live ≤ L.live) hm.live
    case bytes => exact le_trans (by omega : (L.set i (.freed k)).curBytes ≤ L.curBytes) hm.bytes
    case arena => exact harena.trans_le hm.arena
    case logical =>
      exact le_trans (by omega : (L.set i (.freed k)).curBytes +
        (L.set i (.freed k)).arenaBytes ≤ L.curBytes + L.arenaBytes) hm.logical
    case cls =>
      intro cls
      have hcls := htotal (Status.ofClass cls)
      have hfreed : Status.ofClass cls (.freed k) = 0 := rfl
      exact le_trans (by omega : (L.set i (.freed k)).total (Status.ofClass cls) ≤
        L.total (Status.ofClass cls)) (hm.cls cls)

/-- A cell gets another count, or another tag. -/
theorem restamp (ht : Tallies h L) (hi : L.cells[i]? = some (.counted k rc))
    (hsize : k'.size = k.size) : Tallies h (L.set i (.counted k' rc')) := by
  have hcls : k'.cls = k.cls := by rw [Kind.cls, hsize, Kind.cls]
  have htotal : ∀ f, f (.counted k' rc') = f (.counted k rc) →
      (L.set i (.counted k' rc')).total f = L.total f := by
    intro f hf
    have := Ledger.total_set f (.counted k' rc') hi
    omega
  have hlive : (L.set i (.counted k' rc')).live = L.live := htotal Status.one rfl
  have hbytes : (L.set i (.counted k' rc')).curBytes = L.curBytes := htotal Status.bytes hsize
  have harena : (L.set i (.counted k' rc')).arenaBytes = L.arenaBytes := htotal _ rfl
  constructor
  case allocs => exact ht.allocs
  case frees => exact ht.frees
  case live => rw [hlive]; exact ht.live
  case peak => exact ht.peak
  case curBytes => rw [hbytes]; exact ht.curBytes
  case peakBytes => exact ht.peakBytes
  case arenaDepth => exact ht.arenaDepth
  case arenaBytes => rw [harena]; exact ht.arenaBytes
  case arenaPeak => exact ht.arenaPeak
  case peakLogical => exact ht.peakLogical
  case balanced => rw [hlive]; exact ht.balanced
  case marked =>
    constructor
    case live => rw [hlive]; exact ht.marked.live
    case bytes => rw [hbytes]; exact ht.marked.bytes
    case arena => rw [harena]; exact ht.marked.arena
    case logical => rw [hbytes, harena]; exact ht.marked.logical
    case cls =>
      intro cls
      rw [htotal (Status.ofClass cls) (by simp only [Status.ofClass, hcls])]
      exact ht.marked.cls cls

theorem openScope (ht : Tallies h L) (hscope : ∀ st ∈ L.cells, ∀ d ≥ L.depth,
    st.scopeBytes d = st.scopeBytes L.depth) :
    Tallies { h with arenaDepth := h.arenaDepth + 1 } { L with depth := L.depth + 1 } := by
  have harena : Ledger.arenaBytes { L with depth := L.depth + 1 } = L.arenaBytes := by
    simp only [Ledger.arenaBytes, Ledger.total]
    congr 1
    apply List.map_congr_left
    intro st hst
    exact hscope st hst _ (Nat.le_succ _)
  constructor
  case allocs => exact ht.allocs
  case frees => exact ht.frees
  case live => exact ht.live
  case peak => exact ht.peak
  case curBytes => exact ht.curBytes
  case peakBytes => exact ht.peakBytes
  case arenaDepth => exact congrArg (· + 1) ht.arenaDepth
  case arenaBytes => exact ht.arenaBytes.trans harena.symm
  case arenaPeak => exact ht.arenaPeak
  case peakLogical => exact ht.peakLogical
  case balanced => exact ht.balanced
  case marked =>
    refine ⟨ht.marked.live, ht.marked.bytes, ?_, ?_, ht.marked.cls⟩
    · rw [harena]
      exact ht.marked.arena
    · rw [harena]
      exact ht.marked.logical

theorem addArena (ht : Tallies h L) (hdepth : L.depth ≠ 0) :
    Tallies (h.recordArena (wokCellBytes arity)).logicalMark (L.addArena tag arity) := by
  have hlive : (L.addArena tag arity).live = L.live := Ledger.total_addArena
  have hbytes : (L.addArena tag arity).curBytes = L.curBytes := Ledger.total_addArena
  have hcell : Status.scopeBytes L.depth (.arena tag arity (L.depth - 1)) = wokCellBytes arity := by
    simp only [Status.scopeBytes, wokCellBytes, Nat.mul_comm]
    exact if_pos (by omega)
  have harena : (L.addArena tag arity).arenaBytes = L.arenaBytes + wokCellBytes arity := by
    simp only [Ledger.arenaBytes]
    rw [← hcell]
    exact Ledger.total_addArena
  constructor
  case allocs => exact ht.allocs
  case frees => exact ht.frees
  case live => rw [hlive]; exact ht.live
  case peak =>
    have hpeak : (L.addArena tag arity).peak = max (L.addArena tag arity).live L.peak := rfl
    rw [hpeak, hlive, Nat.max_eq_right ht.marked.live]
    exact ht.peak
  case curBytes => rw [hbytes]; exact ht.curBytes
  case peakBytes =>
    have hpeak : (L.addArena tag arity).peakBytes =
        max (L.addArena tag arity).curBytes L.peakBytes := rfl
    rw [hpeak, hbytes, Nat.max_eq_right ht.marked.bytes]
    exact ht.peakBytes
  case arenaDepth => exact ht.arenaDepth
  case arenaBytes =>
    rw [harena]
    exact congrArg (· + wokCellBytes arity) ht.arenaBytes
  case arenaPeak =>
    have hpeak : (L.addArena tag arity).arenaPeak =
        max (L.addArena tag arity).arenaBytes L.arenaPeak := rfl
    rw [hpeak, harena]
    simp only [Counters.logicalMark, Counters.recordArena, ht.arenaBytes, ht.arenaPeak]
  case peakLogical =>
    have hpeak : (L.addArena tag arity).peakLogical =
        max ((L.addArena tag arity).curBytes + (L.addArena tag arity).arenaBytes)
          L.peakLogical := rfl
    rw [hpeak, hbytes, harena]
    simp only [Counters.logicalMark, Counters.recordArena, ht.curBytes, ht.arenaBytes,
      ht.peakLogical]
  case balanced =>
    rw [hlive]
    exact ht.balanced
  case marked => exact Ledger.marked_mark _

/-- The innermost scope is closed, and the arena bytes go back to what they were. -/
theorem closeFrom (ht : Tallies h L) (hd : L.depth = depth + 1) :
    Tallies { h with
      arenaBytes := L.total (Status.scopeBytes depth)
      arenaDepth := h.arenaDepth - 1 } (L.closeFrom depth) := by
  have hsame : ∀ f, (∀ st, f (Status.close depth st) = f st) →
      (L.closeFrom depth).total f = L.total f := fun f hf => Ledger.total_closeFrom hf
  have hclose : ∀ f : Status → Nat, (∀ tag arity scope, f (.arena tag arity scope) = f .closed) →
      ∀ st, f (Status.close depth st) = f st := by
    intro f hf st
    cases st with
    | arena tag arity scope =>
        simp only [Status.close]
        split
        · rfl
        · exact (hf tag arity scope).symm
    | _ => rfl
  have hlive : (L.closeFrom depth).live = L.live := hsame _ (hclose _ fun _ _ _ => rfl)
  have hbytes : (L.closeFrom depth).curBytes = L.curBytes := hsame _ (hclose _ fun _ _ _ => rfl)
  have harena : (L.closeFrom depth).arenaBytes = L.total (Status.scopeBytes depth) :=
    Ledger.total_closeFrom fun st => Status.scopeBytes_close (Nat.le_refl depth) st
  have hle : L.total (Status.scopeBytes depth) ≤ L.arenaBytes := by
    apply Ledger.total_mono
    intro st
    cases st with
    | arena tag arity scope =>
        simp only [Status.scopeBytes]
        split
        · rw [if_pos (by omega)]
        · exact Nat.zero_le _
    | _ => exact Nat.le_refl _
  constructor
  case allocs => exact ht.allocs
  case frees => exact ht.frees
  case live => rw [hlive]; exact ht.live
  case peak => exact ht.peak
  case curBytes => rw [hbytes]; exact ht.curBytes
  case peakBytes => exact ht.peakBytes
  case arenaDepth =>
    have hdepth := ht.arenaDepth
    have hgoal : h.arenaDepth - 1 = depth := by omega
    exact hgoal
  case arenaBytes => exact harena.symm
  case arenaPeak => exact ht.arenaPeak
  case peakLogical => exact ht.peakLogical
  case balanced => rw [hlive]; exact ht.balanced
  case marked =>
    constructor
    case live => rw [hlive]; exact ht.marked.live
    case bytes => rw [hbytes]; exact ht.marked.bytes
    case arena => rw [harena]; exact hle.trans ht.marked.arena
    case logical =>
      rw [hbytes, harena]
      exact (Nat.add_le_add_left hle _).trans ht.marked.logical
    case cls =>
      intro cls
      rw [hsame _ (hclose _ fun _ _ _ => rfl)]
      exact ht.marked.cls cls

end Tallies

end Wok.Runtime
