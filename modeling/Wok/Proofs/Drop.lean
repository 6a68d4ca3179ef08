/-
Module: Wok.Proofs.Drop
Purpose: Dropping one owned handle keeps every count right and gives back exactly
  the cells that no owned handle reaches any more.
Imports: Mathlib.Data.Prod.Lex, Wok.Spec.Drop
Trusted boundary: none
Main exports: dropStep_spec, dropAddr_frees_unreachable
-/
import Mathlib.Data.Prod.Lex
import Wok.Spec.Drop

namespace Wok.Interp.RC

open Wok.IR
open Wok.Lib

variable {s s' t : Store} {a b : Addr} {charge : Addr → Int} {handles : List Addr}

/-! ### Reservations in flight -/

section Reservations

variable {R R' : Finset Addr}

theorem reservationsFromValues_filter (h : R' ⊆ R) (vs : List RCValue) :
    reservationsFromValues R' vs = (reservationsFromValues R vs).filter (·.1 ∈ R') := by
  unfold reservationsFromValues
  rw [List.filter_filterMap]
  congr 1
  funext v
  rcases v with _ | _ | _ | _ | _ | slot
  all_goals try rfl
  by_cases hR' : slot.addr ∈ R'
  · simp [hR', h hR', Option.filter]
  · by_cases hR : slot.addr ∈ R <;> simp [hR', hR, Option.filter]

theorem continuationReservationsGo_filter (h : R' ⊆ R) (k : RCKont) :
    continuationReservationsGo R' k =
      (continuationReservationsGo R k).filter (·.1 ∈ R') := by
  induction k with
  | nil => rfl
  | cons frame k ih =>
      cases frame with
      | let_ b body sc =>
          simp only [continuationReservationsGo, List.filter_append, ih,
            reservationsFromValues_filter h]
      | app args =>
          simp only [continuationReservationsGo, List.filter_append, ih,
            reservationsFromValues_filter h]
      | handle hd tag sc =>
          simp only [continuationReservationsGo, List.filter_append, ih,
            reservationsFromValues_filter h]
      | dropCell a => exact ih
      | arenaClose => exact ih
      | windowClose => exact ih
      | borrowClose => exact ih

/-- What is marked as seen matters on `R'` only when the rest is filtered out. -/
theorem dedupReservations_filter {seen seen' : List Addr}
    (h : ∀ a ∈ R', a ∈ seen ↔ a ∈ seen') (l : List (Addr × Int)) :
    dedupReservations seen (l.filter (·.1 ∈ R')) =
      (dedupReservations seen' l).filter (·.1 ∈ R') := by
  induction l generalizing seen seen' with
  | nil => rfl
  | cons r rest ih =>
      rcases r with ⟨a, b⟩
      by_cases hR : a ∈ R'
      · have hiff := h a hR
        have hcons : ∀ x ∈ R', x ∈ a :: seen ↔ x ∈ a :: seen' := by
          intro x hx
          rw [List.mem_cons, List.mem_cons, h x hx]
        by_cases hseen : a ∈ seen'
        · simp [dedupReservations, hR, hseen, hiff.mpr hseen, ih h]
        · simp [dedupReservations, hR, hseen, mt hiff.mp hseen, ih hcons]
      · have hcons : ∀ x ∈ R', x ∈ seen ↔ x ∈ a :: seen' := by
          intro x hx
          have hxa : x ≠ a := fun hxa => hR (hxa ▸ hx)
          rw [h x hx, List.mem_cons, or_iff_right hxa]
        by_cases hseen : a ∈ seen'
        · simp [dedupReservations, hR, hseen, ih h]
        · simp [dedupReservations, hR, hseen, ih hcons]

/-- Fewer reserved shells leave fewer of them in flight. -/
theorem continuationReservations_filter (h : R' ⊆ R) (k : RCKont) :
    continuationReservations k R' = (continuationReservations k R).filter (·.1 ∈ R') := by
  unfold continuationReservations
  rw [continuationReservationsGo_filter h]
  exact dedupReservations_filter (fun _ _ => Iff.rfl) _

theorem dedupReservations_nodup (seen : List Addr) (l : List (Addr × Int)) :
    (∀ r ∈ dedupReservations seen l, r.1 ∉ seen) ∧
      ((dedupReservations seen l).map Prod.fst).Nodup := by
  induction l generalizing seen with
  | nil => exact ⟨nofun, .nil⟩
  | cons r rest ih =>
      rcases r with ⟨a, b⟩
      by_cases hseen : a ∈ seen
      · simpa [dedupReservations, hseen] using ih seen
      · rcases ih (a :: seen) with ⟨hout, hnodup⟩
        simp only [dedupReservations, hseen, if_false, List.map_cons, List.nodup_cons]
        refine ⟨?_, ?_, hnodup⟩
        · intro r hr
          rcases List.mem_cons.mp hr with rfl | hr
          · exact hseen
          · exact fun hmem => hout r hr (List.mem_cons_of_mem a hmem)
        · intro hmem
          rcases List.mem_map.mp hmem with ⟨r, hr, hra⟩
          exact hout r hr (hra ▸ List.mem_cons_self)

theorem continuationReservations_self (k : RCKont) (R : Finset Addr) :
    ∀ r ∈ continuationReservations k R, r.1 ∈ R := by
  intro r hr
  rw [continuationReservations_filter (Finset.Subset.refl R)] at hr
  simpa using (List.mem_filter.mp hr).2

end Reservations

/-! ### Live cells -/

@[simp] theorem mem_liveCells_heap {i : Int} :
    Addr.heap i ∈ s.liveCells ↔
      (∃ c, s.cells.lookup i = some c) ∧ s.counted (.heap i) = true := by
  rw [← Option.isSome_iff_exists, AList.lookup_isSome]
  simp [Store.liveCells, AList.mem_keys]

@[simp] theorem mem_liveCells_c {p : Ptr} :
    Addr.c p ∈ s.liveCells ↔
      (∃ o, s.objs.lookup p = some o ∧ o.rc ≠ 0) ∧ s.counted (.c p) = true := by
  have hlookup : ∀ o, s.objs.lookup p = some o ↔
      (⟨p, o⟩ : Sigma fun _ => WokObj) ∈ s.objs.entries :=
    fun o => AList.mem_lookup_iff
  simp only [hlookup]
  constructor
  · intro h
    simpa [Store.liveCells] using h
  · intro h
    simpa [Store.liveCells] using h

theorem counted_of_mem_liveCells (h : a ∈ s.liveCells) : s.counted a = true :=
  (List.mem_filter.mp (List.mem_toFinset.mp h)).2

@[simp] theorem inline_notMem_liveCells {tag : UInt32} : Addr.inline tag ∉ s.liveCells :=
  fun h => nomatch counted_of_mem_liveCells h

@[simp] theorem inlineStr_notMem_liveCells {bytes : List UInt8} :
    Addr.inlineStr bytes ∉ s.liveCells :=
  fun h => nomatch counted_of_mem_liveCells h

/-- A reserved shell is not a live cell. -/
theorem Store.WellFormed.disjoint (h : s.WellFormed charge) :
    Disjoint s.liveCells s.reserved := by
  rw [Finset.disjoint_right]
  intro a ha hlive
  cases a with
  | heap i =>
      rcases mem_liveCells_heap.mp hlive with ⟨⟨c, hc⟩, -⟩
      rw [(h.reservedHeap i ha).1] at hc
      cases hc
  | c p =>
      rcases mem_liveCells_c.mp hlive with ⟨⟨o, ho, hrc⟩, -⟩
      rcases h.reservedC p ha with ⟨o', ho', hrc'⟩
      rw [ho'] at ho
      cases ho
      exact hrc hrc'
  | inline tag => cases h.reservedInline _ ha
  | inlineStr bytes => cases h.reservedInline _ ha

/-! ### Changes of one cell -/

/-- The stores have the same cells, with the same counts, except at `a`. -/
structure SameBut (a : Addr) (s s' : Store) : Prop where
  arena : s'.arena = s.arena
  arenaC : s'.arenaC = s.arenaC
  cells : ∀ i, Addr.heap i ≠ a → s'.cells.lookup i = s.cells.lookup i
  objs : ∀ p, Addr.c p ≠ a → s'.objs.lookup p = s.objs.lookup p

theorem SameBut.mem_liveCells (h : SameBut a s s') (hb : b ≠ a) :
    b ∈ s'.liveCells ↔ b ∈ s.liveCells := by
  have hcounted : s'.counted b = s.counted b := by
    cases b <;> simp only [Store.counted, Store.isArenaAddr, h.arena, h.arenaC]
  cases b with
  | heap i => rw [mem_liveCells_heap, mem_liveCells_heap, hcounted, h.cells i hb]
  | c p => rw [mem_liveCells_c, mem_liveCells_c, hcounted, h.objs p hb]
  | inline tag => simp
  | inlineStr bytes => simp

theorem SameBut.countOf (h : SameBut a s s') (hb : b ≠ a) : s'.countOf b = s.countOf b := by
  cases b with
  | heap i => simp only [Store.countOf, h.cells i hb]
  | c p => simp only [Store.countOf, h.objs p hb]
  | inline tag => rfl
  | inlineStr bytes => rfl

theorem SameBut.liveCells_eq (h : SameBut a s s') (ha : a ∈ s'.liveCells ↔ a ∈ s.liveCells) :
    s'.liveCells = s.liveCells := by
  ext b
  by_cases hb : b = a
  · rw [hb]
    exact ha
  · exact h.mem_liveCells hb

theorem SameBut.liveCells_erase (h : SameBut a s s') (ha : a ∉ s'.liveCells) :
    s'.liveCells = s.liveCells.erase a := by
  ext b
  rw [Finset.mem_erase]
  by_cases hb : b = a
  · rw [hb]
    simpa using ha
  · rw [h.mem_liveCells hb]
    simp [hb]

theorem sameBut_cells {i : Int} {cells : AList (fun _ : Int => Cell)}
    (h : ∀ j, j ≠ i → cells.lookup j = s.cells.lookup j) :
    SameBut (.heap i) s { s with cells := cells } where
  arena := rfl
  arenaC := rfl
  cells := fun j hj => h j fun hji => hj (hji ▸ rfl)
  objs := fun _ _ => rfl

theorem sameBut_objs {p : Ptr} {objs : AList (fun _ : Ptr => WokObj)}
    (h : ∀ q, q ≠ p → objs.lookup q = s.objs.lookup q) :
    SameBut (.c p) s { s with objs := objs } where
  arena := rfl
  arenaC := rfl
  cells := fun _ _ => rfl
  objs := fun q hq => h q fun hqp => hq (hqp ▸ rfl)

/-! ### What stays the same in the cells that are left -/

/-- `s'` has no cell that `s` has not, and its cells hold what they held in `s`,
other counts apart. -/
structure Keeps (s s' : Store) : Prop where
  arena : s'.arena = s.arena
  arenaC : s'.arenaC = s.arenaC
  conDesc : s'.conDesc = s.conDesc
  backend : s'.backend = s.backend
  cells : ∀ i c', s'.cells.lookup i = some c' →
    ∃ c, s.cells.lookup i = some c ∧ c'.node = c.node ∧ c'.bytes = c.bytes
  objs : ∀ p o', s'.objs.lookup p = some o' →
    ∃ o, s.objs.lookup p = some o ∧ o' = { o with rc := o'.rc }
  reserved : s'.reserved ⊆ s.reserved
  live : s'.liveCells ⊆ s.liveCells

theorem Keeps.refl (s : Store) : Keeps s s where
  arena := rfl
  arenaC := rfl
  conDesc := rfl
  backend := rfl
  cells := fun _ c' h => ⟨c', h, rfl, rfl⟩
  objs := fun _ o' h => ⟨o', h, rfl⟩
  reserved := Finset.Subset.refl _
  live := Finset.Subset.refl _

theorem Keeps.trans (h : Keeps s s') (h' : Keeps s' t) : Keeps s t where
  arena := h'.arena.trans h.arena
  arenaC := h'.arenaC.trans h.arenaC
  conDesc := h'.conDesc.trans h.conDesc
  backend := h'.backend.trans h.backend
  cells := by
    intro i c'' hc''
    rcases h'.cells i c'' hc'' with ⟨c', hc', hnode', hbytes'⟩
    rcases h.cells i c' hc' with ⟨c, hc, hnode, hbytes⟩
    exact ⟨c, hc, hnode'.trans hnode, hbytes'.trans hbytes⟩
  objs := by
    intro p o'' ho''
    rcases h'.objs p o'' ho'' with ⟨o', ho', heq'⟩
    rcases h.objs p o' ho' with ⟨o, ho, heq⟩
    refine ⟨o, ho, ?_⟩
    rw [heq'] at *
    rw [heq]
  reserved := h'.reserved.trans h.reserved
  live := h'.live.trans h.live

theorem Keeps.counted (h : Keeps s s') (a : Addr) : s'.counted a = s.counted a := by
  cases a <;> simp only [Store.counted, Store.isArenaAddr, h.arena, h.arenaC]

/-- The decoder does not look at the count. -/
@[simp] theorem objKids_rc (o : WokObj) (n : Nat) (s : Store) :
    objKids { o with rc := n } s = objKids o s := rfl

@[simp] theorem objBytes_rc (o : WokObj) (n : Nat) :
    objBytes { o with rc := n } = objBytes o := rfl

theorem Keeps.objKids (h : Keeps s s') (o : WokObj) : objKids o s' = objKids o s := by
  simp only [RC.objKids, readCConValues, h.conDesc]

theorem Keeps.cells_none (h : Keeps s s') {i : Int} (hi : s.cells.lookup i = none) :
    s'.cells.lookup i = none := by
  cases hi' : s'.cells.lookup i with
  | none => rfl
  | some c' =>
      rcases h.cells i c' hi' with ⟨c, hc, -⟩
      rw [hi] at hc
      cases hc

theorem Keeps.kidsOf (h : Keeps s s') (ha : a ∈ s'.liveCells) : s'.kidsOf a = s.kidsOf a := by
  cases a with
  | heap i =>
      rcases mem_liveCells_heap.mp ha with ⟨⟨c', hc'⟩, -⟩
      rcases h.cells i c' hc' with ⟨c, hc, hnode, -⟩
      simp only [Store.kidsOf, hc, hc', hnode, Option.map_some]
  | c p =>
      rcases mem_liveCells_c.mp ha with ⟨⟨o', ho', -⟩, -⟩
      rcases h.objs p o' ho' with ⟨o, ho, heq⟩
      rw [heq] at ho'
      simp only [Store.kidsOf, ho, ho', Option.map_some, objKids_rc, h.objKids]
  | inline tag => rfl
  | inlineStr bytes => rfl

theorem Keeps.bytesOf (h : Keeps s s') (ha : a ∈ s'.liveCells) :
    s'.bytesOf a = s.bytesOf a := by
  cases a with
  | heap i =>
      rcases mem_liveCells_heap.mp ha with ⟨⟨c', hc'⟩, -⟩
      rcases h.cells i c' hc' with ⟨c, hc, -, hbytes⟩
      simp only [Store.bytesOf, hc, hc', hbytes, Option.map_some]
  | c p =>
      rcases mem_liveCells_c.mp ha with ⟨⟨o', ho', -⟩, -⟩
      rcases h.objs p o' ho' with ⟨o, ho, heq⟩
      rw [heq] at ho'
      simp only [Store.bytesOf, ho, ho', Option.map_some, objBytes_rc]
  | inline tag => rfl
  | inlineStr bytes => rfl

theorem nodeReservations_filter {R R' : Finset Addr} (h : R' ⊆ R) (n : Node) :
    nodeReservations R' n = (nodeReservations R n).filter (·.1 ∈ R') := by
  cases n with
  | cont pfx hd tag sc => exact continuationReservations_filter h pfx
  | _ => rfl

/-- A cell that is left carries the tokens it carried, as far as their shells
are still reserved. -/
theorem Keeps.reservationsAt (h : Keeps s s') {i : Int} {c' : Cell}
    (hc' : s'.cells.lookup i = some c') :
    s'.reservationsAt (.heap i) =
      (s.reservationsAt (.heap i)).filter (·.1 ∈ s'.reserved) := by
  rcases h.cells i c' hc' with ⟨c, hc, hnode, -⟩
  simp only [Store.reservationsAt, hc, hc', Option.map_some, Option.getD_some, hnode]
  exact nodeReservations_filter h.reserved c.node

theorem Keeps.mem_reservationsAt (h : Keeps s s') (ha : a ∈ s'.liveCells) {r : Addr × Int} :
    r ∈ s'.reservationsAt a ↔ r ∈ s.reservationsAt a ∧ r.1 ∈ s'.reserved := by
  cases a with
  | heap i =>
      rcases mem_liveCells_heap.mp ha with ⟨⟨c', hc'⟩, -⟩
      rw [h.reservationsAt hc', List.mem_filter, decide_eq_true_iff]
  | _ => simp [Store.reservationsAt]

theorem Keeps.shrinks (h : Keeps s s') : s.heap.Shrinks s'.heap := by
  constructor
  · exact h.live
  · intro a ha
    have hcounted : s'.counted = s.counted := funext h.counted
    change (s'.kidsOf a).filter _ = (s.kidsOf a).filter _
    rw [h.kidsOf ha, hcounted]

/-- The rest of well-formedness follows from what gets into `dead` and from the
shells that stay reserved. -/
theorem Keeps.wellFormed (h : Keeps s s') (hwf : s.WellFormed charge)
    (hdead : ∀ i ∈ s'.dead, i ∈ s.dead ∨
      s'.cells.lookup i = none ∧ Addr.heap i ∉ s'.reserved)
    (hshells : ∀ p, Addr.c p ∈ s'.reserved → s'.objs.lookup p = s.objs.lookup p) :
    s'.WellFormed charge where
  dead := by
    intro i hi
    rcases hdead i hi with hi | ⟨hi, -⟩
    · exact h.cells_none (hwf.dead i hi)
    · exact hi
  backend := by
    intro p o' ho'
    rcases h.objs p o' ho' with ⟨o, ho, -⟩
    rw [h.backend]
    exact hwf.backend p o ho
  decodes := by
    intro p o' hp ho'
    rcases h.objs p o' ho' with ⟨o, ho, heq⟩
    rcases hwf.decodes p o (h.live hp) ho with ⟨kids, hkids⟩
    refine ⟨kids, ?_⟩
    rw [h.objKids, heq, objKids_rc]
    exact hkids
  static := by
    intro i hi
    cases hc' : s'.cells.lookup i with
    | none => simp only [Store.reservationsAt, hc', Option.map_none, Option.getD_none]
    | some c' => rw [h.reservationsAt hc', hwf.static i hi, List.filter_nil]
  reservedHeap := by
    intro i hi
    rcases hwf.reservedHeap i (h.reserved hi) with ⟨hnone, hlive⟩
    refine ⟨h.cells_none hnone, fun hi' => ?_⟩
    rcases hdead i hi' with hi' | ⟨-, hi'⟩
    · exact hlive hi'
    · exact hi' hi
  reservedC := by
    intro p hp
    rw [hshells p hp]
    exact hwf.reservedC p (h.reserved hp)
  reservedInline := fun a ha => hwf.reservedInline a (h.reserved ha)
  charged := by
    intro a ha
    rw [h.bytesOf ha]
    exact hwf.charged a (h.live ha)
  chargedShell := by
    intro a ha r hr
    exact hwf.chargedShell a (h.live ha) r ((h.mem_reservationsAt ha).mp hr).1

/-! ### Giving cells back -/

/-- `s'` is `s` after giving back some live cells, with the shells in flight in
the continuations among them; the counters moved by exactly these. -/
structure GivesBack (charge : Addr → Int) (s s' : Store) : Prop where
  keeps : Keeps s s'
  reclaimed : ∀ b ∈ s.reserved, b ∉ s'.reserved ↔
    ∃ a ∈ s.liveCells \ s'.liveCells, b ∈ (s.reservationsAt a).map Prod.fst
  stats : s'.stats = s.stats.giveBack charge (s.freed s')

theorem Stats.giveBack_empty (g : Stats) : g.giveBack charge ∅ = g := by
  simp [Stats.giveBack]

theorem Stats.giveBack_giveBack {F F' : Finset Addr} (h : Disjoint F F') (g : Stats) :
    (g.giveBack charge F).giveBack charge F' = g.giveBack charge (F ∪ F') := by
  simp only [Stats.giveBack, Finset.card_union_of_disjoint h, Finset.sum_union h]
  congr 1 <;> push_cast <;> omega

theorem Stats.recordFree_giveBack (bytes : Int) (g : Stats) (h : bytes = charge a) :
    recordFree bytes g = g.giveBack charge {a} := by
  simp [Stats.giveBack, recordFree, h]

theorem Keeps.freed_trans (h : Keeps s s') (h' : Keeps s' t) :
    s.freed t = s.freed s' ∪ s'.freed t := by
  simp only [Store.freed]
  rw [← Finset.sdiff_union_sdiff_cancel h.live h'.live,
    ← Finset.sdiff_union_sdiff_cancel h.reserved h'.reserved]
  exact Finset.union_union_union_comm ..

theorem Keeps.freed_disjoint (h : Keeps s s') (hwf : s.WellFormed charge) :
    Disjoint (s.freed s') (s'.freed t) := by
  have hdisjoint := Finset.disjoint_left.mp hwf.disjoint
  rw [Finset.disjoint_left]
  intro a ha ha'
  simp only [Store.freed, Finset.mem_union, Finset.mem_sdiff] at ha ha'
  rcases ha with ⟨hlive, hgone⟩ | ⟨hres, hgone⟩
  · rcases ha' with ⟨hlive', -⟩ | ⟨hres', -⟩
    · exact hgone hlive'
    · exact hdisjoint hlive (h.reserved hres')
  · rcases ha' with ⟨hlive', -⟩ | ⟨hres', -⟩
    · exact hdisjoint (h.live hlive') hres
    · exact hgone hres'

theorem GivesBack.refl (s : Store) : GivesBack charge s s where
  keeps := .refl s
  reclaimed := by simp
  stats := by
    simp only [Store.freed, Finset.sdiff_self, Finset.empty_union, Stats.giveBack_empty]

theorem GivesBack.trans (h : GivesBack charge s s') (h' : GivesBack charge s' t)
    (hwf : s.WellFormed charge) : GivesBack charge s t where
  keeps := h.keeps.trans h'.keeps
  reclaimed := by
    intro b hb
    constructor
    · intro hbt
      by_cases hbs' : b ∈ s'.reserved
      · rcases (h'.reclaimed b hbs').mp hbt with ⟨a, ha, hmem⟩
        rcases Finset.mem_sdiff.mp ha with ⟨hlive, hgone⟩
        rcases List.mem_map.mp hmem with ⟨r, hr, rfl⟩
        have hr := ((h.keeps.mem_reservationsAt hlive).mp hr).1
        exact ⟨a, Finset.mem_sdiff.mpr ⟨h.keeps.live hlive, hgone⟩,
          List.mem_map_of_mem hr⟩
      · rcases (h.reclaimed b hb).mp hbs' with ⟨a, ha, hmem⟩
        rcases Finset.mem_sdiff.mp ha with ⟨hlive, hgone⟩
        exact ⟨a, Finset.mem_sdiff.mpr ⟨hlive, fun hat => hgone (h'.keeps.live hat)⟩, hmem⟩
    · rintro ⟨a, ha, hmem⟩ hbt
      rcases Finset.mem_sdiff.mp ha with ⟨hlive, hgone⟩
      have hbs' : b ∈ s'.reserved := h'.keeps.reserved hbt
      by_cases has' : a ∈ s'.liveCells
      · rcases List.mem_map.mp hmem with ⟨r, hr, rfl⟩
        have hr' := (h.keeps.mem_reservationsAt has').mpr ⟨hr, hbs'⟩
        exact (h'.reclaimed _ hbs').mpr
          ⟨a, Finset.mem_sdiff.mpr ⟨has', hgone⟩, List.mem_map_of_mem hr'⟩ hbt
      · exact (h.reclaimed b hb).mpr ⟨a, Finset.mem_sdiff.mpr ⟨hlive, has'⟩, hmem⟩ hbs'
  stats := by
    rw [h'.stats, h.stats, Stats.giveBack_giveBack (h.keeps.freed_disjoint hwf),
      h.keeps.freed_trans h'.keeps]

/-! ### The C runtime -/

theorem heapPtr_ok (h : s.backend = .cHeap) : heapPtr s = .ok () := by
  simp only [heapPtr, h]

theorem wokDec_ok {p : Ptr} {o : WokObj} (ho : s.objs.lookup p = some o) (hrc : o.rc ≠ 0) :
    wokDec p s = .ok (o.rc - 1, { o with rc := o.rc - 1 },
      { s with objs := s.objs.insert p { o with rc := o.rc - 1 } }) := by
  simp only [wokDec, ho, hrc, if_false]

theorem wokFree_ok {p : Ptr} {o : WokObj} (ho : s.objs.lookup p = some o) (hrc : o.rc = 0) :
    wokFree p s = .ok { s with objs := s.objs.erase p } := by
  simp only [wokFree, ho, hrc, if_true]

/-! ### Reclaiming reserved shells -/

/-- `s'` is `s` after the shells of `rs` have been freed. -/
structure Reclaims (charge : Addr → Int) (rs : List (Addr × Int)) (s s' : Store) : Prop where
  keeps : Keeps s s'
  live : s'.liveCells = s.liveCells
  cells : s'.cells = s.cells
  objs : ∀ p, Addr.c p ∉ rs.map Prod.fst → s'.objs.lookup p = s.objs.lookup p
  reserved : s'.reserved = s.reserved \ (rs.map Prod.fst).toFinset
  dead : ∀ i ∈ s'.dead, i ∈ s.dead ∨ Addr.heap i ∈ rs.map Prod.fst
  stats : s'.stats = s.stats.giveBack charge (rs.map Prod.fst).toFinset

theorem Reclaims.nil (s : Store) : Reclaims charge [] s s where
  keeps := .refl s
  live := rfl
  cells := rfl
  objs := fun _ _ => rfl
  reserved := by simp
  dead := fun _ h => .inl h
  stats := (Stats.giveBack_empty _).symm

theorem Reclaims.countOf {rs : List (Addr × Int)} (h : Reclaims charge rs s s')
    (ha : a ∉ rs.map Prod.fst) : s'.countOf a = s.countOf a := by
  cases a with
  | heap i => simp only [Store.countOf, h.cells]
  | c p => simp only [Store.countOf, h.objs p ha]
  | inline tag => rfl
  | inlineStr bytes => rfl

theorem Reclaims.wellFormed {rs : List (Addr × Int)} (h : Reclaims charge rs s s')
    (hwf : s.WellFormed charge) (hrs : ∀ r ∈ rs, r.1 ∈ s.reserved) : s'.WellFormed charge := by
  apply h.keeps.wellFormed hwf
  · intro i hi
    rcases h.dead i hi with hi | hi
    · exact .inl hi
    · rcases List.mem_map.mp hi with ⟨r, hr, hri⟩
      have hreserved : Addr.heap i ∈ s.reserved := hri ▸ hrs r hr
      refine .inr ⟨?_, ?_⟩
      · rw [h.cells]
        exact (hwf.reservedHeap i hreserved).1
      · rw [h.reserved, Finset.mem_sdiff, List.mem_toFinset]
        exact fun hmem => hmem.2 hi
  · intro p hp
    rw [h.reserved, Finset.mem_sdiff, List.mem_toFinset] at hp
    exact h.objs p hp.2

/-- Freeing a reserved shell succeeds and touches no live cell. -/
theorem freeReservation_spec {r : Addr × Int} (hwf : s.WellFormed charge)
    (hr : r.1 ∈ s.reserved) (hcharge : r.2 = charge r.1) :
    ∃ s', freeReservation r s = .ok s' ∧ Reclaims charge [r] s s' := by
  rcases r with ⟨a, bytes⟩
  have hstats := Stats.recordFree_giveBack bytes s.stats hcharge
  cases a with
  | inline tag => cases hwf.reservedInline _ hr
  | inlineStr bs => cases hwf.reservedInline _ hr
  | heap i =>
      have hr : Addr.heap i ∈ s.reserved := hr
      refine ⟨_, by simp only [freeReservation, hr, not_true, if_false]; rfl, ?_⟩
      exact {
        keeps := {
          Keeps.refl s with
          reserved := Finset.erase_subset _ _ }
        live := rfl
        cells := rfl
        objs := fun _ _ => rfl
        reserved := by simp [Finset.sdiff_singleton_eq_erase]
        dead := by
          intro j hj
          rcases Finset.mem_insert.mp hj with rfl | hj
          · exact .inr (by simp)
          · exact .inl hj
        stats := by simpa using hstats }
  | c p =>
      have hr : Addr.c p ∈ s.reserved := hr
      rcases hwf.reservedC p hr with ⟨o, ho, hrc⟩
      have hbackend := hwf.backend p o ho
      have hne : ∀ q, q ≠ p → (s.objs.erase p).lookup q = s.objs.lookup q :=
        fun q hq => AList.lookup_erase_ne hq
      let s' : Store :=
        { s with
          objs := s.objs.erase p
          stats := recordFree bytes s.stats
          reserved := s.reserved.erase (.c p) }
      have hrun : freeReservation (.c p, bytes) s = .ok s' := by
        simp only [freeReservation, hr, not_true, if_false]
        rw [heapPtr_ok hbackend, wokFree_ok ho hrc]
        rfl
      have hbut : SameBut (.c p) s s' := ⟨rfl, rfl, fun _ _ => rfl, (sameBut_objs hne).objs⟩
      have hlive : s'.liveCells = s.liveCells :=
        hbut.liveCells_eq (by simp [s', ho, hrc, AList.lookup_erase])
      refine ⟨s', hrun, ?_⟩
      exact {
        keeps := {
          Keeps.refl s with
          reserved := Finset.erase_subset _ _
          live := hlive.subset
          objs := by
            intro q o' ho'
            by_cases hq : q = p
            · subst hq
              simp only [s', AList.lookup_erase] at ho'
              cases ho'
            · rw [hne q hq] at ho'
              exact ⟨o', ho', rfl⟩ }
        live := hlive
        cells := rfl
        objs := by
          intro q hq
          exact hne q fun hqp => hq (by simp [hqp])
        reserved := by simp [s', Finset.sdiff_singleton_eq_erase]
        dead := fun _ h => .inl h
        stats := by simpa using hstats }

theorem Reclaims.cons {r : Addr × Int} {rs : List (Addr × Int)}
    (h : Reclaims charge [r] s s') (h' : Reclaims charge rs s' t)
    (hr : r.1 ∉ rs.map Prod.fst) : Reclaims charge (r :: rs) s t where
  keeps := h.keeps.trans h'.keeps
  live := h'.live.trans h.live
  cells := h'.cells.trans h.cells
  objs := by
    intro p hp
    rw [List.map_cons, List.mem_cons, not_or] at hp
    rw [h'.objs p hp.2, h.objs p (by simpa using hp.1)]
  reserved := by
    rw [h'.reserved, h.reserved]
    ext b
    simp only [List.map_cons, List.map_nil, List.toFinset_cons, List.toFinset_nil,
      Finset.mem_sdiff, Finset.mem_insert, Finset.notMem_empty, or_false, not_or, and_assoc]
  dead := by
    intro i hi
    rcases h'.dead i hi with hi | hi
    · rcases h.dead i hi with hi | hi
      · exact .inl hi
      · exact .inr (List.mem_cons.mpr (.inl (by simpa using hi)))
    · exact .inr (List.mem_cons_of_mem _ hi)
  stats := by
    have hdisjoint : Disjoint ([r].map Prod.fst).toFinset (rs.map Prod.fst).toFinset := by
      simpa using hr
    rw [h'.stats, h.stats, Stats.giveBack_giveBack hdisjoint]
    simp

/-- The reservations of a continuation can all be freed. -/
theorem freeReservations_spec {rs : List (Addr × Int)} (hwf : s.WellFormed charge)
    (hrs : ∀ r ∈ rs, r.1 ∈ s.reserved) (hcharge : ∀ r ∈ rs, r.2 = charge r.1)
    (hnodup : (rs.map Prod.fst).Nodup) :
    ∃ s', rs.foldlM (fun s r => freeReservation r s) s = .ok s' ∧ Reclaims charge rs s s' := by
  induction rs generalizing s with
  | nil => exact ⟨s, rfl, .nil s⟩
  | cons r rs ih =>
      rw [List.map_cons, List.nodup_cons] at hnodup
      rcases freeReservation_spec hwf (hrs r List.mem_cons_self) (hcharge r List.mem_cons_self)
        with ⟨s₁, hrun₁, h₁⟩
      have hwf₁ : s₁.WellFormed charge := by
        apply h₁.wellFormed hwf
        intro r' hr'
        rw [List.mem_singleton.mp hr']
        exact hrs r List.mem_cons_self
      -- the shells that are still to be freed are other ones
      have hrs₁ : ∀ r' ∈ rs, r'.1 ∈ s₁.reserved := by
        intro r' hr'
        rw [h₁.reserved, Finset.mem_sdiff]
        refine ⟨hrs r' (List.mem_cons_of_mem r hr'), ?_⟩
        have hne : r'.1 ≠ r.1 := fun heq => hnodup.1 (heq ▸ List.mem_map_of_mem hr')
        simpa using hne
      rcases ih hwf₁ hrs₁ (fun r' hr' => hcharge r' (List.mem_cons_of_mem r hr')) hnodup.2
        with ⟨s₂, hrun₂, h₂⟩
      refine ⟨s₂, ?_, h₁.cons h₂ hnodup.1⟩
      rw [List.foldlM_cons, hrun₁]
      exact hrun₂

/-! ### One drop -/

/-- What is left after a drop that only lowers the count of `a`. -/
structure Decremented (charge : Addr → Int) (a : Addr) (s s' : Store) : Prop where
  wellFormed : s'.WellFormed charge
  gives : GivesBack charge s s'
  heap : CountedHeap.Decrements a s.heap s'.heap

/-- What is left after the last drop of `a`. -/
structure Released (charge : Addr → Int) (a : Addr) (s s' : Store) : Prop where
  wellFormed : s'.WellFormed charge
  gives : GivesBack charge s s'
  heap : CountedHeap.Frees a s.heap s'.heap

theorem Decremented.of_keeps (hwf : s.WellFormed charge) (h : Keeps s s')
    (hlive : s'.liveCells = s.liveCells) (hreserved : s'.reserved = s.reserved)
    (hdead : s'.dead = s.dead) (hstats : s'.stats = s.stats)
    (hshells : ∀ p, Addr.c p ∈ s'.reserved → s'.objs.lookup p = s.objs.lookup p)
    (hself : s'.countOf a + 1 = s.countOf a)
    (hbut : SameBut a s s') : Decremented charge a s s' where
  wellFormed := h.wellFormed hwf (fun i hi => .inl (hdead ▸ hi)) hshells
  gives := {
    keeps := h
    reclaimed := by simp [hlive, hreserved]
    stats := by
      simp only [Store.freed, hlive, hreserved, Finset.sdiff_self, Finset.empty_union,
        Stats.giveBack_empty, hstats] }
  heap := ⟨hlive, h.shrinks.kids, hself, fun _ _ => hbut.countOf⟩

theorem reservationsAt_reserved (a : Addr) : ∀ r ∈ s.reservationsAt a, r.1 ∈ s.reserved := by
  intro r hr
  cases a with
  | heap i =>
      cases hc : s.cells.lookup i with
      | none => simp [Store.reservationsAt, hc] at hr
      | some c =>
          simp only [Store.reservationsAt, hc, Option.map_some, Option.getD_some] at hr
          cases hnode : c.node with
          | cont pfx h tag sc =>
              rw [hnode] at hr
              exact continuationReservations_self pfx s.reserved r hr
          | _ => simp [hnode, nodeReservations] at hr
  | _ => cases hr

theorem reservationsAt_nodup (a : Addr) : ((s.reservationsAt a).map Prod.fst).Nodup := by
  cases a with
  | heap i =>
      cases hc : s.cells.lookup i with
      | none => simp [Store.reservationsAt, hc]
      | some c =>
          simp only [Store.reservationsAt, hc, Option.map_some, Option.getD_some]
          cases hnode : c.node with
          | cont pfx h tag sc => exact (dedupReservations_nodup [] _).2
          | _ => exact .nil
  | _ => exact .nil

/-- Freeing a live cell after the reservations in flight in it. -/
theorem Released.of_reclaims (hwf : s.WellFormed charge) (ha : a ∈ s.liveCells)
    (hrs : Reclaims charge (s.reservationsAt a) s s') (hkeeps : Keeps s' t)
    (hbut : SameBut a s' t) (hgone : a ∉ t.liveCells) (hreserved : t.reserved = s'.reserved)
    (hdead : ∀ i ∈ t.dead, i ∈ s'.dead ∨ Addr.heap i = a ∧ t.cells.lookup i = none)
    (hstats : t.stats = recordFree (s.bytesOf a) s'.stats) : Released charge a s t := by
  have hmem := reservationsAt_reserved (s := s) a
  have hwf' : s'.WellFormed charge := hrs.wellFormed hwf hmem
  have hnotReserved : a ∉ s.reserved := Finset.disjoint_left.mp hwf.disjoint ha
  let F := ((s.reservationsAt a).map Prod.fst).toFinset
  have hF : F ⊆ s.reserved := by
    intro b hb
    rcases List.mem_map.mp (List.mem_toFinset.mp hb) with ⟨r, hr, rfl⟩
    exact hmem r hr
  have hlive : t.liveCells = s.liveCells.erase a := hrs.live ▸ hbut.liveCells_erase hgone
  have hleft : t.reserved = s.reserved \ F := hreserved.trans hrs.reserved
  have hfreed : s.freed t = F ∪ {a} := by
    rw [Store.freed, hlive, hleft, Finset.sdiff_erase_self ha, Finset.sdiff_sdiff_eq_self hF,
      Finset.union_comm]
  constructor
  · apply hkeeps.wellFormed hwf'
    · intro i hi
      rcases hdead i hi with hi | ⟨hia, hnone⟩
      · exact .inl hi
      · refine .inr ⟨hnone, ?_⟩
        rw [hia, hleft, Finset.mem_sdiff]
        exact fun h => hnotReserved h.1
    · intro p hp
      refine hbut.objs p fun hpa => ?_
      rw [hpa, hleft, Finset.mem_sdiff] at hp
      exact hnotReserved hp.1
  · constructor
    · exact hrs.keeps.trans hkeeps
    · intro b hb
      rw [hleft, hlive, Finset.sdiff_erase_self ha]
      simp [F, hb]
    · rw [hstats, hrs.stats, hfreed, Stats.recordFree_giveBack _ _ (hwf.charged a ha),
        Stats.giveBack_giveBack]
      exact Finset.disjoint_singleton_right.mpr fun h => hnotReserved (hF h)
  · constructor
    · exact hlive
    · exact (hrs.keeps.trans hkeeps).shrinks.kids
    · intro b hb
      have hne : b ≠ a := fun hba => hgone (hba ▸ hb)
      have hbs : b ∈ s.liveCells := (hrs.keeps.trans hkeeps).live hb
      have hbF : b ∉ (s.reservationsAt a).map Prod.fst := fun h =>
        Finset.disjoint_left.mp hwf.disjoint hbs (hF (List.mem_toFinset.mpr h))
      exact (hbut.countOf hne).trans (hrs.countOf hbF)

section AbstractHeap

variable {i : Int} {c : Cell}

theorem reclaimIfNCont_shared (hc : s.cells.lookup i = some c) (hrc : 1 < c.rc) :
    reclaimIfNCont i s = .ok s := by
  rcases c with ⟨rc, node, bytes⟩
  have hrc : ¬ rc ≤ 1 := by simpa using hrc
  cases node <;> simp [reclaimIfNCont, hc, hrc]

theorem reclaimIfNCont_last (hc : s.cells.lookup i = some c) (hrc : c.rc ≤ 1)
    (hdead : i ∉ s.dead) :
    reclaimIfNCont i s =
      (nodeReservations s.reserved c.node).foldlM (fun s r => freeReservation r s) s := by
  rcases c with ⟨rc, node, bytes⟩
  have hrc : rc ≤ 1 := hrc
  cases node with
  | cont pfx h tag sc =>
      simp only [reclaimIfNCont, hc, hrc, hdead, nodeReservations, not_false_eq_true, and_self,
        if_true]
  | _ =>
      simp only [reclaimIfNCont, hc, nodeReservations, List.foldlM_nil]
      rfl

theorem dropAddrStepPure_shared (hstatic : isStaticAddr (.heap i) = false)
    (hdead : i ∉ s.dead) (hc : s.cells.lookup i = some c) (hrc : 1 < c.rc) :
    dropAddrStepPure i s =
      .ok (none, { s with cells := s.cells.insert i { c with rc := c.rc - 1 } }) := by
  have hrc : ¬ c.rc ≤ 1 := by omega
  simp only [dropAddrStepPure, hstatic, hdead, hc, hrc, if_false, Bool.false_eq_true]

theorem dropAddrStepPure_last (hstatic : isStaticAddr (.heap i) = false)
    (hdead : i ∉ s.dead) (hc : s.cells.lookup i = some c) (hrc : c.rc ≤ 1) :
    dropAddrStepPure i s =
      .ok (some (cascadeChildren c.node),
        { s with
          cells := s.cells.erase i
          dead := insert i s.dead
          stats := recordFree c.bytes s.stats }) := by
  simp only [dropAddrStepPure, hstatic, hdead, hc, hrc, if_false, if_true, Bool.false_eq_true]

/-- A live cell of the abstract heap, as the drop looks it up. -/
theorem live_heap_cell (hwf : s.WellFormed charge) (ha : Addr.heap i ∈ s.liveCells) :
    ∃ c, s.cells.lookup i = some c ∧ i ∉ s.dead ∧ isStaticAddr (.heap i) = false := by
  rcases mem_liveCells_heap.mp ha with ⟨⟨c, hc⟩, hcounted⟩
  refine ⟨c, hc, fun hi => ?_, ?_⟩
  · rw [hwf.dead i hi] at hc
    cases hc
  · simp only [Store.counted, isUncounted, Bool.and_eq_true, Bool.not_eq_true',
      Bool.or_eq_false_iff] at hcounted
    exact hcounted.1.1

/-- Lowering a count in the abstract heap. -/
theorem dropHAddr_decrement (hwf : s.WellFormed charge) (ha : Addr.heap i ∈ s.liveCells)
    (hcount : 1 < s.countOf (.heap i)) :
    ∃ s', dropHAddr i s = .ok ([], s') ∧ Decremented charge (.heap i) s s' := by
  rcases live_heap_cell hwf ha with ⟨c, hc, hdead, hstatic⟩
  have hrc : 1 < c.rc := by simpa [Store.countOf, hc] using hcount
  let c' : Cell := { c with rc := c.rc - 1 }
  let s' : Store := { s with cells := s.cells.insert i c' }
  have hself : s'.cells.lookup i = some c' := AList.lookup_insert s.cells
  have hne : ∀ j, j ≠ i → s'.cells.lookup j = s.cells.lookup j :=
    fun j hj => AList.lookup_insert_ne hj
  have hrun : dropHAddr i s = .ok ([], s') := by
    rw [dropHAddr, reclaimIfNCont_shared hc hrc]
    change (dropAddrStepPure i s >>= _) = _
    rw [dropAddrStepPure_shared hstatic hdead hc hrc]
    rfl
  have hbut : SameBut (.heap i) s s' := sameBut_cells hne
  have hcounted : s'.counted (.heap i) = s.counted (.heap i) := rfl
  have hlive : s'.liveCells = s.liveCells := hbut.liveCells_eq (by simp [hself, hc, hcounted])
  have hkeeps : Keeps s s' := {
    Keeps.refl s with
    live := hlive.subset
    cells := by
      intro j c'' hc''
      by_cases hj : j = i
      · subst hj
        rw [hself] at hc''
        cases hc''
        exact ⟨c, hc, rfl, rfl⟩
      · rw [hne j hj] at hc''
        exact ⟨c'', hc'', rfl, rfl⟩ }
  refine ⟨s', hrun, .of_keeps hwf hkeeps hlive rfl rfl rfl (fun _ _ => rfl) ?_ hbut⟩
  simp only [Store.countOf, hself, hc, Option.map_some, Option.getD_some, c']
  omega

/-- Freeing a cell of the abstract heap. -/
theorem dropHAddr_free (hwf : s.WellFormed charge) (ha : Addr.heap i ∈ s.liveCells)
    (hcount : s.countOf (.heap i) ≤ 1) :
    ∃ s', dropHAddr i s = .ok (s.kidsOf (.heap i), s') ∧ Released charge (.heap i) s s' := by
  rcases live_heap_cell hwf ha with ⟨c, hc, hdead, hstatic⟩
  have hrc : c.rc ≤ 1 := by simpa [Store.countOf, hc] using hcount
  have hreservations : s.reservationsAt (.heap i) = nodeReservations s.reserved c.node := by
    simp only [Store.reservationsAt, hc, Option.map_some, Option.getD_some]
  rcases freeReservations_spec hwf (reservationsAt_reserved (.heap i)) (hwf.chargedShell _ ha)
    (reservationsAt_nodup _) with ⟨s₁, hreclaim, hrs⟩
  have hc₁ : s₁.cells.lookup i = some c := hrs.cells ▸ hc
  have hdead₁ : i ∉ s₁.dead := by
    intro hi
    rcases hrs.dead i hi with hi | hi
    · exact hdead hi
    · rcases List.mem_map.mp hi with ⟨r, hr, hri⟩
      have hreserved := reservationsAt_reserved _ r hr
      rw [hri] at hreserved
      exact Finset.disjoint_left.mp hwf.disjoint ha hreserved
  let s' : Store :=
    { s₁ with
      cells := s₁.cells.erase i
      dead := insert i s₁.dead
      stats := recordFree c.bytes s₁.stats }
  have hne : ∀ j, j ≠ i → s'.cells.lookup j = s₁.cells.lookup j :=
    fun j hj => AList.lookup_erase_ne hj
  have hself : s'.cells.lookup i = none := AList.lookup_erase i s₁.cells
  have hrun : dropHAddr i s = .ok (s.kidsOf (.heap i), s') := by
    rw [dropHAddr, reclaimIfNCont_last hc hrc hdead, ← hreservations, hreclaim]
    change (dropAddrStepPure i s₁ >>= _) = _
    rw [dropAddrStepPure_last hstatic hdead₁ hc₁ hrc]
    simp only [Store.kidsOf, hc, Option.map_some, Option.getD_some]
    rfl
  have hbut : SameBut (.heap i) s₁ s' :=
    ⟨rfl, rfl, (sameBut_cells hne).cells, fun _ _ => rfl⟩
  have hgone : Addr.heap i ∉ s'.liveCells := by simp [hself]
  have hkeeps : Keeps s₁ s' := {
    Keeps.refl s₁ with
    live := hbut.liveCells_erase hgone ▸ Finset.erase_subset _ _
    cells := by
      intro j c' hc'
      by_cases hj : j = i
      · subst hj
        rw [hself] at hc'
        cases hc'
      · rw [hne j hj] at hc'
        exact ⟨c', hc', rfl, rfl⟩ }
  refine ⟨s', hrun, .of_reclaims hwf ha hrs hkeeps hbut hgone rfl ?_ ?_⟩
  · intro j hj
    rcases Finset.mem_insert.mp hj with rfl | hj
    · exact .inr ⟨rfl, hself⟩
    · exact .inl hj
  · simp only [Store.bytesOf, hc, Option.map_some, Option.getD_some, s']

/-- A static cell is not touched. -/
theorem dropHAddr_static (hwf : s.WellFormed charge) (hstatic : isStaticAddr (.heap i) = true) :
    dropHAddr i s = .ok ([], s) := by
  have hnone := hwf.static i (by simpa [isStaticAddr] using hstatic)
  have hreclaim : reclaimIfNCont i s = .ok s := by
    cases hc : s.cells.lookup i with
    | none => simp only [reclaimIfNCont, hc]
    | some c =>
        by_cases hdead : i ∈ s.dead
        · rw [hwf.dead i hdead] at hc
          cases hc
        · by_cases hrc : 1 < c.rc
          · exact reclaimIfNCont_shared hc hrc
          · simp only [Store.reservationsAt, hc, Option.map_some, Option.getD_some] at hnone
            rw [reclaimIfNCont_last hc (Nat.not_lt.mp hrc) hdead, hnone]
            rfl
  have hstep : dropAddrStepPure i s = .ok (none, s) := by
    simp only [dropAddrStepPure, hstatic, if_true]
  rw [dropHAddr, hreclaim]
  change (dropAddrStepPure i s >>= _) = _
  rw [hstep]
  rfl

end AbstractHeap

section CHeap

variable {p : Ptr}

/-- Lowering a count in the C heap. -/
theorem dropCAddr_decrement (hwf : s.WellFormed charge) (ha : Addr.c p ∈ s.liveCells)
    (hcount : 1 < s.countOf (.c p)) :
    ∃ s', dropCAddr p s = .ok ([], s') ∧ Decremented charge (.c p) s s' := by
  rcases mem_liveCells_c.mp ha with ⟨⟨o, ho, hrc⟩, hcounted⟩
  have hrc' : 1 < o.rc := by simpa [Store.countOf, ho] using hcount
  let o' : WokObj := { o with rc := o.rc - 1 }
  let s' : Store := { s with objs := s.objs.insert p o' }
  have hself : s'.objs.lookup p = some o' := AList.lookup_insert s.objs
  have hne : ∀ q, q ≠ p → s'.objs.lookup q = s.objs.lookup q :=
    fun q hq => AList.lookup_insert_ne hq
  have hleft : o'.rc ≠ 0 := by
    change o.rc - 1 ≠ 0
    omega
  have hrun : dropCAddr p s = .ok ([], s') := by
    rw [dropCAddr, wokDec_ok ho hrc]
    change (if o'.rc ≠ 0 then _ else _) = _
    rw [if_pos hleft]
    rfl
  have hbut : SameBut (.c p) s s' := sameBut_objs hne
  have hcounted' : s'.counted (.c p) = s.counted (.c p) := rfl
  have hlive : s'.liveCells = s.liveCells :=
    hbut.liveCells_eq (by simp [hself, ho, hrc, hleft, hcounted'])
  have hkeeps : Keeps s s' := {
    Keeps.refl s with
    live := hlive.subset
    objs := by
      intro q o'' ho''
      by_cases hq : q = p
      · subst hq
        rw [hself] at ho''
        cases ho''
        exact ⟨o, ho, rfl⟩
      · rw [hne q hq] at ho''
        exact ⟨o'', ho'', rfl⟩ }
  refine ⟨s', hrun, .of_keeps hwf hkeeps hlive rfl rfl rfl ?_ ?_ hbut⟩
  · -- the dropped cell is not a reserved shell
    intro q hq
    refine hne q fun hqp => ?_
    rw [hqp] at hq
    exact Finset.disjoint_left.mp hwf.disjoint ha hq
  · simp only [Store.countOf, hself, ho, Option.map_some, Option.getD_some, o']
    omega

/-- Freeing a cell of the C heap. -/
theorem dropCAddr_free (hwf : s.WellFormed charge) (ha : Addr.c p ∈ s.liveCells)
    (hcount : s.countOf (.c p) ≤ 1) :
    ∃ s', dropCAddr p s = .ok (s.kidsOf (.c p), s') ∧ Released charge (.c p) s s' := by
  rcases mem_liveCells_c.mp ha with ⟨⟨o, ho, hrc⟩, hcounted⟩
  have hrc' : o.rc - 1 = 0 := by
    have hle : o.rc ≤ 1 := by simpa [Store.countOf, ho] using hcount
    omega
  rcases hwf.decodes p o ha ho with ⟨kids, hkids⟩
  let o' : WokObj := { o with rc := o.rc - 1 }
  let s₁ : Store := { s with objs := s.objs.insert p o' }
  let s' : Store :=
    { s₁ with
      objs := s₁.objs.erase p
      stats := recordFree (objBytes o) s.stats }
  have hself₁ : s₁.objs.lookup p = some o' := AList.lookup_insert s.objs
  have hself : s'.objs.lookup p = none := AList.lookup_erase p s₁.objs
  have hne : ∀ q, q ≠ p → s'.objs.lookup q = s.objs.lookup q :=
    fun q hq => (AList.lookup_erase_ne hq).trans (AList.lookup_insert_ne hq)
  have hkidsOf : s.kidsOf (.c p) = kids := by
    simp only [Store.kidsOf, ho, Option.map_some, hkids]
  have hrun : dropCAddr p s = .ok (s.kidsOf (.c p), s') := by
    have hdecoded : objKids o' s₁ = .ok kids := hkids
    have hbackend : s₁.backend = .cHeap := hwf.backend p o ho
    rw [dropCAddr, wokDec_ok ho hrc, hkidsOf]
    change (if o'.rc ≠ 0 then _ else objKids o' s₁ >>= _) = _
    rw [if_neg (not_not.mpr hrc'), hdecoded]
    change (heapPtr s₁ >>= _) = _
    rw [heapPtr_ok hbackend]
    change (wokFree p s₁ >>= _) = _
    rw [wokFree_ok hself₁ hrc']
    rfl
  have hbut : SameBut (.c p) s s' := ⟨rfl, rfl, fun _ _ => rfl, (sameBut_objs hne).objs⟩
  have hgone : Addr.c p ∉ s'.liveCells := by simp [hself]
  have hkeeps : Keeps s s' := {
    Keeps.refl s with
    live := hbut.liveCells_erase hgone ▸ Finset.erase_subset _ _
    objs := by
      intro q o'' ho''
      by_cases hq : q = p
      · subst hq
        rw [hself] at ho''
        cases ho''
      · rw [hne q hq] at ho''
        exact ⟨o'', ho'', rfl⟩ }
  refine ⟨s', hrun, .of_reclaims hwf ha (.nil s) hkeeps hbut hgone rfl (fun _ h => .inl h) ?_⟩
  simp only [Store.bytesOf, ho, Option.map_some, Option.getD_some, s']

end CHeap

/-! ### One round of the worklist -/

/-- What one round does: it passes over an address that is not counted, lowers
the count of a cell that is still referred to, and frees any other cell, whose
references come first in the new worklist. -/
theorem dropStep_spec (hwf : s.WellFormed charge) (rest : List Addr)
    (ha : s.counted a = true → a ∈ s.liveCells) :
    (s.counted a = false ∧ dropStep (a :: rest, s) = .inl (rest, s)) ∨
    (a ∈ s.liveCells ∧ 1 < s.countOf a ∧ ∃ s', dropStep (a :: rest, s) = .inl (rest, s') ∧
      Decremented charge a s s') ∨
    (a ∈ s.liveCells ∧ s.countOf a ≤ 1 ∧
      ∃ s', dropStep (a :: rest, s) = .inl (s.kidsOf a ++ rest, s') ∧ Released charge a s s') := by
  cases a with
  | inline tag => exact .inl ⟨rfl, rfl⟩
  | inlineStr bytes => exact .inl ⟨rfl, rfl⟩
  | c p =>
      cases harena : s.isArenaAddr (.c p) with
      | true =>
          refine .inl ⟨?_, by simp only [dropStep, harena, if_true]⟩
          simp only [Store.counted, harena, Bool.not_true, Bool.and_false]
      | false =>
          have hlive : Addr.c p ∈ s.liveCells := by
            apply ha
            simp only [Store.counted, harena]
            rfl
          by_cases hcount : 1 < s.countOf (.c p)
          · rcases dropCAddr_decrement hwf hlive hcount with ⟨s', hrun, hdec⟩
            refine .inr (.inl ⟨hlive, hcount, s', ?_, hdec⟩)
            simp only [dropStep, harena, hrun, if_false, Bool.false_eq_true, List.nil_append]
          · have hcount := Nat.not_lt.mp hcount
            rcases dropCAddr_free hwf hlive hcount with ⟨s', hrun, hrel⟩
            refine .inr (.inr ⟨hlive, hcount, s', ?_, hrel⟩)
            simp only [dropStep, harena, hrun, if_false, Bool.false_eq_true]
  | heap i =>
      cases harena : s.isArenaAddr (.heap i) with
      | true =>
          refine .inl ⟨?_, by simp only [dropStep, harena, if_true]⟩
          simp only [Store.counted, harena, Bool.not_true, Bool.and_false]
      | false =>
          by_cases hcounted : s.counted (.heap i) = true
          · have hlive := ha hcounted
            by_cases hcount : 1 < s.countOf (.heap i)
            · rcases dropHAddr_decrement hwf hlive hcount with ⟨s', hrun, hdec⟩
              refine .inr (.inl ⟨hlive, hcount, s', ?_, hdec⟩)
              simp only [dropStep, harena, hrun, if_false, Bool.false_eq_true, List.nil_append]
            · have hcount := Nat.not_lt.mp hcount
              rcases dropHAddr_free hwf hlive hcount with ⟨s', hrun, hrel⟩
              refine .inr (.inr ⟨hlive, hcount, s', ?_, hrel⟩)
              simp only [dropStep, harena, hrun, if_false, Bool.false_eq_true]
          · -- the address is static
            have hcounted := Bool.eq_false_iff.mpr hcounted
            have hstatic : isStaticAddr (.heap i) = true := by
              simpa [Store.counted, harena, isUncounted, isInline] using hcounted
            refine .inl ⟨hcounted, ?_⟩
            have hrun := dropHAddr_static hwf hstatic
            simp only [dropStep, harena, hrun, if_false, Bool.false_eq_true, List.nil_append]

/-! ### The whole worklist -/

/-- What holds while the worklist of a drop from `s₀` is worked off: the counts
are right if the addresses on the list are taken for references. -/
structure Dropping (charge : Addr → Int) (s₀ : Store) (handles : List Addr)
    (st : List Addr × Store) : Prop where
  wellFormed : st.2.WellFormed charge
  gives : GivesBack charge s₀ st.2
  balanced : st.2.heap.Balanced (st.1.filter (s₀.counted ·)) (handles.filter (s₀.counted ·))

/-- Live cells, and addresses on the list: the drop of each address frees a cell
or shortens the list. -/
def dropCost (st : List Addr × Store) : ℕ × ℕ :=
  (st.2.liveCells.card, st.1.length)

def dropVariant : (List Addr × Store) → (List Addr × Store) → Prop :=
  InvImage (Prod.Lex (· < ·) (· < ·)) dropCost

theorem dropVariant_wf : WellFounded dropVariant :=
  InvImage.wf _ (WellFounded.prod_lex Nat.lt_wfRel.wf Nat.lt_wfRel.wf)

/-- One round of the worklist keeps the invariant and lowers the variant. -/
theorem Dropping.step {rest : List Addr} (hwf₀ : s.WellFormed charge)
    (h : Dropping charge s handles (a :: rest, s')) :
    ∃ st, dropStep (a :: rest, s') = .inl st ∧ Dropping charge s handles st ∧
      dropVariant st (a :: rest, s') := by
  have hcounted : ∀ b, s'.counted b = s.counted b := h.gives.keeps.counted
  have hshorter : rest.length < (a :: rest).length := Nat.lt_succ_self _
  have hlive : s'.counted a = true → a ∈ s'.liveCells := by
    intro ha
    apply h.balanced.mem_of_pending
    exact List.mem_filter.mpr ⟨List.mem_cons_self, hcounted a ▸ ha⟩
  have hkeep : ∀ ha : a ∈ s'.liveCells, (a :: rest).filter (s.counted ·) =
      a :: rest.filter (s.counted ·) :=
    fun ha => List.filter_cons_of_pos (hcounted a ▸ counted_of_mem_liveCells ha)
  rcases dropStep_spec h.wellFormed rest hlive with
    ⟨hskip, hstep⟩ | ⟨ha, hcount, t, hstep, hdec⟩ | ⟨ha, hcount, t, hstep, hrel⟩
  · -- the address is not counted
    refine ⟨_, hstep, ⟨h.wellFormed, h.gives, ?_⟩, .right _ hshorter⟩
    have hbalanced := h.balanced
    rwa [List.filter_cons_of_neg (by rw [← hcounted a, hskip]; exact Bool.false_ne_true)]
      at hbalanced
  · -- other references to the cell are left
    refine ⟨_, hstep, ⟨hdec.wellFormed, h.gives.trans hdec.gives hwf₀, ?_⟩, ?_⟩
    · have hbalanced := h.balanced
      rw [hkeep ha] at hbalanced
      exact hbalanced.decrement hdec.heap hcount
    · have hcard : t.liveCells = s'.liveCells := hdec.heap.live
      unfold dropVariant InvImage dropCost
      rw [hcard]
      exact .right _ hshorter
  · -- this was the last reference to the cell
    refine ⟨_, hstep, ⟨hrel.wellFormed, h.gives.trans hrel.gives hwf₀, ?_⟩, ?_⟩
    · have hbalanced := h.balanced
      have hkids : s'.heap.kids a = (s'.kidsOf a).filter (s.counted ·) := by
        change (s'.kidsOf a).filter _ = _
        rw [funext hcounted]
      rw [hkeep ha] at hbalanced
      rw [List.filter_append, ← hkids]
      exact hbalanced.free hrel.heap hcount
    · have hcard : t.liveCells = s'.liveCells.erase a := hrel.heap.live
      refine .left _ _ ?_
      rw [hcard]
      exact Finset.card_erase_lt_of_mem ha

/-- Dropping an owned handle, whatever it refers to, ends in a store whose counts
are right for the handles that are left. -/
theorem dropAddr_ends (h : s.Counted charge (a :: handles)) :
    ∃ fuel s', dropAddr fuel a s = some (.ok s') ∧ s'.Counted charge handles ∧
      GivesBack charge s s' := by
  have hstart : Dropping charge s handles ([a], s) := by
    refine ⟨h.wellFormed, .refl s, ?_⟩
    have hbalanced := h.balanced
    by_cases ha : s.counted a = true
    · rw [List.filter_cons_of_pos ha] at hbalanced ⊢
      exact hbalanced.pend
    · rw [List.filter_cons_of_neg ha] at hbalanced ⊢
      exact hbalanced
  have hrun := dropSystem.exists_run_of_variant
    (P := fun r => ∃ s', r = .ok s' ∧ s'.Counted charge handles ∧ GivesBack charge s s')
    dropVariant_wf ?_ ?_ hstart
  · rcases hrun with ⟨fuel, _, hrun, s', rfl, hs'⟩
    exact ⟨fuel, s', hrun, hs'⟩
  · rintro ⟨work, s'⟩ st hinv hstep
    cases work with
    | nil => cases hstep
    | cons b rest =>
        rcases hinv.step h.wellFormed with ⟨st', hstep', hinv', hlt⟩
        cases hstep.symm.trans hstep'
        exact ⟨hinv', hlt⟩
  · rintro ⟨work, s'⟩ r hinv hstep
    cases work with
    | nil =>
        cases hstep
        refine ⟨s', rfl, ⟨hinv.wellFormed, ?_⟩, hinv.gives⟩
        rw [funext hinv.gives.keeps.counted]
        exact hinv.balanced
    | cons b rest =>
        rcases hinv.step h.wellFormed with ⟨st', hstep', -⟩
        cases hstep.symm.trans hstep'

/-- Dropping one owned handle of a store whose counts are right terminates, keeps
the counts right, gives back exactly the cells that no other owned handle reaches
and the reserved shells in flight in them, and moves the counters by exactly what
it gave back. -/
theorem dropAddr_frees_unreachable (h : s.Counted charge (a :: handles))
    (hacyclic : s.heap.Acyclic) :
    ∃ fuel s', dropAddr fuel a s = some (.ok s') ∧
      s'.Counted charge handles ∧
      s'.liveCells ⊆ s.liveCells ∧
      (∀ b ∈ s.liveCells, b ∉ s'.liveCells ↔
        ¬ s.heap.Reach (handles.filter (s.counted ·)) b) ∧
      s'.reserved ⊆ s.reserved ∧
      (∀ b ∈ s.reserved, b ∉ s'.reserved ↔
        ∃ c ∈ s.liveCells \ s'.liveCells, b ∈ (s.reservationsAt c).map Prod.fst) ∧
      s'.stats = s.stats.giveBack charge (s.freed s') := by
  rcases dropAddr_ends h with ⟨fuel, s', hrun, hcounted, hgives⟩
  have hbalanced := hcounted.balanced
  rw [funext hgives.keeps.counted] at hbalanced
  refine ⟨fuel, s', hrun, hcounted, hgives.keeps.live, ?_, hgives.keeps.reserved,
    hgives.reclaimed, hgives.stats⟩
  intro b _
  exact not_congr (hbalanced.mem_iff_reach hgives.keeps.shrinks hacyclic)

/-! ### A drop over both heaps

A constructor of the C heap refers to a cell of the abstract heap, which it shares
with a captured continuation, and to that continuation, which carries a reuse
token. Another cell is owned on its own. -/

namespace MixedDrop

def shell : ReuseSlot := ⟨.heap 5, 1, true, 16⟩

/-- `HAddr 0` and `HAddr 1` as slot words. -/
def pair : WokObj := ⟨1, 0, 2, [1, 5]⟩

def store : Store where
  cells := List.toAList
    [⟨0, 2, .con "Leaf" [.lit (.int 7)], 16⟩,
      ⟨1, 1, .cont [.app [.box (.heap 0), .reuse (some shell)]]
        ⟨.u64 "r" 0, .ret .unit, [], none, none, none⟩ 0 ⟨[], []⟩, 0⟩,
      ⟨2, 1, .array [], 0⟩,
      ⟨-1, 1, .env [], 0⟩]
  dead := {3}
  stats :=
    { allocs := 6, frees := 1, live := 5, peak := 5, curBytes := 56, peakBytes := 56 }
  backend := .cHeap
  conDesc := [(0, [.pointer, .pointer])]
  reserved := {.heap 5}
  arena := []
  arenaC := []
  objs := List.toAList [⟨16, pair⟩]

def bytesAt : Addr → Int
  | .heap 0 => 16
  | .heap 5 => 16
  | .c _ => 24
  | _ => 0

example : store.liveCells = {.heap 0, .heap 1, .heap 2, .c 16} := by decide

example : (dropAddr 10 (.c 16) store).map (·.map fun s => (s.liveCells, s.stats)) =
    some (.ok ({.heap 2},
      { allocs := 6, frees := 5, live := 1, peak := 5, curBytes := 0, peakBytes := 56 })) := by
  decide

theorem reservations_static (i : Int) (hi : i < 0) : store.reservationsAt (.heap i) = [] := by
  cases hc : store.cells.lookup i with
  | none => simp only [Store.reservationsAt, hc, Option.map_none, Option.getD_none]
  | some c =>
      have hmem : i ∈ [0, 1, 2, -1] :=
        AList.mem_keys.mp (AList.lookup_isSome.mp (hc ▸ rfl) : i ∈ store.cells)
      have hi : i = -1 := by
        simp only [List.mem_cons, List.not_mem_nil, or_false] at hmem
        omega
      rw [hi]
      decide

theorem wellFormed : store.WellFormed bytesAt where
  dead := by decide
  backend := fun _ _ _ => rfl
  decodes := by
    intro p o hp ho
    have hp : p = 16 := by
      have hlive : store.liveCells = {.heap 0, .heap 1, .heap 2, .c 16} := by decide
      rw [hlive] at hp
      simpa using hp
    subst hp
    cases ho
    exact ⟨[.heap 0, .heap 1], by decide⟩
  static := reservations_static
  reservedHeap := by
    intro i hi
    have hi : i = 5 := by simpa [store] using hi
    subst hi
    decide
  reservedC := by
    intro p hp
    simp [store] at hp
  reservedInline := by decide
  charged := by decide
  chargedShell := by decide

theorem counted : store.Counted bytesAt [.c 16, .heap 2, .heap (-1)] :=
  ⟨wellFormed, .of_live (by decide) (by decide) (by decide) (by decide) (by decide)⟩

def rank : Addr → Nat
  | .c _ => 0
  | .heap 1 => 1
  | _ => 2

theorem acyclic : store.heap.Acyclic :=
  CountedHeap.acyclic_of_rank rank (by decide)

/-- The theorem at this store: the constructor and all it leads to is given back. -/
theorem drop_pair :
    store.Counted bytesAt [.c 16, .heap 2, .heap (-1)] ∧ store.heap.Acyclic ∧
      ∃ fuel s', dropAddr fuel (.c 16) store = some (.ok s') ∧
        s'.Counted bytesAt [.heap 2, .heap (-1)] := by
  refine ⟨counted, acyclic, ?_⟩
  rcases dropAddr_frees_unreachable counted acyclic with ⟨fuel, s', hrun, hs', -⟩
  exact ⟨fuel, s', hrun, hs'⟩

end MixedDrop

end Wok.Interp.RC
