/-
Module: Wok.Proofs.Alloc
Purpose: A drop always runs to its end and leaves the rest of the store as it was;
  another reference and a new cell keep every count right.
Imports: Mathlib.Algebra.Order.BigOperators.Group.List, Wok.Interp.RC.Alloc,
  Wok.Proofs.Drop
Trusted boundary: none
Main exports: drop_eq, DropFrame, drop_frame, Store.Counted.drop,
  Store.Counted.incref, Store.Counted.add_heap, Store.Counted.add_c
-/
import Mathlib.Algebra.Order.BigOperators.Group.List
import Wok.Interp.RC.Alloc
import Wok.Proofs.Drop

namespace Wok.Interp.RC

open Wok.IR
open Wok.Lib

variable {s s' t : Store} {a b : Addr} {charge : Addr → Int} {handles : List Addr}

/-! ### Sums over the entries of a map -/

section Sums

variable {α : Type} {β : Type} [DecidableEq α] {l : AList fun _ : α => β} {k : α} {v : β}

theorem sum_erase (f : (_ : α) × β → Nat) (h : l.lookup k = some v) :
    ((l.erase k).entries.map f).sum + f ⟨k, v⟩ = (l.entries.map f).sum := by
  have hkey : k ∈ l.entries.keys := AList.mem_keys.mp (AList.lookup_isSome.mp (by simp [h]))
  rcases List.exists_of_kerase hkey with ⟨w, l₁, l₂, -, hentries, herase⟩
  have hw : w = v := by
    apply l.nodupKeys.eq_of_mk_mem
    · rw [hentries]
      exact List.mem_append_right l₁ List.mem_cons_self
    · exact AList.mem_lookup_iff.mp h
  have hentries' : (l.erase k).entries = l₁ ++ l₂ := herase
  rw [hentries', hentries, hw]
  simp only [List.map_append, List.map_cons, List.sum_append, List.sum_cons]
  omega

theorem sum_insert (f : (_ : α) × β → Nat) (h : l.lookup k = some v) (w : β) :
    ((l.insert k w).entries.map f).sum + f ⟨k, v⟩ = (l.entries.map f).sum + f ⟨k, w⟩ := by
  have herase := sum_erase f h
  have hinsert : (l.insert k w).entries = ⟨k, w⟩ :: (l.erase k).entries := rfl
  rw [hinsert, List.map_cons, List.sum_cons]
  omega

end Sums

/-! ### What a drop leaves alone -/

/-- What every drop does to a store, whatever its counts are: cells go, and
nothing else changes but counts and counters. -/
structure DropFrame (s s' : Store) : Prop where
  backend : s'.backend = s.backend
  conDesc : s'.conDesc = s.conDesc
  tags : s'.tags = s.tags
  next : s'.next = s.next
  arena : s'.arena = s.arena
  arenaC : s'.arenaC = s.arenaC
  arenaHandles : s'.arenaHandles = s.arenaHandles
  buffers : s'.buffers = s.buffers
  reserved : s'.reserved ⊆ s.reserved
  cells : ∀ i, s.cells.lookup i = none → s'.cells.lookup i = none
  objs : ∀ p, s.objs.lookup p = none → s'.objs.lookup p = none
  dead : ∀ i ∈ s'.dead, i ∈ s.dead ∨ s.cells.lookup i ≠ none ∨ Addr.heap i ∈ s.reserved
  /-- a cell of an open arena frame is not freed -/
  arenaObjs : ∀ p, s.isArenaAddr (.c p) = true → Addr.c p ∉ s.reserved →
    s.objs.lookup p ≠ none → s'.objs.lookup p ≠ none
  held : heldRefs s' ≤ heldRefs s

theorem DropFrame.refl (s : Store) : DropFrame s s where
  backend := rfl
  conDesc := rfl
  tags := rfl
  next := rfl
  arena := rfl
  arenaC := rfl
  arenaHandles := rfl
  buffers := rfl
  reserved := Finset.Subset.refl _
  cells := fun _ h => h
  objs := fun _ h => h
  dead := fun _ h => .inl h
  arenaObjs := fun _ _ _ h => h
  held := Nat.le_refl _

theorem DropFrame.isArenaAddr (h : DropFrame s s') (a : Addr) :
    s'.isArenaAddr a = s.isArenaAddr a := by
  cases a <;> simp only [Store.isArenaAddr, h.arena, h.arenaC]

theorem DropFrame.trans (h : DropFrame s s') (h' : DropFrame s' t) : DropFrame s t where
  backend := h'.backend.trans h.backend
  conDesc := h'.conDesc.trans h.conDesc
  tags := h'.tags.trans h.tags
  next := h'.next.trans h.next
  arena := h'.arena.trans h.arena
  arenaC := h'.arenaC.trans h.arenaC
  arenaHandles := h'.arenaHandles.trans h.arenaHandles
  buffers := h'.buffers.trans h.buffers
  reserved := h'.reserved.trans h.reserved
  cells := fun i hi => h'.cells i (h.cells i hi)
  objs := fun p hp => h'.objs p (h.objs p hp)
  dead := by
    intro i hi
    rcases h'.dead i hi with hi | hi | hi
    · exact h.dead i hi
    · exact .inr (.inl fun hnone => hi (h.cells i hnone))
    · exact .inr (.inr (h.reserved hi))
  arenaObjs := by
    intro p harena hshell hp
    exact h'.arenaObjs p (h.isArenaAddr (.c p) ▸ harena) (fun hmem => hshell (h.reserved hmem))
      (h.arenaObjs p harena hshell hp)
  held := h'.held.trans h.held

theorem DropFrame.objKids (h : s'.conDesc = s.conDesc) (o : WokObj) :
    objKids o s' = objKids o s := by
  simp only [RC.objKids, readCConValues, h]

/-- The references that the cells of the abstract heap hold. -/
def cellRefs (cells : AList fun _ : Int => Cell) : Nat :=
  (cells.entries.map fun c => (cascadeChildren c.2.node).length).sum

/-- The references that a C cell holds, as its decoder reads them. -/
def objRefs (s : Store) (o : WokObj) : Nat := ((objKids o s).toOption.getD []).length

def objsRefs (s : Store) (objs : AList fun _ : Ptr => WokObj) : Nat :=
  (objs.entries.map fun o => objRefs s o.2).sum

theorem heldRefs_eq (s : Store) : heldRefs s = cellRefs s.cells + objsRefs s s.objs := rfl

/-- Taking a C cell away. -/
theorem heldRefs_erase_objs {p : Ptr} {o : WokObj} (ho : s.objs.lookup p = some o) :
    heldRefs { s with objs := s.objs.erase p } + objRefs s o = heldRefs s := by
  have hsum : objsRefs s (s.objs.erase p) + objRefs s o = objsRefs s s.objs :=
    sum_erase (fun o => objRefs s o.2) ho
  change cellRefs s.cells + objsRefs s (s.objs.erase p) + objRefs s o = heldRefs s
  rw [Nat.add_assoc, hsum, heldRefs_eq]

/-- Another count does not change what a C cell holds. -/
theorem heldRefs_insert_objs {p : Ptr} {o : WokObj} (ho : s.objs.lookup p = some o) (n : Nat) :
    heldRefs { s with objs := s.objs.insert p { o with rc := n } } = heldRefs s := by
  have hsum : objsRefs s (s.objs.insert p { o with rc := n }) + objRefs s o =
      objsRefs s s.objs + objRefs s o :=
    sum_insert (fun o => objRefs s o.2) ho { o with rc := n }
  change cellRefs s.cells + objsRefs s (s.objs.insert p { o with rc := n }) = heldRefs s
  rw [Nat.add_right_cancel hsum, heldRefs_eq]

theorem heldRefs_erase_cells {i : Int} {c : Cell} (hc : s.cells.lookup i = some c) :
    heldRefs { s with cells := s.cells.erase i } + (cascadeChildren c.node).length =
      heldRefs s := by
  have hsum : cellRefs (s.cells.erase i) + (cascadeChildren c.node).length = cellRefs s.cells :=
    sum_erase (fun c : (_ : Int) × Cell => (cascadeChildren c.2.node).length) hc
  change cellRefs (s.cells.erase i) + objsRefs s s.objs + _ = heldRefs s
  rw [heldRefs_eq]
  omega

theorem heldRefs_insert_cells {i : Int} {c : Cell} (hc : s.cells.lookup i = some c) (n : Nat) :
    heldRefs { s with cells := s.cells.insert i { c with rc := n } } = heldRefs s := by
  have hsum : cellRefs (s.cells.insert i { c with rc := n }) + (cascadeChildren c.node).length =
      cellRefs s.cells + (cascadeChildren c.node).length :=
    sum_insert (fun c : (_ : Int) × Cell => (cascadeChildren c.2.node).length) hc
      { c with rc := n }
  change cellRefs (s.cells.insert i { c with rc := n }) + objsRefs s s.objs = heldRefs s
  rw [Nat.add_right_cancel hsum, heldRefs_eq]

/-! ### One round of the worklist -/

theorem lookup_insert_none {α β : Type} [DecidableEq α] {l : AList fun _ : α => β} {k j : α}
    {v w : β} (h : l.lookup k = some v) (hj : l.lookup j = none) :
    (l.insert k w).lookup j = none := by
  have hne : j ≠ k := by
    intro heq
    rw [heq, h] at hj
    cases hj
  rw [AList.lookup_insert_ne hne, hj]

theorem lookup_erase_none {α β : Type} [DecidableEq α] {l : AList fun _ : α => β} {j : α} (k : α)
    (hj : l.lookup j = none) : (l.erase k).lookup j = none := by
  by_cases hne : j = k
  · rw [hne]
    exact AList.lookup_erase k l
  · rw [AList.lookup_erase_ne hne, hj]

/-- Changing the count of a C cell. -/
theorem frame_insert_objs {p : Ptr} {o : WokObj} (ho : s.objs.lookup p = some o) (n : Nat) :
    DropFrame s { s with objs := s.objs.insert p { o with rc := n } } := {
  DropFrame.refl s with
  objs := fun _ hq => lookup_insert_none ho hq
  arenaObjs := by
    intro q _ _ hq
    by_cases hqp : q = p
    · subst hqp
      simp
    · rw [AList.lookup_insert_ne hqp]
      exact hq
  held := (heldRefs_insert_objs ho n).le }

/-- Changing the count of a cell of the abstract heap. -/
theorem frame_insert_cells {i : Int} {c : Cell} (hc : s.cells.lookup i = some c) (n : Nat) :
    DropFrame s { s with cells := s.cells.insert i { c with rc := n } } := {
  DropFrame.refl s with
  cells := fun _ hj => lookup_insert_none hc hj
  held := (heldRefs_insert_cells hc n).le }

/-- Freeing a C cell that is in no open arena frame, or a reserved shell. -/
theorem frame_erase_objs {p : Ptr} {o : WokObj} (ho : s.objs.lookup p = some o)
    (hp : s.isArenaAddr (.c p) = false ∨ Addr.c p ∈ s.reserved) (g : Stats)
    {R : Finset Addr} (hR : R ⊆ s.reserved) :
    DropFrame s { s with objs := s.objs.erase p, stats := g, reserved := R } := {
  DropFrame.refl s with
  reserved := hR
  objs := fun _ hq => lookup_erase_none p hq
  arenaObjs := by
    intro q harena hshell hq
    have hne : q ≠ p := by
      intro heq
      rw [heq] at harena hshell
      rcases hp with hp | hp
      · rw [harena] at hp
        cases hp
      · exact hshell hp
    rw [AList.lookup_erase_ne hne]
    exact hq
  held := by
    have hsum := heldRefs_erase_objs ho
    change heldRefs { s with objs := s.objs.erase p } ≤ heldRefs s
    omega }

theorem frame_freeReservation {r : Addr × Int} (h : freeReservation r s = .ok s') :
    DropFrame s s' := by
  rcases r with ⟨a, bytes⟩
  cases a with
  | inline tag =>
      cases h
      exact .refl _
  | inlineStr bs =>
      cases h
      exact .refl _
  | heap i =>
      by_cases hi : Addr.heap i ∈ s.reserved
      · simp only [freeReservation, hi, not_true, if_false, Except.ok.injEq] at h
        subst h
        exact {
          DropFrame.refl s with
          reserved := Finset.erase_subset _ _
          dead := by
            intro j hj
            rcases Finset.mem_insert.mp hj with rfl | hj
            · exact .inr (.inr hi)
            · exact .inl hj }
      · simp only [freeReservation, hi, not_false_eq_true, if_true] at h
        cases h
  | c p =>
      by_cases hp : Addr.c p ∈ s.reserved
      · simp only [freeReservation, hp, not_true, if_false] at h
        obtain ⟨_, -, h⟩ := Interp.bind_ok h
        obtain ⟨s₁, hfree, h⟩ := Interp.bind_ok h
        cases h
        cases ho : s.objs.lookup p with
        | none => simp [wokFree, ho] at hfree
        | some o =>
            by_cases hrc : o.rc = 0
            · rw [wokFree_ok ho hrc] at hfree
              cases hfree
              exact frame_erase_objs ho (.inr hp) _ (Finset.erase_subset _ _)
            · simp [wokFree, ho, hrc] at hfree
      · simp only [freeReservation, hp, not_false_eq_true, if_true] at h
        cases h

theorem frame_freeReservations {rs : List (Addr × Int)}
    (h : rs.foldlM (fun s r => freeReservation r s) s = .ok s') : DropFrame s s' := by
  induction rs generalizing s with
  | nil =>
      cases h
      exact .refl _
  | cons r rs ih =>
      rw [List.foldlM_cons] at h
      obtain ⟨s₁, hr, h⟩ := Interp.bind_ok h
      exact (frame_freeReservation hr).trans (ih h)

theorem frame_reclaimIfNCont {i : Int} (h : reclaimIfNCont i s = .ok s') : DropFrame s s' := by
  unfold reclaimIfNCont at h
  split at h
  · split at h
    · exact frame_freeReservations h
    · cases h
      exact .refl _
  · cases h
    exact .refl _

/-- One drop on the abstract heap: the references on its list come off the books. -/
theorem dropHAddr_frame {i : Int} {kids : List Addr} (h : dropHAddr i s = .ok (kids, s')) :
    DropFrame s s' ∧ heldRefs s' + kids.length ≤ heldRefs s := by
  unfold dropHAddr at h
  obtain ⟨s₁, hreclaim, h⟩ := Interp.bind_ok h
  obtain ⟨⟨kids', s₂⟩, hstep, h⟩ := Interp.bind_ok h
  cases h
  have hframe := frame_reclaimIfNCont hreclaim
  have hheld := hframe.held
  unfold dropAddrStepPure at hstep
  split at hstep
  · cases hstep
    exact ⟨hframe, hheld⟩
  split at hstep
  · cases hstep
  split at hstep
  · cases hstep
  next c hc =>
    split at hstep
    · cases hstep
      have hsum := heldRefs_erase_cells hc
      have hle : heldRefs { s₁ with cells := s₁.cells.erase i } +
          (cascadeChildren c.node).length ≤ heldRefs s := by omega
      refine ⟨hframe.trans ?_, hle⟩
      exact {
        DropFrame.refl s₁ with
        cells := fun j hj => lookup_erase_none i hj
        dead := by
          intro j hj
          rcases Finset.mem_insert.mp hj with rfl | hj
          · exact .inr (.inl (by simp [hc]))
          · exact .inl hj
        held := by
          change heldRefs { s₁ with cells := s₁.cells.erase i } ≤ heldRefs s₁
          omega }
    · cases hstep
      refine ⟨hframe.trans (frame_insert_cells hc _), ?_⟩
      rw [heldRefs_insert_cells hc]
      exact hheld

/-- One drop on the C heap. -/
theorem dropCAddr_frame {p : Ptr} {kids : List Addr} (harena : s.isArenaAddr (.c p) = false)
    (h : dropCAddr p s = .ok (kids, s')) :
    DropFrame s s' ∧ heldRefs s' + kids.length ≤ heldRefs s := by
  unfold dropCAddr at h
  obtain ⟨⟨newrc, o', s₁⟩, hdec, h⟩ := Interp.bind_ok h
  cases ho : s.objs.lookup p with
  | none => simp [wokDec, ho] at hdec
  | some o =>
      by_cases hrc : o.rc = 0
      · simp [wokDec, ho, hrc] at hdec
      · rw [wokDec_ok ho hrc] at hdec
        cases hdec
        have hframe := frame_insert_objs ho (o.rc - 1)
        have hheld := heldRefs_insert_objs ho (o.rc - 1)
        simp only at h
        split at h
        · cases h
          exact ⟨hframe, hheld.le⟩
        · next hzero =>
            obtain ⟨kids', hkids, h⟩ := Interp.bind_ok h
            obtain ⟨_, -, h⟩ := Interp.bind_ok h
            obtain ⟨s₂, hfree, h⟩ := Interp.bind_ok h
            cases h
            have hself : ({ s with objs := s.objs.insert p { o with rc := o.rc - 1 } } :
                Store).objs.lookup p = some { o with rc := o.rc - 1 } := AList.lookup_insert _
            rw [wokFree_ok hself (not_not.mp hzero)] at hfree
            cases hfree
            have hsum := heldRefs_erase_objs hself
            rw [hheld] at hsum
            simp only [objRefs, hkids, Except.toOption, Option.getD_some] at hsum
            exact ⟨hframe.trans (frame_erase_objs hself (.inl harena) _ (Finset.Subset.refl _)),
              hsum.le⟩

/-- What a round of the worklist leaves to do. -/
def dropWork (st : List Addr × Store) : Nat := st.1.length + heldRefs st.2

theorem dropStep_frame {st st' : List Addr × Store} (h : dropStep st = .inl st') :
    DropFrame st.2 st'.2 ∧ dropWork st' < dropWork st := by
  rcases st with ⟨work, s⟩
  cases work with
  | nil => cases h
  | cons a rest =>
      have hskip : dropWork (rest, s) < dropWork (a :: rest, s) := by
        simp only [dropWork, List.length_cons]
        omega
      cases a with
      | inline tag =>
          cases h
          exact ⟨.refl _, hskip⟩
      | inlineStr bs =>
          cases h
          exact ⟨.refl _, hskip⟩
      | c p =>
          cases harena : s.isArenaAddr (.c p) with
          | true =>
              simp only [dropStep, harena, if_true, Sum.inl.injEq] at h
              subst h
              exact ⟨.refl _, hskip⟩
          | false =>
              simp only [dropStep, harena, if_false, Bool.false_eq_true] at h
              split at h
              next kids s' hrun =>
                cases h
                rcases dropCAddr_frame harena hrun with ⟨hframe, hle⟩
                refine ⟨hframe, ?_⟩
                simp only [dropWork, List.length_cons, List.length_append]
                omega
              · cases h
      | heap i =>
          cases harena : s.isArenaAddr (.heap i) with
          | true =>
              simp only [dropStep, harena, if_true, Sum.inl.injEq] at h
              subst h
              exact ⟨.refl _, hskip⟩
          | false =>
              simp only [dropStep, harena, if_false, Bool.false_eq_true] at h
              split at h
              next kids s' hrun =>
                cases h
                rcases dropHAddr_frame hrun with ⟨hframe, hle⟩
                refine ⟨hframe, ?_⟩
                simp only [dropWork, List.length_cons, List.length_append]
                omega
              · cases h

/-! ### Drops run to their end -/

/-- Only the empty worklist ends in a store. -/
theorem dropStep_halts {rest : List Addr} {r : Except Fault Store}
    (h : dropStep (a :: rest, s) = .inr r) : ∃ e, r = .error e := by
  cases a with
  | inline tag => cases h
  | inlineStr bs => cases h
  | c p =>
      simp only [dropStep] at h
      split at h
      · cases h
      · split at h
        · cases h
        · cases h
          exact ⟨_, rfl⟩
  | heap i =>
      simp only [dropStep] at h
      split at h
      · cases h
      · split at h
        · cases h
        · cases h
          exact ⟨_, rfl⟩

theorem run_frame {fuel : Nat} {work : List Addr}
    (h : dropSystem.run fuel (work, s) = some (.ok s')) : DropFrame s s' := by
  induction fuel generalizing work s with
  | zero => cases h
  | succ fuel ih =>
      cases hstep : dropSystem.step (work, s) with
      | inl st =>
          rw [System.run_succ_of_step hstep] at h
          exact (dropStep_frame hstep).1.trans (ih h)
      | inr r =>
          rw [System.run_succ_of_halt hstep] at h
          cases h
          cases work with
          | nil =>
              cases hstep
              exact .refl _
          | cons a rest =>
              rcases dropStep_halts hstep with ⟨e, he⟩
              cases he

/-- The fuel of `drop` is enough for every store. -/
theorem exists_dropAddr (a : Addr) (s : Store) : ∃ r, dropAddr (dropFuel s) a s = some r := by
  apply dropSystem.exists_run_of_measure dropWork
  · exact fun st st' h => (dropStep_frame h).2
  · simp only [dropWork, dropFuel, List.length_cons, List.length_nil]
    omega

/-- Whatever fuel a drop is given, if it ends it ends as `drop` does. -/
theorem drop_eq {fuel : Nat} {r : Except Fault Store} (h : dropAddr fuel a s = some r) :
    drop a s = r := by
  rcases exists_dropAddr a s with ⟨r', hr'⟩
  rw [drop, hr', Option.getD_some]
  exact System.run_unique hr' h

theorem drop_frame (h : drop a s = .ok s') : DropFrame s s' := by
  rcases exists_dropAddr a s with ⟨r, hr⟩
  rw [drop, hr, Option.getD_some] at h
  rw [h] at hr
  exact run_frame hr

/-- Dropping an owned handle of a store whose counts are right. -/
theorem Store.Counted.drop (h : s.Counted charge (a :: handles)) :
    ∃ s', RC.drop a s = .ok s' ∧ s'.Counted charge handles ∧ GivesBack charge s s' := by
  rcases dropAddr_ends h with ⟨fuel, s', hrun, hcounted, hgives⟩
  exact ⟨s', drop_eq hrun, hcounted, hgives⟩

/-! ### Addresses that are not in use -/

theorem DropFrame.fresh (h : DropFrame s s') (hs : s.Fresh) : s'.Fresh where
  next := h.next ▸ hs.next
  cells := fun i hi => h.cells i (hs.cells i (h.next ▸ hi))
  dead := by
    intro i hi
    rw [h.next]
    rcases h.dead i hi with hi | hi | hi
    · exact hs.dead i hi
    · by_contra hle
      exact hi (hs.cells i (not_lt.mp hle))
    · exact hs.reserved i hi
  reserved := fun i hi => h.next ▸ hs.reserved i (h.reserved hi)
  arena := by
    intro i hi
    rw [h.next]
    exact hs.arena i (h.isArenaAddr _ ▸ hi)
  arenaC := by
    intro p hp
    rw [h.isArenaAddr] at hp
    apply h.arenaObjs p hp _ (hs.arenaC p hp)
    intro hshell
    rw [hs.shells p hshell] at hp
    cases hp
  shells := by
    intro p hp
    rw [h.isArenaAddr]
    exact hs.shells p (h.reserved hp)

/-! ### Another reference -/

/-- The stores have the same cells with the same contents; only counts differ. -/
structure SameNodes (s s' : Store) : Prop where
  rest : s' = { s with cells := s'.cells, objs := s'.objs }
  cells : ∀ i, (s'.cells.lookup i).map (fun c => (c.node, c.bytes)) =
    (s.cells.lookup i).map fun c => (c.node, c.bytes)
  objs : ∀ p, (s'.objs.lookup p).map (fun o => (o.tag, o.arity, o.words)) =
    (s.objs.lookup p).map fun o => (o.tag, o.arity, o.words)

theorem SameNodes.refl (s : Store) : SameNodes s s := ⟨rfl, fun _ => rfl, fun _ => rfl⟩

theorem SameNodes.cell (h : SameNodes s s') {i : Int} {c : Cell}
    (hc : s.cells.lookup i = some c) :
    ∃ n, s'.cells.lookup i = some { c with rc := n } := by
  have heq := h.cells i
  rw [hc] at heq
  cases hc' : s'.cells.lookup i with
  | none => simp [hc'] at heq
  | some c' =>
      rw [hc'] at heq
      simp only [Option.map_some, Option.some.injEq, Prod.mk.injEq] at heq
      rcases c' with ⟨rc', node', bytes'⟩
      exact ⟨rc', by rw [← heq.1, ← heq.2]⟩

theorem SameNodes.obj (h : SameNodes s s') {p : Ptr} {o : WokObj}
    (ho : s.objs.lookup p = some o) :
    ∃ n, s'.objs.lookup p = some { o with rc := n } := by
  have heq := h.objs p
  rw [ho] at heq
  cases ho' : s'.objs.lookup p with
  | none => simp [ho'] at heq
  | some o' =>
      rw [ho'] at heq
      simp only [Option.map_some, Option.some.injEq, Prod.mk.injEq] at heq
      rcases o' with ⟨rc', tag', arity', words'⟩
      exact ⟨rc', by rw [← heq.1, ← heq.2.1, ← heq.2.2]⟩

theorem SameNodes.symm (h : SameNodes s s') : SameNodes s' s where
  rest := by
    rw [h.rest]
  cells := fun i => (h.cells i).symm
  objs := fun p => (h.objs p).symm

theorem SameNodes.fresh (h : SameNodes s s') (hs : s.Fresh) : s'.Fresh := by
  have hcells : ∀ i, s.cells.lookup i = none → s'.cells.lookup i = none := by
    intro i hi
    simpa [hi] using h.cells i
  have hobjs : ∀ p, s.objs.lookup p ≠ none → s'.objs.lookup p ≠ none := by
    intro p hp hnone
    apply hp
    simpa [hnone, eq_comm] using h.objs p
  have harena : ∀ a, s'.isArenaAddr a = s.isArenaAddr a := by
    intro a
    rw [h.rest]
    rfl
  constructor
  · rw [h.rest]
    exact hs.next
  · intro i hi
    rw [h.rest] at hi
    exact hcells i (hs.cells i hi)
  · rw [h.rest]
    exact hs.dead
  · rw [h.rest]
    exact hs.reserved
  · intro i hi
    rw [harena] at hi
    rw [h.rest]
    exact hs.arena i hi
  · intro p hp
    exact hobjs p (hs.arenaC p (harena _ ▸ hp))
  · intro p hp
    rw [harena]
    rw [h.rest] at hp
    exact hs.shells p hp

/-- A store with other counts for the same cells. -/
theorem SameNodes.keeps (h : SameNodes s s') (hlive : s'.liveCells = s.liveCells) :
    Keeps s s' where
  arena := by rw [h.rest]
  arenaC := by rw [h.rest]
  conDesc := by rw [h.rest]
  backend := by rw [h.rest]
  cells := by
    intro i c' hc'
    rcases h.symm.cell hc' with ⟨n, hc⟩
    exact ⟨_, hc, rfl, rfl⟩
  objs := by
    intro p o' ho'
    rcases h.symm.obj ho' with ⟨n, ho⟩
    exact ⟨_, ho, rfl⟩
  reserved := by rw [h.rest]
  live := hlive.subset

theorem sameNodes_insert_cells {i : Int} {c : Cell} (hc : s.cells.lookup i = some c) (n : Nat) :
    SameNodes s { s with cells := s.cells.insert i { c with rc := n } } := by
  refine ⟨rfl, fun j => ?_, fun _ => rfl⟩
  by_cases hj : j = i
  · subst hj
    simp [hc]
  · simp only [AList.lookup_insert_ne hj]

theorem sameNodes_insert_objs {p : Ptr} {o : WokObj} (ho : s.objs.lookup p = some o) (n : Nat) :
    SameNodes s { s with objs := s.objs.insert p { o with rc := n } } := by
  refine ⟨rfl, fun _ => rfl, fun q => ?_⟩
  by_cases hq : q = p
  · subst hq
    simp [ho]
  · simp only [AList.lookup_insert_ne hq]

/-- The balance after the count of one live cell went up; nothing else changes. -/
theorem Store.Counted.of_increment (h : s.Counted charge handles) (ha : a ∈ s.liveCells)
    (hnodes : SameNodes s s') (hbut : SameBut a s s') (hself : s'.countOf a = s.countOf a + 1)
    (halive : a ∈ s'.liveCells) (hshell : ∀ p, Addr.c p = a → a ∉ s.reserved) :
    s'.Counted charge (a :: handles) ∧ Keeps s s' ∧ s'.liveCells = s.liveCells := by
  have hlive : s'.liveCells = s.liveCells :=
    hbut.liveCells_eq (iff_of_true halive ha)
  have hkeeps := hnodes.keeps hlive
  have hcounted : s'.counted = s.counted := funext hkeeps.counted
  refine ⟨⟨?_, ?_⟩, hkeeps, hlive⟩
  · apply hkeeps.wellFormed h.wellFormed
    · intro i hi
      rw [hnodes.rest] at hi
      exact .inl hi
    · intro p hp
      have hp : Addr.c p ∈ s.reserved := hkeeps.reserved hp
      exact hbut.objs p fun heq => hshell p heq (heq ▸ hp)
  · have hinc : CountedHeap.Increments a s.heap s'.heap :=
      ⟨hlive, hkeeps.shrinks.kids, hself, fun _ _ => hbut.countOf⟩
    rw [hcounted, List.filter_cons_of_pos (counted_of_mem_liveCells ha)]
    exact h.balanced.increment hinc ha

/-- Taking another reference to an address that may be held. -/
theorem Store.Counted.incref (h : s.Counted charge handles)
    (ha : s.counted a = true → a ∈ s.liveCells) :
    ∃ s', RC.incref a s = .ok s' ∧ s'.Counted charge (a :: handles) ∧
      (Keeps s s' ∧ s'.liveCells = s.liveCells) ∧ SameNodes s s' := by
  have hinert : s.counted a = false → s.Counted charge (a :: handles) := by
    intro hfalse
    refine ⟨h.wellFormed, ?_⟩
    rw [List.filter_cons_of_neg (by simp [hfalse])]
    exact h.balanced
  have hshell : a ∈ s.liveCells → a ∉ s.reserved :=
    fun hlive => Finset.disjoint_left.mp h.wellFormed.disjoint hlive
  cases a with
  | inline tag => exact ⟨s, rfl, hinert rfl, ⟨.refl s, rfl⟩, .refl s⟩
  | inlineStr bs => exact ⟨s, rfl, hinert rfl, ⟨.refl s, rfl⟩, .refl s⟩
  | c p =>
      cases harena : s.isArenaAddr (.c p) with
      | true =>
          refine ⟨s, by simp only [RC.incref, harena, if_true], hinert ?_, ⟨.refl s, rfl⟩, .refl s⟩
          simp [Store.counted, harena]
      | false =>
          have hlive := ha (by simp [Store.counted, harena, isUncounted, isStaticAddr, isInline])
          rcases mem_liveCells_c.mp hlive with ⟨⟨o, ho, hrc⟩, hcounted⟩
          let s' : Store := { s with objs := s.objs.insert p { o with rc := o.rc + 1 } }
          have hrun : RC.incref (.c p) s = .ok s' := by
            simp only [RC.incref, harena, if_false, Bool.false_eq_true, wokDup, wokObj, ho]
            rfl
          have hself : s'.objs.lookup p = some { o with rc := o.rc + 1 } := AList.lookup_insert _
          have hcounted' : s'.counted (.c p) = true := hcounted
          have hincremented := h.of_increment hlive (sameNodes_insert_objs ho _)
            (sameBut_objs fun q hq => AList.lookup_insert_ne hq)
            (by simp [Store.countOf, ho])
            (mem_liveCells_c.mpr ⟨⟨_, hself, Nat.succ_ne_zero _⟩, hcounted'⟩)
            fun _ _ => hshell hlive
          exact ⟨s', hrun, hincremented.1, hincremented.2, sameNodes_insert_objs ho _⟩
  | heap i =>
      cases harena : s.isArenaAddr (.heap i) with
      | true =>
          refine ⟨s, by simp only [RC.incref, harena, if_true], hinert ?_, ⟨.refl s, rfl⟩, .refl s⟩
          simp [Store.counted, harena]
      | false =>
          cases hstatic : isStaticAddr (.heap i) with
          | true =>
              refine ⟨s, ?_, hinert ?_, ⟨.refl s, rfl⟩, .refl s⟩
              · simp only [RC.incref, harena, if_false, Bool.false_eq_true, increfPure, hstatic,
                  if_true]
              · simp [Store.counted, isUncounted, hstatic]
          | false =>
              have hlive := ha (by simp [Store.counted, harena, isUncounted, hstatic, isInline])
              rcases live_heap_cell h.wellFormed hlive with ⟨c, hc, hdead, -⟩
              have hcounted := counted_of_mem_liveCells hlive
              let s' : Store := { s with cells := s.cells.insert i { c with rc := c.rc + 1 } }
              have hrun : RC.incref (.heap i) s = .ok s' := by
                simp only [RC.incref, harena, if_false, Bool.false_eq_true, increfPure, hstatic,
                  derefPure, hdead, hc]
                rfl
              have hself : s'.cells.lookup i = some { c with rc := c.rc + 1 } :=
                AList.lookup_insert _
              have hcounted' : s'.counted (.heap i) = true := hcounted
              have hincremented := h.of_increment hlive (sameNodes_insert_cells hc _)
                (sameBut_cells fun j hj => AList.lookup_insert_ne hj)
                (by simp [Store.countOf, hc])
                (mem_liveCells_heap.mpr ⟨⟨_, hself⟩, hcounted'⟩) fun _ _ => hshell hlive
              exact ⟨s', hrun, hincremented.1, hincremented.2, sameNodes_insert_cells hc _⟩

/-- The order of the handles does not matter. -/
theorem Store.Counted.perm {handles' : List Addr} (h : s.Counted charge handles)
    (hp : handles.Perm handles') : s.Counted charge handles' := by
  refine ⟨h.wellFormed, ?_⟩
  have hcount : ∀ b, (handles'.filter (s.counted ·)).count b =
      (handles.filter (s.counted ·)).count b := fun b => ((hp.filter _).count_eq b).symm
  constructor
  · exact h.balanced.pos
  · intro b hb
    rw [hcount]
    exact h.balanced.count_eq b hb
  · intro b hb
    rw [hcount]
    exact h.balanced.closed b hb

/-! ### New cells -/

theorem SameBut.liveCells_insert (h : SameBut a s s') (ha : a ∈ s'.liveCells) :
    s'.liveCells = insert a s.liveCells := by
  ext b
  rw [Finset.mem_insert]
  by_cases hb : b = a
  · rw [hb]
    simpa using ha
  · rw [h.mem_liveCells hb]
    simp [hb]

theorem SameBut.counted (h : SameBut a s s') : s'.counted = s.counted := by
  funext b
  cases b <;> simp only [Store.counted, Store.isArenaAddr, h.arena, h.arenaC]

/-- The charges with that of a new cell. -/
def chargeOf (charge : Addr → Int) (a : Addr) (bytes : Int) (b : Addr) : Int :=
  if b = a then bytes else charge b

@[simp] theorem chargeOf_self (charge : Addr → Int) (a : Addr) (bytes : Int) :
    chargeOf charge a bytes a = bytes := if_pos rfl

theorem chargeOf_ne {bytes : Int} (h : b ≠ a) : chargeOf charge a bytes b = charge b := if_neg h

/-- The balance after a new cell took over the handles that it refers to. -/
theorem Store.Counted.balanced_add {kids : List Addr} (h : s.Counted charge (kids ++ handles))
    (hbut : SameBut a s s') (hnew : a ∉ s.liveCells) (hlive : a ∈ s'.liveCells)
    (hcount : s'.countOf a = 1) (hkids : s'.kidsOf a = kids)
    (hold : ∀ b ∈ s.liveCells, s'.kidsOf b = s.kidsOf b) :
    s'.heap.Balanced [] ((a :: handles).filter (s'.counted ·)) := by
  have hadd : CountedHeap.Adds a s.heap s'.heap := by
    refine ⟨hnew, hbut.liveCells_insert hlive, ?_, ?_, hcount⟩
    · intro b hb
      change (s'.kidsOf b).filter _ = (s.kidsOf b).filter _
      rw [hold b hb, hbut.counted]
    · intro b hb
      exact hbut.countOf fun heq => hnew (heq ▸ hb)
  rw [List.filter_cons_of_pos (counted_of_mem_liveCells hlive), hbut.counted]
  apply CountedHeap.Balanced.add _ hadd
  have hbalanced := h.balanced
  rw [List.filter_append] at hbalanced
  change s.heap.Balanced [] ((s'.kidsOf a).filter _ ++ _)
  rw [hkids, hbut.counted]
  exact hbalanced

theorem Store.Fresh.add_heap (h : s.Fresh) (c : Cell) (g : Stats) :
    Store.Fresh { s with cells := s.cells.insert s.next c, next := s.next + 1, stats := g } where
  next := Int.le_add_one h.next
  cells := by
    intro i hi
    have hi : s.next + 1 ≤ i := hi
    have hne : i ≠ s.next := by omega
    exact (AList.lookup_insert_ne hne).trans (h.cells i (by omega))
  dead := fun i hi => Int.lt_add_one_of_le (h.dead i hi).le
  reserved := fun i hi => Int.lt_add_one_of_le (h.reserved i hi).le
  arena := fun i hi => Int.lt_add_one_of_le (h.arena i hi).le
  arenaC := h.arenaC
  shells := h.shells

theorem Store.Fresh.add_c (h : s.Fresh) (p : Ptr) (o : WokObj) (g : Stats) :
    Store.Fresh { s with objs := s.objs.insert p o, stats := g } where
  next := h.next
  cells := h.cells
  dead := h.dead
  reserved := h.reserved
  arena := h.arena
  arenaC := by
    intro q hq
    by_cases hqp : q = p
    · subst hqp
      simp
    · exact (AList.lookup_insert_ne hqp).trans_ne (h.arenaC q hq)
  shells := h.shells

/-- A new cell of the abstract heap. -/
theorem Store.Counted.add_heap {n : Node} (h : s.Counted charge (cascadeChildren n ++ handles))
    (hf : s.Fresh) (hn : nodeReservations s.reserved n = []) (bytes : Int) (g : Stats) :
    let s' : Store := { s with
      cells := s.cells.insert s.next ⟨1, n, bytes⟩, next := s.next + 1, stats := g }
    s'.Counted (chargeOf charge (.heap s.next) bytes) (.heap s.next :: handles) ∧ s'.Fresh ∧
      Addr.heap s.next ∈ s'.liveCells := by
  intro s'
  have hwf := h.wellFormed
  have hself : s'.cells.lookup s.next = some ⟨1, n, bytes⟩ := AList.lookup_insert _
  have hne : ∀ i, i ≠ s.next → s'.cells.lookup i = s.cells.lookup i :=
    fun i hi => AList.lookup_insert_ne hi
  have hnone : s.cells.lookup s.next = none := hf.cells _ le_rfl
  have hbut : SameBut (.heap s.next) s s' :=
    ⟨rfl, rfl, fun i hi => hne i fun heq => hi (heq ▸ rfl), fun _ _ => rfl⟩
  have harena : s.isArenaAddr (.heap s.next) = false := by
    by_contra htrue
    exact lt_irrefl _ (hf.arena _ (Bool.not_eq_false _ ▸ htrue))
  have hcounted : s'.counted (.heap s.next) = true := by
    rw [hbut.counted]
    have hnext := hf.next
    simp [Store.counted, harena, isUncounted, isStaticAddr, isInline, hnext]
  have hlive : Addr.heap s.next ∈ s'.liveCells := mem_liveCells_heap.mpr ⟨⟨_, hself⟩, hcounted⟩
  have hnew : Addr.heap s.next ∉ s.liveCells := by
    intro hmem
    rcases mem_liveCells_heap.mp hmem with ⟨⟨c, hc⟩, -⟩
    rw [hnone] at hc
    cases hc
  have hreservations : ∀ b, b ≠ .heap s.next → s'.reservationsAt b = s.reservationsAt b := by
    intro b hb
    cases b with
    | heap i =>
        simp only [Store.reservationsAt, hne i fun heq => hb (heq ▸ rfl)]
        rfl
    | _ => rfl
  have hreservationsNew : s'.reservationsAt (.heap s.next) = [] := by
    simp only [Store.reservationsAt, hself, Option.map_some, Option.getD_some]
    exact hn
  refine ⟨⟨?_, h.balanced_add hbut hnew hlive ?_ ?_ ?_⟩, ?_, hlive⟩
  · constructor
    · intro i hi
      have hlt := hf.dead i hi
      rw [hne i (by omega)]
      exact hwf.dead i hi
    · exact hwf.backend
    · intro p o hp ho
      exact hwf.decodes p o ((hbut.mem_liveCells (by simp)).mp hp) ho
    · intro i hi
      have hnext := hf.next
      rw [hreservations _ (by simp; omega)]
      exact hwf.static i hi
    · intro i hi
      have hlt := hf.reserved i hi
      rw [hne i (by omega)]
      exact hwf.reservedHeap i hi
    · exact hwf.reservedC
    · exact hwf.reservedInline
    · intro b hb
      by_cases hba : b = .heap s.next
      · subst hba
        simp [Store.bytesOf, hself]
      · rw [chargeOf_ne hba, ← hwf.charged b ((hbut.mem_liveCells hba).mp hb)]
        cases b with
        | heap i => simp only [Store.bytesOf, hne i fun heq => hba (heq ▸ rfl)]
        | _ => rfl
    · intro b hb r hr
      by_cases hba : b = .heap s.next
      · subst hba
        rw [hreservationsNew] at hr
        cases hr
      · rw [hreservations b hba] at hr
        have hreserved := reservationsAt_reserved b r hr
        have hrne : r.1 ≠ .heap s.next := by
          intro heq
          rw [heq] at hreserved
          exact lt_irrefl _ (hf.reserved _ hreserved)
        rw [chargeOf_ne hrne]
        exact hwf.chargedShell b ((hbut.mem_liveCells hba).mp hb) r hr
  · simp [Store.countOf, hself]
  · simp [Store.kidsOf, hself]
  · intro b hb
    cases b with
    | heap i =>
        have hi : i ≠ s.next := fun heq => hnew (heq ▸ hb)
        simp only [Store.kidsOf, hne i hi]
    | _ => rfl
  · exact hf.add_heap _ g

/-- A new cell of the C heap. -/
theorem Store.Counted.add_c {p : Ptr} {o : WokObj} {kids : List Addr}
    (h : s.Counted charge (kids ++ handles)) (hf : s.Fresh) (hp : s.objs.lookup p = none)
    (hbackend : s.backend = .cHeap) (hrc : o.rc = 1) (hkids : objKids o s = .ok kids) (g : Stats) :
    let s' : Store := { s with objs := s.objs.insert p o, stats := g }
    s'.Counted (chargeOf charge (.c p) (objBytes o)) (.c p :: handles) ∧ s'.Fresh ∧
      Addr.c p ∈ s'.liveCells := by
  intro s'
  have hwf := h.wellFormed
  have hself : s'.objs.lookup p = some o := AList.lookup_insert _
  have hne : ∀ q, q ≠ p → s'.objs.lookup q = s.objs.lookup q :=
    fun q hq => AList.lookup_insert_ne hq
  have hbut : SameBut (.c p) s s' :=
    ⟨rfl, rfl, fun _ _ => rfl, fun q hq => hne q fun heq => hq (heq ▸ rfl)⟩
  have harena : s.isArenaAddr (.c p) = false := by
    by_contra htrue
    exact hf.arenaC p (Bool.not_eq_false _ ▸ htrue) hp
  have hcounted : s'.counted (.c p) = true := by
    rw [hbut.counted]
    simp [Store.counted, harena, isUncounted, isStaticAddr, isInline]
  have hlive : Addr.c p ∈ s'.liveCells :=
    mem_liveCells_c.mpr ⟨⟨o, hself, by omega⟩, hcounted⟩
  have hnew : Addr.c p ∉ s.liveCells := by
    intro hmem
    rcases mem_liveCells_c.mp hmem with ⟨⟨o', ho', -⟩, -⟩
    rw [hp] at ho'
    cases ho'
  have hobjKids : ∀ o', objKids o' s' = objKids o' s := fun _ => rfl
  have hreservations : ∀ b, s'.reservationsAt b = s.reservationsAt b := fun _ => rfl
  refine ⟨⟨?_, h.balanced_add hbut hnew hlive ?_ ?_ ?_⟩, ?_, hlive⟩
  · constructor
    · exact hwf.dead
    · intro q o' _
      exact hbackend
    · intro q o' hq ho'
      by_cases hqp : q = p
      · subst hqp
        rw [hself] at ho'
        cases ho'
        exact ⟨kids, hkids⟩
      · rw [hne q hqp] at ho'
        exact hwf.decodes q o' ((hbut.mem_liveCells (by simpa using hqp)).mp hq) ho'
    · exact hwf.static
    · exact hwf.reservedHeap
    · intro q hq
      rcases hwf.reservedC q hq with ⟨o', ho', hzero⟩
      have hqp : q ≠ p := by
        intro heq
        rw [heq, hp] at ho'
        cases ho'
      exact ⟨o', by rw [hne q hqp, ho'], hzero⟩
    · exact hwf.reservedInline
    · intro b hb
      by_cases hba : b = .c p
      · subst hba
        simp [Store.bytesOf, hself]
      · rw [chargeOf_ne hba, ← hwf.charged b ((hbut.mem_liveCells hba).mp hb)]
        cases b with
        | c q => simp only [Store.bytesOf, hne q fun heq => hba (heq ▸ rfl)]
        | _ => rfl
    · intro b hb r hr
      have hreserved := reservationsAt_reserved b r hr
      have hrne : r.1 ≠ .c p := by
        intro heq
        rw [heq] at hreserved
        rcases hwf.reservedC p hreserved with ⟨o', ho', -⟩
        rw [hp] at ho'
        cases ho'
      rw [chargeOf_ne hrne]
      have hba : b ≠ .c p := by
        intro heq
        subst heq
        cases hr
      exact hwf.chargedShell b ((hbut.mem_liveCells hba).mp hb) r hr
  · simp [Store.countOf, hself, hrc]
  · simp only [Store.kidsOf, hself, Option.map_some, hobjKids, hkids]
  · intro b hb
    cases b with
    | c q =>
        have hq : q ≠ p := fun heq => hnew (heq ▸ hb)
        simp only [Store.kidsOf, hne q hq, hobjKids]
    | _ => rfl
  · exact hf.add_c p o g

end Wok.Interp.RC
