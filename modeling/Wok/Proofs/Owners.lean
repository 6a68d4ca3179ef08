/-
Module: Wok.Proofs.Owners
Purpose: A scheduler holds the coroutine of its root and one for each promise that is to be
  fulfilled, so that its internal errors cannot come up and it stalls in a deadlock only.
Imports: Wok.Proofs.Drives, Wok.Spec.Handles
Trusted boundary: none
Main exports: Held, run_live, Drive.next_error, reports_of_aligned
-/
import Wok.Proofs.Drives
import Wok.Spec.Handles

namespace Wok.Interp

open Wok.IR
open Wok.Lib (System)

/-! ### Owners -/

/-- The owners of the coroutines that wait. -/
def parked (st : Sched) (pending : List Parked) : Multiset Owner :=
  ↑((st.ready ++ pending).map Parked.owner) + ↑((chanFibers st).map Prod.fst) +
    ↑((cellFibers st).map Prod.fst)

/-- The promise has not been fulfilled. -/
def Unfulfilled (st : Sched) (pid : Int) : Prop :=
  ∃ ws, st.cells.lookup pid = some (.pending ws)

section Moves

variable {st : Sched} {pending : List Parked}

theorem parked_enqueue (p : Parked) :
    parked (enqueue p st) pending = p.owner ::ₘ parked st pending := by
  simp only [parked, enqueue, List.map_append, ← Multiset.coe_add, chanFibers, cellFibers,
    List.map_cons, List.map_nil, ← Multiset.singleton_add, Multiset.coe_singleton]
  abel

theorem parked_after (p : Parked) : parked st (p :: pending) = p.owner ::ₘ parked st pending := by
  simp only [parked, List.map_append, ← Multiset.coe_add, List.map_cons, ← Multiset.cons_coe,
    ← Multiset.singleton_add]
  abel

/-- A channel that is put in another's place changes who waits there. -/
theorem parked_putChan {bound cid : Int} {ch : ChanState} (pending : List Parked)
    (ch' : ChanState) (hkeyed : Keyed st.chans bound) (hch : st.chans.lookup cid = some ch) :
    parked { st with chans := putEntry cid ch' st.chans } pending + ↑(ch.waiters.map Prod.fst) =
      parked st pending + ↑(ch'.waiters.map Prod.fst) := by
  have hsplit := congrArg (Multiset.map Prod.fst)
    (flatMap_split hkeyed hch fun e => e.2.waiters)
  simp only [Multiset.map_add, Multiset.map_coe] at hsplit
  simp only [parked, chanFibers, hsplit, putEntry_eq, List.flatMap_cons, List.map_append,
    ← Multiset.coe_add, cellFibers]
  abel

theorem parked_putCell {bound pid : Int} {c : Cell} (pending : List Parked) (c' : Cell)
    (hkeyed : Keyed st.cells bound) (hc : st.cells.lookup pid = some c) :
    parked { st with cells := putEntry pid c' st.cells } pending + ↑(c.waiters.map Prod.fst) =
      parked st pending + ↑(c'.waiters.map Prod.fst) := by
  have hsplit := congrArg (Multiset.map Prod.fst)
    (flatMap_split hkeyed hc fun e => e.2.waiters)
  simp only [Multiset.map_add, Multiset.map_coe] at hsplit
  simp only [parked, cellFibers, hsplit, putEntry_eq, List.flatMap_cons, List.map_append,
    ← Multiset.coe_add, chanFibers]
  abel

theorem parked_newChan {cid n : Int} (hnone : st.chans.lookup cid = none) :
    parked { st with nextId := n, chans := putEntry cid ⟨[], []⟩ st.chans } pending =
      parked st pending := by
  simp only [parked, chanFibers, putEntry_eq, others_eq_self hnone, List.flatMap_cons,
    List.nil_append, cellFibers]

theorem parked_newCell {pid n : Int} (hnone : st.cells.lookup pid = none) :
    parked { st with nextId := n, cells := putEntry pid (.pending []) st.cells } pending =
      parked st pending := by
  simp only [parked, cellFibers, putEntry_eq, others_eq_self hnone, List.flatMap_cons,
    Cell.waiters, List.nil_append, chanFibers]

end Moves

/-- Where the owner of a folded step goes, and what becomes of the promises. -/
inductive Accounts (st : Sched) (pending : List Parked) : Owner → Fold → Prop where
  | rootDone {st' : Sched} {r : Value} (hresult : st'.result = some r) :
      Accounts st pending .root (.settled st')
  | detachedDone : Accounts st pending .detached (.settled st)
  | fulfilled {st' : Sched} {pid : Int} (hopen : Unfulfilled st pid)
      (hparked : parked st' pending = parked st pending) (hresult : st'.result = st.result)
      (hcells : ∀ i, Unfulfilled st' i ↔ Unfulfilled st i ∧ i ≠ pid) :
      Accounts st pending (.fulfils pid) (.settled st')
  | waits {st' : Sched} {o : Owner} (hparked : parked st' pending = o ::ₘ parked st pending)
      (hresult : st'.result = st.result) (hcells : ∀ i, Unfulfilled st' i ↔ Unfulfilled st i) :
      Accounts st pending o (.settled st')
  | spawned {st' : Sched} {o : Owner} {starter : Value} {after : Parked}
      (hparked : parked st' (after :: pending) = o ::ₘ parked st pending)
      (hresult : st'.result = st.result) (hcells : ∀ i, Unfulfilled st' i ↔ Unfulfilled st i) :
      Accounts st pending o (.start st' starter .detached after)
  | forked {st' : Sched} {o : Owner} {starter : Value} {after : Parked} {pid : Int}
      (hparked : parked st' (after :: pending) = o ::ₘ parked st pending)
      (hresult : st'.result = st.result) (hnew : ¬ Unfulfilled st pid)
      (hcells : ∀ i, Unfulfilled st' i ↔ Unfulfilled st i ∨ i = pid) :
      Accounts st pending o (.start st' starter (.fulfils pid) after)

theorem unfulfilled_put {st : Sched} {pid : Int} {c : Cell} (i : Int) :
    Unfulfilled { st with cells := putEntry pid c st.cells } i ↔
      (i = pid ∧ ∃ ws, c = .pending ws) ∨ (i ≠ pid ∧ Unfulfilled st i) := by
  unfold Unfulfilled
  rw [lookup_putEntry]
  by_cases hi : i = pid
  · simp [hi]
  · simp [hi]

theorem Folds.accounts {st : Sched} {pending : List Parked} {o : Owner} {v : Value} {fold : Fold}
    (hchans : Keyed st.chans st.nextId) (hcells : Keyed st.cells st.nextId)
    (h : Folds st o v fold) : Accounts st pending o fold := by
  cases h with
  | rootDone => exact .rootDone rfl
  | detachedDone => exact .detachedDone
  | @fulfilled pid v ws hcell =>
      refine .fulfilled ⟨ws, hcell⟩ ?_ rfl ?_
      · have hput := parked_putCell pending (.full v) hcells hcell
        have howners : (ws.map (wake v)).map Parked.owner = ws.map Prod.fst := by
          rw [List.map_map]
          rfl
        simp only [parked, cellFibers, chanFibers, Cell.waiters, List.map_append, List.map_nil,
          ← Multiset.coe_add, howners, Multiset.coe_nil, add_zero] at hput ⊢
        rw [← hput]
        abel
      · intro i
        refine (unfulfilled_put i).trans ?_
        by_cases hi : i = pid <;> simp [hi]
  | yielded => exact .waits (parked_enqueue _) rfl fun _ => .rfl
  | spawned hmint => exact .spawned (parked_after _) rfl fun _ => .rfl
  | forked hmint =>
      have hnone := hcells.lookup_fresh (le_refl _)
      refine .forked ?_ rfl ?_ ?_
      · rw [parked_after, parked_newCell hnone]
        rfl
      · rintro ⟨ws, hws⟩
        rw [hnone] at hws
        cases hws
      · intro i
        refine (unfulfilled_put i).trans ?_
        by_cases hi : i = st.nextId <;> simp [hi]
  | cached hcell => exact .waits (parked_enqueue _) rfl fun _ => .rfl
  | @awaits _ c pid ws hcell =>
      refine .waits ?_ rfl ?_
      · have hput := parked_putCell pending (.pending (ws ++ [(o, c)])) hcells hcell
        simp only [Cell.waiters, List.map_append, ← Multiset.coe_add, ← add_assoc] at hput
        rw [add_right_comm] at hput
        rw [add_right_cancel hput, add_comm]
        rfl
      · intro i
        refine (unfulfilled_put i).trans ?_
        by_cases hi : i = pid
        · simp [hi, Unfulfilled, hcell]
        · simp [hi]
  | opened hmint =>
      have hnone := hchans.lookup_fresh (le_refl _)
      refine .waits ?_ rfl fun _ => .rfl
      rw [parked_enqueue, parked_newChan hnone]
      rfl
  | @handed _ c v cid buf w ws hchan =>
      have hput := parked_putChan pending ⟨buf, ws⟩ hchans hchan
      refine .waits ?_ rfl fun _ => .rfl
      rw [parked_enqueue, parked_enqueue]
      simp only [List.map_cons, ← Multiset.cons_coe, Multiset.add_cons, ← Multiset.cons_add] at hput
      rw [← add_right_cancel hput]
      rfl
  | @buffered _ c v cid buf hchan =>
      have hput := parked_putChan pending ⟨buf ++ [v], []⟩ hchans hchan
      refine .waits ?_ rfl fun _ => .rfl
      rw [parked_enqueue, add_right_cancel hput]
      rfl
  | @received _ c v cid buf ws hchan =>
      have hput := parked_putChan pending ⟨buf, ws⟩ hchans hchan
      refine .waits ?_ rfl fun _ => .rfl
      rw [parked_enqueue, add_right_cancel hput]
      rfl
  | @receives _ c cid ws hchan =>
      have hput := parked_putChan pending ⟨[], ws ++ [(o, c)]⟩ hchans hchan
      refine .waits ?_ rfl fun _ => .rfl
      simp only [List.map_append, ← Multiset.coe_add, ← add_assoc] at hput
      rw [add_right_comm] at hput
      rw [add_right_cancel hput, add_comm]
      rfl

/-- One coroutine is the root's, and each promise that has not been fulfilled has one that
will fulfil it. -/
structure Held (st : Sched) (owners : Multiset Owner) : Prop where
  root : owners.count .root = 1
  unfulfilled : ∀ pid, Unfulfilled st pid → owners.count (.fulfils pid) = 1
  others : ∀ pid, ¬ Unfulfilled st pid → owners.count (.fulfils pid) = 0

theorem Held.congr {st st' : Sched} {owners : Multiset Owner} (h : Held st owners)
    (hcells : ∀ i, Unfulfilled st' i ↔ Unfulfilled st i) : Held st' owners :=
  ⟨h.root, fun i hi => h.unfulfilled i ((hcells i).mp hi),
    fun i hi => h.others i fun hold => hi ((hcells i).mpr hold)⟩

/-- A coroutine that is detached is nobody's. -/
theorem Held.detached {st : Sched} {owners : Multiset Owner} :
    Held st (.detached ::ₘ owners) ↔ Held st owners := by
  have hroot : (Owner.detached ::ₘ owners).count .root = owners.count .root :=
    Multiset.count_cons_of_ne (by simp) _
  have hpid : ∀ pid, (Owner.detached ::ₘ owners).count (.fulfils pid) =
      owners.count (.fulfils pid) := fun pid => Multiset.count_cons_of_ne (by simp) _
  constructor
  · intro h
    exact ⟨hroot ▸ h.root, fun i hi => hpid i ▸ h.unfulfilled i hi,
      fun i hi => hpid i ▸ h.others i hi⟩
  · intro h
    exact ⟨hroot.trans h.root, fun i hi => (hpid i).trans (h.unfulfilled i hi),
      fun i hi => (hpid i).trans (h.others i hi)⟩

/-- The promise that is fulfilled loses its coroutine. -/
theorem Held.fulfilled {st st' : Sched} {pid : Int} {owners : Multiset Owner}
    (h : Held st (.fulfils pid ::ₘ owners))
    (hcells : ∀ i, Unfulfilled st' i ↔ Unfulfilled st i ∧ i ≠ pid) : Held st' owners := by
  have hne : ∀ i, i ≠ pid → (Owner.fulfils pid ::ₘ owners).count (.fulfils i) =
      owners.count (.fulfils i) := fun i hi => Multiset.count_cons_of_ne (by simp [hi]) _
  refine ⟨?_, ?_, ?_⟩
  · rw [← h.root, Multiset.count_cons_of_ne (by simp)]
  · intro i hi
    obtain ⟨hopen, hi⟩ := (hcells i).mp hi
    rw [← hne i hi]
    exact h.unfulfilled i hopen
  · intro i hi
    by_cases hopen : Unfulfilled st i
    · by_cases heq : i = pid
      · have hone := h.unfulfilled i hopen
        rw [heq, Multiset.count_cons_self] at hone
        rw [heq]
        omega
      · exact absurd ((hcells i).mpr ⟨hopen, heq⟩) hi
    · have hzero := h.others i hopen
      rw [Multiset.count_cons] at hzero
      omega

/-- A new promise gets a coroutine of its own. -/
theorem Held.forked {st st' : Sched} {pid : Int} {owners : Multiset Owner} (h : Held st owners)
    (hnew : ¬ Unfulfilled st pid) (hcells : ∀ i, Unfulfilled st' i ↔ Unfulfilled st i ∨ i = pid) :
    Held st' (.fulfils pid ::ₘ owners) := by
  have hne : ∀ i, i ≠ pid → (Owner.fulfils pid ::ₘ owners).count (.fulfils i) =
      owners.count (.fulfils i) := fun i hi => Multiset.count_cons_of_ne (by simp [hi]) _
  refine ⟨?_, ?_, ?_⟩
  · rw [Multiset.count_cons_of_ne (by simp)]
    exact h.root
  · intro i hi
    by_cases heq : i = pid
    · rw [heq, Multiset.count_cons_self, h.others pid hnew]
    · rw [hne i heq]
      exact h.unfulfilled i (((hcells i).mp hi).resolve_right heq)
  · intro i hi
    have heq : i ≠ pid := fun heq => hi ((hcells i).mpr (.inr heq))
    rw [hne i heq]
    exact h.others i fun hopen => hi ((hcells i).mpr (.inl hopen))

/-- What a fold leaves held, while the root has no result. -/
def Held.After (pending : List Parked) : Fold → Prop
  | .settled st' => st'.result = none → Held st' (parked st' pending)
  | .start st' _ o' after => st'.result = none ∧ Held st' (o' ::ₘ parked st' (after :: pending))

theorem Held.fold {st : Sched} {pending : List Parked} {o : Owner} {fold : Fold}
    (h : Held st (o ::ₘ parked st pending)) (hnone : st.result = none)
    (haccounts : Accounts st pending o fold) : Held.After pending fold := by
  cases haccounts with
  | rootDone hresult =>
      intro hnone'
      rw [hresult] at hnone'
      cases hnone'
  | detachedDone => exact fun _ => Held.detached.mp h
  | fulfilled hopen hparked hresult hcells =>
      intro _
      rw [hparked]
      exact h.fulfilled hcells
  | waits hparked hresult hcells =>
      intro _
      rw [hparked]
      exact h.congr hcells
  | spawned hparked hresult hcells =>
      refine ⟨hresult.trans hnone, ?_⟩
      rw [hparked]
      exact Held.detached.mpr (h.congr hcells)
  | forked hparked hresult hnew hcells =>
      refine ⟨hresult.trans hnone, ?_⟩
      rw [hparked]
      exact h.forked hnew hcells

/-- A scheduler that runs holds the coroutine of the root and those of its promises. -/
structure Live (d : Drive) : Prop where
  result : d.st.result = none
  held : Held d.st (d.owner ::ₘ parked d.st d.pending)

theorem Live.supply {d : Drive} (h : Live d) (n : Int) :
    Live ⟨{ d.st with nextId := n }, d.owner, d.pending⟩ :=
  ⟨h.result, h.held.congr fun _ => .rfl⟩

theorem parked_resume {st : Sched} {pending rest : List Parked} {q : Parked}
    (hready : st.ready ++ pending = q :: rest) :
    parked st pending = q.owner ::ₘ parked { st with ready := rest } [] := by
  simp only [parked, hready, List.append_nil, List.map_cons, ← Multiset.cons_coe,
    Multiset.cons_add]
  rfl

/-- A coroutine that has come to a step. -/
theorem Live.accounts {n₀ n : Int} {h : History} {done : List Parked} {d : Drive} {v : Value}
    {fold : Fold} (hrun : Drive.Run n₀ h done d) (hsupply : d.st.nextId ≤ n)
    (hfolds : Folds { d.st with nextId := n } d.owner v fold) :
    Accounts { d.st with nextId := n } d.pending d.owner fold :=
  have hl := (run_ledger hrun).supply hsupply
  hfolds.accounts hl.chans hl.cells

theorem run_live {n₀ : Int} {h : History} {done : List Parked} {d : Drive}
    (hrun : Drive.Run n₀ h done d) : Live d := by
  induction hrun with
  | start =>
      refine ⟨rfl, ?_, ?_, ?_⟩
      · rfl
      · rintro pid ⟨ws, hws⟩
        cases hws
      · intro pid _
        rfl
  | @resumed h done d d' v n p hrun hsupply hnext ih =>
      rcases Drive.next_eq_ok hnext with ⟨st', q, rest, hfolds, hnone, hready, hout⟩ |
        ⟨st', starter, owner', after, -, hout⟩ | ⟨st', r, -, -, hout⟩
      · cases hout
        have haccounts := Live.accounts hrun hsupply hfolds
        have hheld : Held.After d.pending (.settled st') :=
          (ih.supply n).held.fold ih.result haccounts
        refine ⟨hnone, ?_⟩
        have hparked := hheld hnone
        rw [parked_resume hready] at hparked
        exact hparked.congr fun _ => .rfl
      · cases hout
      · cases hout
  | @started h done d d' v n starter hrun hsupply hnext ih =>
      rcases Drive.next_eq_ok hnext with ⟨st', q, rest, -, -, -, hout⟩ |
        ⟨st', starter', owner', after, hfolds, hout⟩ | ⟨st', r, -, -, hout⟩
      · cases hout
      · cases hout
        have haccounts := Live.accounts hrun hsupply hfolds
        obtain ⟨hnone, hheld⟩ : Held.After d.pending (.start st' starter owner' after) :=
          (ih.supply n).held.fold ih.result haccounts
        exact ⟨hnone, hheld⟩
      · cases hout

/-! ### Errors -/

/-- How the messages start that a program can cause. -/
def outerErrors : List String :=
  [ "driveConc: expected a Step, got ", "driveConc: expected a Transport, got ",
    "driveConc: unsupported request: ", "conc: handle id space exhausted",
    "conc: a continuation cannot cross the transport (carrier in ", "conc: promise",
    "conc: channel" ]

/-- How those start that are about the scheduler itself. -/
def innerErrors : List String :=
  [ "driveConc: ready queue drained before root completed",
    "driveConc: promise fulfilled twice: ", "driveConc: fulfil on unknown promise " ]

/-- Neither text is the start of the other. -/
def Apart (a c : String) : Prop := ¬ (a.toList <+: c.toList ∨ c.toList <+: a.toList)

instance (a c : String) : Decidable (Apart a c) := inferInstanceAs (Decidable (¬ _))

theorem Apart.append_ne {a c : String} (h : Apart a c) (b b' : String) : a ++ b ≠ c ++ b' := by
  intro htexts
  have hlists : a.toList ++ b.toList = c.toList ++ b'.toList := by
    rw [← String.toList_append, ← String.toList_append, htexts]
  apply h
  apply List.prefix_or_prefix_of_prefix (List.prefix_append a.toList b.toList)
  rw [hlists]
  exact List.prefix_append _ _

theorem apart_ofList {as cs : List Char} (h : ¬ (as <+: cs ∨ cs <+: as)) :
    Apart (String.ofList as) (String.ofList cs) := by
  rw [Apart, String.toList_ofList, String.toList_ofList]
  exact h

theorem outer_apart : ∀ a ∈ outerErrors, ∀ c ∈ "conc: deadlock" :: innerErrors, Apart a c := by
  intro a ha c hc
  simp only [outerErrors, List.mem_cons, List.not_mem_nil, or_false] at ha
  simp only [innerErrors, List.mem_cons, List.not_mem_nil, or_false] at hc
  rcases ha with rfl | rfl | rfl | rfl | rfl | rfl | rfl <;>
    rcases hc with rfl | rfl | rfl | rfl <;> exact apart_ofList (by decide)

theorem deadlock_apart : ∀ c ∈ innerErrors, Apart "conc: deadlock" c := by
  intro c hc
  simp only [innerErrors, List.mem_cons, List.not_mem_nil, or_false] at hc
  rcases hc with rfl | rfl | rfl <;> exact apart_ofList (by decide)

def Outer (e : RuntimeError) : Prop := ∃ a ∈ outerErrors, ∃ b, e = .primError (a ++ b)

theorem Outer.ne {e : RuntimeError} (h : Outer e) {c : String}
    (hc : c ∈ "conc: deadlock" :: innerErrors) (b : String) : e ≠ .primError (c ++ b) := by
  obtain ⟨a, ha, b', rfl⟩ := h
  intro heq
  exact (outer_apart a ha c hc).append_ne b' b (RuntimeError.primError.inj heq)

/-- The errors of a fold. -/
inductive Faults (st : Sched) : Owner → RuntimeError → Prop where
  | outer {o : Owner} {e : RuntimeError} (houter : Outer e) : Faults st o e
  | twice {pid : Int} {v : Value} (hcell : st.cells.lookup pid = some (.full v)) :
      Faults st (.fulfils pid)
        (.primError ("driveConc: promise fulfilled twice: " ++ toString pid))
  | unknown {pid : Int} (hcell : st.cells.lookup pid = none) :
      Faults st (.fulfils pid)
        (.primError ("driveConc: fulfil on unknown promise " ++ toString pid))

theorem bind_error {ε α β : Type} {x : Except ε α} {f : α → Except ε β} {e : ε}
    (h : (x >>= f) = .error e) : x = .error e ∨ ∃ a, x = .ok a ∧ f a = .error e := by
  cases x with
  | error e' =>
      cases h
      exact .inl rfl
  | ok a => exact .inr ⟨a, rfl, h⟩

theorem unTransport_error {v : Value} {e : RuntimeError} (h : unTransport v = .error e) :
    Outer e := by
  unfold unTransport at h
  split at h
  · cases h
  next other hother =>
    cases h
    exact ⟨"driveConc: expected a Transport, got ", by decide, _, rfl⟩

theorem mint_error {st : Sched} {e : RuntimeError} (h : mint st = .error e) : Outer e := by
  unfold mint at h
  split at h
  · cases h
    exact ⟨"conc: handle id space exhausted", by decide, " for this interpreter entry", rfl⟩
  · cases h

theorem checkNoCont_error {boundary : String} {v : Value} {e : RuntimeError}
    (h : checkNoCont boundary v = .error e) : Outer e := by
  unfold checkNoCont at h
  split at h
  · cases h
    refine ⟨"conc: a continuation cannot cross the transport (carrier in ", by decide,
      boundary ++ ")", ?_⟩
    rw [String.append_assoc]
  · cases h

theorem notOwned_outer {kind : String} (hkind : "conc: " ++ kind ∈ outerErrors) (i : Int) :
    Outer (notOwned kind i) := by
  refine ⟨"conc: " ++ kind, hkind, " not owned by this scheduler (created by another runConc, "
    ++ "or forged): " ++ toString i, ?_⟩
  unfold notOwned
  simp only [String.append_assoc]

theorem fulfil_error {pid : Int} {raw : Value} {st : Sched} {e : RuntimeError}
    (h : fulfil pid raw st = .error e) : Faults st (.fulfils pid) e := by
  rcases bind_error h with h | ⟨v, -, h⟩
  · exact .outer (unTransport_error h)
  rcases bind_error h with h | ⟨-, -, h⟩
  · exact .outer (checkNoCont_error h)
  split at h
  · cases h
  next hcell =>
    cases h
    exact .twice hcell
  next hcell =>
    cases h
    exact .unknown hcell

theorem processRequest_error {o : Owner} {req c : Value} {st : Sched} {e : RuntimeError}
    (h : processRequest o req c st = .error e) : Outer e := by
  unfold processRequest at h
  split at h
  · cases h
  · rcases bind_error h with h | ⟨⟨fid, st1⟩, -, h⟩
    · exact mint_error h
    rcases bind_error h with h | ⟨starter, -, h⟩
    · exact unTransport_error h
    · cases h
  · rcases bind_error h with h | ⟨⟨pid, st1⟩, -, h⟩
    · exact mint_error h
    rcases bind_error h with h | ⟨starter, -, h⟩
    · exact unTransport_error h
    · cases h
  · split at h
    · cases h
    · cases h
    · cases h
      exact notOwned_outer (by decide) _
  · rcases bind_error h with h | ⟨⟨cid, st1⟩, -, h⟩
    · exact mint_error h
    · cases h
  · rcases bind_error h with h | ⟨v, -, h⟩
    · exact unTransport_error h
    rcases bind_error h with h | ⟨-, -, h⟩
    · exact checkNoCont_error h
    split at h
    · cases h
    · cases h
    · cases h
      exact notOwned_outer (by decide) _
  · split at h
    · cases h
    · cases h
    · cases h
      exact notOwned_outer (by decide) _
  · cases h
    exact ⟨"driveConc: unsupported request: ", by decide, _, rfl⟩

theorem processStep_error {o : Owner} {step : Value} {st : Sched} {e : RuntimeError}
    (h : processStep o step st = .error e) : Faults st o e := by
  unfold processStep at h
  split at h
  · split at h
    · cases h
    · cases h
    · rcases bind_error h with h | ⟨st', -, h⟩
      · exact fulfil_error h
      · cases h
  · exact .outer (processRequest_error h)
  · cases h
    exact .outer ⟨"driveConc: expected a Step, got ", by decide, _, rfl⟩

/-- The coroutine that runs has its promise, if it has one, still to fulfil. -/
theorem Live.outer {d : Drive} (hlive : Live d) {e : RuntimeError} (h : Faults d.st d.owner e) :
    Outer e := by
  have hopen : ∀ pid, d.owner = .fulfils pid → Unfulfilled d.st pid := by
    intro pid howner
    by_contra hclosed
    have hzero := hlive.held.others pid hclosed
    rw [howner, Multiset.count_cons_self] at hzero
    omega
  generalize howner : d.owner = o at h
  cases h with
  | outer houter => exact houter
  | twice hcell =>
      obtain ⟨ws, hws⟩ := hopen _ howner
      rw [hcell] at hws
      cases hws
  | unknown hcell =>
      obtain ⟨ws, hws⟩ := hopen _ howner
      rw [hcell] at hws
      cases hws

/-- Where no coroutine is ready, the root's one waits for a promise or a channel. -/
theorem Held.waits {st : Sched} {pending : List Parked} (h : Held st (parked st pending))
    (hnone : st.ready ++ pending = []) :
    (st.cells.any (fun c => c.2.isPending) || st.chans.any (fun c => !c.2.waiters.isEmpty)) =
      true := by
  have hroot : Owner.root ∈ parked st pending := by
    rw [← Multiset.count_pos, h.root]
    exact one_pos
  simp only [parked, hnone, List.map_nil, Multiset.coe_nil, zero_add, Multiset.mem_add,
    Multiset.mem_coe, List.mem_map, chanFibers, cellFibers, List.mem_flatMap] at hroot
  rw [Bool.or_eq_true, List.any_eq_true, List.any_eq_true]
  rcases hroot with ⟨w, ⟨e, he, hw⟩, -⟩ | ⟨w, ⟨e, he, hw⟩, -⟩
  · refine .inr ⟨e, he, ?_⟩
    cases hws : e.2.waiters with
    | nil =>
        rw [hws] at hw
        cases hw
    | cons => rfl
  · refine .inl ⟨e, he, ?_⟩
    cases hc : e.2 with
    | pending ws => rfl
    | full v =>
        rw [hc] at hw
        cases hw

/-- What a scheduler that runs may fail with. -/
theorem Drive.next_error {n₀ n : Int} {h : History} {done : List Parked} {d : Drive} {v : Value}
    (hrun : Drive.Run n₀ h done d) (hsupply : d.st.nextId ≤ n) {e : RuntimeError}
    (herror : d.next v n = .error e) :
    (Outer e ∧ ¬ d.Stalls v n) ∨ (e = .primError "conc: deadlock" ∧ d.Stalls v n) := by
  have hlive := (run_live hrun).supply n
  unfold Drive.next at herror
  rcases bind_error herror with hfold | ⟨fold, hfold, herror⟩
  · refine .inl ⟨hlive.outer (processStep_error hfold), ?_⟩
    rintro ⟨st', hsettled, -⟩
    rw [hfold] at hsettled
    cases hsettled
  · cases fold with
    | start st' starter owner' after => cases herror
    | settled st' =>
        rcases bind_error herror with hloop | ⟨next, hloop, herror⟩
        · rw [enqueueAll_ready] at hloop
          unfold schedLoop at hloop
          split at hloop
          · cases hloop
          next hnone =>
            split at hloop
            next hready =>
              have hfolds := Live.accounts hrun hsupply (processStep_folds hfold)
              have hheld : Held.After d.pending (.settled st') :=
                hlive.held.fold hlive.result hfolds
              have hwaits := (hheld hnone).waits hready
              simp only [hwaits, if_true] at hloop
              cases hloop
              exact .inr ⟨rfl, st', hfold, hnone, hready⟩
            · cases hloop
        · cases next <;> cases herror

theorem Drive.next_of_stalls {n₀ n : Int} {h : History} {done : List Parked} {d : Drive}
    {v : Value} (hrun : Drive.Run n₀ h done d) (hsupply : d.st.nextId ≤ n)
    (hstalls : d.Stalls v n) : d.next v n = .error (.primError "conc: deadlock") := by
  cases hnext : d.next v n with
  | error e =>
      rcases Drive.next_error hrun hsupply hnext with ⟨-, hnot⟩ | ⟨rfl, -⟩
      · exact absurd hstalls hnot
      · rfl
  | ok out =>
      obtain ⟨st', hfold, hnone, hready⟩ := hstalls
      obtain ⟨fold, hfold', hcont⟩ := bind_ok hnext
      rw [hfold] at hfold'
      cases hfold'
      obtain ⟨next, hloop, -⟩ := bind_ok hcont
      rw [enqueueAll_ready] at hloop
      rcases schedLoop_eq_ok hloop with ⟨r, hresult, -⟩ | ⟨p, rest, -, hrest, -⟩
      · exact absurd (hnone.symm.trans hresult) (by simp)
      · exact absurd (hready.symm.trans hrest) (by simp)

/-- The step of a program in which a scheduler folds. -/
theorem step_driving {p : Program} {s : State} {v : Value} {d : Drive} {extra : List Value}
    {k : Kont} {rest : List HostFrame} (hcfg : s.cfg = .ret v [])
    (hhost : s.host = .driving d.st d.owner d.pending extra k :: rest) (e : RuntimeError) :
    p.system.step s = .inr (.error e) ↔ d.next v s.nextId = .error e := by
  obtain ⟨cfg, nextId, installs, consts, host⟩ := s
  cases hcfg
  cases hhost
  simp only [Program.system, Program.systemBy, Program.stepBy, finish_driving]
  cases d.next v nextId with
  | ok out => simp [Except.map]
  | error e' => simp [Except.map]

/-- The errors that a run's schedulers report. -/
theorem reports_of_aligned {p : Program} {s : State} {es : List DriveLog}
    (haligned : Aligned s.nextId s.host es) {v : Value} {d : Drive} {extra : List Value} {k : Kont}
    {rest : List HostFrame} (hcfg : s.cfg = .ret v [])
    (hhost : s.host = .driving d.st d.owner d.pending extra k :: rest) :
    Reports d v s.nextId (p.system.step s) := by
  rw [hhost] at haligned
  cases haligned with
  | driving hsupply hrun hrest =>
      have hnot : ∀ c ∈ innerErrors, ∀ b,
          p.system.step s ≠ .inr (.error (.primError (c ++ b))) := by
        intro c hc b hstep
        rw [step_driving hcfg hhost] at hstep
        rcases Drive.next_error hrun hsupply hstep with ⟨houter, -⟩ | ⟨hdead, -⟩
        · exact houter.ne (List.mem_cons_of_mem _ hc) b rfl
        · exact (deadlock_apart c hc).append_ne "" b (RuntimeError.primError.inj hdead).symm
      constructor
      · exact hnot "driveConc: ready queue drained before root completed" (by decide) ""
      · exact fun pid => hnot "driveConc: promise fulfilled twice: " (by decide) (toString pid)
      · exact fun pid => hnot "driveConc: fulfil on unknown promise " (by decide) (toString pid)
      · rw [step_driving hcfg hhost]
        constructor
        · intro hdead
          rcases Drive.next_error hrun hsupply hdead with ⟨houter, -⟩ | ⟨-, hstalls⟩
          · exact absurd rfl (houter.ne List.mem_cons_self "")
          · exact hstalls
        · exact Drive.next_of_stalls hrun hsupply

end Wok.Interp
