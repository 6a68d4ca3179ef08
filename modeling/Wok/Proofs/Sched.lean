/-
Module: Wok.Proofs.Sched
Purpose: A scheduler keeps order in every run: each step is one of a few moves of values
  and coroutines, and none of them loses, doubles or reorders any.
Imports: Mathlib.Algebra.Order.Group.Multiset, Mathlib.Tactic.Abel, Wok.Spec.Sched
Trusted boundary: none
Main exports: Folds, processStep_folds, Ledger, Ledger.fold, run_orderly
-/
import Mathlib.Algebra.Order.Group.Multiset
import Mathlib.Tactic.Abel
import Wok.Spec.Sched

namespace Wok.Interp

open Wok.IR (Lit)
open Wok.Lib.Rendezvous

/-! ### What a step does -/

/-- What folding a step of `owner` does to a scheduler. -/
inductive Folds (st : Sched) : Owner → Value → Fold → Prop where
  | rootDone {r : Value} :
      Folds st .root (.con "Completed" [r]) (.settled { st with result := some r })
  | detachedDone {r : Value} : Folds st .detached (.con "Completed" [r]) (.settled st)
  | fulfilled {pid : Int} {v : Value} {ws : List Fiber}
      (hcell : st.cells.lookup pid = some (.pending ws)) :
      Folds st (.fulfils pid) (.con "Completed" [transport v])
        (.settled { st with
          cells := putEntry pid (.full v) st.cells, ready := st.ready ++ ws.map (wake v) })
  | yielded {o : Owner} {c : Value} :
      Folds st o (.con "Suspended" [.con "ReqYield" [], c])
        (.settled (enqueue (wake (.lit .unit) (o, c)) st))
  | spawned {o : Owner} {c starter : Value} (hmint : (st.nextId + 1) % idRegionBound ≠ 0) :
      Folds st o (.con "Suspended" [.con "ReqSpawn" [transport starter], c])
        (.start { st with nextId := st.nextId + 1 } starter .detached
          (wake (.lit (.int st.nextId)) (o, c)))
  | forked {o : Owner} {c starter : Value} (hmint : (st.nextId + 1) % idRegionBound ≠ 0) :
      Folds st o (.con "Suspended" [.con "ReqAsync" [transport starter], c])
        (.start { st with
            nextId := st.nextId + 1, cells := putEntry st.nextId (.pending []) st.cells }
          starter (.fulfils st.nextId) (wake (.lit (.int st.nextId)) (o, c)))
  | cached {o : Owner} {c v : Value} {pid : Int}
      (hcell : st.cells.lookup pid = some (.full v)) :
      Folds st o (.con "Suspended" [.con "ReqAwait" [.lit (.int pid)], c])
        (.settled (enqueue (wake v (o, c)) st))
  | awaits {o : Owner} {c : Value} {pid : Int} {ws : List Fiber}
      (hcell : st.cells.lookup pid = some (.pending ws)) :
      Folds st o (.con "Suspended" [.con "ReqAwait" [.lit (.int pid)], c])
        (.settled { st with cells := putEntry pid (.pending (ws ++ [(o, c)])) st.cells })
  | opened {o : Owner} {c : Value} (hmint : (st.nextId + 1) % idRegionBound ≠ 0) :
      Folds st o (.con "Suspended" [.con "ReqNewChan" [], c])
        (.settled (enqueue (wake (.lit (.int st.nextId)) (o, c))
          { st with
            nextId := st.nextId + 1, chans := putEntry st.nextId ⟨[], []⟩ st.chans }))
  | handed {o : Owner} {c v : Value} {cid : Int} {buf : List Value} {w : Fiber}
      {ws : List Fiber} (hchan : st.chans.lookup cid = some ⟨buf, w :: ws⟩) :
      Folds st o (.con "Suspended" [.con "ReqSend" [.lit (.int cid), transport v], c])
        (.settled (enqueue (wake (.lit .unit) (o, c)) (enqueue (wake v w)
          { st with chans := putEntry cid ⟨buf, ws⟩ st.chans })))
  | buffered {o : Owner} {c v : Value} {cid : Int} {buf : List Value}
      (hchan : st.chans.lookup cid = some ⟨buf, []⟩) :
      Folds st o (.con "Suspended" [.con "ReqSend" [.lit (.int cid), transport v], c])
        (.settled (enqueue (wake (.lit .unit) (o, c))
          { st with chans := putEntry cid ⟨buf ++ [v], []⟩ st.chans }))
  | received {o : Owner} {c v : Value} {cid : Int} {buf : List Value} {ws : List Fiber}
      (hchan : st.chans.lookup cid = some ⟨v :: buf, ws⟩) :
      Folds st o (.con "Suspended" [.con "ReqRecv" [.lit (.int cid)], c])
        (.settled (enqueue (wake v (o, c))
          { st with chans := putEntry cid ⟨buf, ws⟩ st.chans }))
  | receives {o : Owner} {c : Value} {cid : Int} {ws : List Fiber}
      (hchan : st.chans.lookup cid = some ⟨[], ws⟩) :
      Folds st o (.con "Suspended" [.con "ReqRecv" [.lit (.int cid)], c])
        (.settled { st with chans := putEntry cid ⟨[], ws ++ [(o, c)]⟩ st.chans })

theorem unTransport_eq_ok {v w : Value} (h : unTransport v = .ok w) : v = transport w := by
  unfold unTransport at h
  split at h
  · cases h
    rfl
  · cases h

theorem mint_eq_ok {st st' : Sched} {i : Int} (h : mint st = .ok (i, st')) :
    (st.nextId + 1) % idRegionBound ≠ 0 ∧ i = st.nextId ∧
      st' = { st with nextId := st.nextId + 1 } := by
  unfold mint at h
  split at h
  · cases h
  next hmint =>
    cases h
    exact ⟨hmint, rfl, rfl⟩

theorem fulfil_eq_ok {pid : Int} {raw : Value} {st st' : Sched} (h : fulfil pid raw st = .ok st') :
    ∃ v ws, raw = transport v ∧ st.cells.lookup pid = some (.pending ws) ∧
      st' = { st with
        cells := putEntry pid (.full v) st.cells, ready := st.ready ++ ws.map (wake v) } := by
  obtain ⟨v, hv, h1⟩ := bind_ok h
  obtain ⟨-, -, h2⟩ := bind_ok h1
  split at h2
  next ws hcell =>
    cases h2
    exact ⟨v, ws, unTransport_eq_ok hv, hcell, rfl⟩
  · cases h2
  · cases h2

theorem processRequest_folds {o : Owner} {req c : Value} {st : Sched} {fold : Fold}
    (h : processRequest o req c st = .ok fold) : Folds st o (.con "Suspended" [req, c]) fold := by
  unfold processRequest at h
  split at h
  · cases h
    exact .yielded
  next starterT =>
    obtain ⟨⟨fid, st1⟩, hmint, h1⟩ := bind_ok h
    obtain ⟨starter, hstarter, h2⟩ := bind_ok h1
    obtain ⟨hbound, rfl, rfl⟩ := mint_eq_ok hmint
    cases h2
    rw [unTransport_eq_ok hstarter]
    exact .spawned hbound
  next starterT =>
    obtain ⟨⟨pid, st1⟩, hmint, h1⟩ := bind_ok h
    obtain ⟨starter, hstarter, h2⟩ := bind_ok h1
    obtain ⟨hbound, rfl, rfl⟩ := mint_eq_ok hmint
    cases h2
    rw [unTransport_eq_ok hstarter]
    exact .forked hbound
  next pid =>
    split at h
    next v hcell =>
      cases h
      exact .cached hcell
    next ws hcell =>
      cases h
      exact .awaits hcell
    · cases h
  · obtain ⟨⟨cid, st1⟩, hmint, h1⟩ := bind_ok h
    obtain ⟨hbound, rfl, rfl⟩ := mint_eq_ok hmint
    cases h1
    exact .opened hbound
  next cid msg =>
    obtain ⟨v, hv, h1⟩ := bind_ok h
    obtain ⟨-, -, h2⟩ := bind_ok h1
    rw [unTransport_eq_ok hv]
    split at h2
    next hchan =>
      cases h2
      exact .handed hchan
    next hchan =>
      cases h2
      exact .buffered hchan
    · cases h2
  next cid =>
    split at h
    next hchan =>
      cases h
      exact .received hchan
    next hchan =>
      cases h
      exact .receives hchan
    · cases h
  · cases h

theorem processStep_folds {o : Owner} {step : Value} {st : Sched} {fold : Fold}
    (h : processStep o step st = .ok fold) : Folds st o step fold := by
  unfold processStep at h
  split at h
  · split at h
    · cases h
      exact .rootDone
    · cases h
      exact .detachedDone
    · obtain ⟨st', hst', h1⟩ := bind_ok h
      obtain ⟨v, ws, rfl, hcell, rfl⟩ := fulfil_eq_ok hst'
      cases h1
      exact .fulfilled hcell
  · exact processRequest_folds h
  · cases h

/-! ### Maps -/

section Maps

variable {α : Type} {m : List (Int × α)} {key : Int} {a b : α}

/-- The keys are each there once, and below the bound. -/
structure Keyed (m : List (Int × α)) (bound : Int) : Prop where
  nodup : (m.map (·.1)).Nodup
  fresh : ∀ e ∈ m, e.1 < bound

/-- The entries of other keys. -/
def others (key : Int) (m : List (Int × α)) : List (Int × α) := m.filter fun e => e.1 ≠ key

theorem mem_others {e : Int × α} : e ∈ others key m ↔ e ∈ m ∧ e.1 ≠ key := by
  rw [others, List.mem_filter, decide_eq_true_eq]

theorem putEntry_eq (a : α) : putEntry key a m = (key, a) :: others key m := rfl

theorem lookup_others {k : Int} (hk : k ≠ key) : (others key m).lookup k = m.lookup k := by
  induction m with
  | nil => rfl
  | cons e m ih =>
      by_cases he : e.1 = key
      · have hke : (k == e.1) = false := by
          rw [he]
          exact beq_eq_false_iff_ne.mpr hk
        rw [List.lookup_cons, hke, ← ih, others, List.filter_cons_of_neg (by simpa using he)]
        rfl
      · rw [others, List.filter_cons_of_pos (by simpa using he), List.lookup_cons, List.lookup_cons]
        cases k == e.1 with
        | true => rfl
        | false => exact ih

theorem lookup_putEntry (k : Int) :
    (putEntry key a m).lookup k = if k = key then some a else m.lookup k := by
  rw [putEntry_eq, List.lookup_cons]
  by_cases hk : k = key
  · simp [hk]
  · rw [beq_eq_false_iff_ne.mpr hk, if_neg hk]
    exact lookup_others hk

theorem others_eq_self (h : m.lookup key = none) : others key m = m := by
  rw [others, List.filter_eq_self]
  intro e he
  have hne := List.lookup_eq_none_iff.mp h e he
  exact decide_eq_true fun heq => by simp [heq] at hne

theorem perm_others {bound : Int} (hm : Keyed m bound) (h : m.lookup key = some b) :
    m.Perm ((key, b) :: others key m) := by
  obtain ⟨pre, post, rfl, hpre⟩ := List.lookup_eq_some_iff.mp h
  have hnodup := hm.nodup
  rw [List.map_append, List.map_cons, List.nodup_append, List.nodup_cons] at hnodup
  have hothers : others key (pre ++ (key, b) :: post) = pre ++ post := by
    rw [others, List.filter_append, List.filter_cons_of_neg (by simp)]
    congr 1
    · rw [List.filter_eq_self]
      intro e he
      have hne := hpre e he
      exact decide_eq_true fun heq => by simp [heq] at hne
    · rw [List.filter_eq_self]
      intro e he
      apply decide_eq_true
      intro heq
      exact hnodup.2.1.1 (List.mem_map.mpr ⟨e, he, heq⟩)
  rw [hothers]
  exact List.perm_middle

theorem Keyed.put {bound bound' : Int} (hm : Keyed m bound) (hkey : key < bound')
    (hle : bound ≤ bound') : Keyed (putEntry key a m) bound' := by
  constructor
  · rw [putEntry_eq, List.map_cons, List.nodup_cons]
    refine ⟨?_, ?_⟩
    · intro hin
      obtain ⟨e, he, heq⟩ := List.mem_map.mp hin
      exact (mem_others.mp he).2 heq
    · exact hm.nodup.sublist (List.filter_sublist.map _)
  · intro e he
    rcases List.mem_cons.mp he with rfl | he
    · exact hkey
    · exact lt_of_lt_of_le (hm.fresh e (mem_others.mp he).1) hle

theorem Keyed.lookup_fresh {bound : Int} (hm : Keyed m bound) (hkey : bound ≤ key) :
    m.lookup key = none := by
  rw [List.lookup_eq_none_iff]
  intro e he
  have hlt := hm.fresh e he
  have hne : key ≠ e.1 := by omega
  simpa using hne

theorem Keyed.lookup_lt {bound : Int} (hm : Keyed m bound) (h : m.lookup key = some b) :
    key < bound := by
  obtain ⟨pre, post, rfl, -⟩ := List.lookup_eq_some_iff.mp h
  exact hm.fresh (key, b) (List.mem_append_right _ List.mem_cons_self)

theorem Keyed.lookup_of_mem {bound : Int} {e : Int × α} (hm : Keyed m bound) (he : e ∈ m) :
    m.lookup e.1 = some e.2 := by
  obtain ⟨pre, post, rfl⟩ := List.append_of_mem he
  have hnodup := hm.nodup
  rw [List.map_append, List.map_cons, List.nodup_append] at hnodup
  rw [List.lookup_eq_some_iff]
  refine ⟨pre, post, rfl, ?_⟩
  intro e' he'
  have hne := hnodup.2.2 e'.1 (List.mem_map_of_mem he') e.1 List.mem_cons_self
  exact bne_iff_ne.mpr hne.symm

theorem Keyed.mono {bound bound' : Int} (hm : Keyed m bound) (hle : bound ≤ bound') :
    Keyed m bound' :=
  ⟨hm.nodup, fun e he => lt_of_lt_of_le (hm.fresh e he) hle⟩

/-- What hangs on the entries, apart from one of them. -/
theorem flatMap_split {β : Type} {bound : Int} (hm : Keyed m bound) (h : m.lookup key = some b)
    (g : Int × α → List β) :
    (↑(m.flatMap g) : Multiset β) = ↑(g (key, b)) + ↑((others key m).flatMap g) := by
  rw [Multiset.coe_add, Multiset.coe_eq_coe, ← List.flatMap_cons]
  exact (perm_others hm h).flatMap_right g

theorem flatMap_others {β : Type} {g g' : Int × α → List β} (hsame : ∀ e, e.1 ≠ key → g' e = g e) :
    (others key m).flatMap g' = (others key m).flatMap g := by
  apply List.flatMap_congr
  intro e he
  exact hsame e (mem_others.mp he).2

end Maps

/-! ### The ledger -/

/-- All that has been asked of a scheduler is accounted for; `woken` are the coroutines that
have been made ready. -/
structure Ledger (h : History) (woken : List Parked) (st : Sched) : Prop where
  chans : Keyed st.chans st.nextId
  cells : Keyed st.cells st.nextId
  channel : ∀ cid ch, st.chans.lookup cid = some ch →
    ch.buffer = unpaired (h.sent cid) (h.asked cid) ∧
      ch.waiters = unpaired (h.asked cid) (h.sent cid)
  noChannel : ∀ cid, st.chans.lookup cid = none → h.sent cid = [] ∧ h.asked cid = []
  promise : ∀ pid ws, st.cells.lookup pid = some (.pending ws) → ws = h.awaited pid
  noPromise : ∀ pid, st.cells.lookup pid = none → h.awaited pid = []
  suspended : (↑h.suspended : Multiset Fiber) =
    ↑h.acked + ↑(st.chans.flatMap fun e => h.asked e.1) +
      ↑(st.cells.flatMap fun e => h.awaited e.1)
  delivered : ∃ acks : List Parked, (↑(acks.map Parked.fiber) : Multiset Fiber) = ↑h.acked ∧
    (∀ a ∈ acks, ∃ l, a.resumeVal = transport (.lit l)) ∧
    (↑woken : Multiset Parked) =
      ↑acks + ↑(st.chans.flatMap fun e => deliveries h e.1) + ↑(st.cells.flatMap (answers h))

namespace Ledger

variable {h h' : History} {woken : List Parked} {st : Sched} {w : Fiber}

theorem supply (hl : Ledger h woken st) {n : Int} (hn : st.nextId ≤ n) :
    Ledger h woken { st with nextId := n } :=
  { hl with chans := hl.chans.mono hn, cells := hl.cells.mono hn }

/-- A coroutine that is acknowledged is made ready at once. -/
theorem ack (hl : Ledger h woken st) (l : Lit) :
    Ledger { h with suspended := h.suspended ++ [w], acked := h.acked ++ [w] }
      (woken ++ [wake (.lit l) w]) st := by
  obtain ⟨acks, hacks, hlit, hwoken⟩ := hl.delivered
  refine { hl with suspended := ?_, delivered := ⟨acks ++ [wake (.lit l) w], ?_, ?_, ?_⟩ }
  · simp only [← Multiset.coe_add, hl.suspended]
    abel
  · rw [List.map_append, ← Multiset.coe_add, ← Multiset.coe_add, hacks]
    rfl
  · intro a ha
    rcases List.mem_append.mp ha with ha | ha
    · exact hlit a ha
    · rw [List.mem_singleton.mp ha]
      exact ⟨l, rfl⟩
  · have hgoal : ∀ x y z t : Multiset Parked, x + y + z + t = x + t + y + z := by
      intro x y z t
      abel
    rw [← Multiset.coe_add, ← Multiset.coe_add, hwoken]
    exact hgoal _ _ _ _

/-- A move on one channel: `new` has asked to receive, `given` are made ready. -/
theorem onChan {cid : Int} {ch ch' : ChanState} (new : List Fiber) {given : List Parked}
    (hl : Ledger h woken st) (hch : st.chans.lookup cid = some ch)
    (hsent : ∀ i, i ≠ cid → h'.sent i = h.sent i)
    (hasked : ∀ i, i ≠ cid → h'.asked i = h.asked i) (hawaited : h'.awaited = h.awaited)
    (hacked : h'.acked = h.acked) (hsuspended : h'.suspended = h.suspended ++ new)
    (hnew : h'.asked cid = h.asked cid ++ new)
    (hbuffer : ch'.buffer = unpaired (h'.sent cid) (h'.asked cid))
    (hwaiters : ch'.waiters = unpaired (h'.asked cid) (h'.sent cid))
    (hgiven : deliveries h' cid = deliveries h cid ++ given) :
    Ledger h' (woken ++ given) { st with chans := putEntry cid ch' st.chans } := by
  have hdeliveries : ∀ i, i ≠ cid → deliveries h' i = deliveries h i := by
    intro i hi
    rw [deliveries, deliveries, hsent i hi, hasked i hi]
  have hanswers : answers h' = answers h := by
    funext e
    rw [answers, answers, hawaited]
  obtain ⟨acks, hacks, hlit, hwoken⟩ := hl.delivered
  constructor
  · exact hl.chans.put (hl.chans.lookup_lt hch) (le_refl _)
  · exact hl.cells
  · intro i c hi
    rw [lookup_putEntry] at hi
    split at hi
    next heq =>
      cases hi
      rw [heq]
      exact ⟨hbuffer, hwaiters⟩
    next hne =>
      rw [hsent i hne, hasked i hne]
      exact hl.channel i c hi
  · intro i hi
    rw [lookup_putEntry] at hi
    split at hi
    next => cases hi
    next hne =>
      rw [hsent i hne, hasked i hne]
      exact hl.noChannel i hi
  · rw [hawaited]
    exact hl.promise
  · rw [hawaited]
    exact hl.noPromise
  · have hold := hl.suspended
    rw [flatMap_split hl.chans hch] at hold
    rw [hsuspended, hacked, hawaited, putEntry_eq, List.flatMap_cons,
      flatMap_others fun e he => hasked e.1 he, hnew, ← Multiset.coe_add, ← Multiset.coe_add,
      ← Multiset.coe_add, hold]
    abel
  · refine ⟨acks, by rw [hacked]; exact hacks, hlit, ?_⟩
    rw [flatMap_split hl.chans hch] at hwoken
    rw [hanswers, putEntry_eq, List.flatMap_cons,
      flatMap_others fun e he => hdeliveries e.1 he, hgiven, ← Multiset.coe_add,
      ← Multiset.coe_add, ← Multiset.coe_add, hwoken]
    abel

theorem addTo_self {α : Type} (i : Int) (a : α) (f : Int → List α) :
    addTo i a f i = f i ++ [a] :=
  Function.update_self i _ f

theorem addTo_ne {α : Type} {i j : Int} (hj : j ≠ i) (a : α) (f : Int → List α) :
    addTo i a f j = f j :=
  Function.update_of_ne hj _ f

/-- A value that is sent while a receiver waits goes to the one that has waited longest. -/
theorem handed {cid : Int} {buf : List Value} {ws : List Fiber} (hl : Ledger h woken st)
    (hch : st.chans.lookup cid = some ⟨buf, w :: ws⟩) (v : Value) :
    Ledger { h with sent := addTo cid v h.sent } (woken ++ [wake v w])
      { st with chans := putEntry cid ⟨buf, ws⟩ st.chans } := by
  obtain ⟨hbuf, hws⟩ := hl.channel cid _ hch
  obtain ⟨hleft, hright, hpairs⟩ := pairs_met (f := fun w v => wake v w) hws.symm v
  have hempty : buf = [] := by
    rcases unpaired_or (h.sent cid) (h.asked cid) with hnone | hnone
    · exact hbuf.trans hnone
    · rw [hnone] at hws
      cases hws
  apply onChan [] hl hch
  · exact fun i hi => addTo_ne hi v h.sent
  · exact fun _ _ => rfl
  · rfl
  · rfl
  · exact (List.append_nil _).symm
  · exact (List.append_nil _).symm
  · simp only [addTo_self]
    rw [hright]
    exact hempty
  · simp only [addTo_self]
    exact hleft.symm
  · rw [deliveries, deliveries]
    simp only [addTo_self]
    exact hpairs

/-- A value that is sent while no receiver waits goes to the end of the buffer. -/
theorem buffered {cid : Int} {buf : List Value} (hl : Ledger h woken st)
    (hch : st.chans.lookup cid = some ⟨buf, []⟩) (v : Value) :
    Ledger { h with sent := addTo cid v h.sent } woken
      { st with chans := putEntry cid ⟨buf ++ [v], []⟩ st.chans } := by
  obtain ⟨hbuf, hws⟩ := hl.channel cid _ hch
  obtain ⟨hleft, hright, hpairs⟩ := pairs_waits (f := fun w v => wake v w) hws.symm v
  rw [← List.append_nil woken]
  apply onChan [] hl hch
  · exact fun i hi => addTo_ne hi v h.sent
  · exact fun _ _ => rfl
  · rfl
  · rfl
  · exact (List.append_nil _).symm
  · exact (List.append_nil _).symm
  · simp only [addTo_self]
    rw [hright, ← hbuf]
  · simp only [addTo_self]
    exact hleft.symm
  · rw [deliveries, deliveries, List.append_nil]
    simp only [addTo_self]
    exact hpairs

/-- A receiver gets the value that has been in the buffer longest. -/
theorem received {cid : Int} {v : Value} {buf : List Value} {ws : List Fiber}
    (hl : Ledger h woken st) (hch : st.chans.lookup cid = some ⟨v :: buf, ws⟩) (w : Fiber) :
    Ledger { h with suspended := h.suspended ++ [w], asked := addTo cid w h.asked }
      (woken ++ [wake v w]) { st with chans := putEntry cid ⟨buf, ws⟩ st.chans } := by
  obtain ⟨hbuf, hws⟩ := hl.channel cid _ hch
  obtain ⟨hleft, hright, hpairs⟩ := pairs_met (f := fun v w => wake v w) hbuf.symm w
  have hempty : ws = [] := by
    rcases unpaired_or (h.sent cid) (h.asked cid) with hnone | hnone
    · rw [hnone] at hbuf
      cases hbuf
    · exact hws.trans hnone
  apply onChan [w] hl hch
  · exact fun _ _ => rfl
  · exact fun i hi => addTo_ne hi w h.asked
  · rfl
  · rfl
  · rfl
  · exact addTo_self cid w h.asked
  · simp only [addTo_self]
    exact hleft.symm
  · simp only [addTo_self]
    rw [hright]
    exact hempty
  · rw [deliveries, deliveries, pairs_comm, pairs_comm (h.asked cid)]
    simp only [addTo_self]
    exact hpairs

/-- A receiver for whom nothing is buffered waits behind the others. -/
theorem receives {cid : Int} {ws : List Fiber} (hl : Ledger h woken st)
    (hch : st.chans.lookup cid = some ⟨[], ws⟩) (w : Fiber) :
    Ledger { h with suspended := h.suspended ++ [w], asked := addTo cid w h.asked } woken
      { st with chans := putEntry cid ⟨[], ws ++ [w]⟩ st.chans } := by
  obtain ⟨hbuf, hws⟩ := hl.channel cid _ hch
  obtain ⟨hleft, hright, hpairs⟩ := pairs_waits (f := fun v w => wake v w) hbuf.symm w
  rw [← List.append_nil woken]
  apply onChan [w] hl hch
  · exact fun _ _ => rfl
  · exact fun i hi => addTo_ne hi w h.asked
  · rfl
  · rfl
  · rfl
  · exact addTo_self cid w h.asked
  · simp only [addTo_self]
    exact hleft.symm
  · simp only [addTo_self]
    rw [hright, ← hws]
  · rw [deliveries, deliveries, List.append_nil, pairs_comm, pairs_comm (h.asked cid)]
    simp only [addTo_self]
    exact hpairs

/-- A new channel, of which nothing has been asked. -/
theorem opened (hl : Ledger h woken st) :
    Ledger h woken { st with
      nextId := st.nextId + 1, chans := putEntry st.nextId ⟨[], []⟩ st.chans } := by
  have hnew := hl.chans.lookup_fresh (le_refl st.nextId)
  obtain ⟨hsent, hasked⟩ := hl.noChannel _ hnew
  have hdeliveries : deliveries h st.nextId = [] := by
    rw [deliveries, hsent, hasked]
    rfl
  obtain ⟨acks, hacks, hlit, hwoken⟩ := hl.delivered
  constructor
  · exact hl.chans.put (by simp) (by simp)
  · exact hl.cells.mono (by simp)
  · intro i c hi
    rw [lookup_putEntry] at hi
    split at hi
    next heq =>
      cases hi
      rw [heq, hsent, hasked]
      exact ⟨rfl, rfl⟩
    next => exact hl.channel i c hi
  · intro i hi
    rw [lookup_putEntry] at hi
    split at hi
    next => cases hi
    next => exact hl.noChannel i hi
  · exact hl.promise
  · exact hl.noPromise
  · rw [putEntry_eq, others_eq_self hnew, List.flatMap_cons, hasked, List.nil_append]
    exact hl.suspended
  · refine ⟨acks, hacks, hlit, ?_⟩
    rw [putEntry_eq, others_eq_self hnew, List.flatMap_cons, hdeliveries, List.nil_append]
    exact hwoken

/-- The promise `pid` is `c` now and `c'` then, and the others stay. -/
structure CellMove (st : Sched) (pid : Int) (c' : Cell) (cells' : List (Int × Cell)) : Prop where
  keyed : Keyed cells' st.nextId
  lookup : ∀ i, cells'.lookup i = if i = pid then some c' else st.cells.lookup i
  perm : cells'.Perm ((pid, c') :: others pid st.cells)

theorem cellMove_put {pid : Int} {c : Cell} (hl : Ledger h woken st)
    (hc : st.cells.lookup pid = some c) (c' : Cell) :
    CellMove st pid c' (putEntry pid c' st.cells) :=
  ⟨hl.cells.put (hl.cells.lookup_lt hc) (le_refl _), lookup_putEntry, List.Perm.refl _⟩

theorem cellMove_same {pid : Int} {c : Cell} (hl : Ledger h woken st)
    (hc : st.cells.lookup pid = some c) : CellMove st pid c st.cells := by
  refine ⟨hl.cells, ?_, perm_others hl.cells hc⟩
  intro i
  split
  next heq =>
    rw [heq]
    exact hc
  next => rfl

/-- A move on one promise: `new` has asked for it, `given` are made ready. -/
theorem onCell {pid : Int} {c c' : Cell} {cells' : List (Int × Cell)} (new : List Fiber)
    {given : List Parked} (hl : Ledger h woken st) (hc : st.cells.lookup pid = some c)
    (hmove : CellMove st pid c' cells') (hsent : h'.sent = h.sent) (hasked : h'.asked = h.asked)
    (hacked : h'.acked = h.acked) (hawaited : ∀ i, i ≠ pid → h'.awaited i = h.awaited i)
    (hsuspended : h'.suspended = h.suspended ++ new)
    (hnew : h'.awaited pid = h.awaited pid ++ new)
    (hpending : ∀ ws, c' = .pending ws → ws = h'.awaited pid)
    (hgiven : answers h' (pid, c') = answers h (pid, c) ++ given) :
    Ledger h' (woken ++ given) { st with cells := cells' } := by
  have hdeliveries : deliveries h' = deliveries h := by
    funext i
    rw [deliveries, deliveries, hsent, hasked]
  have hanswers : ∀ e : Int × Cell, e.1 ≠ pid → answers h' e = answers h e := by
    intro e he
    rw [answers, answers, hawaited e.1 he]
  have hperm : ∀ {β : Type} (g : Int × Cell → List β), (↑(cells'.flatMap g) : Multiset β) =
      ↑(g (pid, c')) + ↑((others pid st.cells).flatMap g) := by
    intro β g
    rw [Multiset.coe_add, Multiset.coe_eq_coe, ← List.flatMap_cons]
    exact hmove.perm.flatMap_right g
  obtain ⟨acks, hacks, hlit, hwoken⟩ := hl.delivered
  constructor
  · exact hl.chans
  · exact hmove.keyed
  · rw [hsent, hasked]
    exact hl.channel
  · rw [hsent, hasked]
    exact hl.noChannel
  · intro i ws hi
    rw [hmove.lookup] at hi
    split at hi
    next heq =>
      rw [heq]
      exact hpending ws (Option.some.inj hi)
    next hne =>
      rw [hawaited i hne]
      exact hl.promise i ws hi
  · intro i hi
    rw [hmove.lookup] at hi
    split at hi
    next => cases hi
    next hne =>
      rw [hawaited i hne]
      exact hl.noPromise i hi
  · have hold := hl.suspended
    rw [flatMap_split hl.cells hc] at hold
    rw [hsuspended, hacked, hasked, hperm, flatMap_others fun e he => hawaited e.1 he, hnew,
      ← Multiset.coe_add, ← Multiset.coe_add, hold]
    abel
  · refine ⟨acks, by rw [hacked]; exact hacks, hlit, ?_⟩
    rw [flatMap_split hl.cells hc] at hwoken
    rw [hdeliveries, hperm, flatMap_others hanswers, hgiven, ← Multiset.coe_add,
      ← Multiset.coe_add, hwoken]
    abel

/-- One who asks for a promise that is fulfilled gets its value at once. -/
theorem cached {pid : Int} {v : Value} (hl : Ledger h woken st)
    (hc : st.cells.lookup pid = some (.full v)) (w : Fiber) :
    Ledger { h with suspended := h.suspended ++ [w], awaited := addTo pid w h.awaited }
      (woken ++ [wake v w]) st := by
  apply onCell [w] hl hc (hl.cellMove_same hc)
  · rfl
  · rfl
  · rfl
  · exact fun i hi => addTo_ne hi w h.awaited
  · rfl
  · exact addTo_self pid w h.awaited
  · exact fun ws hws => nomatch hws
  · simp only [answers, addTo_self, List.map_append]
    rfl

/-- One who asks for a promise that is not fulfilled waits behind the others. -/
theorem awaits {pid : Int} {ws : List Fiber} (hl : Ledger h woken st)
    (hc : st.cells.lookup pid = some (.pending ws)) (w : Fiber) :
    Ledger { h with suspended := h.suspended ++ [w], awaited := addTo pid w h.awaited } woken
      { st with cells := putEntry pid (.pending (ws ++ [w])) st.cells } := by
  rw [← List.append_nil woken]
  apply onCell [w] hl hc (hl.cellMove_put hc _)
  · rfl
  · rfl
  · rfl
  · exact fun i hi => addTo_ne hi w h.awaited
  · rfl
  · exact addTo_self pid w h.awaited
  · intro ws' hws'
    cases hws'
    simp only [addTo_self]
    rw [hl.promise pid ws hc]
  · rfl

/-- A promise that is fulfilled makes all ready who wait for it. -/
theorem fulfilled {pid : Int} {ws : List Fiber} (hl : Ledger h woken st)
    (hc : st.cells.lookup pid = some (.pending ws)) (v : Value) :
    Ledger h (woken ++ ws.map (wake v))
      { st with cells := putEntry pid (.full v) st.cells } := by
  apply onCell [] hl hc (hl.cellMove_put hc _)
  · rfl
  · rfl
  · rfl
  · exact fun _ _ => rfl
  · exact (List.append_nil _).symm
  · exact (List.append_nil _).symm
  · exact fun ws hws => nomatch hws
  · rw [hl.promise pid ws hc]
    rfl

/-- A new promise, for which nobody has asked. -/
theorem forked (hl : Ledger h woken st) :
    Ledger h woken { st with
      nextId := st.nextId + 1, cells := putEntry st.nextId (.pending []) st.cells } := by
  have hnew := hl.cells.lookup_fresh (le_refl st.nextId)
  have hawaited := hl.noPromise _ hnew
  obtain ⟨acks, hacks, hlit, hwoken⟩ := hl.delivered
  constructor
  · exact hl.chans.mono (by simp)
  · exact hl.cells.put (by simp) (by simp)
  · exact hl.channel
  · exact hl.noChannel
  · intro i ws hi
    rw [lookup_putEntry] at hi
    split at hi
    next heq =>
      cases hi
      rw [heq, hawaited]
    next => exact hl.promise i ws hi
  · intro i hi
    rw [lookup_putEntry] at hi
    split at hi
    next => cases hi
    next => exact hl.noPromise i hi
  · rw [putEntry_eq, others_eq_self hnew, List.flatMap_cons, hawaited, List.nil_append]
    exact hl.suspended
  · refine ⟨acks, hacks, hlit, ?_⟩
    rw [putEntry_eq, others_eq_self hnew, List.flatMap_cons]
    exact hwoken

/-- The ledger is about the channels, the promises and who has been made ready, not in what
order. -/
theorem congr {woken' : List Parked} {st' : Sched} (hl : Ledger h woken st)
    (hperm : woken.Perm woken') (hchans : st'.chans = st.chans) (hcells : st'.cells = st.cells)
    (hnext : st'.nextId = st.nextId) : Ledger h woken' st' := by
  obtain ⟨acks, hacks, hlit, hwoken⟩ := hl.delivered
  constructor
  · rw [hchans, hnext]
    exact hl.chans
  · rw [hcells, hnext]
    exact hl.cells
  · rw [hchans]
    exact hl.channel
  · rw [hchans]
    exact hl.noChannel
  · rw [hcells]
    exact hl.promise
  · rw [hcells]
    exact hl.noPromise
  · rw [hchans, hcells]
    exact hl.suspended
  · refine ⟨acks, hacks, hlit, ?_⟩
    rw [hchans, hcells, ← hwoken]
    exact (Multiset.coe_eq_coe.mpr hperm).symm

end Ledger

theorem perm_ready (done ready pending new : List Parked) :
    (done ++ ready ++ pending ++ new).Perm (done ++ (ready ++ new) ++ pending) := by
  rw [← Multiset.coe_eq_coe]
  simp only [← Multiset.coe_add]
  abel

theorem perm_pending (done ready pending : List Parked) (p : Parked) :
    (done ++ ready ++ pending ++ [p]).Perm (done ++ ready ++ p :: pending) := by
  rw [List.append_assoc (done ++ ready)]
  exact (List.perm_append_singleton p pending).append_left _

/-- What a fold leaves accounted for. -/
def Ledger.After (h : History) (done pending : List Parked) : Fold → Prop
  | .settled st => Ledger h (done ++ st.ready ++ pending) st
  | .start st _ _ after => Ledger h (done ++ st.ready ++ after :: pending) st

/-- Folding a step keeps the ledger. -/
theorem Ledger.fold {h : History} {done pending : List Parked} {st : Sched} {o : Owner}
    {v : Value} {fold : Fold} (hfold : Folds st o v fold)
    (hl : Ledger h (done ++ st.ready ++ pending) st) :
    Ledger.After (h.note o v) done pending fold := by
  cases hfold with
  | rootDone => exact hl.congr (.refl _) rfl rfl rfl
  | detachedDone => exact hl
  | fulfilled hcell => exact (hl.fulfilled hcell _).congr (perm_ready ..) rfl rfl rfl
  | yielded => exact (hl.ack .unit).congr (perm_ready ..) rfl rfl rfl
  | spawned hmint =>
      have hsupply := hl.supply (Int.le_add_one (le_refl st.nextId))
      exact (hsupply.ack (.int st.nextId)).congr (perm_pending ..) rfl rfl rfl
  | forked hmint =>
      exact (hl.forked.ack (.int st.nextId)).congr (perm_pending ..) rfl rfl rfl
  | cached hcell => exact (hl.cached hcell _).congr (perm_ready ..) rfl rfl rfl
  | awaits hcell => exact (hl.awaits hcell _).congr (.refl _) rfl rfl rfl
  | opened hmint => exact (hl.opened.ack _).congr (perm_ready ..) rfl rfl rfl
  | @handed _ _ v cid buf w ws hchan =>
      have hhanded : Ledger _ (done ++ (st.ready ++ [wake v w]) ++ pending)
          { st with chans := putEntry cid ⟨buf, ws⟩ st.chans } :=
        (hl.handed hchan v).congr (perm_ready ..) rfl rfl rfl
      exact (hhanded.ack .unit).congr (perm_ready ..) rfl rfl rfl
  | buffered hchan => exact ((hl.buffered hchan _).ack _).congr (perm_ready ..) rfl rfl rfl
  | received hchan => exact (hl.received hchan _).congr (perm_ready ..) rfl rfl rfl
  | receives hchan => exact (hl.receives hchan _).congr (.refl _) rfl rfl rfl

/-! ### Runs -/

theorem enqueueAll_ready (pending : List Parked) (st : Sched) :
    pending.foldl (fun q p => enqueue p q) st = { st with ready := st.ready ++ pending } := by
  induction pending generalizing st with
  | nil => simp
  | cons p pending ih =>
      rw [List.foldl_cons, ih]
      simp [enqueue]

theorem schedLoop_eq_ok {st : Sched} {next : Next} (h : schedLoop st = .ok next) :
    (∃ r, st.result = some r ∧ next = .finished r st.nextId) ∨
      ∃ p rest, st.result = none ∧ st.ready = p :: rest ∧
        next = .resume p { st with ready := rest } := by
  unfold schedLoop at h
  split at h
  next r hresult =>
    cases h
    exact .inl ⟨r, hresult, rfl⟩
  next hresult =>
    split at h
    · split at h
      · cases h
      · cases h
    next p rest hready =>
      cases h
      exact .inr ⟨p, rest, hresult, hready, rfl⟩

/-- The moves of a scheduler: a step has been folded, and then the oldest ready coroutine
is resumed, a child is started, or the root's result is there. -/
theorem Drive.next_eq_ok {d : Drive} {v : Value} {n : Int} {out : Drive.Outcome}
    (h : d.next v n = .ok out) :
    (∃ st' p rest, Folds { d.st with nextId := n } d.owner v (.settled st') ∧
        st'.result = none ∧ st'.ready ++ d.pending = p :: rest ∧
        out = .resumed p ⟨{ st' with ready := rest }, p.owner, []⟩) ∨
      (∃ st' starter owner' after,
        Folds { d.st with nextId := n } d.owner v (.start st' starter owner' after) ∧
        out = .started starter ⟨st', owner', after :: d.pending⟩) ∨
      ∃ st' r, Folds { d.st with nextId := n } d.owner v (.settled st') ∧
        st'.result = some r ∧ out = .finished r st'.nextId := by
  unfold Drive.next at h
  obtain ⟨fold, hfold, h1⟩ := bind_ok h
  have hfolds := processStep_folds hfold
  cases fold with
  | start st' starter owner' after =>
      cases h1
      exact .inr (.inl ⟨st', starter, owner', after, hfolds, rfl⟩)
  | settled st' =>
      obtain ⟨next, hnext, h2⟩ := bind_ok h1
      rw [enqueueAll_ready] at hnext
      rcases schedLoop_eq_ok hnext with ⟨r, hresult, rfl⟩ | ⟨p, rest, hresult, hready, rfl⟩
      · cases h2
        exact .inr (.inr ⟨st', r, hfolds, hresult, rfl⟩)
      · cases h2
        exact .inl ⟨st', p, rest, hfolds, hresult, hready, rfl⟩

theorem ledger_start (n₀ : Int) : Ledger .empty [] ⟨n₀, [], [], [], none⟩ := by
  constructor
  · exact ⟨List.nodup_nil, List.forall_mem_nil _⟩
  · exact ⟨List.nodup_nil, List.forall_mem_nil _⟩
  · exact fun _ _ h => nomatch h
  · exact fun _ _ => ⟨rfl, rfl⟩
  · exact fun _ _ h => nomatch h
  · exact fun _ _ => rfl
  · rfl
  · exact ⟨[], rfl, List.forall_mem_nil _, rfl⟩

/-- The ledger of a run. -/
theorem run_ledger {n₀ : Int} {h : History} {done : List Parked} {d : Drive}
    (hrun : Drive.Run n₀ h done d) : Ledger h (done ++ d.st.ready ++ d.pending) d.st := by
  induction hrun with
  | start => exact ledger_start n₀
  | @resumed h done d d' v n p hrun hsupply hnext ih =>
      rcases Drive.next_eq_ok hnext with ⟨st', q, rest, hfolds, -, hready, hout⟩ |
        ⟨st', starter, owner', after, -, hout⟩ | ⟨st', r, -, -, hout⟩
      · cases hout
        have hsettled : Ledger _ (done ++ st'.ready ++ d.pending) st' :=
          Ledger.fold hfolds (ih.supply hsupply)
        have hsame : done ++ st'.ready ++ d.pending = done ++ [p] ++ rest ++ [] := by
          rw [List.append_assoc, hready, List.append_nil, List.append_assoc]
          rfl
        exact hsettled.congr (.of_eq hsame) rfl rfl rfl
      · cases hout
      · cases hout
  | @started h done d d' v n starter hrun hsupply hnext ih =>
      rcases Drive.next_eq_ok hnext with ⟨st', q, rest, -, -, -, hout⟩ |
        ⟨st', starter', owner', after, hfolds, hout⟩ | ⟨st', r, -, -, hout⟩
      · cases hout
      · cases hout
        exact Ledger.fold hfolds (ih.supply hsupply)
      · cases hout

/-- Who has asked to receive has been given a value or waits on the channel. -/
theorem asked_perm {h : History} {woken : List Parked} {st : Sched} (hl : Ledger h woken st) :
    (st.chans.flatMap fun e => h.asked e.1).Perm
      ((st.chans.flatMap fun e => deliveries h e.1).map Parked.fiber ++ chanFibers st) := by
  have hsame : ∀ e ∈ st.chans,
      (deliveries h e.1).map Parked.fiber ++ e.2.waiters = h.asked e.1 := by
    intro e he
    obtain ⟨-, hws⟩ := hl.channel e.1 e.2 (hl.chans.lookup_of_mem he)
    have hpairs := map_pairs (f := fun w v => wake v w) (g := Parked.fiber) (h := id)
      (fun _ _ => rfl) (h.asked e.1) (h.sent e.1)
    rw [List.map_id, List.map_id] at hpairs
    rw [hws]
    exact hpairs
  rw [List.map_flatMap, ← List.flatMap_congr hsame]
  exact (List.flatMap_append_perm ..).symm

/-- Who has asked for a promise has been given its value or waits for it. -/
theorem awaited_perm {h : History} {woken : List Parked} {st : Sched} (hl : Ledger h woken st) :
    (st.cells.flatMap fun e => h.awaited e.1).Perm
      ((st.cells.flatMap (answers h)).map Parked.fiber ++ cellFibers st) := by
  have hsame : ∀ e ∈ st.cells,
      (answers h e).map Parked.fiber ++ e.2.waiters = h.awaited e.1 := by
    rintro ⟨pid, c⟩ he
    have hc := hl.cells.lookup_of_mem he
    cases c with
    | pending ws => exact hl.promise pid ws hc
    | full v =>
        have hfiber : Parked.fiber ∘ wake v = id := rfl
        simp [answers, Cell.waiters, hfiber]
  rw [List.map_flatMap, ← List.flatMap_congr hsame]
  exact (List.flatMap_append_perm ..).symm

/-- A scheduler keeps order in every run. -/
theorem run_orderly {n₀ : Int} {h : History} {done : List Parked} {d : Drive}
    (hrun : Drive.Run n₀ h done d) : Orderly h done d := by
  have hl := run_ledger hrun
  have hfifo : ∀ cid ch, d.st.chans.lookup cid = some ch →
      ch.buffer = unpaired (h.sent cid) (h.asked cid) ∧
        ch.waiters = unpaired (h.asked cid) (h.sent cid) := hl.channel
  obtain ⟨acks, hacks, hlit, hwoken⟩ := hl.delivered
  refine ⟨hfifo, ?_, ?_, ⟨acks, Multiset.coe_eq_coe.mp hacks, hlit, ?_⟩⟩
  · intro cid ch hch
    obtain ⟨hbuf, hws⟩ := hfifo cid ch hch
    rw [hbuf, hws]
    exact unpaired_or _ _
  · have hasked := Multiset.coe_eq_coe.mpr (asked_perm hl)
    have hawaited := Multiset.coe_eq_coe.mpr (awaited_perm hl)
    have hfibers := congrArg (Multiset.map Parked.fiber) hwoken
    simp only [Multiset.map_add, Multiset.map_coe, hacks] at hfibers
    rw [← Multiset.coe_eq_coe, hl.suspended, hasked, hawaited]
    simp only [← Multiset.coe_add]
    rw [hfibers]
    abel
  · rw [← Multiset.coe_eq_coe, ← Multiset.coe_add, ← Multiset.coe_add]
    exact hwoken

end Wok.Interp
