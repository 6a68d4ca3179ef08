/-
Module: Wok.Proofs.Handles
Purpose: A handle is minted once in a run: each run under way mints in a region of its own,
  in front of all that has been minted there.
Imports: Wok.Proofs.Owners
Trusted boundary: none
Main exports: DemandsUnforced, Supplied, Numbered, accounted_of_reach, schedulers_sound
-/
import Wok.Proofs.Owners

namespace Wok.Interp

open Wok.IR
open Wok.Lib (System)

/-! ### The constants that a step demands -/

/-- What a computation demands has not been forced. -/
def DemandsUnforced {α : Type} (G : Globals) (x : Eff α) : Prop :=
  ∀ u, x = .error (.force u) → G u = some .unforced

namespace DemandsUnforced

variable {α β : Type} {G : Globals} {prims : PrimTable} {sc : Scope}

theorem ok (a : α) : DemandsUnforced G (.ok a) := fun _ h => nomatch h

theorem fails (e : RuntimeError) : DemandsUnforced G (fail e : Eff α) := fun _ h => nomatch h

theorem bind {x : Eff α} {f : α → Eff β} (hx : DemandsUnforced G x)
    (hf : ∀ a, DemandsUnforced G (f a)) : DemandsUnforced G (x >>= f) := by
  intro u h
  rcases bind_error h with h | ⟨a, -, h⟩
  · exact hx u h
  · exact hf a u h

theorem lifted (x : Except RuntimeError α) : DemandsUnforced G (liftError x) := by
  cases x with
  | ok a => exact ok a
  | error e => exact fails e

theorem resolveAtom (a : Atom) : DemandsUnforced G (resolveAtom prims G sc a) := by
  intro u h
  unfold Interp.resolveAtom at h
  split at h
  · cases h
  · split at h <;> cases h
  · split at h
    · cases h
    · split at h
      · cases h
      next hglobal =>
        cases h
        exact hglobal
      · cases h

theorem resolveAtoms (as : List Atom) : DemandsUnforced G (resolveAtoms prims G sc as) := by
  unfold Interp.resolveAtoms
  induction as with
  | nil => exact ok []
  | cons a as ih =>
      rw [List.mapM_cons]
      exact bind (resolveAtom a) fun v => bind ih fun vs => ok (v :: vs)

theorem resolveTarget (inst : Option Atom) :
    DemandsUnforced G (resolveTarget prims G sc inst) := by
  cases inst with
  | none => exact ok none
  | some a =>
      refine bind (resolveAtom a) fun v => ?_
      split
      · exact ok _
      · exact fails _

theorem matchAlts (v : Value) (k : Kont) (alts : List Alt) :
    DemandsUnforced G (matchAlts v sc k alts) := by
  induction alts with
  | nil => exact fails _
  | cons alt alts ih =>
      cases alt with
      | con c bs e =>
          unfold Interp.matchAlts
          split
          · split
            · exact ok _
            · exact ih
          · exact ih
      | lit l e =>
          unfold Interp.matchAlts
          split
          · split
            · exact ok _
            · exact ih
          · exact ih
      | default e => exact ok _

theorem dispatchOp (target : Target) (label op : String) (vs : List Value) (k : Kont) :
    DemandsUnforced G (dispatchOp target label op vs k) := by
  unfold Interp.dispatchOp
  split
  · exact fails _
  · split
    · exact fails _
    · exact ok _

theorem enter (f : Value) (args : List Value) (k : Kont) :
    DemandsUnforced G (enter prims f args k) := by
  unfold Interp.enter
  split
  · split
    · exact ok _
    · split
      · exact ok _
      · exact ok _
  · split
    · exact fails _
    · dsimp only
      split
      · exact ok _
      · split
        · exact fails _
        · split
          · exact ok _
          · exact ok _
        · exact ok _
        · exact ok _
  · split
    · exact ok _
    · exact fails _
  · split
    · exact ok _
    · exact fails _
  · exact fails _

theorem evalRhs (b : Binder) (rhs : Rhs) (body : Expr) (k : Kont) :
    DemandsUnforced G (evalRhs prims G b rhs body sc k) := by
  cases rhs with
  | atom a => exact bind (resolveAtom a) fun v => ok _
  | app f as =>
      exact bind (resolveAtom f) fun fv => bind (resolveAtoms as) fun vs => enter fv vs _
  | con c as => exact bind (resolveAtoms as) fun vs => ok _
  | lam ps e => exact ok _
  | op inst label op as =>
      exact bind (resolveAtoms as) fun vs => bind (resolveTarget inst) fun target =>
        bind (dispatchOp _ label op vs _) fun c => ok _
  | record t fields => exact bind (resolveAtoms _) fun vs => ok _
  | proj l a =>
      refine bind (resolveAtom a) fun v => ?_
      split
      · split
        · exact ok _
        · exact fails _
      · exact fails _
  | makeHandler h => exact ok _
  | reuseCon token tag args => exact fails _
  | foreignCall lib sym as =>
      exact bind (resolveAtoms as) fun vs => bind (lifted _) fun v => ok _

theorem evalExpr (serial : Nat) (e : Expr) (k : Kont) :
    DemandsUnforced G (evalExpr prims G serial e sc k) := by
  cases e with
  | ret a => exact bind (resolveAtom a) fun v => ok _
  | let_ b rhs body => exact evalRhs b rhs body k
  | letRec defs body => exact ok _
  | case_ a alts => exact bind (resolveAtom a) fun v => bind (matchAlts v k alts) fun c => ok _
  | letJoin j ps jbody body => exact ok _
  | jump j args =>
      refine bind (resolveAtoms args) fun vs => ?_
      split
      · exact fails _
      · split
        · exact fails _
        · exact ok _
  | handle body h => exact ok _
  | installHandler a self body =>
      refine bind (resolveAtom a) fun v => ?_
      split
      · exact ok _
      · exact fails _

theorem transition (serial : Nat) (c : Config) :
    DemandsUnforced G (transition prims G serial c) := by
  cases c with
  | eval e sc k => exact evalExpr serial e k
  | ret v k =>
      cases k with
      | nil => exact fails _
      | cons fr k =>
          cases fr with
          | let_ b body sc => exact ok _
          | app args => exact enter v args k
          | handle h act sc => exact ok _
  | apply f args k => exact enter f args k

end DemandsUnforced

theorem unforced {p : Program} {consts : List (Unique × Value)} {u : Unique}
    (h : p.globals consts u = some .unforced) : u ∈ p.cafUniqs ∧ consts.lookup u = none := by
  unfold Program.globals at h
  split at h
  · cases h
  next tb hbind =>
    split at h
    next hparams =>
      split at h
      · cases h
      next hnone =>
        have hmem := List.mem_of_find?_eq_some hbind
        have huniq := List.find?_some hbind
        rw [List.mem_reverse] at hmem
        rw [decide_eq_true_eq] at huniq
        refine ⟨List.mem_map.mpr ⟨tb, List.mem_filter.mpr ⟨hmem, hparams⟩, huniq⟩, hnone⟩
    · cases h

/-! ### Regions -/

/-- The region a run mints in: that of a constant, or of `main`. -/
def seed (p : Program) : Option Unique → Int
  | none => 0
  | some u => p.cafSeed u

/-- The handle is of the region. -/
def InRegion (p : Program) (o : Option Unique) (i : Int) : Prop :=
  seed p o ≤ i ∧ i < seed p o + idRegionBound

/-- A region belongs to `main` or to a constant of the module. -/
def IsRegion (p : Program) (o : Option Unique) : Prop := ∀ u, o = some u → u ∈ p.cafUniqs

theorem cafSeed_eq {p : Program} {u : Unique} (hu : u ∈ p.cafUniqs) :
    ∃ n : Nat, p.cafSeed u = (n + 1 : Nat) * idRegionBound ∧ p.cafUniqs[n]? = some u := by
  unfold Program.cafSeed
  split
  next ui hfind =>
    have hmem := List.mem_of_find?_eq_some hfind
    have hui := List.find?_some hfind
    rw [List.mem_reverse, List.mem_zipIdx_iff_le_and_getElem?_sub] at hmem
    rw [decide_eq_true_eq] at hui
    obtain ⟨hle, hget⟩ := hmem
    refine ⟨ui.2 - 1, ?_, hui ▸ hget⟩
    rw [Nat.sub_add_cancel hle]
  next hnone =>
    obtain ⟨n, hn⟩ := List.mem_iff_getElem?.mp hu
    have hmem : (u, 1 + n) ∈ p.cafUniqs.zipIdx 1 := List.mk_add_mem_zipIdx_iff_getElem?.mpr hn
    have hnot := List.find?_eq_none.mp hnone _ (List.mem_reverse.mpr hmem)
    simp at hnot

/-- The regions of a module are apart. -/
theorem region_unique {p : Program} {o o' : Option Unique} {i : Int} (ho : IsRegion p o)
    (ho' : IsRegion p o') (hi : InRegion p o i) (hi' : InRegion p o' i) : o = o' := by
  obtain ⟨hlow, hhigh⟩ := hi
  obtain ⟨hlow', hhigh'⟩ := hi'
  cases o with
  | none =>
      cases o' with
      | none => rfl
      | some u' =>
          obtain ⟨n', hn', -⟩ := cafSeed_eq (ho' u' rfl)
          simp only [seed, hn', idRegionBound] at *
          omega
  | some u =>
      obtain ⟨n, hn, hget⟩ := cafSeed_eq (ho u rfl)
      cases o' with
      | none =>
          simp only [seed, hn, idRegionBound] at *
          omega
      | some u' =>
          obtain ⟨n', hn', hget'⟩ := cafSeed_eq (ho' u' rfl)
          simp only [seed, hn, hn', idRegionBound] at hlow hhigh hlow' hhigh'
          have hsame : n = n' := by omega
          rw [hsame, hget'] at hget
          exact congrArg some (Option.some.inj hget.symm)

/-- A region ends where the next one starts, so that minting stays in it. -/
theorem InRegion.mint {p : Program} {o : Option Unique} {n : Int} (ho : IsRegion p o)
    (hn : InRegion p o n) (hmint : (n + 1) % idRegionBound ≠ 0) : InRegion p o (n + 1) := by
  obtain ⟨hlow, hhigh⟩ := hn
  have hseed : ∃ k : Nat, seed p o = k * idRegionBound := by
    cases o with
    | none => exact ⟨0, by simp [seed]⟩
    | some u =>
        obtain ⟨k, hk, -⟩ := cafSeed_eq (ho u rfl)
        exact ⟨k + 1, hk⟩
  obtain ⟨k, hk⟩ := hseed
  unfold InRegion
  rw [hk] at hlow hhigh ⊢
  unfold idRegionBound at *
  omega

theorem inRegion_seed (p : Program) (o : Option Unique) : InRegion p o (seed p o) := by
  unfold InRegion idRegionBound
  omega

/-! ### Supplies -/

/-- The region that the run under way mints in. -/
def region : List HostFrame → Option Unique
  | [] => none
  | .driving .. :: rest => region rest
  | .forcing u _ _ :: _ => some u

/-- The regions and supplies of the runs that wait for a constant. -/
def outer : List HostFrame → List (Option Unique × Int)
  | [] => []
  | .driving .. :: rest => outer rest
  | .forcing _ _ m :: rest => (region rest, m) :: outer rest

/-- All regions in use, with their supplies. -/
def supplies (n : Int) (host : List HostFrame) : List (Option Unique × Int) :=
  (region host, n) :: outer host

/-- Each region in use has one supply; a handle that has been minted is behind the supply
of its region, or its region is that of a constant that is known. -/
structure Supplied (p : Program) (n : Int) (host : List HostFrame)
    (consts : List (Unique × Value)) (ids : List Int) : Prop where
  regions : ((supplies n host).map Prod.fst).Nodup
  supply : ∀ e ∈ supplies n host, InRegion p e.1 e.2
  demanded : ∀ e ∈ supplies n host, ∀ u, e.1 = some u → u ∈ p.cafUniqs ∧ consts.lookup u = none
  minted : ∀ i ∈ ids, ∃ o, IsRegion p o ∧ InRegion p o i ∧
    ((∃ m, (o, m) ∈ supplies n host ∧ i < m) ∨ ∃ u, o = some u ∧ (consts.lookup u).isSome)
  distinct : ids.Nodup

namespace Supplied

variable {p : Program} {n : Int} {host : List HostFrame} {consts : List (Unique × Value)}
  {ids : List Int}

theorem isRegion (h : Supplied p n host consts ids) {e : Option Unique × Int}
    (he : e ∈ supplies n host) : IsRegion p e.1 :=
  fun u hu => (h.demanded e he u hu).1

/-- A scheduler mints in the region of the run that has started it. -/
theorem driving {st : Sched} {owner : Owner} {pending : List Parked} {extra : List Value}
    {k : Kont} : Supplied p n (.driving st owner pending extra k :: host) consts ids ↔
      Supplied p n host consts ids :=
  ⟨fun h => ⟨h.regions, h.supply, h.demanded, h.minted, h.distinct⟩,
    fun h => ⟨h.regions, h.supply, h.demanded, h.minted, h.distinct⟩⟩

/-- The next handle of the run under way is new. -/
theorem fresh (h : Supplied p n host consts ids) : n ∉ ids := by
  intro hn
  have hhead : (region host, n) ∈ supplies n host := List.mem_cons_self
  obtain ⟨o, ho, hin, hwhere⟩ := h.minted n hn
  have hsame : o = region host :=
    region_unique ho (h.isRegion hhead) hin (h.supply _ hhead)
  rcases hwhere with ⟨m, hm, hlt⟩ | ⟨u, hu, hknown⟩
  · rw [hsame] at hm
    rcases List.mem_cons.mp hm with heq | htail
    · cases heq
      omega
    · have hregions := h.regions
      rw [supplies, List.map_cons, List.nodup_cons] at hregions
      exact hregions.1 (List.mem_map.mpr ⟨_, htail, rfl⟩)
  · obtain ⟨-, hnone⟩ := h.demanded _ hhead u (hsame.symm.trans hu)
    rw [hnone] at hknown
    cases hknown

theorem mint (h : Supplied p n host consts ids) (hmint : (n + 1) % idRegionBound ≠ 0) :
    Supplied p (n + 1) host consts (ids ++ [n]) := by
  have hhead : (region host, n) ∈ supplies n host := List.mem_cons_self
  have hnext : InRegion p (region host) (n + 1) := (h.supply _ hhead).mint (h.isRegion hhead) hmint
  obtain ⟨hregion, houter⟩ := List.forall_mem_cons.mp h.supply
  obtain ⟨hdemanded, houterDemanded⟩ := List.forall_mem_cons.mp h.demanded
  refine ⟨h.regions, List.forall_mem_cons.mpr ⟨hnext, houter⟩,
    List.forall_mem_cons.mpr ⟨hdemanded, houterDemanded⟩, ?_, ?_⟩
  · intro i hi
    rcases List.mem_append.mp hi with hi | hi
    · obtain ⟨o, ho, hin, hwhere⟩ := h.minted i hi
      refine ⟨o, ho, hin, hwhere.imp_left ?_⟩
      rintro ⟨m, hm, hlt⟩
      rcases List.mem_cons.mp hm with heq | htail
      · cases heq
        exact ⟨n + 1, List.mem_cons_self, by omega⟩
      · exact ⟨m, List.mem_cons_of_mem _ htail, hlt⟩
    · rw [List.mem_singleton.mp hi]
      exact ⟨region host, h.isRegion hhead, h.supply _ hhead,
        .inl ⟨n + 1, List.mem_cons_self, by omega⟩⟩
  · rw [List.nodup_append]
    refine ⟨h.distinct, List.nodup_singleton n, ?_⟩
    intro i hi j hj heq
    rw [List.mem_singleton.mp hj] at heq
    rw [heq] at hi
    exact h.fresh hi

/-- A constant is demanded that is not known and not being forced. -/
theorem demand (h : Supplied p n host consts ids) {u : Unique} {saved : Config}
    (hu : u ∈ p.cafUniqs) (hnone : consts.lookup u = none)
    (hnew : some u ∉ (supplies n host).map Prod.fst) :
    Supplied p (p.cafSeed u) (.forcing u saved n :: host) consts ids := by
  refine ⟨List.nodup_cons.mpr ⟨hnew, h.regions⟩,
    List.forall_mem_cons.mpr ⟨inRegion_seed p (some u), h.supply⟩,
    List.forall_mem_cons.mpr ⟨?_, h.demanded⟩, ?_, h.distinct⟩
  · intro w hw
    cases hw
    exact ⟨hu, hnone⟩
  · intro i hi
    obtain ⟨o, ho, hin, hwhere⟩ := h.minted i hi
    refine ⟨o, ho, hin, hwhere.imp_left ?_⟩
    rintro ⟨m, hm, hlt⟩
    exact ⟨m, List.mem_cons_of_mem _ hm, hlt⟩

/-- A constant that has been forced is known. -/
theorem forced {u : Unique} {v : Value} {saved : Config} {m : Int}
    (h : Supplied p n (.forcing u saved m :: host) consts ids) :
    Supplied p m host ((u, v) :: consts) ids := by
  have hregions := h.regions
  rw [supplies, List.map_cons, List.nodup_cons] at hregions
  obtain ⟨hnot, hregions⟩ := hregions
  obtain ⟨-, hsupply⟩ := List.forall_mem_cons.mp h.supply
  obtain ⟨-, hdemanded⟩ := List.forall_mem_cons.mp h.demanded
  refine ⟨hregions, hsupply, ?_, ?_, h.distinct⟩
  · intro e he w hw
    obtain ⟨hcaf, hnone⟩ := hdemanded e he w hw
    refine ⟨hcaf, ?_⟩
    have hne : w ≠ u := by
      intro heq
      apply hnot
      rw [heq] at hw
      exact List.mem_map.mpr ⟨e, he, hw⟩
    rw [List.lookup_cons, beq_eq_false_iff_ne.mpr hne]
    exact hnone
  · intro i hi
    obtain ⟨o, ho, hin, hwhere⟩ := h.minted i hi
    refine ⟨o, ho, hin, ?_⟩
    have hknown : ∀ w, w = u ∨ (consts.lookup w).isSome →
        (((u, v) :: consts).lookup w).isSome := by
      intro w hw
      rw [List.lookup_cons]
      cases hwu : w == u with
      | true => rfl
      | false => exact hw.resolve_left fun heq => by simp [heq] at hwu
    rcases hwhere with ⟨m', hm', hlt⟩ | ⟨w, hw, hconst⟩
    · rcases List.mem_cons.mp hm' with heq | htail
      · cases heq
        exact .inr ⟨u, rfl, hknown u (.inl rfl)⟩
      · exact .inl ⟨m', htail, hlt⟩
    · exact .inr ⟨w, hw, hknown w (.inr hconst)⟩

theorem start : Supplied p 0 [] [] [] := by
  refine ⟨List.nodup_singleton _, ?_, ?_, List.forall_mem_nil _, List.nodup_nil⟩
  · exact List.forall_mem_singleton.mpr (inRegion_seed p none)
  · exact List.forall_mem_singleton.mpr fun u hu => nomatch hu

end Supplied

/-! ### What a step mints -/

/-- The scheduler that a fold leaves. -/
def Fold.sched : Fold → Sched
  | .settled st => st
  | .start st .. => st

/-- At most the one handle is minted that the supply stands at. -/
def Mints (n : Int) (v : Value) (n' : Int) : Prop :=
  (mintedBy v n = none ∧ n' = n) ∨
    (mintedBy v n = some n ∧ n' = n + 1 ∧ (n + 1) % idRegionBound ≠ 0)

theorem Folds.mints {st : Sched} {o : Owner} {v : Value} {fold : Fold} (h : Folds st o v fold) :
    Mints st.nextId v fold.sched.nextId := by
  cases h with
  | rootDone => exact .inl ⟨rfl, rfl⟩
  | detachedDone => exact .inl ⟨rfl, rfl⟩
  | fulfilled hcell => exact .inl ⟨rfl, rfl⟩
  | yielded => exact .inl ⟨rfl, rfl⟩
  | spawned hmint => exact .inr ⟨rfl, rfl, hmint⟩
  | forked hmint => exact .inr ⟨rfl, rfl, hmint⟩
  | cached hcell => exact .inl ⟨rfl, rfl⟩
  | awaits hcell => exact .inl ⟨rfl, rfl⟩
  | opened hmint => exact .inr ⟨rfl, rfl, hmint⟩
  | handed hchan => exact .inl ⟨rfl, rfl⟩
  | buffered hchan => exact .inl ⟨rfl, rfl⟩
  | received hchan => exact .inl ⟨rfl, rfl⟩
  | receives hchan => exact .inl ⟨rfl, rfl⟩

theorem isSome_putEntry {α : Type} {m : List (Int × α)} {key : Int} {a : α} (i : Int) :
    ((putEntry key a m).lookup i).isSome ↔ i = key ∨ (m.lookup i).isSome := by
  rw [lookup_putEntry]
  by_cases hi : i = key <;> simp [hi]

theorem isSome_put_same {α : Type} {m : List (Int × α)} {key : Int} {a b : α}
    (hkey : m.lookup key = some b) (i : Int) :
    ((putEntry key a m).lookup i).isSome ↔ (m.lookup i).isSome := by
  rw [isSome_putEntry]
  constructor
  · rintro (rfl | hi)
    · rw [hkey]
      rfl
    · exact hi
  · exact .inr

/-- A channel or promise that a scheduler has got has the handle that has been minted. -/
theorem Folds.owns {st : Sched} {o : Owner} {v : Value} {fold : Fold} (h : Folds st o v fold)
    {i : Int} (howns : fold.sched.Owns i) : st.Owns i ∨ mintedBy v st.nextId = some i := by
  cases h with
  | rootDone => exact .inl howns
  | detachedDone => exact .inl howns
  | fulfilled hcell => exact .inl (howns.imp_right (isSome_put_same hcell i).mp)
  | yielded => exact .inl howns
  | spawned hmint => exact .inl howns
  | forked hmint =>
      rcases howns with hchan | hcell
      · exact .inl (.inl hchan)
      · rcases (isSome_putEntry i).mp hcell with rfl | hcell
        · exact .inr rfl
        · exact .inl (.inr hcell)
  | cached hcell => exact .inl howns
  | awaits hcell => exact .inl (howns.imp_right (isSome_put_same hcell i).mp)
  | opened hmint =>
      rcases howns with hchan | hcell
      · rcases (isSome_putEntry i).mp hchan with rfl | hchan
        · exact .inr rfl
        · exact .inl (.inl hchan)
      · exact .inl (.inr hcell)
  | handed hchan => exact .inl (howns.imp_left (isSome_put_same hchan i).mp)
  | buffered hchan => exact .inl (howns.imp_left (isSome_put_same hchan i).mp)
  | received hchan => exact .inl (howns.imp_left (isSome_put_same hchan i).mp)
  | receives hchan => exact .inl (howns.imp_left (isSome_put_same hchan i).mp)

/-- Where the supply stands after a step. -/
def Drive.Outcome.nextId : Drive.Outcome → Int
  | .resumed _ d => d.st.nextId
  | .started _ d => d.st.nextId
  | .finished _ n => n

theorem Drive.next_mints {d : Drive} {v : Value} {n : Int} {out : Drive.Outcome}
    (h : d.next v n = .ok out) : Mints n v out.nextId := by
  rcases Drive.next_eq_ok h with ⟨st', q, rest, hfolds, -, -, rfl⟩ |
    ⟨st', starter, owner', after, hfolds, rfl⟩ | ⟨st', r, hfolds, -, rfl⟩
  · exact hfolds.mints
  · exact hfolds.mints
  · exact hfolds.mints

theorem Drive.resumed_owns {d d' : Drive} {v : Value} {n : Int} {q : Parked}
    (h : d.next v n = .ok (.resumed q d')) {i : Int} (howns : d'.st.Owns i) :
    d.st.Owns i ∨ mintedBy v n = some i := by
  rcases Drive.next_eq_ok h with ⟨st', q, rest, hfolds, -, -, hout⟩ |
    ⟨st', starter, owner', after, hfolds, hout⟩ | ⟨st', r, hfolds, -, hout⟩
  · cases hout
    exact hfolds.owns howns
  · cases hout
  · cases hout

theorem Drive.started_owns {d d' : Drive} {v starter : Value} {n : Int}
    (h : d.next v n = .ok (.started starter d')) {i : Int} (howns : d'.st.Owns i) :
    d.st.Owns i ∨ mintedBy v n = some i := by
  rcases Drive.next_eq_ok h with ⟨st', q, rest, hfolds, -, -, hout⟩ |
    ⟨st', starter, owner', after, hfolds, hout⟩ | ⟨st', r, hfolds, -, hout⟩
  · cases hout
  · cases hout
    exact hfolds.owns howns
  · cases hout

/-! ### The handles of a run -/

/-- The handles of each scheduler under way are its own, and the schedulers are numbered. -/
structure Numbered (ds : List Drive) (l : Log) : Prop where
  own : List.Forall₂ (fun d e => ∀ i, d.st.Owns i → (e.serial, i) ∈ l.minted) ds l.active
  serials : (l.active.map DriveLog.serial).Nodup
  started : ∀ e ∈ l.active, e.serial < l.started

theorem Numbered.opened {ds : List Drive} {l : Log} (h : Numbered ds l) {n : Int} :
    Numbered (⟨⟨n, [], [], [], none⟩, .root, []⟩ :: ds) l.opened := by
  refine ⟨.cons ?_ h.own, ?_, ?_⟩
  · rintro i (hi | hi) <;> cases hi
  · refine List.nodup_cons.mpr ⟨?_, h.serials⟩
    intro hmem
    obtain ⟨e, he, heq⟩ := List.mem_map.mp hmem
    have hlt := h.started e he
    rw [heq] at hlt
    exact lt_irrefl _ hlt
  · refine List.forall_mem_cons.mpr ⟨Nat.lt_succ_self _, ?_⟩
    intro e he
    exact Nat.lt_succ_of_lt (h.started e he)

/-- The handle that the scheduler `e` has minted. -/
theorem mem_minted_append {minted : List (Nat × Int)} {serial : Nat} {o : Option Int}
    {x : Nat × Int} : x ∈ minted ++ (o.map fun i => (serial, i)).toList ↔
      x ∈ minted ∨ ∃ i, o = some i ∧ x = (serial, i) := by
  cases o with
  | none => simp
  | some i => simp

/-- A scheduler goes on. -/
theorem Numbered.continued {d d' : Drive} {ds : List Drive} {minted : List (Nat × Int)}
    {started : Nat} {e e' : DriveLog} {es : List DriveLog} {o : Option Int}
    (h : Numbered (d :: ds) ⟨minted, started, e :: es⟩) (hserial : e'.serial = e.serial)
    (howns : ∀ i, d'.st.Owns i → d.st.Owns i ∨ o = some i) :
    Numbered (d' :: ds)
      ⟨minted ++ (o.map fun i => (e.serial, i)).toList, started, e' :: es⟩ := by
  obtain ⟨hown, hserials, hstarted⟩ := h
  cases hown with
  | cons hd hds =>
      refine ⟨.cons ?_ ?_, ?_, ?_⟩
      · intro i hi
        rw [hserial, mem_minted_append]
        exact (howns i hi).imp (hd i) fun hi => ⟨i, hi, rfl⟩
      · exact hds.imp fun d e hde i hi => mem_minted_append.mpr (.inl (hde i hi))
      · rw [List.map_cons, hserial]
        exact hserials
      · obtain ⟨he, hes⟩ := List.forall_mem_cons.mp hstarted
        exact List.forall_mem_cons.mpr ⟨hserial ▸ he, hes⟩

/-- A scheduler is over. -/
theorem Numbered.closed {d : Drive} {ds : List Drive} {minted : List (Nat × Int)}
    {started : Nat} {e : DriveLog} {es : List DriveLog} {o : Option Int}
    (h : Numbered (d :: ds) ⟨minted, started, e :: es⟩) :
    Numbered ds ⟨minted ++ (o.map fun i => (e.serial, i)).toList, started, es⟩ := by
  obtain ⟨hown, hserials, hstarted⟩ := h
  cases hown with
  | cons hd hds =>
      refine ⟨?_, (List.nodup_cons.mp hserials).2, (List.forall_mem_cons.mp hstarted).2⟩
      exact hds.imp fun d e hde i hi => mem_minted_append.mpr (.inl (hde i hi))

theorem Supplied.mints {p : Program} {n n' : Int} {host : List HostFrame}
    {consts : List (Unique × Value)} {minted : List (Nat × Int)} {v : Value} {serial : Nat}
    (h : Supplied p n host consts (minted.map Prod.snd)) (hmints : Mints n v n') :
    Supplied p n' host consts
      ((minted ++ ((mintedBy v n).map fun i => (serial, i)).toList).map Prod.snd) := by
  rcases hmints with ⟨hnone, rfl⟩ | ⟨hsome, rfl, hmint⟩
  · rw [hnone]
    simpa using h
  · rw [hsome]
    simpa using h.mint hmint

/-- The handles of a state of a run. -/
structure Accounted (p : Program) (s : State) (l : Log) : Prop where
  supplied : Supplied p s.nextId s.host s.consts (l.minted.map Prod.snd)
  numbered : Numbered (drives s.host) l

theorem some_mem_supplies {u : Unique} {n : Int} {host : List HostFrame}
    (h : some u ∈ (supplies n host).map Prod.fst) : u ∈ forcing host := by
  induction host generalizing n with
  | nil => simp [supplies, region, outer] at h
  | cons fr rest ih =>
      cases fr with
      | driving st owner pending extra k => exact ih h
      | forcing w saved m =>
          rcases List.mem_cons.mp h with heq | htail
          · cases heq
            exact List.mem_cons_self
          · exact List.mem_cons_of_mem _ (ih htail)

/-- A step keeps the handles apart. -/
theorem Accounted.moves {p : Program} {s t : State} {f : Log → Log} {l : Log}
    (h : Accounted p s l) (hloops : s.loops p = false) (hmoves : Moves p s t f) :
    Accounted p t (f l) := by
  obtain ⟨hsupplied, hnumbered⟩ := h
  cases hmoves with
  | inside => exact ⟨hsupplied, hnumbered⟩
  | opens => exact ⟨Supplied.driving.mpr hsupplied, hnumbered.opened⟩
  | @demands u tb htrans =>
      obtain ⟨hu, hnone⟩ := unforced (DemandsUnforced.transition s.installs s.cfg u htrans)
      refine ⟨hsupplied.demand hu hnone ?_, hnumbered⟩
      intro hmem
      have hforcing : (forcing s.host).contains u = true :=
        List.contains_iff_mem.mpr (some_mem_supplies hmem)
      have hdemands : p.demands s = some u := by
        simp only [Program.demands, htrans]
      rw [State.loops, hdemands, Option.any_some, hforcing] at hloops
      cases hloops
  | forced hhost =>
      rw [hhost] at hsupplied hnumbered
      exact ⟨hsupplied.forced, hnumbered⟩
  | resumes hhost hnext =>
      rw [hhost] at hsupplied hnumbered
      obtain ⟨minted, started, active⟩ := l
      have hmints := Drive.next_mints hnext
      cases active with
      | nil => cases hnumbered.own
      | cons e es =>
          simp only [Log.folded, hnext]
          exact ⟨Supplied.driving.mpr ((Supplied.driving.mp hsupplied).mints hmints),
            hnumbered.continued rfl fun i => Drive.resumed_owns hnext⟩
  | starts hhost hnext =>
      rw [hhost] at hsupplied hnumbered
      obtain ⟨minted, started, active⟩ := l
      have hmints := Drive.next_mints hnext
      cases active with
      | nil => cases hnumbered.own
      | cons e es =>
          simp only [Log.folded, hnext]
          exact ⟨Supplied.driving.mpr ((Supplied.driving.mp hsupplied).mints hmints),
            hnumbered.continued rfl fun i => Drive.started_owns hnext⟩
  | closes hhost hnext =>
      rw [hhost] at hsupplied hnumbered
      obtain ⟨minted, started, active⟩ := l
      have hmints := Drive.next_mints hnext
      cases active with
      | nil => cases hnumbered.own
      | cons e es =>
          simp only [Log.folded, hnext]
          exact ⟨(Supplied.driving.mp hsupplied).mints hmints, hnumbered.closed⟩

theorem accounted_of_reach {p : Program} {s₀ s : State} {l : Log} (hinit : p.initial = .ok s₀)
    (hreach : p.logged.Reach (fun x => x.1.loops p = false) (s₀, .empty) (s, l)) :
    Accounted p s l := by
  have hstart : Accounted p s₀ .empty := by
    obtain ⟨body, rfl⟩ := initial_eq_ok hinit
    exact ⟨.start, .nil, List.nodup_nil, List.forall_mem_nil _⟩
  have hkeeps : p.logged.Preserves (fun x => x.1.loops p = false) fun x => Accounted p x.1 x.2 := by
    intro x y hx hloops hstep
    obtain ⟨f, hmoves, hlog⟩ := logged_moves hstep
    rw [hlog]
    exact hx.moves hloops hmoves
  have haccounted := hreach.invariant hkeeps hstart
  exact haccounted

theorem Accounted.distinct {p : Program} {s : State} {l : Log} (h : Accounted p s l) :
    HandlesDistinct l (drives s.host) := by
  obtain ⟨hsupplied, hown, hserials, -⟩ := h
  refine ⟨hsupplied.distinct, hserials, hown, ?_⟩
  refine hown.imp fun d e hde n i hi hne howns => ?_
  have hmine := hde i howns
  have hsame : (n, i) = (e.serial, i) :=
    List.inj_on_of_nodup_map hsupplied.distinct hi hmine rfl
  exact hne (congrArg Prod.fst hsame)

/-- `\u -> let q = ReqNewChan in Suspended q (\t -> after)` -/
private def opensChannel (id : Int) (after : Expr) : Rhs :=
  .lam [Binder.u64 "u" id] <|
    .let_ (Binder.u64 "q" (id + 1)) (.con "ReqNewChan" []) <|
    .let_ (Binder.u64 "k" (id + 2)) (.lam [Binder.u64 "t" (id + 3)] after) <|
    .let_ (Binder.u64 "s" (id + 4))
      (.con "Suspended" [Atom.local "q" (id + 1), Atom.local "k" (id + 2)]) <|
    .ret (Atom.local "s" (id + 4))

/-- `let r = runConc (f) in r` -/
private def driveOf (f : String) (id r : Int) : Expr :=
  .let_ (Binder.u64 "r" r) (.app (.prim "Control" "__drive_conc") [Atom.local f id])
    (.ret (Atom.local "r" r))

/-- A scheduler opens a channel, and then its root starts another one that does so. -/
def nestedSchedulers : Expr :=
  .let_ (Binder.u64 "inner" 1) (opensChannel 10 (.ret Atom.unit)) <|
  .let_ (Binder.u64 "root" 2) (opensChannel 20 (driveOf "inner" 1 3)) <|
  driveOf "root" 2 4

end Wok.Interp
