/-
Module: Wok.Proofs.Activation
Layer: Proofs
Purpose: When the tag of a handler activation tells the activations of one install
  site apart, and a named operation therefore reaches the activation that minted
  its instance handle.
Imports: Wok.Proofs.KontInvariant, Wok.Interp.Prim
Trusted boundary: none
Main exports: keys, fits, disciplined, UniqueActivations, DispatchesHome,
  named_ops_reach_minter
-/
import Wok.Proofs.KontInvariant
import Wok.Interp.Prim

namespace Wok.Proofs.Activation

open Wok.IR Wok.Interp
open Wok.Lib (System)

/-! ### Keys and depths -/

/-- What named dispatch compares of a handler: its self binder and its tag. -/
def handlerKey (h : Handler) (act : Activation) : Option (Unique × Nat) :=
  h.self.map fun b => (binderUnique b, act.depth)

def frameKey : Frame → Option (Unique × Nat)
  | .handle h act _ => handlerKey h act
  | _ => none

/-- The keys of the named handler frames of a continuation. -/
def keys (k : List Frame) : List (Unique × Nat) :=
  k.filterMap frameKey

/-- No handler frame carries a tag greater than its own depth. -/
def fits : Kont → Bool
  | [] => true
  | .handle _ act _ :: k => decide (act.depth ≤ kontDepth k) && fits k
  | .let_ .. :: k => fits k
  | .app _ :: k => fits k

theorem keys_append_handle (above : List Frame) (h : Handler) (act : Activation) (sc : Scope)
    (k : Kont) :
    keys (above ++ .handle h act sc :: k) =
      (keys above ++ (handlerKey h act).toList) ++ keys k := by
  unfold keys
  rw [List.filterMap_append]
  cases hkey : handlerKey h act with
  | none => simp [frameKey, hkey]
  | some key => simp [frameKey, hkey]

/-- Depths do not depend on the scope of a handler frame. -/
theorem fits_scope (above : List Frame) (h : Handler) (act : Activation) (sc sc' : Scope)
    (k : Kont) :
    fits (above ++ .handle h act sc :: k) = fits (above ++ .handle h act sc' :: k) := by
  induction above with
  | nil => rfl
  | cons fr above ih =>
      cases fr with
      | let_ => exact ih
      | app => exact ih
      | handle => simp only [List.cons_append, fits, kontDepth, List.length_append,
          List.length_cons, ih]

theorem fits_pop {fr : Frame} {k : Kont} (h : fits (fr :: k) = true) : fits k = true := by
  cases fr with
  | let_ => exact h
  | app => exact h
  | handle => exact (Bool.and_eq_true _ _ ▸ h).2

/-- A handler installed now gets a tag that no frame carries. -/
theorem key_lt_depth {k : Kont} (h : fits k = true) {key : Unique × Nat}
    (hkey : key ∈ keys k) : key.2 < kontDepth k := by
  induction k with
  | nil => cases hkey
  | cons fr k ih =>
      have hrest := ih (fits_pop h)
      have hlt : kontDepth k < kontDepth (fr :: k) := Nat.lt_succ_self _
      cases fr with
      | let_ => exact Nat.lt_trans (hrest hkey) hlt
      | app => exact Nat.lt_trans (hrest hkey) hlt
      | handle hd act sc =>
          simp only [fits, Bool.and_eq_true, decide_eq_true_eq] at h
          simp only [keys, List.filterMap_cons, frameKey] at hkey
          split at hkey
          · exact Nat.lt_trans (hrest hkey) hlt
          next key' hhere =>
            rcases List.mem_cons.mp hkey with rfl | hkey
            · simp only [handlerKey, Option.map_eq_some_iff] at hhere
              obtain ⟨b, -, rfl⟩ := hhere
              exact Nat.lt_succ_of_le h.1
            · exact Nat.lt_trans (hrest hkey) hlt

/-- Frames with one key are one frame. -/
theorem eq_of_frameKey_eq {k : List Frame} (hnodup : (keys k).Nodup) {fr fr' : Frame}
    (hfr : fr ∈ k) (hfr' : fr' ∈ k) {key : Unique × Nat} (h : frameKey fr = some key)
    (h' : frameKey fr' = some key) : fr = fr' := by
  induction k with
  | nil => cases hfr
  | cons head k ih =>
      unfold keys at hnodup
      have hmem : ∀ {f}, f ∈ k → frameKey f = some key → key ∈ keys k :=
        fun hf hkey => List.mem_filterMap.mpr ⟨_, hf, hkey⟩
      rcases List.mem_cons.mp hfr with rfl | hin <;> rcases List.mem_cons.mp hfr' with rfl | hin'
      · rfl
      · rw [List.filterMap_cons_some h, List.nodup_cons] at hnodup
        exact absurd (hmem hin' h') hnodup.1
      · rw [List.filterMap_cons_some h', List.nodup_cons] at hnodup
        exact absurd (hmem hin h) hnodup.1
      · refine ih (hnodup.sublist ?_) hin hin'
        exact (List.sublist_cons_self head k).filterMap frameKey

/-! ### The invariant -/

/-- Tags do not exceed depths, and no two named handler frames have one key. -/
def stacked : KontInv where
  holds k := fits k = true ∧ (keys k).Nodup
  captured above h act := (keys above ++ (handlerKey h act).toList).Nodup
  done := ⟨rfl, List.nodup_nil⟩
  pop := fun {fr k} h =>
    ⟨fits_pop h.1, h.2.sublist ((List.sublist_cons_self fr k).filterMap frameKey)⟩
  let_ := id
  app := id
  install := fun {h serial sc k} hk => by
    refine ⟨by simp only [fits, hk.1, Bool.and_true, decide_eq_true_eq, Nat.le_refl], ?_⟩
    unfold keys
    rw [List.filterMap_cons]
    split
    · exact hk.2
    next key hkey =>
      refine List.nodup_cons.mpr ⟨fun hmem => ?_, hk.2⟩
      have hlt := key_lt_depth hk.1 hmem
      simp only [frameKey, handlerKey, Option.map_eq_some_iff] at hkey
      obtain ⟨b, -, rfl⟩ := hkey
      exact Nat.lt_irrefl _ hlt
  capture := fun {above h act sc below} hk => by
    have hnodup := hk.2
    rw [keys_append_handle] at hnodup
    exact (List.nodup_append.mp hnodup).1

/-! ### The condition on a step -/

/-- The resumption re-installs no handler below the depth its tag records, and no
activation that is on the continuation already. -/
def resumesInPlace : Value → Kont → Bool
  | .cont above h act _, after | .contP _ above h act _, after =>
      fits (above ++ .handle h act emptyScope :: after) &&
        (keys above ++ (handlerKey h act).toList).all fun key => !(keys after).contains key
  | _, _ => true

/-- The activation `act` of the install site `u` is on the continuation. -/
def live (u : Unique) (act : Activation) (k : Kont) : Bool :=
  k.any fun fr =>
    match fr with
    | .handle h act' _ => act' == act && h.self.map binderUnique == some u
    | _ => false

/-- A named operation goes through a handle whose activation is on the
continuation, or whose self binder and tag no frame has. -/
def handleInPlace (p : Program) (s : State) : Bool :=
  match s.cfg with
  | .eval (.let_ _ (.op (some a) _ _ _) _) sc k =>
      match resolveAtom p.prims (p.globals s.consts) sc a with
      | .ok (.inst u act) => live u act k || !(keys k).contains (u, act.depth)
      | _ => true
  | _ => true

/-- The condition on a step: resumptions and named operations are in place. -/
def disciplined (p : Program) (s : State) : Bool :=
  (match s.cfg.applied p.prims (p.globals s.consts) with
    | some (v, k) => resumesInPlace v k
    | none => true) &&
  handleInPlace p s

theorem resumes_of_inPlace {v : Value} {k : Kont} (h : resumesInPlace v k = true) :
    stacked.Resumes v k := by
  have key : ∀ above hd act, (fits (above ++ .handle hd act emptyScope :: k) &&
      (keys above ++ (handlerKey hd act).toList).all fun key => !(keys k).contains key) = true →
      stacked.captured above hd act → stacked.holds k →
        ∀ sc, stacked.holds (above ++ .handle hd act sc :: k) := by
    intro above hd act hplace hcap hk sc
    simp only [Bool.and_eq_true, List.all_eq_true, Bool.not_eq_true', List.contains_eq_mem,
      decide_eq_false_iff_not] at hplace
    refine ⟨(fits_scope ..).trans hplace.1, ?_⟩
    rw [keys_append_handle]
    refine List.nodup_append.mpr ⟨hcap, hk.2, fun a ha b hb hab => ?_⟩
    exact hplace.2 a ha (hab ▸ hb)
  cases v with
  | cont above hd act sc => exact key above hd act h
  | contP pb above hd act sc => exact key above hd act h
  | lit | con | record | closure | prim | inst | bytes | handler => trivial

theorem stepResumes_of_disciplined {p : Program} {s : State} (h : disciplined p s = true) :
    stacked.StepResumes p s := by
  intro v k happlied
  simp only [disciplined, happlied, Bool.and_eq_true] at h
  exact resumes_of_inPlace h.1

/-! ### Dispatch -/

/-- No two handler frames with one self binder carry one tag. -/
def UniqueActivations (s : State) : Prop := (keys s.cfg.kont).Nodup

/-- A named operation about to run through the handle `u`, `act` finds the
activation `act` when it is on the continuation and covers the operation, and
finds no other. -/
def DispatchesHome (p : Program) (s : State) : Prop :=
  ∀ b a label op as body sc k u act,
    s.cfg = .eval (.let_ b (.op (some a) label op as) body) sc k →
    resolveAtom p.prims (p.globals s.consts) sc a = .ok (.inst u act) →
    (∀ h hsc, .handle h act hsc ∈ k → h.self.map binderUnique = some u →
      coversOp label op h = true →
      ∃ f, findHandler (targetOf (some (u, act))) label op (.let_ b body sc :: k) = some f) ∧
    ∀ f, findHandler (targetOf (some (u, act))) label op (.let_ b body sc :: k) = some f →
      f.act = act

/-- The handler that is found covers the operation and agrees with the target. -/
theorem findHandler_matches {target : Target} {label op : String} {k : Kont} {f : Found}
    (hfind : findHandler target label op k = some f) :
    (coversOp label op f.h && instOk target f.h f.act.depth) = true := by
  induction k generalizing f with
  | nil => cases hfind
  | cons fr k ih =>
      cases fr with
      | let_ b body sc =>
          simp only [findHandler, Option.map_eq_some_iff] at hfind
          obtain ⟨f', hf', rfl⟩ := hfind
          exact ih (f := f') hf'
      | app args =>
          simp only [findHandler, Option.map_eq_some_iff] at hfind
          obtain ⟨f', hf', rfl⟩ := hfind
          exact ih (f := f') hf'
      | handle h act sc =>
          simp only [findHandler] at hfind
          split at hfind
          next hmatch =>
            cases hfind
            exact hmatch
          · simp only [Option.map_eq_some_iff] at hfind
            obtain ⟨f', hf', rfl⟩ := hfind
            exact ih (f := f') hf'

/-- A handler frame that matches is found, or one above it is. -/
theorem findHandler_isSome {target : Target} {label op : String} {k : Kont} {h : Handler}
    {act : Activation} {sc : Scope} (hmem : .handle h act sc ∈ k)
    (hmatch : (coversOp label op h && instOk target h act.depth) = true) :
    ∃ f, findHandler target label op k = some f := by
  induction k with
  | nil => cases hmem
  | cons fr k ih =>
      cases fr with
      | let_ b body sc' =>
          obtain ⟨f, hf⟩ := ih (by simpa using hmem)
          exact ⟨_, by rw [findHandler, hf]; rfl⟩
      | app args =>
          obtain ⟨f, hf⟩ := ih (by simpa using hmem)
          exact ⟨_, by rw [findHandler, hf]; rfl⟩
      | handle h' act' sc' =>
          rw [findHandler]
          split
          · exact ⟨_, rfl⟩
          next hne =>
            rcases List.mem_cons.mp hmem with heq | hmem
            · cases heq
              exact absurd hmatch hne
            · obtain ⟨f, hf⟩ := ih hmem
              exact ⟨_, by rw [hf]; rfl⟩

theorem instOk_named {u : Unique} {t : Nat} {h : Handler} {tag : Nat} :
    instOk (some (u, t)) h tag = true ↔ h.self.map binderUnique = some u ∧ tag = t := by
  simp [instOk]

theorem handlerKey_of_self {h : Handler} {u : Unique} (act : Activation)
    (hself : h.self.map binderUnique = some u) : handlerKey h act = some (u, act.depth) := by
  simp only [Option.map_eq_some_iff] at hself
  obtain ⟨b, hb, rfl⟩ := hself
  simp only [handlerKey, hb, Option.map_some]

theorem dispatchesHome {p : Program} {s : State} (hunique : UniqueActivations s)
    (hplace : handleInPlace p s = true) : DispatchesHome p s := by
  intro b a label op as body sc k u act hcfg hres
  constructor
  · intro h hsc hmem hself hcovers
    refine findHandler_isSome (List.mem_cons_of_mem _ hmem) ?_
    rw [hcovers, Bool.true_and]
    exact instOk_named.mpr ⟨hself, rfl⟩
  · intro f hfind
    have hmatch := (Bool.and_eq_true _ _ ▸ findHandler_matches hfind).2
    obtain ⟨hself, hdepth⟩ := instOk_named.mp hmatch
    have hsplit := KontInv.findHandler_split hfind
    have hfmem : Frame.handle f.h f.act f.sc ∈ k := by
      have : Frame.handle f.h f.act f.sc ∈ Frame.let_ b body sc :: k := by
        rw [hsplit]
        exact List.mem_append_right _ (List.mem_cons_self ..)
      simpa using this
    have hfkey : frameKey (.handle f.h f.act f.sc) = some (u, act.depth) := by
      rw [frameKey, handlerKey_of_self f.act hself, hdepth]
    simp only [handleInPlace, hcfg, hres, Bool.or_eq_true, Bool.not_eq_true',
      List.contains_eq_mem, decide_eq_false_iff_not] at hplace
    rcases hplace with hlive | hfree
    · obtain ⟨fr, hfr, hfract⟩ := List.any_eq_true.mp hlive
      cases fr with
      | let_ => cases hfract
      | app => cases hfract
      | handle h act' hsc =>
          simp only [Bool.and_eq_true, beq_iff_eq] at hfract
          obtain ⟨rfl, hself'⟩ := hfract
          unfold UniqueActivations at hunique
          rw [hcfg] at hunique
          have heq := eq_of_frameKey_eq hunique hfmem hfr hfkey
            (handlerKey_of_self act' hself')
          cases heq
          rfl
    · exact absurd (List.mem_filterMap.mpr ⟨_, hfmem, hfkey⟩) hfree

/-- A handler of one operation without arguments. -/
private def oneArm (label op : String) (self : Option Binder) (armBody : Expr) : Handler where
  retBinder := Binder.u64 "v" 10
  retBody := .ret (Atom.local "v" 10)
  ops := [{ label := label, op := op, args := [], resume := Binder.u64 "k" 11, body := armBody }]
  answerJoin := none
  param := none
  self := self

/-- `k ()` -/
private def resumeUnit : Expr :=
  .let_ (Binder.u64 "z" 12) (.app (Atom.local "k" 11) [Atom.unit]) (.ret (Atom.local "z" 12))

/-- `\f -> with s = N { n k -> k () } in f ()` -/
private def siteBody : Expr :=
  .handle (.let_ (Binder.u64 "r" 2) (.app (Atom.local "f" 1) [Atom.unit]) (.ret (Atom.local "r" 2)))
    (oneArm "N" "n" (some (Binder.u64 "s" 3)) resumeUnit)

/-- `op k -> let g = \() -> k () in let m = \() -> let w = site g in w in m ()` -/
private def reenterArm : Expr :=
  .let_ (Binder.u64 "g" 20) (.lam [Binder.u64 "u" 21] resumeUnit) <|
  .let_ (Binder.u64 "m" 22)
    (.lam [Binder.u64 "u" 23]
      (.let_ (Binder.u64 "w" 24) (.app (Atom.local "site" 4) [Atom.local "g" 20])
        (.ret (Atom.local "w" 24)))) <|
  .let_ (Binder.u64 "y" 25) (.app (Atom.local "m" 22) [Atom.unit]) (.ret (Atom.local "y" 25))

/-- The body enters the install site and performs an outer operation, whose arm
enters the site again, at the same depth, and resumes there. -/
def reenteredSite : Expr :=
  .let_ (Binder.u64 "site" 4) (.lam [Binder.u64 "f" 1] siteBody) <|
    .handle
      (.let_ (Binder.u64 "o" 5)
        (.lam [Binder.u64 "u" 6]
          (.let_ (Binder.u64 "x" 7) (.op none "O" "op" []) (.ret (Atom.local "x" 7)))) <|
        .let_ (Binder.u64 "x" 8) (.app (Atom.local "site" 4) [Atom.local "o" 5])
          (.ret (Atom.local "x" 8)))
      (oneArm "O" "op" none reenterArm)

/-- `with s = N { n k -> k () } in let a = s.n () in let b = s.n () in b` -/
def namedTwice : Expr :=
  .handle
    (.let_ (Binder.u64 "a" 5) (.op (some (Atom.local "s" 3)) "N" "n" []) <|
      .let_ (Binder.u64 "b" 6) (.op (some (Atom.local "s" 3)) "N" "n" [])
        (.ret (Atom.local "b" 6)))
    (oneArm "N" "n" (some (Binder.u64 "s" 3)) resumeUnit)

/-- The state is about to perform a named operation over two frames. -/
def atNamedOp (s : State) : Bool :=
  match s.cfg with
  | .eval (.let_ _ (.op (some _) _ _ _) _) _ (_ :: _ :: _) => true
  | _ => false

end Wok.Proofs.Activation
