/-
Module: Wok.Proofs.TailCalls
Purpose: A call in tail position runs under the continuation of its caller and nothing else
  changes: the machine that contracts and the machine that pushes every frame stay in one
  view along runs of any length.
Imports: Wok.Lib.Stutter, Wok.Proofs.ContractDispatch, Wok.Proofs.ContractPrims,
  Wok.Spec.Arrays
Trusted boundary: none
Main exports: stutters_machineBy, inStep_runPlain_runRC, callKont_contracts
-/
import Wok.Lib.Stutter
import Wok.Proofs.ContractDispatch
import Wok.Proofs.ContractPrims
import Wok.Spec.Arrays

namespace Wok.Interp.RC

open Wok.IR
open Wok.Lib (Commutes System Comparable isOk_congr isSome_toOption)

variable {env : RCEnv} {s s' : Store} {sc sc' : RCScope} {k k' : RCKont}

/-! ### Silent steps -/

/-- The configuration that a step is taken from. -/
def sampled (env : RCEnv) (c : RCConfig) : RCConfig :=
  if env.kontStat then sampleKontPeak c else c

theorem contractStore_bumpKontPeak (env : RCEnv) (k : RCKont) (s : Store) :
    contractStore env (bumpKontPeak k s) = contractStore env s := by
  unfold bumpKontPeak
  split_ifs <;> rfl

theorem clear_bumpKontPeak (k : RCKont) : (bumpKontPeak k s).Clear env ↔ s.Clear env := by
  unfold bumpKontPeak
  split_ifs <;> rfl

/-- Sampling changes nothing but the store, and nothing of it that is in the view. -/
theorem sampled_cases (env : RCEnv) (c : RCConfig) :
    (∃ v k s s', c = .ret v k s ∧ sampled env c = .ret v k s' ∧
      contractStore env s' = contractStore env s ∧ (s'.Clear env ↔ s.Clear env)) ∨
    (∃ e sc k s s', c = .eval e sc k s ∧ sampled env c = .eval e sc k s' ∧
      contractStore env s' = contractStore env s ∧ (s'.Clear env ↔ s.Clear env)) := by
  unfold sampled
  cases c with
  | ret v k s =>
      left
      split_ifs
      · exact ⟨v, k, s, _, rfl, rfl, contractStore_bumpKontPeak env k s, clear_bumpKontPeak k⟩
      · exact ⟨v, k, s, s, rfl, rfl, rfl, Iff.rfl⟩
  | eval e sc k s =>
      right
      split_ifs
      · exact ⟨e, sc, k, s, _, rfl, rfl, contractStore_bumpKontPeak env k s, clear_bumpKontPeak k⟩
      · exact ⟨e, sc, k, s, s, rfl, rfl, rfl, Iff.rfl⟩

theorem contractConfig_sampled (env : RCEnv) (c : RCConfig) :
    contractConfig env (sampled env c) = contractConfig env c := by
  rcases sampled_cases env c with ⟨v, k, s, s', rfl, h, hs, -⟩ | ⟨e, sc, k, s, s', rfl, h, hs, -⟩
  · rw [h, contractConfig, contractConfig, hs]
  · rw [h, contractConfig, contractConfig, hs]

theorem silent_sampled (env : RCEnv) (c : RCConfig) :
    silent env (sampled env c) = silent env c := by
  rcases sampled_cases env c with ⟨v, k, s, s', rfl, h, -⟩ | ⟨e, sc, k, s, s', rfl, h, -⟩
  · rw [h]
    cases k with
    | nil => rfl
    | cons fr k => cases fr <;> rfl
  · rw [h]
    rfl

/-- Whether the arguments of an operation can be read is in the view. -/
theorem atoms_isOk_congr (henv : env.Uniform) (as : List Atom)
    (hsc : contractScope env sc = contractScope env sc')
    (hstore : contractStore env s = contractStore env s') (hs : s.Clear env)
    (hs' : s'.Clear env) :
    (resolveRCAtomsAlloc env.allocator sc as s).isOk =
      (resolveRCAtomsAlloc env.allocator sc' as s').isOk := by
  apply isOk_congr (v := contractWith env (List.map contractValue))
  apply (resolveRCAtomsAlloc_commutes henv.allocator sc as hs).congr
    (resolveRCAtomsAlloc_commutes henv.allocator sc' as hs')
  rw [hsc, hstore]

/-- Whether a step performs an operation through a handle is in the view. -/
theorem delivery_isSome_congr (henv : env.Uniform) {c c' : RCConfig}
    (hview : contractConfig env c = contractConfig env c') (hs : c.store.Clear env)
    (hs' : c'.store.Clear env) : (delivery env c).isSome = (delivery env c').isSome := by
  cases c with
  | ret v k s =>
      cases c' with
      | ret v' k' s' => rfl
      | eval e' sc' k' s' => cases hview
  | eval e sc k s =>
      cases c' with
      | ret v' k' s' => cases hview
      | eval e' sc' k' s' =>
          simp only [contractConfig, RCConfig.eval.injEq] at hview
          rcases hview with ⟨rfl, hsc, hk, hstore⟩
          cases e with
          | let_ b rhs body =>
              cases rhs with
              | op inst label op as =>
                  cases inst with
                  | none => rfl
                  | some a =>
                      have hinst := isOk_congr ((resolveInstRC_commutes env sc (some a)).congr
                        (resolveInstRC_commutes env sc' (some a)) (by rw [hsc]))
                      simp only [delivery, atoms_isOk_congr henv as hsc hstore hs hs']
                      split_ifs
                      · simp only [Option.isSome_map, isSome_toOption, hinst]
                      · rfl
              | _ => rfl
          | _ => rfl

/-- Where an operation goes does not depend on the depth diagnostic. -/
theorem delivery_sampled (henv : env.Uniform) {c : RCConfig} (hs : c.store.Clear env) :
    delivery env (sampled env c) = delivery env c := by
  rcases sampled_cases env c with
    ⟨v, k, s, s', rfl, h, -⟩ | ⟨e, sc, k, s, s', rfl, h, hstore, hclear⟩
  · rw [h]
    rfl
  · rw [h]
    cases e with
    | let_ b rhs body =>
        cases rhs with
        | op inst label op as =>
            cases inst with
            | none => rfl
            | some a =>
                have hatoms : (resolveRCAtomsAlloc env.allocator sc as s').isOk =
                    (resolveRCAtomsAlloc env.allocator sc as s).isOk :=
                  atoms_isOk_congr henv as rfl hstore (hclear.mpr hs) hs
                simp only [delivery, hatoms]
        | _ => rfl
    | _ => rfl

theorem boundReturn_contract (env : RCEnv) (sc : RCScope) (e : Expr) :
    boundReturn (contractScope env sc) e = (boundReturn sc e).map contractValue := by
  cases e with
  | ret a =>
      cases a with
      | var n => simp only [boundReturn, contractScope_env, lookup_contractEnv]
      | _ => rfl
  | _ => rfl

theorem shownConfig_of_bound {e : Expr} {v : RCValue} (h : boundReturn sc e = some v) :
    shownConfig env (.eval e sc k s) = contractConfig env (.ret v k s) := by
  simp only [shownConfig, contractConfig, handOn, boundReturn_contract, h, Option.map_some]

/-- A configuration that does something is shown as it is. -/
theorem shownConfig_of_acts {c : RCConfig} (h : silent env c = false) :
    shownConfig env c = contractConfig env c := by
  cases c with
  | ret v k s => rfl
  | eval e sc k s =>
      have hnone : boundReturn sc e = none := by
        rw [← Option.isNone_iff_eq_none, ← Option.isSome_eq_false_iff]
        exact h
      simp only [shownConfig, contractConfig, handOn, boundReturn_contract, hnone, Option.map_none]

theorem evalExprRC_bound {e : Expr} {v : RCValue} (h : boundReturn sc e = some v) :
    evalExprRC env e sc k s = .ok (.ret v k s) := by
  cases e with
  | ret a =>
      cases a with
      | var n =>
          simp only [boundReturn] at h
          simp only [evalExprRC, resolveRCAtomAlloc, resolveRCAtom, h]
          rfl
      | _ => cases h
  | _ => cases h

/-- The body of an inert frame hands on the value that has been bound. -/
theorem boundReturn_inert {b : Binder} {body : Expr} (h : inert env b body = true)
    (sc : RCScope) (v : RCValue) :
    boundReturn { sc with env := bindRCBinder b v sc.env } body = some v := by
  rw [inert, Bool.and_eq_true] at h
  have htail := h.1
  unfold isTailReturn at htail
  split at htail
  next n =>
    have hn : n.uniq = binderUnique b := of_decide_eq_true htail
    simp only [boundReturn, hn, lookup_bindRCBinder]
  · cases htail

/-- How long a configuration can go on handing its value on. -/
def handRank : RCConfig → Nat
  | .ret _ k _ => 2 * k.length
  | .eval _ _ k _ => 2 * k.length + 1

/-- Silent steps do not depend on which machine takes them. -/
def KeepsReturns (trans : RCEnv → RCConfig → Except Fault RCConfig) : Prop :=
  ∀ env c, silent env c = true → trans env c = transition env c

theorem keepsReturns_transitionPlain : KeepsReturns transitionPlain := by
  intro env c hc
  unfold transitionPlain
  split
  · cases hc
  · rfl

/-- A step of a run, from the configuration that is sampled. -/
theorem stepBy_eq (trans : RCEnv → RCConfig → Except Fault RCConfig) (env : RCEnv)
    (c : RCConfig) :
    stepBy trans env c =
      match sampled env c with
      | .ret v [] s => .inr (.ok (v, s))
      | c =>
          match trans env c with
          | .ok c' => .inl c'
          | .error e => .inr (.error e) := rfl

theorem stutters_machineBy {trans : RCEnv → RCConfig → Except Fault RCConfig}
    (htrans : KeepsReturns trans) (env : RCEnv) :
    (machineBy trans env).Stutters (shownConfig env) (silent env) handRank := by
  intro c hc
  have hsilent : silent env (sampled env c) = true := (silent_sampled env c).trans hc
  have hsteps := htrans env (sampled env c) hsilent
  show ∃ t, stepBy trans env c = .inl t ∧ _
  rw [stepBy_eq]
  rcases sampled_cases env c with
    ⟨v, k, s, s', rfl, h, hstore, -⟩ | ⟨e, sc, k, s, s', rfl, h, hstore, -⟩
  · rw [h] at hsteps hsilent ⊢
    cases k with
    | nil => cases hc
    | cons fr k =>
        cases fr with
        | let_ b body sc =>
            have hinert : inert env b body = true := hc
            have hnot : windowRouted env b = false := by
              rw [inert, Bool.and_eq_true] at hinert
              simpa using hinert.2
            have hwindow : registerWindow env b v s' = s' := by
              cases v <;> simp [registerWindow, hnot]
            have hnext : trans env (.ret v (.let_ b body sc :: k) s') =
                .ok (bindConfig b body sc k (v, s')) := by
              rw [hsteps, transition, returnToRC, hwindow]
            simp only [hnext]
            refine ⟨_, rfl, ?_, by simp [handRank, bindConfig]; omega⟩
            rw [bindConfig, shownConfig_of_bound (boundReturn_inert hinert sc v)]
            simp only [contractConfig, shownConfig, handOn, contractKont_inert hinert, hstore]
        | _ => cases hc
  · rw [h] at hsteps ⊢
    rcases Option.isSome_iff_exists.mp hc with ⟨v, hv⟩
    have hnext : trans env (.eval e sc k s') = .ok (.ret v k s') := by
      rw [hsteps, transition, evalExprRC_bound hv]
    simp only [hnext]
    refine ⟨_, rfl, ?_, by simp [handRank]⟩
    rw [shownConfig_of_bound hv]
    simp only [shownConfig, contractConfig, handOn, hstore]

/-! ### Both machines -/

/-- A run goes on, or ends with the error. -/
def outcome : Except Fault RCConfig → RCConfig ⊕ Except Fault (RCValue × Store)
  | .ok c => .inl c
  | .error e => .inr (.error e)

theorem sameOutcome_of_map {x y : Except Fault RCConfig}
    (h : x.map (contractConfig env) = y.map (contractConfig env)) :
    System.SameOutcome (shownConfig env) (shownResult env) (outcome x) (outcome y) := by
  cases x with
  | error e =>
      cases y with
      | error e' =>
          cases h
          rfl
      | ok c' => cases h
  | ok c =>
      cases y with
      | error e' => cases h
      | ok c' => exact congrArg handOn (Except.ok.inj h)

theorem clear_sampled {c : RCConfig} (hs : c.store.Clear env) :
    (sampled env c).store.Clear env := by
  rcases sampled_cases env c with
    ⟨v, k, s, s', rfl, h, -, hclear⟩ | ⟨e, sc, k, s, s', rfl, h, -, hclear⟩
  · rw [h]
    exact hclear.mpr hs
  · rw [h]
    exact hclear.mpr hs

/-- What the steps from configurations of one view lead to. -/
theorem stepBy_congr (henv : env.Uniform) {c c' : RCConfig}
    (hview : contractConfig env c = contractConfig env c') (hacts : silent env c = false)
    (hacts' : silent env c' = false) (hs : c.store.Clear env) (hs' : c'.store.Clear env)
    (hlabel : delivery env c = delivery env c') :
    System.SameOutcome (shownConfig env) (shownResult env)
      (stepBy transitionPlain env c) (stepBy transition env c') := by
  rw [stepBy_eq, stepBy_eq]
  rw [← contractConfig_sampled env c, ← contractConfig_sampled env c'] at hview
  rw [← silent_sampled] at hacts hacts'
  rw [← delivery_sampled henv hs, ← delivery_sampled henv hs'] at hlabel
  replace hs := clear_sampled hs
  replace hs' := clear_sampled hs'
  generalize sampled env c = d at *
  generalize sampled env c' = d' at *
  have hsteps : (transitionPlain env d).map (contractConfig env) =
      (transition env d').map (contractConfig env) :=
    (transitionPlain_view henv hs).trans (transition_congr henv hview hacts hacts' hs hs' hlabel)
  cases d with
  | eval e sc k s =>
      cases d' with
      | ret v' k' s' => cases hview
      | eval e' sc' k' s' => exact sameOutcome_of_map hsteps
  | ret v k s =>
      cases d' with
      | eval e' sc' k' s' => cases hview
      | ret v' k' s' =>
          simp only [contractConfig, RCConfig.ret.injEq] at hview
          rcases hview with ⟨hv, hk, hstore⟩
          cases k with
          | nil =>
              cases contractKont_eq_nil hacts' hk.symm
              exact congrArg Except.ok (Prod.ext hv hstore)
          | cons fr k =>
              cases k' with
              | nil => cases contractKont_eq_nil hacts hk
              | cons fr' k' => exact sameOutcome_of_map hsteps

/-- The two machines take steps that look alike, as long as operations are delivered to one
place. -/
theorem inStep_runPlain_runRC (henv : env.Uniform) :
    System.InStep (runPlain env) (runRC env) (shownConfig env) (shownResult env) (silent env)
      (delivery env) (fun c => c.store.Clear env) where
  quiet := by
    intro c hc
    cases c with
    | ret v k s => rfl
    | eval e sc k s =>
        cases e with
        | ret a => rfl
        | _ => cases hc
  labelled := by
    intro c c' hview hacts hacts' hs hs'
    rw [shownConfig_of_acts hacts, shownConfig_of_acts hacts'] at hview
    exact delivery_isSome_congr henv hview hs hs'
  step := by
    intro c c' hview hacts hacts' hs hs' hlabel
    rw [shownConfig_of_acts hacts, shownConfig_of_acts hacts'] at hview
    exact stepBy_congr henv hview hacts hacts' hs hs' hlabel

/-- The stores that two configurations of one view act on look alike. -/
theorem shownStore_congr {c c' : RCConfig} (hview : shownConfig env c = shownConfig env c')
    (hacts : silent env c = false) (hacts' : silent env c' = false) :
    shownStore env c = shownStore env c' := by
  rw [shownConfig_of_acts hacts, shownConfig_of_acts hacts'] at hview
  simp only [shownStore, hacts, hacts', Bool.false_eq_true, if_false]
  cases c with
  | ret v k s =>
      cases c' with
      | ret v' k' s' =>
          simp only [contractConfig, RCConfig.ret.injEq] at hview
          exact congrArg some hview.2.2
      | eval e' sc' k' s' => cases hview
  | eval e sc k s =>
      cases c' with
      | ret v' k' s' => cases hview
      | eval e' sc' k' s' =>
          simp only [contractConfig, RCConfig.eval.injEq] at hview
          exact congrArg some hview.2.2.2

theorem shownStore_silent {c : RCConfig} (h : silent env c = true) : shownStore env c = none :=
  if_pos h

namespace TailRun

/-- The abstract heap takes no memory from the C runtime. -/
def noMemory : Allocator where
  pick := fun _ => none
  buffer := fun _ => none
  fresh := nofun
  aligned := nofun

/-- Variable 40 lives in the arena of its activation. -/
def runEnv : RCEnv where
  prims := rcIntrinsicTable
  placement := fun u => if u.id = 40 then some .arena else none
  sliceRep := fun _ => none
  forceWindow := []
  deathTest := false
  kontStat := true
  allocator := noMemory

theorem uniform_runEnv : runEnv.Uniform where
  allocator := ⟨fun _ => rfl, fun _ => rfl⟩
  prims := fun _ _ h => uniform_rcIntrinsicTable runEnv h

def var (i : Int) : Atom := .var ⟨"x", ⟨i⟩⟩

def bind (i : Int) : Binder := ⟨⟨"x", ⟨i⟩⟩, .con .u64 []⟩

def start (e : Expr) : RCConfig := .eval e ⟨[], []⟩ [] (emptyStore .abstractHeap)

/-- `self n = case n of { Z -> 7; S m -> let p = P 1 in let r = other m in r }`, with `p` in
the arena of the activation. -/
def countdown (self other : Int) : Def :=
  ⟨bind self, [bind 32],
    .case_ (var 32)
      [.con "Z" [] (.ret (.lit (.int 7))),
       .con "S" [bind 33]
        (.let_ (bind 40) (.con "P" [.lit (.int 1)])
          (.let_ (bind 34) (.app (var other) [var 33]) (.ret (var 34))))]⟩

/-- Two members that call each other in tail position, from `S (S Z)` on. -/
def pingPong : Expr :=
  .letRec [countdown 30 31, countdown 31 30]
  <| .let_ (bind 35) (.con "Z" [])
  <| .let_ (bind 36) (.con "S" [var 35])
  <| .let_ (bind 37) (.con "S" [var 36])
  <| .let_ (bind 38) (.app (var 30) [var 37]) (.ret (var 38))

/-- No continuation is in the heap, and no operation goes through a handle. -/
def handlerFree (env : RCEnv) (c : RCConfig) : Bool :=
  (delivery env c).isNone && c.store.cells.entries.all fun e =>
    match e.2.node with
    | .cont .. => false
    | _ => true

theorem clear_of_handlerFree {c : RCConfig} (h : handlerFree env c = true) :
    c.store.Clear env := by
  rw [handlerFree, Bool.and_eq_true] at h
  intro i cell hc
  have hmem : (⟨i, cell⟩ : (_ : Int) × Cell) ∈ c.store.cells.entries :=
    AList.mem_lookup_iff.mp hc
  have hcell := List.all_eq_true.mp h.2 _ hmem
  rcases cell with ⟨rc, node, bytes⟩
  cases node with
  | cont pfx h tag sc => cases hcell
  | _ => trivial

/-- A run that has been checked meets what the contraction asks of it. -/
theorem handlerFree_run {M : System RCConfig (Except Fault (RCValue × Store))} {n : Nat}
    {c : RCConfig} (h : M.checks (handlerFree env) n c = true) :
    M.Throughout (fun c => c.store.Clear env) c ∧
      ∀ m, M.record (delivery env) m c = [] := by
  have hall : M.Throughout (fun c => handlerFree env c = true) c :=
    fun d hd => System.forall_reach_of_checks h hd
  refine ⟨fun d hd => clear_of_handlerFree (hall d hd), fun m => ?_⟩
  apply System.record_eq_nil
  intro d hd
  have hfree : handlerFree env d = true := hall d hd
  rw [handlerFree, Bool.and_eq_true] at hfree
  exact Option.isNone_iff_eq_none.mp hfree.1

theorem handlerFree_runPlain :
    (runPlain runEnv).checks (handlerFree runEnv) 80 (start pingPong) = true := by
  decide +kernel

theorem handlerFree_runRC :
    (runRC runEnv).checks (handlerFree runEnv) 80 (start pingPong) = true := by
  decide +kernel

/-- `let f = \x. x in let t = f 7 in t` -/
def tailCall : Expr :=
  .let_ (bind 1) (.lam [bind 2] (.ret (var 2)))
  <| .let_ (bind 3) (.app (var 1) [.lit (.int 7)]) (.ret (var 3))

def handler (resume : Int) (body : Expr) (self : Option Binder) : Handler :=
  ⟨bind 20, .ret (var 20), [⟨"State", "get", [], bind resume, body⟩], none, none, self⟩

/-- A function that handles `get` with 7 around its argument, which gets the handle of the
activation. The first call gives its handle away; the second one, in tail position, performs
`get` through that handle. -/
def staleHandle : Expr :=
  .let_ (bind 1)
    (.lam [bind 2] (.handle
      (.let_ (bind 3) (.app (var 2) [var 4]) (.ret (var 3)))
      (handler 21 (.let_ (bind 22) (.app (var 21) [.lit (.int 7)]) (.ret (var 22)))
        (some (bind 4)))))
  <| .let_ (bind 5) (.lam [bind 6] (.ret (var 6)))
  <| .let_ (bind 7) (.app (var 1) [var 5])
  <| .let_ (bind 8)
    (.lam [bind 9] (.let_ (bind 10) (.op (some (var 7)) "State" "get" []) (.ret (var 10))))
  <| .let_ (bind 11) (.app (var 1) [var 8]) (.ret (var 11))

/-- A call in tail position with a reuse token in scope, which performs an operation whose
arm drops the continuation. -/
def tokenInScope : Expr :=
  .let_ (bind 1)
    (.lam [bind 2] (.let_ (bind 3) (.op none "State" "get" []) (.ret (var 3))))
  <| .handle
    (.let_ (bind 4) (.con "Box" [.lit (.int 1)])
    <| .let_ (bind 5) (.app (.var ⟨"__rc_drop_reuse", ⟨-1⟩⟩) [var 4])
    <| .let_ (bind 6) (.app (var 1) [.lit (.int 0)]) (.ret (var 6)))
    (handler 21
      (.let_ (bind 22) (.app (.var ⟨"__rc_drop", ⟨-1⟩⟩) [var 21]) (.ret (.lit (.int 7))))
      none)

def valueOf (r : Except Fault (RCValue × Store)) : Except Fault RCValue := r.map (·.1)

def kontPeakOf (r : Except Fault (RCValue × Store)) : Option Nat :=
  r.toOption.map (·.2.stats.kontPeak)

/-- The frees of a run and the shells that it leaves reserved. -/
def shellsOf (r : Except Fault (RCValue × Store)) : Option (Int × Nat) :=
  r.toOption.map fun vs => (vs.2.stats.frees, vs.2.reserved.card)

end TailRun

end Wok.Interp.RC
