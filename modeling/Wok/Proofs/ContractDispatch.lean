/-
Module: Wok.Proofs.ContractDispatch
Purpose: One step of the counted machine in the view, with the contraction and without:
  handlers by their place, operations that are delivered to one place, and calls.
Imports: Wok.Proofs.ContractEval
Trusted boundary: none
Main exports: nthHandler, rcDispatchOp_congr, contractKont_callKont, transitionPlain_view,
  transition_congr
-/
import Wok.Proofs.ContractEval

namespace Wok.Interp.RC

open Wok.IR
open Wok.Interp (Target coversOp instOk)
open Wok.Lib (Commutes map_bind_congr)

variable {env : RCEnv} {A : Allocator} {s s' : Store} {sc sc' : RCScope} {k k' : RCKont}

/-! ### Handlers by their place -/

/-- The handler with `n` handlers above it. -/
def nthHandler : Nat → RCKont → Option RCFound
  | _, [] => none
  | 0, .handle h tag sc :: k => some ⟨[], h, tag, sc, k⟩
  | n + 1, .handle h tag sc :: k => (nthHandler n k).map (·.push (.handle h tag sc))
  | n, .let_ b e sc :: k => (nthHandler n k).map (·.push (.let_ b e sc))
  | n, .app vs :: k => (nthHandler n k).map (·.push (.app vs))
  | n, .dropCell a :: k => (nthHandler n k).map (·.push (.dropCell a))
  | n, .arenaClose :: k => (nthHandler n k).map (·.push .arenaClose)
  | n, .windowClose :: k => (nthHandler n k).map (·.push .windowClose)
  | n, .borrowClose :: k => (nthHandler n k).map (·.push .borrowClose)

/-- The handler that was found is the one at its place. -/
theorem nthHandler_of_rcFindHandler {target : Target} {label op : String} {f : RCFound}
    (h : rcFindHandler target label op k = some f) :
    nthHandler (handlerCount f.above) k = some f := by
  induction k generalizing f with
  | nil => cases h
  | cons fr k ih =>
      cases fr with
      | handle h' tag sc =>
          simp only [rcFindHandler] at h
          split_ifs at h
          · cases h
            rfl
          · rcases Option.map_eq_some_iff.mp h with ⟨g, hg, rfl⟩
            have hcount : handlerCount (g.push (.handle h' tag sc)).above =
                handlerCount g.above + 1 := by
              simp [handlerCount, RCFound.push]
            rw [hcount, nthHandler, ih hg]
            rfl
      | _ =>
          rcases Option.map_eq_some_iff.mp h with ⟨g, hg, rfl⟩
          have hcount : ∀ fr, (∀ h' tag sc, fr ≠ .handle h' tag sc) →
              handlerCount (g.push fr).above = handlerCount g.above := by
            intro fr hfr
            cases fr with
            | handle h' tag sc => exact (hfr h' tag sc rfl).elim
            | _ => simp [handlerCount, RCFound.push]
          rw [hcount _ (by intro _ _ _ hne; cases hne), nthHandler, ih hg]
          rfl

theorem contractFound_push (env : RCEnv) (fr : RCFrame) (f : RCFound) :
    contractFound env (f.push fr) =
      { contractFound env f with above := contractFrame env fr ++ contractKont env f.above } := by
  simp only [RCFound.push, contractFound, contractKont_cons]

/-- Frames that only hand a value on do not change the places of handlers. -/
theorem nthHandler_contract (env : RCEnv) (n : Nat) (k : RCKont) :
    nthHandler n (contractKont env k) = (nthHandler n k).map (contractFound env) := by
  induction k generalizing n with
  | nil => rw [contractKont_nil]; rfl
  | cons fr k ih =>
      cases fr with
      | handle h tag sc =>
          rw [contractKont_handle]
          cases n with
          | zero => simp only [nthHandler, Option.map_some, contractFound, contractKont_nil]
          | succ n =>
              simp only [nthHandler, ih, Option.map_map]
              congr 1
      | let_ b body sc =>
          cases hinert : inert env b body with
          | true =>
              rw [contractKont_inert hinert, ih]
              simp only [nthHandler, Option.map_map]
              congr 1
              funext f
              simp only [Function.comp_apply, contractFound_push, contractFrame, hinert, if_true,
                List.nil_append]
              rfl
          | false =>
              rw [contractKont_let hinert]
              simp only [nthHandler, ih, Option.map_map]
              congr 1
              funext f
              simp only [Function.comp_apply, contractFound_push, contractFrame, hinert,
                Bool.false_eq_true, if_false]
              rfl
      | _ =>
          simp only [contractKont_app, contractKont_dropCell, contractKont_arenaClose,
            contractKont_windowClose, contractKont_borrowClose, nthHandler, ih, Option.map_map]
          congr 1

/-- What is found at one place of two continuations that look alike looks alike. -/
theorem nthHandler_congr (hk : contractKont env k = contractKont env k') (n : Nat) :
    (nthHandler n k).map (contractFound env) = (nthHandler n k').map (contractFound env) := by
  rw [← nthHandler_contract, ← nthHandler_contract, hk]

/-- The handlers on a continuation, innermost first. -/
def handlersOf (k : RCKont) : List Handler :=
  k.filterMap fun
    | .handle h _ _ => some h
    | _ => none

theorem handlersOf_contract (env : RCEnv) (k : RCKont) :
    handlersOf (contractKont env k) = handlersOf k := by
  induction k with
  | nil => rw [contractKont_nil]
  | cons fr k ih =>
      have hframe : handlersOf (contractFrame env fr) = handlersOf [fr] := by
        cases fr with
        | let_ b body sc =>
            rw [contractFrame]
            split_ifs <;> rfl
        | _ => rfl
      rw [contractKont_cons, handlersOf, List.filterMap_append]
      change handlersOf (contractFrame env fr) ++ handlersOf (contractKont env k) = _
      rw [hframe, ih, handlersOf, handlersOf, ← List.filterMap_append]
      rfl

/-- An operation without a handle goes to the first handler that covers it. -/
theorem handlerIndex_none (label op : String) (k : RCKont) :
    handlerIndex none label op k = (handlersOf k).findIdx? (coversOp label op) := by
  induction k with
  | nil => rfl
  | cons fr k ih =>
      unfold handlerIndex at ih ⊢
      cases fr with
      | handle h tag sc =>
          have hhandlers : handlersOf (.handle h tag sc :: k) = h :: handlersOf k := rfl
          rw [hhandlers, List.findIdx?_cons, ← ih, rcFindHandler, instOk, Bool.and_true]
          split_ifs
          · rfl
          · rw [Option.map_map, Option.map_map]
            congr 1
            funext f
            simp [handlerCount, RCFound.push]
      | _ =>
          refine Eq.trans ?_ ih
          rw [rcFindHandler, Option.map_map]
          congr 1

theorem handlerIndex_congr (hk : contractKont env k = contractKont env k') (label op : String) :
    handlerIndex none label op k = handlerIndex none label op k' := by
  rw [handlerIndex_none, handlerIndex_none, ← handlersOf_contract env k, hk,
    handlersOf_contract]

/-! ### Operations -/

/-- An operation that goes to the same place in both machines does the same there. -/
theorem rcDispatchOp_congr (hA : A.Uniform env) {target target' : Target} {label op : String}
    {vs vs' : List RCValue} (hk : contractKont env k = contractKont env k')
    (hstore : contractStore env s = contractStore env s')
    (hvs : vs.map contractValue = vs'.map contractValue)
    (hindex : handlerIndex target label op k = handlerIndex target' label op k') :
    (rcDispatchOp A target label op vs k s).map (contractConfig env) =
      (rcDispatchOp A target' label op vs' k' s').map (contractConfig env) := by
  unfold handlerIndex at hindex
  unfold rcDispatchOp
  cases hf : rcFindHandler target label op k with
  | none =>
      cases hf' : rcFindHandler target' label op k' with
      | none => rfl
      | some f' => rw [hf, hf'] at hindex; cases hindex
  | some f =>
      cases hf' : rcFindHandler target' label op k' with
      | none => rw [hf, hf'] at hindex; cases hindex
      | some f' =>
          rw [hf, hf'] at hindex
          have hplace : handlerCount f.above = handlerCount f'.above := Option.some.inj hindex
          have hn := nthHandler_congr hk (handlerCount f.above)
          rw [nthHandler_of_rcFindHandler hf, hplace, nthHandler_of_rcFindHandler hf'] at hn
          have hfound : contractFound env f = contractFound env f' := Option.some.inj hn
          apply (runArm_commutes hA label op vs s f).congr (runArm_commutes hA label op vs' s' f')
          rw [hvs, hstore, hfound]

/-! ### Calls -/

theorem callKont_eq (env : RCEnv) (b : Binder) (body : Expr) (sc : RCScope) (k : RCKont) :
    callKont env b body sc k = if inert env b body then k else .let_ b body sc :: k := by
  simp [callKont, inert]

/-- The frame that the contraction leaves out is not in the view. -/
theorem contractKont_callKont (env : RCEnv) (b : Binder) (body : Expr) (sc : RCScope)
    (k : RCKont) :
    contractKont env (callKont env b body sc k) = contractKont env (.let_ b body sc :: k) := by
  rw [callKont_eq]
  split_ifs with hinert
  · rw [contractKont_inert hinert]
  · rfl

theorem callKont_contract (env : RCEnv) (b : Binder) (body : Expr) (sc : RCScope) (k : RCKont) :
    callKont env b body (contractScope env sc) (contractKont env k) =
      contractKont env (callKont env b body sc k) := by
  rw [callKont_eq, callKont_eq]
  split_ifs with hinert
  · rfl
  · rw [contractKont_let (by simpa using hinert)]

/-- A call under any continuation of one view. -/
theorem call_commutes (henv : env.Uniform) (f : Atom) (as : List Atom) (sc : RCScope)
    (hs : s.Clear env) (k : RCKont) :
    Commutes (contractConfig env) (fun _ => True)
      (do
        let (vs, s₁) ← resolveRCAtomsAlloc env.allocator sc as s
        callFn env sc f vs k s₁)
      (do
        let (vs, s₁) ← resolveRCAtomsAlloc env.allocator (contractScope env sc) as
          (contractStore env s)
        callFn env (contractScope env sc) f vs (contractKont env k) s₁) :=
  .bind (resolveRCAtomsAlloc_commutes henv.allocator sc as hs)
    fun r h₁ => callFn_commutes henv sc f r.1 k h₁

/-- Both machines do the same, as far as the view goes. -/
theorem transitionPlain_view (henv : env.Uniform) {c : RCConfig} (hs : c.store.Clear env) :
    (transitionPlain env c).map (contractConfig env) =
      (transition env c).map (contractConfig env) := by
  unfold transitionPlain
  split
  next b f as body sc k s =>
    apply (call_commutes henv f as sc hs (.let_ b body sc :: k)).congr
      (call_commutes henv f as sc hs (callKont env b body sc k))
    rw [contractKont_callKont]
  · rfl

/-! ### One step in the view -/

/-- Whether a step depends on the tags of activations: it installs a handler or performs an
operation. -/
def tagged : Expr → Bool
  | .handle .. => true
  | .let_ _ (.op ..) _ => true
  | _ => false

theorem evalExprRC_commutes (henv : env.Uniform) {e : Expr} (he : tagged e = false)
    (sc : RCScope) (k : RCKont) (hs : s.Clear env) :
    Commutes (contractConfig env) (fun _ => True) (evalExprRC env e sc k s)
      (evalExprRC env e (contractScope env sc) (contractKont env k) (contractStore env s)) := by
  cases e with
  | ret a =>
      exact .bind (resolveRCAtomAlloc_commutes henv.allocator sc a hs) fun r _ => .ok rfl trivial
  | let_ b rhs body =>
      have hvalue := rhsValue_commutes henv.allocator b rhs sc hs
      have hbind : ∀ r : RCValue × Store,
          Commutes (contractConfig env) (fun _ => True)
            (.ok (bindConfig b body sc k r) : Except Fault RCConfig)
            (.ok (bindConfig b body (contractScope env sc) (contractKont env k)
              (contractWith env contractValue r))) :=
        fun r => .ok (bindConfig_contract env b body sc k r) trivial
      cases rhs with
      | app f as =>
          have hcall := call_commutes henv f as sc hs (callKont env b body sc k)
          rw [← callKont_contract] at hcall
          exact hcall
      | op inst label op as => cases he
      | _ => exact .bind hvalue fun r _ => hbind r
  | letRec defs body => exact .ok (letRecRC_contract env defs body sc k s) trivial
  | case_ a alts =>
      exact .bind (resolveRCAtom_commutes env sc a)
        fun v _ => matchAltsRC_commutes env v alts sc k s
  | letJoin j ps jb body =>
      refine .ok ?_ trivial
      simp only [contractConfig, contractScope_mk, contractScope_env, contractScope_joins,
        Lib.mapSnd_cons, contractJoin]
  | jump j args =>
      exact .bind (resolveRCAtomsAlloc_commutes henv.allocator sc args hs)
        fun r _ => jumpRC_commutes env j sc r.1 r.2
  | handle body h => cases he
  | installHandler a self body => exact .error _

/-- The tag of an activation is not in the view. -/
theorem selfScopeRC_contract (env : RCEnv) (self : Option Binder) (tag : Nat) (sc : RCScope) :
    contractScope env (selfScopeRC self tag sc) = selfScopeRC self 0 (contractScope env sc) := by
  cases self with
  | none => rfl
  | some sb =>
      have hbind := bindRCBinder_contract sb (.inst (binderUnique sb) tag) sc.env
      simp only [contractValue] at hbind
      simp only [selfScopeRC, contractScope_bindEnv, contractScope_env, hbind]

theorem contractKont_let_congr (b : Binder) (body : Expr)
    (hsc : contractScope env sc = contractScope env sc')
    (hk : contractKont env k = contractKont env k') :
    contractKont env (.let_ b body sc :: k) = contractKont env (.let_ b body sc' :: k') := by
  rw [contractKont_cons, contractKont_cons, hk, contractFrame, contractFrame, hsc]

theorem handlerIndex_let (target : Target) (label op : String) (b : Binder) (body : Expr)
    (sc : RCScope) (k : RCKont) :
    handlerIndex target label op (.let_ b body sc :: k) = handlerIndex target label op k := by
  rw [handlerIndex, handlerIndex, rcFindHandler, Option.map_map]
  congr 1

/-- An operation, where both machines deliver it to one place. -/
theorem performs_congr (henv : env.Uniform) (inst : Option Atom) (label op : String)
    (as : List Atom) (b : Binder) (body : Expr)
    (hsc : contractScope env sc = contractScope env sc')
    (hk : contractKont env k = contractKont env k')
    (hstore : contractStore env s = contractStore env s') (hs : s.Clear env)
    (hs' : s'.Clear env)
    (hlabel : delivery env (.eval (.let_ b (.op inst label op as) body) sc k s) =
      delivery env (.eval (.let_ b (.op inst label op as) body) sc' k' s')) :
    (evalRhsRC env b (.op inst label op as) body sc k s).map (contractConfig env) =
      (evalRhsRC env b (.op inst label op as) body sc' k' s').map (contractConfig env) := by
  have hA := henv.allocator
  have hatoms := (resolveRCAtomsAlloc_commutes hA sc as hs).congr
    (resolveRCAtomsAlloc_commutes hA sc' as hs') (by rw [hsc, hstore])
  have hinst := (resolveInstRC_commutes env sc inst).congr (resolveInstRC_commutes env sc' inst)
    (by rw [hsc])
  refine map_bind_congr hatoms fun r r' hr hr' hviews => ?_
  refine map_bind_congr hinst fun t t' ht ht' _ => ?_
  simp only [contractWith, Prod.mk.injEq] at hviews
  apply rcDispatchOp_congr hA (contractKont_let_congr b body hsc hk) hviews.2 hviews.1
  rw [handlerIndex_let, handlerIndex_let]
  cases inst with
  | none =>
      cases ht
      cases ht'
      exact handlerIndex_congr hk label op
  | some a =>
      simp only [delivery, hr, hr', ht, ht'] at hlabel
      exact Option.some.inj hlabel

theorem inert_of_acts {v : RCValue} {fr : RCFrame}
    (h : silent env (.ret v (fr :: k) s) = false) (b : Binder) (body : Expr) (sc : RCScope)
    (hfr : fr = .let_ b body sc) : inert env b body = false := by
  subst hfr
  exact h

/-- A continuation that is empty in the view begins with a frame that is left out, or is
empty. -/
theorem contractKont_eq_nil {v : RCValue} (h : silent env (.ret v k s) = false)
    (hk : contractKont env k = []) : k = [] := by
  cases k with
  | nil => rfl
  | cons fr k =>
      cases fr with
      | let_ b body sc =>
          rw [contractKont_let (inert_of_acts h b body sc rfl)] at hk
          cases hk
      | _ => cases hk

/-- A return to the same frame, in both machines. -/
theorem returnToRC_congr (henv : env.Uniform) {v v' : RCValue}
    (hv : contractValue v = contractValue v') (hk : contractKont env k = contractKont env k')
    (hstore : contractStore env s = contractStore env s')
    (hacts : silent env (.ret v k s) = false) (hacts' : silent env (.ret v' k' s') = false)
    (hs : s.Clear env) (hs' : s'.Clear env) :
    (returnToRC env v k s).map (contractConfig env) =
      (returnToRC env v' k' s').map (contractConfig env) := by
  cases k with
  | nil =>
      rw [contractKont_eq_nil hacts' hk.symm]
      rfl
  | cons fr k =>
      cases k' with
      | nil => cases contractKont_eq_nil hacts hk
      | cons fr' k' =>
          apply (returnToRC_commutes henv.allocator v fr k (inert_of_acts hacts) hs).congr
            (returnToRC_commutes henv.allocator v' fr' k' (inert_of_acts hacts') hs')
          rw [hv, hk, hstore]

/-- Steps from configurations of one view, where operations go to one place, lead to
configurations of one view. -/
theorem transition_congr (henv : env.Uniform) {c c' : RCConfig}
    (hview : contractConfig env c = contractConfig env c') (hacts : silent env c = false)
    (hacts' : silent env c' = false) (hs : c.store.Clear env) (hs' : c'.store.Clear env)
    (hlabel : delivery env c = delivery env c') :
    (transition env c).map (contractConfig env) =
      (transition env c').map (contractConfig env) := by
  cases c with
  | ret v k s =>
      cases c' with
      | eval e' sc' k' s' => cases hview
      | ret v' k' s' =>
          simp only [contractConfig, RCConfig.ret.injEq] at hview
          exact returnToRC_congr henv hview.1 hview.2.1 hview.2.2 hacts hacts' hs hs'
  | eval e sc k s =>
      cases c' with
      | ret v' k' s' => cases hview
      | eval e' sc' k' s' =>
          simp only [contractConfig, RCConfig.eval.injEq] at hview
          rcases hview with ⟨rfl, hsc, hk, hstore⟩
          replace hs : s.Clear env := hs
          replace hs' : s'.Clear env := hs'
          cases he : tagged e with
          | false =>
              apply (evalExprRC_commutes henv he sc k hs).congr
                (evalExprRC_commutes henv he sc' k' hs')
              rw [hsc, hk, hstore]
          | true =>
              cases e with
              | handle body h =>
                  refine congrArg Except.ok ?_
                  simp only [contractConfig, contractKont_handle, selfScopeRC_contract, hsc, hk,
                    hstore]
              | let_ b rhs body =>
                  cases rhs with
                  | op inst label op as =>
                      exact performs_congr henv inst label op as b body hsc hk hstore hs hs' hlabel
                  | _ => cases he
              | _ => cases he

end Wok.Interp.RC
