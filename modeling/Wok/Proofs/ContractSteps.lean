/-
Module: Wok.Proofs.ContractSteps
Purpose: The steps of the counted machine do not look through the view, but for the
  handler that a named operation is delivered to.
Imports: Wok.Proofs.ContractDrop
Trusted boundary: none
Main exports: callFn_commutes, rhsValue_commutes, runArm_commutes, returnToRC_commutes
-/
import Wok.Proofs.ContractDrop

namespace Wok.Interp.RC

open Wok.IR
open Wok.Interp (Target)
open Wok.Lib (Commutes mapVal mapSnd lookup_mapSnd)

variable {env : RCEnv} {A : Allocator} {s s' : Store} {sc : RCScope} {k : RCKont}

/-! ### Atoms -/

theorem resolveRCAtom_contract (env : RCEnv) (sc : RCScope) (a : Atom) :
    resolveRCAtom (contractScope env sc) a = (resolveRCAtom sc a).map contractValue := by
  cases a with
  | var n =>
      simp only [resolveRCAtom, contractScope_env, lookup_contractEnv]
      cases sc.env.lookup n.uniq <;> rfl
  | lit l => rfl
  | prim m name => rfl

theorem resolveRCAtom_commutes (env : RCEnv) (sc : RCScope) (a : Atom) :
    Commutes contractValue (fun _ => True) (resolveRCAtom sc a)
      (resolveRCAtom (contractScope env sc) a) :=
  .of_view (resolveRCAtom_contract env sc a)

theorem resolveRCAtomAlloc_commutes (hA : A.Uniform env) (sc : RCScope) (a : Atom)
    (hs : s.Clear env) :
    Commutes (contractWith env contractValue) (fun r => r.2.Clear env)
      (resolveRCAtomAlloc A sc a s)
      (resolveRCAtomAlloc A (contractScope env sc) a (contractStore env s)) := by
  unfold resolveRCAtomAlloc
  split
  next t =>
    exact .bind (alloc_commutes hA (n := .string (encodeUtf8 t)) hs trivial)
      fun r h₁ => .ok rfl h₁
  · exact .bind (resolveRCAtom_commutes env sc a) fun v _ => .ok rfl hs

theorem resolveRCAtomsAlloc_commutes (hA : A.Uniform env) (sc : RCScope) (as : List Atom)
    (hs : s.Clear env) :
    Commutes (contractWith env (List.map contractValue)) (fun r => r.2.Clear env)
      (resolveRCAtomsAlloc A sc as s)
      (resolveRCAtomsAlloc A (contractScope env sc) as (contractStore env s)) := by
  induction as generalizing s with
  | nil => exact .ok rfl hs
  | cons a as ih =>
      refine .bind (resolveRCAtomAlloc_commutes hA sc a hs) fun r h₁ => ?_
      exact .bind (ih h₁) fun r' h₂ => .ok rfl h₂

/-- The handle of an activation without its tag. -/
def untagged (t : Target) : Target := t.map fun ut => (ut.1, 0)

theorem resolveInstRC_commutes (env : RCEnv) (sc : RCScope) (inst : Option Atom) :
    Commutes untagged (fun _ => True) (resolveInstRC sc inst)
      (resolveInstRC (contractScope env sc) inst) := by
  cases inst with
  | none => exact .ok rfl trivial
  | some a =>
      refine .bind (resolveRCAtom_commutes env sc a) fun v _ => ?_
      cases v with
      | inst u t => exact .ok rfl trivial
      | _ => exact .error _

/-! ### Bodies -/

theorem arenaBracket_commutes (env : RCEnv) (body : Expr) (sc : RCScope) (k : RCKont)
    (s : Store) (opens : Bool) :
    Commutes (contractConfig env) (fun _ => True)
      (if opens then do
        let s' ← arenaOpenRC s
        return .eval body sc (.arenaClose :: k) s'
      else .ok (.eval body sc k s))
      (if opens then do
        let s' ← arenaOpenRC (contractStore env s)
        return .eval body (contractScope env sc) (.arenaClose :: contractKont env k) s'
      else .ok (.eval body (contractScope env sc) (contractKont env k) (contractStore env s))) := by
  refine .ite ?_ (.ok rfl trivial)
  refine .bind (arenaOpenRC_commutes env s) fun s₁ _ => .ok ?_ trivial
  rw [contractConfig, contractKont_arenaClose]

theorem enterBodyRC_commutes (env : RCEnv) (body : Expr) (sc : RCScope) (k : RCKont)
    (s : Store) :
    Commutes (contractConfig env) (fun _ => True) (enterBodyRC env body sc k s)
      (enterBodyRC env body (contractScope env sc) (contractKont env k)
        (contractStore env s)) := by
  have hwindow : ∀ st, windowOpen (contractStore env st) = contractStore env (windowOpen st) :=
    fun _ => rfl
  have hborrow : ∀ st, borrowOpen (contractStore env st) = contractStore env (borrowOpen st) :=
    fun _ => rfl
  unfold enterBodyRC
  cases bodyLendsBorrow body <;> cases env.deathTest <;>
    simp only [if_true, if_false, Bool.false_eq_true, hwindow, hborrow,
      ← contractKont_windowClose, ← contractKont_borrowClose] <;>
    exact arenaBracket_commutes env body sc _ _ _

/-! ### Closures -/

@[simp] theorem contractKont_deferConsume (env : RCEnv) (consumes : Bool) (a : Addr)
    (k : RCKont) :
    contractKont env (deferConsume consumes a k) =
      deferConsume consumes a (contractKont env k) := by
  cases consumes with
  | false => rfl
  | true => exact contractKont_dropCell env a k

theorem contractScope_bound (env : RCEnv) (ps : List Binder) (vs : List RCValue) (e : REnv) :
    contractScope env ⟨bindRCBinders ps vs e, []⟩ =
      ⟨bindRCBinders ps (vs.map contractValue) (contractEnv e), []⟩ := by
  rw [contractScope_mk, bindRCBinders_contract]
  rfl

/-- The rest of the arguments is applied when the body has returned. -/
theorem contractKont_over (env : RCEnv) (n : Nat) (vs : List RCValue) (k : RCKont) :
    contractKont env (.app (vs.drop n) :: k) =
      .app ((vs.map contractValue).drop n) :: contractKont env k := by
  rw [contractKont_app, List.map_drop]

/-- The cell of a partial application, when the cell that was applied is used up or not. -/
theorem retAfterDrop_commutes (consumes : Bool) (a a' : Addr) (k : RCKont) (hs : s.Clear env) :
    Commutes (contractConfig env) (fun _ => True)
      (if consumes then do
        let s₃ ← drop a s
        return .ret (.box a') k s₃
      else do
        let s₃ ← .ok s
        return .ret (.box a') k s₃)
      (if consumes then do
        let s₃ ← drop a (contractStore env s)
        return .ret (.box a') (contractKont env k) s₃
      else do
        let s₃ ← .ok (contractStore env s)
        return .ret (.box a') (contractKont env k) s₃) :=
  .ite (.bind (drop_commutes a hs) fun _ _ => .ok rfl trivial) (.ok rfl trivial)

theorem enterClosure_commutes (hA : env.allocator.Uniform env) (borrowHead : Bool) (addr : Addr)
    (cenv : REnv) (ps : List Binder) (body : Expr) (mode : CaptureMode) (args : List RCValue)
    (k : RCKont) (hs : s.Clear env) :
    Commutes (contractConfig env) (fun _ => True)
      (enterClosure borrowHead env addr cenv ps body mode args k s)
      (enterClosure borrowHead env addr (contractEnv cenv) ps body mode (args.map contractValue)
        (contractKont env k) (contractStore env s)) := by
  unfold enterClosure
  simp only [closureOwnedBoxed_contract, List.length_map, map_snd_contractEnv,
    countedRefs_contract, ← List.map_take]
  refine .ite ?_ (.ite ?_ ?_)
  · refine .bind (increfAll_commutes _ hs) fun s₁ _ => ?_
    rw [← contractScope_bound, ← contractKont_deferConsume]
    exact enterBodyRC_commutes env body _ _ s₁
  · rw [bindRCBinders_contract]
    refine .bind (alloc_commutes hA (n := .closure _ _ body mode) hs trivial) fun r h₁ => ?_
    refine .bind (increfAll_commutes _ h₁) fun s₂ h₂ => ?_
    exact retAfterDrop_commutes _ addr r.1 k h₂
  · refine .bind (increfAll_commutes _ hs) fun s₁ _ => ?_
    rw [← contractScope_bound, ← contractKont_deferConsume, ← contractKont_over]
    exact enterBodyRC_commutes env body _ _ s₁

/-! ### Members of a recursive group -/

theorem memberEnv_commutes (env : RCEnv) (e : Addr) (s : Store) :
    Commutes contractEnv (fun _ => True) (memberEnv e s) (memberEnv e (contractStore env s)) := by
  cases e with
  | heap i =>
      simp only [memberEnv, derefPure_contract]
      cases derefPure i s with
      | error err => exact .ite (.ok rfl trivial) (.error _)
      | ok c =>
          rcases c with ⟨rc, node, bytes⟩
          cases node with
          | env m => exact .ok rfl trivial
          | _ => exact .ite (.ok rfl trivial) (.error _)
  | _ => exact .error _

theorem map_contractValue_siblings (group : Addr) (defs : List Def) (e : Addr) :
    (siblings group defs e).map contractValue = siblings group defs e := by
  simp [siblings, Function.comp_def]

theorem enterMember_commutes (hA : env.allocator.Uniform env) (borrowHead : Bool)
    (group : Addr) (i : Nat) (envAddr : Addr) (args : List RCValue) (k : RCKont)
    (hs : s.Clear env) :
    Commutes (contractConfig env) (fun _ => True)
      (enterMember borrowHead env group i envAddr args k s)
      (enterMember borrowHead env group i envAddr (args.map contractValue)
        (contractKont env k) (contractStore env s)) := by
  refine .bind (deref_commutes env group s) fun c _ => ?_
  rcases c with ⟨rc, node, bytes⟩
  cases node with
  | groupCode defs =>
      simp only [contractCell, contractNode]
      cases defs[i]? with
      | none => exact .error _
      | some d =>
          refine .bind (memberEnv_commutes env envAddr s) fun fields _ => ?_
          have hbase : bindRCBinders (defs.map (·.name)) (siblings group defs envAddr)
              (contractEnv fields) =
                contractEnv (bindRCBinders (defs.map (·.name))
                  (siblings group defs envAddr) fields) := by
            rw [← bindRCBinders_contract, map_contractValue_siblings]
          simp only [hbase, List.length_map, ← List.map_take]
          refine .ite ?_ (.ite ?_ ?_)
          · rw [← contractScope_bound, ← contractKont_deferConsume]
            exact enterBodyRC_commutes env d.body _ _ s
          · rw [← contractScope_bound, ← contractKont_deferConsume, ← contractKont_over]
            exact enterBodyRC_commutes env d.body _ _ s
          · rw [bindRCBinders_contract]
            refine .bind (alloc_commutes hA (n := .closure _ _ d.body .borrowCaptures) hs trivial)
              fun r h₁ => ?_
            have howned : countedRefs ((bindRCBinders (defs.map (·.name))
                (siblings group defs envAddr) []).map (·.2) ++ (contractEnv fields).map (·.2)) =
                countedRefs ((bindRCBinders (defs.map (·.name))
                (siblings group defs envAddr) []).map (·.2) ++ fields.map (·.2)) := by
              rw [map_snd_contractEnv, countedRefs_append, countedRefs_contract,
                ← countedRefs_append]
            rw [howned]
            refine .bind (increfAll_commutes _ h₁) fun s₂ h₂ => ?_
            cases borrowHead with
            | true => exact .ok rfl trivial
            | false => exact .bind (drop_commutes envAddr h₂) fun s₃ _ => .ok rfl trivial
  | _ => exact .error _

/-! ### Captured continuations -/

theorem contractScope_bindEnv (env : RCEnv) (e : REnv) (sc : RCScope) :
    contractScope env { sc with env := e } =
      { contractScope env sc with env := contractEnv e } := by
  rw [contractScope_mk]
  simp only [← contractScope_joins]

theorem answerRebindRC_contract (env : RCEnv) (h : Handler) (after : RCKont) (sc : RCScope) :
    answerRebindRC h (contractKont env after) (contractScope env sc) =
      contractScope env (answerRebindRC h after sc) := by
  unfold answerRebindRC
  cases h.answerJoin with
  | none => rfl
  | some j =>
      simp only [contractScope_joins, lookup_mapSnd]
      cases sc.joins.lookup j with
      | none => rfl
      | some jp =>
          rcases jp with ⟨scope, params, body, kont⟩
          simp only [Option.map_some, contractJoin]
          cases params with
          | nil => rfl
          | cons pb0 rest =>
              rcases sc with ⟨e, joins⟩
              simp only [contractScope_mk, Lib.mapSnd_cons, contractJoin]

theorem resumed_contract (env : RCEnv) (v : RCValue) (pfx : RCKont) (h : Handler) (tag : Nat)
    (sc : RCScope) (k : RCKont) (s : Store) :
    RCConfig.ret (contractValue v) (spliceKont (contractKont env pfx)
        (.handle h 0 (answerRebindRC h (contractKont env k) (contractScope env sc)) ::
          contractKont env k)) (contractStore env s) =
      contractConfig env
        (.ret v (spliceKont pfx (.handle h tag (answerRebindRC h k sc) :: k)) s) := by
  rw [contractConfig, spliceKont, spliceKont, contractKont_append, contractKont_handle,
    answerRebindRC_contract]

theorem resumeRC_commutes (env : RCEnv) (addr : Addr) (args : List RCValue) (k : RCKont)
    (s : Store) :
    Commutes (contractConfig env) (fun _ => True) (resumeRC addr args k s)
      (resumeRC addr (args.map contractValue) (contractKont env k) (contractStore env s)) := by
  refine .bind (moveOutCont_view env addr s) fun r _ => ?_
  rcases r with ⟨⟨pfx, h, tag, sc⟩, s₁⟩
  simp only [contractWith, contractCaptured]
  cases hparam : h.param with
  | none =>
      rcases args with _ | ⟨v, _ | ⟨w, args⟩⟩
      · exact .error _
      · exact .ok (resumed_contract env v pfx h tag sc k s₁) trivial
      · exact .error _
  | some pb =>
      rcases args with _ | ⟨v, _ | ⟨w, _ | ⟨x, args⟩⟩⟩
      · exact .error _
      · exact .error _
      · refine .ok ?_ trivial
        rw [contractScope_env, bindRCBinder_contract, ← contractScope_bindEnv]
        exact resumed_contract env w pfx h tag _ k s₁
      · exact .error _

/-! ### Operations -/

/-- What was found on a continuation, in the view. -/
def contractFound (env : RCEnv) (f : RCFound) : RCFound :=
  ⟨contractKont env f.above, f.h, 0, contractScope env f.sc, contractKont env f.below⟩

theorem runArm_commutes (hA : A.Uniform env) (label op : String) (vs : List RCValue)
    (s : Store) (f : RCFound) :
    Commutes (contractConfig env) (fun _ => True) (runArm A label op vs s f)
      (runArm A label op (vs.map contractValue) (contractStore env s) (contractFound env f)) := by
  rcases f with ⟨above, h, tag, sc, below⟩
  unfold runArm
  simp only [contractFound]
  cases Interp.lookupOpArm label op h with
  | none => exact .error _
  | some arm =>
      refine .bind (.of_view (alloc_contract hA (.cont above h tag sc) s)) fun r _ => ?_
      refine .ok ?_ trivial
      rw [contractScope_env, bindRCBinders_contract, ← contractValue_box, bindRCBinder_contract]
      rw [contractConfig, contractScope_mk, contractScope_joins]
      rfl

/-! ### Calls -/

theorem enterRC_commutes (hA : env.allocator.Uniform env) (borrowHead : Bool) (fv : RCValue)
    (args : List RCValue) (k : RCKont) (hs : s.Clear env) :
    Commutes (contractConfig env) (fun _ => True) (enterRC borrowHead env fv args k s)
      (enterRC borrowHead env (contractValue fv) (args.map contractValue) (contractKont env k)
        (contractStore env s)) := by
  cases fv with
  | box addr =>
      refine .bind (deref_commutes env addr s) fun c _ => ?_
      rcases c with ⟨rc, node, bytes⟩
      cases node with
      | closure cenv ps body mode =>
          exact enterClosure_commutes hA borrowHead addr cenv ps body mode args k hs
      | cont pfx h tag sc => exact resumeRC_commutes env addr args k s
      | _ => exact .error _
  | recMember group i envAddr => exact enterMember_commutes hA borrowHead group i envAddr args k hs
  | _ => exact .error _

theorem enterPrim_commutes (henv : env.Uniform) {key : String × String} {p : RCPrim}
    (hp : env.prims key = some p) (args : List RCValue) (k : RCKont) (hs : s.Clear env) :
    Commutes (contractConfig env) (fun _ => True) (enterPrim env p args k s)
      (enterPrim env p (args.map contractValue) (contractKont env k) (contractStore env s)) := by
  have huniform := henv.prims key p hp
  unfold enterPrim
  rw [List.length_map, ← List.map_take, ← List.map_drop]
  refine .ite (.error _) ?_
  refine .bind (P := fun r => r.2.Clear env ∨ ∃ slot, r.1 = .done (.reuse slot))
    ⟨huniform.view _ s hs, fun r hr => huniform.keeps _ s r hs hr⟩ fun r hr => ?_
  rcases r with ⟨r, s₁⟩
  cases r with
  | done v =>
      simp only [contractPrimResult, afterPrim, List.isEmpty_map]
      refine .ite (.ok rfl trivial) ?_
      rcases hr with hclear | ⟨slot, hslot⟩
      · exact enterRC_commutes henv.allocator false v _ k hclear
      · -- a token is not applied
        cases hslot
        exact .error _
  | apply g gargs =>
      rcases hr with hclear | ⟨slot, hslot⟩
      · simp only [contractPrimResult, afterPrim, ← List.map_append]
        exact enterRC_commutes henv.allocator false g _ k hclear
      · cases hslot

/-- A call head in the view. -/
def contractCallee : RCPrim ⊕ RCValue → RCPrim ⊕ RCValue := Sum.map id contractValue

theorem calleeRC_commutes (env : RCEnv) (sc : RCScope) (f : Atom) :
    Commutes contractCallee (fun c => ∀ p, c = .inl p → ∃ key, env.prims key = some p)
      (calleeRC env sc f) (calleeRC env (contractScope env sc) f) := by
  cases f with
  | lit l => exact .error _
  | prim m name =>
      simp only [calleeRC]
      cases hp : env.prims (m, name) with
      | none => exact .error _
      | some p =>
          refine .ok rfl fun q hq => ?_
          cases hq
          exact ⟨_, hp⟩
  | var n =>
      simp only [calleeRC, contractScope_env, lookup_contractEnv]
      cases sc.env.lookup n.uniq with
      | some fv => exact .ok rfl fun q hq => by cases hq
      | none =>
          refine .ite ?_ (.error _)
          cases hp : env.prims ("", n.hint) with
          | none => exact .error _
          | some p =>
              refine .ok rfl fun q hq => ?_
              cases hq
              exact ⟨_, hp⟩

theorem callFn_commutes (henv : env.Uniform) (sc : RCScope) (f : Atom) (args : List RCValue)
    (k : RCKont) (hs : s.Clear env) :
    Commutes (contractConfig env) (fun _ => True) (callFn env sc f args k s)
      (callFn env (contractScope env sc) f (args.map contractValue) (contractKont env k)
        (contractStore env s)) := by
  refine .bind (calleeRC_commutes env sc f) fun c hc => ?_
  cases c with
  | inl p =>
      rcases hc p rfl with ⟨key, hp⟩
      exact enterPrim_commutes henv hp args k hs
  | inr fv => exact enterRC_commutes henv.allocator true fv args k hs

end Wok.Interp.RC
