/-
Module: Wok.Proofs.ContractEval
Purpose: Expressions and returns of the counted machine in the view: right-hand sides,
  cases, jumps, recursive groups and the frames that do something.
Imports: Wok.Proofs.ContractSteps
Trusted boundary: none
Main exports: rhsValue_commutes, matchAltsRC_commutes, jumpRC_commutes, returnToRC_commutes
-/
import Wok.Proofs.ContractSteps

namespace Wok.Interp.RC

open Wok.IR
open Wok.Lib (Commutes mapSnd lookup_mapSnd)

variable {env : RCEnv} {A : Allocator} {s s' : Store} {sc : RCScope} {k : RCKont}

/-! ### Cases -/

/-- An alternative with the values of its binders, in the view. -/
def contractAlt (r : Alt × List RCValue) : Alt × List RCValue := (r.1, r.2.map contractValue)

theorem litMatchesNode_contract (env : RCEnv) (l : Lit) (n : Node) :
    litMatchesNode l (contractNode env n) = litMatchesNode l n := by
  cases n <;> rfl

theorem nodeTag_contract (env : RCEnv) (n : Node) : nodeTag (contractNode env n) = nodeTag n := by
  cases n <;> rfl

theorem goNode_commutes (env : RCEnv) (n : Node) (alts : List Alt) :
    Commutes contractAlt (fun _ => True) (goNode n alts) (goNode (contractNode env n) alts) := by
  induction alts with
  | nil =>
      unfold goNode
      rw [nodeTag_contract]
      exact .error _
  | cons alt rest ih =>
      cases alt with
      | con c bs e =>
          cases n with
          | con c' vs =>
              simp only [contractNode] at ih
              simp only [contractNode, goNode, List.length_map]
              exact .ite (.ok rfl trivial) ih
          | _ => exact ih
      | lit l e =>
          unfold goNode
          rw [litMatchesNode_contract]
          refine .bind (.refl (litMatchesNode l n)) fun found _ => ?_
          exact .ite (.ok rfl trivial) ih
      | default e => exact .ok rfl trivial

theorem goLit_commutes (l : Lit) (alts : List Alt) :
    Commutes contractAlt (fun _ => True) (goLit l alts) (goLit l alts) := by
  induction alts with
  | nil => exact .error _
  | cons alt rest ih =>
      cases alt with
      | con c bs e => exact ih
      | lit l' e => exact .ite (.ok rfl trivial) ih
      | default e => exact .ok rfl trivial

theorem pickAltRC_commutes (env : RCEnv) (v : RCValue) (alts : List Alt) (s : Store) :
    Commutes contractAlt (fun _ => True) (pickAltRC v alts s)
      (pickAltRC (contractValue v) alts (contractStore env s)) := by
  cases v with
  | box a => exact .bind (deref_commutes env a s) fun c _ => goNode_commutes env c.node alts
  | lit l => exact goLit_commutes l alts
  | _ => exact .error _

theorem matchAltsRC_commutes (env : RCEnv) (v : RCValue) (alts : List Alt) (sc : RCScope)
    (k : RCKont) (s : Store) :
    Commutes (contractConfig env) (fun _ => True) (matchAltsRC v alts sc k s)
      (matchAltsRC (contractValue v) alts (contractScope env sc) (contractKont env k)
        (contractStore env s)) := by
  refine .bind (pickAltRC_commutes env v alts s) fun r _ => .ok ?_ trivial
  rcases r with ⟨alt, vs⟩
  cases alt with
  | con c bs e =>
      simp only [enterAlt, contractConfig, contractScope_bindEnv,
        ← bindRCBinders_contract, contractScope_env]
  | lit l e => rfl
  | default e => rfl

/-! ### Projections -/

theorem projRC_commutes (env : RCEnv) (l : String) (v : RCValue) (s : Store) :
    Commutes contractValue (fun _ => True) (projRC l v s)
      (projRC l (contractValue v) (contractStore env s)) := by
  cases v with
  | box a =>
      refine .bind (deref_commutes env a s) fun c _ => ?_
      rcases c with ⟨rc, node, bytes⟩
      cases node with
      | record t m =>
          simp only [contractCell, contractNode, lookup_mapSnd]
          cases m.lookup l with
          | none => exact .error _
          | some fv => exact .ok rfl trivial
      | _ => exact .error _
  | _ => exact .error _

/-! ### Right-hand sides -/

theorem arenaAllocPureBytes_contract (env : RCEnv) (bytes : Int) (n : Node) (s : Store) :
    arenaAllocPureBytes bytes (contractNode env n) (contractStore env s) =
      (arenaAllocPureBytes bytes n s).map (contractWith env id) := by
  have hcells := insert_contract env s s.next ⟨1, n, bytes⟩
  have harena : (contractStore env s).arena = s.arena := rfl
  have hnext : (contractStore env s).next = s.next := rfl
  simp only [contractCell] at hcells
  unfold arenaAllocPureBytes
  rw [harena, hnext, hcells]
  split <;> rfl

theorem arenaAllocCEligible_contract (hA : A.Uniform env) (tid : UInt32)
    (encoded : List (SlotKind × UInt64)) (n : Node) (s : Store) :
    Commutes (contractWith env id) (fun _ => True) (arenaAllocCEligible A tid encoded n s)
      (arenaAllocCEligible A tid encoded (contractNode env n) (contractStore env s)) := by
  have harena : (contractStore env s).arenaC = s.arenaC := rfl
  unfold arenaAllocCEligible
  rw [harena, wouldBeCBytes_contract]
  split
  · exact .error _
  · exact .bind (.of_view (wokNew_contract hA _ s)) fun r _ => .ok rfl trivial

theorem arenaAllocCon_commutes (hA : A.Uniform env) (con : String) (vs : List RCValue)
    (encoded : List (SlotKind × UInt64)) (s : Store) :
    Commutes (contractWith env id) (fun _ => True) (arenaAllocCon A con vs encoded s)
      (arenaAllocCon A con (vs.map contractValue) encoded (contractStore env s)) := by
  unfold arenaAllocCon
  rw [internTag_contract]
  generalize internTag con s = tagged
  rcases tagged with ⟨tid, s₁⟩
  have hdesc : (contractStore env s₁).conDesc = s₁.conDesc := rfl
  simp only [contractWith, id, hdesc]
  refine .ite (.of_view (arenaAllocPureBytes_contract env 0 (.con con vs) s₁)) ?_
  cases s₁.conDesc.lookup tid.toUInt16 with
  | none =>
      exact arenaAllocCEligible_contract hA tid encoded (.con con vs) (described s₁ tid encoded)
  | some existing =>
      exact .ite (arenaAllocCEligible_contract hA tid encoded (.con con vs) s₁)
        (.of_view (arenaAllocPureBytes_contract env 0 (.con con vs) s₁))

theorem arenaAlloc_commutes (hA : A.Uniform env) (n : Node) (s : Store) :
    Commutes (contractWith env id) (fun _ => True) (arenaAlloc A n s)
      (arenaAlloc A (contractNode env n) (contractStore env s)) := by
  have harena : (contractStore env s).arena = s.arena := rfl
  have hbackend : (contractStore env s).backend = s.backend := rfl
  have hpure : Commutes (contractWith env id) (fun _ => True) (arenaAllocPure n s)
      (arenaAllocPure (contractNode env n) (contractStore env s)) := by
    rw [arenaAllocPure, arenaAllocPure, wouldBeCBytes_contract]
    exact .of_view (arenaAllocPureBytes_contract env _ n s)
  unfold arenaAlloc
  rw [harena, hbackend]
  cases s.arena with
  | nil => exact .error _
  | cons top rest =>
      cases s.backend with
      | abstractHeap => exact hpure
      | cHeap =>
          cases n with
          | con con vs =>
              simp only [contractNode, List.length_map, mapM_encodeSlotC_contract] at hpure ⊢
              refine .ite ?_ hpure
              cases vs.mapM encodeSlotC with
              | none => exact hpure
              | some encoded => exact arenaAllocCon_commutes hA con vs encoded s
          | _ => exact hpure

theorem allocRouted_commutes (hA : env.allocator.Uniform env) (b : Binder) (n : Node)
    (s : Store) :
    Commutes (contractWith env id) (fun _ => True) (allocRouted env b n s)
      (allocRouted env b (contractNode env n) (contractStore env s)) := by
  unfold allocRouted
  split
  · exact arenaAlloc_commutes hA n s
  · exact .of_view (alloc_contract hA n s)

theorem insertFieldRC_contract (l : String) (v : RCValue) (m : List (String × RCValue)) :
    insertFieldRC l (contractValue v) (mapSnd contractValue m) =
      mapSnd contractValue (insertFieldRC l v m) := by
  induction m with
  | nil => rfl
  | cons lw rest ih =>
      rcases lw with ⟨l', w⟩
      simp only [Lib.mapSnd_cons, insertFieldRC]
      split_ifs
      · rfl
      · rfl
      · rw [ih]
        rfl

theorem recordFields_contract (fields : List (String × RCValue)) :
    recordFields (mapSnd contractValue fields) = mapSnd contractValue (recordFields fields) := by
  have hfold : ∀ (fs m : List (String × RCValue)),
      (mapSnd contractValue fs).foldl (fun m lv => insertFieldRC lv.1 lv.2 m)
          (mapSnd contractValue m) =
        mapSnd contractValue (fs.foldl (fun m lv => insertFieldRC lv.1 lv.2 m) m) := by
    intro fs
    induction fs with
    | nil => exact fun m => rfl
    | cons f fs ih =>
        intro m
        rw [Lib.mapSnd_cons, List.foldl_cons, List.foldl_cons, insertFieldRC_contract, ih]
  exact hfold fields []

theorem zip_map_contract (ls : List String) (vs : List RCValue) :
    ls.zip (vs.map contractValue) = mapSnd contractValue (ls.zip vs) := by
  rw [List.zip_map_right]
  rfl

theorem lamEnv_contract (env : RCEnv) (ps : List Binder) (e : Expr) (sc : RCScope) :
    lamEnv ps e (contractScope env sc) = contractEnv (lamEnv ps e sc) := by
  rw [lamEnv, lamEnv, contractScope_env, contractEnv, mapSnd, List.filter_map]
  rfl

theorem rhsValue_commutes (hA : env.allocator.Uniform env) (b : Binder) (rhs : Rhs)
    (sc : RCScope) (hs : s.Clear env) :
    Commutes (contractWith env contractValue) (fun _ => True) (rhsValue env b rhs sc s)
      (rhsValue env b rhs (contractScope env sc) (contractStore env s)) := by
  cases rhs with
  | atom a => exact (resolveRCAtomAlloc_commutes hA sc a hs).weaken fun _ _ => trivial
  | con c as =>
      refine .bind (resolveRCAtomsAlloc_commutes hA sc as hs) fun r _ => ?_
      exact .bind (allocRouted_commutes hA b (.con c r.1) r.2) fun r' _ => .ok rfl trivial
  | reuseCon tok c as =>
      refine .bind (resolveRCAtom_commutes env sc tok) fun v _ => ?_
      refine .bind (resolveRCAtomsAlloc_commutes hA sc as hs) fun r h₁ => ?_
      exact .bind (allocAt_view hA v (.con c r.1) h₁) fun r' _ => .ok rfl trivial
  | record t flds =>
      refine .bind (resolveRCAtomsAlloc_commutes hA sc (flds.map (·.2)) hs) fun r _ => ?_
      have hnode := allocRouted_commutes hA b
        (.record t (recordFields ((flds.map (·.1)).zip r.1))) r.2
      simp only [contractNode, ← recordFields_contract, ← zip_map_contract] at hnode
      exact .bind hnode fun r' _ => .ok rfl trivial
  | lam ps e =>
      have hnode := allocRouted_commutes hA b (mkClosure (lamEnv ps e sc) ps e) s
      simp only [mkClosure, contractNode, ← lamEnv_contract env] at hnode
      exact .bind hnode fun r' _ => .ok rfl trivial
  | proj l a =>
      refine .bind (resolveRCAtom_commutes env sc a) fun v _ => ?_
      exact .bind (projRC_commutes env l v s) fun fv _ => .ok rfl trivial
  | foreignCall lib sym as =>
      refine .bind (resolveRCAtomsAlloc_commutes hA sc as hs) fun r h₁ => ?_
      exact rcForeignDispatch_view hA lib sym r.1 h₁
  | _ => exact .error _

theorem bindConfig_contract (env : RCEnv) (b : Binder) (body : Expr) (sc : RCScope) (k : RCKont)
    (r : RCValue × Store) :
    bindConfig b body (contractScope env sc) (contractKont env k)
        (contractWith env contractValue r) =
      contractConfig env (bindConfig b body sc k r) := by
  simp only [bindConfig, contractConfig, contractScope_bindEnv, ← bindRCBinder_contract,
    contractScope_env, contractWith]

/-! ### Joins and recursive groups -/

theorem jumpRC_commutes (env : RCEnv) (j : JoinId) (sc : RCScope) (vs : List RCValue)
    (s : Store) :
    Commutes (contractConfig env) (fun _ => True) (jumpRC j sc vs s)
      (jumpRC j (contractScope env sc) (vs.map contractValue) (contractStore env s)) := by
  simp only [jumpRC, contractScope_joins, lookup_mapSnd]
  cases sc.joins.lookup j with
  | none => exact .error _
  | some jp =>
      rcases jp with ⟨scope, params, body, kont⟩
      simp only [Option.map_some, contractJoin, List.length_map]
      refine .ite (.error _) (.ok ?_ trivial)
      simp only [contractConfig, contractScope_mk, contractScope_env, bindRCBinders_contract,
        contractScope_joins, Lib.mapSnd_cons, contractJoin]

theorem groupCaptures_contract (env : RCEnv) (defs : List Def) (sc : RCScope) :
    groupCaptures defs (contractScope env sc) = contractEnv (groupCaptures defs sc) := by
  simp only [groupCaptures, contractScope_env, lookup_contractEnv]
  rw [contractEnv, mapSnd, List.map_filterMap]
  simp only [Option.map_map]
  rfl

theorem letRecRC_contract (env : RCEnv) (defs : List Def) (body : Expr) (sc : RCScope)
    (k : RCKont) (s : Store) :
    letRecRC defs body (contractScope env sc) (contractKont env k) (contractStore env s) =
      contractConfig env (letRecRC defs body sc k s) := by
  have hstatic : allocStatic (.groupCode defs) (contractStore env s) =
      contractWith env id (allocStatic (.groupCode defs) s) :=
    allocStatic_contract env (.groupCode defs) s
  have hsibs : ∀ g e, bindRCBinders (defs.map (·.name)) (siblings g defs e)
      (contractEnv sc.env) =
        contractEnv (bindRCBinders (defs.map (·.name)) (siblings g defs e) sc.env) := by
    intro g e
    rw [← bindRCBinders_contract, map_contractValue_siblings]
  have hempty : (contractEnv (groupCaptures defs sc)).isEmpty =
      (groupCaptures defs sc).isEmpty := List.isEmpty_map
  simp only [letRecRC, groupCaptures_contract, hempty, hstatic]
  generalize allocStatic (.groupCode defs) s = static
  rcases static with ⟨g, s₁⟩
  have hpure : allocPure (.env (contractEnv (groupCaptures defs sc))) (contractStore env s₁) =
      contractWith env id (allocPure (.env (groupCaptures defs sc)) s₁) :=
    allocPure_contract env (.env (groupCaptures defs sc)) s₁
  simp only [contractWith, id, hpure]
  split_ifs <;>
    simp only [contractConfig, contractScope_bindEnv, contractScope_env, hsibs]

/-! ### Frames -/

theorem registerWindow_contract (env : RCEnv) (b : Binder) (v : RCValue) (s : Store) :
    registerWindow env b (contractValue v) (contractStore env s) =
      contractStore env (registerWindow env b v s) := by
  cases v with
  | box a =>
      simp only [contractValue_box, registerWindow, windowRegister_contract]
      split_ifs <;> rfl
  | _ => rfl

/-- A return to a frame that does more than hand its value on. -/
theorem returnToRC_commutes (hA : env.allocator.Uniform env) (v : RCValue) (fr : RCFrame)
    (k : RCKont) (hfr : ∀ b body sc, fr = .let_ b body sc → inert env b body = false)
    (hs : s.Clear env) :
    Commutes (contractConfig env) (fun _ => True) (returnToRC env v (fr :: k) s)
      (returnToRC env (contractValue v) (contractKont env (fr :: k)) (contractStore env s)) := by
  cases fr with
  | let_ b body sc =>
      rw [contractKont_let (hfr b body sc rfl)]
      refine .ok ?_ trivial
      rw [registerWindow_contract]
      exact bindConfig_contract env b body sc k (v, registerWindow env b v s)
  | app args =>
      rw [contractKont_app]
      exact enterRC_commutes hA false v args k hs
  | handle h tag sc =>
      rw [contractKont_handle]
      refine .ok ?_ trivial
      simp only [contractConfig, contractScope_bindEnv, ← bindRCBinder_contract,
        contractScope_env]
  | dropCell a =>
      rw [contractKont_dropCell]
      exact .bind (drop_commutes a hs) fun s₁ _ => .ok rfl trivial
  | arenaClose =>
      rw [contractKont_arenaClose]
      exact .bind (arenaClose_commutes hs) fun s₁ _ => .ok rfl trivial
  | windowClose =>
      rw [contractKont_windowClose]
      exact .bind (windowClose_commutes hs) fun s₁ _ => .ok rfl trivial
  | borrowClose =>
      rw [contractKont_borrowClose]
      refine .ok ?_ trivial
      rw [borrowClose_contract]
      rfl

end Wok.Interp.RC
