/-
Module: Wok.Proofs.Contraction
Purpose: The view without frames that only hand a value on: lookups, bindings and what a
  node or a continuation owns are the same in the view.
Imports: Wok.Spec.TailCalls
Trusted boundary: none
Main exports: contractScope_env, contractScope_joins, contractKont_append,
  continuationOwned_contract, continuationReservations_contract, cascadeChildren_contract,
  bindRCBinders_contract
-/
import Wok.Spec.TailCalls

namespace Wok.Interp.RC

open Wok.IR
open Wok.Interp (Target)
open Wok.Lib (Commutes mapVal mapSnd lookup_mapSnd map_snd_mapSnd)

variable {env : RCEnv} {b : Binder} {body : Expr} {sc : RCScope} {k : RCKont} {s : Store}

/-! ### Values -/

@[simp] theorem valueChildren_contract (v : RCValue) :
    valueChildren (contractValue v) = valueChildren v := by
  cases v <;> rfl

@[simp] theorem contractValue_box (a : Addr) : contractValue (.box a) = .box a := rfl

@[simp] theorem contractValue_lit (l : Lit) : contractValue (.lit l) = .lit l := rfl

@[simp] theorem contractValue_reuse (slot : Option ReuseSlot) :
    contractValue (.reuse slot) = .reuse slot := rfl

@[simp] theorem contractValue_recMember (g : Addr) (i : Nat) (e : Addr) :
    contractValue (.recMember g i e) = .recMember g i e := rfl

@[simp] theorem countedRefs_contract (vs : List RCValue) :
    countedRefs (vs.map contractValue) = countedRefs vs := by
  simp [countedRefs, List.flatMap_map]

theorem countedRefs_append (vs ws : List RCValue) :
    countedRefs (vs ++ ws) = countedRefs vs ++ countedRefs ws := by
  rw [countedRefs, List.flatMap_append]
  rfl

@[simp] theorem encodeSlotC_contract (v : RCValue) :
    encodeSlotC (contractValue v) = encodeSlotC v := by
  cases v <;> rfl

@[simp] theorem mapM_encodeSlotC_contract (vs : List RCValue) :
    (vs.map contractValue).mapM encodeSlotC = vs.mapM encodeSlotC := by
  induction vs with
  | nil => rfl
  | cons v vs ih => simp only [List.map_cons, List.mapM_cons, encodeSlotC_contract, ih]

/-- A slot of a C cell holds no handle of an activation. -/
@[simp] theorem contractValue_decodeSlotC (kind : SlotKind) (w : UInt64) :
    contractValue (decodeSlotC kind w) = decodeSlotC kind w := by
  cases kind with
  | pointer =>
      simp only [decodeSlotC]
      split_ifs <;> rfl
  | _ => rfl

/-- A value that is no handle of an activation is the view of itself only. -/
def Plain : RCValue → Prop
  | .inst .. => False
  | _ => True

theorem eq_of_contractValue {v w : RCValue} (h : contractValue v = w) (hw : Plain w) : v = w := by
  subst h
  cases v with
  | inst u t => exact hw.elim
  | _ => rfl

theorem eq_of_map_contract {vs ws : List RCValue} (h : vs.map contractValue = ws)
    (hws : ∀ w ∈ ws, Plain w) : vs = ws := by
  induction vs generalizing ws with
  | nil => exact h
  | cons v vs ih =>
      subst h
      rw [List.map_cons, List.forall_mem_cons] at hws
      have hhead := eq_of_contractValue (v := v) rfl hws.1
      have htail := ih rfl hws.2
      rw [List.map_cons, ← hhead, ← htail]

/-! ### Environments and scopes -/

@[simp] theorem contractScope_env (env : RCEnv) (sc : RCScope) :
    (contractScope env sc).env = contractEnv sc.env := by
  cases sc
  rw [contractScope]

theorem contractJoins_eq (env : RCEnv) (joins : List (JoinId × RCJoin)) :
    contractJoins env joins = mapSnd (contractJoin env) joins := by
  induction joins with
  | nil => rw [contractJoins]; rfl
  | cons jp joins ih =>
      rcases jp with ⟨j, p⟩
      rw [contractJoins, ih]
      rfl

@[simp] theorem contractScope_joins (env : RCEnv) (sc : RCScope) :
    (contractScope env sc).joins = mapSnd (contractJoin env) sc.joins := by
  cases sc
  rw [contractScope, contractJoins_eq]

theorem contractScope_mk (env : RCEnv) (e : REnv) (joins : List (JoinId × RCJoin)) :
    contractScope env ⟨e, joins⟩ = ⟨contractEnv e, mapSnd (contractJoin env) joins⟩ := by
  rw [contractScope, contractJoins_eq]

@[simp] theorem lookup_contractEnv (e : REnv) (u : Unique) :
    (contractEnv e).lookup u = (e.lookup u).map contractValue :=
  lookup_mapSnd contractValue e u

@[simp] theorem map_snd_contractEnv (e : REnv) :
    (contractEnv e).map (·.2) = (e.map (·.2)).map contractValue :=
  map_snd_mapSnd contractValue e

@[simp] theorem bindRCBinder_contract (b : Binder) (v : RCValue) (e : REnv) :
    bindRCBinder b (contractValue v) (contractEnv e) = contractEnv (bindRCBinder b v e) := by
  induction e with
  | nil => rfl
  | cons uw e ih =>
      rcases uw with ⟨u, w⟩
      simp only [contractEnv, Lib.mapSnd_cons, bindRCBinder] at ih ⊢
      split_ifs
      · rfl
      · rfl
      · rw [ih]
        rfl

@[simp] theorem bindRCBinders_contract (bs : List Binder) (vs : List RCValue) (e : REnv) :
    bindRCBinders bs (vs.map contractValue) (contractEnv e) =
      contractEnv (bindRCBinders bs vs e) := by
  induction bs generalizing vs e with
  | nil => rfl
  | cons b bs ih =>
      cases vs with
      | nil => rfl
      | cons v vs =>
          have hstep := ih vs (bindRCBinder b v e)
          simp only [bindRCBinders, List.map_cons, List.zip_cons_cons, List.foldl_cons,
            bindRCBinder_contract] at hstep ⊢
          exact hstep

/-- A variable reads back what has just been bound to it. -/
theorem lookup_bindRCBinder (b : Binder) (v : RCValue) (e : REnv) :
    (bindRCBinder b v e).lookup (binderUnique b) = some v := by
  induction e with
  | nil => simp [bindRCBinder]
  | cons uw e ih =>
      rcases uw with ⟨u, w⟩
      simp only [bindRCBinder]
      split_ifs with hlt heq
      · simp
      · subst heq
        simp
      · have hne : (binderUnique b == u) = false := by
          rw [beq_eq_false_iff_ne]
          exact fun h => heq h.symm
        rw [List.lookup_cons, hne]
        exact ih

/-! ### Continuations -/

@[simp] theorem contractKont_nil (env : RCEnv) : contractKont env [] = [] := by
  rw [contractKont]

theorem contractKont_cons (env : RCEnv) (fr : RCFrame) (k : RCKont) :
    contractKont env (fr :: k) = contractFrame env fr ++ contractKont env k := by
  rw [contractKont]

@[simp] theorem contractKont_append (env : RCEnv) (k k' : RCKont) :
    contractKont env (k ++ k') = contractKont env k ++ contractKont env k' := by
  induction k with
  | nil => rw [contractKont_nil]; rfl
  | cons fr k ih => rw [List.cons_append, contractKont_cons, contractKont_cons, ih,
      List.append_assoc]

@[simp] theorem contractKont_app (env : RCEnv) (args : List RCValue) (k : RCKont) :
    contractKont env (.app args :: k) = .app (args.map contractValue) :: contractKont env k := by
  rw [contractKont_cons, contractFrame]
  rfl

@[simp] theorem contractKont_handle (env : RCEnv) (h : Handler) (tag : Nat) (sc : RCScope)
    (k : RCKont) :
    contractKont env (.handle h tag sc :: k) =
      .handle h 0 (contractScope env sc) :: contractKont env k := by
  rw [contractKont_cons, contractFrame]
  rfl

@[simp] theorem contractKont_dropCell (env : RCEnv) (a : Addr) (k : RCKont) :
    contractKont env (.dropCell a :: k) = .dropCell a :: contractKont env k := by
  rw [contractKont_cons, contractFrame]
  rfl

@[simp] theorem contractKont_arenaClose (env : RCEnv) (k : RCKont) :
    contractKont env (.arenaClose :: k) = .arenaClose :: contractKont env k := by
  rw [contractKont_cons, contractFrame]
  rfl

@[simp] theorem contractKont_windowClose (env : RCEnv) (k : RCKont) :
    contractKont env (.windowClose :: k) = .windowClose :: contractKont env k := by
  rw [contractKont_cons, contractFrame]
  rfl

@[simp] theorem contractKont_borrowClose (env : RCEnv) (k : RCKont) :
    contractKont env (.borrowClose :: k) = .borrowClose :: contractKont env k := by
  rw [contractKont_cons, contractFrame]
  rfl

theorem contractKont_inert (h : inert env b body = true) :
    contractKont env (.let_ b body sc :: k) = contractKont env k := by
  rw [contractKont_cons, contractFrame, if_pos h]
  rfl

theorem contractKont_let (h : inert env b body = false) :
    contractKont env (.let_ b body sc :: k) =
      .let_ b body (contractScope env sc) :: contractKont env k := by
  rw [contractKont_cons, contractFrame, if_neg (by rw [h]; exact Bool.false_ne_true)]
  rfl

/-! ### What a continuation owns -/

@[simp] theorem ownedBy_contract (us : List Unique) (e : REnv) :
    ownedBy us (contractEnv e) = ownedBy us e := by
  simp only [ownedBy, lookup_contractEnv]
  congr 1
  funext u
  cases e.lookup u with
  | none => rfl
  | some v =>
      have := countedRefs_contract [v]
      simp only [List.map_cons, List.map_nil] at this
      simp only [Option.map_some, this]

@[simp] theorem frameOwned_contract (b : Binder) (body : Expr) (sc : RCScope) :
    frameOwned b body (contractScope env sc) = frameOwned b body sc := by
  simp only [frameOwned, contractScope_env, ownedBy_contract]

/-- An expression that hands its binder on moves and drops nothing else. -/
theorem frameOwned_inert (h : inert env b body = true) : frameOwned b body sc = [] := by
  rw [inert, Bool.and_eq_true] at h
  have htail := h.1
  unfold isTailReturn at htail
  split at htail
  next n =>
    have hn : n.uniq = binderUnique b := of_decide_eq_true htail
    simp [frameOwned, nonHeadOccs, dropTargets, freeVarsExpr, atomVars, hn, ownedBy,
      UniqueSet.intersection, UniqueSet.delete, UniqueSet.toAscList]
  · cases htail

theorem continuationOwnedGo_contract (env : RCEnv) (k : RCKont) :
    continuationOwnedGo (contractKont env k) = continuationOwnedGo k := by
  induction k with
  | nil => rw [contractKont_nil]
  | cons fr k ih =>
      cases fr with
      | let_ b body sc =>
          cases hinert : inert env b body with
          | true =>
              rw [contractKont_inert hinert, ih]
              simp only [continuationOwnedGo, frameOwned_inert hinert, List.nil_append]
          | false =>
              rw [contractKont_let hinert]
              simp only [continuationOwnedGo, frameOwned_contract, ih]
      | _ => simp only [contractKont_app, contractKont_handle, contractKont_dropCell,
          contractKont_arenaClose, contractKont_windowClose, contractKont_borrowClose,
          continuationOwnedGo, countedRefs_contract, contractScope_env, ownedBy_contract, ih]

@[simp] theorem continuationOwned_contract (env : RCEnv) (k : RCKont) :
    continuationOwned (contractKont env k) = continuationOwned k := by
  rw [continuationOwned, continuationOwned, continuationOwnedGo_contract]

@[simp] theorem reservationsFromValues_contract (R : Finset Addr) (vs : List RCValue) :
    reservationsFromValues R (vs.map contractValue) = reservationsFromValues R vs := by
  simp only [reservationsFromValues, List.filterMap_map]
  congr 1
  funext v
  cases v <;> rfl

@[simp] theorem filterMap_lookup_contract (us : List Binder) (e : REnv) :
    us.filterMap (fun b => (contractEnv e).lookup (binderUnique b)) =
      (us.filterMap fun b => e.lookup (binderUnique b)).map contractValue := by
  simp only [lookup_contractEnv, List.map_filterMap]

/-- Frames that are clear hold no reservation that the view lacks. -/
theorem continuationReservationsGo_contract {R : Finset Addr} (h : kontClear env R k) :
    continuationReservationsGo R (contractKont env k) = continuationReservationsGo R k := by
  induction k with
  | nil => rw [contractKont_nil]
  | cons fr k ih =>
      have hrest := ih fun fr' hfr' => h fr' (List.mem_cons_of_mem _ hfr')
      have hfr := h fr List.mem_cons_self
      cases fr with
      | let_ b body sc =>
          cases hinert : inert env b body with
          | true =>
              rw [contractKont_inert hinert, hrest]
              simp only [continuationReservationsGo, hfr hinert, List.nil_append]
          | false =>
              rw [contractKont_let hinert]
              simp only [continuationReservationsGo, contractScope_env, map_snd_contractEnv,
                reservationsFromValues_contract, hrest]
      | _ => simp only [contractKont_app, contractKont_handle, contractKont_dropCell,
          contractKont_arenaClose, contractKont_windowClose, contractKont_borrowClose,
          continuationReservationsGo, reservationsFromValues_contract, contractScope_env,
          filterMap_lookup_contract, hrest]

theorem continuationReservations_contract {R : Finset Addr} (h : kontClear env R k) :
    continuationReservations (contractKont env k) R = continuationReservations k R := by
  rw [continuationReservations, continuationReservations,
    continuationReservationsGo_contract h]

/-! ### Nodes -/

theorem countedRefs_nodeValues_contract (env : RCEnv) (n : Node) :
    countedRefs (nodeValues (contractNode env n)) = countedRefs (nodeValues n) := by
  cases n <;> simp only [contractNode, nodeValues, map_snd_mapSnd, map_snd_contractEnv,
    countedRefs_contract]

@[simp] theorem cascadeChildren_contract (env : RCEnv) (n : Node) :
    cascadeChildren (contractNode env n) = cascadeChildren n := by
  cases n with
  | cont pfx h tag sc => exact continuationOwned_contract env pfx
  | _ => exact countedRefs_nodeValues_contract env _

@[simp] theorem nodeArity_contract (env : RCEnv) (n : Node) :
    nodeArity (contractNode env n) = nodeArity n := by
  cases n <;> simp [contractNode, nodeArity]

@[simp] theorem nodeCEligible_contract (env : RCEnv) (n : Node) :
    nodeCEligible (contractNode env n) = nodeCEligible n := by
  cases n <;> simp [contractNode, nodeCEligible, Function.comp_def]

@[simp] theorem wouldBeCBytes_contract (env : RCEnv) (n : Node) :
    wouldBeCBytes (contractNode env n) = wouldBeCBytes n := by
  cases n with
  | con t vs =>
      have := nodeCEligible_contract env (.con t vs)
      simp only [contractNode] at this
      simp only [contractNode, wouldBeCBytes, this, List.length_map]
  | _ => simp [contractNode, wouldBeCBytes]

@[simp] theorem closureOwnedBoxed_contract (e : REnv) (ps : List Binder) (body : Expr)
    (mode : CaptureMode) :
    closureOwnedBoxed (.closure (contractEnv e) ps body mode) =
      closureOwnedBoxed (.closure e ps body mode) := by
  cases mode with
  | ownCaptures =>
      simp only [closureOwnedBoxed, contractEnv, mapSnd, List.filterMap_map]
      congr 1
      funext uv
      rcases uv with ⟨u, v⟩
      cases v <;> rfl
  | borrowCaptures => rfl

end Wok.Interp.RC
