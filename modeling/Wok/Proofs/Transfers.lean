/-
Module: Wok.Proofs.Transfers
Purpose: The transfers that a foreign member is registered with, next to the parameters of
  its translated type, and the places of `owned`.
Imports: Wok.Proofs.Instances, Wok.Spec.Foreign
Trusted boundary: none
Main exports: goT_unmarked, goT_params, registerMember_transfers,
  processForeignDecls_fit
-/
import Wok.Proofs.Instances
import Wok.Spec.Foreign

namespace Wok.TypeChecking

open Wok.FFI
open Wok.Lib (exceptBind_ok)

variable {E : Type} {env : Env E} {s s' : SigState}

/-! ### The monad of signatures -/

theorem sigBind_ok {α β : Type} {x : SigM α} {f : α → SigM β} {b : β}
    (h : (x >>= f) s = .ok (b, s')) : ∃ a s₁, x s = .ok (a, s₁) ∧ f a s₁ = .ok (b, s') := by
  obtain ⟨⟨a, s₁⟩, ha, hf⟩ := exceptBind_ok h
  exact ⟨a, s₁, ha, hf⟩

theorem sigLift_ok {α : Type} {x : Except SigError α} {a : α}
    (h : (StateT.lift x : SigM α) s = .ok (a, s')) : x = .ok a ∧ s' = s := by
  obtain ⟨b, hb, h⟩ := exceptBind_ok h
  cases h
  exact ⟨hb, rfl⟩

theorem throwSig_ok {α : Type} {e : SigError} {a : α} (h : throwSig e s = .ok (a, s')) : False := by
  cases h

/-! ### The places of `owned` -/

theorem collectApp_fst (f x : Abs.Ty) : (collectApp f x).1 = appHead f := by
  cases f with
  | tApp g y => exact collectApp_fst g y
  | _ => rfl

mutual

/-- What is translated holds no `owned`. -/
theorem goT_unmarked (t : Abs.Ty) {s s' : SigState} {c : CType}
    (h : goT env t s = .ok (c, s')) : t.Unmarked := by
  cases t with
  | tQual ctx body => exact (throwSig_ok h).elim
  | tOwned t => exact (throwSig_ok h).elim
  | tFun a b =>
      rw [goT] at h
      obtain ⟨_, _, ha, h⟩ := sigBind_ok h
      obtain ⟨_, _, hb, -⟩ := sigBind_ok h
      exact ⟨goT_unmarked a ha, goT_unmarked b hb⟩
  | tVar v => trivial
  | tCon p => trivial
  | tApp f x =>
      rcases happ : collectApp f x with ⟨head, args⟩
      have hhead : appHead f = head := by
        rw [← collectApp_fst f x, happ]
      rw [goT, happ] at h
      cases head with
      | tCon p =>
          simp only at h
          split at h
          next =>
            -- the arguments of a handler are taken by their places
            cases f with
            | tApp g aArg =>
                cases g with
                | tApp q effArg =>
                    cases q with
                    | tCon q =>
                        obtain ⟨_, _, hcheck, h⟩ := sigBind_ok h
                        obtain ⟨_, _, heff, h⟩ := sigBind_ok h
                        obtain ⟨_, _, ha, h⟩ := sigBind_ok h
                        obtain ⟨_, _, hb, -⟩ := sigBind_ok h
                        have hhandler := (sigLift_ok hcheck).1
                        unfold checkHandler at hhandler
                        obtain ⟨pair, hpair, -⟩ := exceptBind_ok hhandler
                        exact ⟨⟨⟨trivial, goEffArgs_unmarked effArg hpair heff⟩,
                          goT_unmarked aArg ha⟩, goT_unmarked x hb⟩
                    | _ => exact (throwSig_ok h).elim
                | _ => exact (throwSig_ok h).elim
            | _ => exact (throwSig_ok h).elim
          next =>
            obtain ⟨_, _, -, h⟩ := sigBind_ok h
            obtain ⟨_, _, hf, h⟩ := sigBind_ok h
            obtain ⟨_, _, hx, -⟩ := sigBind_ok h
            exact ⟨goArgs_unmarked f hhead hf, goT_unmarked x hx⟩
      | _ => exact (throwSig_ok h).elim
  | tList inner =>
      rw [goT] at h
      obtain ⟨_, _, hi, -⟩ := sigBind_ok h
      exact goT_unmarked inner hi
  | tTuple a others =>
      rw [goT] at h
      obtain ⟨_, _, ha, h⟩ := sigBind_ok h
      obtain ⟨_, _, hs, -⟩ := sigBind_ok h
      exact ⟨goT_unmarked a ha, goTs_unmarked others hs⟩
  | tParen t => exact goT_unmarked t h
  | tUnit => trivial
  | tRowArg v => trivial
  | tWith a b effs =>
      rw [goT] at h
      obtain ⟨_, _, ha, h⟩ := sigBind_ok h
      obtain ⟨_, _, hr, h⟩ := sigBind_ok h
      obtain ⟨_, _, hb, -⟩ := sigBind_ok h
      exact ⟨goT_unmarked a ha, goT_unmarked b hb, goEffectRow_unmarked effs hr⟩
  | tExtend lhs op rc =>
      rw [goT] at h
      split at h
      next => exact (throwSig_ok h).elim
      next =>
        obtain ⟨lhsCT, _, hl, h⟩ := sigBind_ok h
        split at h
        next =>
          obtain ⟨_, _, hr, -⟩ := sigBind_ok h
          exact ⟨goT_unmarked lhs hl, goRC_unmarked rc hr⟩
        next => exact (throwSig_ok h).elim

theorem goArgs_unmarked (f : Abs.Ty) {p : Abs.ModPath} (hp : appHead f = .tCon p)
    {s s' : SigState} {cs : List CType} (h : goArgs env f s = .ok (cs, s')) : f.Unmarked := by
  cases f with
  | tApp f x =>
      rw [goArgs] at h
      obtain ⟨_, _, hf, h⟩ := sigBind_ok h
      obtain ⟨_, _, hx, -⟩ := sigBind_ok h
      exact ⟨goArgs_unmarked f hp hf, goT_unmarked x hx⟩
  | tCon q => trivial
  | _ => cases hp

theorem goEffArgs_unmarked (t : Abs.Ty) {pos : Abs.Pos} {pair : String × List Abs.Ty}
    (hpair : handlerEffect pos t = .ok pair) {s s' : SigState} {cs : List CType}
    (h : goEffArgs env t s = .ok (cs, s')) : t.Unmarked := by
  cases t with
  | tParen t => exact goEffArgs_unmarked t hpair h
  | tCon p => trivial
  | tApp f x =>
      simp only [handlerEffect, stripTParen] at hpair
      split at hpair
      next p args happ =>
        have hhead : appHead f = .tCon p := by
          rw [← collectApp_fst f x, happ]
        rw [goEffArgs] at h
        obtain ⟨_, _, hf, h⟩ := sigBind_ok h
        obtain ⟨_, _, hx, -⟩ := sigBind_ok h
        exact ⟨goArgs_unmarked f hhead hf, goT_unmarked x hx⟩
      next => cases hpair
  | _ => cases hpair

theorem goTs_unmarked (ts : List Abs.Ty) {s s' : SigState} {cs : List CType}
    (h : goTs env ts s = .ok (cs, s')) : Abs.UnmarkedAll ts := by
  cases ts with
  | nil => trivial
  | cons t ts =>
      rw [goTs] at h
      obtain ⟨_, _, ht, h⟩ := sigBind_ok h
      obtain ⟨_, _, hts, -⟩ := sigBind_ok h
      exact ⟨goT_unmarked t ht, goTs_unmarked ts hts⟩

theorem goRC_unmarked (rc : Abs.RowContrib) {s s' : SigState} {c : CType}
    (h : goRC env rc s = .ok (c, s')) : rc.Unmarked := by
  cases rc with
  | rcAnon fields =>
      rw [goRC] at h
      obtain ⟨_, _, hf, -⟩ := sigBind_ok h
      exact goFields_unmarked fields hf
  | rcVar v => trivial
  | rcWild => trivial

theorem goFields_unmarked (fields : List Abs.RecordFieldType) {s s' : SigState}
    {cs : List (String × CType)} (h : goFields env fields s = .ok (cs, s')) :
    Abs.UnmarkedFields fields := by
  match fields with
  | [] => trivial
  | .rfType v t :: fields =>
      rw [goFields] at h
      obtain ⟨_, _, ht, h⟩ := sigBind_ok h
      obtain ⟨_, _, hf, -⟩ := sigBind_ok h
      exact ⟨goT_unmarked t ht, goFields_unmarked fields hf⟩

theorem goEffectRow_unmarked (r : Abs.EffectRow) {s s' : SigState} {c : CType}
    (h : goEffectRow env r s = .ok (c, s')) : r.Unmarked := by
  cases r with
  | erOne atom =>
      rw [goEffectRow] at h
      obtain ⟨_, _, ha, -⟩ := sigBind_ok h
      exact goEffectAtom_unmarked atom ha
  | erPlus atom op rest =>
      rw [goEffectRow] at h
      split at h
      next => exact (throwSig_ok h).elim
      next =>
        obtain ⟨_, _, ha, h⟩ := sigBind_ok h
        obtain ⟨_, _, hr, -⟩ := sigBind_ok h
        exact ⟨goEffectAtom_unmarked atom ha, goEffectRow_unmarked rest hr⟩
  | erVarOnly v => trivial
  | erWildOnly => trivial

theorem goEffectAtom_unmarked (atom : Abs.EffectAtom) {s s' : SigState} {r : String × CType}
    (h : goEffectAtom env atom s = .ok (r, s')) : atom.Unmarked := by
  cases atom with
  | erAtom name args =>
      rw [goEffectAtom] at h
      cases hl : lookupEffect name.text env with
      | none =>
          rw [hl] at h
          exact (throwSig_ok h).elim
      | some eInfo =>
          rw [hl] at h
          obtain ⟨_, _, -, h⟩ := sigBind_ok h
          obtain ⟨_, _, ha, -⟩ := sigBind_ok h
          exact goTs_unmarked args ha

end

/-- Under the head of a parameter, only the head had the mark. -/
theorem markedAtHead_of_argOf (a : Abs.Ty) (h : (argOf a).2.Unmarked) : a.MarkedAtHead := by
  cases a with
  | tParen t => exact markedAtHead_of_argOf t h
  | _ => exact h

theorem markedAtHeads_of_classify (t : Abs.Ty) (h : (classifyOwnedParams t).2.Unmarked) :
    t.MarkedAtHeads := by
  cases t with
  | tFun a rest =>
      exact ⟨markedAtHead_of_argOf a h.1, markedAtHeads_of_classify rest h.2⟩
  | tWith a rest eff =>
      exact ⟨markedAtHead_of_argOf a h.1, h.2.2, markedAtHeads_of_classify rest h.2.1⟩
  | tParen t => exact markedAtHeads_of_classify t h
  | tQual ctx body => exact ⟨h.1, markedAtHeads_of_classify body h.2⟩
  | _ => exact h

theorem classApp_unmarked (t : Abs.Ty) {c : String × Abs.Ty} (hc : classApp t = some c)
    {s s' : SigState} {r : Constraint} (h : goConstraint env c s = .ok (r, s')) :
    t.Unmarked := by
  cases t with
  | tParen t => exact classApp_unmarked t hc h
  | tApp f a =>
      cases f with
      | tCon p =>
          cases hc
          obtain ⟨_, _, ha, -⟩ := sigBind_ok h
          exact ⟨trivial, goT_unmarked a ha⟩
      | _ => cases hc
  | _ => cases hc

/-- A context all of whose elements are class applications that are translated. -/
def ContextTranslates (env : Env E) (elems : List (Option (String × Abs.Ty))) : Prop :=
  ∀ o ∈ elems, ∃ c, o = some c ∧ ∃ s s' r, goConstraint env c s = .ok (r, s')

theorem context_unmarked (ctx : Abs.Ty) (h : ContextTranslates env (constraintsOfType ctx)) :
    ctx.Unmarked := by
  have hone : ∀ t : Abs.Ty, ContextTranslates env [classApp t] → t.Unmarked := by
    intro t ht
    obtain ⟨c, hc, _, _, _, hr⟩ := ht _ List.mem_cons_self
    exact classApp_unmarked t hc hr
  cases ctx with
  | tParen t => exact context_unmarked t h
  | tTuple a others =>
      have hall : ∀ ts : List Abs.Ty, ContextTranslates env (ts.map classApp) →
          Abs.UnmarkedAll ts := by
        intro ts
        induction ts with
        | nil => exact fun _ => trivial
        | cons t ts ih =>
            intro hts
            refine ⟨hone t fun o ho => ?_, ih fun o ho => hts o (List.mem_cons_of_mem _ ho)⟩
            exact hts o (List.mem_singleton.mp ho ▸ List.mem_cons_self)
      exact hall (a :: others) h
  | _ => exact hone _ h

theorem sigMapM_ok {α β : Type} {f : α → SigM β} {l : List α} {s s' : SigState} {bs : List β}
    (h : l.mapM f s = .ok (bs, s')) :
    (∀ a ∈ l, ∃ b s₁ s₂, f a s₁ = .ok (b, s₂) ∧ b ∈ bs) := by
  induction l generalizing s bs with
  | nil => simp
  | cons a l ih =>
      rw [List.mapM_cons] at h
      obtain ⟨b, s₁, hb, h⟩ := sigBind_ok h
      obtain ⟨bs', s₂, hbs, h⟩ := sigBind_ok h
      cases h
      intro a' ha'
      rcases List.mem_cons.mp ha' with rfl | ha'
      · exact ⟨b, _, _, hb, List.mem_cons_self⟩
      · obtain ⟨b', s₃, s₄, hb', hmem⟩ := ih hbs a' ha'
        exact ⟨b', s₃, s₄, hb', List.mem_cons_of_mem b hmem⟩

/-- The parts of a translated signature. -/
theorem translateSig_parts {ty : Abs.Ty} {sch : Scheme} (h : translateSig env ty = .ok sch) :
    ContextTranslates env (splitQual ty).1 ∧
      ∃ s s', goT env (splitQual ty).2 s = .ok (sch.body, s') := by
  obtain ⟨⟨⟨body, constraints⟩, s⟩, hwalk, h⟩ := exceptBind_ok h
  cases h
  obtain ⟨ctxTys, s₁, hctx, hwalk⟩ := sigBind_ok hwalk
  obtain ⟨body', s₂, hbody, hwalk⟩ := sigBind_ok hwalk
  obtain ⟨cs, s₃, hcs, hwalk⟩ := sigBind_ok hwalk
  cases hwalk
  refine ⟨?_, s₁, s₂, hbody⟩
  intro o ho
  obtain ⟨c, s₄, s₅, hc, hmem⟩ := sigMapM_ok hctx o ho
  cases o with
  | none => exact (throwSig_ok hc).elim
  | some c' =>
      cases hc
      obtain ⟨r, s₆, s₇, hr, -⟩ := sigMapM_ok hcs c hmem
      exact ⟨c, rfl, s₆, s₇, r, hr⟩

/-- A signature that is translated without its marks has them at the heads of its parameters
only. -/
theorem translateSig_marked {ty : Abs.Ty} {sch : Scheme}
    (h : translateSig env (classifyOwnedParams ty).2 = .ok sch) : ty.MarkedAtHeads := by
  apply markedAtHeads_of_classify
  obtain ⟨hctx, s, s', hbody⟩ := translateSig_parts h
  cases hty : (classifyOwnedParams ty).2 with
  | tQual lhs b =>
      rw [hty] at hctx hbody
      exact ⟨context_unmarked lhs hctx, goT_unmarked b hbody⟩
  | _ =>
      rw [hty] at hbody
      exact goT_unmarked _ hbody

/-! ### The parameters -/

/-- Taking the marks away keeps the number of parameters. -/
theorem classify_classify (t : Abs.Ty) :
    (classifyOwnedParams (classifyOwnedParams t).2).1.length =
      (classifyOwnedParams t).1.length := by
  cases t with
  | tFun a rest => exact congrArg Nat.succ (classify_classify rest)
  | tWith a rest eff => exact congrArg Nat.succ (classify_classify rest)
  | tParen t => exact classify_classify t
  | tQual ctx body => exact classify_classify body
  | _ => rfl

theorem typeSlot_params {name : String} {c : CType} (h : typeSlot name s = .ok (c, s')) :
    paramCTypesOf c = [] := by
  unfold typeSlot at h
  split at h <;> cases h <;> rfl

theorem rowSlot_params {key : String} {c : CType} (h : rowSlot key s = .ok (c, s')) :
    paramCTypesOf c = [] := by
  unfold rowSlot at h
  split at h <;> cases h <;> rfl

theorem plainCon_params {pos : Abs.Pos} {name : String} {c : CType}
    (h : plainCon env pos name = .ok c) : paramCTypesOf c = [] := by
  unfold plainCon at h
  repeat' split at h
  all_goals cases h
  all_goals rfl

theorem buildCon_params {pos : Abs.Pos} {name : String} {c : CType}
    (h : buildCon env pos name = .ok c) : paramCTypesOf c = [] := by
  unfold buildCon at h
  split at h
  next =>
    split at h
    next =>
      split at h
      next => cases h
      next =>
        cases h
        rfl
    next => exact plainCon_params h
  next => exact plainCon_params h

theorem buildApp_params {pos : Abs.Pos} {head : AppHead} {args : List CType} {c : CType}
    (h : buildApp env pos head args = .ok c) : paramCTypesOf c = [] := by
  cases head with
  | effect name =>
      cases h
      rfl
  | tyCon name =>
      unfold buildApp at h
      simp only at h
      split at h
      next =>
        obtain ⟨_, -, h⟩ := exceptBind_ok h
        cases h
        rfl
      next =>
        cases h
        rfl

/-- The translation of a signature has the parameters that its arrows show. -/
theorem goT_params (t : Abs.Ty) {s s' : SigState} {c : CType} (h : goT env t s = .ok (c, s')) :
    (paramCTypesOf c).length = (classifyOwnedParams t).1.length := by
  cases t with
  | tFun a rest =>
      rw [goT] at h
      obtain ⟨_, _, -, h⟩ := sigBind_ok h
      obtain ⟨_, _, hrest, h⟩ := sigBind_ok h
      cases h
      exact congrArg Nat.succ (goT_params rest hrest)
  | tWith a rest eff =>
      rw [goT] at h
      obtain ⟨_, _, -, h⟩ := sigBind_ok h
      obtain ⟨_, _, -, h⟩ := sigBind_ok h
      obtain ⟨_, _, hrest, h⟩ := sigBind_ok h
      cases h
      exact congrArg Nat.succ (goT_params rest hrest)
  | tParen t => exact goT_params t h
  | tQual ctx body => exact (throwSig_ok h).elim
  | tOwned t => exact (throwSig_ok h).elim
  | tVar v => rw [typeSlot_params h]; rfl
  | tRowArg v => rw [rowSlot_params h]; rfl
  | tUnit =>
      cases h
      rfl
  | tCon p => rw [buildCon_params (sigLift_ok h).1]; rfl
  | tList inner =>
      rw [goT] at h
      obtain ⟨_, _, -, h⟩ := sigBind_ok h
      cases h
      rfl
  | tTuple a others =>
      rw [goT] at h
      obtain ⟨_, _, -, h⟩ := sigBind_ok h
      obtain ⟨_, _, -, h⟩ := sigBind_ok h
      cases h
      rfl
  | tApp f x =>
      rcases happ : collectApp f x with ⟨head, args⟩
      rw [goT, happ] at h
      cases head with
      | tCon p =>
          simp only at h
          split at h
          next =>
            split at h
            next =>
              obtain ⟨_, _, -, h⟩ := sigBind_ok h
              obtain ⟨_, _, -, h⟩ := sigBind_ok h
              obtain ⟨_, _, -, h⟩ := sigBind_ok h
              obtain ⟨_, _, -, h⟩ := sigBind_ok h
              cases h
              rfl
            next => exact (throwSig_ok h).elim
          next =>
            obtain ⟨_, _, -, h⟩ := sigBind_ok h
            obtain ⟨_, _, -, h⟩ := sigBind_ok h
            obtain ⟨_, _, -, h⟩ := sigBind_ok h
            rw [buildApp_params (sigLift_ok h).1]
            rfl
      | _ => exact (throwSig_ok h).elim
  | tExtend lhs op rc =>
      rw [goT] at h
      split at h
      next => exact (throwSig_ok h).elim
      next =>
        obtain ⟨lhsCT, _, -, h⟩ := sigBind_ok h
        split at h
        next =>
          obtain ⟨_, _, -, h⟩ := sigBind_ok h
          obtain ⟨_, _, -, h⟩ := sigBind_ok h
          cases h
          rfl
        next => exact (throwSig_ok h).elim

theorem translateSig_params {ty : Abs.Ty} {sch : Scheme} (h : translateSig env ty = .ok sch) :
    (paramCTypesOf sch.body).length = (classifyOwnedParams ty).1.length := by
  obtain ⟨-, s, s', hbody⟩ := translateSig_parts h
  rw [goT_params _ hbody]
  cases ty <;> rfl

/-! ### Members -/

theorem require_ok {ok : Bool} {e : SigError} {u : Unit} (h : require ok e = .ok u) :
    ok = true := by
  unfold require at h
  split at h
  next hok => exact hok
  next => cases h

theorem blessedSig_ok {pos : Abs.Pos} {lib sym : String} {bsig : BlessedSig}
    (h : blessedSig pos lib sym = .ok bsig) : lookupBlessed lib sym = some bsig := by
  unfold blessedSig at h
  split at h
  next => cases h
  next hl =>
    cases h
    exact hl

theorem bytes_of_check {pos : Abs.Pos} {memberName : String} {transfers : List ArgTransfer}
    {params : List CType} {u : Unit} (h : checkBytes pos memberName transfers params = .ok u)
    {i : Nat} (hi : i < transfers.length) (hi' : i < params.length)
    (hmove : transfers[i] = .moveOut) : params[i] = .con .bytes [] := by
  have hmem : (transfers[i], params[i]) ∈ transfers.zip params := by
    rw [← List.getElem_zip (h := by rw [List.length_zip]; omega)]
    exact List.getElem_mem _
  obtain ⟨_, hreq⟩ := forM_ok h _ hmem
  have hok := require_ok hreq
  simp only [hmove] at hok
  simpa using hok

theorem moveOut_of_check {pos : Abs.Pos} {lib sym memberName : String}
    {transfers blessed : List ArgTransfer} {u : Unit}
    (h : checkBlessed pos lib sym memberName transfers blessed = .ok u) {i : Nat}
    (hi : transfers[i]? = some .moveOut) : transferAt blessed i = .moveOut := by
  obtain ⟨_, hreq⟩ := forM_ok h (ArgTransfer.moveOut, i) (List.mem_zipIdx_iff_getElem?.mpr hi)
  simpa using require_ok hreq

theorem moveOut_of_checkOwned {pos : Abs.Pos} {lib sym memberName : String}
    {transfers blessed : List ArgTransfer} {params : List CType} {u : Unit}
    (h : checkOwned pos lib sym memberName transfers blessed params = .ok u) {i : Nat}
    (hi : blessed[i]? = some .moveOut) : transferAt transfers i = .moveOut := by
  obtain ⟨_, hreq⟩ := forM_ok h (ArgTransfer.moveOut, i) (List.mem_zipIdx_iff_getElem?.mpr hi)
  simpa using require_ok hreq

/-- Each check is one direction of the agreement. -/
theorem transfers_agree {pos : Abs.Pos} {lib sym memberName : String}
    {transfers blessed : List ArgTransfer} {params : List CType} {u u' : Unit}
    (hblessed : checkBlessed pos lib sym memberName transfers blessed = .ok u)
    (howned : checkOwned pos lib sym memberName transfers blessed params = .ok u') {i : Nat}
    (hi : i < transfers.length) : transfers[i] = transferAt blessed i := by
  cases ht : transfers[i] with
  | moveOut =>
      rw [moveOut_of_check hblessed (List.getElem?_eq_some_iff.mpr ⟨hi, ht⟩)]
  | none =>
      cases hb : blessed[i]? with
      | none => simp [transferAt, hb]
      | some b =>
          cases b with
          | none => simp [transferAt, hb]
          | moveOut =>
              have hmove := moveOut_of_checkOwned howned hb
              rw [transferAt, List.getElem?_eq_getElem hi, Option.getD_some, ht] at hmove
              cases hmove

/-- Of a registered member, the transfers fit, and its signature is marked at the heads of
its parameters only. -/
theorem memberInfo_transfers {modName lib : String} {free : Option String}
    {mem : Abs.ForeignMember} {info : Env.ForeignMemberInfo}
    (h : memberInfo env modName lib free mem = .ok info) :
    TransfersFit lib info ∧ (memberParts mem).2.2.1.MarkedAtHeads := by
  rcases hparts : memberParts mem with ⟨v, fsym, ty, isOwned⟩
  simp only [memberInfo, hparts] at h
  obtain ⟨bsig, hbsig, h⟩ := exceptBind_ok h
  obtain ⟨_, -, h⟩ := exceptBind_ok h
  obtain ⟨sch, hscheme, h⟩ := exceptBind_ok h
  obtain ⟨_, hbytes, h⟩ := exceptBind_ok h
  obtain ⟨_, hblessed, h⟩ := exceptBind_ok h
  obtain ⟨_, howned, h⟩ := exceptBind_ok h
  obtain ⟨_, -, h⟩ := exceptBind_ok h
  cases h
  have hlen : (classifyOwnedParams ty).1.length = (paramCTypesOf sch.body).length := by
    rw [translateSig_params hscheme, classify_classify]
  refine ⟨⟨hlen, ⟨bsig, blessedSig_ok hbsig, ?_⟩, ?_⟩, translateSig_marked hscheme⟩
  · intro i hi
    rw [← hlen] at hi
    rw [List.getElem?_eq_getElem hi]
    exact congrArg some (transfers_agree hblessed howned hi)
  · intro i hi
    obtain ⟨hlt, hget⟩ := List.getElem?_eq_some_iff.mp hi
    have hlt' : i < (paramCTypesOf sch.body).length := hlen ▸ hlt
    rw [List.getElem?_eq_getElem hlt']
    exact congrArg some (bytes_of_check hbytes hlt hlt' hget)

/-- Of a member that registration accepts, the transfers fit, and `owned` stands at the heads
of its parameters only. -/
theorem registerMember_transfers {modName lib : String} {free : Option String}
    {acc acc' : Dict Env.ForeignMemberInfo} {mem : Abs.ForeignMember}
    (h : registerMember env modName lib free acc mem = .ok acc') :
    ∃ info, acc' = acc.insert (memberParts mem).1.text info ∧ TransfersFit lib info ∧
      (memberParts mem).2.2.1.MarkedAtHeads := by
  obtain ⟨info, hinfo, h⟩ := exceptBind_ok h
  cases h
  exact ⟨info, rfl, memberInfo_transfers hinfo⟩

section Example

/-- `consume : owned Bytes -> (U64)`. -/
def consumeMember : Abs.ForeignMember :=
  .fmPlain (startVar "consume") .fsNone
    (.tFun (.tOwned (.tCon (.mpName ⟨(1, 1), "Bytes", by decide⟩)))
      (.tParen (.tCon (.mpName ⟨(1, 1), "U64", Abs.u64_plain⟩))))

/-- An environment with the types of the member. -/
def scalarEnv : Env Unit :=
  { (emptyEnv : Env Unit) with
    tyCons :=
      [("Bytes", ⟨.star, 0, [], false, true, []⟩), ("U64", ⟨.star, 0, [], false, true, []⟩)] }

theorem registerMember_consume :
    ∃ info, registerMember scalarEnv "Wok" "wok" none [] consumeMember = .ok [("consume", info)] ∧
      TransfersFit "wok" info := by
  have haccept : registerMember scalarEnv "Wok" "wok" none [] consumeMember =
      .ok [("consume", ⟨⟨[], [], .arr (.con .bytes []) .rowEmpty (.con .u64 [])⟩, "consume",
        false, [.moveOut]⟩)] := rfl
  obtain ⟨info, hacc, hfit, -⟩ := registerMember_transfers haccept
  exact ⟨info, haccept.trans (congrArg Except.ok hacc), hfit⟩

end Example

/-! ### Modules -/

/-- Every member of every module has transfers that fit. -/
def MembersFit (env : Env E) : Prop :=
  ∀ m ∈ env.foreignModules, ∀ e ∈ m.2.members, TransfersFit m.2.lib e.2

theorem mem_insert {α : Type} {k : String} {v : α} {m : Dict α} {e : String × α}
    (h : e ∈ m.insert k v) : e = (k, v) ∨ e ∈ m := by
  induction m with
  | nil => exact .inl (List.mem_singleton.mp h)
  | cons e' m ih =>
      rw [Dict.insert] at h
      split at h
      · exact (List.mem_cons.mp h).imp_right id
      · split at h
        · exact (List.mem_cons.mp h).imp_right (List.mem_cons_of_mem _)
        · rcases List.mem_cons.mp h with rfl | h
          · exact .inr List.mem_cons_self
          · exact (ih h).imp_right (List.mem_cons_of_mem _)

theorem foldlM_registerMember {modName lib : String} {free : Option String}
    {mems : List Abs.ForeignMember} {acc acc' : Dict Env.ForeignMemberInfo}
    (hacc : ∀ e ∈ acc, TransfersFit lib e.2)
    (h : mems.foldlM (registerMember env modName lib free) acc = .ok acc') :
    ∀ e ∈ acc', TransfersFit lib e.2 := by
  induction mems generalizing acc with
  | nil =>
      cases h
      exact hacc
  | cons mem mems ih =>
      rw [List.foldlM_cons] at h
      obtain ⟨acc₁, hmem, h⟩ := exceptBind_ok h
      obtain ⟨info, hinfo, hmem⟩ := exceptBind_ok hmem
      cases hmem
      refine ih (fun e he => ?_) h
      rcases mem_insert he with rfl | he
      · exact (memberInfo_transfers hinfo).1
      · exact hacc e he

/-- The transfers fit in every environment that foreign modules are registered into. -/
theorem processForeignDecls_fit {env' : Env E} {ds : List Abs.DForeign} (hfit : MembersFit env)
    (h : processForeignDecls env ds = .ok env') : MembersFit env' := by
  induction ds generalizing env with
  | nil =>
      cases h
      exact hfit
  | cons d ds ih =>
      rw [processForeignDecls, List.foldlM_cons] at h
      obtain ⟨env₁, hd, h⟩ := exceptBind_ok h
      refine ih ?_ h
      obtain ⟨_, -, hd⟩ := exceptBind_ok hd
      obtain ⟨_, -, hd⟩ := exceptBind_ok hd
      obtain ⟨members, hmembers, hd⟩ := exceptBind_ok hd
      cases hd
      intro m hm
      rcases mem_insert hm with rfl | hm
      · exact foldlM_registerMember (fun e he => by cases he) hmembers
      · exact hfit m hm

/-- A module of the one member. -/
def consumeModule : Abs.DForeign :=
  ⟨⟨(1, 1), "Wok", by decide⟩, "wok", .ffNone, [consumeMember]⟩

theorem processForeignDecls_consume :
    ∃ env', processForeignDecls scalarEnv [consumeModule] = .ok env' ∧
      env'.foreignModules.length = 1 ∧ MembersFit env' := by
  have hfit : MembersFit scalarEnv := by
    intro m hm
    cases hm
  obtain ⟨env', hrun, hlen⟩ : ∃ env', processForeignDecls scalarEnv [consumeModule] = .ok env' ∧
      env'.foreignModules.length = 1 := ⟨_, rfl, rfl⟩
  exact ⟨env', hrun, hlen, processForeignDecls_fit hfit hrun⟩

end Wok.TypeChecking
