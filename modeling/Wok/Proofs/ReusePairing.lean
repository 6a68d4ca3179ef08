/-
Module: Wok.Proofs.ReusePairing
Purpose: The pairing of drops and allocations only adds tokens, each of which is produced
  once and then consumed once on the same path, for a cell of the same layout.
Imports: Wok.Spec.ReusePairing, Wok.Proofs.Perceus
Trusted boundary: none
Main exports: Paired, Pairs, findTarget_linear, findDrop_dropped, goExpr_pairs,
  module_paired, reusePairing_pairing
-/
import Wok.Spec.ReusePairing
import Wok.Proofs.Perceus

namespace Wok.Proofs.ReusePairing

open Wok.IR
open Wok.IR.ReusePairing
open Wok.Spec.Perceus hiding eraseExpr eraseDefs eraseDef eraseAlts eraseAlt eraseHandler eraseArms
  eraseArm eraseRhs eraseModule
open Wok.Spec.ReusePairing
open Wok.Proofs.Perceus (atomsMaxU_lt bindersMaxU_lt topMaxU_lt_seed le_defsMaxU le_altsMaxU
  le_armsMaxU term_mem_module minted minted_add minted_self minted_succ
  seedSupply_nonneg)

variable {lo : Int} {origin : Int → Origin} {env : TyEnv}

/-! ### Counting -/

@[simp] theorem termCount_nil (u : Int) : termCount u [] = 0 := rfl

@[simp] theorem termCount_append (u : Int) (xs ys : Occs) :
    termCount u (xs ++ ys) = termCount u xs + termCount u ys :=
  List.countP_append

@[simp] theorem termCount_cons (u : Int) (p : Position × Int) (xs : Occs) :
    termCount u (p :: xs) = termCount u xs + if p = (.term, u) then 1 else 0 := by
  simp [termCount, List.countP_cons]

theorem termCount_eq_zero {u : Int} {occs : Occs} (h : (Position.term, u) ∉ occs) :
    termCount u occs = 0 := by
  rw [termCount, List.countP_eq_zero]
  intro p hp heq
  exact h (of_decide_eq_true heq ▸ hp)

/-! ### Pieces without tokens -/

theorem producerOf_none {b : Binder} (h : uOf b.name < lo) (r : Rhs) :
    producerOf lo b r = none := by
  unfold producerOf
  split
  · rw [if_neg (by omega)]
  · rfl

theorem consumerOf_none {r : Rhs} (h : rhsMaxU r < lo) : consumerOf lo r = none := by
  unfold consumerOf
  split
  · rename_i tok c as
    have htok := (atomsMaxU_lt.mp h).1
    rw [atomMaxU] at htok
    rw [if_neg (by omega)]
  · rfl

/-- A kind of syntax with its erasure, its tokens, its occurrences and the linear use of
tokens in it. -/
structure Kind (α : Type) where
  erase : Int → (Int → Origin) → α → α
  tokens : Int → α → List Int
  occs : α → Occs
  linear : Int → (Int → Origin) → TyEnv → α → Prop

def exprs : Kind Expr :=
  ⟨eraseExpr, exprTokens, exprOccs, fun lo o env e => linearExpr lo o env none none e⟩
def altLists (scr : Option Unique) : Kind (List Alt) :=
  ⟨eraseAlts, altsTokens, altsOccs, fun lo o env as => linearAlts lo o env scr as⟩
def alts (scr : Option Unique) : Kind Alt :=
  ⟨eraseAlt, altTokens, altOccs, fun lo o env a => linearAlt lo o env scr a⟩
def defLists : Kind (List Def) := ⟨eraseDefs, defsTokens, defsOccs, linearDefs⟩
def defs : Kind Def := ⟨eraseDef, defTokens, defOccs, linearDef⟩
def handlers : Kind Handler := ⟨eraseHandler, handlerTokens, handlerOccs, linearHandler⟩
def rhss : Kind Rhs := ⟨eraseRhs, rhsTokens, rhsOccs, linearRhs⟩

def armLists : Kind (List OpArm) := ⟨eraseArms, armsTokens, armsOccs, linearArms⟩
def arms : Kind OpArm := ⟨eraseArm, armTokens, armOccs, linearArm⟩

/-- Where no token is pending, a match in scope asks for nothing. -/
theorem linear_matched (matched : Option (Unique × Layout)) : ∀ {e : Expr} {env : TyEnv},
    linearExpr lo origin env none none e → linearExpr lo origin env matched none e
  | .ret _, _, h => h
  | .jump .., _, h => h
  | .let_ b r e, env, h => by
      simp only [linearExpr] at h ⊢
      cases hp : producerOf lo b r with
      | some v =>
          simp only [hp] at h
          rcases h with ⟨-, layout, hnone, -⟩
          cases hnone
      | none =>
          simp only [hp] at h ⊢
          cases hc : consumerOf lo r with
          | some w =>
              simp only [hc] at h
              rcases h with ⟨sig, hnone, -⟩
              cases hnone
          | none =>
              simp only [hc] at h ⊢
              exact ⟨h.1, h.2.1, linear_matched matched h.2.2⟩
  | .letRec .., _, h => h
  | .case_ .., _, h => h
  | .letJoin .., _, h => h
  | .handle .., _, h => h
  | .installHandler .., _, h => h

/-- A piece in which no token is produced or consumed. -/
structure Untouched {α : Type} (K : Kind α) (lo : Int) (a : α) : Prop where
  erase : ∀ origin, K.erase lo origin a = a
  tokens : K.tokens lo a = []
  linear : ∀ origin env, K.linear lo origin env a

mutual

theorem expr_untouched : ∀ {e : Expr}, exprMaxU e < lo → Untouched exprs lo e
  | .ret _, _ => ⟨fun _ => rfl, rfl, fun _ _ => rfl⟩
  | .jump .., _ => ⟨fun _ => rfl, rfl, fun _ _ => rfl⟩
  | .let_ b r e, hb => by
      simp only [exprMaxU, Int.max_lt] at hb
      have hp := producerOf_none hb.1 r
      have hc := consumerOf_none hb.2.1
      have hr := rhs_untouched hb.2.1
      have he := expr_untouched hb.2.2
      constructor
      · intro origin
        change eraseExpr lo origin (.let_ b r e) = _
        simp only [eraseExpr, hp]
        exact congrArg₂ (Expr.let_ b) (hr.erase origin) (he.erase origin)
      · change exprTokens lo (.let_ b r e) = _
        simp only [exprTokens, hp, Option.isSome_none, Bool.false_eq_true, if_false,
          List.nil_append]
        exact List.append_eq_nil_iff.mpr ⟨hr.tokens, he.tokens⟩
      · intro origin env
        change linearExpr lo origin env none none (.let_ b r e)
        simp only [linearExpr, hp, hc]
        exact ⟨fun h => absurd rfl h, hr.linear origin env, he.linear origin _⟩
  | .letRec ds e, hb => by
      have hd := defs_untouched hb
      have he := expr_untouched (Int.lt_of_le_of_lt (le_defsMaxU _ ds) hb)
      exact ⟨fun o => congrArg₂ Expr.letRec (hd.erase o) (he.erase o),
        List.append_eq_nil_iff.mpr ⟨hd.tokens, he.tokens⟩,
        fun o env => ⟨rfl, hd.linear o _, he.linear o _⟩⟩
  | .case_ a as, hb => by
      have h := alts_untouched (scrutinee a) hb
      exact ⟨fun o => congrArg (Expr.case_ a) (h.erase o), h.tokens,
        fun o env => ⟨rfl, h.linear o env⟩⟩
  | .letJoin j ps jb e, hb => by
      have hm := (bindersMaxU_lt.mp hb).1
      rw [Int.max_lt] at hm
      have hj := expr_untouched hm.1
      have he := expr_untouched hm.2
      exact ⟨fun o => congrArg₂ (Expr.letJoin j ps) (hj.erase o) (he.erase o),
        List.append_eq_nil_iff.mpr ⟨hj.tokens, he.tokens⟩,
        fun o env => ⟨rfl, hj.linear o _, he.linear o _⟩⟩
  | .handle e h, hb => by
      simp only [exprMaxU, Int.max_lt] at hb
      have he := expr_untouched hb.1
      have hh := handler_untouched hb.2
      exact ⟨fun o => congrArg₂ Expr.handle (he.erase o) (hh.erase o),
        List.append_eq_nil_iff.mpr ⟨he.tokens, hh.tokens⟩,
        fun o env => ⟨rfl, he.linear o _, hh.linear o _⟩⟩
  | .installHandler a self e, hb => by
      simp only [exprMaxU, Int.max_lt] at hb
      have he := expr_untouched hb.2
      exact ⟨fun o => congrArg (Expr.installHandler a self) (he.erase o), he.tokens,
        fun o env => ⟨rfl, he.linear o env⟩⟩

theorem defs_untouched {m : Int} : ∀ {ds : List Def}, defsMaxU m ds < lo →
    Untouched defLists lo ds
  | [], _ => ⟨fun _ => rfl, rfl, fun _ _ => trivial⟩
  | d :: ds, hb => by
      simp only [defsMaxU, Int.max_lt] at hb
      have hd := def_untouched hb.1
      have hds := defs_untouched hb.2
      exact ⟨fun o => congrArg₂ List.cons (hd.erase o) (hds.erase o),
        List.append_eq_nil_iff.mpr ⟨hd.tokens, hds.tokens⟩,
        fun o env => ⟨hd.linear o env, hds.linear o env⟩⟩

theorem def_untouched : ∀ {d : Def}, defMaxU d < lo → Untouched defs lo d
  | ⟨b, ps, body⟩, hb => by
      simp only [defMaxU, Int.max_lt] at hb
      have h := expr_untouched (bindersMaxU_lt.mp hb.2).1
      exact ⟨fun o => congrArg (Def.mk b ps) (h.erase o), h.tokens, fun o env => h.linear o _⟩

theorem alts_untouched {m : Int} (scr : Option Unique) : ∀ {as : List Alt}, altsMaxU m as < lo →
    Untouched (altLists scr) lo as
  | [], _ => ⟨fun _ => rfl, rfl, fun _ _ => trivial⟩
  | alt :: as, hb => by
      simp only [altsMaxU, Int.max_lt] at hb
      have ha := alt_untouched scr hb.1
      have has := alts_untouched scr hb.2
      exact ⟨fun o => congrArg₂ List.cons (ha.erase o) (has.erase o),
        List.append_eq_nil_iff.mpr ⟨ha.tokens, has.tokens⟩,
        fun o env => ⟨ha.linear o env, has.linear o env⟩⟩

theorem alt_untouched (scr : Option Unique) : ∀ {alt : Alt}, altMaxU alt < lo →
    Untouched (alts scr) lo alt
  | .con c bs e, hb => by
      have h := expr_untouched (bindersMaxU_lt.mp hb).1
      exact ⟨fun o => congrArg (Alt.con c bs) (h.erase o), h.tokens,
        fun o env => linear_matched _ (h.linear o _)⟩
  | .lit l e, hb => by
      have h : Untouched exprs lo e := expr_untouched hb
      exact ⟨fun o => congrArg (Alt.lit l) (h.erase o), h.tokens, fun o env => h.linear o env⟩
  | .default e, hb => by
      have h : Untouched exprs lo e := expr_untouched hb
      exact ⟨fun o => congrArg Alt.default (h.erase o), h.tokens, fun o env => h.linear o env⟩

theorem handler_untouched : ∀ {h : Handler}, handlerMaxU h < lo → Untouched handlers lo h
  | ⟨retBinder, retBody, ops, answerJoin, param, self⟩, hb => by
      simp only [handlerMaxU, Int.max_lt] at hb
      have hr := expr_untouched hb.1.2
      have hops := arms_untouched hb.2
      constructor
      · intro o
        exact congrArg₂ (fun e as => Handler.mk retBinder e as answerJoin param self)
          (hr.erase o) (hops.erase o)
      · exact List.append_eq_nil_iff.mpr ⟨hr.tokens, hops.tokens⟩
      · exact fun o env => ⟨hr.linear o _, hops.linear o _⟩

theorem arms_untouched {m : Int} : ∀ {as : List OpArm}, armsMaxU m as < lo →
    Untouched armLists lo as
  | [], _ => ⟨fun _ => rfl, rfl, fun _ _ => trivial⟩
  | arm :: as, hb => by
      simp only [armsMaxU, Int.max_lt] at hb
      have ha := arm_untouched hb.1
      have has := arms_untouched hb.2
      exact ⟨fun o => congrArg₂ List.cons (ha.erase o) (has.erase o),
        List.append_eq_nil_iff.mpr ⟨ha.tokens, has.tokens⟩,
        fun o env => ⟨ha.linear o env, has.linear o env⟩⟩

theorem arm_untouched : ∀ {arm : OpArm}, opArmMaxU arm < lo → Untouched arms lo arm
  | ⟨label, op, args, resume, body⟩, hb => by
      have h := expr_untouched (bindersMaxU_lt.mp hb).1
      exact ⟨fun o => congrArg (OpArm.mk label op args resume) (h.erase o), h.tokens,
        fun o env => h.linear o _⟩

theorem rhs_untouched : ∀ {r : Rhs}, rhsMaxU r < lo → Untouched rhss lo r
  | .lam ps e, hb => by
      have h := expr_untouched (bindersMaxU_lt.mp hb).1
      exact ⟨fun o => congrArg (Rhs.lam ps) (h.erase o), h.tokens, fun o env => h.linear o _⟩
  | .makeHandler _, hb => by
      have h := handler_untouched hb
      exact ⟨fun o => congrArg Rhs.makeHandler (h.erase o), h.tokens, fun o env => h.linear o env⟩
  | .reuseCon tok c as, hb => by
      have hc := consumerOf_none hb
      refine ⟨fun o => ?_, rfl, fun _ _ => trivial⟩
      change eraseRhs lo o (.reuseCon tok c as) = _
      simp only [eraseRhs, hc]
  | .atom _, _ => ⟨fun _ => rfl, rfl, fun _ _ => trivial⟩
  | .app .., _ => ⟨fun _ => rfl, rfl, fun _ _ => trivial⟩
  | .con .., _ => ⟨fun _ => rfl, rfl, fun _ _ => trivial⟩
  | .op .., _ => ⟨fun _ => rfl, rfl, fun _ _ => trivial⟩
  | .record .., _ => ⟨fun _ => rfl, rfl, fun _ _ => trivial⟩
  | .proj .., _ => ⟨fun _ => rfl, rfl, fun _ _ => trivial⟩
  | .foreignCall .., _ => ⟨fun _ => rfl, rfl, fun _ _ => trivial⟩

end

/-! ### Pieces with tokens -/

/-- The drops that became producers, by the identities of their tokens. -/
abbrev Origins := List (Int × Origin)

def Extends (origin : Int → Origin) (l : Origins) : Prop := ∀ p ∈ l, origin p.1 = p.2

/-- How often an identity is that of a token. -/
def Origins.count (l : Origins) (u : Int) : Nat := (l.map Prod.fst).count u

/-- The piece `a'` is `a` with the tokens `l`: it erases to `a`, each token stands in it
twice, once as a producer, and it uses them linearly. -/
structure Paired {α : Type} (K : Kind α) (lo : Int) (env : TyEnv) (l : Origins) (a' a : α) :
    Prop where
  erase : ∀ origin, Extends origin l → K.erase lo origin a' = a
  tokens : ∀ u, (K.tokens lo a').count u = l.count u
  occs : ∀ u, lo ≤ u → termCount u (K.occs a') = termCount u (K.occs a) + 2 * l.count u
  linear : ∀ origin, Extends origin l → K.linear lo origin env a'

/-- The pass, from the supply `n` on, pairs a piece by the tokens that it mints. -/
def Pairs {α : Type} (K : Kind α) (lo : Int) (env : TyEnv) (n : Int) (r : Int × α) (a : α) : Prop :=
  n ≤ r.1 ∧ ∃ l : Origins, (∀ u, l.count u = minted n r.1 u) ∧ Paired K lo env l r.2 a

section

variable {α β γ : Type} {A : Kind α} {B : Kind β} {C : Kind γ} {n : Int} {envA envB : TyEnv}

/-- A piece that is left alone. -/
theorem Pairs.self {a : α} (h : Untouched A lo a) : Pairs A lo env n (n, a) a := by
  refine ⟨le_rfl, [], fun u => ?_, fun o _ => h.erase o, fun u => ?_, fun u _ => ?_,
    fun o _ => h.linear o env⟩
  · rw [minted_self]
    rfl
  · rw [h.tokens]
    rfl
  · exact (Nat.add_zero _).symm

theorem Origins.count_append (l l' : Origins) (u : Int) :
    Origins.count (l ++ l') u = l.count u + Origins.count l' u := by
  rw [Origins.count, List.map_append, List.count_append]
  rfl

theorem Extends.left {origin : Int → Origin} {l l' : Origins} (h : Extends origin (l ++ l')) :
    Extends origin l := fun p hp => h p (List.mem_append_left _ hp)

theorem Extends.right {origin : Int → Origin} {l l' : Origins} (h : Extends origin (l ++ l')) :
    Extends origin l' := fun p hp => h p (List.mem_append_right _ hp)

/-- Two parts side by side, one after the other. -/
theorem Pairs.pair {r : Int × α} {s : Int × β} {a : α} {b : β} (mk : α → β → γ) (xs : Occs)
    (ha : Pairs A lo envA n r a) (hb : Pairs B lo envB r.1 s b)
    (herase : ∀ o, C.erase lo o (mk r.2 s.2) = mk (A.erase lo o r.2) (B.erase lo o s.2))
    (htokens : (C.tokens lo (mk r.2 s.2)).Perm (A.tokens lo r.2 ++ B.tokens lo s.2))
    (hoccs : ∀ a b u, termCount u (C.occs (mk a b)) =
      termCount u xs + (termCount u (A.occs a) + termCount u (B.occs b)))
    (hlinear : ∀ o, A.linear lo o envA r.2 → B.linear lo o envB s.2 →
      C.linear lo o env (mk r.2 s.2)) : Pairs C lo env n (s.1, mk r.2 s.2) (mk a b) := by
  rcases ha with ⟨hn, la, hla, pa⟩
  rcases hb with ⟨hm, lb, hlb, pb⟩
  refine ⟨hn.trans hm, la ++ lb, ?_, ?_⟩
  · intro u
    rw [Origins.count_append, hla, hlb, ← minted_add hn hm]
    rfl
  · constructor
    · intro o ho
      rw [herase, pa.erase o ho.left, pb.erase o ho.right]
    · intro u
      rw [htokens.count_eq, List.count_append, pa.tokens, pb.tokens, Origins.count_append]
    · intro u hu
      rw [hoccs, hoccs, pa.occs u hu, pb.occs u hu, Origins.count_append]
      omega
    · intro o ho
      exact hlinear o (pa.linear o ho.left) (pb.linear o ho.right)

/-- A part with binders and labels around it. -/
theorem Pairs.wrap {r : Int × α} {a : α} (mk : α → γ) (xs : Occs) (ha : Pairs A lo envA n r a)
    (herase : ∀ o, C.erase lo o (mk r.2) = mk (A.erase lo o r.2))
    (htokens : C.tokens lo (mk r.2) = A.tokens lo r.2)
    (hoccs : ∀ a u, termCount u (C.occs (mk a)) = termCount u xs + termCount u (A.occs a))
    (hlinear : ∀ o, A.linear lo o envA r.2 → C.linear lo o env (mk r.2)) :
    Pairs C lo env n (r.1, mk r.2) (mk a) := by
  rcases ha with ⟨hn, la, hla, pa⟩
  refine ⟨hn, la, hla, ?_⟩
  constructor
  · intro o ho
    rw [herase, pa.erase o ho]
  · intro u
    rw [htokens, pa.tokens]
  · intro u hu
    rw [hoccs, hoccs, pa.occs u hu]
    omega
  · exact fun o ho => hlinear o (pa.linear o ho)

end

/-! ### The consumer -/

section

variable {mc : String} {sig : List SlotClass} {t : Name}

/-- The search for a target goes past a binding. -/
theorem findTarget_next {b : Binder} {r : Rhs} {rest : Expr} {rebuild : Atom → Expr}
    (h : findTarget env mc sig (.let_ b r rest) = some rebuild) :
    (∃ c as, r = .con c as ∧ c = mc ∧ targetSlotSig env as = some sig ∧
        rebuild = fun tok => .let_ b (.reuseCon tok c as) rest) ∨
      captures r = false ∧ ∃ rebuild', findTarget (bindType b env) mc sig rest = some rebuild' ∧
        rebuild = fun tok => .let_ b r (rebuild' tok) := by
  have hnext : ∀ {r}, (findTarget (bindType b env) mc sig rest).map
      (fun rebuild tok => Expr.let_ b r (rebuild tok)) = some rebuild →
      ∃ rebuild', findTarget (bindType b env) mc sig rest = some rebuild' ∧
        rebuild = fun tok => .let_ b r (rebuild' tok) := by
    intro r h
    rcases Option.map_eq_some_iff.mp h with ⟨rebuild', h', rfl⟩
    exact ⟨rebuild', h', rfl⟩
  cases r with
  | con c as =>
      simp only [findTarget] at h
      split at h
      · rename_i hc
        cases h
        exact .inl ⟨c, as, rfl, hc.1, hc.2, rfl⟩
      · exact .inr ⟨rfl, hnext h⟩
  | lam ps e => cases h
  | op m l o as => cases h
  | _ => exact .inr ⟨rfl, hnext h⟩

theorem findTarget_counts (lo : Int) (t : Name) : ∀ {e : Expr} {env : TyEnv}
    {rebuild : Atom → Expr}, findTarget env mc sig e = some rebuild →
      exprTokens lo (rebuild (.var t)) = exprTokens lo e ∧
        ∀ w, termCount w (exprOccs (rebuild (.var t))) =
          termCount w (exprOccs e) + if uOf t = w then 1 else 0
  | .let_ b r rest, env, rebuild, h => by
      rcases findTarget_next h with
        ⟨c, as, rfl, -, -, rfl⟩ | ⟨-, rebuild', h', rfl⟩
      · refine ⟨rfl, fun w => ?_⟩
        simp [exprOccs, rhsOccs, atomOccs]
        omega
      · rcases findTarget_counts lo t h' with ⟨htokens, hoccs⟩
        refine ⟨?_, fun w => ?_⟩
        · simp only [exprTokens, htokens]
        · simp only [exprOccs, termCount_cons, termCount_append, hoccs w]
          omega
  | .ret _, _, _, h => nomatch h
  | .jump .., _, _, h => nomatch h
  | .letRec .., _, _, h => nomatch h
  | .case_ .., _, _, h => nomatch h
  | .letJoin .., _, _, h => nomatch h
  | .handle .., _, _, h => nomatch h
  | .installHandler .., _, _, h => nomatch h

/-- What a linear binding is, when no token is pending and none may be produced. -/
theorem linear_let {b : Binder} {r : Rhs} {e : Expr}
    (h : linearExpr lo origin env none none (.let_ b r e)) :
    producerOf lo b r = none ∧ consumerOf lo r = none ∧ linearRhs lo origin env r ∧
      linearExpr lo origin (bindType b env) none none e := by
  simp only [linearExpr] at h
  cases hp : producerOf lo b r with
  | some v =>
      simp only [hp] at h
      rcases h with ⟨-, layout, hnone, -⟩
      cases hnone
  | none =>
      simp only [hp] at h
      cases hc : consumerOf lo r with
      | some w =>
          simp only [hc] at h
          rcases h with ⟨sig, hnone, -⟩
          cases hnone
      | none =>
          simp only [hc] at h
          exact ⟨rfl, rfl, h.2.1, h.2.2⟩

/-- The token goes along the line to an allocation of the layout that was looked for. -/
theorem findTarget_linear (ht : lo ≤ uOf t) : ∀ {e : Expr} {env : TyEnv}
    {rebuild : Atom → Expr}, findTarget env mc sig e = some rebuild →
      linearExpr lo origin env none none e →
      eraseExpr lo origin (rebuild (.var t)) = eraseExpr lo origin e ∧
        linearExpr lo origin env none (some (uOf t, mc, sig)) (rebuild (.var t))
  | .let_ b r rest, env, rebuild, h, hl => by
      rcases linear_let hl with ⟨hp, hc, hr, hrest⟩
      rcases findTarget_next h with
        ⟨c, as, rfl, rfl, hsig, rfl⟩ | ⟨hcap, rebuild', h', rfl⟩
      · have hconsumer : consumerOf lo (.reuseCon (.var t) c as) = some (t, c, as) := if_pos ht
        have hproducer : producerOf lo b (.reuseCon (.var t) c as) = none := rfl
        constructor
        · simp only [eraseExpr, hp, hproducer, eraseRhs, hconsumer]
        · simp only [linearExpr, hproducer, hconsumer]
          exact ⟨sig, rfl, hsig, hrest⟩
      · rcases findTarget_linear ht h' hrest with ⟨herase, hlinear⟩
        constructor
        · simp only [eraseExpr, hp, herase]
        · simp only [linearExpr, hp, hc]
          exact ⟨fun _ => hcap, hr, hlinear⟩
  | .ret _, _, _, h, _ => nomatch h
  | .jump .., _, _, h, _ => nomatch h
  | .letRec .., _, _, h, _ => nomatch h
  | .case_ .., _, _, h, _ => nomatch h
  | .letJoin .., _, _, h, _ => nomatch h
  | .handle .., _, _, h, _ => nomatch h
  | .installHandler .., _, _, h, _ => nomatch h

end

/-! ### The producer -/

/-- The drops of an expression's own line, and their binders, are of the module: their
identities are below `lo`. -/
def LineBelow (lo : Int) : Expr → Prop
  | .let_ b r e =>
      uOf b.name < lo ∧ (∀ h v, r = .app (.var h) [.var v] → uOf h < lo) ∧ LineBelow lo e
  | _ => True

theorem dropTargetOf_some {p : Unique} {r : Rhs} {v : Name} (h : dropTargetOf p r = some v) :
    ∃ u, r = .app (.var ⟨dropHint, u⟩) [.var v] ∧ v.uniq = p := by
  unfold dropTargetOf at h
  split at h
  · rename_i hd w
    split at h
    · rename_i hif
      cases h
      rcases hd with ⟨hint, u⟩
      obtain ⟨rfl, hv⟩ := hif
      exact ⟨u, rfl, hv⟩
    · cases h
  · cases h

theorem dropHint_ne : dropHint ≠ dropReuseHint := by decide

/-- What the search for a drop has done: nothing, or one drop became a producer. -/
def Dropped (lo : Int) (env : TyEnv) (matched : Unique × Layout) (n : Int) (r : Int × Expr)
    (e : Expr) : Prop :=
  r = (n, e) ∨ r.1 = n + 1 ∧ ∃ o : Origin,
    (∀ u, (exprTokens lo r.2).count u = (exprTokens lo e).count u + if n = u then 1 else 0) ∧
      (∀ u, lo ≤ u → termCount u (exprOccs r.2) =
        termCount u (exprOccs e) + 2 * if n = u then 1 else 0) ∧
      ∀ origin, origin n = o → linearExpr lo origin env none none e →
        eraseExpr lo origin r.2 = eraseExpr lo origin e ∧
          linearExpr lo origin env (some matched) none r.2

theorem findDrop_dropped {mc : String} {p : Unique} {sig : List SlotClass} {n : Int}
    (h0 : 0 ≤ lo) (hn : lo ≤ n) : ∀ {e : Expr} {env : TyEnv}, LineBelow lo e →
      Dropped lo env (p, mc, sig) n (findDrop env mc p sig n e) e
  | .let_ b r rest, env, hbelow => by
      rcases hbelow with ⟨hb, hhead, hbelow⟩
      have hp := producerOf_none hb
      cases hd : dropTargetOf p r with
      | none =>
          have hrun : findDrop env mc p sig n (.let_ b r rest) =
              ((findDrop (bindType b env) mc p sig n rest).1,
                .let_ b r (findDrop (bindType b env) mc p sig n rest).2) := by
            simp only [findDrop, hd]
          rw [hrun]
          rcases findDrop_dropped h0 hn hbelow with hsame | ⟨hsup, o, htokens, hoccs, hlinear⟩
          · left
            rw [hsame]
          · refine .inr ⟨hsup, o, fun u => ?_, fun u hu => ?_, fun origin ho hl => ?_⟩
            · simp only [exprTokens, List.count_append, htokens]
              omega
            · simp only [exprOccs, termCount_cons, termCount_append, hoccs u hu]
              omega
            · rcases linear_let hl with ⟨-, hc, hr, hrest⟩
              rcases hlinear origin ho hrest with ⟨herase, hline⟩
              constructor
              · simp only [eraseExpr, hp, herase]
              · simp only [linearExpr, hp, hc]
                exact ⟨fun h => absurd rfl h, hr, hline⟩
      | some v =>
          rcases dropTargetOf_some hd with ⟨hu, rfl, rfl⟩
          cases ht : findTarget (bindType b env) mc sig rest with
          | none =>
              left
              simp only [findDrop, hd, ht]
          | some rebuild =>
              let tok : Name := ⟨tokHint, ⟨n⟩⟩
              have hrun : findDrop env mc v.uniq sig n
                  (.let_ b (.app (.var ⟨dropHint, hu⟩) [.var v]) rest) =
                  (n + 1, .let_ ⟨tok, unitTy⟩ (.app (.var dropReuseName) [.var v])
                    (rebuild (.var tok))) := by
                simp only [findDrop, hd, ht, tok]
              have hproducer : producerOf lo ⟨tok, unitTy⟩ (.app (.var dropReuseName) [.var v]) =
                  some v := if_pos ⟨rfl, hn⟩
              have hheadBelow : uOf ⟨dropHint, hu⟩ < lo := hhead _ v rfl
              rw [hrun]
              refine .inr ⟨rfl, ⟨b, hu⟩, fun u => ?_, fun u hlo => ?_, fun origin ho hl => ?_⟩
              · rcases findTarget_counts lo tok ht with ⟨htokens, -⟩
                simp only [exprTokens, hproducer, hp, htokens, rhsTokens, Option.isSome_some,
                  Option.isSome_none, if_true, if_false, Bool.false_eq_true, List.nil_append,
                  List.count_append, List.count_singleton]
                rw [Nat.add_comm]
                congr 1
                exact if_congr beq_iff_eq rfl rfl
              · rcases findTarget_counts lo tok ht with ⟨-, hoccs⟩
                have hbu : uOf b.name ≠ u := by omega
                have hhu : uOf ⟨dropHint, hu⟩ ≠ u := by omega
                have hreuse : uOf dropReuseName ≠ u := by
                  change (-1 : Int) ≠ u
                  omega
                have htok : uOf tok = n := rfl
                simp only [exprOccs, rhsOccs, atomOccs, atomsOccs, termCount_cons,
                  termCount_append, termCount_nil, List.flatMap_cons, List.flatMap_nil,
                  List.append_nil, Prod.mk.injEq, true_and, hoccs u, hbu, hhu, hreuse, htok,
                  if_false]
                omega
              · rcases linear_let hl with ⟨-, -, -, hrest⟩
                rcases findTarget_linear (t := tok) hn ht hrest with ⟨herase, hline⟩
                constructor
                · simp only [eraseExpr, hproducer, hp, eraseRhs, herase]
                  rw [show origin (uOf tok) = ⟨b, hu⟩ from ho]
                · simp only [linearExpr, hproducer]
                  rw [show origin (uOf tok) = ⟨b, hu⟩ from ho]
                  exact ⟨trivial, (mc, sig), rfl, hline⟩
  | .ret _, _, _ => .inl rfl
  | .jump .., _, _ => .inl rfl
  | .letRec .., _, _ => .inl rfl
  | .case_ .., _, _ => .inl rfl
  | .letJoin .., _, _ => .inl rfl
  | .handle .., _, _ => .inl rfl
  | .installHandler .., _, _ => .inl rfl

/-! ### The pass -/

theorem consumerOf_goRhs (env : TyEnv) (n : Int) (r : Rhs) :
    consumerOf lo (goRhs env n r).2 = consumerOf lo r := by
  cases r <;> rfl

/-- The pass leaves the line itself as it is. -/
theorem goExpr_lineBelow : ∀ (e : Expr) (env : TyEnv) (n : Int), exprMaxU e < lo →
    LineBelow lo (goExpr env n e).2
  | .let_ b r e, env, n, hb => by
      simp only [exprMaxU, Int.max_lt] at hb
      refine ⟨hb.1, fun h v hr => ?_, goExpr_lineBelow e _ _ hb.2.2⟩
      cases r with
      | app f as =>
          cases hr
          have hhead := (atomsMaxU_lt.mp hb.2.1).1
          rwa [atomMaxU] at hhead
      | _ => cases hr
  | .ret _, _, _, _ => trivial
  | .jump .., _, _, _ => trivial
  | .letRec .., _, _, _ => trivial
  | .case_ .., _, _, _ => trivial
  | .letJoin .., _, _, _ => trivial
  | .handle .., _, _, _ => trivial
  | .installHandler .., _, _, _ => trivial

theorem Origins.count_cons (u n : Int) (o : Origin) (l : Origins) :
    Origins.count ((n, o) :: l) u = l.count u + if n = u then 1 else 0 := by
  rw [Origins.count, List.map_cons, List.count_cons]
  congr 1
  exact if_congr beq_iff_eq rfl rfl

/-- An alternative that is left alone around its rewritten body. -/
theorem Pairs.con {scr : Option Unique} {c : String} {bs : List Binder} {n : Int}
    {r : Int × Expr} {e : Expr} (hr : Pairs exprs lo (bindTypes bs env) n r e) :
    Pairs (alts scr) lo env n (r.1, .con c bs r.2) (.con c bs e) :=
  hr.wrap (Alt.con c bs) (bindersOccs bs) (fun _ => rfl) rfl
    (fun a u => termCount_append u (bindersOccs bs) (exprOccs a))
    fun _ h => linear_matched _ h

/-- Where a drop became a producer, the alternative has one token more. -/
theorem Pairs.dropped {p : Unique} {c : String} {bs : List Binder} {n : Int}
    {r s : Int × Expr} {e : Expr} (hr : Pairs exprs lo (bindTypes bs env) n r e)
    (hs : Dropped lo (bindTypes bs env) (p, c, conSlotSig (bs.map (·.type))) r.1 s r.2) :
    Pairs (alts (some p)) lo env n (s.1, .con c bs s.2) (.con c bs e) := by
  rcases hs with rfl | ⟨hsup, o, htokens, hoccs, hlinear⟩
  · exact hr.con
  · rcases hr with ⟨hle, l, hl, hp⟩
    refine ⟨by omega, (r.1, o) :: l, fun u => ?_, ?_⟩
    · have hsum : minted n r.1 u + minted r.1 s.1 u = minted n s.1 u :=
        congrFun (minted_add hle (by omega)) u
      rw [hsup, minted_succ] at hsum
      rw [Origins.count_cons, hsup, ← hsum, hl u]
    constructor
    · intro origin ho
      have hlin := hp.linear origin fun q hq => ho q (List.mem_cons_of_mem _ hq)
      have herase := (hlinear origin (ho _ List.mem_cons_self) hlin).1
      change Alt.con c bs (eraseExpr lo origin s.2) = _
      rw [herase]
      exact congrArg (Alt.con c bs) (hp.erase origin fun q hq => ho q (List.mem_cons_of_mem _ hq))
    · intro u
      change (exprTokens lo s.2).count u = _
      rw [htokens, Origins.count_cons]
      exact congrArg (· + _) (hp.tokens u)
    · intro u hu
      change termCount u (bindersOccs bs ++ exprOccs s.2) =
        termCount u (bindersOccs bs ++ exprOccs e) + _
      have hbody : termCount u (exprOccs r.2) = termCount u (exprOccs e) + 2 * l.count u :=
        hp.occs u hu
      rw [termCount_append, termCount_append, hoccs u hu, hbody, Origins.count_cons]
      omega
    · intro origin ho
      have hlin := hp.linear origin fun q hq => ho q (List.mem_cons_of_mem _ hq)
      exact (hlinear origin (ho _ List.mem_cons_self) hlin).2

theorem tryRewriteAlt_pairs {scr : Option Unique} {c : String} {bs : List Binder} {n : Int}
    {r : Int × Expr} {e : Expr} (h0 : 0 ≤ lo) (hn : lo ≤ n)
    (hr : Pairs exprs lo (bindTypes bs env) n r e) (hline : LineBelow lo r.2) :
    Pairs (alts scr) lo env n
      ((tryRewriteAlt (bindTypes bs env) scr c bs r.1 r.2).1,
        .con c bs (tryRewriteAlt (bindTypes bs env) scr c bs r.1 r.2).2) (.con c bs e) := by
  cases scr with
  | none => exact hr.con
  | some p =>
      by_cases hbs : bs.isEmpty
      · have hrun : tryRewriteAlt (bindTypes bs env) (some p) c bs r.1 r.2 = r := if_pos hbs
        rw [hrun]
        exact hr.con
      · have hrun : tryRewriteAlt (bindTypes bs env) (some p) c bs r.1 r.2 =
            findDrop (bindTypes bs env) c p (conSlotSig (bs.map (·.type))) r.1 r.2 := if_neg hbs
        rw [hrun]
        exact hr.dropped (findDrop_dropped h0 (hn.trans hr.1) hline)

/-- The pass keeps the names of a group. -/
theorem goDefs_names : ∀ (ds : List Def) (env : TyEnv) (n : Int),
    (goDefs env n ds).2.map (·.name) = ds.map (·.name)
  | [], _, _ => rfl
  | ⟨b, _, _⟩ :: ds, env, _ => congrArg (b :: ·) (goDefs_names ds env _)

mutual

theorem goExpr_pairs (h0 : 0 ≤ lo) : ∀ (e : Expr) (env : TyEnv) {n : Int}, lo ≤ n →
    exprMaxU e < lo → Pairs exprs lo env n (goExpr env n e) e
  | .ret _, _, _, _, hb => Pairs.self (expr_untouched hb)
  | .jump .., _, _, _, hb => Pairs.self (expr_untouched hb)
  | .let_ b r e, env, n, hn, hb => by
      simp only [exprMaxU, Int.max_lt] at hb
      have hr := goRhs_pairs h0 r env hn hb.2.1
      have he := goExpr_pairs h0 e (bindType b env) (hn.trans hr.1) hb.2.2
      have hp := producerOf_none hb.1 (goRhs env n r).2
      have hc : consumerOf lo (goRhs env n r).2 = none :=
        (consumerOf_goRhs env n r).trans (consumerOf_none hb.2.1)
      refine hr.pair (Expr.let_ b) [(.term, uOf b.name)] he (fun o => ?_) ?_ (fun a b u => ?_)
        fun o hrl hel => ?_
      · change eraseExpr lo o (.let_ b _ _) = _
        simp only [eraseExpr, hp]
        rfl
      · change (exprTokens lo (.let_ b _ _)).Perm _
        simp only [exprTokens, hp, Option.isSome_none, Bool.false_eq_true, if_false,
          List.nil_append]
        exact .rfl
      · exact (termCount_append u [_] _).trans
          (congrArg _ (termCount_append u (rhsOccs a) (exprOccs b)))
      · change linearExpr lo o env none none (.let_ b _ _)
        simp only [linearExpr, hp, hc]
        exact ⟨fun h => absurd rfl h, hrl, hel⟩
  | .letRec ds e, env, n, hn, hb => by
      have hd := goDefs_pairs h0 ds (bindTypes (ds.map (·.name)) env) hn hb
      have he := goExpr_pairs h0 e (bindTypes (ds.map (·.name)) env) (hn.trans hd.1)
        (Int.lt_of_le_of_lt (le_defsMaxU _ ds) hb)
      refine hd.pair Expr.letRec [] he (fun _ => rfl) .rfl (fun a b u => ?_) fun o hdl hel => ?_
      · exact (termCount_append u (defsOccs a) (exprOccs b)).trans (Nat.zero_add _).symm
      · change (none : Option (Int × Layout)) = none ∧ linearDefs lo o _ _ ∧
          linearExpr lo o _ none none _
        rw [goDefs_names]
        exact ⟨rfl, hdl, hel⟩
  | .case_ a as, env, n, hn, hb => by
      have h := goAlts_pairs h0 (scrutinee a) as env hn hb
      exact h.wrap (Expr.case_ a) (atomOccs a) (fun _ => rfl) rfl
        (fun as u => termCount_append u (atomOccs a) (altsOccs as)) fun o hl => ⟨rfl, hl⟩
  | .letJoin j ps jb e, env, n, hn, hb => by
      have hm := (bindersMaxU_lt.mp hb).1
      rw [Int.max_lt] at hm
      have hj := goExpr_pairs h0 jb (bindTypes ps env) hn hm.1
      have he := goExpr_pairs h0 e env (hn.trans hj.1) hm.2
      refine hj.pair (Expr.letJoin j ps) (labelOcc j :: bindersOccs ps) he (fun _ => rfl) .rfl
        (fun a b u => ?_) fun o hjl hel => ⟨rfl, hjl, hel⟩
      change termCount u (labelOcc j :: (bindersOccs ps ++ (exprOccs a ++ exprOccs b))) =
        termCount u (labelOcc j :: bindersOccs ps) +
          (termCount u (exprOccs a) + termCount u (exprOccs b))
      simp only [termCount_cons, termCount_append]
      omega
  | .handle e h, env, n, hn, hb => by
      simp only [exprMaxU, Int.max_lt] at hb
      have he := goExpr_pairs h0 e env hn hb.1
      have hh := handler_untouched hb.2
      have hself : Pairs handlers lo env (goExpr env n e).1 _ h := Pairs.self hh
      refine he.pair Expr.handle [] hself (fun _ => rfl) .rfl (fun a b u => ?_)
        fun o hel hhl => ⟨rfl, hel, hhl⟩
      exact (termCount_append u (exprOccs a) (handlerOccs b)).trans (Nat.zero_add _).symm
  | .installHandler a self e, env, n, hn, hb => by
      simp only [exprMaxU, Int.max_lt] at hb
      have he := goExpr_pairs h0 e env hn hb.2
      refine he.wrap (Expr.installHandler a self)
        (atomOccs a ++ self.toList.map (fun b => (.self, uOf b.name))) (fun _ => rfl) rfl
        (fun e u => ?_) fun o hl => ⟨rfl, hl⟩
      change termCount u (atomOccs a ++ (self.toList.map (fun b => (.self, uOf b.name)) ++
        exprOccs e)) = _
      rw [← List.append_assoc, termCount_append]
      rfl

theorem goRhs_pairs (h0 : 0 ≤ lo) : ∀ (r : Rhs) (env : TyEnv) {n : Int}, lo ≤ n →
    rhsMaxU r < lo → Pairs rhss lo env n (goRhs env n r) r
  | .lam ps e, env, n, hn, hb => by
      have he := goExpr_pairs h0 e (bindTypes ps env) hn (bindersMaxU_lt.mp hb).1
      exact he.wrap (Rhs.lam ps) (bindersOccs ps) (fun _ => rfl) rfl
        (fun e u => termCount_append u (bindersOccs ps) (exprOccs e)) fun o hl => hl
  | .makeHandler _, _, _, _, hb => Pairs.self (rhs_untouched hb)
  | .reuseCon .., _, _, _, hb => Pairs.self (rhs_untouched hb)
  | .atom _, _, _, _, hb => Pairs.self (rhs_untouched hb)
  | .app .., _, _, _, hb => Pairs.self (rhs_untouched hb)
  | .con .., _, _, _, hb => Pairs.self (rhs_untouched hb)
  | .op .., _, _, _, hb => Pairs.self (rhs_untouched hb)
  | .record .., _, _, _, hb => Pairs.self (rhs_untouched hb)
  | .proj .., _, _, _, hb => Pairs.self (rhs_untouched hb)
  | .foreignCall .., _, _, _, hb => Pairs.self (rhs_untouched hb)

theorem goAlts_pairs (h0 : 0 ≤ lo) (scr : Option Unique) : ∀ (as : List Alt) (env : TyEnv)
    {m n : Int}, lo ≤ n → altsMaxU m as < lo →
      Pairs (altLists scr) lo env n (goAlts env scr n as) as
  | [], _, _, _, _, _ => Pairs.self ⟨fun _ => rfl, rfl, fun _ _ => trivial⟩
  | alt :: as, env, m, n, hn, hb => by
      simp only [altsMaxU, Int.max_lt] at hb
      have ha := rewriteAlt_pairs h0 scr alt env hn hb.1
      have has := goAlts_pairs h0 scr as env (hn.trans ha.1) hb.2
      refine ha.pair List.cons [] has (fun _ => rfl) .rfl (fun a b u => ?_)
        fun o hl hls => ⟨hl, hls⟩
      exact (termCount_append u (altOccs a) (altsOccs b)).trans (Nat.zero_add _).symm

theorem goDefs_pairs (h0 : 0 ≤ lo) : ∀ (ds : List Def) (env : TyEnv) {m n : Int}, lo ≤ n →
    defsMaxU m ds < lo → Pairs defLists lo env n (goDefs env n ds) ds
  | [], _, _, _, _, _ => Pairs.self ⟨fun _ => rfl, rfl, fun _ _ => trivial⟩
  | d :: ds, env, m, n, hn, hb => by
      simp only [defsMaxU, Int.max_lt] at hb
      have hd := goDef_pairs h0 d env hn hb.1
      have hds := goDefs_pairs h0 ds env (hn.trans hd.1) hb.2
      refine hd.pair List.cons [] hds (fun _ => rfl) .rfl (fun a b u => ?_)
        fun o hl hls => ⟨hl, hls⟩
      exact (termCount_append u (defOccs a) (defsOccs b)).trans (Nat.zero_add _).symm

theorem goDef_pairs (h0 : 0 ≤ lo) : ∀ (d : Def) (env : TyEnv) {n : Int}, lo ≤ n →
    defMaxU d < lo → Pairs defs lo env n (goDef env n d) d
  | ⟨b, ps, body⟩, env, n, hn, hb => by
      simp only [defMaxU, Int.max_lt] at hb
      have he := goExpr_pairs h0 body (bindTypes ps env) hn (bindersMaxU_lt.mp hb.2).1
      exact he.wrap (Def.mk b ps) ((.term, uOf b.name) :: bindersOccs ps) (fun _ => rfl) rfl
        (fun e u => termCount_append u (_ :: bindersOccs ps) (exprOccs e)) fun o hl => hl

theorem rewriteAlt_pairs (h0 : 0 ≤ lo) (scr : Option Unique) : ∀ (alt : Alt) (env : TyEnv)
    {n : Int}, lo ≤ n → altMaxU alt < lo → Pairs (alts scr) lo env n (rewriteAlt env scr n alt) alt
  | .con c bs e, env, n, hn, hb => by
      have hb' := (bindersMaxU_lt.mp hb).1
      exact tryRewriteAlt_pairs h0 hn (goExpr_pairs h0 e (bindTypes bs env) hn hb')
        (goExpr_lineBelow e _ n hb')
  | .lit l e, env, n, hn, hb => by
      have he := goExpr_pairs h0 e env hn hb
      exact he.wrap (Alt.lit l) [] (fun _ => rfl) rfl (fun _ _ => (Nat.zero_add _).symm)
        fun o hl => hl
  | .default e, env, n, hn, hb => by
      have he := goExpr_pairs h0 e env hn hb
      exact he.wrap Alt.default [] (fun _ => rfl) rfl (fun _ _ => (Nat.zero_add _).symm)
        fun o hl => hl

end

/-! ### Modules -/

/-- The binds of a module, each in the scope of its parameters. -/
def topBinds : Kind TopBind where
  erase lo origin tb := { tb with body := eraseExpr lo origin tb.body }
  tokens lo tb := exprTokens lo tb.body
  occs := bindOccs
  linear lo origin _ tb := linearExpr lo origin (bindTypes tb.params []) none none tb.body

def topBindLists : Kind (List TopBind) where
  erase lo origin tbs := tbs.map (topBinds.erase lo origin)
  tokens lo tbs := tbs.flatMap (topBinds.tokens lo)
  occs := bindsOccs
  linear lo origin env tbs := ∀ tb ∈ tbs, topBinds.linear lo origin env tb

theorem stepBind_pairs (h0 : 0 ≤ lo) (tb : TopBind) {n : Int} (hn : lo ≤ n)
    (hb : topMaxU tb < lo) : Pairs topBinds lo [] n (stepBind tb n) tb := by
  rcases tb with ⟨name, params, body⟩
  rw [topMaxU, Int.max_lt] at hb
  have he := goExpr_pairs h0 body (bindTypes params []) hn (bindersMaxU_lt.mp hb.2).1
  exact he.wrap (TopBind.mk name params)
    ((.term, uOf name) :: bindersOccs params) (fun _ => rfl) rfl
    (fun e u => termCount_append u (_ :: bindersOccs params) (exprOccs e)) fun _ hl => hl

/-- The tokens of the later binds are minted first. -/
theorem stepBinds_pairs (h0 : 0 ≤ lo) : ∀ (tbs : List TopBind) {n : Int}, lo ≤ n →
    (∀ tb ∈ tbs, topMaxU tb < lo) → Pairs topBindLists lo [] n (stepBinds n tbs) tbs
  | [], _, _, _ => Pairs.self ⟨fun _ => rfl, rfl, fun _ _ _ h => absurd h List.not_mem_nil⟩
  | tb :: tbs, n, hn, hb => by
      have hrest := stepBinds_pairs h0 tbs hn fun tb' h => hb tb' (List.mem_cons_of_mem _ h)
      have hhead := stepBind_pairs h0 tb (hn.trans hrest.1) (hb tb List.mem_cons_self)
      refine hrest.pair (fun tbs tb => tb :: tbs) [] hhead (fun _ => rfl) List.perm_append_comm
        (fun as a u => ?_) fun o hl hls => ?_
      · change termCount u (bindOccs a ++ bindsOccs as) = _
        rw [termCount_append, Nat.add_comm]
        exact (Nat.zero_add _).symm
      · intro tb' htb'
        rcases List.mem_cons.mp htb' with rfl | h
        · exact hls
        · exact hl tb' h

/-- Tokens with different identities can each have their own drop back. -/
theorem exists_extends : ∀ {l : Origins}, (l.map Prod.fst).Nodup → ∃ origin, Extends origin l
  | [], _ => ⟨fun _ => ⟨⟨dropReuseName, unitTy⟩, ⟨0⟩⟩, fun _ h => absurd h List.not_mem_nil⟩
  | (n, o) :: l, h => by
      rcases List.nodup_cons.mp h with ⟨hn, hl⟩
      rcases exists_extends hl with ⟨origin, ho⟩
      refine ⟨Function.update origin n o, fun p hp => ?_⟩
      rcases List.mem_cons.mp hp with rfl | hp
      · exact Function.update_self ..
      · have hne : p.1 ≠ n := fun heq => hn (List.mem_map.mpr ⟨p, hp, heq⟩)
        rw [Function.update_of_ne hne]
        exact ho p hp

/-- The pass over a module: its tokens are minted once, from the supply it starts with on, and
each has its own drop. -/
theorem module_paired (cm : CoreModule) : ∃ (l : Origins) (origin : Int → Origin),
    Paired topBindLists (seedSupply cm) [] l (reusePairing cm).binds cm.binds ∧
      Extends origin l ∧ (∀ u, l.count u ≤ 1) ∧ ∀ u, 0 < l.count u → seedSupply cm ≤ u := by
  rcases stepBinds_pairs (seedSupply_nonneg cm) cm.binds le_rfl
    (fun _ => topMaxU_lt_seed) with ⟨-, l, hl, hp⟩
  have hone : ∀ u, l.count u ≤ 1 := by
    intro u
    rw [hl, minted]
    split_ifs <;> omega
  rcases exists_extends (List.nodup_iff_count_le_one.mpr hone) with ⟨origin, ho⟩
  refine ⟨l, origin, hp, ho, hone, ?_⟩
  intro u hpos
  rw [hl, minted] at hpos
  split_ifs at hpos
  · omega
  · omega

/-- Erasing the tokens of the pass gives the module back; each token is produced once, and
then consumed once on the same path, by an allocation of the layout of the matched cell. -/
theorem reusePairing_pairing (cm : CoreModule) : Pairing cm (reusePairing cm) := by
  rcases module_paired cm with ⟨l, origin, hp, ho, hone, -⟩
  have htokens : ∀ u, (tokens (seedSupply cm) (reusePairing cm)).count u = l.count u := hp.tokens
  constructor
  · refine ⟨origin, ?_, hp.linear origin ho⟩
    rcases cm with ⟨binds⟩
    exact congrArg CoreModule.mk (hp.erase origin ho)
  · exact List.nodup_iff_count_le_one.mpr fun u => (htokens u).trans_le (hone u)
  · intro u hu
    have hnone : termCount u (moduleOccs cm) = 0 :=
      termCount_eq_zero fun h => absurd (term_mem_module h) (by omega)
    have htwice : termCount u (moduleOccs (reusePairing cm)) =
        termCount u (moduleOccs cm) + 2 * l.count u := hp.occs u hu
    rw [htwice, hnone, htokens, Nat.zero_add]

end Wok.Proofs.ReusePairing
