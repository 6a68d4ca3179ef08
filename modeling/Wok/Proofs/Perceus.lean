/-
Module: Wok.Proofs.Perceus
Purpose: The insertion of reference-count operations conserves the module, and when
  its binders are fresh.
Imports: Mathlib.Algebra.Order.Ring.Int, Wok.Spec.Perceus
Trusted boundary: none
Main exports: Grown, Makes, ownExpr_makes, ownExpr_plain, insertRC_makes,
  insertRC_conserves
-/
import Mathlib.Algebra.Order.Ring.Int
import Wok.Spec.Perceus

namespace Wok.Proofs.Perceus

open Wok.IR
open Wok.Spec.Perceus

/-! ### Bounds of the walk -/

theorem atomsMaxU_lt {m lo : Int} {as : List Atom} :
    atomsMaxU m as < lo ↔ m < lo ∧ ∀ a ∈ as, atomMaxU a < lo := by
  induction as with
  | nil => simp [atomsMaxU]
  | cons a as ih =>
      simp only [atomsMaxU, List.foldr_cons, List.mem_cons, forall_eq_or_imp] at ih ⊢
      rw [Int.max_lt, ih]
      tauto

theorem bindersMaxU_lt {m lo : Int} {bs : List Binder} :
    bindersMaxU m bs < lo ↔ m < lo ∧ ∀ b ∈ bs, uOf b.name < lo := by
  induction bs with
  | nil => simp [bindersMaxU]
  | cons b bs ih =>
      simp only [bindersMaxU, List.foldr_cons, List.mem_cons, forall_eq_or_imp] at ih ⊢
      rw [Int.max_lt, ih]
      tauto

theorem topMaxU_lt_seed {cm : CoreModule} {tb : TopBind} (h : tb ∈ cm.binds) :
    topMaxU tb < seedSupply cm := by
  rcases cm with ⟨binds⟩
  simp only [seedSupply] at h ⊢
  induction binds with
  | nil => cases h
  | cons head tail ih =>
      simp only [List.foldr_cons]
      rcases List.mem_cons.mp h with rfl | h
      · omega
      · have := ih h
        omega

theorem seedSupply_nonneg (cm : CoreModule) : 0 ≤ seedSupply cm := by
  rcases cm with ⟨binds⟩
  simp only [seedSupply]
  induction binds with
  | nil => simp
  | cons head tail ih =>
      simp only [List.foldr_cons]
      omega

/-! ### Where the walk does not look -/

theorem term_mem_atoms {u m lo : Int} {as : List Atom} (hb : atomsMaxU m as < lo)
    (h : (Position.term, u) ∈ atomsOccs as) : u < lo := by
  rcases List.mem_flatMap.mp h with ⟨a, ha, hu⟩
  have hlt := (atomsMaxU_lt.mp hb).2 a ha
  cases a with
  | var n =>
      simp only [atomOccs, List.mem_singleton, Prod.mk.injEq, true_and] at hu
      rwa [hu]
  | lit l => cases hu
  | prim m name => cases hu

theorem term_mem_atom {u lo : Int} {a : Atom} (hb : atomMaxU a < lo)
    (h : (Position.term, u) ∈ atomOccs a) : u < lo := by
  have hb' : atomsMaxU (atomMaxU a) [a] < lo := atomsMaxU_lt.mpr (by simp [hb])
  exact term_mem_atoms hb' (by simpa [atomsOccs] using h)

theorem term_mem_binders {u m lo : Int} {bs : List Binder} (hb : bindersMaxU m bs < lo)
    (h : (Position.term, u) ∈ bindersOccs bs) : u < lo := by
  simp only [bindersOccs, List.mem_map, Prod.mk.injEq, true_and] at h
  rcases h with ⟨b, hmem, rfl⟩
  exact (bindersMaxU_lt.mp hb).2 b hmem

theorem le_defsMaxU (m : Int) (defs : List Def) : m ≤ defsMaxU m defs := by
  induction defs with
  | nil => simp [defsMaxU]
  | cons d defs ih => exact Int.le_trans ih (Int.le_max_right _ _)

theorem le_altsMaxU (m : Int) (alts : List Alt) : m ≤ altsMaxU m alts := by
  induction alts with
  | nil => simp [altsMaxU]
  | cons alt alts ih => exact Int.le_trans ih (Int.le_max_right _ _)

theorem le_armsMaxU (m : Int) (arms : List OpArm) : m ≤ armsMaxU m arms := by
  induction arms with
  | nil => simp [armsMaxU]
  | cons arm arms ih => exact Int.le_trans ih (Int.le_max_right _ _)

mutual

/-- The walk visits every identity in the position of a binder or a variable. -/
theorem term_mem_expr {u lo : Int} :
    ∀ {e : Expr}, exprMaxU e < lo → (Position.term, u) ∈ exprOccs e → u < lo
  | .ret _, hb, h => term_mem_atom hb h
  | .let_ b r e, hb, h => by
      simp only [exprMaxU, Int.max_lt] at hb
      simp only [exprOccs, List.mem_cons, List.mem_append, Prod.mk.injEq, true_and] at h
      rcases h with rfl | h | h
      · exact hb.1
      · exact term_mem_rhs hb.2.1 h
      · exact term_mem_expr hb.2.2 h
  | .letRec defs e, hb, h => by
      rcases List.mem_append.mp h with h | h
      · exact term_mem_defs hb h
      · exact term_mem_expr (Int.lt_of_le_of_lt (le_defsMaxU _ defs) hb) h
  | .case_ a alts, hb, h => by
      rcases List.mem_append.mp h with h | h
      · exact term_mem_atom (Int.lt_of_le_of_lt (le_altsMaxU _ alts) hb) h
      · exact term_mem_alts hb h
  | .letJoin j ps jb e, hb, h => by
      simp only [exprMaxU] at hb
      have hm := (bindersMaxU_lt.mp hb).1
      rw [Int.max_lt] at hm
      simp only [exprOccs, labelOcc, List.mem_cons, List.mem_append, Prod.mk.injEq,
        reduceCtorEq, false_and, false_or] at h
      rcases h with h | h | h
      · exact term_mem_binders hb h
      · exact term_mem_expr hm.1 h
      · exact term_mem_expr hm.2 h
  | .jump j as, hb, h => by
      simp only [exprOccs, labelOcc, List.mem_cons, Prod.mk.injEq, reduceCtorEq, false_and,
        false_or] at h
      exact term_mem_atoms hb h
  | .handle e hd, hb, h => by
      simp only [exprMaxU, Int.max_lt] at hb
      rcases List.mem_append.mp h with h | h
      · exact term_mem_expr hb.1 h
      · exact term_mem_handler hb.2 h
  | .installHandler a self e, hb, h => by
      simp only [exprMaxU, Int.max_lt] at hb
      simp only [exprOccs, List.mem_append, List.mem_map, Prod.mk.injEq, reduceCtorEq, false_and,
        and_false, exists_false, false_or] at h
      rcases h with h | h
      · exact term_mem_atom hb.1 h
      · exact term_mem_expr hb.2 h

theorem term_mem_defs {u lo m : Int} :
    ∀ {defs : List Def}, defsMaxU m defs < lo → (Position.term, u) ∈ defsOccs defs → u < lo
  | [], _, h => nomatch h
  | d :: defs, hb, h => by
      simp only [defsMaxU, Int.max_lt] at hb
      rcases List.mem_append.mp h with h | h
      · exact term_mem_def hb.1 h
      · exact term_mem_defs hb.2 h

theorem term_mem_def {u lo : Int} :
    ∀ {d : Def}, defMaxU d < lo → (Position.term, u) ∈ defOccs d → u < lo
  | ⟨b, ps, body⟩, hb, h => by
      simp only [defMaxU, Int.max_lt] at hb
      simp only [defOccs, List.mem_cons, List.mem_append, Prod.mk.injEq, true_and] at h
      rcases h with rfl | h | h
      · exact hb.1
      · exact term_mem_binders hb.2 h
      · exact term_mem_expr (bindersMaxU_lt.mp hb.2).1 h

theorem term_mem_alts {u lo m : Int} :
    ∀ {alts : List Alt}, altsMaxU m alts < lo → (Position.term, u) ∈ altsOccs alts → u < lo
  | [], _, h => nomatch h
  | alt :: alts, hb, h => by
      simp only [altsMaxU, Int.max_lt] at hb
      rcases List.mem_append.mp h with h | h
      · exact term_mem_alt hb.1 h
      · exact term_mem_alts hb.2 h

theorem term_mem_alt {u lo : Int} :
    ∀ {alt : Alt}, altMaxU alt < lo → (Position.term, u) ∈ altOccs alt → u < lo
  | .con c bs e, hb, h => by
      rcases List.mem_append.mp h with h | h
      · exact term_mem_binders hb h
      · exact term_mem_expr (bindersMaxU_lt.mp hb).1 h
  | .lit _ _, hb, h => term_mem_expr hb h
  | .default _, hb, h => term_mem_expr hb h

theorem term_mem_handler {u lo : Int} :
    ∀ {hd : Handler}, handlerMaxU hd < lo → (Position.term, u) ∈ handlerOccs hd → u < lo
  | ⟨retBinder, retBody, ops, answerJoin, param, self⟩, hb, h => by
      simp only [handlerMaxU, Int.max_lt] at hb
      have hps := Int.lt_of_le_of_lt (le_armsMaxU _ ops) hb.2
      simp only [handlerOccs, List.mem_append, labelOcc, List.mem_map, Prod.mk.injEq,
        reduceCtorEq, false_and, and_false, exists_false, false_or] at h
      rcases h with h | h | h
      · rcases List.mem_cons.mp h with h | h
        · cases h
          exact hb.1.1
        · exact term_mem_binders hps h
      · exact term_mem_expr hb.1.2 h
      · exact term_mem_arms hb.2 h

theorem term_mem_arms {u lo m : Int} :
    ∀ {arms : List OpArm}, armsMaxU m arms < lo → (Position.term, u) ∈ armsOccs arms → u < lo
  | [], _, h => nomatch h
  | arm :: arms, hb, h => by
      simp only [armsMaxU, Int.max_lt] at hb
      rcases List.mem_append.mp h with h | h
      · exact term_mem_arm hb.1 h
      · exact term_mem_arms hb.2 h

theorem term_mem_arm {u lo : Int} :
    ∀ {arm : OpArm}, opArmMaxU arm < lo → (Position.term, u) ∈ armOccs arm → u < lo
  | ⟨label, op, args, resume, body⟩, hb, h => by
      rcases List.mem_append.mp h with h | h
      · exact term_mem_binders hb h
      · exact term_mem_expr (bindersMaxU_lt.mp hb).1 h

theorem term_mem_rhs {u lo : Int} :
    ∀ {r : Rhs}, rhsMaxU r < lo → (Position.term, u) ∈ rhsOccs r → u < lo
  | .atom _, hb, h => term_mem_atom hb h
  | .app f as, hb, h => by
      rcases List.mem_append.mp h with h | h
      · exact term_mem_atom (atomsMaxU_lt.mp hb).1 h
      · exact term_mem_atoms hb h
  | .makeHandler _, hb, h => term_mem_handler hb h
  | .con _ _, hb, h => term_mem_atoms hb h
  | .lam ps e, hb, h => by
      rcases List.mem_append.mp h with h | h
      · exact term_mem_binders hb h
      · exact term_mem_expr (bindersMaxU_lt.mp hb).1 h
  | .op m _ _ as, hb, h => by
      rw [rhsOccs, atomsOccs, List.flatMap_append] at h
      rcases List.mem_append.mp h with h | h
      · cases m with
        | none => cases h
        | some a => exact term_mem_atom (atomsMaxU_lt.mp hb).1 (by simpa using h)
      · exact term_mem_atoms hb h
  | .record _ _, hb, h => term_mem_atoms hb h
  | .proj _ _, hb, h => term_mem_atom hb h
  | .reuseCon tok _ as, hb, h => by
      rcases List.mem_append.mp h with h | h
      · exact term_mem_atom (atomsMaxU_lt.mp hb).1 h
      · exact term_mem_atoms hb h
  | .foreignCall _ _ _, hb, h => term_mem_atoms hb h

end

/-! ### What a rule adds -/

/-- How often an identity is among those that a supply going from `n` to `n'` mints. -/
def minted (n n' : Int) : Int → Nat := fun u => if n ≤ u ∧ u < n' then 1 else 0

/-- A supply that goes on from `m` mints the rest of what is below `k`. -/
theorem minted_add {n m k : Int} (h : n ≤ m) (h' : m ≤ k) :
    minted n m + minted m k = minted n k := by
  funext u
  simp only [Pi.add_apply, minted]
  split_ifs <;> omega

theorem counts_add_comm (μ ν : Int → Nat) : μ + ν = ν + μ := by
  funext u
  exact Nat.add_comm _ _

@[simp] theorem minted_self (n : Int) : minted n n = 0 := by
  funext u
  simp only [Pi.zero_apply, minted, ite_eq_right_iff]
  omega

theorem minted_succ (n : Int) : minted n (n + 1) = fun u => if n = u then 1 else 0 := by
  funext u
  simp only [minted]
  split_ifs <;> omega

@[simp] theorem countId_nil (u : Int) : countId u [] = 0 := rfl

@[simp] theorem countId_append (u : Int) (xs ys : Occs) :
    countId u (xs ++ ys) = countId u xs + countId u ys :=
  List.countP_append

@[simp] theorem countId_cons (u : Int) (p : Position × Int) (xs : Occs) :
    countId u (p :: xs) = countId u xs + if p.2 = u then 1 else 0 := by
  simp [countId, List.countP_cons]

/-- A kind of syntax with its erasure, its inserted bindings and its occurrences. -/
structure Category (α : Type) where
  erase : Int → α → α
  added : Int → α → List Int
  occs : α → Occs

def exprs : Category Expr := ⟨eraseExpr, exprAdded, exprOccs⟩
def altLists : Category (List Alt) := ⟨eraseAlts, altsAdded, altsOccs⟩
def alts : Category Alt := ⟨eraseAlt, altAdded, altOccs⟩
def defLists : Category (List Def) := ⟨eraseDefs, defsAdded, defsOccs⟩
def defs : Category Def := ⟨eraseDef, defAdded, defOccs⟩
def handlers : Category Handler := ⟨eraseHandler, handlerAdded, handlerOccs⟩
def armLists : Category (List OpArm) := ⟨eraseArms, armsAdded, armsOccs⟩
def arms : Category OpArm := ⟨eraseArm, armAdded, armOccs⟩
def rhss : Category Rhs := ⟨eraseRhs, rhsAdded, rhsOccs⟩

/-- The piece `a'` is `a` with bindings inserted, `μ u` of them with identity `u`,
and these are the only new occurrences of identities from `lo` on. -/
structure Grown {α : Type} (C : Category α) (lo : Int) (μ : Int → Nat) (a' a : α) : Prop where
  erase : C.erase lo a' = a
  added : ∀ u, (C.added lo a').count u = μ u
  occs : ∀ u, lo ≤ u → countId u (C.occs a') = μ u + countId u (C.occs a)

/-- The rule, run from any supply from `lo` on, makes a piece grown from `a` by the
`k` identities that it mints. -/
def Makes {α : Type} (C : Category α) (lo : Int) (k : Nat) (x : Fresh α) (a : α) : Prop :=
  ∀ n, lo ≤ n → ∃ a' n', n' = n + k ∧ x n = .ok (a', n') ∧ Grown C lo (minted n n') a' a

/-- The transformer puts bindings in front of an expression. -/
structure Prepends (lo : Int) (μ : Int → Nat) (f : Expr → Expr) : Prop where
  erase : ∀ e, eraseExpr lo (f e) = eraseExpr lo e
  added : ∀ e u, (exprAdded lo (f e)).count u = μ u + (exprAdded lo e).count u
  occs : ∀ e u, lo ≤ u → countId u (exprOccs (f e)) = μ u + countId u (exprOccs e)

/-- The rule makes a transformer that puts the minted bindings in front. -/
def MakesPrefix (lo : Int) (k : Nat) (x : Fresh (Expr → Expr)) : Prop :=
  ∀ n, lo ≤ n → ∃ f n', n' = n + k ∧ x n = .ok (f, n') ∧ Prepends lo (minted n n') f

/-- The rule makes a list of transformers that put the minted bindings in front. -/
def MakesPrefixes (lo : Int) (k : Nat) (x : Fresh (List (Expr → Expr))) : Prop :=
  ∀ n, lo ≤ n → ∃ fs n', n' = n + k ∧ x n = .ok (fs, n') ∧ Prepends lo (minted n n') (prepend fs)

namespace Prepends

variable {lo : Int} {μ ν : Int → Nat} {f g : Expr → Expr}

theorem id (lo : Int) : Prepends lo 0 id :=
  ⟨fun _ => rfl, fun _ _ => by simp, fun _ _ _ => by simp⟩

theorem comp (hf : Prepends lo μ f) (hg : Prepends lo ν g) : Prepends lo (μ + ν) (f ∘ g) where
  erase e := (hf.erase (g e)).trans (hg.erase e)
  added e u := by
    rw [Function.comp_apply, hf.added, hg.added, Pi.add_apply, Nat.add_assoc]
  occs e u hu := by
    rw [Function.comp_apply, hf.occs _ u hu, hg.occs _ u hu, Pi.add_apply, Nat.add_assoc]

theorem grown {e' e : Expr} (hf : Prepends lo μ f) (he : Grown exprs lo ν e' e) :
    Grown exprs lo (μ + ν) (f e') e where
  erase := (hf.erase e').trans he.erase
  added u := (hf.added e' u).trans (congrArg (μ u + ·) (he.added u))
  occs u hu := by
    change countId u (exprOccs (f e')) = μ u + ν u + countId u (exprOccs e)
    rw [hf.occs e' u hu, Nat.add_assoc]
    exact congrArg (μ u + ·) (he.occs u hu)

end Prepends

/-! ### Dups and drops -/

/-- The binders that an environment knows have identities below `lo`. -/
def EnvBelow (lo : Int) (env : List (Unique × Binder)) : Prop :=
  ∀ p ∈ env, uOf p.2.name < lo

theorem EnvBelow.lookup {lo : Int} {env : List (Unique × Binder)} (h : EnvBelow lo env)
    {u : Unique} {b : Binder} (hb : env.lookup u = some b) : uOf b.name < lo := by
  induction env with
  | nil => cases hb
  | cons p env ih =>
      rw [List.lookup_cons] at hb
      cases hv : u == p.1 with
      | true =>
          rw [hv] at hb
          cases hb
          exact h p (List.mem_cons_self ..)
      | false =>
          rw [hv] at hb
          exact ih (fun p hp => h p (List.mem_cons_of_mem _ hp)) hb

theorem EnvBelow.append {lo : Int} {env env' : List (Unique × Binder)} (h : EnvBelow lo env)
    (h' : EnvBelow lo env') : EnvBelow lo (env ++ env') := by
  intro p hp
  rcases List.mem_append.mp hp with hp | hp
  · exact h p hp
  · exact h' p hp

theorem EnvBelow.binders {lo : Int} {bs : List Binder} (h : ∀ b ∈ bs, uOf b.name < lo) :
    EnvBelow lo (bindersEnv bs) := by
  intro p hp
  rcases List.mem_map.mp hp with ⟨b, hb, rfl⟩
  exact h b hb

/-- One inserted call, of a binder whose identity is below `lo`. -/
theorem prepends_call {lo n : Int} (hn : lo ≤ n) (h0 : 0 ≤ lo) {h x : Name} (hint : String)
    {t : Wok.TypeChecking.CType} (hh : h.hint = dupHint ∨ h.hint = dropHint)
    (hu : h.uniq.id = -1) (hx : uOf x < lo) :
    Prepends lo (minted n (n + 1)) (.let_ ⟨⟨hint, ⟨n⟩⟩, t⟩ (.app (.var h) [.var x])) := by
  have hadd : isAdded lo ⟨⟨hint, ⟨n⟩⟩, t⟩ (.app (.var h) [.var x]) = true := by
    simp [isAdded, isRcCall, uOf, hn, hh]
  rw [minted_succ]
  constructor
  · intro e
    rw [eraseExpr, if_pos hadd]
  · intro e u
    rw [exprAdded, if_pos hadd, List.count_cons]
    simp only [uOf, beq_iff_eq]
    omega
  · intro e u hlu
    have hne : ¬ uOf x = u := by omega
    have hne' : ¬ uOf h = u := by
      rw [uOf, hu]
      omega
    simp only [exprOccs, rhsOccs, atomOccs, atomsOccs, List.flatMap_cons, List.flatMap_nil,
      List.append_nil, List.cons_append, List.nil_append, countId_cons, hne, hne', if_false,
      Nat.add_zero]
    exact Nat.add_comm _ _

section

variable {lo : Int} {env : List (Unique × Binder)}

theorem mkDup_makes {b : Binder} (hb : uOf b.name < lo) (h0 : 0 ≤ lo) :
    MakesPrefix lo 1 (mkDup b) := by
  intro n hn
  exact ⟨_, n + 1, rfl, rfl, prepends_call hn h0 "_dup" (.inl rfl) rfl hb⟩

theorem mkDropFn_makes {b : Binder} (hb : uOf b.name < lo) (h0 : 0 ≤ lo) :
    MakesPrefix lo 1 (mkDropFn b) := by
  intro n hn
  exact ⟨_, n + 1, rfl, rfl, prepends_call hn h0 "_drop" (.inr rfl) rfl hb⟩

theorem return_id_makes (lo : Int) : MakesPrefix lo 0 (return id) := by
  intro n _
  refine ⟨id, n, (Int.add_zero n).symm, rfl, ?_⟩
  rw [minted_self]
  exact Prepends.id lo

theorem projDupFor_makes {b : Binder} (rhs : Rhs) (hb : uOf b.name < lo) (h0 : 0 ≤ lo) :
    MakesPrefix lo (projDupCount b rhs) (projDupFor b rhs) := by
  cases rhs with
  | proj l a =>
      rw [projDupFor, projDupCount]
      split
      · exact mkDup_makes hb h0
      · exact return_id_makes lo
  | _ => exact return_id_makes lo

theorem known_cons_none {v : Unique} (vs : List Unique) (h : env.lookup v = none) :
    known env (v :: vs) = known env vs := by
  simp [known, h]

theorem known_cons_some {v : Unique} {b : Binder} (vs : List Unique) (h : env.lookup v = some b) :
    known env (v :: vs) = 1 + known env vs := by
  simp [known, h, Nat.add_comm]

theorem dropParentThen_makes (henv : EnvBelow lo env) (h0 : 0 ≤ lo) (parent : Option Unique) :
    MakesPrefix lo (known env parent.toList) (dropParentThen env parent) := by
  cases parent with
  | none => exact return_id_makes lo
  | some p =>
      rw [dropParentThen, Option.bind_some, Option.toList_some]
      cases hp : env.lookup p with
      | none =>
          rw [known_cons_none [] hp]
          exact return_id_makes lo
      | some b =>
          rw [known_cons_some [] hp]
          exact mkDropFn_makes (henv.lookup hp) h0

theorem mkDups_makes (henv : EnvBelow lo env) (h0 : 0 ≤ lo) (vs : List Unique) :
    MakesPrefixes lo (known env vs) (mkDups env vs) := by
  induction vs with
  | nil =>
      intro n _
      refine ⟨[], n, (Int.add_zero n).symm, rfl, ?_⟩
      rw [minted_self]
      exact Prepends.id lo
  | cons v vs ih =>
      intro n hn
      rw [mkDups]
      cases hv : env.lookup v with
      | none =>
          rw [known_cons_none vs hv]
          exact ih n hn
      | some b =>
          rw [known_cons_some vs hv]
          rcases mkDup_makes (henv.lookup hv) h0 n hn with ⟨f, m, hm, hf, pf⟩
          rcases ih m (by omega) with ⟨fs, n', hn', hfs, pfs⟩
          refine ⟨f :: fs, n', by omega, ?_, ?_⟩
          · dsimp only
            rw [Fresh.bind_eq hf, Fresh.bind_eq hfs]
            rfl
          · rw [← minted_add (by omega : n ≤ m) (by omega : m ≤ n')]
            exact pf.comp pfs

theorem mkDupsForVars_makes (henv : EnvBelow lo env) (h0 : 0 ≤ lo)
    (plan : List (Unique × Nat)) :
    MakesPrefixes lo (dupCount env plan) (mkDupsForVars env plan) :=
  mkDups_makes henv h0 _

theorem dropsFor_makes (henv : EnvBelow lo env) (h0 : 0 ≤ lo) (vs : List Unique) (e : Expr)
    {n : Int} (hn : lo ≤ n) :
    ∃ f n', n' = n + known env vs ∧ dropsFor env vs e n = .ok (f e, n') ∧
      Prepends lo (minted n n') f := by
  induction vs generalizing n with
  | nil =>
      refine ⟨id, n, (Int.add_zero n).symm, rfl, ?_⟩
      rw [minted_self]
      exact Prepends.id lo
  | cons v vs ih =>
      rw [dropsFor]
      cases hv : env.lookup v with
      | none =>
          rw [known_cons_none vs hv]
          exact ih hn
      | some b =>
          rw [known_cons_some vs hv]
          rcases mkDropFn_makes (henv.lookup hv) h0 n hn with ⟨f, m, hm, hf, pf⟩
          rcases ih (by omega : lo ≤ m) with ⟨g, n', hn', hg, pg⟩
          refine ⟨f ∘ g, n', by omega, ?_, ?_⟩
          · dsimp only
            rw [Fresh.bind_eq hf, Fresh.bind_eq hg]
            rfl
          · rw [← minted_add (by omega : n ≤ m) (by omega : m ≤ n')]
            exact pf.comp pg

end

/-! ### Grown pieces -/

section

variable {lo : Int} {μ ν : Int → Nat}

theorem grown_ret (a : Atom) : Grown exprs lo 0 (.ret a) (.ret a) :=
  ⟨rfl, fun _ => rfl, fun _ _ => by simp⟩

theorem grown_jump (j : JoinId) (as : List Atom) : Grown exprs lo 0 (.jump j as) (.jump j as) :=
  ⟨rfl, fun _ => rfl, fun _ _ => by simp⟩

theorem isAdded_of_lt {b : Binder} {r : Rhs} (hb : uOf b.name < lo) : isAdded lo b r = false := by
  simp only [isAdded, decide_eq_false_iff_not, not_and]
  omega

/-- Two parts side by side. -/
theorem grown_pair {α β γ : Type} {A : Category α} {B : Category β} {C : Category γ}
    (mk : α → β → γ) (xs : Occs)
    (herase : ∀ a b, C.erase lo (mk a b) = mk (A.erase lo a) (B.erase lo b))
    (hadded : ∀ a b, C.added lo (mk a b) = A.added lo a ++ B.added lo b)
    (hoccs : ∀ a b u, countId u (C.occs (mk a b)) =
      countId u xs + (countId u (A.occs a) + countId u (B.occs b)))
    {a' a : α} {b' b : β} (ha : Grown A lo μ a' a) (hb : Grown B lo ν b' b) :
    Grown C lo (μ + ν) (mk a' b') (mk a b) where
  erase := by rw [herase, ha.erase, hb.erase]
  added u := by
    rw [hadded, List.count_append, ha.added, hb.added]
    rfl
  occs u hu := by
    rw [hoccs, hoccs, ha.occs u hu, hb.occs u hu, Pi.add_apply]
    omega

/-- A part with binders and labels around it. -/
theorem grown_wrap {α γ : Type} {A : Category α} {C : Category γ} (mk : α → γ) (xs : Occs)
    (herase : ∀ a, C.erase lo (mk a) = mk (A.erase lo a))
    (hadded : ∀ a, C.added lo (mk a) = A.added lo a)
    (hoccs : ∀ a u, countId u (C.occs (mk a)) = countId u xs + countId u (A.occs a))
    {a' a : α} (ha : Grown A lo μ a' a) : Grown C lo μ (mk a') (mk a) where
  erase := by rw [herase, ha.erase]
  added u := by rw [hadded, ha.added]
  occs u hu := by
    rw [hoccs, hoccs, ha.occs u hu]
    omega

theorem grown_let {b : Binder} (hb : uOf b.name < lo) {r' r : Rhs} {e' e : Expr}
    (hr : Grown rhss lo μ r' r) (he : Grown exprs lo ν e' e) :
    Grown exprs lo (μ + ν) (.let_ b r' e') (.let_ b r e) := by
  refine grown_pair (Expr.let_ b) [(.term, uOf b.name)] ?_ ?_ ?_ hr he
  · intro r e
    change eraseExpr lo (.let_ b r e) = _
    rw [eraseExpr, if_neg (by rw [isAdded_of_lt hb]; exact Bool.false_ne_true)]
    rfl
  · intro r e
    change exprAdded lo (.let_ b r e) = _
    rw [exprAdded, if_neg (by rw [isAdded_of_lt hb]; exact Bool.false_ne_true)]
    rfl
  · intro r e u
    simp only [exprs, rhss, exprOccs, countId_cons, countId_append, countId_nil]
    omega

theorem grown_letRec {ds' ds : List Def} {e' e : Expr} (hd : Grown defLists lo μ ds' ds)
    (he : Grown exprs lo ν e' e) : Grown exprs lo (μ + ν) (.letRec ds' e') (.letRec ds e) := by
  apply grown_pair Expr.letRec [] _ _ _ hd he
  · exact fun _ _ => rfl
  · exact fun _ _ => rfl
  · intro ds e u
    simp [exprs, defLists, exprOccs]

theorem grown_case (a : Atom) {as' as : List Alt} (h : Grown altLists lo μ as' as) :
    Grown exprs lo μ (.case_ a as') (.case_ a as) := by
  apply grown_wrap (Expr.case_ a) (atomOccs a) _ _ _ h
  · exact fun _ => rfl
  · exact fun _ => rfl
  · intro as u
    simp [exprs, altLists, exprOccs]

/-- The body of a join is written first and rewritten last. -/
theorem grown_letJoin (j : JoinId) (ps : List Binder) {jb' jb e' e : Expr}
    (he : Grown exprs lo μ e' e) (hj : Grown exprs lo ν jb' jb) :
    Grown exprs lo (μ + ν) (.letJoin j ps jb' e') (.letJoin j ps jb e) := by
  rw [counts_add_comm]
  apply grown_pair (Expr.letJoin j ps) (labelOcc j :: bindersOccs ps) _ _ _ hj he
  · exact fun _ _ => rfl
  · exact fun _ _ => rfl
  · intro jb e u
    simp only [exprs, exprOccs, countId_cons, countId_append]
    omega

theorem grown_handle {e' e : Expr} {h' h : Handler} (he : Grown exprs lo μ e' e)
    (hh : Grown handlers lo ν h' h) : Grown exprs lo (μ + ν) (.handle e' h') (.handle e h) := by
  apply grown_pair Expr.handle [] _ _ _ he hh
  · exact fun _ _ => rfl
  · exact fun _ _ => rfl
  · intro e h u
    simp [exprs, handlers, exprOccs]

theorem grown_install (a : Atom) (self : Option Binder) {e' e : Expr}
    (he : Grown exprs lo μ e' e) :
    Grown exprs lo μ (.installHandler a self e') (.installHandler a self e) := by
  apply grown_wrap (Expr.installHandler a self)
    (atomOccs a ++ self.toList.map fun b => (.self, uOf b.name)) _ _ _ he
  · exact fun _ => rfl
  · exact fun _ => rfl
  · intro e u
    simp only [exprs, exprOccs, countId_append]
    omega

theorem grown_altCons {alt' alt : Alt} {as' as : List Alt} (h : Grown alts lo μ alt' alt)
    (hs : Grown altLists lo ν as' as) : Grown altLists lo (μ + ν) (alt' :: as') (alt :: as) := by
  apply grown_pair List.cons [] _ _ _ h hs
  · exact fun _ _ => rfl
  · exact fun _ _ => rfl
  · intro alt as u
    simp [alts, altLists, altsOccs]

theorem grown_altCon (c : String) (bs : List Binder) {e' e : Expr} (h : Grown exprs lo μ e' e) :
    Grown alts lo μ (.con c bs e') (.con c bs e) := by
  apply grown_wrap (Alt.con c bs) (bindersOccs bs) _ _ _ h
  · exact fun _ => rfl
  · exact fun _ => rfl
  · intro e u
    simp only [alts, exprs, altOccs, countId_append]

theorem grown_altLit (l : Lit) {e' e : Expr} (h : Grown exprs lo μ e' e) :
    Grown alts lo μ (.lit l e') (.lit l e) := by
  apply grown_wrap (Alt.lit l) [] _ _ _ h
  · exact fun _ => rfl
  · exact fun _ => rfl
  · intro e u
    simp [alts, exprs, altOccs]

theorem grown_altDefault {e' e : Expr} (h : Grown exprs lo μ e' e) :
    Grown alts lo μ (.default e') (.default e) := by
  apply grown_wrap Alt.default [] _ _ _ h
  · exact fun _ => rfl
  · exact fun _ => rfl
  · intro e u
    simp [alts, exprs, altOccs]

theorem grown_defCons {d' d : Def} {ds' ds : List Def} (h : Grown defs lo μ d' d)
    (hs : Grown defLists lo ν ds' ds) : Grown defLists lo (μ + ν) (d' :: ds') (d :: ds) := by
  apply grown_pair List.cons [] _ _ _ h hs
  · exact fun _ _ => rfl
  · exact fun _ _ => rfl
  · intro d ds u
    simp [defs, defLists, defsOccs]

theorem grown_def (b : Binder) (ps : List Binder) {e' e : Expr} (h : Grown exprs lo μ e' e) :
    Grown defs lo μ ⟨b, ps, e'⟩ ⟨b, ps, e⟩ := by
  apply grown_wrap (Def.mk b ps) ((.term, uOf b.name) :: bindersOccs ps) _ _ _ h
  · exact fun _ => rfl
  · exact fun _ => rfl
  · intro e u
    simp only [defs, exprs, defOccs, countId_cons, countId_append]
    omega

theorem grown_handler (retBinder : Binder) (answerJoin : Option JoinId)
    (param self : Option Binder) {e' e : Expr} {ops' ops : List OpArm}
    (he : Grown exprs lo μ e' e) (hops : Grown armLists lo ν ops' ops) :
    Grown handlers lo (μ + ν) ⟨retBinder, e', ops', answerJoin, param, self⟩
      ⟨retBinder, e, ops, answerJoin, param, self⟩ := by
  apply grown_pair (fun x y => Handler.mk retBinder x y answerJoin param self)
    (bindersOccs (retBinder :: (param.toList ++ self.toList)) ++ answerJoin.toList.map labelOcc)
    _ _ _ he hops
  · exact fun _ _ => rfl
  · exact fun _ _ => rfl
  · intro e ops u
    simp only [handlers, exprs, armLists, handlerOccs, countId_append]
    omega

theorem grown_armCons {arm' arm : OpArm} {as' as : List OpArm} (h : Grown arms lo μ arm' arm)
    (hs : Grown armLists lo ν as' as) : Grown armLists lo (μ + ν) (arm' :: as') (arm :: as) := by
  apply grown_pair List.cons [] _ _ _ h hs
  · exact fun _ _ => rfl
  · exact fun _ _ => rfl
  · intro arm as u
    simp [arms, armLists, armsOccs]

theorem grown_arm (label op : String) (args : List Binder) (resume : Binder) {e' e : Expr}
    (h : Grown exprs lo μ e' e) :
    Grown arms lo μ ⟨label, op, args, resume, e'⟩ ⟨label, op, args, resume, e⟩ := by
  apply grown_wrap (OpArm.mk label op args resume) (bindersOccs (resume :: args)) _ _ _ h
  · exact fun _ => rfl
  · exact fun _ => rfl
  · intro e u
    simp only [arms, exprs, armOccs, countId_append]

theorem grown_lam (ps : List Binder) {e' e : Expr} (h : Grown exprs lo μ e' e) :
    Grown rhss lo μ (.lam ps e') (.lam ps e) := by
  apply grown_wrap (Rhs.lam ps) (bindersOccs ps) _ _ _ h
  · exact fun _ => rfl
  · exact fun _ => rfl
  · intro e u
    simp only [rhss, exprs, rhsOccs, countId_append]

theorem grown_makeHandler {h' h : Handler} (hh : Grown handlers lo μ h' h) :
    Grown rhss lo μ (.makeHandler h') (.makeHandler h) := by
  apply grown_wrap Rhs.makeHandler [] _ _ _ hh
  · exact fun _ => rfl
  · exact fun _ => rfl
  · intro h u
    simp [rhss, handlers, rhsOccs]

/-- A piece that holds no expressions. -/
theorem grown_self {α : Type} {C : Category α} {a : α} (herase : C.erase lo a = a)
    (hadded : C.added lo a = []) : Grown C lo 0 a a :=
  ⟨herase, fun u => by rw [hadded]; rfl, fun u _ => by rw [Pi.zero_apply, Nat.zero_add]⟩

theorem Grown.zero_add {α : Type} {C : Category α} {a' a : α} (h : Grown C lo (0 + 0) a' a) :
    Grown C lo 0 a' a := h

end

/-! ### The rules -/

section

variable {lo : Int} {ctx : Ctx} {delta : UniqueSet}

/-- The rule for a tail, from a tail that the pass leaves alone. -/
theorem ownTail_makes (henv : EnvBelow lo ctx.env) (h0 : 0 ≤ lo)
    (plan : List (Unique × Nat) × UniqueSet) {tail : Expr} (ht : Grown exprs lo 0 tail tail) :
    Makes exprs lo (tailCount ctx plan) (ownTail ctx plan tail) tail := by
  intro n hn
  rw [tailCount]
  rcases mkDupsForVars_makes henv h0 plan.1 n hn with ⟨fs, m, hm, hfs, pfs⟩
  rcases dropsFor_makes henv h0 plan.2.toAscList tail (by omega : lo ≤ m) with
    ⟨g, n', hn', hg, pg⟩
  refine ⟨prepend fs (g tail), n', by omega, ?_, ?_⟩
  · rw [ownTail, Fresh.bind_eq hfs, Fresh.bind_eq hg]
    rfl
  · rw [← minted_add (by omega : n ≤ m) (by omega : m ≤ n')]
    exact pfs.grown (pg.grown ht)

theorem ownedOccs_ok (ctx : Ctx) (delta : UniqueSet) {rhs : Rhs} (h : plainRhs rhs = true) :
    ∃ occs, ownedOccs ctx delta rhs = .ok occs := by
  cases rhs with
  | reuseCon tok c as => cases h
  | app f as =>
      rw [ownedOccs]
      split
      · exact ⟨_, rfl⟩
      · exact ⟨_, rfl⟩
  | _ => exact ⟨_, rfl⟩

theorem moveOperandUniques_ok {rhs : Rhs} (h : plainRhs rhs = true) :
    ∃ us, moveOperandUniques rhs = .ok us := by
  cases rhs with
  | reuseCon tok c as => cases h
  | app f as =>
      rw [moveOperandUniques]
      split
      · exact ⟨_, rfl⟩
      · exact ⟨_, rfl⟩
  | _ => exact ⟨_, rfl⟩

theorem letCtx_env (ctx : Ctx) (b : Binder) (rhs : Rhs) :
    (letCtx ctx b rhs).env = (binderUnique b, b) :: ctx.env := by
  simp only [letCtx]
  split_ifs <;> rfl

/-- A plain right-hand side has a plan, which binds the new binder. -/
theorem letPlan_ok (ctx : Ctx) (delta : UniqueSet) (b : Binder) (body : Expr) {rhs : Rhs}
    (hp : plainRhs rhs = true) :
    ∃ plan, letPlan ctx delta b rhs body = .ok plan ∧ plan.ctx = letCtx ctx b rhs := by
  rcases ownedOccs_ok ctx delta hp with ⟨occs, hoccs⟩
  rcases moveOperandUniques_ok hp with ⟨us, hus⟩
  rw [letPlan, hoccs, hus]
  cases aliasesBorrowIn ctx.borrow rhs with
  | true => exact ⟨_, rfl, rfl⟩
  | false => exact ⟨_, rfl, rfl⟩

theorem EnvBelow.letCtx (henv : EnvBelow lo ctx.env) {b : Binder} (hb : uOf b.name < lo)
    (rhs : Rhs) : EnvBelow lo (letCtx ctx b rhs).env := by
  rw [letCtx_env]
  intro p hp
  rcases List.mem_cons.mp hp with rfl | hp
  · exact hb
  · exact henv p hp

theorem EnvBelow.ctxBinds {bs : List Binder} (henv : EnvBelow lo ctx.env)
    (hbs : ∀ b ∈ bs, uOf b.name < lo) : EnvBelow lo (ctxBinds bs ctx).env :=
  EnvBelow.append (EnvBelow.binders hbs) henv

/-- A rule for a `let`, from the rules for its parts. -/
theorem let_makes {b : Binder} {rhs : Rhs} {body : Expr} (h0 : 0 ≤ lo)
    (henv : EnvBelow lo ctx.env) (hb : uOf b.name < lo) (hp : plainRhs rhs = true)
    (hrhs : Makes rhss lo (rhsCount ctx delta rhs) (ownRhs ctx delta rhs) rhs)
    (hbody : ∀ ctx' delta', EnvBelow lo ctx'.env →
      Makes exprs lo (exprCount ctx' delta' body) (ownExpr ctx' delta' body) body) :
    Makes exprs lo (exprCount ctx delta (.let_ b rhs body)) (ownExpr ctx delta (.let_ b rhs body))
      (.let_ b rhs body) := by
  intro n hn
  rcases letPlan_ok ctx delta b body hp with ⟨plan, hplan, hctx⟩
  have henv' : EnvBelow lo plan.ctx.env := by
    rw [hctx]
    exact henv.letCtx hb rhs
  rw [exprCount, hplan]
  rcases hrhs n hn with ⟨rhs', n₁, h₁, hr, gr⟩
  rcases mkDupsForVars_makes henv h0 plan.dups n₁ (by omega) with ⟨fs, n₂, h₂, hfs, pfs⟩
  rcases projDupFor_makes rhs hb h0 n₂ (by omega) with ⟨f, n₃, h₃, hf, pf⟩
  rcases hbody plan.ctx plan.deltaBody henv' n₃ (by omega) with ⟨body', n₄, h₄, hb', gb⟩
  rcases dropsFor_makes henv' h0 plan.deadNow.toAscList body' (by omega : lo ≤ n₄) with
    ⟨g, n₅, h₅, hg, pg⟩
  refine ⟨prepend fs (.let_ b rhs' (f (g body'))), n₅, by dsimp only; omega, ?_, ?_⟩
  · rw [ownExpr, Fresh.bind_eq hr, Fresh.lift_eq hplan, Fresh.bind_eq hfs, Fresh.bind_eq hf,
      Fresh.bind_eq hb', Fresh.bind_eq hg]
    rfl
  · have hsum : minted n n₅ = minted n₁ n₂ + (minted n n₁ + (minted n₂ n₃ +
        (minted n₄ n₅ + minted n₃ n₄))) := by
      rw [← minted_add (by omega : n ≤ n₁) (by omega : n₁ ≤ n₅),
        ← minted_add (by omega : n₁ ≤ n₂) (by omega : n₂ ≤ n₅),
        ← minted_add (by omega : n₂ ≤ n₃) (by omega : n₃ ≤ n₅),
        ← minted_add (by omega : n₃ ≤ n₄) (by omega : n₄ ≤ n₅)]
      funext u
      simp only [Pi.add_apply]
      omega
    rw [hsum]
    exact pfs.grown (grown_let hb gr (pf.grown (pg.grown gb)))

/-- Two rules in a row, whose results a constructor puts side by side. -/
theorem pair_makes {α β γ : Type} {A : Category α} {B : Category β} {C : Category γ} {i j : Nat}
    {x : Fresh α} {y : Fresh β} {z : Fresh γ} (mk : α → β → γ) {a : α} {b : β}
    (hz : z = (do
      let a' ← x
      let b' ← y
      return mk a' b'))
    (hmk : ∀ {μ ν : Int → Nat} {a' b'}, Grown A lo μ a' a → Grown B lo ν b' b →
      Grown C lo (μ + ν) (mk a' b') (mk a b))
    (hx : Makes A lo i x a) (hy : Makes B lo j y b) : Makes C lo (i + j) z (mk a b) := by
  intro n hn
  rcases hx n hn with ⟨a', m, hm, ha, ga⟩
  rcases hy m (by omega) with ⟨b', n', hn', hb, gb⟩
  refine ⟨mk a' b', n', by omega, ?_, ?_⟩
  · rw [hz, Fresh.bind_eq ha, Fresh.bind_eq hb]
    rfl
  · rw [← minted_add (by omega : n ≤ m) (by omega : m ≤ n')]
    exact hmk ga gb

/-- A rule whose result a constructor wraps. -/
theorem wrap_makes {α γ : Type} {A : Category α} {C : Category γ} {k : Nat} {x : Fresh α}
    {z : Fresh γ} (mk : α → γ) {a : α}
    (hz : z = (do
      let a' ← x
      return mk a'))
    (hmk : ∀ {μ : Int → Nat} {a'}, Grown A lo μ a' a → Grown C lo μ (mk a') (mk a))
    (hx : Makes A lo k x a) : Makes C lo k z (mk a) := by
  intro n hn
  rcases hx n hn with ⟨a', m, hm, ha, ga⟩
  refine ⟨mk a', m, hm, ?_, hmk ga⟩
  rw [hz, Fresh.bind_eq ha]
  rfl

/-- A rule that returns the piece it is given. -/
theorem self_makes {α : Type} {A : Category α} {x : Fresh α} {a : α} (hx : x = return a)
    (h : Grown A lo 0 a a) : Makes A lo 0 x a := by
  intro n _
  refine ⟨a, n, (Int.add_zero n).symm, by rw [hx]; rfl, ?_⟩
  rw [minted_self]
  exact h

/-- A scope that starts with bindings: the transformers first, then the body. -/
theorem alt_makes {i j k : Nat} {x : Fresh (List (Expr → Expr))} {y : Fresh (Expr → Expr)}
    {z : Fresh Expr} {w : Fresh Alt} {e : Expr} (mk : Expr → Alt)
    (hw : w = (do
      let fs ← x
      let f ← y
      let e' ← z
      return mk (prepend fs (f e'))))
    (hmk : ∀ {μ : Int → Nat} {e'}, Grown exprs lo μ e' e → Grown alts lo μ (mk e') (mk e))
    (hx : MakesPrefixes lo i x) (hy : MakesPrefix lo j y) (hz : Makes exprs lo k z e) :
    Makes alts lo (i + j + k) w (mk e) := by
  intro n hn
  rcases hx n hn with ⟨fs, n₁, h₁, hfs, pfs⟩
  rcases hy n₁ (by omega) with ⟨f, n₂, h₂, hf, pf⟩
  rcases hz n₂ (by omega) with ⟨e', n₃, h₃, he, ge⟩
  refine ⟨mk (prepend fs (f e')), n₃, by omega, ?_, ?_⟩
  · rw [hw, Fresh.bind_eq hfs, Fresh.bind_eq hf, Fresh.bind_eq he]
    rfl
  · rw [← minted_add (by omega : n ≤ n₁) (by omega : n₁ ≤ n₃),
      ← minted_add (by omega : n₁ ≤ n₂) (by omega : n₂ ≤ n₃)]
    exact hmk (pfs.grown (pf.grown ge))

/-- A scope that starts with the drop of its scrutinee only. -/
theorem altTail_makes {j k : Nat} {y : Fresh (Expr → Expr)} {z : Fresh Expr} {w : Fresh Alt}
    {e : Expr} (mk : Expr → Alt)
    (hw : w = (do
      let f ← y
      let e' ← z
      return mk (f e')))
    (hmk : ∀ {μ : Int → Nat} {e'}, Grown exprs lo μ e' e → Grown alts lo μ (mk e') (mk e))
    (hy : MakesPrefix lo j y) (hz : Makes exprs lo k z e) : Makes alts lo (j + k) w (mk e) := by
  intro n hn
  rcases hy n hn with ⟨f, m, hm, hf, pf⟩
  rcases hz m (by omega) with ⟨e', n', hn', he, ge⟩
  refine ⟨mk (f e'), n', by omega, ?_, ?_⟩
  · rw [hw, Fresh.bind_eq hf, Fresh.bind_eq he]
    rfl
  · rw [← minted_add (by omega : n ≤ m) (by omega : m ≤ n')]
    exact hmk (pf.grown ge)

/-- A group, from the rules for its members and its body; its dups are minted last. -/
theorem letRec_makes {d₀ : Def} {ds : List Def} {body : Expr} (h0 : 0 ≤ lo)
    (henv : EnvBelow lo ctx.env)
    (hds : Makes defLists lo (defsCount ctx delta (d₀ :: ds) (d₀ :: ds))
      (ownDefs ctx delta (d₀ :: ds) (d₀ :: ds)) (d₀ :: ds))
    (hbody : ∀ plan, plan = recPlan ctx delta d₀ (d₀ :: ds) body →
      Makes exprs lo (exprCount plan.2.2 plan.2.1 body) (ownExpr plan.2.2 plan.2.1 body) body) :
    Makes exprs lo (exprCount ctx delta (.letRec (d₀ :: ds) body))
      (ownExpr ctx delta (.letRec (d₀ :: ds) body)) (.letRec (d₀ :: ds) body) := by
  intro n hn
  rw [exprCount]
  rcases hds n hn with ⟨ds', n₁, h₁, hd, gd⟩
  rcases hbody _ rfl n₁ (by omega) with ⟨body', n₂, h₂, hb, gb⟩
  rcases mkDupsForVars_makes henv h0 (recPlan ctx delta d₀ (d₀ :: ds) body).1 n₂ (by omega) with
    ⟨fs, n₃, h₃, hfs, pfs⟩
  refine ⟨prepend fs (.letRec ds' body'), n₃, by omega, ?_, ?_⟩
  · rw [ownExpr, Fresh.bind_eq hd, Fresh.bind_eq hb, Fresh.bind_eq hfs]
    rfl
  · have hsum : minted n n₃ = minted n₂ n₃ + (minted n n₁ + minted n₁ n₂) := by
      rw [minted_add (by omega : n ≤ n₁) (by omega : n₁ ≤ n₂),
        ← minted_add (by omega : n ≤ n₂) (by omega : n₂ ≤ n₃), counts_add_comm]
    rw [hsum]
    exact pfs.grown (grown_letRec gd gb)

theorem recPlan_env {d₀ : Def} {ds : List Def} {body : Expr} (henv : EnvBelow lo ctx.env)
    (hds : ∀ d ∈ ds, uOf d.name.name < lo) :
    EnvBelow lo (recPlan ctx delta d₀ ds body).2.2.env := by
  refine EnvBelow.append (EnvBelow.binders ?_) henv
  intro b hb
  rcases List.mem_map.mp hb with ⟨d, hd, rfl⟩
  exact hds d hd

theorem defCtx_env {group : List Def} {d : Def} (henv : EnvBelow lo ctx.env)
    (hgroup : ∀ d ∈ group, uOf d.name.name < lo) (hps : ∀ b ∈ d.params, uOf b.name < lo) :
    EnvBelow lo (defCtx ctx delta group d).env := by
  refine ((EnvBelow.binders ?_).append (EnvBelow.binders ?_)).append henv
  · intro b hb
    exact hps b (List.mem_reverse.mp hb)
  · intro b hb
    rcases List.mem_map.mp (List.mem_reverse.mp hb) with ⟨d, hd, rfl⟩
    exact hgroup d hd

theorem lamScope_env {ps : List Binder} {e : Expr} (henv : EnvBelow lo ctx.env)
    (hps : ∀ b ∈ ps, uOf b.name < lo) : EnvBelow lo (lamScope ctx delta ps e).1.env :=
  (EnvBelow.binders hps).append henv

theorem defMaxU_name {d : Def} (h : defMaxU d < lo) : uOf d.name.name < lo := by
  cases d
  simp only [defMaxU, Int.max_lt] at h
  exact h.1

theorem defsMaxU_mem {m : Int} {ds : List Def} (h : defsMaxU m ds < lo) :
    ∀ d ∈ ds, defMaxU d < lo := by
  induction ds with
  | nil => exact fun d hd => nomatch hd
  | cons d ds ih =>
      simp only [defsMaxU, Int.max_lt] at h
      intro d' hd'
      rcases List.mem_cons.mp hd' with rfl | hd'
      · exact h.1
      · exact ih h.2 d' hd'

end

/-! ### The pass -/

section

set_option linter.unusedSectionVars false

variable {lo : Int} (h0 : 0 ≤ lo)
include h0

mutual

/-- The rewriting of a covered expression conserves it. -/
theorem ownExpr_makes :
    ∀ (e : Expr), exprMaxU e < lo → plainExpr e = true → coveredExpr e = true →
      ∀ (ctx : Ctx) (delta : UniqueSet), EnvBelow lo ctx.env →
        Makes exprs lo (exprCount ctx delta e) (ownExpr ctx delta e) e
  | .ret a, _, _, _, ctx, delta, henv => by
      rw [ownExpr, exprCount]
      exact ownTail_makes henv h0 _ (grown_ret a)
  | .let_ b r e, hb, hp, hc, ctx, delta, henv => by
      simp only [exprMaxU, Int.max_lt] at hb
      simp only [plainExpr, coveredExpr, Bool.and_eq_true] at hp hc
      exact let_makes h0 henv hb.1 hp.1 (ownRhs_makes r hb.2.1 hp.1 hc.1 ctx delta henv)
        (ownExpr_makes e hb.2.2 hp.2 hc.2)
  | .letRec [] e, _, hp, _, ctx, delta, henv => by
      simp [plainExpr] at hp
  | .letRec (d₀ :: ds) e, hb, hp, hc, ctx, delta, henv => by
      simp only [exprMaxU] at hb
      simp only [plainExpr, coveredExpr, Bool.and_eq_true] at hp hc
      have hnames : ∀ d ∈ d₀ :: ds, uOf d.name.name < lo :=
        fun d hd => defMaxU_name (defsMaxU_mem hb d hd)
      refine letRec_makes h0 henv
        (ownDefs_makes (d₀ :: ds) hb hp.1.2 hc.1 ctx delta (d₀ :: ds) henv hnames) ?_
      rintro _ rfl
      exact ownExpr_makes e (Int.lt_of_le_of_lt (le_defsMaxU _ _) hb) hp.2 hc.2 _ _
        (recPlan_env henv hnames)
  | .case_ a as, hb, hp, hc, ctx, delta, henv => by
      exact wrap_makes (Expr.case_ a) (by rw [ownExpr])
        (grown_case a) (ownAlts_makes as hb hp hc ctx _ _ henv)
  | .letJoin j ps jb e, hb, hp, hc, ctx, delta, henv => by
      simp only [exprMaxU] at hb
      have hps := (bindersMaxU_lt.mp hb).2
      have hm := (bindersMaxU_lt.mp hb).1
      rw [Int.max_lt] at hm
      simp only [plainExpr, coveredExpr, Bool.and_eq_true] at hp hc
      have henv' : EnvBelow lo (joinPlan ctx delta j ps jb).1.env := henv
      exact pair_makes (fun x y => Expr.letJoin j ps y x) (by rw [ownExpr])
        (grown_letJoin j ps)
        (ownExpr_makes e hm.2 hp.2 hc.2 _ _ henv')
        (ownExpr_makes jb hm.1 hp.1 hc.1 _ _ (henv'.ctxBinds hps))
  | .jump j as, _, _, _, ctx, delta, henv => by
      rw [ownExpr, exprCount]
      exact ownTail_makes henv h0 _ (grown_jump j as)
  | .handle e h, hb, hp, hc, ctx, delta, henv => by
      simp only [exprMaxU, Int.max_lt] at hb
      simp only [plainExpr, coveredExpr, Bool.and_eq_true] at hp hc
      exact pair_makes Expr.handle (by rw [ownExpr, if_pos hc.1.1])
        grown_handle (ownExpr_makes e hb.1 hp.1 hc.1.2 ctx _ henv)
        (ownHandler_makes h hb.2 hp.2 hc.2 ctx henv)
  | .installHandler a self e, _, _, hc, ctx, delta, henv => by
      cases hc

theorem ownAlts_makes :
    ∀ (as : List Alt) {m : Int}, altsMaxU m as < lo → plainAlts as = true →
      coveredAlts as = true → ∀ (ctx : Ctx) (delta : UniqueSet) (parent : Option Unique),
        EnvBelow lo ctx.env →
          Makes altLists lo (altsCount ctx delta parent as) (ownAlts ctx delta parent as) as
  | [], _, _, _, _, ctx, delta, parent, henv => self_makes (by rw [ownAlts]) (grown_self rfl rfl)
  | alt :: as, _, hb, hp, hc, ctx, delta, parent, henv => by
      simp only [altsMaxU, Int.max_lt] at hb
      simp only [plainAlts, coveredAlts, Bool.and_eq_true] at hp hc
      exact pair_makes List.cons (by rw [ownAlts])
        grown_altCons
        (ownAlt_makes alt hb.1 hp.1 hc.1 ctx delta parent henv)
        (ownAlts_makes as hb.2 hp.2 hc.2 ctx delta parent henv)

theorem ownAlt_makes :
    ∀ (alt : Alt), altMaxU alt < lo → plainAlt alt = true → coveredAlt alt = true →
      ∀ (ctx : Ctx) (delta : UniqueSet) (parent : Option Unique), EnvBelow lo ctx.env →
        Makes alts lo (altCount ctx delta parent alt) (ownAlt ctx delta parent alt) alt
  | .con c bs e, hb, hp, hc, ctx, delta, parent, henv => by
      have henv' := henv.ctxBinds (bindersMaxU_lt.mp hb).2
      exact alt_makes (Alt.con c bs) (by rw [ownAlt])
        (grown_altCon c bs)
        (mkDupsForVars_makes henv' h0 _) (dropParentThen_makes henv' h0 parent)
        (ownExpr_makes e (bindersMaxU_lt.mp hb).1 hp hc _ _ henv')
  | .lit l e, hb, hp, hc, ctx, delta, parent, henv => by
      exact altTail_makes (Alt.lit l) (by rw [ownAlt])
        (grown_altLit l)
        (dropParentThen_makes henv h0 parent)
        (ownExpr_makes e hb hp hc _ _ henv)
  | .default e, hb, hp, hc, ctx, delta, parent, henv => by
      exact altTail_makes Alt.default (by rw [ownAlt])
        grown_altDefault
        (dropParentThen_makes henv h0 parent)
        (ownExpr_makes e hb hp hc _ _ henv)

theorem ownDefs_makes :
    ∀ (ds : List Def) {m : Int}, defsMaxU m ds < lo → plainDefs ds = true →
      coveredDefs ds = true → ∀ (ctx : Ctx) (delta : UniqueSet) (group : List Def),
        EnvBelow lo ctx.env → (∀ d ∈ group, uOf d.name.name < lo) →
          Makes defLists lo (defsCount ctx delta group ds) (ownDefs ctx delta group ds) ds
  | [], _, _, _, _, ctx, delta, group, henv, hgroup =>
      self_makes (by rw [ownDefs]) (grown_self rfl rfl)
  | d :: ds, _, hb, hp, hc, ctx, delta, group, henv, hgroup => by
      simp only [defsMaxU, Int.max_lt] at hb
      simp only [plainDefs, coveredDefs, Bool.and_eq_true] at hp hc
      exact pair_makes List.cons (by rw [ownDefs])
        grown_defCons
        (ownDef_makes d hb.1 hp.1 hc.1 ctx delta group henv hgroup)
        (ownDefs_makes ds hb.2 hp.2 hc.2 ctx delta group henv hgroup)

theorem ownDef_makes :
    ∀ (d : Def), defMaxU d < lo → plainDef d = true → coveredDef d = true →
      ∀ (ctx : Ctx) (delta : UniqueSet) (group : List Def), EnvBelow lo ctx.env →
        (∀ d ∈ group, uOf d.name.name < lo) →
          Makes defs lo (defCount ctx delta group d) (ownDef ctx delta group d) d
  | ⟨b, ps, body⟩, hb, hp, hc, ctx, delta, group, henv, hgroup => by
      simp only [defMaxU, Int.max_lt] at hb
      have hps := bindersMaxU_lt.mp hb.2
      exact wrap_makes (Def.mk b ps) (by rw [ownDef])
        (grown_def b ps)
        (ownExpr_makes body hps.1 hp hc _ _ (defCtx_env henv hgroup hps.2))

theorem ownHandler_makes :
    ∀ (h : Handler), handlerMaxU h < lo → plainHandler h = true → coveredHandler h = true →
      ∀ (ctx : Ctx), EnvBelow lo ctx.env →
        Makes handlers lo (handlerCount ctx h) (ownHandler ctx h) h
  | ⟨retBinder, retBody, ops, answerJoin, param, self⟩, hb, hp, hc, ctx, henv => by
      simp only [handlerMaxU, Int.max_lt] at hb
      simp only [plainHandler, coveredHandler, Bool.and_eq_true] at hp hc
      have hps := (bindersMaxU_lt.mp (Int.lt_of_le_of_lt (le_armsMaxU _ ops) hb.2)).2
      have hparam : ∀ b ∈ param.toList, uOf b.name < lo :=
        fun b hb => hps b (List.mem_append_left _ hb)
      have henv' : EnvBelow lo (armCtxReset ctx).env := henv
      exact pair_makes (fun x y => Handler.mk retBinder x y answerJoin param self)
        (by rw [ownHandler]) (grown_handler retBinder answerJoin param self)
        (ownExpr_makes retBody hb.1.2 hp.1 hc.1 _ _
          (henv'.ctxBinds (List.forall_mem_cons.mpr ⟨hb.1.1, hparam⟩)))
        (ownArms_makes ops hb.2 hp.2 hc.2 ctx param henv hparam)

theorem ownArms_makes :
    ∀ (as : List OpArm) {m : Int}, armsMaxU m as < lo → plainArms as = true →
      coveredArms as = true → ∀ (ctx : Ctx) (param : Option Binder), EnvBelow lo ctx.env →
        (∀ b ∈ param.toList, uOf b.name < lo) →
          Makes armLists lo (armsCount ctx param as) (ownArms ctx param as) as
  | [], _, _, _, _, ctx, param, henv, hparam => self_makes (by rw [ownArms]) (grown_self rfl rfl)
  | arm :: as, _, hb, hp, hc, ctx, param, henv, hparam => by
      simp only [armsMaxU, Int.max_lt] at hb
      simp only [plainArms, coveredArms, Bool.and_eq_true] at hp hc
      exact pair_makes List.cons (by rw [ownArms])
        grown_armCons
        (ownOpArm_makes arm hb.1 hp.1 hc.1 ctx param henv hparam)
        (ownArms_makes as hb.2 hp.2 hc.2 ctx param henv hparam)

theorem ownOpArm_makes :
    ∀ (arm : OpArm), opArmMaxU arm < lo → plainArm arm = true → coveredArm arm = true →
      ∀ (ctx : Ctx) (param : Option Binder), EnvBelow lo ctx.env →
        (∀ b ∈ param.toList, uOf b.name < lo) →
          Makes arms lo (armCount ctx param arm) (ownOpArm ctx param arm) arm
  | ⟨label, op, args, resume, body⟩, hb, hp, hc, ctx, param, henv, hparam => by
      have hps := bindersMaxU_lt.mp hb
      have henv' : EnvBelow lo (armCtxReset ctx).env := henv
      have hbs : ∀ b ∈ args ++ [resume] ++ param.toList, uOf b.name < lo := by
        intro b hb
        simp only [List.mem_append, List.mem_singleton] at hb
        rcases hb with (hb | hb) | hb
        · exact hps.2 b (List.mem_cons_of_mem _ hb)
        · exact hps.2 b (by rw [hb]; exact List.mem_cons_self ..)
        · exact hparam b hb
      have hctx : EnvBelow lo { ctxBinds (args ++ [resume] ++ param.toList) (armCtxReset ctx) with
          resume := [binderUnique resume] }.env := henv'.ctxBinds hbs
      exact wrap_makes (OpArm.mk label op args resume) (by rw [ownOpArm])
        (grown_arm label op args resume)
        (ownExpr_makes body hps.1 hp hc _ _ hctx)

theorem ownRhs_makes :
    ∀ (r : Rhs), rhsMaxU r < lo → plainRhs r = true → coveredRhs r = true →
      ∀ (ctx : Ctx) (delta : UniqueSet), EnvBelow lo ctx.env →
        Makes rhss lo (rhsCount ctx delta r) (ownRhs ctx delta r) r
  | .lam ps e, hb, hp, hc, ctx, delta, henv => by
      have hps := bindersMaxU_lt.mp hb
      exact wrap_makes (Rhs.lam ps) (by rw [ownRhs])
        (grown_lam ps)
        (ownExpr_makes e hps.1 hp hc _ _ (lamScope_env henv hps.2))
  | .makeHandler _, _, _, hc, _, _, _ => by cases hc
  | .atom a, _, _, _, _, _, _ => self_makes (by simp only [ownRhs]) (grown_self rfl rfl)
  | .app f as, _, _, _, _, _, _ => self_makes (by simp only [ownRhs]) (grown_self rfl rfl)
  | .con c as, _, _, _, _, _, _ => self_makes (by simp only [ownRhs]) (grown_self rfl rfl)
  | .op m l o as, _, _, _, _, _, _ => self_makes (by simp only [ownRhs]) (grown_self rfl rfl)
  | .record nm flds, _, _, _, _, _, _ => self_makes (by simp only [ownRhs]) (grown_self rfl rfl)
  | .proj l a, _, _, _, _, _, _ => self_makes (by simp only [ownRhs]) (grown_self rfl rfl)
  | .reuseCon t c as, _, _, _, _, _, _ => self_makes (by simp only [ownRhs]) (grown_self rfl rfl)
  | .foreignCall l s as, _, _, _, _, _, _ => self_makes (by simp only [ownRhs]) (grown_self rfl rfl)

end

end

/-! ### What the pass leaves alone -/

mutual

/-- An expression that holds no identity from `lo` on has no inserted bindings. -/
theorem expr_grown {lo : Int} : ∀ {e : Expr}, exprMaxU e < lo → Grown exprs lo 0 e e
  | .ret a, _ => grown_ret a
  | .let_ b r e, hb => by
      simp only [exprMaxU, Int.max_lt] at hb
      exact (grown_let hb.1 (rhs_grown hb.2.1) (expr_grown hb.2.2)).zero_add
  | .letRec ds e, hb =>
      have he := expr_grown (Int.lt_of_le_of_lt (le_defsMaxU _ ds) hb)
      (grown_letRec (defs_grown hb) he).zero_add
  | .case_ a as, hb => grown_case a (alts_grown hb)
  | .letJoin j ps jb e, hb => by
      have hm := (bindersMaxU_lt.mp hb).1
      rw [Int.max_lt] at hm
      exact (grown_letJoin j ps (expr_grown hm.2) (expr_grown hm.1)).zero_add
  | .jump j as, _ => grown_jump j as
  | .handle e h, hb => by
      simp only [exprMaxU, Int.max_lt] at hb
      exact (grown_handle (expr_grown hb.1) (handler_grown hb.2)).zero_add
  | .installHandler a self e, hb => by
      simp only [exprMaxU, Int.max_lt] at hb
      exact grown_install a self (expr_grown hb.2)

theorem defs_grown {lo m : Int} : ∀ {ds : List Def}, defsMaxU m ds < lo →
    Grown defLists lo 0 ds ds
  | [], _ => grown_self rfl rfl
  | d :: ds, hb => by
      simp only [defsMaxU, Int.max_lt] at hb
      exact (grown_defCons (def_grown hb.1) (defs_grown hb.2)).zero_add

theorem def_grown {lo : Int} : ∀ {d : Def}, defMaxU d < lo → Grown defs lo 0 d d
  | ⟨b, ps, e⟩, hb => by
      simp only [defMaxU, Int.max_lt] at hb
      exact grown_def b ps (expr_grown (bindersMaxU_lt.mp hb.2).1)

theorem alts_grown {lo m : Int} : ∀ {as : List Alt}, altsMaxU m as < lo →
    Grown altLists lo 0 as as
  | [], _ => grown_self rfl rfl
  | alt :: as, hb => by
      simp only [altsMaxU, Int.max_lt] at hb
      exact (grown_altCons (alt_grown hb.1) (alts_grown hb.2)).zero_add

theorem alt_grown {lo : Int} : ∀ {alt : Alt}, altMaxU alt < lo → Grown alts lo 0 alt alt
  | .con c bs _, hb => grown_altCon c bs (expr_grown (bindersMaxU_lt.mp hb).1)
  | .lit l _, hb => grown_altLit l (expr_grown hb)
  | .default _, hb => grown_altDefault (expr_grown hb)

theorem handler_grown {lo : Int} : ∀ {h : Handler}, handlerMaxU h < lo →
    Grown handlers lo 0 h h
  | ⟨retBinder, _, _, answerJoin, param, self⟩, hb => by
      simp only [handlerMaxU, Int.max_lt] at hb
      exact (grown_handler retBinder answerJoin param self (expr_grown hb.1.2)
        (arms_grown hb.2)).zero_add

theorem arms_grown {lo m : Int} : ∀ {as : List OpArm}, armsMaxU m as < lo →
    Grown armLists lo 0 as as
  | [], _ => grown_self rfl rfl
  | arm :: as, hb => by
      simp only [armsMaxU, Int.max_lt] at hb
      exact (grown_armCons (arm_grown hb.1) (arms_grown hb.2)).zero_add

theorem arm_grown {lo : Int} : ∀ {arm : OpArm}, opArmMaxU arm < lo → Grown arms lo 0 arm arm
  | ⟨label, op, args, resume, _⟩, hb =>
      grown_arm label op args resume (expr_grown (bindersMaxU_lt.mp hb).1)

theorem rhs_grown {lo : Int} : ∀ {r : Rhs}, rhsMaxU r < lo → Grown rhss lo 0 r r
  | .lam ps _, hb => grown_lam ps (expr_grown (bindersMaxU_lt.mp hb).1)
  | .makeHandler _, hb => grown_makeHandler (handler_grown hb)
  | .atom _, _ => grown_self rfl rfl
  | .app .., _ => grown_self rfl rfl
  | .con .., _ => grown_self rfl rfl
  | .op .., _ => grown_self rfl rfl
  | .record .., _ => grown_self rfl rfl
  | .proj .., _ => grown_self rfl rfl
  | .reuseCon .., _ => grown_self rfl rfl
  | .foreignCall .., _ => grown_self rfl rfl

end

/-! ### What the pass refuses -/

theorem letPlan_not_reuse {ctx : Ctx} {delta : UniqueSet} {b : Binder} {rhs : Rhs} {body : Expr}
    (h : Fresh.Succeeds (liftM (letPlan ctx delta b rhs body) : Fresh LetPlan)) :
    ∀ tok c as, rhs ≠ .reuseCon tok c as := by
  rintro tok c as rfl
  rcases h.lift with ⟨plan, hplan⟩
  cases hplan

mutual

/-- A covered expression that the pass rewrites is plain. -/
theorem ownExpr_plain :
    ∀ {e : Expr} {ctx : Ctx} {delta : UniqueSet}, coveredExpr e = true →
      Fresh.Succeeds (ownExpr ctx delta e) → plainExpr e = true
  | .ret _, _, _, _, _ => rfl
  | .let_ b r e, ctx, delta, hc, h => by
      simp only [coveredExpr, Bool.and_eq_true] at hc
      rw [ownExpr] at h
      rcases h.bind with ⟨hr, _, h⟩
      rcases h.bind with ⟨hplan, _, h⟩
      rcases h.bind with ⟨_, _, h⟩
      rcases h.bind with ⟨_, _, h⟩
      rw [plainExpr, ownRhs_plain hc.1 (letPlan_not_reuse hplan) hr, ownExpr_plain hc.2 h.bind.1]
      rfl
  | .letRec [] e, ctx, delta, _, h => by
      rw [ownExpr] at h
      rcases h with ⟨n, r, h⟩
      cases h
  | .letRec (d₀ :: ds) e, ctx, delta, hc, h => by
      simp only [coveredExpr, Bool.and_eq_true] at hc
      rw [ownExpr] at h
      rcases h.bind with ⟨hds, _, h⟩
      rw [plainExpr, ownDefs_plain hc.1 hds, ownExpr_plain hc.2 h.bind.1]
      rfl
  | .case_ a as, ctx, delta, hc, h => by
      rw [ownExpr] at h
      exact ownAlts_plain hc h.bind.1
  | .letJoin j ps jb e, ctx, delta, hc, h => by
      simp only [coveredExpr, Bool.and_eq_true] at hc
      rw [ownExpr] at h
      rcases h.bind with ⟨he, _, h⟩
      rw [plainExpr, ownExpr_plain hc.2 he, ownExpr_plain hc.1 h.bind.1]
      rfl
  | .jump _ _, _, _, _, _ => rfl
  | .handle e hd, ctx, delta, hc, h => by
      simp only [coveredExpr, Bool.and_eq_true] at hc
      rw [ownExpr, if_pos hc.1.1] at h
      rcases h.bind with ⟨he, _, h⟩
      rw [plainExpr, ownExpr_plain hc.1.2 he, ownHandler_plain hc.2 h.bind.1]
      rfl
  | .installHandler .., _, _, hc, _ => nomatch hc

theorem ownAlts_plain :
    ∀ {as : List Alt} {ctx : Ctx} {delta : UniqueSet} {parent : Option Unique},
      coveredAlts as = true → Fresh.Succeeds (ownAlts ctx delta parent as) → plainAlts as = true
  | [], _, _, _, _, _ => rfl
  | alt :: as, ctx, delta, parent, hc, h => by
      simp only [coveredAlts, Bool.and_eq_true] at hc
      rw [ownAlts] at h
      rcases h.bind with ⟨ha, _, h⟩
      rw [plainAlts, ownAlt_plain hc.1 ha, ownAlts_plain hc.2 h.bind.1]
      rfl

theorem ownAlt_plain :
    ∀ {alt : Alt} {ctx : Ctx} {delta : UniqueSet} {parent : Option Unique},
      coveredAlt alt = true → Fresh.Succeeds (ownAlt ctx delta parent alt) → plainAlt alt = true
  | .con c bs e, ctx, delta, parent, hc, h => by
      rw [ownAlt] at h
      rcases h.bind with ⟨_, _, h⟩
      rcases h.bind with ⟨_, _, h⟩
      exact ownExpr_plain (e := e) hc h.bind.1
  | .lit l e, ctx, delta, parent, hc, h => by
      rw [ownAlt] at h
      rcases h.bind with ⟨_, _, h⟩
      exact ownExpr_plain (e := e) hc h.bind.1
  | .default e, ctx, delta, parent, hc, h => by
      rw [ownAlt] at h
      rcases h.bind with ⟨_, _, h⟩
      exact ownExpr_plain (e := e) hc h.bind.1

theorem ownDefs_plain :
    ∀ {ds : List Def} {ctx : Ctx} {delta : UniqueSet} {group : List Def},
      coveredDefs ds = true → Fresh.Succeeds (ownDefs ctx delta group ds) → plainDefs ds = true
  | [], _, _, _, _, _ => rfl
  | d :: ds, ctx, delta, group, hc, h => by
      simp only [coveredDefs, Bool.and_eq_true] at hc
      rw [ownDefs] at h
      rcases h.bind with ⟨hd, _, h⟩
      rw [plainDefs, ownDef_plain hc.1 hd, ownDefs_plain hc.2 h.bind.1]
      rfl

theorem ownDef_plain :
    ∀ {d : Def} {ctx : Ctx} {delta : UniqueSet} {group : List Def},
      coveredDef d = true → Fresh.Succeeds (ownDef ctx delta group d) → plainDef d = true
  | ⟨b, ps, e⟩, ctx, delta, group, hc, h => by
      rw [ownDef] at h
      exact ownExpr_plain (e := e) hc h.bind.1

theorem ownHandler_plain :
    ∀ {hd : Handler} {ctx : Ctx}, coveredHandler hd = true →
      Fresh.Succeeds (ownHandler ctx hd) → plainHandler hd = true
  | ⟨retBinder, retBody, ops, answerJoin, param, self⟩, ctx, hc, h => by
      simp only [coveredHandler, Bool.and_eq_true] at hc
      rw [ownHandler] at h
      rcases h.bind with ⟨hret, _, h⟩
      rw [plainHandler, ownExpr_plain hc.1 hret, ownArms_plain hc.2 h.bind.1]
      rfl

theorem ownArms_plain :
    ∀ {as : List OpArm} {ctx : Ctx} {param : Option Binder}, coveredArms as = true →
      Fresh.Succeeds (ownArms ctx param as) → plainArms as = true
  | [], _, _, _, _ => rfl
  | arm :: as, ctx, param, hc, h => by
      simp only [coveredArms, Bool.and_eq_true] at hc
      rw [ownArms] at h
      rcases h.bind with ⟨ha, _, h⟩
      rw [plainArms, ownOpArm_plain hc.1 ha, ownArms_plain hc.2 h.bind.1]
      rfl

theorem ownOpArm_plain :
    ∀ {arm : OpArm} {ctx : Ctx} {param : Option Binder}, coveredArm arm = true →
      Fresh.Succeeds (ownOpArm ctx param arm) → plainArm arm = true
  | ⟨label, op, args, resume, e⟩, ctx, param, hc, h => by
      rw [ownOpArm] at h
      exact ownExpr_plain (e := e) hc h.bind.1

theorem ownRhs_plain :
    ∀ {r : Rhs} {ctx : Ctx} {delta : UniqueSet}, coveredRhs r = true →
      (∀ tok c as, r ≠ .reuseCon tok c as) → Fresh.Succeeds (ownRhs ctx delta r) →
        plainRhs r = true
  | .lam ps e, ctx, delta, hc, _, h => by
      rw [ownRhs] at h
      exact ownExpr_plain (e := e) hc h.bind.1
  | .makeHandler _, _, _, hc, _, _ => nomatch hc
  | .reuseCon tok c as, _, _, _, hr, _ => absurd rfl (hr tok c as)
  | .atom _, _, _, _, _, _ => rfl
  | .app .., _, _, _, _, _ => rfl
  | .con .., _, _, _, _, _ => rfl
  | .op .., _, _, _, _, _ => rfl
  | .record .., _, _, _, _, _ => rfl
  | .proj .., _, _, _, _, _ => rfl
  | .foreignCall .., _, _, _, _, _ => rfl

end

/-! ### The module -/

def topBinds : Category TopBind := ⟨eraseBind, fun lo tb => exprAdded lo tb.body, bindOccs⟩

def topBindLists : Category (List TopBind) :=
  ⟨fun lo tbs => tbs.map (eraseBind lo), fun lo tbs => tbs.flatMap (exprAdded lo ·.body), bindsOccs⟩

theorem grown_bind (tb : TopBind) {lo : Int} {μ : Int → Nat} {e' : Expr}
    (h : Grown exprs lo μ e' tb.body) : Grown topBinds lo μ { tb with body := e' } tb := by
  rcases tb with ⟨x, ps, e⟩
  apply grown_wrap (TopBind.mk x ps) ((.term, uOf x) :: bindersOccs ps) _ _ _ h
  · exact fun _ => rfl
  · exact fun _ => rfl
  · intro e u
    simp only [topBinds, exprs, bindOccs, countId_cons, countId_append]
    omega

/-- A later bind is rewritten before an earlier one. -/
theorem grown_bindCons {lo : Int} {μ ν : Int → Nat} {tb' tb : TopBind} {tbs' tbs : List TopBind}
    (hs : Grown topBindLists lo μ tbs' tbs) (h : Grown topBinds lo ν tb' tb) :
    Grown topBindLists lo (μ + ν) (tb' :: tbs') (tb :: tbs) := by
  rw [counts_add_comm]
  apply grown_pair List.cons [] _ _ _ h hs
  · exact fun _ _ => rfl
  · exact fun _ _ => rfl
  · intro tb tbs u
    simp [topBinds, topBindLists, bindsOccs]

theorem onBind_makes {lo : Int} (h0 : 0 ≤ lo) {tb : TopBind} (hb : topMaxU tb < lo)
    (hp : coveredExpr tb.body = true → plainExpr tb.body = true) :
    Makes topBinds lo (bindCount tb) (onBind tb) tb := by
  rw [topMaxU, Int.max_lt, bindersMaxU_lt] at hb
  rw [onBind, bindCount]
  by_cases hc : coveredExpr tb.body = true
  · have henv : EnvBelow lo (ctx0 tb.params).env :=
      EnvBelow.binders fun b h => hb.2.2 b (List.mem_reverse.mp h)
    rw [if_pos hc, if_pos hc]
    exact wrap_makes (fun e => { tb with body := e }) rfl (grown_bind tb)
      (ownExpr_makes h0 tb.body hb.2.1 (hp hc) hc (ctx0 tb.params) _ henv)
  · rw [if_neg hc, if_neg hc]
    exact self_makes rfl (grown_bind tb (expr_grown hb.2.1))

theorem insertBinds_makes {lo : Int} (h0 : 0 ≤ lo) :
    ∀ {tbs : List TopBind}, (∀ tb ∈ tbs, topMaxU tb < lo) →
      (∀ tb ∈ tbs, coveredExpr tb.body = true → plainExpr tb.body = true) →
        Makes topBindLists lo (insertions tbs) (insertBinds tbs) tbs
  | [], _, _ => self_makes rfl (grown_self rfl rfl)
  | tb :: tbs, hb, hp => by
      rcases List.forall_mem_cons.mp hb with ⟨hb, hbs⟩
      rcases List.forall_mem_cons.mp hp with ⟨hp, hps⟩
      exact pair_makes (fun tbs tb => tb :: tbs) rfl grown_bindCons (insertBinds_makes h0 hbs hps)
        (onBind_makes h0 hb hp)

theorem onBind_plain {tb : TopBind} (h : Fresh.Succeeds (onBind tb))
    (hc : coveredExpr tb.body = true) : plainExpr tb.body = true := by
  rw [onBind, if_pos hc] at h
  exact ownExpr_plain hc h.bind.1

theorem insertBinds_plain :
    ∀ {tbs : List TopBind}, Fresh.Succeeds (insertBinds tbs) →
      ∀ tb ∈ tbs, coveredExpr tb.body = true → plainExpr tb.body = true
  | [], _ => fun _ h => nomatch h
  | tb :: tbs, h => by
      rw [insertBinds] at h
      rcases h.bind with ⟨hs, _, h⟩
      exact List.forall_mem_cons.mpr ⟨onBind_plain h.bind.1, insertBinds_plain hs⟩

/-- The pass accepts a module when its covered binds are plain. -/
theorem insertRC_plain {cm cm' : CoreModule} (h : insertRC cm = .ok cm') : Plain cm := by
  rw [insertRC] at h
  cases hb : insertBinds cm.binds (seedSupply cm) with
  | error e =>
      rw [hb] at h
      cases h
  | ok p => exact insertBinds_plain ⟨_, _, hb⟩

/-- The output has one more occurrence of each identity that the supply goes
through, and otherwise the occurrences of the input. -/
theorem insertRC_makes {cm : CoreModule} (h : Plain cm) :
    ∃ cm', insertRC cm = .ok cm' ∧ ∃ hi, hi = seedSupply cm + insertions cm.binds ∧
      Grown topBindLists (seedSupply cm) (minted (seedSupply cm) hi) cm'.binds cm.binds := by
  rcases insertBinds_makes (seedSupply_nonneg cm) (fun _ => topMaxU_lt_seed) h
    (seedSupply cm) (Int.le_refl _) with ⟨tbs', hi, hhi, hrun, g⟩
  refine ⟨⟨tbs'⟩, ?_, hi, hhi, g⟩
  rw [insertRC, hrun]
  rfl

theorem term_mem_module {u : Int} {cm : CoreModule} (h : (Position.term, u) ∈ moduleOccs cm) :
    u < seedSupply cm := by
  rcases List.mem_flatMap.mp h with ⟨tb, htb, h⟩
  have hb := topMaxU_lt_seed htb
  rw [topMaxU, Int.max_lt] at hb
  simp only [bindOccs, List.mem_cons, List.mem_append, Prod.mk.injEq, true_and] at h
  rcases h with rfl | h | h
  · exact hb.1
  · exact term_mem_binders hb.2 h
  · exact term_mem_expr (bindersMaxU_lt.mp hb.2).1 h

theorem countId_eq_zero {u : Int} {occs : Occs} : countId u occs = 0 ↔ ∀ p ∈ occs, p.2 ≠ u := by
  simp [countId, List.countP_eq_zero]

/-- The module comes back by erasure and the inserted binders are fresh exactly
when the pass accepts the module and no self binder of an install and no label of
a join, which the walk of the seed does not visit, has one of the identities that
the supply goes through. -/
theorem insertRC_conserves (cm : CoreModule) :
    (∃ cm', insertRC cm = .ok cm' ∧ Conserves cm cm') ↔
      Plain cm ∧ ∀ p ∈ moduleOccs cm, p.1 ≠ .term →
        p.2 < seedSupply cm ∨ seedSupply cm + insertions cm.binds ≤ p.2 := by
  constructor
  · rintro ⟨cm', hcm', hcons⟩
    have hplain := insertRC_plain hcm'
    rcases insertRC_makes hplain with ⟨cm'', hcm'', hi, hhi, g⟩
    obtain rfl : cm' = cm'' := Except.ok.inj (hcm'.symm.trans hcm'')
    refine ⟨hplain, fun p hp _ => ?_⟩
    rw [← hhi]
    by_contra hout
    have hin : minted (seedSupply cm) hi p.2 = 1 := if_pos (by omega)
    have hmem : p.2 ∈ addedIds (seedSupply cm) cm' := by
      apply List.count_pos_iff.mp
      have : (addedIds (seedSupply cm) cm').count p.2 = 1 := (g.added p.2).trans hin
      omega
    have hone := (g.occs p.2 (by omega)).symm.trans (hcons.fresh p.2 hmem)
    have hzero : countId p.2 (moduleOccs cm) = 0 := by
      change minted (seedSupply cm) hi p.2 + countId p.2 (moduleOccs cm) = 1 at hone
      omega
    exact countId_eq_zero.mp hzero p hp rfl
  · rintro ⟨hplain, hout⟩
    rcases insertRC_makes hplain with ⟨cm', hcm', hi, hhi, g⟩
    refine ⟨cm', hcm', congrArg CoreModule.mk g.erase, fun u hu => ?_⟩
    have hpos : 0 < minted (seedSupply cm) hi u := by
      rw [← g.added u]
      exact List.count_pos_iff.mpr hu
    have hrange : seedSupply cm ≤ u ∧ u < hi := by
      by_contra hr
      rw [minted, if_neg hr] at hpos
      omega
    have hold : countId u (moduleOccs cm) = 0 := by
      rw [countId_eq_zero]
      rintro ⟨pos, v⟩ hp rfl
      by_cases hpos : pos = .term
      · subst hpos
        exact absurd (term_mem_module hp) (by omega)
      · rcases hout _ hp hpos with h | h
        · exact absurd h (by omega)
        · exact absurd hrange.2 (by omega)
    have hnew := g.occs u hrange.1
    rw [minted, if_pos hrange] at hnew
    change countId u (moduleOccs cm') = 1 + countId u (moduleOccs cm) at hnew
    rw [hnew, hold]

/-- `k = \y -> ()` drops its parameter, and `g` installs a handler under a self
binder whose identity the walk of the seed does not see. -/
def selfInstall : CoreModule :=
  let str : Wok.TypeChecking.CType := .con .string []
  ⟨[⟨⟨"k", ⟨0⟩⟩, [⟨⟨"y", ⟨1⟩⟩, str⟩], .ret (.lit .unit)⟩,
    ⟨⟨"g", ⟨2⟩⟩, [⟨⟨"h", ⟨3⟩⟩, str⟩],
      .installHandler (.var ⟨"h", ⟨3⟩⟩) (some ⟨⟨"s", ⟨4⟩⟩, str⟩) (.ret (.lit .unit))⟩]⟩

/-- The drop of `y` gets the identity of the self binder. -/
theorem selfInstall_collides :
    ¬ ∃ cm', insertRC selfInstall = .ok cm' ∧ Conserves selfInstall cm' := by
  rintro ⟨cm', h, hcons⟩
  cases h
  exact absurd (hcons.fresh 4 (by decide)) (by decide)

end Wok.Proofs.Perceus
