/-
Module: Wok.Spec.Match
Layer: Spec
Purpose: What it means that a value matches a pattern and which parts its
  variables stand for, for source patterns and for those of the match compiler;
  what typing promises of a scrutinee; and what a lowered `case` has to do.
Imports: Wok.IR.Elaborate, Wok.Interp.Machine, Wok.Lib.System
Trusted boundary: none
Main exports: TPat.matches, TPat.parts, TPat.fits, MPat.matches, MPat.parts,
  Steps, TreeSteps, JumpsTo, ReachesFailLeaf, Clause, CaseRuns, RunsWhen
-/
import Mathlib.Logic.Relation
import Wok.IR.Elaborate
import Wok.Interp.Machine
import Wok.Lib.System

namespace Wok.Spec.Match

open Wok.IR Wok.Interp
open Wok.TypeChecking (TPat TypeEnv)

/-- The fields of a record constructor in declared order. -/
def recordLabels (env : TypeEnv) (c : String) : List String :=
  ((env.lookupRecordCon c).map fun rci => rci.fields.map (·.1)).getD []

/-- The constructors of the data type that constructor `c` belongs to. -/
def siblings (env : TypeEnv) (c : String) : Option (List String) :=
  ((env.lookupCon c).bind fun ci => env.lookupTyCon ci.tyCon).map (·.cons)

/-- `c'` is applied to `n` fields and belongs to the data type of `c`. -/
def builtBy (env : TypeEnv) (c c' : String) (n : Nat) : Bool :=
  (env.lookupCon c').any (·.arity == n) && (siblings env c).all (·.contains c')

end Wok.Spec.Match

namespace Wok.TypeChecking

open Wok.IR Wok.Interp Wok.Spec.Match

/-! ### Source patterns -/

mutual

/-- The value matches the pattern. -/
def TPat.matches (env : TypeEnv) : TPat → Value → Bool
  | .var .., _ => true
  | .wild _, _ => true
  | .unit _, v => match v with
      | .lit .unit => true
      | _ => false
  | .litI _ i, v => match v with
      | .lit l => l == .int i
      | _ => false
  | .litS _ s, v => match v with
      | .lit l => l == .str s
      | _ => false
  | .litC _ c, v => match v with
      | .lit l => l == .char c
      | _ => false
  | .tuple _ ps, v => match v with
      | .con c vs => c == tupleTag ps.length && matchesAll env ps vs
      | _ => false
  | .list _ ps, v => matchesList env ps v
  | .cons _ h t, v => match v with
      | .con "Cons" [hd, tl] => h.matches env hd && t.matches env tl
      | _ => false
  | .con _ c ps, v => match v with
      | .con c' vs => c' == c && matchesAll env ps vs
      | .record c' fields => c' == c && matchesFields env (recordLabels env c) ps fields
      | _ => false
  | .as _ _ inner, v => inner.matches env v

/-- As many values as patterns, each matching its own. -/
def matchesAll (env : TypeEnv) : List TPat → List Value → Bool
  | [], [] => true
  | p :: ps, v :: vs => p.matches env v && matchesAll env ps vs
  | _, _ => false

/-- A list of exactly as many elements as there are patterns. -/
def matchesList (env : TypeEnv) : List TPat → Value → Bool
  | [], v => match v with
      | .con "Nil" [] => true
      | _ => false
  | p :: ps, v => match v with
      | .con "Cons" [hd, tl] => p.matches env hd && matchesList env ps tl
      | _ => false

/-- Each labelled field matches its pattern. -/
def matchesFields (env : TypeEnv) : List String → List TPat → List (String × Value) → Bool
  | l :: ls, p :: ps, fields =>
      match fields.lookup l with
      | some v => p.matches env v && matchesFields env ls ps fields
      | none => false
  | _, _, _ => true

end

mutual

/-- The variables of the pattern with the parts of a matching value they stand
for. -/
def TPat.parts (env : TypeEnv) : TPat → Value → List (String × Value)
  | .var _ x, v => [(x, v)]
  | .tuple _ ps, v => match v with
      | .con _ vs => partsAll env ps vs
      | _ => []
  | .list _ ps, v => partsList env ps v
  | .cons _ h t, v => match v with
      | .con _ [hd, tl] => h.parts env hd ++ t.parts env tl
      | _ => []
  | .con _ c ps, v => match v with
      | .con _ vs => partsAll env ps vs
      | .record _ fields => partsFields env (recordLabels env c) ps fields
      | _ => []
  | .as _ x inner, v => (x, v) :: inner.parts env v
  | _, _ => []

def partsAll (env : TypeEnv) : List TPat → List Value → List (String × Value)
  | p :: ps, v :: vs => p.parts env v ++ partsAll env ps vs
  | _, _ => []

def partsList (env : TypeEnv) : List TPat → Value → List (String × Value)
  | p :: ps, .con _ [hd, tl] => p.parts env hd ++ partsList env ps tl
  | _, _ => []

def partsFields (env : TypeEnv) :
    List String → List TPat → List (String × Value) → List (String × Value)
  | l :: ls, p :: ps, fields =>
      (fields.lookup l).elim [] (p.parts env) ++ partsFields env ls ps fields
  | _, _, _ => []

end

mutual

/-- The value is of the pattern's type as far as the pattern looks into it, which
type checking promises: literals of the pattern's kind, tuples of its arity,
lists, and constructors of its data type with all their fields, positional ones or
records. -/
def TPat.fits (env : TypeEnv) : TPat → Value → Bool
  | .var .., _ => true
  | .wild _, _ => true
  | .unit _, v => match v with
      | .lit .unit => true
      | _ => false
  | .litI .., v => match v with
      | .lit (.int _) => true
      | _ => false
  | .litS .., v => match v with
      | .lit (.str _) => true
      | _ => false
  | .litC .., v => match v with
      | .lit (.char _) => true
      | _ => false
  | .tuple _ ps, v => match v with
      | .con c vs => c == tupleTag ps.length && fitsAll env ps vs
      | _ => false
  | .list _ ps, v => fitsList env ps v
  | .cons _ h t, v => match v with
      | .con "Nil" [] => true
      | .con "Cons" [hd, tl] => h.fits env hd && t.fits env tl
      | _ => false
  | .con _ c ps, v => match v with
      | .con c' vs => builtBy env c c' vs.length && (c' != c || fitsAll env ps vs)
      | .record c' fields =>
          isRecordConName env c' && (c' != c || fitsFields env (recordLabels env c) ps fields)
      | _ => false
  | .as _ _ inner, v => inner.fits env v

def fitsAll (env : TypeEnv) : List TPat → List Value → Bool
  | [], [] => true
  | p :: ps, v :: vs => p.fits env v && fitsAll env ps vs
  | _, _ => false

def fitsList (env : TypeEnv) : List TPat → Value → Bool
  | [], v => match v with
      | .con "Nil" [] => true
      | .con "Cons" [_, _] => true
      | _ => false
  | p :: ps, v => match v with
      | .con "Nil" [] => true
      | .con "Cons" [hd, tl] => p.fits env hd && fitsList env ps tl
      | _ => false

def fitsFields (env : TypeEnv) : List String → List TPat → List (String × Value) → Bool
  | l :: ls, p :: ps, fields =>
      (fields.lookup l).any (p.fits env) && fitsFields env ls ps fields
  | _, _, _ => true

end

attribute [grind =] TPat.matches matchesAll matchesList matchesFields TPat.parts partsAll
  partsList partsFields TPat.fits fitsAll fitsList fitsFields

end Wok.TypeChecking

namespace Wok.IR

open Wok.Interp

/-! ### Patterns of the match compiler -/

mutual

def MPat.matches : MPat → Value → Bool
  | .var .., _ => true
  | .lit _ l, v => match v with
      | .lit l' => l' == l
      | _ => false
  | .con _ c ps, v => match v with
      | .con c' vs => c' == c && MPat.matchesAll ps vs
      | _ => false
  | .as _ _ p, v => p.matches v

def MPat.matchesAll : List MPat → List Value → Bool
  | [], [] => true
  | p :: ps, v :: vs => p.matches v && MPat.matchesAll ps vs
  | _, _ => false

end

mutual

def MPat.parts : MPat → Value → List (String × Value)
  | .var _ mv, v => mv.toList.map (·, v)
  | .lit .., _ => []
  | .con _ _ ps, v => match v with
      | .con _ vs => MPat.partsAll ps vs
      | _ => []
  | .as _ x p, v => (x, v) :: p.parts v

def MPat.partsAll : List MPat → List Value → List (String × Value)
  | p :: ps, v :: vs => p.parts v ++ MPat.partsAll ps vs
  | _, _ => []

end

mutual

/-- The variables of a pattern. -/
def MPat.vars : MPat → List String
  | .var _ mv => mv.toList
  | .lit .. => []
  | .con _ _ ps => MPat.varsAll ps
  | .as _ x p => x :: p.vars

def MPat.varsAll : List MPat → List String
  | [] => []
  | p :: ps => p.vars ++ MPat.varsAll ps

end

mutual

/-- Every constructor pattern has as many fields as the oracle says. -/
def MPat.wellFormed (oracle : ConOracle) : MPat → Bool
  | .var .. => true
  | .lit .. => true
  | .con _ c ps => ps.length == oracle.coArity c && MPat.wellFormedAll oracle ps
  | .as _ _ p => p.wellFormed oracle

def MPat.wellFormedAll (oracle : ConOracle) : List MPat → Bool
  | [] => true
  | p :: ps => p.wellFormed oracle && MPat.wellFormedAll oracle ps

end

mutual

/-- The value is of the pattern's type as far as the pattern looks, in the terms
of the oracle. -/
def MPat.fits (oracle : ConOracle) : MPat → Value → Bool
  | .var .., _ => true
  | .lit .., _ => true
  | .con _ c ps, v => match v with
      | .con c' vs =>
          vs.length == oracle.coArity c' && (oracle.coSiblings c).all (·.contains c') &&
            (c' != c || MPat.fitsAll oracle ps vs)
      | _ => false
  | .as _ _ p, v => p.fits oracle v

def MPat.fitsAll (oracle : ConOracle) : List MPat → List Value → Bool
  | [], [] => true
  | p :: ps, v :: vs => p.fits oracle v && MPat.fitsAll oracle ps vs
  | _, _ => false

end

attribute [grind =] MPat.matches MPat.matchesAll MPat.parts MPat.partsAll MPat.vars MPat.varsAll
  MPat.wellFormed MPat.wellFormedAll MPat.fits MPat.fitsAll peelCol wildBindings patVars

end Wok.IR

namespace Wok.Spec.Match

open Wok.IR Wok.Interp
open Wok.TypeChecking (TPat TypeEnv)

/-! ### What a lowered `case` has to do -/

section Machine

variable (prims : PrimTable) (globals : Globals) (serial : Nat)

/-- Transitions between configurations. -/
def Steps : Config → Config → Prop :=
  Relation.ReflTransGen fun c c' => transition prims globals serial c = .ok (.config c')

/-- Transitions from one `case` to the next. -/
def TreeSteps : Config → Config → Prop :=
  Relation.ReflTransGen fun c c' => (∃ a alts sc k, c = .eval (.case_ a alts) sc k) ∧
    transition prims globals serial c = .ok (.config c')

/-- The run ends with the error of a `case` none of whose alternatives matches. -/
def Fails (c : Config) : Prop :=
  ∃ c' msg, Steps prims globals serial c c' ∧
    transition prims globals serial c' = fail (.nonExhaustiveCase msg)

end Machine

section

variable {prims : PrimTable} {globals : Globals} {serial : Nat} {c c' c'' : Config}

theorem Steps.refl (c : Config) : Steps prims globals serial c c :=
  Relation.ReflTransGen.refl

theorem Steps.head (h : transition prims globals serial c = .ok (.config c'))
    (h' : Steps prims globals serial c' c'') : Steps prims globals serial c c'' :=
  Relation.ReflTransGen.head h h'

theorem Steps.trans (h : Steps prims globals serial c c')
    (h' : Steps prims globals serial c' c'') : Steps prims globals serial c c'' :=
  Relation.ReflTransGen.trans h h'

/-- A stuck configuration that a run reaches is the only one. -/
theorem Steps.unique (h : Steps prims globals serial c c')
    (h' : Steps prims globals serial c c'')
    (hd : ∀ d, transition prims globals serial c' ≠ .ok (.config d))
    (hd' : ∀ d, transition prims globals serial c'' ≠ .ok (.config d)) : c' = c'' := by
  refine Wok.Lib.eq_of_stuck (fun c a b ha hb => ?_) h h' hd hd'
  rw [ha] at hb
  cases hb
  rfl

theorem TreeSteps.refl (c : Config) : TreeSteps prims globals serial c c :=
  Relation.ReflTransGen.refl

theorem TreeSteps.head {a : Atom} {alts : List Alt} {sc : Scope} {k : Kont}
    (h : transition prims globals serial (.eval (.case_ a alts) sc k) = .ok (.config c'))
    (h' : TreeSteps prims globals serial c' c'') :
    TreeSteps prims globals serial (.eval (.case_ a alts) sc k) c'' :=
  Relation.ReflTransGen.head ⟨⟨a, alts, sc, k, rfl⟩, h⟩ h'

theorem TreeSteps.trans (h : TreeSteps prims globals serial c c')
    (h' : TreeSteps prims globals serial c' c'') : TreeSteps prims globals serial c c'' :=
  Relation.ReflTransGen.trans h h'

theorem TreeSteps.steps (h : TreeSteps prims globals serial c c') :
    Steps prims globals serial c c' :=
  Relation.ReflTransGen.mono (fun _ _ hs => hs.2) c c' h

/-- A tree leads to one leaf at most. -/
theorem TreeSteps.unique (h : TreeSteps prims globals serial c c')
    (h' : TreeSteps prims globals serial c c'')
    (hd : ∀ a alts sc k d, c' = .eval (.case_ a alts) sc k →
      transition prims globals serial c' ≠ .ok (.config d))
    (hd' : ∀ a alts sc k d, c'' = .eval (.case_ a alts) sc k →
      transition prims globals serial c'' ≠ .ok (.config d)) : c' = c'' := by
  refine Wok.Lib.eq_of_stuck (fun c a b ha hb => ?_) h h' ?_ ?_
  · rw [ha.2] at hb
    cases hb.2
    rfl
  · rintro d ⟨⟨a, alts, sc, k, heq⟩, hstep⟩
    exact hd a alts sc k d heq hstep
  · rintro d ⟨⟨a, alts, sc, k, heq⟩, hstep⟩
    exact hd' a alts sc k d heq hstep

theorem Fails.of_steps (h : Steps prims globals serial c c')
    (h' : Fails prims globals serial c') : Fails prims globals serial c := by
  rcases h' with ⟨d, msg, hd, herr⟩
  exact ⟨d, msg, h.trans hd, herr⟩

end

/-! ### What a decision tree has to do -/

section Tree

variable (prims : PrimTable) (globals : Globals) (serial : Nat)

def Resolves (sc : Scope) : List Atom → List Value → Prop :=
  List.Forall₂ fun a v => resolveAtom prims globals sc a = .ok v

def rowMatches (vs : List Value) (r : Row) : Bool := MPat.matchesAll r.pats vs

/-- The tree comes to the jump of the row's clause; each parameter of its join is
passed the part of the values that its variable stands for. -/
def JumpsTo (r : Row) (vs : List Value) (k : Kont) (c : Config) : Prop :=
  ∃ sc' args ws, TreeSteps prims globals serial c (.eval (.jump r.join args) sc' k) ∧
    resolveAtoms prims globals sc' args = .ok ws ∧
    List.Forall₂ (fun x w => (x, w) ∈ MPat.partsAll r.pats vs) r.order ws

def ReachesFailLeaf (k : Kont) (c : Config) : Prop :=
  ∃ sc', TreeSteps prims globals serial c (.eval failLeaf sc' k)

end Tree

/-- The identities an atom mentions were minted before `n`. -/
def AtomBelow (n : Int) (a : Atom) : Prop := ∀ u ∈ atomVars a, u.id < n

/-- The names in scope were minted before `n`. -/
def ScopeBelow (n : Int) (ctx : ElabCtx) : Prop :=
  ∀ x nm, ctx.scope.lookup x = some nm → nm.uniq.id < n

/-- A row as the elaborator makes it: a pattern for each scrutinee, constructors
with as many fields as the oracle says, and no parameter but the patterns'
variables. -/
structure Clause (oracle : ConOracle) (width : Nat) (r : Row) : Prop where
  width : r.pats.length = width
  wellFormed : MPat.wellFormedAll oracle r.pats = true
  subst : r.subst = []
  order : ∀ x ∈ r.order, x ∈ MPat.varsAll r.pats

/-- The scopes agree on all that was minted before `n`. -/
structure AgreeBelow (n : Int) (sc sc' : Scope) : Prop where
  env : ∀ u : Unique, u.id < n → sc'.env.lookup u = sc.env.lookup u
  joins : ∀ j : JoinId, j.uniq.id < n → sc'.joins.lookup j = sc.joins.lookup j

theorem AgreeBelow.refl (n : Int) (sc : Scope) : AgreeBelow n sc sc :=
  ⟨fun _ _ => rfl, fun _ _ => rfl⟩

theorem AgreeBelow.trans {n : Int} {sc sc' sc'' : Scope} (h : AgreeBelow n sc sc')
    (h' : AgreeBelow n sc' sc'') : AgreeBelow n sc sc'' :=
  ⟨fun u hu => (h'.env u hu).trans (h.env u hu), fun j hj => (h'.joins j hj).trans (h.joins j hj)⟩

theorem AgreeBelow.mono {n m : Int} {sc sc' : Scope} (hnm : n ≤ m) (h : AgreeBelow m sc sc') :
    AgreeBelow n sc sc' :=
  ⟨fun u hu => h.env u (by omega), fun j hj => h.joins j (by omega)⟩

theorem AtomBelow.mono {n m : Int} {a : Atom} (hnm : n ≤ m) (h : AtomBelow n a) :
    AtomBelow m a :=
  fun u hu => by
    have := h u hu
    omega

/-- `ctx'` is `ctx` with new names for the variables `xs`, minted from `n` on and
before `m`. -/
structure Extends (xs : List String) (ctx ctx' : ElabCtx) (n m : Int) : Prop where
  supply : n ≤ m
  below : ScopeBelow m ctx'
  fresh : ∀ x nm, ctx'.scope.lookup x = some nm →
    ctx.scope.lookup x = some nm ∨ n ≤ nm.uniq.id
  free : ∀ x, x ∉ xs → ctx'.scope.lookup x = ctx.scope.lookup x
  env : ctx'.env = ctx.env
  globals : ctx'.globals = ctx.globals
  prims : ctx'.prims = ctx.prims

/-- The names that `ctx'` has for the variables `xs` hold parts of the value, and
nothing older than `n` has changed. -/
structure Binds (xs : List String) (parts : List (String × Value)) (ctx' : ElabCtx) (n : Int)
    (sc sc' : Scope) : Prop where
  bound : ∀ x ∈ xs, ∃ nm w, ctx'.scope.lookup x = some nm ∧
    sc'.env.lookup nm.uniq = some w ∧ (x, w) ∈ parts
  agree : AgreeBelow n sc sc'

theorem ScopeBelow.mono {n m : Int} {ctx : ElabCtx} (hnm : n ≤ m) (h : ScopeBelow n ctx) :
    ScopeBelow m ctx :=
  fun x nm hx => Int.lt_of_lt_of_le (h x nm hx) hnm

theorem Extends.refl {n : Int} {ctx : ElabCtx} (h : ScopeBelow n ctx) :
    Extends [] ctx ctx n n :=
  ⟨le_rfl, h, fun _ _ hx => .inl hx, fun _ _ => rfl, rfl, rfl, rfl⟩

theorem Extends.trans {xs ys : List String} {ctx ctx' ctx'' : ElabCtx} {n m l : Int}
    (hml : m ≤ l) (h : Extends xs ctx ctx' n m) (h' : Extends ys ctx' ctx'' n l) :
    Extends (xs ++ ys) ctx ctx'' n l where
  supply := h.supply.trans hml
  below := h'.below
  fresh x nm hx := by
    rcases h'.fresh x nm hx with hx | hid
    · exact h.fresh x nm hx
    · exact .inr hid
  free x hx := by
    rw [List.mem_append, not_or] at hx
    exact (h'.free x hx.2).trans (h.free x hx.1)
  env := h'.env.trans h.env
  globals := h'.globals.trans h.globals
  prims := h'.prims.trans h.prims

theorem Extends.mono {xs ys : List String} {ctx ctx' : ElabCtx} {n n' m : Int} (hn : n' ≤ n)
    (hxs : xs ⊆ ys) (h : Extends xs ctx ctx' n m) : Extends ys ctx ctx' n' m :=
  { h with
    supply := hn.trans h.supply
    fresh := fun x nm hx => (h.fresh x nm hx).imp_right hn.trans
    free := fun x hx => h.free x fun hmem => hx (hxs hmem) }

theorem Extends.insertLocal {n m : Int} {ctx : ElabCtx} (x : String) {nm : Name}
    (h : ScopeBelow m ctx) (hn : n ≤ nm.uniq.id) (hid : nm.uniq.id < m) :
    Extends [x] ctx (ctx.insertLocal x nm) n m where
  supply := hn.trans (Int.le_of_lt hid)
  below y nm' hy := by
    rw [ElabCtx.insertLocal, List.lookup_cons] at hy
    split at hy
    · cases hy
      exact hid
    · exact h y nm' hy
  fresh y nm' hy := by
    rw [ElabCtx.insertLocal, List.lookup_cons] at hy
    split at hy
    · cases hy
      exact .inr hn
    · exact .inl hy
  free y hy := by
    have hne : (y == x) = false := by simpa using hy
    rw [ElabCtx.insertLocal, List.lookup_cons, hne]
  env := rfl
  globals := rfl
  prims := rfl

theorem Binds.nil {ctx : ElabCtx} {n : Int} {sc sc' : Scope} (h : AgreeBelow n sc sc') :
    Binds [] [] ctx n sc sc' :=
  ⟨nofun, h⟩

/-- Bindings made one after the other: the later ones are in front. -/
theorem Binds.append {xs ys : List String} {ps qs : List (String × Value)}
    {ctx' ctx'' : ElabCtx} {n m : Int} {sc sc' sc'' : Scope} (hnm : n ≤ m)
    (h : Binds xs ps ctx' n sc sc') (hbelow : ScopeBelow m ctx')
    (hfree : ∀ x, x ∉ ys → ctx''.scope.lookup x = ctx'.scope.lookup x)
    (h' : Binds ys qs ctx'' m sc' sc'') :
    Binds (xs ++ ys) (ps ++ qs) ctx'' n sc sc'' where
  bound x hx := by
    by_cases hy : x ∈ ys
    · rcases h'.bound x hy with ⟨nm, w, hnm, hw, hpart⟩
      exact ⟨nm, w, hnm, hw, List.mem_append_right _ hpart⟩
    · rcases List.mem_append.mp hx with hx | hx
      · rcases h.bound x hx with ⟨nm, w, hnm, hw, hpart⟩
        refine ⟨nm, w, (hfree x hy).trans hnm, ?_, List.mem_append_left _ hpart⟩
        rw [h'.agree.env nm.uniq (hbelow x nm hnm)]
        exact hw
      · exact absurd hx hy
  agree := h.agree.trans (h'.agree.mono hnm)

theorem Binds.mono {xs ys : List String} {ps qs : List (String × Value)} {ctx : ElabCtx}
    {n : Int} {sc sc' : Scope} (hxs : ys ⊆ xs) (hps : ps ⊆ qs)
    (h : Binds xs ps ctx n sc sc') : Binds ys qs ctx n sc sc' where
  bound x hx := by
    rcases h.bound x (hxs hx) with ⟨nm, w, hnm, hw, hpart⟩
    exact ⟨nm, w, hnm, hw, hps hpart⟩
  agree := h.agree

/-- Bindings on top of a scope that agrees with an older one. -/
theorem Binds.rebase {xs : List String} {ps : List (String × Value)} {ctx : ElabCtx}
    {n m : Int} {sc sc' sc'' : Scope} (hnm : n ≤ m) (hagree : AgreeBelow n sc sc')
    (h : Binds xs ps ctx m sc' sc'') : Binds xs ps ctx n sc sc'' :=
  ⟨h.bound, hagree.trans (h.agree.mono hnm)⟩

/-- A new name is bound: everything older is as before, and so are the names made
after it. -/
theorem Binds.insertLocal {xs : List String} {parts : List (String × Value)}
    {ctx ctx' : ElabCtx} {n m : Int} {sc sc' : Scope} {b : Binder} (x : String) (v : Value)
    (hb : binderUnique b = ⟨n⟩) (hctx : ScopeBelow n ctx) (hext : Extends xs ctx ctx' (n + 1) m)
    (h : Binds xs parts ctx' (n + 1) sc sc') :
    Binds (x :: xs) ((x, v) :: parts) (ctx'.insertLocal x b.name) n sc
      { sc' with env := bindBinder b v sc'.env } where
  bound y hy := by
    rw [ElabCtx.insertLocal, List.lookup_cons]
    by_cases hyx : y = x
    · subst hyx
      refine ⟨b.name, v, by rw [beq_self_eq_true], ?_, List.mem_cons_self⟩
      rw [bindBinder, List.lookup_cons, binderUnique, beq_self_eq_true]
    · rw [beq_false_of_ne hyx]
      rcases List.mem_cons.mp hy with hy | hy
      · exact absurd hy hyx
      · rcases h.bound y hy with ⟨nm, w, hnm, hw, hpart⟩
        have hne : nm.uniq ≠ ⟨n⟩ := by
          intro heq
          rcases hext.fresh y nm hnm with hold | hnew
          · have := hctx y nm hold
            rw [heq] at this
            exact Int.lt_irrefl n this
          · rw [heq] at hnew
            exact absurd hnew (Int.not_le.mpr (Int.lt_add_one_iff.mpr le_rfl))
        refine ⟨nm, w, hnm, ?_, List.mem_cons_of_mem _ hpart⟩
        rw [bindBinder, List.lookup_cons, hb, beq_false_of_ne hne]
        exact hw
  agree := by
    refine (h.agree.mono (Int.le_add_one le_rfl)).trans ⟨fun u hu => ?_, fun _ _ => rfl⟩
    have hne : u ≠ ⟨n⟩ := by
      rintro rfl
      exact Int.lt_irrefl n hu
    rw [bindBinder, List.lookup_cons, hb, beq_false_of_ne hne]

def patNames (p : TPat) : List String := (patVars p).map (·.1)

/-- The run comes to the body of the alternative, elaborated where the pattern's
variables are in scope, with these bound to the parts of `v`. -/
def RunsBody (prims : PrimTable) (globals : Globals) (serial : Nat) (alt : Alternative)
    (tk : TailK) (v : Value) (ctx : ElabCtx) (n : Int) (sc : Scope) (k : Kont) (c : Config) :
    Prop :=
  ∃ ctx' m e m' sc', alt.body tk ctx' m = .ok (e, m') ∧
    Extends (patNames alt.pat) ctx ctx' n m ∧
    Binds (patNames alt.pat) (alt.pat.parts ctx.env v) ctx' n sc sc' ∧
    Steps prims globals serial c (.eval e sc' k)

/-- A `case` with these patterns, run on `v`, runs the body of the first
alternative that matches, whatever the bodies are, and fails when none does. -/
def CaseRuns (env : TypeEnv) (pats : List TPat) (v : Value) : Prop :=
  ∀ prims globals serial alts tk sa ctx n e n' sc k,
    alts.map Alternative.pat = pats → ctx.env = env →
    elabCase tk alts sa ctx n = .ok (e, n') →
    resolveAtom prims globals sc sa = .ok v → AtomBelow n sa → ScopeBelow n ctx →
    match alts.find? fun alt => alt.pat.matches env v with
    | some alt => RunsBody prims globals serial alt tk v ctx n sc k (.eval e sc k)
    | none => Fails prims globals serial (.eval e sc k)

/-! ### What the flat route does -/

mutual

/-- Matching tests a constructor where the value is a record, or comes to a pattern
with fields for a positional constructor that has the name of a record constructor:
the lowering projects fields there and tests a constructor without fields. -/
def hitsRecord (env : TypeEnv) : TPat → Value → Bool
  | .tuple _ ps, v => match v with
      | .con _ vs => anyHitsRecord env ps vs
      | _ => false
  | .cons _ h t, v => match v with
      | .con _ [hd, tl] => hitsRecord env h hd || hitsRecord env t tl
      | _ => false
  | .con _ c ps, v => match v with
      | .con c' vs => c' == c && (isRecordConName env c && !ps.isEmpty || anyHitsRecord env ps vs)
      | .record .. => true
      | _ => false
  | .as _ _ inner, v => hitsRecord env inner v
  | _, _ => false

def anyHitsRecord (env : TypeEnv) : List TPat → List Value → Bool
  | p :: ps, v :: vs => hitsRecord env p v || anyHitsRecord env ps vs
  | _, _ => false

end

/-- The machine's test of the outermost constructor or literal of the pattern. -/
def headAccepts (env : TypeEnv) : TPat → Value → Bool
  | .litI _ i, .lit l => l == .int i
  | .litS _ s, .lit l => l == .str s
  | .litC _ c, .lit l => l == .char c
  | .litI .., _ => false
  | .litS .., _ => false
  | .litC .., _ => false
  | .tuple _ ps, .con c vs => c == tupleTag ps.length && vs.length == ps.length
  | .tuple .., _ => false
  | .list .., .con c vs => c == "Nil" && vs.isEmpty
  | .list .., _ => false
  | .cons .., .con c vs => c == "Cons" && vs.length == 2
  | .cons .., _ => false
  | .con _ c ps, .con c' vs =>
      c' == c && vs.length == if isRecordConName env c then 0 else ps.length
  | .con .., _ => false
  | .as _ _ inner, v => headAccepts env inner v
  | _, _ => true

/-- The first alternative that matches is also the first whose head accepts the
value, and matching it comes to no record. -/
def FlatFinds (env : TypeEnv) (pats : List TPat) (v : Value) : Prop :=
  ∃ earlier p later, pats = earlier ++ p :: later ∧
    p.matches env v = true ∧ hitsRecord env p v = false ∧
    ∀ q ∈ earlier, q.matches env v = false ∧ headAccepts env q v = false

mutual

/-- No list pattern with elements, which neither route lowers. -/
def lowerable : TPat → Bool
  | .list _ ps => ps.isEmpty
  | .tuple _ ps => allLowerable ps
  | .cons _ h t => lowerable h && lowerable t
  | .con _ _ ps => allLowerable ps
  | .as _ _ inner => lowerable inner
  | _ => true

def allLowerable : List TPat → Bool
  | [] => true
  | p :: ps => lowerable p && allLowerable ps

end

mutual

/-- Constructor patterns have the arity of their constructor, and no constructor
of the module has the tag of a tuple or of a list that the pattern tests. -/
def tagsAgree (env : TypeEnv) : TPat → Bool
  | .tuple _ ps => (env.lookupCon (tupleTag ps.length)).isNone && allTagsAgree env ps
  | .list _ ps =>
      (env.lookupCon "Nil").isNone && (env.lookupCon "Cons").isNone && allTagsAgree env ps
  | .cons _ h t =>
      (env.lookupCon "Nil").isNone && (env.lookupCon "Cons").isNone &&
        tagsAgree env h && tagsAgree env t
  | .con _ c ps => (env.lookupCon c).any (·.arity == ps.length) && allTagsAgree env ps
  | .as _ _ inner => tagsAgree env inner
  | _ => true

def allTagsAgree (env : TypeEnv) : List TPat → Bool
  | [] => true
  | p :: ps => tagsAgree env p && allTagsAgree env ps

end

/-- What the lowering of a `case` relies on: on the decision-tree route the tags and
that no record is tested, on the flat route that nothing matches or that its first
match is found. -/
def RunsWhen (env : TypeEnv) (pats : List TPat) (v : Value) : Prop :=
  if caseNeedsMatch env pats = true then
    ∀ p ∈ pats, tagsAgree env p = true ∧ hitsRecord env p v = false
  else (∀ p ∈ pats, p.matches env v = false) ∨ FlatFinds env pats v

attribute [grind =] hitsRecord anyHitsRecord headAccepts lowerable allLowerable tagsAgree
  allTagsAgree elabPat

end Wok.Spec.Match
