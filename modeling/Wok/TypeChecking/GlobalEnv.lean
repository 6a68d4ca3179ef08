/-
Module: Wok.TypeChecking.GlobalEnv
Purpose: The whole environment of a module: its namespaces, its class and instance
  registries, and the overlay of two environments.
Imports: Wok.FFI.Blessed, Wok.TypeChecking.Scheme
Trusted boundary: none
Main exports: Dict, Env, emptyEnv, overlayEnvs, lookupClass, lookupInstances,
  extendVar, extendClass, extendInstance
-/
import Wok.FFI.Blessed
import Wok.TypeChecking.Scheme

namespace Wok.TypeChecking

open Wok.FFI (ArgTransfer)

/-! ### Finite maps from names -/

/-- A finite map from names, as a list in key order. -/
abbrev Dict (α : Type) := List (String × α)

namespace Dict

variable {α : Type}

/-- `Map.insert`. -/
def insert (k : String) (v : α) : Dict α → Dict α
  | [] => [(k, v)]
  | (k', v') :: rest =>
      if k < k' then (k, v) :: (k', v') :: rest
      else if k = k' then (k, v) :: rest
      else (k', v') :: insert k v rest

/-- `Map.fromList`: the last entry of a name counts. -/
def fromList (entries : List (String × α)) : Dict α :=
  entries.foldl (fun m e => insert e.1 e.2 m) []

def member (k : String) (m : Dict α) : Bool := (m.lookup k).isSome

/-- `Map.union`, biased to the left. -/
def union (m₁ m₂ : Dict α) : Dict α := m₁.foldr (fun e m => insert e.1 e.2 m) m₂

/-- The names of both maps, at which the entries are as said. -/
def meet (m₁ m₂ : Dict α) (p : String → α → α → Bool) : List String :=
  m₁.filterMap fun (k, a) =>
    match m₂.lookup k with
    | some b => if p k a b then some k else none
    | none => none

theorem lookup_cons (k j : String) (v : α) (m : Dict α) :
    List.lookup j ((k, v) :: m) = if j = k then some v else m.lookup j := by
  rw [List.lookup_cons]
  by_cases hj : j = k
  · rw [if_pos hj, beq_iff_eq.mpr hj]
  · rw [if_neg hj, beq_eq_false_iff_ne.mpr hj]

theorem lookup_insert (k j : String) (v : α) (m : Dict α) :
    (insert k v m).lookup j = if j = k then some v else m.lookup j := by
  induction m with
  | nil => exact lookup_cons k j v []
  | cons e rest ih =>
      obtain ⟨k', v'⟩ := e
      rw [insert]
      split
      · exact lookup_cons k j v _
      · split
        · rename_i hk
          rw [lookup_cons, lookup_cons, ← hk]
          by_cases hj : j = k
          · rw [if_pos hj, if_pos hj]
          · rw [if_neg hj, if_neg hj, if_neg hj]
        · rename_i hk
          rw [lookup_cons, lookup_cons, ih]
          by_cases hj : j = k'
          · rw [if_pos hj, if_pos hj, if_neg fun h => hk (h.symm.trans hj)]
          · rw [if_neg hj, if_neg hj]

theorem lookup_foldl_insert (entries : List (String × α)) (m : Dict α) (j : String) :
    (entries.foldl (fun m e => insert e.1 e.2 m) m).lookup j =
      (entries.reverse.lookup j).or (m.lookup j) := by
  induction entries generalizing m with
  | nil => rfl
  | cons e entries ih =>
      obtain ⟨k, v⟩ := e
      rw [List.foldl_cons, ih, List.reverse_cons, List.lookup_append, Option.or_assoc,
        lookup_insert]
      congr 1
      rw [lookup_cons]
      by_cases hj : j = k
      · rw [if_pos hj, if_pos hj]
        rfl
      · rw [if_neg hj, if_neg hj]
        rfl

theorem lookup_fromList (entries : List (String × α)) (j : String) :
    (fromList entries).lookup j = entries.reverse.lookup j := by
  rw [fromList, lookup_foldl_insert]
  exact Option.or_none

theorem lookup_union (j : String) (m₁ m₂ : Dict α) :
    (union m₁ m₂).lookup j = (m₁.lookup j).or (m₂.lookup j) := by
  induction m₁ with
  | nil => rfl
  | cons e rest ih =>
      obtain ⟨k, v⟩ := e
      change (insert k v (union rest m₂)).lookup j = _
      rw [lookup_insert, ih, lookup_cons]
      by_cases hj : j = k
      · rw [if_pos hj, if_pos hj]
        rfl
      · rw [if_neg hj, if_neg hj]

theorem lookup_mapWithKey {β : Type} (f : String → α → β) (m : Dict α) (j : String) :
    List.lookup j (m.map fun (k, v) => (k, f k v)) = (m.lookup j).map (f j) := by
  induction m with
  | nil => rfl
  | cons e rest ih =>
      obtain ⟨k, v⟩ := e
      rw [List.map_cons, lookup_cons, lookup_cons, ih]
      by_cases hj : j = k
      · rw [if_pos hj, if_pos hj, hj]
        rfl
      · rw [if_neg hj, if_neg hj]

theorem lookup_isSome_iff (m : Dict α) (j : String) :
    (m.lookup j).isSome ↔ j ∈ m.map (·.1) := by
  induction m with
  | nil => simp
  | cons e rest ih =>
      obtain ⟨k, v⟩ := e
      rw [lookup_cons, List.map_cons, List.mem_cons]
      by_cases hj : j = k
      · simp [hj]
      · simp [hj, ih]

theorem meet_eq_nil {m₁ m₂ : Dict α} {p : String → α → α → Bool} (h : meet m₁ m₂ p = [])
    {k : String} {a b : α} (h₁ : m₁.lookup k = some a) (h₂ : m₂.lookup k = some b) :
    p k a b = false := by
  have hmem : (k, a) ∈ m₁ := by
    obtain ⟨l₁, l₂, rfl, -⟩ := List.lookup_eq_some_iff.mp h₁
    simp
  have hnone := List.filterMap_eq_nil_iff.mp h (k, a) hmem
  simp only [h₂] at hnone
  by_contra hp
  rw [if_pos (by simpa using hp)] at hnone
  cases hnone

end Dict

namespace Env

/-! ### Entries -/

structure ConInfo where
  scheme : Scheme
  arity : Nat
  tyCon : String
  deriving DecidableEq

structure TyConInfo where
  kind : Kind
  arity : Nat
  cons : List String
  carrier : Bool
  affine : Bool
  paramKinds : List Kind
  deriving DecidableEq

structure RecordConInfo where
  tag : String
  fields : List (String × CType)
  params : List (Nat × Kind)
  deriving DecidableEq

/-- An effect: its type parameters and its operations. -/
structure EffectInfo where
  params : List (Nat × Kind)
  ops : Dict Scheme
  deriving DecidableEq

/-- A class: its parameter, its methods' schemes, the bodies `E` of its defaults, and its
methods in source order. -/
structure ClassInfo (E : Type) where
  param : Nat × Kind
  methods : Dict Scheme
  defaults : Dict E
  methodNames : List String
  dictCon : String
  deriving DecidableEq

/-- An instance: its class, the type at its head, the constraints of its context, the name
of its dictionary and the bodies of its methods. -/
structure InstanceInfo (E : Type) where
  cls : String
  head : CType
  context : List Constraint
  dictName : String
  impls : Dict E
  deriving DecidableEq

structure ForeignMemberInfo where
  scheme : Scheme
  sym : String
  owned : Bool
  argTransfer : List ArgTransfer
  deriving DecidableEq

structure ForeignModuleInfo where
  lib : String
  free : Option String
  members : Dict ForeignMemberInfo
  deriving DecidableEq

end Env

/-- The environment of a module. `varOrigin` names the module that defines a variable. -/
structure Env (E : Type) where
  vars : Dict Scheme
  cons : Dict Env.ConInfo
  tyCons : Dict Env.TyConInfo
  recordCons : Dict Env.RecordConInfo
  effects : Dict Env.EffectInfo
  classes : Dict (Env.ClassInfo E)
  instances : List (Env.InstanceInfo E)
  foreignModules : Dict Env.ForeignModuleInfo
  varOrigin : Dict String
  qualifiers : Dict (String × Dict Scheme)

def emptyEnv {E : Type} : Env E := ⟨[], [], [], [], [], [], [], [], [], []⟩

/-! ### Look-up and extension -/

variable {E : Type}

def lookupCon (k : String) (e : Env E) : Option Env.ConInfo := e.cons.lookup k

def lookupTyCon (k : String) (e : Env E) : Option Env.TyConInfo := e.tyCons.lookup k

def lookupRecordCon (k : String) (e : Env E) : Option Env.RecordConInfo :=
  e.recordCons.lookup k

def lookupEffect (k : String) (e : Env E) : Option Env.EffectInfo := e.effects.lookup k

def lookupClass (k : String) (e : Env E) : Option (Env.ClassInfo E) := e.classes.lookup k

def lookupInstances (cls : String) (e : Env E) : List (Env.InstanceInfo E) :=
  e.instances.filter fun i => i.cls = cls

def extendVar (k : String) (v : Scheme) (e : Env E) : Env E :=
  { e with vars := e.vars.insert k v }

def extendClass (k : String) (v : Env.ClassInfo E) (e : Env E) : Env E :=
  { e with classes := e.classes.insert k v }

def lookupForeignModule (k : String) (e : Env E) : Option Env.ForeignModuleInfo :=
  e.foreignModules.lookup k

def extendForeignModule (k : String) (v : Env.ForeignModuleInfo) (e : Env E) : Env E :=
  { e with foreignModules := e.foreignModules.insert k v }

def extendInstance (i : Env.InstanceInfo E) (e : Env E) : Env E :=
  { e with instances := i :: e.instances }

/-! ### Overlay -/

/-- The namespaces of an environment. -/
inductive EnvNs where
  | var
  | con
  | tyCon
  | recordCon
  | effect
  | cls
  | foreignModule
  deriving Repr, DecidableEq

/-- The names that both maps hold with different entries. -/
def differing {α : Type} [DecidableEq α] (m₁ m₂ : Dict α) : List String :=
  m₁.meet m₂ fun _ a b => a ≠ b

/-- A shared variable clashes when its origins are known and differ, or its schemes
differ. -/
def varClash (e₁ e₂ : Env E) : List String :=
  e₁.vars.meet e₂.vars fun k a b =>
    (match e₁.varOrigin.lookup k, e₂.varOrigin.lookup k with
      | some o, some o' => decide (o ≠ o')
      | _, _ => false) || decide (a ≠ b)

/-- The left-biased union, unless a name has different entries. The instances are put
after each other and said once. The qualifiers of the right side are dropped. -/
def overlayEnvs [DecidableEq E] (e₁ e₂ : Env E) : Except (List (EnvNs × String)) (Env E) :=
  let clashes :=
    (varClash e₁ e₂).map (EnvNs.var, ·) ++
      (differing e₁.cons e₂.cons).map (EnvNs.con, ·) ++
      (differing e₁.tyCons e₂.tyCons).map (EnvNs.tyCon, ·) ++
      (differing e₁.recordCons e₂.recordCons).map (EnvNs.recordCon, ·) ++
      (differing e₁.effects e₂.effects).map (EnvNs.effect, ·) ++
      (differing e₁.classes e₂.classes).map (EnvNs.cls, ·) ++
      (differing e₁.foreignModules e₂.foreignModules).map (EnvNs.foreignModule, ·)
  match clashes with
  | [] => .ok
      { vars := e₁.vars.union e₂.vars
        cons := e₁.cons.union e₂.cons
        tyCons := e₁.tyCons.union e₂.tyCons
        recordCons := e₁.recordCons.union e₂.recordCons
        effects := e₁.effects.union e₂.effects
        classes := e₁.classes.union e₂.classes
        instances := (e₁.instances ++ e₂.instances).eraseDups
        foreignModules := e₁.foreignModules.union e₂.foreignModules
        varOrigin := e₁.varOrigin.union e₂.varOrigin
        qualifiers := e₁.qualifiers }
  | _ => .error clashes

end Wok.TypeChecking
