/-
Module: Wok.Spec.Unify
Purpose: Substitutions, types up to the order of distinct labels in rows, what a state
  of the type variables stands for, and unifiers.
Imports: Wok.TypeChecking.Unify, Mathlib.Data.String.Basic
Trusted boundary: none
Main exports: Ty.vars, Ty.subst, Ty.depth, Ty.norm, Ty.Same, Deep, Realizes,
  Unifier, LevelSafe
-/
import Mathlib.Data.String.Basic
import Wok.TypeChecking.Unify

namespace Wok.TypeChecking

/-! ### Types -/

mutual

/-- The variables of a type. -/
def Ty.vars : Ty → List Nat
  | .con _ ts => Ty.varsList ts
  | .arr a r b => a.vars ++ (r.vars ++ b.vars)
  | .record _ row => row.vars
  | .rowEmpty => []
  | .rowExtend _ t rest => t.vars ++ rest.vars
  | .var v => [v]

def Ty.varsList : List Ty → List Nat
  | [] => []
  | t :: ts => t.vars ++ Ty.varsList ts

end

mutual

def Ty.subst (θ : Nat → Ty) : Ty → Ty
  | .con c ts => .con c (Ty.substList θ ts)
  | .arr a r b => .arr (a.subst θ) (r.subst θ) (b.subst θ)
  | .record tag row => .record tag (row.subst θ)
  | .rowEmpty => .rowEmpty
  | .rowExtend l t rest => .rowExtend l (t.subst θ) (rest.subst θ)
  | .var v => θ v

def Ty.substList (θ : Nat → Ty) : List Ty → List Ty
  | [] => []
  | t :: ts => t.subst θ :: Ty.substList θ ts

end

mutual

/-- The depth of a type whose variables have the depths `d`. -/
def Ty.depth (d : Nat → Nat) : Ty → Nat
  | .con _ ts => Ty.depthList d ts + 1
  | .arr a r b => max (a.depth d) (max (r.depth d) (b.depth d)) + 1
  | .record _ row => row.depth d + 1
  | .rowEmpty => 0
  | .rowExtend _ t rest => max (t.depth d) (rest.depth d) + 1
  | .var v => d v

def Ty.depthList (d : Nat → Nat) : List Ty → Nat
  | [] => 0
  | t :: ts => max (t.depth d) (Ty.depthList d ts)

end

/-- Put a field before the first one whose label is not smaller: after the fields with
smaller labels and before those with the same. -/
def insertField (l : String) (t : Ty) : Ty → Ty
  | .rowExtend l' t' rest =>
      if l ≤ l' then .rowExtend l t (.rowExtend l' t' rest)
      else .rowExtend l' t' (insertField l t rest)
  | row => .rowExtend l t row

mutual

/-- A type with every row sorted by label. Fields with the same label keep their
order. -/
def Ty.norm : Ty → Ty
  | .con c ts => .con c (Ty.normList ts)
  | .arr a r b => .arr a.norm r.norm b.norm
  | .record tag row => .record tag row.norm
  | .rowEmpty => .rowEmpty
  | .rowExtend l t rest => insertField l t.norm rest.norm
  | .var v => .var v

def Ty.normList : List Ty → List Ty
  | [] => []
  | t :: ts => t.norm :: Ty.normList ts

end

/-- Two types are the same up to the order of distinct labels in rows. -/
def Ty.Same (a b : Ty) : Prop := a.norm = b.norm

/-! ### States -/

/-- All the variables of a type have a cell. -/
def Ty.In (s : TCState) (t : Ty) : Prop := ∀ v ∈ t.vars, v < s.next

/-- The links of a state lead to types with cells, and no variable is linked to a type
that it is in: with `d` for the depths of the variables, a linked one is deeper than
the type. -/
structure Deep (d : Nat → Nat) (s : TCState) : Prop where
  linksIn : ∀ v t, v < s.next → s.cells v = .link t → t.In s
  depth : ∀ v t, v < s.next → s.cells v = .link t → t.depth d < d v

/-- The states of the type variables that a run can be in. -/
def TCState.WellFormed (s : TCState) : Prop := ∃ d, Deep d s

/-- `θ` is the substitution that a state stands for: a linked variable is what it is
linked to, with the links in that followed too; any other one is itself. -/
structure Realizes (θ : Nat → Ty) (s : TCState) : Prop where
  link : ∀ v t, v < s.next → s.cells v = .link t → θ v = t.subst θ
  free : ∀ v, (∀ t, v < s.next → s.cells v ≠ .link t) → θ v = .var v

/-- The kind of a variable that is not linked. -/
def TVar.kind? : TVar → Option Kind
  | .unbound _ _ k => some k
  | .rigid _ _ k => some k
  | .link _ => none

/-- Two types, neither a variable and the first one no row with a field, that have
different heads. -/
def differ : Ty → Ty → Bool
  | .var _, _ => false
  | _, .var _ => false
  | .con c₁ ts₁, .con c₂ ts₂ => !decide (c₁ = c₂ ∧ ts₁.length = ts₂.length)
  | .arr .., .arr .. => false
  | .record .., .record .. => false
  | .rowEmpty, .rowEmpty => false
  | .rowExtend .., _ => false
  | _, _ => true

/-! ### Unifiers -/

/-- `θ` agrees with the links of the state, keeps rigid variables and makes the two
types the same. -/
structure Unifier (θ : Nat → Ty) (s : TCState) (a b : Ty) : Prop where
  link : ∀ v t, v < s.next → s.cells v = .link t → (θ v).Same (t.subst θ)
  rigid : ∀ v u l k, v < s.next → s.cells v = .rigid u l k → θ v = .var v
  same : (a.subst θ).Same (b.subst θ)

/-- No unbound variable stands for a type with a rigid variable of a deeper level. -/
def LevelSafe (θ : Nat → Ty) (s : TCState) : Prop :=
  ∀ v u l k, v < s.next → s.cells v = .unbound u l k → ∀ w ∈ (θ v).vars, ∀ u' l' k',
    w < s.next → s.cells w = .rigid u' l' k' → l' ≤ l

attribute [grind =] Ty.subst Ty.substList insertField Ty.norm Ty.normList differ

end Wok.TypeChecking
