/-
Module: Wok.TypeChecking.Scheme
Purpose: Equality of closed types, type schemes, class constraints and the evidence that
  discharges them.
Imports: Wok.TypeChecking.Unify
Trusted boundary: none
Main exports: CType.beq, Constraint, Scheme, mkScheme, Evidence
-/
import Wok.TypeChecking.Unify

namespace Wok.TypeChecking

mutual

/-- Equality of closed types. -/
def CType.beq : CType → CType → Bool
  | .con c ts, .con d us => c = d && CType.beqAll ts us
  | .arr a r b, .arr a' r' b' => a.beq a' && r.beq r' && b.beq b'
  | .record t r, .record u s => t = u && r.beq s
  | .rowEmpty, .rowEmpty => true
  | .rowExtend l t r, .rowExtend m u s => l = m && t.beq u && r.beq s
  | .gen i, .gen j => i = j
  | _, _ => false

def CType.beqAll : List CType → List CType → Bool
  | [], [] => true
  | t :: ts, u :: us => t.beq u && CType.beqAll ts us
  | _, _ => false

end

mutual

theorem CType.beq_iff (t u : CType) : t.beq u = true ↔ t = u := by
  cases t with
  | con c ts => cases u <;> simp [CType.beq, CType.beqAll_iff ts]
  | arr a r b =>
      cases u <;>
        simp [CType.beq, CType.beq_iff a, CType.beq_iff r, CType.beq_iff b, and_assoc]
  | record tag r => cases u <;> simp [CType.beq, CType.beq_iff r]
  | rowEmpty => cases u <;> simp [CType.beq]
  | rowExtend l t r =>
      cases u <;> simp [CType.beq, CType.beq_iff t, CType.beq_iff r, and_assoc]
  | gen i => cases u <;> simp [CType.beq]

theorem CType.beqAll_iff (ts us : List CType) : CType.beqAll ts us = true ↔ ts = us := by
  cases ts with
  | nil => cases us <;> simp [CType.beqAll]
  | cons t ts =>
      cases us with
      | nil => simp [CType.beqAll]
      | cons u us =>
          simp only [CType.beqAll, Bool.and_eq_true, List.cons.injEq]
          rw [CType.beq_iff t, CType.beqAll_iff ts]

end

instance : DecidableEq CType := fun t u => decidable_of_iff _ (CType.beq_iff t u)

/-- A single class constraint, such as `Eq a`. -/
structure Constraint where
  cls : String
  arg : CType
  deriving DecidableEq

/-- A type scheme, with its class constraints. -/
structure Scheme where
  vars : List (Nat × Kind)
  constraints : List Constraint
  body : CType
  deriving DecidableEq

/-- A scheme without class constraints. -/
def mkScheme (vs : List (Nat × Kind)) (body : CType) : Scheme := ⟨vs, [], body⟩

/-- What discharges a class constraint. -/
inductive Evidence where
  | global (dict : String)
  | param (name : String)
  | app (dict : String) (args : List Evidence)
  deriving Repr, Inhabited

end Wok.TypeChecking
