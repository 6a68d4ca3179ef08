/-
Module: Wok.TypeChecking.Solve
Purpose: The constraint resolver: from a class and a type to the evidence, or a failure.
Imports: Mathlib.Data.Finset.Basic, Wok.TypeChecking.GlobalEnv
Trusted boundary: none
Main exports: SolveError, paramName, instMatch, applySub, resolve
-/
import Mathlib.Data.Finset.Basic
import Wok.TypeChecking.GlobalEnv

namespace Wok.TypeChecking

inductive SolveError where
  | noInst (cls : String) (t : CType)
  | ambiguous (cls : String)
  deriving DecidableEq

/-- The name of an evidence parameter. -/
def paramName (cls : String) (i : Nat) : String := "d$" ++ cls ++ "$" ++ toString i

/-- A substitution for quantified variables. The first entry of a variable counts, so
that the union of two is their concatenation. -/
abbrev GenSub := List (Nat × CType)

mutual

/-- Matches an instance head against a type. -/
def instMatch : CType → CType → Except SolveError GenSub
  | .gen i, t => .ok [(i, t)]
  | .con c₁ as, .con c₂ bs =>
      if c₁ = c₂ && as.length = bs.length then instMatches as bs
      else .error (.noInst "<instMatch>" (.con c₂ bs))
  | .arr a₁ _ b₁, .arr a₂ _ b₂ => return (← instMatch a₁ a₂) ++ (← instMatch b₁ b₂)
  | .record t₁ _, .record t₂ r₂ =>
      if t₁ = t₂ then .ok [] else .error (.noInst "<instMatch>" (.record t₂ r₂))
  | _, actual => .error (.noInst "<instMatch>" actual)

/-- The union of the matches of two lists, as far as both go. -/
def instMatches : List CType → List CType → Except SolveError GenSub
  | a :: as, b :: bs => return (← instMatch a b) ++ (← instMatches as bs)
  | _, _ => .ok []

end

mutual

/-- Rows are left as they are. -/
def applySub (m : GenSub) : CType → CType
  | .gen i => (m.lookup i).getD (.gen i)
  | .con c ts => .con c (applySubs m ts)
  | .arr a r b => .arr (applySub m a) r (applySub m b)
  | .record t r => .record t r
  | .rowEmpty => .rowEmpty
  | .rowExtend l t r => .rowExtend l t r

def applySubs (m : GenSub) : List CType → List CType
  | [] => []
  | t :: ts => applySub m t :: applySubs m ts

end

/-- The head is an application of the type constructor. -/
def headConEq : CType → TyCon → Bool
  | .con hc _, c => hc = c
  | _, _ => false

variable {E : Type}

/-- Resolves a class constraint; `none` is out of fuel. -/
def resolve (env : Env E) (params : Finset Nat) :
    Nat → String → CType → ExceptT SolveError Option Evidence
  | 0, _, _ => ExceptT.mk none
  | fuel + 1, cls, arg =>
      match arg with
      | .gen i => if i ∈ params then return .param (paramName cls i) else throw (.ambiguous cls)
      | .con c _ =>
          match (lookupInstances cls env).filter fun inst => headConEq inst.head c with
          | inst :: _ => do
              let sub ← ExceptT.mk (some (instMatch inst.head arg))
              let evs ← inst.context.mapM fun ctx =>
                resolve env params fuel ctx.cls (applySub sub ctx.arg)
              return if evs.isEmpty then .global inst.dictName else .app inst.dictName evs
          | [] => throw (.noInst cls arg)
      | _ => throw (.noInst cls arg)

end Wok.TypeChecking
