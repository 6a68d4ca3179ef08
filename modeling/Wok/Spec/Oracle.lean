/-
Module: Wok.Spec.Oracle
Purpose: Which type the head of a pattern belongs to and which constructors that type has, and
  what an oracle of constructors should answer.
Imports: Wok.IR.Elaborate, Wok.TypeChecking.DataDecls
Trusted boundary: none
Main exports: Declared, HeadType, headOf, ConOf, Answers, Decides, Unshadowed
-/
import Wok.IR.Elaborate
import Wok.TypeChecking.DataDecls

namespace Wok.Spec.Oracle

open Wok.IR Wok.TypeChecking

variable {E : Type} [DecidableEq E]

/-- The environments that a program reaches: the first one, which has no constructors, those
after a pass that leaves the constructors alone, after the registration of declarations, and
the overlay of imported ones. -/
inductive Declared : Env E → Prop where
  | seed {env : Env E} : env.cons = [] →
      (∀ t ti, lookupTyCon t env = some ti → ti.cons = []) → Declared env
  | other {env env' : Env E} : Declared env → env'.cons = env.cons →
      (∀ t, (lookupTyCon t env').map (·.cons) = (lookupTyCon t env).map (·.cons)) → Declared env'
  | decls {env env' : Env E} {ds : List DataDecl} : Declared env →
      processDataDecls env ds = .ok env' → Declared env'
  | overlay {env₁ env₂ env : Env E} : Declared env₁ → Declared env₂ →
      overlayEnvs env₁ env₂ = .ok env → Declared env

/-- The types that constructor patterns are of. -/
inductive HeadType where
  | tuple (n : Nat)
  | list
  | user (tyCon : String)
  deriving DecidableEq, Repr

/-- The tag of a constructor pattern and the type it belongs to: a tuple or a list pattern to
the built-in type, a constructor application to the type that declares the constructor. -/
def headOf (env : TypeEnv) : TPat → Option (String × HeadType)
  | .tuple _ ps => some (tupleTag ps.length, .tuple ps.length)
  | .list _ [] => some ("Nil", .list)
  | .cons _ _ _ => some ("Cons", .list)
  | .con _ c _ => (env.lookupCon c).map fun ci => (c, .user ci.tyCon)
  | _ => none

/-- The constructors of a type, with their arities. -/
def ConOf (env : TypeEnv) : HeadType → String → Nat → Prop
  | .tuple n, c, arity => c = tupleTag n ∧ arity = n
  | .list, c, arity => c = "Nil" ∧ arity = 0 ∨ c = "Cons" ∧ arity = 2
  | .user t, c, arity => env.lookupCon c = some ⟨arity, t⟩

/-- The oracle gives the arity of the tag and all constructors of the type, each once. -/
def Answers (env : TypeEnv) (oracle : ConOracle) (ty : HeadType) (tag : String) : Prop :=
  ConOf env ty tag (oracle.coArity tag) ∧
    ∃ sibs, oracle.coSiblings tag = some sibs ∧ sibs.Nodup ∧
      ∀ c, c ∈ sibs ↔ ∃ arity, ConOf env ty c arity

/-- A column that begins with the tag counts as complete exactly when it has no literal and all
constructors of the type. -/
def Decides (env : TypeEnv) (oracle : ConOracle) (ty : HeadType) (tag : String) : Prop :=
  ∀ heads, completeHeads oracle (.con tag :: heads) = true ↔
    (∀ h ∈ heads, h.isLit = false) ∧
      ∀ c arity, ConOf env ty c arity → Head.con c ∈ Head.con tag :: heads

/-- The pattern is of a declared type, or its tag is not the name of a declared constructor,
or it is the name of one with the same arity, whose type has constructors of the same names. -/
def Unshadowed (env : TypeEnv) (ty : HeadType) (tag : String) : Prop :=
  (∃ t, ty = .user t) ∨ env.lookupCon tag = none ∨
    ∃ ci, env.lookupCon tag = some ci ∧ ConOf env ty tag ci.arity ∧
      ∀ c, (∃ arity, ConOf env (.user ci.tyCon) c arity) ↔ ∃ arity, ConOf env ty c arity

end Wok.Spec.Oracle
