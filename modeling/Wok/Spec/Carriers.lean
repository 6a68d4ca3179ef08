/-
Module: Wok.Spec.Carriers
Purpose: Which type constructors hold a carrier, and the environments of a program, each
  module's closed as it is loaded beside the same one never closed.
Imports: Wok.Spec.Oracle, Wok.TypeChecking.CarrierClosure, Wok.TypeChecking.ConArgs
Trusted boundary: none
Main exports: Contains, Holds, DeclaredCarrier, DeclaredAffine, HoldsLeast, Typed, Loads
-/
import Wok.Spec.Oracle
import Wok.TypeChecking.CarrierClosure
import Wok.TypeChecking.ConArgs

namespace Wok.Spec.Carriers

open Wok.TypeChecking

variable {E : Type}

/-- The type constructor occurs in the type outside of function types. -/
inductive Contains (m : String) : CType → Prop
  | head {args : List CType} : Contains m (.con (.user m) args)
  | arg {c : TyCon} {args : List CType} {t : CType} : t ∈ args → Contains m t →
      Contains m (.con c args)
  | row {tag : String} {row : CType} : Contains m row → Contains m (.record tag row)
  | field {l : String} {t rest : CType} : Contains m t → Contains m (.rowExtend l t rest)
  | rest {l : String} {t rest : CType} : Contains m rest → Contains m (.rowExtend l t rest)

/-- A positional constructor of `n` has a field that contains `m`. -/
def Holds (env : Env E) (n m : String) : Prop := ∃ t ∈ fieldTysOf env n, Contains m t

def DeclaredCarrier (env : Env E) (n : String) : Prop :=
  ∃ info, lookupTyCon n env = some info ∧ info.carrier = true

def DeclaredAffine (env : Env E) (n : String) : Prop :=
  ∃ info, lookupTyCon n env = some info ∧ info.carrier = true ∧ info.affine = true

/-- The least set that contains the base and every type constructor that holds a member. -/
def HoldsLeast (env : Env E) (base : String → Prop) (S : Set String) : Prop :=
  IsLeast {T : Set String | (∀ n, base n → n ∈ T) ∧ ∀ n m, Holds env n m → m ∈ T → n ∈ T} S

/-- Each argument type comes of the translation of a written one, after the type constructors
have been registered. -/
def Typed (env : Env E) (ds : List DataDecl) : Prop :=
  ∀ env₁, registerTyCons env ds = .ok env₁ → ∀ d ∈ ds, ∀ defs, d.conDefs = some defs →
    ∀ name args, ConDef.conDef name args ∈ defs → ∀ t ∈ args,
      ∃ ps ty, translateConArg env₁ ps ty = .ok t

variable [DecidableEq E]

/-- The environments of a program: to the left never closed, to the right closed at any points
on the way. A pass for effects, foreign members, classes or values leaves the type
constructors and the constructors as they are. -/
inductive Loads : Env E → Env E → Prop
  | seed {env : Env E} : env.cons = [] →
      (∀ t ti, lookupTyCon t env = some ti → ti.cons = []) → Loads env env
  | other {raw closed raw' closed' : Env E} : Loads raw closed →
      raw'.cons = raw.cons → raw'.tyCons = raw.tyCons →
      closed'.cons = closed.cons → closed'.tyCons = closed.tyCons → Loads raw' closed'
  | decls {raw closed raw' closed' : Env E} {ds : List DataDecl} : Loads raw closed →
      Typed raw ds → processDataDecls raw ds = .ok raw' → processDataDecls closed ds = .ok closed' →
      Loads raw' closed'
  | overlay {raw₁ closed₁ raw₂ closed₂ raw closed : Env E} : Loads raw₁ closed₁ →
      Loads raw₂ closed₂ → overlayEnvs raw₁ raw₂ = .ok raw →
      overlayEnvs closed₁ closed₂ = .ok closed → Loads raw closed
  | close {raw closed : Env E} : Loads raw closed → Loads raw (carrierClosure closed)

/-- Every declaration of one program is one of the other. -/
structure PartOf (env whole : Env E) : Prop where
  cons : ∀ k ci, lookupCon k env = some ci → lookupCon k whole = some ci
  tyCons : ∀ n info, lookupTyCon n env = some info → lookupTyCon n whole = some info

end Wok.Spec.Carriers
