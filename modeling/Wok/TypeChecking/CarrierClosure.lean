/-
Module: Wok.TypeChecking.CarrierClosure
Purpose: The closure of the carrier flags of an environment under containment.
Imports: Wok.Lib.Saturation, Wok.TypeChecking.Signature
Trusted boundary: none
Main exports: mentions, fieldTysOf, fixpoint, carrierClosure
-/
import Wok.Lib.Saturation
import Wok.TypeChecking.Signature

namespace Wok.TypeChecking

variable {E : Type}

mutual

/-- The type contains one of the type constructors, outside of function types. A quantified
slot contains none. -/
def mentions (s : Finset String) : CType → Bool
  | .con (.user n) args => decide (n ∈ s) || mentionsAny s args
  | .con _ args => mentionsAny s args
  | .record _ row => mentions s row
  | .rowExtend _ ft rest => mentions s ft || mentions s rest
  | .arr .. => false
  | .rowEmpty => false
  | .gen _ => false

def mentionsAny (s : Finset String) : List CType → Bool
  | [] => false
  | t :: ts => mentions s t || mentionsAny s ts

end

/-- The declared field types of a positional constructor. -/
def positionalFields (env : Env E) (cn : String) : List CType :=
  match lookupCon cn env with
  | some ci => conFieldTys ci.arity ci.scheme.body
  | none => []

/-- The field types of the positional constructors of a type constructor. -/
def fieldTysOf (env : Env E) (n : String) : List CType :=
  match lookupTyCon n env with
  | none => []
  | some info => info.cons.flatMap (positionalFields env)

def tyConNames (env : Env E) : Finset String := (env.tyCons.map (·.1)).toFinset

/-- The type constructors whose entry is as said. -/
def tyConsWhere (p : Env.TyConInfo → Bool) (env : Env E) : Finset String :=
  (tyConNames env).filter fun n => (lookupTyCon n env).any p

/-- A type constructor that is not in the set but has a field that mentions a member. -/
def joins (env : Env E) (s : Finset String) (n : String) : Bool :=
  decide (n ∉ s) && (fieldTysOf env n).any (mentions s)

def growSet (env : Env E) (s : Finset String) : Finset String :=
  Lib.grow (tyConNames env) (joins env) s

/-- Both sets grow until neither does. -/
def fixpoint (env : Env E) (cs as : Finset String) : Finset String × Finset String :=
  let cs' := growSet env cs
  let as' := growSet env as
  if _hsize : cs'.card = cs.card ∧ as'.card = as.card then (cs, as) else fixpoint env cs' as'
  termination_by (tyConNames env \ cs).card + (tyConNames env \ as).card
  decreasing_by
    have hcs : (tyConNames env \ growSet env cs).card ≤ (tyConNames env \ cs).card :=
      Finset.card_le_card (Lib.sdiff_grow_subset cs)
    have has : (tyConNames env \ growSet env as).card ≤ (tyConNames env \ as).card :=
      Finset.card_le_card (Lib.sdiff_grow_subset as)
    rcases not_and_or.mp _hsize with hlt | hlt
    · have hless : (tyConNames env \ growSet env cs).card < (tyConNames env \ cs).card :=
        Lib.card_lt_of_grow cs hlt
      omega
    · have hless : (tyConNames env \ growSet env as).card < (tyConNames env \ as).card :=
        Lib.card_lt_of_grow as hlt
      omega

/-- The declared carriers, and the affine ones among them. -/
def carrierSets (env : Env E) : Finset String × Finset String :=
  fixpoint env (tyConsWhere (·.carrier) env) (tyConsWhere (fun i => i.carrier && i.affine) env)

/-- The entry of a type constructor, marked if it is a carrier. -/
def markTyCon (carriers affines : Finset String) (n : String) (info : Env.TyConInfo) :
    Env.TyConInfo :=
  if n ∈ carriers then { info with carrier := true, affine := decide (n ∈ affines) } else info

def carrierClosure (env : Env E) : Env E :=
  let sets := carrierSets env
  { env with tyCons := env.tyCons.map fun (n, info) => (n, markTyCon sets.1 sets.2 n info) }

end Wok.TypeChecking
