/-
Module: Wok.Spec.Classes
Purpose: What the registry of classes and instances is for: evidence that fits the
  constraint it resolves, and a registry in which class and type constructor, and
  dictionary name, each say which instance is meant.
Imports: Wok.TypeChecking.Class, Wok.TypeChecking.Solve
Trusted boundary: none
Main exports: registerAll, Explains, ResolvesSoundly, Abs.Ty.occurrences,
  Abs.Ty.ArrowFree, CType.PureArrows, Coherent, StepGuard, Built, OnlyMatch
-/
import Wok.TypeChecking.Class
import Wok.TypeChecking.Solve

namespace Wok.TypeChecking

variable {P E : Type}

/-! ### Registration -/

/-- Registers a class or an instance. -/
def register (env : Env E) (d : Abs.Decl P E) : Except ClassError (Env E) := do
  processInstanceDecl (← processClassDecl env d) d

def registerAll (env : Env E) (ds : List (Abs.Decl P E)) : Except ClassError (Env E) :=
  ds.foldlM register env

/-! ### Evidence -/

/-- Evidence for a constraint: a parameter in scope, or the dictionary of an instance that
matches the argument and fits it as said, with evidence for its context under the
substitution of the match. -/
inductive Explains (env : Env E) (params : Finset Nat)
    (Fits : Env.InstanceInfo E → CType → GenSub → Prop) : String → CType → Evidence → Prop where
  | param {cls : String} {i : Nat} (hmem : i ∈ params) :
      Explains env params Fits cls (.gen i) (.param (paramName cls i))
  | inst {i : Env.InstanceInfo E} {arg : CType} {sub : GenSub} {evs : List Evidence}
      (hmem : i ∈ env.instances) (hmatch : instMatch i.head arg = .ok sub)
      (hfits : Fits i arg sub) (hlen : evs.length = i.context.length)
      (hcontext : ∀ n (hn : n < i.context.length) (hn' : n < evs.length),
        Explains env params Fits i.context[n].cls (applySub sub i.context[n].arg) evs[n]) :
      Explains env params Fits i.cls arg
        (if evs.isEmpty then .global i.dictName else .app i.dictName evs)

/-- Under the substitution of the match, the instance's head is the argument. -/
def HeadFits (i : Env.InstanceInfo E) (arg : CType) (sub : GenSub) : Prop :=
  applySub sub i.head = arg

/-- Resolution of the constraint ends, and with evidence only if that is justified. -/
def ResolvesSoundly (env : Env E) (params : Finset Nat) (cls : String) (arg : CType) : Prop :=
  ∃ fuel r, (resolve env params fuel cls arg).run = some r ∧
    ∀ ev, r = .ok ev → Explains env params HeadFits cls arg ev

end Wok.TypeChecking

namespace Wok.Abs

mutual

/-- The type variables of a type as often as they occur in what is translated of it. -/
def Ty.occurrences : Ty → List String
  | .tQual _ body => body.occurrences
  | .tFun a b => a.occurrences ++ b.occurrences
  | .tWith a b _ => a.occurrences ++ b.occurrences
  | .tParen t => t.occurrences
  | .tList inner => inner.occurrences
  | .tTuple a others => a.occurrences ++ occurrencesAll others
  | .tVar v => [v.text]
  | .tApp f x => f.occurrences ++ x.occurrences
  | _ => []

def occurrencesAll : List Ty → List String
  | [] => []
  | t :: ts => t.occurrences ++ occurrencesAll ts

end

mutual

/-- There is no function type in the type. -/
def Ty.ArrowFree : Ty → Prop
  | .tQual _ body => body.ArrowFree
  | .tFun .. => False
  | .tWith .. => False
  | .tParen t => t.ArrowFree
  | .tList inner => inner.ArrowFree
  | .tTuple a others => a.ArrowFree ∧ ArrowFreeAll others
  | .tApp f x => f.ArrowFree ∧ x.ArrowFree
  | _ => True

def ArrowFreeAll : List Ty → Prop
  | [] => True
  | t :: ts => t.ArrowFree ∧ ArrowFreeAll ts

end

/-- The types that an instance is for. -/
def Decl.heads {P E : Type} : Decl P E → List Ty
  | .dInstance (.ihPlain _ args) _ => args
  | .dInstance (.ihCtx _ _ args) _ => args
  | .dClass .. => []

end Wok.Abs

namespace Wok.TypeChecking

mutual

/-- The function types in the type perform nothing. -/
def CType.PureArrows : CType → Prop
  | .con _ ts => PureArrowsAll ts
  | .arr a r b => a.PureArrows ∧ r = .rowEmpty ∧ b.PureArrows
  | _ => True

def PureArrowsAll : List CType → Prop
  | [] => True
  | t :: ts => t.PureArrows ∧ PureArrowsAll ts

end

/-! ### Coherence -/

/-- An instance is known by its class and its type constructor, and by the name of its
dictionary. -/
structure Coherent (env : Env E) : Prop where
  head : ∀ i ∈ env.instances, ∀ j ∈ env.instances, i.cls = j.cls →
    headCon i.head = headCon j.head → i = j
  dict : ∀ i ∈ env.instances, ∀ j ∈ env.instances, i.dictName = j.dictName → i = j

/-- What is asked of the steps that build an environment. -/
structure StepGuard (P E : Type) where
  register : Env E → Abs.Decl P E → Prop
  overlay : Env E → Env E → Prop

/-- The environments that accepted registrations and overlays build from the empty one.
The other namespaces may change at will. -/
inductive Built [DecidableEq E] (G : StepGuard P E) : Env E → Prop where
  | empty : Built G emptyEnv
  | register {env env' : Env E} {d : Abs.Decl P E} (h : Built G env)
      (hguard : G.register env d) (haccept : register env d = .ok env') : Built G env'
  | overlay {e₁ e₂ env : Env E} (h₁ : Built G e₁) (h₂ : Built G e₂)
      (hguard : G.overlay e₁ e₂) (haccept : overlayEnvs e₁ e₂ = .ok env) : Built G env
  | other {env env' : Env E} (h : Built G env) (hsame : env'.instances = env.instances) :
      Built G env'

def anyStep : StepGuard P E := ⟨fun _ _ => True, fun _ _ => True⟩

/-- An instance is registered under a dictionary name that is not taken, and where two
environments are laid over each other, the dictionary names that both have are of instances
that both have. -/
def dictsApart : StepGuard P E where
  register env d := ∀ i ∈ env.instances, instanceDictName d ≠ .ok i.dictName
  overlay e₁ e₂ := ∀ i ∈ e₁.instances, ∀ j ∈ e₂.instances, i.dictName = j.dictName → i = j

/-- The instance is the one of its class at the argument's type constructor, and the one of
its dictionary name. -/
def OnlyMatch (env : Env E) (i : Env.InstanceInfo E) (arg : CType) (_ : GenSub) : Prop :=
  (∀ j ∈ env.instances, j.cls = i.cls → headCon j.head = headCon arg → j = i) ∧
    ∀ j ∈ env.instances, j.dictName = i.dictName → j = i

end Wok.TypeChecking
