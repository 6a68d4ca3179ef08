/-
Module: Wok.Spec.Coverage
Layer: Spec
Purpose: Types as far as patterns look into them, the values and patterns of a
  type, and what an exact coverage analysis says of a matrix.
Imports: Wok.Spec.Match
Trusted boundary: none
Main exports: Shape, Signature, Signature.HasType, Signature.PatType,
  Signature.Rich, CoverageExact, TreeAgrees
-/
import Wok.Spec.Match

namespace Wok.IR

mutual

/-- The literals that a pattern tests. -/
def MPat.lits : MPat → List Lit
  | .var .. => []
  | .con _ _ ps => MPat.litsAll ps
  | .lit _ l => [l]
  | .as _ _ p => p.lits

def MPat.litsAll : List MPat → List Lit
  | [] => []
  | p :: ps => p.lits ++ MPat.litsAll ps

end

attribute [grind =] MPat.lits MPat.litsAll

end Wok.IR

namespace Wok.Spec.Coverage

open Wok.IR Wok.Interp Wok.Spec.Match

/-- What the values of a type look like: constructors with the types of their
fields, literals of a kind, or values that no pattern takes apart. -/
inductive Shape (τ : Type) where
  | data (cons : List (String × List τ))
  | lits (kind : Lit → Prop)
  | other

/-- The declared types. -/
structure Signature (τ : Type) where
  shape : τ → Shape τ
  tags_nodup : ∀ t cons, shape t = .data cons → (cons.map (·.1)).Nodup

namespace Signature

variable {τ : Type} (sig : Signature τ)

inductive HasType : τ → Value → Prop
  | con {t : τ} {cons : List (String × List τ)} {c : String} {tys : List τ} {vs : List Value}
      (shape : sig.shape t = .data cons) (mem : (c, tys) ∈ cons)
      (fields : List.Forall₂ HasType tys vs) : HasType t (.con c vs)
  | lit {t : τ} {kind : Lit → Prop} {l : Lit} (shape : sig.shape t = .lits kind)
      (mem : kind l) : HasType t (.lit l)
  | other {t : τ} {v : Value} (shape : sig.shape t = .other) : HasType t v

/-- A pattern for values of a type. -/
inductive PatType : τ → MPat → Prop
  | var {t : τ} {ty : Wok.TypeChecking.CType} {x : Option String} : PatType t (.var ty x)
  | con {t : τ} {cons : List (String × List τ)} {ty : Wok.TypeChecking.CType} {c : String}
      {tys : List τ} {ps : List MPat} (shape : sig.shape t = .data cons) (mem : (c, tys) ∈ cons)
      (fields : List.Forall₂ PatType tys ps) : PatType t (.con ty c ps)
  | lit {t : τ} {kind : Lit → Prop} {ty : Wok.TypeChecking.CType} {l : Lit}
      (shape : sig.shape t = .lits kind) (mem : kind l) : PatType t (.lit ty l)
  | as {t : τ} {ty : Wok.TypeChecking.CType} {x : String} {p : MPat} (inner : PatType t p) :
      PatType t (.as ty x p)

/-- The oracle knows the declared constructors. -/
def Agrees (oracle : ConOracle) : Prop :=
  ∀ t cons c tys, sig.shape t = .data cons → (c, tys) ∈ cons →
    oracle.coArity c = tys.length ∧ oracle.coSiblings c = some (cons.map (·.1))

/-- Every type has a value, and every type with literals has one that none of `ls`
is. -/
structure Rich (ls : List Lit) : Prop where
  inhabited : ∀ t, ∃ v, sig.HasType t v
  fresh : ∀ t kind, sig.shape t = .lits kind → ∃ l, kind l ∧ l ∉ ls

/-- A matrix with columns of these types, whose clauses have distinct indices. -/
structure Typed (tys : List τ) (rows : List Row) : Prop where
  pats : ∀ r ∈ rows, List.Forall₂ sig.PatType tys r.pats
  index : (rows.map (·.index)).Nodup

end Signature

/-- The analysis says what is the case: which clauses are the first to match some
vector of values, and whether every vector is matched. -/
structure CoverageExact {τ : Type} (sig : Signature τ) (tys : List τ) (rows : List Row)
    (cov : Coverage) : Prop where
  exhaustive : cov.exhaustive = true ↔
    ∀ vs, List.Forall₂ sig.HasType tys vs → ∃ r ∈ rows, rowMatches vs r = true
  redundant : ∀ r ∈ rows, r.index ∈ cov.redundant ↔
    ∀ vs, List.Forall₂ sig.HasType tys vs → rows.find? (rowMatches vs) ≠ some r

/-- The scope of a tree whose scrutinees are variables. -/
def bindNames (names : List Name) (vs : List Value) : Scope :=
  ⟨bindBinders (names.map fun nm => ⟨nm, unitType⟩) vs [], []⟩

/-- The tree has the reachable leaves that the analysis reports: a failure leaf
unless the matrix is exhaustive, and the jump of a clause unless it is redundant. -/
structure TreeAgrees {τ : Type} (sig : Signature τ) (tys : List τ) (rows : List Row)
    (cov : Coverage) (names : List Name) (e : Expr) (prims : PrimTable) (globals : Globals)
    (serial : Nat) (k : Kont) : Prop where
  failLeaf : (∃ vs, List.Forall₂ sig.HasType tys vs ∧
    ReachesFailLeaf prims globals serial k (.eval e (bindNames names vs) k)) ↔
      cov.exhaustive = false
  jump : ∀ r ∈ rows, (∃ vs, List.Forall₂ sig.HasType tys vs ∧
    JumpsTo prims globals serial r vs k (.eval e (bindNames names vs) k)) ↔
      r.index ∉ cov.redundant

end Wok.Spec.Coverage
