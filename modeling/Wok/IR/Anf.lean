/-
Module: Wok.IR.Anf
Purpose: The A-normal-form Core language that both interpreters run.
Imports: Mathlib.Data.List.Dedup, Mathlib.Data.List.Sort, Wok.IR.Name,
  Wok.TypeChecking.Types
Trusted boundary: none
Main exports: Atom, Rhs, Expr, Alt, Handler, OpArm, CoreModule, Expr.freeJumps,
  Handler.freeJumps, UniqueSet, freeVarsExpr
-/
import Mathlib.Data.List.Dedup
import Mathlib.Data.List.Sort
import Wok.IR.Name
import Wok.TypeChecking.Types

namespace Wok.IR

open Wok.TypeChecking (CType)

/-- A term binder with the closed type the elaborator gave it. -/
structure Binder where
  name : Name
  type : CType
  deriving Repr, Inhabited

/-- The identity a binder binds. -/
def binderUnique (b : Binder) : Unique := b.name.uniq

inductive Lit where
  | int (n : Int)
  | str (s : String)
  | char (c : Char)
  | unit
  deriving Repr, DecidableEq, Inhabited

/-- Trivial, effect-free values: call arguments, constructor fields, scrutinees
and jump arguments. `prim` carries the qualified identity of an `extern`. -/
inductive Atom where
  | var (n : Name)
  | lit (l : Lit)
  | prim (modName name : String)
  deriving Repr, Inhabited

/-- An integer binder. -/
def Binder.u64 (hint : String) (i : Int) : Binder := ⟨⟨hint, ⟨i⟩⟩, .con .u64 []⟩

/-- The variable that `Binder.u64 hint i` binds. -/
def Atom.local (hint : String) (i : Int) : Atom := .var ⟨hint, ⟨i⟩⟩

def Atom.int (n : Int) : Atom := .lit (.int n)

def Atom.unit : Atom := .lit .unit

mutual

/-- Value-producing computations: the right-hand side of a strict `let`. -/
inductive Rhs where
  | atom (a : Atom)
  | app (f : Atom) (args : List Atom)
  | con (tag : String) (args : List Atom)
  | lam (params : List Binder) (body : Expr)
  | op (inst : Option Atom) (label op : String) (args : List Atom)
  | record (name : String) (fields : List (String × Atom))
  | proj (label : String) (a : Atom)
  | makeHandler (h : Handler)
  | reuseCon (token : Atom) (tag : String) (args : List Atom)
  | foreignCall (lib sym : String) (args : List Atom)

/-- Block and control structure. -/
inductive Expr where
  | ret (a : Atom)
  | let_ (b : Binder) (rhs : Rhs) (body : Expr)
  | letRec (defs : List Def) (body : Expr)
  | case_ (a : Atom) (alts : List Alt)
  | letJoin (j : JoinId) (params : List Binder) (jbody body : Expr)
  | jump (j : JoinId) (args : List Atom)
  | handle (body : Expr) (h : Handler)
  | installHandler (a : Atom) (self : Option Binder) (body : Expr)

/-- One function of a mutually recursive group. -/
structure Def where
  name : Binder
  params : List Binder
  body : Expr

inductive Alt where
  | con (tag : String) (binders : List Binder) (body : Expr)
  | lit (l : Lit) (body : Expr)
  | default (body : Expr)

/-- A handler: its return arm, its operation arms, the join its arms deliver to
when it stands in value position, its parameter and its self-instance binder. -/
structure Handler where
  retBinder : Binder
  retBody : Expr
  ops : List OpArm
  answerJoin : Option JoinId
  param : Option Binder
  self : Option Binder

structure OpArm where
  label : String
  op : String
  args : List Binder
  resume : Binder
  body : Expr

end

instance : Inhabited Expr := ⟨.ret (.lit .unit)⟩
instance : Inhabited Rhs := ⟨.atom (.lit .unit)⟩

structure TopBind where
  name : Name
  params : List Binder
  body : Expr

structure CoreModule where
  binds : List TopBind

/-! ### Free join labels

The joins an expression may jump to without binding them itself. Function bodies
are left out: a call starts with no join in scope. -/

mutual

/-- Join labels that a run of the expression can look up in its own scope. -/
def Expr.freeJumps : Expr → List JoinId
  | .ret _ => []
  | .let_ _ _ body => body.freeJumps
  | .letRec _ body => body.freeJumps
  | .case_ _ alts => altsFreeJumps alts
  | .letJoin j _ jbody body =>
      (jbody.freeJumps ++ body.freeJumps).filter (· ≠ j)
  | .jump j _ => [j]
  | .handle body h => body.freeJumps ++ h.freeJumps
  | .installHandler _ _ body => body.freeJumps

/-- Free join labels of case alternatives. -/
def altsFreeJumps : List Alt → List JoinId
  | [] => []
  | alt :: alts => alt.freeJumps ++ altsFreeJumps alts

def Alt.freeJumps : Alt → List JoinId
  | .con _ _ body => body.freeJumps
  | .lit _ body => body.freeJumps
  | .default body => body.freeJumps

/-- Free join labels of a handler's return arm and operation arms. -/
def Handler.freeJumps : Handler → List JoinId
  | ⟨_, retBody, ops, _, _, _⟩ => retBody.freeJumps ++ armsFreeJumps ops

/-- Free join labels of operation arms. -/
def armsFreeJumps : List OpArm → List JoinId
  | [] => []
  | arm :: arms => arm.freeJumps ++ armsFreeJumps arms

def OpArm.freeJumps : OpArm → List JoinId
  | ⟨_, _, _, _, body⟩ => body.freeJumps

end

/-- An alternative's free jumps are among those of its case. -/
theorem Alt.freeJumps_subset {alt : Alt} {alts : List Alt} (h : alt ∈ alts) :
    alt.freeJumps ⊆ altsFreeJumps alts := by
  induction alts with
  | nil => cases h
  | cons head tail ih =>
      intro j hj
      rw [altsFreeJumps]
      cases h with
      | head => exact List.mem_append_left _ hj
      | tail _ h => exact List.mem_append_right _ (ih h hj)

/-- An arm's free jumps are among those of its handler. -/
theorem OpArm.freeJumps_subset {arm : OpArm} {arms : List OpArm} (h : arm ∈ arms) :
    arm.freeJumps ⊆ armsFreeJumps arms := by
  induction arms with
  | nil => cases h
  | cons head tail ih =>
      intro j hj
      rw [armsFreeJumps]
      cases h with
      | head => exact List.mem_append_left _ hj
      | tail _ h => exact List.mem_append_right _ (ih h hj)

theorem Handler.ret_freeJumps_subset (h : Handler) :
    h.retBody.freeJumps ⊆ h.freeJumps := by
  cases h
  exact fun j hj => List.mem_append_left _ hj

theorem OpArm.freeJumps_eq (arm : OpArm) : arm.freeJumps = arm.body.freeJumps := by
  cases arm
  rfl

theorem Handler.arm_freeJumps_subset {h : Handler} {arm : OpArm} (harm : arm ∈ h.ops) :
    arm.body.freeJumps ⊆ h.freeJumps := by
  rw [← arm.freeJumps_eq]
  cases h
  exact fun j hj => List.mem_append_right _ (OpArm.freeJumps_subset harm hj)

@[simp] theorem Handler.freeJumps_self (h : Handler) (self : Option Binder) :
    { h with self := self }.freeJumps = h.freeJumps := by
  cases h
  rfl

/-! ### Free variables

Sets of identities are lists here; `UniqueSet.toAscList` orders one as the
source's `Set.toList` does. -/

abbrev UniqueSet := List Unique

namespace UniqueSet

def difference (s t : UniqueSet) : UniqueSet := s.filter (· ∉ t)

def intersection (s t : UniqueSet) : UniqueSet := s.filter (· ∈ t)

def delete (u : Unique) (s : UniqueSet) : UniqueSet := s.filter (· ≠ u)

/-- The elements in ascending order, each once. -/
def toAscList (s : UniqueSet) : List Unique :=
  s.dedup.insertionSort (·.id ≤ ·.id)

end UniqueSet

def atomVars : Atom → UniqueSet
  | .var n => [n.uniq]
  | .lit _ => []
  | .prim .. => []

def atomsVars (as : List Atom) : UniqueSet := as.flatMap atomVars

mutual

def freeVarsRhs : Rhs → UniqueSet
  | .atom a => atomVars a
  | .app f args => atomsVars (f :: args)
  | .con _ args => atomsVars args
  | .lam params body => (freeVarsExpr body).difference (params.map binderUnique)
  | .op inst _ _ args => atomsVars (inst.toList ++ args)
  | .record _ fields => atomsVars (fields.map (·.2))
  | .proj _ a => atomVars a
  | .makeHandler h => freeVarsHandler h
  | .reuseCon token _ args => atomVars token ++ atomsVars args
  | .foreignCall _ _ args => atomsVars args

def freeVarsExpr : Expr → UniqueSet
  | .ret a => atomVars a
  | .let_ b rhs body =>
      freeVarsRhs rhs ++ (freeVarsExpr body).delete (binderUnique b)
  | .letRec defs body =>
      (freeVarsExpr body ++ freeVarsDefs defs).difference
        (defs.map fun d => binderUnique d.name)
  | .case_ a alts => atomVars a ++ freeVarsAlts alts
  | .letJoin _ params jbody body =>
      (freeVarsExpr jbody).difference (params.map binderUnique) ++ freeVarsExpr body
  | .jump _ args => atomsVars args
  -- the self binder of a named install is in scope in the body only
  | .installHandler a self body =>
      atomVars a ++
        match self with
        | some b => (freeVarsExpr body).delete (binderUnique b)
        | none => freeVarsExpr body
  -- a handle consumes its parameter from the enclosing scope
  | .handle body h => freeVarsExpr body ++ freeVarsHandler h ++ h.param.toList.map binderUnique

/-- Free variables of the members of a recursive group, less their parameters. -/
def freeVarsDefs : List Def → UniqueSet
  | [] => []
  | d :: defs => freeVarsDef d ++ freeVarsDefs defs

def freeVarsDef : Def → UniqueSet
  | ⟨_, params, body⟩ => (freeVarsExpr body).difference (params.map binderUnique)

def freeVarsAlts : List Alt → UniqueSet
  | [] => []
  | alt :: alts => freeVarsAlt alt ++ freeVarsAlts alts

def freeVarsAlt : Alt → UniqueSet
  | .con _ bs body => (freeVarsExpr body).difference (bs.map binderUnique)
  | .lit _ body => freeVarsExpr body
  | .default body => freeVarsExpr body

/-- Free variables of a handler's arms, from inside: without its parameter and
its self binder. -/
def freeVarsHandler : Handler → UniqueSet
  | ⟨retBinder, retBody, ops, _, param, self⟩ =>
      ((freeVarsExpr retBody).delete (binderUnique retBinder) ++ freeVarsArms ops).difference
        ((param.toList ++ self.toList).map binderUnique)

def freeVarsArms : List OpArm → UniqueSet
  | [] => []
  | arm :: arms => freeVarsArm arm ++ freeVarsArms arms

def freeVarsArm : OpArm → UniqueSet
  | ⟨_, _, args, resume, body⟩ =>
      (freeVarsExpr body).difference ((resume :: args).map binderUnique)

end

end Wok.IR
