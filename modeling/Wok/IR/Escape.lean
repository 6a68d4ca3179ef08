/-
Module: Wok.IR.Escape
Purpose: The variables an expression moves and the variables it drops, as far as
  the counted runtime reads them off a captured continuation, and the operation
  arms whose resumption does not escape.
Imports: Wok.IR.Anf
Trusted boundary: none
Main exports: isBoxedType, boxedBinder, escapingAtomsRhs, nonHeadOccs, dropTargets,
  m2bHandlerInFragmentStore
-/
import Wok.IR.Anf

namespace Wok.IR

open Wok.TypeChecking (CType)

def dupHint : String := "__rc_dup"

def dropHint : String := "__rc_drop"

def contCellNewKey : String × String := ("Control", "__cont_cell_new")

def contStoreKey : String × String := ("Control", "__cont_store")

def contTakeKey : String × String := ("Control", "__cont_take")

/-- Values of the type live in a counted cell; the others are stored in a slot. -/
def isBoxedType : CType → Bool
  | .con .u64 [] => false
  | .con .u32 [] => false
  | .con .char [] => false
  | .con .unit [] => false
  | .con .never [] => false
  | _ => true

def boxedBinder (b : Binder) : Bool := isBoxedType b.type

/-- The atoms of a right-hand side in an escaping position: every one but the
head of a call. An inserted dup or drop has none, and a lambda has one for each
of its captures. -/
def escapingAtomsRhs : Rhs → List Atom
  | .atom a => [a]
  | .app (.var h) args => if h.hint = dupHint ∨ h.hint = dropHint then [] else args
  | .app _ args => args
  | .con _ args => args
  | .makeHandler _ => []
  | .record _ fields => fields.map (·.2)
  | .proj _ a => [a]
  | .reuseCon _ _ args => args
  | .op inst _ _ args => inst.toList ++ args
  | .foreignCall _ _ args => args
  | .lam params body =>
      ((freeVarsExpr body).difference (params.map binderUnique)).toAscList.map
        fun u => .var ⟨"", u⟩

def nonHeadOccsRhs (rhs : Rhs) : UniqueSet := atomsVars (escapingAtomsRhs rhs)

mutual

/-- The variables in a position other than the head of a call. -/
def nonHeadOccs : Expr → UniqueSet
  | .ret a => atomVars a
  | .let_ _ rhs body => nonHeadOccsRhs rhs ++ nonHeadOccs body
  | .letRec defs body => nonHeadOccs body ++ nonHeadOccsDefs defs
  | .case_ a alts => atomVars a ++ nonHeadOccsAlts alts
  | .letJoin _ _ jbody body => nonHeadOccs jbody ++ nonHeadOccs body
  | .jump _ args => atomsVars args
  | .handle body _ => nonHeadOccs body
  | .installHandler _ _ body => nonHeadOccs body

def nonHeadOccsDefs : List Def → UniqueSet
  | [] => []
  | d :: defs => nonHeadOccsDef d ++ nonHeadOccsDefs defs

def nonHeadOccsDef : Def → UniqueSet
  | ⟨_, _, body⟩ => nonHeadOccs body

def nonHeadOccsAlts : List Alt → UniqueSet
  | [] => []
  | alt :: alts => nonHeadOccsAlt alt ++ nonHeadOccsAlts alts

def nonHeadOccsAlt : Alt → UniqueSet
  | .con _ _ body => nonHeadOccs body
  | .lit _ body => nonHeadOccs body
  | .default body => nonHeadOccs body

end

/-- The variable that a right-hand side drops, if it is exactly `__rc_drop x`. -/
def dropOf : Rhs → UniqueSet
  | .app (.var h) [.var x] => if h.hint = dropHint then [x.uniq] else []
  | _ => []

mutual

/-- The variables that an inserted drop names directly. The bodies of lambdas,
recursive functions and handler arms do not run as part of the expression. -/
def dropTargets : Expr → UniqueSet
  | .ret _ => []
  | .let_ _ rhs body => dropOf rhs ++ dropTargets body
  | .letRec _ body => dropTargets body
  | .case_ _ alts => dropTargetsAlts alts
  | .letJoin _ _ jbody body => dropTargets jbody ++ dropTargets body
  | .jump _ _ => []
  | .handle body _ => dropTargets body
  | .installHandler _ _ body => dropTargets body

def dropTargetsAlts : List Alt → UniqueSet
  | [] => []
  | alt :: alts => dropTargetsAlt alt ++ dropTargetsAlts alts

def dropTargetsAlt : Alt → UniqueSet
  | .con _ _ body => dropTargets body
  | .lit _ body => dropTargets body
  | .default body => dropTargets body

end

/-! ### Resumptions -/

/-- The cell that a `__cont_store` of the resumption parks it in. -/
def contStoreCell (u : Unique) : Rhs → Option Atom
  | .app (.prim m name) [cell, .var k] =>
      if (m, name) = contStoreKey ∧ k.uniq = u then some cell else none
  | _ => none

/-- The atoms of a right-hand side in which a resumption escapes; with the
exemption a `__cont_store` of it counts for its cell only. -/
def resumeEscAtoms (exemptStore : Bool) (u : Unique) (r : Rhs) : List Atom :=
  match exemptStore, contStoreCell u r with
  | true, some cell => [cell]
  | _, _ => escapingAtomsRhs r

mutual

/-- An operation arm's resumption occurs in an escaping position of its body. -/
def m2bResumeEscapesWalk (exemptStore : Bool) (u : Unique) : Expr → Bool
  | .ret a => u ∈ atomVars a
  | .jump _ args => u ∈ atomsVars args
  | .let_ _ r body =>
      u ∈ atomsVars (resumeEscAtoms exemptStore u r) || m2bResumeEscapesWalk exemptStore u body
  | .letRec defs body =>
      m2bResumeEscapesDefs exemptStore u defs || m2bResumeEscapesWalk exemptStore u body
  | .case_ a alts => u ∈ atomVars a || m2bResumeEscapesAlts exemptStore u alts
  | .letJoin _ _ jbody body =>
      m2bResumeEscapesWalk exemptStore u jbody || m2bResumeEscapesWalk exemptStore u body
  | .handle body h =>
      m2bResumeEscapesWalk exemptStore u body || m2bResumeEscapesHandler exemptStore u h
  | .installHandler _ _ body => m2bResumeEscapesWalk exemptStore u body

def m2bResumeEscapesDefs (exemptStore : Bool) (u : Unique) : List Def → Bool
  | [] => false
  | d :: defs => m2bResumeEscapesDef exemptStore u d || m2bResumeEscapesDefs exemptStore u defs

def m2bResumeEscapesDef (exemptStore : Bool) (u : Unique) : Def → Bool
  | ⟨_, _, body⟩ => m2bResumeEscapesWalk exemptStore u body

def m2bResumeEscapesAlts (exemptStore : Bool) (u : Unique) : List Alt → Bool
  | [] => false
  | alt :: alts => m2bResumeEscapesAlt exemptStore u alt || m2bResumeEscapesAlts exemptStore u alts

def m2bResumeEscapesAlt (exemptStore : Bool) (u : Unique) : Alt → Bool
  | .con _ _ body => m2bResumeEscapesWalk exemptStore u body
  | .lit _ body => m2bResumeEscapesWalk exemptStore u body
  | .default body => m2bResumeEscapesWalk exemptStore u body

def m2bResumeEscapesHandler (exemptStore : Bool) (u : Unique) : Handler → Bool
  | ⟨_, retBody, ops, _, _, _⟩ =>
      m2bResumeEscapesWalk exemptStore u retBody || m2bResumeEscapesArms exemptStore u ops

def m2bResumeEscapesArms (exemptStore : Bool) (u : Unique) : List OpArm → Bool
  | [] => false
  | arm :: arms => m2bResumeEscapesArm exemptStore u arm || m2bResumeEscapesArms exemptStore u arms

def m2bResumeEscapesArm (exemptStore : Bool) (u : Unique) : OpArm → Bool
  | ⟨_, _, _, _, body⟩ => m2bResumeEscapesWalk exemptStore u body

end

def m2bResumeEscapes (resume : Binder) (body : Expr) : Bool :=
  m2bResumeEscapesWalk false (binderUnique resume) body

/-- As `m2bResumeEscapes`, with the stored resumption exempt. -/
def m2bResumeEscapesStoreRoute (resume : Binder) (body : Expr) : Bool :=
  m2bResumeEscapesWalk true (binderUnique resume) body

/-- No arm's resumption escapes, other than into a continuation cell. -/
def m2bHandlerInFragmentStore (h : Handler) : Bool :=
  h.ops.all fun oa => ! m2bResumeEscapesStoreRoute oa.resume oa.body

end Wok.IR
