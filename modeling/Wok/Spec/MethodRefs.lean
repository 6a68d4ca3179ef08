/-
Module: Wok.Spec.MethodRefs
Purpose: Which binder each name of an expression is under, the replacement of the free
  occurrences of some names, and the list of all occurrences.
Imports: Wok.TypeChecking.InstanceBindings
Trusted boundary: none
Main exports: runNames, groupNames, paramNames, Exp.subst, Occ, Exp.occs, Lexical, sibling,
  Apart
-/
import Wok.TypeChecking.InstanceBindings

namespace Wok.Abs

/-! ### Scopes -/

/-- The names that a declaration binds. -/
def LocalDecl.names : LocalDecl → List String
  | .ldEqn lhs _ _ => [TypeChecking.funLhsName lhs]
  | .ldSig name names _ => name.text :: names.map SigName.text
  | .ldPat p ps _ => patVarsAll (p :: ps)

/-- All names that a group binds; they are in scope of what follows the group. -/
def groupNames (ds : List LocalDecl) : List String := ds.flatMap LocalDecl.names

/-- The names bound up to the next pattern: equations are recursive, a pattern is not. -/
def runNames : List LocalDecl → List String
  | [] => []
  | .ldPat .. :: _ => []
  | .ldEqn lhs e wh :: ds => (LocalDecl.ldEqn lhs e wh).names ++ runNames ds
  | .ldSig name names ty :: ds => (LocalDecl.ldSig name names ty).names ++ runNames ds

/-- The scope of the declarations after `d`: a pattern binds from there on, and with it the
next run of equations. -/
def LocalDecl.scopeAfter (d : LocalDecl) (ds : List LocalDecl) (scope : List String) :
    List String :=
  match d with
  | .ldPat p ps _ => runNames ds ++ patVarsAll (p :: ps) ++ scope
  | _ => scope

def MaybeWhere.names : MaybeWhere → List String
  | .noWhere => []
  | .withWh ds => groupNames ds

/-- The state parameters of a handler: they are in scope of its arms, not of the first
values. -/
def paramNames : List HandlerArm → List String
  | [] => []
  | .hParam v _ :: arms => v.text :: paramNames arms
  | .hParamV v _ :: arms => v.text :: paramNames arms
  | _ :: arms => paramNames arms

/-! ### Replacement of free names -/

section Subst

variable (f : String → Option String)

/-- What a name is replaced by where the given names are bound. -/
def freeRef (scope : List String) (n : String) : Option String :=
  if n ∈ scope then none else f n

def VarId.subst (scope : List String) (v : VarId) : VarId :=
  match freeRef f scope v.text with
  | some s => TypeChecking.mkVarId s
  | none => v

def InfixOp.subst (scope : List String) : InfixOp → InfixOp
  | .ioBT v => .ioBT (v.subst f scope)
  | .ioSym op =>
      match freeRef f scope op.text with
      | some s => .ioBT (TypeChecking.mkVarId s)
      | none => .ioSym op

mutual

/-- The free occurrences of the names that `f` maps are replaced, in every form. -/
def Exp.subst (scope : List String) : Exp → Exp
  | .eVar v => .eVar (v.subst f scope)
  | .eParenOp op =>
      match freeRef f scope op.text with
      | some s => .eVar (TypeChecking.mkVarId s)
      | none => .eParenOp op
  | .eExpr h tails => .eExpr (h.subst scope) (substTails scope tails)
  | .eApp a b => .eApp (a.subst scope) (b.subst scope)
  | .eProj a v => .eProj (a.subst scope) v
  | .eProjC a c => .eProjC (a.subst scope) c
  | .eRecord c fs => .eRecord c (substFields scope fs)
  | .eRecordExt c a mt => .eRecordExt c (a.subst scope) (mt.subst scope)
  | .eParen a => .eParen (a.subst scope)
  | .eList xs => .eList (substExps scope xs)
  | .eTuple a xs => .eTuple (a.subst scope) (substExps scope xs)
  | .eLam ps a => .eLam ps (a.subst (atomVarsAll ps ++ scope))
  | .eLet ds a =>
      .eLet (substLocals (runNames ds ++ scope) ds) (a.subst (groupNames ds ++ scope))
  | .eCase a alts => .eCase (a.subst scope) (substAlts scope alts)
  | .eIf a b c => .eIf (a.subst scope) (b.subst scope) (c.subst scope)
  | .eWith arms a => .eWith (substArms scope (paramNames arms ++ scope) arms) (a.subst scope)
  | .eWithH h hs arms a =>
      .eWithH h hs (substArms scope (paramNames arms ++ scope) arms) (a.subst scope)
  | .eWithRun runner args a =>
      .eWithRun (runner.subst f scope) (substArgs scope args) (a.subst scope)
  | .eWithNamed self runner args a =>
      .eWithNamed self (runner.subst f scope) (substArgs scope args)
        (a.subst (self.text :: scope))
  | .eWithNamedH self c arms a =>
      .eWithNamedH self c (substArms scope (paramNames arms ++ scope) arms)
        (a.subst (self.text :: (paramNames arms ++ scope)))
  | .eHandlerV c arms => .eHandlerV c (substArms scope (paramNames arms ++ scope) arms)
  | .eHandleV h args a => .eHandleV (h.subst scope) (substArgs scope args) (a.subst scope)
  | .eHandleN self h args a =>
      .eHandleN self (h.subst scope) (substArgs scope args) (a.subst (self.text :: scope))
  | .eCon c => .eCon c
  | .eLitI i => .eLitI i
  | .eLitS s => .eLitS s
  | .eLitC c => .eLitC c
  | .eUnit => .eUnit

def InfixTail.subst (scope : List String) : InfixTail → InfixTail
  | .iTail op a => .iTail (op.subst f scope) (a.subst scope)

def RecordFieldExpr.subst (scope : List String) : RecordFieldExpr → RecordFieldExpr
  | .rfExpr v a => .rfExpr v (a.subst scope)

def MaybeTrailing.subst (scope : List String) : MaybeTrailing → MaybeTrailing
  | .tfNone => .tfNone
  | .tfSome fs => .tfSome (substFields scope fs)

def WithArg.subst (scope : List String) : WithArg → WithArg
  | .wrArg a => .wrArg (a.subst scope)

def LocalDecl.subst (scope : List String) : LocalDecl → LocalDecl
  | .ldEqn lhs a wh =>
      let inner := atomVarsAll (lhsAtomPats lhs) ++ scope
      .ldEqn lhs (a.subst (wh.names ++ inner)) (wh.subst inner)
  | .ldSig name names ty => .ldSig name names ty
  | .ldPat p ps a => .ldPat p ps (a.subst scope)

def MaybeWhere.subst (scope : List String) : MaybeWhere → MaybeWhere
  | .noWhere => .noWhere
  | .withWh ds => .withWh (substLocals (runNames ds ++ scope) ds)

def Alt.subst (scope : List String) : Alt → Alt
  | .altC p a wh =>
      let inner := p.vars ++ scope
      .altC p (a.subst (wh.names ++ inner)) (wh.subst inner)

/-- `outer` is the scope of the first values of state parameters. -/
def HandlerArm.subst (outer scope : List String) : HandlerArm → HandlerArm
  | .hArm c v ps a => .hArm c v ps (a.subst (atomVarsAll ps ++ scope))
  | .huArm v ps a => .huArm v ps (a.subst (atomVarsAll ps ++ scope))
  | .hOnceArm c v ps a => .hOnceArm c v ps (a.subst (atomVarsAll ps ++ scope))
  | .hOnceUArm v ps a => .hOnceUArm v ps (a.subst (atomVarsAll ps ++ scope))
  | .hRetArm p a => .hRetArm p (a.subst (p.vars ++ scope))
  | .hParam v a => .hParam v (a.subst outer)
  | .hParamV v a => .hParamV v (a.subst outer)

def substExps (scope : List String) : List Exp → List Exp
  | [] => []
  | a :: xs => a.subst scope :: substExps scope xs

def substTails (scope : List String) : List InfixTail → List InfixTail
  | [] => []
  | t :: ts => t.subst scope :: substTails scope ts

def substFields (scope : List String) : List RecordFieldExpr → List RecordFieldExpr
  | [] => []
  | fd :: fs => fd.subst scope :: substFields scope fs

def substArgs (scope : List String) : List WithArg → List WithArg
  | [] => []
  | arg :: args => arg.subst scope :: substArgs scope args

def substLocals (scope : List String) : List LocalDecl → List LocalDecl
  | [] => []
  | d :: ds => d.subst scope :: substLocals (d.scopeAfter ds scope) ds

def substAlts (scope : List String) : List Alt → List Alt
  | [] => []
  | alt :: alts => alt.subst scope :: substAlts scope alts

def substArms (outer scope : List String) : List HandlerArm → List HandlerArm
  | [] => []
  | arm :: arms => arm.subst outer scope :: substArms outer scope arms

end

end Subst

/-! ### Occurrences -/

/-- An occurrence of a name as a variable or an operator: is it under a binder of that name,
and is it within one of the forms `with f`, `with x = f`, `with x = E { .. }`, `handler`,
`handle h in` and `handle x = h in`? -/
structure Occ where
  name : String
  bound : Bool
  within : Bool
  deriving DecidableEq, Repr

def occ (within : Bool) (scope : List String) (n : String) : Occ :=
  ⟨n, decide (n ∈ scope), within⟩

def InfixOp.text : InfixOp → String
  | .ioSym op => op.text
  | .ioBT v => v.text

mutual

def Exp.occs (within : Bool) (scope : List String) : Exp → List Occ
  | .eVar v => [occ within scope v.text]
  | .eParenOp op => [occ within scope op.text]
  | .eExpr h tails => h.occs within scope ++ occsTails within scope tails
  | .eApp a b => a.occs within scope ++ b.occs within scope
  | .eProj a _ => a.occs within scope
  | .eProjC a _ => a.occs within scope
  | .eRecord _ fs => occsFields within scope fs
  | .eRecordExt _ a mt => a.occs within scope ++ mt.occs within scope
  | .eParen a => a.occs within scope
  | .eList xs => occsExps within scope xs
  | .eTuple a xs => a.occs within scope ++ occsExps within scope xs
  | .eLam ps a => a.occs within (atomVarsAll ps ++ scope)
  | .eLet ds a =>
      occsLocals within (runNames ds ++ scope) ds ++ a.occs within (groupNames ds ++ scope)
  | .eCase a alts => a.occs within scope ++ occsAlts within scope alts
  | .eIf a b c => a.occs within scope ++ b.occs within scope ++ c.occs within scope
  | .eWith arms a =>
      occsArms within scope (paramNames arms ++ scope) arms ++ a.occs within scope
  | .eWithH _ _ arms a =>
      occsArms within scope (paramNames arms ++ scope) arms ++ a.occs within scope
  | .eWithRun runner args a =>
      occ true scope runner.text :: (occsArgs true scope args ++ a.occs true scope)
  | .eWithNamed self runner args a =>
      occ true scope runner.text :: (occsArgs true scope args ++ a.occs true (self.text :: scope))
  | .eWithNamedH self _ arms a =>
      occsArms true scope (paramNames arms ++ scope) arms ++
        a.occs true (self.text :: (paramNames arms ++ scope))
  | .eHandlerV _ arms => occsArms true scope (paramNames arms ++ scope) arms
  | .eHandleV h args a => h.occs true scope ++ occsArgs true scope args ++ a.occs true scope
  | .eHandleN self h args a =>
      h.occs true scope ++ occsArgs true scope args ++ a.occs true (self.text :: scope)
  | .eCon _ | .eLitI _ | .eLitS _ | .eLitC _ | .eUnit => []

def InfixTail.occs (within : Bool) (scope : List String) : InfixTail → List Occ
  | .iTail op a => occ within scope op.text :: a.occs within scope

def RecordFieldExpr.occs (within : Bool) (scope : List String) : RecordFieldExpr → List Occ
  | .rfExpr _ a => a.occs within scope

def MaybeTrailing.occs (within : Bool) (scope : List String) : MaybeTrailing → List Occ
  | .tfNone => []
  | .tfSome fs => occsFields within scope fs

def WithArg.occs (within : Bool) (scope : List String) : WithArg → List Occ
  | .wrArg a => a.occs within scope

def LocalDecl.occs (within : Bool) (scope : List String) : LocalDecl → List Occ
  | .ldEqn lhs a wh =>
      let inner := atomVarsAll (lhsAtomPats lhs) ++ scope
      a.occs within (wh.names ++ inner) ++ wh.occs within inner
  | .ldSig .. => []
  | .ldPat _ _ a => a.occs within scope

def MaybeWhere.occs (within : Bool) (scope : List String) : MaybeWhere → List Occ
  | .noWhere => []
  | .withWh ds => occsLocals within (runNames ds ++ scope) ds

def Alt.occs (within : Bool) (scope : List String) : Alt → List Occ
  | .altC p a wh =>
      let inner := p.vars ++ scope
      a.occs within (wh.names ++ inner) ++ wh.occs within inner

def HandlerArm.occs (within : Bool) (outer scope : List String) : HandlerArm → List Occ
  | .hArm _ _ ps a => a.occs within (atomVarsAll ps ++ scope)
  | .huArm _ ps a => a.occs within (atomVarsAll ps ++ scope)
  | .hOnceArm _ _ ps a => a.occs within (atomVarsAll ps ++ scope)
  | .hOnceUArm _ ps a => a.occs within (atomVarsAll ps ++ scope)
  | .hRetArm p a => a.occs within (p.vars ++ scope)
  | .hParam _ a => a.occs within outer
  | .hParamV _ a => a.occs within outer

def occsExps (within : Bool) (scope : List String) : List Exp → List Occ
  | [] => []
  | a :: xs => a.occs within scope ++ occsExps within scope xs

def occsTails (within : Bool) (scope : List String) : List InfixTail → List Occ
  | [] => []
  | t :: ts => t.occs within scope ++ occsTails within scope ts

def occsFields (within : Bool) (scope : List String) : List RecordFieldExpr → List Occ
  | [] => []
  | fd :: fs => fd.occs within scope ++ occsFields within scope fs

def occsArgs (within : Bool) (scope : List String) : List WithArg → List Occ
  | [] => []
  | arg :: args => arg.occs within scope ++ occsArgs within scope args

def occsLocals (within : Bool) (scope : List String) : List LocalDecl → List Occ
  | [] => []
  | d :: ds => d.occs within scope ++ occsLocals within (d.scopeAfter ds scope) ds

def occsAlts (within : Bool) (scope : List String) : List Alt → List Occ
  | [] => []
  | alt :: alts => alt.occs within scope ++ occsAlts within scope alts

def occsArms (within : Bool) (outer scope : List String) : List HandlerArm → List Occ
  | [] => []
  | arm :: arms => arm.occs within outer scope ++ occsArms within outer scope arms

end

attribute [grind =] Exp.subst HandlerArm.subst Exp.occs HandlerArm.occs
  TypeChecking.rewriteMethodRefs

end Wok.Abs

namespace Wok.Spec.MethodRefs

open Wok.Abs Wok.TypeChecking

/-- What the lexer gives as a method's name: an identifier has no dollar sign, an operator no
letter. -/
def Lexical : MethodName → Prop
  | .mnBare v => '$' ∉ v.text.toList
  | .mnParen op => ∀ c ∈ op.text.toList, c.isAlpha = false

/-- The instance's own binding for a method of the class; of two signatures of one name the
last counts. -/
def sibling (ms : List String) (dictNm n : String) : Option String :=
  (ms.zipIdx.reverse.lookup n).map (synthName dictNm)

/-- Every occurrence of a method's name is bound if it is within one of the six forms, and
free if not. -/
def Apart (ms : List String) (os : List Occ) : Prop :=
  ∀ o ∈ os, o.name ∈ ms → o.bound = o.within

end Wok.Spec.MethodRefs
