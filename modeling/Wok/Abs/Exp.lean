/-
Module: Wok.Abs.Exp
Purpose: The surface syntax of patterns and expressions, as the generated parser builds it,
  and the names that its binding forms bind.
Imports: Wok.Abs
Trusted boundary: none
Main exports: Pat, AtomPat, Exp, InfixTail, RecordFieldExpr, MaybeTrailing, WithArg,
  HandlerArm, LocalDecl, MaybeWhere, Alt, AtomPat.vars, FunLHS.vars, groupNames
-/
import Wok.Abs

namespace Wok.Abs

structure WokInt where
  pos : Pos
  text : String
  deriving DecidableEq

/-! ### Patterns -/

inductive PatRowTail where
  | prtNamed (v : VarId)
  | prtAnon
  deriving DecidableEq

mutual

inductive Pat where
  | pApp (path : ModPath) (p : AtomPat) (ps : List AtomPat)
  | pCons (p : AtomPat) (ps : Pat)
  | pAtom (p : AtomPat)

inductive AtomPat where
  | apVar (v : VarId)
  | apCon (path : ModPath)
  | apWild
  | apLitI (i : WokInt)
  | apLitS (s : String)
  | apLitC (c : Char)
  | apTuple (p : Pat) (ps : List Pat)
  | apList (ps : List Pat)
  | apParen (p : Pat)
  | pUnit
  | apAs (p : AtomPat) (v : VarId)
  | pRecord (c : ConId) (fields : List RecordFieldPat)
  | pRecordOpen (c : ConId) (fields : List RecordFieldPat) (tail : PatRowTail)
  | pRecordWild (c : ConId) (tail : PatRowTail)

inductive RecordFieldPat where
  | rfPat (v : VarId) (p : Pat)

end

/-! ### Expressions -/

inductive InfixOp where
  | ioSym (op : VarSym)
  | ioBT (v : VarId)
  deriving DecidableEq

inductive SigName where
  | snBare (v : VarId)
  | snParen (op : VarSym)
  deriving DecidableEq

mutual

/-- An expression as it is written. -/
inductive Exp where
  | eExpr (h : Exp) (tails : List InfixTail)
  | eApp (f x : Exp)
  | eVar (v : VarId)
  | eCon (c : ConId)
  | eProj (e : Exp) (v : VarId)
  | eProjC (e : Exp) (c : ConId)
  | eRecord (c : ConId) (fields : List RecordFieldExpr)
  | eRecordExt (c : ConId) (e : Exp) (trailing : MaybeTrailing)
  | eLitI (i : WokInt)
  | eLitS (s : String)
  | eLitC (c : Char)
  | eParen (e : Exp)
  | eParenOp (op : VarSym)
  | eUnit
  | eList (es : List Exp)
  | eTuple (e : Exp) (es : List Exp)
  | eLam (ps : List AtomPat) (e : Exp)
  | eLet (ds : List LocalDecl) (e : Exp)
  | eCase (e : Exp) (alts : List Alt)
  | eIf (c t e : Exp)
  | eWith (arms : List HandlerArm) (e : Exp)
  | eWithH (c : ConId) (cs : List ConId) (arms : List HandlerArm) (e : Exp)
  | eWithRun (runner : VarId) (args : List WithArg) (e : Exp)
  | eWithNamed (self runner : VarId) (args : List WithArg) (e : Exp)
  | eWithNamedH (self : VarId) (c : ConId) (arms : List HandlerArm) (e : Exp)
  | eHandlerV (c : ConId) (arms : List HandlerArm)
  | eHandleV (h : Exp) (args : List WithArg) (e : Exp)
  | eHandleN (self : VarId) (h : Exp) (args : List WithArg) (e : Exp)

inductive InfixTail where
  | iTail (op : InfixOp) (e : Exp)

inductive MaybeTrailing where
  | tfNone
  | tfSome (fields : List RecordFieldExpr)

inductive RecordFieldExpr where
  | rfExpr (v : VarId) (e : Exp)

inductive WithArg where
  | wrArg (e : Exp)

inductive HandlerArm where
  | hArm (c : ConId) (v : VarId) (ps : List AtomPat) (e : Exp)
  | huArm (v : VarId) (ps : List AtomPat) (e : Exp)
  | hOnceArm (c : ConId) (v : VarId) (ps : List AtomPat) (e : Exp)
  | hOnceUArm (v : VarId) (ps : List AtomPat) (e : Exp)
  | hRetArm (p : AtomPat) (e : Exp)
  | hParam (v : VarId) (e : Exp)
  | hParamV (v : VarId) (e : Exp)

inductive LocalDecl where
  | ldEqn (lhs : FunLHS AtomPat) (e : Exp) (wh : MaybeWhere)
  | ldSig (name : SigName) (names : List SigName) (ty : Ty)
  | ldPat (p : Pat) (ps : List Pat) (e : Exp)

inductive MaybeWhere where
  | noWhere
  | withWh (ds : List LocalDecl)

inductive Alt where
  | altC (p : Pat) (e : Exp) (wh : MaybeWhere)

end

/-! ### Bound names -/

mutual

def Pat.vars : Pat → List String
  | .pApp _ p ps => p.vars ++ atomVarsAll ps
  | .pCons p ps => p.vars ++ ps.vars
  | .pAtom p => p.vars

def AtomPat.vars : AtomPat → List String
  | .apVar v => [v.text]
  | .apTuple p ps => p.vars ++ patVarsAll ps
  | .apList ps => patVarsAll ps
  | .apParen p => p.vars
  | .apAs p v => v.text :: p.vars
  | .pRecord _ fields => fieldVarsAll fields
  | .pRecordOpen _ fields tail => fieldVarsAll fields ++ tail.vars
  | .pRecordWild _ tail => tail.vars
  | .apCon _ | .apWild | .apLitI _ | .apLitS _ | .apLitC _ | .pUnit => []

def RecordFieldPat.vars : RecordFieldPat → List String
  | .rfPat _ p => p.vars

def PatRowTail.vars : PatRowTail → List String
  | .prtNamed v => [v.text]
  | .prtAnon => []

def patVarsAll : List Pat → List String
  | [] => []
  | p :: ps => p.vars ++ patVarsAll ps

def atomVarsAll : List AtomPat → List String
  | [] => []
  | p :: ps => p.vars ++ atomVarsAll ps

def fieldVarsAll : List RecordFieldPat → List String
  | [] => []
  | f :: fs => f.vars ++ fieldVarsAll fs

end

/-- The parameters of an equation, in order. -/
def lhsAtomPats : FunLHS AtomPat → List AtomPat
  | .lhsPre _ ps => ps
  | .lhsInfSym a _ b => [a, b]
  | .lhsInfBT a _ b => [a, b]

def SigName.text : SigName → String
  | .snBare v => v.text
  | .snParen op => op.text

end Wok.Abs
