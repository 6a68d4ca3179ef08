/-
Module: Wok.Abs
Purpose: The surface syntax of types, of classes and instances and of foreign modules,
  as the generated parser builds it. Patterns and expressions are parameters.
Imports: Mathlib.Data.Nat.Notation
Trusted boundary: none
Main exports: ConId, VarId, VarSym, ModPath, Ty, EffectRow, RowContrib, Constraint,
  InstHead, FunLHS, ClassEntry, InstEntry, Decl, ForeignMember, DForeign
-/
import Mathlib.Data.Nat.Notation

namespace Wok.Abs

/-- Line and column of the first character of a token. -/
abbrev Pos := Int × Int

/-- An upper-case identifier. The lexer builds it of letters, digits, `_`, `'` and `-`; a
dollar sign is a character of operators. -/
structure ConId where
  pos : Pos
  text : String
  plain : '$' ∉ text.toList
  deriving DecidableEq

theorem u64_plain : '$' ∉ "U64".toList := by decide

structure VarId where
  pos : Pos
  text : String
  deriving DecidableEq

structure VarSym where
  pos : Pos
  text : String
  deriving DecidableEq

inductive ModPath where
  | mpName (c : ConId)
  | mpDot (p : ModPath) (c : ConId)
  deriving DecidableEq

mutual

/-- A type as it is written. -/
inductive Ty where
  | tQual (ctx body : Ty)
  | tWith (a b : Ty) (effs : EffectRow)
  | tFun (a b : Ty)
  | tApp (f x : Ty)
  | tVar (v : VarId)
  | tCon (p : ModPath)
  | tList (inner : Ty)
  | tTuple (a : Ty) (others : List Ty)
  | tParen (t : Ty)
  | tUnit
  | tRowArg (v : VarId)
  | tOwned (t : Ty)
  | tExtend (t : Ty) (op : VarSym) (rc : RowContrib)

inductive EffectAtom where
  | erAtom (name : ConId) (args : List Ty)

inductive EffectRow where
  | erOne (atom : EffectAtom)
  | erPlus (atom : EffectAtom) (op : VarSym) (rest : EffectRow)
  | erVarOnly (v : VarId)
  | erWildOnly

inductive RowContrib where
  | rcAnon (fields : List RecordFieldType)
  | rcVar (v : VarId)
  | rcWild

inductive RecordFieldType where
  | rfType (v : VarId) (t : Ty)

end

/-- A class constraint of an instance's context. -/
structure Constraint where
  name : ConId
  args : List Ty

inductive InstHead where
  | ihPlain (c : ConId) (args : List Ty)
  | ihCtx (ctx : List Constraint) (c : ConId) (args : List Ty)

inductive MethodName where
  | mnBare (v : VarId)
  | mnParen (op : VarSym)

inductive FunName where
  | fnBare (v : VarId)
  | fnBareSym (op : VarSym)
  | fnParen (op : VarSym)

/-- The left-hand side of an equation, over the patterns `P`. -/
inductive FunLHS (P : Type) where
  | lhsPre (fn : FunName) (ps : List P)
  | lhsInfSym (a : P) (op : VarSym) (b : P)
  | lhsInfBT (a : P) (v : VarId) (b : P)

/-- An entry of a class: a signature, or the default of a method. -/
inductive ClassEntry (P E : Type) where
  | ceSig (mn : MethodName) (ty : Ty)
  | ceDefault (lhs : FunLHS P) (body : E)

inductive InstEntry (P E : Type) where
  | ieImpl (lhs : FunLHS P) (body : E)

/-- The declarations that classes and instances are registered from. -/
inductive Decl (P E : Type) where
  | dClass (c : ConId) (params : List VarId) (entries : List (ClassEntry P E))
  | dInstance (ihead : InstHead) (entries : List (InstEntry P E))

inductive ForeignSym where
  | fsNone
  | fsName (s : String)

/-- A member of a foreign module. -/
inductive ForeignMember where
  | fmPlain (v : VarId) (sym : ForeignSym) (ty : Ty)
  | fmOwned (v : VarId) (sym : ForeignSym) (ty : Ty)

inductive ForeignFree where
  | ffNone
  | ffSym (s : String)

/-- `foreign module c "lib" free "s" where { members }`. -/
structure DForeign where
  c : ConId
  lib : String
  free : ForeignFree
  members : List ForeignMember

end Wok.Abs
