/-
Module: Wok.TypeChecking.ConArgs
Purpose: The translation of the types of a constructor's arguments. The check of anonymous
  tails before it, which only rejects, is left out.
Imports: Wok.TypeChecking.Signature
Trusted boundary: none
Main exports: ConArgError, fieldArgKind, walkArg, translateConArg
-/
import Wok.TypeChecking.Signature

namespace Wok.TypeChecking

open Wok.Abs (Pos)

/-- What the translation of a constructor's argument reports. -/
inductive ConArgError where
  | unknownTyCon (sp : SourceSpan) (name : String)
  | arityMismatch (sp : SourceSpan) (name : String) (expected got : Nat)
  | tyConArgKind (sp : SourceSpan) (name : String) (i : Nat) (expected actual : Kind)
  | fieldKindError (sp : SourceSpan) (actual : Kind)
  | nonTyConApplication
  | unsupportedType

/-- The declared parameters: their numbers and their kinds. -/
structure ConParams where
  slots : Dict Nat
  kinds : List Kind

/-- A parameter is of its declared kind, anything else is a type. -/
def fieldArgKind (ps : ConParams) : Abs.Ty → Kind
  | .tVar v | .tRowArg v => ((ps.slots.lookup v.text).bind (ps.kinds[·]?)).getD .star
  | _ => .star

def fieldKindPos : Abs.Ty → SourceSpan
  | .tVar v | .tRowArg v => some v.pos
  | _ => none

/-- A type variable has to be a parameter. -/
def paramSlot (ps : ConParams) (v : Abs.VarId) : Except ConArgError CType :=
  match ps.slots.lookup v.text with
  | some i => .ok (.gen i)
  | none => .error (.unknownTyCon (some v.pos) v.text)

/-- The arguments are of the kinds of the parameters. -/
def checkFieldKinds (ps : ConParams) (pos : Pos) (name : String) (args : List Abs.Ty)
    (kinds : List Kind) : Except ConArgError Unit :=
  ((args.zip kinds).zipIdx).forM fun ((a, k), i) =>
    if fieldArgKind ps a = k then .ok ()
    else .error (.tyConArgKind (some pos) name i k (fieldArgKind ps a))

section

variable {E : Type}

/-- A type constructor that is applied to the arguments has to be registered. -/
def checkTyCon (env : Env E) (ps : ConParams) (p : Abs.ModPath) (args : List Abs.Ty) :
    Except ConArgError Unit :=
  match lookupTyCon (modPathText p) env with
  | some info =>
      if info.arity = args.length then
        checkFieldKinds ps (modPathPos p) (modPathText p) args info.paramKinds
      else .error (.arityMismatch (some (modPathPos p)) (modPathText p) info.arity args.length)
  | none => .error (.unknownTyCon (some (modPathPos p)) (modPathText p))

/-- The type constructor at the head of an application. -/
def appTyCon (f x : Abs.Ty) : Except ConArgError Abs.ModPath :=
  match (collectApp f x).1 with
  | .tCon p => .ok p
  | _ => .error .nonTyConApplication

mutual

def walkArg (env : Env E) (ps : ConParams) : Abs.Ty → Except ConArgError CType
  | .tVar v => paramSlot ps v
  | .tRowArg v => paramSlot ps v
  | .tFun a b => do
      let t ← walkArg env ps a
      let u ← walkArg env ps b
      return .arr t .rowEmpty u
  | .tCon p => do
      checkTyCon env ps p []
      return .con (resolveTyCon (modPathText p)) []
  | .tApp f x => do
      let p ← appTyCon f x
      checkTyCon env ps p (collectApp f x).2
      let args ← walkSpine env ps f
      let arg ← walkArg env ps x
      return .con (resolveTyCon (modPathText p)) (args ++ [arg])
  | .tList inner => do
      let t ← walkArg env ps inner
      return .con .list [t]
  | .tTuple a others => do
      let t ← walkArg env ps a
      let ts ← walkArgs env ps others
      return .con (.tuple (1 + others.length)) (t :: ts)
  | .tParen t => walkArg env ps t
  | .tUnit => .ok (.con .unit [])
  | .tQual .. | .tWith .. | .tOwned .. | .tExtend .. => .error .unsupportedType

/-- The arguments of a left-nested application. -/
def walkSpine (env : Env E) (ps : ConParams) : Abs.Ty → Except ConArgError (List CType)
  | .tApp f x => do
      let args ← walkSpine env ps f
      let arg ← walkArg env ps x
      return args ++ [arg]
  | _ => .ok []

def walkArgs (env : Env E) (ps : ConParams) : List Abs.Ty → Except ConArgError (List CType)
  | [] => .ok []
  | t :: ts => do
      let u ← walkArg env ps t
      let us ← walkArgs env ps ts
      return u :: us

end

/-- An argument is a type, not a row. -/
def translateConArg (env : Env E) (ps : ConParams) (ty : Abs.Ty) : Except ConArgError CType :=
  if fieldArgKind ps ty = .star then walkArg env ps ty
  else .error (.fieldKindError (fieldKindPos ty) (fieldArgKind ps ty))

end

end Wok.TypeChecking
