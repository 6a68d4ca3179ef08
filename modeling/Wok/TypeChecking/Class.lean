/-
Module: Wok.TypeChecking.Class
Purpose: Registration of class and instance declarations: the translation of their types,
  the checks of an instance, and the names of the dictionaries.
Imports: Wok.Abs, Wok.TypeChecking.GlobalEnv
Trusted boundary: none
Main exports: ClassError, tyConKey, dictName, typeArgToCType, collectVarsT, smaller,
  headCon, processClassDecl, processInstanceDecl, instanceDictName
-/
import Wok.Abs
import Wok.TypeChecking.GlobalEnv

namespace Wok.TypeChecking

inductive ClassError where
  | unknownClass (cls : String)
  | malformedClassDecl (detail : String)
  | malformedInstance (detail : String)
  | overlappingInstance (cls head : String)
  | instanceNotSmaller (cls head : String)
  | missingMethod (head method : String)
  deriving Repr, DecidableEq

/-- `maybe (Left e) Right`. -/
def orThrow {α : Type} (e : ClassError) : Option α → Except ClassError α
  | some a => .ok a
  | none => .error e

/-! ### Names -/

/-- A short key for a type constructor, used in the names of dictionaries. -/
def tyConKey : TyCon → String
  | .u64 => "U64"
  | .u32 => "U32"
  | .bytes => "Bytes"
  | .char => "Char"
  | .string => "String"
  | .never => "Never"
  | .bool => "Bool"
  | .unit => "Unit"
  | .list => "List"
  | .array => "Array"
  | .tuple n => "Tuple" ++ toString n
  | .user t => t
  | .effect t => "Effect$" ++ t
  | .handler t => "Handler$" ++ t

/-- The name of the dictionary of a class at a type constructor. -/
def dictName (cls : String) (c : TyCon) : String := "dict$" ++ cls ++ "$" ++ tyConKey c

/-- The last name of a path. -/
def modPathLeaf : Abs.ModPath → String
  | .mpName c => c.text
  | .mpDot _ c => c.text

def resolveTyConName (name : String) : TyCon :=
  if name = "U64" then .u64
  else if name = "U32" then .u32
  else if name = "Bytes" then .bytes
  else if name = "Char" then .char
  else if name = "String" then .string
  else if name = "Never" then .never
  else if name = "Bool" then .bool
  else if name = "()" then .unit
  else if name = "[]" then .list
  else if name = "Array" then .array
  else .user name

def methodNameText : Abs.MethodName → String
  | .mnBare v => v.text
  | .mnParen op => op.text

def funNameText : Abs.FunName → String
  | .fnBare v => v.text
  | .fnBareSym op => op.text
  | .fnParen op => op.text

/-- The name that an equation is about. -/
def funLhsName {P : Type} : Abs.FunLHS P → String
  | .lhsPre fn _ => funNameText fn
  | .lhsInfSym _ op _ => op.text
  | .lhsInfBT _ v _ => v.text

/-! ### Rendering, for the errors -/

/-- The labels of a row, and what is behind them. -/
def collectRow : CType → List String × CType
  | .rowExtend l _ rest => (l :: (collectRow rest).1, (collectRow rest).2)
  | t => ([], t)

mutual

def renderCType : CType → String
  | .con c [] => tyConKey c
  | .con .list [a] => "[" ++ renderCType a ++ "]"
  | .con c args =>
      match renderAtoms args with
      | [] => tyConKey c
      | texts => tyConKey c ++ " " ++ " ".intercalate texts
  | .arr a _ b => renderAtom a ++ " -> " ++ renderCType b
  | .record t _ => t
  | .gen i => "t" ++ toString i
  | .rowEmpty => "{}"
  | .rowExtend l _ rest =>
      "\x7b" ++ ", ".intercalate (l :: (collectRow rest).1) ++ renderTail rest ++ "\x7d"

/-- What is behind the labels of a row, if that is not the empty row. -/
def renderTail : CType → String
  | .rowExtend _ _ rest => renderTail rest
  | .rowEmpty => ""
  | t => " | " ++ renderCType t

def renderAtom : CType → String
  | .con c (a :: args) => "(" ++ renderCType (.con c (a :: args)) ++ ")"
  | .arr a r b => "(" ++ renderCType (.arr a r b) ++ ")"
  | t => renderCType t

/-- The arguments but the empty rows. -/
def renderAtoms : List CType → List String
  | [] => []
  | .rowEmpty :: ts => renderAtoms ts
  | t :: ts => renderAtom t :: renderAtoms ts

end

/-! ### Translation of types -/

/-- The head of a left-nested application. -/
def appHead : Abs.Ty → Abs.Ty
  | .tApp f _ => appHead f
  | t => t

/-- `Handler` is no type constructor here: its effect cannot be resolved. -/
def notHandler (p : Abs.ModPath) : Except ClassError Unit :=
  if modPathLeaf p = "Handler" then
    .error (.malformedInstance
      "first-class Handler types are not supported in class/instance heads")
  else .ok ()

mutual

/-- Translates a type whose variables have the given numbers. -/
def typeArgToCType (vmap : Dict Nat) : Abs.Ty → Except ClassError CType
  | .tQual _ body => typeArgToCType vmap body
  | .tFun a b => return .arr (← typeArgToCType vmap a) .rowEmpty (← typeArgToCType vmap b)
  | .tWith a b _ => return .arr (← typeArgToCType vmap a) .rowEmpty (← typeArgToCType vmap b)
  | .tParen t => typeArgToCType vmap t
  | .tList inner => return .con .list [← typeArgToCType vmap inner]
  | .tTuple a others => do
      let t ← typeArgToCType vmap a
      let ts ← typeArgsToCTypes vmap others
      return .con (.tuple (1 + others.length)) (t :: ts)
  | .tUnit => .ok (.con .unit [])
  | .tVar v =>
      match vmap.lookup v.text with
      | some i => .ok (.gen i)
      | none => .error (.malformedInstance
          ("unbound type variable '" ++ v.text ++ "' in class/instance head"))
  | .tCon p => do
      notHandler p
      return .con (resolveTyConName (modPathLeaf p)) []
  | .tApp f x =>
      match appHead f with
      | .tCon p => do
          notHandler p
          let args ← appArgsToCTypes vmap f
          let arg ← typeArgToCType vmap x
          return .con (resolveTyConName (modPathLeaf p)) (args ++ [arg])
      | _ => .error (.malformedInstance "non-tycon type application in class/instance head")
  | .tExtend .. => .error (.malformedInstance "type-level extension in class/instance head")
  | .tRowArg _ => .error (.malformedInstance "row variable in class/instance head")
  | .tOwned _ => .error (.malformedInstance "owned modifier in class/instance head")

/-- The arguments of a left-nested application, from left to right. -/
def appArgsToCTypes (vmap : Dict Nat) : Abs.Ty → Except ClassError (List CType)
  | .tApp f x => do
      let args ← appArgsToCTypes vmap f
      let arg ← typeArgToCType vmap x
      return args ++ [arg]
  | _ => .ok []

def typeArgsToCTypes (vmap : Dict Nat) : List Abs.Ty → Except ClassError (List CType)
  | [] => .ok []
  | t :: ts => return (← typeArgToCType vmap t) :: (← typeArgsToCTypes vmap ts)

end

def constraintToC (vmap : Dict Nat) (c : Abs.Constraint) : Except ClassError Constraint :=
  match c.args with
  | [a] => return ⟨c.name.text, ← typeArgToCType vmap a⟩
  | _ => .error (.malformedInstance
      ("constraint " ++ c.name.text ++ " must apply to exactly one type argument"))

/-- The next number goes to a name that has none. -/
def numberVar (m : Dict Nat) (n : String) : Dict Nat :=
  if m.member n then m else m.insert n m.length

mutual

/-- Numbers the type variables of a type, in the order of their first occurrence. -/
def collectVarsT (m : Dict Nat) : Abs.Ty → Dict Nat
  | .tQual _ b => collectVarsT m b
  | .tFun a b => collectVarsT (collectVarsT m a) b
  | .tWith a b _ => collectVarsT (collectVarsT m a) b
  | .tParen t => collectVarsT m t
  | .tList inner => collectVarsT m inner
  | .tTuple a others => collectVarsTs (collectVarsT m a) others
  | .tUnit => m
  | .tApp f x => collectVarsT (collectVarsT m f) x
  | .tExtend a _ _ => collectVarsT m a
  | .tCon _ => m
  | .tOwned t => collectVarsT m t
  | .tRowArg v => numberVar m v.text
  | .tVar v => numberVar m v.text

def collectVarsTs (m : Dict Nat) : List Abs.Ty → Dict Nat
  | [] => m
  | t :: ts => collectVarsTs (collectVarsT m t) ts

end

/-- Numbers the type variables of a context. -/
def collectVars (m : Dict Nat) (ctx : List Abs.Constraint) : Dict Nat :=
  ctx.foldl (fun m c => collectVarsTs m c.args) m

/-! ### Classes -/

/-- The type of a method over the class's variables: what is quantified, and the body. -/
def schemeOfType (pmap : Dict Nat) (ty : Abs.Ty) :
    Except ClassError (List (Nat × Kind) × CType) := do
  let vmap := collectVarsT pmap ty
  let body ← typeArgToCType vmap ty
  return (vmap.map fun e => (e.2, .star), body)

/-- The class's parameter is quantified also where a signature does not name it. -/
def ensureParam (vs : List (Nat × Kind)) : List (Nat × Kind) :=
  if vs.any fun v => v.1 = 0 then vs else (0, .star) :: vs

section

variable {P E : Type}

def methodSig (cname pvar : String) (mn : Abs.MethodName) (ty : Abs.Ty) :
    Except ClassError (String × Scheme) := do
  let (vs, body) ← schemeOfType [(pvar, 0)] ty
  return (methodNameText mn, ⟨ensureParam vs, [⟨cname, .gen 0⟩], body⟩)

def classSigs (entries : List (Abs.ClassEntry P E)) : List (Abs.MethodName × Abs.Ty) :=
  entries.filterMap fun entry =>
    match entry with
    | .ceSig mn ty => some (mn, ty)
    | .ceDefault .. => none

def classDefaults (entries : List (Abs.ClassEntry P E)) : List (String × E) :=
  entries.filterMap fun entry =>
    match entry with
    | .ceSig .. => none
    | .ceDefault lhs body => some (funLhsName lhs, body)

/-- The parameter of a class, which has one. -/
def classParam (cname : String) : List Abs.VarId → Except ClassError String
  | [v] => .ok v.text
  | _ => .error (.malformedClassDecl
      ("class " ++ cname ++ " must have exactly one type parameter"))

/-- Registers a class: its entry, and a variable for each of its methods. -/
def processClassDecl (env : Env E) : Abs.Decl P E → Except ClassError (Env E)
  | .dClass c params entries => do
      let cname := c.text
      let pvar ← classParam cname params
      let methodSigs ← (classSigs entries).mapM fun s => methodSig cname pvar s.1 s.2
      let ci : Env.ClassInfo E :=
        ⟨(0, .star), Dict.fromList methodSigs, Dict.fromList (classDefaults entries),
          methodSigs.map (·.1), cname ++ "$Dict"⟩
      return methodSigs.foldl (fun e s => extendVar s.1 s.2 e) (extendClass cname ci env)
  | .dInstance .. => .ok env

/-! ### Instances -/

/-- The context, the class and the arguments of an instance's head. -/
def splitHead : Abs.InstHead → List Abs.Constraint × String × List Abs.Ty
  | .ihPlain c args => ([], c.text, args)
  | .ihCtx ctx c args => (ctx, c.text, args)

mutual

/-- `t` is a proper part of the type. -/
def elemSub (t : CType) : CType → Bool
  | .con _ ts => elemSubs t ts
  | .arr a r b => t = a || t = b || elemSub t a || elemSub t b || elemSubR t r
  | .record _ r => elemSubR t r
  | .gen _ => false
  | .rowExtend _ ty rest => t = ty || elemSub t ty || elemSubR t rest
  | .rowEmpty => false

def elemSubR (t : CType) : CType → Bool
  | .rowExtend _ ty rest => t = ty || elemSub t ty || elemSubR t rest
  | _ => false

def elemSubs (t : CType) : List CType → Bool
  | [] => false
  | u :: us => t = u || elemSub t u || elemSubs t us

end

/-- `x` is a proper part of `parent`. -/
def smaller (x parent : CType) : Bool := x ≠ parent && elemSub x parent

/-- The type constructor of a head. -/
def headCon : CType → Option TyCon
  | .con c _ => some c
  | _ => none

def instImpls (entries : List (Abs.InstEntry P E)) : Dict E :=
  Dict.fromList (entries.map fun entry =>
    match entry with
    | .ieImpl lhs body => (funLhsName lhs, body))

/-- The argument of an instance's head, which has one. -/
def instArg (cname : String) : List Abs.Ty → Except ClassError Abs.Ty
  | [t] => .ok t
  | _ => .error (.malformedInstance
      ("instance " ++ cname ++ " must apply the class to exactly one type argument"))

/-- The type constructor of an instance's head, which has one. -/
def instCon (cname : String) (headTy : CType) : Except ClassError TyCon :=
  orThrow (.malformedInstance
    ("instance " ++ cname ++ " head must be a type-constructor application")) (headCon headTy)

/-- No instance of the class has the type constructor. -/
def checkOverlap (env : Env E) (cname : String) (hc : TyCon) : Except ClassError Unit :=
  if env.instances.any fun i => i.cls = cname && headCon i.head = some hc then
    .error (.overlappingInstance cname (tyConKey hc))
  else .ok ()

/-- Every constraint of the context is about a proper part of the head. -/
def checkSmaller (cname : String) (headTy : CType) (context : List Constraint) :
    Except ClassError Unit :=
  context.forM fun c =>
    if smaller c.arg headTy then .ok ()
    else .error (.instanceNotSmaller cname (renderCType headTy))

/-- Every method has an implementation or a default. -/
def checkComplete (headTy : CType) (ci : Env.ClassInfo E) (impls : Dict E) :
    Except ClassError Unit :=
  ci.methodNames.forM fun m =>
    if impls.member m || ci.defaults.member m then .ok ()
    else .error (.missingMethod (renderCType headTy) m)

/-- Registers an instance of a class that exists, if no instance of the class has its
type constructor. -/
def processInstanceDecl (env : Env E) : Abs.Decl P E → Except ClassError (Env E)
  | .dInstance ihead entries => do
      let (ctxC, cname, targs) := splitHead ihead
      let ci ← orThrow (.unknownClass cname) (lookupClass cname env)
      let argTy ← instArg cname targs
      let varMap := collectVars (collectVarsT [] argTy) ctxC
      let headTy ← typeArgToCType varMap argTy
      let context ← ctxC.mapM (constraintToC varMap)
      checkSmaller cname headTy context
      let hc ← instCon cname headTy
      checkOverlap env cname hc
      let impls := instImpls entries
      checkComplete headTy ci impls
      return extendInstance ⟨cname, headTy, context, dictName cname hc, impls⟩ env
  | .dClass .. => .ok env

/-- The name of the dictionary of an instance, from its declaration alone. -/
def instanceDictName : Abs.Decl P E → Except ClassError String
  | .dInstance ihead _ => do
      let (ctxC, cname, targs) := splitHead ihead
      let argTy ← instArg cname targs
      let headTy ← typeArgToCType (collectVars (collectVarsT [] argTy) ctxC) argTy
      let hc ← instCon cname headTy
      return dictName cname hc
  | .dClass .. => .error (.malformedInstance "instanceDictName: not an instance declaration")

end

end Wok.TypeChecking
