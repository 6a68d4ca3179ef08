/-
Module: Wok.TypeChecking.InstanceBindings
Purpose: The bindings that an instance stands for: one for each method of its class, from
  the instance or from the class's default, and one for the dictionary.
Imports: Wok.Abs.Exp, Wok.TypeChecking.Class
Trusted boundary: none
Main exports: mkVarId, synthName, substTyVar, contextType, rewriteMethodRefs, SynthDecl,
  instanceBindings
-/
import Wok.Abs.Exp
import Wok.TypeChecking.Class

namespace Wok.TypeChecking

open Wok.Abs (AtomPat Exp InfixOp InfixTail RecordFieldExpr MaybeTrailing LocalDecl MaybeWhere Alt
  HandlerArm FunLHS MethodName ClassEntry InstEntry lhsAtomPats)

/-- An identifier that no source text has: its position says so. -/
def mkVarId (t : String) : Abs.VarId := ⟨(0, 0), t⟩

/-- The name of the binding for the method with the given number. -/
def synthName (dictNm : String) (k : Nat) : String := dictNm ++ "$m" ++ toString k

/-! ### Method names in the body of a default -/

section Rewrite

variable (classMethods : List String) (dictNm : String) (idx : Dict Nat)

/-- The binding that a name is rewritten to, if it is a method of the class. -/
def methodRef (n : String) : Option String :=
  if n ∈ classMethods then (idx.lookup n).map (synthName dictNm) else none

def goOp (op : InfixOp) : InfixOp :=
  match op with
  | .ioSym o =>
      match methodRef classMethods dictNm idx o.text with
      | some s => .ioBT (mkVarId s)
      | none => op
  | .ioBT v =>
      match methodRef classMethods dictNm idx v.text with
      | some s => .ioBT (mkVarId s)
      | none => op

mutual

/-- Method names become the names of the instance's own bindings. The last six forms are
left as they are. -/
def rewriteMethodRefs : Exp → Exp
  | .eVar v =>
      match methodRef classMethods dictNm idx v.text with
      | some s => .eVar (mkVarId s)
      | none => .eVar v
  | .eParenOp op =>
      match methodRef classMethods dictNm idx op.text with
      | some s => .eVar (mkVarId s)
      | none => .eParenOp op
  | .eExpr h tails => .eExpr (rewriteMethodRefs h) (goTails tails)
  | .eApp a b => .eApp (rewriteMethodRefs a) (rewriteMethodRefs b)
  | .eProj a v => .eProj (rewriteMethodRefs a) v
  | .eProjC a c => .eProjC (rewriteMethodRefs a) c
  | .eRecord c fs => .eRecord c (goFieldExprs fs)
  | .eRecordExt c a mt => .eRecordExt c (rewriteMethodRefs a) (goTrailing mt)
  | .eParen a => .eParen (rewriteMethodRefs a)
  | .eList xs => .eList (goExps xs)
  | .eTuple a xs => .eTuple (rewriteMethodRefs a) (goExps xs)
  | .eLam ps a => .eLam ps (rewriteMethodRefs a)
  | .eLet ds a => .eLet (goLocals ds) (rewriteMethodRefs a)
  | .eCase a alts => .eCase (rewriteMethodRefs a) (goAlts alts)
  | .eIf a b c => .eIf (rewriteMethodRefs a) (rewriteMethodRefs b) (rewriteMethodRefs c)
  | .eWith arms a => .eWith (goArms arms) (rewriteMethodRefs a)
  | .eWithH h hs arms a => .eWithH h hs (goArms arms) (rewriteMethodRefs a)
  | .eCon c => .eCon c
  | .eLitI i => .eLitI i
  | .eLitS s => .eLitS s
  | .eLitC c => .eLitC c
  | .eUnit => .eUnit
  | .eWithRun runner args a => .eWithRun runner args a
  | .eWithNamed self runner args a => .eWithNamed self runner args a
  | .eWithNamedH self c arms a => .eWithNamedH self c arms a
  | .eHandlerV c arms => .eHandlerV c arms
  | .eHandleV h args a => .eHandleV h args a
  | .eHandleN self h args a => .eHandleN self h args a

def goTail : InfixTail → InfixTail
  | .iTail op a => .iTail (goOp classMethods dictNm idx op) (rewriteMethodRefs a)

def goField : RecordFieldExpr → RecordFieldExpr
  | .rfExpr v a => .rfExpr v (rewriteMethodRefs a)

def goTrailing : MaybeTrailing → MaybeTrailing
  | .tfNone => .tfNone
  | .tfSome fs => .tfSome (goFieldExprs fs)

def goLocal : LocalDecl → LocalDecl
  | .ldEqn lhs a mw => .ldEqn lhs (rewriteMethodRefs a) (goWhere mw)
  | .ldPat p ps a => .ldPat p ps (rewriteMethodRefs a)
  | .ldSig name names ty => .ldSig name names ty

def goWhere : MaybeWhere → MaybeWhere
  | .noWhere => .noWhere
  | .withWh ds => .withWh (goLocals ds)

def goAlt : Alt → Alt
  | .altC p a mw => .altC p (rewriteMethodRefs a) (goWhere mw)

def goArm : HandlerArm → HandlerArm
  | .hArm c v ps a => .hArm c v ps (rewriteMethodRefs a)
  | .huArm v ps a => .huArm v ps (rewriteMethodRefs a)
  | .hOnceArm c v ps a => .hOnceArm c v ps (rewriteMethodRefs a)
  | .hOnceUArm v ps a => .hOnceUArm v ps (rewriteMethodRefs a)
  | .hRetArm p a => .hRetArm p (rewriteMethodRefs a)
  | .hParam v a => .hParam v (rewriteMethodRefs a)
  | .hParamV v a => .hParamV v (rewriteMethodRefs a)

def goExps : List Exp → List Exp
  | [] => []
  | a :: xs => rewriteMethodRefs a :: goExps xs

def goTails : List InfixTail → List InfixTail
  | [] => []
  | t :: ts => goTail t :: goTails ts

def goFieldExprs : List RecordFieldExpr → List RecordFieldExpr
  | [] => []
  | f :: fs => goField f :: goFieldExprs fs

def goLocals : List LocalDecl → List LocalDecl
  | [] => []
  | d :: ds => goLocal d :: goLocals ds

def goAlts : List Alt → List Alt
  | [] => []
  | alt :: alts => goAlt alt :: goAlts alts

def goArms : List HandlerArm → List HandlerArm
  | [] => []
  | arm :: arms => goArm arm :: goArms arms

end

end Rewrite

/-! ### Signatures of the bindings -/

mutual

/-- The class's parameter is replaced by the instance's argument. -/
def substTyVar (p : String) (target : Abs.Ty) : Abs.Ty → Abs.Ty
  | .tVar v => if v.text = p then target else .tVar v
  | .tQual a b => .tQual (substTyVar p target a) (substTyVar p target b)
  | .tWith a b e => .tWith (substTyVar p target a) (substTyVar p target b) e
  | .tFun a b => .tFun (substTyVar p target a) (substTyVar p target b)
  | .tApp a b => .tApp (substTyVar p target a) (substTyVar p target b)
  | .tList a => .tList (substTyVar p target a)
  | .tTuple a others => .tTuple (substTyVar p target a) (substTyVars p target others)
  | .tParen a => .tParen (substTyVar p target a)
  | .tCon c => .tCon c
  | .tUnit => .tUnit
  | .tRowArg v => .tRowArg v
  | .tOwned a => .tOwned (substTyVar p target a)
  | .tExtend a s rc => .tExtend (substTyVar p target a) s rc

def substTyVars (p : String) (target : Abs.Ty) : List Abs.Ty → List Abs.Ty
  | [] => []
  | t :: ts => substTyVar p target t :: substTyVars p target ts

end

/-- A constraint as a type. -/
def constraintType (c : Abs.Constraint) : Abs.Ty :=
  c.args.foldl Abs.Ty.tApp (.tCon (.mpName c.name))

/-- A context as a type: one constraint in parentheses, more of them as a tuple. -/
def contextType (cs : List Abs.Constraint) : Abs.Ty :=
  match cs.map constraintType with
  | [] => .tUnit
  | [t] => .tParen t
  | t :: ts => .tParen (.tTuple t ts)

/-! ### Bindings -/

/-- A binding that an instance stands for: the signature or the equation of a method, or the
dictionary, which is its constructor applied to the bindings of the methods. -/
inductive SynthDecl where
  | dSig (name : Abs.VarId) (ty : Abs.Ty)
  | dEqn (lhs : FunLHS AtomPat) (body : Exp)
  | dDict (name : Abs.VarId) (dictCon : String) (methods : List Abs.VarId)

/-- An equation of a class or an instance: its left-hand side and its body. -/
abbrev Eqn := FunLHS AtomPat × Exp

def defaultEqns (entries : List (ClassEntry AtomPat Exp)) : List (String × Eqn) :=
  entries.filterMap fun entry =>
    match entry with
    | .ceSig .. => none
    | .ceDefault lhs body => some (funLhsName lhs, (lhs, body))

def implEqns (entries : List (InstEntry AtomPat Exp)) : List (String × Eqn) :=
  entries.map fun entry =>
    match entry with
    | .ieImpl lhs body => (funLhsName lhs, (lhs, body))

/-- The names of a class's methods, in order. -/
def methodNames (entries : List (ClassEntry AtomPat Exp)) : List String :=
  (classSigs entries).map fun s => methodNameText s.1

/-- The number of a method, of the last signature of its name. -/
def methodIndex (ms : List String) : Dict Nat := Dict.fromList ms.zipIdx

/-- The parameter and the entries of a class. -/
def classEntries (classDecls : List (Abs.Decl AtomPat Exp)) (cls : String) :
    Except ClassError (String × List (ClassEntry AtomPat Exp)) :=
  let found := classDecls.findSome? fun d =>
    match d with
    | .dClass c ps es => if c.text = cls then some (ps, es) else none
    | .dInstance .. => none
  match found with
  | some ([v], es) => .ok (v.text, es)
  | _ => .error (.unknownClass cls)

/-- The argument of the instance's head. -/
def headArgument (cls : String) : List Abs.Ty → Except ClassError Abs.Ty
  | [t] => .ok t
  | _ => .error (.unknownClass cls)

def synthSig (ctx : List Abs.Constraint) (param : String) (headArg : Abs.Ty) (name : String)
    (mty : Abs.Ty) : SynthDecl :=
  let body := substTyVar param headArg mty
  match ctx with
  | [] => .dSig (mkVarId name) body
  | _ :: _ => .dSig (mkVarId name) (.tQual (contextType ctx) body)

/-- The equation of a method: the instance's own, with its body as it is, or the default. -/
def methodEqn (entries : List (ClassEntry AtomPat Exp)) (impls : List (String × Eqn))
    (dictNm m name : String) : Except ClassError SynthDecl :=
  let ms := methodNames entries
  match impls.lookup m with
  | some (lhs, body) => .ok (.dEqn (.lhsPre (.fnBare (mkVarId name)) (lhsAtomPats lhs)) body)
  | none =>
      match (defaultEqns entries).lookup m with
      | some (lhs, body) =>
          .ok (.dEqn (.lhsPre (.fnBare (mkVarId name)) (lhsAtomPats lhs))
            (rewriteMethodRefs ms dictNm (methodIndex ms) body))
      | none => .error (.missingMethod dictNm m)

/-- The bindings of the methods from number `k` on. -/
def methodBindings (entries : List (ClassEntry AtomPat Exp)) (impls : List (String × Eqn))
    (ctx : List Abs.Constraint) (param : String) (headArg : Abs.Ty) (dictNm : String) (k : Nat) :
    List (MethodName × Abs.Ty) → Except ClassError (List SynthDecl)
  | [] => .ok []
  | (mn, mty) :: sigs => do
      let name := synthName dictNm k
      let eqn ← methodEqn entries impls dictNm (methodNameText mn) name
      let rest ← methodBindings entries impls ctx param headArg dictNm (k + 1) sigs
      return synthSig ctx param headArg name mty :: eqn :: rest

def instanceBindings (classDecls : List (Abs.Decl AtomPat Exp)) :
    Abs.Decl AtomPat Exp → Except ClassError (List SynthDecl)
  | .dClass .. => .ok []
  | .dInstance ihead instEntries => do
      let (ctx, cls, targs) := splitHead ihead
      let (param, entries) ← classEntries classDecls cls
      let headArg ← headArgument cls targs
      let dictNm ← instanceDictName (.dInstance ihead instEntries)
      let sigs := classSigs entries
      let bindings ← methodBindings entries (implEqns instEntries) ctx param headArg dictNm 0 sigs
      let methods := (List.range sigs.length).map fun k => mkVarId (synthName dictNm k)
      return bindings ++ [.dDict (mkVarId dictNm) (cls ++ "$Dict") methods]

end Wok.TypeChecking
