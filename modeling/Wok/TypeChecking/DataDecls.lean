/-
Module: Wok.TypeChecking.DataDecls
Purpose: The registration of the type constructors and data constructors that a module
  declares, and what the elaborator reads of an environment.
Imports: Wok.TypeChecking.Env, Wok.TypeChecking.GlobalEnv, Wok.TypeChecking.Signature
Trusted boundary: none
Main exports: ConDef, DataDecl, registerTyCons, registerCon, registerCons, processDataDecls,
  Env.elabEnv
-/
import Wok.TypeChecking.Env
import Wok.TypeChecking.GlobalEnv
import Wok.TypeChecking.Signature

namespace Wok.TypeChecking

variable {E : Type}

def extendCon (k : String) (v : Env.ConInfo) (e : Env E) : Env E :=
  { e with cons := e.cons.insert k v }

def extendTyCon (k : String) (v : Env.TyConInfo) (e : Env E) : Env E :=
  { e with tyCons := e.tyCons.insert k v }

def extendRecordCon (k : String) (v : Env.RecordConInfo) (e : Env E) : Env E :=
  { e with recordCons := e.recordCons.insert k v }

/-- A constructor of a declaration, with the types of its arguments translated. -/
inductive ConDef where
  | conDef (name : String) (args : List CType)
  | conDefRec (name : String) (fields : List (String × CType))

/-- `data`, `extern data` and `extern type`; the last has no constructors to register. -/
structure DataDecl where
  name : String
  paramKinds : List Kind
  carrier : Bool
  conDefs : Option (List ConDef)

inductive DataError where
  | duplicateTyCon (name : String)
  | duplicateCon (name : String)
  deriving DecidableEq, Repr

/-- The first pass: the names, with no constructors yet. -/
def registerTyCons (env : Env E) : List DataDecl → Except DataError (Env E)
  | [] => .ok env
  | d :: ds =>
      match lookupTyCon d.name env with
      | some _ => .error (.duplicateTyCon d.name)
      | none =>
          let k := d.paramKinds.foldr Kind.arrow .star
          let affine := d.name != "Borrow"
          let info : Env.TyConInfo := ⟨k, d.paramKinds.length, [], d.carrier, affine, d.paramKinds⟩
          registerTyCons (extendTyCon d.name info env) ds

/-- The parameters of a declaration as the quantifiers of its constructors. -/
def quantifiers (pks : List Kind) : List (Nat × Kind) := (List.range pks.length).zip pks

def registerCon (tcName : String) (pks : List Kind) (env : Env E) :
    ConDef → Except DataError (Env E)
  | .conDef cname args =>
      match lookupCon cname env with
      | some _ => .error (.duplicateCon cname)
      | none =>
          let resultTy := CType.con (resolveTyCon tcName) ((List.range pks.length).map CType.gen)
          let body := args.foldr (fun arg acc => CType.arr arg .rowEmpty acc) resultTy
          .ok (extendCon cname ⟨mkScheme (quantifiers pks) body, args.length, tcName⟩ env)
  | .conDefRec cname fields =>
      match lookupRecordCon cname env with
      | some _ => .error (.duplicateCon cname)
      | none => .ok (extendRecordCon cname ⟨cname, fields, quantifiers pks⟩ env)

/-- The names of the positional constructors. -/
def positionalCons (conDefs : List ConDef) : List String :=
  conDefs.filterMap fun d =>
    match d with
    | .conDef cname _ => some cname
    | .conDefRec .. => none

/-- The positional constructors are written into the type constructor's entry, which the first
pass has put there. -/
def setCons (tcName : String) (cons : List String) (env : Env E) : Env E :=
  match lookupTyCon tcName env with
  | some t => extendTyCon tcName { t with cons := cons } env
  | none => env

/-- The second pass. -/
def registerCons (env : Env E) : List DataDecl → Except DataError (Env E)
  | [] => .ok env
  | d :: ds =>
      match d.conDefs with
      | none => registerCons env ds
      | some conDefs =>
          match conDefs.foldlM (registerCon d.name d.paramKinds) env with
          | .error e => .error e
          | .ok env' => registerCons (setCons d.name (positionalCons conDefs) env') ds

def processDataDecls (env : Env E) (decls : List DataDecl) : Except DataError (Env E) :=
  match registerTyCons env decls with
  | .error e => .error e
  | .ok env' => registerCons env' decls

/-- What the elaborator reads of an environment. -/
def Env.elabEnv (e : Env E) : TypeEnv where
  cons := e.cons.map fun (k, ci) => (k, ⟨ci.arity, ci.tyCon⟩)
  tyCons := e.tyCons.map fun (k, ti) => (k, ⟨ti.cons⟩)
  recordCons := e.recordCons.map fun (k, ri) => (k, ⟨ri.fields⟩)

end Wok.TypeChecking
