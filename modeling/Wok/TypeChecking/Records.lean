/-
Module: Wok.TypeChecking.Records
Purpose: Inference of record constructions and record extensions, without and with an
  expected type. The inference of the expressions in them is a parameter.
Imports: Wok.TypeChecking.Env, Wok.TypeChecking.Unify
Trusted boundary: none
Main exports: CheckEnv, FieldExpr, RecordExpr, RecordNode, RecordTC, inferERecord,
  inferERecordWithExt, inferERecordExt, inferERecordExtWithExt, inferRecordW,
  inferRecordWChecked
-/
import Mathlib.Data.String.Basic
import Wok.TypeChecking.Env
import Wok.TypeChecking.Unify

namespace Wok.TypeChecking

/-! ### Syntax -/

/-- A field `label = exp` of a record expression (`RFExpr`). -/
structure FieldExpr (E : Type) where
  label : String
  exp : E

/-- `T { f1 = e1, ... }` and `T { ..e, f1 = e1, ... }`. -/
inductive RecordExpr (E : Type) where
  | record (conName : String) (fields : List (FieldExpr E))
  | recordExt (conName : String) (spread : E) (trailing : List (FieldExpr E))

/-- The written fields. -/
def RecordExpr.fields {E : Type} : RecordExpr E → List (FieldExpr E)
  | .record _ fields => fields
  | .recordExt _ _ trailing => trailing

def RecordExpr.conName {E : Type} : RecordExpr E → String
  | .record conName _ => conName
  | .recordExt conName _ _ => conName

/-- A typed record expression. A written field keeps its number, and an extension the
row that its spread was found to have; nothing reads these. -/
inductive RecordNode (N : Type) where
  | record (conName : String) (fields : List (String × N × Nat))
  | recordExt (conName : String) (spread : N) (row : Ty) (fields : List (String × N × Nat))

/-! ### Environment -/

/-- The type environment with the type parameters of the record constructors. -/
structure CheckEnv where
  types : TypeEnv
  rcParams : String → List (Nat × Kind)

/-- The declared fields of a record constructor. -/
def CheckEnv.declared (env : CheckEnv) (conName : String) : List (String × CType) :=
  match env.types.lookupRecordCon conName with
  | some info => info.fields
  | none => []

/-- A new variable for each parameter; the last of two equal indices wins. -/
def instantiateParamSubst (lvl : Int) (params : List (Nat × Kind)) : TC (List (Nat × Ty)) := do
  let pairs ← params.mapM fun (i, k) => do
    let t ← freshTVar lvl k
    return (i, t)
  return pairs.reverse

mutual

/-- An index that is not in the map is the empty row. -/
def substCTypeWith (m : List (Nat × Ty)) : CType → Ty
  | .con c ts => .con c (substCTypesWith m ts)
  | .arr a r b => .arr (substCTypeWith m a) (substCTypeWith m r) (substCTypeWith m b)
  | .record tag row => .record tag (substCTypeWith m row)
  | .rowEmpty => .rowEmpty
  | .rowExtend l t rest => .rowExtend l (substCTypeWith m t) (substCTypeWith m rest)
  | .gen i => (m.lookup i).getD .rowEmpty

def substCTypesWith (m : List (Nat × Ty)) : List CType → List Ty
  | [] => []
  | t :: ts => substCTypeWith m t :: substCTypesWith m ts

end

/-! ### Rows -/

/-- The labels of a row up to its end. -/
def collectRowLabels : Nat → Ty → TC (List String)
  | 0, _ => outOfFuel
  | fuel + 1, row => do
      let row' ← force fuel row
      match row' with
      | .rowExtend l _ r => do
          let rest ← collectRowLabels fuel r
          return l :: rest
      | _ => return []

def lookupRowLabel (label : String) : Nat → Ty → TC (Option Ty)
  | 0, _ => outOfFuel
  | fuel + 1, row => do
      let row' ← force fuel row
      match row' with
      | .rowExtend l t r => if l = label then return some t else lookupRowLabel label fuel r
      | _ => return none

/-- Bring a label to the head of a row; an open row is not extended. -/
def rewriteRowStrict (sp : SourceSpan) (l : String) : Nat → Ty → TC (Ty × Ty)
  | 0, _ => outOfFuel
  | fuel + 1, row => do
      let row' ← force fuel row
      match row' with
      | .rowExtend l' t rest =>
          if l = l' then return (t, rest)
          else do
            let (t', rest') ← rewriteRowStrict sp l fuel rest
            return (t', .rowExtend l' t rest')
      | .var _ => throwTC (.unknownField sp "<row>" l)
      | .rowEmpty => throwTC (.unknownField sp "<row>" l)
      | _ => panicTC "rewriteRowStrict: expected a row"

/-! ### Records -/

/-- The checker with a log of the written fields whose expressions were inferred, by
their numbers. Nothing reads the log. -/
abbrev RecordTC := StateT (List Nat) TC

section Rules

variable {E N : Type}

/-- The written fields with their numbers. -/
def providedPairs (fields : List (FieldExpr E)) : List (String × E × Nat) :=
  fields.zipIdx.map fun (f, i) => (f.label, f.exp, i)

/-- A row that starts with the entries. -/
def entriesRow (entries : List (String × Ty × N × Nat)) (tail : Ty) : Ty :=
  entries.foldr (fun (l, t, _) acc => .rowExtend l t acc) tail

def entryNodes (entries : List (String × Ty × N × Nat)) : List (String × N × Nat) :=
  entries.map fun (l, _, n) => (l, n)

/-- The least of the labels is reported. -/
def rejectLabels (labels : List String) (e : String → TypeError) : TC Unit :=
  match labels.min? with
  | some l => throwTC (e l)
  | none => return ()

/-- Every provided label is allowed, and every declared one is provided. -/
def checkNames (sp : SourceSpan) (conName : String) (declared allowed provided : List String) :
    TC Unit := do
  rejectLabels (provided.filter (· ∉ allowed)) (.unknownField sp conName)
  rejectLabels (declared.filter (· ∉ provided)) fun l =>
    .unknownField sp conName ("missing field: " ++ l)

def lookupRecordInfo (env : CheckEnv) (sp : SourceSpan) (conName : String) :
    TC RecordConInfo :=
  match env.types.lookupRecordCon conName with
  | some info => return info
  | none => throwTC (.unknownCon sp conName)

variable (infer : E → TC (Ty × N)) (lvl : Int) (fuel : Nat) (sp : SourceSpan)

/-- Infer the expression of a field and unify its type with the field's. -/
def inferField (fieldT : Ty) (e : E × Nat) : RecordTC (N × Nat) := do
  modify (· ++ [e.2])
  let (actualT, actualNode) ← infer e.1
  unify sp lvl fuel actualT fieldT
  return (actualNode, e.2)

/-- The first expression that is provided for each declared field. -/
def declaredEntries (message : String) (paramSubst : List (Nat × Ty))
    (declared : List (String × CType)) (provided : List (String × E × Nat)) :
    RecordTC (List (String × Ty × N × Nat)) :=
  declared.mapM fun (fname, fcty) => do
    let fieldT := substCTypeWith paramSubst fcty
    match provided.lookup fname with
    | some e => do
        let node ← inferField infer lvl fuel sp fieldT e
        return (fname, fieldT, node)
    | none => panicTC message

/-- Fields beyond the declared ones, against the expected row. -/
def extensionEntries (expRow : Ty) (pairs : List (String × E × Nat)) :
    RecordTC (List (String × Ty × N × Nat)) :=
  pairs.mapM fun (fname, e) => do
    let mft ← lookupRowLabel fname fuel expRow
    let extFieldT ←
      match mft with
      | some ft => pure ft
      | none => freshTVar lvl .star
    let node ← inferField infer lvl fuel sp extFieldT e
    return (fname, extFieldT, node)

/-- Fields of the spread that are written anew. -/
def overrideNodes (spreadRow : Ty) (pairs : List (String × E × Nat)) :
    RecordTC (List (String × N × Nat)) :=
  pairs.mapM fun (fname, e) => do
    let (declaredT, _) ← rewriteRowStrict sp fname fuel spreadRow
    let node ← inferField infer lvl fuel sp declaredT e
    return (fname, node)

/-- `ERecord`: exactly the declared fields. -/
def inferERecord (env : CheckEnv) (conName : String) (fields : List (FieldExpr E)) :
    RecordTC (Ty × RecordNode N) := do
  let conInfo ← lookupRecordInfo env sp conName
  let declaredNames := conInfo.fields.map (·.1)
  let provided := providedPairs fields
  checkNames sp conName declaredNames declaredNames (provided.map (·.1))
  let paramSubst ← instantiateParamSubst lvl (env.rcParams conName)
  let entries ← declaredEntries infer lvl fuel sp
    "ERecord: missing field not caught above (invariant violation)" paramSubst conInfo.fields
    provided
  return (.record conName (entriesRow entries .rowEmpty), .record conName (entryNodes entries))

/-- `ERecord` with the labels `extSet` of the expected row besides the declared ones. -/
def inferERecordWithExt (env : CheckEnv) (conName : String) (conInfo : RecordConInfo)
    (fields : List (FieldExpr E)) (extSet : List String) (expRow : Ty) :
    RecordTC (Ty × RecordNode N) := do
  let declaredNames := conInfo.fields.map (·.1)
  let provided := providedPairs fields
  checkNames sp conName declaredNames (declaredNames ++ extSet) (provided.map (·.1))
  let paramSubst ← instantiateParamSubst lvl (env.rcParams conName)
  let declaredRowEntries ← declaredEntries infer lvl fuel sp
    "inferERecordWithExt: missing declared field not caught above" paramSubst conInfo.fields
    provided
  let extRowEntries ← extensionEntries infer lvl fuel sp expRow
    (provided.filter fun p => p.1 ∈ extSet)
  let allEntries := declaredRowEntries ++ extRowEntries
  return (.record conName (entriesRow allEntries .rowEmpty),
    .record conName (entryNodes allEntries))

/-- `ERecordExt`: every written field is one of the spread's. -/
def inferERecordExt (env : CheckEnv) (conName : String) (spread : E)
    (trailing : List (FieldExpr E)) : RecordTC (Ty × RecordNode N) := do
  let _ ← lookupRecordInfo env sp conName
  let (spreadT, spreadNode) ← infer spread
  let spreadT' ← force fuel spreadT
  match spreadT' with
  | .record tag spreadRow =>
      if tag = conName then do
        let fieldNodes ← overrideNodes infer lvl fuel sp spreadRow (providedPairs trailing)
        return (spreadT', .recordExt conName spreadNode spreadRow fieldNodes)
      else throwTC (.nominalMismatch sp conName tag)
  | _ => do
      let ct ← freeze fuel spreadT'
      throwTC (.notARecord sp ct)

/-- Declared fields apart from those of the expected row, both in reverse. -/
def partitionTrailing (spreadSet extSet : List String) (conName : String)
    (pairs : List (String × E × Nat)) :
    TC (List (String × E × Nat) × List (String × E × Nat)) :=
  pairs.foldlM (fun (ovs, adds) p =>
    if p.1 ∈ spreadSet then return (p :: ovs, adds)
    else if p.1 ∈ extSet then return (ovs, p :: adds)
    else throwTC (.unknownField sp conName p.1)) ([], [])

/-- `ERecordExt` with the labels of the expected row besides the declared ones. -/
def inferERecordExtWithExt (conName : String) (conInfo : RecordConInfo) (spread : E)
    (trailing : List (FieldExpr E)) (expRow : Ty) : RecordTC (Ty × RecordNode N) := do
  let (spreadT, spreadNode) ← infer spread
  let spreadRowVar ← freshRVar lvl
  unify sp lvl fuel spreadT (.record conName spreadRowVar)
  let spreadT' ← force fuel spreadT
  match spreadT' with
  | .record tag spreadRow =>
      if tag = conName then do
        let declaredNames := conInfo.fields.map (·.1)
        let expLabels ← collectRowLabels fuel expRow
        let extSet := expLabels.filter (· ∉ declaredNames)
        let (overrides, additions) ←
          partitionTrailing sp declaredNames extSet conName (providedPairs trailing)
        let overrideNodes ← overrideNodes infer lvl fuel sp spreadRow overrides
        let extEntries ← extensionEntries infer lvl fuel sp expRow additions
        return (.record conName (entriesRow extEntries spreadRow),
          .recordExt conName spreadNode spreadRow (overrideNodes ++ entryNodes extEntries))
      else throwTC (.nominalMismatch sp conName tag)
  | _ => do
      let ct ← freeze fuel spreadT'
      throwTC (.notARecord sp ct)

/-- Inference of a record expression (`inferExprW`). -/
def inferRecordW (env : CheckEnv) : RecordExpr E → RecordTC (Ty × RecordNode N)
  | .record conName fields => inferERecord infer lvl fuel sp env conName fields
  | .recordExt conName spread trailing =>
      inferERecordExt infer lvl fuel sp env conName spread trailing

/-- The same with an expected type, if there is one (`inferExprWChecked`). -/
def inferRecordWChecked (env : CheckEnv) (expected : Option Ty) (e : RecordExpr E) :
    RecordTC (Ty × RecordNode N) :=
  match expected with
  | none => inferRecordW infer lvl fuel sp env e
  | some expected => do
      let conInfo ← lookupRecordInfo env sp e.conName
      let expected' ← force fuel expected
      match expected' with
      | .record expTag expRow =>
          if expTag = e.conName then
            match e with
            | .record conName fields => do
                let extLabels ← collectRowLabels fuel expRow
                let extSet := extLabels.filter (· ∉ conInfo.fields.map (·.1))
                inferERecordWithExt infer lvl fuel sp env conName conInfo fields extSet expRow
            | .recordExt conName spread trailing =>
                inferERecordExtWithExt infer lvl fuel sp conName conInfo spread trailing expRow
          else inferRecordW infer lvl fuel sp env e
      | _ => inferRecordW infer lvl fuel sp env e

end Rules

end Wok.TypeChecking
