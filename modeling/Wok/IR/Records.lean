/-
Module: Wok.IR.Records
Purpose: Lowering of record constructions and record extensions. The operations that it
  emits are parameters, so that the code can be emitted or what the code does be read off.
Imports: Wok.IR.Elaborate, Wok.TypeChecking.Records
Trusted boundary: none
Main exports: RecordPart, Emit, normAll, orderFields, elabRecord, buildFieldLets,
  elabRecordExt, elabRecordNode, Emit.core
-/
import Wok.IR.Elaborate
import Wok.TypeChecking.Records

namespace Wok.IR

open Wok.TypeChecking (CType RecordNode RecordConInfo)

/-- An expression in a record expression: the spread, or a written field with its
number. -/
inductive RecordPart (N : Type) where
  | spread (node : N)
  | field (node : N) (i : Nat)

def RecordPart.node {N : Type} : RecordPart N → N
  | .spread node => node
  | .field node _ => node

/-- What the lowering of a record emits, each with the rest of the lowering: the naming
of an expression (`normName`), the projection of a field from the spread, and the record
itself. -/
structure Emit (N A R : Type) where
  normName : RecordPart N → (A → R) → R
  proj : String → A → (A → R) → R
  record : String → List (String × A) → R

section Lowering

variable {N A R : Type} (emit : Emit N A R)

/-- From left to right. -/
def normAll : List (RecordPart N) → (List A → R) → R
  | [], k => k []
  | e :: es, k => emit.normName e fun a => normAll es fun as => k (a :: as)

/-- The fields in declared order, if there is one for each declared label. -/
def orderFields (orderedLabels : List String) (sourcePairs : List (String × A)) :
    List (String × A) :=
  let ordered := orderedLabels.filterMap fun lbl => (sourcePairs.lookup lbl).map (lbl, ·)
  if ordered.length = orderedLabels.length then ordered else sourcePairs

/-- Record construction: the fields are named in the order of the node and then put in
declared order. -/
def elabRecord (info : Option RecordConInfo) (t : String) (fields : List (String × N × Nat)) :
    R :=
  let labels := fields.map (·.1)
  normAll emit (fields.map fun f => .field f.2.1 f.2.2) fun atoms =>
    let sourcePairs := labels.zip atoms
    let orderedLabels :=
      match info with
      | some rci => rci.fields.map (·.1)
      | none => labels
    emit.record t (orderFields orderedLabels sourcePairs)

/-- The last of two overrides of a label wins, as in `Map.fromList`. -/
def lookupOverride (overrides : List (String × N × Nat)) (lbl : String) : Option (N × Nat) :=
  overrides.reverse.lookup lbl

/-- Each label is its override, if it has one, or a projection of the spread. -/
def buildFieldLets (overrides : List (String × N × Nat)) (spread : A) :
    List String → List (String × A) → (List (String × A) → R) → R
  | [], acc, cont => cont acc.reverse
  | lbl :: lbls, acc, cont =>
      match lookupOverride overrides lbl with
      | some oe => emit.normName (.field oe.1 oe.2) fun atom =>
          buildFieldLets overrides spread lbls ((lbl, atom) :: acc) cont
      | none => emit.proj lbl spread fun p =>
          buildFieldLets overrides spread lbls ((lbl, p) :: acc) cont

/-- Record extension: the declared fields, from the overrides and the spread. -/
def elabRecordExt (info : Option RecordConInfo) (t : String) (spread : N)
    (overrideFields : List (String × N × Nat)) : R :=
  emit.normName (.spread spread) fun spreadAtom =>
    let declaredFields :=
      match info with
      | some rci => rci.fields.map (·.1)
      | none => overrideFields.map (·.1)
    buildFieldLets emit overrideFields spreadAtom declaredFields [] fun finalPairs =>
      emit.record t finalPairs

def elabRecordNode (info : Option RecordConInfo) : RecordNode N → R
  | .record t fields => elabRecord emit info t fields
  | .recordExt t spread _ overrideFields => elabRecordExt emit info t spread overrideFields

end Lowering

/-- The code that is emitted: a projection is bound to a fresh name, with the type of the
spread, and the record goes to `k`. -/
def Emit.core {N : Type} (normName : N → (Atom → Elab Expr) → Elab Expr) (fieldTy : CType)
    (k : Rhs → Elab Expr) : Emit N Atom (Elab Expr) where
  normName part := normName part.node
  proj lbl spread cont := do
    let p ← bindFresh "p"
    let body ← cont (.var p)
    return .let_ ⟨p, fieldTy⟩ (.proj lbl spread) body
  record t pairs := k (.record t pairs)

/-- `elabRhsF` on a record expression. -/
def elabRhsRecord {N : Type} (normName : N → (Atom → Elab Expr) → Elab Expr)
    (teType : N → CType) (node : RecordNode N) (k : Rhs → Elab Expr) : Elab Expr := do
  let ctx ← read
  match node with
  | .record t fields =>
      elabRecord (Emit.core normName default k) (ctx.env.lookupRecordCon t) t fields
  | .recordExt t spread _ overrideFields =>
      elabRecordExt (Emit.core normName (teType spread) k) (ctx.env.lookupRecordCon t) t spread
        overrideFields

end Wok.IR
