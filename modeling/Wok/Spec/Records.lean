/-
Module: Wok.Spec.Records
Purpose: What the code of a record expression does, and when that agrees with the
  expression and its row.
Imports: Wok.IR.Records, Wok.Interp.Value, Wok.Spec.UnifyErrors
Trusted boundary: none
Main exports: Built, meaning, HasLabels, Faithful, Plain
-/
import Wok.IR.Records
import Wok.Interp.Value
import Wok.Spec.UnifyErrors

namespace Wok.IR

open Wok.Interp (Value fieldMap)
open Wok.TypeChecking (Ty RecordExpr RecordNode RecordConInfo)

/-! ### The code of a record -/

/-- What the code of a record comes to: the numbers of the written fields whose
expressions it evaluates, in order, and its value, unless a projection fails. -/
structure Built where
  evaluated : List Nat
  value : Option Value

def Built.after (i : Nat) (b : Built) : Built := { b with evaluated := i :: b.evaluated }

/-- The lowering with what its code does for the code: the expression of the written field
`i` has the value `val i`. -/
def meaning {N : Type} (val : Nat → Value) (spread : Value) : Emit N Value Built where
  normName part k :=
    match part with
    | .spread _ => k spread
    | .field _ i => (k (val i)).after i
  proj l v k :=
    match v with
    | .record _ m =>
        match m.lookup l with
        | some w => k w
        | none => ⟨[], none⟩
    | _ => ⟨[], none⟩
  record t pairs := ⟨[], some (.record t (fieldMap pairs))⟩

/-! ### Rows and values -/

def rowLabels (row : Ty) : List String := row.rowFields.map (·.1)

/-- The record has the labels of the row, and no others if the row is closed. -/
structure HasLabels (fs : List (String × Value)) (row : Ty) : Prop where
  has : ∀ l ∈ rowLabels row, l ∈ fs.map (·.1)
  only : row.rowEnd = .rowEmpty → ∀ l ∈ fs.map (·.1), l ∈ rowLabels row

/-- The fields that the spread can have at run time. A construction has no spread. -/
def SpreadFits {N : Type} (θ : Nat → Ty) (m : List (String × Value)) : RecordNode N → Prop
  | .record .. => m = []
  | .recordExt _ _ row _ => HasLabels m (row.subst θ)

/-- Each written field is the value of its expression, and any other label is as in the
spread. -/
structure Holds {E : Type} (e : RecordExpr E) (val : Nat → Value)
    (m fs : List (String × Value)) : Prop where
  written : ∀ i f, e.fields[i]? = some f → fs.lookup f.label = some (val i)
  other : ∀ l, (∀ f ∈ e.fields, f.label ≠ l) → fs.lookup l = m.lookup l

/-- The numbers of the written fields, each once. -/
def EachOnce {E : Type} (e : RecordExpr E) (is : List Nat) : Prop :=
  is.Perm (List.range e.fields.length)

/-- The code of a typed record expression agrees with the expression and with its type,
where `θ` is what the variables in the types stand for. -/
structure Faithful {E N : Type} (θ : Nat → Ty) (info : Option RecordConInfo) (e : RecordExpr E)
    (ty : Ty) (node : RecordNode N) (checked : List Nat) : Prop where
  checked : EachOnce e checked
  built : ∀ val m, SpreadFits θ m node → ∃ is fs row,
    elabRecordNode (meaning val (.record e.conName m)) info node =
      ⟨is, some (.record e.conName fs)⟩ ∧
    EachOnce e is ∧ ty.subst θ = .record e.conName row ∧ HasLabels fs row ∧ Holds e val m fs

/-! ### Records that are built from their declaration -/

/-- The spread has exactly the declared fields. -/
def PlainSpread {N : Type} (θ : Nat → Ty) (declared : List String) : RecordNode N → Prop
  | .record .. => True
  | .recordExt _ _ row _ =>
      (row.subst θ).rowEnd = .rowEmpty ∧ ∀ l, l ∈ rowLabels (row.subst θ) ↔ l ∈ declared

/-- No label is written twice, each one is declared, and declared once, and the spread
has just the declared labels. -/
structure Plain {E N : Type} (θ : Nat → Ty) (declared : List String) (e : RecordExpr E)
    (node : RecordNode N) : Prop where
  distinct : (e.fields.map (·.label)).Nodup
  known : ∀ f ∈ e.fields, declared.count f.label = 1
  spread : PlainSpread θ declared node

end Wok.IR
