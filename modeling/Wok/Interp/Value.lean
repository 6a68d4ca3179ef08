/-
Module: Wok.Interp.Value
Purpose: Run-time values, scopes, continuations and configurations of the
  reference interpreter.
Imports: Wok.IR.Anf
Trusted boundary: none
Main exports: Value, Scope, JoinPoint, Frame, Kont, kontDepth, Config,
  RuntimeError, DataPred, Prim, PrimTable, bindBinder, bindBinders, renderValue
-/
import Wok.IR.Anf

namespace Wok.Interp

open Wok.IR

/-- An activation of a handler. `depth` is the tag the interpreter stores, the
depth of the continuation at the install. `serial` counts the installs made
before this one; no rule of the interpreter reads it, it only gives an
activation an identity that statements can refer to. -/
structure Activation where
  depth : Nat
  serial : Nat
  deriving Repr, DecidableEq, Inhabited

mutual

/-- Run-time values.

A closure keeps the environment it was made in and the recursive group it
belongs to (`[]` for a lambda); `recEnv` ties the knot when it is entered.
`prim` names its table entry and holds the arguments collected so far. A
continuation keeps the frames above the handler it was captured by, and that
handler with its activation and scope; `contP` also keeps the handler's
parameter binder. -/
inductive Value where
  | lit (l : Lit)
  | con (tag : String) (fields : List Value)
  | record (name : String) (fields : List (String × Value))
  | closure (env : List (Unique × Value)) (defs : List Def) (params : List Binder)
      (body : Expr)
  | prim (modName name : String) (args : List Value)
  | cont (above : List Frame) (h : Handler) (act : Activation) (sc : Scope)
  | contP (param : Binder) (above : List Frame) (h : Handler) (act : Activation)
      (sc : Scope)
  | inst (self : Unique) (act : Activation)
  | bytes (bs : List UInt8)
  | handler (h : Handler) (env : List (Unique × Value))

/-- A lexical scope: term bindings and join points, innermost first. -/
structure Scope where
  env : List (Unique × Value)
  joins : List (JoinId × JoinPoint)

/-- A labelled local continuation: the scope and the continuation of the place
where the join was bound, its parameters and its body. -/
structure JoinPoint where
  scope : Scope
  params : List Binder
  body : Expr
  kont : List Frame

/-- One frame of a continuation. -/
inductive Frame where
  | let_ (b : Binder) (body : Expr) (sc : Scope)
  | app (args : List Value)
  | handle (h : Handler) (act : Activation) (sc : Scope)

end

instance : Inhabited Value := ⟨.lit .unit⟩

abbrev Env := List (Unique × Value)

abbrev JoinEnv := List (JoinId × JoinPoint)

/-- The continuation stack, innermost frame first; the empty stack is `KDone`. -/
abbrev Kont := List Frame

/-- Number of frames in a continuation, the tag of a handler installed over it. -/
def kontDepth (k : Kont) : Nat := k.length

def emptyScope : Scope := ⟨[], []⟩

/-- Machine configuration. `apply` is a pending call of `enter`. -/
inductive Config where
  | eval (e : Expr) (sc : Scope) (k : Kont)
  | ret (v : Value) (k : Kont)
  | apply (f : Value) (args : List Value) (k : Kont)

inductive RuntimeError where
  | unboundVar (hint : String)
  | unboundPrim (name : String)
  | notAFunction (rendered : String)
  | nonExhaustiveCase (rendered : String)
  | noMatchingHandler (label op : String)
  | badProjection (label : String)
  | primError (message : String)
  | arityError (message : String)
  | unsupportedCaf (message : String)
  | oneShotViolation
  deriving Repr, DecidableEq, Inhabited

/-- A computation that succeeds has a first part that succeeds. -/
theorem bind_ok {ε α β : Type} {x : Except ε α} {f : α → Except ε β} {r : β}
    (h : (x >>= f) = .ok r) : ∃ a, x = .ok a ∧ f a = .ok r := by
  cases x with
  | error e => cases h
  | ok a => exact ⟨a, rfl, h⟩

/-- What a saturated primitive asks for: a value, an application, or a run of
the cooperative scheduler. -/
inductive PrimResult where
  | done (v : Value)
  | apply (f : Value) (args : List Value)
  | drive (thunk : Value)

/-- A property of values that is transparent to data: literals and buffers have
it, constructor values and records have it when their fields do. -/
structure DataPred (P : Value → Prop) : Prop where
  lit : ∀ l, P (.lit l)
  bytes : ∀ bs, P (.bytes bs)
  con : ∀ {tag fields}, P (.con tag fields) ↔ ∀ v ∈ fields, P v
  record : ∀ {name fields}, P (.record name fields) ↔ ∀ lv ∈ fields, P lv.2

def PrimResult.All (P : Value → Prop) : PrimResult → Prop
  | .done v => P v
  | .apply f args => P f ∧ ∀ v ∈ args, P v
  | .drive thunk => P thunk

/-- A primitive's implementation takes data apart and puts it together again: it
makes no function, continuation, instance or handler of its own. -/
def MovesValues (fn : List Value → Except RuntimeError PrimResult) : Prop :=
  ∀ P : Value → Prop, DataPred P → ∀ args r, (∀ v ∈ args, P v) → fn args = .ok r → r.All P

/-- A primitive: its arity and its saturated implementation. -/
structure Prim where
  arity : Nat
  fn : List Value → Except RuntimeError PrimResult
  moves : MovesValues fn

/-- Primitives by qualified name. -/
abbrev PrimTable := String × String → Option Prim

/-! ### Environments -/

def bindBinder (b : Binder) (v : Value) (env : Env) : Env :=
  (binderUnique b, v) :: env

/-- Bind in order, so that the last of two equal binders wins; `zip` truncates. -/
def bindBinders (bs : List Binder) (vs : List Value) (env : Env) : Env :=
  (bs.zip vs).foldl (fun e bv => bindBinder bv.1 bv.2 e) env

/-- The environment of a recursive group: every member is a closure over the
same outer environment and the same group. -/
def recEnv (env : Env) (defs : List Def) : Env :=
  defs.foldr (fun d e => bindBinder d.name (.closure env defs d.params d.body) e) env

/-- Insert into a finite map kept as an association list in key order. -/
def insertField (label : String) (v : Value) :
    List (String × Value) → List (String × Value)
  | [] => [(label, v)]
  | (l, w) :: rest =>
      if label < l then (label, v) :: (l, w) :: rest
      else if label = l then (label, v) :: rest
      else (l, w) :: insertField label v rest

/-- `Map.fromList` on record fields: the last of two equal labels wins. -/
def fieldMap (fields : List (String × Value)) : List (String × Value) :=
  fields.foldl (fun m lv => insertField lv.1 lv.2 m) []

/-! ### Rendering -/

def renderLit : Lit → String
  | .int n => toString n
  | .str s => s.quote
  | .char c => c.quote
  | .unit => "()"

/-- The arity in a tag `TupleN`. -/
def tupleArity (tag : String) : Option Nat :=
  let digits := tag.toList.drop 5
  if tag.toList.take 5 = "Tuple".toList ∧ digits ≠ [] ∧ digits.all Char.isDigit then
    some (digits.foldl (fun n c => 10 * n + (c.toNat - '0'.toNat)) 0)
  else none

mutual

def renderValue : Value → String
  | .lit l => renderLit l
  | .con "Nil" [] => "[]"
  | .con "Cons" [hd, tl] => "[" ++ renderValue hd ++ renderListTail tl
  | .con tag fields =>
      if tag = "Array" then "[" ++ ", ".intercalate (renderValues fields) ++ "]"
      else if tupleArity tag = some fields.length then
        "(" ++ ", ".intercalate (renderValues fields) ++ ")"
      else if fields.isEmpty then tag
      else tag ++ "(" ++ ", ".intercalate (renderValues fields) ++ ")"
  | .record name fields =>
      name ++ " \x7b " ++ ", ".intercalate (renderFields fields) ++ " \x7d"
  | .closure .. => "<closure>"
  | .prim .. => "<builtin>"
  | .cont .. => "<continuation>"
  | .contP .. => "<continuation>"
  | .inst .. => "<instance>"
  | .handler .. => "<handler>"
  | .bytes bs => "Bytes[" ++ ",".intercalate (bs.map (fun b => toString b.toNat)) ++ "]"

/-- The rest of a list after its first element; an improper tail follows a bar. -/
def renderListTail : Value → String
  | .con "Nil" [] => "]"
  | .con "Cons" [hd, tl] => ", " ++ renderValue hd ++ renderListTail tl
  | other => " | " ++ renderValue other ++ "]"

def renderValues : List Value → List String
  | [] => []
  | v :: vs => renderValue v :: renderValues vs

def renderFields : List (String × Value) → List String
  | [] => []
  | (l, v) :: rest => (l ++ " = " ++ renderValue v) :: renderFields rest

end

end Wok.Interp
