/-
Module: Wok.TypeChecking.Types
Purpose: Closed (post-freeze) types, the annotations that Core binders carry.
Trusted boundary: none
Main exports: TyCon, CType
-/

namespace Wok.TypeChecking

/-- Type-constructor tags. -/
inductive TyCon where
  | u64
  | u32
  | bytes
  | char
  | string
  | never
  | bool
  | unit
  | tuple (arity : Nat)
  | list
  | array
  | user (name : String)
  | effect (name : String)
  | handler (name : String)
  deriving Repr, DecidableEq, Inhabited

/-- A closed type or row. Rows are the expressions built from `rowEmpty` and
`rowExtend`; the middle slot of `arr` is a row. -/
inductive CType where
  | con (tycon : TyCon) (args : List CType)
  | arr (dom row cod : CType)
  | record (tag : String) (row : CType)
  | rowEmpty
  | rowExtend (label : String) (payload rest : CType)
  | gen (index : Nat)
  deriving Repr, Inhabited

end Wok.TypeChecking
