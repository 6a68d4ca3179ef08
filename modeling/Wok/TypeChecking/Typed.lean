/-
Module: Wok.TypeChecking.Typed
Purpose: The typed patterns that inference hands to the elaborator.
Imports: Wok.TypeChecking.Types
Trusted boundary: none
Main exports: TPat
-/
import Wok.TypeChecking.Types

namespace Wok.TypeChecking

/-- A typed pattern: the annotation that every node carries is the first field
of its constructor. A record pattern is a `con` with one sub-pattern for each
declared field, in declared order. -/
inductive TPat where
  | var (ty : CType) (v : String)
  | wild (ty : CType)
  | litI (ty : CType) (i : Int)
  | litS (ty : CType) (s : String)
  | litC (ty : CType) (c : Char)
  | unit (ty : CType)
  | tuple (ty : CType) (ps : List TPat)
  | list (ty : CType) (ps : List TPat)
  | con (ty : CType) (c : String) (ps : List TPat)
  | cons (ty : CType) (h t : TPat)
  | as (ty : CType) (name : String) (inner : TPat)
  deriving Inhabited

/-- The annotation of a pattern. -/
def TPat.type : TPat → CType
  | .var ty _ => ty
  | .wild ty => ty
  | .litI ty _ => ty
  | .litS ty _ => ty
  | .litC ty _ => ty
  | .unit ty => ty
  | .tuple ty _ => ty
  | .list ty _ => ty
  | .con ty _ _ => ty
  | .cons ty _ _ => ty
  | .as ty _ _ => ty

end Wok.TypeChecking
