/-
Module: Wok.TypeChecking.Env
Purpose: What the elaborator reads of the type environment when it lowers
  patterns.
Imports: Wok.TypeChecking.Types
Trusted boundary: none
Main exports: ConInfo, TyConInfo, RecordConInfo, TypeEnv
-/
import Wok.TypeChecking.Types

namespace Wok.TypeChecking

/-- A positional data constructor. -/
structure ConInfo where
  arity : Nat
  tyCon : String
  deriving Repr, Inhabited

/-- A type constructor: its positional data constructors. -/
structure TyConInfo where
  cons : List String
  deriving Repr, Inhabited

/-- A record constructor: its fields in declaration order. -/
structure RecordConInfo where
  fields : List (String × CType)
  deriving Inhabited

/-- The namespaces of constructors, of type constructors and of record
constructors. One name may stand in several of them. -/
structure TypeEnv where
  cons : List (String × ConInfo)
  tyCons : List (String × TyConInfo)
  recordCons : List (String × RecordConInfo)
  deriving Inhabited

def TypeEnv.lookupCon (k : String) (env : TypeEnv) : Option ConInfo := env.cons.lookup k

def TypeEnv.lookupTyCon (k : String) (env : TypeEnv) : Option TyConInfo := env.tyCons.lookup k

def TypeEnv.lookupRecordCon (k : String) (env : TypeEnv) : Option RecordConInfo :=
  env.recordCons.lookup k

end Wok.TypeChecking
