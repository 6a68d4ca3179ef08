/-
Module: Wok.FFI.Blessed
Purpose: The foreign symbols that the interpreter trusts, and what is known of the way
  they are called.
Imports: Mathlib.Data.Nat.Notation
Trusted boundary: none
Main exports: ReturnDisp, ArgTransfer, BlessedSig, blessedTable, lookupBlessed
-/
import Mathlib.Data.Nat.Notation

namespace Wok.FFI

/-- How the callee's return value is handed to the runtime. -/
inductive ReturnDisp where
  | scalar
  | copy
  | adopt
  | borrow
  deriving Repr, DecidableEq

/-- How the ownership of an argument is handed to the callee. -/
inductive ArgTransfer where
  | none
  | moveOut
  deriving Repr, DecidableEq

structure BlessedSig where
  ret : ReturnDisp
  argTransfer : List ArgTransfer
  deriving Repr, DecidableEq

/-- The complete list of library and symbol pairs that are accepted. -/
def blessedTable : List ((String × String) × BlessedSig) :=
  [(("c", "memchr"), ⟨.scalar, []⟩),
   (("c", "strndup"), ⟨.adopt, []⟩),
   (("wok", "lendBuffer"), ⟨.borrow, []⟩),
   (("wok", "consume"), ⟨.scalar, [.moveOut]⟩)]

def lookupBlessed (lib sym : String) : Option BlessedSig := blessedTable.lookup (lib, sym)

end Wok.FFI
