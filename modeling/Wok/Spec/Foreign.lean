/-
Module: Wok.Spec.Foreign
Purpose: Where the mark `owned` may stand in the signature of a foreign member, and what the
  transfers of a member's arguments are to be.
Imports: Wok.TypeChecking.Foreign
Trusted boundary: none
Main exports: Abs.Ty.Unmarked, Abs.Ty.MarkedAtHeads, TransfersFit
-/
import Wok.TypeChecking.Foreign

namespace Wok.Abs

mutual

/-- There is no `owned` in the type. -/
def Ty.Unmarked : Ty → Prop
  | .tQual ctx body => ctx.Unmarked ∧ body.Unmarked
  | .tWith a b effs => a.Unmarked ∧ b.Unmarked ∧ effs.Unmarked
  | .tFun a b => a.Unmarked ∧ b.Unmarked
  | .tApp f x => f.Unmarked ∧ x.Unmarked
  | .tVar _ => True
  | .tCon _ => True
  | .tList inner => inner.Unmarked
  | .tTuple a others => a.Unmarked ∧ UnmarkedAll others
  | .tParen t => t.Unmarked
  | .tUnit => True
  | .tRowArg _ => True
  | .tOwned _ => False
  | .tExtend t _ rc => t.Unmarked ∧ rc.Unmarked

def UnmarkedAll : List Ty → Prop
  | [] => True
  | t :: ts => t.Unmarked ∧ UnmarkedAll ts

def EffectAtom.Unmarked : EffectAtom → Prop
  | .erAtom _ args => UnmarkedAll args

def EffectRow.Unmarked : EffectRow → Prop
  | .erOne atom => atom.Unmarked
  | .erPlus atom _ rest => atom.Unmarked ∧ rest.Unmarked
  | .erVarOnly _ => True
  | .erWildOnly => True

def RowContrib.Unmarked : RowContrib → Prop
  | .rcAnon fields => UnmarkedFields fields
  | .rcVar _ => True
  | .rcWild => True

def UnmarkedFields : List RecordFieldType → Prop
  | [] => True
  | .rfType _ t :: fields => t.Unmarked ∧ UnmarkedFields fields

end

/-- There is no `owned` in the type but at its head. -/
def Ty.MarkedAtHead : Ty → Prop
  | .tOwned t => t.Unmarked
  | .tParen t => t.MarkedAtHead
  | t => t.Unmarked

/-- There is no `owned` in the signature but at the heads of its parameters. -/
def Ty.MarkedAtHeads : Ty → Prop
  | .tFun a rest => a.MarkedAtHead ∧ rest.MarkedAtHeads
  | .tWith a rest effs => a.MarkedAtHead ∧ effs.Unmarked ∧ rest.MarkedAtHeads
  | .tParen t => t.MarkedAtHeads
  | .tQual ctx body => ctx.Unmarked ∧ body.MarkedAtHeads
  | t => t.Unmarked

end Wok.Abs

namespace Wok.TypeChecking

open Wok.FFI

/-- The transfers of a registered member: one for each parameter of its translated type, the
blessed symbol's own at each position, and a handing-over only of `Bytes`. -/
structure TransfersFit (lib : String) (info : Env.ForeignMemberInfo) : Prop where
  length : info.argTransfer.length = (paramCTypesOf info.scheme.body).length
  blessed : ∃ bsig, lookupBlessed lib info.sym = some bsig ∧
    ∀ i < (paramCTypesOf info.scheme.body).length,
      info.argTransfer[i]? = some (transferAt bsig.argTransfer i)
  bytes : ∀ i : Nat, info.argTransfer[i]? = some ArgTransfer.moveOut →
    (paramCTypesOf info.scheme.body)[i]? = some (CType.con .bytes [])

end Wok.TypeChecking
