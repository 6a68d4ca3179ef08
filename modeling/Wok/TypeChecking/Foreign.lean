/-
Module: Wok.TypeChecking.Foreign
Purpose: Registration of foreign modules: the checks of a member against the blessed
  symbols, and the transfers of its arguments.
Imports: Wok.TypeChecking.Signature
Trusted boundary: none
Main exports: classifyOwnedParams, paramCTypesOf, finalReturnCType, registerMember,
  registerForeign, processForeignDecls
-/
import Wok.TypeChecking.Signature

namespace Wok.TypeChecking

open Wok.Abs (Pos)
open Wok.FFI

/-! ### Arguments -/

/-- A parameter: whether it is handed over, and its type without the mark. -/
def argOf : Abs.Ty → ArgTransfer × Abs.Ty
  | .tOwned t => (.moveOut, t)
  | .tParen t => ((argOf t).1, .tParen (argOf t).2)
  | t => (.none, t)

/-- The transfers of the parameters of a signature, and the signature without the marks at
the heads of its parameters. -/
def classifyOwnedParams : Abs.Ty → List ArgTransfer × Abs.Ty
  | .tFun a rest =>
      ((argOf a).1 :: (classifyOwnedParams rest).1,
        .tFun (argOf a).2 (classifyOwnedParams rest).2)
  | .tWith a rest eff =>
      ((argOf a).1 :: (classifyOwnedParams rest).1,
        .tWith (argOf a).2 (classifyOwnedParams rest).2 eff)
  | .tParen t => ((classifyOwnedParams t).1, .tParen (classifyOwnedParams t).2)
  | .tQual ctx body => ((classifyOwnedParams body).1, .tQual ctx (classifyOwnedParams body).2)
  | t => ([], t)

def paramCTypesOf : CType → List CType
  | .arr a _ b => a :: paramCTypesOf b
  | _ => []

def finalReturnCType : CType → CType
  | .arr _ _ b => finalReturnCType b
  | t => t

/-- The transfer at a position; a missing one is none. -/
def transferAt (xs : List ArgTransfer) (i : Nat) : ArgTransfer := (xs[i]?).getD .none

/-! ### Members -/

section

variable {E : Type}

def require (ok : Bool) (e : SigError) : Except SigError Unit := if ok then .ok () else .error e

/-- What is to be said of a member that is declared `owned` and should not be, or the other
way round. -/
def ownedMessage (memberName : String) (expectedOwned : Bool) (ret : ReturnDisp) : String :=
  if expectedOwned then
    "foreign member '" ++ memberName ++ "' returns an owned buffer; declare it `owned` and" ++
      " give the module a `free` clause"
  else
    match ret with
    | .copy => "foreign member '" ++ memberName ++
        "' returns a copy-managed buffer; remove `owned`"
    | .borrow => "foreign member '" ++ memberName ++ "' returns a borrowed view; remove `owned`"
    | _ => "foreign member '" ++ memberName ++ "' returns a scalar; remove `owned`"

/-- The member's `owned`, and the module's `free`, agree with the blessed return. -/
def checkReturn (pos : Pos) (modName memberName : String) (free : Option String) (isOwned : Bool)
    (bsig : BlessedSig) : Except SigError Unit := do
  require (!(isOwned && free.isNone)) (.foreignOwnedNeedsFree (some pos) modName memberName)
  let expectedOwned := decide (bsig.ret = .adopt)
  require (isOwned == expectedOwned) (.foreignDispositionMismatch (some pos) memberName
    (ownedMessage memberName expectedOwned bsig.ret))
  require (!(bsig.ret = .adopt && free ≠ some "free"))
    (.foreignDispositionMismatch (some pos) memberName
      ("foreign member '" ++ memberName ++
        "' is adopt-return; the module's `free` clause must be" ++
        " \"free\" (the only supported destructor), got " ++
        (match free with
          | some s => "\"" ++ s ++ "\""
          | none => "<none>")))

/-- Only parameters of type `Bytes` are handed over. -/
def checkBytes (pos : Pos) (memberName : String) (transfers : List ArgTransfer)
    (params : List CType) : Except SigError Unit :=
  (transfers.zip params).forM fun (transfer, t) =>
    require (!(transfer = .moveOut && t ≠ .con .bytes []))
      (.foreignOwnedArgNotBytes (some pos) memberName
        ("foreign member '" ++ memberName ++ "' declares an `owned` parameter of type " ++
          prettyCType t ++ "; `owned` is only supported on `Bytes` parameters"))

/-- What the signature hands over, the blessed symbol takes. -/
def checkBlessed (pos : Pos) (lib cSymbol memberName : String)
    (transfers blessed : List ArgTransfer) : Except SigError Unit :=
  transfers.zipIdx.forM fun (transfer, i) =>
    require (!(transfer = .moveOut && transferAt blessed i ≠ .moveOut))
      (.foreignOwnedArgNotBlessed (some pos) memberName
        ("foreign member '" ++ memberName ++ "' declares an `owned` parameter at position " ++
          toString i ++ ", but " ++ lib ++ "." ++ cSymbol ++
          " is not blessed with a matching `MoveOut` there"))

/-- What the blessed symbol takes, the signature hands over. Behind the parameters, the
message supposes `Bytes`. -/
def checkOwned (pos : Pos) (lib cSymbol memberName : String)
    (transfers blessed : List ArgTransfer) (params : List CType) : Except SigError Unit :=
  blessed.zipIdx.forM fun (transfer, i) =>
    require (!(transfer = .moveOut && transferAt transfers i ≠ .moveOut))
      (.foreignBlessedMoveOutNeedsOwned (some pos) memberName
        ("foreign member '" ++ memberName ++ "' is blessed to take ownership of parameter " ++
          toString i ++ " (" ++ lib ++ "." ++ cSymbol ++
          " is a transfer-full sink there); declare it as `owned " ++
          prettyCType ((params[i]?).getD (.con .bytes [])) ++ "`"))

/-- The name, the symbol, the type and the mark of a member. -/
def memberParts : Abs.ForeignMember → Abs.VarId × Abs.ForeignSym × Abs.Ty × Bool
  | .fmPlain v s t => (v, s, t, false)
  | .fmOwned v s t => (v, s, t, true)

def blessedSig (pos : Pos) (lib cSymbol : String) : Except SigError BlessedSig :=
  match lookupBlessed lib cSymbol with
  | none => .error (.foreignSymbolNotBlessed (some pos) lib cSymbol)
  | some bsig => .ok bsig

/-- What a member is registered as. -/
def memberInfo (env : Env E) (modName lib : String) (free : Option String)
    (mem : Abs.ForeignMember) : Except SigError Env.ForeignMemberInfo := do
  let (v, fsym, ty, isOwned) := memberParts mem
  let memberName := v.text
  let cSymbol := match fsym with
    | .fsNone => memberName
    | .fsName s => s
  let bsig ← blessedSig v.pos lib cSymbol
  checkReturn v.pos modName memberName free isOwned bsig
  let (transfers, tyStripped) := classifyOwnedParams ty
  let scheme ← translateSig env tyStripped
  let params := paramCTypesOf scheme.body
  checkBytes v.pos memberName transfers params
  checkBlessed v.pos lib cSymbol memberName transfers bsig.argTransfer
  checkOwned v.pos lib cSymbol memberName transfers bsig.argTransfer params
  require (!(bsig.ret = .borrow && finalReturnCType scheme.body ≠ .con (.user "Borrow") []))
    (.foreignDispositionMismatch (some v.pos) memberName
      ("foreign member '" ++ memberName ++ "' is blessed as a borrow-disposition producer; its" ++
        " declared return type must be `Borrow`"))
  return ⟨scheme, cSymbol, isOwned, transfers⟩

def registerMember (env : Env E) (modName lib : String) (free : Option String)
    (acc : Dict Env.ForeignMemberInfo) (mem : Abs.ForeignMember) :
    Except SigError (Dict Env.ForeignMemberInfo) := do
  let info ← memberInfo env modName lib free mem
  return acc.insert (memberParts mem).1.text info

/-! ### Modules -/

def freeSymbol : Abs.ForeignFree → Option String
  | .ffNone => none
  | .ffSym s => some s

/-- Registers a foreign module under a name that is neither an effect's nor another
module's. -/
def registerForeign (env : Env E) (d : Abs.DForeign) : Except SigError (Env E) := do
  require (lookupEffect d.c.text env).isNone (.ambiguousProjectionHead (some d.c.pos) d.c.text)
  require (lookupForeignModule d.c.text env).isNone
    (.duplicateForeignModule (some d.c.pos) d.c.text)
  let members ← d.members.foldlM (registerMember env d.c.text d.lib (freeSymbol d.free)) []
  return extendForeignModule d.c.text ⟨d.lib, freeSymbol d.free, members⟩ env

def processForeignDecls (env : Env E) (ds : List Abs.DForeign) : Except SigError (Env E) :=
  ds.foldlM registerForeign env

end

end Wok.TypeChecking
