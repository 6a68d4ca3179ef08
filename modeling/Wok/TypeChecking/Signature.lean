/-
Module: Wok.TypeChecking.Signature
Purpose: The translation of a written signature to a type scheme: its type variables, its
  rows, its constructors and its constraints.
Imports: Mathlib.Data.List.Sort, Wok.Abs, Wok.TypeChecking.Class
Trusted boundary: none
Main exports: SigError, SigM, prettyCType, checkConcPayload, goT, goRC, goEffectRow,
  constraintsOfType, translateSig
-/
import Mathlib.Data.List.Sort
import Wok.Abs
import Wok.TypeChecking.Class

namespace Wok.TypeChecking

open Wok.Abs (Pos)

/-- What the translation of signatures and of foreign members reports. `panic` is a call of
`error`. -/
inductive SigError where
  | unsupportedFeature (sp : SourceSpan) (what : String)
  | ownedModifierMisplaced (sp : SourceSpan) (message : String)
  | arityMismatch (sp : SourceSpan) (name : String) (expected got : Nat)
  | unknownTyCon (sp : SourceSpan) (name : String)
  | missingEffectDecl (sp : SourceSpan) (name : String)
  | ioEffectNotHandleable (sp : SourceSpan)
  | tyConArgKind (sp : SourceSpan) (name : String) (i : Nat) (expected actual : Kind)
  | concPayloadEffectful (sp : SourceSpan) (payload : String)
  | nonPlusTypeOp (sp : SourceSpan) (op : String)
  | unknownClass (name : String)
  | foreignSymbolNotBlessed (sp : SourceSpan) (lib sym : String)
  | foreignOwnedNeedsFree (sp : SourceSpan) (module member : String)
  | foreignDispositionMismatch (sp : SourceSpan) (member message : String)
  | foreignOwnedArgNotBytes (sp : SourceSpan) (member message : String)
  | foreignOwnedArgNotBlessed (sp : SourceSpan) (member message : String)
  | foreignBlessedMoveOutNeedsOwned (sp : SourceSpan) (member message : String)
  | ambiguousProjectionHead (sp : SourceSpan) (name : String)
  | duplicateForeignModule (sp : SourceSpan) (name : String)
  | panic (message : String)
  deriving DecidableEq

/-! ### Names -/

/-- The whole text of a path. -/
def modPathText : Abs.ModPath → String
  | .mpName c => c.text
  | .mpDot p c => modPathText p ++ "." ++ c.text

def modPathPos : Abs.ModPath → Pos
  | .mpName c => c.pos
  | .mpDot p _ => modPathPos p

def resolveTyCon (name : String) : TyCon := resolveTyConName name

/-- The effect `IO` without operations, which the runtime discharges. -/
def isGroundIO (n : String) (ei : Env.EffectInfo) : Bool := n = "IO" && ei.ops.isEmpty

/-- The carriers whose payload is first-order data. -/
def concCarrierTys : List String := ["Promise", "Chan"]

/-! ### Rendering, for the errors -/

def varName (i : Nat) : String :=
  if i < 26 then String.singleton (Char.ofNat ('a'.toNat + i)) else "t" ++ toString i

/-- `show`, of the type constructors that have no rendering of their own. -/
def showTyCon : TyCon → String
  | .u64 => "TcU64"
  | .u32 => "TcU32"
  | .bytes => "TcBytes"
  | .char => "TcChar"
  | .string => "TcString"
  | .never => "TcNever"
  | .bool => "TcBool"
  | .unit => "TcUnit"
  | .tuple n => "TcTuple " ++ toString n
  | .list => "TcList"
  | .array => "TcArray"
  | .user n => "TcUser \"" ++ n ++ "\""
  | .effect n => "TcEffect \"" ++ n ++ "\""
  | .handler n => "TcHandler \"" ++ n ++ "\""

/-- A row of a record. Only a row is rendered. -/
def prettyCRow : CType → String
  | .rowExtend l _ rest => l ++ "," ++ prettyCRow rest
  | .gen i => "r" ++ toString i
  | _ => ""

/-- The row of an arrow, behind `with`. Only a row is rendered. -/
def prettyEffectRow (lead : String) : CType → String
  | .rowExtend l _ rest => lead ++ l ++ prettyEffectRow " + " rest
  | .gen i => lead ++ "eff " ++ varName i
  | _ => ""

/-- A name and its arguments. -/
def applyText (name : String) : List String → String
  | [] => name
  | args => name ++ " " ++ " ".intercalate args

mutual

/-- The rendering of a type, whether it needs no brackets as an argument of an application,
and whether it needs none to the left of an arrow. -/
def prettyParts : CType → String × Bool × Bool
  | .gen i => (varName i, true, true)
  | .con c ts =>
      let parts := prettyArgs ts
      let texts := parts.map fun p => p.1
      let atoms := parts.map fun p => p.2.1
      let solid := (parts.filter fun p => !p.2.2).map fun p => p.2.1
      match c, ts with
      | .u64, [] => ("U64", true, true)
      | .u32, [] => ("U32", true, true)
      | .bytes, [] => ("Bytes", true, true)
      | .char, [] => ("Char", true, true)
      | .string, [] => ("String", true, true)
      | .never, [] => ("Never", true, true)
      | .bool, [] => ("Bool", true, true)
      | .unit, [] => ("()", true, true)
      | .list, [_] => ("[" ++ "".intercalate texts ++ "]", true, true)
      | .array, [_] => ("Array " ++ "".intercalate atoms, true, true)
      | .tuple _, _ => ("(" ++ ", ".intercalate texts ++ ")", true, true)
      | .user n, _ => (applyText n solid, ts.isEmpty, true)
      | .effect n, _ => (applyText n solid, ts.isEmpty, true)
      | .handler n, _ =>
          if 2 ≤ ts.length then
            let params := atoms.take (ts.length - 2)
            let effTxt := if params.isEmpty then n else "(" ++ applyText n params ++ ")"
            ("Handler " ++ effTxt ++
              "".intercalate ((atoms.drop (ts.length - 2)).map fun t => " " ++ t), true, true)
          else (showTyCon c ++ " " ++ " ".intercalate atoms, true, true)
      | _, _ => (showTyCon c ++ " " ++ " ".intercalate atoms, true, true)
  | .record tag row => (tag ++ " \x7b " ++ prettyCRow row ++ " \x7d", true, true)
  | .arr a r b =>
      let (ta, _, arga) := prettyParts a
      let (tb, _, _) := prettyParts b
      let arrow := (if arga then ta else "(" ++ ta ++ ")") ++ " -> " ++ tb
      (match r with
        | .rowEmpty => arrow
        | _ => arrow ++ " with " ++ prettyEffectRow "" r, false, false)
  | .rowEmpty => ("{}", true, true)
  | .rowExtend l _ rest => ("\x7b" ++ l ++ " | " ++ (prettyParts rest).1 ++ "\x7d", true, true)

/-- Of each argument: its text, its text as an atom, and whether it is the empty row. -/
def prettyArgs : List CType → List (String × String × Bool)
  | [] => []
  | t :: ts =>
      let (text, atom, _) := prettyParts t
      (text, if atom then text else "(" ++ text ++ ")",
        match t with
        | .rowEmpty => true
        | _ => false) :: prettyArgs ts

end

/-- `prettyCType`. -/
def prettyCType (t : CType) : String := (prettyParts t).1

/-! ### Carriers -/

section

variable {E : Type}

/-- The first fields of a constructor's scheme. -/
def conFieldTys : Nat → CType → List CType
  | k + 1, .arr d _ c => d :: conFieldTys k c
  | _, _ => []

/-- The declared field types of a constructor. -/
def conFields (env : Env E) (cn : String) : List CType :=
  match lookupCon cn env with
  | some ci => conFieldTys ci.arity ci.scheme.body
  | none =>
      match lookupRecordCon cn env with
      | some rc => rc.fields.map (·.2)
      | none => []

/-- The type constructors that have not been looked into. -/
def unseen (env : Env E) (seen : List String) : Nat :=
  (env.tyCons.filter fun e => e.1 ∉ seen).length

theorem unseen_cons_lt {env : Env E} {seen : List String} {n : String} {info : Env.TyConInfo}
    (hn : n ∉ seen) (h : lookupTyCon n env = some info) :
    unseen env (n :: seen) < unseen env seen := by
  unfold lookupTyCon at h
  unfold unseen
  obtain ⟨l₁, l₂, hm, _⟩ := List.lookup_eq_some_iff.mp h
  have hle : ∀ l : Dict Env.TyConInfo,
      (l.filter fun e => decide (e.1 ∉ n :: seen)).length ≤
        (l.filter fun e => decide (e.1 ∉ seen)).length := by
    intro l
    rw [← List.countP_eq_length_filter, ← List.countP_eq_length_filter]
    refine List.countP_mono_left fun e _ he => ?_
    simp only [List.mem_cons, not_or, decide_eq_true_eq] at he ⊢
    exact he.2
  have h₁ := hle l₁
  have h₂ := hle l₂
  rw [hm]
  simp only [List.filter_append, List.filter_cons, List.mem_cons, true_or, not_true_eq_false,
    decide_false, Bool.false_eq_true, if_false, hn, not_false_eq_true, decide_true, if_true,
    List.length_append, List.length_cons] at h₁ h₂ ⊢
  omega

mutual

/-- A payload holds no function and no carrier, in the type and in the fields of the types
it names. -/
def checkConcPayload (env : Env E) (sp : SourceSpan) (seen : List String) (t : CType) :
    Except SigError Unit :=
  match t with
  | .arr a r b => .error (.concPayloadEffectful sp (prettyCType (.arr a r b)))
  | .con tc args =>
      match tc with
      | .user n =>
          if ((lookupTyCon n env).map (·.carrier)).getD false then
            .error (.concPayloadEffectful sp (prettyCType (.con tc args)))
          else do
            checkConcPayloads env sp seen args
            if _ : n ∈ seen then return ()
            else
              match _ : lookupTyCon n env with
              | none => return ()
              | some info =>
                  checkConcPayloads env sp (n :: seen) (info.cons.flatMap (conFields env))
      | _ => checkConcPayloads env sp seen args
  | .record _ row => checkConcPayload env sp seen row
  | .gen _ => .ok ()
  | .rowEmpty => .ok ()
  | .rowExtend _ ft rs => do
      checkConcPayload env sp seen ft
      checkConcPayload env sp seen rs
termination_by (unseen env seen, sizeOf t)
decreasing_by
  all_goals simp_wf
  all_goals try (apply Prod.Lex.right; omega)
  exact Prod.Lex.left _ _ (unseen_cons_lt ‹_› ‹_›)

def checkConcPayloads (env : Env E) (sp : SourceSpan) (seen : List String) (ts : List CType) :
    Except SigError Unit :=
  match ts with
  | [] => .ok ()
  | t :: ts => do
      checkConcPayload env sp seen t
      checkConcPayloads env sp seen ts
termination_by (unseen env seen, sizeOf ts)
decreasing_by
  all_goals simp_wf
  all_goals apply Prod.Lex.right; omega

end

/-! ### Rows -/

/-- What ends a row. -/
def cRowTail : CType → Except SigError CType
  | .rowEmpty => .ok .rowEmpty
  | .gen i => .ok (.gen i)
  | .rowExtend _ _ rest => cRowTail rest
  | _ => .error (.panic "cRowTail: expected a row")

/-- Puts a tail where a row is closed; an open row keeps its own. -/
def replaceCREmpty (newTail : CType) : CType → Except SigError CType
  | .rowEmpty => .ok newTail
  | .gen i => .ok (.gen i)
  | .rowExtend l t rest => return .rowExtend l t (← replaceCREmpty newTail rest)
  | _ => .error (.panic "replaceCREmpty: expected a row")

/-- Puts the labels of the first row before the second. -/
def prependLabels (ext base : CType) : Except SigError CType :=
  match ext with
  | .rowEmpty => .ok base
  | .gen _ => .ok base
  | .rowExtend l t rest => return .rowExtend l t (← prependLabels rest base)
  | _ => .error (.panic "prependLabels: expected a row")

def appendCRow (ext base : CType) : Except SigError CType := do
  prependLabels ext (← replaceCREmpty (← cRowTail ext) base)

/-- A closed row of fields, in the order in which they are given. -/
def buildCRow (fields : List (String × CType)) : CType :=
  fields.foldr (fun f acc => .rowExtend f.1 f.2 acc) .rowEmpty

/-! ### Signatures -/

/-- The numbers of the type variables and of the row variables, and the next number. -/
structure SigState where
  seen : Dict Nat
  next : Nat
  rowSeen : Dict Nat

abbrev SigM := StateT SigState (Except SigError)

def throwSig {α : Type} (e : SigError) : SigM α := StateT.lift (.error e)

/-- The number of a type variable, a new one if it has none. -/
def typeSlot (name : String) : SigM CType := fun s =>
  match s.seen.lookup name with
  | some i => .ok (.gen i, s)
  | none => .ok (.gen s.next, { s with seen := s.seen.insert name s.next, next := s.next + 1 })

/-- The number of a row variable, a new one if it has none. -/
def rowSlot (key : String) : SigM CType := fun s =>
  match s.rowSeen.lookup key with
  | some i => .ok (.gen i, s)
  | none =>
      .ok (.gen s.next, { s with rowSeen := s.rowSeen.insert key s.next, next := s.next + 1 })

/-- A row variable of its own, under a key that no source name has. -/
def freshAnonRowSlot : SigM CType := fun s =>
  .ok (.gen s.next,
    { s with rowSeen := s.rowSeen.insert (".." ++ toString s.next) s.next, next := s.next + 1 })

/-- The head and the arguments of a left-nested application. -/
def collectApp : Abs.Ty → Abs.Ty → Abs.Ty × List Abs.Ty
  | .tApp f x, y => ((collectApp f x).1, (collectApp f x).2 ++ [y])
  | other, y => (other, [y])

def stripTParen : Abs.Ty → Abs.Ty
  | .tParen t => stripTParen t
  | t => t

/-- A row as an argument is of kind effect, anything else is a type. -/
def argKind : Abs.Ty → Kind
  | .tRowArg _ => .effect
  | _ => .star

/-- The arguments are of the kinds of the parameters, as far as both go. -/
def checkArgKinds (pos : Pos) (name : String) (args : List Abs.Ty) (kinds : List Kind) :
    Except SigError Unit :=
  ((args.zip kinds).zipIdx).forM fun ((a, k), i) =>
    if argKind a = k then .ok () else .error (.tyConArgKind (some pos) name i k (argKind a))

/-- The effect that a handler type is about, with its arguments. -/
def handlerEffect (pos : Pos) (t : Abs.Ty) : Except SigError (String × List Abs.Ty) :=
  let failure :=
    .error (.unsupportedFeature (some pos) "Handler's first argument must be an effect")
  match stripTParen t with
  | .tCon p => .ok (modPathText p, [])
  | .tApp f x =>
      match collectApp f x with
      | (.tCon p, args) => .ok (modPathText p, args)
      | _ => failure
  | _ => failure

/-- The checks of a handler type before its arguments are translated: the name of its
effect. -/
def checkHandler (env : Env E) (pos : Pos) (effArg aArg bArg : Abs.Ty) :
    Except SigError String := do
  let (effName, effArgs) ← handlerEffect pos effArg
  match lookupEffect effName env with
  | none => .error (.missingEffectDecl (some pos) effName)
  | some eInfo =>
      if isGroundIO effName eInfo then .error (.ioEffectNotHandleable (some pos))
      else if eInfo.params.length ≠ effArgs.length then
        .error (.arityMismatch (some pos) effName eInfo.params.length effArgs.length)
      else do
        checkArgKinds pos effName effArgs (eInfo.params.map (·.2))
        checkArgKinds pos "Handler" [aArg, bArg] [.star, .star]
        return effName

/-- What an applied constructor is: a type, or an effect. -/
inductive AppHead where
  | tyCon (name : String)
  | effect (name : String)

/-- The checks of an application before its arguments are translated. -/
def checkApp (env : Env E) (pos : Pos) (name : String) (args : List Abs.Ty) :
    Except SigError AppHead :=
  match lookupTyCon name env with
  | some info =>
      if info.arity = args.length then do
        checkArgKinds pos name args info.paramKinds
        return .tyCon name
      else .error (.arityMismatch (some pos) name info.arity args.length)
  | none =>
      match lookupEffect name env with
      | some eInfo =>
          if eInfo.params.length = args.length then do
            checkArgKinds pos name args (eInfo.params.map (·.2))
            return .effect name
          else .error (.arityMismatch (some pos) name eInfo.params.length args.length)
      | none => .error (.unknownTyCon (some pos) name)

/-- The application to translated arguments. A carrier's are checked. -/
def buildApp (env : Env E) (pos : Pos) (head : AppHead) (args : List CType) :
    Except SigError CType :=
  match head with
  | .tyCon name => do
      if name ∈ concCarrierTys then checkConcPayloads env (some pos) [] args
      return .con (resolveTyCon name) args
  | .effect name => return .con (.effect name) args

/-- A constructor without arguments that is no record type. -/
def plainCon (env : Env E) (pos : Pos) (name : String) : Except SigError CType :=
  match lookupTyCon name env with
  | some info =>
      if info.arity = 0 then .ok (.con (resolveTyCon name) [])
      else .error (.arityMismatch (some pos) name info.arity 0)
  | none =>
      match lookupEffect name env with
      | some eInfo =>
          if eInfo.params.length = 0 then .ok (.con (.effect name) [])
          else .error (.arityMismatch (some pos) name eInfo.params.length 0)
      | none => .error (.unknownTyCon (some pos) name)

/-- A constructor without arguments: a record type, a type, or an effect. -/
def buildCon (env : Env E) (pos : Pos) (name : String) : Except SigError CType :=
  match lookupRecordCon name env with
  | some rcInfo =>
      if rcInfo.tag = name then
        if ((lookupTyCon name env).map (·.arity)).getD 0 ≠ 0 then
          .error (.unsupportedFeature (some pos)
            ("parameterised record type in sig not yet supported: " ++ name))
        else .ok (.record name (buildCRow rcInfo.fields))
      else plainCon env pos name
  | none => plainCon env pos name

/-- The payload of an effect's label in a row. -/
def effectPayload : List CType → CType
  | [] => .con .unit []
  | [t] => t
  | ts => .con (.tuple ts.length) ts

mutual

/-- Translates a type. -/
def goT (env : Env E) : Abs.Ty → SigM CType
  | .tQual _ _ => throwSig (.unsupportedFeature none
      "nested qualified type (constraint context) not supported")
  | .tOwned _ => throwSig (.ownedModifierMisplaced none
      "`owned` is only allowed on a `Bytes` parameter of a foreign-module member")
  | .tFun a b => return .arr (← goT env a) .rowEmpty (← goT env b)
  | .tVar v => typeSlot v.text
  | .tCon p => StateT.lift (buildCon env (modPathPos p) (modPathText p))
  | .tApp f x =>
      match collectApp f x with
      | (.tCon p, args) =>
          if modPathText p = "Handler" ∧ lookupTyCon "Handler" env = none then
            match f with
            | .tApp (.tApp (.tCon _) effArg) aArg => do
                let effName ← StateT.lift (checkHandler env (modPathPos p) effArg aArg x)
                let effCTs ← goEffArgs env effArg
                let aCT ← goT env aArg
                let bCT ← goT env x
                return .con (.handler effName) (effCTs ++ [aCT, bCT])
            | _ => throwSig (.arityMismatch (some (modPathPos p)) "Handler" 3 args.length)
          else do
            let head ← StateT.lift (checkApp env (modPathPos p) (modPathText p) args)
            let fs ← goArgs env f
            let t ← goT env x
            StateT.lift (buildApp env (modPathPos p) head (fs ++ [t]))
      | _ => throwSig (.unsupportedFeature none "non-tycon type application")
  | .tList inner => return .con .list [← goT env inner]
  | .tTuple a others => do
      let t ← goT env a
      let ts ← goTs env others
      return .con (.tuple (1 + others.length)) (t :: ts)
  | .tParen t => goT env t
  | .tUnit => pure (.con .unit [])
  | .tRowArg v => rowSlot ("eff:" ++ v.text)
  | .tWith a b effs => do
      let ca ← goT env a
      let row ← goEffectRow env effs
      return .arr ca row (← goT env b)
  | .tExtend lhs op rc =>
      if op.text ≠ "+" then throwSig (.nonPlusTypeOp (some op.pos) op.text)
      else do
        let lhsCT ← goT env lhs
        match lhsCT with
        | .record tag lhsRow => do
            let extRow ← goRC env rc
            return .record tag (← StateT.lift (appendCRow extRow lhsRow))
        | _ => throwSig (.unsupportedFeature none
            "left of `+` in a type sig must be a nominal record type")

/-- The arguments of a left-nested application, from left to right. -/
def goArgs (env : Env E) : Abs.Ty → SigM (List CType)
  | .tApp f x => return (← goArgs env f) ++ [← goT env x]
  | _ => pure []

/-- The arguments of a handler's effect. -/
def goEffArgs (env : Env E) : Abs.Ty → SigM (List CType)
  | .tParen t => goEffArgs env t
  | .tApp f x => return (← goArgs env f) ++ [← goT env x]
  | _ => pure []

def goTs (env : Env E) : List Abs.Ty → SigM (List CType)
  | [] => pure []
  | t :: ts => return (← goT env t) :: (← goTs env ts)

/-- Translates what a record is extended by to a row. -/
def goRC (env : Env E) : Abs.RowContrib → SigM CType
  | .rcAnon fields => return buildCRow (← goFields env fields)
  | .rcVar v => rowSlot v.text
  | .rcWild => freshAnonRowSlot

def goFields (env : Env E) : List Abs.RecordFieldType → SigM (List (String × CType))
  | [] => pure []
  | .rfType v t :: fields => return (v.text, ← goT env t) :: (← goFields env fields)

/-- Translates the row behind `with`. -/
def goEffectRow (env : Env E) : Abs.EffectRow → SigM CType
  | .erOne atom => do
      let (l, t) ← goEffectAtom env atom
      return .rowExtend l t .rowEmpty
  | .erPlus atom op rest =>
      if op.text ≠ "+" then throwSig (.nonPlusTypeOp (some op.pos) op.text)
      else do
        let (l, t) ← goEffectAtom env atom
        return .rowExtend l t (← goEffectRow env rest)
  | .erVarOnly v => rowSlot ("eff:" ++ v.text)
  | .erWildOnly => freshAnonRowSlot

def goEffectAtom (env : Env E) : Abs.EffectAtom → SigM (String × CType)
  | .erAtom name args =>
      match lookupEffect name.text env with
      | none => throwSig (.missingEffectDecl (some name.pos) name.text)
      | some eInfo => do
          StateT.lift (checkArgKinds name.pos name.text args (eInfo.params.map (·.2)))
          return (name.text, effectPayload (← goTs env args))

end

/-- A single-parameter class application. -/
def classApp : Abs.Ty → Option (String × Abs.Ty)
  | .tParen t => classApp t
  | .tApp (.tCon p) a => some (modPathText p, a)
  | _ => none

/-- The class applications before `=>`; `none` is one that is none. -/
def constraintsOfType : Abs.Ty → List (Option (String × Abs.Ty))
  | .tParen t => constraintsOfType t
  | .tTuple a others => (a :: others).map classApp
  | t => [classApp t]

/-- The context and the body of a signature. -/
def splitQual : Abs.Ty → List (Option (String × Abs.Ty)) × Abs.Ty
  | .tQual lhs b => (constraintsOfType lhs, b)
  | ty => ([], ty)

def contextPair : Option (String × Abs.Ty) → SigM (String × Abs.Ty)
  | some pair => pure pair
  | none => throwSig (.unknownClass "<malformed constraint context>")

def goConstraint (env : Env E) (c : String × Abs.Ty) : SigM Constraint :=
  return ⟨c.1, ← goT env c.2⟩

/-- The names of a map, in the order of their numbers. -/
def bySlot (m : Dict Nat) : List (String × Nat) := m.insertionSort fun a b => a.2 ≤ b.2

/-- Translates a signature: first its body, then its context. -/
def translateSig (env : Env E) (ty : Abs.Ty) : Except SigError Scheme := do
  let (ctxElems, bodyTy) := splitQual ty
  let walk : SigM (CType × List Constraint) := do
    let ctxTys ← ctxElems.mapM contextPair
    let body ← goT env bodyTy
    let constraints ← ctxTys.mapM (goConstraint env)
    return (body, constraints)
  let ((body, constraints), s) ← walk ⟨[], 0, []⟩
  let qs := (bySlot s.seen).map (fun e => (e.2, Kind.star)) ++
    (bySlot s.rowSeen).map fun e => (e.2, Kind.effect)
  return ⟨qs, constraints, body⟩

end

end Wok.TypeChecking
