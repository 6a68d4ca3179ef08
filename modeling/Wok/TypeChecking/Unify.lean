/-
Module: Wok.TypeChecking.Unify
Purpose: Unification of inference-time types and rows: type-variable cells, the
  occurs check with its adjustment of levels, row rewriting, rigid variables and the
  mismatch reports.
Imports: Wok.Lib.Partial, Wok.TypeChecking.Types
Trusted boundary: none
Main exports: Ty, TVar, TCState, TC, force, freeze, occursAdjust,
  rewriteRowGuarded, unifyVar, rigidUnify, unify
-/
import Wok.Lib.Partial
import Wok.TypeChecking.Types

namespace Wok.TypeChecking

inductive Kind where
  | star
  | effect
  | arrow (dom cod : Kind)
  deriving Repr, DecidableEq

/-- An inference-time type or row (`Type`). A variable is the number of its cell. -/
inductive Ty where
  | con (tycon : TyCon) (args : List Ty)
  | arr (dom row cod : Ty)
  | record (tag : String) (row : Ty)
  | rowEmpty
  | rowExtend (label : String) (payload rest : Ty)
  | var (ref : Nat)
  deriving Repr, Inhabited

/-- What a variable's cell holds. -/
inductive TVar where
  | unbound (uniq : Nat) (level : Int) (kind : Kind)
  | rigid (uniq : Nat) (level : Int) (kind : Kind)
  | link (t : Ty)
  deriving Repr, Inhabited

abbrev SourceSpan := Option (Int × Int)

/-- The type errors that unification and the rules for records report. -/
inductive TypeError where
  | mismatch (sp : SourceSpan) (a b : CType)
  | kindMismatch (sp : SourceSpan) (a b : CType)
  | occursCheck (sp : SourceSpan) (uniq : Nat) (t : CType)
  | rowMismatch (sp : SourceSpan) (a b : CType)
  | rowOccursCheck (sp : SourceSpan) (uniq : Nat) (t : CType)
  | rigidEscape (sp : SourceSpan) (uniq : Nat)
  | unknownField (sp : SourceSpan) (tag label : String)
  | nominalMismatch (sp : SourceSpan) (tag₁ tag₂ : String)
  | unknownCon (sp : SourceSpan) (con : String)
  | notARecord (sp : SourceSpan) (t : CType)
  deriving Repr

inductive Warning where
  | rowShadow (sp : SourceSpan) (label : String) (a b : CType)
  deriving Repr

/-- A failure: a type error, or a call of `error`. -/
inductive Failure where
  | error (e : TypeError)
  | panic (message : String)
  deriving Repr

/-- The cells, of which those below `next` are in use, the counter for names and the
warnings, the last one first. -/
structure TCState where
  cells : Nat → TVar
  next : Nat
  fresh : Nat
  warnings : List Warning

/-- The checker's monad, with the current level apart. -/
abbrev TC := Lib.PartialM TCState Failure

def throwTC {α : Type} (e : TypeError) : TC α := fun s => some (.error (.error e), s)

/-- Haskell's `error`. -/
def panicTC {α : Type} (message : String) : TC α := fun s => some (.error (.panic message), s)

def outOfFuel {α : Type} : TC α := fun _ => none

/-- `catchError`: a call of `error` is not caught. -/
def catchTC {α : Type} (x : TC α) (handler : TypeError → TC α) : TC α := fun s =>
  match x s with
  | some (.error (.error e), s') => handler e s'
  | r => r

def readRef (r : Nat) : TC TVar := fun s => some (.ok (s.cells r), s)

def writeRef (r : Nat) (v : TVar) : TC Unit := fun s =>
  some (.ok (), { s with cells := fun i => if i = r then v else s.cells i })

def newRef (v : TVar) : TC Nat := fun s =>
  some (.ok s.next, { s with
    cells := fun i => if i = s.next then v else s.cells i
    next := s.next + 1 })

def freshUniq : TC Nat := fun s => some (.ok s.fresh, { s with fresh := s.fresh + 1 })

def addWarning (w : Warning) : TC Unit := fun s =>
  some (.ok (), { s with warnings := w :: s.warnings })

/-- A new type variable at the current level. -/
def freshTVar (lvl : Int) (k : Kind) : TC Ty := do
  let u ← freshUniq
  let r ← newRef (.unbound u lvl k)
  return .var r

def freshRVar (lvl : Int) : TC Ty := freshTVar lvl .effect

/-! ### Reading types -/

/-- Follow links to the head, and shorten them on the way. -/
def force : Nat → Ty → TC Ty
  | 0, _ => outOfFuel
  | fuel + 1, .var r => do
      let tv ← readRef r
      match tv with
      | .link t' => do
          let t'' ← force fuel t'
          writeRef r (.link t'')
          return t''
      | .unbound .. => return .var r
      | .rigid .. => return .var r
  | _ + 1, t => return t

/-- A closed type, with a choice of what becomes of a rigid variable. -/
def freezeWith (rigid : Nat → TC CType) (message : String) : Nat → Ty → TC CType
  | 0, _ => outOfFuel
  | fuel + 1, t => do
      let t' ← force fuel t
      match t' with
      | .con c ts => do
          let ts' ← ts.mapM (freezeWith rigid message fuel)
          return .con c ts'
      | .arr a r b => do
          let a' ← freezeWith rigid message fuel a
          let r' ← freezeWith rigid message fuel r
          let b' ← freezeWith rigid message fuel b
          return .arr a' r' b'
      | .record tag row => do
          let row' ← freezeWith rigid message fuel row
          return .record tag row'
      | .rowEmpty => return .rowEmpty
      | .rowExtend l p r => do
          let p' ← freezeWith rigid message fuel p
          let r' ← freezeWith rigid message fuel r
          return .rowExtend l p' r'
      | .var ref => do
          let tv ← readRef ref
          match tv with
          | .unbound u _ _ => return .gen u
          | .link _ => panicTC message
          | .rigid u _ _ => rigid u

/-- Fails on a rigid variable. -/
def freeze : Nat → Ty → TC CType :=
  freezeWith (fun u => panicTC ("freeze: unexpected Rigid (uniq " ++ toString u ++ ")"))
    "freeze: TVar was Link after force (caller invariant violation)"

def freezeTolerant : Nat → Ty → TC CType :=
  freezeWith (fun u => return .gen u)
    "freezeTolerant: TVar was Link after force (caller invariant violation)"

def kindOf : Nat → Ty → TC Kind
  | 0, _ => outOfFuel
  | fuel + 1, t => do
      let t' ← force fuel t
      match t' with
      | .rowEmpty => return .effect
      | .rowExtend .. => return .effect
      | .con .. => return .star
      | .arr .. => return .star
      | .record .. => return .star
      | .var ref => do
          let tv ← readRef ref
          match tv with
          | .unbound _ _ k => return k
          | .rigid _ _ k => return k
          | .link u => kindOf fuel u

/-- The variable that a row ends in, if it is open. -/
def rowTailRef : Nat → Ty → TC (Option Nat)
  | 0, _ => outOfFuel
  | fuel + 1, row => do
      let row' ← force fuel row
      match row' with
      | .rowExtend _ _ rest => rowTailRef fuel rest
      | .var ref => return some ref
      | _ => return none

/-! ### Shadowed labels -/

/-- The fields of a row up to its end. -/
def collectRowPairs : Nat → Ty → TC (List (String × Ty))
  | 0, _ => outOfFuel
  | fuel + 1, row => do
      let row' ← force fuel row
      match row' with
      | .rowEmpty => return []
      | .rowExtend l t rest => do
          let rest' ← collectRowPairs fuel rest
          return (l, t) :: rest'
      | _ => return []

/-- `Map.insertWith (++)`: the map is kept in the order of its keys. -/
def insertShadow (l : String) (t : Ty) : List (String × List Ty) → List (String × List Ty)
  | [] => [(l, [t])]
  | (l', ts) :: rest =>
      if l = l' then (l', t :: ts) :: rest
      else if l < l' then (l, [t]) :: (l', ts) :: rest
      else (l', ts) :: insertShadow l t rest

def checkGroup (sp : SourceSpan) (fuel : Nat) : String × List Ty → TC Unit
  | (label, t1 :: t2 :: _) => do
      let c1 ← freeze fuel t1
      let c2 ← freeze fuel t2
      addWarning (.rowShadow sp label c1 c2)
  | _ => return ()

/-- Warn of every label that a row has more than once. -/
def warnOnShadow (sp : SourceSpan) (fuel : Nat) (row : Ty) : TC Unit := do
  let pairs ← collectRowPairs fuel row
  let grouped := pairs.foldl (fun m (l, t) => insertShadow l t m) []
  grouped.forM (checkGroup sp fuel)

def warnIfRecordShadow (sp : SourceSpan) (fuel : Nat) (t : Ty) : TC Unit := do
  let t' ← force fuel t
  match t' with
  | .record _ row => warnOnShadow sp fuel row
  | _ => return ()

/-! ### Binding variables -/

/-- The occurs check. Unbound variables in the type come down to the level of the
target. -/
def occursAdjust (sp : SourceSpan) (target : Nat) (lvl : Int) : Nat → Ty → TC Unit
  | 0, _ => outOfFuel
  | fuel + 1, .var r =>
      if r = target then do
        let tv ← readRef target
        match tv with
        | .unbound u _ .effect => throwTC (.rowOccursCheck sp u (.gen u))
        | .unbound u _ _ => throwTC (.occursCheck sp u (.gen u))
        | .link _ => panicTC "occursAdjust: target was Link after force"
        | .rigid u _ _ => throwTC (.occursCheck sp u (.gen u))
      else do
        let tv ← readRef r
        match tv with
        | .link t' => occursAdjust sp target lvl fuel t'
        | .unbound u l k => if l > lvl then writeRef r (.unbound u lvl k) else return ()
        -- the level of a rigid variable does not change
        | .rigid .. => return ()
  | fuel + 1, .con _ ts => ts.forM (occursAdjust sp target lvl fuel)
  | fuel + 1, .arr a r b => do
      occursAdjust sp target lvl fuel a
      occursAdjust sp target lvl fuel r
      occursAdjust sp target lvl fuel b
  | fuel + 1, .record _ row => occursAdjust sp target lvl fuel row
  | _ + 1, .rowEmpty => return ()
  | fuel + 1, .rowExtend _ t rest => do
      occursAdjust sp target lvl fuel t
      occursAdjust sp target lvl fuel rest

/-- A rigid variable is equal to itself only, and an unbound one may be bound to it if
it has its kind and is no shallower. -/
def rigidUnify (sp : SourceSpan) (fuel : Nat) (ref u : Nat) (rlvl : Int) (rk : Kind) (t : Ty) :
    TC Unit :=
  match t with
  | .var r' =>
      if r' = ref then return ()
      else do
        let tv' ← readRef r'
        match tv' with
        | .link _ => panicTC "rigidUnify: t must have been forced"
        | .unbound _ mlvl mk =>
            if mk ≠ rk then do
              let ca ← freezeTolerant fuel (.var ref)
              let cb ← freezeTolerant fuel t
              throwTC (.kindMismatch sp ca cb)
            else if mlvl < rlvl then throwTC (.rigidEscape sp u)
            else writeRef r' (.link (.var ref))
        | .rigid .. => throwTC (.rigidEscape sp u)
  | _ => throwTC (.rigidEscape sp u)

def unifyVar (sp : SourceSpan) (fuel : Nat) (ref : Nat) (t : Ty) : TC Unit := do
  let tv ← readRef ref
  match tv with
  | .link _ => panicTC "unifyVar: caller must have forced first"
  | .rigid u rlvl rk => rigidUnify sp fuel ref u rlvl rk t
  | .unbound _ lvl k => do
      let tk ← kindOf fuel t
      if k ≠ tk then do
        let ca ← freeze fuel (.var ref)
        let cb ← freeze fuel t
        throwTC (.kindMismatch sp ca cb)
      else do
        occursAdjust sp ref lvl fuel t
        writeRef ref (.link t)

/-! ### Unification -/

/-- Bring a label to the head of a row; an open row that has not got it is extended,
but not when it ends in the variable `forbidden`. The type of the label and the rest
of the row. -/
def rewriteRowGuarded (sp : SourceSpan) (lvl : Int) (forbidden : Option Nat) (l : String) :
    Nat → Ty → TC (Ty × Ty)
  | 0, _ => outOfFuel
  | fuel + 1, row => do
      let row' ← force fuel row
      match row' with
      | .rowExtend l' t rest =>
          if l = l' then return (t, rest)
          else do
            let (t', rest') ← rewriteRowGuarded sp lvl forbidden l fuel rest
            return (t', .rowExtend l' t rest')
      | .var ref =>
          if some ref = forbidden then throwTC (.unknownField sp "<row>" l)
          else do
            let tFresh ← freshTVar lvl .star
            let restFresh ← freshRVar lvl
            unifyVar sp fuel ref (.rowExtend l tFresh restFresh)
            return (tFresh, restFresh)
      | .rowEmpty => throwTC (.unknownField sp "<row>" l)
      | _ => panicTC "rewriteRowGuarded: expected a row"

/-- The report of two types that do not match. -/
def reportPair {α : Type} (fuel : Nat) (report : CType → CType → TypeError) (a b : Ty) : TC α := do
  let ca ← freeze fuel a
  let cb ← freeze fuel b
  throwTC (report ca cb)

/-- A label that was not found is reported with both rows. -/
def rowReport {α : Type} (sp : SourceSpan) (fuel : Nat) (a b : Ty) : TypeError → TC α
  | .unknownField .. => reportPair fuel (.rowMismatch sp) a b
  | e => throwTC e

def unify (sp : SourceSpan) (lvl : Int) : Nat → Ty → Ty → TC Unit
  | 0, _, _ => outOfFuel
  | fuel + 1, a, b => do
      let a' ← force fuel a
      let b' ← force fuel b
      match a', b' with
      | .var r1, .var r2 =>
          if r1 = r2 then return ()
          else do
            unifyVar sp fuel r1 (.var r2)
            warnIfRecordShadow sp fuel (.var r2)
      | .var r, t => do
          unifyVar sp fuel r t
          warnIfRecordShadow sp fuel t
      | t, .var r => do
          unifyVar sp fuel r t
          warnIfRecordShadow sp fuel t
      | .con c1 ts1, .con c2 ts2 =>
          if c1 = c2 ∧ ts1.length = ts2.length then
            (ts1.zip ts2).forM fun p => unify sp lvl fuel p.1 p.2
          else reportPair fuel (.mismatch sp) (.con c1 ts1) (.con c2 ts2)
      | .arr a1 e1 b1, .arr a2 e2 b2 => do
          unify sp lvl fuel a1 a2
          unify sp lvl fuel e1 e2
          unify sp lvl fuel b1 b2
      | .record tag1 row1, .record tag2 row2 =>
          if tag1 ≠ tag2 then throwTC (.nominalMismatch sp tag1 tag2)
          else do
            unify sp lvl fuel row1 row2
            warnOnShadow sp fuel row1
      | .rowEmpty, .rowEmpty => return ()
      | .rowExtend l1 t1 rest1, b' => do
          let sharedTail ← rowTailRef fuel rest1
          let (t2, rest2') ← catchTC (rewriteRowGuarded sp lvl sharedTail l1 fuel b')
            (rowReport sp fuel (.rowExtend l1 t1 rest1) b')
          unify sp lvl fuel t1 t2
          unify sp lvl fuel rest1 rest2'
      | .rowEmpty, .rowExtend l t r =>
          reportPair fuel (.rowMismatch sp) .rowEmpty (.rowExtend l t r)
      | a', b' => reportPair fuel (.mismatch sp) a' b'

end Wok.TypeChecking
