/-
Module: Wok.Interp.RC.Machine
Purpose: Case matching and record projection of the counted machine.
Imports: Wok.Interp.RC.Prim
Trusted boundary: none
Main exports: RCConfig, nodeTag, goNode, goLit, matchAltsRC, projRC
-/
import Wok.Interp.RC.Prim

namespace Wok.Interp.RC

open Wok.IR

/-- Machine configuration; the store is part of it. -/
inductive RCConfig where
  | eval (e : Expr) (sc : RCScope) (k : RCKont) (s : Store)
  | ret (v : RCValue) (k : RCKont) (s : Store)

/-- Bind in the order of the keys. -/
def bindRCBinder (b : Binder) (v : RCValue) : REnv → REnv
  | [] => [(binderUnique b, v)]
  | (u, w) :: env =>
      if (binderUnique b).id < u.id then (binderUnique b, v) :: (u, w) :: env
      else if u = binderUnique b then (u, v) :: env
      else (u, w) :: bindRCBinder b v env

def bindRCBinders (bs : List Binder) (vs : List RCValue) (env : REnv) : REnv :=
  (bs.zip vs).foldl (fun env bv => bindRCBinder bv.1 bv.2 env) env

/-! ### Case -/

def nodeTag : Node → String
  | .con t _ => t
  | .array _ => "<array>"
  | .string _ => "<string>"
  | .stringView .. => "<string-view>"
  | .bytes _ => "<bytes>"
  | .foreignBytes _ => "<foreign-bytes>"
  | .borrowView _ => "<borrow-view>"
  | .record t _ => t
  | .closure .. => "<closure>"
  | .groupCode _ => "<closure>"
  | .env _ => "<env>"
  | .cont .. => "<continuation>"
  | .contCell _ => "<cont-cell>"

def nonExhaustiveCase (rendered : String) : Fault := .runtime (.nonExhaustiveCase rendered)

/-- A literal alternative against a node: only the bytes of a string are compared. -/
def litMatchesNode (l : Lit) : Node → Except Fault Bool
  | .string bs =>
      match l with
      | .str t => do
          let t' ← decodeUtf8 bs
          return t == t'
      | _ => .ok false
  | _ => .ok false

/-- The first alternative that matches a node, with the values of its binders. -/
def goNode (n : Node) : List Alt → Except Fault (Alt × List RCValue)
  | [] => .error (nonExhaustiveCase (nodeTag n))
  | .con c bs e :: rest =>
      match n with
      | .con c' vs =>
          if c' = c ∧ bs.length = vs.length then .ok (.con c bs e, vs) else goNode n rest
      | _ => goNode n rest
  | .lit l e :: rest => do
      if ← litMatchesNode l n then return (.lit l e, []) else goNode n rest
  | .default e :: _ => .ok (.default e, [])

/-- The first alternative that matches a literal. -/
def goLit (l : Lit) : List Alt → Except Fault (Alt × List RCValue)
  | [] => .error (nonExhaustiveCase (Interp.renderLit l))
  | .con .. :: rest => goLit l rest
  | .lit l' e :: rest => if l' = l then .ok (.lit l' e, []) else goLit l rest
  | .default e :: _ => .ok (.default e, [])

/-- The alternative that a case takes. -/
def pickAltRC (v : RCValue) (alts : List Alt) (s : Store) : Except Fault (Alt × List RCValue) :=
  match v with
  | .box addr => do
      let c ← deref addr s
      goNode c.node alts
  | .lit l => goLit l alts
  | .recMember .. => .error (nonExhaustiveCase "<closure>")
  | .inst .. => .error (nonExhaustiveCase "<instance>")
  | .reuse _ => .error (nonExhaustiveCase "<reuse-token>")

/-- The body of an alternative in the scope of its binders. -/
def enterAlt (vs : List RCValue) (sc : RCScope) (k : RCKont) (s : Store) : Alt → RCConfig
  | .con _ bs e => .eval e { sc with env := bindRCBinders bs vs sc.env } k s
  | .lit _ e => .eval e sc k s
  | .default e => .eval e sc k s

def matchAltsRC (v : RCValue) (alts : List Alt) (sc : RCScope) (k : RCKont) (s : Store) :
    Except Fault RCConfig := do
  let (alt, vs) ← pickAltRC v alts s
  return enterAlt vs sc k s alt

/-! ### Projection -/

def badProjection (l : String) : Fault := .runtime (.badProjection l)

/-- The field of a record. -/
def projRC (l : String) (v : RCValue) (s : Store) : Except Fault RCValue :=
  match v with
  | .box addr => do
      let c ← deref addr s
      match c.node with
      | .record _ m =>
          match m.lookup l with
          | some fv => return fv
          | none => .error (badProjection l)
      | _ => .error (badProjection l)
  | _ => .error (badProjection l)

end Wok.Interp.RC
