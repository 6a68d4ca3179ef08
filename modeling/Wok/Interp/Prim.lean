/-
Module: Wok.Interp.Prim
Purpose: The primitives of the modules Base and Control.
Imports: Wok.Interp.Value
Trusted boundary: none
Main exports: basePrims, controlPrims, primTable
-/
import Wok.Interp.Value

namespace Wok.Interp

open Wok.IR

def asInt : Value → Except RuntimeError Int
  | .lit (.int n) => .ok n
  | v => .error (.primError ("expected U64, got " ++ renderValue v))

def asBool : Value → Except RuntimeError Bool
  | .con "True" [] => .ok true
  | .con "False" [] => .ok false
  | v => .error (.primError ("expected Bool, got " ++ renderValue v))

def boolVal : Bool → Value
  | true => .con "True" []
  | false => .con "False" []

/-! ### Primitives that move values -/

/-- Run a saturated implementation on exactly one argument. -/
def onOne (name : String) (fn : Value → Except RuntimeError PrimResult) :
    List Value → Except RuntimeError PrimResult
  | [v] => fn v
  | _ => .error (.arityError name)

/-- Run a saturated implementation on exactly two arguments. -/
def onTwo (name : String) (fn : Value → Value → Except RuntimeError PrimResult) :
    List Value → Except RuntimeError PrimResult
  | [v, w] => fn v w
  | _ => .error (.arityError name)

theorem onOne_moves {name : String} {fn : Value → Except RuntimeError PrimResult}
    (h : ∀ P : Value → Prop, DataPred P → ∀ v r, P v → fn v = .ok r → r.All P) :
    MovesValues (onOne name fn) := by
  intro P hP args r hargs hr
  unfold onOne at hr
  split at hr
  next v => exact h P hP v r (hargs v (List.mem_singleton_self v)) hr
  · cases hr

theorem onTwo_moves {name : String} {fn : Value → Value → Except RuntimeError PrimResult}
    (h : ∀ P : Value → Prop, DataPred P → ∀ v w r, P v → P w → fn v w = .ok r → r.All P) :
    MovesValues (onTwo name fn) := by
  intro P hP args r hargs hr
  unfold onTwo at hr
  split at hr
  next v w => exact h P hP v w r (hargs v (by simp)) (hargs w (by simp)) hr
  · cases hr

theorem boolVal_data {P : Value → Prop} (hP : DataPred P) (b : Bool) : P (boolVal b) := by
  cases b <;> exact hP.con.mpr fun _ h => by cases h

/-- A table entry of one argument. -/
def prim1 (name : String) (fn : Value → Except RuntimeError PrimResult)
    (h : ∀ P : Value → Prop, DataPred P → ∀ v r, P v → fn v = .ok r → r.All P) :
    String × Prim :=
  (name, ⟨1, onOne name fn, onOne_moves h⟩)

/-- A table entry of two arguments. -/
def prim2 (name : String) (fn : Value → Value → Except RuntimeError PrimResult)
    (h : ∀ P : Value → Prop, DataPred P → ∀ v w r, P v → P w → fn v w = .ok r → r.All P) :
    String × Prim :=
  (name, ⟨2, onTwo name fn, onTwo_moves h⟩)

/-! ### Base -/

/-- A primitive of two integers whose result is data. -/
def intPrim (name : String) (op : Int → Int → Except RuntimeError Value)
    (hop : ∀ P : Value → Prop, DataPred P → ∀ x y v, op x y = .ok v → P v) : String × Prim :=
  prim2 name
    (fun a b => do
      let x ← asInt a
      let y ← asInt b
      let v ← op x y
      return .done v)
    (fun P hP a b r _ _ hr => by
      obtain ⟨x, -, hr⟩ := bind_ok hr
      obtain ⟨y, -, hr⟩ := bind_ok hr
      obtain ⟨v, hv, hr⟩ := bind_ok hr
      cases hr
      exact hop P hP x y v hv)

def arith (name : String) (op : Int → Int → Int) : String × Prim :=
  intPrim name (fun x y => .ok (.lit (.int (op x y))))
    (fun _ hP _ _ _ h => by
      cases h
      exact hP.lit _)

/-- A division-like operation: an error on a zero divisor. -/
def divPrim (name message : String) (op : Int → Int → Int) : String × Prim :=
  intPrim name
    (fun x y =>
      if y = 0 then .error (.primError (name ++ message)) else .ok (.lit (.int (op x y))))
    (fun _ hP _ _ _ h => by
      split at h
      · cases h
      · cases h
        exact hP.lit _)

def divLike (name : String) : String × Prim :=
  divPrim name ": division by zero" Int.fdiv

def modLike (name : String) : String × Prim :=
  divPrim name ": modulo by zero" Int.fmod

def cmp (name : String) (op : Int → Int → Bool) : String × Prim :=
  intPrim name (fun x y => .ok (boolVal (op x y)))
    (fun _ hP _ _ _ h => by
      cases h
      exact boolVal_data hP _)

def boolOp (name : String) (op : Bool → Bool → Bool) : String × Prim :=
  prim2 name
    (fun a b => do
      let x ← asBool a
      let y ← asBool b
      return .done (boolVal (op x y)))
    (fun P hP a b r _ _ hr => by
      obtain ⟨x, -, hr⟩ := bind_ok hr
      obtain ⟨y, -, hr⟩ := bind_ok hr
      cases hr
      exact boolVal_data hP _)

/-- Append two `Cons`/`Nil` lists. -/
def appendVal (ys : Value) : Value → Except RuntimeError Value
  | .con "Nil" [] => .ok ys
  | .con "Cons" [hd, tl] => do
      let rest ← appendVal ys tl
      return .con "Cons" [hd, rest]
  | v => .error (.primError ("++: not a list: " ++ renderValue v))

theorem appendVal_data {P : Value → Prop} (hP : DataPred P) {xs ys v : Value} (hxs : P xs)
    (hys : P ys) (h : appendVal ys xs = .ok v) : P v := by
  fun_induction appendVal ys xs generalizing v with
  | case1 =>
      cases h
      exact hys
  | case2 hd tl ih =>
      have hfields := hP.con.mp hxs
      obtain ⟨rest, hrest, h⟩ := bind_ok h
      cases h
      have hrestP : P rest := ih (hfields tl (by simp)) hrest
      refine hP.con.mpr fun u hu => ?_
      simp only [List.mem_cons, List.not_mem_nil, or_false] at hu
      rcases hu with rfl | rfl
      · exact hfields _ (by simp)
      · exact hrestP
  | case3 v => cases h

def appendP : String × Prim :=
  prim2 "++"
    (fun xs ys => do
      let v ← appendVal ys xs
      return .done v)
    (fun P hP xs ys r hxs hys hr => by
      obtain ⟨v, hv, hr⟩ := bind_ok hr
      cases hr
      exact appendVal_data hP hxs hys hv)

def u32Conv : String × Prim :=
  prim1 "u32"
    (fun a => do
      let _ ← asInt a
      return .done a)
    (fun P _ a r ha hr => by
      obtain ⟨n, -, hr⟩ := bind_ok hr
      cases hr
      exact ha)

/-- Apply the first argument to the second. -/
def dollarP : String × Prim :=
  prim2 "$" (fun f x => .ok (.apply f [x]))
    (fun P _ f x r hf hx hr => by
      cases hr
      exact ⟨hf, by simpa using hx⟩)

def eqStringP : String × Prim :=
  prim2 "eqString"
    (fun v w =>
      match v, w with
      | .lit (.str a), .lit (.str b) => .ok (.done (boolVal (a == b)))
      | v, _ => .error (.primError ("eqString: not a string: " ++ renderValue v)))
    (fun P hP v w r _ _ hr => by
      split at hr
      · cases hr
        exact boolVal_data hP _
      · cases hr)

def basePrims : List (String × Prim) :=
  [ arith "+" (· + ·), arith "-" (· - ·), arith "*" (· * ·), divLike "/", divLike "div",
    modLike "mod", cmp "eqU64" (· == ·), cmp "eqU32" (· == ·), u32Conv,
    boolOp "&&" (· && ·), boolOp "||" (· || ·), appendP, dollarP, eqStringP ]

/-! ### Control: coroutines and stored continuations -/

/-- Pack a yielded value and the captured continuation into a `Suspended` step. -/
def coroSuspP : String × Prim :=
  prim2 "__coro_susp" (fun x k => .ok (.done (.con "Suspended" [x, k])))
    (fun P hP x k r hx hk hr => by
      cases hr
      exact hP.con.mpr (by simp [hx, hk]))

def coroUnwrapP : String × Prim :=
  prim1 "__coro_unwrap"
    (fun v =>
      match v with
      | .con "Completed" [r] => .ok (.done r)
      | .con "Suspended" _ =>
          .error (.primError "__coro_unwrap: producer re-suspended; use step, not run")
      | v => .ok (.done v))
    (fun P hP v r hv hr => by
      split at hr
      · cases hr
        exact hP.con.mp hv _ (List.mem_singleton_self _)
      · cases hr
      · cases hr
        exact hv)

/-- Apply a parked continuation to the resume payload. -/
def coroResumeP : String × Prim :=
  prim2 "__coro_resume"
    (fun s v =>
      match s with
      | .cont .. => .ok (.apply s [v])
      | .contP .. => .ok (.apply s [v])
      | .con "Suspended" [_, k] => .ok (.apply k [v])
      | s => .error (.primError ("__coro_resume: not a suspension: " ++ renderValue s)))
    (fun P hP s v r hs hv hr => by
      split at hr
      · cases hr
        exact ⟨hs, by simpa using hv⟩
      · cases hr
        exact ⟨hs, by simpa using hv⟩
      · cases hr
        exact ⟨hP.con.mp hs _ (by simp), by simpa using hv⟩
      · cases hr)

def coroDoneP : String × Prim :=
  prim1 "__coro_done" (fun v => .ok (.done (.con "Completed" [v])))
    (fun P hP v r hv hr => by
      cases hr
      exact hP.con.mpr (by simpa using hv))

def coroCancelP : String × Prim :=
  prim1 "__coro_cancel" (fun _ => .ok (.done (.lit .unit)))
    (fun P hP v r _ hr => by
      cases hr
      exact hP.lit _)

def coerceP : String × Prim :=
  prim1 "__coerce" (fun v => .ok (.done v))
    (fun P _ v r hv hr => by
      cases hr
      exact hv)

def driveConcP : String × Prim :=
  prim1 "__drive_conc" (fun thunk => .ok (.drive thunk))
    (fun P _ v r hv hr => by
      cases hr
      exact hv)

/-- A fresh, empty cell for a continuation. -/
def contCellNewP : String × Prim :=
  prim1 "__cont_cell_new" (fun _ => .ok (.done (.con "ContCell" [.con "ContCellEmpty" []])))
    (fun P hP v r _ hr => by
      cases hr
      exact hP.con.mpr (by simpa using hP.con.mpr (by simp)))

def contStoreP : String × Prim :=
  prim2 "__cont_store"
    (fun cell k =>
      match cell with
      | .con "ContCell" [.con "ContCellEmpty" []] => .ok (.done (.con "ContCell" [k]))
      | .con "ContCell" [_] =>
          .error (.primError
            "__cont_store: cell already holds a continuation (one-shot violation)")
      | _ => .error (.primError "__cont_store: not a continuation cell"))
    (fun P hP cell k r _ hk hr => by
      split at hr
      · cases hr
        exact hP.con.mpr (by simpa using hk)
      · cases hr
      · cases hr)

def contTakeP : String × Prim :=
  prim1 "__cont_take"
    (fun cell =>
      match cell with
      | .con "ContCell" [.con "ContCellEmpty" []] =>
          .error (.primError "__cont_take: cell is empty (taken twice or never stored)")
      | .con "ContCell" [k] => .ok (.done k)
      | v => .error (.primError ("__cont_take: not a continuation cell: " ++ renderValue v)))
    (fun P hP cell r hcell hr => by
      split at hr
      · cases hr
      · cases hr
        exact hP.con.mp hcell _ (List.mem_singleton_self _)
      · cases hr)

def controlPrims : List (String × Prim) :=
  [ coroSuspP, coroUnwrapP, coroResumeP, coroDoneP, coroCancelP, coerceP, driveConcP,
    contCellNewP, contStoreP, contTakeP ]

/-- The table, keyed by module and name. -/
def primTable : PrimTable := fun key =>
  ((basePrims.map fun p => (("Base", p.1), p.2)) ++
    controlPrims.map fun p => (("Control", p.1), p.2)).lookup key

end Wok.Interp
