/-
Module: Wok.Interp.RC.Reuse
Purpose: Cells that change hands without a free: shells kept for reuse, continuations that
  are moved out of their cell, and the static region.
Imports: Wok.Interp.RC.Alloc
Trusted boundary: none
Main exports: dropReuse, allocAt, moveOutCont, allocStatic, mkClosure, closureOwnedBoxed
-/
import Wok.Interp.RC.Alloc

namespace Wok.Interp.RC

open Wok.IR

/-! ### Reuse -/

/-- Drop a cell of the C heap for reuse. Its children are read before it is reserved. -/
def dropReuseC (p : Ptr) (s : Store) : Except Fault (RCValue × Store) := do
  let (newrc, o, s₁) ← wokDec p s
  if newrc ≠ 0 then return (.reuse none, s₁)
  else if o.tag = wokArrayTag then
    .error (primError "dropReuse: WokArray reached CAddr FBIP path (arrays are FBIP-excluded)")
  else
    let vs ← readCConValues o s₁
    let s₂ ← (countedRefs vs).foldlM (fun s a => drop a s) s₁
    return (.reuse (some ⟨.c p, o.arity.toUInt32, true, 8 + 8 * o.arity.toNat⟩),
      { s₂ with reserved := insert (.c p) s₂.reserved })

/-- Drop a cell of the abstract heap for reuse: the shell of a unique one is kept. -/
def dropReuseH (i : Int) (s : Store) : Except Fault (RCValue × Store) := do
  let c ← derefPure i s
  if c.rc ≤ 1 then
    let s₁ ← (cascadeChildren c.node).foldlM (fun s a => drop a s)
      { s with cells := s.cells.erase i }
    return (.reuse (some ⟨.heap i, nodeArity c.node, nodeCEligible c.node, c.bytes⟩),
      { s₁ with reserved := insert (.heap i) s₁.reserved })
  else return (.reuse none, { s with cells := s.cells.insert i { c with rc := c.rc - 1 } })

/-- Drop a reference, keeping the shell of a cell that nothing else refers to. -/
def dropReuse (a : Addr) (s : Store) : Except Fault (RCValue × Store) :=
  match a with
  | .inline _ => .ok (.reuse none, s)
  | .inlineStr _ => .ok (.reuse none, s)
  | .c p => if s.isArenaAddr (.c p) then .ok (.reuse none, s) else dropReuseC p s
  | .heap i =>
      if isStaticAddr (.heap i) ∨ s.isArenaAddr (.heap i) then .ok (.reuse none, s)
      else dropReuseH i s

/-- `wok_alloc_at` and the writes of the slots. -/
def wokAllocAt (tid : UInt32) (ws : List UInt64) (p : Ptr) (s : Store) : Except Fault Store := do
  let o ← wokObj p s
  if o.arity ≠ UInt8.ofNat ws.length then
    .error (.abort "wok_rc: wok_alloc_at arity mismatch (token arity != new node arity)")
  else if o.rc ≠ 0 then
    .error (.abort ("wok_rc: wok_alloc_at on rc!=0 (drop_reuse must decrement the shell " ++
      "to 0 before re-stamp)"))
  else return { s with objs := s.objs.insert p ⟨1, tid.toUInt16, UInt8.ofNat ws.length, ws⟩ }

/-- Re-stamp a shell of the C heap. -/
def reuseCConAt (p : Ptr) (n : Node) (s : Store) : Except Fault (Addr × Store) :=
  match n with
  | .con con vs => do
      heapPtr s
      match vs.mapM encodeSlotC with
      | none => .error (primError "reuseCConAt: reuse-eligible node failed to encode")
      | some encoded =>
          let (tid, s₁) := internTag con s
          let newKinds := encoded.map (·.1)
          match s₁.conDesc.lookup tid.toUInt16 with
          | some existing =>
              if existing ≠ newKinds then
                .error (primError ("reuseCConAt: descriptor mismatch " ++
                  "(cross-constructor reuse must be unreachable)"))
              else
                let s₂ ← wokAllocAt tid (encoded.map (·.2)) p s₁
                return (.c p, s₂)
          | none =>
              let s₂ ← wokAllocAt tid (encoded.map (·.2)) p
                { s₁ with conDesc := (tid.toUInt16, newKinds) :: s₁.conDesc }
              return (.c p, s₂)
  | _ => .error (primError "reuseCConAt: expected an NCon")

/-- Whether a node fits the shell of a slot. -/
def fitsSlot (n : Node) (slot : ReuseSlot) : Bool :=
  nodeArity n == slot.arity && nodeCEligible n == slot.cEligible

/-- Put a node into the shell of a token; a node that does not fit is allocated, and the
shell is freed. -/
def allocAt (A : Allocator) (token : RCValue) (n : Node) (s₀ : Store) :
    Except Fault (Addr × Store) :=
  match token with
  | .reuse none => alloc A n s₀
  | .reuse (some slot) =>
      let s := { s₀ with reserved := s₀.reserved.erase slot.addr }
      match slot.addr with
      | .heap i =>
          if fitsSlot n slot then
            .ok (.heap i, { s with cells := s.cells.insert i ⟨1, n, slot.bytes⟩ })
          else
            alloc A n { s with
              dead := insert i s.dead
              stats := recordFree slot.bytes s.stats }
      | .c p =>
          if fitsSlot n slot then reuseCConAt p n s
          else do
            heapPtr s
            let s₁ ← wokFree p s
            alloc A n (bumpFreeStats slot.bytes s₁)
      | .inline _ => .error (primError "alloc_at: reuse token shell is an inline immediate")
      | .inlineStr _ => .error (primError "alloc_at: reuse token shell is an inline string")
  | _ => .error (primError "alloc_at: expected a reuse token")

/-! ### Continuations -/

/-- What a cell of a continuation holds. -/
structure Captured where
  pfx : RCKont
  h : Handler
  tag : Nat
  sc : RCScope

/-- Free the cell of a continuation, but nothing that it holds: the frames are moved. -/
def moveOutCont (a : Addr) (s : Store) : Except Fault (Captured × Store) :=
  match a with
  | .c _ => .error (primError "resume: continuation cannot live on the C heap")
  | .inline _ => .error (primError "resume: inline immediate is not a continuation")
  | .inlineStr _ => .error (primError "resume: inline string is not a continuation")
  | .heap i => do
      let c ← derefPure i s
      match c.node with
      | .cont pfx h tag sc =>
          if c.rc = 1 then
            return (⟨pfx, h, tag, sc⟩, { s with
              cells := s.cells.erase i
              dead := insert i s.dead
              stats := recordFree c.bytes s.stats })
          else
            .error (primError ("internal: resume of a continuation with rc=" ++ toString c.rc ++
              " (one-shot violation); addr " ++ toString i))
      | _ => .error (primError ("resume of non-continuation addr " ++ toString i))

/-! ### The static region -/

/-- A cell that is never counted. -/
def allocStatic (n : Node) (s : Store) : Addr × Store :=
  (.heap s.nextStatic, { s with
    cells := s.cells.insert s.nextStatic ⟨1, n, 0⟩
    nextStatic := s.nextStatic - 1 })

/-- The environment of a recursive group that captures nothing. -/
def emptyEnvSentinelAddr : Addr := .heap (-1)

/-! ### Closures -/

def mkClosure (env : REnv) (ps : List Binder) (body : Expr) : Node :=
  .closure env ps body .ownCaptures

/-- The captures that the body of a closure owns: not the members of a recursive group. -/
def closureOwnedBoxed : Node → List Addr
  | .closure env _ _ .ownCaptures =>
      env.filterMap fun
        | (_, .box a) => if isUncounted a then none else some a
        | _ => none
  | _ => []

end Wok.Interp.RC
