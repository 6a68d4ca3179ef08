/-
Module: Wok.Spec.Strings
Purpose: What a string is: its bytes, whichever of its three representations holds
  them. What a program sees of a value, the places that take a string apart, and
  when a case tells the representations from each other.
Imports: Wok.Interp.RC.Machine, Wok.Spec.Drop
Trusted boundary: none
Main exports: StringAt, IsView, ArgIs, Seen, see, Consumer, Consumer.run, takesDefault,
  Consumer.Indifferent
-/
import Wok.Interp.RC.Machine
import Wok.Spec.Drop

namespace Wok.Interp.RC

open Wok.IR

/-! ### Representations -/

/-- The cell at an address is a string with these bytes. -/
inductive StringCell (s : Store) : Addr → List UInt8 → Prop
  | heap {i : Int} {c : Cell} {bs : List UInt8} (hc : s.cells.lookup i = some c)
      (hnode : c.node = .string bs) : StringCell s (.heap i) bs
  | c {p : Ptr} {o : WokObj} (ho : s.objs.lookup p = some o) (htag : o.tag = wokStringTag) :
      StringCell s (.c p) (wokBody o)

/-- The cell at an address is a window into the cell at another one. -/
inductive ViewCell (s : Store) : Addr → Addr → Nat → Nat → Prop
  | heap {i : Int} {c : Cell} {parent : Addr} {off len : Nat} (hc : s.cells.lookup i = some c)
      (hnode : c.node = .stringView parent off len) : ViewCell s (.heap i) parent off len
  | c {p : Ptr} {o : WokObj} (ho : s.objs.lookup p = some o) (htag : o.tag = wokStringViewTag) :
      ViewCell s (.c p) (.c (wokStringViewParent o)) (wokStringViewOffset o).toNat
        (wokStringViewLen o).toNat

/-- String cells are in the heap of the backend. -/
def Store.OnBackend (s : Store) : Addr → Prop
  | .heap _ => s.backend = .abstractHeap
  | .c _ => s.backend = .cHeap
  | _ => False

/-- The three representations of a string: in the value itself, in a cell of its
own, and as a window into such a cell. -/
inductive StringAt (s : Store) : Addr → List UInt8 → Prop
  | inline {bs : List UInt8} (h : bs.length ≤ maxInlineStr) : StringAt s (.inlineStr bs) bs
  | cell {a : Addr} {bs : List UInt8} (ha : a ∈ s.liveCells) (hb : s.OnBackend a)
      (h : StringCell s a bs) : StringAt s a bs
  | view {a parent : Addr} {off len : Nat} {bs : List UInt8} (ha : a ∈ s.liveCells)
      (hparent : parent ∈ s.liveCells) (hb : s.OnBackend parent)
      (h : ViewCell s a parent off len) (hbytes : StringCell s parent bs) :
      StringAt s a ((bs.drop off).take len)

def IsView (s : Store) (a : Addr) : Prop := ∃ parent off len, ViewCell s a parent off len

/-! ### What a program sees -/

/-- What an argument is to a program: a literal, or the bytes of a string. -/
inductive ArgView where
  | lit (l : Lit)
  | str (bytes : List UInt8)

inductive ArgIs (s : Store) : RCValue → ArgView → Prop
  | lit (l : Lit) : ArgIs s (.lit l) (.lit l)
  | str {a : Addr} {bs : List UInt8} (h : StringAt s a bs) : ArgIs s (.box a) (.str bs)

/-- What a program sees of a value that is no data structure. -/
inductive Seen where
  | lit (l : Lit)
  | str (bytes : List UInt8)
  | bytes (bytes : List UInt8)
  | con (tag : String)
  | other
  deriving DecidableEq

def see (v : RCValue) (s : Store) : Except Fault Seen :=
  match v with
  | .lit l => .ok (.lit l)
  | .box a => do
      let c ← deref a s
      match c.node with
      | .string bs => return .str bs
      | .stringView .. => do
          let bs ← stringBytes v s
          return .str bs
      | .bytes bs => return .bytes bs
      | .con tag [] => return .con tag
      | _ => return .other
  | _ => .ok .other

/-- What comes of a string: a value, or the alternative that a case takes. -/
inductive Outcome where
  | value (v : Seen)
  | alternative (alt : Alt)

/-- The places of a program that take a string apart. `eqString`, the comparison,
is among the primitives. -/
inductive Consumer (A : Allocator) (sz : StringZilla) where
  | prim (p : RCPrim) (h : p ∈ stringPrims A sz)
  | case_ (alts : List Alt)
  | proj (label : String)

def primOutcome (p : RCPrim) (vs : List RCValue) (s : Store) : Except Fault Outcome := do
  let (r, s') ← p.fn vs s
  match r with
  | .done v => do
      let seen ← see v s'
      return .value seen
  | .apply .. => return .value .other

def Consumer.run {A : Allocator} {sz : StringZilla} (c : Consumer A sz) (vs : List RCValue)
    (s : Store) : Except Fault Outcome :=
  match c, vs with
  | .prim p _, vs => primOutcome p vs s
  | .case_ alts, [v] => do
      let (alt, _) ← pickAltRC v alts s
      return .alternative alt
  | .proj label, [v] => do
      let fv ← projRC label v s
      let seen ← see fv s
      return .value seen
  | _, _ => .error (arityError "")

/-! ### What a case does not tell apart -/

/-- An alternative that ends the search for a string with these bytes: a default,
the literal, or any string literal if the bytes cannot be decoded. -/
def decides (bs : List UInt8) : Alt → Bool
  | .con .. => false
  | .lit (.str t) _ =>
      match decodeUtf8 bs with
      | .ok t' => t == t'
      | .error _ => true
  | .lit _ _ => false
  | .default _ => true

/-- The first alternative that ends the search is a default. -/
def takesDefault (bs : List UInt8) (alts : List Alt) : Bool :=
  match alts.find? (decides bs) with
  | some (.default _) => true
  | _ => false

/-- When a consumer cannot tell the representations of its operands from each
other: always, unless it is a case that has one view among them and that does not
end up at a default anyway. -/
def Consumer.Indifferent {A : Allocator} {sz : StringZilla} (c : Consumer A sz) (s s' : Store)
    (vs vs' : List RCValue) : Prop :=
  match c, vs, vs' with
  | .case_ alts, [.box a], [.box a'] =>
      (IsView s a ↔ IsView s' a') ∨ ∃ bs, StringAt s a bs ∧ takesDefault bs alts = true
  | _, _, _ => True

/-! ### Where it is asked -/

/-- There is memory for a cell as long as no more is in use than in `s`. -/
def Allocator.Room (A : Allocator) (s : Store) : Prop :=
  ∀ t : Store, (∀ p, s.objs.lookup p = none → t.objs.lookup p = none) → (A.pick t).isSome

/-- A store whose counts are right with the operands `vs` among the handles that
the machine owns, with room for a result. -/
structure Owns (A : Allocator) (s : Store) (vs : List RCValue) : Prop where
  counted : ∃ charge handles, s.Counted charge (vs.flatMap valueChildren ++ handles)
  fresh : s.Fresh
  room : A.Room s

end Wok.Interp.RC
