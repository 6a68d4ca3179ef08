/-
Module: Wok.Spec.Trivia
Purpose: Where comments stand when a tree is read from left to right, and what it means that
  a table of trivia keeps the comments of a file.
Imports: Wok.Grammar.Trivia, Wok.Spec.Sexpr
Trusted boundary: none
Main exports: Place, sourceOrder, WokTrivia.run, WokTrivia.commentsAt, KeepsComments
-/
import Wok.Grammar.Trivia
import Wok.Spec.Sexpr

namespace Wok.Grammar.Trivia

open Wok.Lib

inductive Side where
  | lead | trail
  deriving Repr, DecidableEq

/-- The leading or the trailing run of a node. -/
structure Place where
  node : Path
  side : Side
  deriving Repr, DecidableEq

/-! ### The order of the places -/

mutual

/-- The places of a tree in its source order: before an item and after it, and at the end of a
block when its owner keeps the comments that close it. -/
def nodePlaces (path : Path) : WokNode → List Place
  | .mk tag _ _ slots => slotsPlaces path tag 0 slots tag.fields

def slotsPlaces (path : Path) (tag : WokTag) (i : Nat) : List WokSlot → List WokField → List Place
  | [], _ => []
  | _ :: _, [] => []
  | slot :: slots, field :: fields =>
      slotPlaces path tag i field.cls slot ++ slotsPlaces path tag (i + 1) slots fields

def slotPlaces (path : Path) (tag : WokTag) (i : Nat) (cls : WokFieldClass) :
    WokSlot → List Place
  | .node (some child) =>
      if cls = .node ∨ cls = .opt then nodePlaces ((i, 0) :: path) child else []
  | .seq ns =>
      if cls = .seq then
        if (tagLayout tag).blockSlot = some i then
          itemsPlaces path i 0 ns ++ if itemTakesTrail tag then [] else [⟨path, .trail⟩]
        else seqPlaces path i 0 ns
      else []
  | _ => []

def itemsPlaces (path : Path) (i k : Nat) : List WokNode → List Place
  | [] => []
  | n :: ns =>
      ⟨(i, k) :: path, .lead⟩ :: nodePlaces ((i, k) :: path) n ++
        (if itemTakesTrail n.tag then [⟨(i, k) :: path, .trail⟩] else []) ++
        itemsPlaces path i (k + 1) ns

def seqPlaces (path : Path) (i k : Nat) : List WokNode → List Place
  | [] => []
  | n :: ns => nodePlaces ((i, k) :: path) n ++ seqPlaces path i (k + 1) ns

end

def sourceOrder (file : WokNode) : List Place := nodePlaces [] file

/-! ### Keeping the comments -/

/-- The range of a place in the table's comments. -/
def WokTrivia.run (table : WokTrivia) (p : Place) : Run :=
  match table.entry.lookup p.node, p.side with
  | some e, .lead => e.lead
  | some e, .trail => e.trail
  | none, _ => default

def WokTrivia.commentsAt (table : WokTrivia) (p : Place) : List WokComment :=
  (table.run p).slice table.comment

/-- Each comment is in the run of one place, which is a place of the tree, and the runs in the
order of the source give the comments back in their order. -/
structure KeepsComments (file : WokNode) (comments : List WokComment) (table : WokTrivia) :
    Prop where
  once : ∀ ci < comments.length, ∃! p : Place, ci ∈ (table.run p).range
  known : ∀ p : Place, ∀ ci ∈ (table.run p).range, p ∈ sourceOrder file ∧ ci < comments.length
  readOnce : (sourceOrder file).Nodup
  inOrder : (sourceOrder file).flatMap table.commentsAt = comments

end Wok.Grammar.Trivia
