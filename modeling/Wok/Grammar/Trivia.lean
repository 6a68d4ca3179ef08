/-
Module: Wok.Grammar.Trivia
Purpose: The comments of a file attached to the items of its tree: the lines of the source,
  the walk that stamps items and blocks, the target of each comment, and the table.
Imports: Mathlib.Algebra.Order.Ring.Int, Wok.Grammar.Ast, Wok.Lib.Runs
Trusted boundary: none
Main exports: WokComment, Lines, tagLayout, Builder, walkNode, chooseTarget, attachFrom,
  EntryMap, WokTrivia, wokTriviaAttach
-/
import Mathlib.Algebra.Order.Ring.Int
import Wok.Grammar.Ast
import Wok.Lib.Runs

namespace Wok.Grammar.Trivia

open Wok.Lib

/-- A comment of the side list of the scanner. -/
structure WokComment where
  off : UInt32
  len : UInt32
  block : Bool
  deriving Repr, DecidableEq

/-! ### Lines -/

def newline : UInt8 := 0x0A

def isBlankByte (c : UInt8) : Bool := c = 0x20 || c = 0x09 || c = 0x0D

/-- A source and the offsets of its lines. -/
structure Lines where
  src : List UInt8
  start : List UInt32

def linesBuild (src : List UInt8) : Lines where
  src := src
  start := 0 :: src.zipIdx.filterMap fun (c, i) => if c = newline then some (.ofNat i + 1) else none

namespace Lines

def startOf (l : Lines) (i : Nat) : UInt32 := l.start.getD i 0

/-- The last line between `lo` and `hi` that starts at or before an offset. -/
def search (l : Lines) (off : UInt32) (lo hi : Nat) : Nat :=
  if lo < hi then
    let mid := lo + (hi - lo + 1) / 2
    if l.startOf mid ≤ off then l.search off mid hi else l.search off lo (mid - 1)
  else lo
termination_by hi - lo

def lineOf (l : Lines) (off : UInt32) : Nat := l.search off 0 (l.start.length - 1)

def colOf (l : Lines) (off : UInt32) : UInt32 := off - l.startOf (l.lineOf off) + 1

/-- A line with nothing on it but white space. -/
def lineIsBlank (l : Lines) (line : Nat) : Bool :=
  let stop := if line + 1 < l.start.length then l.startOf (line + 1) else .ofNat l.src.length
  (((l.src.take stop.toNat).drop (l.startOf line).toNat).takeWhile (· ≠ newline)).all isBlankByte

/-- Nothing but white space stands before the offset on its line. -/
def startsItsLine (l : Lines) (off : UInt32) : Bool :=
  ((l.src.take off.toNat).drop (l.startOf (l.lineOf off)).toNat).all isBlankByte

end Lines

/-! ### The layout table -/

/-- The slot whose members are the items of a block, and the slots written without brackets,
under which a block can still stand. -/
structure TagLayout where
  blockSlot : Option Nat
  openMask : List Nat

def WokTag.slot (t : WokTag) (field : String) : Nat := (t.fields.map (·.name)).idxOf field

def blockLayout (t : WokTag) (block : String) (opens : List String) : TagLayout :=
  ⟨some (WokTag.slot t block), opens.map (WokTag.slot t)⟩

def plainLayout (t : WokTag) (opens : List String) : TagLayout := ⟨none, opens.map (WokTag.slot t)⟩

def tagLayout (t : WokTag) : TagLayout :=
  match t with
  | .dEffect => blockLayout t "ops" ["ops"]
  | .dClass => blockLayout t "body" ["body"]
  | .dInstance => blockLayout t "body" ["body"]
  | .dForeign => blockLayout t "members" ["members"]
  | .dEquation => blockLayout t "wheres" ["body", "wheres"]
  | .eLambda => plainLayout t ["body"]
  | .eLetIn => plainLayout t ["bind", "body"]
  | .eHandleIn => plainLayout t ["handler", "body"]
  | .eUseIn => plainLayout t ["body"]
  | .eIf => plainLayout t ["cond", "then_", "else_"]
  | .eCase => blockLayout t "alts" ["scrut", "alts"]
  | .eHandler => blockLayout t "clauses" ["clauses"]
  | .eAssign => plainLayout t ["value"]
  | .eBlock => blockLayout t "stmts" ["stmts"]
  | .sLet => plainLayout t ["bind"]
  | .sHandle => plainLayout t ["handler"]
  | .sDiscard => plainLayout t ["body"]
  | .hBind => plainLayout t ["body"]
  | .hAlt => blockLayout t "wheres" ["body", "wheres"]
  | .hClause => plainLayout t ["body"]
  | .wFile => blockLayout t "decls" ["decls"]
  | _ => ⟨none, []⟩

/-- A `where` block has no node of its own to hold the comments that close it. -/
def scopeIsClosable (t : WokTag) : Bool := t ≠ .dEquation && t ≠ .hAlt

/-- The trailing range of an item is free unless a block it closes has it. -/
def itemTakesTrail (t : WokTag) : Bool := (tagLayout t).blockSlot.isNone || !scopeIsClosable t

/-! ### Items and scopes -/

/-- The place of a node in its tree: the slot and the position under each parent, the nearest
parent first. It stands for the node's address. -/
abbrev Path := List (Nat × Nat)

/-- What the pass reads of a node. -/
structure NodeRef where
  path : Path
  tag : WokTag
  off : UInt32
  len : UInt32
  deriving Repr, DecidableEq

def nodeRef (path : Path) : WokNode → NodeRef
  | .mk tag off len _ => ⟨path, tag, off, len⟩

structure Item where
  node : NodeRef
  scope : Nat
  enter : Nat
  exit : Nat
  line : Nat
  endLine : Nat
  col : UInt32
  flat : Bool
  firstInScope : Bool
  deriving Repr, DecidableEq

instance : Inhabited Item := ⟨⟨⟨[], .wFile, 0, 0⟩, 0, 0, 0, 0, 0, 0, false, false⟩⟩

/-- A block. Its parent is missing for the block of the file. -/
structure Scope where
  owner : NodeRef
  parent : Option Nat
  itemCol : UInt32
  close : Nat
  flat : Bool
  closable : Bool
  deriving Repr, DecidableEq

instance : Inhabited Scope := ⟨⟨⟨[], .wFile, 0, 0⟩, none, 0, 0, false, false⟩⟩

structure Builder where
  lines : Lines
  item : List Item
  scope : List Scope
  clock : Nat

namespace Builder

def pushItem (b : Builder) (n : NodeRef) (scope : Nat) (flat first : Bool) : Builder :=
  let last := if n.len ≠ 0 then n.off + n.len - 1 else n.off
  let last := if b.lines.src.length ≤ last.toNat then
      (if b.lines.src.length ≠ 0 then .ofNat b.lines.src.length - 1 else 0)
    else last
  { b with
    item := b.item ++
      [⟨n, scope, 0, 0, b.lines.lineOf n.off, b.lines.lineOf last, b.lines.colOf n.off, flat,
        first⟩] }

def pushScope (b : Builder) (owner : NodeRef) (parent : Option Nat) (flat : Bool)
    (itemCol : UInt32) : Builder :=
  { b with scope := b.scope ++ [⟨owner, parent, itemCol, 0, flat, scopeIsClosable owner.tag⟩] }

/-- Stamp the item with the time before its node. -/
def enterItem (b : Builder) (idx : Nat) : Builder :=
  { b with item := b.item.modify idx fun it => { it with enter := b.clock }, clock := b.clock + 1 }

/-- Stamp the item with the time after its node. -/
def exitItem (b : Builder) (idx : Nat) : Builder :=
  { b with item := b.item.modify idx fun it => { it with exit := b.clock }, clock := b.clock + 1 }

/-- Stamp the block with the time after its last item. -/
def closeScope (b : Builder) (s : Nat) : Builder :=
  { b with scope := b.scope.modify s fun sc => { sc with close := b.clock }, clock := b.clock + 1 }

end Builder

def triviaMaxDepth : Nat := 512

mutual

def walkNode (b : Builder) (path : Path) (scope : Option Nat) (flat : Bool) (depth : Nat) :
    WokNode → Builder
  | .mk tag off len slots =>
      if triviaMaxDepth ≤ depth then b
      else walkSlots b ⟨path, tag, off, len⟩ scope flat depth 0 slots tag.fields

def walkSlots (b : Builder) (n : NodeRef) (scope : Option Nat) (flat : Bool) (depth i : Nat) :
    List WokSlot → List WokField → Builder
  | [], _ => b
  | _ :: _, [] => b
  | slot :: slots, field :: fields =>
      let childFlat := flat || !(tagLayout n.tag).openMask.contains i
      walkSlots (walkSlot b n scope childFlat depth i field.cls slot) n scope flat depth (i + 1)
        slots fields

def walkSlot (b : Builder) (n : NodeRef) (scope : Option Nat) (flat : Bool) (depth i : Nat)
    (cls : WokFieldClass) : WokSlot → Builder
  | .node (some child) =>
      if cls = .node ∨ cls = .opt then walkNode b ((i, 0) :: n.path) scope flat (depth + 1) child
      else b
  | .seq ns =>
      if cls = .seq then
        if (tagLayout n.tag).blockSlot = some i then
          -- walk_scope
          let col := b.lines.colOf ((ns.head?.map WokNode.off).getD n.off)
          let s := b.scope.length
          (walkItems (b.pushScope n scope flat col) n.path i s flat depth 0 ns).closeScope s
        else walkSeq b n.path i scope flat depth 0 ns
      else b
  | _ => b

/-- The items of block `s`, from number `k` on. -/
def walkItems (b : Builder) (path : Path) (i s : Nat) (flat : Bool) (depth k : Nat) :
    List WokNode → Builder
  | [] => b
  | n :: ns =>
      let idx := b.item.length
      let b := (b.pushItem (nodeRef ((i, k) :: path) n) s flat (k == 0)).enterItem idx
      let b := (walkNode b ((i, k) :: path) (some s) flat (depth + 1) n).exitItem idx
      walkItems b path i s flat depth (k + 1) ns

def walkSeq (b : Builder) (path : Path) (i : Nat) (scope : Option Nat) (flat : Bool)
    (depth k : Nat) : List WokNode → Builder
  | [] => b
  | n :: ns =>
      walkSeq (walkNode b ((i, k) :: path) scope flat (depth + 1) n) path i scope flat depth
        (k + 1) ns

end

/-- The items and blocks of a file; a tree that is not a file has none. -/
def build (file : WokNode) (src : List UInt8) : Builder :=
  let b : Builder := ⟨linesBuild src, [], [], 0⟩
  if file.tag = .wFile then walkNode b [] none false 0 file else b

/-! ### Attachment -/

inductive TargetKind where
  | lead | trail | close
  deriving Repr, DecidableEq

/-- Where a comment goes: before or after an item, or at the end of a block; and when that is
in the printed text. -/
structure Target where
  kind : TargetKind
  idx : Nat
  rank : Nat
  deriving Repr, DecidableEq

namespace Builder

def itemAt (b : Builder) (i : Nat) : Item := b.item.getD i default

def scopeAt (b : Builder) (s : Nat) : Scope := b.scope.getD s default

def targetRank (b : Builder) : TargetKind → Nat → Nat
  | .lead, idx => (b.itemAt idx).enter
  | .trail, idx => (b.itemAt idx).exit
  | .close, idx => (b.scopeAt idx).close

def targetNode (b : Builder) (t : Target) : NodeRef :=
  match t.kind with
  | .lead | .trail => (b.itemAt t.idx).node
  | .close => (b.scopeAt t.idx).owner

/-- The last of the first `before` items that begins and ends on the line, before the
comment. -/
def findLineItem (b : Builder) (line : Nat) (coff : UInt32) : Nat → Option Nat
  | 0 => none
  | i + 1 =>
      let it := b.itemAt i
      if it.line < line then none
      else if it.flat ∨ it.endLine ≠ line then b.findLineItem line coff i
      else if !itemTakesTrail it.node.tag then b.findLineItem line coff i
      else if coff < it.node.off + it.node.len then b.findLineItem line coff i
      else some i

/-- The innermost of the blocks from `s` outwards whose items sit at or left of the comment;
the file's own as a last resort. `none` when the fuel runs out. -/
def closeScopeFrom (b : Builder) (ccol : UInt32) : Nat → Option Nat → Option Nat
  | _, none => some 0
  | 0, some _ => none
  | fuel + 1, some s =>
      let sc := b.scopeAt s
      if sc.closable && !sc.flat && sc.itemCol ≤ ccol then some s
      else b.closeScopeFrom ccol fuel sc.parent

def chooseCloseScope (b : Builder) (before : Nat) (ccol : UInt32) : Option Nat :=
  b.closeScopeFrom ccol b.scope.length
    (if before ≠ 0 then some (b.itemAt (before - 1)).scope else none)

/-- `outer` is `inner` or a block around it. `none` when the fuel runs out. -/
def scopeEncloses (b : Builder) (outer : Nat) : Nat → Option Nat → Option Bool
  | _, none => some false
  | 0, some _ => none
  | fuel + 1, some inner =>
      if inner = outer then some true else b.scopeEncloses outer fuel (b.scopeAt inner).parent

/-- The rules for one comment. `before` items begin left of it, `next` is the first item after
it that is not flat. -/
def chooseTarget (b : Builder) (c : WokComment) (before next : Nat) :
    Option (TargetKind × Nat) :=
  let cline := b.lines.lineOf c.off
  let ccol := b.lines.colOf c.off
  let haveNext := next < b.item.length
  match if b.lines.startsItsLine c.off then none else b.findLineItem cline c.off before with
  | some idx => some (.trail, idx)
  | none =>
      if haveNext ∧ ccol ≤ (b.itemAt next).col then some (.lead, next)
      else do
        let s ← b.chooseCloseScope before ccol
        if haveNext then
          if ← b.scopeEncloses s b.scope.length (some (b.itemAt next).scope) then
            return (.lead, next)
          else return (.close, s)
        else return (.close, s)

/-- A target before the one of the comment before gives way to it. -/
def orderTarget (prev : Option Target) (t : Target) : Target :=
  match prev with
  | some p => if t.rank < p.rank then p else t
  | none => t

/-- The targets of the comments. -/
def attachFrom (b : Builder) (before next : Nat) (prev : Option Target) :
    List WokComment → Option (List Target)
  | [] => some []
  | c :: cs => do
      let before :=
        before + ((b.item.drop before).takeWhile fun it => it.node.off < c.off).length
      let next := next +
        ((b.item.drop next).takeWhile fun it => it.flat || it.node.off < c.off + c.len).length
      let (kind, idx) ← b.chooseTarget c before next
      let t := orderTarget prev ⟨kind, idx, b.targetRank kind idx⟩
      let ts ← b.attachFrom before next (some t) cs
      return t :: ts

end Builder

/-! ### The table -/

structure WokTriviaEntry where
  lead : Run
  trail : Run
  blankBefore : Bool
  deriving Repr, DecidableEq, Inhabited

/-- The entries, by the address of their node. The index of an entry is one more than its
position: index zero is the reserved sentinel. -/
abbrev EntryMap := List (Path × WokTriviaEntry)

namespace EntryMap

def lookup (m : EntryMap) (n : Path) : Option WokTriviaEntry := List.lookup n m

/-- Change the entry of a node, which is made when it is not there. -/
def modify (m : EntryMap) (n : Path) (f : WokTriviaEntry → WokTriviaEntry) : EntryMap :=
  match m with
  | [] => [(n, f default)]
  | (n', e) :: m => if n' = n then (n', f e) :: m else (n', e) :: modify m n f

end EntryMap

/-- The slots of the table, at least twice its capacity. The size is a `u32` that doubles: past
2^31 it is zero and stays so, and the loop does not end. -/
def tableSize (cap : UInt32) : Option UInt32 :=
  ((List.range 28).map fun i => UInt32.ofNat (16 * 2 ^ i)).find? fun size => cap * 2 ≤ size

structure WokTrivia where
  entry : EntryMap
  comment : List WokComment

/-- The first comment that leads the item. -/
def firstLead (targets : List Target) (i : Nat) : Option Nat :=
  targets.findIdx? fun t => t.kind = .lead ∧ t.idx = i

/-- The break between two items of a block, above the comments that lead the second. -/
def hasBlankBefore (b : Builder) (comments : List WokComment) (targets : List Target) (i : Nat) :
    Bool :=
  let it := b.itemAt i
  let line := match firstLead targets i >>= (comments[·]?) with
    | some c => b.lines.lineOf c.off
    | none => it.line
  !(it.flat || it.firstInScope || it.scope == 0) && line != 0 && b.lines.lineIsBlank (line - 1)

def markBlank (b : Builder) (comments : List WokComment) (targets : List Target) (m : EntryMap)
    (i : Nat) : EntryMap :=
  if hasBlankBefore b comments targets i then
    m.modify (b.itemAt i).node.path fun e => { e with blankBefore := true }
  else m

/-- Comment `ci` joins the leading or the trailing run of its target. -/
def addComment (b : Builder) (m : EntryMap) (t : Target) (ci : Nat) : EntryMap :=
  m.modify (b.targetNode t).path fun e =>
    if t.kind = .lead then { e with lead := e.lead.push ci }
    else { e with trail := e.trail.push ci }

def addComments (b : Builder) (m : EntryMap) (ci : Nat) : List Target → EntryMap
  | [] => m
  | t :: ts => addComments b (addComment b m t ci) (ci + 1) ts

/-- `none` stands for a run that does not end. -/
def wokTriviaAttach (file : WokNode) (src : List UInt8) (comments : List WokComment) :
    Option WokTrivia := do
  let b := build file src
  let comments := if b.scope.length = 0 then [] else comments
  let _ ← tableSize (.ofNat comments.length + .ofNat b.item.length + 2)
  let targets ← b.attachFrom 0 0 none comments
  let m : EntryMap := EntryMap.modify [] [] id
  let m := (List.range b.item.length).foldl (markBlank b comments targets) m
  return ⟨addComments b m 0 targets, comments⟩

end Wok.Grammar.Trivia
