/-
Module: Wok.Grammar.Fixity
Purpose: The table of operators that name resolution builds from the fixity
  declarations of a file: a bit matrix closed with Warshall's algorithm, its cycles, and
  the check of an operator chain against it.
Imports: Mathlib.Data.Nat.Notation
Trusted boundary: none
Main exports: OpName, FixDecl, FixOp, Fix, fixBit, fixSet, fixFind, declareOps, addEdges,
  closure, buildFixity, checkFixityCycles, checkChain
-/
import Mathlib.Data.Nat.Notation

namespace Wok.Grammar

/-! ### Declarations -/

inductive Assoc where
  | left
  | right
  deriving Repr, DecidableEq

inductive Sense where
  | tighter
  | looser
  deriving Repr, DecidableEq

/-- An operator as it is written: its text, whether it is an identifier, its offset, and
its line and column. -/
structure OpName where
  text : String
  alpha : Bool
  off : Nat
  pos : Option (Int × Int)
  deriving Repr, DecidableEq

/-- `tighter than op`, `looser than op`. -/
structure FixRel where
  sense : Sense
  name : OpName
  deriving Repr, DecidableEq

/-- `fixity op left tighter than ...`. -/
structure FixDecl where
  name : OpName
  assoc : Assoc
  rels : List FixRel
  deriving Repr, DecidableEq

/-! ### The table -/

/-- An operator of the table. One that is only named as a neighbour has no offset of a
declaration. -/
structure FixOp where
  name : OpName
  assoc : Assoc
  declOff : Option Nat
  deriving Repr, DecidableEq

/-- The operators and the matrix of the order: rows of `words` words, in which the bit
`(i, j)` says that `i` binds tighter than `j`. -/
structure Fix where
  ops : List FixOp
  words : Nat
  edge : Nat → BitVec 64

def Fix.n (f : Fix) : Nat := f.ops.length

def fixBit (f : Fix) (i j : Nat) : Bool :=
  (f.edge (i * f.words + j / 64) >>> (j % 64)) &&& 1#64 != 0#64

def writeWord (f : Fix) (at_ : Nat) (w : BitVec 64) : Fix :=
  { f with edge := fun a => if a = at_ then w else f.edge a }

def fixSet (f : Fix) (i j : Nat) : Fix :=
  let at_ := i * f.words + j / 64
  writeWord f at_ (f.edge at_ ||| 1#64 <<< (j % 64))

/-- The index of an operator. An operator is its text. -/
def fixFind (ops : List FixOp) (name : String) : Option Nat :=
  ops.findIdx? fun op => op.name.text = name

/-- What is reported. -/
inductive FixDiag where
  | duplicate (name : OpName) (first : Nat)
  | tighterThanItself (name : OpName)
  | circular (name : OpName) (ring : List OpName)
  | noOrder (fst at_ : OpName)
  deriving Repr, DecidableEq

/-- The text of a report, but for the order that the file declares, which follows it;
`position` is the line and column of an offset. The list of a ring is cut at 255 bytes. -/
def FixDiag.message (position : Nat → Nat × Nat) (d : FixDiag) : String :=
  let quote := fun op : OpName => "`" ++ op.text ++ "`"
  let place := fun off => toString (position off).1 ++ ":" ++ toString (position off).2
  match d with
  | .duplicate name first =>
      "operator " ++ quote name ++ " already has a fixity at " ++ place first
  | .tighterThanItself name => quote name ++ " is declared tighter than itself"
  | .circular _ ring =>
      "the fixity order is circular through " ++ ", ".intercalate (ring.map quote)
        ++ ", so no operator in it is loosest"
  | .noOrder fst at_ =>
      quote fst ++ " (" ++ place fst.off ++ ") and " ++ quote at_ ++ " (" ++ place at_.off
        ++ ") have no declared order and nothing looser stands between them: bracket the "
        ++ "chain, or relate them with `tighter than`"

/-! ### Building it -/

/-- A neighbour that is not known yet is a placeholder. -/
def addNeighbour (ops : List FixOp) (r : FixRel) : List FixOp :=
  match fixFind ops r.name.text with
  | some _ => ops
  | none => ops ++ [⟨r.name, .left, none⟩]

/-- The first declaration of an operator wins, and of another one nothing is kept. -/
def declareOp (st : List FixOp × List FixDiag) (d : FixDecl) : List FixOp × List FixDiag :=
  match fixFind st.1 d.name.text with
  | some at_ =>
      match st.1[at_]?.bind (·.declOff) with
      | some first => (st.1, st.2 ++ [.duplicate d.name first])
      | none =>
          (d.rels.foldl addNeighbour
            (st.1.modify at_ fun op => { op with assoc := d.assoc, declOff := some d.name.off }),
            st.2)
  | none =>
      (d.rels.foldl addNeighbour (st.1 ++ [⟨d.name, d.assoc, some d.name.off⟩]), st.2)

def declareOps (ds : List FixDecl) : List FixOp × List FixDiag :=
  ds.foldl declareOp ([], [])

/-- Whether the table has kept this declaration of the operator. -/
def fixIsWinner (ops : List FixOp) (d : FixDecl) : Bool :=
  match fixFind ops d.name.text with
  | some head => ops[head]?.bind (·.declOff) = some d.name.off
  | none => false

/-- `a tighter than b` and `b looser than a` are the same edge. -/
def addEdge (head : Nat) (f : Fix) (r : FixRel) : Fix :=
  match fixFind f.ops r.name.text with
  | none => f
  | some nb =>
      match r.sense with
      | .tighter => fixSet f head nb
      | .looser => fixSet f nb head

def addEdges (f : Fix) (d : FixDecl) : Fix :=
  if fixIsWinner f.ops d then
    match fixFind f.ops d.name.text with
    | some head => d.rels.foldl (addEdge head) f
    | none => f
  else f

/-- If `i` reaches `k`, it reaches everything that `k` does. -/
def orRow (k : Nat) (f : Fix) (i : Nat) : Fix :=
  if fixBit f i k then
    (List.range f.words).foldl (fun f w =>
      let at_ := i * f.words + w
      writeWord f at_ (f.edge at_ ||| f.edge (k * f.words + w))) f
  else f

def closure (f : Fix) : Fix :=
  (List.range f.n).foldl (fun f k => (List.range f.n).foldl (orRow k) f) f

/-- The table without the closure: the edges that are declared. -/
def declaredFix (ds : List FixDecl) : Fix :=
  let ops := (declareOps ds).1
  ds.foldl addEdges ⟨ops, (ops.length + 63) / 64, fun _ => 0#64⟩

def buildFixity (ds : List FixDecl) : Fix × List FixDiag :=
  (closure (declaredFix ds), (declareOps ds).2)

/-! ### Checks -/

/-- One report for each cycle, at the member that was declared first. -/
def checkFixityCycles (f : Fix) : List FixDiag :=
  (List.range f.n).filterMap fun i =>
    if !fixBit f i i then none
    else if (List.range i).any fun j => fixBit f j j && fixBit f i j && fixBit f j i then none
    else
      let ring := (List.range f.n).filter fun j => j = i || fixBit f i j && fixBit f j i
      f.ops[i]?.map fun op =>
        if ring.length ≤ 1 then .tighterThanItself op.name
        else .circular op.name (ring.filterMap fun j => f.ops[j]?.map (·.name))

/-- Whether an operator between two others is looser than both. One that is not in the
table may be. -/
def shielded (f : Fix) (chain : List OpName) (i j a b : Nat) : Bool :=
  (List.range' (i + 1) (j - i - 1)).any fun k =>
    match chain[k]? with
    | none => false
    | some op =>
        match fixFind f.ops op.text with
        | none => true
        | some c => fixBit f a c && fixBit f b c

/-- Two operators of the table with no order, and no shield. -/
def chainFault (f : Fix) (chain : List OpName) (i j : Nat) : Option FixDiag := do
  let fst ← chain[i]?
  let snd ← chain[j]?
  let a ← fixFind f.ops fst.text
  let b ← fixFind f.ops snd.text
  if a = b || fixBit f a b || fixBit f b a || shielded f chain i j a b then none
  else some (.noOrder fst snd)

/-- The first fault of a chain. -/
def checkChain (f : Fix) (chain : List OpName) : Option FixDiag :=
  if chain.length < 2 || f.n = 0 then none
  else
    (List.range chain.length).findSome? fun i =>
      (List.range' (i + 1) (chain.length - i - 1)).findSome? fun j => chainFault f chain i j

end Wok.Grammar
