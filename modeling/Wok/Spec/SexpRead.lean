/-
Module: Wok.Spec.SexpRead
Purpose: What two readers of one dump must agree on: the datum of a tree, with the bytes of
  its words and strings, and the datum that a text was read as.
Imports: Wok.Sexp.Read, Wok.Spec.Sexpr, Wok.Lib.Utf8
Trusted boundary: none
Main exports: Datum, SExp.datum, SyntaxTree.datum, ReadsAlike
-/
import Wok.Sexp.Read
import Wok.Spec.Sexpr
import Wok.Lib.Utf8

namespace Wok.Sexp

open Wok.Lib Wok.Grammar

/-- A datum apart from positions, its texts as bytes. -/
inductive Datum where
  | word (bs : List UInt8)
  | string (bs : List UInt8)
  | list (items : List Datum)

mutual

def SExp.datum : SExp → Datum
  | .word text _ => .word (utf8 text)
  | .string text _ => .string (utf8 text)
  | .list items _ => .list (datums items)

def datums : List SExp → List Datum
  | [] => []
  | d :: ds => d.datum :: datums ds

end

mutual

/-- The datum of a tree: its tag and its fields; options and sequences are lists of their
own. -/
def treeDatum : SyntaxTree → Datum
  | .mk tag values => .list (.word (bytes tag.name) :: valuesDatums tag.fields values)

def valuesDatums : List WokField → List FieldValue → List Datum
  | field :: fields, value :: values =>
      valueDatum field.cls value :: valuesDatums fields values
  | _, _ => []

def valueDatum (cls : WokFieldClass) : FieldValue → Datum
  | .node none => .list [.word (bytes "none")]
  | .node (some t) =>
      if cls = .opt then .list [.word (bytes "some"), treeDatum t] else treeDatum t
  | .seq ts => .list (.word (bytes "seq") :: treesDatums ts)
  | .text bs => .string bs
  | .num v => .word (number v.toNat)
  | .flag b => .word (if b then bytes "#t" else bytes "#f")

def treesDatums : List SyntaxTree → List Datum
  | [] => []
  | t :: ts => treeDatum t :: treesDatums ts

end

/-- The text with the bytes `dump` is read, as the datum of the tree that the reader of bytes
decodes from them. -/
def ReadsAlike (text : List Char) (dump : List UInt8) : Prop :=
  ∃ d root pool, readSExp text = some (.ok d) ∧ wokSexprRead dump = .ok (root, pool) ∧
    d.datum = treeDatum (root.tree pool)

end Wok.Sexp
