/-
Module: Wok.Grammar.Sexpr
Purpose: The s-expression of a syntax tree: the writer and the reader, both one walk over the
  schema.
Imports: Wok.Grammar.Ast, Wok.Lib.Scanner
Trusted boundary: none
Main exports: Dump, renderNode, wokSexprDump, Reader, Read, parseNode, wokSexprRead
-/
import Wok.Grammar.Ast
import Wok.Lib.Scanner

namespace Wok.Grammar

open Wok.Lib (Scanner decimal readDecimal)
open Wok.Lib.Scanner

/-! ### Bytes -/

def ch (c : Char) : UInt8 := UInt8.ofNat c.toNat

/-- The bytes of a text of the program. All of them are ASCII. -/
def bytes (s : String) : List UInt8 := s.toList.map ch

def digitByte (d : Nat) : UInt8 := ch '0' + UInt8.ofNat d

def number (v : Nat) : List UInt8 := (decimal v).map digitByte

/-! ### Names of the schema -/

def WokTag.name : WokTag → String
  | .nName => "N_Name"
  | .nModPath => "N_ModPath"
  | .dModule => "D_Module"
  | .dImport => "D_Import"
  | .dType => "D_Type"
  | .dAlias => "D_Alias"
  | .dEffect => "D_Effect"
  | .dClass => "D_Class"
  | .dInstance => "D_Instance"
  | .dForeign => "D_Foreign"
  | .dExternType => "D_ExternType"
  | .dSig => "D_Sig"
  | .dFixity => "D_Fixity"
  | .dEquation => "D_Equation"
  | .dError => "D_Error"
  | .hTyParam => "H_TyParam"
  | .hConDef => "H_ConDef"
  | .hFieldType => "H_FieldType"
  | .hOpSig => "H_OpSig"
  | .hForeignMember => "H_ForeignMember"
  | .hSigName => "H_SigName"
  | .hFixRel => "H_FixRel"
  | .lPrefix => "L_Prefix"
  | .lInfix => "L_Infix"
  | .tVar => "T_Var"
  | .tCon => "T_Con"
  | .tApp => "T_App"
  | .tFun => "T_Fun"
  | .tQual => "T_Qual"
  | .tWith => "T_With"
  | .tList => "T_List"
  | .tTuple => "T_Tuple"
  | .tUnit => "T_Unit"
  | .tRowArg => "T_RowArg"
  | .tTransfer => "T_Transfer"
  | .hRowEntry => "H_RowEntry"
  | .pVar => "P_Var"
  | .pWild => "P_Wild"
  | .pInt => "P_Int"
  | .pStr => "P_Str"
  | .pChar => "P_Char"
  | .pCon => "P_Con"
  | .pCons => "P_Cons"
  | .pTuple => "P_Tuple"
  | .pList => "P_List"
  | .pUnit => "P_Unit"
  | .pAs => "P_As"
  | .pRecord => "P_Record"
  | .hFieldPat => "H_FieldPat"
  | .eVar => "E_Var"
  | .eCon => "E_Con"
  | .eInt => "E_Int"
  | .eStr => "E_Str"
  | .eChar => "E_Char"
  | .eUnit => "E_Unit"
  | .eOpRef => "E_OpRef"
  | .eApp => "E_App"
  | .eChain => "E_Chain"
  | .eDot => "E_Dot"
  | .eNeg => "E_Neg"
  | .eList => "E_List"
  | .eTuple => "E_Tuple"
  | .eLambda => "E_Lambda"
  | .eLetIn => "E_LetIn"
  | .eHandleIn => "E_HandleIn"
  | .eUseIn => "E_UseIn"
  | .eIf => "E_If"
  | .eCase => "E_Case"
  | .eHandler => "E_Handler"
  | .eAssign => "E_Assign"
  | .eRecord => "E_Record"
  | .eBlock => "E_Block"
  | .eError => "E_Error"
  | .sLet => "S_Let"
  | .sHandle => "S_Handle"
  | .sUse => "S_Use"
  | .sDiscard => "S_Discard"
  | .hChainOp => "H_ChainOp"
  | .hBind => "H_Bind"
  | .hUseBind => "H_UseBind"
  | .hAlt => "H_Alt"
  | .hClause => "H_Clause"
  | .hField => "H_Field"
  | .wFile => "W_File"

/-- The tags, in the order of the schema. -/
def WokTag.all : List WokTag :=
  [.nName, .nModPath, .dModule, .dImport, .dType, .dAlias, .dEffect, .dClass, .dInstance,
    .dForeign, .dExternType, .dSig, .dFixity, .dEquation, .dError, .hTyParam, .hConDef,
    .hFieldType, .hOpSig, .hForeignMember, .hSigName, .hFixRel, .lPrefix, .lInfix, .tVar, .tCon,
    .tApp, .tFun, .tQual, .tWith, .tList, .tTuple, .tUnit, .tRowArg, .tTransfer, .hRowEntry,
    .pVar, .pWild, .pInt, .pStr, .pChar, .pCon, .pCons, .pTuple, .pList, .pUnit, .pAs, .pRecord,
    .hFieldPat, .eVar, .eCon, .eInt, .eStr, .eChar, .eUnit, .eOpRef, .eApp, .eChain, .eDot,
    .eNeg, .eList, .eTuple, .eLambda, .eLetIn, .eHandleIn, .eUseIn, .eIf, .eCase, .eHandler,
    .eAssign, .eRecord, .eBlock, .eError, .sLet, .sHandle, .sUse, .sDiscard, .hChainOp, .hBind,
    .hUseBind, .hAlt, .hClause, .hField, .wFile]

def wokFamilyName : WokFamily → String
  | .none => "NONE"
  | .error => "ERROR"
  | .file => "FILE"
  | .decl => "DECL"
  | .type => "TYPE"
  | .pat => "PAT"
  | .expr => "EXPR"
  | .stmt => "STMT"
  | .name => "NAME"
  | .path => "PATH"
  | .lhs => "LHS"
  | .bindlhs => "BINDLHS"
  | .signame => "SIGNAME"
  | .typaram => "TYPARAM"
  | .condef => "CONDEF"
  | .fieldtype => "FIELDTYPE"
  | .opsig => "OPSIG"
  | .foreignmem => "FOREIGNMEM"
  | .rowentry => "ROWENTRY"
  | .fieldpat => "FIELDPAT"
  | .chainop => "CHAINOP"
  | .bind => "BIND"
  | .usebind => "USEBIND"
  | .alt => "ALT"
  | .clause => "CLAUSE"
  | .field => "FIELD"
  | .fixrel => "FIXREL"

def wokSexprMaxDepth : Nat := 256

/-! ### The writer -/

/-- What the writer reports to the error stream. It then writes a marker, which does not read
back. -/
inductive DumpFault where
  | depth (tag : WokTag)
  | nullNode (parent : WokTag) (field : String)
  deriving Repr, DecidableEq

def DumpFault.message : DumpFault → List UInt8
  | .depth tag =>
      bytes "wok_sexpr: dump error: nesting exceeds " ++ number wokSexprMaxDepth ++
        bytes " at tag " ++ bytes tag.name
  | .nullNode parent field =>
      bytes "wok_sexpr: dump error: " ++ bytes parent.name ++ bytes "." ++ bytes field ++
        bytes " is a null NODE field"

/-- What has been written, and reported. -/
structure Dump where
  out : List UInt8
  err : List DumpFault
  deriving Repr, DecidableEq

instance : Append Dump where
  append a b := ⟨a.out ++ b.out, a.err ++ b.err⟩

def putText (bs : List UInt8) : Dump := ⟨bs, []⟩

/-- A node is a block when one of its fields holds nodes. -/
def WokTag.isBlock (t : WokTag) : Bool :=
  t.fields.any fun f => f.cls = .node || f.cls = .opt || f.cls = .seq

def indent (depth : Nat) : List UInt8 := (List.replicate depth (bytes "  ")).flatten

def hexUpper (d : Nat) : UInt8 :=
  if d < 10 then ch '0' + UInt8.ofNat d else ch 'A' + UInt8.ofNat (d - 10)

def escape (c : UInt8) : List UInt8 :=
  if c = ch '\\' then bytes "\\\\"
  else if c = ch '"' then bytes "\\\""
  else if c = ch '\n' then bytes "\\n"
  else if c = ch '\t' then bytes "\\t"
  else if c = ch '\r' then bytes "\\r"
  else if c < 0x20 then bytes "\\x" ++ [hexUpper (c.toNat / 16), hexUpper (c.toNat % 16)]
  else [c]

/-- The bytes of a span. The index wraps like the `u32` it is. -/
def WokSpan.text (src : List UInt8) (s : WokSpan) : List UInt8 :=
  (List.range s.len.toNat).map fun i => src.getD (s.off + UInt32.ofNat i).toNat 0

def renderString (src : List UInt8) (s : WokSpan) : List UInt8 :=
  ch '"' :: (s.text src).flatMap escape ++ [ch '"']

mutual

def renderNode (src : List UInt8) (depth : Nat) : WokNode → Dump
  | .mk tag _ _ slots =>
      if depth > wokSexprMaxDepth then ⟨bytes "(!depth)", [.depth tag]⟩
      else if tag.isBlock then
        putText (ch '(' :: bytes tag.name) ++
          renderFields src tag (ch '\n' :: indent (depth + 1)) (depth + 1) tag.fields slots ++
            putText [ch ')']
      else
        putText (ch '(' :: bytes tag.name) ++
          renderFields src tag [ch ' '] depth tag.fields slots ++ putText [ch ')']

/-- The fields of a node, each after `sep`. -/
def renderFields (src : List UInt8) (tag : WokTag) (sep : List UInt8) (depth : Nat) :
    List WokField → List WokSlot → Dump
  | field :: fields, slot :: slots =>
      putText sep ++ renderField src tag field depth slot ++
        renderFields src tag sep depth fields slots
  | _, _ => putText []

/-- The class of the field says which member of the slot is meant. -/
def renderField (src : List UInt8) (tag : WokTag) (field : WokField) (depth : Nat) :
    WokSlot → Dump
  | .node none =>
      match field.cls with
      | .node => ⟨bytes "(!null)", [.nullNode tag field.name]⟩
      | .opt => putText (bytes "(none)")
      | _ => putText []
  | .node (some n) =>
      match field.cls with
      | .node => renderNode src depth n
      | .opt =>
          putText (bytes "(some" ++ ch '\n' :: indent (depth + 1)) ++
            renderNode src (depth + 1) n ++
            putText [ch ')']
      | _ => putText []
  | .seq ns =>
      match field.cls with
      | .seq => putText (bytes "(seq") ++ renderItems src (depth + 1) ns ++ putText [ch ')']
      | _ => putText []
  | .span s =>
      match field.cls with
      | .name | .text => putText (renderString src s)
      | _ => putText []
  | .num v =>
      match field.cls with
      | .int => putText (number v.toNat)
      | _ => putText []
  | .flag b =>
      match field.cls with
      | .flag => putText (if b then bytes "#t" else bytes "#f")
      | _ => putText []

def renderItems (src : List UInt8) (depth : Nat) : List WokNode → Dump
  | [] => putText []
  | n :: ns =>
      putText (ch '\n' :: indent depth) ++ renderNode src depth n ++ renderItems src depth ns

end

def wokSexprDump (src : List UInt8) (n : WokNode) : Dump := renderNode src 1 n ++ putText [ch '\n']

/-! ### The reader -/

inductive WokDiagCode where
  | lexUnterminated | lexIntRange | parse | depth
  deriving Repr, DecidableEq

structure WokDiag where
  code : WokDiagCode
  off : UInt32
  len : UInt32
  msg : List UInt8
  deriving Repr, DecidableEq

/-- The size of the text and the pool of decoded bytes. -/
structure Reader where
  n : Nat
  pool : List UInt8
  deriving Repr, DecidableEq

/-- A reader fails with the faults it has added to the sink. -/
abbrev Read (α : Type) := Scanner UInt8 Reader (List WokDiag) α

def pos : Read UInt32 := do
  let i ← input
  let r ← get
  return UInt32.ofNat (r.n - i.length)

def fault {α : Type} (code : WokDiagCode) (off len : UInt32) (msg : List UInt8) : Read α :=
  fail [⟨code, off, len, msg⟩]

def isWs (c : UInt8) : Bool := c = ch ' ' || c = ch '\t' || c = ch '\n' || c = ch '\r'

def isDelim (c : UInt8) : Bool := c = ch '(' || c = ch ')' || c = ch '"' || isWs c

def skipWs : Read Unit := skipWhile isWs

def peekIs (c : UInt8) : Read Bool := do
  skipWs
  let i ← input
  return i.head? = some c

def expectChar (c : UInt8) (what : List UInt8) : Read Unit := do
  skipWs
  match ← input with
  | [] =>
      fault .lexUnterminated (← pos) 0
        (bytes "unterminated " ++ what ++ bytes ": expected `" ++ [c] ++
          bytes "`, found end of input")
  | b :: bs =>
      if b = c then seek bs
      else
        fault .parse (← pos) 0
          (bytes "expected `" ++ [c] ++ bytes "`, found `" ++ [b] ++ bytes "`")

/-- A run of bytes that are no delimiters, and where it starts. -/
def readWord : Read (Option (UInt32 × List UInt8)) := do
  skipWs
  let off ← pos
  let w ← takeWhile fun c => !isDelim c
  return if w = [] then none else some (off, w)

def lengthOf (w : List UInt8) : UInt32 := UInt32.ofNat w.length

/-- A word; where there is none, the fault says whether the text is at its end. -/
def wordElse (atEnd : UInt32 → WokDiag) (other : UInt32 → UInt8 → WokDiag) :
    Read (UInt32 × List UInt8) := do
  match ← readWord with
  | some w => return w
  | none => do
      let off ← pos
      match ← input with
      | [] => fail [atEnd off]
      | c :: _ => fail [other off c]

def fieldWord (what : List UInt8) : Read (UInt32 × List UInt8) :=
  wordElse (fun off => ⟨.lexUnterminated, off, 0, bytes "unterminated node: expected " ++ what⟩)
    fun off c =>
      ⟨.parse, off, 0, bytes "expected " ++ what ++ bytes ", found `" ++ [c] ++ bytes "`"⟩

def hexDigit (c : UInt8) : Option Nat :=
  if ch '0' ≤ c ∧ c ≤ ch '9' then some (c - ch '0').toNat
  else if ch 'a' ≤ c ∧ c ≤ ch 'f' then some ((c - ch 'a').toNat + 10)
  else if ch 'A' ≤ c ∧ c ≤ ch 'F' then some ((c - ch 'A').toNat + 10)
  else none

/-- What an escape of one letter stands for. -/
def unescape (e : UInt8) : Option UInt8 :=
  if e = ch '\\' then some (ch '\\')
  else if e = ch '"' then some (ch '"')
  else if e = ch 'n' then some (ch '\n')
  else if e = ch 't' then some (ch '\t')
  else if e = ch 'r' then some (ch '\r')
  else none

/-- A byte before what has been decoded. -/
def decoded (c : UInt8) (r : Except (List WokDiag) (List UInt8 × List UInt8)) :
    Except (List WokDiag) (List UInt8 × List UInt8) :=
  r.map fun p => (c :: p.1, p.2)

/-- The bytes that a literal stands for and what follows its closing quote; `n` is the size of
the text and `start` where the literal starts. -/
def decodeString (n : Nat) (start : UInt32) :
    List UInt8 → Except (List WokDiag) (List UInt8 × List UInt8)
  | [] => .error [⟨.lexUnterminated, start, 0, bytes "unterminated string literal"⟩]
  | c :: cs =>
      if c = ch '"' then .ok ([], cs)
      else if c = ch '\\' then
        match cs with
        | [] => .error [⟨.lexUnterminated, start, 0, bytes "unterminated string literal"⟩]
        | e :: es =>
            if e = ch 'x' then
              match es with
              | h :: l :: es' =>
                  match hexDigit h, hexDigit l with
                  | some hi, some lo =>
                      decoded (UInt8.ofNat ((hi <<< 4) ||| lo)) (decodeString n start es')
                  | _, _ =>
                      .error [⟨.parse, UInt32.ofNat (n - (es'.length + 2)), 0,
                        bytes "invalid \\x escape in string literal"⟩]
              | _ =>
                  .error [⟨.lexUnterminated, start, 0,
                    bytes "unterminated \\x escape in string literal"⟩]
            else
              match unescape e with
              | some d => decoded d (decodeString n start es)
              | none =>
                  .error [⟨.parse, UInt32.ofNat (n - (es.length + 1)), 0,
                    bytes "unknown escape `\\" ++ [e] ++ bytes "` in string literal"⟩]
      else decoded c (decodeString n start cs)

/-- A literal. Its bytes go to the pool, or are thrown away. -/
def readStringLit (keep : Bool) : Read WokSpan := do
  skipWs
  let start ← pos
  expectChar (ch '"') (bytes "string literal")
  let r ← get
  match decodeString r.n start (← input) with
  | .error e => fail e
  | .ok (bs, rest) => do
      seek rest
      if keep then do
        set { r with pool := r.pool ++ bs }
        return ⟨UInt32.ofNat r.pool.length, UInt32.ofNat bs.length⟩
      else return ⟨0, 0⟩

def digitValue (c : UInt8) : Option Nat :=
  if ch '0' ≤ c ∧ c ≤ ch '9' then some (c - ch '0').toNat else none

def uint64Max : Nat := 2 ^ 64 - 1

def readUintField : Read UInt64 := do
  let (off, w) ← fieldWord (bytes "an integer field")
  match readDecimal digitValue uint64Max 0 w with
  | .ok v => return UInt64.ofNat v
  | .error .notDigit =>
      fault .parse off (lengthOf w) (bytes "expected a decimal integer, found `" ++ w ++ bytes "`")
  | .error .range =>
      fault .lexIntRange off (lengthOf w)
        (bytes "integer literal `" ++ w ++ bytes "` out of range")

def readFlagField : Read Bool := do
  let (off, w) ← fieldWord (bytes "`#t` or `#f`")
  if w = bytes "#t" then return true
  else if w = bytes "#f" then return false
  else
    fault .parse off (lengthOf w) (bytes "expected `#t` or `#f`, found `" ++ w ++ bytes "`")

def lookupTag (w : List UInt8) : Option WokTag := WokTag.all.find? fun t => bytes t.name = w

/-! #### The fields that are too many -/

/-- The rest of a list `nesting` levels deep; a step of the loop takes a byte at least. -/
def skipNested (start : UInt32) : Nat → Nat → Read Unit
  | _, 0 => return ()
  | 0, _ => fault .lexUnterminated start 0 (bytes "unterminated list")
  | fuel + 1, nesting + 1 => do
      match ← input with
      | [] => fault .lexUnterminated start 0 (bytes "unterminated list")
      | c :: cs =>
          if c = ch '"' then do
            let _ ← readStringLit false
            skipNested start fuel (nesting + 1)
          else do
            seek cs
            if c = ch '(' then skipNested start fuel (nesting + 2)
            else if c = ch ')' then skipNested start fuel nesting
            else skipNested start fuel (nesting + 1)

def skipOneForm : Read Unit := do
  skipWs
  let start ← pos
  match ← input with
  | [] => fault .lexUnterminated start 0 (bytes "unterminated list")
  | c :: cs =>
      if c = ch '"' then do
        let _ ← readStringLit false
      else if c = ch '(' then do
        seek cs
        skipNested start cs.length 1
      else if c = ch ')' then fail []
      else do
        let _ ← readWord

/-- How many forms stand before the closing bracket. -/
def countExtra (tag : WokTag) : Nat → UInt16 → Read UInt16
  | 0, _ => do
      fault .lexUnterminated (← pos) 0
        (bytes "unterminated node `" ++ bytes tag.name ++ bytes "`: missing `)`")
  | fuel + 1, extra => do
      if ← peekIs (ch ')') then return extra
      else do
        match ← input with
        | [] =>
            fault .lexUnterminated (← pos) 0
              (bytes "unterminated node `" ++ bytes tag.name ++ bytes "`: missing `)`")
        | _ :: _ => do
            skipOneForm
            countExtra tag fuel (extra + 1)

def wrongCount {α : Type} (tag : WokTag) (got : Nat) : Read α := do
  fault .parse (← pos) 0
    (bytes tag.name ++ bytes ": expected " ++ number tag.fields.length ++ bytes " fields, got " ++
      number got)

/-! #### Fields and nodes

`child` is the reader of the nodes one level down. -/

def parseOpt (child : Read WokNode) : Read (Option WokNode) := do
  skipWs
  let off ← pos
  expectChar (ch '(') (bytes "OPT field")
  let (woff, w) ← wordElse
    (fun _ => ⟨.lexUnterminated, off, 0, bytes "unterminated OPT field: expected `none` or `some`"⟩)
    fun p _ => ⟨.parse, p, 0, bytes "expected `none` or `some`"⟩
  if w = bytes "none" then do
    expectChar (ch ')') (bytes "none")
    return none
  else if w = bytes "some" then do
    let n ← child
    expectChar (ch ')') (bytes "some")
    return some n
  else
    fault .parse woff (lengthOf w) (bytes "expected `none` or `some`, found `" ++ w ++ bytes "`")

/-- The nodes up to the closing bracket. Each takes a byte at least, so that the fuel is not
used up before the text is. -/
def parseItems (child : Read WokNode) : Nat → Read (List WokNode)
  | 0 => do
      if ← peekIs (ch ')') then do
        seek (← input).tail
        return []
      else fault .lexUnterminated (← pos) 0 (bytes "unterminated seq")
  | fuel + 1 => do
      if ← peekIs (ch ')') then do
        seek (← input).tail
        return []
      else do
        match ← input with
        | [] => fault .lexUnterminated (← pos) 0 (bytes "unterminated seq")
        | _ :: _ => do
            let n ← child
            let ns ← parseItems child fuel
            return n :: ns

def parseSeq (child : Read WokNode) : Read (List WokNode) := do
  skipWs
  let off ← pos
  expectChar (ch '(') (bytes "SEQ field")
  let (woff, w) ← wordElse
    (fun _ => ⟨.lexUnterminated, off, 0, bytes "unterminated SEQ field: expected `seq`"⟩)
    fun p _ => ⟨.parse, p, 0, bytes "expected `seq`"⟩
  if w = bytes "seq" then do parseItems child (← input).length
  else fault .parse woff (lengthOf w) (bytes "expected `seq`, found `" ++ w ++ bytes "`")

def familyOk (field : WokField) (n : WokNode) : Read Unit := do
  if field.family.accepts n.tag.family then return ()
  else
    fault .parse (← pos) 0
      (bytes "field `" ++ bytes field.name ++ bytes "` takes " ++
        bytes (wokFamilyName field.family) ++ bytes ", found " ++ bytes n.tag.name ++
        bytes ", which is " ++ bytes (wokFamilyName n.tag.family))

def familiesOk (field : WokField) : List WokNode → Read Unit
  | [] => return ()
  | n :: ns => do
      familyOk field n
      familiesOk field ns

def parseField (child : Read WokNode) (field : WokField) : Read WokSlot := do
  match field.cls with
  | .node => do
      let n ← child
      familyOk field n
      return .node (some n)
  | .opt => do
      let n ← parseOpt child
      familiesOk field n.toList
      return .node n
  | .seq => do
      let ns ← parseSeq child
      familiesOk field ns
      return .seq ns
  | .name | .text => do
      let s ← readStringLit true
      return .span s
  | .int => do
      let v ← readUintField
      return .num v
  | .flag => do
      let b ← readFlagField
      return .flag b

/-- The fields from the one with number `i` on. -/
def parseFields (child : Read WokNode) (tag : WokTag) : Nat → List WokField → Read (List WokSlot)
  | _, [] => return []
  | i, field :: fields => do
      if ← peekIs (ch ')') then wrongCount tag i
      else do
        match ← input with
        | [] =>
            fault .lexUnterminated (← pos) 0
              (bytes "unterminated node `" ++ bytes tag.name ++ bytes "`")
        | _ :: _ => do
            let slot ← parseField child field
            let slots ← parseFields child tag (i + 1) fields
            return slot :: slots

/-- The closing bracket of a node. -/
def closeNode (tag : WokTag) : Read Unit := do
  if ← peekIs (ch ')') then do seek (← input).tail
  else do
    match ← input with
    | [] =>
        fault .lexUnterminated (← pos) 0
          (bytes "unterminated node `" ++ bytes tag.name ++ bytes "`: missing `)`")
    | _ :: _ => do
        let extra ← countExtra tag (← input).length 0
        wrongCount tag (tag.fields.length + extra.toNat)

/-- A node that has `left` levels to nest in: the depth counts up to the limit, `left` down
from it. -/
def parseNode : Nat → Read WokNode
  | 0 => do
      fault .depth (← pos) 0
        (bytes "s-expression nesting exceeds " ++ number wokSexprMaxDepth ++ bytes " levels")
  | left + 1 => do
      skipWs
      let openOff ← pos
      expectChar (ch '(') (bytes "node")
      let (tagOff, w) ← wordElse
        (fun _ => ⟨.lexUnterminated, openOff, 0, bytes "unterminated node: missing tag"⟩)
        fun p _ => ⟨.parse, p, 0, bytes "expected a tag name after `(`"⟩
      match lookupTag w with
      | none => fault .parse tagOff (lengthOf w) (bytes "unknown tag `" ++ w ++ bytes "`")
      | some tag => do
          let slots ← parseFields (parseNode left) tag 0 tag.fields
          closeNode tag
          return .mk tag 0 0 slots

def readRoot : Read WokNode := do
  let root ← parseNode wokSexprMaxDepth
  skipWs
  match ← input with
  | [] => return root
  | _ :: _ => do
      fault .parse (← pos) 0 (bytes "trailing content after the top-level form")

/-- The tree and the pool its spans index, which ends in a zero byte; or the faults. -/
def wokSexprRead (text : List UInt8) : Except (List WokDiag) (WokNode × List UInt8) :=
  match readRoot text ⟨text.length, []⟩ with
  | .ok (root, _, r) => .ok (root, r.pool ++ [0])
  | .error e => .error e

attribute [grind =] decodeString renderField

end Wok.Grammar
