/-
Module: Wok.Grammar.Ast
Purpose: The schema of the syntax tree: which fields a node of each tag has and what may
  stand in them; and the nodes, which are uniform.
Imports: Wok.Grammar.Token
Trusted boundary: none
Main exports: WokFamily, WokFieldClass, WokTag, WokTag.family, WokTag.fields, WokNode, WokSlot
-/
import Wok.Grammar.Token

namespace Wok.Grammar

/-- What kind of child a field holds. `error` is the damage marker. -/
inductive WokFamily where
  | none | error | file | decl | type | pat | expr | stmt | name | path | lhs | bindlhs
  | signame | typaram | condef | fieldtype | opsig | foreignmem | rowentry | fieldpat | chainop
  | bind | usebind | alt | clause | field | fixrel
  deriving Repr, DecidableEq

/-- A family is wider than itself for damage, which stands anywhere, for a statement, which
may be a bare expression, and for the left side of a binding. -/
def WokFamily.accepts (want got : WokFamily) : Bool :=
  want = got || got = .error || (want = .stmt && got = .expr) ||
    (want = .bindlhs && (got = .lhs || got = .pat))

/-- What a field stores: a required node, one that may be missing, a sequence of nodes, a
part of the source, a number or a bit. -/
inductive WokFieldClass where
  | node | opt | seq | name | text | int | flag
  deriving Repr, DecidableEq

structure WokField where
  name : String
  cls : WokFieldClass
  family : WokFamily
  deriving Repr, DecidableEq

inductive WokTag where
  | nName | nModPath | dModule | dImport | dType | dAlias | dEffect | dClass | dInstance
  | dForeign | dExternType | dSig | dFixity | dEquation | dError | hTyParam | hConDef
  | hFieldType | hOpSig | hForeignMember | hSigName | hFixRel | lPrefix | lInfix | tVar | tCon
  | tApp | tFun | tQual | tWith | tList | tTuple | tUnit | tRowArg | tTransfer | hRowEntry
  | pVar | pWild | pInt | pStr | pChar | pCon | pCons | pTuple | pList | pUnit | pAs | pRecord
  | hFieldPat | eVar | eCon | eInt | eStr | eChar | eUnit | eOpRef | eApp | eChain | eDot | eNeg
  | eList | eTuple | eLambda | eLetIn | eHandleIn | eUseIn | eIf | eCase | eHandler | eAssign
  | eRecord | eBlock | eError | sLet | sHandle | sUse | sDiscard | hChainOp | hBind | hUseBind
  | hAlt | hClause | hField | wFile
  deriving Repr, DecidableEq

/-- The family a node belongs to. -/
def WokTag.family : WokTag → WokFamily
  | .dError | .eError => .error
  | .wFile => .file
  | .dModule | .dImport | .dType | .dAlias | .dEffect | .dClass | .dInstance | .dForeign
  | .dExternType | .dSig | .dFixity | .dEquation => .decl
  | .tVar | .tCon | .tApp | .tFun | .tQual | .tWith | .tList | .tTuple | .tUnit | .tRowArg
  | .tTransfer => .type
  | .pVar | .pWild | .pInt | .pStr | .pChar | .pCon | .pCons | .pTuple | .pList | .pUnit
  | .pAs | .pRecord => .pat
  | .eVar | .eCon | .eInt | .eStr | .eChar | .eUnit | .eOpRef | .eApp | .eChain | .eDot
  | .eNeg | .eList | .eTuple | .eLambda | .eLetIn | .eHandleIn | .eUseIn | .eIf | .eCase
  | .eHandler | .eAssign | .eRecord | .eBlock => .expr
  | .sLet | .sHandle | .sUse | .sDiscard => .stmt
  | .nName => .name
  | .nModPath => .path
  | .lPrefix | .lInfix => .lhs
  | .hSigName => .signame
  | .hTyParam => .typaram
  | .hConDef => .condef
  | .hFieldType => .fieldtype
  | .hOpSig => .opsig
  | .hForeignMember => .foreignmem
  | .hRowEntry => .rowentry
  | .hFieldPat => .fieldpat
  | .hChainOp => .chainop
  | .hBind => .bind
  | .hUseBind => .usebind
  | .hAlt => .alt
  | .hClause => .clause
  | .hField => .field
  | .hFixRel => .fixrel

/-- The fields of a node, in order. -/
def WokTag.fields : WokTag → List WokField
  | .nName => [⟨"text", .name, .none⟩, ⟨"upper", .flag, .none⟩]
  | .nModPath => [⟨"parts", .seq, .name⟩]
  | .dModule => [⟨"path", .node, .path⟩]
  | .dImport => [⟨"path", .node, .path⟩, ⟨"names", .seq, .name⟩, ⟨"alias", .opt, .name⟩]
  | .dType => [⟨"name", .name, .none⟩, ⟨"params", .seq, .typaram⟩, ⟨"cons", .seq, .condef⟩]
  | .dAlias => [⟨"name", .name, .none⟩, ⟨"params", .seq, .typaram⟩, ⟨"body", .node, .type⟩]
  | .dEffect => [⟨"name", .name, .none⟩, ⟨"params", .seq, .typaram⟩, ⟨"ops", .seq, .opsig⟩]
  | .dClass => [⟨"name", .name, .none⟩, ⟨"params", .seq, .typaram⟩, ⟨"body", .seq, .decl⟩]
  | .dInstance =>
      [⟨"ctx", .opt, .type⟩, ⟨"name", .name, .none⟩, ⟨"args", .seq, .type⟩, ⟨"body", .seq, .decl⟩]
  | .dForeign => [⟨"name", .name, .none⟩, ⟨"lib", .text, .none⟩, ⟨"members", .seq, .foreignmem⟩]
  | .dExternType => [⟨"name", .name, .none⟩, ⟨"params", .seq, .typaram⟩]
  | .dSig => [⟨"names", .seq, .signame⟩, ⟨"type", .node, .type⟩, ⟨"is_extern", .flag, .none⟩]
  | .dFixity =>
      [⟨"name", .name, .none⟩, ⟨"alpha", .flag, .none⟩, ⟨"assoc", .int, .none⟩,
        ⟨"rels", .seq, .fixrel⟩]
  | .dEquation => [⟨"lhs", .node, .lhs⟩, ⟨"body", .node, .expr⟩, ⟨"wheres", .seq, .decl⟩]
  | .dError => [⟨"text", .text, .none⟩]
  | .hTyParam => [⟨"name", .name, .none⟩, ⟨"is_row", .flag, .none⟩]
  | .hConDef =>
      [⟨"name", .name, .none⟩, ⟨"args", .seq, .type⟩, ⟨"fields", .seq, .fieldtype⟩,
        ⟨"is_record", .flag, .none⟩]
  | .hFieldType => [⟨"name", .name, .none⟩, ⟨"type", .node, .type⟩]
  | .hOpSig => [⟨"name", .name, .none⟩, ⟨"type", .node, .type⟩]
  | .hForeignMember => [⟨"name", .name, .none⟩, ⟨"symbol", .text, .none⟩, ⟨"type", .node, .type⟩]
  | .hSigName => [⟨"name", .name, .none⟩, ⟨"paren", .flag, .none⟩]
  | .hFixRel => [⟨"sense", .int, .none⟩, ⟨"name", .name, .none⟩, ⟨"alpha", .flag, .none⟩]
  | .lPrefix => [⟨"name", .name, .none⟩, ⟨"paren", .flag, .none⟩, ⟨"args", .seq, .pat⟩]
  | .lInfix =>
      [⟨"left", .node, .pat⟩, ⟨"op", .name, .none⟩, ⟨"backtick", .flag, .none⟩,
        ⟨"right", .node, .pat⟩]
  | .tVar => [⟨"name", .name, .none⟩]
  | .tCon => [⟨"path", .node, .path⟩]
  | .tApp => [⟨"fn", .node, .type⟩, ⟨"arg", .node, .type⟩]
  | .tFun => [⟨"from", .node, .type⟩, ⟨"to", .node, .type⟩]
  | .tQual => [⟨"ctx", .node, .type⟩, ⟨"body", .node, .type⟩]
  | .tWith => [⟨"body", .node, .type⟩, ⟨"row", .seq, .rowentry⟩]
  | .tList => [⟨"elem", .node, .type⟩]
  | .tTuple => [⟨"items", .seq, .type⟩]
  | .tUnit => []
  | .tRowArg => [⟨"name", .name, .none⟩]
  | .tTransfer => [⟨"mode", .int, .none⟩, ⟨"body", .node, .type⟩]
  | .hRowEntry => [⟨"kind", .int, .none⟩, ⟨"label", .name, .none⟩, ⟨"type", .opt, .type⟩]
  | .pVar => [⟨"name", .name, .none⟩]
  | .pWild => []
  | .pInt => [⟨"value", .int, .none⟩, ⟨"negative", .flag, .none⟩]
  | .pStr => [⟨"text", .text, .none⟩]
  | .pChar => [⟨"text", .text, .none⟩]
  | .pCon => [⟨"path", .node, .path⟩, ⟨"args", .seq, .pat⟩]
  | .pCons => [⟨"head", .node, .pat⟩, ⟨"tail", .node, .pat⟩]
  | .pTuple => [⟨"items", .seq, .pat⟩]
  | .pList => [⟨"items", .seq, .pat⟩]
  | .pUnit => []
  | .pAs => [⟨"pat", .node, .pat⟩, ⟨"name", .name, .none⟩]
  | .pRecord =>
      [⟨"path", .node, .path⟩, ⟨"fields", .seq, .fieldpat⟩, ⟨"is_open", .flag, .none⟩,
        ⟨"rest", .name, .none⟩]
  | .hFieldPat => [⟨"name", .name, .none⟩, ⟨"pat", .node, .pat⟩]
  | .eVar => [⟨"name", .name, .none⟩]
  | .eCon => [⟨"name", .name, .none⟩]
  | .eInt => [⟨"value", .int, .none⟩]
  | .eStr => [⟨"text", .text, .none⟩]
  | .eChar => [⟨"text", .text, .none⟩]
  | .eUnit => []
  | .eOpRef => [⟨"name", .name, .none⟩]
  | .eApp => [⟨"fn", .node, .expr⟩, ⟨"arg", .node, .expr⟩]
  | .eChain => [⟨"head", .node, .expr⟩, ⟨"ops", .seq, .chainop⟩]
  | .eDot => [⟨"recv", .node, .expr⟩, ⟨"name", .name, .none⟩, ⟨"upper", .flag, .none⟩]
  | .eNeg => [⟨"body", .node, .expr⟩]
  | .eList => [⟨"items", .seq, .expr⟩]
  | .eTuple => [⟨"items", .seq, .expr⟩]
  | .eLambda => [⟨"params", .seq, .pat⟩, ⟨"body", .node, .expr⟩]
  | .eLetIn => [⟨"bind", .node, .bind⟩, ⟨"body", .node, .expr⟩]
  | .eHandleIn => [⟨"label", .name, .none⟩, ⟨"handler", .node, .expr⟩, ⟨"body", .node, .expr⟩]
  | .eUseIn => [⟨"binds", .seq, .usebind⟩, ⟨"body", .node, .expr⟩]
  | .eIf => [⟨"cond", .node, .expr⟩, ⟨"then_", .node, .expr⟩, ⟨"else_", .node, .expr⟩]
  | .eCase => [⟨"scrut", .node, .expr⟩, ⟨"alts", .seq, .alt⟩]
  | .eHandler => [⟨"effect", .name, .none⟩, ⟨"clauses", .seq, .clause⟩]
  | .eAssign => [⟨"target", .node, .expr⟩, ⟨"value", .node, .expr⟩]
  | .eRecord => [⟨"path", .node, .expr⟩, ⟨"spread", .opt, .expr⟩, ⟨"fields", .seq, .field⟩]
  | .eBlock => [⟨"stmts", .seq, .stmt⟩]
  | .eError => [⟨"text", .text, .none⟩]
  | .sLet => [⟨"bind", .node, .bind⟩]
  | .sHandle => [⟨"label", .name, .none⟩, ⟨"handler", .node, .expr⟩]
  | .sUse => [⟨"binds", .seq, .usebind⟩]
  | .sDiscard => [⟨"body", .node, .expr⟩]
  | .hChainOp => [⟨"op", .name, .none⟩, ⟨"backtick", .flag, .none⟩, ⟨"rhs", .node, .expr⟩]
  | .hBind => [⟨"lhs", .node, .bindlhs⟩, ⟨"body", .node, .expr⟩]
  | .hUseBind => [⟨"from", .name, .none⟩, ⟨"to", .name, .none⟩]
  | .hAlt => [⟨"pat", .node, .pat⟩, ⟨"body", .node, .expr⟩, ⟨"wheres", .seq, .decl⟩]
  | .hClause =>
      [⟨"kind", .int, .none⟩, ⟨"name", .name, .none⟩, ⟨"pats", .seq, .pat⟩,
        ⟨"k", .name, .none⟩, ⟨"body", .node, .expr⟩]
  | .hField => [⟨"name", .name, .none⟩, ⟨"value", .node, .expr⟩]
  | .wFile => [⟨"decls", .seq, .decl⟩]

/-! ### Constants of fields -/

def clausePlain : UInt64 := 0
def clauseControl : UInt64 := 1
def clauseReturn : UInt64 := 2
def clauseVar : UInt64 := 3
def clauseAbort : UInt64 := 4

def rowSlot : UInt64 := 0
def rowRole : UInt64 := 1
def rowVar : UInt64 := 2

def assocLeft : UInt64 := 0
def assocRight : UInt64 := 1

def fixrelTighter : UInt64 := 0
def fixrelLooser : UInt64 := 1

def transferOwn : UInt64 := 0
def transferLend : UInt64 := 1
def transferCopy : UInt64 := 2

/-! ### Nodes -/

structure WokSpan where
  off : UInt32
  len : UInt32
  deriving Repr, DecidableEq

mutual

/-- A node: its tag, its span in the source, and one slot for each field. -/
inductive WokNode where
  | mk (tag : WokTag) (off len : UInt32) (slots : List WokSlot)

/-- What a slot stores; a null pointer is `node none`. -/
inductive WokSlot where
  | node (n : Option WokNode)
  | seq (ns : List WokNode)
  | span (s : WokSpan)
  | num (v : UInt64)
  | flag (b : Bool)

end

namespace WokNode

def tag : WokNode → WokTag
  | mk tag _ _ _ => tag

def off : WokNode → UInt32
  | mk _ off _ _ => off

def len : WokNode → UInt32
  | mk _ _ len _ => len

def slots : WokNode → List WokSlot
  | mk _ _ _ slots => slots

end WokNode

end Wok.Grammar
