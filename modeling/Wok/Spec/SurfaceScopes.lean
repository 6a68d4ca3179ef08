/-
Module: Wok.Spec.SurfaceScopes
Purpose: The binding structure of the parser's tree and of the surface syntax that it is
  mapped to, and when the mapping lets no binding capture a name.
Imports: Wok.Lib.Binding, Wok.Sexp.Surface
Trusted boundary: none
Main exports: Tok, Stage, Exp.tree, ModDecl.tree, GExpr.tree, GTop.tree, moduleTree,
  mappedTree, refersTo
-/
import Wok.Lib.Binding
import Wok.Sexp.Surface

namespace Wok.Abs

open Wok.Lib.Binding (ScopeTree)

/-- A name where it stands. -/
structure Tok where
  pos : Pos
  text : String
  deriving Repr, DecidableEq

/-- The stages that resolve names of the surface syntax. They differ at the install of a
handler literal under a name: for the type checker the state of the handler is in scope of the
body, and for the elaborator the name is in scope of the arms. -/
inductive Stage where
  | checker
  | elaborator
  deriving Repr, DecidableEq

def VarId.tok (v : VarId) : Tok := ⟨v.pos, v.text⟩
def VarSym.tok (v : VarSym) : Tok := ⟨v.pos, v.text⟩

/-! ### Binders -/

mutual

def Pat.toks : Pat → List Tok
  | .pApp _ p ps => p.toks ++ atomToks ps
  | .pCons p ps => p.toks ++ ps.toks
  | .pAtom p => p.toks

def AtomPat.toks : AtomPat → List Tok
  | .apVar v => [v.tok]
  | .apTuple p ps => p.toks ++ patToks ps
  | .apList ps => patToks ps
  | .apParen p => p.toks
  | .apAs p v => v.tok :: p.toks
  | .pRecord _ fields => fieldToks fields
  | .pRecordOpen _ fields tail => fieldToks fields ++ tail.toks
  | .pRecordWild _ tail => tail.toks
  | .apCon _ | .apWild | .apLitI _ | .apLitS _ | .apLitC _ | .pUnit => []

def RecordFieldPat.toks : RecordFieldPat → List Tok
  | .rfPat _ p => p.toks

def PatRowTail.toks : PatRowTail → List Tok
  | .prtNamed v => [v.tok]
  | .prtAnon => []

def patToks : List Pat → List Tok
  | [] => []
  | p :: ps => p.toks ++ patToks ps

def atomToks : List AtomPat → List Tok
  | [] => []
  | p :: ps => p.toks ++ atomToks ps

def fieldToks : List RecordFieldPat → List Tok
  | [] => []
  | f :: fs => f.toks ++ fieldToks fs

end

def FunName.tok : FunName → Tok
  | .fnBare v => v.tok
  | .fnBareSym op => op.tok
  | .fnParen op => op.tok

def lhsTok : FunLHS AtomPat → Tok
  | .lhsPre fn _ => fn.tok
  | .lhsInfSym _ op _ => op.tok
  | .lhsInfBT _ v _ => v.tok

/-- The equations up to the next pattern: they are recursive, a pattern is not. -/
def runToks : List LocalDecl → List Tok
  | [] => []
  | .ldPat .. :: _ => []
  | .ldEqn lhs _ _ :: ds => lhsTok lhs :: runToks ds
  | .ldSig .. :: ds => runToks ds

/-- The state of a handler: it is in scope of the arms, not of the first values. -/
def paramToks : List HandlerArm → List Tok
  | [] => []
  | .hParam v _ :: arms => v.tok :: paramToks arms
  | .hParamV v _ :: arms => v.tok :: paramToks arms
  | _ :: arms => paramToks arms

/-! ### Expressions -/

def InfixOp.tok : InfixOp → Tok
  | .ioSym op => op.tok
  | .ioBT v => v.tok

section

variable (st : Stage)

/-- The install of a handler literal under a name. -/
def namedInstall (self : Tok) (params : List Tok) (inits arms body : ScopeTree Tok) :
    ScopeTree Tok :=
  match st with
  | .checker => .both inits (.both (.under params arms) (.under params (.under [self] body)))
  | .elaborator => .under [self] (.both inits (.both (.under params arms) body))

mutual

/-- The binding structure of an expression. All names of one group of equations are in scope
of all its right-hand sides. -/
def Exp.tree : Exp → ScopeTree Tok
  | .eVar v => .ref v.tok
  | .eParenOp op => .ref op.tok
  | .eExpr h tails => .both h.tree (tailsTree tails)
  | .eApp f x => .both f.tree x.tree
  | .eProj e _ => e.tree
  | .eProjC e _ => e.tree
  | .eRecord _ fields => fieldsTree fields
  | .eRecordExt _ e trailing => .both e.tree trailing.tree
  | .eParen e => e.tree
  | .eList es => expsTree es
  | .eTuple e es => .both e.tree (expsTree es)
  | .eLam ps e => .under (atomToks ps) e.tree
  | .eLet ds e => .under (runToks ds) (localsTree ds e.tree)
  | .eCase e alts => .both e.tree (altsTree alts)
  | .eIf c t e => .both c.tree (.both t.tree e.tree)
  | .eWith arms e => .both (initsTree arms) (.both (.under (paramToks arms) (armsTree arms)) e.tree)
  | .eWithH _ _ arms e =>
      .both (initsTree arms) (.both (.under (paramToks arms) (armsTree arms)) e.tree)
  | .eWithRun runner args e => .both (.ref runner.tok) (.both (argsTree args) e.tree)
  | .eWithNamed self runner args e =>
      .both (.ref runner.tok) (.both (argsTree args) (.under [self.tok] e.tree))
  | .eWithNamedH self _ arms e =>
      namedInstall st self.tok (paramToks arms) (initsTree arms) (armsTree arms) e.tree
  | .eHandlerV _ arms => .both (initsTree arms) (.under (paramToks arms) (armsTree arms))
  | .eHandleV h args e => .both h.tree (.both (argsTree args) e.tree)
  | .eHandleN self h args e => .both h.tree (.both (argsTree args) (.under [self.tok] e.tree))
  | .eCon _ | .eLitI _ | .eLitS _ | .eLitC _ | .eUnit => .leaf

def expsTree : List Exp → ScopeTree Tok
  | [] => .leaf
  | e :: es => .both e.tree (expsTree es)

def tailsTree : List InfixTail → ScopeTree Tok
  | [] => .leaf
  | t :: ts => .both t.tree (tailsTree ts)

def InfixTail.tree : InfixTail → ScopeTree Tok
  | .iTail op e => .both (.ref op.tok) e.tree

def fieldsTree : List RecordFieldExpr → ScopeTree Tok
  | [] => .leaf
  | f :: fs => .both f.tree (fieldsTree fs)

def RecordFieldExpr.tree : RecordFieldExpr → ScopeTree Tok
  | .rfExpr _ e => e.tree

def MaybeTrailing.tree : MaybeTrailing → ScopeTree Tok
  | .tfNone => .leaf
  | .tfSome fields => fieldsTree fields

def argsTree : List WithArg → ScopeTree Tok
  | [] => .leaf
  | a :: as => .both a.tree (argsTree as)

def WithArg.tree : WithArg → ScopeTree Tok
  | .wrArg e => e.tree

def altsTree : List Alt → ScopeTree Tok
  | [] => .leaf
  | a :: as => .both a.tree (altsTree as)

def Alt.tree : Alt → ScopeTree Tok
  | .altC p e wh => .under p.toks (wh.tree e.tree)

/-- The arms without the first values of the state. -/
def armsTree : List HandlerArm → ScopeTree Tok
  | [] => .leaf
  | a :: as => .both a.tree (armsTree as)

def HandlerArm.tree : HandlerArm → ScopeTree Tok
  | .hArm _ _ ps e => .under (atomToks ps) e.tree
  | .huArm _ ps e => .under (atomToks ps) e.tree
  | .hOnceArm _ _ ps e => .under (atomToks ps) e.tree
  | .hOnceUArm _ ps e => .under (atomToks ps) e.tree
  | .hRetArm p e => .under p.toks e.tree
  | .hParam .. | .hParamV .. => .leaf

def initsTree : List HandlerArm → ScopeTree Tok
  | [] => .leaf
  | a :: as => .both a.init (initsTree as)

def HandlerArm.init : HandlerArm → ScopeTree Tok
  | .hParam _ e => e.tree
  | .hParamV _ e => e.tree
  | .hArm .. | .huArm .. | .hOnceArm .. | .hOnceUArm .. | .hRetArm .. => .leaf

/-- The declarations of a group whose first run is in scope, around what follows. -/
def localsTree : List LocalDecl → ScopeTree Tok → ScopeTree Tok
  | [], rest => rest
  | d :: ds, rest => d.tree (runToks ds) (localsTree ds rest)

/-- `next` is the run of equations that comes after, `rest` what follows. -/
def LocalDecl.tree : LocalDecl → List Tok → ScopeTree Tok → ScopeTree Tok
  | .ldEqn lhs e wh, _, rest =>
      .both (.under (atomToks (lhsAtomPats lhs)) (wh.tree e.tree)) rest
  | .ldSig .., _, rest => rest
  | .ldPat p ps e, next, rest => .both e.tree (.under (patToks (p :: ps)) (.under next rest))

def MaybeWhere.tree : MaybeWhere → ScopeTree Tok → ScopeTree Tok
  | .noWhere, rest => rest
  | .withWh ds, rest => .under (runToks ds) (localsTree ds rest)

end

def ClassEntry.tree : ClassEntry AtomPat Exp → ScopeTree Tok
  | .ceSig .. => .leaf
  | .ceDefault lhs e => .under (atomToks (lhsAtomPats lhs)) (e.tree st)

def InstEntry.tree : InstEntry AtomPat Exp → ScopeTree Tok
  | .ieImpl lhs e => .under (atomToks (lhsAtomPats lhs)) (e.tree st)

def Decl.tree : Decl AtomPat Exp → ScopeTree Tok
  | .dClass _ _ entries => entries.foldr (fun e t => .both (e.tree st) t) .leaf
  | .dInstance _ entries => entries.foldr (fun e t => .both (e.tree st) t) .leaf

end

end Wok.Abs

namespace Wok.Sexp.Surface

open Wok.Abs
open Wok.Lib.Binding (ScopeTree)

/-! ### The parser's tree -/

def FldName.tok (n : FldName) : Tok := ⟨tokPos n.pos, n.text⟩

/-- A name that may be absent. -/
def FldName.toks (n : FldName) : List Tok := if n.absent then [] else [n.tok]

mutual

def GPat.toks : GPat → List Tok
  | .pVar n => [n.tok]
  | .pCon _ args => gpatToks args
  | .pCons hd tl => hd.toks ++ tl.toks
  | .pTuple _ items => gpatToks items
  | .pList items => gpatToks items
  | .pAs pat n => n.tok :: pat.toks
  | .pRecord _ _ fields _ rest => gfieldToks fields ++ rest.toks
  | .pWild | .pInt .. | .pStr _ | .pChar _ | .pUnit | .damage _ => []

def gpatToks : List GPat → List Tok
  | [] => []
  | p :: ps => p.toks ++ gpatToks ps

def gfieldToks : List GFieldPat → List Tok
  | [] => []
  | f :: fs => f.toks ++ gfieldToks fs

def GFieldPat.toks : GFieldPat → List Tok
  | .hFieldPat _ pat => pat.toks
  | .damage _ => []

end

/-- What the head of an equation binds. -/
def GLhs.heads : GLhs → List Tok
  | .lPrefix n _ _ => [n.tok]
  | .lInfix _ op _ _ => [op.tok]
  | .damage _ => []

def GLhs.params : GLhs → List Tok
  | .lPrefix _ _ args => gpatToks args
  | .lInfix l _ _ r => l.toks ++ r.toks
  | .damage _ => []

section

variable {T : Type}

/-- The name of a binding that is a function equation. -/
def GBindLhs.heads : GBindLhs → List Tok
  | .lhs l => if isFunEqLhs (.lhs l) then l.heads else []
  | .pat _ => []

def GBind.heads : GBind T → List Tok
  | .hBind _ lhs _ => lhs.heads
  | .damage _ => []

def GStmt.heads : GStmt T → List Tok
  | .sLet _ bind => bind.heads
  | _ => []

/-- A run of adjacent function equations; they are mutually recursive. -/
def stmtRun : List (GStmt T) → List Tok
  | [] => []
  | s :: ss => s.heads ++ if s.heads.isEmpty then [] else stmtRun ss

def GDecl.heads : GDecl T → List Tok
  | .dEquation _ lhs _ _ => lhs.heads
  | _ => []

def declHeads : List (GDecl T) → List Tok
  | [] => []
  | d :: ds => d.heads ++ declHeads ds

/-- The slots of a handler: they are in scope of the clauses, not of the initialisers. -/
def GClause.slot : GClause T → List Tok
  | .hClause _ kind _ n _ _ _ => if kind = clauseVar then [n.tok] else []
  | .damage _ => []

def slots : List (GClause T) → List Tok
  | [] => []
  | cl :: cls => cl.slot ++ slots cls

/-- A value binding. Its right-hand side is outside of the scope of its name, which the group
that it is mapped to has in scope there. -/
def valueTree (x : Tok) (rhs rest : ScopeTree Tok) : ScopeTree Tok :=
  .both (.wide [x] rhs) (.under [x] rest)

/-- A binding of a block or a `let`, with what it is bound in; `next` is the run of function
equations that comes after it. -/
def GBindLhs.tree (lhs : GBindLhs) (rhs : ScopeTree Tok) (next : List Tok) (rest : ScopeTree Tok) :
    ScopeTree Tok :=
  match lhs with
  | .lhs (.lPrefix n _ []) => valueTree n.tok rhs (.under next rest)
  | .lhs l => .both (.under l.params rhs) rest
  | .pat (.pVar n) => valueTree n.tok rhs (.under next rest)
  | .pat p => .both rhs (.under p.toks (.under next rest))

/-- An installed handler: a label in lower case is bound in the body; one in upper case, or
none, binds nothing. -/
def installTree (st : Stage) (label : FldName) (vars : List Tok)
    (inits clauses body : ScopeTree Tok) : ScopeTree Tok :=
  if label.absent || startsUpper label.text then .both inits (.both (.under vars clauses) body)
  else
    match st with
    | .checker => .both inits
        (.both (.under vars clauses) (.wide vars (.under [label.tok] body)))
    | .elaborator => .both (.wide [label.tok] inits)
        (.both (.wide [label.tok] (.under vars clauses)) (.under [label.tok] body))

def labelTree (label : FldName) (body : ScopeTree Tok) : ScopeTree Tok :=
  if label.absent || startsUpper label.text then body else .under [label.tok] body

variable (st : Stage)

mutual

/-- The binding structure of an expression of the parser. -/
def GExpr.tree : GExpr T → ScopeTree Tok
  | .eVar n => .ref n.tok
  | .eOpRef op => .ref op.tok
  | .eApp f a => .both f.tree a.tree
  | .eChain hd ops => .both hd.tree (opsTree ops)
  | .eDot recv _ => recv.tree
  | .eNeg _ body => body.tree
  | .eList items => exprsTree items
  | .eTuple _ items => exprsTree items
  | .eLambda params body => .under (gpatToks params) body.tree
  | .eLetIn bind body => .under bind.heads (bind.tree [] body.tree)
  | .eHandleIn _ label handler body =>
      match handler with
      | .eHandler _ clauses =>
          installTree st label (slots clauses) (varInits clauses) (clausesTree clauses) body.tree
      | h => .both h.tree (labelTree label body.tree)
  | .eUseIn _ binds body => .under (binds.map fun b => b.2.tok) body.tree
  | .eIf c t e => .both c.tree (.both t.tree e.tree)
  | .eCase scrut alts => .both scrut.tree (galtsTree alts)
  | .eHandler _ clauses =>
      .both (varInits clauses) (.under (slots clauses) (clausesTree clauses))
  | .eAssign _ target value => .both target.tree value.tree
  | .eRecord _ path spread fields => .both path.tree (.both spread.tree (gfieldsTree fields))
  | .eBlock _ stmts => .under (stmtRun stmts) (stmtsTree stmts)
  | .eCon _ | .eInt _ | .eStr _ | .eChar _ | .eUnit | .damage _ => .leaf

def exprsTree : List (GExpr T) → ScopeTree Tok
  | [] => .leaf
  | e :: es => .both e.tree (exprsTree es)

def opsTree : List (GChainOp T) → ScopeTree Tok
  | [] => .leaf
  | op :: ops => .both op.tree (opsTree ops)

def GChainOp.tree : GChainOp T → ScopeTree Tok
  | .hChainOp op _ rhs => .both (.ref op.tok) rhs.tree
  | .damage _ => .leaf

def GSpread.tree : GSpread T → ScopeTree Tok
  | .none => .leaf
  | .some e => e.tree

def gfieldsTree : List (GField T) → ScopeTree Tok
  | [] => .leaf
  | f :: fs => .both f.tree (gfieldsTree fs)

def GField.tree : GField T → ScopeTree Tok
  | .hField _ value => value.tree
  | .damage _ => .leaf

def galtsTree : List (GAlt T) → ScopeTree Tok
  | [] => .leaf
  | a :: as => .both a.tree (galtsTree as)

def GAlt.tree : GAlt T → ScopeTree Tok
  | .hAlt pat body wheres =>
      .under pat.toks (.under (declHeads wheres) (declsTree wheres body.tree))
  | .damage _ => .leaf

def clausesTree : List (GClause T) → ScopeTree Tok
  | [] => .leaf
  | cl :: cls => .both cl.tree (clausesTree cls)

/-- The continuation is bound after the arguments. -/
def GClause.tree : GClause T → ScopeTree Tok
  | .hClause _ kind _ _ pats k body =>
      if kind = clauseVar then .leaf else .under (gpatToks pats ++ k.toks) body.tree
  | .damage _ => .leaf

def varInits : List (GClause T) → ScopeTree Tok
  | [] => .leaf
  | cl :: cls => .both cl.init (varInits cls)

def GClause.init : GClause T → ScopeTree Tok
  | .hClause _ kind _ _ _ _ body => if kind = clauseVar then body.tree else .leaf
  | .damage _ => .leaf

def GBind.tree : GBind T → List Tok → ScopeTree Tok → ScopeTree Tok
  | .hBind _ lhs rhs, next, rest => lhs.tree rhs.tree next rest
  | .damage _, _, rest => rest

/-- The statements of a block whose first run is in scope. Values are bound one after the
other. -/
def stmtsTree : List (GStmt T) → ScopeTree Tok
  | [] => .leaf
  | s :: ss => s.tree (stmtRun ss) (stmtsTree ss)

def GStmt.tree : GStmt T → List Tok → ScopeTree Tok → ScopeTree Tok
  | .sLet _ bind, next, rest => bind.tree next rest
  | .sHandle _ label handler, next, rest =>
      .both handler.tree (labelTree label (.under next rest))
  | .sUse _ binds, next, rest => .under (binds.map fun b => b.2.tok) (.under next rest)
  | .sDiscard _ e, next, rest => .both e.tree (.under next rest)
  | .expr _ e, next, rest => .both e.tree (.under next rest)

/-- The declarations of a `where`, which are all in scope, around what follows. -/
def declsTree : List (GDecl T) → ScopeTree Tok → ScopeTree Tok
  | [], rest => rest
  | d :: ds, rest => d.tree (declsTree ds rest)

def GDecl.tree : GDecl T → ScopeTree Tok → ScopeTree Tok
  | .dEquation _ lhs body wheres, rest =>
      .both (.under lhs.params (.under (declHeads wheres) (declsTree wheres body.tree))) rest
  | .dSig .., rest => rest
  | .dOther .., rest => rest
  | .damage _, rest => rest

end

variable {H O O' : Type}

def GTop.tree : GTop T H O → ScopeTree Tok
  | .dEquation lhs body wheres =>
      .under lhs.params (.under (declHeads wheres) (declsTree st wheres (body.tree st)))
  | .dClass _ _ body => declsTree st body .leaf
  | .dInstance _ body => declsTree st body .leaf
  | .other _ => .leaf

def ModDecl.tree : ModDecl O' → ScopeTree Tok
  | .dEqn lhs e wh => .under (atomToks (lhsAtomPats lhs)) (wh.tree st (e.tree st))
  | .dDecl d => d.tree st
  | .other _ => .leaf

/-- The binding structure of a file. Names of the top level are global and not in it. -/
def fileTree (decls : List (GTop T H O)) : ScopeTree Tok :=
  decls.foldr (fun d t => .both (d.tree st) t) .leaf

def moduleTree (decls : List (ModDecl O')) : ScopeTree Tok :=
  decls.foldr (fun d t => .both (d.tree st) t) .leaf

end

attribute [grind =] mapPat mapExpr GExpr.tree

end Wok.Sexp.Surface
