/-
Module: Wok.Sexp.Surface
Purpose: The mapper from a dump of the parser, once it has passed the schema, to the surface
  syntax of the pipeline. Types and declarations without equations are mapped by parameters.
Imports: Wok.Abs.Exp, Wok.Sexp.Read
Trusted boundary: none
Main exports: SurfaceError, GPat, GExpr, GDecl, GTop, mapPat, mapExpr, buildBlock,
  bindLocalDecl, handlerArm, localDecl, surfaceModule
-/
import Wok.Abs.Exp
import Wok.Sexp.Read

namespace Wok.Sexp.Surface

open Wok.Abs

/-! ### Errors -/

inductive SurfaceError where
  | malformedDump (pos : Sexp.Pos) (message : String)
  | sexpGap (pos : Sexp.Pos) (tag label message : String)
  deriving Repr, DecidableEq

/-- The result of a step of the mapper. -/
abbrev Mapped (α : Type) := Except SurfaceError α

def mal {α : Type} (p : Sexp.Pos) (message : String) : Mapped α :=
  .error (.malformedDump p message)

def gapAt {α : Type} (p : Sexp.Pos) (tag label message : String) : Mapped α :=
  .error (.sexpGap p tag label message)

/-- A node that the parser plants where a production gave up; it can stand anywhere. -/
structure Damage where
  tag : String
  pos : Sexp.Pos

def damaged {α : Type} (d : Damage) : Mapped α :=
  mal d.pos ("the dump contains a damage node (" ++ d.tag ++
    "); the oracle path accepts only clean parses")

/-! ### Fields -/

/-- A quoted name; it is absent when its text is empty. -/
structure FldName where
  text : String
  pos : Sexp.Pos

/-- A quoted name that is an upper identifier. -/
structure FldCon where
  text : String
  pos : Sexp.Pos
  plain : '$' ∉ text.toList

/-- A literal as it is written: a lexeme with its quotes, or the digits of an integer. -/
structure FldText where
  raw : String
  pos : Sexp.Pos

def tokPos (p : Sexp.Pos) : Abs.Pos := (p.line, p.col)

def FldName.varId (n : FldName) : VarId := ⟨tokPos n.pos, n.text⟩
def FldName.varSym (n : FldName) : VarSym := ⟨tokPos n.pos, n.text⟩
def FldCon.conId (c : FldCon) : ConId := ⟨tokPos c.pos, c.text, c.plain⟩

def FldName.absent (n : FldName) : Bool := n.text.isEmpty

/-- An `N_Name`, by its `upper` flag. -/
inductive NameNode where
  | lower (n : FldName)
  | upper (c : FldCon)
  | damage (d : Damage)

inductive PathNode where
  | nModPath (pos : Sexp.Pos) (parts : List NameNode)
  | damage (d : Damage)

/-- The name of an `E_Dot`, by its `upper` flag. -/
inductive DotName where
  | lower (n : FldName)
  | upper (c : FldCon)

inductive SigNameNode where
  | hSigName (n : FldName) (paren : Bool)
  | damage (d : Damage)

inductive TyParamNode where
  | hTyParam (pos : Sexp.Pos) (n : FldName) (isRow : Bool)
  | damage (d : Damage)

/-! ### The tree -/

mutual

inductive GPat where
  | pVar (n : FldName)
  | pWild
  | pInt (i : FldText) (negative : Bool)
  | pStr (t : FldText)
  | pChar (t : FldText)
  | pCon (path : PathNode) (args : List GPat)
  | pCons (hd tl : GPat)
  | pTuple (pos : Sexp.Pos) (items : List GPat)
  | pList (items : List GPat)
  | pUnit
  | pAs (pat : GPat) (n : FldName)
  | pRecord (pos : Sexp.Pos) (path : PathNode) (fields : List GFieldPat) (isOpen : Bool)
      (rest : FldName)
  | damage (d : Damage)

inductive GFieldPat where
  | hFieldPat (n : FldName) (pat : GPat)
  | damage (d : Damage)

end

inductive GLhs where
  | lPrefix (n : FldName) (paren : Bool) (args : List GPat)
  | lInfix (left : GPat) (op : FldName) (backtick : Bool) (right : GPat)
  | damage (d : Damage)

/-- What stands at the left of a `let`: a head with arguments or a pattern. -/
inductive GBindLhs where
  | lhs (l : GLhs)
  | pat (p : GPat)

mutual

/-- Expressions, over the nodes `T` of types. -/
inductive GExpr (T : Type) where
  | eVar (n : FldName)
  | eCon (c : FldCon)
  | eInt (i : FldText)
  | eStr (t : FldText)
  | eChar (t : FldText)
  | eUnit
  | eOpRef (op : FldName)
  | eApp (f a : GExpr T)
  | eChain (hd : GExpr T) (ops : List (GChainOp T))
  | eDot (recv : GExpr T) (n : DotName)
  | eNeg (pos : Sexp.Pos) (body : GExpr T)
  | eList (items : List (GExpr T))
  | eTuple (pos : Sexp.Pos) (items : List (GExpr T))
  | eLambda (params : List GPat) (body : GExpr T)
  | eLetIn (bind : GBind T) (body : GExpr T)
  | eHandleIn (pos : Sexp.Pos) (label : FldName) (handler body : GExpr T)
  | eUseIn (pos : Sexp.Pos) (binds : List (FldName × FldName)) (body : GExpr T)
  | eIf (c t e : GExpr T)
  | eCase (scrut : GExpr T) (alts : List (GAlt T))
  | eHandler (eff : FldCon) (clauses : List (GClause T))
  | eAssign (pos : Sexp.Pos) (target value : GExpr T)
  | eRecord (pos : Sexp.Pos) (path : GExpr T) (spread : GSpread T) (fields : List (GField T))
  | eBlock (pos : Sexp.Pos) (stmts : List (GStmt T))
  | damage (d : Damage)

inductive GChainOp (T : Type) where
  | hChainOp (op : FldName) (backtick : Bool) (rhs : GExpr T)
  | damage (d : Damage)

inductive GSpread (T : Type) where
  | none
  | some (e : GExpr T)

inductive GField (T : Type) where
  | hField (n : FldName) (value : GExpr T)
  | damage (d : Damage)

inductive GAlt (T : Type) where
  | hAlt (pat : GPat) (body : GExpr T) (wheres : List (GDecl T))
  | damage (d : Damage)

inductive GClause (T : Type) where
  | hClause (pos : Sexp.Pos) (kind : Nat) (kindPos : Sexp.Pos) (n : FldName) (pats : List GPat)
      (k : FldName) (body : GExpr T)
  | damage (d : Damage)

inductive GBind (T : Type) where
  | hBind (pos : Sexp.Pos) (lhs : GBindLhs) (rhs : GExpr T)
  | damage (d : Damage)

inductive GStmt (T : Type) where
  | sLet (pos : Sexp.Pos) (bind : GBind T)
  | sHandle (pos : Sexp.Pos) (label : FldName) (handler : GExpr T)
  | sUse (pos : Sexp.Pos) (binds : List (FldName × FldName))
  | sDiscard (pos : Sexp.Pos) (e : GExpr T)
  | expr (pos : Sexp.Pos) (e : GExpr T)

/-- The declarations of a body; a kind without equations is its tag. -/
inductive GDecl (T : Type) where
  | dEquation (pos : Sexp.Pos) (lhs : GLhs) (body : GExpr T) (wheres : List (GDecl T))
  | dSig (pos : Sexp.Pos) (names : List SigNameNode) (ty : T) (isExtern : Bool)
  | dOther (tag : String) (pos : Sexp.Pos)
  | damage (d : Damage)

end

/-- The declarations of a file. The head `H` of an instance is its context, its class and its
types; `O` are the declarations without equations. -/
inductive GTop (T H O : Type) where
  | dEquation (lhs : GLhs) (body : GExpr T) (wheres : List (GDecl T))
  | dClass (n : FldCon) (params : List TyParamNode) (body : List (GDecl T))
  | dInstance (head : H) (body : List (GDecl T))
  | other (o : O)

def clausePlain : Nat := 0
def clauseControl : Nat := 1
def clauseReturn : Nat := 2
def clauseVar : Nat := 3
def clauseAbort : Nat := 4

/-! ### Names and literals -/

def nameParts : NameNode → Mapped NameNode
  | .damage d => damaged d
  | n => .ok n

def upperPart : NameNode → Mapped ConId
  | .upper c => .ok c.conId
  | .lower n => mal n.pos "a module path part must be an upper name (N_Name upper flag)"
  | .damage d => damaged d

def pathParts : PathNode → Mapped (List NameNode)
  | .nModPath _ parts => parts.mapM nameParts
  | .damage d => damaged d

def PathNode.pos : PathNode → Sexp.Pos
  | .nModPath p _ => p
  | .damage d => d.pos

def mapModPath (n : PathNode) : Mapped ModPath := do
  let parts ← pathParts n
  let cids ← parts.mapM upperPart
  match cids with
  | [] => mal n.pos "a module path needs at least one part"
  | c :: cs => .ok (cs.foldl .mpDot (.mpName c))

def escapeTable : List (Char × Char) :=
  [('\\', '\\'), ('"', '"'), ('\'', '\''), ('n', '\n'), ('t', '\t'), ('r', '\r'),
    ('0', Char.ofNat 0)]

def hexErr : String := "`\\x` needs exactly two hex digits"

def decodeEscapes (q : Char) : List Char → Except String (List Char)
  | [] => .ok []
  | '\\' :: rest =>
      match rest with
      | [] => .error "dangling backslash at the end of a literal"
      | 'x' :: h1 :: h2 :: after =>
          match hexVal h1, hexVal h2 with
          | some a, some b => do
              let cs ← decodeEscapes q after
              .ok (Char.ofNat (a * 16 + b) :: cs)
          | _, _ => .error hexErr
      | 'x' :: _ => .error hexErr
      | e :: after =>
          match escapeTable.lookup e with
          | some decoded => do
              let cs ← decodeEscapes q after
              .ok (decoded :: cs)
          | none => .error ("unknown escape `\\" ++ String.ofList [e] ++ "` in a literal")
  | c :: rest =>
      if c = q then .error "unescaped delimiter inside a literal"
      else if c = '\n' then .error "a literal cannot span lines"
      else do
        let cs ← decodeEscapes q rest
        .ok (c :: cs)

def stripDelims (q : Char) (what raw : String) : Except String (List Char) :=
  let bad := "a " ++ what ++ " lexeme must be delimited by " ++ String.ofList [q]
  match raw.toList with
  | [] => .error bad
  | c0 :: rest =>
      if c0 = q ∧ rest.getLast? = some q then .ok rest.dropLast else .error bad

def decodeStringLexeme (raw : String) : Except String String := do
  let body ← stripDelims '"' "string" raw
  let cs ← decodeEscapes '"' body
  .ok (String.ofList cs)

def decodeCharLexeme (raw : String) : Except String Char := do
  let body ← stripDelims '\'' "character" raw
  let cs ← decodeEscapes '\'' body
  match cs with
  | [c] => .ok c
  | _ => .error "a character literal must hold exactly one character"

def strLexemeAt (t : FldText) : Mapped String :=
  (decodeStringLexeme t.raw).mapError (.malformedDump t.pos)

def charLexemeAt (t : FldText) : Mapped Char :=
  (decodeCharLexeme t.raw).mapError (.malformedDump t.pos)

/-! ### Patterns -/

/-- A pattern in the place of an argument; one that is not atomic gets parentheses. -/
def atomOf : Pat → AtomPat
  | .pAtom a => a
  | other => .apParen other

def tupleArity (what : String) : String := "a tuple " ++ what ++ " needs at least two components"

mutual

def mapPat : GPat → Mapped Pat
  | .pVar n => .ok (.pAtom (.apVar n.varId))
  | .pWild => .ok (.pAtom .apWild)
  | .pInt i negative =>
      .ok (.pAtom (.apLitI ⟨tokPos i.pos, if negative then "-" ++ i.raw else i.raw⟩))
  | .pStr t => do
      let s ← strLexemeAt t
      .ok (.pAtom (.apLitS s))
  | .pChar t => do
      let c ← charLexemeAt t
      .ok (.pAtom (.apLitC c))
  | .pCon path args => do
      let mp ← mapModPath path
      let as ← patAtoms args
      match as with
      | [] => .ok (.pAtom (.apCon mp))
      | h :: hs => .ok (.pApp mp h hs)
  | .pCons hd tl => do
      let h ← mapPat hd
      let t ← mapPat tl
      .ok (.pCons (atomOf h) t)
  | .pTuple pos items =>
      if items.length < 2 then mal pos (tupleArity "pattern")
      else do
        let ps ← mapPats items
        match ps with
        | p :: ps => .ok (.pAtom (.apTuple p ps))
        | [] => mal pos (tupleArity "pattern")
  | .pList items => do
      let ps ← mapPats items
      .ok (.pAtom (.apList ps))
  | .pUnit => .ok (.pAtom .pUnit)
  | .pAs pat n => do
      let p ← mapPat pat
      .ok (.pAtom (.apAs (atomOf p) n.varId))
  | .pRecord pos path fields isOpen rest => do
      let parts ← pathParts path
      match parts with
      | [.upper c] => do
          let fps ← fieldPats fields
          if isOpen then
            let tl : PatRowTail := if rest.absent then .prtAnon else .prtNamed rest.varId
            match fps with
            | [] => .ok (.pAtom (.pRecordWild c.conId tl))
            | _ :: _ => .ok (.pAtom (.pRecordOpen c.conId fps tl))
          else if rest.absent then .ok (.pAtom (.pRecord c.conId fps))
          else mal rest.pos "a closed record pattern carries no ..rest name"
      | _ =>
          gapAt pos "P_Record" "qualified-record-pattern-head"
            "v1 record patterns take an unqualified constructor head"
  | .damage d => damaged d

def mapPats : List GPat → Mapped (List Pat)
  | [] => .ok []
  | p :: ps => do
      let p' ← mapPat p
      let ps' ← mapPats ps
      .ok (p' :: ps')

def patAtoms : List GPat → Mapped (List AtomPat)
  | [] => .ok []
  | p :: ps => do
      let p' ← mapPat p
      let ps' ← patAtoms ps
      .ok (atomOf p' :: ps')

def fieldPats : List GFieldPat → Mapped (List RecordFieldPat)
  | [] => .ok []
  | f :: fs => do
      let f' ← fieldPat f
      let fs' ← fieldPats fs
      .ok (f' :: fs')

def fieldPat : GFieldPat → Mapped RecordFieldPat
  | .hFieldPat n pat => do
      let p ← mapPat pat
      .ok (.rfPat n.varId p)
  | .damage d => damaged d

end

def patAtom (n : GPat) : Mapped AtomPat := do
  let p ← mapPat n
  .ok (atomOf p)

/-! ### Left-hand sides -/

/-- The characters of operators. -/
def startsSymbolic (t : String) : Bool :=
  match t.toList with
  | c :: _ => "!#$%&*+/<=>?@\\^|-~".toList.contains c
  | [] => false

def startsUpper (t : String) : Bool :=
  match t.toList with
  | c :: _ => c.isUpper
  | [] => false

def funName (paren : Bool) (n : FldName) : FunName :=
  if paren then .fnParen n.varSym
  else if startsSymbolic n.text then .fnBareSym n.varSym
  else .fnBare n.varId

def mapFunLHS : GLhs → Mapped (FunLHS AtomPat)
  | .lPrefix n paren args => do
      let aps ← patAtoms args
      .ok (.lhsPre (funName paren n) aps)
  | .lInfix l op backtick r => do
      let la ← patAtom l
      let ra ← patAtom r
      .ok (if backtick then .lhsInfBT la op.varId ra else .lhsInfSym la op.varSym ra)
  | .damage d => damaged d

def sigName : SigNameNode → Mapped SigName
  | .hSigName n paren => .ok (if paren then .snParen n.varSym else .snBare n.varId)
  | .damage d => damaged d

/-! ### Expressions -/

/-- A form that takes in what follows it gets parentheses in the place of an operand. -/
def wrapExpArg (e : Exp) : Exp :=
  match e with
  | .eLam .. => .eParen e
  | .eLet .. => .eParen e
  | .eIf .. => .eParen e
  | .eWith .. => .eParen e
  | .eWithH .. => .eParen e
  | .eWithRun .. => .eParen e
  | .eWithNamed .. => .eParen e
  | .eWithNamedH .. => .eParen e
  | .eHandleV .. => .eParen e
  | .eHandleN .. => .eParen e
  | _ => e

/-- A binding with parameters is a function equation, and recursive. -/
def isFunEqLhs : GBindLhs → Bool
  | .lhs (.lPrefix _ _ args) => !args.isEmpty
  | .lhs (.lInfix ..) => true
  | _ => false

def isFunEqBind {T : Type} : GBind T → Bool
  | .hBind _ lhs _ => isFunEqLhs lhs
  | .damage _ => false

def requireName (n : FldName) : Mapped Unit :=
  if n.absent then mal n.pos "this clause kind names its operation" else .ok ()

/-- The binding of a `let`, with its right-hand side mapped. -/
def bindLocalDeclOf (pos : Sexp.Pos) (lhs : GBindLhs) (e : Exp) : Mapped LocalDecl :=
  match lhs with
  | .lhs (.damage d) => damaged d
  | .lhs l => do
      let l' ← mapFunLHS l
      .ok (.ldEqn l' e .noWhere)
  | .pat (.pVar n) => .ok (.ldEqn (.lhsPre (.fnBare n.varId) []) e .noWhere)
  | .pat (.pTuple tpos items) =>
      if items.length < 2 then mal tpos (tupleArity "pattern")
      else do
        let ps ← mapPats items
        match ps with
        | p :: ps => .ok (.ldPat p ps e)
        | [] => mal tpos (tupleArity "pattern")
  | .pat (.damage d) => damaged d
  | .pat _ => gapAt pos "H_Bind" "refutable-let-binding"
      "v1 binds only equations, plain variables, and tuple destructuring"

/-- A handler literal around a body. A label in upper case is a slot, one in lower case a free
role. -/
def installLiteral (pos : Sexp.Pos) (label : FldName) (eff : FldCon) (arms : List HandlerArm)
    (b : Exp) : Mapped Exp :=
  if label.absent then .ok (.eWithH eff.conId [] arms b)
  else if startsUpper label.text then
    if label.text = eff.text then .ok (.eWithH eff.conId [] arms b)
    else gapAt pos "E_HandleIn" "foreign-slot-label"
      "v1 cannot install under a designation-slot label other than the handler's own effect"
  else .ok (.eWithNamedH label.varId eff.conId arms b)

/-- A handler value, as its head and its arguments, around a body. -/
def installValue (pos : Sexp.Pos) (label : FldName) (hd : Exp) (args : List WithArg) (b : Exp) :
    Mapped Exp :=
  if label.absent then .ok (.eHandleV hd args b)
  else if startsUpper label.text then gapAt pos "E_HandleIn" "slot-label-value-install"
    "v1 cannot check a designation-slot label against a non-literal handler's effect"
  else .ok (.eHandleN label.varId hd args b)

def noFinal {α : Type} (pos : Sexp.Pos) (tag : String) : Mapped α :=
  gapAt pos tag "block-without-final-expr" "v1 can only mean a block that ends in an expression"

/-- The bindings of a run of function equations around what follows. -/
def closeRun (run : List LocalDecl) (e : Exp) : Exp :=
  match run with
  | [] => e
  | _ :: _ => .eLet run e

def whereOf (ds : List LocalDecl) : MaybeWhere :=
  match ds with
  | [] => .noWhere
  | _ :: _ => .withWh ds

section

variable {T : Type} (mapType : T → Mapped Ty)

/-- The first name and the others of a signature, with its type. -/
def sigFields (pos : Sexp.Pos) (names : List SigNameNode) (ty : T) :
    Mapped (SigName × List SigName × Ty) := do
  let t ← mapType ty
  let sns ← names.mapM sigName
  match sns with
  | [] => mal pos "a signature needs at least one name"
  | s0 :: rest => .ok (s0, rest, t)

mutual

def mapExpr : GExpr T → Mapped Exp
  | .eVar n => .ok (.eVar n.varId)
  | .eCon c => .ok (.eCon c.conId)
  | .eInt i => .ok (.eLitI ⟨tokPos i.pos, i.raw⟩)
  | .eStr t => do
      let s ← strLexemeAt t
      .ok (.eLitS s)
  | .eChar t => do
      let c ← charLexemeAt t
      .ok (.eLitC c)
  | .eUnit => .ok .eUnit
  | .eOpRef op => .ok (.eParenOp op.varSym)
  | .eApp f a => do
      let f' ← mapExpr f
      let a' ← mapExpr a
      .ok (.eApp (wrapExpArg f') (wrapExpArg a'))
  | .eChain hd ops => do
      let h ← mapExpr hd
      let tails ← chainOps ops
      .ok (.eExpr (wrapExpArg h) tails)
  | .eDot recv n => do
      let r ← mapExpr recv
      match n with
      | .upper c => .ok (.eProjC (wrapExpArg r) c.conId)
      | .lower n => .ok (.eProj (wrapExpArg r) n.varId)
  | .eNeg pos body =>
      match body with
      | .eInt i => .ok (.eLitI ⟨tokPos i.pos, "-" ++ i.raw⟩)
      | .damage d => damaged d
      | _ => gapAt pos "E_Neg" "general-negation"
          "v1 has no negation operator; only a negative integer literal"
  | .eList items => do
      let es ← mapExprs items
      .ok (.eList es)
  | .eTuple pos items =>
      if items.length < 2 then mal pos (tupleArity "expression")
      else do
        let es ← mapExprs items
        match es with
        | e :: es => .ok (.eTuple e es)
        | [] => mal pos (tupleArity "expression")
  | .eLambda params body => do
      let aps ← patAtoms params
      let e ← mapExpr body
      .ok (.eLam aps e)
  | .eLetIn bind body => do
      let ld ← bindLocalDecl bind
      let e ← mapExpr body
      .ok (.eLet [ld] e)
  | .eHandleIn pos label handler body =>
      match handler with
      | .eHandler eff clauses => do
          let arms ← handlerArms clauses
          let b ← mapExpr body
          installLiteral pos label eff arms b
      | .damage d => damaged d
      | h => do
          let (hd, args) ← mapSpine h (mapExpr h)
          let b ← mapExpr body
          installValue pos label hd args b
  | .eUseIn pos _ _ => gapAt pos "E_UseIn" "use-rebind" "v1 has no `use x as label` rebind form"
  | .eIf c t e => do
      let c' ← mapExpr c
      let t' ← mapExpr t
      let e' ← mapExpr e
      .ok (.eIf c' t' e')
  | .eCase scrut alts => do
      let s ← mapExpr scrut
      let as ← mapAlts alts
      .ok (.eCase s as)
  | .eHandler eff clauses => do
      let arms ← handlerArms clauses
      .ok (.eHandlerV eff.conId arms)
  | .eAssign pos _ _ =>
      gapAt pos "E_Assign" "frame-slot-assign" "v1 has no `:=` frame-slot assignment surface"
  | .eRecord pos path spread fields =>
      match path with
      | .eCon c => do
          let fs ← recFields fields
          mapSpread c.conId fs spread
      | .eDot _ (.upper _) => gapAt pos "E_Record" "qualified-record-head"
          "v1 record construction requires an unqualified constructor head"
      | .damage d => damaged d
      | _ => gapAt pos "E_Record" "computed-record-head"
          "v1 record construction requires a bare constructor head"
  | .eBlock pos stmts => do
      let final ← mapFinal pos stmts
      let (run, e) ← buildBlock stmts final
      .ok (closeRun run e)
  | .damage d => damaged d

/-- The head and the arguments of an application; `m` is the expression's own mapping. -/
def mapSpine : GExpr T → Mapped Exp → Mapped (Exp × List WithArg)
  | .eApp f x, _ => do
      let (hd, args) ← mapSpine f (mapExpr f)
      let x' ← mapExpr x
      .ok (hd, args ++ [.wrArg (wrapExpArg x')])
  | _, m => do
      let hd ← m
      .ok (wrapExpArg hd, [])

def mapExprs : List (GExpr T) → Mapped (List Exp)
  | [] => .ok []
  | e :: es => do
      let e' ← mapExpr e
      let es' ← mapExprs es
      .ok (e' :: es')

def chainOps : List (GChainOp T) → Mapped (List InfixTail)
  | [] => .ok []
  | op :: ops => do
      let t ← chainOp op
      let ts ← chainOps ops
      .ok (t :: ts)

def chainOp : GChainOp T → Mapped InfixTail
  | .hChainOp op backtick rhs => do
      let r ← mapExpr rhs
      .ok (.iTail (if backtick then .ioBT op.varId else .ioSym op.varSym) (wrapExpArg r))
  | .damage d => damaged d

def mapSpread (c : ConId) (fs : List RecordFieldExpr) : GSpread T → Mapped Exp
  | .none => .ok (.eRecord c fs)
  | .some sp => do
      let e ← mapExpr sp
      match fs with
      | [] => .ok (.eRecordExt c e .tfNone)
      | _ :: _ => .ok (.eRecordExt c e (.tfSome fs))

def recFields : List (GField T) → Mapped (List RecordFieldExpr)
  | [] => .ok []
  | f :: fs => do
      let f' ← recField f
      let fs' ← recFields fs
      .ok (f' :: fs')

def recField : GField T → Mapped RecordFieldExpr
  | .hField n value => do
      let e ← mapExpr value
      .ok (.rfExpr n.varId e)
  | .damage d => damaged d

def mapAlts : List (GAlt T) → Mapped (List Alt)
  | [] => .ok []
  | alt :: alts => do
      let a ← mapAlt alt
      let as ← mapAlts alts
      .ok (a :: as)

def mapAlt : GAlt T → Mapped Alt
  | .hAlt pat body wheres => do
      let p ← mapPat pat
      let e ← mapExpr body
      let ds ← localDecls wheres
      .ok (.altC p e (whereOf ds))
  | .damage d => damaged d

def handlerArms : List (GClause T) → Mapped (List HandlerArm)
  | [] => .ok []
  | cl :: cls => do
      let a ← handlerArm cl
      let as ← handlerArms cls
      .ok (a :: as)

def handlerArm : GClause T → Mapped HandlerArm
  | .hClause pos kind kindPos n pats k body =>
      if kind = clausePlain then
        if k.absent then do
          requireName n
          let aps ← patAtoms pats
          let e ← mapExpr body
          .ok (.huArm n.varId aps e)
        else mal k.pos "a plain clause binds no continuation"
      else if kind = clauseControl then
        if k.absent then mal k.pos "a control clause names its continuation"
        else do
          requireName n
          let aps ← patAtoms pats
          let e ← mapExpr body
          .ok (.hOnceUArm n.varId (aps ++ [.apVar k.varId]) e)
      else if kind = clauseReturn then
        match n.absent, k.absent, pats with
        | true, true, [p] =>
            match p with
            | .pVar v => do
                let e ← mapExpr body
                .ok (.hRetArm (.apVar v.varId) e)
            | .damage d => damaged d
            | _ => gapAt pos "H_Clause" "pattern-return-clause"
                ("v1's value arm binds a bare variable; a pattern return clause has no v1 " ++
                  "form")
        | true, true, _ => mal pos "a return clause carries exactly one pattern"
        | _, _, _ => mal pos "a return clause names no operation and no continuation"
      else if kind = clauseVar then
        match pats, k.absent with
        | [], true => do
            requireName n
            let e ← mapExpr body
            .ok (.hParamV n.varId e)
        | _, _ => mal pos "a var clause carries no patterns and no continuation"
      else if kind = clauseAbort then
        gapAt pos "H_Clause" "abort-clause"
          ("v1 has no `abort` clause; never-resume is spelled by an explicit continuation " ++
            "binder that is dropped")
      else mal kindPos "H_Clause kind out of range"
  | .damage d => damaged d

def bindLocalDecl : GBind T → Mapped LocalDecl
  | .hBind pos lhs rhs => do
      let e ← mapExpr rhs
      bindLocalDeclOf pos lhs e
  | .damage d => damaged d

/-- The last statement of a block, which is its value. -/
def mapFinal (herePos : Sexp.Pos) : List (GStmt T) → Mapped Exp
  | [] => mal herePos "an empty block has no value"
  | s :: rest => if rest.isEmpty then mapLast s else mapFinal herePos rest

def mapLast : GStmt T → Mapped Exp
  | .expr _ e => mapExpr e
  | .sLet pos _ => noFinal pos "S_Let"
  | .sHandle pos _ _ => noFinal pos "S_Handle"
  | .sUse pos _ => noFinal pos "S_Use"
  | .sDiscard pos _ => noFinal pos "S_Discard"

/-- The statements before the last one: the run of function equations at their front, and
the nested scopes of the rest around the value. Adjacent function equations are one group;
values nest one by one. -/
def buildBlock : List (GStmt T) → Exp → Mapped (List LocalDecl × Exp)
  | [], final => .ok ([], final)
  | s :: rest, final =>
      if rest.isEmpty then .ok ([], final)
      else do
        let (isFun, ld) ← stmtDecl s
        let (run, e) ← buildBlock rest final
        .ok (if isFun then (ld :: run, e) else ([], .eLet [ld] (closeRun run e)))

def stmtDecl : GStmt T → Mapped (Bool × LocalDecl)
  | .sLet _ bind => do
      let ld ← bindLocalDecl bind
      .ok (isFunEqBind bind, ld)
  | .sHandle pos _ _ => gapAt pos "S_Handle" "statement-handle"
      "v1 has no statement-form handler install; every v1 with-form is a delimited expression"
  | .sUse pos _ => gapAt pos "S_Use" "statement-use" "v1 has no `use x as label` rebind form"
  | .sDiscard pos _ =>
      gapAt pos "S_Discard" "statement-discard" "v1 cannot sequence a discarded expression"
  | .expr _ (.damage d) => damaged d
  | .expr pos _ => gapAt pos "E_Block" "mid-block-expression"
      "v1 cannot sequence an expression statement inside a block"

def localDecls : List (GDecl T) → Mapped (List LocalDecl)
  | [] => .ok []
  | d :: ds => do
      let d' ← localDecl d
      let ds' ← localDecls ds
      .ok (d' :: ds')

def localDecl : GDecl T → Mapped LocalDecl
  | .dEquation _ lhs body wheres => do
      let l ← mapFunLHS lhs
      let e ← mapExpr body
      let ds ← localDecls wheres
      .ok (.ldEqn l e (whereOf ds))
  | .dSig pos names ty isExtern =>
      if isExtern then gapAt pos "D_Sig" "where-extern-sig"
        "v1 local blocks cannot hold extern signatures"
      else do
        let (s0, rest, t) ← sigFields mapType pos names ty
        .ok (.ldSig s0 rest t)
  | .dOther tag pos => gapAt pos tag "where-decl-kind"
      "v1 where-blocks allow only equations and signatures"
  | .damage d => damaged d

end

def whereBlock (ds : List (GDecl T)) : Mapped MaybeWhere := do
  let ds' ← localDecls mapType ds
  .ok (whereOf ds')

/-! ### Declarations -/

def plainParamVar (what : String) : TyParamNode → Mapped VarId
  | .hTyParam pos n isRow =>
      if isRow then gapAt pos "H_TyParam" "row-kinded-decl-param"
        ("v1 " ++ what ++ " parameters are plain type variables; no (row e) form")
      else .ok n.varId
  | .damage d => damaged d

def methodSig (t : Ty) : SigNameNode → Mapped (ClassEntry AtomPat Exp)
  | .hSigName n paren => .ok (.ceSig (if paren then .mnParen n.varSym else .mnBare n.varId) t)
  | .damage d => damaged d

def classEntry : GDecl T → Mapped (List (ClassEntry AtomPat Exp))
  | .dSig pos names ty isExtern =>
      if isExtern then gapAt pos "D_Sig" "class-extern-sig"
        "v1 class bodies cannot hold extern signatures"
      else do
        let t ← mapType ty
        names.mapM (methodSig t)
  | .dEquation pos lhs body wheres =>
      match wheres with
      | [] => do
          let l ← mapFunLHS lhs
          let e ← mapExpr mapType body
          .ok [.ceDefault l e]
      | _ :: _ => gapAt pos "D_Equation" "class-default-where"
          "v1 class default equations carry no where-block"
  | .dOther tag pos => gapAt pos tag "class-body-decl-kind"
      "v1 class bodies allow only method signatures and default equations"
  | .damage d => damaged d

def instKind {α : Type} (pos : Sexp.Pos) (tag : String) : Mapped α :=
  gapAt pos tag "instance-body-decl-kind" "v1 instance bodies are method equations only"

def instEntry : GDecl T → Mapped (InstEntry AtomPat Exp)
  | .dEquation pos lhs body wheres =>
      match wheres with
      | [] => do
          let l ← mapFunLHS lhs
          let e ← mapExpr mapType body
          .ok (.ieImpl l e)
      | _ :: _ => gapAt pos "D_Equation" "instance-method-where"
          "v1 instance equations carry no where-block"
  | .dSig pos _ _ _ => instKind pos "D_Sig"
  | .dOther tag pos => instKind pos tag
  | .damage d => damaged d

/-- A declaration of the mapped module, with what the declarations without equations become. -/
inductive ModDecl (O' : Type) where
  | dEqn (lhs : FunLHS AtomPat) (e : Exp) (wh : MaybeWhere)
  | dDecl (d : Decl AtomPat Exp)
  | other (o : O')

variable {H O O' : Type} (mapHead : H → Mapped InstHead) (mapOther : O → Mapped O')

def mapDecl : GTop T H O → Mapped (ModDecl O')
  | .dEquation lhs body wheres => do
      let l ← mapFunLHS lhs
      let e ← mapExpr mapType body
      let wh ← whereBlock mapType wheres
      .ok (.dEqn l e wh)
  | .dClass n params body => do
      let vs ← params.mapM (plainParamVar "class")
      let entries ← body.mapM (classEntry mapType)
      .ok (.dDecl (.dClass n.conId vs entries.flatten))
  | .dInstance head body => do
      let hd ← mapHead head
      let entries ← body.mapM (instEntry mapType)
      .ok (.dDecl (.dInstance hd entries))
  | .other o => do
      let o' ← mapOther o
      .ok (.other o')

/-- The declarations of a file in order. -/
def surfaceModule (decls : List (GTop T H O)) : Mapped (List (ModDecl O')) :=
  decls.mapM (mapDecl mapType mapHead mapOther)

end

end Wok.Sexp.Surface
