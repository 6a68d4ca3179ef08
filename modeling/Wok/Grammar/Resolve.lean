/-
Module: Wok.Grammar.Resolve
Purpose: The write-locality walk of name resolution: the scopes that it pushes on the way
  down a file, and the verdict on each write to a slot of a handler.
Imports: Wok.Grammar.Ast
Trusted boundary: none
Main exports: Pat, Node, Clause, Bind, Stmt, Scope, SC, bindPattern, checkTarget, scNode, scBind,
  scStmt, scClause, resolveWrites
-/
import Wok.Grammar.Ast

namespace Wok.Grammar.Resolve

/-! ### The tree

The nodes that the walk knows have constructors of their own; every other node is its tag and
its children. A name is present when the span that stores it is not empty. -/

/-- A name as it is written, with its offset. Names are compared by their text. -/
structure Name where
  text : String
  off : Nat
  deriving Repr, DecidableEq

def Name.same (x y : Name) : Bool :=
  x.text = y.text

/-- A pattern. The rest variable of a record pattern is a name and no pattern. -/
inductive Pat where
  | var (name : Name)
  | as (pat : Pat) (name : Name)
  | record (fields : List Pat) (rest : Option Name)
  | node (tag : WokTag) (pats : List Pat)

inductive ClauseKind where
  | plain | control | return_ | var | abort
  deriving Repr, DecidableEq

/-- The left side of an equation. -/
inductive Lhs where
  | lPrefix (name : Name) (args : List Pat)
  | lInfix (left : Pat) (op : Name) (right : Pat)

/-- The left side of a binding. -/
inductive BindLhs where
  | lPrefix (name : Name) (args : List Pat)
  | pat (p : Pat)

mutual

inductive Node where
  | plain (tag : WokTag) (children : List Node)
  | var (name : Name)
  | assign (target value : Node)
  | handler (clauses : List Clause)
  | block (stmts : List Stmt)
  | lambda (params : List Pat) (body : Node)
  | letIn (bind : Bind) (body : Node)
  | handleIn (label : Option Name) (handler body : Node)
  | useIn (binds : List (Name × Name)) (body : Node)
  | alt (pat : Pat) (body : Node) (wheres : List Node)
  | equation (lhs : Lhs) (body : Node) (wheres : List Node)

inductive Clause where
  | mk (kind : ClauseKind) (name : Name) (pats : List Pat) (k : Option Name) (body : Node)

inductive Bind where
  | mk (lhs : BindLhs) (body : Node)

inductive Stmt where
  | let_ (bind : Bind)
  | handle (label : Option Name) (handler : Node)
  | use (binds : List (Name × Name))
  | other (stmt : Node)

end

def Node.asVar : Node → Option Name
  | .var name => some name
  | _ => none

def Clause.kind : Clause → ClauseKind
  | .mk kind _ _ _ _ => kind

def Clause.name : Clause → Name
  | .mk _ name _ _ _ => name

def Stmt.isLet : Stmt → Bool
  | .let_ _ => true
  | _ => false

/-- The patterns of the arguments of an equation. -/
def Lhs.pats : Lhs → List Pat
  | .lPrefix _ args => args
  | .lInfix left _ right => [left, right]

/-- The name that an equation defines. -/
def Lhs.name : Lhs → Name
  | .lPrefix name _ => name
  | .lInfix _ op _ => op

/-! ### Reports -/

/-- What is reported: faults of a write, and a scope with too many names. -/
inductive ScDiag where
  | malformedTarget
  | shadowed (name slot binding : Name)
  | outsideFrame (name slot : Name)
  | notASlot (name binding : Name)
  | initWrite (name slot : Name)
  | unbound (name : Name)
  | tooManyNames (name : Name)
  | tooManyVars (name : Name)
  | tooManyLets
  deriving Repr, DecidableEq

/-- How many names a scope records: of the patterns of one scope, of the slots of a handler
and of the `let`s of a block. -/
def scMaxBinders : Nat := 64

/-- The text of a report; `position` is the line and column of an offset. -/
def ScDiag.message (position : Nat → Nat × Nat) (d : ScDiag) : String :=
  let quote := fun x : Name => "`" ++ x.text ++ "`"
  let place := fun x : Name =>
    toString (position x.off).1 ++ ":" ++ toString (position x.off).2
  let cap := toString scMaxBinders
  match d with
  | .malformedTarget => "the target of `:=` must be a `var` baton's name"
  | .shadowed name slot binding =>
      quote name ++ " is a value here, not a slot: the var declared at " ++ place slot
        ++ " is shadowed by the binding at " ++ place binding
  | .outsideFrame name slot =>
      "the var " ++ quote name ++ " (declared " ++ place slot
        ++ ") belongs to a handler frame this write is outside: a lambda, a local function or a "
        ++ "nested handler stands between them; snapshot the value, or route the write through "
        ++ "an op"
  | .notASlot name binding =>
      "`:=` target " ++ quote name ++ " (bound " ++ place binding ++ ") is not a `var` baton of "
        ++ "an enclosing handler; `:=` is handler frame state, not general mutation"
  | .initWrite name slot =>
      "the var " ++ quote name ++ " (declared " ++ place slot
        ++ ") cannot be written from a `var` initialiser: initialisers run where the handler "
        ++ "value is built, before the frame exists"
  | .unbound name =>
      "no `var " ++ name.text ++ "` is in scope here; mutation in ordinary code goes through an "
        ++ "effect (`handle s = state 0` ... `s.set x`)"
  | .tooManyNames _ =>
      "more than " ++ cap ++ " names bound in one scope; the front end tracks only that many, "
        ++ "so give some their own function"
  | .tooManyVars _ =>
      "this handler declares more than " ++ cap ++ " `var` slots; the front end tracks only "
        ++ "that many"
  | .tooManyLets =>
      "this block has more than " ++ cap ++ " `let` bindings; the front end tracks only that many"

/-- The verdict on a write: the name that it writes, if its target is one, and what is wrong. -/
structure Verdict where
  name : Option Name
  fault : Option ScDiag
  deriving Repr, DecidableEq

def Verdict.accepted (v : Verdict) : Bool :=
  v.fault.isNone

/-- What the walk says on its way. -/
inductive Note where
  | write (v : Verdict)
  | report (d : ScDiag)
  deriving Repr, DecidableEq

def Note.verdict : Note → Option Verdict
  | .write v => some v
  | .report _ => none

/-- What is added to the diagnostics. -/
def Note.diag : Note → Option ScDiag
  | .write v => v.fault
  | .report d => some d

/-! ### Scopes -/

/-- A name in scope. The frame of a slot is the handler activation that it belongs to; the
frame of a value is 0. -/
structure Scope where
  name : Name
  baton : Bool
  frame : Nat
  deriving Repr, DecidableEq

/-- The state of the walk: the names in scope, innermost first; inside of the initialiser of
a slot, the slots of its handler, which are not in scope; the frame whose clause body the
walk is directly in, or 0; and the number of frames seen. -/
structure SC where
  env : List Scope
  initBatons : List Scope
  frame : Nat
  nframe : Nat
  deriving Repr, DecidableEq

def lookup (c : SC) (name : Name) : Option Scope :=
  c.env.find? fun s => s.name.same name

def lookupBaton (c : SC) (name : Name) : Option Scope :=
  c.env.find? fun s => s.baton && s.name.same name

def value (name : Name) : Scope :=
  ⟨name, false, 0⟩

/-- A label that is elided binds nothing. -/
def pushLabel (env : List Scope) : Option Name → List Scope
  | some name => value name :: env
  | none => env

def pushUses (env : List Scope) (binds : List (Name × Name)) : List Scope :=
  binds.foldl (fun env b => value b.2 :: env) env

/-- The names that a pattern has pushed, how many they are, and what was reported. A count
past the capacity says that the report is made. -/
structure Bound where
  env : List Scope
  nstore : Nat
  diags : List ScDiag

def bindName (name : Name) (b : Bound) : Bound :=
  if b.nstore = scMaxBinders then
    { b with nstore := scMaxBinders + 1, diags := b.diags ++ [.tooManyNames name] }
  else
    { b with env := value name :: b.env, nstore := b.nstore + 1 }

mutual

/-- The names of a pattern, as far as its fields are patterns. -/
def bindPattern : Pat → Bound → Bound
  | .var name, b => if scMaxBinders < b.nstore then b else bindName name b
  | .as p name, b =>
      if scMaxBinders < b.nstore then b
      else if b.nstore = scMaxBinders then bindName name b
      else bindPattern p (bindName name b)
  | .record fields _, b => if scMaxBinders < b.nstore then b else bindPatterns fields b
  | .node _ pats, b => if scMaxBinders < b.nstore then b else bindPatterns pats b

def bindPatterns : List Pat → Bound → Bound
  | [], b => b
  | p :: ps, b => bindPatterns ps (bindPattern p b)

end

/-- The patterns of one scope. -/
def bindAll (ps : List Pat) (env : List Scope) : Bound :=
  bindPatterns ps ⟨env, 0, []⟩

/-- The slots of a handler. They are in scope in all of its clauses but their initialisers. -/
def pushBatons (frame : Nat) : List Clause → Bound → Bound
  | [], b => b
  | cl :: cls, b =>
      if cl.kind = .var then
        if b.nstore = scMaxBinders then { b with diags := b.diags ++ [.tooManyVars cl.name] }
        else
          pushBatons frame cls
            { b with env := ⟨cl.name, true, frame⟩ :: b.env, nstore := b.nstore + 1 }
      else pushBatons frame cls b

/-! ### The walk -/

/-- The number of frames after a step of the walk, and what it said. -/
structure Walk where
  nframe : Nat
  notes : List Note

def Walk.seq (w : Walk) (next : Nat → Walk) : Walk :=
  let r := next w.nframe
  ⟨r.nframe, w.notes ++ r.notes⟩

def Walk.reports (nframe : Nat) (ds : List ScDiag) : Walk :=
  ⟨nframe, ds.map .report⟩

/-- What is wrong with a write to a name. -/
def checkTarget (c : SC) (name : Name) : Option ScDiag :=
  match lookup c name with
  | some found =>
      if found.baton && found.frame = c.frame && c.frame != 0 then none
      else if found.baton then some (.outsideFrame name found.name)
      else
        match lookupBaton c name with
        | some baton =>
            if baton.frame = c.frame && c.frame != 0 then
              some (.shadowed name baton.name found.name)
            else some (.outsideFrame name baton.name)
        | none => some (.notASlot name found.name)
  | none =>
      match c.initBatons.find? fun s => s.baton && s.name.same name with
      | some s => some (.initWrite name s.name)
      | none => some (.unbound name)

/-- A binding of a `let`: the names in scope after it, and the walk of it. -/
structure BindWalk where
  env : List Scope
  walk : Walk

/-- A statement of a block, with the number of `let`s that the block has recorded. -/
structure StmtWalk where
  env : List Scope
  used : Nat
  walk : Walk

mutual

def scNode : Node → SC → Walk
  | .plain _ children, c => scNodes children c
  | .var _, c => ⟨c.nframe, []⟩
  | .assign target value, c =>
      (scNode value c).seq fun nframe =>
        match target.asVar with
        | some name => ⟨nframe, [.write ⟨some name, checkTarget c name⟩]⟩
        | none =>
            (Walk.mk nframe [.write ⟨none, some .malformedTarget⟩]).seq fun nframe =>
              scNode target { c with nframe := nframe }
  | .handler clauses, c =>
      let frame := c.nframe + 1
      let inner := pushBatons frame clauses ⟨c.env, 0, []⟩
      (Walk.reports frame inner.diags).seq fun nframe =>
        scClauses frame c { c with env := inner.env, nframe := nframe } clauses
  | .block stmts, c => scStmts stmts c 0
  | .lambda params body, c =>
      let b := bindAll params c.env
      (Walk.reports c.nframe b.diags).seq fun nframe =>
        scNode body { c with env := b.env, frame := 0, nframe := nframe }
  | .letIn bind body, c =>
      let b := scBind bind c
      b.walk.seq fun nframe => scNode body { c with env := b.env, nframe := nframe }
  | .handleIn label handler body, c =>
      (scNode handler c).seq fun nframe =>
        scNode body { c with env := pushLabel c.env label, nframe := nframe }
  | .useIn binds body, c => scNode body { c with env := pushUses c.env binds }
  | .alt pat body wheres, c =>
      -- the names of the `where` itself are not pushed
      let b := bindAll [pat] c.env
      let c := { c with env := b.env }
      (Walk.reports c.nframe b.diags).seq fun nframe =>
        (scNodes wheres { c with nframe := nframe }).seq fun nframe =>
          scNode body { c with nframe := nframe }
  | .equation lhs body wheres, c =>
      let b := bindAll lhs.pats c.env
      let c := { c with env := b.env, frame := 0 }
      (Walk.reports c.nframe b.diags).seq fun nframe =>
        (scNodes wheres { c with nframe := nframe }).seq fun nframe =>
          scNode body { c with nframe := nframe }

def scNodes : List Node → SC → Walk
  | [], c => ⟨c.nframe, []⟩
  | n :: ns, c => (scNode n c).seq fun nframe => scNodes ns { c with nframe := nframe }

/-- A clause of a handler in `outer`, whose slots are in scope in `inner`. An initialiser runs
where the handler is built. -/
def scClause (frame : Nat) (outer inner : SC) : Clause → Walk
  | .mk kind _ pats k body =>
      if kind = .var then
        scNode body { outer with nframe := inner.nframe, initBatons := inner.env }
      else
        let b := bindAll pats inner.env
        (Walk.reports inner.nframe b.diags).seq fun nframe =>
          scNode body { inner with env := pushLabel b.env k, frame := frame, nframe := nframe }

def scClauses (frame : Nat) (outer inner : SC) : List Clause → Walk
  | [] => ⟨inner.nframe, []⟩
  | cl :: cls =>
      (scClause frame outer inner cl).seq fun nframe =>
        scClauses frame outer { inner with nframe := max inner.nframe nframe } cls

/-- A binding. With parameters it is a function and recursive; without, its body reads the
scope outside. -/
def scBind : Bind → SC → BindWalk
  | .mk lhs body, c =>
      match lhs with
      | .lPrefix name args =>
          let env := value name :: c.env
          if args.isEmpty then ⟨env, scNode body c⟩
          else
            let b := bindAll args env
            ⟨env, (Walk.reports c.nframe b.diags).seq fun nframe =>
              scNode body { c with env := b.env, frame := 0, nframe := nframe }⟩
      | .pat p =>
          let b := bindAll [p] c.env
          ⟨b.env, (scNode body c).seq fun nframe => Walk.reports nframe b.diags⟩

/-- A `let` that the block has no room for is walked like any other node. -/
def scBindPlain : Bind → SC → Walk
  | .mk _ body, c => scNode body c

def scStmt : Stmt → SC → Nat → StmtWalk
  | .let_ bind, c, used =>
      if used < scMaxBinders then
        let b := scBind bind c
        ⟨b.env, used + 1, b.walk⟩
      else
        let ds := if used = scMaxBinders then [ScDiag.tooManyLets] else []
        ⟨c.env, scMaxBinders + 1, (Walk.reports c.nframe ds).seq fun nframe =>
          scBindPlain bind { c with nframe := nframe }⟩
  | .handle label handler, c, used => ⟨pushLabel c.env label, used, scNode handler c⟩
  | .use binds, c, used => ⟨pushUses c.env binds, used, ⟨c.nframe, []⟩⟩
  | .other n, c, used => ⟨c.env, used, scNode n c⟩

/-- A block scopes sequentially. -/
def scStmts : List Stmt → SC → Nat → Walk
  | [], c, _ => ⟨c.nframe, []⟩
  | s :: ss, c, used =>
      let st := scStmt s c used
      st.walk.seq fun nframe => scStmts ss { c with env := st.env, nframe := nframe } st.used

end

/-- The verdicts on the writes of a file, in the order of the walk. -/
def resolveWrites (file : Node) : List Verdict :=
  (scNode file ⟨[], [], 0, 0⟩).notes.filterMap Note.verdict

end Wok.Grammar.Resolve
