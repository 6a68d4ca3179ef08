/-
Module: Wok.Spec.Scopes
Purpose: Lexical scoping as the language has it: which binders are visible at each write of a
  file, and which handler the write belongs to.
Imports: Wok.Grammar.Resolve
Trusted boundary: human-reviewed spec
Main exports: Form, Binder, Lexical, Lexical.owns, Site, Site.Owned, Site.Hidden, writes,
  Node.fits
-/
import Wok.Grammar.Resolve

namespace Wok.Grammar.Resolve

/-! ### Binders -/

/-- How a name is bound. A slot belongs to a handler, which is known among those around it by
its level: how many clause bodies are around the handler. -/
inductive Form where
  | pattern
  | rest
  | local_
  | capability
  | where_
  | baton (level : Nat)
  deriving Repr, DecidableEq

structure Binder where
  name : Name
  form : Form
  deriving Repr, DecidableEq

/-- What is visible at a place: the binders around it, innermost first; the handler whose
clause body is the nearest function around it, if it is a clause body; and how many clause
bodies are around it. -/
structure Lexical where
  binders : List Binder
  home : Option Nat
  level : Nat
  deriving Repr, DecidableEq

def Lexical.bind (l : Lexical) (bs : List Binder) : Lexical :=
  { l with binders := bs ++ l.binders }

/-- Inside of a function that is no clause body. -/
def Lexical.function (l : Lexical) : Lexical :=
  { l with home := none }

/-- Inside of a clause body. -/
def Lexical.clause (l : Lexical) : Lexical :=
  { l with home := some l.level, level := l.level + 1 }

/-- The innermost binding of a name is a slot of the handler whose clause body is the nearest
function around. -/
def Lexical.owns (l : Lexical) (name : Name) : Bool :=
  match l.binders.find? fun b => b.name.same name with
  | some ⟨_, .baton level⟩ => l.home = some level
  | _ => false

/-- The rest variable of a record pattern, and what the `where` of an alternative defines. -/
def Form.hides : Form → Bool
  | .rest => true
  | .where_ => true
  | _ => false

/-- The binders of the other forms. -/
def Lexical.plain (l : Lexical) : Lexical :=
  { l with binders := l.binders.filter fun b => !b.form.hides }

mutual

/-- The binders of a pattern, outermost first. -/
def Pat.binders : Pat → List Binder
  | .var name => [⟨name, .pattern⟩]
  | .as p name => ⟨name, .pattern⟩ :: p.binders
  | .record fields rest => patBinders fields ++ (rest.map (⟨·, .rest⟩)).toList
  | .node _ pats => patBinders pats

def patBinders : List Pat → List Binder
  | [] => []
  | p :: ps => p.binders ++ patBinders ps

end

/-- The slots of a handler. -/
def batonBinders (level : Nat) (clauses : List Clause) : List Binder :=
  (clauses.filter fun cl => cl.kind = .var).map fun cl => ⟨cl.name, .baton level⟩

/-- What a `where` defines. -/
def whereBinders (wheres : List Node) : List Binder :=
  wheres.filterMap fun
    | .equation lhs _ _ => some ⟨lhs.name, .where_⟩
    | _ => none

def labelBinders (label : Option Name) : List Binder :=
  (label.map (⟨·, .capability⟩)).toList

def useBinders (binds : List (Name × Name)) : List Binder :=
  binds.map fun b => ⟨b.2, .capability⟩

/-- What a binding adds to the scope after it. -/
def Bind.binders : Bind → List Binder
  | .mk (.lPrefix name _) _ => [⟨name, .local_⟩]
  | .mk (.pat p) _ => p.binders

def Stmt.binders : Stmt → List Binder
  | .let_ bind => bind.binders
  | .handle label _ => labelBinders label
  | .use binds => useBinders binds
  | .other _ => []

/-! ### Writes -/

/-- A write: the name that it writes, if its target is one, and what is visible there. -/
structure Site where
  name : Option Name
  lexical : Lexical
  deriving Repr, DecidableEq

/-- The write is to a slot of the handler whose clause body it is directly in. -/
def Site.Owned (s : Site) : Prop :=
  ∃ name, s.name = some name ∧ s.lexical.owns name

/-- The name is bound by a rest variable or a `where` of an alternative, and what they hide is
a slot of the handler whose clause body the write is directly in. -/
def Site.Hidden (s : Site) : Prop :=
  ∃ name, s.name = some name ∧
    (∃ b, s.lexical.binders.find? (fun b => b.name.same name) = some b ∧ b.form.hides) ∧
    s.lexical.plain.owns name

instance (s : Site) : Decidable s.Owned :=
  decidable_of_iff (s.name.any s.lexical.owns = true) (Option.any_eq_true _ _)

instance (s : Site) : Decidable s.Hidden :=
  decidable_of_iff (s.name.any (fun name =>
      (s.lexical.binders.find? fun b => b.name.same name).any (·.form.hides)
        && s.lexical.plain.owns name) = true)
    (by simp only [Option.any_eq_true, Bool.and_eq_true]; exact Iff.rfl)

mutual

/-- The writes of a tree, each before what is below its target and after what is below its
value. -/
def writes : Node → Lexical → List Site
  | .plain _ children, l => writesAll children l
  | .var _, _ => []
  | .assign target value, l =>
      writes value l ++ ⟨target.asVar, l⟩ :: writes target l
  | .handler clauses, l => writesClauses (l.bind (batonBinders l.level clauses).reverse) l clauses
  | .block stmts, l => writesStmts stmts l
  | .lambda params body, l => writes body (l.bind (patBinders params).reverse).function
  | .letIn bind body, l => writesBind bind l ++ writes body (l.bind bind.binders.reverse)
  | .handleIn label handler body, l =>
      writes handler l ++ writes body (l.bind (labelBinders label))
  | .useIn binds body, l => writes body (l.bind (useBinders binds).reverse)
  | .alt pat body wheres, l =>
      let l := (l.bind pat.binders.reverse).bind (whereBinders wheres)
      writesAll wheres l ++ writes body l
  | .equation lhs body wheres, l =>
      let l := ((l.bind (patBinders lhs.pats).reverse).bind (whereBinders wheres)).function
      writesAll wheres l ++ writes body l

def writesAll : List Node → Lexical → List Site
  | [], _ => []
  | n :: ns, l => writes n l ++ writesAll ns l

/-- An initialiser is outside of the handler. -/
def writesClause (inner outer : Lexical) : Clause → List Site
  | .mk kind _ pats k body =>
      if kind = .var then writes body outer
      else
        writes body ((inner.bind (patBinders pats).reverse).bind
          ((k.map (⟨·, .pattern⟩)).toList)).clause

def writesClauses (inner outer : Lexical) : List Clause → List Site
  | [] => []
  | cl :: cls => writesClause inner outer cl ++ writesClauses inner outer cls

/-- A function is visible in its own body, and a value is not. -/
def writesBind : Bind → Lexical → List Site
  | .mk lhs body, l =>
      match lhs with
      | .lPrefix name args =>
          if args.isEmpty then writes body l
          else
            writes body ((l.bind [⟨name, .local_⟩]).bind (patBinders args).reverse).function
      | .pat _ => writes body l

def writesStmt : Stmt → Lexical → List Site
  | .let_ bind, l => writesBind bind l
  | .handle _ handler, l => writes handler l
  | .use _, _ => []
  | .other n, l => writes n l

def writesStmts : List Stmt → Lexical → List Site
  | [], _ => []
  | s :: ss, l => writesStmt s l ++ writesStmts ss (l.bind s.binders.reverse)

end

/-! ### Capacity -/

/-- How many names of a scope the walk has to record. -/
def recorded (bs : List Binder) : Nat :=
  (bs.filter fun b => !b.form.hides).length

def patsFit (ps : List Pat) : Bool :=
  recorded (patBinders ps) ≤ scMaxBinders

mutual

/-- No scope of the tree has more names than the walk records. -/
def Node.fits : Node → Bool
  | .plain _ children => nodesFit children
  | .var _ => true
  | .assign target value => value.fits && target.fits
  | .handler clauses =>
      (clauses.filter fun cl => cl.kind = .var).length ≤ scMaxBinders && clausesFit clauses
  | .block stmts => (stmts.filter Stmt.isLet).length ≤ scMaxBinders && stmtsFit stmts
  | .lambda params body => patsFit params && body.fits
  | .letIn bind body => bind.fits && body.fits
  | .handleIn _ handler body => handler.fits && body.fits
  | .useIn _ body => body.fits
  | .alt pat body wheres => patsFit [pat] && nodesFit wheres && body.fits
  | .equation lhs body wheres => patsFit lhs.pats && nodesFit wheres && body.fits

def nodesFit : List Node → Bool
  | [] => true
  | n :: ns => n.fits && nodesFit ns

def Clause.fits : Clause → Bool
  | .mk _ _ pats _ body => patsFit pats && body.fits

def clausesFit : List Clause → Bool
  | [] => true
  | cl :: cls => cl.fits && clausesFit cls

def Bind.fits : Bind → Bool
  | .mk lhs body =>
      (match lhs with
        | .lPrefix _ args => patsFit args
        | .pat p => patsFit [p]) && body.fits

def Stmt.fits : Stmt → Bool
  | .let_ bind => bind.fits
  | .handle _ handler => handler.fits
  | .use _ => true
  | .other n => n.fits

def stmtsFit : List Stmt → Bool
  | [] => true
  | s :: ss => s.fits && stmtsFit ss

end

attribute [grind =] scNode scBind scStmt writes writesBind writesStmt Node.fits Bind.fits

end Wok.Grammar.Resolve
