/-
Module: Wok.Spec.UnifyErrors
Purpose: The equations that a unification comes to, and those among them whose report
  or warning meets a rigid variable or a row that is none.
Imports: Wok.Spec.Unify
Trusted boundary: none
Main exports: HasRigid, KindClash, Clash, ShadowClash, Task, Calls, Comes
-/
import Wok.Spec.Unify

namespace Wok.TypeChecking

/-! ### Types without links -/

/-- The type has a rigid variable. -/
def HasRigid (s : TCState) (t : Ty) : Prop := ∃ w ∈ t.vars, ∃ u l k, s.cells w = .rigid u l k

/-- The kind of a type by its head. -/
def headKind (s : TCState) : Ty → Option Kind
  | .con .. => some .star
  | .arr .. => some .star
  | .record .. => some .star
  | .rowEmpty => some .effect
  | .rowExtend .. => some .effect
  | .var v => (s.cells v).kind?

/-- What a row ends in. -/
def Ty.rowEnd : Ty → Ty
  | .rowExtend _ _ rest => rest.rowEnd
  | t => t

/-- The fields of a row. -/
def Ty.rowFields : Ty → List (String × Ty)
  | .rowExtend l t rest => (l, t) :: rest.rowFields
  | _ => []

/-! ### Clashes -/

/-- The variable is unbound and has not the kind of the type, and the report of that meets
a rigid variable. -/
def KindClash (s : TCState) (x : Nat) (t : Ty) : Prop :=
  ∃ u l k, s.cells x = .unbound u l k ∧ headKind s t ≠ some k ∧ HasRigid s t

/-- The report of an equation meets a rigid variable, or a row is looked for in
something else. The types are those without links. -/
inductive Clash (s : TCState) : Ty → Ty → Prop where
  | kindLeft (x : Nat) (t : Ty) (h : KindClash s x t) : Clash s (.var x) t
  | kindRight (t : Ty) (x : Nat) (hvar : ∀ v, t ≠ .var v) (h : KindClash s x t) :
      Clash s t (.var x)
  /-- the report of different heads -/
  | heads (a b : Ty) (h : differ a b) (hrigid : HasRigid s a ∨ HasRigid s b) : Clash s a b
  /-- the report of a missing label -/
  | missing (l : String) (p rest b : Ty) (hvar : ∀ v, b ≠ .var v)
      (hfield : ∀ f ∈ b.rowFields, l ≠ f.1)
      (hend : b.rowEnd = .rowEmpty ∨ ∃ v, b.rowEnd = .var v ∧ rest.rowEnd = .var v)
      (hrigid : HasRigid s (.rowExtend l p rest) ∨ HasRigid s b) : Clash s (.rowExtend l p rest) b
  /-- a row against what is none -/
  | noRow (l : String) (p rest b : Ty) (hfield : ∀ f ∈ b.rowFields, l ≠ f.1)
      (hvar : ∀ v, b.rowEnd ≠ .var v) (hempty : b.rowEnd ≠ .rowEmpty) :
      Clash s (.rowExtend l p rest) b

/-- The warning of a label that a row has more than once meets a rigid variable: it
shows the last two types of the label. -/
def ShadowClash (s : TCState) (row : Ty) : Prop :=
  ∃ l t₁ t₂ ts,
    (l, t₁ :: t₂ :: ts) ∈ row.rowFields.foldl (fun m (l, t) => insertShadow l t m) [] ∧
    (HasRigid s t₁ ∨ HasRigid s t₂)

/-! ### Runs -/

/-- An equation, or the search of a row for shadowed labels. -/
inductive Task where
  | equation (a b : Ty)
  | shadow (row : Ty)

def Task.In (s : TCState) : Task → Prop
  | .equation a b => a.In s ∧ b.In s
  | .shadow row => row.In s

def Task.run (sp : SourceSpan) (lvl : Int) (n : Nat) : Task → TC Unit
  | .equation a b => unify sp lvl n a b
  | .shadow row => warnOnShadow sp n row

/-- The task fails with a call of `error` before it comes to another one. -/
def Task.Clash (s : TCState) : Task → Prop
  | .equation a b => ∃ θ, Realizes θ s ∧ TypeChecking.Clash s (a.subst θ) (b.subst θ)
  | .shadow row => ∃ θ, Realizes θ s ∧ ShadowClash s (row.subst θ)

/-- The two types of an equation are forced. -/
def Forced (n : Nat) (s : TCState) (a b : Ty) (s' : TCState) (a' b' : Ty) : Prop :=
  ∃ s₁, force n a s = some (.ok a', s₁) ∧ force n b s₁ = some (.ok b', s')

/-- The tasks that an equation comes to at once, and in which states: what comes before
a task has ended well. -/
inductive Calls (sp : SourceSpan) (lvl : Int) (n : Nat) (s : TCState) (a b : Ty) :
    TCState → Task → Prop where
  | boundLeft (v tag row s₁ s₂) (h : Forced n s a b s₁ (.var v) (.record tag row))
      (hbind : unifyVar sp n v (.record tag row) s₁ = some (.ok (), s₂)) :
      Calls sp lvl n s a b s₂ (.shadow row)
  | boundRight (v tag row s₁ s₂) (h : Forced n s a b s₁ (.record tag row) (.var v))
      (hbind : unifyVar sp n v (.record tag row) s₁ = some (.ok (), s₂)) :
      Calls sp lvl n s a b s₂ (.shadow row)
  | con (c ts₁ ts₂ ps p qs s₁ s₂) (h : Forced n s a b s₁ (.con c ts₁) (.con c ts₂))
      (hlen : ts₁.length = ts₂.length) (hzip : ts₁.zip ts₂ = ps ++ p :: qs)
      (hrun : (ps.forM fun p => unify sp lvl n p.1 p.2) s₁ = some (.ok (), s₂)) :
      Calls sp lvl n s a b s₂ (.equation p.1 p.2)
  | dom (a₁ e₁ b₁ a₂ e₂ b₂ s₁) (h : Forced n s a b s₁ (.arr a₁ e₁ b₁) (.arr a₂ e₂ b₂)) :
      Calls sp lvl n s a b s₁ (.equation a₁ a₂)
  | row (a₁ e₁ b₁ a₂ e₂ b₂ s₁ s₂) (h : Forced n s a b s₁ (.arr a₁ e₁ b₁) (.arr a₂ e₂ b₂))
      (hdom : unify sp lvl n a₁ a₂ s₁ = some (.ok (), s₂)) :
      Calls sp lvl n s a b s₂ (.equation e₁ e₂)
  | cod (a₁ e₁ b₁ a₂ e₂ b₂ s₁ s₂ s₃) (h : Forced n s a b s₁ (.arr a₁ e₁ b₁) (.arr a₂ e₂ b₂))
      (hdom : unify sp lvl n a₁ a₂ s₁ = some (.ok (), s₂))
      (hrow : unify sp lvl n e₁ e₂ s₂ = some (.ok (), s₃)) :
      Calls sp lvl n s a b s₃ (.equation b₁ b₂)
  | recordRow (tag row₁ row₂ s₁) (h : Forced n s a b s₁ (.record tag row₁) (.record tag row₂)) :
      Calls sp lvl n s a b s₁ (.equation row₁ row₂)
  | recordShadow (tag row₁ row₂ s₁ s₂)
      (h : Forced n s a b s₁ (.record tag row₁) (.record tag row₂))
      (hrow : unify sp lvl n row₁ row₂ s₁ = some (.ok (), s₂)) :
      Calls sp lvl n s a b s₂ (.shadow row₁)
  | payload (l p rest b' o t' u s₁ s₂ s₃) (h : Forced n s a b s₁ (.rowExtend l p rest) b')
      (hvar : ∀ v, b' ≠ .var v) (htail : rowTailRef n rest s₁ = some (.ok o, s₂))
      (hrow : rewriteRowGuarded sp lvl o l n b' s₂ = some (.ok (t', u), s₃)) :
      Calls sp lvl n s a b s₃ (.equation p t')
  | rest (l p rest b' o t' u s₁ s₂ s₃ s₄) (h : Forced n s a b s₁ (.rowExtend l p rest) b')
      (hvar : ∀ v, b' ≠ .var v) (htail : rowTailRef n rest s₁ = some (.ok o, s₂))
      (hrow : rewriteRowGuarded sp lvl o l n b' s₂ = some (.ok (t', u), s₃))
      (hpayload : unify sp lvl n p t' s₃ = some (.ok (), s₄)) :
      Calls sp lvl n s a b s₄ (.equation rest u)

/-- The tasks that a task comes to, itself among them, with the states in which it
does. -/
inductive Comes (sp : SourceSpan) (lvl : Int) : TCState → Task → TCState → Task → Prop where
  | here (s task) : Comes sp lvl s task s task
  | step (n s a b s₁ task s₂ task') (h : Calls sp lvl n s a b s₁ task)
      (hrest : Comes sp lvl s₁ task s₂ task') : Comes sp lvl s (.equation a b) s₂ task'

end Wok.TypeChecking
