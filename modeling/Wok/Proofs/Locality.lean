/-
Module: Wok.Proofs.Locality
Purpose: The resolver accepts a write exactly when the innermost visible binding of its name is
  a slot of the handler whose clause body the write is directly in, up to the two kinds of
  binders that the walk does not push.
Imports: Wok.Spec.Scopes
Trusted boundary: none
Main exports: Agrees, checkTarget_iff, Follows, scNode_follows, writes_located_iff
-/
import Wok.Spec.Scopes
import Mathlib.Data.List.Forall2
import Mathlib.Logic.Function.Basic

namespace Wok.Grammar.Resolve

variable {frames : Nat → Nat} {l : Lexical} {c : SC}

/-! ### The scopes that are recorded -/

/-- What the walk records for a binder, when the handlers around have these frames. -/
def Binder.scope (frames : Nat → Nat) (b : Binder) : Scope :=
  match b.form with
  | .baton level => ⟨b.name, true, frames level⟩
  | _ => value b.name

@[simp] theorem Binder.scope_name (b : Binder) : (b.scope frames).name = b.name := by
  obtain ⟨name, form⟩ := b
  cases form <;> rfl

def scopes (frames : Nat → Nat) (bs : List Binder) : List Scope :=
  (bs.filter fun b => !b.form.hides).map (Binder.scope frames)

@[simp] theorem scopes_nil : scopes frames [] = [] := rfl

@[simp] theorem scopes_append (as bs : List Binder) :
    scopes frames (as ++ bs) = scopes frames as ++ scopes frames bs := by
  simp [scopes]

@[simp] theorem scopes_reverse (bs : List Binder) :
    scopes frames bs.reverse = (scopes frames bs).reverse := by
  simp [scopes]

@[simp] theorem scopes_pattern (name : Name) (bs : List Binder) :
    scopes frames (⟨name, .pattern⟩ :: bs) = value name :: scopes frames bs := rfl

@[simp] theorem scopes_rest (name : Name) (bs : List Binder) :
    scopes frames (⟨name, .rest⟩ :: bs) = scopes frames bs := rfl

@[simp] theorem scopes_local (name : Name) (bs : List Binder) :
    scopes frames (⟨name, .local_⟩ :: bs) = value name :: scopes frames bs := rfl

@[simp] theorem scopes_capability (name : Name) (bs : List Binder) :
    scopes frames (⟨name, .capability⟩ :: bs) = value name :: scopes frames bs := rfl

@[simp] theorem scopes_where (name : Name) (bs : List Binder) :
    scopes frames (⟨name, .where_⟩ :: bs) = scopes frames bs := rfl

@[simp] theorem scopes_baton (name : Name) (level : Nat) (bs : List Binder) :
    scopes frames (⟨name, .baton level⟩ :: bs)
      = ⟨name, true, frames level⟩ :: scopes frames bs := rfl

theorem recorded_eq (bs : List Binder) : recorded bs = (scopes frames bs).length := by
  simp [recorded, scopes]

/-- Of a `where` nothing is recorded. -/
@[simp] theorem scopes_whereBinders (wheres : List Node) :
    scopes frames (whereBinders wheres) = [] := by
  have hhides : ∀ b ∈ whereBinders wheres, b.form.hides = true := by
    intro b hb
    obtain ⟨n, -, hn⟩ := List.mem_filterMap.mp hb
    cases n <;> simp at hn
    subst hn
    rfl
  simpa [scopes] using hhides

/-- Slots whose level has the frame `frame` are recorded with it. -/
theorem scopes_congr {frames' : Nat → Nat} {bs : List Binder}
    (h : ∀ b ∈ bs, ∀ level, b.form = .baton level → frames level = frames' level) :
    scopes frames bs = scopes frames' bs := by
  refine List.map_congr_left fun b hb => ?_
  obtain ⟨name, form⟩ := b
  cases form with
  | baton level =>
      have heq := h _ (List.mem_of_mem_filter hb) level rfl
      simp [Binder.scope, heq]
  | _ => rfl

/-! ### Patterns and slots -/

mutual

/-- A pattern that the scope has room for pushes all of its names but the rest variables. -/
theorem bindPattern_fits : ∀ (p : Pat) (b : Bound),
    b.nstore + recorded p.binders ≤ scMaxBinders →
    bindPattern p b
      = ⟨(scopes frames p.binders).reverse ++ b.env, b.nstore + recorded p.binders, b.diags⟩
  | .var name, b, h => by
      have hlen : recorded (Pat.var name).binders = 1 := rfl
      rw [hlen] at h ⊢
      have hroom : ¬ scMaxBinders < b.nstore := by omega
      have hslot : b.nstore ≠ scMaxBinders := by omega
      simp [bindPattern, bindName, Pat.binders, hroom, hslot]
  | .as p name, b, h => by
      have hlen : recorded (Pat.as p name).binders = recorded p.binders + 1 := by
        simp [recorded, Pat.binders, Form.hides]
      rw [hlen] at h ⊢
      have hroom : ¬ scMaxBinders < b.nstore := by omega
      have hslot : b.nstore ≠ scMaxBinders := by omega
      have hinner := bindPattern_fits p (bindName name b) (by simp [bindName, hslot]; omega)
      simp only [bindPattern, hroom, hslot, if_false, hinner]
      simp [bindName, Pat.binders, hslot]
      omega
  | .record fields rest, b, h => by
      have hlen : recorded (Pat.record fields rest).binders = recorded (patBinders fields) := by
        cases rest <;> simp [recorded, Pat.binders, Form.hides]
      rw [hlen] at h ⊢
      have hroom : ¬ scMaxBinders < b.nstore := by omega
      rw [bindPattern, if_neg hroom, bindPatterns_fits fields b h]
      cases rest <;> simp [Pat.binders]
  | .node tag pats, b, h => by
      have hroom : ¬ scMaxBinders < b.nstore := by omega
      rw [bindPattern, if_neg hroom]
      exact bindPatterns_fits pats b h

theorem bindPatterns_fits : ∀ (ps : List Pat) (b : Bound),
    b.nstore + recorded (patBinders ps) ≤ scMaxBinders →
    bindPatterns ps b
      = ⟨(scopes frames (patBinders ps)).reverse ++ b.env, b.nstore + recorded (patBinders ps),
          b.diags⟩
  | [], b, _ => by simp [bindPatterns, patBinders, recorded]
  | p :: ps, b, h => by
      have hlen : recorded (patBinders (p :: ps))
          = recorded p.binders + recorded (patBinders ps) := by
        simp [recorded, patBinders]
      rw [hlen] at h ⊢
      have hrest : b.nstore + recorded p.binders + recorded (patBinders ps) ≤ scMaxBinders := by
        omega
      rw [bindPatterns, bindPattern_fits p b (by omega), bindPatterns_fits ps _ hrest]
      simp [patBinders]
      omega

end

theorem bindAll_env (frames : Nat → Nat) {ps : List Pat} (hfit : patsFit ps) (env : List Scope) :
    (bindAll ps env).env = scopes frames (patBinders ps).reverse ++ env := by
  have hroom : 0 + recorded (patBinders ps) ≤ scMaxBinders := by simpa [patsFit] using hfit
  rw [bindAll, bindPatterns_fits ps ⟨env, 0, []⟩ hroom, scopes_reverse]

/-- A handler that the walk has room for pushes all of its slots. -/
theorem pushBatons_env (frames : Nat → Nat) (frame level : Nat) (hframe : frames level = frame) :
    ∀ (cls : List Clause) (b : Bound),
      b.nstore + (cls.filter fun cl => cl.kind = .var).length ≤ scMaxBinders →
      (pushBatons frame cls b).env
        = scopes frames (batonBinders level cls).reverse ++ b.env
  | [], b, _ => rfl
  | cl :: cls, b, h => by
      by_cases hkind : cl.kind = .var
      · have hroom : b.nstore + 1 + (cls.filter fun cl => cl.kind = .var).length
            ≤ scMaxBinders := by
          simp only [List.filter_cons, hkind, decide_true, if_true, List.length_cons] at h
          omega
        have hslot : b.nstore ≠ scMaxBinders := by omega
        rw [pushBatons, if_pos hkind, if_neg hslot,
          pushBatons_env frames frame level hframe cls _ hroom]
        simp [batonBinders, hkind, hframe]
      · have hroom : b.nstore + (cls.filter fun cl => cl.kind = .var).length ≤ scMaxBinders := by
          simpa [hkind] using h
        rw [pushBatons, if_neg hkind, pushBatons_env frames frame level hframe cls b hroom]
        simp [batonBinders, hkind]

theorem pushLabel_env (env : List Scope) (label : Option Name) :
    pushLabel env label = scopes frames (labelBinders label) ++ env := by
  cases label <;> simp [pushLabel, labelBinders]

theorem pushUses_env : ∀ (binds : List (Name × Name)) (env : List Scope),
    pushUses env binds = scopes frames (useBinders binds).reverse ++ env
  | [], env => rfl
  | b :: binds, env => by
      have ih := pushUses_env binds (value b.2 :: env)
      simp only [pushUses, List.foldl_cons] at ih ⊢
      rw [ih]
      simp [useBinders]

/-- What a binding leaves in scope. -/
theorem scBind_env {bind : Bind} (hfit : bind.fits) (c : SC) :
    (scBind bind c).env = scopes frames bind.binders.reverse ++ c.env := by
  obtain ⟨lhs, body⟩ := bind
  cases lhs with
  | lPrefix name args =>
      rw [scBind]
      split <;> simp [Bind.binders]
  | pat p =>
      have hp : patsFit [p] := by
        simp only [Bind.fits, Bool.and_eq_true] at hfit
        exact hfit.1
      have henv := bindAll_env frames hp c.env
      simpa [scBind, Bind.binders, patBinders] using henv

/-- What a statement leaves in scope, when the block has room for it. -/
theorem scStmt_env {s : Stmt} (hfit : s.fits) (c : SC) {used : Nat}
    (hroom : s.isLet → used < scMaxBinders) :
    (scStmt s c used).env = scopes frames s.binders.reverse ++ c.env := by
  cases s with
  | let_ bind =>
      rw [scStmt, if_pos (hroom rfl)]
      exact scBind_env (by simpa [Stmt.fits] using hfit) c
  | handle label handler =>
      rw [scStmt, pushLabel_env]
      cases label <;> rfl
  | use binds => exact pushUses_env binds c.env
  | other n => rfl

theorem scStmt_used (s : Stmt) (c : SC) {used : Nat} (hroom : s.isLet → used < scMaxBinders) :
    (scStmt s c used).used = used + if s.isLet then 1 else 0 := by
  cases s with
  | let_ bind => simp [scStmt, hroom rfl, Stmt.isLet]
  | _ => rfl

/-! ### The walk and the scopes of the language -/

/-- The state of the walk is what is visible, less the binders that it does not push: the
handlers around have frames of their own, and the frame is that of the home. -/
structure Agrees (frames : Nat → Nat) (l : Lexical) (c : SC) : Prop where
  env : c.env = scopes frames l.binders
  frame : c.frame = (l.home.map frames).getD 0
  home : ∀ level, l.home = some level → level < l.level
  batons : ∀ b ∈ l.binders, ∀ level, b.form = .baton level → level < l.level
  positive : ∀ level, level < l.level → 0 < frames level
  seen : ∀ level, level < l.level → frames level ≤ c.nframe
  distinct : ∀ i j, i < l.level → j < l.level → frames i = frames j → i = j

/-- The walk goes on in the same scope. -/
theorem Agrees.go (h : Agrees frames l c) {nframe : Nat} (hn : c.nframe ≤ nframe) :
    Agrees frames l { c with nframe := nframe } :=
  { h with seen := fun level hlevel => Nat.le_trans (h.seen level hlevel) hn }

/-- The walk enters the scope of more names. -/
theorem Agrees.bind (h : Agrees frames l c) {bs : List Binder}
    (hvalue : ∀ b ∈ bs, ∀ level, b.form ≠ .baton level) {env : List Scope}
    (henv : env = scopes frames bs ++ c.env) : Agrees frames (l.bind bs) { c with env := env } :=
  { h with
    env := by rw [henv, h.env, Lexical.bind, scopes_append]
    batons := fun b hb level hlevel => by
      rcases List.mem_append.mp hb with hnew | hold
      · exact absurd hlevel (hvalue b hnew level)
      · exact h.batons b hold level hlevel }

/-- The walk enters a function that is no clause body. -/
theorem Agrees.function (h : Agrees frames l c) : Agrees frames l.function { c with frame := 0 } :=
  { h with
    frame := rfl
    home := fun _ hhome => nomatch hhome }

/-- The walk enters the initialiser of a slot. -/
theorem Agrees.initialiser (h : Agrees frames l c) (slots : List Scope) :
    Agrees frames l { c with initBatons := slots } :=
  { h with }

/-- The walk enters a clause body: the handler gets a frame that was not seen before. -/
theorem Agrees.clause (h : Agrees frames l c) {frame : Nat} (hnew : c.nframe < frame)
    {cls : List Clause} {env : List Scope}
    (henv : env
      = scopes (Function.update frames l.level frame) (batonBinders l.level cls).reverse ++ c.env) :
    Agrees (Function.update frames l.level frame)
      (l.bind (batonBinders l.level cls).reverse).clause
      { c with env := env, frame := frame, nframe := frame } := by
  have hold : ∀ level, level < l.level →
      Function.update frames l.level frame level = frames level :=
    fun level hlevel => Function.update_of_ne (Nat.ne_of_lt hlevel) frame frames
  have hhere : Function.update frames l.level frame l.level = frame :=
    Function.update_self l.level frame frames
  have hcases : ∀ level, level < (l.bind (batonBinders l.level cls).reverse).clause.level →
      level < l.level ∨ level = l.level := fun level hlevel =>
    Nat.lt_or_eq_of_le (Nat.le_of_lt_succ hlevel)
  constructor
  case env =>
    rw [henv, h.env]
    simp only [Lexical.clause, Lexical.bind, scopes_append]
    congr 1
    exact scopes_congr fun b hb level hlevel => (hold level (h.batons b hb level hlevel)).symm
  case frame => simp [Lexical.clause, Lexical.bind]
  case home =>
    intro level hlevel
    simp only [Lexical.clause, Lexical.bind, Option.some.injEq] at hlevel ⊢
    omega
  case batons =>
    intro b hb level hlevel
    refine Nat.lt_succ_of_le ?_
    rcases List.mem_append.mp hb with hslot | hb
    · simp only [batonBinders, List.mem_reverse, List.mem_map] at hslot
      obtain ⟨cl, -, rfl⟩ := hslot
      exact Nat.le_of_eq (Form.baton.inj hlevel).symm
    · exact Nat.le_of_lt (h.batons b hb level hlevel)
  case positive =>
    intro level hlevel
    rcases hcases level hlevel with hlt | rfl
    · rw [hold level hlt]
      exact h.positive level hlt
    · rw [hhere]
      omega
  case seen =>
    intro level hlevel
    rcases hcases level hlevel with hlt | rfl
    · rw [hold level hlt]
      exact Nat.le_trans (h.seen level hlt) (Nat.le_of_lt hnew)
    · exact Nat.le_of_eq hhere
  case distinct =>
    intro i j hi hj heq
    rcases hcases i hi with hi | rfl <;> rcases hcases j hj with hj | rfl
    · rw [hold i hi, hold j hj] at heq
      exact h.distinct i j hi hj heq
    · rw [hold i hi, hhere] at heq
      have hseen := h.seen i hi
      omega
    · rw [hhere, hold j hj] at heq
      have hseen := h.seen j hj
      omega
    · rfl

/-- Looking a name up finds the innermost binder of the kinds that are pushed. -/
theorem Agrees.lookup (h : Agrees frames l c) (name : Name) :
    lookup c name
      = (l.plain.binders.find? fun b => b.name.same name).map (Binder.scope frames) := by
  rw [Resolve.lookup, h.env, scopes, List.find?_map]
  simp only [Function.comp_def, Binder.scope_name]
  rfl

/-- A write is fine exactly when the innermost binder that is pushed is a slot of the handler
whose clause body it is directly in. -/
theorem checkTarget_iff (h : Agrees frames l c) (name : Name) :
    checkTarget c name = none ↔ l.plain.owns name := by
  have hfind := h.lookup name
  rw [checkTarget, Lexical.owns]
  cases hb : l.plain.binders.find? (fun b => b.name.same name) with
  | none =>
      rw [hfind, hb]
      simp only [Option.map_none, Bool.false_eq_true, iff_false]
      split <;> simp
  | some b =>
      rw [hfind, hb]
      simp only [Option.map_some]
      obtain ⟨x, form⟩ := b
      cases form with
      | baton level =>
          have hmem : (⟨x, .baton level⟩ : Binder) ∈ l.binders :=
            List.mem_of_mem_filter (List.mem_of_find?_eq_some hb)
          have hlevel := h.batons _ hmem level rfl
          have hpos := h.positive level hlevel
          have hframe : frames level = c.frame ∧ c.frame ≠ 0 ↔ l.home = some level := by
            rw [h.frame]
            cases hhome : l.home with
            | none => simp
            | some here =>
                have hhere := h.home here hhome
                have hposHere := h.positive here hhere
                simp only [Option.map_some, Option.getD_some, Option.some.injEq]
                constructor
                · intro heq
                  exact h.distinct here level hhere hlevel heq.1.symm
                · rintro rfl
                  exact ⟨rfl, by omega⟩
          have hplain : l.plain.home = l.home := rfl
          simp only [Binder.scope, Bool.true_and, hplain]
          by_cases hown : frames level = c.frame ∧ c.frame ≠ 0
          · simp [hown.1, hown.2, hframe.mp hown]
          · have hnot : l.home ≠ some level := fun heq => hown (hframe.mpr heq)
            by_cases heq : frames level = c.frame
            · have hzero : c.frame = 0 := by
                by_contra hne
                exact hown ⟨heq, hne⟩
              simp [hzero, hnot]
            · simp [heq, hnot]
      | _ =>
          simp only [Binder.scope, value, Bool.false_and, Bool.false_eq_true, if_false, iff_false]
          split
          · split <;> simp
          · simp

/-! ### The verdicts follow the writes -/

/-- The innermost binder that is pushed is a slot of the handler whose clause body the write
is directly in. -/
def Site.OwnedPlain (s : Site) : Prop :=
  ∃ name, s.name = some name ∧ s.lexical.plain.owns name

/-- A part of the walk sees frames that are new, and gives the verdicts of these writes. -/
structure Follows (nframe : Nat) (w : Walk) (sites : List Site) : Prop where
  grows : nframe ≤ w.nframe
  agree : List.Forall₂ (fun v s => v.name = s.name ∧ (v.accepted ↔ s.OwnedPlain))
    (w.notes.filterMap Note.verdict) sites

theorem Follows.still (nframe : Nat) : Follows nframe ⟨nframe, []⟩ [] :=
  ⟨Nat.le_refl _, .nil⟩

theorem Follows.seq {nframe : Nat} {w : Walk} {next : Nat → Walk} {as bs : List Site}
    (hw : Follows nframe w as) (hnext : Follows w.nframe (next w.nframe) bs) :
    Follows nframe (w.seq next) (as ++ bs) := by
  constructor
  · exact Nat.le_trans hw.grows hnext.grows
  · rw [Walk.seq, List.filterMap_append]
    exact List.rel_append hw.agree hnext.agree

/-- Reports are no verdicts. -/
theorem Follows.reports (nframe : Nat) (ds : List ScDiag) :
    Follows nframe (Walk.reports nframe ds) [] := by
  refine ⟨Nat.le_refl _, ?_⟩
  have hnone : (ds.map Note.report).filterMap Note.verdict = [] := by
    simp [List.filterMap_map, Function.comp_def, Note.verdict]
  rw [Walk.reports, hnone]
  exact .nil

theorem Follows.reported {nframe : Nat} {next : Nat → Walk} {sites : List Site} (ds : List ScDiag)
    (hnext : Follows nframe (next nframe) sites) :
    Follows nframe ((Walk.reports nframe ds).seq next) sites :=
  (Follows.reports nframe ds).seq hnext

theorem Follows.write {nframe : Nat} {v : Verdict} {s : Site} (hname : v.name = s.name)
    (haccepted : v.accepted ↔ s.OwnedPlain) : Follows nframe ⟨nframe, [.write v]⟩ [s] :=
  ⟨Nat.le_refl _, .cons ⟨hname, haccepted⟩ .nil⟩

theorem Follows.le {nframe first : Nat} {w : Walk} {sites : List Site} (h : Follows first w sites)
    (hle : nframe ≤ first) : Follows nframe w sites :=
  ⟨Nat.le_trans hle h.grows, h.agree⟩

/-- Neither patterns nor labels are slots. -/
def Values (bs : List Binder) : Prop :=
  ∀ b ∈ bs, ∀ level, b.form ≠ .baton level

mutual

theorem values_binders : ∀ p : Pat, Values p.binders
  | .var name => by simp [Values, Pat.binders]
  | .as p name => by
      have hp := values_binders p
      simpa [Values, Pat.binders] using hp
  | .record fields rest => by
      have hfields := values_patBinders fields
      cases rest <;> simpa [Values, Pat.binders, or_imp, forall_and] using hfields
  | .node _ pats => values_patBinders pats

theorem values_patBinders : ∀ ps : List Pat, Values (patBinders ps)
  | [] => by simp [Values, patBinders]
  | p :: ps => by
      have hp := values_binders p
      have hps := values_patBinders ps
      intro b hb
      rcases List.mem_append.mp hb with hb | hb
      · exact hp b hb
      · exact hps b hb

end

theorem Values.reverse {bs : List Binder} (h : Values bs) : Values bs.reverse :=
  fun b hb => h b (List.mem_reverse.mp hb)

theorem values_label (label : Option Name) : Values (labelBinders label) := by
  cases label <;> simp [Values, labelBinders]

theorem values_uses (binds : List (Name × Name)) : Values (useBinders binds) := by
  intro b hb
  obtain ⟨x, -, rfl⟩ := List.mem_map.mp hb
  simp

theorem values_whereBinders (wheres : List Node) : Values (whereBinders wheres) := by
  intro b hb
  obtain ⟨n, -, hn⟩ := List.mem_filterMap.mp hb
  cases n <;> simp at hn
  subst hn
  simp

/-- The walk does not see what a `where` defines. -/
theorem Agrees.wheres (h : Agrees frames l c) (wheres : List Node) :
    Agrees frames (l.bind (whereBinders wheres)) c :=
  have henv : c.env = scopes frames (whereBinders wheres) ++ c.env := by simp
  h.bind (values_whereBinders wheres) henv

theorem values_bind (bind : Bind) : Values bind.binders := by
  obtain ⟨lhs, body⟩ := bind
  cases lhs with
  | lPrefix name args => simp [Values, Bind.binders]
  | pat p => exact values_binders p

theorem values_stmt (s : Stmt) : Values s.binders := by
  cases s with
  | let_ bind => exact values_bind bind
  | handle label handler => exact values_label label
  | use binds => exact values_uses binds
  | other n => simp [Values, Stmt.binders]

mutual

/-- The walk of a tree gives a verdict on each of its writes, in order. -/
theorem scNode_follows : ∀ (n : Node) {frames : Nat → Nat} {l : Lexical} {c : SC},
    Agrees frames l c → n.fits → Follows c.nframe (scNode n c) (writes n l)
  | .plain _ children, _, _, _, h, hfit => scNodes_follows children h hfit
  | .var _, _, _, c, _, _ => Follows.still c.nframe
  | .assign target value, frames, l, c, h, hfit => by
      simp only [Node.fits, Bool.and_eq_true] at hfit
      have hvalue := scNode_follows value h hfit.1
      have htarget := scNode_follows target (h.go hvalue.grows) hfit.2
      rw [scNode, writes]
      refine hvalue.seq ?_
      cases hname : target.asVar with
      | some name =>
          have hvar : writes target l = [] := by
            cases target <;> simp_all [Node.asVar, writes]
          rw [hvar]
          refine Follows.write rfl ?_
          simp [Verdict.accepted, checkTarget_iff h name, Site.OwnedPlain]
      | none =>
          have hwrite : Follows (scNode value c).nframe
              ⟨(scNode value c).nframe, [.write ⟨none, some .malformedTarget⟩]⟩ [⟨none, l⟩] :=
            Follows.write rfl (by simp [Verdict.accepted, Site.OwnedPlain])
          exact hwrite.seq htarget
  | .handler clauses, frames, l, c, h, hfit => by
      simp only [Node.fits, Bool.and_eq_true, decide_eq_true_eq] at hfit
      have hnew : c.nframe < c.nframe + 1 := Nat.lt_succ_self c.nframe
      have henv := pushBatons_env (Function.update frames l.level (c.nframe + 1))
        (c.nframe + 1) l.level (Function.update_self _ _ _) clauses ⟨c.env, 0, []⟩
        (by simpa using hfit.1)
      have hin := h.clause hnew henv
      have hclauses := scClauses_follows clauses
        { c with
          env := (pushBatons (c.nframe + 1) clauses ⟨c.env, 0, []⟩).env, nframe := c.nframe + 1 }
        h (Nat.le_of_lt hnew) hin hfit.2
      rw [scNode, writes]
      exact (Follows.reported _ hclauses).le (Nat.le_of_lt hnew)
  | .block stmts, _, _, _, h, hfit => by
      simp only [Node.fits, Bool.and_eq_true, decide_eq_true_eq] at hfit
      exact scStmts_follows stmts h (by simpa using hfit.1) hfit.2
  | .lambda params body, frames, l, c, h, hfit => by
      simp only [Node.fits, Bool.and_eq_true] at hfit
      have henv := bindAll_env frames hfit.1 c.env
      have hscope := (h.bind (values_patBinders params).reverse henv).function
      rw [scNode, writes]
      exact Follows.reported _ (scNode_follows body hscope hfit.2)
  | .letIn bind body, frames, l, c, h, hfit => by
      simp only [Node.fits, Bool.and_eq_true] at hfit
      have hbind := scBind_follows bind h hfit.1
      have hscope := h.bind (values_bind bind).reverse (scBind_env hfit.1 c)
      rw [scNode, writes]
      exact hbind.seq (scNode_follows body (hscope.go hbind.grows) hfit.2)
  | .handleIn label handler body, frames, l, c, h, hfit => by
      simp only [Node.fits, Bool.and_eq_true] at hfit
      have hhandler := scNode_follows handler h hfit.1
      have hscope := h.bind (values_label label) (pushLabel_env c.env label)
      rw [scNode, writes]
      exact hhandler.seq (scNode_follows body (hscope.go hhandler.grows) hfit.2)
  | .useIn binds body, frames, l, c, h, hfit => by
      have hscope := h.bind (values_uses binds).reverse (pushUses_env binds c.env)
      exact scNode_follows body hscope hfit
  | .alt pat body wheres, frames, l, c, h, hfit => by
      simp only [Node.fits, Bool.and_eq_true] at hfit
      have henv := bindAll_env frames hfit.1.1 c.env
      have hpat : Values (patBinders [pat]).reverse := (values_patBinders [pat]).reverse
      have hscope := (h.bind hpat henv).wheres wheres
      simp only [patBinders, List.append_nil] at hscope
      have hwheres := scNodes_follows wheres hscope hfit.1.2
      rw [scNode, writes]
      exact Follows.reported _ (hwheres.seq (scNode_follows body (hscope.go hwheres.grows) hfit.2))
  | .equation lhs body wheres, frames, l, c, h, hfit => by
      simp only [Node.fits, Bool.and_eq_true] at hfit
      have henv := bindAll_env frames hfit.1.1 c.env
      have hscope := ((h.bind (values_patBinders lhs.pats).reverse henv).wheres wheres).function
      have hwheres := scNodes_follows wheres hscope hfit.1.2
      rw [scNode, writes]
      exact Follows.reported _ (hwheres.seq (scNode_follows body (hscope.go hwheres.grows) hfit.2))

theorem scNodes_follows : ∀ (ns : List Node) {frames : Nat → Nat} {l : Lexical} {c : SC},
    Agrees frames l c → nodesFit ns → Follows c.nframe (scNodes ns c) (writesAll ns l)
  | [], _, _, c, _, _ => Follows.still c.nframe
  | n :: ns, _, _, _, h, hfit => by
      simp only [nodesFit, Bool.and_eq_true] at hfit
      have hn := scNode_follows n h hfit.1
      rw [scNodes, writesAll]
      exact hn.seq (scNodes_follows ns (h.go hn.grows) hfit.2)

theorem scClause_follows : ∀ (cl : Clause) {frames frames' : Nat → Nat} {l inside : Lexical}
    {c inner : SC} {frame : Nat}, Agrees frames l c → c.nframe ≤ inner.nframe →
    Agrees frames' inside.clause { inner with frame := frame } → cl.fits →
    Follows inner.nframe (scClause frame c inner cl) (writesClause inside l cl)
  | .mk kind name pats k body, frames, frames', l, inside, c, inner, frame, h, hn, hin, hfit => by
      simp only [Clause.fits, Bool.and_eq_true] at hfit
      rw [scClause, writesClause]
      by_cases hkind : kind = .var
      · rw [if_pos hkind, if_pos hkind]
        exact scNode_follows body ((h.go hn).initialiser inner.env) hfit.2
      · rw [if_neg hkind, if_neg hkind]
        have henv := bindAll_env frames' hfit.1 inner.env
        have hk : Values ((k.map (⟨·, Form.pattern⟩)).toList) := by
          cases k <;> simp [Values]
        have hpush : pushLabel (bindAll pats inner.env).env k
            = scopes frames' ((k.map (⟨·, Form.pattern⟩)).toList)
              ++ (bindAll pats inner.env).env := by
          cases k <;> simp [pushLabel]
        have hscope := (hin.bind (values_patBinders pats).reverse henv).bind hk hpush
        exact Follows.reported _ (scNode_follows body hscope hfit.2)

theorem scClauses_follows : ∀ (cls : List Clause) {frames frames' : Nat → Nat}
    {l inside : Lexical} {c : SC} (inner : SC) {frame : Nat}, Agrees frames l c →
    c.nframe ≤ inner.nframe → Agrees frames' inside.clause { inner with frame := frame } →
    clausesFit cls →
    Follows inner.nframe (scClauses frame c inner cls) (writesClauses inside l cls)
  | [], _, _, _, _, _, inner, _, _, _, _, _ => Follows.still inner.nframe
  | cl :: cls, frames, frames', l, inside, c, inner, frame, h, hn, hin, hfit => by
      simp only [clausesFit, Bool.and_eq_true] at hfit
      have hcl := scClause_follows cl h hn hin hfit.1
      have hmax : max inner.nframe (scClause frame c inner cl).nframe
          = (scClause frame c inner cl).nframe := Nat.max_eq_right hcl.grows
      have hcls := scClauses_follows cls
        { inner with nframe := (scClause frame c inner cl).nframe } h
        (Nat.le_trans hn hcl.grows) (hin.go hcl.grows) hfit.2
      rw [scClauses, writesClauses]
      refine hcl.seq ?_
      rw [hmax]
      exact hcls

theorem scBind_follows : ∀ (bind : Bind) {frames : Nat → Nat} {l : Lexical} {c : SC},
    Agrees frames l c → bind.fits → Follows c.nframe (scBind bind c).walk (writesBind bind l)
  | .mk (.lPrefix name args) body, frames, l, c, h, hfit => by
      simp only [Bind.fits, Bool.and_eq_true] at hfit
      rw [scBind, writesBind]
      by_cases hargs : args.isEmpty
      · simp only [hargs, if_true]
        exact scNode_follows body h hfit.2
      · simp only [hargs, Bool.false_eq_true, if_false]
        have hself : Values [⟨name, .local_⟩] := by simp [Values]
        have hpush : value name :: c.env = scopes frames [⟨name, .local_⟩] ++ c.env := rfl
        have hname := h.bind hself hpush
        have henv := bindAll_env frames hfit.1 (value name :: c.env)
        have hscope := (hname.bind (values_patBinders args).reverse henv).function
        exact Follows.reported _ (scNode_follows body hscope hfit.2)
  | .mk (.pat p) body, frames, l, c, h, hfit => by
      simp only [Bind.fits, Bool.and_eq_true] at hfit
      have hbody := scNode_follows body h hfit.2
      rw [scBind, writesBind]
      have hreports := Follows.reports (scNode body c).nframe (bindAll [p] c.env).diags
      have hseq : Follows c.nframe
          ((scNode body c).seq fun nframe => Walk.reports nframe (bindAll [p] c.env).diags)
          (writes body l ++ []) := hbody.seq hreports
      simpa using hseq

theorem scStmt_follows : ∀ (s : Stmt) {frames : Nat → Nat} {l : Lexical} {c : SC} {used : Nat},
    Agrees frames l c → (s.isLet → used < scMaxBinders) → s.fits →
    Follows c.nframe (scStmt s c used).walk (writesStmt s l)
  | .let_ bind, _, _, _, used, h, hroom, hfit => by
      rw [scStmt, if_pos (hroom rfl)]
      exact scBind_follows bind h hfit
  | .handle _ handler, _, _, _, _, h, _, hfit => scNode_follows handler h hfit
  | .use _, _, _, c, _, _, _, _ => Follows.still c.nframe
  | .other n, _, _, _, _, h, _, hfit => scNode_follows n h hfit

theorem scStmts_follows : ∀ (ss : List Stmt) {frames : Nat → Nat} {l : Lexical} {c : SC}
    {used : Nat}, Agrees frames l c → used + (ss.filter Stmt.isLet).length ≤ scMaxBinders →
    stmtsFit ss → Follows c.nframe (scStmts ss c used) (writesStmts ss l)
  | [], _, _, c, _, _, _, _ => Follows.still c.nframe
  | s :: ss, frames, l, c, used, h, hroom, hfit => by
      simp only [stmtsFit, Bool.and_eq_true] at hfit
      have hlet : s.isLet → used < scMaxBinders := fun hs => by
        simp only [List.filter_cons, hs, if_true, List.length_cons] at hroom
        omega
      have hs := scStmt_follows s h hlet hfit.1
      have hscope := h.bind (values_stmt s).reverse (scStmt_env hfit.1 c hlet)
      have hused : (scStmt s c used).used + (ss.filter Stmt.isLet).length ≤ scMaxBinders := by
        rw [scStmt_used s c hlet]
        cases hisLet : s.isLet <;> simp [hisLet] at hroom ⊢ <;> omega
      rw [scStmts, writesStmts]
      exact hs.seq (scStmts_follows ss (hscope.go hs.grows) hused hfit.2)

end

/-! ### The rule -/

/-- The innermost binder of a name, when it is one that is pushed, is also the innermost of
those. -/
theorem find_plain {name : Name} {bs : List Binder} {b : Binder}
    (h : bs.find? (fun b => b.name.same name) = some b) (hb : b.form.hides = false) :
    (bs.filter fun b => !b.form.hides).find? (fun b => b.name.same name) = some b := by
  induction bs with
  | nil => cases h
  | cons a bs ih =>
      by_cases hname : a.name.same name
      · have hab : a = b := by simpa [hname] using h
        subst hab
        simp [hb, hname]
      · have hrest := ih (by simpa [hname] using h)
        by_cases ha : a.form.hides <;> simp [ha, hname, hrest]

theorem owns_iff (l : Lexical) (name : Name) :
    l.owns name ↔ l.plain.owns name ∧
      ¬ ∃ b, l.binders.find? (fun b => b.name.same name) = some b ∧ b.form.hides := by
  cases hfind : l.binders.find? (fun b => b.name.same name) with
  | none =>
      have hplain : l.plain.binders.find? (fun b => b.name.same name) = none := by
        simp only [List.find?_eq_none] at hfind ⊢
        exact fun b hb => hfind b (List.mem_of_mem_filter hb)
      simp [Lexical.owns, hfind, hplain]
  | some b =>
      by_cases hides : b.form.hides
      · obtain ⟨x, form⟩ := b
        cases form <;> simp_all [Lexical.owns, Form.hides]
      · have hplain : l.plain.binders.find? (fun b => b.name.same name) = some b :=
          find_plain hfind (by simpa using hides)
        have hhome : l.plain.home = l.home := rfl
        simp [Lexical.owns, hfind, hplain, hides, hhome]

theorem Site.owned_iff (s : Site) : s.Owned ↔ s.OwnedPlain ∧ ¬ s.Hidden := by
  rw [Site.Owned, Site.OwnedPlain, Site.Hidden]
  constructor
  · rintro ⟨name, hname, howns⟩
    obtain ⟨hplain, hshown⟩ := (owns_iff s.lexical name).mp howns
    refine ⟨⟨name, hname, hplain⟩, ?_⟩
    rintro ⟨x, hx, hhidden, -⟩
    obtain rfl : name = x := Option.some.inj (hname.symm.trans hx)
    exact hshown hhidden
  · rintro ⟨⟨name, hname, hplain⟩, hshown⟩
    refine ⟨name, hname, (owns_iff s.lexical name).mpr ⟨hplain, ?_⟩⟩
    exact fun hhidden => hshown ⟨name, hname, hhidden, hplain⟩

theorem Site.Hidden.ownedPlain {s : Site} (h : s.Hidden) : s.OwnedPlain := by
  obtain ⟨name, hname, -, hplain⟩ := h
  exact ⟨name, hname, hplain⟩

/-- In front of the declarations of a file nothing is bound. -/
def outermost : Lexical :=
  ⟨[], none, 0⟩

theorem agrees_outermost (frames : Nat → Nat) : Agrees frames outermost ⟨[], [], 0, 0⟩ where
  env := rfl
  frame := rfl
  home := fun _ h => nomatch h
  batons := fun _ h => nomatch h
  positive := fun _ h => nomatch h
  seen := fun _ h => nomatch h
  distinct := fun _ _ h => nomatch h

/-- The verdict on a write is the rule of the language. -/
def Located (v : Verdict) (s : Site) : Prop :=
  v.accepted ↔ s.Owned

instance (v : Verdict) (s : Site) : Decidable (Located v s) :=
  inferInstanceAs (Decidable (_ ↔ _))

/-- Where each pair meets its condition or fails, all pairs meet theirs when no condition
fails. -/
theorem forall₂_iff_of_each {α β : Type} {name P : α → β → Prop} {Q : β → Prop} {as : List α}
    {bs : List β} (h : List.Forall₂ (fun a b => name a b ∧ (P a b ↔ Q b)) as bs) :
    List.Forall₂ (fun a b => name a b ∧ P a b) as bs ↔ ∀ b ∈ bs, Q b := by
  induction h with
  | nil => simp
  | cons hab _ ih => simp [hab.1, hab.2, ih]

/-- The resolver decides a write as the language has it exactly when its name is not bound by
the rest variable of a record pattern, or by the `where` of an alternative, in front of a slot
of the handler whose clause body the write is directly in. -/
theorem writes_located_iff (file : Node) (hfit : file.fits) :
    (List.Forall₂ (fun v s => v.name = s.name ∧ Located v s) (resolveWrites file)
        (writes file outermost)
      ↔ ∀ s ∈ writes file outermost, ¬ s.Hidden) ∧
    List.Forall₂ (fun v s => v.name = s.name ∧ (Located v s ↔ ¬ s.Hidden)) (resolveWrites file)
      (writes file outermost) := by
  have hwalk := (scNode_follows file (agrees_outermost fun _ => 0) hfit).agree
  have heach : List.Forall₂ (fun v s => v.name = s.name ∧ (Located v s ↔ ¬ s.Hidden))
      (resolveWrites file) (writes file outermost) := by
    refine hwalk.imp fun v s hvs => ⟨hvs.1, ?_⟩
    have howned := s.owned_iff
    have hplain : s.Hidden → s.OwnedPlain := Site.Hidden.ownedPlain
    rw [Located, hvs.2, howned]
    tauto
  exact ⟨forall₂_iff_of_each heach, heach⟩

/-- `main x = handler Cell { var s = 0; put r = case r of { pat -> s := 1 where wheres } }` -/
def putFile (pat : Pat) (wheres : List Node) : Node :=
  .plain .wFile [.equation (.lPrefix ⟨"main", 0⟩ [.var ⟨"x", 5⟩])
    (.handler [
      .mk .var ⟨"s", 32⟩ [] none (.plain .eInt []),
      .mk .plain ⟨"put", 40⟩ [.var ⟨"r", 44⟩] none
        (.plain .eCase [.var ⟨"r", 53⟩,
          .alt pat (.assign (.var ⟨"s", 70⟩) (.plain .eInt [])) wheres])]) []]

/-- With the plain pattern `y` the write is to the slot. -/
theorem plain_write_located :
    List.Forall₂ (fun v s => v.name = s.name ∧ Located v s)
      (resolveWrites (putFile (.var ⟨"y", 58⟩) []))
      (writes (putFile (.var ⟨"y", 58⟩) []) outermost) :=
  (writes_located_iff (putFile (.var ⟨"y", 58⟩) []) (by decide)).1.mpr (by decide)

/-- The rest variable of `R {..s}`, or `s = 2` in the `where` of the alternative, binds the
name, and the write is accepted. -/
theorem hidden_write_accepted :
    (¬ List.Forall₂ (fun v s => v.name = s.name ∧ Located v s)
      (resolveWrites (putFile (.record [] (some ⟨"s", 60⟩)) []))
      (writes (putFile (.record [] (some ⟨"s", 60⟩)) []) outermost)) ∧
    ¬ List.Forall₂ (fun v s => v.name = s.name ∧ Located v s)
      (resolveWrites (putFile (.var ⟨"y", 58⟩)
        [.equation (.lPrefix ⟨"s", 90⟩ []) (.plain .eInt []) []]))
      (writes (putFile (.var ⟨"y", 58⟩)
        [.equation (.lPrefix ⟨"s", 90⟩ []) (.plain .eInt []) []]) outermost) := by
  constructor
  all_goals
    intro h
    cases h with
    | cons hfirst _ => exact absurd hfirst.2 (by decide)

end Wok.Grammar.Resolve
