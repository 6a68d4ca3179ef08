/-
Module: Wok.Proofs.KontInvariant
Layer: Proofs
Purpose: Invariants of continuations. A property of continuations that installing
  and returning keep holds of every continuation of a reachable state, also of
  those stored in join points, captured in values, parked in the scheduler or
  suspended in an outer run, as long as each resumption keeps it.
Imports: Wok.Interp.Run
Trusted boundary: none
Main exports: KontInv, KontInv.ValueOk, KontInv.KontOk, KontInv.StateOk,
  KontInv.Resumes, KontInv.step_preserves, KontInv.initial_ok
-/
import Wok.Interp.Run

namespace Wok.Proofs

open Wok.IR Wok.Interp
open Wok.Lib (System)

/-- A property of continuations that every step but a resumption keeps.
`captured` is what is known of the frames above a handler, and of that handler,
once they have been captured. -/
structure KontInv where
  holds : Kont → Prop
  captured : List Frame → Handler → Activation → Prop
  done : holds []
  pop : ∀ {fr k}, holds (fr :: k) → holds k
  let_ : ∀ {b body sc k}, holds k → holds (.let_ b body sc :: k)
  app : ∀ {args k}, holds k → holds (.app args :: k)
  install : ∀ {h serial sc k}, holds k → holds (.handle h ⟨kontDepth k, serial⟩ sc :: k)
  capture : ∀ {above h act sc below}, holds (above ++ .handle h act sc :: below) →
    captured above h act

namespace KontInv

variable (I : KontInv)

mutual

/-- Every continuation inside the value has the property. -/
inductive ValueOk : Value → Prop where
  | lit (l : Lit) : ValueOk (.lit l)
  | con {tag : String} {fields : List Value} (h : ∀ v ∈ fields, ValueOk v) :
      ValueOk (.con tag fields)
  | record {name : String} {fields : List (String × Value)}
      (h : ∀ lv ∈ fields, ValueOk lv.2) : ValueOk (.record name fields)
  | closure {env : Env} {defs : List Def} {params : List Binder} {body : Expr}
      (h : ∀ e ∈ env, ValueOk e.2) : ValueOk (.closure env defs params body)
  | prim {m name : String} {args : List Value} (h : ∀ v ∈ args, ValueOk v) :
      ValueOk (.prim m name args)
  | cont {above : List Frame} {h : Handler} {act : Activation} {sc : Scope}
      (hframes : ∀ fr ∈ above, FrameOk fr) (hsc : ScopeOk sc) (hcap : I.captured above h act) :
      ValueOk (.cont above h act sc)
  | contP {pb : Binder} {above : List Frame} {h : Handler} {act : Activation} {sc : Scope}
      (hframes : ∀ fr ∈ above, FrameOk fr) (hsc : ScopeOk sc) (hcap : I.captured above h act) :
      ValueOk (.contP pb above h act sc)
  | inst (u : Unique) (act : Activation) : ValueOk (.inst u act)
  | bytes (bs : List UInt8) : ValueOk (.bytes bs)
  | handler {h : Handler} {env : Env} (henv : ∀ e ∈ env, ValueOk e.2) :
      ValueOk (.handler h env)

inductive ScopeOk : Scope → Prop where
  | intro {sc : Scope} (henv : ∀ e ∈ sc.env, ValueOk e.2)
      (hscopes : ∀ e ∈ sc.joins, ScopeOk e.2.scope)
      (hframes : ∀ e ∈ sc.joins, ∀ fr ∈ e.2.kont, FrameOk fr)
      (hkonts : ∀ e ∈ sc.joins, I.holds e.2.kont) : ScopeOk sc

inductive FrameOk : Frame → Prop where
  | let_ {b : Binder} {body : Expr} {sc : Scope} (hsc : ScopeOk sc) :
      FrameOk (.let_ b body sc)
  | app {args : List Value} (hargs : ∀ v ∈ args, ValueOk v) : FrameOk (.app args)
  | handle {h : Handler} {act : Activation} {sc : Scope} (hsc : ScopeOk sc) :
      FrameOk (.handle h act sc)

end

def EnvOk (env : Env) : Prop := ∀ e ∈ env, I.ValueOk e.2

def ValuesOk (vs : List Value) : Prop := ∀ v ∈ vs, I.ValueOk v

structure KontOk (k : Kont) : Prop where
  frames : ∀ fr ∈ k, I.FrameOk fr
  holds : I.holds k

def ConfigOk : Config → Prop
  | .eval _ sc k => I.ScopeOk sc ∧ I.KontOk k
  | .ret v k => I.ValueOk v ∧ I.KontOk k
  | .apply f args k => I.ValueOk f ∧ I.ValuesOk args ∧ I.KontOk k

def MoveOk : Move → Prop
  | .config c => I.ConfigOk c
  | .drive thunk extra k => I.ValueOk thunk ∧ I.ValuesOk extra ∧ I.KontOk k

def GlobalsOk (globals : Globals) : Prop :=
  ∀ u v, globals u = some (.value v) → I.ValueOk v

/-- Resuming the value over a continuation with the property gives one again. -/
def Resumes : Value → Kont → Prop
  | .cont above h act _, after | .contP _ above h act _, after =>
      I.captured above h act → I.holds after →
        ∀ sc, I.holds (above ++ .handle h act sc :: after)
  | _, _ => True

variable {I}

theorem dataPred : DataPred I.ValueOk where
  lit := .lit
  bytes := .bytes
  con := ⟨fun h => by cases h with | con h => exact h, .con⟩
  record := ⟨fun h => by cases h with | record h => exact h, .record⟩

/-! ### Environments and scopes -/

theorem mem_of_lookup {α β : Type} [BEq α] [LawfulBEq α] {l : List (α × β)} {a : α} {b : β}
    (h : l.lookup a = some b) : (a, b) ∈ l := by
  obtain ⟨l₁, l₂, rfl, -⟩ := List.lookup_eq_some_iff.mp h
  exact List.mem_append_right _ (List.mem_cons_self ..)

theorem bindBinder_ok {b : Binder} {v : Value} {env : Env} (hv : I.ValueOk v)
    (henv : I.EnvOk env) : I.EnvOk (bindBinder b v env) :=
  List.forall_mem_cons.mpr ⟨hv, henv⟩

theorem bindBinders_ok {bs : List Binder} {vs : List Value} {env : Env} (hvs : I.ValuesOk vs)
    (henv : I.EnvOk env) : I.EnvOk (bindBinders bs vs env) := by
  unfold bindBinders
  have hzip : ∀ bv ∈ bs.zip vs, I.ValueOk bv.2 := fun bv hbv => hvs _ (List.of_mem_zip hbv).2
  generalize bs.zip vs = bvs at hzip
  induction bvs generalizing env with
  | nil => exact henv
  | cons bv bvs ih =>
      obtain ⟨hbv, hbvs⟩ := List.forall_mem_cons.mp hzip
      exact ih (bindBinder_ok hbv henv) hbvs

theorem recEnv_ok {env : Env} {defs : List Def} (henv : I.EnvOk env) :
    I.EnvOk (recEnv env defs) := by
  unfold recEnv
  generalize hgroup : defs = group
  suffices h : ∀ ds : List Def,
      I.EnvOk (ds.foldr (fun d e => bindBinder d.name (.closure env group d.params d.body) e)
        env) from h group
  intro ds
  induction ds with
  | nil => exact henv
  | cons d ds ih => exact bindBinder_ok (.closure henv) ih

theorem insertField_ok {label : String} {v : Value} {m : List (String × Value)}
    (hv : I.ValueOk v) (hm : ∀ lv ∈ m, I.ValueOk lv.2) :
    ∀ lv ∈ insertField label v m, I.ValueOk lv.2 := by
  induction m with
  | nil => simpa [insertField] using hv
  | cons lw m ih =>
      obtain ⟨hw, hrest⟩ := List.forall_mem_cons.mp hm
      simp only [insertField]
      split
      · exact List.forall_mem_cons.mpr ⟨hv, hm⟩
      · split
        · exact List.forall_mem_cons.mpr ⟨hv, hrest⟩
        · exact List.forall_mem_cons.mpr ⟨hw, ih hrest⟩

theorem fieldMap_ok {fields : List (String × Value)} (h : ∀ lv ∈ fields, I.ValueOk lv.2) :
    ∀ lv ∈ fieldMap fields, I.ValueOk lv.2 := by
  unfold fieldMap
  have hnil : ∀ lv ∈ ([] : List (String × Value)), I.ValueOk lv.2 := fun _ h => by cases h
  generalize ([] : List (String × Value)) = m at hnil
  induction fields generalizing m with
  | nil => exact hnil
  | cons lv fields ih =>
      obtain ⟨hlv, hfields⟩ := List.forall_mem_cons.mp h
      exact ih hfields _ (insertField_ok hlv hnil)

namespace ScopeOk

variable {sc : Scope}

theorem env (h : I.ScopeOk sc) : I.EnvOk sc.env := by
  cases h with | intro henv => exact henv

theorem withEnv {env : Env} (h : I.ScopeOk sc) (henv : I.EnvOk env) :
    I.ScopeOk { sc with env := env } := by
  cases h with | intro _ hscopes hframes hkonts => exact ⟨henv, hscopes, hframes, hkonts⟩

theorem bare {env : Env} (henv : I.EnvOk env) : I.ScopeOk ⟨env, []⟩ :=
  ⟨henv, nofun, nofun, nofun⟩

theorem bindJoin {j : JoinId} {jp : JoinPoint} (h : I.ScopeOk sc) (hscope : I.ScopeOk jp.scope)
    (hkont : I.KontOk jp.kont) : I.ScopeOk { sc with joins := (j, jp) :: sc.joins } := by
  cases h with
  | intro henv hscopes hframes hkonts =>
      exact ⟨henv, List.forall_mem_cons.mpr ⟨hscope, hscopes⟩,
        List.forall_mem_cons.mpr ⟨hkont.frames, hframes⟩,
        List.forall_mem_cons.mpr ⟨hkont.holds, hkonts⟩⟩

theorem lookup {j : JoinId} {jp : JoinPoint} (h : I.ScopeOk sc)
    (hlookup : sc.joins.lookup j = some jp) : I.ScopeOk jp.scope ∧ I.KontOk jp.kont := by
  have hmem := mem_of_lookup hlookup
  cases h with
  | intro henv hscopes hframes hkonts =>
      exact ⟨hscopes _ hmem, hframes _ hmem, hkonts _ hmem⟩

end ScopeOk

theorem selfScope_ok {self : Option Binder} {act : Activation} {sc : Scope}
    (h : I.ScopeOk sc) : I.ScopeOk (selfScope self act sc) := by
  cases self with
  | none => exact h
  | some sb => exact h.withEnv (bindBinder_ok (.inst _ _) h.env)

theorem answerRebind_ok {h : Handler} {after : Kont} {sc : Scope} (hsc : I.ScopeOk sc)
    (hafter : I.KontOk after) : I.ScopeOk (answerRebind h after sc) := by
  unfold answerRebind
  split
  · exact hsc
  · split
    · exact hsc
    · split
      · exact hsc
      · exact hsc.bindJoin hsc hafter

/-! ### Continuations -/

namespace KontOk

variable {k : Kont}

theorem done : I.KontOk [] :=
  ⟨nofun, I.done⟩

theorem pop {fr : Frame} (h : I.KontOk (fr :: k)) : I.FrameOk fr ∧ I.KontOk k :=
  ⟨h.frames fr (List.mem_cons_self ..),
    fun fr' h' => h.frames fr' (List.mem_cons_of_mem _ h'), I.pop h.holds⟩

theorem let_ {b : Binder} {body : Expr} {sc : Scope} (h : I.KontOk k) (hsc : I.ScopeOk sc) :
    I.KontOk (.let_ b body sc :: k) :=
  ⟨List.forall_mem_cons.mpr ⟨.let_ hsc, h.frames⟩, I.let_ h.holds⟩

theorem app {args : List Value} (h : I.KontOk k) (hargs : I.ValuesOk args) :
    I.KontOk (.app args :: k) :=
  ⟨List.forall_mem_cons.mpr ⟨.app hargs, h.frames⟩, I.app h.holds⟩

theorem install {h : Handler} {serial : Nat} {sc : Scope} (hk : I.KontOk k)
    (hsc : I.ScopeOk sc) : I.KontOk (.handle h ⟨kontDepth k, serial⟩ sc :: k) :=
  ⟨List.forall_mem_cons.mpr ⟨.handle hsc, hk.frames⟩, I.install hk.holds⟩

/-- Put captured frames and their handler over the continuation of a resumption. -/
theorem resume {above : List Frame} {h : Handler} {act : Activation} {sc : Scope}
    (hk : I.KontOk k) (habove : ∀ fr ∈ above, I.FrameOk fr) (hsc : I.ScopeOk sc)
    (hholds : I.holds (above ++ .handle h act sc :: k)) :
    I.KontOk (above ++ .handle h act sc :: k) :=
  ⟨List.forall_mem_append.mpr ⟨habove, List.forall_mem_cons.mpr ⟨.handle hsc, hk.frames⟩⟩,
    hholds⟩

theorem drop {front : List Frame} (h : I.KontOk (front ++ k)) : I.KontOk k := by
  induction front with
  | nil => exact h
  | cons fr front ih => exact ih h.pop.2

end KontOk

/-- The handler that is found splits the continuation. -/
theorem findHandler_split {target : Target} {label op : String} {k : Kont} {f : Found}
    (hfind : findHandler target label op k = some f) :
    k = f.above ++ .handle f.h f.act f.sc :: f.below := by
  induction k generalizing f with
  | nil => cases hfind
  | cons fr k ih =>
      cases fr with
      | let_ b body sc =>
          simp only [findHandler, Option.map_eq_some_iff] at hfind
          obtain ⟨f', hf', rfl⟩ := hfind
          exact congrArg _ (ih (f := f') hf')
      | app args =>
          simp only [findHandler, Option.map_eq_some_iff] at hfind
          obtain ⟨f', hf', rfl⟩ := hfind
          exact congrArg _ (ih (f := f') hf')
      | handle h act sc =>
          simp only [findHandler] at hfind
          split at hfind
          · cases hfind
            rfl
          · simp only [Option.map_eq_some_iff] at hfind
            obtain ⟨f', hf', rfl⟩ := hfind
            exact congrArg _ (ih (f := f') hf')

theorem dispatchOp_ok {target : Target} {label op : String} {vs : List Value} {k : Kont}
    {c : Config} (hdispatch : dispatchOp target label op vs k = .ok c)
    (hvs : I.ValuesOk vs) (hk : I.KontOk k) : I.ConfigOk c := by
  simp only [dispatchOp] at hdispatch
  split at hdispatch
  · cases hdispatch
  next f hfind =>
    split at hdispatch
    · cases hdispatch
    next arm harm =>
      cases hdispatch
      have hsplit := findHandler_split hfind
      rw [hsplit] at hk
      have hcap : I.captured f.above f.h f.act := I.capture hk.holds
      obtain ⟨habove, -⟩ := List.forall_mem_append.mp hk.frames
      obtain ⟨hframe, hbelow⟩ := hk.drop.pop
      have hsc : I.ScopeOk f.sc := by cases hframe with | handle hsc => exact hsc
      have hresume : I.ValueOk (resumeValue f) := by
        unfold resumeValue
        split
        · exact .cont habove hsc hcap
        · exact .contP habove hsc hcap
      exact ⟨hsc.withEnv (bindBinder_ok hresume (bindBinders_ok hvs hsc.env)), hbelow⟩

/-! ### Steps -/

variable {prims : PrimTable} {globals : Globals}

theorem resolveAtom_ok {sc : Scope} {a : Atom} {v : Value} (hglobals : I.GlobalsOk globals)
    (hsc : I.ScopeOk sc) (h : resolveAtom prims globals sc a = .ok v) : I.ValueOk v := by
  cases a with
  | lit l =>
      cases h
      exact .lit l
  | prim m name =>
      simp only [resolveAtom] at h
      split at h
      · cases h
        exact .prim fun _ h => by cases h
      · cases h
  | var n =>
      simp only [resolveAtom] at h
      split at h
      next w hlookup =>
        cases h
        exact hsc.env _ (mem_of_lookup hlookup)
      · split at h
        next w hglobal =>
          cases h
          exact hglobals _ _ hglobal
        · cases h
        · cases h

theorem resolveAtoms_ok {sc : Scope} {as : List Atom} {vs : List Value}
    (hglobals : I.GlobalsOk globals) (hsc : I.ScopeOk sc)
    (h : resolveAtoms prims globals sc as = .ok vs) : I.ValuesOk vs := by
  unfold resolveAtoms at h
  induction as generalizing vs with
  | nil =>
      cases h
      exact fun _ h => by cases h
  | cons a as ih =>
      rw [List.mapM_cons] at h
      obtain ⟨v, hv, h⟩ := bind_ok h
      obtain ⟨ws, hws, h⟩ := bind_ok h
      cases h
      exact List.forall_mem_cons.mpr ⟨resolveAtom_ok hglobals hsc hv, ih hws⟩

theorem evalForeignCall_ok {lib sym : String} {args : List Value} {v : Value}
    (h : evalForeignCall lib sym args = .ok v) : I.ValueOk v := by
  unfold evalForeignCall at h
  split at h
  · split at h <;> cases h
    exact .lit _
  · split at h
    · split at h <;> cases h
      exact .bytes _
    · split at h
      · split at h <;> cases h
        exact .bytes _
      · split at h
        · split at h <;> cases h
          exact .lit _
        · cases h

theorem enter_ok {f : Value} {args : List Value} {k : Kont} {m : Move}
    (henter : enter prims f args k = .ok m) (hf : I.ValueOk f) (hargs : I.ValuesOk args)
    (hk : I.KontOk k) (hresumes : I.Resumes f k) : I.MoveOk m := by
  cases f with
  | closure env defs ps body =>
      cases hf with
      | closure henv =>
          have hrec : I.EnvOk (recEnv env defs) := recEnv_ok henv
          simp only [enter] at henter
          split at henter
          · cases henter
            exact ⟨.bare (bindBinders_ok hargs hrec), hk⟩
          · split at henter
            · cases henter
              exact ⟨.closure (bindBinders_ok hargs hrec), hk⟩
            · cases henter
              exact ⟨.bare (bindBinders_ok (fun v hv => hargs v (List.mem_of_mem_take hv)) hrec),
                hk.app fun v hv => hargs v (List.mem_of_mem_drop hv)⟩
  | prim m name held =>
      cases hf with
      | prim hheld =>
          have hcombined : I.ValuesOk (held ++ args) :=
            List.forall_mem_append.mpr ⟨hheld, hargs⟩
          simp only [enter] at henter
          split at henter
          · cases henter
          next p hp =>
            have hextra : I.ValuesOk ((held ++ args).drop p.arity) :=
              fun v hv => hcombined v (List.mem_of_mem_drop hv)
            split at henter
            · cases henter
              exact ⟨.prim hcombined, hk⟩
            · have hmoves := p.moves I.ValueOk dataPred ((held ++ args).take p.arity)
              split at henter
              · cases henter
              next v hfn =>
                have hv : I.ValueOk v :=
                  hmoves _ (fun v hv => hcombined v (List.mem_of_mem_take hv)) hfn
                split at henter
                · cases henter
                  exact ⟨hv, hk⟩
                · cases henter
                  exact ⟨hv, hextra, hk⟩
              next g gargs hfn =>
                obtain ⟨hg, hgargs⟩ :=
                  hmoves _ (fun v hv => hcombined v (List.mem_of_mem_take hv)) hfn
                cases henter
                exact ⟨hg, List.forall_mem_append.mpr ⟨hgargs, hextra⟩, hk⟩
              next thunk hfn =>
                cases henter
                exact ⟨hmoves _ (fun v hv => hcombined v (List.mem_of_mem_take hv)) hfn,
                  hextra, hk⟩
  | cont above h act sc =>
      cases hf with
      | cont hframes hsc hcap =>
          simp only [enter] at henter
          split at henter
          next v =>
            cases henter
            exact ⟨hargs v (List.mem_singleton_self v),
              hk.resume hframes (answerRebind_ok hsc hk) (hresumes hcap hk.holds _)⟩
          · cases henter
  | contP pb above h act sc =>
      cases hf with
      | contP hframes hsc hcap =>
          simp only [enter] at henter
          split at henter
          next param result =>
            cases henter
            have hparam : I.ValueOk param := hargs param (by simp)
            have hresult : I.ValueOk result := hargs result (by simp)
            exact ⟨hresult, hk.resume hframes
              ((answerRebind_ok hsc hk).withEnv (bindBinder_ok hparam hsc.env))
              (hresumes hcap hk.holds _)⟩
          · cases henter
  | lit | con | record | inst | bytes | handler => cases henter

theorem matchAlts_ok {v : Value} {sc : Scope} {k : Kont} {alts : List Alt} {c : Config}
    (hmatch : matchAlts v sc k alts = .ok c) (hv : I.ValueOk v) (hsc : I.ScopeOk sc)
    (hk : I.KontOk k) : I.ConfigOk c := by
  induction alts with
  | nil => cases hmatch
  | cons alt alts ih =>
      cases alt with
      | con tag bs e =>
          simp only [matchAlts] at hmatch
          split at hmatch
          next tag' vs =>
            split at hmatch
            · cases hmatch
              exact ⟨hsc.withEnv (bindBinders_ok (dataPred.con.mp hv) hsc.env), hk⟩
            · exact ih hmatch
          · exact ih hmatch
      | lit l e =>
          simp only [matchAlts] at hmatch
          split at hmatch
          · split at hmatch
            · cases hmatch
              exact ⟨hsc, hk⟩
            · exact ih hmatch
          · exact ih hmatch
      | default e =>
          cases hmatch
          exact ⟨hsc, hk⟩

theorem evalRhs_ok {b : Binder} {rhs : Rhs} {body : Expr} {sc : Scope} {k : Kont} {m : Move}
    (heval : evalRhs prims globals b rhs body sc k = .ok m) (hglobals : I.GlobalsOk globals)
    (hresumes : ∀ v k', Config.applied prims globals (.eval (.let_ b rhs body) sc k) =
      some (v, k') → I.Resumes v k')
    (hsc : I.ScopeOk sc) (hk : I.KontOk k) : I.MoveOk m := by
  have hbind : ∀ {v : Value}, I.ValueOk v →
      I.MoveOk (.config (.eval body { sc with env := bindBinder b v sc.env } k)) :=
    fun hv => ⟨hsc.withEnv (bindBinder_ok hv hsc.env), hk⟩
  cases rhs with
  | atom a =>
      obtain ⟨v, hv, hm⟩ := bind_ok heval
      cases hm
      exact hbind (resolveAtom_ok hglobals hsc hv)
  | con c as =>
      obtain ⟨vs, hvs, hm⟩ := bind_ok heval
      cases hm
      exact hbind (.con (resolveAtoms_ok hglobals hsc hvs))
  | lam ps e =>
      cases heval
      exact hbind (.closure hsc.env)
  | record t fields =>
      obtain ⟨vs, hvs, hm⟩ := bind_ok heval
      cases hm
      have hfields := resolveAtoms_ok hglobals hsc hvs
      exact hbind (.record (fieldMap_ok fun lv hlv => hfields _ (List.of_mem_zip hlv).2))
  | makeHandler h =>
      cases heval
      exact hbind (.handler hsc.env)
  | proj l a =>
      obtain ⟨v, hv, hm⟩ := bind_ok heval
      split at hm
      next name fields =>
        split at hm
        next w hlookup =>
          cases hm
          have hrecord := resolveAtom_ok hglobals hsc hv
          exact hbind (dataPred.record.mp hrecord _ (mem_of_lookup hlookup))
        · cases hm
      · cases hm
  | reuseCon tok c as => cases heval
  | app f as =>
      obtain ⟨fv, hf, hm⟩ := bind_ok heval
      obtain ⟨vs, hvs, hm⟩ := bind_ok hm
      refine enter_ok hm (resolveAtom_ok hglobals hsc hf) (resolveAtoms_ok hglobals hsc hvs)
        (hk.let_ hsc) (hresumes fv _ ?_)
      simp only [Config.applied, hf]
  | op inst label op as =>
      obtain ⟨vs, hvs, hm⟩ := bind_ok heval
      obtain ⟨target, -, hm⟩ := bind_ok hm
      obtain ⟨c, hdispatch, hm⟩ := bind_ok hm
      cases hm
      exact dispatchOp_ok hdispatch (resolveAtoms_ok hglobals hsc hvs) (hk.let_ hsc)
  | foreignCall lib sym as =>
      obtain ⟨vs, -, hm⟩ := bind_ok heval
      obtain ⟨v, hv, hm⟩ := bind_ok hm
      cases hm
      cases hcall : evalForeignCall lib sym vs with
      | error e => simp [hcall, liftError] at hv
      | ok w =>
          rw [hcall] at hv
          cases hv
          exact hbind (evalForeignCall_ok hcall)

theorem transition_ok {serial : Nat} {cfg : Config} {m : Move}
    (hstep : transition prims globals serial cfg = .ok m) (hglobals : I.GlobalsOk globals)
    (hresumes : ∀ v k, cfg.applied prims globals = some (v, k) → I.Resumes v k)
    (hok : I.ConfigOk cfg) : I.MoveOk m := by
  cases cfg with
  | apply f args k =>
      obtain ⟨hf, hargs, hk⟩ := hok
      exact enter_ok hstep hf hargs hk (hresumes f k rfl)
  | ret v k =>
      obtain ⟨hv, hk⟩ := hok
      cases k with
      | nil => cases hstep
      | cons fr k =>
          obtain ⟨hfr, hrest⟩ := hk.pop
          cases hfr with
          | let_ hsc =>
              cases hstep
              exact ⟨hsc.withEnv (bindBinder_ok hv hsc.env), hrest⟩
          | app hargs => exact enter_ok hstep hv hargs hrest (hresumes v k rfl)
          | handle hsc =>
              cases hstep
              exact ⟨hsc.withEnv (bindBinder_ok hv hsc.env), hrest⟩
  | eval e sc k =>
      obtain ⟨hsc, hk⟩ := hok
      cases e with
      | ret a =>
          obtain ⟨v, hv, hm⟩ := bind_ok hstep
          cases hm
          exact ⟨resolveAtom_ok hglobals hsc hv, hk⟩
      | let_ b rhs body => exact evalRhs_ok hstep hglobals hresumes hsc hk
      | letRec defs body =>
          cases hstep
          exact ⟨hsc.withEnv (recEnv_ok hsc.env), hk⟩
      | case_ a alts =>
          obtain ⟨v, hv, hm⟩ := bind_ok hstep
          obtain ⟨c, hmatch, hm⟩ := bind_ok hm
          cases hm
          exact matchAlts_ok hmatch (resolveAtom_ok hglobals hsc hv) hsc hk
      | letJoin j ps jbody body =>
          cases hstep
          exact ⟨hsc.bindJoin hsc hk, hk⟩
      | jump j args =>
          obtain ⟨vs, hvs, hm⟩ := bind_ok hstep
          split at hm
          · cases hm
          next jp hlookup =>
            split at hm
            · cases hm
            · cases hm
              obtain ⟨hscope, hkont⟩ := hsc.lookup hlookup
              have henv : I.EnvOk (bindBinders jp.params vs jp.scope.env) :=
                bindBinders_ok (resolveAtoms_ok hglobals hsc hvs) hscope.env
              exact ⟨(hscope.bindJoin hscope hkont).withEnv henv, hkont⟩
      | handle body h =>
          cases hstep
          exact ⟨selfScope_ok hsc, hk.install (selfScope_ok hsc)⟩
      | installHandler a self body =>
          obtain ⟨hv, hres, hm⟩ := bind_ok hstep
          split at hm
          next h env =>
            cases hm
            have henv : I.EnvOk env := by
              cases resolveAtom_ok hglobals hsc hres with | handler henv => exact henv
            exact ⟨selfScope_ok hsc, hk.install (hsc.withEnv henv)⟩
          · cases hm

/-! ### The scheduler -/

variable (I) in
def ParkedOk (p : Parked) : Prop := I.ValueOk p.resumeVal ∧ I.ValueOk p.carrier

variable (I) in
def CellOk : Cell → Prop
  | .pending waiters => ∀ w ∈ waiters, I.ValueOk w.2
  | .full v => I.ValueOk v

variable (I) in
structure ChanOk (ch : ChanState) : Prop where
  buffer : I.ValuesOk ch.buffer
  waiters : ∀ w ∈ ch.waiters, I.ValueOk w.2

variable (I) in
structure SchedOk (st : Sched) : Prop where
  ready : ∀ p ∈ st.ready, I.ParkedOk p
  cells : ∀ c ∈ st.cells, I.CellOk c.2
  chans : ∀ c ∈ st.chans, I.ChanOk c.2
  result : ∀ v, st.result = some v → I.ValueOk v

theorem transport_ok {v : Value} (h : I.ValueOk v) : I.ValueOk (transport v) :=
  .con (List.forall_mem_singleton.mpr h)

theorem unTransport_ok {v w : Value} (h : unTransport v = .ok w) (hv : I.ValueOk v) :
    I.ValueOk w := by
  unfold unTransport at h
  split at h
  · cases h
    exact dataPred.con.mp hv _ (List.mem_singleton_self _)
  · cases h

theorem putEntry_ok {α : Type} {P : α → Prop} {key : Int} {a : α} {m : List (Int × α)}
    (ha : P a) (hm : ∀ e ∈ m, P e.2) : ∀ e ∈ putEntry key a m, P e.2 :=
  List.forall_mem_cons.mpr ⟨ha, fun e he => hm e (List.mem_filter.mp he).1⟩

theorem enqueue_ok {p : Parked} {st : Sched} (hst : I.SchedOk st) (hp : I.ParkedOk p) :
    I.SchedOk (enqueue p st) :=
  { hst with
    ready := List.forall_mem_append.mpr ⟨hst.ready, List.forall_mem_singleton.mpr hp⟩ }

theorem mint_ok {st st' : Sched} {i : Int} (h : mint st = .ok (i, st'))
    (hst : I.SchedOk st) : I.SchedOk st' := by
  unfold mint at h
  split at h
  · cases h
  · cases h
    exact ⟨hst.ready, hst.cells, hst.chans, hst.result⟩

theorem fulfil_ok {pid : Int} {raw : Value} {st st' : Sched} (h : fulfil pid raw st = .ok st')
    (hraw : I.ValueOk raw) (hst : I.SchedOk st) : I.SchedOk st' := by
  obtain ⟨v, hv, h⟩ := bind_ok h
  obtain ⟨-, -, h⟩ := bind_ok h
  have hvok : I.ValueOk v := unTransport_ok hv hraw
  split at h
  next ws hcell =>
    cases h
    have hws : ∀ w ∈ ws, I.ValueOk w.2 := hst.cells _ (mem_of_lookup hcell)
    refine { hst with
      cells := putEntry_ok (P := I.CellOk) hvok hst.cells
      ready := List.forall_mem_append.mpr ⟨hst.ready, ?_⟩ }
    exact List.forall_mem_map.mpr fun w hw => ⟨transport_ok hvok, hws w hw⟩
  · cases h
  · cases h

variable (I) in
def FoldOk : Fold → Prop
  | .settled st => I.SchedOk st
  | .start st starter _ after => I.SchedOk st ∧ I.ValueOk starter ∧ I.ParkedOk after

theorem processRequest_ok {owner : Owner} {reqVal carrier : Value} {st : Sched} {fold : Fold}
    (h : processRequest owner reqVal carrier st = .ok fold) (hreq : I.ValueOk reqVal)
    (hcarrier : I.ValueOk carrier) (hst : I.SchedOk st) : I.FoldOk fold := by
  unfold processRequest at h
  split at h
  · cases h
    exact enqueue_ok hst ⟨transport_ok (.lit _), hcarrier⟩
  next starterT =>
    obtain ⟨⟨fid, st1⟩, hmint, h⟩ := bind_ok h
    obtain ⟨starter, hstarter, h⟩ := bind_ok h
    cases h
    exact ⟨mint_ok hmint hst,
      unTransport_ok hstarter (dataPred.con.mp hreq _ (List.mem_singleton_self _)),
      transport_ok (.lit _), hcarrier⟩
  next starterT =>
    obtain ⟨⟨pid, st1⟩, hmint, h⟩ := bind_ok h
    obtain ⟨starter, hstarter, h⟩ := bind_ok h
    cases h
    have hst1 := mint_ok hmint hst
    exact ⟨{ hst1 with cells := putEntry_ok (P := I.CellOk) (fun _ h => by cases h) hst1.cells },
      unTransport_ok hstarter (dataPred.con.mp hreq _ (List.mem_singleton_self _)),
      transport_ok (.lit _), hcarrier⟩
  next pid =>
    split at h
    next v hcell =>
      cases h
      have hv : I.ValueOk v := hst.cells _ (mem_of_lookup hcell)
      exact enqueue_ok hst ⟨transport_ok hv, hcarrier⟩
    next ws hcell =>
      cases h
      have hws : ∀ w ∈ ws, I.ValueOk w.2 := hst.cells _ (mem_of_lookup hcell)
      exact { hst with
        cells := putEntry_ok (P := I.CellOk)
          (List.forall_mem_append.mpr ⟨hws, List.forall_mem_singleton.mpr hcarrier⟩) hst.cells }
    · cases h
  · obtain ⟨⟨cid, st1⟩, hmint, h⟩ := bind_ok h
    cases h
    have hst1 := mint_ok hmint hst
    exact enqueue_ok
      { hst1 with chans := putEntry_ok (P := I.ChanOk) ⟨nofun, nofun⟩ hst1.chans }
      ⟨transport_ok (.lit _), hcarrier⟩
  next cid msg =>
    obtain ⟨v, hv, h⟩ := bind_ok h
    obtain ⟨-, -, h⟩ := bind_ok h
    have hvok : I.ValueOk v := unTransport_ok hv (dataPred.con.mp hreq msg (by simp))
    split at h
    next buf rOwner rCarrier restW hchan =>
      cases h
      have hch : I.ChanOk ⟨buf, (rOwner, rCarrier) :: restW⟩ := hst.chans _ (mem_of_lookup hchan)
      obtain ⟨hr, hrest⟩ := List.forall_mem_cons.mp hch.waiters
      exact enqueue_ok
        (enqueue_ok
          { hst with chans := putEntry_ok (P := I.ChanOk) ⟨hch.buffer, hrest⟩ hst.chans }
          ⟨transport_ok hvok, hr⟩)
        ⟨transport_ok (.lit _), hcarrier⟩
    next buf hchan =>
      cases h
      have hch : I.ChanOk ⟨buf, []⟩ := hst.chans _ (mem_of_lookup hchan)
      have hbuf : I.ValuesOk (buf ++ [v]) :=
        List.forall_mem_append.mpr ⟨hch.buffer, List.forall_mem_singleton.mpr hvok⟩
      exact enqueue_ok
        { hst with chans := putEntry_ok (P := I.ChanOk) ⟨hbuf, nofun⟩ hst.chans }
        ⟨transport_ok (.lit _), hcarrier⟩
    · cases h
  next cid =>
    split at h
    next v restB waiters hchan =>
      cases h
      have hch : I.ChanOk ⟨v :: restB, waiters⟩ := hst.chans _ (mem_of_lookup hchan)
      obtain ⟨hv, hrest⟩ := List.forall_mem_cons.mp hch.buffer
      exact enqueue_ok
        { hst with chans := putEntry_ok (P := I.ChanOk) ⟨hrest, hch.waiters⟩ hst.chans }
        ⟨transport_ok hv, hcarrier⟩
    next waiters hchan =>
      cases h
      have hch : I.ChanOk ⟨[], waiters⟩ := hst.chans _ (mem_of_lookup hchan)
      exact { hst with
        chans := putEntry_ok (P := I.ChanOk)
          ⟨nofun, List.forall_mem_append.mpr
            ⟨hch.waiters, List.forall_mem_singleton.mpr hcarrier⟩⟩ hst.chans }
    · cases h
  · cases h

theorem processStep_ok {owner : Owner} {step : Value} {st : Sched} {fold : Fold}
    (h : processStep owner step st = .ok fold) (hstep : I.ValueOk step) (hst : I.SchedOk st) :
    I.FoldOk fold := by
  unfold processStep at h
  split at h
  next r =>
    have hr : I.ValueOk r := dataPred.con.mp hstep r (List.mem_singleton_self r)
    split at h
    · cases h
      exact { hst with result := fun v hv => by cases hv; exact hr }
    · cases h
      exact hst
    · obtain ⟨st', hst', h⟩ := bind_ok h
      cases h
      exact fulfil_ok hst' hr hst
  next reqVal carrier =>
    have hfields := dataPred.con.mp hstep
    exact processRequest_ok h (hfields _ (by simp)) (hfields _ (by simp)) hst
  · cases h

/-! ### Runs -/

variable (I) in
def HostOk : HostFrame → Prop
  | .forcing _ saved _ => I.ConfigOk saved
  | .driving st _ pending extra k =>
      I.SchedOk st ∧ (∀ p ∈ pending, I.ParkedOk p) ∧ I.ValuesOk extra ∧ I.KontOk k

variable (I) in
structure StateOk (s : State) : Prop where
  cfg : I.ConfigOk s.cfg
  consts : ∀ e ∈ s.consts, I.ValueOk e.2
  host : ∀ fr ∈ s.host, I.HostOk fr

variable (I) in
/-- Each value the step applies may be resumed where it is applied. -/
def StepResumes (p : Program) (s : State) : Prop :=
  ∀ v k, s.cfg.applied p.prims (p.globals s.consts) = some (v, k) → I.Resumes v k

theorem globals_ok {p : Program} {consts : List (Unique × Value)}
    (h : ∀ e ∈ consts, I.ValueOk e.2) : I.GlobalsOk (p.globals consts) := by
  intro u v hv
  unfold Program.globals at hv
  split at hv
  · cases hv
  · split at hv
    · split at hv
      next w hlookup =>
        cases hv
        exact h _ (mem_of_lookup hlookup)
      · cases hv
    · cases hv
      exact .closure nofun

theorem unitApply_ok {f : Value} (hf : I.ValueOk f) : I.ConfigOk (.apply f [.lit .unit] []) :=
  ⟨hf, List.forall_mem_singleton.mpr (.lit _), .done⟩

theorem continueSched_ok {s s' : State} {st : Sched} {extra : List Value} {k : Kont}
    {rest : List HostFrame} (hcont : Program.continueSched s st extra k rest = .ok s')
    (hconsts : ∀ e ∈ s.consts, I.ValueOk e.2) (hst : I.SchedOk st) (hextra : I.ValuesOk extra)
    (hk : I.KontOk k) (hrest : ∀ fr ∈ rest, I.HostOk fr) : I.StateOk s' := by
  obtain ⟨next, hloop, hcont⟩ := bind_ok hcont
  unfold schedLoop at hloop
  split at hloop
  next r hresult =>
    cases hloop
    cases hcont
    refine ⟨?_, hconsts, hrest⟩
    have hr : I.ValueOk r := hst.result r hresult
    dsimp only
    split
    · exact ⟨hr, hk⟩
    · exact ⟨hr, hextra, hk⟩
  · split at hloop
    · split at hloop <;> cases hloop
    next p ready hready =>
      cases hloop
      cases hcont
      have hall := hst.ready
      rw [hready] at hall
      obtain ⟨hp, hready⟩ := List.forall_mem_cons.mp hall
      refine ⟨⟨hp.2, List.forall_mem_singleton.mpr hp.1, .done⟩, hconsts, ?_⟩
      exact List.forall_mem_cons.mpr
        ⟨⟨{ hst with ready := hready }, nofun, hextra, hk⟩, hrest⟩

theorem enqueueAll_ok {pending : List Parked} {st : Sched} (hst : I.SchedOk st)
    (hpending : ∀ p ∈ pending, I.ParkedOk p) :
    I.SchedOk (pending.foldl (fun q p => enqueue p q) st) := by
  induction pending generalizing st with
  | nil => exact hst
  | cons p pending ih =>
      obtain ⟨hp, hrest⟩ := List.forall_mem_cons.mp hpending
      exact ih (enqueue_ok hst hp) hrest

theorem finish_ok {s s' : State} {v : Value} {fr : HostFrame} {rest : List HostFrame}
    (hfinish : Program.finish s v fr rest = .ok s') (hv : I.ValueOk v)
    (hconsts : ∀ e ∈ s.consts, I.ValueOk e.2) (hfr : I.HostOk fr)
    (hrest : ∀ fr ∈ rest, I.HostOk fr) : I.StateOk s' := by
  cases fr with
  | forcing u saved nextId =>
      cases hfinish
      exact ⟨hfr, List.forall_mem_cons.mpr ⟨hv, hconsts⟩, hrest⟩
  | driving st owner pending extra k =>
      obtain ⟨hst, hpending, hextra, hk⟩ := hfr
      obtain ⟨fold, hfold, hfinish⟩ := bind_ok hfinish
      have hfoldOk := processStep_ok hfold hv { hst with }
      split at hfinish
      next st' =>
        exact continueSched_ok hfinish hconsts (enqueueAll_ok hfoldOk hpending) hextra hk hrest
      next st' starter owner' after =>
        obtain ⟨hst', hstarter, hafter⟩ := hfoldOk
        cases hfinish
        exact ⟨unitApply_ok hstarter, hconsts, List.forall_mem_cons.mpr
          ⟨⟨hst', List.forall_mem_cons.mpr ⟨hafter, hpending⟩, hextra, hk⟩, hrest⟩⟩

theorem forceConst_ok {p : Program} {s s' : State} {u : Unique}
    (hforce : p.forceConst s u = .ok s') (hs : I.StateOk s) : I.StateOk s' := by
  unfold Program.forceConst at hforce
  split at hforce
  · cases hforce
  · cases hforce
    exact ⟨⟨.bare nofun, .done⟩, hs.consts, List.forall_mem_cons.mpr ⟨hs.cfg, hs.host⟩⟩

theorem move_ok {s : State} {installed : Bool} {m : Move} (hm : I.MoveOk m)
    (hs : I.StateOk s) : I.StateOk (Program.move s installed m) := by
  cases m with
  | config c => exact ⟨hm, hs.consts, hs.host⟩
  | drive thunk extra k =>
      obtain ⟨hthunk, hextra, hk⟩ := hm
      refine ⟨unitApply_ok hthunk, hs.consts, List.forall_mem_cons.mpr ⟨⟨?_, ?_⟩, hs.host⟩⟩
      · exact ⟨nofun, nofun, nofun, nofun⟩
      · exact ⟨nofun, hextra, hk⟩

/-- The invariant is kept by every step whose resumption, if it is one, keeps the
property. -/
theorem step_preserves (p : Program) : p.system.Preserves (I.StepResumes p) I.StateOk := by
  intro s s' hs hresumes hstep
  simp only [Program.system, Program.systemBy, Program.stepBy] at hstep
  split at hstep
  · cases hstep
  next v fr rest hcfg hhost =>
    have hcfgOk := hs.cfg
    have hframes := hs.host
    rw [hcfg] at hcfgOk
    rw [hhost] at hframes
    obtain ⟨hfr, hrest⟩ := List.forall_mem_cons.mp hframes
    split at hstep
    next s'' hfinish =>
      cases hstep
      exact finish_ok hfinish hcfgOk.1 hs.consts hfr hrest
    · cases hstep
  · split at hstep
    next m htrans =>
      cases hstep
      exact move_ok (transition_ok htrans (globals_ok hs.consts) hresumes hs.cfg) hs
    next u htrans =>
      split at hstep
      next s'' hforce =>
        cases hstep
        exact forceConst_ok hforce hs
      · cases hstep
    · cases hstep

theorem initial_ok {p : Program} {s : State} (h : p.initial = .ok s) : I.StateOk s := by
  unfold Program.initial at h
  split at h
  · cases h
  · split at h
    · cases h
      exact ⟨⟨.bare nofun, .done⟩, nofun, nofun⟩
    · cases h
    · cases h

/-- The continuation a reachable state runs under has the property. -/
theorem holds_of_reach {p : Program} {s₀ s : State} (hinit : p.initial = .ok s₀)
    (hreach : p.system.Reach (I.StepResumes p) s₀ s) : I.holds s.cfg.kont := by
  have hs : I.StateOk s := hreach.invariant (step_preserves p) (initial_ok hinit)
  have hcfg := hs.cfg
  cases hkont : s.cfg with
  | eval e sc k =>
      rw [hkont] at hcfg
      exact hcfg.2.holds
  | ret v k =>
      rw [hkont] at hcfg
      exact hcfg.2.holds
  | apply f args k =>
      rw [hkont] at hcfg
      exact hcfg.2.2.holds

end KontInv

end Wok.Proofs
