/-
Module: Wok.Proofs.TailJump
Layer: Proofs
Purpose: When the interpreter's jumps are tail calls. A join stores the
  continuation of its binding; resuming a captured continuation builds another
  one, and only the handler's own answer join is rebound to it.
Imports: Wok.Spec.TailJump, Wok.Interp.Prim
Trusted boundary: none
Main exports: joinsStayLocal, JoinsOk, KontOk, StateOk
-/
import Wok.Spec.TailJump
import Wok.Interp.Prim

namespace Wok.Proofs.TailJump

open Wok.IR Wok.Interp Wok.Spec
open Wok.Lib (System)

/-! ### The condition on a step -/

/-- The code in the frame jumps to no join bound outside it. -/
def jumpFree : Frame → Bool
  | .let_ _ body _ => body.freeJumps.isEmpty
  | .app _ => true
  | .handle h _ _ => h.freeJumps.isEmpty

/-- Every join outside the handler that its arms jump to is its answer join, with
a parameter, so that re-installing the handler rebinds it. -/
def answersOnly (h : Handler) (sc : Scope) : Bool :=
  h.freeJumps.all fun j =>
    match sc.joins.lookup j with
    | none => true
    | some jp => h.answerJoin == some j && !jp.params.isEmpty

/-- A captured continuation that mentions no join bound outside its frames. -/
def resumesLocally : Value → Bool
  | .cont above h _ sc => above.all jumpFree && answersOnly h sc
  | .contP _ above h _ sc => above.all jumpFree && answersOnly h sc
  | _ => true

/-- The step resumes no continuation whose frames jump to a join bound outside
them, and installs no handler over a body, or a handler value with arms, that
does. -/
def joinsStayLocal (p : Program) (s : State) : Bool :=
  (match s.cfg.applied p.prims (p.globals s.consts) with
    | some (v, _) => resumesLocally v
    | none => true) &&
  match s.cfg with
  | .eval (.handle body _) _ _ => body.freeJumps.isEmpty
  | .eval (.installHandler a _ body) sc _ =>
      body.freeJumps.isEmpty &&
        match resolveAtom p.prims (p.globals s.consts) sc a with
        | .ok (.handler h _) => h.freeJumps.isEmpty
        | _ => true
  | _ => true

/-! ### The invariant -/

/-- The joins of `js` that are in scope store the continuation `k`, and so do the
joins their bodies jump to. -/
inductive JoinsOk : List JoinId → JoinEnv → Kont → Prop where
  | intro {js : List JoinId} {joins : JoinEnv} {k : Kont}
      (current : ∀ j ∈ js, ∀ jp, joins.lookup j = some jp → jp.kont = k)
      (inner : ∀ j ∈ js, ∀ jp, joins.lookup j = some jp →
        JoinsOk (jp.body.freeJumps.filter (· ≠ j)) jp.scope.joins k) :
      JoinsOk js joins k

/-- The code of every frame jumps only to joins that store the frame's own
continuation. -/
inductive KontOk : Kont → Prop where
  | done : KontOk []
  | let_ {b : Binder} {body : Expr} {sc : Scope} {k : Kont}
      (joins : JoinsOk body.freeJumps sc.joins k) (rest : KontOk k) :
      KontOk (.let_ b body sc :: k)
  | app {args : List Value} {k : Kont} (rest : KontOk k) : KontOk (.app args :: k)
  | handle {h : Handler} {act : Activation} {sc : Scope} {k : Kont}
      (joins : JoinsOk h.freeJumps sc.joins k) (rest : KontOk k) :
      KontOk (.handle h act sc :: k)

def ConfigOk : Config → Prop
  | .eval e sc k => JoinsOk e.freeJumps sc.joins k ∧ KontOk k
  | .ret _ k => KontOk k
  | .apply _ _ k => KontOk k

def MoveOk : Move → Prop
  | .config c => ConfigOk c
  | .drive _ _ k => KontOk k

def HostOk : HostFrame → Prop
  | .forcing _ saved _ => ConfigOk saved
  | .driving _ _ _ _ k => KontOk k

def StateOk (s : State) : Prop :=
  ConfigOk s.cfg ∧ ∀ fr ∈ s.host, HostOk fr

/-! ### Joins in scope -/

namespace JoinsOk

variable {js : List JoinId} {joins : JoinEnv} {k : Kont}

theorem mono {js' : List JoinId} (h : JoinsOk js joins k) (hsub : js' ⊆ js) :
    JoinsOk js' joins k := by
  obtain ⟨current, inner⟩ := h
  exact ⟨fun j hj => current j (hsub hj), fun j hj => inner j (hsub hj)⟩

/-- Joins that are not in scope store nothing. -/
theorem of_unbound (h : ∀ j ∈ js, joins.lookup j = none) : JoinsOk js joins k :=
  ⟨fun j hj jp hlookup => by simp [h j hj] at hlookup,
    fun j hj jp hlookup => by simp [h j hj] at hlookup⟩

theorem nil : JoinsOk [] joins k :=
  of_unbound fun _ hj => by cases hj

/-- A fresh call starts with no join in scope. -/
theorem noJoins : JoinsOk js [] k :=
  of_unbound fun _ _ => rfl

/-- Bind a join whose body is fine where it is bound. -/
theorem bind {j : JoinId} {jp : JoinPoint} (hk : jp.kont = k)
    (hbody : JoinsOk (jp.body.freeJumps.filter (· ≠ j)) jp.scope.joins k)
    (hrest : JoinsOk (js.filter (· ≠ j)) joins k) :
    JoinsOk js ((j, jp) :: joins) k := by
  obtain ⟨current, inner⟩ := hrest
  constructor
  · intro i hi ip hlookup
    by_cases hij : i = j
    · subst hij
      simp only [List.lookup_cons, beq_self_eq_true, Option.some.injEq] at hlookup
      exact hlookup ▸ hk
    · have hbeq : (i == j) = false := by simpa using hij
      simp only [List.lookup_cons, hbeq] at hlookup
      exact current i (by simp [hi, hij]) ip hlookup
  · intro i hi ip hlookup
    by_cases hij : i = j
    · subst hij
      simp only [List.lookup_cons, beq_self_eq_true, Option.some.injEq] at hlookup
      exact hlookup ▸ hbody
    · have hbeq : (i == j) = false := by simpa using hij
      simp only [List.lookup_cons, hbeq] at hlookup
      exact inner i (by simp [hi, hij]) ip hlookup

/-- The scope a join's body runs in. -/
theorem jumpScope {j : JoinId} {jp : JoinPoint} (h : JoinsOk js joins k) (hj : j ∈ js)
    (hlookup : joins.lookup j = some jp) :
    JoinsOk jp.body.freeJumps ((j, jp) :: jp.scope.joins) k := by
  obtain ⟨current, inner⟩ := h
  exact bind (current j hj jp hlookup) (inner j hj jp hlookup) (inner j hj jp hlookup)

end JoinsOk

theorem joinsOk_of_isEmpty {js : List JoinId} {joins : JoinEnv} {k : Kont}
    (h : js.isEmpty = true) : JoinsOk js joins k := by
  rw [List.isEmpty_iff.mp h]
  exact .nil

theorem answersOnly_lookup {h : Handler} {sc : Scope} (hans : answersOnly h sc = true)
    {j : JoinId} (hj : j ∈ h.freeJumps) {jp : JoinPoint}
    (hlookup : sc.joins.lookup j = some jp) :
    h.answerJoin = some j ∧ jp.params ≠ [] := by
  have := List.all_eq_true.mp hans j hj
  simpa [hlookup] using this

/-- Re-installing a handler whose arms answer only to its answer join leaves the
arms with joins that store the resume site. -/
theorem answerRebind_joinsOk {h : Handler} {sc : Scope} (after : Kont)
    (hans : answersOnly h sc = true) :
    JoinsOk h.freeJumps (answerRebind h after sc).joins after := by
  unfold answerRebind
  split
  next hanswer =>
    refine .of_unbound fun j hj => Option.eq_none_iff_forall_not_mem.mpr fun jp hlookup => ?_
    have := (answersOnly_lookup hans hj hlookup).1
    simp [hanswer] at this
  next j hanswer =>
    -- No other join in scope is jumped to.
    have hother : ∀ i ∈ h.freeJumps, i ≠ j → sc.joins.lookup i = none := by
      intro i hi hij
      refine Option.eq_none_iff_forall_not_mem.mpr fun jp hlookup => ?_
      have := (answersOnly_lookup hans hi hlookup).1
      rw [hanswer] at this
      exact hij (Option.some.inj this).symm
    split
    next hunbound =>
      refine .of_unbound fun i hi => ?_
      by_cases hij : i = j
      · exact hij ▸ hunbound
      · exact hother i hi hij
    next jp hbound =>
      split
      next hparams =>
        refine .of_unbound fun i hi => ?_
        by_cases hij : i = j
        · subst hij
          exact absurd hparams (answersOnly_lookup hans hi hbound).2
        · exact hother i hi hij
      next pb0 rest hparams =>
        refine .bind rfl (.nil) (.of_unbound fun i hi => ?_)
        simp only [List.mem_filter, decide_eq_true_eq] at hi
        exact hother i hi.1 hi.2

/-! ### Continuations -/

/-- Frames that mention no outer join may stand on any continuation. -/
theorem kontOk_append {above : List Frame} {k : Kont} (habove : above.all jumpFree = true)
    (hk : KontOk k) : KontOk (above ++ k) := by
  induction above with
  | nil => exact hk
  | cons fr above ih =>
      simp only [List.all_cons, Bool.and_eq_true] at habove
      have hrest := ih habove.2
      cases fr with
      | let_ b body sc => exact .let_ (joinsOk_of_isEmpty habove.1) hrest
      | app args => exact .app hrest
      | handle h act sc => exact .handle (joinsOk_of_isEmpty habove.1) hrest

theorem resumeKont_ok {above : List Frame} {h : Handler} {act : Activation} {sc : Scope}
    {after : Kont} (hlocal : resumesLocally (.cont above h act sc) = true)
    (hafter : KontOk after) : KontOk (resumeKont above h act sc after) := by
  simp only [resumesLocally, Bool.and_eq_true] at hlocal
  exact kontOk_append hlocal.1 (.handle (answerRebind_joinsOk after hlocal.2) hafter)

theorem resumeKontP_ok {pb : Binder} {newParam : Value} {above : List Frame} {h : Handler}
    {act : Activation} {sc : Scope} {after : Kont}
    (hlocal : resumesLocally (.contP pb above h act sc) = true) (hafter : KontOk after) :
    KontOk (resumeKontP pb newParam above h act sc after) := by
  simp only [resumesLocally, Bool.and_eq_true] at hlocal
  exact kontOk_append hlocal.1 (.handle (answerRebind_joinsOk after hlocal.2) hafter)

/-- The handler that is found, and the continuation below it. -/
theorem findHandler_ok {target : Target} {label op : String} {k : Kont} {f : Found}
    (hfind : findHandler target label op k = some f) (hk : KontOk k) :
    JoinsOk f.h.freeJumps f.sc.joins f.below ∧ KontOk f.below := by
  induction k generalizing f with
  | nil => simp [findHandler] at hfind
  | cons fr k ih =>
      cases hk with
      | let_ joins rest =>
          simp only [findHandler, Option.map_eq_some_iff] at hfind
          obtain ⟨f', hf', rfl⟩ := hfind
          exact ih (f := f') hf' rest
      | app rest =>
          simp only [findHandler, Option.map_eq_some_iff] at hfind
          obtain ⟨f', hf', rfl⟩ := hfind
          exact ih (f := f') hf' rest
      | handle joins rest =>
          simp only [findHandler] at hfind
          split at hfind
          · cases hfind
            exact ⟨joins, rest⟩
          · simp only [Option.map_eq_some_iff] at hfind
            obtain ⟨f', hf', rfl⟩ := hfind
            exact ih (f := f') hf' rest

/-! ### Steps -/

theorem enter_ok {prims : PrimTable} {f : Value} {args : List Value} {k : Kont} {m : Move}
    (henter : enter prims f args k = .ok m) (hlocal : resumesLocally f = true)
    (hk : KontOk k) : MoveOk m := by
  cases f with
  | closure env defs ps body =>
      simp only [enter] at henter
      split at henter
      · cases henter
        exact ⟨.noJoins, hk⟩
      · split at henter
        · cases henter
          exact hk
        · cases henter
          exact ⟨.noJoins, .app hk⟩
  | prim m name held =>
      simp only [enter] at henter
      split at henter
      · cases henter
      · split at henter
        · cases henter
          exact hk
        · split at henter
          · cases henter
          · split at henter <;> cases henter <;> exact hk
          · cases henter
            exact hk
          · cases henter
            exact hk
  | cont above h act sc =>
      simp only [enter] at henter
      split at henter
      · cases henter
        exact resumeKont_ok hlocal hk
      · cases henter
  | contP pb above h act sc =>
      simp only [enter] at henter
      split at henter
      · cases henter
        exact resumeKontP_ok hlocal hk
      · cases henter
  | lit | con | record | inst | bytes | handler => cases henter

theorem matchAlts_ok {v : Value} {sc : Scope} {k : Kont} {alts : List Alt} {c : Config}
    (hmatch : matchAlts v sc k alts = .ok c)
    (hjoins : JoinsOk (altsFreeJumps alts) sc.joins k) (hk : KontOk k) : ConfigOk c := by
  induction alts with
  | nil => cases hmatch
  | cons alt alts ih =>
      simp only [altsFreeJumps] at hjoins
      have hhead : JoinsOk alt.freeJumps sc.joins k :=
        hjoins.mono (List.subset_append_left ..)
      have htail (hrest : matchAlts v sc k alts = .ok c) : ConfigOk c :=
        ih hrest (hjoins.mono (List.subset_append_right ..))
      cases alt with
      | con tag bs e =>
          simp only [matchAlts] at hmatch
          split at hmatch
          · split at hmatch
            · cases hmatch
              exact ⟨hhead, hk⟩
            · exact htail hmatch
          · exact htail hmatch
      | lit l e =>
          simp only [matchAlts] at hmatch
          split at hmatch
          · split at hmatch
            · cases hmatch
              exact ⟨hhead, hk⟩
            · exact htail hmatch
          · exact htail hmatch
      | default e =>
          cases hmatch
          exact ⟨hhead, hk⟩

theorem dispatchOp_ok {target : Target} {label op : String} {vs : List Value} {k : Kont}
    {c : Config} (hdispatch : dispatchOp target label op vs k = .ok c) (hk : KontOk k) :
    ConfigOk c := by
  simp only [dispatchOp] at hdispatch
  split at hdispatch
  · cases hdispatch
  next f hfind =>
    split at hdispatch
    · cases hdispatch
    next arm harm =>
      cases hdispatch
      obtain ⟨hjoins, hbelow⟩ := findHandler_ok hfind hk
      have hmem : arm ∈ f.h.ops := List.mem_of_find?_eq_some harm
      exact ⟨hjoins.mono (Handler.arm_freeJumps_subset hmem), hbelow⟩

theorem evalRhs_ok {prims : PrimTable} {globals : Globals} {b : Binder} {rhs : Rhs}
    {body : Expr} {sc : Scope} {k : Kont} {m : Move}
    (heval : evalRhs prims globals b rhs body sc k = .ok m)
    (hlocal : ∀ v k', Config.applied prims globals (.eval (.let_ b rhs body) sc k) = some (v, k') →
      resumesLocally v = true)
    (hjoins : JoinsOk body.freeJumps sc.joins k) (hk : KontOk k) : MoveOk m := by
  cases rhs with
  | atom a =>
      obtain ⟨v, -, hm⟩ := bind_ok heval
      cases hm
      exact ⟨hjoins, hk⟩
  | con c as =>
      obtain ⟨vs, -, hm⟩ := bind_ok heval
      cases hm
      exact ⟨hjoins, hk⟩
  | lam ps e =>
      cases heval
      exact ⟨hjoins, hk⟩
  | record t fields =>
      obtain ⟨vs, -, hm⟩ := bind_ok heval
      cases hm
      exact ⟨hjoins, hk⟩
  | makeHandler h =>
      cases heval
      exact ⟨hjoins, hk⟩
  | proj l a =>
      obtain ⟨v, -, hm⟩ := bind_ok heval
      split at hm
      · split at hm
        · cases hm
          exact ⟨hjoins, hk⟩
        · cases hm
      · cases hm
  | reuseCon tok c as => cases heval
  | app f as =>
      obtain ⟨fv, hf, hm⟩ := bind_ok heval
      obtain ⟨vs, -, hm⟩ := bind_ok hm
      have happlied : Config.applied prims globals (.eval (.let_ b (.app f as) body) sc k) =
          some (fv, .let_ b body sc :: k) := by
        simp only [Config.applied, hf]
      exact enter_ok hm (hlocal fv _ happlied) (.let_ hjoins hk)
  | op inst label op as =>
      obtain ⟨vs, -, hm⟩ := bind_ok heval
      obtain ⟨target, -, hm⟩ := bind_ok hm
      obtain ⟨c, hdispatch, hm⟩ := bind_ok hm
      cases hm
      exact dispatchOp_ok hdispatch (.let_ hjoins hk)
  | foreignCall lib sym as =>
      obtain ⟨vs, -, hm⟩ := bind_ok heval
      obtain ⟨v, -, hm⟩ := bind_ok hm
      cases hm
      exact ⟨hjoins, hk⟩

/-- A program state whose step the condition is about. -/
theorem transition_ok {p : Program} {s : State} {m : Move} (hlocal : joinsStayLocal p s = true)
    (hok : ConfigOk s.cfg)
    (hstep : transition p.prims (p.globals s.consts) s.installs s.cfg = .ok m) : MoveOk m := by
  simp only [joinsStayLocal, Bool.and_eq_true] at hlocal
  obtain ⟨hresume, hinstall⟩ := hlocal
  have happlied : ∀ v k, s.cfg.applied p.prims (p.globals s.consts) = some (v, k) →
      resumesLocally v = true := by
    intro v k hv
    simpa only [hv] using hresume
  generalize s.cfg = cfg at *
  generalize p.globals s.consts = globals at *
  cases cfg with
  | apply f args k => exact enter_ok hstep (happlied f k rfl) hok
  | ret v k =>
      cases hok with
      | done => cases hstep
      | let_ joins rest =>
          cases hstep
          exact ⟨joins, rest⟩
      | app rest => exact enter_ok hstep (happlied v _ rfl) rest
      | handle joins rest =>
          cases hstep
          exact ⟨joins.mono (Handler.ret_freeJumps_subset _), rest⟩
  | eval e sc k =>
      obtain ⟨hjoins, hk⟩ := hok
      cases e with
      | ret a =>
          obtain ⟨v, -, hm⟩ := bind_ok hstep
          cases hm
          exact hk
      | let_ b rhs body => exact evalRhs_ok hstep happlied hjoins hk
      | letRec defs body =>
          cases hstep
          exact ⟨hjoins, hk⟩
      | case_ a alts =>
          obtain ⟨v, -, hm⟩ := bind_ok hstep
          obtain ⟨c, hmatch, hm⟩ := bind_ok hm
          cases hm
          exact matchAlts_ok hmatch hjoins hk
      | letJoin j ps jbody body =>
          cases hstep
          refine ⟨.bind rfl (hjoins.mono ?_) (hjoins.mono ?_), hk⟩
          · intro i hi
            simp only [Expr.freeJumps, List.filter_append]
            exact List.mem_append_left _ hi
          · intro i hi
            simp only [Expr.freeJumps, List.filter_append]
            exact List.mem_append_right _ hi
      | jump j args =>
          obtain ⟨vs, -, hm⟩ := bind_ok hstep
          split at hm
          · cases hm
          next jp hlookup =>
            split at hm
            · cases hm
            · cases hm
              obtain ⟨current, -⟩ := id hjoins
              have hj : j ∈ (Expr.jump j args).freeJumps := List.mem_singleton_self j
              rw [MoveOk, ConfigOk, current j hj jp hlookup]
              exact ⟨hjoins.jumpScope hj hlookup, hk⟩
      | handle body h =>
          cases hstep
          refine ⟨joinsOk_of_isEmpty hinstall, .handle ?_ hk⟩
          rw [selfScope_joins]
          exact hjoins.mono (List.subset_append_right ..)
      | installHandler a self body =>
          obtain ⟨hv, hres, hm⟩ := bind_ok hstep
          simp only [hres, Bool.and_eq_true] at hinstall
          split at hm
          next h env =>
            cases hm
            refine ⟨joinsOk_of_isEmpty hinstall.1, .handle (joinsOk_of_isEmpty ?_) hk⟩
            cases self with
            | none => exact hinstall.2
            | some sb => simpa only [Handler.freeJumps_self] using hinstall.2
          · cases hm

/-! ### Runs -/

theorem continueSched_ok {s s' : State} {st : Sched} {extra : List Value} {k : Kont}
    {rest : List HostFrame} (hcont : Program.continueSched s st extra k rest = .ok s')
    (hk : KontOk k) (hrest : ∀ fr ∈ rest, HostOk fr) : StateOk s' := by
  simp only [Program.continueSched] at hcont
  cases hloop : schedLoop st with
  | error e =>
      rw [hloop] at hcont
      cases hcont
  | ok next =>
      rw [hloop] at hcont
      cases next with
      | finished r nextId =>
          cases hcont
          refine ⟨?_, hrest⟩
          dsimp only
          split
          · exact hk
          · exact hk
      | resume p st' =>
          cases hcont
          exact ⟨.done, List.forall_mem_cons.mpr ⟨hk, hrest⟩⟩

theorem finish_ok {s s' : State} {v : Value} {fr : HostFrame} {rest : List HostFrame}
    (hfinish : Program.finish s v fr rest = .ok s') (hfr : HostOk fr)
    (hrest : ∀ fr ∈ rest, HostOk fr) : StateOk s' := by
  cases fr with
  | forcing u saved nextId =>
      cases hfinish
      exact ⟨hfr, hrest⟩
  | driving st owner pending extra k =>
      simp only [Program.finish] at hfinish
      cases hfold : processStep owner v { st with nextId := s.nextId } with
      | error e =>
          rw [hfold] at hfinish
          cases hfinish
      | ok fold =>
          rw [hfold] at hfinish
          cases fold with
          | settled st' => exact continueSched_ok hfinish hfr hrest
          | start st' starter owner' after =>
              cases hfinish
              exact ⟨.done, List.forall_mem_cons.mpr ⟨hfr, hrest⟩⟩

theorem forceConst_ok {p : Program} {s s' : State} {u : Unique}
    (hforce : p.forceConst s u = .ok s') (hs : StateOk s) : StateOk s' := by
  simp only [Program.forceConst] at hforce
  split at hforce
  · cases hforce
  · cases hforce
    exact ⟨⟨.noJoins, .done⟩, List.forall_mem_cons.mpr ⟨hs.1, hs.2⟩⟩

theorem move_ok {s : State} {installed : Bool} {m : Move} (hm : MoveOk m)
    (hhost : ∀ fr ∈ s.host, HostOk fr) : StateOk (Program.move s installed m) := by
  cases m with
  | config c => exact ⟨hm, hhost⟩
  | drive thunk extra k => exact ⟨.done, List.forall_mem_cons.mpr ⟨hm, hhost⟩⟩

/-- The invariant is kept by every step that meets the condition. -/
theorem step_preserves (p : Program) :
    p.system.Preserves (fun s => joinsStayLocal p s = true) StateOk := by
  intro s s' hs hlocal hstep
  simp only [Program.system, Program.systemBy, Program.stepBy] at hstep
  split at hstep
  · cases hstep
  next v fr rest hcfg hhost =>
    split at hstep
    next s'' hfinish =>
      cases hstep
      have hframes := hs.2
      rw [hhost] at hframes
      exact finish_ok hfinish (hframes fr (List.mem_cons_self ..))
        fun fr' hfr' => hframes fr' (List.mem_cons_of_mem _ hfr')
    · cases hstep
  · split at hstep
    next m htrans =>
      cases hstep
      exact move_ok (transition_ok hlocal hs.1 htrans) hs.2
    next u htrans =>
      split at hstep
      next s'' hforce =>
        cases hstep
        exact forceConst_ok hforce hs
      · cases hstep
    · cases hstep

theorem initial_ok {p : Program} {s : State} (h : p.initial = .ok s) : StateOk s := by
  simp only [Program.initial] at h
  split at h
  · cases h
  · split at h
    · cases h
      exact ⟨⟨.noJoins, .done⟩, fun _ hfr => by cases hfr⟩
    · cases h
    · cases h

/-! ### Jumps -/

/-- A jump about to be taken goes to a join that stores the current continuation. -/
def JumpCurrent (s : State) : Prop :=
  ∀ j args sc k, s.cfg = .eval (.jump j args) sc k →
    ∀ jp, sc.joins.lookup j = some jp → jp.kont = k

theorem jumpCurrent_of_ok {s : State} (hs : StateOk s) : JumpCurrent s := by
  intro j args sc k hcfg jp hlookup
  have hok := hs.1
  rw [hcfg] at hok
  obtain ⟨current, -⟩ := hok.1
  exact current j (List.mem_singleton_self j) jp hlookup

/-- A jump to a join that stores the current continuation is a tail call. -/
theorem transition_eq_tail {prims : PrimTable} {globals : Globals} {serial : Nat}
    {cfg : Config}
    (hcurrent : ∀ j args sc k, cfg = .eval (.jump j args) sc k →
      ∀ jp, sc.joins.lookup j = some jp → jp.kont = k) :
    transition prims globals serial cfg = transitionTail prims globals serial cfg := by
  unfold transitionTail
  split
  next j args sc k =>
    simp only [transition, evalExpr, jumpTail]
    cases hlookup : sc.joins.lookup j with
    | none => rfl
    | some jp =>
        have hk : jp.kont = k := hcurrent j args sc k rfl jp hlookup
        simp only [hk]
  · rfl

theorem step_eq_tail {p : Program} {s : State} (hs : StateOk s) :
    p.system.step s = p.systemTail.step s := by
  have htrans : transition p.prims (p.globals s.consts) s.installs s.cfg =
      transitionTail p.prims (p.globals s.consts) s.installs s.cfg :=
    transition_eq_tail (jumpCurrent_of_ok hs)
  simp only [Program.system, Program.systemTail, Program.systemBy, Program.stepBy]
  split
  · rfl
  · rfl
  · rw [htrans]

private def plus : Atom := .prim "Base" "+"

/-- `op k -> let a = k True in a + 100`, with the identity return arm. -/
def addHandler : Handler where
  retBinder := Binder.u64 "v" 10
  retBody := .ret (Atom.local "v" 10)
  ops := [{
    label := "E"
    op := "op"
    args := []
    resume := Binder.u64 "k" 11
    body := .let_ (Binder.u64 "t" 12) (.con "True" []) <|
      .let_ (Binder.u64 "a" 13) (.app (Atom.local "k" 11) [Atom.local "t" 12]) <|
      .let_ (Binder.u64 "b" 14) (.app plus [Atom.local "a" 13, Atom.int 100]) <|
      .ret (Atom.local "b" 14) }]
  answerJoin := none
  param := none
  self := none

/-- The merge join of an `if`: `x + 10`. -/
def mergeBody : Expr :=
  .let_ (Binder.u64 "y" 2) (.app plus [Atom.local "x" 1, Atom.int 10]) (.ret (Atom.local "y" 2))

def branches : List Alt :=
  [.con "True" [] (.jump ⟨⟨20⟩⟩ [Atom.int 1]), .con "False" [] (.jump ⟨⟨20⟩⟩ [Atom.int 2])]

/-- `let x = if op () then 1 else 2 in x + 10` under `addHandler`, as it is
elaborated: the merge join is bound before the operation. -/
def resumedIf : Expr :=
  .handle
    (.letJoin ⟨⟨20⟩⟩ [Binder.u64 "x" 1] mergeBody
      (.let_ (Binder.u64 "c" 3) (.op none "E" "op" []) (.case_ (Atom.local "c" 3) branches)))
    addHandler

/-- `let c = op () in let x = if c then 1 else 2 in x + 10`: the operation comes
before the merge join is bound. -/
def namedIf : Expr :=
  .handle
    (.let_ (Binder.u64 "c" 3) (.op none "E" "op" [])
      (.letJoin ⟨⟨20⟩⟩ [Binder.u64 "x" 1] mergeBody (.case_ (Atom.local "c" 3) branches)))
    addHandler

end Wok.Proofs.TailJump
