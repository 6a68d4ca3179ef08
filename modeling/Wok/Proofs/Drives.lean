/-
Module: Wok.Proofs.Drives
Purpose: Each scheduler of a program's run, nested ones and those of constants included,
  is in a run of its own, and keeps order there.
Imports: Wok.Interp.Prim, Wok.Proofs.Sched
Trusted boundary: none
Main exports: Moves, logged_moves, Aligned, schedulers_orderly
-/
import Wok.Interp.Prim
import Wok.Proofs.Sched

namespace Wok.Interp

open Wok.IR
open Wok.Lib (System)

/-! ### The steps of a program -/

/-- What a step of a program does to its schedulers, its constants and its supply, and what
it adds to the log. -/
inductive Moves (p : Program) (s : State) : State → (Log → Log) → Prop where
  | inside {c : Config} {installs : Nat} :
      Moves p s { s with cfg := c, installs := installs } id
  | opens {thunk : Value} {extra : List Value} {k : Kont} :
      Moves p s { s with
        cfg := .apply thunk [.lit .unit] []
        host := .driving ⟨s.nextId, [], [], [], none⟩ .root [] extra k :: s.host } .opened
  | demands {u : Unique} {tb : TopBind}
      (htrans : transition p.prims (p.globals s.consts) s.installs s.cfg = .error (.force u)) :
      Moves p s { s with
        cfg := .eval tb.body emptyScope []
        nextId := p.cafSeed u
        host := .forcing u s.cfg s.nextId :: s.host } id
  | forced {u : Unique} {v : Value} {saved : Config} {n : Int} {rest : List HostFrame}
      (hhost : s.host = .forcing u saved n :: rest) :
      Moves p s { s with cfg := saved, nextId := n, consts := (u, v) :: s.consts, host := rest } id
  | resumes {v : Value} {d d' : Drive} {q : Parked} {extra : List Value} {k : Kont}
      {rest : List HostFrame}
      (hhost : s.host = .driving d.st d.owner d.pending extra k :: rest)
      (hnext : d.next v s.nextId = .ok (.resumed q d')) :
      Moves p s { s with
        cfg := .apply q.carrier [q.resumeVal] []
        nextId := d'.st.nextId
        host := .driving d'.st d'.owner d'.pending extra k :: rest }
        fun l => l.folded d v s.nextId
  | starts {v : Value} {d d' : Drive} {starter : Value} {extra : List Value} {k : Kont}
      {rest : List HostFrame}
      (hhost : s.host = .driving d.st d.owner d.pending extra k :: rest)
      (hnext : d.next v s.nextId = .ok (.started starter d')) :
      Moves p s { s with
        cfg := .apply starter [.lit .unit] []
        nextId := d'.st.nextId
        host := .driving d'.st d'.owner d'.pending extra k :: rest }
        fun l => l.folded d v s.nextId
  | closes {v r : Value} {d : Drive} {n : Int} {c : Config} {extra : List Value} {k : Kont}
      {rest : List HostFrame}
      (hhost : s.host = .driving d.st d.owner d.pending extra k :: rest)
      (hnext : d.next v s.nextId = .ok (.finished r n)) :
      Moves p s { s with cfg := c, nextId := n, host := rest } fun l => l.folded d v s.nextId

/-- How a program goes on when the coroutine that runs has come to a step. -/
def Drive.Outcome.goesOn (s : State) (extra : List Value) (k : Kont) (rest : List HostFrame) :
    Drive.Outcome → State
  | .resumed q d' =>
      { s with
        cfg := .apply q.carrier [q.resumeVal] []
        nextId := d'.st.nextId
        host := .driving d'.st d'.owner d'.pending extra k :: rest }
  | .started starter d' =>
      { s with
        cfg := .apply starter [.lit .unit] []
        nextId := d'.st.nextId
        host := .driving d'.st d'.owner d'.pending extra k :: rest }
  | .finished r n =>
      { s with
        cfg := if extra.isEmpty then .ret r k else .apply r extra k
        nextId := n
        host := rest }

theorem finish_driving (s : State) (v : Value) (d : Drive) (extra : List Value) (k : Kont)
    (rest : List HostFrame) :
    Program.finish s v (.driving d.st d.owner d.pending extra k) rest =
      (d.next v s.nextId).map (Drive.Outcome.goesOn s extra k rest) := by
  simp only [Program.finish, Drive.next]
  cases processStep d.owner v { d.st with nextId := s.nextId } with
  | error e => rfl
  | ok fold =>
      cases fold with
      | start st' starter owner' after => rfl
      | settled st' =>
          simp only [Program.continueSched, bind, Except.bind]
          cases schedLoop (d.pending.foldl (fun q p => enqueue p q) st') with
          | error e => rfl
          | ok next => cases next <;> rfl

theorem forceConst_eq_ok {p : Program} {s t : State} {u : Unique}
    (h : p.forceConst s u = .ok t) : ∃ tb : TopBind, t = { s with
      cfg := .eval tb.body emptyScope []
      nextId := p.cafSeed u
      host := .forcing u s.cfg s.nextId :: s.host } := by
  unfold Program.forceConst at h
  split at h
  · cases h
  next tb hbind =>
    cases h
    exact ⟨tb, rfl⟩

/-- A run that has not ended adds at most the start of a scheduler. -/
theorem note_running {p : Program} {s : State} (hrunning : ∀ v, s.cfg ≠ .ret v []) (l : Log) :
    p.note s l =
      match transition p.prims (p.globals s.consts) s.installs s.cfg with
      | .ok (.drive ..) => l.opened
      | _ => l := by
  unfold Program.note
  split
  next v st owner pending extra k rest hcfg hhost => exact absurd hcfg (hrunning v)
  next v hcfg hhost => exact absurd hcfg (hrunning v)
  next => rfl

theorem step_moves {p : Program} {s t : State} (h : p.system.step s = .inl t) :
    Moves p s t (p.note s) := by
  obtain ⟨cfg, nextId, installs, consts, host⟩ := s
  simp only [Program.system, Program.systemBy, Program.stepBy] at h
  split at h
  · cases h
  next v fr rest =>
    split at h
    next t' hfinish =>
      cases h
      cases fr with
      | forcing u saved n =>
          cases hfinish
          exact .forced rfl
      | driving st owner pending extra k =>
          rw [finish_driving _ v ⟨st, owner, pending⟩] at hfinish
          cases hnext : Drive.next ⟨st, owner, pending⟩ v nextId with
          | error e =>
              rw [hnext] at hfinish
              cases hfinish
          | ok out =>
              rw [hnext] at hfinish
              cases hfinish
              cases out with
              | resumed q d' => exact .resumes (d := ⟨st, owner, pending⟩) rfl hnext
              | started starter d' => exact .starts (d := ⟨st, owner, pending⟩) rfl hnext
              | finished r n => exact .closes (d := ⟨st, owner, pending⟩) rfl hnext
    · cases h
  next hempty hframe =>
    have hrunning : ∀ v, cfg ≠ .ret v [] := by
      intro v hcfg
      cases host with
      | nil => exact hempty v hcfg rfl
      | cons fr rest => exact hframe v fr rest hcfg rfl
    have hnote : p.note ⟨cfg, nextId, installs, consts, host⟩ = _ :=
      funext fun l => note_running hrunning l
    rw [hnote]
    split at h
    next m htrans =>
      cases h
      simp only [htrans]
      cases m with
      | config c => exact .inside
      | drive thunk extra k => exact .opens
    next u htrans =>
      simp only [htrans]
      split at h
      next t' hforce =>
        cases h
        obtain ⟨tb, rfl⟩ := forceConst_eq_ok hforce
        exact .demands htrans
      · cases h
    · cases h

theorem logged_moves {p : Program} {x y : State × Log} (h : p.logged.step x = .inl y) :
    ∃ f, Moves p x.1 y.1 f ∧ y.2 = f x.2 := by
  simp only [Program.logged] at h
  split at h
  next t hstep =>
    cases h
    exact ⟨p.note x.1, step_moves hstep, rfl⟩
  · cases h

/-- What has happened in a run can always be said. -/
theorem exists_logged {p : Program} {φ : State → Prop} {s t : State} (h : p.system.Reach φ s t)
    (l : Log) : ∃ l', p.logged.Reach (fun x => φ x.1) (s, l) (t, l') := by
  induction h with
  | refl => exact ⟨l, .refl _⟩
  | @tail t u _ hstep ih =>
      obtain ⟨l', hreach⟩ := ih
      refine ⟨p.note t l', hreach.tail ⟨hstep.1, ?_⟩⟩
      simp only [Program.logged, hstep.2]

theorem initial_eq_ok {p : Program} {s : State} (h : p.initial = .ok s) :
    ∃ body, s = State.start body := by
  unfold Program.initial at h
  split at h
  · cases h
  · split at h
    next name body hfind =>
      cases h
      exact ⟨body, rfl⟩
    · cases h
    · cases h

/-! ### Each scheduler in its run -/

/-- Each scheduler is in the run that its log tells of, and the supply that it will be given
back is not behind its own. -/
inductive Aligned : Int → List HostFrame → List DriveLog → Prop where
  | nil {n : Int} : Aligned n [] []
  | forcing {n m : Int} {u : Unique} {saved : Config} {rest : List HostFrame}
      {es : List DriveLog} (hrest : Aligned m rest es) :
      Aligned n (.forcing u saved m :: rest) es
  | driving {n n₀ : Int} {st : Sched} {owner : Owner} {pending : List Parked}
      {extra : List Value} {k : Kont} {rest : List HostFrame} {e : DriveLog}
      {es : List DriveLog} (hsupply : st.nextId ≤ n)
      (hrun : Drive.Run n₀ e.history e.resumed ⟨st, owner, pending⟩) (hrest : Aligned n rest es) :
      Aligned n (.driving st owner pending extra k :: rest) (e :: es)

theorem Aligned.mono {n m : Int} {host : List HostFrame} {es : List DriveLog}
    (h : Aligned n host es) (hle : n ≤ m) : Aligned m host es := by
  induction h with
  | nil => exact .nil
  | forcing hrest => exact .forcing hrest
  | driving hsupply hrun _ ih => exact .driving (hsupply.trans hle) hrun (ih hle)

theorem Folds.supply {st : Sched} {o : Owner} {v : Value} {fold : Fold} (h : Folds st o v fold) :
    match fold with
    | .settled st' => st.nextId ≤ st'.nextId
    | .start st' .. => st.nextId ≤ st'.nextId := by
  cases h <;> simp [enqueue]

/-- No step sets the supply back. -/
theorem Drive.next_supply {d : Drive} {v : Value} {n : Int} {out : Drive.Outcome}
    (h : d.next v n = .ok out) :
    match out with
    | .resumed _ d' => n ≤ d'.st.nextId
    | .started _ d' => n ≤ d'.st.nextId
    | .finished _ m => n ≤ m := by
  rcases Drive.next_eq_ok h with ⟨st', q, rest, hfolds, -, -, rfl⟩ |
    ⟨st', starter, owner', after, hfolds, rfl⟩ | ⟨st', r, hfolds, -, rfl⟩
  · exact hfolds.supply
  · exact hfolds.supply
  · exact hfolds.supply

/-- A step keeps each scheduler in its run. -/
theorem Aligned.moves {p : Program} {s t : State} {f : Log → Log} {l : Log}
    (h : Aligned s.nextId s.host l.active) (hmoves : Moves p s t f) :
    Aligned t.nextId t.host (f l).active := by
  cases hmoves with
  | inside => exact h
  | opens => exact .driving (le_refl _) .start h
  | demands htrans => exact .forcing h
  | forced hhost =>
      rw [hhost] at h
      cases h with
      | forcing hrest => exact hrest
  | resumes hhost hnext =>
      rw [hhost] at h
      obtain ⟨minted, started, active⟩ := l
      cases h with
      | driving hsupply hrun hrest =>
          have hle := Drive.next_supply hnext
          simp only [Log.folded, hnext]
          exact .driving (le_refl _) (hrun.resumed hsupply hnext) (hrest.mono hle)
  | starts hhost hnext =>
      rw [hhost] at h
      obtain ⟨minted, started, active⟩ := l
      cases h with
      | driving hsupply hrun hrest =>
          have hle := Drive.next_supply hnext
          simp only [Log.folded, hnext]
          exact .driving (le_refl _) (hrun.started hsupply hnext) (hrest.mono hle)
  | closes hhost hnext =>
      rw [hhost] at h
      obtain ⟨minted, started, active⟩ := l
      cases h with
      | driving hsupply hrun hrest =>
          have hle := Drive.next_supply hnext
          simp only [Log.folded, hnext]
          exact hrest.mono hle

theorem aligned_of_reach {p : Program} {φ : State × Log → Prop} {s₀ s : State} {l : Log}
    (hinit : p.initial = .ok s₀) (hreach : p.logged.Reach φ (s₀, .empty) (s, l)) :
    Aligned s.nextId s.host l.active := by
  have hstart : Aligned s₀.nextId s₀.host Log.empty.active := by
    obtain ⟨body, rfl⟩ := initial_eq_ok hinit
    exact .nil
  have hkeeps : p.logged.Preserves φ fun x => Aligned x.1.nextId x.1.host x.2.active := by
    intro x y hx _ hstep
    obtain ⟨f, hmoves, hlog⟩ := logged_moves hstep
    rw [hlog]
    exact hx.moves hmoves
  have haligned := hreach.invariant hkeeps hstart
  exact haligned

/-- What holds of every run of a scheduler holds of the schedulers of a program. -/
theorem Aligned.forall₂ {P : Drive → DriveLog → Prop} {n : Int} {host : List HostFrame}
    {es : List DriveLog} (h : Aligned n host es)
    (hP : ∀ n₀ d e, Drive.Run n₀ e.history e.resumed d → P d e) :
    List.Forall₂ P (drives host) es := by
  induction h with
  | nil => exact .nil
  | forcing _ ih => exact ih
  | driving _ hrun _ ih => exact .cons (hP _ _ _ hrun) ih

/-- In every run of a program each scheduler keeps order. -/
theorem schedulers_orderly (p : Program) {s₀ s : State} {l : Log} (hinit : p.initial = .ok s₀)
    (hreach : p.logged.Reach (fun _ => True) (s₀, .empty) (s, l)) :
    List.Forall₂ (fun d e => Orderly e.history e.resumed d) (drives s.host) l.active :=
  (aligned_of_reach hinit hreach).forall₂ fun _ _ _ hrun => run_orderly hrun

/-- `\t -> case t of Transport x -> body`, where `body` asks of `x` and is done. -/
private def onReply (id : Int) (request : Atom → Rhs) : Rhs :=
  .lam [Binder.u64 "t" id]
    (.case_ (Atom.local "t" id)
      [.con "Transport" [Binder.u64 "x" (id + 1)] <|
        .let_ (Binder.u64 "done" (id + 2))
          (.lam [Binder.u64 "u" (id + 3)] (.ret (Atom.unit))) <|
        .let_ (Binder.u64 "q" (id + 4)) (request (Atom.local "x" (id + 1))) <|
        .let_ (Binder.u64 "s" (id + 5))
          (.con "Suspended" [Atom.local "q" (id + 4), Atom.local "done" (id + 2)]) <|
        .ret (Atom.local "s" (id + 5))])

/-- A scheduler whose root opens a channel and sends 7 on it. -/
def sendsOnNewChannel : Expr :=
  .let_ (Binder.u64 "m" 1) (.con "Transport" [Atom.int 7]) <|
  .let_ (Binder.u64 "root" 2)
    (.lam [Binder.u64 "u" 3] <|
      .let_ (Binder.u64 "q" 4) (.con "ReqNewChan" []) <|
      .let_ (Binder.u64 "k" 5) (onReply 10 fun x => .con "ReqSend" [x, Atom.local "m" 1]) <|
      .let_ (Binder.u64 "s" 6) (.con "Suspended" [Atom.local "q" 4, Atom.local "k" 5]) <|
      .ret (Atom.local "s" 6)) <|
  .let_ (Binder.u64 "r" 7) (.app (.prim "Control" "__drive_conc") [Atom.local "root" 2]) <|
  .ret (Atom.local "r" 7)

/-- Whether a value stands in a channel. -/
def buffers (s : State) : Bool :=
  (drives s.host).any fun d => d.st.chans.any fun e => !e.2.buffer.isEmpty

/-- The value waits in the channel of a scheduler that keeps order. -/
theorem sendsOnNewChannel_orderly :
    ∃ x : State × Log, buffers x.1 = true ∧
      List.Forall₂ (fun d e => Orderly e.history e.resumed d) (drives x.1.host) x.2.active := by
  obtain ⟨x, hreach, hbuffers⟩ := System.exists_reach_of_stateAfter
    (M := (Program.ofMain primTable sendsOnNewChannel).logged)
    (s := (State.start sendsOnNewChannel, .empty)) (c := fun _ => true)
    (Q := fun x => buffers x.1) (n := 17) rfl
  exact ⟨x, hbuffers, schedulers_orderly _ (Program.initial_ofMain primTable sendsOnNewChannel)
    (hreach.mono fun _ _ => trivial)⟩

end Wok.Interp
