/-
Module: Wok.Proofs.Layout
Purpose: The layout filter puts out the layout of the tokens if there is room for it.
  What that layout keeps, and when there is room.
Imports: Wok.Spec.Layout
Trusted boundary: none
Main exports: wokLayout_eq, exists_wokLayout, wokLayout_fits_iff, wokLayout_wellLaid_iff
-/
import Wok.Spec.Layout

namespace Wok.Grammar

variable {c : UInt32} {f g : Filter} {t : WokToken} {ts us tokens rest : List WokToken}
  {l : Levels} {p : Position} {st : LayoutState} {below : List UInt32} {top : UInt32}

/-! ### Open blocks -/

/-- The columns of the open blocks grow inwards from the first column. -/
inductive Ordered : List UInt32 → UInt32 → Prop
  | base : Ordered [] 1
  | push {below : List UInt32} {top c : UInt32} (h : Ordered below top) (hc : top < c) :
      Ordered (top :: below) c

theorem closeLevels_of_le (h : ¬ top > c) : closeLevels c below top = ⟨top, below⟩ := by
  cases below with
  | nil => rfl
  | cons next below => rw [closeLevels, if_neg h]

theorem Levels.close_of_le (h : ¬ l.top > c) : l.close c = l := closeLevels_of_le h

theorem Ordered.close (h : Ordered below top) :
    Ordered (closeLevels c below top).below (closeLevels c below top).top := by
  induction h with
  | base => exact .base
  | @push below top c' h hc ih =>
      rw [closeLevels]
      split
      · exact ih
      · exact .push h hc

theorem Ordered.close_le (h : Ordered below top) (hc : 1 ≤ c) :
    (closeLevels c below top).top ≤ c := by
  induction h with
  | base => exact hc
  | @push below top c' h hlt ih =>
      rw [closeLevels]
      split
      · exact ih
      · next hle => exact UInt32.not_lt.mp hle

theorem length_closeLevels (c top : UInt32) (below : List UInt32) :
    (closeLevels c below top).below.length ≤ below.length := by
  induction below generalizing top with
  | nil => exact le_rfl
  | cons next below ih =>
      rw [closeLevels]
      split
      · exact (ih next).trans (Nat.le_succ _)
      · exact le_rfl

theorem Ordered.enter (h : Ordered l.below l.top) :
    Ordered (l.enter c).below (l.enter c).top := by
  unfold Levels.enter
  split
  · next hopen =>
      simp only [Levels.canOpen, Bool.and_eq_true, decide_eq_true_eq] at hopen
      exact .push h.close hopen.1
  · exact h.close

theorem Ordered.levelsAt (h : Ordered p.levels.below p.levels.top) (t : WokToken) :
    Ordered (p.levelsAt t).below (p.levelsAt t).top := by
  unfold Position.levelsAt
  split
  · split
    · exact h.close
    · exact h.enter
  · exact h

/-- The columns are all positive. -/
theorem Ordered.close_zero (h : Ordered below top) : closeLevels 0 below top = ⟨1, []⟩ := by
  induction h with
  | base => rfl
  | @push below top c h hc ih =>
      rw [closeLevels, if_pos, ih]
      exact UInt32.lt_of_le_of_lt (UInt32.le_iff_toNat_le.mpr (Nat.zero_le _)) hc

/-! ### Room for the output -/

/-- A step of the filter adds `ts` to the output and keeps to `post`; if there is no
room it has no result. -/
def Yields {β : Type} (get : β → Filter) (f : Filter) (ts : List WokToken) (r : Option β)
    (post : β → Prop) : Prop :=
  if f.out.length + ts.length ≤ f.cap then
    ∃ b, r = some b ∧ (get b).out = f.out ++ ts ∧ (get b).cap = f.cap ∧ post b
  else r = none

def Filter.Fits (f : Filter) : Prop := f.out.length ≤ f.cap

theorem Yields.pure {β : Type} {get : β → Filter} {b : β} {post : β → Prop} (hfits : f.Fits)
    (hout : (get b).out = f.out) (hcap : (get b).cap = f.cap) (hpost : post b) :
    Yields get f [] (some b) post := by
  unfold Yields
  rw [if_pos (by exact hfits)]
  exact ⟨b, rfl, by rw [hout, List.append_nil], hcap, hpost⟩

theorem Yields.bind {β γ : Type} {get : β → Filter} {get' : γ → Filter} {r : Option β}
    {k : β → Option γ} {post : β → Prop} {post' : γ → Prop} (h : Yields get f ts r post)
    (hk : ∀ b, post b → (get b).Fits → Yields get' (get b) us (k b) post') :
    Yields get' f (ts ++ us) (r >>= k) post' := by
  unfold Yields at h
  by_cases hfit : f.out.length + ts.length ≤ f.cap
  · rw [if_pos hfit] at h
    rcases h with ⟨b, rfl, hout, hcap, hpost⟩
    have hlen : (get b).out.length = f.out.length + ts.length := by
      rw [hout, List.length_append]
    have hnext := hk b hpost (by unfold Filter.Fits; omega)
    unfold Yields at hnext ⊢
    rw [List.length_append, ← Nat.add_assoc, ← hlen, ← hcap]
    split at hnext
    · next hroom =>
        rcases hnext with ⟨b', hrun, hout', hcap', hpost'⟩
        rw [if_pos hroom]
        exact ⟨b', hrun, by rw [hout', hout, List.append_assoc], hcap', hpost'⟩
    · next hroom =>
        rw [if_neg hroom]
        exact hnext
  · rw [if_neg hfit] at h
    unfold Yields
    rw [if_neg, h]
    · rfl
    · rw [List.length_append]
      omega

/-- The report and the columns are no part of the output. -/
theorem Yields.of_out {β : Type} {get : β → Filter} {r : Option β} {post : β → Prop}
    (h : Yields get g ts r post) (hout : g.out = f.out) (hcap : g.cap = f.cap) :
    Yields get f ts r post := by
  unfold Yields at h ⊢
  rwa [hout, hcap] at h

theorem Yields.mono {β : Type} {get : β → Filter} {r : Option β} {post post' : β → Prop}
    (h : Yields get f ts r post) (himp : ∀ b, post b → post' b) : Yields get f ts r post' := by
  unfold Yields at h ⊢
  split at h
  · next hfit =>
      rcases h with ⟨b, hrun, hout, hcap, hpost⟩
      rw [if_pos hfit]
      exact ⟨b, hrun, hout, hcap, himp b hpost⟩
  · next hfit =>
      rw [if_neg hfit]
      exact h

/-- The state of the loop goes along with the filter. -/
theorem Yields.attach {r : Option Filter} {post : Filter → Prop} {k : Filter → LayoutState}
    {post' : Filter × LayoutState → Prop} (h : Yields id f ts r post)
    (himp : ∀ g, post g → post' (g, k g)) :
    Yields Prod.fst f ts (r >>= fun g => some (g, k g)) post' := by
  unfold Yields at h ⊢
  split at h
  · next hfit =>
      rcases h with ⟨g, rfl, hout, hcap, hpost⟩
      rw [if_pos hfit]
      exact ⟨(g, k g), rfl, hout, hcap, himp g hpost⟩
  · next hfit =>
      rw [if_neg hfit, h]
      rfl

theorem put_yields (f : Filter) (k : WokKind) (t : WokToken) :
    Yields id f [mark k t] (put f k t) fun g => g.stack = f.stack := by
  unfold Yields put
  by_cases hfull : f.out.length ≥ f.cap
  · rw [if_pos hfull, if_neg (by simp only [List.length_singleton]; omega)]
  · rw [if_neg hfull, if_pos (by simp only [List.length_singleton]; omega)]
    exact ⟨_, rfl, rfl, rfl, rfl⟩

theorem putToken_yields (f : Filter) (t : WokToken) :
    Yields id f [t] (putToken f t) fun g => g.stack = f.stack := by
  unfold Yields putToken
  by_cases hfull : f.out.length ≥ f.cap
  · rw [if_pos hfull, if_neg (by simp only [List.length_singleton]; omega)]
  · rw [if_neg hfull, if_pos (by simp only [List.length_singleton]; omega)]
    exact ⟨_, rfl, rfl, rfl, rfl⟩

/-! ### Each function of the filter -/

/-- One dedent for each block that is closed. -/
theorem popLevels_yields (c : UInt32) (t : WokToken) (hfits : f.Fits) :
    Yields id f
      (List.replicate (below.length - (closeLevels c below top).below.length) (mark .dedent t))
      (popLevels c t below top f) fun g => g.stack = closeLevels c below top := by
  induction below generalizing top f with
  | nil => exact .pure hfits rfl rfl rfl
  | cons next below ih =>
      unfold popLevels closeLevels
      by_cases hgt : top > c
      · rw [if_pos hgt, if_pos hgt]
        have hle := length_closeLevels c next below
        have hcount : (next :: below).length - (closeLevels c below next).below.length =
            (below.length - (closeLevels c below next).below.length) + 1 := by
          rw [List.length_cons]
          omega
        rw [hcount, List.replicate_succ]
        exact (put_yields f .dedent t).bind fun g _ hg => ih hg
      · rw [if_neg hgt, if_neg hgt, Nat.sub_self]
        exact .pure hfits rfl rfl rfl

theorem popTo_yields (c : UInt32) (t : WokToken) (hfits : f.Fits) :
    Yields id f
      (List.replicate (f.stack.below.length - (f.stack.close c).below.length) (mark .dedent t))
      (popTo f c t) fun g => g.stack = f.stack.close c :=
  popLevels_yields c t hfits

/-- A block that is opened puts out one indent. -/
theorem push_yields (c : UInt32) (t : WokToken) (hout : g.out = f.out) (hcap : g.cap = f.cap) :
    Yields id f [mark .indent t] (put (g.push c) .indent t)
      fun h => h.stack = ⟨c, g.stack.top :: g.stack.below⟩ :=
  (put_yields (g.push c) .indent t).of_out hout hcap

/-- An item closes the blocks that it is left of, and then begins one or none. -/
theorem openItem_yields (hfits : f.Fits) (hordered : Ordered f.stack.below f.stack.top)
    (hcol : 1 ≤ t.col) :
    Yields id f
      (List.replicate (f.stack.below.length - (f.stack.close t.col).below.length)
          (mark .dedent t) ++
        if (f.stack.close t.col).canOpen t.col then [mark .indent t] else [])
      (openItem t f) fun g => g.stack = f.stack.enter t.col := by
  unfold openItem Levels.enter
  by_cases hgt : t.col > f.stack.top
  · have hclose : f.stack.close t.col = f.stack :=
      Levels.close_of_le (UInt32.not_lt.mpr (UInt32.le_of_lt hgt))
    rw [if_pos hgt, hclose, Nat.sub_self, List.replicate_zero, List.nil_append]
    have hlt : f.stack.top < t.col := hgt
    by_cases hdepth : f.stack.below.length + 1 ≥ layoutMaxDepth
    · have hopen : f.stack.canOpen t.col = false := by
        simp [Levels.canOpen, hlt, hdepth]
      rw [if_pos hdepth, hopen]
      exact .pure hfits rfl rfl rfl
    · have hopen : f.stack.canOpen t.col = true := by
        simp only [Levels.canOpen, hlt, decide_true, Bool.true_and, decide_eq_true_eq]
        omega
      rw [if_neg hdepth, hopen]
      exact push_yields t.col t rfl rfl
  · rw [if_neg hgt]
    by_cases hlt : t.col < f.stack.top
    · rw [if_pos hlt]
      have hle : (f.stack.close t.col).top ≤ t.col := hordered.close_le hcol
      apply (popTo_yields t.col t hfits).bind
      intro f₁ hstack hfits₁
      have hstack : f₁.stack = f.stack.close t.col := hstack
      have hfits₁ : f₁.Fits := hfits₁
      by_cases hne : f₁.stack.top ≠ t.col
      · rw [if_pos hne]
        have hbelow : (f.stack.close t.col).top < t.col := by
          rw [hstack] at hne
          exact UInt32.lt_of_le_of_ne hle hne
        by_cases hdepth : f₁.stack.below.length + 1 < layoutMaxDepth
        · have hopen : (f.stack.close t.col).canOpen t.col = true := by
            rw [hstack] at hdepth
            simp [Levels.canOpen, hbelow, hdepth]
          rw [hopen]
          change Yields id f₁ _ (if f₁.stack.below.length + 1 < layoutMaxDepth then _ else _) _
          rw [if_pos hdepth]
          rw [if_pos rfl, if_pos rfl, ← hstack]
          exact push_yields t.col t rfl rfl
        · have hopen : (f.stack.close t.col).canOpen t.col = false := by
            rw [hstack] at hdepth
            simp [Levels.canOpen, hbelow, hdepth]
          rw [hopen]
          change Yields id f₁ _ (if f₁.stack.below.length + 1 < layoutMaxDepth then _ else _) _
          rw [if_neg hdepth]
          exact .pure hfits₁ rfl rfl hstack
      · rw [if_neg hne]
        have hopen : (f.stack.close t.col).canOpen t.col = false := by
          rw [← hstack, Levels.canOpen, not_not.mp hne]
          simp
        rw [hopen]
        exact .pure hfits₁ rfl rfl hstack
    · have hclose : f.stack.close t.col = f.stack := Levels.close_of_le hlt
      rw [if_neg hlt, hclose, Nat.sub_self, List.replicate_zero, List.nil_append]
      have hopen : f.stack.canOpen t.col = false := by
        simp only [Levels.canOpen, Bool.and_eq_false_iff, decide_eq_false_iff_not]
        exact .inl hgt
      rw [hopen]
      exact .pure hfits rfl rfl rfl

theorem layoutLine_yields (st : LayoutState) (hfits : f.Fits)
    (hordered : Ordered f.stack.below f.stack.top) (hcol : 1 ≤ t.col) :
    Yields id f
      ((if !t.isContinuationLead && !st.firstLogical then [mark .newline t] else []) ++
        (List.replicate (f.stack.below.length - (f.stack.close t.col).below.length)
            (mark .dedent t) ++
          if !t.isContinuationLead && (f.stack.close t.col).canOpen t.col then
            [mark .indent t] else []))
      (layoutLine t f st)
      fun g => g.stack =
        if t.isContinuationLead then f.stack.close t.col else f.stack.enter t.col := by
  unfold layoutLine
  cases hlead : t.isContinuationLead with
  | true =>
      have hpop := popTo_yields t.col t hfits
      simpa using hpop
  | false =>
      have hitem : ∀ g : Filter, g.stack = f.stack → g.Fits → Yields id g
          (List.replicate (f.stack.below.length - (f.stack.close t.col).below.length)
              (mark .dedent t) ++
            if (f.stack.close t.col).canOpen t.col then [mark .indent t] else [])
          (openItem t g) fun h => h.stack = f.stack.enter t.col := by
        intro g hg hfits
        rw [← hg]
        rw [← hg] at hordered
        exact openItem_yields hfits hordered hcol
      cases hfirst : st.firstLogical with
      | true => exact hitem f rfl hfits
      | false => exact (put_yields f .newline t).bind hitem

theorem abandonBracket_state (t : WokToken) (f : Filter) (st : LayoutState) :
    (abandonBracket t f st).2 = st.atLine t := by
  unfold abandonBracket LayoutState.atLine
  split <;> rfl

theorem abandonBracket_filter (t : WokToken) (f : Filter) (st : LayoutState) :
    (abandonBracket t f st).1.out = f.out ∧ (abandonBracket t f st).1.cap = f.cap ∧
      (abandonBracket t f st).1.stack = f.stack := by
  unfold abandonBracket
  split <;> exact ⟨rfl, rfl, rfl⟩

theorem atLine_firstLogical (t : WokToken) (st : LayoutState) :
    (st.atLine t).firstLogical = st.firstLogical := by
  unfold LayoutState.atLine
  split <;> rfl

theorem lead_of_not_startsLine (h : p.startsLine t = false) : p.lead t = [] := by
  simp [Position.lead, Position.separates, Position.closes, Position.opens,
    Position.startsItem, h]

theorem levelsAt_of_not_startsLine (h : p.startsLine t = false) : p.levelsAt t = p.levels := by
  simp [Position.levelsAt, h]

/-- The layout tokens before a token and what they do to the filter. -/
theorem layoutStart_yields (st : LayoutState) (hfits : f.Fits)
    (hordered : Ordered f.stack.below f.stack.top) (hcol : 1 ≤ t.col) :
    Yields Prod.fst f (Position.lead ⟨f.stack, st⟩ t) (layoutStart t f st) fun r =>
      r.1.stack = Position.levelsAt ⟨f.stack, st⟩ t ∧
        r.2 = Position.stateAt ⟨f.stack, st⟩ t := by
  unfold layoutStart
  by_cases hline : t.isFirstOnLine = true
  · rcases abandonBracket_filter t f st with ⟨hout, hcap, hstack⟩
    have hstate := abandonBracket_state t f st
    rw [if_pos hline]
    cases habandon : abandonBracket t f st with
    | mk f₀ st₀ =>
        rw [habandon] at hout hcap hstack hstate
        simp only at hout hcap hstack hstate
        subst hstate
        have hfits₀ : f₀.Fits := by
          unfold Filter.Fits
          rw [hout, hcap]
          exact hfits
        by_cases hzero : (st.atLine t).bracket = 0
        · have hstarts : Position.startsLine ⟨f.stack, st⟩ t = true := by
            simp [Position.startsLine, hline, hzero]
          have hrun := layoutLine_yields (st.atLine t) hfits₀ (hstack.symm ▸ hordered) hcol
          rw [hstack, atLine_firstLogical] at hrun
          simp only [hzero, if_true]
          simp only [Position.lead, Position.separates, Position.closes, Position.opens,
            Position.startsItem, hstarts, Bool.true_and, if_true]
          apply (hrun.of_out hout hcap).attach
          intro g hg
          rw [hg]
          simp [Position.levelsAt, Position.stateAt, hstarts, hzero]
        · have hstarts : Position.startsLine ⟨f.stack, st⟩ t = false := by
            simp [Position.startsLine, hline, hzero]
          rw [lead_of_not_startsLine hstarts]
          simp only [hzero, if_false]
          apply Yields.pure hfits hout hcap
          simp [Position.levelsAt, Position.stateAt, hstarts, hline, hstack]
  · have hstarts : Position.startsLine ⟨f.stack, st⟩ t = false := by
      simp [Position.startsLine, hline]
    rw [if_neg hline, lead_of_not_startsLine hstarts]
    apply Yields.pure hfits rfl rfl
    simp [Position.levelsAt, Position.stateAt, hstarts, hline]

/-- What a token puts out, and where it leaves the filter. -/
theorem layoutToken_yields (st : LayoutState) (hfits : f.Fits)
    (hordered : Ordered f.stack.below f.stack.top) (hcol : 1 ≤ t.col) :
    Yields Prod.fst f (Position.emits ⟨f.stack, st⟩ t) (layoutToken t f st)
      fun r => (⟨r.1.stack, r.2⟩ : Position) = Position.next ⟨f.stack, st⟩ t := by
  apply (layoutStart_yields st hfits hordered hcol).bind
  rintro ⟨f₁, st₁⟩ ⟨hstack, hstate⟩ -
  simp only at hstack hstate
  apply (putToken_yields f₁ t).attach
  intro g hg
  rw [hg, hstack, hstate]
  rfl

/-- The end of the file ends the line and closes every block. -/
theorem layoutEof_yields (st : LayoutState) (hfits : f.Fits)
    (hordered : Ordered f.stack.below f.stack.top) :
    Yields id f (Position.finish ⟨f.stack, st⟩ t) (layoutEof t f st) fun _ => True := by
  have hclose : ∀ g : Filter, g.stack = f.stack → g.Fits → Yields id g
      (List.replicate f.stack.below.length (mark .dedent t) ++ [t])
      (popTo g 0 t >>= fun g' => putToken g' t) fun _ => True := by
    intro g hg hfits
    have hpop := popTo_yields 0 t hfits
    have hzero : f.stack.close 0 = ⟨1, []⟩ := hordered.close_zero
    rw [hg, hzero, List.length_nil, Nat.sub_zero] at hpop
    apply hpop.bind
    intro g' _ _
    exact (putToken_yields g' t).mono fun _ _ => trivial
  have hreport : ∀ f₀ : Filter, f₀.out = f.out → f₀.cap = f.cap → f₀.stack = f.stack →
      Yields id f (Position.finish ⟨f.stack, st⟩ t)
        (if st.firstLogical then some f₀ >>= fun f₁ => popTo f₁ 0 t >>= fun g' => putToken g' t
          else put f₀ .newline t >>= fun f₁ => popTo f₁ 0 t >>= fun g' => putToken g' t)
        fun _ => True := by
    intro f₀ hout hcap hstack
    unfold Position.finish
    cases st.firstLogical with
    | true => exact (hclose f₀ hstack (by unfold Filter.Fits; rwa [hout, hcap])).of_out hout hcap
    | false =>
        apply ((put_yields f₀ .newline t).of_out hout hcap).bind
        intro g hg hfits
        exact hclose g (hg.trans hstack) hfits
  unfold layoutEof
  split
  · exact hreport _ rfl rfl rfl
  · exact hreport _ rfl rfl rfl

theorem layoutLoop_yields (tokens : List WokToken) (st : LayoutState) (hfits : f.Fits)
    (hordered : Ordered f.stack.below f.stack.top) (hcol : ∀ t ∈ tokens, 1 ≤ t.col) :
    Yields id f (layoutOf ⟨f.stack, st⟩ tokens) (layoutLoop tokens f st) fun _ => True := by
  induction tokens generalizing f st with
  | nil => exact .pure hfits rfl rfl trivial
  | cons t rest ih =>
      unfold layoutLoop layoutOf
      by_cases heof : t.kind = .eof
      · rw [if_pos heof, if_pos heof]
        exact layoutEof_yields st hfits hordered
      · rw [if_neg heof, if_neg heof]
        apply (layoutToken_yields st hfits hordered (hcol t List.mem_cons_self)).bind
        rintro ⟨f', st'⟩ hnext hfits'
        rw [← hnext]
        apply ih st' hfits'
        · have hlevels : f'.stack = Position.levelsAt ⟨f.stack, st⟩ t :=
            congrArg Position.levels hnext
          rw [hlevels]
          exact Ordered.levelsAt hordered t
        · exact fun u hu => hcol u (List.mem_cons_of_mem t hu)

/-- The filter puts out the layout of its input, if there is room for it. -/
theorem wokLayout_eq (hcol : ∀ t ∈ tokens, 1 ≤ t.col) :
    (wokLayout tokens).map (·.1) =
      if (layoutOf .start tokens).length ≤ layoutCap tokens.length then
        some (layoutOf .start tokens)
      else none := by
  have hrun := layoutLoop_yields (f := ⟨[], layoutCap tokens.length, ⟨1, []⟩, []⟩) tokens .start
    (Nat.zero_le _) .base hcol
  unfold Yields at hrun
  simp only [List.length_nil, Nat.zero_add, List.nil_append] at hrun
  change (if (layoutOf .start tokens).length ≤ layoutCap tokens.length then _ else _) at hrun
  unfold wokLayout
  split at hrun
  · next hfit =>
      rcases hrun with ⟨g, hrun, hout, -⟩
      have hout : g.out = layoutOf .start tokens := hout
      rw [hrun, if_pos hfit, ← hout]
      rfl
  · next hfit =>
      rw [hrun, if_neg hfit]
      rfl

/-! ### How much room it takes -/

theorem length_finish (p : Position) (t : WokToken) :
    (p.finish t).length = 1 + (if p.state.firstLogical then 0 else 1) + p.levels.below.length := by
  unfold Position.finish
  cases p.state.firstLogical <;> simp <;> omega

/-- A block that a line closes was open before it. -/
theorem closes_add (p : Position) (t : WokToken) :
    p.closes t + (p.levelsAt t).below.length =
      p.levels.below.length + if p.opens t then 1 else 0 := by
  have hle := length_closeLevels t.col p.levels.top p.levels.below
  change (p.levels.close t.col).below.length ≤ _ at hle
  unfold Position.closes Position.levelsAt Position.opens Position.startsItem
  cases p.startsLine t with
  | false => simp
  | true =>
      cases t.isContinuationLead with
      | true =>
          simp
          omega
      | false =>
          simp only [Levels.enter, if_true, Bool.not_false, Bool.true_and, Bool.false_eq_true,
            if_false]
          split
          · rw [List.length_cons]
            omega
          · omega

theorem length_emits (p : Position) (t : WokToken) :
    (p.emits t).length + (p.levelsAt t).below.length =
      p.levels.below.length + 1 + (if p.separates t then 1 else 0) +
        2 * if p.opens t then 1 else 0 := by
  have hcloses := closes_add p t
  have hlen : (p.emits t).length = (if p.separates t then 1 else 0) +
      (p.closes t + if p.opens t then 1 else 0) + 1 := by
    unfold Position.emits Position.lead
    cases p.separates t <;> cases p.opens t <;> simp <;> omega
  rw [hlen]
  omega

/-- Every token is put out once, every block that begins costs two more, and every
item that is set off one. -/
theorem length_layoutOf (p : Position) (hlast : ∃ before last, tokens = before ++ [last] ∧
    last.kind = .eof ∧ ∀ t ∈ before, t.kind ≠ .eof) :
    (layoutOf p tokens).length =
      tokens.length + separators p tokens + 2 * blocksOpened p tokens +
        p.levels.below.length := by
  rcases hlast with ⟨before, last, rfl, heof, hbefore⟩
  induction before generalizing p with
  | nil =>
      simp only [List.nil_append, layoutOf, separators, blocksOpened, heof, if_true, length_finish,
        List.length_singleton]
      omega
  | cons t before ih =>
      have hne : t.kind ≠ .eof := hbefore t List.mem_cons_self
      have hrest := ih (p.next t) fun u hu => hbefore u (List.mem_cons_of_mem t hu)
      have hemits := length_emits p t
      simp only [List.cons_append, layoutOf, separators, blocksOpened, hne, if_false,
        List.length_append, List.length_cons] at hrest ⊢
      change _ = _ + (p.levelsAt t).below.length at hrest
      omega

theorem length_layoutOf_le_iff (h : Scanned tokens) :
    (layoutOf .start tokens).length ≤ layoutCap tokens.length ↔ HasRoom tokens := by
  have hlen := length_layoutOf .start h.ends
  have hdepth : Position.start.levels.below.length = 0 := rfl
  unfold HasRoom layoutCap layoutMaxDepth
  omega

/-- Where there is room there is output. -/
theorem exists_wokLayout (h : Scanned tokens) (hroom : HasRoom tokens) :
    ∃ out diag, wokLayout tokens = some (out, diag) := by
  have hfit := (length_layoutOf_le_iff h).mpr hroom
  have heq := wokLayout_eq h.col
  rw [if_pos hfit] at heq
  rcases Option.map_eq_some_iff.mp heq with ⟨⟨out, diag⟩, hrun, -⟩
  exact ⟨out, diag, hrun⟩

/-- The room that is reserved is enough exactly for the inputs that meet `HasRoom`. -/
theorem wokLayout_fits_iff (h : Scanned tokens) :
    (wokLayout tokens).isSome ↔ HasRoom tokens := by
  have heq := wokLayout_eq h.col
  have hroom := length_layoutOf_le_iff h
  rw [← Option.isSome_map, heq]
  split
  · next hfit => exact iff_of_true rfl (hroom.mp hfit)
  · next hfit => exact iff_of_false Bool.false_ne_true fun hmeets => hfit (hroom.mpr hmeets)

/-- A name of one letter that is alone on its line. -/
def nameAt (off col : Nat) : WokToken := ⟨.ofNat off, 1, .ofNat col, .varid, .none, 1⟩

def endOfFile (off : Nat) : WokToken := ⟨.ofNat off, 0, 1, .eof, .none, 1⟩

theorem wokLayout_fits_twoLines :
    (wokLayout [nameAt 0 1, nameAt 4 3, endOfFile 6]).isSome ↔
      HasRoom [nameAt 0 1, nameAt 4 3, endOfFile 6] := by
  apply wokLayout_fits_iff
  constructor
  · exact ⟨[nameAt 0 1, nameAt 4 3], endOfFile 6, rfl, rfl, by decide⟩
  · decide
  · decide

/-- One name on each of 75 lines, each line a column left of the one before it: the
first one at column 80. -/
def staircase : List WokToken :=
  (List.range 75).map (fun i => nameAt (79 + 80 * i - i * (i - 1) / 2) (80 - i)) ++
    [endOfFile 3300]

theorem staircase_scanned : Scanned staircase where
  ends := ⟨_, _, rfl, rfl, by decide⟩
  col := by decide
  kind := by decide

theorem wokLayout_staircase : wokLayout staircase = none := by
  have hroom : ¬ HasRoom staircase := by decide +kernel
  have heq := wokLayout_eq staircase_scanned.col
  rw [if_neg (mt (length_layoutOf_le_iff staircase_scanned).mp hroom)] at heq
  exact Option.map_eq_none_iff.mp heq

/-- The output for a staircase overruns the room that is reserved for it. -/
theorem staircase_overruns : ∃ tokens, Scanned tokens ∧ wokLayout tokens = none :=
  ⟨staircase, staircase_scanned, wokLayout_staircase⟩

/-! ### What the output keeps -/

@[simp] theorem kind_mark (k : WokKind) (t : WokToken) : (mark k t).kind = k := rfl

@[simp] theorem col_mark (k : WokKind) (t : WokToken) : (mark k t).col = t.col := rfl

theorem nested_token (h : t.kind.isLayout = false) : Nested l (t :: rest) ↔ Nested l rest := by
  rw [Nested]
  cases hkind : t.kind <;> first | rfl | (rw [hkind] at h; cases h)

theorem nested_newline : Nested l (mark .newline t :: rest) ↔ Nested l rest := by
  rw [Nested, kind_mark]

theorem nested_indent :
    Nested l (mark .indent t :: rest) ↔
      l.top < t.col ∧ Nested ⟨t.col, l.top :: l.below⟩ rest := by
  rw [Nested, kind_mark]
  rfl

/-- The dedents of a line close the blocks that it is left of. -/
theorem nested_dedents (c : UInt32) :
    Nested ⟨top, below⟩
        (List.replicate (below.length - (closeLevels c below top).below.length) (mark .dedent t) ++
          rest) ↔
      Nested (closeLevels c below top) rest := by
  induction below generalizing top with
  | nil => rfl
  | cons next below ih =>
      rw [closeLevels]
      split
      · have hle := length_closeLevels c next below
        have hcount : (next :: below).length - (closeLevels c below next).below.length =
            (below.length - (closeLevels c below next).below.length) + 1 := by
          rw [List.length_cons]
          omega
        rw [hcount, List.replicate_succ, List.cons_append, Nested, kind_mark]
        exact ih
      · rw [Nat.sub_self]
        rfl

theorem nested_emits (hkind : t.kind.isLayout = false) :
    Nested p.levels (p.emits t ++ rest) ↔ Nested (p.levelsAt t) (rest) := by
  unfold Position.emits
  cases hstarts : p.startsLine t with
  | false =>
      rw [lead_of_not_startsLine hstarts, levelsAt_of_not_startsLine hstarts]
      exact nested_token hkind
  | true =>
      have hnewline : Nested p.levels (p.lead t ++ [t] ++ rest) ↔
          Nested p.levels (List.replicate (p.closes t) (mark .dedent t) ++
            ((if p.opens t then [mark .indent t] else []) ++ t :: rest)) := by
        unfold Position.lead
        cases p.separates t with
        | false => simp
        | true =>
            rw [if_pos rfl]
            simpa using nested_newline
      have hclose : p.closes t =
          p.levels.below.length - (closeLevels t.col p.levels.below p.levels.top).below.length := by
        simp only [Position.closes, hstarts, if_true]
        rfl
      rw [hnewline, hclose]
      apply (nested_dedents t.col).trans
      change Nested (p.levels.close t.col) _ ↔ _
      simp only [Position.opens, Position.startsItem, Position.levelsAt, hstarts, Bool.true_and,
        if_true]
      cases t.isContinuationLead with
      | true => exact nested_token hkind
      | false =>
          cases hopen : (p.levels.close t.col).canOpen t.col with
          | false =>
              simp only [Levels.enter, hopen]
              exact nested_token hkind
          | true =>
              have hlt : (p.levels.close t.col).top < t.col := by
                simp only [Levels.canOpen, Bool.and_eq_true, decide_eq_true_eq] at hopen
                exact hopen.1
              simp only [Levels.enter, hopen]
              apply nested_indent.trans
              rw [and_iff_right hlt]
              exact nested_token hkind

theorem nested_finish (heof : t.kind = .eof) : Nested p.levels (p.finish t) := by
  have hdedents : ∀ below top,
      Nested ⟨top, below⟩ (List.replicate below.length (mark .dedent t) ++ [t]) := by
    intro below
    induction below with
    | nil =>
        intro top
        apply (nested_token (by rw [heof]; rfl)).mpr
        rfl
    | cons next below ih =>
        intro top
        rw [List.length_cons, List.replicate_succ, List.cons_append, Nested, kind_mark]
        exact ih next
  unfold Position.finish
  cases p.state.firstLogical with
  | true => exact hdedents _ _
  | false => exact nested_newline.mpr (hdedents _ _)

/-- A token that is no indent may be followed by any other. -/
theorem chain_cons (h : t.kind ≠ .indent)
    (hrest : rest.IsChain fun t u => t.kind = .indent → u.kind ≠ .dedent) :
    (t :: rest).IsChain fun t u => t.kind = .indent → u.kind ≠ .dedent := by
  cases rest with
  | nil => exact .singleton t
  | cons u rest => exact .cons_cons (fun hindent => absurd hindent h) hrest

theorem chain_dedents (n : Nat) (t : WokToken)
    (hrest : rest.IsChain fun t u => t.kind = .indent → u.kind ≠ .dedent) :
    (List.replicate n (mark .dedent t) ++ rest).IsChain
      fun t u => t.kind = .indent → u.kind ≠ .dedent := by
  induction n with
  | zero => exact hrest
  | succ n ih => exact chain_cons (by simp) ih

theorem chain_emits (hkind : t.kind.isLayout = false)
    (hrest : rest.IsChain fun t u => t.kind = .indent → u.kind ≠ .dedent) :
    (p.emits t ++ rest).IsChain fun t u => t.kind = .indent → u.kind ≠ .dedent := by
  have hindent : t.kind ≠ .indent := by
    intro h
    rw [h] at hkind
    cases hkind
  have hdedent : t.kind ≠ .dedent := by
    intro h
    rw [h] at hkind
    cases hkind
  have htoken := chain_cons hindent hrest
  have hopen : ((if p.opens t then [mark .indent t] else []) ++ t :: rest).IsChain
      fun t u => t.kind = .indent → u.kind ≠ .dedent := by
    cases p.opens t with
    | false => exact htoken
    | true => exact .cons_cons (fun _ => hdedent) htoken
  have hclose := chain_dedents (p.closes t) t hopen
  unfold Position.emits Position.lead
  cases p.separates t with
  | false => simpa using hclose
  | true =>
      rw [if_pos rfl]
      simpa using chain_cons (by simp : (mark .newline t).kind ≠ .indent) hclose

theorem chain_finish (p : Position) (t : WokToken) :
    (p.finish t).IsChain fun t u => t.kind = .indent → u.kind ≠ .dedent := by
  have hclose := chain_dedents p.levels.below.length t (.singleton t)
  unfold Position.finish
  cases p.state.firstLogical with
  | true => exact hclose
  | false => exact chain_cons (by simp) hclose

theorem filter_emits (hkind : t.kind.isLayout = false) :
    (p.emits t).filter (fun t => !t.kind.isLayout) = [t] := by
  unfold Position.emits Position.lead
  cases p.separates t <;> cases p.opens t <;>
    simp [WokKind.isLayout] at hkind ⊢ <;> exact hkind

theorem filter_finish (heof : t.kind = .eof) :
    (p.finish t).filter (fun t => !t.kind.isLayout) = [t] := by
  unfold Position.finish
  cases p.state.firstLogical <;> simp [WokKind.isLayout, heof]

/-- The layout of what the scanner produces is well formed. -/
theorem layoutOf_wellLaid (p : Position) (hlast : ∃ before last, tokens = before ++ [last] ∧
    last.kind = .eof ∧ ∀ t ∈ before, t.kind ≠ .eof)
    (hkind : ∀ t ∈ tokens, t.kind.isLayout = false) :
    Nested p.levels (layoutOf p tokens) ∧
      (layoutOf p tokens).IsChain (fun t u => t.kind = .indent → u.kind ≠ .dedent) ∧
      (layoutOf p tokens).filter (fun t => !t.kind.isLayout) = tokens := by
  rcases hlast with ⟨before, last, rfl, heof, hbefore⟩
  induction before generalizing p with
  | nil =>
      simp only [List.nil_append, layoutOf, heof, if_true]
      exact ⟨nested_finish heof, chain_finish _ _, filter_finish heof⟩
  | cons t before ih =>
      have hne : t.kind ≠ .eof := hbefore t List.mem_cons_self
      have ht := hkind t List.mem_cons_self
      rcases ih (p.next t) (fun u hu => hkind u (List.mem_cons_of_mem t hu))
        (fun u hu => hbefore u (List.mem_cons_of_mem t hu)) with ⟨hnested, hchain, hfilter⟩
      simp only [List.cons_append, layoutOf, hne, if_false]
      refine ⟨(nested_emits ht).mpr hnested, chain_emits ht hchain, ?_⟩
      rw [List.filter_append, filter_emits ht, hfilter]
      rfl

/-- The filter puts out a well formed layout exactly for the inputs that it has room
for. -/
theorem wokLayout_wellLaid_iff (h : Scanned tokens) :
    (∃ out diag, wokLayout tokens = some (out, diag) ∧ WellLaid tokens out) ↔ HasRoom tokens := by
  have heq := wokLayout_eq h.col
  rw [← length_layoutOf_le_iff h]
  constructor
  · rintro ⟨out, diag, hrun, -⟩
    by_contra hfull
    rw [hrun, if_neg hfull] at heq
    cases heq
  · intro hfit
    rw [if_pos hfit] at heq
    rcases Option.map_eq_some_iff.mp heq with ⟨⟨out, diag⟩, hrun, hout⟩
    rcases layoutOf_wellLaid .start h.ends h.kind with ⟨hnested, hchain, hfilter⟩
    have hout : out = layoutOf .start tokens := hout
    subst hout
    exact ⟨_, diag, hrun, hnested, hchain, hfilter⟩

theorem wokLayout_wellLaid_oneLine :
    (∃ out diag, wokLayout [nameAt 2 3, endOfFile 4] = some (out, diag) ∧
        WellLaid [nameAt 2 3, endOfFile 4] out) ↔ HasRoom [nameAt 2 3, endOfFile 4] := by
  apply wokLayout_wellLaid_iff
  constructor
  · exact ⟨[nameAt 2 3], endOfFile 4, rfl, rfl, by decide⟩
  · decide
  · decide

/-- For a staircase there is no output. -/
theorem staircase_unlaid : ∃ tokens, Scanned tokens ∧
    ¬ ∃ out diag, wokLayout tokens = some (out, diag) ∧ WellLaid tokens out := by
  refine ⟨staircase, staircase_scanned, ?_⟩
  rintro ⟨out, diag, hrun, -⟩
  rw [wokLayout_staircase] at hrun
  cases hrun

end Wok.Grammar
