/-
Module: Wok.Proofs.LayoutColumns
Purpose: Layout depends on the order of the columns only: the filter on tokens at other
  columns in the same order runs in lockstep with the filter on the tokens.
Imports: Wok.Grammar.Layout
Trusted boundary: none
Main exports: WokToken.recolumn, Recolumns, layoutOutcome, wokLayout_recolumn
-/
import Wok.Grammar.Layout

namespace Wok.Grammar

/-- The token at another column. -/
def WokToken.recolumn (φ : UInt32 → UInt32) (t : WokToken) : WokToken := { t with col := φ t.col }

/-- A column that the filter compares: that of a token, or of the outermost block. -/
def Compared (tokens : List WokToken) (c : UInt32) : Prop := c = 1 ∨ ∃ t ∈ tokens, t.col = c

/-- Other columns for the tokens, in the same order; column 1 stays. -/
structure Recolumns (φ : UInt32 → UInt32) (tokens : List WokToken) : Prop where
  one : φ 1 = 1
  strict : ∀ c d, Compared tokens c → Compared tokens d → c < d → φ c < φ d

/-- What is compared of two runs: the kinds of the tokens, and what is reported where. The
columns, and the messages that name them, are left out. -/
def layoutOutcome (r : Option (List WokToken × List LayoutDiag)) :
    Option (List WokKind × List (LayoutCode × UInt32 × UInt32)) :=
  r.map fun p => (p.1.map (·.kind), p.2.map fun d => (d.code, d.off, d.len))

section Lockstep

variable {α β γ δ : Type} {R : α → β → Prop} {Q : γ → δ → Prop} {x : Option α} {y : Option β}

/-- Two computations in lockstep go on in lockstep. -/
theorem lockstep_bind {f : α → Option γ} {g : β → Option δ} (h : Option.Rel R x y)
    (hfg : ∀ a b, R a b → Option.Rel Q (f a) (g b)) : Option.Rel Q (x >>= f) (y >>= g) := by
  cases h with
  | some hab => exact hfg _ _ hab
  | none => exact .none

end Lockstep

variable {φ : UInt32 → UInt32} {tokens : List WokToken} {c d : UInt32} {t : WokToken}
  {f f' : Filter} {st st' : LayoutState}

namespace Recolumns

theorem lt_iff (h : Recolumns φ tokens) (hc : Compared tokens c) (hd : Compared tokens d) :
    φ c < φ d ↔ c < d := by
  constructor
  · intro hlt
    by_cases hnot : c < d
    · exact hnot
    exfalso
    rcases UInt32.lt_or_eq_of_le (UInt32.not_lt.mp hnot) with hdc | hdc
    · exact UInt32.lt_irrefl _ (UInt32.lt_trans hlt (h.strict d c hd hc hdc))
    · rw [hdc] at hlt
      exact UInt32.lt_irrefl _ hlt
  · exact h.strict c d hc hd

theorem le_iff (h : Recolumns φ tokens) (hc : Compared tokens c) (hd : Compared tokens d) :
    φ c ≤ φ d ↔ c ≤ d := by
  rw [← UInt32.not_lt, ← UInt32.not_lt, h.lt_iff hd hc]

theorem eq_iff (h : Recolumns φ tokens) (hc : Compared tokens c) (hd : Compared tokens d) :
    φ c = φ d ↔ c = d := by
  constructor
  · intro heq
    have hcd := (h.le_iff hc hd).mp (by rw [heq]; exact UInt32.le_refl _)
    have hdc := (h.le_iff hd hc).mp (by rw [heq]; exact UInt32.le_refl _)
    exact UInt32.le_antisymm hcd hdc
  · intro heq
    rw [heq]

/-- The end of the file closes the blocks right of column 0. -/
theorem zero_lt_iff (h : Recolumns φ tokens) (hc : Compared tokens c) : φ c > 0 ↔ c > 0 := by
  have hone : Compared tokens 1 := .inl rfl
  have hle : (1 : UInt32) ≤ φ c ↔ 1 ≤ c := by
    have := h.le_iff hone hc
    rwa [h.one] at this
  have hpos : ∀ b : UInt32, b > 0 ↔ 1 ≤ b := by
    intro b
    rw [gt_iff_lt, UInt32.lt_iff_toNat_lt, UInt32.le_iff_toNat_le]
    exact Iff.rfl
  rw [hpos, hpos, hle]

end Recolumns

@[simp]
theorem recolumn_isContinuationLead : (t.recolumn φ).isContinuationLead = t.isContinuationLead :=
  rfl

@[simp]
theorem recolumn_isFirstOnLine : (t.recolumn φ).isFirstOnLine = t.isFirstOnLine := rfl

/-- The filters agree but for the columns. -/
structure SameLayout (φ : UInt32 → UInt32) (tokens : List WokToken) (f f' : Filter) : Prop where
  out : f'.out.map (·.kind) = f.out.map (·.kind)
  cap : f'.cap = f.cap
  top : f'.stack.top = φ f.stack.top
  below : f'.stack.below = f.stack.below.map φ
  diag : (f'.diag.map fun d => (d.code, d.off, d.len)) = f.diag.map fun d => (d.code, d.off, d.len)
  compared : ∀ c ∈ f.stack.top :: f.stack.below, Compared tokens c

/-- The column of the block counts only inside brackets. -/
structure SameState (φ : UInt32 → UInt32) (tokens : List WokToken) (st st' : LayoutState) :
    Prop where
  bracket : st'.bracket = st.bracket
  bracketOpen : st'.bracketOpen = st.bracketOpen.map (WokToken.recolumn φ)
  firstLogical : st'.firstLogical = st.firstLogical
  blockCol : st.bracket > 0 →
    st'.bracketBlockCol = φ st.bracketBlockCol ∧ Compared tokens st.bracketBlockCol

/-! ### The operations of the filter -/

theorem SameLayout.length (h : SameLayout φ tokens f f') : f'.out.length = f.out.length := by
  have := congrArg List.length h.out
  simpa using this

theorem put_same (h : SameLayout φ tokens f f') (k : WokKind) :
    Option.Rel (SameLayout φ tokens) (put f k t) (put f' k (t.recolumn φ)) := by
  unfold put
  rw [h.length, h.cap]
  split
  · exact .none
  · refine .some { h with out := ?_, cap := rfl }
    simp [h.out]

theorem putToken_same (h : SameLayout φ tokens f f') :
    Option.Rel (SameLayout φ tokens) (putToken f t) (putToken f' (t.recolumn φ)) := by
  unfold putToken
  rw [h.length, h.cap]
  split
  · exact .none
  · refine .some { h with out := ?_, cap := rfl }
    simp [h.out, WokToken.recolumn]

theorem report_same (h : SameLayout φ tokens f f') {r r' : LayoutDiag}
    (hr : (r'.code, r'.off, r'.len) = (r.code, r.off, r.len)) :
    SameLayout φ tokens (f.report r) (f'.report r') :=
  { h with
    diag := by
      simp only [Filter.report, List.map_append, h.diag, List.map_cons, List.map_nil, hr] }

theorem push_same (h : SameLayout φ tokens f f') (hc : Compared tokens c) :
    SameLayout φ tokens (f.push c) (f'.push (φ c)) :=
  { h with
    top := rfl
    below := by
      change f'.stack.top :: f'.stack.below = _
      rw [h.top, h.below]
      rfl
    compared := by
      intro d hd
      rcases List.mem_cons.mp hd with rfl | hd
      · exact hc
      · exact h.compared d hd }

/-- Closing blocks asks of the columns which are right of `c`. -/
theorem popLevels_same {c' : UInt32}
    (hlt : ∀ d, Compared tokens d → (φ d > c' ↔ d > c)) :
    ∀ (below : List UInt32) (top : UInt32) (f f' : Filter), SameLayout φ tokens f f' →
      (∀ d ∈ top :: below, Compared tokens d) →
        Option.Rel (SameLayout φ tokens) (popLevels c t below top f)
          (popLevels c' (t.recolumn φ) (below.map φ) (φ top) f')
  | [], top, f, f', h, hcompared =>
      .some { h with top := rfl, below := rfl, compared := hcompared }
  | next :: below, top, f, f', h, hcompared => by
      rw [List.map_cons]
      unfold popLevels
      by_cases hgt : top > c
      · rw [if_pos hgt, if_pos ((hlt top (hcompared top List.mem_cons_self)).mpr hgt)]
        apply lockstep_bind (put_same h .dedent)
        intro g g' hg
        exact popLevels_same hlt below next g g' hg
          fun d hd => hcompared d (List.mem_cons_of_mem top hd)
      · rw [if_neg hgt, if_neg fun hgt' =>
          hgt ((hlt top (hcompared top List.mem_cons_self)).mp hgt')]
        exact .some { h with top := rfl, below := rfl, compared := hcompared }

theorem popTo_same {c' : UInt32} (hlt : ∀ d, Compared tokens d → (φ d > c' ↔ d > c))
    (h : SameLayout φ tokens f f') :
    Option.Rel (SameLayout φ tokens) (popTo f c t) (popTo f' c' (t.recolumn φ)) := by
  unfold popTo
  rw [h.top, h.below]
  exact popLevels_same hlt _ _ _ _ h h.compared

theorem openItem_same (hφ : Recolumns φ tokens) (ht : Compared tokens t.col)
    (h : SameLayout φ tokens f f') :
    Option.Rel (SameLayout φ tokens) (openItem t f) (openItem (t.recolumn φ) f') := by
  have htop := h.compared f.stack.top List.mem_cons_self
  have hcol : (t.recolumn φ).col = φ t.col := rfl
  have hroom : ∀ g g', SameLayout φ tokens g g' →
      g'.stack.below.length = g.stack.below.length := by
    intro g g' hg
    rw [hg.below, List.length_map]
  unfold openItem
  rw [hcol, h.top, hroom f f' h]
  by_cases hgt : t.col > f.stack.top
  · rw [if_pos hgt, if_pos ((hφ.lt_iff htop ht).mpr hgt)]
    split
    · exact .some (report_same h rfl)
    · exact put_same (push_same h ht) .indent
  · rw [if_neg hgt, if_neg fun hgt' => hgt ((hφ.lt_iff htop ht).mp hgt')]
    by_cases hlt : t.col < f.stack.top
    · rw [if_pos hlt, if_pos ((hφ.lt_iff ht htop).mpr hlt)]
      apply lockstep_bind (popTo_same (fun d hd => hφ.lt_iff ht hd) h)
      intro g g' hg
      have heq := hφ.eq_iff (hg.compared g.stack.top List.mem_cons_self) ht
      rw [hg.top]
      by_cases hne : g.stack.top = t.col
      · simp only [ne_eq, hne, not_true_eq_false, if_false]
        exact .some hg
      · have hne' : ¬ φ g.stack.top = φ t.col := fun he => hne (heq.mp he)
        simp only [ne_eq, hne, hne', not_false_eq_true, if_true]
        have hreport := @report_same _ _ _ _ hg ⟨.layDedent, t.off, t.len,
          "this line starts at column " ++ toString t.col ++
            ", which matches no open indentation level (nearest is " ++
            toString g.stack.top ++ ")"⟩ ⟨.layDedent, (t.recolumn φ).off,
          (t.recolumn φ).len, "this line starts at column " ++ toString (φ t.col) ++
            ", which matches no open indentation level (nearest is " ++
            toString (φ g.stack.top) ++ ")"⟩ rfl
        rw [hroom _ _ hreport]
        split
        · exact put_same (push_same hreport ht) .indent
        · exact .some hreport
    · rw [if_neg hlt, if_neg fun hlt' => hlt ((hφ.lt_iff ht htop).mp hlt')]
      exact .some h

theorem layoutLine_same (hφ : Recolumns φ tokens) (ht : Compared tokens t.col)
    (h : SameLayout φ tokens f f') (hst : SameState φ tokens st st') :
    Option.Rel (SameLayout φ tokens) (layoutLine t f st)
      (layoutLine (t.recolumn φ) f' st') := by
  unfold layoutLine
  rw [recolumn_isContinuationLead, hst.firstLogical]
  split
  · exact popTo_same (fun d hd => hφ.lt_iff ht hd) h
  · by_cases hfirst : st.firstLogical
    · simp only [hfirst, if_true]
      exact openItem_same hφ ht h
    · simp only [hfirst, Bool.false_eq_true, if_false]
      exact lockstep_bind (put_same h .newline) fun g g' hg => openItem_same hφ ht hg

theorem bracketOff_same (hst : SameState φ tokens st st') : bracketOff st' = bracketOff st := by
  unfold bracketOff
  rw [hst.bracketOpen, Option.map_map]
  rfl

theorem abandonBracket_same (hφ : Recolumns φ tokens) (ht : Compared tokens t.col)
    (h : SameLayout φ tokens f f') (hst : SameState φ tokens st st') :
    SameLayout φ tokens (abandonBracket t f st).1 (abandonBracket (t.recolumn φ) f' st').1 ∧
      SameState φ tokens (abandonBracket t f st).2 (abandonBracket (t.recolumn φ) f' st').2 := by
  have hcond : (st'.bracket > 0 && !(t.recolumn φ).isContinuationLead &&
      decide ((t.recolumn φ).col ≤ st'.bracketBlockCol)) =
        (st.bracket > 0 && !t.isContinuationLead && decide (t.col ≤ st.bracketBlockCol)) := by
    rw [recolumn_isContinuationLead, hst.bracket]
    by_cases hopen : st.bracket > 0
    · obtain ⟨hblock, hcompared⟩ := hst.blockCol hopen
      have hle : ((t.recolumn φ).col ≤ st'.bracketBlockCol) ↔ t.col ≤ st.bracketBlockCol := by
        rw [hblock]
        exact hφ.le_iff ht hcompared
      rw [decide_eq_decide.mpr hle]
    · simp [hopen]
  unfold abandonBracket
  rw [hcond]
  split
  · refine ⟨report_same h ?_, ?_⟩
    · simp only [bracketOff_same hst]
    · exact ⟨rfl, rfl, hst.firstLogical, fun hpos => absurd hpos (UInt32.lt_irrefl 0)⟩
  · exact ⟨h, hst⟩

theorem layoutStart_same (hφ : Recolumns φ tokens) (ht : Compared tokens t.col)
    (h : SameLayout φ tokens f f') (hst : SameState φ tokens st st') :
    Option.Rel (fun p p' => SameLayout φ tokens p.1 p'.1 ∧ SameState φ tokens p.2 p'.2)
      (layoutStart t f st) (layoutStart (t.recolumn φ) f' st') := by
  obtain ⟨hf, hs⟩ := abandonBracket_same hφ ht h hst
  unfold layoutStart
  rw [recolumn_isFirstOnLine]
  split
  · simp only [hs.bracket]
    split
    · next hbracket =>
        apply lockstep_bind (layoutLine_same hφ ht hf hs)
        intro g g' hg
        exact .some ⟨hg, rfl, hs.bracketOpen, rfl, hs.blockCol⟩
    · exact .some ⟨hf, hs⟩
  · exact .some ⟨h, hst⟩

theorem countBracket_same (h : SameLayout φ tokens f f') (hst : SameState φ tokens st st') :
    SameState φ tokens (countBracket t f.stack st)
      (countBracket (t.recolumn φ) f'.stack st') := by
  have hkind : (t.recolumn φ).kind = t.kind := rfl
  unfold countBracket
  rw [hkind, hst.bracket]
  split
  · by_cases hzero : st.bracket = 0
    · simp only [hzero, if_true]
      exact ⟨rfl, rfl, hst.firstLogical,
        fun _ => ⟨h.top, h.compared _ List.mem_cons_self⟩⟩
    · simp only [hzero, if_false]
      refine ⟨by rw [hst.bracket], hst.bracketOpen, hst.firstLogical, fun _ => hst.blockCol ?_⟩
      exact UInt32.pos_iff_ne_zero.mpr hzero
  · split
    · split
      · next hpos =>
          refine ⟨rfl, ?_, hst.firstLogical, fun _ => hst.blockCol hpos⟩
          simp only [hst.bracketOpen]
          split
          · rfl
          · rfl
      · exact hst
    · exact hst

theorem layoutToken_same (hφ : Recolumns φ tokens) (ht : Compared tokens t.col)
    (h : SameLayout φ tokens f f') (hst : SameState φ tokens st st') :
    Option.Rel (fun p p' => SameLayout φ tokens p.1 p'.1 ∧ SameState φ tokens p.2 p'.2)
      (layoutToken t f st) (layoutToken (t.recolumn φ) f' st') := by
  unfold layoutToken
  apply lockstep_bind (layoutStart_same hφ ht h hst)
  rintro ⟨g, st₁⟩ ⟨g', st₁'⟩ ⟨hg, hst₁⟩
  apply lockstep_bind (putToken_same hg)
  intro o o' ho
  exact .some ⟨ho, countBracket_same hg hst₁⟩

theorem layoutEof_same (hφ : Recolumns φ tokens) (h : SameLayout φ tokens f f')
    (hst : SameState φ tokens st st') :
    Option.Rel (SameLayout φ tokens) (layoutEof t f st) (layoutEof (t.recolumn φ) f' st') := by
  have hopen : st'.bracketOpen.isSome = st.bracketOpen.isSome := by
    rw [hst.bracketOpen, Option.isSome_map]
  have hreport : SameLayout φ tokens
      (if st.bracket > 0 && st.bracketOpen.isSome then
        f.report ⟨.layBracket, bracketOff st, 1,
          "unclosed bracket; it is still open at end of file"⟩
      else f)
      (if st'.bracket > 0 && st'.bracketOpen.isSome then
        f'.report ⟨.layBracket, bracketOff st', 1,
          "unclosed bracket; it is still open at end of file"⟩
      else f') := by
    rw [hopen, hst.bracket, bracketOff_same hst]
    split
    · exact report_same h rfl
    · exact h
  unfold layoutEof
  rw [hst.firstLogical]
  have hclose : ∀ g g', SameLayout φ tokens g g' →
      Option.Rel (SameLayout φ tokens) (popTo g 0 t >>= fun o => putToken o t)
        (popTo g' 0 (t.recolumn φ) >>= fun o => putToken o (t.recolumn φ)) := fun g g' hg =>
    lockstep_bind (popTo_same (fun d hd => hφ.zero_lt_iff hd) hg) fun o o' ho => putToken_same ho
  by_cases hfirst : st.firstLogical
  · simp only [hfirst, if_true]
    exact hclose _ _ hreport
  · simp only [hfirst, Bool.false_eq_true, if_false]
    exact lockstep_bind (put_same hreport .newline) hclose

theorem layoutLoop_same (hφ : Recolumns φ tokens) (rest : List WokToken)
    (hrest : ∀ t ∈ rest, t ∈ tokens) (h : SameLayout φ tokens f f')
    (hst : SameState φ tokens st st') :
    Option.Rel (SameLayout φ tokens) (layoutLoop rest f st)
      (layoutLoop (rest.map (WokToken.recolumn φ)) f' st') := by
  induction rest generalizing f f' st st' with
  | nil => exact .some h
  | cons t rest ih =>
      have ht : Compared tokens t.col := .inr ⟨t, hrest t List.mem_cons_self, rfl⟩
      have hkind : (t.recolumn φ).kind = t.kind := rfl
      rw [List.map_cons]
      unfold layoutLoop
      rw [hkind]
      split
      · exact layoutEof_same hφ h hst
      · apply lockstep_bind (layoutToken_same hφ ht h hst)
        rintro ⟨g, st₁⟩ ⟨g', st₁'⟩ ⟨hg, hst₁⟩
        exact ih (fun u hu => hrest u (List.mem_cons_of_mem t hu)) hg hst₁

/-- Layout depends on the order of the columns only. -/
theorem wokLayout_recolumn (φ : UInt32 → UInt32) (tokens : List WokToken)
    (hφ : Recolumns φ tokens) :
    layoutOutcome (wokLayout (tokens.map (WokToken.recolumn φ))) =
      layoutOutcome (wokLayout tokens) := by
  have hstart : SameLayout φ tokens ⟨[], layoutCap tokens.length, ⟨1, []⟩, []⟩
      ⟨[], layoutCap (tokens.map (WokToken.recolumn φ)).length, ⟨1, []⟩, []⟩ :=
    ⟨rfl, by rw [List.length_map], hφ.one.symm, rfl, rfl, by
      intro c hc
      exact .inl (List.mem_singleton.mp hc)⟩
  have hstate : SameState φ tokens .start .start :=
    ⟨rfl, rfl, rfl, fun hpos => absurd hpos (by decide)⟩
  have hrun := layoutLoop_same hφ tokens (fun t ht => ht) hstart hstate
  unfold wokLayout
  generalize layoutLoop tokens _ _ = r at hrun ⊢
  generalize layoutLoop (tokens.map (WokToken.recolumn φ)) _ _ = r' at hrun ⊢
  cases hrun with
  | none => rfl
  | some hg =>
      exact congrArg some (Prod.ext hg.out hg.diag)

/-- A block indented by two and by four. -/
def twoLines : List WokToken :=
  [⟨0, 1, 1, .varid, .none, 1⟩, ⟨4, 1, 3, .varid, .none, 1⟩, ⟨6, 0, 1, .eof, .none, 1⟩]

theorem wokLayout_recolumn_twoLines :
    layoutOutcome (wokLayout (twoLines.map (WokToken.recolumn fun c => c + c - 1))) =
      layoutOutcome (wokLayout twoLines) := by
  apply wokLayout_recolumn
  have hcompared : ∀ c, Compared twoLines c → c = 1 ∨ c = 3 := by
    rintro c (rfl | ⟨t, ht, rfl⟩)
    · exact .inl rfl
    · revert t
      decide
  refine ⟨rfl, fun c d hc hd => ?_⟩
  rcases hcompared c hc with rfl | rfl
  · rcases hcompared d hd with rfl | rfl
    · decide
    · decide
  · rcases hcompared d hd with rfl | rfl
    · decide
    · decide

end Wok.Grammar
