/-
Module: Wok.Proofs.LayoutGroups
Purpose: A bracket group is transparent to layout: when no layout token comes between the
  outermost opener and its closer.
Imports: Mathlib.Algebra.Order.Ring.Int, Wok.Proofs.Layout
Trusted boundary: none
Main exports: Group, Shielded, Transparent, lead_eq_nil_iff, group_transparent_iff,
  group_transparent_of_depth
-/
import Mathlib.Algebra.Order.Ring.Int
import Wok.Proofs.Layout

namespace Wok.Grammar

/-! ### Groups -/

/-- The number of open brackets after a token. -/
def depthAt (d : Nat) (t : WokToken) : Nat :=
  if t.kind.isOpenBracket then d + 1 else if t.kind.isCloseBracket then d - 1 else d

def depthOf (d : Nat) (ts : List WokToken) : Nat := ts.foldl depthAt d

/-- From `d` open brackets on, one at least stays open, and one is open at the end. -/
def Inside : Nat → List WokToken → Prop
  | d, [] => d = 1
  | d, t :: ts => 0 < depthAt d t ∧ Inside (depthAt d t) ts

/-- An opener with no bracket open before it, what is inside, and its closer. -/
structure Group (before inner : List WokToken) (opener closer : WokToken) : Prop where
  outermost : depthOf 0 before = 0
  opens : opener.kind.isOpenBracket = true
  inside : Inside 1 inner
  closes : closer.kind.isCloseBracket = true

/-- The block that is current at a token. -/
def blockAt (before : List WokToken) (t : WokToken) : Levels :=
  (before.foldl Position.next .start).levelsAt t

/-- A line that starts with this token goes on with what is inside a group opened in a block at
column `c`. -/
def GoesOn (c : UInt32) (t : WokToken) : Prop :=
  t.isFirstOnLine = true → t.isContinuationLead = true ∨ c < t.col

/-- The count of brackets that the filter keeps: it wraps, and a closer at 0 is ignored. -/
def bracketCount (w : UInt32) (t : WokToken) : UInt32 :=
  if t.kind.isOpenBracket then w + 1
  else if t.kind.isCloseBracket then (if w > 0 then w - 1 else w)
  else w

/-- Every line that starts where the count is 0 starts with a continuation lead that closes no
block. -/
def Shielded (c : UInt32) : UInt32 → List WokToken → Prop
  | _, [] => True
  | w, t :: ts =>
      (t.isFirstOnLine = true → w = 0 → t.isContinuationLead = true ∧ c ≤ t.col) ∧
        Shielded c (bracketCount w t) ts

def plain (ts : List WokToken) : List WokToken := ts.filter fun t => !t.kind.isLayout

/-- The group stands in the output as in the input, with nothing put in. -/
def Transparent (before inner after : List WokToken) (opener closer : WokToken)
    (out : List WokToken) : Prop :=
  ∃ a b, out = a ++ opener :: (inner ++ closer :: b) ∧ plain a = before ∧ plain b = after

/-! ### One token inside a group -/

variable {l : Levels} {w c : UInt32} {p : Position} {t : WokToken} {ts rest : List WokToken}

/-- Between two tokens of a group that was opened in these blocks, with the count at `w`. -/
structure InGroup (l : Levels) (w : UInt32) (p : Position) : Prop where
  levels : p.levels = l
  count : p.state.bracket = w
  blockCol : w > 0 → p.state.bracketBlockCol = l.top
  first : p.state.firstLogical = true → l = ⟨1, []⟩
  ordered : Ordered l.below l.top

theorem atLine_of_goesOn (h : InGroup l w p) (ht : GoesOn l.top t)
    (hline : t.isFirstOnLine = true) : p.state.atLine t = p.state := by
  unfold LayoutState.atLine
  rw [if_neg]
  simp only [Bool.and_eq_true, Bool.not_eq_true', decide_eq_true_eq, not_and]
  rintro ⟨hopen, hlead⟩ hle
  rw [h.blockCol (by rw [← h.count]; exact hopen)] at hle
  rcases ht hline with hcont | hright
  · rw [hcont] at hlead
    cases hlead
  · exact UInt32.lt_irrefl _ (UInt32.lt_of_lt_of_le hright hle)

theorem startsLine_of_goesOn (h : InGroup l w p) (ht : GoesOn l.top t) :
    p.startsLine t = (t.isFirstOnLine && w = 0) := by
  unfold Position.startsLine
  cases hline : t.isFirstOnLine with
  | false => rfl
  | true => rw [atLine_of_goesOn h ht hline, h.count]

/-- A continuation lead closes a block exactly when it is left of it. -/
theorem close_below_length (h : Ordered l.below l.top) (hcol : 1 ≤ c) :
    l.below.length - (l.close c).below.length = 0 ↔ l.top ≤ c := by
  constructor
  · intro hlen
    by_contra hlt
    rw [UInt32.not_le] at hlt
    rcases l with ⟨top, below⟩
    cases h with
    | base => exact UInt32.lt_irrefl _ (UInt32.lt_of_lt_of_le hlt hcol)
    | @push below next _ hnext hc =>
        have hclose : (Levels.close c ⟨top, next :: below⟩) = closeLevels c below next := by
          unfold Levels.close
          rw [closeLevels, if_pos hlt]
        have hle := length_closeLevels c next below
        rw [hclose, List.length_cons] at hlen
        omega
  · intro hle
    rw [Levels.close_of_le (UInt32.not_lt.mpr hle), Nat.sub_self]

/-- An item line right of the block has a layout token before it. -/
theorem lead_item_ne_nil (h : InGroup l w p) (hline : p.startsLine t = true)
    (hlead : t.isContinuationLead = false) (hright : l.top < t.col) : p.lead t ≠ [] := by
  intro hnil
  simp only [Position.lead, List.append_eq_nil_iff] at hnil
  obtain ⟨hsep, _, hopen⟩ := hnil
  have hitem : p.startsItem t = true := by simp [Position.startsItem, hline, hlead]
  cases hfirst : p.state.firstLogical with
  | false => simp [Position.separates, hitem, hfirst] at hsep
  | true =>
      have hl := h.first hfirst
      have hopens : p.opens t = true := by
        rw [hl] at hright
        simp [Position.opens, hitem, h.levels, hl, Levels.close, closeLevels, Levels.canOpen,
          hright, layoutMaxDepth]
      simp [hopens] at hopen

/-- No layout token comes before a token of the group exactly when it is shielded. -/
theorem lead_eq_nil_iff (h : InGroup l w p) (ht : GoesOn l.top t) (hcol : 1 ≤ t.col) :
    p.lead t = [] ↔
      (t.isFirstOnLine = true → w = 0 → t.isContinuationLead = true ∧ l.top ≤ t.col) := by
  have hstarts := startsLine_of_goesOn h ht
  cases hline : p.startsLine t with
  | false =>
      rw [hline] at hstarts
      refine iff_of_true (lead_of_not_startsLine hline) fun hfirst hw => ?_
      simp [hfirst, hw] at hstarts
  | true =>
      rw [hline] at hstarts
      have hboth : t.isFirstOnLine = true ∧ w = 0 := by simpa using hstarts.symm
      cases hlead : t.isContinuationLead with
      | true =>
          have hclose := close_below_length h.ordered hcol
          have hempty : p.lead t = [] ↔ l.below.length - (l.close t.col).below.length = 0 := by
            simp [Position.lead, Position.separates, Position.opens, Position.startsItem,
              Position.closes, hline, hlead, h.levels]
          rw [hempty, hclose]
          exact ⟨fun hle _ _ => ⟨rfl, hle⟩, fun hall => (hall hboth.1 hboth.2).2⟩
      | false =>
          have hright : l.top < t.col := by
            rcases ht hboth.1 with hcont | hright
            · rw [hlead] at hcont
              cases hcont
            · exact hright
          refine iff_of_false (lead_item_ne_nil h hline hlead hright) fun hall => ?_
          exact absurd (hall hboth.1 hboth.2).1 (by simp)

/-- The group goes on behind a token that is shielded. -/
theorem InGroup.next (h : InGroup l w p) (ht : GoesOn l.top t)
    (hshield : t.isFirstOnLine = true → w = 0 → t.isContinuationLead = true ∧ l.top ≤ t.col) :
    InGroup l (bracketCount w t) (p.next t) := by
  have hstarts := startsLine_of_goesOn h ht
  have hlevels : p.levelsAt t = l := by
    unfold Position.levelsAt
    split
    · next hline =>
        rw [hstarts] at hline
        have hboth : t.isFirstOnLine = true ∧ w = 0 := by simpa using hline
        obtain ⟨hlead, hle⟩ := hshield hboth.1 hboth.2
        rw [if_pos hlead, h.levels, Levels.close_of_le (UInt32.not_lt.mpr hle)]
    · exact h.levels
  have hstate : ∃ b, p.stateAt t = { p.state with firstLogical := b } ∧
      (b = true → p.state.firstLogical = true) := by
    unfold Position.stateAt
    split
    · next hline =>
        have hfirst : t.isFirstOnLine = true := by
          rw [hstarts] at hline
          simp only [Bool.and_eq_true] at hline
          exact hline.1
        rw [atLine_of_goesOn h ht hfirst]
        exact ⟨false, rfl, by simp⟩
    · split
      · next hfirst =>
          rw [atLine_of_goesOn h ht hfirst]
          exact ⟨_, rfl, id⟩
      · exact ⟨_, rfl, id⟩
  obtain ⟨b, hstate, hfirst⟩ := hstate
  have hnext : p.next t = ⟨l, countBracket t l { p.state with firstLogical := b }⟩ := by
    unfold Position.next
    rw [hlevels, hstate]
  rw [hnext]
  refine ⟨rfl, ?_, ?_, ?_, h.ordered⟩
  · simp only [countBracket, bracketCount, h.count]
    split
    · split
      · rfl
      · rfl
    · split
      · split
        · rfl
        · rfl
      · rfl
  · intro hpos
    simp only [countBracket, h.count]
    split
    · by_cases hzero : w = 0
      · rw [if_pos hzero]
      · rw [if_neg hzero]
        exact h.blockCol (UInt32.pos_iff_ne_zero.mpr hzero)
    · next hopen =>
        have hopen : t.kind.isOpenBracket = false := by simpa using hopen
        by_cases hclose : t.kind.isCloseBracket = true
        · rw [if_pos hclose]
          by_cases hw : w > 0
          · rw [if_pos hw]
            exact h.blockCol hw
          · simp [bracketCount, hopen, hclose, hw] at hpos
        · rw [if_neg hclose]
          refine h.blockCol ?_
          simpa [bracketCount, hopen, hclose] using hpos
  · intro htrue
    refine h.first (hfirst ?_)
    revert htrue
    simp only [countBracket]
    split
    · split
      · exact id
      · exact id
    · split
      · split
        · exact id
        · exact id
      · exact id

/-! ### A run inside a group -/

/-- No layout token is put out before these tokens. -/
def Bare : Position → List WokToken → Prop
  | _, [] => True
  | p, t :: ts => p.lead t = [] ∧ Bare (p.next t) ts

theorem bare_iff (h : InGroup l w p) (hts : ∀ t ∈ ts, GoesOn l.top t) (hcol : ∀ t ∈ ts, 1 ≤ t.col) :
    Bare p ts ↔ Shielded l.top w ts := by
  induction ts generalizing p w with
  | nil => exact Iff.rfl
  | cons t ts ih =>
      have ht := hts t List.mem_cons_self
      have hlead := lead_eq_nil_iff h ht (hcol t List.mem_cons_self)
      simp only [Bare, Shielded, hlead]
      refine and_congr_right fun hshield => ?_
      exact ih (h.next ht hshield) (fun u hu => hts u (List.mem_cons_of_mem t hu))
        fun u hu => hcol u (List.mem_cons_of_mem t hu)

/-- What is put out for tokens none of which is the end of the file. -/
def emitsAll : Position → List WokToken → List WokToken
  | _, [] => []
  | p, t :: ts => p.emits t ++ emitsAll (p.next t) ts

theorem layoutOf_append (hts : ∀ t ∈ ts, t.kind ≠ .eof) :
    layoutOf p (ts ++ rest) = emitsAll p ts ++ layoutOf (ts.foldl Position.next p) rest := by
  induction ts generalizing p with
  | nil => rfl
  | cons t ts ih =>
      have htail := ih (p := p.next t) fun u hu => hts u (List.mem_cons_of_mem t hu)
      simp only [List.cons_append, layoutOf, hts t List.mem_cons_self, if_false, emitsAll,
        List.foldl_cons, htail, List.append_assoc]

theorem plain_emitsAll (hts : ∀ t ∈ ts, t.kind.isLayout = false) : plain (emitsAll p ts) = ts := by
  induction ts generalizing p with
  | nil => rfl
  | cons t ts ih =>
      have ht := filter_emits (p := p) (hts t List.mem_cons_self)
      have htail := ih (p := p.next t) fun u hu => hts u (List.mem_cons_of_mem t hu)
      unfold plain at htail ⊢
      rw [emitsAll, List.filter_append, ht, htail]
      rfl

theorem emitsAll_of_bare (h : Bare p ts) : emitsAll p ts = ts := by
  induction ts generalizing p with
  | nil => rfl
  | cons t ts ih =>
      rw [emitsAll, Position.emits, h.1, ih h.2]
      rfl

/-- What comes before a token is made of layout tokens. -/
theorem isLayout_of_mem_lead {u : WokToken} (hu : u ∈ p.lead t) : u.kind.isLayout = true := by
  simp only [Position.lead, List.mem_append, List.mem_replicate] at hu
  rcases hu with hu | ⟨_, rfl⟩ | hu
  · split at hu
    · rw [List.mem_singleton.mp hu]
      rfl
    · cases hu
  · rfl
  · split at hu
    · rw [List.mem_singleton.mp hu]
      rfl
    · cases hu

/-- Where tokens are put out one right after the other, nothing came before them. -/
theorem bare_of_prefix (more : List WokToken) (hts : ∀ t ∈ ts, t.kind.isLayout = false)
    (h : emitsAll p ts ++ rest = ts ++ more) : Bare p ts := by
  induction ts generalizing p with
  | nil => trivial
  | cons t ts ih =>
      have ht := hts t List.mem_cons_self
      rw [emitsAll, Position.emits, List.append_assoc, List.append_assoc, List.cons_append] at h
      cases hlead : p.lead t with
      | nil =>
          rw [hlead] at h
          have htail : emitsAll (p.next t) ts ++ rest = ts ++ more := (List.cons.inj h).2
          exact ⟨hlead, ih (fun u hu => hts u (List.mem_cons_of_mem t hu)) htail⟩
      | cons u us =>
          rw [hlead, List.cons_append] at h
          have hhead : u = t := (List.cons.inj h).1
          have hlayout := isLayout_of_mem_lead (p := p) (t := t) (u := u)
            (by rw [hlead]; exact List.mem_cons_self)
          rw [hhead, ht] at hlayout
          cases hlayout

/-- A list is split in one way only at the plain token behind given plain tokens. -/
theorem split_unique {xs ys xs' ys' : List WokToken} {o o' : WokToken}
    (ho : o.kind.isLayout = false) (ho' : o'.kind.isLayout = false)
    (h : xs ++ o :: ys = xs' ++ o' :: ys') (hplain : plain xs = plain xs') :
    xs = xs' ∧ ys = ys' := by
  induction xs generalizing xs' with
  | nil =>
      cases xs' with
      | nil => exact ⟨rfl, (List.cons.inj h).2⟩
      | cons x' xs' =>
          obtain ⟨rfl, _⟩ := List.cons.inj h
          simp [plain, ho] at hplain
  | cons x xs ih =>
      cases xs' with
      | nil =>
          obtain ⟨rfl, _⟩ := List.cons.inj h
          simp [plain, ho'] at hplain
      | cons x' xs' =>
          obtain ⟨rfl, htail⟩ := List.cons.inj h
          have hplain' : plain xs = plain xs' := by
            unfold plain at hplain ⊢
            rw [List.filter_cons, List.filter_cons] at hplain
            split at hplain
            · exact (List.cons.inj hplain).2
            · exact hplain
          obtain ⟨rfl, rfl⟩ := ih htail hplain'
          exact ⟨rfl, rfl⟩

/-! ### Before a group -/

/-- The filter counts no more brackets than are open. -/
theorem bracket_le_depth {d : Nat} (h : p.state.bracket.toNat ≤ d) :
    (p.next t).state.bracket.toNat ≤ depthAt d t := by
  have hline : (p.stateAt t).bracket.toNat ≤ d := by
    have hat : (p.state.atLine t).bracket.toNat ≤ d := by
      unfold LayoutState.atLine
      split
      · exact Nat.zero_le d
      · exact h
    unfold Position.stateAt
    split
    · exact hat
    · split
      · exact hat
      · exact h
  unfold Position.next countBracket depthAt
  split
  · have hadd : ((p.stateAt t).bracket + 1).toNat ≤ (p.stateAt t).bracket.toNat + 1 := by
      rw [UInt32.toNat_add]
      exact Nat.mod_le _ _
    simp only
    split
    · exact Nat.le_trans hadd (by omega)
    · exact Nat.le_trans hadd (by omega)
  · split
    · split
      · next hpos =>
          have hone : (1 : UInt32) ≤ (p.stateAt t).bracket := by
            rw [UInt32.le_iff_toNat_le]
            exact UInt32.lt_iff_toNat_lt.mp hpos
          simp only
          rw [UInt32.toNat_sub_of_le _ _ hone]
          have : (1 : UInt32).toNat = 1 := rfl
          omega
      · next hpos =>
          have hzero : (p.stateAt t).bracket = 0 := by
            apply UInt32.toNat_inj.mp
            exact Nat.eq_zero_of_not_pos fun h => hpos (UInt32.lt_iff_toNat_lt.mpr h)
          rw [hzero]
          exact Nat.zero_le _
    · exact hline

/-- Where the filter is before it has met a line. -/
def Begun (p : Position) : Prop :=
  (p.state.firstLogical = true → p.levels = ⟨1, []⟩) ∧ Ordered p.levels.below p.levels.top

theorem countBracket_firstLogical (st : LayoutState) :
    (countBracket t l st).firstLogical = st.firstLogical := by
  unfold countBracket
  split
  · split
    · rfl
    · rfl
  · split
    · split
      · rfl
      · rfl
    · rfl

theorem Begun.levelsAt (h : Begun p) (hfirst : (p.stateAt t).firstLogical = true) :
    p.levelsAt t = ⟨1, []⟩ := by
  unfold Position.stateAt at hfirst
  cases hline : p.startsLine t with
  | true =>
      rw [hline, if_pos rfl] at hfirst
      cases hfirst
  | false =>
      rw [levelsAt_of_not_startsLine hline]
      refine h.1 ?_
      rw [hline, if_neg (by simp)] at hfirst
      split at hfirst
      · rwa [atLine_firstLogical] at hfirst
      · exact hfirst

theorem Begun.next (h : Begun p) : Begun (p.next t) := by
  refine ⟨fun hfirst => ?_, h.2.levelsAt t⟩
  change (countBracket t _ (p.stateAt t)).firstLogical = true at hfirst
  rw [countBracket_firstLogical] at hfirst
  exact h.levelsAt hfirst

theorem run_before (ts : List WokToken) {d : Nat} (hbegun : Begun p)
    (hcount : p.state.bracket.toNat ≤ d) :
    Begun (ts.foldl Position.next p) ∧
      (ts.foldl Position.next p).state.bracket.toNat ≤ depthOf d ts := by
  induction ts generalizing p d with
  | nil => exact ⟨hbegun, hcount⟩
  | cons t ts ih => exact ih hbegun.next (bracket_le_depth hcount)

theorem begun_start : Begun .start := ⟨fun _ => rfl, .base⟩

/-- Behind the opener of a group the count is 1. -/
theorem inGroup_of_opener {d : Nat} (hbegun : Begun p) (hcount : p.state.bracket.toNat ≤ d)
    (hd : d = 0) (hopen : t.kind.isOpenBracket = true) :
    InGroup (p.levelsAt t) 1 (p.next t) := by
  have hline : (p.stateAt t).bracket = 0 := by
    have hzero : p.state.bracket = 0 := by
      apply UInt32.toNat_inj.mp
      change p.state.bracket.toNat = 0
      omega
    have hat : (p.state.atLine t).bracket = 0 := by
      unfold LayoutState.atLine
      split
      · rfl
      · exact hzero
    unfold Position.stateAt
    split
    · exact hat
    · split
      · exact hat
      · exact hzero
  have hstate : (p.next t).state = { p.stateAt t with
      bracketBlockCol := (p.levelsAt t).top, bracketOpen := some t, bracket := 0 + 1 } := by
    simp only [Position.next, countBracket, hopen, hline, if_true]
  refine ⟨rfl, by rw [hstate]; rfl, fun _ => by rw [hstate], fun hfirst => ?_, hbegun.2.levelsAt t⟩
  rw [hstate] at hfirst
  exact hbegun.levelsAt hfirst

/-! ### Groups in the output -/

variable {before inner after tokens : List WokToken} {opener closer : WokToken}

theorem ne_eof_of_scanned (hscan : Scanned tokens) {xs ys : List WokToken} {t : WokToken}
    (htokens : tokens = xs ++ t :: ys) (ht : t.kind ≠ .eof) : ∀ u ∈ xs ++ [t], u.kind ≠ .eof := by
  obtain ⟨init, last, hends, heof, hinit⟩ := hscan.ends
  have hdrop : tokens.dropLast = init := by rw [hends, List.dropLast_concat]
  rw [htokens, List.dropLast_append_of_ne_nil (by simp)] at hdrop
  intro u hu
  rcases List.mem_append.mp hu with hu | hu
  · exact hinit u (by rw [← hdrop]; exact List.mem_append_left _ hu)
  · rw [List.mem_singleton.mp hu]
    exact ht

theorem plain_append (xs ys : List WokToken) : plain (xs ++ ys) = plain xs ++ plain ys :=
  List.filter_append ..

theorem plain_of_layout (h : ∀ t ∈ ts, t.kind.isLayout = true) : plain ts = [] := by
  unfold plain
  rw [List.filter_eq_nil_iff]
  intro t ht
  simp [h t ht]

theorem plain_of_plain (h : ∀ t ∈ ts, t.kind.isLayout = false) : plain ts = ts := by
  unfold plain
  rw [List.filter_eq_self]
  intro t ht
  simp [h t ht]

/-- The output of the filter has a group as it was read exactly when the group is shielded. -/
theorem layoutOf_transparent_iff (hscan : Scanned tokens)
    (htokens : tokens = before ++ opener :: (inner ++ closer :: after))
    (hgroup : Group before inner opener closer)
    (hlines : ∀ t ∈ inner ++ [closer], GoesOn (blockAt before opener).top t) :
    Transparent before inner after opener closer (layoutOf .start tokens) ↔
      Shielded (blockAt before opener).top 1 (inner ++ [closer]) := by
  have hopen : opener.kind ≠ .eof := by
    intro h
    have hbracket := hgroup.opens
    rw [h] at hbracket
    cases hbracket
  have hclose : closer.kind ≠ .eof := by
    intro h
    have hbracket := hgroup.closes
    rw [h] at hbracket
    cases hbracket
  have hsplit : tokens = (before ++ opener :: inner) ++ closer :: after := by
    rw [htokens, List.append_assoc, List.cons_append]
  have heof := ne_eof_of_scanned hscan hsplit hclose
  have hmem : ∀ t ∈ before ++ opener :: (inner ++ [closer]), t ∈ tokens := by
    intro t ht
    rw [htokens]
    simp only [List.mem_append, List.mem_cons, List.not_mem_nil, or_false] at ht ⊢
    tauto
  obtain ⟨hbegun, hcount⟩ := run_before before begun_start (Nat.le_refl 0)
  have hin := inGroup_of_opener hbegun hcount hgroup.outermost hgroup.opens
  have hbare : Bare ((before.foldl Position.next .start).next opener) (inner ++ [closer]) ↔
      Shielded (blockAt before opener).top 1 (inner ++ [closer]) :=
    bare_iff hin hlines fun t ht => hscan.col t (hmem t (by
      rw [List.mem_append, List.mem_cons]
      exact .inr (.inr ht)))
  have hplainGroup : ∀ t ∈ inner ++ [closer], t.kind.isLayout = false := fun t ht =>
    hscan.kind t (hmem t (by
      rw [List.mem_append, List.mem_cons]
      exact .inr (.inr ht)))
  have hplainBefore : ∀ t ∈ before, t.kind.isLayout = false := fun t ht =>
    hscan.kind t (hmem t (List.mem_append_left _ ht))
  have hplainOpener : opener.kind.isLayout = false :=
    hscan.kind opener (hmem opener (by simp))
  -- the output: up to the opener, the group with what comes before its tokens, the rest
  let p := before.foldl Position.next .start
  let q := p.next opener
  let rest := layoutOf ((inner ++ [closer]).foldl Position.next q) after
  have hout : layoutOf .start tokens =
      (emitsAll .start before ++ p.lead opener) ++
        opener :: (emitsAll q (inner ++ [closer]) ++ rest) := by
    have hgroupOut : layoutOf q ((inner ++ [closer]) ++ after) =
        emitsAll q (inner ++ [closer]) ++ rest :=
      layoutOf_append fun t ht => heof t (by
        simp only [List.mem_append, List.mem_cons, List.not_mem_nil, or_false] at ht ⊢
        tauto)
    rw [htokens, layoutOf_append fun t ht => heof t (by simp [ht])]
    rw [layoutOf, if_neg hopen, Position.emits]
    rw [show inner ++ closer :: after = (inner ++ [closer]) ++ after by simp, hgroupOut]
    simp only [List.append_assoc, List.singleton_append]
    rfl
  have hplainX : plain (emitsAll .start before ++ p.lead opener) = before := by
    rw [plain_append, plain_emitsAll hplainBefore,
      plain_of_layout fun t ht => isLayout_of_mem_lead ht, List.append_nil]
  rw [← hbare, hout]
  constructor
  · rintro ⟨a, b, heq, ha, _⟩
    obtain ⟨_, htail⟩ := split_unique hplainOpener hplainOpener heq (by rw [hplainX, ha])
    refine bare_of_prefix b hplainGroup (?_ : _ ++ rest = _)
    rw [htail, List.append_assoc, List.singleton_append]
  · intro hbare
    have hgroupOut := emitsAll_of_bare hbare
    refine ⟨emitsAll .start before ++ p.lead opener, rest, ?_, hplainX, ?_⟩
    · rw [hgroupOut]
      simp only [List.append_assoc, List.singleton_append]
    · have hall := (layoutOf_wellLaid .start hscan.ends hscan.kind).2.2
      change plain (layoutOf .start tokens) = tokens at hall
      rw [hout, hgroupOut, plain_append, hplainX,
        show opener :: (inner ++ [closer] ++ rest) =
          (opener :: (inner ++ [closer])) ++ rest by simp,
        plain_append, @plain_of_plain (opener :: (inner ++ [closer])), htokens,
        show opener :: (inner ++ closer :: after) =
          (opener :: (inner ++ [closer])) ++ after by simp]
        at hall
      · exact List.append_cancel_left (List.append_cancel_left hall)
      · intro t ht
        rcases List.mem_cons.mp ht with rfl | ht
        · exact hplainOpener
        · exact hplainGroup t ht

theorem wokLayout_out {out : List WokToken} {diag : List LayoutDiag} (hscan : Scanned tokens)
    (hrun : wokLayout tokens = some (out, diag)) : out = layoutOf .start tokens := by
  have heq := wokLayout_eq hscan.col
  rw [hrun] at heq
  split at heq
  · exact Option.some.inj heq
  · cases heq

/-- Whatever lines a group has that go on with it: it is transparent to layout exactly when it is
shielded where the count of brackets is 0. -/
theorem group_transparent_iff (tokens before inner after : List WokToken)
    (opener closer : WokToken) (out : List WokToken) (diag : List LayoutDiag)
    (hscan : Scanned tokens)
    (htokens : tokens = before ++ opener :: (inner ++ closer :: after))
    (hgroup : Group before inner opener closer)
    (hlines : ∀ t ∈ inner ++ [closer], GoesOn (blockAt before opener).top t)
    (hrun : wokLayout tokens = some (out, diag)) :
    Transparent before inner after opener closer out ↔
      Shielded (blockAt before opener).top 1 (inner ++ [closer]) := by
  rw [wokLayout_out hscan hrun]
  exact layoutOf_transparent_iff hscan htokens hgroup hlines

/-- A name in brackets over two lines. -/
theorem group_transparent_name :
    Transparent [] [nameAt 3 2] [endOfFile 6] ⟨0, 1, 1, .lparen, .none, 1⟩
      ⟨4, 1, 3, .rparen, .none, 0⟩
      [⟨0, 1, 1, .lparen, .none, 1⟩, nameAt 3 2, ⟨4, 1, 3, .rparen, .none, 0⟩,
        mark .newline (endOfFile 6), endOfFile 6] := by
  refine (group_transparent_iff
    [⟨0, 1, 1, .lparen, .none, 1⟩, nameAt 3 2, ⟨4, 1, 3, .rparen, .none, 0⟩, endOfFile 6] [] _ _ _ _
    _ [] ?_ rfl ?_ ?_ (by decide)).mpr ?_
  · exact ⟨⟨[⟨0, 1, 1, .lparen, .none, 1⟩, nameAt 3 2, ⟨4, 1, 3, .rparen, .none, 0⟩], endOfFile 6,
      rfl, rfl, by decide⟩, by decide, by decide⟩
  · exact ⟨rfl, rfl, ⟨Nat.one_pos, rfl⟩, rfl⟩
  · unfold GoesOn
    decide
  · exact ⟨by decide, by decide, trivial⟩

/-! ### Groups less than `2 ^ 32` deep -/

theorem toNat_ofNat_lt {k : Nat} (h : k < 2 ^ 32) : (UInt32.ofNat k).toNat = k := by
  rw [UInt32.toNat_ofNat']
  exact Nat.mod_eq_of_lt h

theorem bracketCount_of_depth {d : Nat} (hd : 0 < depthAt d t)
    (hdlt : d < 2 ^ 32) : bracketCount (.ofNat d) t = .ofNat (depthAt d t) := by
  unfold bracketCount depthAt at *
  split
  · exact (UInt32.ofNat_add d 1).symm
  · split
    · next hopen hclose =>
        rw [if_neg hopen, if_pos hclose] at hd
        have hpos : (UInt32.ofNat d) > 0 := by
          rw [gt_iff_lt, UInt32.lt_iff_toNat_lt, toNat_ofNat_lt hdlt]
          change 0 < d
          omega
        rw [if_pos hpos]
        apply UInt32.toNat_inj.mp
        have hone : (1 : UInt32) ≤ UInt32.ofNat d := by
          rw [UInt32.le_iff_toNat_le, toNat_ofNat_lt hdlt]
          change 1 ≤ d
          omega
        rw [UInt32.toNat_sub_of_le _ _ hone, toNat_ofNat_lt hdlt,
          toNat_ofNat_lt (by omega)]
        rfl
    · rfl

/-- The count is the number of open brackets, which is not 0. -/
theorem shielded_of_depth {d : Nat} (hd : 0 < d) (hin : Inside d ts)
    (hdepth : ∀ pre, pre <+: ts → depthOf d pre < 2 ^ 32) :
    Shielded c (.ofNat d) (ts ++ [t]) := by
  have hne : ∀ d : Nat, 0 < d → d < 2 ^ 32 → UInt32.ofNat d ≠ 0 := by
    intro d hd hlt h
    have hnat := congrArg UInt32.toNat h
    rw [toNat_ofNat_lt hlt] at hnat
    change d = 0 at hnat
    omega
  have hlt := hdepth [] List.nil_prefix
  induction ts generalizing d with
  | nil => exact ⟨fun _ hzero => absurd hzero (hne d hd hlt), trivial⟩
  | cons u ts ih =>
      have hnext := hdepth [u] ⟨ts, rfl⟩
      refine ⟨fun _ hzero => absurd hzero (hne d hd hlt), ?_⟩
      rw [bracketCount_of_depth hin.1 hlt]
      refine ih hin.1 hin.2 (fun pre hpre => ?_) hnext
      exact hdepth (u :: pre) (List.cons_prefix_cons.mpr ⟨rfl, hpre⟩)

/-- A group that is less than `2 ^ 32` deep is transparent to layout. -/
theorem group_transparent_of_depth {out : List WokToken} {diag : List LayoutDiag}
    (hscan : Scanned tokens) (htokens : tokens = before ++ opener :: (inner ++ closer :: after))
    (hgroup : Group before inner opener closer)
    (hlines : ∀ t ∈ inner ++ [closer], GoesOn (blockAt before opener).top t)
    (hdepth : ∀ pre, pre <+: inner → depthOf 1 pre < 2 ^ 32)
    (hrun : wokLayout tokens = some (out, diag)) :
    Transparent before inner after opener closer out := by
  rw [wokLayout_out hscan hrun]
  exact (layoutOf_transparent_iff hscan htokens hgroup hlines).mpr
    (shielded_of_depth Nat.one_pos hgroup.inside hdepth)

/-! ### Deeper groups -/

/-- An item needs at most a newline and a block. -/
theorem separators_le (p : Position) (ts : List WokToken) :
    separators p ts + 2 * blocksOpened p ts ≤
      3 * ts.countP (fun t => !t.isContinuationLead) + 1 := by
  induction ts generalizing p with
  | nil => exact Nat.zero_le _
  | cons t ts ih =>
      have htail := ih (p.next t)
      have hsep : (if p.separates t then 1 else 0) + 2 * (if p.opens t then 1 else 0) ≤
          3 * if !t.isContinuationLead then 1 else 0 := by
        cases hlead : t.isContinuationLead with
        | true => simp [Position.separates, Position.opens, Position.startsItem, hlead]
        | false =>
            simp only [Bool.not_false, if_true]
            split
            · split
              · omega
              · omega
            · split
              · omega
              · omega
      simp only [separators, blocksOpened, List.countP_cons]
      split
      · split
        · omega
        · omega
      · omega

/-- A bracket alone on line `i`. -/
def bracketLine (k : WokKind) (i : Nat) : WokToken :=
  ⟨.ofNat (3 * i), 1, if i = 0 then 1 else 2, k, .none, 1⟩

def openLines (n : Nat) : List WokToken := (List.range n).map fun i => bracketLine .lparen (i + 1)

def closeLines (n : Nat) : List WokToken :=
  (List.range n).map fun i => bracketLine .rparen (n + 2 + i)

/-- Inside of the outermost of `n + 1` groups that have a name at their core. -/
def nestInner (n : Nat) : List WokToken :=
  openLines n ++ nameAt (3 * (n + 1)) 2 :: closeLines n

def nestTokens (n : Nat) : List WokToken :=
  bracketLine .lparen 0 ::
    (nestInner n ++ bracketLine .rparen (2 * n + 2) :: [endOfFile (6 * n + 9)])

theorem forall_openLines {P : WokToken → Prop} {n : Nat}
    (h : ∀ i, P (bracketLine .lparen (i + 1))) :
    ∀ t ∈ openLines n, P t := by
  intro t ht
  obtain ⟨i, _, rfl⟩ := List.mem_map.mp ht
  exact h i

theorem forall_closeLines {P : WokToken → Prop} {n : Nat}
    (h : ∀ i, P (bracketLine .rparen (n + 2 + i))) : ∀ t ∈ closeLines n, P t := by
  intro t ht
  obtain ⟨i, _, rfl⟩ := List.mem_map.mp ht
  exact h i

theorem forall_nestInner {P : WokToken → Prop} {n : Nat}
    (hopen : ∀ i, P (bracketLine .lparen (i + 1))) (hname : P (nameAt (3 * (n + 1)) 2))
    (hclose : ∀ i, P (bracketLine .rparen (n + 2 + i))) : ∀ t ∈ nestInner n, P t := by
  intro t ht
  rcases List.mem_append.mp ht with ht | ht
  · exact forall_openLines hopen t ht
  · rcases List.mem_cons.mp ht with rfl | ht
    · exact hname
    · exact forall_closeLines hclose t ht

theorem inside_openers {d : Nat} (h : ∀ t ∈ ts, t.kind.isOpenBracket = true)
    (hrest : Inside (d + ts.length) rest) : Inside d (ts ++ rest) := by
  induction ts generalizing d with
  | nil => exact hrest
  | cons t ts ih =>
      have hdepth : depthAt d t = d + 1 := by
        unfold depthAt
        rw [if_pos (h t List.mem_cons_self)]
      refine ⟨by omega, ?_⟩
      rw [hdepth]
      refine ih (fun u hu => h u (List.mem_cons_of_mem t hu)) ?_
      rwa [List.length_cons, ← Nat.add_assoc, Nat.add_right_comm] at hrest

theorem inside_closers (h : ∀ t ∈ ts, t.kind.isOpenBracket = false ∧ t.kind.isCloseBracket = true) :
    Inside (ts.length + 1) ts := by
  induction ts with
  | nil => rfl
  | cons t ts ih =>
      obtain ⟨hopen, hclose⟩ := h t List.mem_cons_self
      have hdepth : depthAt ((t :: ts).length + 1) t = ts.length + 1 := by
        simp [depthAt, hopen, hclose]
      refine ⟨by omega, ?_⟩
      rw [hdepth]
      exact ih fun u hu => h u (List.mem_cons_of_mem t hu)

theorem shielded_append {xs : List WokToken} (h : Shielded c w (xs ++ rest)) :
    Shielded c (xs.foldl bracketCount w) rest := by
  induction xs generalizing w with
  | nil => exact h
  | cons x xs ih => exact ih h.2

theorem count_openers (h : ∀ t ∈ ts, t.kind.isOpenBracket = true) :
    ts.foldl bracketCount w = w + .ofNat ts.length := by
  induction ts generalizing w with
  | nil => exact (UInt32.add_zero w).symm
  | cons t ts ih =>
      have ht : bracketCount w t = w + 1 := by
        unfold bracketCount
        rw [if_pos (h t List.mem_cons_self)]
      rw [List.foldl_cons, ht, ih fun u hu => h u (List.mem_cons_of_mem t hu), List.length_cons,
        UInt32.ofNat_add, UInt32.add_assoc]
      congr 1
      exact UInt32.add_comm _ _

theorem nest_group (n : Nat) :
    Group [] (nestInner n) (bracketLine .lparen 0) (bracketLine .rparen (2 * n + 2)) where
  outermost := rfl
  opens := rfl
  inside := by
    refine inside_openers (forall_openLines fun i => rfl) ?_
    have hlen : (openLines n).length = (closeLines n).length := by
      simp [openLines, closeLines]
    rw [hlen, Nat.add_comm]
    refine ⟨Nat.succ_pos _, ?_⟩
    exact inside_closers (forall_closeLines fun i => ⟨rfl, rfl⟩)
  closes := rfl

theorem bracketLine_col {k : WokKind} {i : Nat} (h : 0 < i) : (bracketLine k i).col = 2 := by
  unfold bracketLine
  rw [if_neg (by omega)]

theorem nest_lines (n : Nat) :
    ∀ t ∈ nestInner n ++ [bracketLine .rparen (2 * n + 2)],
      GoesOn (blockAt [] (bracketLine .lparen 0)).top t := by
  have htop : (blockAt [] (bracketLine .lparen 0)).top = 1 := rfl
  have hright : ∀ k i, 0 < i → GoesOn 1 (bracketLine k i) := by
    intro k i hi _
    rw [bracketLine_col hi]
    exact .inr (by decide)
  rw [htop]
  intro t ht
  rcases List.mem_append.mp ht with ht | ht
  · exact forall_nestInner (fun i => hright _ _ (by omega))
      (fun _ => .inr (by decide : (1 : UInt32) < .ofNat 2)) (fun i => hright _ _ (by omega)) t ht
  · rw [List.mem_singleton.mp ht]
    exact hright _ _ (by omega)

theorem nest_scanned (n : Nat) : Scanned (nestTokens n) := by
  have hcol : ∀ k i, 1 ≤ (bracketLine k i).col := by
    intro k i
    rcases Nat.eq_zero_or_pos i with rfl | hi
    · exact (by decide : (1 : UInt32) ≤ 1)
    · rw [bracketLine_col hi]
      decide
  have hall : ∀ P : WokToken → Prop, (∀ i, P (bracketLine .lparen i)) →
      (∀ i, P (bracketLine .rparen i)) → P (nameAt (3 * (n + 1)) 2) → ∀ t ∈ bracketLine .lparen 0 ::
        (nestInner n ++ [bracketLine .rparen (2 * n + 2)]), P t := by
    intro P hopen hclose hname t ht
    rcases List.mem_cons.mp ht with rfl | ht
    · exact hopen 0
    · rcases List.mem_append.mp ht with ht | ht
      · exact forall_nestInner (fun i => hopen _) hname (fun i => hclose _) t ht
      · rw [List.mem_singleton.mp ht]
        exact hclose _
  have hsplit : nestTokens n = (bracketLine .lparen 0 ::
      (nestInner n ++ [bracketLine .rparen (2 * n + 2)])) ++ [endOfFile (6 * n + 9)] := by
    simp [nestTokens]
  constructor
  · refine ⟨_, _, hsplit, rfl, ?_⟩
    exact hall (fun t => t.kind ≠ .eof) (fun i => by simp [bracketLine])
      (fun i => by simp [bracketLine]) (by simp [nameAt])
  · intro t ht
    rw [hsplit] at ht
    rcases List.mem_append.mp ht with ht | ht
    · exact hall (fun t => 1 ≤ t.col) (hcol _) (hcol _) (by decide : (1 : UInt32) ≤ .ofNat 2) t ht
    · rw [List.mem_singleton.mp ht]
      exact (by decide : (1 : UInt32) ≤ 1)
  · intro t ht
    rw [hsplit] at ht
    rcases List.mem_append.mp ht with ht | ht
    · exact hall (fun t => t.kind.isLayout = false) (fun i => rfl) (fun i => rfl) rfl t ht
    · rw [List.mem_singleton.mp ht]
      rfl

theorem nest_hasRoom (n : Nat) : HasRoom (nestTokens n) := by
  have hle := separators_le .start (nestTokens n)
  have hclose : (closeLines n).countP (fun t => !t.isContinuationLead) = 0 :=
    List.countP_eq_zero.mpr
      (forall_closeLines fun i => by simp [WokToken.isContinuationLead, bracketLine])
  have hopen : (openLines n).countP (fun t => !t.isContinuationLead) ≤ n := by
    have h := List.countP_le_length (l := openLines n) (p := fun t => !t.isContinuationLead)
    rwa [openLines, List.length_map, List.length_range] at h
  have hlen : (nestTokens n).length = 2 * n + 4 := by
    simp [nestTokens, nestInner, openLines, closeLines]
    omega
  have hcount : (nestTokens n).countP (fun t => !t.isContinuationLead) ≤ n + 4 := by
    simp only [nestTokens, nestInner, List.countP_cons, List.countP_append, List.countP_nil, hclose]
    split <;> split <;> split <;> split <;> omega
  unfold HasRoom
  omega

/-- At the core of `2 ^ 32` groups the count is 0 again. -/
theorem nest_not_shielded {n : Nat} (hn : UInt32.ofNat (n + 1) = 0) :
    ¬ Shielded 1 1 (nestInner n ++ [bracketLine .rparen (2 * n + 2)]) := by
  intro h
  rw [nestInner, List.append_assoc] at h
  have hcore := shielded_append h
  have hzero : (openLines n).foldl bracketCount 1 = 0 := by
    rw [count_openers (forall_openLines fun i => rfl), openLines, List.length_map,
      List.length_range, UInt32.add_comm, ← hn, UInt32.ofNat_add]
    rfl
  rw [hzero] at hcore
  have hfirst : (nameAt (3 * (n + 1)) 2).isFirstOnLine = true := by
    simp [nameAt, WokToken.isFirstOnLine, tfFirstOnLine]
  have hlead := (hcore.1 hfirst rfl).1
  cases hlead

/-- A group `2 ^ 32` deep is not transparent: the count of its brackets wraps to 0, and the name
at its core is taken for an item outside brackets. -/
theorem nest_opaque :
    Scanned (nestTokens 4294967295) ∧
      Group [] (nestInner 4294967295) (bracketLine .lparen 0) (bracketLine .rparen 8589934592) ∧
      (∀ t ∈ nestInner 4294967295 ++ [bracketLine .rparen 8589934592],
        GoesOn (blockAt [] (bracketLine .lparen 0)).top t) ∧
      ∃ out diag, wokLayout (nestTokens 4294967295) = some (out, diag) ∧
        ¬ Transparent [] (nestInner 4294967295) [endOfFile 25769803779] (bracketLine .lparen 0)
          (bracketLine .rparen 8589934592) out := by
  have hopaque : ∀ n, UInt32.ofNat (n + 1) = 0 → ∃ out diag,
      wokLayout (nestTokens n) = some (out, diag) ∧
        ¬ Transparent [] (nestInner n) [endOfFile (6 * n + 9)] (bracketLine .lparen 0)
          (bracketLine .rparen (2 * n + 2)) out := by
    intro n hn
    rcases exists_wokLayout (nest_scanned n) (nest_hasRoom n) with ⟨out, diag, hrun⟩
    refine ⟨out, diag, hrun, fun htransparent => nest_not_shielded hn ?_⟩
    rw [wokLayout_out (nest_scanned n) hrun] at htransparent
    exact (layoutOf_transparent_iff (nest_scanned n) rfl (nest_group n) (nest_lines n)).mp
      htransparent
  exact ⟨nest_scanned _, nest_group _, nest_lines _, hopaque 4294967295 (by decide)⟩

end Wok.Grammar
