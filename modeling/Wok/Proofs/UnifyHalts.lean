/-
Module: Wok.Proofs.UnifyHalts
Purpose: Unification ends: unbound variables get fewer, and while they do not, the
  types on the left are nested in one another.
Imports: Wok.Proofs.Unify, Mathlib.Data.Set.Card, Mathlib.Data.Set.Finite.Lattice
Trusted boundary: none
Main exports: Above, rank, Phase, Fits, halts_of_fits, unify_halts
-/
import Mathlib.Data.Set.Card
import Mathlib.Data.Set.Finite.Lattice
import Wok.Proofs.Unify

namespace Wok.TypeChecking

open Wok.Lib

variable {s s' s₁ s₂ s₃ : TCState} {d : Nat → Nat} {a b c t t' u p rest : Ty} {ρ : Nat → Ty}
  {v w x n N R k : Nat} {sp : SourceSpan} {lvl : Int} {l : String} {O : Set Ty}

/-! ### Sizes -/

mutual

def Ty.size : Ty → Nat
  | .con _ ts => Ty.sizeList ts + 1
  | .arr a r b => a.size + (r.size + b.size) + 1
  | .record _ row => row.size + 1
  | .rowEmpty => 1
  | .rowExtend _ t rest => t.size + rest.size + 1
  | .var _ => 1

def Ty.sizeList : List Ty → Nat
  | [] => 0
  | t :: ts => t.size + Ty.sizeList ts

end

theorem size_insertField {r : Ty} : (insertField l t r).size = t.size + r.size + 1 := by
  induction r using Ty.rowInduction with
  | row l₀ t₀ rest ih =>
      rw [insertField]
      split
      · rfl
      · rw [Ty.size, ih, Ty.size]
        omega
  | other r hr => rw [insertField_of_ne hr, Ty.size]

theorem size_le_sizeList {ts : List Ty} (ht : t ∈ ts) : t.size ≤ Ty.sizeList ts := by
  induction ht with
  | head ts => exact Nat.le_add_right _ _
  | tail u _ ih => exact ih.trans (Nat.le_add_left _ _)

/-- A part of a type has a smaller value. -/
theorem Part.size (h : Part u t) (ρ : Nat → Ty) : (u.eval ρ).size < (t.eval ρ).size := by
  cases h with
  | con h =>
      rw [Ty.eval, Ty.size, evalList_eq_map]
      exact Nat.lt_succ_of_le (size_le_sizeList (List.mem_map_of_mem h))
  | dom =>
      rw [Ty.eval, Ty.size]
      omega
  | row =>
      rw [Ty.eval, Ty.size]
      omega
  | cod =>
      rw [Ty.eval, Ty.size]
      omega
  | record => exact Nat.lt_succ_self _
  | payload =>
      rw [Ty.eval, size_insertField]
      omega
  | rest =>
      rw [Ty.eval, size_insertField]
      omega

/-! ### Types above another one -/

/-- Whatever the variables stand for, the value of `t` is smaller than that of `c`. -/
def Above (s : TCState) (c t : Ty) : Prop := ∀ ρ, Solves ρ s → (t.eval ρ).size < (c.eval ρ).size

def NotBelow (s : TCState) (c t : Ty) : Prop :=
  ∀ ρ, Solves ρ s → (t.eval ρ).size ≤ (c.eval ρ).size

/-- How many of the types are not above `t`; those that are as large count once. -/
noncomputable def rank (O : Set Ty) (s : TCState) (t : Ty) : Nat :=
  {c ∈ O | ¬NotBelow s c t}.ncard + {c ∈ O | ¬Above s c t}.ncard

/-- What is solved later was to be solved before. -/
def Mono (s s' : TCState) : Prop := ∀ ρ, Solves ρ s' → Solves ρ s

theorem rank_le (hO : O.Finite) (hmono : Mono s s')
    (hsize : ∀ ρ, Solves ρ s' → (u.eval ρ).size ≤ (t.eval ρ).size) :
    rank O s' u ≤ rank O s t := by
  apply Nat.add_le_add
  · apply Set.ncard_le_ncard _ (hO.subset (Set.sep_subset _ _))
    rintro c ⟨hc, hnot⟩
    exact ⟨hc, fun h => hnot fun ρ hρ => (hsize ρ hρ).trans (h ρ (hmono ρ hρ))⟩
  · apply Set.ncard_le_ncard _ (hO.subset (Set.sep_subset _ _))
    rintro c ⟨hc, hnot⟩
    exact ⟨hc, fun h => hnot fun ρ hρ => (hsize ρ hρ).trans_lt (h ρ (hmono ρ hρ))⟩

/-- The rank goes down from a type among those that are counted to a smaller one. -/
theorem rank_lt_of_mem (hO : O.Finite) (hs : s.WellFormed) (hmono : Mono s s')
    (hsize : ∀ ρ, Solves ρ s' → (u.eval ρ).size < (t.eval ρ).size) (ht : t ∈ O) :
    rank O s' u < rank O s t := by
  apply Nat.add_lt_add_of_le_of_lt
  · apply Set.ncard_le_ncard _ (hO.subset (Set.sep_subset _ _))
    rintro c ⟨hc, hnot⟩
    exact ⟨hc, fun h => hnot fun ρ hρ => (hsize ρ hρ).le.trans (h ρ (hmono ρ hρ))⟩
  · apply Set.ncard_lt_ncard _ (hO.subset (Set.sep_subset _ _))
    constructor
    · rintro c ⟨hc, hnot⟩
      exact ⟨hc, fun h => hnot fun ρ hρ => (hsize ρ hρ).trans (h ρ (hmono ρ hρ))⟩
    · intro hsub
      have hself : ¬Above s t t := by
        rcases exists_solves hs .var with ⟨ρ, hρ, -⟩
        exact fun h => lt_irrefl _ (h ρ hρ)
      exact (hsub ⟨ht, hself⟩).2 hsize

/-- The rank goes down to a smaller type that is among those that are counted. -/
theorem rank_lt_to_mem (hO : O.Finite) (hs' : s'.WellFormed) (hmono : Mono s s')
    (hsize : ∀ ρ, Solves ρ s' → (u.eval ρ).size < (t.eval ρ).size) (hu : u ∈ O) :
    rank O s' u < rank O s t := by
  apply Nat.add_lt_add_of_lt_of_le
  · apply Set.ncard_lt_ncard _ (hO.subset (Set.sep_subset _ _))
    constructor
    · rintro c ⟨hc, hnot⟩
      exact ⟨hc, fun h => hnot fun ρ hρ => (hsize ρ hρ).le.trans (h ρ (hmono ρ hρ))⟩
    · intro hsub
      have hnot : ¬NotBelow s u t := by
        rcases exists_solves hs' .var with ⟨ρ, hρ, -⟩
        exact fun h => absurd (hsize ρ hρ) (not_lt.mpr (h ρ (hmono ρ hρ)))
      exact (hsub ⟨hu, hnot⟩).2 fun ρ _ => le_rfl
  · apply Set.ncard_le_ncard _ (hO.subset (Set.sep_subset _ _))
    rintro c ⟨hc, hnot⟩
    exact ⟨hc, fun h => hnot fun ρ hρ => (hsize ρ hρ).trans (h ρ (hmono ρ hρ))⟩

/-! ### The types of a phase -/

/-- A row that an extension made: of two variables, the first of which is one of
types. -/
def NewRow (s : TCState) (t : Ty) : Prop :=
  ∃ l v w, t = .rowExtend l (.var v) (.var w) ∧
    ∀ ρ, Solves ρ s → Kinded ρ s → ¬IsRow (ρ v)

def Known (O : Set Ty) (s : TCState) (t : Ty) : Prop :=
  t ∈ O ∨ (∃ v, t = .var v) ∨ NewRow s t

/-- While no variable is lost, the links lead to the types that there were at the start,
their parts, and new rows. -/
structure Phase (O : Set Ty) (s : TCState) : Prop where
  finite : O.Finite
  parts : ∀ t ∈ O, ∀ u, Part u t → u ∈ O
  known : ∀ v t, v < s.next → s.cells v = .link t → Known O s t

theorem Known.mono (h : Known O s t) (hmono : Mono s s')
    (hkinded : ∀ ρ, Solves ρ s' → Kinded ρ s' → Kinded ρ s) : Known O s' t := by
  rcases h with hO | hvar | ⟨l, v, w, rfl, hstar⟩
  · exact .inl hO
  · exact .inr (.inl hvar)
  · exact .inr (.inr ⟨l, v, w, rfl, fun ρ hρ hk => hstar ρ (hmono ρ hρ) (hkinded ρ hρ hk)⟩)

theorem Quiet.mono (h : Quiet d s s') : Mono s s' := fun ρ hρ => (h.solves ρ).mp hρ

theorem Known.quiet (h : Known O s t) (hquiet : Quiet d s s') : Known O s' t :=
  h.mono hquiet.mono fun _ _ hk => hquiet.kinded.mp hk

theorem Known.mem (h : Known O s t) (hvar : ∀ v, t ≠ .var v)
    (hrow : ∀ l p rest, t ≠ .rowExtend l p rest) : t ∈ O := by
  rcases h with hO | ⟨v, rfl⟩ | ⟨l, v, w, rfl, -⟩
  · exact hO
  · exact absurd rfl (hvar v)
  · exact absurd rfl (hrow l _ _)

theorem Known.part (h : Known O s t) (hphase : Phase O s) (hvar : ∀ v, t ≠ .var v)
    (hpart : Part u t) : Known O s u := by
  rcases h with hO | ⟨v, rfl⟩ | ⟨l, v, w, rfl, -⟩
  · exact .inl (hphase.parts t hO u hpart)
  · exact absurd rfl (hvar v)
  · cases hpart with
    | payload => exact .inr (.inl ⟨v, rfl⟩)
    | rest => exact .inr (.inl ⟨w, rfl⟩)

theorem Phase.quiet (h : Phase O s) (hquiet : Quiet d s s') : Phase O s' where
  finite := h.finite
  parts := h.parts
  known := by
    intro v t hv hlink
    rcases hquiet.content v t (hquiet.next ▸ hv) hlink with ⟨w, hw, hlink⟩
    exact (h.known w t hw hlink).quiet hquiet

theorem Extended.kinded {ref : Nat} (h : Extended s l p s₂ t' u ref s₃) (hρ : Solves ρ s₃)
    (hk : Kinded ρ s₃) : Kinded ρ s ∧ ¬IsRow (ρ s.next) :=
  h.extension.kinded ρ (h.mono ρ hρ) (h.pinned.kinded ρ hρ hk)

theorem Phase.extended {ref : Nat} (h : Phase O s) (hp : Known O s p)
    (hext : Extended s l p s₂ t' u ref s₃) (hmono : Mono s s₃) : Phase O s₃ where
  finite := h.finite
  parts := h.parts
  known := by
    have hkinded : ∀ ρ, Solves ρ s₃ → Kinded ρ s₃ → Kinded ρ s := fun ρ hρ hk =>
      (hext.kinded hρ hk).1
    intro v t hv hlink
    rcases hext.pinned.content v t hv hlink with hvar | rfl | ⟨w, hw, hlink⟩
    · exact .inr (.inl hvar)
    · exact hp.mono hmono hkinded
    · rcases hext.extension.content w t hw hlink with rfl | ⟨w', hw', hlink⟩
      · exact .inr (.inr ⟨l, _, _, rfl, fun ρ hρ hk => (hext.kinded hρ hk).2⟩)
      · exact (h.known w' t hw' hlink).mono hmono hkinded

/-! ### Rows without an end -/

/-- Values for which the variables without a link are no rows. -/
def Flat (ρ : Nat → Ty) (s : TCState) : Prop :=
  Solves ρ s ∧ ∀ v, (∀ t, s.cells v ≠ .link t) → (ρ v).rowLen = 0

theorem exists_flat (hs : s.WellFormed) : ∃ ρ, Flat ρ s := by
  rcases exists_solves hs fun _ => .rowEmpty with ⟨ρ, hρ, hfree⟩
  refine ⟨ρ, hρ, ?_⟩
  intro v hlink
  rw [hfree v fun t _ => hlink t]
  rfl

theorem Quiet.flat (h : Quiet d s s') : Flat ρ s' ↔ Flat ρ s := by
  have hlink : ∀ v, (∀ t, s'.cells v ≠ .link t) ↔ ∀ t, s.cells v ≠ .link t := by
    intro v
    rw [← not_exists, ← not_exists, h.linked]
  unfold Flat
  rw [h.solves]
  simp only [hlink]

theorem Flat.rowLen_le (hd : Deep d s) (hρ : Flat ρ s) (ht : t.In s) :
    (t.eval ρ).rowLen ≤ t.depth d := by
  induction hk : t.depth d using Nat.strongRecOn generalizing t with
  | ind k ih =>
      subst hk
      cases t with
      | var v =>
          have hv : v < s.next := ht v List.mem_cons_self
          by_cases hlinked : ∃ t, s.cells v = .link t
          · rcases hlinked with ⟨t₀, hlink⟩
            have hdepth : t₀.depth d < (Ty.var v).depth d := hd.depth v t₀ hv hlink
            change (ρ v).rowLen ≤ _
            rw [hρ.1 v t₀ hv hlink]
            exact (ih _ hdepth (hd.linksIn v t₀ hv hlink) rfl).trans hdepth.le
          · change (ρ v).rowLen ≤ _
            rw [hρ.2 v fun t ht => hlinked ⟨t, ht⟩]
            exact Nat.zero_le _
      | rowExtend l p rest =>
          have hpart : Part rest (.rowExtend l p rest) := .rest
          rw [Ty.eval, rowLen_insertField]
          exact (ih _ hpart.depth (hpart.isIn ht) rfl).trans_lt hpart.depth
      | con c ts => exact Nat.zero_le _
      | arr a r b => exact Nat.zero_le _
      | record tag row => exact Nat.zero_le _
      | rowEmpty => exact Nat.zero_le _

/-! ### The measure -/

/-- The measure of a type on the left: what is left of the unbound variables, of the
types that are not above it, and of the row. -/
structure Fits (N : Nat) (O : Set Ty) (R k : Nat) (s : TCState) (t : Ty) : Prop where
  wellFormed : s.WellFormed
  phase : Phase O s
  isIn : t.In s
  known : Known O s t
  card : s.unboundVars.card ≤ N
  ranked : ∀ c, Known O s c → (∀ v, c ≠ .var v) → (∀ ρ, Solves ρ s → c.eval ρ = t.eval ρ) →
    rank O s c < R
  flat : ∀ ρ, Flat ρ s → (t.eval ρ).rowLen ≤ k

theorem Fits.rank_self (h : Fits N O R k s t) (hvar : ∀ v, t ≠ .var v) : rank O s t < R :=
  h.ranked t h.known hvar fun _ _ => rfl

/-- A type with the same value as one that is smaller. -/
theorem rank_le_of_eval (hO : O.Finite) (heq : ∀ ρ, Solves ρ s → c.eval ρ = t.eval ρ) :
    rank O s c ≤ rank O s t :=
  rank_le hO (fun _ h => h) fun ρ hρ => by rw [heq ρ hρ]

theorem Fits.quiet (h : Fits N O R k s t) (hquiet : Quiet d s s') : Fits N O R k s' t where
  wellFormed := ⟨d, hquiet.deep⟩
  phase := h.phase.quiet hquiet
  isIn := hquiet.isIn.mpr h.isIn
  known := h.known.quiet hquiet
  card := hquiet.unboundVars.symm ▸ h.card
  ranked := by
    intro c hc hvar heq
    have hback : Known O s c := hc.mono (fun ρ hρ => (hquiet.solves ρ).mpr hρ)
      fun ρ _ hk => hquiet.kinded.mpr hk
    have hlt := h.ranked c hback hvar fun ρ hρ => heq ρ ((hquiet.solves ρ).mpr hρ)
    exact (rank_le h.phase.finite hquiet.mono fun _ _ => le_rfl).trans_lt hlt
  flat := fun ρ hρ => h.flat ρ (hquiet.flat.mp hρ)

theorem Fits.forced (h : Fits N O R k s t) (hforces : Forces d s t s' t') :
    Fits N O R k s' t' := by
  have hq := h.quiet hforces.quiet
  have heval : ∀ ρ, Solves ρ s' → t'.eval ρ = t.eval ρ := fun ρ hρ =>
    hforces.eval_of_solves ((hforces.quiet.solves ρ).mp hρ)
  constructor
  · exact hq.wellFormed
  · exact hq.phase
  · exact hforces.quiet.isIn.mpr hforces.isIn
  · rcases hforces.content with rfl | ⟨w, hw, hlink⟩
    · exact hq.known
    · exact (h.phase.known w t' hw hlink).quiet hforces.quiet
  · exact hq.card
  · intro c hc hvar heq
    exact hq.ranked c hc hvar fun ρ hρ => (heq ρ hρ).trans (heval ρ hρ)
  · intro ρ hρ
    rw [heval ρ hρ.1]
    exact hq.flat ρ hρ

theorem isRow_insertField {r : Ty} : IsRow (insertField l t r) := by
  cases r with
  | rowExtend l₀ t₀ rest =>
      rw [insertField]
      split
      · exact ⟨_, _, _, rfl⟩
      · exact ⟨_, _, _, rfl⟩
  | _ => exact ⟨_, _, _, rfl⟩

/-- Whatever has the value of a variable of types and is no variable was there at the
start. -/
theorem Known.mem_of_star (h : Known O s c) (hs : s.WellFormed) (hvar : ∀ v, c ≠ .var v)
    (heq : ∀ ρ, Solves ρ s → c.eval ρ = ρ v)
    (hstar : ∀ ρ, Solves ρ s → Kinded ρ s → ¬IsRow (ρ v)) : c ∈ O := by
  rcases h with hO | ⟨w, rfl⟩ | ⟨l, x, w, rfl, -⟩
  · exact hO
  · exact absurd rfl (hvar w)
  · rcases exists_solves hs fun _ => .rowEmpty with ⟨ρ, hρ, hfree⟩
    have hkinded : Kinded ρ s := by
      intro y _ hkind
      have hlink : ∀ t, y < s.next → s.cells y ≠ .link t := by
        intro t _ ht
        rw [ht] at hkind
        cases hkind
      rw [hfree y hlink]
      rintro ⟨_, _, _, h⟩
      cases h
    apply absurd _ (hstar ρ hρ hkinded)
    rw [← heq ρ hρ]
    exact isRow_insertField

/-- Below a type that was there at the start. -/
theorem Fits.part (h : Fits N O R k s t) (hvar : ∀ v, t ≠ .var v) (hpart : Part u t)
    (hin : t ∈ O ∨ ∃ l v w, t = .rowExtend l (.var v) w ∧ u = .var v) (hquiet : Quiet d s s') :
    ∃ k', Fits N O (rank O s t) k' s' u := by
  have hq := h.quiet hquiet
  refine ⟨u.depth d, hq.wellFormed, hq.phase, hpart.isIn hq.isIn,
    (h.known.part h.phase hvar hpart).quiet hquiet, hq.card, ?_, ?_⟩
  · intro c hc hcvar heq
    have hsize : ∀ ρ, Solves ρ s' → (c.eval ρ).size < (t.eval ρ).size := fun ρ hρ => by
      rw [heq ρ hρ]
      exact hpart.size ρ
    by_cases htO : t ∈ O
    · exact rank_lt_of_mem h.phase.finite h.wellFormed hquiet.mono hsize htO
    · rcases hq.known with hO | ⟨v, rfl⟩ | ⟨l, v, w, rfl, hstar⟩
      · exact absurd hO htO
      · exact absurd rfl (hvar v)
      · rcases hin with hO | ⟨l', v', w', heqt, rfl⟩
        · exact absurd hO htO
        · cases heqt
          have hcO := hc.mem_of_star hq.wellFormed hcvar heq hstar
          exact rank_lt_to_mem h.phase.finite hq.wellFormed hquiet.mono hsize hcO
  · intro ρ hρ
    exact hρ.rowLen_le hquiet.deep (hpart.isIn hq.isIn)

/-- The rest of a row, in a state where the row still ends where it did. -/
theorem Fits.along (h : Fits N O R k s (.rowExtend l p rest)) (hs' : s'.WellFormed)
    (hphase : Phase O s') (hin : rest.In s') (hknown : Known O s' rest)
    (hcard : s'.unboundVars.card ≤ N) (hmono : Mono s s') {m : Nat}
    (hlen : ∀ ρ, Solves ρ s → m ≤ (rest.eval ρ).rowLen)
    (hflat : ∀ ρ, Flat ρ s' → (rest.eval ρ).rowLen ≤ m) : ∃ k', k' < k ∧ Fits N O R k' s' rest := by
  have hm : m < k := by
    rcases exists_flat h.wellFormed with ⟨ρ, hρ⟩
    have hle := h.flat ρ hρ
    rw [Ty.eval, rowLen_insertField] at hle
    exact (hlen ρ hρ.1).trans_lt (Nat.lt_of_succ_le hle)
  refine ⟨m, hm, hs', hphase, hin, hknown, hcard, ?_, hflat⟩
  intro c hc hvar heq
  have hsize : ∀ ρ, Solves ρ s' → (c.eval ρ).size ≤ ((Ty.rowExtend l p rest).eval ρ).size := by
    intro ρ hρ
    rw [heq ρ hρ]
    exact (Part.rest.size ρ).le
  exact (rank_le h.phase.finite hmono hsize).trans_lt (h.rank_self fun _ h => nomatch h)

/-! ### The ends of runs -/

theorem catchTC_halts {α : Type} {f : Nat → TC α} {g : Nat → TypeError → TC α}
    (hf : Halts f s)
    (hg : ∀ n e s', f n s = some (.error (.error e), s') → Halts (g · e) s') :
    Halts (fun n => catchTC (f n) (g n)) s := by
  rcases hf with ⟨n, ⟨r, s'⟩, hn⟩
  rcases r with (e | message) | a
  · rcases hg n e s' (hn n le_rfl) with ⟨m, r, hm⟩
    refine ⟨max n m, r, ?_⟩
    intro j hj
    simp only [catchTC, hn j ((le_max_left n m).trans hj)]
    exact hm j ((le_max_right n m).trans hj)
  · refine ⟨n, (.error (.panic message), s'), ?_⟩
    intro j hj
    simp only [catchTC, hn j hj]
  · refine ⟨n, (.ok a, s'), ?_⟩
    intro j hj
    simp only [catchTC, hn j hj]

theorem rowReport_halts {α : Type} {e : TypeError} (hs : s.WellFormed) (ha : a.In s)
    (hb : b.In s) : Halts (fun n => (rowReport sp n a b e : TC α)) s := by
  rcases hs with ⟨d, hd⟩
  cases e with
  | unknownField sp' tag label => exact (reportPair_calm hd ha hb).halts
  | _ => exact .const rfl

/-- A variable is bound, and then there may be warnings. -/
theorem bind_warn_halts (hs : s.WellFormed) (hx : x < s.next) (hlink : ∀ t, s.cells x ≠ .link t)
    (ht : t.In s) (hhead : ∀ v u, t = .var v → s.cells v ≠ .link u) (hne : t ≠ .var x) :
    Halts (fun n => unifyVar sp n x t >>= fun _ => warnIfRecordShadow sp n t) s := by
  apply Halts.bind (unifyVar_halts hs hx ht)
  intro n _ s₁ hvar
  rcases unifyVar_run hs hx hlink ht hhead hne hvar with ⟨-, hone⟩ | ⟨⟨e, heq⟩, -⟩
  · have hsettles := (hone.settles hs).1
    rcases hsettles.wellFormed with ⟨d, hd⟩
    exact (warnIfRecordShadow_calm hd (ht.mono hsettles.next)).halts
  · cases heq

/-- Unification ends when there are fewer than `N` unbound variables. -/
def HaltsBelow (sp : SourceSpan) (lvl : Int) (N : Nat) : Prop :=
  ∀ s a b, s.WellFormed → a.In s → b.In s → s.unboundVars.card < N →
    Halts (fun n => unify sp lvl n a b) s

/-- The state is well formed, has the variables of the first one, and has fewer unbound
variables or is much the same. -/
structure Later (s s' : TCState) : Prop where
  wellFormed : s'.WellFormed
  next : s.next ≤ s'.next
  progress : Progress s s'

theorem Later.refl (hs : s.WellFormed) : Later s s :=
  ⟨hs, le_rfl, .of_quiet (fun _ hd => .refl hd) hs⟩

theorem Later.trans (h : Later s s₁) (h' : Later s₁ s') : Later s s' :=
  ⟨h'.wellFormed, h.next.trans h'.next, h.progress.trans h'.progress⟩

theorem Settles.later {E : (Nat → Ty) → Prop} (h : Settles s s' E) : Later s s' :=
  ⟨h.1.wellFormed, h.1.next, h.2⟩

/-- The equations of a list end one after another. -/
theorem forM_halts {ps : List (Ty × Ty)} (hs : s.WellFormed)
    (hin : ∀ p ∈ ps, p.1.In s ∧ p.2.In s)
    (h : ∀ p ∈ ps, ∀ s', Later s s' → Halts (fun n => unify sp lvl n p.1 p.2) s') :
    Halts (fun n => ps.forM fun p => unify sp lvl n p.1 p.2) s := by
  have hall : ∀ s', Later s s' → Halts (fun n => ps.forM fun p => unify sp lvl n p.1 p.2) s' := by
    induction ps with
    | nil => exact fun s' _ => .const rfl
    | cons p ps ih =>
        intro s' hlater
        rcases List.forall_mem_cons.mp hin with ⟨hp, hps⟩
        rcases List.forall_mem_cons.mp h with ⟨hhalts, hrest⟩
        apply Halts.bind (hhalts s' hlater)
        intro n _ s₁ hrun
        have hsettles := unify_solved sp lvl n s' p.1 p.2 s₁ hlater.wellFormed
          (hp.1.mono hlater.next) (hp.2.mono hlater.next) hrun
        exact ih hps hrest s₁ (hlater.trans hsettles.later)
  exact hall s (.refl hs)

/-- An equation with an unlinked variable is settled at once. -/
theorem unify_unlinked_halts (hs : s.WellFormed) (ha : a.In s) (hx : x < s.next)
    (hlink : ∀ t, s.cells x ≠ .link t) : Halts (fun n => unify sp lvl n a (.var x)) s := by
  rcases unify_succ sp lvl with ⟨body, hbody, hheads⟩
  rcases hs with ⟨d, hd⟩
  apply Halts.succ
  simp only [hbody]
  apply Halts.bind (force_calm hd ha).halts
  intro n a' s₁ hforce
  have hfa := (force_calm hd ha).result n a' s₁ hforce
  have hx₁ : x < s₁.next := hfa.quiet.next.symm ▸ hx
  have hlink₁ := hfa.quiet.not_link hlink
  have hs₁ : s₁.WellFormed := ⟨d, hfa.quiet.deep⟩
  have ha' : a'.In s₁ := hfa.quiet.isIn.mpr hfa.isIn
  apply Halts.bind (force_calm hfa.quiet.deep (var_isIn hx₁)).halts
  intro n b' s₂ hforce
  cases force_unlinked hlink₁ hforce
  generalize hf : body a' (.var x) = f
  have hcase := hheads a' (.var x)
  rw [hf] at hcase
  cases hcase with
  | same => exact .const rfl
  | bindLeft v _ hne =>
      exact bind_warn_halts hs₁ (ha' v List.mem_cons_self) (fun t => hfa.head v t rfl)
        (var_isIn hx₁) (fun w u heq => Ty.var.inj heq ▸ hlink₁ u) hne
  | bindRight _ _ hvar =>
      exact bind_warn_halts hs₁ hx₁ hlink₁ ha' hfa.head (hvar x)
  | row l p rest _ hvar => exact absurd rfl (hvar x)
  | report report => exact (reportPair_calm hfa.quiet.deep ha' (var_isIn hx₁)).halts

theorem Later.of_quiet (hs : s.WellFormed) (hquiet : ∀ d, Deep d s → Quiet d s s') :
    Later s s' := by
  refine ⟨?_, ?_, .of_quiet hquiet hs⟩
  · rcases hs with ⟨d, hd⟩
    exact ⟨d, (hquiet d hd).deep⟩
  · rcases hs with ⟨d, hd⟩
    exact (hquiet d hd).next.ge

/-- The payloads of two rows and then what is left of them, when those of the row on the
left are covered. -/
theorem Fits.row_halts {o : Option Nat} {m : Nat} (h : Fits N O R k s (.rowExtend l p rest))
    (hlen : ∀ ρ, Solves ρ s → (rest.eval ρ).rowLen = m + tailLen ρ o)
    (ho : ∀ v, o = some v → v < s.next ∧ ∀ t, s.cells v ≠ .link t)
    (hto : RewritesTo o s b l (.ok (t', u)) s₂)
    (hpayload : ∀ s' t', Later s s' → t'.In s' → Halts (fun n => unify sp lvl n p t') s')
    (hrest : ∀ s' u', s'.WellFormed → rest.In s' → u'.In s' →
      (s'.unboundVars.card < N ∨ ∃ k', k' < k ∧ Fits N O R k' s' rest) →
      Halts (fun n => unify sp lvl n rest u') s') :
    Halts (fun n => unify sp lvl n p t' >>= fun _ => unify sp lvl n rest u) s₂ := by
  rcases hto with ⟨_, _, heq, hrewrites, hcase⟩
  cases heq
  have hs := h.wellFormed
  have hp : p.In s := Part.payload.isIn h.isIn
  have hr : rest.In s := Part.rest.isIn h.isIn
  have hs₂ := hrewrites.wellFormed
  have hknown : Known O s rest := h.known.part h.phase (fun _ h => nomatch h) .rest
  have hsettles : ∀ {n s₃}, unify sp lvl n p t' s₂ = some (.ok (), s₃) →
      Settles s₂ s₃ (Equal p t') := fun hrun =>
    unify_solved sp lvl _ s₂ p t' _ hs₂ (hp.mono hrewrites.next) hrewrites.payloadIn hrun
  have hnext : ∀ {s₃}, Settles s₂ s₃ (Equal p t') → rest.In s₃ ∧ u.In s₃ := fun h =>
    ⟨hr.mono (hrewrites.next.trans h.1.next), hrewrites.restIn.mono h.1.next⟩
  have hlow : ∀ ρ, Solves ρ s → m ≤ (rest.eval ρ).rowLen := fun ρ hρ =>
    (Nat.le_add_right _ _).trans (hlen ρ hρ).ge
  rcases hcase with hquiet | ⟨ref, hne, hlink, hext⟩
  · have hlater := Later.of_quiet hs hquiet
    apply Halts.bind (hpayload s₂ t' hlater hrewrites.payloadIn)
    intro n _ s₃ hrun
    have hsettles := hsettles hrun
    rcases hnext hsettles with ⟨hin, hu⟩
    apply hrest s₃ u hsettles.1.wellFormed hin hu
    rcases (hlater.trans hsettles.later).progress with hlt | ⟨-, hquiet⟩
    · exact .inl (hlt.trans_le h.card)
    · right
      rcases hs with ⟨d, hd⟩
      have hquiet := hquiet d hd
      apply h.along hsettles.1.wellFormed (h.phase.quiet hquiet) hin (hknown.quiet hquiet)
        (hquiet.unboundVars.symm ▸ h.card) hquiet.mono hlow
      intro ρ hρ
      rw [hlen ρ (hquiet.mono ρ hρ.1)]
      cases o with
      | none => exact le_rfl
      | some v =>
          change m + (ρ v).rowLen ≤ m
          rw [hρ.2 v (hquiet.not_link (ho v rfl).2)]
          exact le_rfl
  · have hlt₂ : s.next < s₂.next := by
      rw [hext.next]
      omega
    apply Halts.bind
    · rw [hext.payload]
      exact unify_unlinked_halts hs₂ (hp.mono hrewrites.next) hlt₂
        (not_link_of_unbound hext.unbound.1)
    · intro n _ s₃ hrun
      have hsettles := hsettles hrun
      rcases hnext hsettles with ⟨hin, hu⟩
      have hextended := hext.extended hs hp hlink hs₂ hrun fun ρ hρ => (hsettles.1.sound ρ hρ).1
      have hmono : Mono s s₃ := fun ρ hρ => (hrewrites.sound ρ (hextended.mono ρ hρ)).1
      apply hrest s₃ u hsettles.1.wellFormed hin hu
      right
      have hpknown : Known O s p := h.known.part h.phase (fun _ h => nomatch h) .payload
      apply h.along hsettles.1.wellFormed (h.phase.extended hpknown hextended hmono) hin
        (hknown.mono hmono fun ρ hρ hk => (hextended.kinded hρ hk).1) _ hmono hlow
      · intro ρ hρ
        rw [hlen ρ (hmono ρ hρ.1)]
        cases o with
        | none => exact le_rfl
        | some v =>
            rcases ho v rfl with ⟨hv, hvlink⟩
            have hvref : v ≠ ref := by
              rintro rfl
              exact hne rfl
            change m + (ρ v).rowLen ≤ m
            rw [hextended.old_rowLen hv hvlink hvref hρ.1 fun w _ hw => hρ.2 w hw]
            exact le_rfl
      · have hcard := hextended.pinned.card
        have hcard₂ := hext.card
        have := h.card
        omega

/-- While the unbound variables do not get fewer, the types on the left are nested in
one another, and there are only so many of them; along a row, its end is nearer. -/
theorem halts_of_fits (hbelow : HaltsBelow sp lvl N) :
    ∀ R k s a b, Fits N O R k s a → b.In s → Halts (fun n => unify sp lvl n a b) s := by
  rcases unify_succ sp lvl with ⟨body, hbody, hheads⟩
  intro R
  induction R using Nat.strongRecOn with
  | ind R ihR =>
      intro k
      induction k using Nat.strongRecOn with
      | ind k ihk =>
          intro s a b hfits hb
          apply Halts.succ
          simp only [hbody]
          rcases hfits.wellFormed with ⟨d, hd⟩
          apply Halts.bind (force_calm hd hfits.isIn).halts
          intro n a' s₁ hforce
          have hfa := (force_calm hd hfits.isIn).result n a' s₁ hforce
          have hb₁ := hfa.quiet.isIn.mpr hb
          apply Halts.bind (force_calm hfa.quiet.deep hb₁).halts
          intro n b' s₂ hforce
          have hfb := (force_calm hfa.quiet.deep hb₁).result n b' s₂ hforce
          have hfits := (hfits.forced hfa).quiet hfb.quiet
          have hb' : b'.In s₂ := hfb.quiet.isIn.mpr hfb.isIn
          have hheada : ∀ v u, a' = .var v → s₂.cells v ≠ .link u := fun v u heq =>
            hfb.quiet.not_link (fun t => hfa.head v t heq) u
          have hd₂ := hfb.quiet.deep
          have hs₂ : s₂.WellFormed := ⟨d, hd₂⟩
          have hpart : ∀ {u u'} s', Later s₂ s' → (∀ v, a' ≠ .var v) → Part u a' →
              (a' ∈ O ∨ ∃ l v w, a' = .rowExtend l (.var v) w ∧ u = .var v) → u'.In s' →
              Halts (fun n => unify sp lvl n u u') s' := by
            intro u u' s' hlater hvar hpart hin hu'
            rcases hlater.progress with hlt | ⟨-, hquiet⟩
            · exact hbelow s' u u' hlater.wellFormed ((hpart.isIn hfits.isIn).mono hlater.next) hu'
                (hlt.trans_le hfits.card)
            · rcases hfits.part hvar hpart hin (hquiet d hd₂) with ⟨k', hfits'⟩
              exact ihR _ (hfits.rank_self hvar) k' s' u u' hfits' hu'
          generalize hf : body a' b' = f
          have hcase := hheads a' b'
          rw [hf] at hcase
          cases hcase with
          | same v => exact .const rfl
          | bindLeft v _ hne =>
              exact bind_warn_halts hs₂ (hfits.isIn v List.mem_cons_self) (fun t => hheada v t rfl)
                hb' hfb.head hne
          | bindRight _ v hvar =>
              exact bind_warn_halts hs₂ (hb' v List.mem_cons_self) (fun t => hfb.head v t rfl)
                hfits.isIn hheada (hvar v)
          | con c ts₁ ts₂ hlen =>
              have hmem := hfits.known.mem (fun _ h => nomatch h) (fun _ _ _ h => nomatch h)
              apply forM_halts hs₂
              · intro q hq
                rcases List.of_mem_zip hq with ⟨h₁, h₂⟩
                exact ⟨(Part.con h₁).isIn hfits.isIn, (Part.con h₂).isIn hb'⟩
              · intro q hq s' hlater
                rcases List.of_mem_zip hq with ⟨h₁, h₂⟩
                exact hpart s' hlater (fun _ h => nomatch h) (.con h₁) (.inl hmem)
                  (((Part.con h₂).isIn hb').mono hlater.next)
          | arr a₁ e₁ b₁ a₂ e₂ b₂ =>
              have hmem := hfits.known.mem (fun _ h => nomatch h) (fun _ _ _ h => nomatch h)
              apply Halts.bind (hpart s₂ (.refl hs₂) (fun _ h => nomatch h) .dom (.inl hmem)
                (Part.dom.isIn hb'))
              intro n _ s₃ hrun
              have h₁ := unify_solved sp lvl n s₂ a₁ a₂ s₃ hs₂ (Part.dom.isIn hfits.isIn)
                (Part.dom.isIn hb') hrun
              apply Halts.bind (hpart s₃ h₁.later (fun _ h => nomatch h) .row (.inl hmem)
                ((Part.row.isIn hb').mono h₁.1.next))
              intro n _ s₄ hrun
              have h₂ := unify_solved sp lvl n s₃ e₁ e₂ s₄ h₁.1.wellFormed
                ((Part.row.isIn hfits.isIn).mono h₁.1.next) ((Part.row.isIn hb').mono h₁.1.next)
                hrun
              have hlater := h₁.later.trans h₂.later
              exact hpart s₄ hlater (fun _ h => nomatch h) .cod (.inl hmem)
                ((Part.cod.isIn hb').mono hlater.next)
          | record tag row₁ row₂ =>
              have hmem := hfits.known.mem (fun _ h => nomatch h) (fun _ _ _ h => nomatch h)
              apply Halts.bind (hpart s₂ (.refl hs₂) (fun _ h => nomatch h) .record (.inl hmem)
                (Part.record.isIn hb'))
              intro n _ s₃ hrun
              have h₁ := unify_solved sp lvl n s₂ row₁ row₂ s₃ hs₂ (Part.record.isIn hfits.isIn)
                (Part.record.isIn hb') hrun
              rcases h₁.1.wellFormed with ⟨d', hd'⟩
              exact (warnOnShadow_calm hd' ((Part.record.isIn hfits.isIn).mono h₁.1.next)).halts
          | tags tag₁ tag₂ row₁ row₂ => exact .const rfl
          | rowEmpty => exact .const rfl
          | row l p rest _ hvar =>
              have hr : rest.In s₂ := Part.rest.isIn hfits.isIn
              apply Halts.bind (rowTailRef_calm hd₂ hr).halts
              intro n o s₃ htail
              have hquiet₃ := (rowTailRef_calm hd₂ hr).quiet n _ s₃ htail
              rcases (rowTailRef_calm hd₂ hr).result n o s₃ htail with ⟨⟨m, hlen⟩, ho⟩
              have hfits₃ := hfits.quiet hquiet₃
              have hs₃ : s₃.WellFormed := ⟨d, hquiet₃.deep⟩
              have hb₃ : b'.In s₃ := hquiet₃.isIn.mpr hb'
              apply Halts.bind
              · apply catchTC_halts (rewriteRowGuarded_halts hquiet₃.deep hb₃)
                intro n e s₄ hrun
                rcases rewriteRowGuarded_run hs₃ hb₃ hrun with ⟨_, _, heq, -⟩ | ⟨-, hs₄, hle⟩
                · cases heq
                · exact rowReport_halts hs₄ (hfits₃.isIn.mono hle) (hb₃.mono hle)
              · rintro n ⟨t', u⟩ s₄ hcatch
                rcases rewriteRowGuarded_run hs₃ hb₃ (catchTC_rowReport_ok hcatch) with
                  hto | ⟨⟨e, heq⟩, -⟩
                · apply hfits₃.row_halts (m := m) _ _ hto
                  · intro s' t' hlater ht'
                    have hlater := (Later.of_quiet hs₂ fun d hd =>
                      (rowTailRef_calm hd hr).quiet _ _ s₃ htail).trans hlater
                    apply hpart s' hlater (fun _ h => nomatch h) .payload _ ht'
                    rcases hfits.known with hO | ⟨v, heq⟩ | ⟨l', v, w, heq, -⟩
                    · exact .inl hO
                    · cases heq
                    · cases heq
                      exact .inr ⟨l, v, .var w, rfl, rfl⟩
                  · intro s' u' hs' hin hu' hcase
                    rcases hcase with hlt | ⟨k', hk', hfits'⟩
                    · exact hbelow s' rest u' hs' hin hu' hlt
                    · exact ihk k' hk' s' rest u' hfits' hu'
                  · intro ρ hρ
                    exact hlen ρ (hquiet₃.mono ρ hρ)
                  · intro v hv
                    rcases ho v hv with ⟨hlt, hlink⟩
                    exact ⟨hquiet₃.next.symm ▸ hlt, hquiet₃.not_link hlink⟩
                · cases heq
          | report report => exact (reportPair_calm hd₂ hfits.isIn hb').halts

/-! ### The start of a phase -/

theorem finite_parts (t : Ty) : {u | Part u t}.Finite := by
  cases t with
  | con c ts =>
      apply (List.finite_toSet ts).subset
      rintro u ⟨h⟩
      exact h
  | arr a r b =>
      apply (List.finite_toSet [a, r, b]).subset
      rintro u (_ | _ | _)
      · exact List.mem_cons_self
      · exact List.mem_cons_of_mem a List.mem_cons_self
      · exact List.mem_cons_of_mem a (List.mem_cons_of_mem r List.mem_cons_self)
  | record tag row =>
      apply (List.finite_toSet [row]).subset
      rintro u (_ | _)
      exact List.mem_cons_self
  | rowEmpty =>
      apply Set.finite_empty.subset
      rintro u (_ | _)
  | rowExtend l p rest =>
      apply (List.finite_toSet [p, rest]).subset
      rintro u (_ | _)
      · exact List.mem_cons_self
      · exact List.mem_cons_of_mem p List.mem_cons_self
  | var v =>
      apply Set.finite_empty.subset
      rintro u (_ | _)

/-- The parts of a type, their parts and so on are finitely many. -/
theorem exists_parts (t : Ty) :
    ∃ O : Set Ty, O.Finite ∧ t ∈ O ∧ ∀ u ∈ O, ∀ u', Part u' u → u' ∈ O := by
  induction hk : t.depth (fun _ => 0) using Nat.strongRecOn generalizing t with
  | ind k ih =>
      subst hk
      have hparts : ∀ u, Part u t → ∃ O : Set Ty, O.Finite ∧ u ∈ O ∧
          ∀ u₁ ∈ O, ∀ u₂, Part u₂ u₁ → u₂ ∈ O := fun u hu => ih _ hu.depth u rfl
      choose! O hO using hparts
      refine ⟨insert t (⋃ u ∈ {u | Part u t}, O u), ?_, Set.mem_insert t _, ?_⟩
      · exact ((finite_parts t).biUnion fun u hu => (hO u hu).1).insert t
      · rintro u (rfl | hu) u' hpart
        · exact .inr (Set.mem_biUnion hpart (hO u' hpart).2.1)
        · rcases Set.mem_iUnion₂.mp hu with ⟨u₀, hu₀, hu⟩
          exact .inr (Set.mem_biUnion hu₀ ((hO u₀ hu₀).2.2 u hu u' hpart))

theorem exists_phase (s : TCState) (t : Ty) : ∃ O, Phase O s ∧ t ∈ O := by
  choose O hO using exists_parts
  refine ⟨O t ∪ ⋃ v ∈ {v | v < s.next}, {u | ∃ t, s.cells v = .link t ∧ u ∈ O t}, ?_, ?_⟩
  · constructor
    · apply (hO t).1.union
      apply (Set.finite_lt_nat s.next).biUnion
      intro v _
      cases hcell : s.cells v with
      | link t₀ =>
          apply (hO t₀).1.subset
          rintro u ⟨t₁, heq, hu⟩
          cases heq
          exact hu
      | unbound u l k =>
          apply Set.finite_empty.subset
          rintro u ⟨t₁, heq, -⟩
          cases heq
      | rigid u l k =>
          apply Set.finite_empty.subset
          rintro u ⟨t₁, heq, -⟩
          cases heq
    · rintro u (hu | hu) u' hpart
      · exact .inl ((hO t).2.2 u hu u' hpart)
      · rcases Set.mem_iUnion₂.mp hu with ⟨v, hv, t₀, hlink, hu⟩
        exact .inr (Set.mem_biUnion hv ⟨t₀, hlink, (hO t₀).2.2 u hu u' hpart⟩)
    · intro v t₀ hv hlink
      exact .inl (.inr (Set.mem_biUnion hv ⟨t₀, hlink, (hO t₀).2.1⟩))
  · exact .inl (hO t).2.1

theorem haltsBelow (sp : SourceSpan) (lvl : Int) (N : Nat) : HaltsBelow sp lvl N := by
  induction N with
  | zero => exact fun _ _ _ _ _ _ h => absurd h (Nat.not_lt_zero _)
  | succ N ih =>
      intro s a b hs ha hb hcard
      rcases exists_phase s a with ⟨O, hphase, haO⟩
      rcases hs with ⟨d, hd⟩
      have hfits : Fits N O (rank O s a + 1) (a.depth d) s a := by
        refine ⟨⟨d, hd⟩, hphase, ha, .inl haO, Nat.le_of_lt_succ hcard, ?_, ?_⟩
        · intro c _ _ heq
          exact Nat.lt_succ_of_le (rank_le_of_eval hphase.finite heq)
        · exact fun ρ hρ => hρ.rowLen_le hd ha
      exact halts_of_fits ih _ _ s a b hfits hb

/-- Unification of any two types ends. -/
theorem unify_halts (hs : s.WellFormed) (ha : a.In s) (hb : b.In s) :
    Halts (fun n => unify sp lvl n a b) s :=
  haltsBelow sp lvl _ s a b hs ha hb (Nat.lt_succ_self _)

end Wok.TypeChecking
