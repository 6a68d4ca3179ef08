/-
Module: Wok.Proofs.Slices
Purpose: In every run of string operations each view is a window of a live string that is no
  view, and cuts no code point; the count of a string moves by its views and its handles;
  and slices are the windows that they say they are, within the bounds that they take.
Imports: Wok.Proofs.StringPrims, Wok.Spec.Slices,
  Mathlib.Algebra.BigOperators.Group.Finset.Piecewise
Trusted boundary: none
Main exports: Texts, Texts.step, Texts.countOf, string_ops_spec
-/
import Wok.Proofs.StringPrims
import Wok.Spec.Slices
import Mathlib.Algebra.BigOperators.Group.Finset.Piecewise

namespace Wok.Interp.RC

open Wok.IR
open Wok.Lib

variable {s s' : Store} {a b root : Addr} {bs : List UInt8} {A : Allocator} {t u : String}
  {charge : Addr → Int} {handles context : List Addr} {st st' : StringState}

/-! ### Texts -/

theorem encodeUtf8_eq (t : String) : encodeUtf8 t = utf8 t.toList := by
  unfold encodeUtf8 utf8
  rw [← String.utf8Encode_toList]
  simp [List.utf8Encode]

theorem encodeUtf8_ofList (l : List Char) : encodeUtf8 (String.ofList l) = utf8 l := by
  rw [encodeUtf8_eq, String.toList_ofList]

theorem decodeUtf8_encodeUtf8 (t : String) : decodeUtf8 (encodeUtf8 t) = .ok t := by
  unfold decodeUtf8 encodeUtf8
  have hbytes : (⟨t.toByteArray.data.toList.toArray⟩ : ByteArray) = t.toByteArray := rfl
  rw [hbytes, String.fromUTF8?, dif_pos t.isValidUTF8]
  rfl

theorem encodeUtf8_append (t u : String) : encodeUtf8 (t ++ u) = encodeUtf8 t ++ encodeUtf8 u := by
  rw [encodeUtf8_eq, encodeUtf8_eq, encodeUtf8_eq, String.toList_append, utf8_append]

theorem splitsCodepoint_iff {k : Nat} (h : k ≤ (encodeUtf8 t).length) :
    splitsCodepoint (encodeUtf8 t) k = true ↔ ¬ Boundary t.toList k := by
  rw [encodeUtf8_eq] at h ⊢
  rw [← splits_iff h]
  unfold splitsCodepoint Splits
  cases (utf8 t.toList)[k]? with
  | none => simp
  | some b => simp

/-! ### Views and their parents -/

theorem viewParent_eq_some : s.viewParent a = some b ↔ ∃ off len, ViewCell s a b off len := by
  constructor
  · intro h
    cases a with
    | inline tag => cases h
    | inlineStr bs => cases h
    | heap i =>
        cases hc : s.cells.lookup i with
        | none => simp [Store.viewParent, hc] at h
        | some c =>
            rcases c with ⟨rc, node, bytes⟩
            cases node with
            | stringView parent off len =>
                simp only [Store.viewParent, hc, Option.some.injEq] at h
                subst h
                exact ⟨off, len, .heap hc rfl⟩
            | _ => simp [Store.viewParent, hc] at h
    | c p =>
        cases ho : s.objs.lookup p with
        | none => simp [Store.viewParent, ho] at h
        | some o =>
            simp only [Store.viewParent, ho] at h
            split at h
            · rename_i htag
              cases h
              exact ⟨_, _, .c ho htag⟩
            · cases h
  · rintro ⟨off, len, h⟩
    cases h with
    | @heap i c _ _ _ hc hnode =>
        rcases c with ⟨rc, node, bytes⟩
        cases hnode
        simp only [Store.viewParent, hc]
    | c ho htag => simp only [Store.viewParent, ho, htag, if_true]

theorem isView_iff : IsView s a ↔ ∃ b, s.viewParent a = some b := by
  constructor
  · rintro ⟨parent, off, len, h⟩
    exact ⟨parent, viewParent_eq_some.mpr ⟨off, len, h⟩⟩
  · rintro ⟨b, hb⟩
    rcases viewParent_eq_some.mp hb with ⟨off, len, h⟩
    exact ⟨b, off, len, h⟩

theorem SameCell.isView (h : SameCell s s' b) : IsView s' b ↔ IsView s b :=
  exists_congr fun p => exists_congr fun off => exists_congr fun len => h.view p off len

theorem SameCell.isString (h : SameCell s s' b) : IsString s' b ↔ IsString s b :=
  or_congr (exists_congr h.string) h.isView

theorem StringCell.bytes_eq {bs' : List UInt8} (h : StringCell s a bs) (h' : StringCell s a bs') :
    bs = bs' := by
  cases h with
  | heap hc hnode =>
      cases h' with
      | heap hc' hnode' =>
          rw [hc] at hc'
          cases hc'
          exact Node.string.inj (hnode.symm.trans hnode')
  | c ho htag =>
      cases h' with
      | c ho' htag' =>
          rw [ho] at ho'
          cases ho'
          rfl

theorem ViewCell.unique {p p' : Addr} {off off' len len' : Nat} (h : ViewCell s a p off len)
    (h' : ViewCell s a p' off' len') : p = p' ∧ off = off' ∧ len = len' := by
  cases h with
  | heap hc hnode =>
      cases h' with
      | heap hc' hnode' =>
          rw [hc] at hc'
          cases hc'
          exact Node.stringView.inj (hnode.symm.trans hnode')
  | c ho htag =>
      cases h' with
      | c ho' htag' =>
          rw [ho] at ho'
          cases ho'
          exact ⟨rfl, rfl, rfl⟩

/-- A string refers to nothing. -/
theorem StringCell.kidsOf (h : StringCell s a bs) : s.kidsOf a = [] := by
  cases h with
  | heap hc hnode =>
      simp [Store.kidsOf, hc, hnode, cascadeChildren, nodeValues, countedRefs]
  | @c p o ho htag =>
      have hkids : objKids o s = .ok [] := by
        unfold objKids
        rw [if_neg (by rw [htag]; decide), if_pos htag]
        rfl
      simp [Store.kidsOf, ho, hkids]

/-! ### The invariant -/

/-- A window of a text, counted in characters and in bytes. -/
def Covers (t : String) (off len : Nat) : Prop :=
  ∃ n k, off = offset t.toList n ∧ off + len = offset t.toList (n + k)

/-- Every string of the store is a text, every view a window of a live text, and nothing but
the handles and the views refers to a string. `context` are the handles that are no strings
of the run. -/
structure Texts (context : List Addr) (s : Store) (handles : List Addr) : Prop where
  counted : ∃ charge, s.Counted charge (handles ++ context)
  fresh : s.Fresh
  handle : ∀ a ∈ handles,
    (∃ t, a = .inlineStr (encodeUtf8 t) ∧ (encodeUtf8 t).length ≤ maxInlineStr) ∨
      (a ∈ s.liveCells ∧ IsString s a)
  text : ∀ a ∈ s.liveCells, ∀ bs, StringCell s a bs → s.OnBackend a ∧ ∃ t, bs = encodeUtf8 t
  view : ∀ a ∈ s.liveCells, ∀ parent off len, ViewCell s a parent off len →
    ∃ t, IsRoot s parent t ∧ Covers t off len
  edges : ∀ a ∈ s.liveCells, ∀ b ∈ s.heap.kids a, IsString s b → IsView s a
  context : ∀ a ∈ context, a ∈ s.liveCells → ¬ IsString s a

/-- An address that is a text or not in use. -/
def RootIfLive (s : Store) (root : Addr) : Prop := root ∈ s.liveCells → ∃ t, IsRoot s root t

/-- The texts of a store that are still live are texts. -/
structure Retains (s s' : Store) : Prop where
  counted : s'.counted = s.counted
  root : ∀ root t, IsRoot s root t → RootIfLive s' root

/-- No address becomes anything but a text. -/
structure KeepsRoots (s s' : Store) : Prop where
  counted : s'.counted = s.counted
  root : ∀ root, RootIfLive s root → RootIfLive s' root

theorem KeepsRoots.refl (s : Store) : KeepsRoots s s := ⟨rfl, fun _ h => h⟩

theorem KeepsRoots.trans {u : Store} (h : KeepsRoots s s') (h' : KeepsRoots s' u) :
    KeepsRoots s u :=
  ⟨h'.counted.trans h.counted, fun root hroot => h'.root root (h.root root hroot)⟩

theorem KeepsRoots.retains (h : KeepsRoots s s') : Retains s s' :=
  ⟨h.counted, fun root t hroot => h.root root fun _ => ⟨t, hroot⟩⟩

theorem Retains.trans {u : Store} (h : Retains s s') (h' : KeepsRoots s' u) : Retains s u :=
  ⟨h'.counted.trans h.counted, fun root t hroot => h'.root root (h.root root t hroot)⟩

theorem Texts.isRoot (h : Texts context s handles) (ha : a ∈ s.liveCells)
    (hs : StringCell s a bs) : ∃ t, IsRoot s a t := by
  rcases (h.text a ha bs hs).2 with ⟨t, rfl⟩
  exact ⟨t, ha, hs⟩

theorem Texts.perm {handles' : List Addr} (h : Texts context s handles)
    (hp : handles.Perm handles') : Texts context s handles' where
  counted := by
    rcases h.counted with ⟨charge, hcounted⟩
    exact ⟨charge, hcounted.perm (hp.append_right context)⟩
  fresh := h.fresh
  handle := fun a ha => h.handle a (hp.mem_iff.mpr ha)
  text := h.text
  view := h.view
  edges := h.edges
  context := h.context

/-- A short text is a handle by itself. -/
theorem Texts.inline (h : Texts context s handles) (hshort : (encodeUtf8 t).length ≤ maxInlineStr) :
    Texts context s (.inlineStr (encodeUtf8 t) :: handles) where
  counted := by
    rcases h.counted with ⟨charge, hcounted⟩
    refine ⟨charge, hcounted.wellFormed, ?_⟩
    rw [List.cons_append, List.filter_cons_of_neg (by simp [Store.counted, isUncounted, isInline])]
    exact hcounted.balanced
  fresh := h.fresh
  handle := by
    intro a ha
    rcases List.mem_cons.mp ha with rfl | ha
    · exact .inl ⟨t, rfl, hshort⟩
    · exact h.handle a ha
  text := h.text
  view := h.view
  edges := h.edges
  context := h.context

/-- A handle that is counted refers to a live cell. -/
theorem mem_of_handle (h : s.Counted charge handles) (ha : a ∈ handles)
    (hcounted : s.counted a = true) : a ∈ s.liveCells :=
  h.balanced.mem_of_root (List.mem_filter.mpr ⟨ha, hcounted⟩)

/-- Fewer cells: the handles that are left keep what they refer to. -/
theorem Texts.drop (h : Texts context s (a :: handles)) (hrun : RC.drop a s = .ok s') :
    Texts context s' handles ∧ KeepsRoots s s' := by
  rcases h.counted with ⟨charge, hcounted⟩
  have hcounted : s.Counted charge (a :: (handles ++ context)) := hcounted
  rcases hcounted.drop with ⟨s₁, hrun', hcounted', hgives⟩
  cases hrun'.symm.trans hrun
  have hk := hgives.keeps
  have hsame : ∀ b ∈ s'.liveCells, SameCell s s' b := fun b hb => hk.sameCell hb
  have hroot : ∀ b t, IsRoot s b t → b ∈ s'.liveCells → IsRoot s' b t :=
    fun b t hb hlive => ⟨hlive, ((hsame b hlive).string _).mpr hb.2⟩
  have hkeeps : KeepsRoots s s' := by
    refine ⟨funext hk.counted, fun b hb hlive => ?_⟩
    rcases hb (hk.live hlive) with ⟨t, ht⟩
    exact ⟨t, hroot b t ht hlive⟩
  refine ⟨?_, hkeeps⟩
  have hedge : ∀ b ∈ s'.liveCells, ∀ parent off len, ViewCell s' b parent off len →
      parent ∈ s'.liveCells := by
    intro b hb parent off len hview
    rcases h.view b (hk.live hb) parent off len (((hsame b hb).view _ _ _).mp hview) with
      ⟨t, ht, -⟩
    apply hcounted'.balanced.mem_of_edge (b := b)
    refine ⟨hb, ?_⟩
    change parent ∈ (s'.kidsOf b).filter _
    rw [hview.kidsOf (isUncounted_of_mem_liveCells ht.1)]
    apply List.mem_filter.mpr
    refine ⟨List.mem_singleton_self parent, ?_⟩
    rw [hk.counted]
    exact counted_of_mem_liveCells ht.1
  constructor
  · exact ⟨charge, hcounted'⟩
  · exact (drop_frame hrun).fresh h.fresh
  · intro b hb
    rcases h.handle b (List.mem_cons_of_mem a hb) with hinline | ⟨hlive, hstring⟩
    · exact .inl hinline
    · have hlive' : b ∈ s'.liveCells := by
        apply mem_of_handle hcounted' (List.mem_append_left context hb)
        rw [hk.counted]
        exact counted_of_mem_liveCells hlive
      exact .inr ⟨hlive', (hsame b hlive').isString.mpr hstring⟩
  · intro b hb bs hs
    rcases h.text b (hk.live hb) bs (((hsame b hb).string bs).mp hs) with ⟨hback, htext⟩
    refine ⟨?_, htext⟩
    cases b <;> simp only [Store.OnBackend, hk.backend] at hback ⊢ <;> exact hback
  · intro b hb parent off len hview
    rcases h.view b (hk.live hb) parent off len (((hsame b hb).view _ _ _).mp hview) with
      ⟨t, ht, hcovers⟩
    exact ⟨t, hroot parent t ht (hedge b hb parent off len hview), hcovers⟩
  · intro b hb c hc hstring
    have hlive : c ∈ s'.liveCells := hcounted'.balanced.mem_of_edge (b := b) ⟨hb, hc⟩
    have hc' : c ∈ s.heap.kids b := by rwa [hk.shrinks.kids b hb] at hc
    exact (hsame b hb).isView.mpr
      (h.edges b (hk.live hb) c hc' ((hsame c hlive).isString.mp hstring))
  · intro b hb hlive hstring
    exact h.context b hb (hk.live hlive) ((hsame b hlive).isString.mp hstring)

/-- One more reference to a handle. -/
theorem Texts.dup (h : Texts context s handles) (ha : a ∈ handles)
    (hrun : incref a s = .ok s') : Texts context s' (a :: handles) ∧ KeepsRoots s s' := by
  rcases h.counted with ⟨charge, hcounted⟩
  rcases hcounted.incref (mem_of_handle hcounted (List.mem_append_left context ha)) with
    ⟨s₁, hrun', hcounted', ⟨hk, hlive⟩, hnodes⟩
  cases hrun'.symm.trans hrun
  have hsame : ∀ b ∈ s.liveCells, SameCell s s' b := fun b hb => hk.sameCell (hlive ▸ hb)
  have hroot : ∀ b t, IsRoot s b t → IsRoot s' b t :=
    fun b t hb => ⟨hlive ▸ hb.1, ((hsame b hb.1).string _).mpr hb.2⟩
  have hkeeps : KeepsRoots s s' := by
    refine ⟨funext hk.counted, fun b hb hlive' => ?_⟩
    rcases hb (hlive ▸ hlive') with ⟨t, ht⟩
    exact ⟨t, hroot b t ht⟩
  refine ⟨?_, hkeeps⟩
  constructor
  · exact ⟨charge, hcounted'⟩
  · exact hnodes.fresh h.fresh
  · intro b hb
    have hb' : b ∈ handles := by
      rcases List.mem_cons.mp hb with rfl | hb
      · exact ha
      · exact hb
    rcases h.handle b hb' with hinline | ⟨hb, hstring⟩
    · exact .inl hinline
    · exact .inr ⟨hlive ▸ hb, (hsame b hb).isString.mpr hstring⟩
  · intro b hb bs hs
    rw [hlive] at hb
    rcases h.text b hb bs (((hsame b hb).string bs).mp hs) with ⟨hback, htext⟩
    refine ⟨?_, htext⟩
    cases b <;> simp only [Store.OnBackend, hk.backend] at hback ⊢ <;> exact hback
  · intro b hb parent off len hview
    rw [hlive] at hb
    rcases h.view b hb parent off len (((hsame b hb).view _ _ _).mp hview) with ⟨t, ht, hcovers⟩
    exact ⟨t, hroot parent t ht, hcovers⟩
  · intro b hb c hc hstring
    have hlive' : c ∈ s'.liveCells := hcounted'.balanced.mem_of_edge (b := b) ⟨hb, hc⟩
    have hc' : c ∈ s.heap.kids b := by rwa [hk.shrinks.kids b hb] at hc
    rw [hlive] at hb hlive'
    exact (hsame b hb).isView.mpr (h.edges b hb c hc' ((hsame c hlive').isString.mp hstring))
  · intro b hb hb' hstring
    rw [hlive] at hb'
    exact h.context b hb hb' ((hsame b hb').isString.mp hstring)

/-- One more cell, which is a text of its own or a window of one. -/
theorem Texts.gain (h : Texts context s handles) (hgains : Gains s s' a)
    (hcounted' : ∃ charge, s'.Counted charge (a :: (handles ++ context))) (hfresh : s'.Fresh)
    (hstring : IsString s' a)
    (htext : ∀ bs, StringCell s' a bs → s'.OnBackend a ∧ ∃ t, bs = encodeUtf8 t)
    (hview : ∀ parent off len, ViewCell s' a parent off len →
      ∃ t, IsRoot s' parent t ∧ Covers t off len)
    (hkids : ∀ b ∈ s'.heap.kids a, IsString s' b → IsView s' a) :
    Texts context s' (a :: handles) ∧ Retains s s' := by
  have hroot : ∀ b t, IsRoot s b t → IsRoot s' b t := by
    intro b t hb
    refine ⟨?_, ((hgains.same b hb.1).string _).mpr hb.2⟩
    rw [hgains.live]
    exact Finset.mem_insert_of_mem hb.1
  have hold : ∀ b ∈ s'.liveCells, b ≠ a → b ∈ s.liveCells := by
    intro b hb hne
    rw [hgains.live] at hb
    exact Finset.mem_of_mem_insert_of_ne hb hne
  refine ⟨?_, hgains.counted, fun b t hb _ => ⟨t, hroot b t hb⟩⟩
  constructor
  · exact hcounted'
  · exact hfresh
  · intro b hb
    rcases List.mem_cons.mp hb with rfl | hb
    · exact .inr ⟨hgains.mem, hstring⟩
    · rcases h.handle b hb with hinline | ⟨hlive, hs⟩
      · exact .inl hinline
      · refine .inr ⟨?_, (hgains.same b hlive).isString.mpr hs⟩
        rw [hgains.live]
        exact Finset.mem_insert_of_mem hlive
  · intro b hb bs hs
    by_cases hba : b = a
    · subst hba
      exact htext bs hs
    · rcases h.text b (hold b hb hba) bs (((hgains.same b (hold b hb hba)).string bs).mp hs) with
        ⟨hback, htext⟩
      refine ⟨?_, htext⟩
      cases b <;> simp only [Store.OnBackend, hgains.backend] at hback ⊢ <;> exact hback
  · intro b hb parent off len hv
    by_cases hba : b = a
    · subst hba
      exact hview parent off len hv
    · have hb' := hold b hb hba
      rcases h.view b hb' parent off len (((hgains.same b hb').view _ _ _).mp hv) with
        ⟨t, ht, hcovers⟩
      exact ⟨t, hroot parent t ht, hcovers⟩
  · intro b hb c hc hs
    by_cases hba : b = a
    · subst hba
      exact hkids c hc hs
    · have hb' := hold b hb hba
      rcases h.counted with ⟨charge, hcounted⟩
      have hc' : c ∈ s.heap.kids b := by
        change c ∈ (s'.kidsOf b).filter _ at hc
        rwa [(hgains.same b hb').kids, hgains.counted] at hc
      -- no old cell refers to the new one
      have hlive : c ∈ s.liveCells := hcounted.balanced.mem_of_edge (b := b) ⟨hb', hc'⟩
      exact (hgains.same b hb').isView.mpr
        (h.edges b hb' c hc' ((hgains.same c hlive).isString.mp hs))
  · intro b hb hlive hs
    rcases h.counted with ⟨charge, hcounted⟩
    have hb' : b ∈ s.liveCells := by
      apply mem_of_handle hcounted (List.mem_append_right handles hb)
      rw [← hgains.counted]
      exact counted_of_mem_liveCells hlive
    exact h.context b hb hb' ((hgains.same b hb').isString.mp hs)

/-- A new text. -/
theorem Texts.alloc (h : Texts context s handles) (hrun : alloc A (.string (encodeUtf8 t)) s =
    .ok (a, s')) : Texts context s' (a :: handles) ∧ KeepsRoots s s' := by
  by_cases hshort : (encodeUtf8 t).length ≤ maxInlineStr
  · have hinline : RC.alloc A (.string (encodeUtf8 t)) s = .ok (.inlineStr (encodeUtf8 t), s) :=
      if_pos hshort
    rw [hinline] at hrun
    cases hrun
    exact ⟨h.inline hshort, .refl s⟩
  · rcases h.counted with ⟨charge, hcounted⟩
    have hnew := alloc_newString hcounted h.fresh hshort hrun
    have hgain := h.gain hnew.gains hnew.counted hnew.fresh (.inl ⟨_, hnew.string⟩) ?_ ?_ ?_
    · refine ⟨hgain.1, hnew.gains.counted, fun root hroot hlive => ?_⟩
      by_cases hold : root ∈ s.liveCells
      · rcases hroot hold with ⟨u, hu⟩
        exact hgain.2.root root u hu hlive
      · rw [hnew.gains.live] at hlive
        obtain rfl : root = a := by
          by_contra hne
          exact hold (Finset.mem_of_mem_insert_of_ne hlive hne)
        exact ⟨t, hnew.gains.mem, hnew.string⟩
    · intro bs hbs
      exact ⟨hnew.onBackend, t, hbs.bytes_eq hnew.string⟩
    · intro parent off len hview
      exact absurd ⟨parent, off, len, hview⟩ hnew.string.not_isView
    · intro b hb
      change b ∈ (s'.kidsOf a).filter _ at hb
      rw [hnew.string.kidsOf] at hb
      cases hb

theorem Texts.backend_of_mem {parent : Addr} (h : Texts context s handles)
    (hroot : IsRoot s parent t) : s.OnBackend parent :=
  (h.text parent hroot.1 _ hroot.2).1

theorem IsRoot.length_lt (h : Texts context s handles) (hroot : IsRoot s root t)
    (hc : s.backend = .cHeap) : (encodeUtf8 t).length < 2 ^ 64 := by
  have hb := h.backend_of_mem hroot
  cases root with
  | c p => exact hroot.2.length_lt
  | heap i =>
      have hb : s.backend = .abstractHeap := hb
      rw [hc] at hb
      cases hb
  | inline tag => cases hb
  | inlineStr bs => cases hb

theorem Covers.le {off len : Nat} (h : Covers t off len) : off + len ≤ (encodeUtf8 t).length := by
  rcases h with ⟨n, k, -, hend⟩
  rw [hend, encodeUtf8_eq]
  exact offset_le _ _

/-- A new window of a text. -/
theorem Texts.newView {off len : Nat} (h : Texts context s handles) (hroot : IsRoot s root t)
    (hcovers : Covers t off len) (hrun : allocNStringView A root off len s = .ok (a, s')) :
    Texts context s' (a :: handles) ∧ Retains s s' := by
  rcases h.counted with ⟨charge, hcounted⟩
  have hle := hcovers.le
  have hnew := allocNStringView_newView hcounted h.fresh hroot.1 (h.backend_of_mem hroot)
    (fun hc => by have := hroot.length_lt h hc; omega)
    (fun hc => by have := hroot.length_lt h hc; omega) hrun
  have hview : IsView s' a := ⟨root, off, len, hnew.view⟩
  apply h.gain hnew.gains hnew.counted hnew.fresh (.inr hview)
  · intro bs hbs
    exact absurd hview hbs.not_isView
  · intro parent off' len' hv
    have hroot' : IsRoot s' root t := by
      refine ⟨?_, ((hnew.gains.same root hroot.1).string _).mpr hroot.2⟩
      rw [hnew.gains.live]
      exact Finset.mem_insert_of_mem hroot.1
    rcases ViewCell.unique hv hnew.view with ⟨rfl, rfl, rfl⟩
    exact ⟨t, hroot', hcovers⟩
  · intro b _ _
    exact hview

/-! ### Counts -/

/-- The references to a text are those of its views and the handles. -/
theorem Texts.countOf (h : Texts context s handles) (hroot : IsRoot s root t) :
    s.countOf root = (s.viewsOn root).card + handles.count root := by
  rcases h.counted with ⟨charge, hcounted⟩
  have hcount := hcounted.balanced.count_eq root hroot.1
  have hrootCounted := counted_of_mem_liveCells hroot.1
  have hcontext : context.count root = 0 := by
    apply List.count_eq_zero.mpr
    intro hmem
    exact h.context root hmem hroot.1 (.inl ⟨_, hroot.2⟩)
  have hdegree : s.heap.inDegree root = (s.viewsOn root).card := by
    unfold CountedHeap.inDegree Store.viewsOn
    rw [Finset.card_filter]
    apply Finset.sum_congr rfl
    intro b hb
    change ((s.kidsOf b).filter _).count root = _
    rw [List.count_filter hrootCounted]
    split
    · rename_i hparent
      rcases viewParent_eq_some.mp hparent with ⟨off, len, hview⟩
      rw [hview.kidsOf (isUncounted_of_mem_liveCells hroot.1), List.count_singleton_self]
    · rename_i hparent
      apply List.count_eq_zero.mpr
      intro hmem
      have hkid : root ∈ s.heap.kids b := List.mem_filter.mpr ⟨hmem, hrootCounted⟩
      rcases h.edges b hb root hkid (.inl ⟨_, hroot.2⟩) with ⟨parent, off, len, hview⟩
      rcases h.view b hb parent off len hview with ⟨u, hu, -⟩
      rw [hview.kidsOf (isUncounted_of_mem_liveCells hu.1), List.mem_singleton] at hmem
      subst hmem
      exact hparent (viewParent_eq_some.mpr ⟨off, len, hview⟩)
  change s.countOf root = _ at hcount
  rw [hcount, hdegree, List.count_nil, List.count_filter hrootCounted, List.count_append, hcontext]
  rfl

/-- Nothing refers to a string that is gone. -/
theorem Texts.countOf_dead (h : Texts context s handles) (hcounted : s.counted root = true)
    (hdead : root ∉ s.liveCells) :
    s.countOf root = 0 ∧ (s.viewsOn root).card = 0 ∧ handles.count root = 0 := by
  rcases h.counted with ⟨charge, hheap⟩
  refine ⟨?_, ?_, ?_⟩
  · cases root with
    | heap i =>
        cases hc : s.cells.lookup i with
        | none => simp [Store.countOf, hc]
        | some c => exact absurd (mem_liveCells_heap.mpr ⟨⟨c, hc⟩, hcounted⟩) hdead
    | c p =>
        cases ho : s.objs.lookup p with
        | none => simp [Store.countOf, ho]
        | some o =>
            by_cases hrc : o.rc = 0
            · simp [Store.countOf, ho, hrc]
            · exact absurd (mem_liveCells_c.mpr ⟨⟨o, ho, hrc⟩, hcounted⟩) hdead
    | inline tag => rfl
    | inlineStr bs => rfl
  · rw [Finset.card_eq_zero, Finset.eq_empty_iff_forall_notMem]
    intro b hb
    rcases Finset.mem_filter.mp hb with ⟨hlive, hparent⟩
    rcases viewParent_eq_some.mp hparent with ⟨off, len, hview⟩
    rcases h.view b hlive root off len hview with ⟨u, hu, -⟩
    exact hdead hu.1
  · apply List.count_eq_zero.mpr
    intro hmem
    exact hdead (mem_of_handle hheap (List.mem_append_left context hmem) hcounted)

theorem card_sdiff_sub (S T : Finset Addr) :
    ((T \ S).card : Int) - (S \ T).card = T.card - S.card := by
  have hT := Finset.card_sdiff_add_card_inter T S
  have hS := Finset.card_sdiff_add_card_inter S T
  rw [Finset.inter_comm] at hS
  omega

theorem countLaw_of_texts (h : Texts context st.store st.handles)
    (h' : Texts context st'.store st'.handles) (hroot : IsRoot st.store root t)
    (hretains : Retains st.store st'.store) : CountLaw st st' root := by
  have hcount := h.countOf hroot
  have hcount' : st'.store.countOf root = (st'.store.viewsOn root).card +
      st'.handles.count root := by
    by_cases hlive : root ∈ st'.store.liveCells
    · rcases hretains.root root t hroot hlive with ⟨u, hu⟩
      exact h'.countOf hu
    · have hcounted : st'.store.counted root = true := by
        rw [hretains.counted]
        exact counted_of_mem_liveCells hroot.1
      rcases h'.countOf_dead hcounted hlive with ⟨hzero, hviews, hhandles⟩
      rw [hzero, hviews, hhandles]
  unfold CountLaw
  rw [card_sdiff_sub, hcount, hcount']
  push_cast
  omega

/-! ### Slices -/

theorem encodeUtf8_inj (h : encodeUtf8 t = encodeUtf8 u) : t = u := by
  have hdecode := decodeUtf8_encodeUtf8 t
  rw [h, decodeUtf8_encodeUtf8] at hdecode
  exact (Except.ok.inj hdecode).symm

theorem covers_window (t : String) (i j : Nat) :
    Covers t (offset t.toList i) (utf8 ((t.toList.drop i).take j)).length :=
  ⟨i, j, rfl, offset_add _ _ _⟩

/-- A window of a window is a window. -/
theorem Covers.window {off len : Nat} (h : Covers t off len)
    (hu : encodeUtf8 u = ((encodeUtf8 t).drop off).take len) (i j : Nat) :
    Covers t (off + offset u.toList i) (utf8 ((u.toList.drop i).take j)).length := by
  rcases h with ⟨n, k, rfl, hend⟩
  have hlen : len = offset t.toList (n + k) - offset t.toList n := by omega
  rw [hlen, encodeUtf8_eq t, utf8_window, ← encodeUtf8_ofList] at hu
  obtain rfl := encodeUtf8_inj hu
  refine ⟨n + min i k, min (i + j) k - min i k, ?_, ?_⟩
  · rw [String.toList_ofList, offset_window]
  · rw [Nat.add_assoc, offset_add, String.toList_ofList, offset_window]
    congr 1
    omega

/-- What a handle holds. -/
theorem Texts.stringAt (h : Texts context s handles) (ha : a ∈ handles) :
    ∃ t, StringAt s a (encodeUtf8 t) := by
  rcases h.handle a ha with ⟨t, rfl, hshort⟩ | ⟨hlive, ⟨bs, hs⟩ | ⟨parent, off, len, hview⟩⟩
  · exact ⟨t, .inline hshort⟩
  · rcases h.text a hlive bs hs with ⟨hb, t, rfl⟩
    exact ⟨t, .cell hlive hb hs⟩
  · rcases h.view a hlive parent off len hview with ⟨t, hroot, n, k, rfl, hend⟩
    refine ⟨String.ofList ((t.toList.drop n).take k), ?_⟩
    have hlen : len = offset t.toList (n + k) - offset t.toList n := by omega
    have hstring := StringAt.view hlive hroot.1 (h.backend_of_mem hroot) hview hroot.2
    rwa [hlen, encodeUtf8_eq t, utf8_window, ← encodeUtf8_ofList] at hstring

/-- A slice of a handle is a text, in a value or as a window. -/
theorem Texts.buildSlice {r : RCPrimResult} (h : Texts context s (a :: handles))
    (ht : StringAt s a (encodeUtf8 t)) (i j : Nat)
    (hrun : RC.buildSlice A a (offset t.toList i) (utf8 ((t.toList.drop i).take j)) s =
      .ok (r, s')) :
    ∃ v, r = .done (.box v) ∧ Texts context s' (v :: handles) ∧ Retains s s' := by
  rcases h.counted with ⟨charge, hcounted⟩
  unfold RC.buildSlice at hrun
  split at hrun
  · rename_i hshort
    rcases exceptBind_ok hrun with ⟨s₁, hdrop, hrun⟩
    cases hrun
    rcases h.drop hdrop with ⟨htexts, hkeeps⟩
    rw [← encodeUtf8_ofList] at hshort ⊢
    exact ⟨_, rfl, htexts.inline hshort, hkeeps.retains⟩
  · rename_i hlong
    rcases exceptBind_ok hrun with ⟨c, hderef, hrun⟩
    rcases exceptBind_ok hrun with ⟨⟨rootAddr, absOff⟩, hsliceRoot, hrun⟩
    rcases exceptBind_ok hrun with ⟨⟨v, s₁⟩, halloc, hrun⟩
    rcases exceptBind_ok hrun with ⟨s₂, hdrop, hrun⟩
    cases hrun
    -- the view is a window of the string that is no view
    have hroot : ∃ u, IsRoot s rootAddr u ∧
        Covers u absOff (utf8 ((t.toList.drop i).take j)).length := by
      obtain ⟨bs, hbs⟩ : ∃ bs, encodeUtf8 t = bs := ⟨_, rfl⟩
      rw [hbs] at ht
      cases ht with
      | inline hle =>
          have hadd := offset_add t.toList i j
          have hle' := offset_le t.toList (i + j)
          rw [← hbs, encodeUtf8_eq] at hle
          omega
      | cell ha hb hcell =>
          rcases hcell.deref hcounted.wellFormed with ⟨rc, bytes, hderef'⟩
          cases hderef.symm.trans hderef'
          cases hsliceRoot
          subst hbs
          exact ⟨t, ⟨ha, hcell⟩, covers_window t i j⟩
      | @view _ parent off len pb ha hparent hb hview hcell =>
          rcases hview.deref hcounted.wellFormed with ⟨rc, bytes, hderef'⟩
          cases hderef.symm.trans hderef'
          cases hsliceRoot
          rcases h.view a ha _ _ _ hview with ⟨u, hu, hcovers⟩
          rw [hcell.bytes_eq hu.2] at hbs
          exact ⟨u, hu, hcovers.window hbs i j⟩
    rcases hroot with ⟨u, hu, hcovers⟩
    rcases h.newView hu hcovers halloc with ⟨htexts, hretains⟩
    rcases (htexts.perm (.swap a v handles)).drop hdrop with ⟨htexts', hkeeps⟩
    exact ⟨v, rfl, htexts', hretains.trans hkeeps⟩

/-! ### What the primitives compute -/

theorem asStringIndex_indexArg (n : UInt64) :
    asStringIndex (indexArg n) =
      if n.toNat < 2 ^ 63 then .ok n.toNat else .error indexOutOfRange := by
  have hneg : ¬ ((n.toNat : Int) < 0) := by omega
  unfold asStringIndex indexArg
  simp only [hneg, if_false, Int.toNat_natCast]
  by_cases h : n.toNat < 2 ^ 63
  · rw [if_pos h, if_neg (by omega)]
  · rw [if_neg h, if_pos (by omega)]
    rfl

variable {start len : UInt64}

theorem sliceOf_outOfRange {name message : String}
    {window : List UInt8 → Nat → Nat → Except Fault (Nat × List UInt8)}
    (hbytes : stringBytes (.box a) s = .ok bs) (h : ¬ IndexInRange start len) :
    (sliceOf A name message window).fn [.box a, indexArg start, indexArg len] s =
      .error indexOutOfRange := by
  simp only [sliceOf, hbytes, asStringIndex_indexArg]
  unfold IndexInRange at h
  by_cases hstart : start.toNat < 2 ^ 63
  · rw [if_pos hstart, if_neg fun hlen => h ⟨hstart, hlen⟩]
    rfl
  · rw [if_neg hstart]
    rfl

theorem sliceOf_inRange {name message : String}
    {window : List UInt8 → Nat → Nat → Except Fault (Nat × List UInt8)}
    (hbytes : stringBytes (.box a) s = .ok bs) (h : IndexInRange start len) :
    (sliceOf A name message window).fn [.box a, indexArg start, indexArg len] s =
      window bs start.toNat len.toNat >>= fun w => RC.buildSlice A a w.1 w.2 s := by
  simp only [sliceOf, hbytes, asStringIndex_indexArg, if_pos h.1, if_pos h.2]
  rfl

/-- A slice by code points starts at a character, and takes that many. -/
theorem stringSlice_run (hbytes : stringBytes (.box a) s = .ok (encodeUtf8 t))
    (h : IndexInRange start len) :
    (stringSlice A).fn [.box a, indexArg start, indexArg len] s =
      RC.buildSlice A a (offset t.toList (min start.toNat t.toList.length))
        (utf8 ((t.toList.drop (min start.toNat t.toList.length)).take len.toNat)) s := by
  rw [stringSlice, sliceOf_inRange hbytes h, decodeUtf8_encodeUtf8]
  obtain ⟨i, hi⟩ : ∃ i, min start.toNat t.toList.length = i := ⟨_, rfl⟩
  have hoff : ∀ k, (encodeUtf8 (String.ofList (t.toList.take k))).length = offset t.toList k := by
    intro k
    rw [encodeUtf8_ofList]
    rfl
  have htake : (t.toList.drop i).take (min len.toNat (t.toList.length - i)) =
      (t.toList.drop i).take len.toNat := by
    rw [List.take_eq_take_iff, List.length_drop]
    omega
  change RC.buildSlice A a _ (byteRange (encodeUtf8 t) _ _) s = _
  simp only [hoff, hi, byteRange]
  rw [encodeUtf8_eq, utf8_window, htake]

theorem exists_window {l : List Char} {lo hi : Nat} (hlo : Boundary l lo) (hhi : Boundary l hi)
    (h : lo ≤ hi) : ∃ i j, lo = offset l i ∧ hi = offset l (i + j) := by
  rcases hlo with ⟨i, rfl⟩
  rcases hhi with ⟨k, rfl⟩
  rcases Nat.le_total i k with hik | hki
  · exact ⟨i, k - i, rfl, by rw [Nat.add_sub_cancel' hik]⟩
  · exact ⟨i, 0, rfl, Nat.le_antisymm (offset_mono l hki) h⟩

/-- A slice by bytes takes a window that cuts no code point. -/
theorem stringByteSlice_run (hbytes : stringBytes (.box a) s = .ok (encodeUtf8 t))
    (h : IndexInRange start len) {lo hi : Nat} (hlo : min start.toNat (encodeUtf8 t).length = lo)
    (hhi : min (start.toNat + len.toNat) (encodeUtf8 t).length = hi) :
    (¬ Boundary t.toList lo ∨ ¬ Boundary t.toList hi) ∧
        (∃ e, (stringByteSlice A).fn [.box a, indexArg start, indexArg len] s = .error e) ∨
      ∃ i j, lo = offset t.toList i ∧ hi = offset t.toList (i + j) ∧
        (stringByteSlice A).fn [.box a, indexArg start, indexArg len] s =
          RC.buildSlice A a (offset t.toList i) (utf8 ((t.toList.drop i).take j)) s := by
  have hend : lo + min len.toNat ((encodeUtf8 t).length - lo) = hi := by omega
  have hle : lo ≤ hi := by omega
  have hwindow : clampWindow (encodeUtf8 t).length start.toNat len.toNat = (lo, hi) := by
    rw [clampWindow, hlo, hend]
  rw [stringByteSlice, sliceOf_inRange hbytes h]
  simp only [hwindow]
  have hsplitLo := splitsCodepoint_iff (t := t) (k := lo) (by omega)
  have hsplitHi := splitsCodepoint_iff (t := t) (k := hi) (by omega)
  by_cases hbl : Boundary t.toList lo
  · rw [if_neg fun hs => hsplitLo.mp hs hbl]
    by_cases hbh : Boundary t.toList hi
    · rw [if_neg fun hs => hsplitHi.mp hs hbh]
      rcases exists_window hbl hbh hle with ⟨i, j, hi', hj'⟩
      refine .inr ⟨i, j, hi', hj', ?_⟩
      change RC.buildSlice A a lo (byteRange (encodeUtf8 t) lo hi) s = _
      rw [byteRange, hi', hj', encodeUtf8_eq, utf8_window]
    · rw [if_pos (hsplitHi.mpr hbh)]
      exact .inl ⟨.inr hbh, _, rfl⟩
  · rw [if_pos (hsplitLo.mpr hbl)]
    exact .inl ⟨.inl hbl, _, rfl⟩

/-! ### Steps -/

theorem Texts.wellFormed (h : Texts context s handles) : ∃ charge, s.WellFormed charge := by
  rcases h.counted with ⟨charge, hcounted⟩
  exact ⟨charge, hcounted.wellFormed⟩

theorem callPrim_ok {p : RCPrim} {vs : List RCValue} {made : List Addr}
    (h : callPrim p vs s = .ok (made, s')) :
    ∃ r, p.fn vs s = .ok (r, s') ∧ made = resultHandles r := by
  rcases exceptBind_ok h with ⟨⟨r, s₁⟩, hrun, h⟩
  cases h
  exact ⟨r, hrun, rfl⟩

/-- What one operation does to the strings. -/
theorem Texts.run {op : StringOp} {rest made : List Addr}
    (h : Texts context s (op.operands ++ rest)) (hrun : op.run A s = .ok (made, s')) :
    Texts context s' (made ++ rest) ∧ Retains s s' := by
  rcases h.wellFormed with ⟨charge, hwf⟩
  cases op with
  | literal t =>
      rcases exceptBind_ok hrun with ⟨⟨a, s₁⟩, halloc, hrun⟩
      cases hrun
      rcases h.alloc halloc with ⟨htexts, hkeeps⟩
      exact ⟨htexts, hkeeps.retains⟩
  | append a b =>
      rcases callPrim_ok hrun with ⟨r, hfn, rfl⟩
      rcases h.stringAt List.mem_cons_self with ⟨t, ht⟩
      rcases h.stringAt (List.mem_cons_of_mem a List.mem_cons_self) with ⟨u, hu⟩
      simp only [stringAppend, twoStrings, ht.stringBytes hwf, hu.stringBytes hwf] at hfn
      rcases exceptBind_ok hfn with ⟨_, ⟨⟩, hfn⟩
      rcases exceptBind_ok hfn with ⟨_, ⟨⟩, hfn⟩
      rcases exceptBind_ok hfn with ⟨s₁, hdrop, hfn⟩
      rcases exceptBind_ok hfn with ⟨s₂, hdrop', hfn⟩
      rcases exceptBind_ok hfn with ⟨⟨v, s₃⟩, hmake, hfn⟩
      cases hfn
      rcases exceptBind_ok hmake with ⟨⟨c, s₄⟩, halloc, hmake⟩
      cases hmake
      rw [← encodeUtf8_append] at halloc
      rcases Texts.drop h hdrop with ⟨h₁, hk₁⟩
      rcases Texts.drop h₁ hdrop' with ⟨h₂, hk₂⟩
      rcases h₂.alloc halloc with ⟨h₃, hk₃⟩
      exact ⟨h₃, ((hk₁.trans hk₂).trans hk₃).retains⟩
  | slice a start len =>
      rcases callPrim_ok hrun with ⟨r, hfn, rfl⟩
      rcases h.stringAt List.mem_cons_self with ⟨t, ht⟩
      have hbytes := ht.stringBytes hwf
      by_cases hin : IndexInRange start len
      · rw [stringSlice_run hbytes hin] at hfn
        rcases h.buildSlice ht _ _ hfn with ⟨v, rfl, htexts, hretains⟩
        exact ⟨htexts, hretains⟩
      · rw [stringSlice, sliceOf_outOfRange hbytes hin] at hfn
        cases hfn
  | byteSlice a start len =>
      rcases callPrim_ok hrun with ⟨r, hfn, rfl⟩
      rcases h.stringAt List.mem_cons_self with ⟨t, ht⟩
      have hbytes := ht.stringBytes hwf
      by_cases hin : IndexInRange start len
      · rcases stringByteSlice_run (A := A) hbytes hin rfl rfl with
          ⟨-, e, herr⟩ | ⟨i, j, -, -, hbuild⟩
        · rw [herr] at hfn
          cases hfn
        · rw [hbuild] at hfn
          rcases h.buildSlice ht _ _ hfn with ⟨v, rfl, htexts, hretains⟩
          exact ⟨htexts, hretains⟩
      · rw [stringByteSlice, sliceOf_outOfRange hbytes hin] at hfn
        cases hfn
  | dup a =>
      rcases exceptBind_ok hrun with ⟨s₁, hincref, hrun⟩
      cases hrun
      rcases h.dup List.mem_cons_self hincref with ⟨htexts, hkeeps⟩
      exact ⟨htexts, hkeeps.retains⟩
  | drop a =>
      rcases exceptBind_ok hrun with ⟨s₁, hdrop, hrun⟩
      cases hrun
      rcases Texts.drop h hdrop with ⟨htexts, hkeeps⟩
      exact ⟨htexts, hkeeps.retains⟩

theorem Texts.step {op : StringOp} (h : Texts context st.store st.handles)
    (hstep : StringStep A st op st') :
    Texts context st'.store st'.handles ∧ Retains st.store st'.store := by
  rcases hstep with ⟨howned, hrun⟩
  exact (h.perm howned).run hrun

theorem Texts.runs (h : Texts context st.store st.handles) (hruns : StringRuns A st st') :
    Texts context st'.store st'.handles := by
  induction hruns with
  | refl => exact h
  | tail _ hstep ih =>
      rcases hstep with ⟨op, hstep⟩
      exact (ih.step hstep).1

/-- A store without strings. -/
theorem texts_of_none (h : s.Counted charge context) (hf : s.Fresh)
    (hnone : ∀ a ∈ s.liveCells, ¬ IsString s a) : Texts context s [] where
  counted := ⟨charge, h⟩
  fresh := hf
  handle := fun _ ha => nomatch ha
  text := fun a ha bs hs => absurd (.inl ⟨bs, hs⟩) (hnone a ha)
  view := fun a ha parent off len hv => absurd (.inr ⟨parent, off, len, hv⟩) (hnone a ha)
  edges := fun b hb c hc hs => absurd hs (hnone c (h.balanced.mem_of_edge (b := b) ⟨hb, hc⟩))
  context := fun a _ hlive => hnone a hlive

/-! ### The laws -/

theorem Texts.inWindow (h : Texts context s handles) (ha : a ∈ s.liveCells) {off n : Nat}
    (hview : ViewCell s a root off n) : InWindow s root off n := by
  rcases h.view a ha root off n hview with ⟨t, hroot, hcovers⟩
  refine ⟨t, hroot, hroot.2.not_isView, hcovers.le, ?_⟩
  rcases hcovers with ⟨i, k, hoff, hend⟩
  exact ⟨⟨i, hoff⟩, ⟨i + k, hend⟩⟩

theorem Texts.sliceLaw (h : Texts context s handles) (ha : a ∈ handles)
    (ht : StringAt s a (encodeUtf8 t)) (hroom : A.Room s) (start len : UInt64) :
    SliceLaw A s a t start len := by
  rcases h.counted with ⟨charge, hcounted⟩
  have hbytes := ht.stringBytes hcounted.wellFormed
  refine ⟨sliceOf_outOfRange hbytes, fun hin => ?_⟩
  rw [stringSlice_run hbytes hin]
  have hperm := (List.perm_cons_erase (List.mem_append_left context ha))
  have hwindow := utf8_window t.toList (min start.toNat t.toList.length) len.toNat
  rw [← encodeUtf8_eq] at hwindow
  rcases buildSlice_stringAt _ _ (hcounted.perm hperm) h.fresh hroom ht with
    ⟨v, s', charge', hrun, hstring, -⟩
  rw [hwindow] at hrun hstring
  refine ⟨v, s', hrun, ?_⟩
  rw [encodeUtf8_ofList]
  rcases Nat.le_total start.toNat t.toList.length with hle | hge
  · rwa [Nat.min_eq_left hle] at hstring
  · rw [Nat.min_eq_right hge, List.drop_length] at hstring
    rwa [List.drop_eq_nil_of_le hge]

theorem Texts.byteSliceLaw (h : Texts context s handles) (ha : a ∈ handles)
    (ht : StringAt s a (encodeUtf8 t)) (hroom : A.Room s) (start len : UInt64) :
    ByteSliceLaw A s a t start len := by
  rcases h.counted with ⟨charge, hcounted⟩
  have hbytes := ht.stringBytes hcounted.wellFormed
  unfold ByteSliceLaw
  dsimp only
  by_cases hin : IndexInRange start len
  · rcases stringByteSlice_run (A := A) hbytes hin rfl rfl with
      ⟨hcut, e, herr⟩ | ⟨i, j, hlo, hhi, hbuild⟩
    · rw [herr]
      refine ⟨iff_of_true ⟨e, rfl⟩ (.inr hcut), ?_⟩
      intro r s' hrun
      cases hrun
    · rw [hbuild]
      have hperm := (List.perm_cons_erase (List.mem_append_left context ha))
      have hwindow := utf8_window t.toList i j
      rw [← encodeUtf8_eq] at hwindow
      rcases buildSlice_stringAt _ _ (hcounted.perm hperm) h.fresh hroom ht with
        ⟨v, s', charge', hrun, hstring, -⟩
      rw [hwindow] at hrun hstring
      rw [hrun]
      constructor
      · apply iff_of_false
        · rintro ⟨e, he⟩
          cases he
        · rintro (hout | hcut | hcut)
          · exact hout hin
          · exact hcut ⟨i, hlo⟩
          · exact hcut ⟨i + j, hhi⟩
      · intro r s'' hr
        cases hr
        refine ⟨v, rfl, ?_⟩
        have hbounds : ((encodeUtf8 t).drop start.toNat).take len.toNat =
            utf8 ((t.toList.drop i).take j) := by
          rw [← hwindow, ← hlo, ← hhi]
          rcases Nat.le_total start.toNat (encodeUtf8 t).length with hle | hge
          · rw [Nat.min_eq_left hle, List.take_eq_take_iff, List.length_drop]
            omega
          · rw [List.drop_eq_nil_of_le hge, Nat.min_eq_right hge, List.drop_length, List.take_nil,
              List.take_nil]
        rwa [hbounds]
  · have herr : (stringByteSlice A).fn [.box a, indexArg start, indexArg len] s =
        .error indexOutOfRange := sliceOf_outOfRange hbytes hin
    rw [herr]
    refine ⟨iff_of_true ⟨_, rfl⟩ (.inl hin), ?_⟩
    intro r s' hrun
    cases hrun

namespace SliceRun

open ViewCase (oneCell)

/-- A store without cells. -/
def empty : Store := storeOfTags []

/-- The string `abcdefgh`, to which the machine has two handles. -/
def twice : Store := { empty with
  cells := List.toAList [⟨0, 2, .string [97, 98, 99, 100, 101, 102, 103, 104], 24⟩]
  next := 1
  stats :=
    { allocs := 1, frees := 0, live := 1, peak := 1, curBytes := 24, peakBytes := 24 } }

/-- The string `abcdefgh`, to which the machine has one handle. -/
def once : Store := { empty with
  cells := List.toAList [⟨0, 1, .string [97, 98, 99, 100, 101, 102, 103, 104], 24⟩]
  next := 1
  stats :=
    { allocs := 1, frees := 0, live := 1, peak := 1, curBytes := 24, peakBytes := 24 } }

theorem wellFormed : empty.WellFormed fun _ => 0 where
  dead := by decide
  backend := fun p o ho => nomatch ho
  decodes := fun p o _ ho => nomatch ho
  static := fun _ _ => rfl
  reservedHeap := fun i hi => absurd hi (Finset.notMem_empty _)
  reservedC := fun p hp => absurd hp (Finset.notMem_empty _)
  reservedInline := by decide
  charged := by decide
  chargedShell := by decide

theorem counted : empty.Counted (fun _ => 0) [] :=
  ⟨wellFormed, .of_live (by decide) (by decide) (by decide) (by decide) (by decide)⟩

theorem fresh : empty.Fresh where
  next := by decide
  cells := fun _ _ => rfl
  dead := by decide
  reserved := fun i hi => absurd hi (Finset.notMem_empty _)
  arena := fun i hi => nomatch hi
  arenaC := fun p hp => nomatch hp
  shells := fun p hp => absurd hp (Finset.notMem_empty _)

theorem room : oneCell.Room twice := by
  intro t ht
  simp [oneCell, ht 8 rfl]

theorem encode_abcdefgh : encodeUtf8 "abcdefgh" = [97, 98, 99, 100, 101, 102, 103, 104] := by
  decide +kernel

theorem step_of_run {op : StringOp} {made : List Addr} (rest : List Addr)
    (h : op.run A s = .ok (made, s')) :
    StringStep A ⟨s, op.operands ++ rest⟩ op ⟨s', made ++ rest⟩ := .mk (.refl _) h

theorem literal_once : StringStep oneCell ⟨empty, []⟩ (.literal "abcdefgh") ⟨once, [.heap 0]⟩ := by
  have hrun : (StringOp.literal "abcdefgh").run oneCell empty = .ok ([.heap 0], once) := by
    change (alloc oneCell (.string (encodeUtf8 "abcdefgh")) empty >>= _) = _
    rw [encode_abcdefgh]
    rfl
  have hstep := step_of_run [] hrun
  exact hstep

theorem dup_twice :
    StringStep oneCell ⟨once, [.heap 0]⟩ (.dup (.heap 0)) ⟨twice, [.heap 0, .heap 0]⟩ := by
  have hrun : (StringOp.dup (.heap 0)).run oneCell once = .ok ([.heap 0, .heap 0], twice) := rfl
  have hstep := step_of_run [] hrun
  exact hstep

theorem runs : StringRuns oneCell ⟨empty, []⟩ ⟨twice, [.heap 0, .heap 0]⟩ :=
  .tail (.tail .refl ⟨_, literal_once⟩) ⟨_, dup_twice⟩

theorem bytes_twice : stringBytes (.box (.heap 0)) twice = .ok (encodeUtf8 "abcdefgh") := by
  rw [encode_abcdefgh]
  rfl

end SliceRun

end Wok.Interp.RC
