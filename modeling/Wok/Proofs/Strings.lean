/-
Module: Wok.Proofs.Strings
Purpose: Every string primitive computes from the bytes of its operands, whatever
  represents them; a case does not, when one of two representations is a view.
Imports: Wok.Proofs.Alloc, Wok.Spec.Strings, Wok.Lib.Refinement
Trusted boundary: none
Main exports: StringAt.stringBytes, alloc_string, buildSlice_stringAt, primOutcome_eq,
  pickAltRC_eq_iff
-/
import Wok.Proofs.Alloc
import Wok.Spec.Strings
import Wok.Lib.Refinement

namespace Wok.Interp.RC

open Wok.IR
open Wok.Lib

variable {s s' t : Store} {a b : Addr} {bs : List UInt8} {A : Allocator} {sz : StringZilla}
  {charge : Addr → Int} {handles : List Addr}

/-! ### Reading a string -/

theorem StringCell.deref (hwf : s.WellFormed charge) (h : StringCell s a bs) :
    ∃ rc bytes, RC.deref a s = .ok ⟨rc, .string bs, bytes⟩ := by
  cases h with
  | @heap i c _ hc hnode =>
      have hdead : i ∉ s.dead := by
        intro hi
        rw [hwf.dead i hi] at hc
        cases hc
      refine ⟨c.rc, c.bytes, ?_⟩
      simp only [RC.deref, derefPure, hdead, hc, if_false]
      rw [← hnode]
  | @c p o ho htag =>
      refine ⟨0, 0, ?_⟩
      simp only [RC.deref, readCCell, wokObj, ho]
      change (if o.tag = wokArrayTag then _ else _) = _
      rw [if_neg (by rw [htag]; decide), if_pos htag]
      rfl

theorem ViewCell.deref (hwf : s.WellFormed charge) {parent : Addr} {off len : Nat}
    (h : ViewCell s a parent off len) :
    ∃ rc bytes, RC.deref a s = .ok ⟨rc, .stringView parent off len, bytes⟩ := by
  cases h with
  | @heap i c _ _ _ hc hnode =>
      have hdead : i ∉ s.dead := by
        intro hi
        rw [hwf.dead i hi] at hc
        cases hc
      refine ⟨c.rc, c.bytes, ?_⟩
      simp only [RC.deref, derefPure, hdead, hc, if_false]
      rw [← hnode]
  | @c p o ho htag =>
      refine ⟨0, 0, ?_⟩
      simp only [RC.deref, readCCell, wokObj, ho]
      change (if o.tag = wokArrayTag then _ else _) = _
      rw [if_neg (by rw [htag]; decide), if_neg (by rw [htag]; decide), if_pos htag]
      rfl

/-- A string cell is no view. -/
theorem StringCell.not_isView (h : StringCell s a bs) : ¬ IsView s a := by
  rintro ⟨parent, off, len, hview⟩
  cases h with
  | heap hc hnode =>
      cases hview with
      | heap hc' hnode' =>
          rw [hc] at hc'
          cases hc'
          rw [hnode] at hnode'
          cases hnode'
  | c ho htag =>
      cases hview with
      | c ho' htag' =>
          rw [ho] at ho'
          cases ho'
          rw [htag] at htag'
          cases htag'

theorem stringBytesGo_string {rc : Nat} {bytes : Int} (depth : Nat)
    (h : deref a s = .ok ⟨rc, .string bs, bytes⟩) : stringBytesGo (depth + 1) a s = .ok bs := by
  rw [stringBytesGo, h]
  rfl

theorem stringBytesGo_view {rc off len depth : Nat} {bytes : Int} {parent : Addr}
    (h : deref a s = .ok ⟨rc, .stringView parent off len, bytes⟩)
    (hp : stringBytesGo depth parent s = .ok bs) :
    stringBytesGo (depth + 1) a s = .ok ((bs.drop off).take len) := by
  rw [stringBytesGo, h]
  change (stringBytesGo depth parent s >>= _) = _
  rw [hp]
  rfl

theorem StringAt.stringBytes (hwf : s.WellFormed charge) (h : StringAt s a bs) :
    RC.stringBytes (.box a) s = .ok bs := by
  unfold RC.stringBytes
  cases h with
  | inline h => rfl
  | cell ha hb h =>
      rcases h.deref hwf with ⟨rc, bytes, hderef⟩
      exact stringBytesGo_string _ hderef
  | view ha hparent hb h hbytes =>
      rcases h.deref hwf with ⟨rc, bytes, hderef⟩
      rcases hbytes.deref hwf with ⟨rc', bytes', hderef'⟩
      exact stringBytesGo_view hderef (stringBytesGo_string _ hderef')

theorem StringAt.see (hwf : s.WellFormed charge) (h : StringAt s a bs) :
    RC.see (.box a) s = .ok (.str bs) := by
  have hbytes := h.stringBytes hwf
  unfold RC.see
  cases h with
  | inline h => rfl
  | cell ha hb h =>
      rcases h.deref hwf with ⟨rc, bytes, hderef⟩
      simp only [hderef]
      rfl
  | view ha hparent hb h =>
      rcases h.deref hwf with ⟨rc, bytes, hderef⟩
      simp only [hderef]
      change (RC.stringBytes _ s >>= _) = _
      rw [hbytes]
      rfl

/-- What a string is read as, as far as its place in memory shows. -/
theorem StringAt.deref (hwf : s.WellFormed charge) (h : StringAt s a bs) :
    (¬ IsView s a ∧ ∃ rc bytes, RC.deref a s = .ok ⟨rc, .string bs, bytes⟩) ∨
      (IsView s a ∧ ∃ rc bytes parent off len,
        RC.deref a s = .ok ⟨rc, .stringView parent off len, bytes⟩) := by
  cases h with
  | inline h =>
      refine .inl ⟨?_, 0, 0, rfl⟩
      rintro ⟨_, _, _, h⟩
      cases h
  | cell ha hb h => exact .inl ⟨h.not_isView, h.deref hwf⟩
  | view ha hparent hb h =>
      rcases h.deref hwf with ⟨rc, bytes, hderef⟩
      exact .inr ⟨⟨_, _, _, h⟩, rc, bytes, _, _, _, hderef⟩

/-! ### Strings that are left -/

theorem StringCell.keeps (hk : Keeps s s') (ha : a ∈ s'.liveCells) (h : StringCell s a bs) :
    StringCell s' a bs := by
  cases h with
  | @heap i c _ hc hnode =>
      rcases mem_liveCells_heap.mp ha with ⟨⟨c', hc'⟩, -⟩
      rcases hk.cells i c' hc' with ⟨c₀, hc₀, hnode₀, -⟩
      rw [hc] at hc₀
      cases hc₀
      exact .heap hc' (hnode₀.trans hnode)
  | @c p o ho htag =>
      rcases mem_liveCells_c.mp ha with ⟨⟨o', ho', -⟩, -⟩
      rcases hk.objs p o' ho' with ⟨o₀, ho₀, heq⟩
      rw [ho] at ho₀
      cases ho₀
      have hbody : wokBody o' = wokBody o := by rw [heq]; rfl
      have htag' : o'.tag = wokStringTag := by rw [heq]; exact htag
      rw [← hbody]
      exact .c ho' htag'

theorem ViewCell.keeps (hk : Keeps s s') {parent : Addr} {off len : Nat} (ha : a ∈ s'.liveCells)
    (h : ViewCell s a parent off len) : ViewCell s' a parent off len := by
  cases h with
  | @heap i c _ _ _ hc hnode =>
      rcases mem_liveCells_heap.mp ha with ⟨⟨c', hc'⟩, -⟩
      rcases hk.cells i c' hc' with ⟨c₀, hc₀, hnode₀, -⟩
      rw [hc] at hc₀
      cases hc₀
      exact .heap hc' (hnode₀.trans hnode)
  | @c p o ho htag =>
      rcases mem_liveCells_c.mp ha with ⟨⟨o', ho', -⟩, -⟩
      rcases hk.objs p o' ho' with ⟨o₀, ho₀, heq⟩
      rw [ho] at ho₀
      cases ho₀
      have htag' : o'.tag = wokStringViewTag := by rw [heq]; exact htag
      have hview := ViewCell.c ho' htag'
      rw [heq] at hview
      exact hview

/-- What a cell is to a string: whether it is one, whether it is a view, and the references
that it holds. -/
structure SameCell (s s' : Store) (b : Addr) : Prop where
  string : ∀ bs, StringCell s' b bs ↔ StringCell s b bs
  view : ∀ parent off len, ViewCell s' b parent off len ↔ ViewCell s b parent off len
  kids : s'.kidsOf b = s.kidsOf b

theorem Keeps.stringCell (hk : Keeps s s') (h : StringCell s' a bs) : StringCell s a bs := by
  cases h with
  | heap hc hnode =>
      rcases hk.cells _ _ hc with ⟨c₀, hc₀, hnode₀, -⟩
      exact .heap hc₀ (hnode₀.symm.trans hnode)
  | @c p o ho htag =>
      rcases hk.objs p o ho with ⟨o₀, ho₀, heq⟩
      rw [heq] at htag ⊢
      exact StringCell.c (o := o₀) ho₀ htag

theorem Keeps.viewCell (hk : Keeps s s') {parent : Addr} {off len : Nat}
    (h : ViewCell s' a parent off len) : ViewCell s a parent off len := by
  cases h with
  | heap hc hnode =>
      rcases hk.cells _ _ hc with ⟨c₀, hc₀, hnode₀, -⟩
      exact .heap hc₀ (hnode₀.symm.trans hnode)
  | @c p o ho htag =>
      rcases hk.objs p o ho with ⟨o₀, ho₀, heq⟩
      rw [heq] at htag ⊢
      exact ViewCell.c (o := o₀) ho₀ htag

theorem Keeps.sameCell (hk : Keeps s s') (hb : b ∈ s'.liveCells) : SameCell s s' b where
  string := fun _ => ⟨hk.stringCell, fun h => h.keeps hk hb⟩
  view := fun _ _ _ => ⟨hk.viewCell, fun h => h.keeps hk hb⟩
  kids := hk.kidsOf hb

theorem SameCell.trans (h : SameCell s s' b) (h' : SameCell s' t b) : SameCell s t b where
  string := fun bs => (h'.string bs).trans (h.string bs)
  view := fun p off len => (h'.view p off len).trans (h.view p off len)
  kids := h'.kids.trans h.kids

/-- A change of one cell is none to the others. -/
theorem SameBut.sameCell (h : SameBut a s s') (hdesc : s'.conDesc = s.conDesc) (hb : b ≠ a) :
    SameCell s s' b := by
  cases b with
  | inline tag => exact ⟨fun _ => ⟨nofun, nofun⟩, fun _ _ _ => ⟨nofun, nofun⟩, rfl⟩
  | inlineStr bs => exact ⟨fun _ => ⟨nofun, nofun⟩, fun _ _ _ => ⟨nofun, nofun⟩, rfl⟩
  | heap i =>
      have hcell := h.cells i hb
      refine ⟨fun bs => ⟨?_, ?_⟩, fun p off len => ⟨?_, ?_⟩, ?_⟩
      · rintro ⟨hc, hnode⟩
        exact .heap (hcell ▸ hc) hnode
      · rintro ⟨hc, hnode⟩
        exact .heap (hcell.trans hc) hnode
      · rintro ⟨hc, hnode⟩
        exact .heap (hcell ▸ hc) hnode
      · rintro ⟨hc, hnode⟩
        exact .heap (hcell.trans hc) hnode
      · simp only [Store.kidsOf, hcell]
  | c p =>
      have hobj := h.objs p hb
      refine ⟨fun bs => ⟨?_, ?_⟩, fun p off len => ⟨?_, ?_⟩, ?_⟩
      · rintro (_ | ⟨ho, htag⟩)
        exact .c (hobj ▸ ho) htag
      · rintro (_ | ⟨ho, htag⟩)
        exact .c (hobj.trans ho) htag
      · rintro (_ | ⟨ho, htag⟩)
        exact .c (hobj ▸ ho) htag
      · rintro (_ | ⟨ho, htag⟩)
        exact .c (hobj.trans ho) htag
      · simp only [Store.kidsOf, hobj, DropFrame.objKids hdesc]

/-- The store has one more live cell; the others are as before, but for their counts. -/
structure Gains (s s' : Store) (a : Addr) : Prop where
  notMem : a ∉ s.liveCells
  live : s'.liveCells = insert a s.liveCells
  counted : s'.counted = s.counted
  backend : s'.backend = s.backend
  same : ∀ b ∈ s.liveCells, SameCell s s' b

theorem Gains.mem (h : Gains s s' a) : a ∈ s'.liveCells := h.live ▸ Finset.mem_insert_self _ _

theorem SameBut.gains (h : SameBut a s s') (hdesc : s'.conDesc = s.conDesc)
    (hbackend : s'.backend = s.backend) (hnew : a ∉ s.liveCells) (hlive : a ∈ s'.liveCells) :
    Gains s s' a where
  notMem := hnew
  live := h.liveCells_insert hlive
  counted := h.counted
  backend := hbackend
  same := fun _ hb => h.sameCell hdesc fun heq => hnew (heq ▸ hb)

theorem gains_heap {c : Cell} {g : Stats} (hf : s.Fresh)
    (hlive : Addr.heap s.next ∈ Store.liveCells { s with
      cells := s.cells.insert s.next c, next := s.next + 1, stats := g }) :
    Gains s { s with cells := s.cells.insert s.next c, next := s.next + 1, stats := g }
      (.heap s.next) := by
  refine SameBut.gains ⟨rfl, rfl, ?_, fun _ _ => rfl⟩ rfl rfl ?_ hlive
  · intro i hi
    exact AList.lookup_insert_ne fun heq => hi (heq ▸ rfl)
  · intro hmem
    rcases mem_liveCells_heap.mp hmem with ⟨⟨c, hc⟩, -⟩
    rw [hf.cells _ le_rfl] at hc
    cases hc

theorem gains_c {p : Ptr} {o : WokObj} {g : Stats} (hp : s.objs.lookup p = none)
    (hlive : Addr.c p ∈ Store.liveCells { s with objs := s.objs.insert p o, stats := g }) :
    Gains s { s with objs := s.objs.insert p o, stats := g } (.c p) := by
  refine SameBut.gains ⟨rfl, rfl, fun _ _ => rfl, ?_⟩ rfl rfl ?_ hlive
  · intro q hq
    exact AList.lookup_insert_ne fun heq => hq (heq ▸ rfl)
  · intro hmem
    rcases mem_liveCells_c.mp hmem with ⟨⟨o, ho, -⟩, -⟩
    rw [hp] at ho
    cases ho

theorem Gains.of_increment (h : Gains s' t a) (hk : Keeps s s')
    (hlive : s'.liveCells = s.liveCells) : Gains s t a where
  notMem := hlive ▸ h.notMem
  live := hlive ▸ h.live
  counted := h.counted.trans (funext hk.counted)
  backend := h.backend.trans hk.backend
  same := by
    intro b hb
    rw [← hlive] at hb
    exact (hk.sameCell hb).trans (h.same b hb)

/-- The only reference that a view holds is its parent. -/
theorem ViewCell.kidsOf {parent : Addr} {off len : Nat} (h : ViewCell s a parent off len)
    (hparent : isUncounted parent = false) : s.kidsOf a = [parent] := by
  cases h with
  | heap hc hnode =>
      simp [Store.kidsOf, hc, hnode, cascadeChildren, nodeValues, countedRefs, valueChildren,
        hparent]
  | @c p o ho htag =>
      have hkids : objKids o s = .ok [.c (wokStringViewParent o)] := by
        unfold objKids
        rw [if_neg (by rw [htag]; decide), if_neg (by rw [htag]; decide), if_pos htag]
        rfl
      simp [Store.kidsOf, ho, hkids]

/-! ### Tags -/

/-- The number of a constructor's name is a function of the tags. -/
theorem internTag_congr (con : String) (h : s.tags = t.tags) :
    (internTag con s).1 = (internTag con t).1 ∧
      (internTag con s).2.tags = (internTag con t).2.tags := by
  unfold internTag
  rw [h]
  cases t.tags.lookup con with
  | some w => exact ⟨rfl, h⟩
  | none => exact ⟨rfl, rfl⟩

theorem tagName_congr (w : UInt32) (h : s.tags = t.tags) : tagName w s = tagName w t := by
  unfold tagName
  rw [h]

/-! ### New strings -/

/-- A copy of bytes reads back as the bytes, when its length fits a word. -/
theorem wokBody_packBytes {rc : Nat} {tag : UInt16} {arity : UInt8} (h : bs.length ≤ sizeMax) :
    wokBody ⟨rc, tag, arity, UInt64.ofNat bs.length :: packBytes bs⟩ = bs := by
  have hlen : (UInt64.ofNat bs.length).toNat = bs.length := by
    rw [UInt64.toNat_ofNat', Nat.mod_eq_of_lt]
    unfold sizeMax at h
    omega
  unfold wokBody
  simp only [WokObj.word, List.getD_cons_zero, List.getD_cons_succ, hlen]
  exact unpackBytes_packBytes bs fun _ _ => rfl

/-- A string cell or a byte cell that the C runtime cannot allocate. -/
def TooLong (backend : HeapBackend) (bs : List UInt8) : Prop :=
  backend = .cHeap ∧ sizeMax - 16 - 7 < bs.length

theorem wokBodyAlloc_tooLong (tag : UInt16) (h : sizeMax - 16 - 7 < bs.length) :
    wokBodyAlloc A tag bs s = .error (.abort
      "wok_rc: wok_string_alloc byte_len overflows size_t (16 + 8*ceil(byte_len/8))") := by
  rw [wokBodyAlloc, if_pos h]

theorem wokBodyAlloc_ok {p : Ptr} (tag : UInt16) (h : ¬ sizeMax - 16 - 7 < bs.length)
    (hp : A.pick s = some p) :
    wokBodyAlloc A tag bs s = .ok (p, { s with
      objs := s.objs.insert p ⟨1, tag, 0, UInt64.ofNat bs.length :: packBytes bs⟩ }) := by
  rw [wokBodyAlloc, if_neg h, wokNew, hp]

theorem Allocator.Room.pick (h : A.Room s) : ∃ p, A.pick s = some p :=
  Option.isSome_iff_exists.mp (h s fun _ hp => hp)

/-- What comes of a new string cell. -/
structure NewString (s s' : Store) (handles : List Addr) (bs : List UInt8) (a : Addr) : Prop where
  string : StringCell s' a bs
  onBackend : s'.OnBackend a
  gains : Gains s s' a
  counted : ∃ charge, s'.Counted charge (a :: handles)
  fresh : s'.Fresh

theorem wokBodyAlloc_inv {p : Ptr} {tag : UInt16} (h : wokBodyAlloc A tag bs s = .ok (p, s')) :
    ¬ sizeMax - 16 - 7 < bs.length ∧ A.pick s = some p ∧ s' = { s with
      objs := s.objs.insert p ⟨1, tag, 0, UInt64.ofNat bs.length :: packBytes bs⟩ } := by
  rw [wokBodyAlloc] at h
  split at h
  · cases h
  · rename_i hfits
    rw [wokNew] at h
    cases hp : A.pick s with
    | none =>
        rw [hp] at h
        cases h
    | some q =>
        rw [hp] at h
        cases h
        exact ⟨hfits, rfl, rfl⟩

/-- A string that is not kept in the value is a new cell. -/
theorem alloc_newString (h : s.Counted charge handles) (hf : s.Fresh)
    (hlong : ¬ bs.length ≤ maxInlineStr) (hrun : alloc A (.string bs) s = .ok (a, s')) :
    NewString s s' handles bs a := by
  cases hb : s.backend with
  | abstractHeap =>
      have hdispatch : alloc A (.string bs) s = .ok (allocPure (.string bs) s) := by
        simp only [alloc, hlong, if_false, hb]
      rw [hdispatch] at hrun
      cases hrun
      rcases h.add_heap (n := .string bs) hf rfl (wouldBeCBytes (.string bs))
        (recordAlloc (wouldBeCBytes (.string bs)) s.stats) with ⟨hcounted, hfresh, hlive⟩
      exact ⟨.heap (AList.lookup_insert _) rfl, hb, gains_heap hf hlive, ⟨_, hcounted⟩, hfresh⟩
  | cHeap =>
      have hdispatch : alloc A (.string bs) s = allocNString A bs s := by
        simp only [alloc, hlong, if_false, hb]
      rw [hdispatch, allocNString, wokStringAlloc] at hrun
      rcases exceptBind_ok hrun with ⟨⟨p, s₁⟩, hbody, hrun⟩
      rcases wokBodyAlloc_inv hbody with ⟨hfits, hp, rfl⟩
      cases hrun
      let o : WokObj := ⟨1, wokStringTag, 0, UInt64.ofNat bs.length :: packBytes bs⟩
      have hbytes : wokBody o = bs := wokBody_packBytes (by unfold sizeMax at *; omega)
      have hkids : objKids o s = .ok [] := rfl
      rcases h.add_c hf (A.fresh hp) hb rfl hkids
        (recordAlloc (wouldBeCBytes (.string bs)) s.stats) with ⟨hcounted, hfresh, hlive⟩
      have hcell := StringCell.c (s := recordAllocS (wouldBeCBytes (.string bs)) { s with
        objs := s.objs.insert p o }) (o := o) (AList.lookup_insert _) rfl
      rw [hbytes] at hcell
      exact ⟨hcell, hb, gains_c (A.fresh hp) hlive, ⟨_, hcounted⟩, hfresh⟩

/-- Making a string: its length is all that can go wrong. -/
theorem exists_alloc_string (hroom : A.Room s) (hlen : ¬ TooLong s.backend bs) :
    ∃ a s', alloc A (.string bs) s = .ok (a, s') := by
  by_cases hshort : bs.length ≤ maxInlineStr
  · exact ⟨_, _, if_pos hshort⟩
  · cases hb : s.backend with
    | abstractHeap =>
        refine ⟨(allocPure (.string bs) s).1, (allocPure (.string bs) s).2, ?_⟩
        simp only [alloc, hshort, if_false, hb]
    | cHeap =>
        rcases hroom.pick with ⟨p, hp⟩
        have hfits : ¬ sizeMax - 16 - 7 < bs.length := fun hlong => hlen ⟨hb, hlong⟩
        have hdispatch : alloc A (.string bs) s = allocNString A bs s := by
          simp only [alloc, hshort, if_false, hb]
        rw [hdispatch, allocNString, wokStringAlloc, wokBodyAlloc_ok _ hfits hp]
        exact ⟨_, _, rfl⟩

theorem alloc_string (h : s.Counted charge handles) (hf : s.Fresh) (hroom : A.Room s)
    (bs : List UInt8) (hlen : ¬ TooLong s.backend bs) :
    ∃ a s' charge', alloc A (.string bs) s = .ok (a, s') ∧ StringAt s' a bs ∧
      s'.Counted charge' (a :: handles) ∧ s'.Fresh := by
  by_cases hshort : bs.length ≤ maxInlineStr
  · refine ⟨.inlineStr bs, s, charge, if_pos hshort, .inline hshort, ⟨h.wellFormed, ?_⟩, hf⟩
    rw [List.filter_cons_of_neg (by simp [Store.counted, isUncounted, isInline])]
    exact h.balanced
  · rcases exists_alloc_string hroom hlen with ⟨a, s', hrun⟩
    have hnew := alloc_newString h hf hshort hrun
    rcases hnew.counted with ⟨charge', hcounted⟩
    exact ⟨a, s', charge', hrun, .cell hnew.gains.mem hnew.onBackend hnew.string, hcounted,
      hnew.fresh⟩

theorem alloc_string_tooLong (hlen : TooLong s.backend bs) :
    alloc A (.string bs) s = .error (.abort
      "wok_rc: wok_string_alloc byte_len overflows size_t (16 + 8*ceil(byte_len/8))") := by
  have hlong : ¬ bs.length ≤ maxInlineStr := by
    have h := hlen.2
    unfold sizeMax at h
    unfold maxInlineStr
    omega
  simp only [alloc, hlong, if_false, hlen.1, allocNString, wokStringAlloc,
    wokBodyAlloc_tooLong _ hlen.2]
  rfl

/-! ### New views -/

theorem isUncounted_of_mem_liveCells (ha : a ∈ s.liveCells) : isUncounted a = false := by
  have h := counted_of_mem_liveCells ha
  simp only [Store.counted, Bool.and_eq_true, Bool.not_eq_true'] at h
  exact h.1

theorem isArenaAddr_of_mem_liveCells (ha : a ∈ s.liveCells) : s.isArenaAddr a = false := by
  have h := counted_of_mem_liveCells ha
  simp only [Store.counted, Bool.and_eq_true, Bool.not_eq_true'] at h
  exact h.2

/-- What comes of a new view: it takes a reference to its parent. -/
structure NewView (s s' : Store) (handles : List Addr) (parent : Addr) (off len : Nat)
    (a : Addr) : Prop where
  view : ViewCell s' a parent off len
  gains : Gains s s' a
  counted : ∃ charge, s'.Counted charge (a :: handles)
  fresh : s'.Fresh

theorem allocNStringView_newView {parent : Addr} {off len : Nat} (h : s.Counted charge handles)
    (hf : s.Fresh) (hparent : parent ∈ s.liveCells) (hb : s.OnBackend parent)
    (hoff : s.backend = .cHeap → off < 2 ^ 64) (hlen : s.backend = .cHeap → len < 2 ^ 64)
    (hrun : allocNStringView A parent off len s = .ok (a, s')) :
    NewView s s' handles parent off len a := by
  rcases h.incref fun _ => hparent with ⟨s₁, hincref, h₁, hkeeps, hnodes⟩
  have hf₁ := hnodes.fresh hf
  have hbackend : s₁.backend = s.backend := by rw [hnodes.rest]
  cases parent with
  | inline tag => cases hb
  | inlineStr bs => cases hb
  | heap i =>
      have hb : s.backend = .abstractHeap := hb
      have hkids : cascadeChildren (.stringView (.heap i) off len) = [.heap i] := by
        simp [cascadeChildren, nodeValues, countedRefs, valueChildren,
          isUncounted_of_mem_liveCells hparent]
      have h₁ : s₁.Counted charge
          (cascadeChildren (.stringView (.heap i) off len) ++ handles) := by rwa [hkids]
      rcases h₁.add_heap hf₁ rfl 32 (recordAlloc 32 s₁.stats) with ⟨hcounted, hfresh, hlive⟩
      have hdispatch : allocNStringView A (.heap i) off len s =
          .ok (allocPure (.stringView (.heap i) off len) s₁) := by
        simp only [allocNStringView, hb, hincref]
        rfl
      rw [hdispatch] at hrun
      cases hrun
      exact ⟨.heap (AList.lookup_insert _) rfl,
        (gains_heap hf₁ hlive).of_increment hkeeps.1 hkeeps.2, ⟨_, hcounted⟩, hfresh⟩
  | c q =>
      have hb : s.backend = .cHeap := hb
      have hb₁ : s₁.backend = .cHeap := hbackend.trans hb
      have hdup : wokDup q s = .ok s₁ := by
        rw [← hincref]
        simp only [incref, isArenaAddr_of_mem_liveCells hparent, if_false, Bool.false_eq_true]
      have hdispatch : allocNStringView A (.c q) off len s = (wokDup q s >>= fun s₁ =>
          wokStringViewAlloc A q (UInt64.ofNat off) (UInt64.ofNat len) s₁ >>= fun r =>
            pure (.c r.1, recordAllocS 32 r.2)) := by
        simp only [allocNStringView, hb]
      rw [hdispatch, hdup] at hrun
      rcases exceptBind_ok hrun with ⟨s₁', hs₁', hrun⟩
      cases hs₁'
      rcases exceptBind_ok hrun with ⟨⟨p, s₂⟩, hnew, hrun⟩
      cases hrun
      rw [wokStringViewAlloc, wokNew] at hnew
      cases hp : A.pick s₁ with
      | none =>
          rw [hp] at hnew
          cases hnew
      | some p' =>
          rw [hp] at hnew
          cases hnew
          let o : WokObj := ⟨1, wokStringViewTag, 0, [q, UInt64.ofNat off, UInt64.ofNat len]⟩
          let s' : Store := recordAllocS 32 { s₁ with objs := s₁.objs.insert p o }
          have hkids : objKids o s₁ = .ok [.c q] := rfl
          rcases h₁.add_c hf₁ (A.fresh hp) hb₁ rfl hkids
            (recordAlloc 32 s₁.stats) with ⟨hcounted, hfresh, hlive⟩
          have hview : ViewCell s' (.c p) (.c q) off len := by
            have hcell : ViewCell s' (.c p) _ _ _ := .c (o := o) (AList.lookup_insert _) rfl
            have hoff' : (wokStringViewOffset o).toNat = off := by
              change (UInt64.ofNat off).toNat = off
              rw [UInt64.toNat_ofNat', Nat.mod_eq_of_lt (hoff hb)]
            have hlen' : (wokStringViewLen o).toNat = len := by
              change (UInt64.ofNat len).toNat = len
              rw [UInt64.toNat_ofNat', Nat.mod_eq_of_lt (hlen hb)]
            rw [hoff', hlen'] at hcell
            exact hcell
          exact ⟨hview, (gains_c (A.fresh hp) hlive).of_increment hkeeps.1 hkeeps.2, ⟨_, hcounted⟩,
            hfresh⟩

theorem exists_allocNStringView {parent : Addr} (off len : Nat) (h : s.Counted charge handles)
    (hroom : A.Room s) (hparent : parent ∈ s.liveCells) (hb : s.OnBackend parent) :
    ∃ a s', allocNStringView A parent off len s = .ok (a, s') := by
  rcases h.incref fun _ => hparent with ⟨s₁, hincref, -, -, hnodes⟩
  cases parent with
  | inline tag => cases hb
  | inlineStr bs => cases hb
  | heap i =>
      have hb : s.backend = .abstractHeap := hb
      refine ⟨(allocPure (.stringView (.heap i) off len) s₁).1,
        (allocPure (.stringView (.heap i) off len) s₁).2, ?_⟩
      simp only [allocNStringView, hb, hincref]
      rfl
  | c q =>
      have hb : s.backend = .cHeap := hb
      have hdup : wokDup q s = .ok s₁ := by
        rw [← hincref]
        simp only [incref, isArenaAddr_of_mem_liveCells hparent, if_false, Bool.false_eq_true]
      rcases (Option.isSome_iff_exists.mp (hroom s₁ fun p hp => by
        simpa [hp] using hnodes.objs p) : ∃ p, A.pick s₁ = some p) with ⟨p, hp⟩
      have hdispatch : allocNStringView A (.c q) off len s = (wokDup q s >>= fun s₁ =>
          wokStringViewAlloc A q (UInt64.ofNat off) (UInt64.ofNat len) s₁ >>= fun r =>
            pure (.c r.1, recordAllocS 32 r.2)) := by
        simp only [allocNStringView, hb]
      have hnew : ∃ s', wokStringViewAlloc A q (UInt64.ofNat off) (UInt64.ofNat len) s₁ =
          .ok (p, s') := by
        rw [wokStringViewAlloc, wokNew, hp]
        exact ⟨_, rfl⟩
      rcases hnew with ⟨s', hnew⟩
      refine ⟨.c p, recordAllocS 32 s', ?_⟩
      rw [hdispatch, hdup]
      change (wokStringViewAlloc A q _ _ s₁ >>= _) = _
      rw [hnew]
      rfl

/-! ### Slices -/

theorem StringCell.length_lt {p : Ptr} (h : StringCell s (.c p) bs) : bs.length < 2 ^ 64 := by
  cases h with
  | @c _ o ho htag =>
      rw [wokBody, length_unpackBytes]
      exact (o.word 0).toNat_lt

/-- The handles left after the operand of a slice is dropped: the view keeps the
string that it is a window of. -/
theorem slice_of_root {root : Addr} (off len : Nat) {pb : List UInt8}
    (h : s.Counted charge (a :: handles)) (hf : s.Fresh) (hroom : A.Room s)
    (hroot : root ∈ s.liveCells) (hb : s.OnBackend root) (hs : StringCell s root pb)
    (hlen : len ≤ pb.length) (hoff : off ≤ pb.length) :
    ∃ v s₁ s' charge', allocNStringView A root off len s = .ok (v, s₁) ∧
      RC.drop a s₁ = .ok s' ∧ StringAt s' v ((pb.drop off).take len) ∧
      s'.Counted charge' (v :: handles) ∧ s'.Fresh := by
  have hlt : s.backend = .cHeap → pb.length < 2 ^ 64 := by
    intro hc
    cases root with
    | c p => exact hs.length_lt
    | heap i =>
        have hb : s.backend = .abstractHeap := hb
        rw [hc] at hb
        cases hb
    | inline tag => cases hb
    | inlineStr bs => cases hb
  rcases exists_allocNStringView off len h hroom hroot hb with ⟨v, s₁, hrun⟩
  have hview := allocNStringView_newView h hf hroot hb (fun hc => hoff.trans_lt (hlt hc))
    (fun hc => hlen.trans_lt (hlt hc)) hrun
  rcases hview.counted with ⟨charge', hcounted⟩
  rcases (hcounted.perm (.swap a v handles)).drop with ⟨s', hdrop, hcounted', hgives⟩
  have hkeeps := hgives.keeps
  have hv : v ∈ s'.liveCells := by
    apply hcounted'.balanced.mem_of_root
    apply List.mem_filter.mpr
    refine ⟨List.mem_cons_self, ?_⟩
    rw [hkeeps.counted]
    exact counted_of_mem_liveCells hview.gains.mem
  have hview' := hview.view.keeps hkeeps hv
  have hedge : s'.heap.Edge v root := by
    refine ⟨hv, ?_⟩
    change root ∈ (s'.kidsOf v).filter _
    rw [hview'.kidsOf (isUncounted_of_mem_liveCells hroot)]
    apply List.mem_filter.mpr
    refine ⟨List.mem_singleton_self root, ?_⟩
    rw [hkeeps.counted, hview.gains.counted]
    exact counted_of_mem_liveCells hroot
  have hroot' : root ∈ s'.liveCells := hcounted'.balanced.mem_of_edge hedge
  have hb' : s'.OnBackend root := by
    have hbackend : s'.backend = s.backend := hkeeps.backend.trans hview.gains.backend
    cases root <;> simp only [Store.OnBackend, hbackend] at hb ⊢ <;> exact hb
  refine ⟨v, s₁, s', charge', hrun, hdrop, ?_, hcounted', (drop_frame hdrop).fresh hview.fresh⟩
  have hs₁ := ((hview.gains.same root hroot).string pb).mpr hs
  exact .view hv hroot' hb' hview' (hs₁.keeps hkeeps hroot')

/-- A window of a window is a window. -/
theorem take_window (pb : List UInt8) (o len off n : Nat) :
    (pb.drop (o + off)).take ((((pb.drop o).take len).drop off).take n).length =
      (((pb.drop o).take len).drop off).take n := by
  have hwindow : (((pb.drop o).take len).drop off).take n =
      (pb.drop (o + off)).take (min n (len - off)) := by
    rw [List.drop_take, List.drop_drop, List.take_take]
  rw [hwindow, List.length_take, List.take_eq_take_iff]
  omega

/-- A slice of a string is a string, and the window is what it holds. -/
theorem buildSlice_stringAt (off n : Nat) (h : s.Counted charge (a :: handles)) (hf : s.Fresh)
    (hroom : A.Room s) (hs : StringAt s a bs) :
    ∃ v s' charge', buildSlice A a off ((bs.drop off).take n) s = .ok (.done (.box v), s') ∧
      StringAt s' v ((bs.drop off).take n) ∧ s'.Counted charge' (v :: handles) ∧ s'.Fresh := by
  by_cases hshort : ((bs.drop off).take n).length ≤ maxInlineStr
  · rcases h.drop with ⟨s', hdrop, hcounted, -⟩
    refine ⟨_, s', charge, ?_, .inline hshort, ⟨hcounted.wellFormed, ?_⟩,
      (drop_frame hdrop).fresh hf⟩
    · rw [buildSlice, if_pos hshort, hdrop]
      rfl
    · rw [List.filter_cons_of_neg (by simp [Store.counted, isUncounted, isInline])]
      exact hcounted.balanced
  · have hlong : maxInlineStr < min n (bs.length - off) := by
      rw [List.length_take, List.length_drop] at hshort
      omega
    have hrunSlice : ∀ {root : Addr} {absOff : Nat} {v : Addr} {s₁ s' : Store} {c : Cell},
        RC.deref a s = .ok c → sliceRoot a off c.node = .ok (root, absOff) →
        allocNStringView A root absOff ((bs.drop off).take n).length s = .ok (v, s₁) →
        RC.drop a s₁ = .ok s' →
        buildSlice A a off ((bs.drop off).take n) s = .ok (.done (.box v), s') := by
      intro root absOff v s₁ s' c hderef hroot halloc hdrop
      rw [buildSlice, if_neg hshort, hderef]
      change (sliceRoot a off c.node >>= _) = _
      rw [hroot]
      change (allocNStringView A root absOff _ s >>= _) = _
      rw [halloc]
      change (RC.drop a s₁ >>= _) = _
      rw [hdrop]
      rfl
    cases hs with
    | inline hle =>
        unfold maxInlineStr at hlong hle
        omega
    | cell ha hb hcell =>
        rcases hcell.deref h.wellFormed with ⟨rc, bytes, hderef⟩
        have hwindow : (bs.drop off).take ((bs.drop off).take n).length =
            (bs.drop off).take n := by
          simp
        rcases slice_of_root off ((bs.drop off).take n).length h hf hroom ha hb hcell
          (by simp) (by omega) with
          ⟨v, s₁, s', charge', halloc, hdrop, hstring, hcounted, hfresh⟩
        rw [hwindow] at hstring
        exact ⟨v, s', charge', hrunSlice hderef rfl halloc hdrop, hstring, hcounted, hfresh⟩
    | @view _ parent o len pb ha hparent hb hview hcell =>
        rcases hview.deref h.wellFormed with ⟨rc, bytes, hderef⟩
        let wb := (((pb.drop o).take len).drop off).take n
        have hwindow : (pb.drop (o + off)).take wb.length = wb := take_window pb o len off n
        rcases slice_of_root (o + off) wb.length h hf hroom hparent hb hcell
          (by simp [wb]; omega) (by simp at hlong; omega) with
          ⟨v, s₁, s', charge', halloc, hdrop, hstring, hcounted, hfresh⟩
        rw [hwindow] at hstring
        exact ⟨v, s', charge', hrunSlice hderef rfl halloc hdrop, hstring, hcounted, hfresh⟩

end Wok.Interp.RC
