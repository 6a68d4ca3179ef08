/-
Module: Wok.Proofs.StringPrims
Purpose: Every string primitive computes from the bytes of its operands, whatever
  represents them; a case does not, when one of two representations is a view.
Imports: Wok.Proofs.Strings
Trusted boundary: none
Main exports: Owns.drop, Reads, stringPrims_read, pickAltRC_eq_iff
-/
import Wok.Proofs.Strings

namespace Wok.Interp.RC

open Wok.IR
open Wok.Lib

variable {s s' t : Store} {a b : Addr} {bs bs' : List UInt8} {A : Allocator} {sz : StringZilla}
  {v iv : RCValue} {vs : List RCValue} {x y : ArgView}

/-! ### Owned operands -/

theorem Allocator.Room.keeps (h : A.Room s)
    (hobjs : ∀ p, s.objs.lookup p = none → s'.objs.lookup p = none) : A.Room s' :=
  fun t ht => h t fun p hp => ht p (hobjs p hp)

theorem Owns.counted_box (h : Owns A s (.box a :: vs)) :
    ∃ charge handles, s.Counted charge (a :: handles) := by
  rcases h.counted with ⟨charge, handles, hcounted⟩
  exact ⟨charge, _, hcounted⟩

/-- An operand that is dropped leaves the others owned. -/
theorem Owns.drop (h : Owns A s (.box a :: vs)) :
    ∃ s₁, RC.drop a s = .ok s₁ ∧ Owns A s₁ vs ∧ DropFrame s s₁ := by
  rcases h.counted with ⟨charge, handles, hcounted⟩
  rcases hcounted.drop with ⟨s₁, hdrop, hcounted₁, -⟩
  have hframe := drop_frame hdrop
  exact ⟨s₁, hdrop, ⟨⟨charge, handles, hcounted₁⟩, hframe.fresh h.fresh,
    h.room.keeps hframe.objs⟩, hframe⟩

theorem Owns.wellFormed (h : Owns A s vs) : ∃ charge, s.WellFormed charge := by
  rcases h.counted with ⟨charge, handles, hcounted⟩
  exact ⟨charge, hcounted.wellFormed⟩

theorem Owns.stringBytes (h : Owns A s vs) (hs : StringAt s a bs) :
    RC.stringBytes (.box a) s = .ok bs := by
  rcases h.wellFormed with ⟨charge, hwf⟩
  exact hs.stringBytes hwf

/-! ### Primitives that read their operands -/

/-- What a program sees of the result of a primitive. -/
def outcomeOf (r : Except Fault (RCPrimResult × Store)) : Except Fault Outcome := do
  let (r, s') ← r
  match r with
  | .done v => do
      let seen ← see v s'
      return .value seen
  | .apply .. => return .value .other

/-- The result of the primitive is a function of what its operands are to a program. -/
def Reads (A : Allocator) (p : RCPrim) : Prop :=
  ∃ f : HeapBackend → List (String × UInt32) → List ArgView → Except Fault Outcome,
    ∀ s vs xs, List.Forall₂ (ArgIs s) vs xs → Owns A s vs →
      outcomeOf (p.fn vs s) = f s.backend s.tags xs

/-- The index that an operand is. -/
def indexOf : ArgView → Except Fault Nat
  | .lit l => asStringIndex (.lit l)
  | .str _ => .error (primError "String: expected U64 index")

theorem ArgIs.asStringIndex (h : ArgIs s v x) : RC.asStringIndex v = indexOf x := by
  cases h <;> rfl

/-- What a primitive that reads one string gives. -/
def stringReading (message : String) (read : List UInt8 → Except Fault Lit) :
    List ArgView → Except Fault Outcome
  | [.str bs] => do
      let l ← read bs
      return .value (.lit l)
  | _ => .error (arityError message)

theorem readString_reads (name message : String) (read : List UInt8 → Except Fault Lit) :
    Reads A (readString name message read) := by
  refine ⟨fun _ _ => stringReading message read, ?_⟩
  rintro s vs xs hargs howns
  rcases hargs with _ | ⟨hx, hrest⟩
  · rfl
  cases hx with
  | lit l => rcases hrest with _ | ⟨hy, _ | _⟩ <;> rfl
  | @str a bs hs =>
      rcases hrest with _ | ⟨hy, _ | _⟩
      · rcases howns.drop with ⟨s₁, hdrop, -, -⟩
        simp only [readString, stringReading, howns.stringBytes hs]
        change outcomeOf (read bs >>= fun l => RC.drop a s >>= _) = _
        rw [hdrop]
        cases read bs <;> rfl
      · cases hy <;> rfl
      · cases hy <;> rfl

/-- What a program sees of a literal that is read at an index of a string. -/
def readAt (read : List UInt8 → Nat → Except Fault Lit) (bs : List UInt8) (x : ArgView) :
    Except Fault Outcome := do
  let i ← indexOf x
  let l ← read bs i
  return .value (.lit l)

theorem readStringAt_outcome (read : List UInt8 → Nat → Except Fault Lit)
    (howns : Owns A s [.box a, iv]) (hs : StringAt s a bs) (hx : ArgIs s iv x) :
    outcomeOf (readStringAt read a iv s) = readAt read bs x := by
  rcases howns.drop with ⟨s₁, hdrop, -, -⟩
  simp only [readStringAt, howns.stringBytes hs, hx.asStringIndex]
  change outcomeOf (indexOf x >>= fun i => read bs i >>= fun l => RC.drop a s >>= _) = _
  unfold readAt
  rw [hdrop]
  cases indexOf x with
  | error e => rfl
  | ok i =>
      change outcomeOf (read bs i >>= _) = read bs i >>= _
      cases read bs i <;> rfl

/-- The operands of a primitive that reads a string at an index. -/
def readAtView (message : String) (read : List UInt8 → Nat → Except Fault Lit) :
    List ArgView → Except Fault Outcome
  | [.str bs, x] => readAt read bs x
  | _ => .error (arityError message)

theorem stringAt_reads (name message : String) (read : List UInt8 → Nat → Except Fault Lit) :
    Reads A (stringAt name message read) := by
  refine ⟨fun _ _ => readAtView message read, ?_⟩
  rintro s vs xs hargs howns
  rcases hargs with _ | ⟨hx, _ | ⟨hy, _ | ⟨hz, hrest⟩⟩⟩
  · rfl
  · cases hx <;> rfl
  · cases hx with
    | lit l => rfl
    | str hs => exact readStringAt_outcome read howns hs hy
  · cases hx <;> rfl

/-- Reading a byte of a string cell in place is reading it from the bytes. -/
theorem wokStringByteGet_eq {o : WokObj} {i : Nat} (h : i < (wokStringLen o).toNat) :
    byteAtOf (wokBody o) i = .ok (.int (wokStringByteGet o i).toNat) := by
  have hget : (wokBody o)[i]? = some (wokStringByteGet o i) := by
    unfold wokBody wokStringByteGet
    exact getElem?_unpackBytes _ h
  rw [byteAtOf, hget]

theorem byteAtOf_outOfBounds {o : WokObj} {i : Nat} (h : (wokStringLen o).toNat ≤ i) :
    byteAtOf (wokBody o) i = .error (primError "String.byteAt: out of bounds") := by
  have hnone : (wokBody o)[i]? = none := by
    apply List.getElem?_eq_none
    rw [wokBody, length_unpackBytes]
    exact h
  rw [byteAtOf, hnone]

theorem stringByteAt_c {p : Ptr} (howns : Owns A s [.box (.c p), iv]) (hs : StringAt s (.c p) bs)
    (hx : ArgIs s iv x) :
    outcomeOf (stringByteAt.fn [.box (.c p), iv] s) = readAt byteAtOf bs x := by
  cases hb : s.backend with
  | abstractHeap =>
      have hrun : stringByteAt.fn [.box (.c p), iv] s = stringByteAtViaBytes (.c p) iv s := by
        simp only [stringByteAt, hb]
      rw [hrun]
      exact readStringAt_outcome byteAtOf howns hs hx
  | cHeap =>
      cases hs with
      | cell hlive hback hcell =>
          cases hcell with
          | @c _ o ho htag =>
              rcases howns.drop with ⟨s₁, hdrop, -, -⟩
              simp only [stringByteAt, hb, wokObj, ho, hx.asStringIndex]
              change outcomeOf (if o.tag = wokStringTag then _ else _) = _
              rw [if_pos htag, hdrop]
              unfold readAt
              cases indexOf x with
              | error e => rfl
              | ok i =>
                  change outcomeOf (if i ≥ (wokStringLen o).toNat then _ else _) =
                    (byteAtOf (wokBody o) i >>= _)
                  by_cases hi : i ≥ (wokStringLen o).toNat
                  · rw [if_pos hi, byteAtOf_outOfBounds hi]
                    rfl
                  · rw [if_neg hi, wokStringByteGet_eq (by omega)]
                    rfl
      | view hlive hparent hback hview hbytes =>
          rcases hview with _ | ⟨ho, htag⟩
          have hrun : stringByteAt.fn [.box (.c p), iv] s = stringByteAtViaBytes (.c p) iv s := by
            simp only [stringByteAt, hb, wokObj, ho]
            change (if _ = wokStringTag then _ else _) = _
            rw [if_neg (by rw [htag]; decide)]
          rw [hrun]
          exact readStringAt_outcome byteAtOf howns
            (.view hlive hparent hback (.c ho htag) hbytes) hx

theorem stringByteAt_reads : Reads A stringByteAt := by
  refine ⟨fun _ _ => readAtView "String.byteAt" byteAtOf, ?_⟩
  rintro s vs xs hargs howns
  rcases hargs with _ | ⟨hx, _ | ⟨hy, _ | ⟨hz, hrest⟩⟩⟩
  · rfl
  · rcases hx with _ | @⟨a, bs, hs⟩
    · rfl
    · cases a <;> rfl
  · rcases hx with _ | @⟨a, bs, hs⟩
    · rfl
    · cases a with
      | c p => exact stringByteAt_c howns hs hy
      | heap i => exact readStringAt_outcome byteAtOf howns hs hy
      | inline tag => exact readStringAt_outcome byteAtOf howns hs hy
      | inlineStr bytes => exact readStringAt_outcome byteAtOf howns hs hy
  · rcases hx with _ | @⟨a, bs, hs⟩
    · rfl
    · cases a <;> rfl

/-! ### Primitives of two strings -/

/-- What is made of two strings is a function of their bytes. -/
def Makes (A : Allocator) (make : List UInt8 → List UInt8 → Store → Except Fault (RCValue × Store))
    (f : HeapBackend → List (String × UInt32) → List UInt8 → List UInt8 → Except Fault Outcome) :
    Prop :=
  ∀ s bs bs', Owns A s [] →
    (do let (v, s') ← make bs bs' s
        let seen ← see v s'
        return .value seen) = f s.backend s.tags bs bs'

/-- What a primitive that makes a value of two strings gives. -/
def stringsMade (message : String) (f : List UInt8 → List UInt8 → Except Fault Outcome) :
    List ArgView → Except Fault Outcome
  | [.str bs, .str bs'] => f bs bs'
  | _ => .error (arityError message)

theorem twoStrings_reads (name message : String)
    {make : List UInt8 → List UInt8 → Store → Except Fault (RCValue × Store)}
    {f : HeapBackend → List (String × UInt32) → List UInt8 → List UInt8 → Except Fault Outcome}
    (hmake : Makes A make f) : Reads A (twoStrings name message make) := by
  refine ⟨fun backend tags => stringsMade message (f backend tags), ?_⟩
  rintro s vs xs hargs howns
  rcases hargs with _ | ⟨hx, _ | ⟨hy, _ | ⟨hz, hrest⟩⟩⟩
  · rfl
  · cases hx <;> rfl
  · cases hx with
    | lit l => rfl
    | @str a bs hs =>
        cases hy with
        | lit l => rfl
        | @str b bs' hs' =>
            rcases howns.drop with ⟨s₁, hdrop, howns₁, hframe⟩
            rcases howns₁.drop with ⟨s₂, hdrop', howns₂, hframe'⟩
            have hmade := hmake s₂ bs bs' howns₂
            rw [hframe'.backend, hframe'.tags, hframe.backend, hframe.tags] at hmade
            simp only [twoStrings, howns.stringBytes hs, howns.stringBytes hs']
            change outcomeOf (RC.drop a s >>= fun s₁ => RC.drop b s₁ >>= _) =
              f s.backend s.tags bs bs'
            rw [← hmade, hdrop]
            change outcomeOf (RC.drop b s₁ >>= _) = _
            rw [hdrop']
            change outcomeOf (make bs bs' s₂ >>= _) = make bs bs' s₂ >>= _
            cases make bs bs' s₂ <;> rfl
  · cases hx with
    | lit l => rfl
    | str hs => cases hy <;> rfl

instance (backend : HeapBackend) (bs : List UInt8) : Decidable (TooLong backend bs) :=
  inferInstanceAs (Decidable (_ ∧ _))

theorem stringAppend_reads : Reads A (stringAppend A) := by
  let f := fun (backend : HeapBackend) (_ : List (String × UInt32)) (bs bs' : List UInt8) =>
    if TooLong backend (bs ++ bs') then
      Except.error (Fault.abort
        "wok_rc: wok_string_alloc byte_len overflows size_t (16 + 8*ceil(byte_len/8))")
    else .ok (Outcome.value (.str (bs ++ bs')))
  apply twoStrings_reads _ _ (f := f)
  intro s bs bs' howns
  by_cases hlong : TooLong s.backend (bs ++ bs')
  · dsimp only
    rw [alloc_string_tooLong hlong]
    simp only [f, if_pos hlong]
    rfl
  · rcases howns.counted with ⟨charge, handles, hcounted⟩
    rcases alloc_string hcounted howns.fresh howns.room (bs ++ bs') hlong with
      ⟨a, s', charge', halloc, hs, hcounted', -⟩
    dsimp only
    rw [halloc]
    change (see (.box a) s' >>= _) = _
    rw [hs.see hcounted'.wellFormed]
    simp only [f, if_neg hlong]
    rfl

/-- An empty store with given tags. -/
def storeOfTags (tags : List (String × UInt32)) : Store where
  cells := ∅
  dead := ∅
  stats :=
    { allocs := 0, frees := 0, live := 0, peak := 0, curBytes := 0, peakBytes := 0 }
  backend := .abstractHeap
  conDesc := []
  reserved := ∅
  arena := []
  arenaC := []
  objs := ∅
  tags := tags

/-- What a program sees of a truth value that a primitive makes. -/
def boolOutcome (A : Allocator) (r : Bool) (s : Store) : Except Fault Outcome := do
  let (v, s') ← allocBool A r s
  let seen ← see v s'
  return .value seen

theorem boolOutcome_congr (r : Bool) (h : s.tags = t.tags) :
    boolOutcome A r s = boolOutcome A r t := by
  let con := if r then "True" else "False"
  have hrun : ∀ s, boolOutcome A r s =
      (tagName (internTag con s).1 (internTag con s).2).map fun c => .value (.con c) := by
    intro s
    unfold boolOutcome allocBool
    change (see (.box (.inline (internTag con s).1)) (internTag con s).2 >>= _) = _
    simp only [see, deref]
    cases tagName (internTag con s).1 (internTag con s).2 <;> rfl
  rcases internTag_congr con h with ⟨htag, htags⟩
  rw [hrun, hrun, htag, tagName_congr _ htags]

theorem eqString_reads : Reads A (eqString A) :=
  twoStrings_reads _ _ (f := fun _ tags bs bs' => boolOutcome A (bs == bs') (storeOfTags tags))
    fun _ _ _ _ => boolOutcome_congr _ rfl

theorem stringEditDistance_reads : Reads A (stringEditDistance sz) :=
  twoStrings_reads _ _
    (f := fun _ _ bs bs' => .ok (.value (.lit (.int (sz.editDistance bs bs').toNat))))
    fun _ _ _ _ => rfl

/-- What the search of a string in another gives. -/
def indexOfFromReading (sz : StringZilla) : List ArgView → Except Fault Outcome
  | [.str bh, .str bn, x] => do
      let i ← indexOf x
      return .value (.lit (.int (wokSzFind sz bh bn i).toNat))
  | _ => .error (arityError "String.indexOfFromRaw")

theorem stringIndexOfFromRaw_reads : Reads A (stringIndexOfFromRaw sz) := by
  refine ⟨fun _ _ => indexOfFromReading sz, ?_⟩
  rintro s vs xs hargs howns
  rcases hargs with _ | ⟨hx, _ | ⟨hy, _ | ⟨hz, _ | ⟨hw, hrest⟩⟩⟩⟩
  · rfl
  · cases hx <;> rfl
  · cases hx with
    | lit l => rfl
    | str hs => cases hy <;> rfl
  · cases hx with
    | lit l => rfl
    | @str a bs hs =>
        cases hy with
        | lit l => rfl
        | @str b bs' hs' =>
            rcases howns.drop with ⟨s₁, hdrop, howns₁, -⟩
            rcases howns₁.drop with ⟨s₂, hdrop', -, -⟩
            simp only [stringIndexOfFromRaw, indexOfFromReading, howns.stringBytes hs,
              howns.stringBytes hs', hz.asStringIndex]
            change outcomeOf (indexOf _ >>= fun i => RC.drop a s >>= fun s₁ => RC.drop b s₁ >>= _) =
              indexOf _ >>= _
            rw [hdrop]
            change outcomeOf (indexOf _ >>= fun i => RC.drop b s₁ >>= _) = _
            rw [hdrop']
            cases indexOf _ <;> rfl
  · cases hx with
    | lit l => rfl
    | str hs => cases hy <;> rfl

/-! ### Slices and copies -/

/-- What a primitive takes of a string is a window of it. -/
def Windows (window : List UInt8 → Nat → Nat → Except Fault (Nat × List UInt8)) : Prop :=
  ∀ {pb start len off wb}, window pb start len = .ok (off, wb) → ∃ n, wb = (pb.drop off).take n

/-- What a primitive that cuts a string gives. -/
def sliceReading (message : String)
    (window : List UInt8 → Nat → Nat → Except Fault (Nat × List UInt8)) :
    List ArgView → Except Fault Outcome
  | [.str bs, x, y] => do
      let start ← indexOf x
      let len ← indexOf y
      let w ← window bs start len
      return .value (.str w.2)
  | _ => .error (arityError message)

theorem sliceOf_reads (name message : String)
    {window : List UInt8 → Nat → Nat → Except Fault (Nat × List UInt8)} (hwin : Windows window) :
    Reads A (sliceOf A name message window) := by
  refine ⟨fun _ _ => sliceReading message window, ?_⟩
  rintro s vs xs hargs howns
  rcases hargs with _ | ⟨hx, _ | ⟨hy, _ | ⟨hz, _ | ⟨hw, hrest⟩⟩⟩⟩
  · rfl
  · cases hx <;> rfl
  · cases hx <;> rfl
  · cases hx with
    | lit l => rfl
    | @str a bs hs =>
        simp only [sliceOf, sliceReading, howns.stringBytes hs, hy.asStringIndex, hz.asStringIndex]
        change outcomeOf (indexOf _ >>= fun start => indexOf _ >>= fun len =>
          window bs start len >>= fun w => buildSlice A a w.1 w.2 s) = _
        rename_i _ x _ y
        cases indexOf x with
        | error e => rfl
        | ok start =>
            cases indexOf y with
            | error e => rfl
            | ok len =>
                change outcomeOf (window bs start len >>= _) = window bs start len >>= _
                cases hw : window bs start len with
                | error e => rfl
                | ok w =>
                    rcases hwin hw with ⟨n, hwb⟩
                    rcases howns.counted_box with ⟨charge, handles, hcounted⟩
                    rcases buildSlice_stringAt w.1 n hcounted howns.fresh howns.room hs with
                      ⟨v, s', charge', hrun, hstring, hcounted', -⟩
                    rw [← hwb] at hrun hstring
                    change outcomeOf (buildSlice A a w.1 w.2 s) = .ok (.value (.str w.2))
                    rw [hrun]
                    change (see (.box v) s' >>= _) = _
                    rw [hstring.see hcounted'.wellFormed]
                    rfl
  · cases hx <;> rfl

theorem stringSlice_reads : Reads A (stringSlice A) := by
  apply sliceOf_reads
  intro pb start len off wb hwindow
  dsimp only at hwindow
  cases ht : decodeUtf8 pb with
  | error e =>
      rw [ht] at hwindow
      cases hwindow
  | ok t =>
      rw [ht] at hwindow
      cases hwindow
      exact ⟨_, rfl⟩

theorem stringByteSlice_reads : Reads A (stringByteSlice A) := by
  apply sliceOf_reads
  intro pb start len off wb hwindow
  dsimp only at hwindow
  split at hwindow
  · cases hwindow
  · split at hwindow
    · cases hwindow
    · cases hwindow
      exact ⟨_, rfl⟩

/-- A cell that a drop leaves is read back as before, its count apart. -/
theorem deref_keeps {charge : Addr → Int} {c : Cell} (hk : Keeps s s') (hframe : DropFrame s s')
    (hwf : s'.WellFormed charge) (ha : a ∈ s'.liveCells) (h : deref a s = .ok c) :
    ∃ c', deref a s' = .ok c' ∧ c'.node = c.node := by
  cases a with
  | heap i =>
      rcases mem_liveCells_heap.mp ha with ⟨⟨c', hc'⟩, -⟩
      rcases hk.cells i c' hc' with ⟨c₀, hc₀, hnode, -⟩
      have hdead : i ∉ s'.dead := by
        intro hi
        rw [hwf.dead i hi] at hc'
        cases hc'
      refine ⟨c', by simp only [deref, derefPure, hdead, hc', if_false], ?_⟩
      simp only [deref, derefPure, hc₀] at h
      split at h
      · cases h
      · cases h
        exact hnode
  | c p =>
      rcases mem_liveCells_c.mp ha with ⟨⟨o', ho', -⟩, -⟩
      rcases hk.objs p o' ho' with ⟨o, ho, heq⟩
      refine ⟨c, ?_, rfl⟩
      rw [heq] at ho'
      rw [← h]
      simp only [deref, readCCell, wokObj, ho, ho', foreignBody, readCConValues, tagName,
        hframe.tags, hframe.conDesc, hframe.buffers]
      rfl
  | inline tid =>
      refine ⟨c, ?_, rfl⟩
      rw [← h]
      simp only [deref, tagName, hframe.tags]
  | inlineStr bytes => exact ⟨c, h, rfl⟩

theorem alloc_bytes {charge : Addr → Int} {handles : List Addr} (h : s.Counted charge handles)
    (hf : s.Fresh) (hroom : A.Room s) (bs : List UInt8) (hlen : ¬ TooLong s.backend bs) :
    ∃ a s' charge' c, alloc A (.bytes bs) s = .ok (a, s') ∧ deref a s' = .ok c ∧
      c.node = .bytes bs ∧ a ∈ s'.liveCells ∧ s'.Counted charge' (a :: handles) := by
  cases hb : s.backend with
  | abstractHeap =>
      rcases h.add_heap (n := .bytes bs) hf rfl (wouldBeCBytes (.bytes bs))
        (recordAlloc (wouldBeCBytes (.bytes bs)) s.stats) with ⟨hcounted, hfresh, hlive⟩
      have hrun : alloc A (.bytes bs) s = .ok (allocPure (.bytes bs) s) := by
        simp only [alloc, hb]
      have hdead : s.next ∉ s.dead := fun hi => lt_irrefl _ (hf.dead _ hi)
      refine ⟨_, _, _, ⟨1, .bytes bs, wouldBeCBytes (.bytes bs)⟩, hrun, ?_, rfl, hlive, hcounted⟩
      simp only [deref, derefPure, hdead, if_false, AList.lookup_insert]
  | cHeap =>
      have hfits : ¬ sizeMax - 16 - 7 < bs.length := fun hlong => hlen ⟨hb, hlong⟩
      rcases hroom.pick with ⟨p, hp⟩
      let o : WokObj := ⟨1, wokBytesTag, 0, UInt64.ofNat bs.length :: packBytes bs⟩
      have hbody : wokBody o = bs := wokBody_packBytes (by unfold sizeMax at *; omega)
      have hkids : objKids o s = .ok [] := rfl
      rcases h.add_c hf (A.fresh hp) hb rfl hkids
        (recordAlloc (wouldBeCBytes (.bytes bs)) s.stats) with ⟨hcounted, hfresh, hlive⟩
      have hrun : alloc A (.bytes bs) s = .ok (.c p, { s with
          objs := s.objs.insert p o
          stats := recordAlloc (wouldBeCBytes (.bytes bs)) s.stats }) := by
        have hdispatch : alloc A (.bytes bs) s = allocNBytes A bs s := by
          simp only [alloc, hb]
        rw [hdispatch, allocNBytes, wokBytesAlloc, wokBodyAlloc_ok _ hfits hp]
        rfl
      refine ⟨_, _, _, ⟨0, .bytes bs, 0⟩, hrun, ?_, rfl, hlive, hcounted⟩
      simp only [deref, readCCell, wokObj, AList.lookup_insert]
      change Except.ok (Cell.mk 0 (.bytes (wokBody o)) 0) = _
      rw [hbody]

theorem alloc_bytes_tooLong (hlen : TooLong s.backend bs) :
    alloc A (.bytes bs) s = .error (.abort
      "wok_rc: wok_string_alloc byte_len overflows size_t (16 + 8*ceil(byte_len/8))") := by
  simp only [alloc, hlen.1, allocNBytes, wokBytesAlloc, wokBodyAlloc_tooLong _ hlen.2]
  rfl

theorem see_bytes {c : Cell} (h : deref a s = .ok c) (hnode : c.node = .bytes bs) :
    see (.box a) s = .ok (.bytes bs) := by
  simp only [see, h]
  simp only [bind, Except.bind, hnode]
  rfl

/-- What the bytes of a string are, where the C heap has a size for them. -/
def bytesReading (backend : HeapBackend) : List ArgView → Except Fault Outcome
  | [.str bs] =>
      if TooLong backend bs then .error (.abort
        "wok_rc: wok_string_alloc byte_len overflows size_t (16 + 8*ceil(byte_len/8))")
      else .ok (.value (.bytes bs))
  | _ => .error (arityError "toBytes")

theorem bytesToBytesRC_reads : Reads A (bytesToBytesRC A) := by
  refine ⟨fun backend _ => bytesReading backend, ?_⟩
  rintro s vs xs hargs howns
  rcases hargs with _ | ⟨hx, _ | ⟨hy, hrest⟩⟩
  · rfl
  · cases hx with
    | lit l => rfl
    | @str a bs hs =>
        simp only [bytesToBytesRC, bytesReading, howns.stringBytes hs]
        change outcomeOf (alloc A (.bytes bs) s >>= fun r => RC.drop a r.2 >>= _) = _
        by_cases hlong : TooLong s.backend bs
        · rw [alloc_bytes_tooLong hlong, if_pos hlong]
          rfl
        · rw [if_neg hlong]
          rcases howns.counted_box with ⟨charge, handles, hcounted⟩
          rcases alloc_bytes hcounted howns.fresh howns.room bs hlong with
            ⟨na, s₁, charge₁, c, halloc, hderef, hnode, hlive, hcounted₁⟩
          rcases (hcounted₁.perm (.swap a na handles)).drop with ⟨s₂, hdrop, hcounted₂, hgives⟩
          have hlive₂ : na ∈ s₂.liveCells := by
            apply hcounted₂.balanced.mem_of_root
            apply List.mem_filter.mpr
            refine ⟨List.mem_cons_self, ?_⟩
            rw [hgives.keeps.counted]
            exact counted_of_mem_liveCells hlive
          rcases deref_keeps hgives.keeps (drop_frame hdrop) hcounted₂.wellFormed hlive₂ hderef with
            ⟨c', hderef', hnode'⟩
          rw [halloc]
          change outcomeOf (RC.drop a s₁ >>= _) = _
          rw [hdrop]
          change (see (.box na) s₂ >>= _) = _
          rw [see_bytes hderef' (hnode'.trans hnode)]
          rfl
  · cases hx <;> rfl

/-- No primitive tells the representations of a string from each other. -/
theorem stringPrims_read {p : RCPrim} (h : p ∈ stringPrims A sz) : Reads A p := by
  simp only [stringPrims, List.mem_cons, List.not_mem_nil, or_false] at h
  rcases h with rfl | rfl | rfl | rfl | rfl | rfl | rfl | rfl | rfl | rfl | rfl | rfl | rfl | rfl
  · exact readString_reads _ _ _
  · exact stringAt_reads _ _ _
  · exact readString_reads _ _ _
  · exact stringByteAt_reads
  · exact stringAppend_reads
  · exact eqString_reads
  · exact stringIndexOfFromRaw_reads
  · exact readString_reads _ _ _
  · exact stringEditDistance_reads
  · exact stringSlice_reads
  · exact stringByteSlice_reads
  · exact stringAt_reads _ _ _
  · exact stringAt_reads _ _ _
  · exact bytesToBytesRC_reads

/-! ### Cases and projections -/

/-- The alternative that a case takes for a node. -/
def caseOutcome (n : Node) (alts : List Alt) : Except Fault Outcome := do
  let (alt, _) ← goNode n alts
  return .alternative alt

/-- A view meets no literal: only a default takes it. -/
theorem caseOutcome_view (parent : Addr) (off len : Nat) (alts : List Alt) :
    (∃ e, caseOutcome (.stringView parent off len) alts = .ok (.alternative (.default e))) ∨
      caseOutcome (.stringView parent off len) alts =
        .error (nonExhaustiveCase "<string-view>") := by
  induction alts with
  | nil => exact .inr rfl
  | cons alt alts ih =>
      cases alt with
      | con c bs e => exact ih
      | lit l e => exact ih
      | default e => exact .inl ⟨e, rfl⟩

theorem caseOutcome_view_congr (parent parent' : Addr) (off off' len len' : Nat)
    (alts : List Alt) :
    caseOutcome (.stringView parent off len) alts =
      caseOutcome (.stringView parent' off' len') alts := by
  induction alts with
  | nil => rfl
  | cons alt alts ih =>
      cases alt with
      | con c bs e => exact ih
      | lit l e => exact ih
      | default e => rfl

theorem caseOutcome_string_lit (bs : List UInt8) (t : String) (e : Expr) (alts : List Alt) :
    caseOutcome (.string bs) (.lit (.str t) e :: alts) =
      match decodeUtf8 bs with
      | .ok t' =>
          if t == t' then .ok (.alternative (.lit (.str t) e)) else caseOutcome (.string bs) alts
      | .error err => .error err := by
  unfold caseOutcome
  rw [goNode, litMatchesNode]
  cases decodeUtf8 bs with
  | error err => rfl
  | ok t' =>
      change ((if (t == t') = true then _ else _) >>= _) = _
      by_cases h : (t == t') = true
      · rw [if_pos h]
        simp only [h, if_true]
        rfl
      · rw [if_neg h]
        simp only [h, if_false, Bool.false_eq_true]

theorem takesDefault_cons_of_not (alt : Alt) {alts : List Alt} (h : decides bs alt = false) :
    takesDefault bs (alt :: alts) = takesDefault bs alts := by
  unfold takesDefault
  rw [List.find?_cons_of_neg (by simp [h])]

theorem takesDefault_cons_of_lit {l : Lit} {e : Expr} {alts : List Alt}
    (h : decides bs (.lit l e) = true) : takesDefault bs (.lit l e :: alts) = false := by
  unfold takesDefault
  rw [List.find?_cons_of_pos h]

/-- A string and a view of its bytes take the same alternative exactly when a
default comes before any literal that decides. -/
theorem caseOutcome_string_eq_view (bs : List UInt8) (parent : Addr) (off len : Nat)
    (alts : List Alt) :
    caseOutcome (.string bs) alts = caseOutcome (.stringView parent off len) alts ↔
      takesDefault bs alts = true := by
  induction alts with
  | nil =>
      constructor
      · intro h
        have hfault := Except.error.inj (show Except.error (nonExhaustiveCase "<string>") =
          Except.error (nonExhaustiveCase "<string-view>") from h)
        exact absurd hfault (by decide)
      · intro h
        cases h
  | cons alt alts ih =>
      cases alt with
      | con c bs' e => exact (takesDefault_cons_of_not (.con c bs' e) rfl).symm ▸ ih
      | default e =>
          constructor
          · intro _
            rfl
          · intro _
            rfl
      | lit l e =>
          have hview : caseOutcome (.stringView parent off len) (.lit l e :: alts) =
              caseOutcome (.stringView parent off len) alts := rfl
          rw [hview]
          cases l with
          | int n => exact (takesDefault_cons_of_not (.lit (.int n) e) rfl).symm ▸ ih
          | char c => exact (takesDefault_cons_of_not (.lit (.char c) e) rfl).symm ▸ ih
          | unit => exact (takesDefault_cons_of_not (.lit .unit e) rfl).symm ▸ ih
          | str t =>
              have hview := caseOutcome_view parent off len alts
              rw [caseOutcome_string_lit]
              cases ht : decodeUtf8 bs with
              | error err =>
                  rw [takesDefault_cons_of_lit (by simp [decides, ht])]
                  dsimp only
                  have herr : err = .internal "Cannot decode input" := by
                    unfold decodeUtf8 at ht
                    split at ht
                    · cases ht
                    · cases ht
                      rfl
                  subst herr
                  rcases hview with ⟨e', hview⟩ | hview
                  · rw [hview]
                    simp
                  · rw [hview]
                    simp [nonExhaustiveCase]
              | ok t' =>
                  dsimp only
                  by_cases heq : (t == t') = true
                  · rw [if_pos heq, takesDefault_cons_of_lit (by simp [decides, ht, heq])]
                    rcases hview with ⟨e', hview⟩ | hview
                    · rw [hview]
                      simp
                    · rw [hview]
                      simp
                  · rw [if_neg heq, takesDefault_cons_of_not _ (by simp [decides, ht, heq])]
                    exact ih

/-- A case on a string, as far as its place in memory shows. -/
theorem caseOutcome_of_stringAt {charge : Addr → Int} (hwf : s.WellFormed charge)
    (hs : StringAt s a bs) :
    (¬ IsView s a ∧ ∀ alts : List Alt,
        (do let (alt, _) ← pickAltRC (.box a) alts s; return Outcome.alternative alt) =
          caseOutcome (.string bs) alts) ∨
      (IsView s a ∧ ∃ parent off len, ∀ alts : List Alt,
        (do let (alt, _) ← pickAltRC (.box a) alts s; return Outcome.alternative alt) =
          caseOutcome (.stringView parent off len) alts) := by
  rcases hs.deref hwf with ⟨hview, rc, bytes, hderef⟩ | ⟨hview, rc, bytes, parent, off, len, hderef⟩
  · refine .inl ⟨hview, fun alts => ?_⟩
    simp only [pickAltRC, hderef]
    rfl
  · refine .inr ⟨hview, parent, off, len, fun alts => ?_⟩
    simp only [pickAltRC, hderef]
    rfl

theorem StringAt.bytes_eq {charge : Addr → Int} (hwf : s.WellFormed charge)
    (h : StringAt s a bs) (h' : StringAt s a bs') : bs = bs' :=
  Except.ok.inj ((h.stringBytes hwf).symm.trans (h'.stringBytes hwf))

theorem case_eq_iff {charge charge' : Addr → Int} (hwf : s.WellFormed charge)
    (hwf' : s'.WellFormed charge') (hs : StringAt s a bs) (hs' : StringAt s' b bs)
    (alts : List Alt) :
    (do let (alt, _) ← pickAltRC (.box a) alts s; return Outcome.alternative alt) =
        (do let (alt, _) ← pickAltRC (.box b) alts s'; return Outcome.alternative alt) ↔
      (IsView s a ↔ IsView s' b) ∨ ∃ bs, StringAt s a bs ∧ takesDefault bs alts = true := by
  have hbytes : (∃ bs, StringAt s a bs ∧ takesDefault bs alts = true) ↔
      takesDefault bs alts = true := by
    constructor
    · rintro ⟨bs', hbs', hdefault⟩
      rwa [hs.bytes_eq hwf hbs']
    · intro hdefault
      exact ⟨bs, hs, hdefault⟩
  rw [hbytes]
  rcases caseOutcome_of_stringAt hwf hs with ⟨hview, hrun⟩ | ⟨hview, parent, off, len, hrun⟩
  · rcases caseOutcome_of_stringAt hwf' hs' with ⟨hview', hrun'⟩ | ⟨hview', q, o, l, hrun'⟩
    · rw [hrun, hrun']
      simp [hview, hview']
    · rw [hrun, hrun', caseOutcome_string_eq_view]
      simp [hview, hview']
  · rcases caseOutcome_of_stringAt hwf' hs' with ⟨hview', hrun'⟩ | ⟨hview', q, o, l, hrun'⟩
    · rw [hrun, hrun', eq_comm, caseOutcome_string_eq_view]
      simp [hview, hview']
    · rw [hrun, hrun', caseOutcome_view_congr parent q off o len l]
      simp [hview, hview']

/-- No record is a string. -/
theorem projRC_string {charge : Addr → Int} (hwf : s.WellFormed charge) (hs : StringAt s a bs)
    (label : String) : projRC label (.box a) s = .error (badProjection label) := by
  rcases hs.deref hwf with ⟨-, rc, bytes, hderef⟩ | ⟨-, rc, bytes, parent, off, len, hderef⟩
  · simp only [projRC, hderef]
    rfl
  · simp only [projRC, hderef]
    rfl

namespace ViewCase

/-- The string `abcdefgh`, and a slice that is all of it. -/
def store : Store where
  cells := List.toAList
    [⟨0, 2, .string [97, 98, 99, 100, 101, 102, 103, 104], 24⟩,
      ⟨1, 1, .stringView (.heap 0) 0 8, 32⟩]
  dead := ∅
  stats :=
    { allocs := 2, frees := 0, live := 2, peak := 2, curBytes := 56, peakBytes := 56 }
  backend := .abstractHeap
  conDesc := []
  reserved := ∅
  arena := []
  arenaC := []
  objs := ∅
  next := 2

def bytesAt : Addr → Int
  | .heap 0 => 24
  | .heap 1 => 32
  | _ => 0

/-- An allocator with room for one cell of the C heap. -/
def oneCell : Allocator where
  pick s := if s.objs.lookup 8 = none then some 8 else none
  buffer _ := none
  fresh := by
    intro s p h
    split at h
    · cases h
      assumption
    · cases h
  aligned := by
    intro s p h
    split at h
    · cases h
      rfl
    · cases h

def library : StringZilla where
  find hay needle := (List.range (hay.length + 1)).find? fun i => needle.isPrefixOf (hay.drop i)
  hash _ := 0
  editDistance _ _ := 0

/-- `case s of { "abcdefgh" -> 1; _ -> 0 }` -/
def alts : List Alt :=
  [.lit (.str "abcdefgh") (.ret (.lit (.int 1))), .default (.ret (.lit (.int 0)))]

theorem wellFormed : store.WellFormed bytesAt where
  dead := by decide
  backend := by
    intro p o ho
    cases ho
  decodes := by
    intro p o _ ho
    cases ho
  static := by
    intro i hi
    cases hc : store.cells.lookup i with
    | none => simp only [Store.reservationsAt, hc, Option.map_none, Option.getD_none]
    | some c =>
        have hmem : i ∈ [0, 1] :=
          AList.mem_keys.mp (AList.lookup_isSome.mp (hc ▸ rfl) : i ∈ store.cells)
        simp only [List.mem_cons, List.not_mem_nil, or_false] at hmem
        omega
  reservedHeap := by
    intro i hi
    cases hi
  reservedC := by
    intro p hp
    cases hp
  reservedInline := by decide
  charged := by decide
  chargedShell := by decide

theorem fresh : store.Fresh where
  next := by decide
  cells := by
    intro i hi
    by_contra hc
    have hmem : i ∈ [0, 1] :=
      AList.mem_keys.mp (AList.lookup_isSome.mp (Option.isSome_iff_ne_none.mpr hc) :
        i ∈ store.cells)
    simp only [List.mem_cons, List.not_mem_nil, or_false] at hmem
    change (2 : Int) ≤ i at hi
    omega
  dead := by decide
  reserved := by
    intro i hi
    cases hi
  arena := by
    intro i hi
    cases hi
  arenaC := by
    intro p hp
    cases hp
  shells := by
    intro p hp
    cases hp

theorem room : oneCell.Room store := by
  intro t ht
  simp [oneCell, ht 8 rfl]

theorem owns_string : Owns oneCell store [.box (.heap 0)] :=
  ⟨⟨bytesAt, [.heap 1], wellFormed,
    .of_live (by decide) (by decide) (by decide) (by decide) (by decide)⟩, fresh, room⟩

theorem owns_view : Owns oneCell store [.box (.heap 1)] :=
  ⟨⟨bytesAt, [.heap 0], wellFormed,
    .of_live (by decide) (by decide) (by decide) (by decide) (by decide)⟩, fresh, room⟩

theorem stringAt_string :
    StringAt store (.heap 0) [97, 98, 99, 100, 101, 102, 103, 104] :=
  .cell (by decide) rfl (.heap rfl rfl)

theorem viewCell_view : ViewCell store (.heap 1) (.heap 0) 0 8 := .heap rfl rfl

theorem stringAt_view : StringAt store (.heap 1) [97, 98, 99, 100, 101, 102, 103, 104] := by
  have hparent : Addr.heap 0 ∈ store.liveCells := by decide
  exact .view (by decide) hparent rfl viewCell_view (.heap rfl rfl)

theorem isView_view : IsView store (.heap 1) := ⟨.heap 0, 0, 8, viewCell_view⟩

end ViewCase

end Wok.Interp.RC
