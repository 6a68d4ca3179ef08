/-
Module: Wok.Proofs.SexprRead
Purpose: What the reader of s-expressions accepts: nodes of the schema, whose spans are laid
  out in the pool one after the other, so that their dump reads as the same tree.
Imports: Wok.Proofs.SexprTrees
Trusted boundary: none
Main exports: ReadYields, parseNode_yields, parseItems_fuel, read_sound
-/
import Wok.Proofs.SexprTrees

namespace Wok.Grammar

open Wok.Lib
open Wok.Lib.Scanner

/-! ### Consumption

The loop over a sequence has as much fuel as there are bytes, and each of its rounds takes
one. -/

section Drops

variable {child : Read WokNode}

theorem skipWs_drops : Drops 0 skipWs := Drops.skipWhile

theorem pos_drops : Drops 0 pos :=
  Drops.input.bind_zero fun _ => Drops.get.bind_zero fun _ => Drops.pure

theorem fault_drops {α : Type} {code : WokDiagCode} {off len : UInt32} {msg : List UInt8} :
    Drops 0 (fault code off len msg : Read α) := Drops.fail

theorem posFault_drops {α : Type} {code : WokDiagCode} {len : UInt32} {msg : List UInt8} :
    Drops 0 (pos >>= fun off => (fault code off len msg : Read α)) :=
  pos_drops.bind_zero fun _ => Drops.fail

theorem peekIs_drops (c : UInt8) : Drops 0 (peekIs c) :=
  skipWs_drops.bind_zero fun _ => Drops.input.bind_zero fun _ => Drops.pure

theorem expectChar_drops (c : UInt8) (what : List UInt8) : Drops 1 (expectChar c what) := by
  intro i s a i' s' h
  obtain ⟨hdrop, _⟩ := expectChar_eq_ok.mp h
  have hle := (List.dropWhile_suffix isWs (l := i)).length_le
  rw [hdrop, List.length_cons] at hle
  exact hle

theorem wordElse_drops {atEnd : UInt32 → WokDiag} {other : UInt32 → UInt8 → WokDiag} :
    Drops 0 (wordElse atEnd other) := by
  rintro i s ⟨off, w⟩ i' s' h
  obtain ⟨_, _, _, rfl, _⟩ := wordElse_eq_ok.mp h
  exact ((List.dropWhile_suffix _).trans (List.dropWhile_suffix isWs)).length_le

/-- Going on after the first byte. -/
theorem tail_drops : Drops 0 (input >>= fun i => seek i.tail : Read Unit) := by
  intro i s a i' s' h
  cases h
  simp

theorem decoded_eq_ok {c : UInt8} {r : Except (List WokDiag) (List UInt8 × List UInt8)}
    {bs rest : List UInt8} (h : decoded c r = .ok (bs, rest)) : ∃ bs', r = .ok (bs', rest) := by
  cases r with
  | error e => cases h
  | ok p =>
      cases h
      exact ⟨_, rfl⟩

theorem decodeString_le {n : Nat} {start : UInt32} {i bs rest : List UInt8}
    (h : decodeString n start i = .ok (bs, rest)) : rest.length ≤ i.length := by
  fun_induction decodeString n start i generalizing bs rest with
  | case1 => cases h
  | case2 bs =>
      cases h
      simp
  | case3 => cases h
  | case4 hd l es' hi lo hlo hhi hquote ih =>
      obtain ⟨_, hrest⟩ := decoded_eq_ok h
      have := ih hrest
      simp only [List.length_cons]
      omega
  | case5 => cases h
  | case6 => cases h
  | case7 b bs hb d hd hquote ih =>
      obtain ⟨_, hrest⟩ := decoded_eq_ok h
      have := ih hrest
      simp only [List.length_cons]
      omega
  | case8 => cases h
  | case9 b bs hquote hb ih =>
      obtain ⟨_, hrest⟩ := decoded_eq_ok h
      have := ih hrest
      simp only [List.length_cons]
      omega

theorem readStringLit_drops (keep : Bool) : Drops 0 (readStringLit keep) := by
  refine skipWs_drops.bind_zero fun _ => pos_drops.bind_zero fun start =>
    ((expectChar_drops _ _).mono (Nat.zero_le 1)).bind_zero fun _ => Drops.get.bind_zero fun r => ?_
  intro i s a i' s' h
  rw [bind_run input_run] at h
  cases hdec : decodeString r.n start i with
  | error e =>
      rw [hdec] at h
      cases h
  | ok p =>
      rcases p with ⟨bs, rest⟩
      rw [hdec] at h
      have hle := decodeString_le hdec
      cases keep with
      | true =>
          cases h
          exact hle
      | false =>
          cases h
          exact hle

theorem parseOpt_drops (hchild : Drops 0 child) : Drops 0 (parseOpt child) := by
  refine skipWs_drops.bind_zero fun _ => pos_drops.bind_zero fun off =>
    ((expectChar_drops _ _).mono (Nat.zero_le 1)).bind_zero fun _ =>
      wordElse_drops.bind_zero fun p => ?_
  rcases p with ⟨woff, w⟩
  refine Drops.ite ?_ (Drops.ite ?_ fault_drops)
  · exact ((expectChar_drops _ _).mono (Nat.zero_le 1)).bind_zero fun _ => Drops.pure
  · exact hchild.bind_zero fun _ =>
      ((expectChar_drops _ _).mono (Nat.zero_le 1)).bind_zero fun _ => Drops.pure

theorem closed_drops : Drops 0 (input >>= fun i => seek i.tail >>= fun _ =>
    (pure [] : Read (List WokNode))) := by
  intro i s a i' s' h
  cases h
  simp

theorem parseItems_drops (hchild : Drops 0 child) (fuel : Nat) :
    Drops 0 (parseItems child fuel) := by
  induction fuel with
  | zero =>
      unfold parseItems
      exact (peekIs_drops _).bind_zero fun _ => Drops.ite closed_drops posFault_drops
  | succ fuel ih =>
      unfold parseItems
      refine (peekIs_drops _).bind_zero fun _ =>
        Drops.ite closed_drops (Drops.input.bind_zero fun i => ?_)
      cases i with
      | nil => exact posFault_drops
      | cons c cs => exact hchild.bind_zero fun _ => ih.bind_zero fun _ => Drops.pure

theorem parseSeq_drops (hchild : Drops 0 child) : Drops 0 (parseSeq child) := by
  refine skipWs_drops.bind_zero fun _ => pos_drops.bind_zero fun off =>
    ((expectChar_drops _ _).mono (Nat.zero_le 1)).bind_zero fun _ =>
      wordElse_drops.bind_zero fun p => ?_
  rcases p with ⟨woff, w⟩
  exact Drops.ite (Drops.input.bind_zero fun _ => parseItems_drops hchild _) fault_drops

theorem familiesOk_drops (field : WokField) (ns : List WokNode) :
    Drops 0 (familiesOk field ns) := by
  induction ns with
  | nil => exact Drops.pure
  | cons n ns ih =>
      unfold familiesOk familyOk
      exact (Drops.ite Drops.pure posFault_drops).bind_zero fun _ => ih

theorem readUintField_drops : Drops 0 readUintField := by
  refine wordElse_drops.bind_zero fun p => ?_
  rcases p with ⟨off, w⟩
  rcases hread : readDecimal digitValue uint64Max 0 w with (_ | _) | v
  · simp only [hread]
    exact fault_drops
  · simp only [hread]
    exact fault_drops
  · simp only [hread]
    exact Drops.pure

theorem readFlagField_drops : Drops 0 readFlagField := by
  refine wordElse_drops.bind_zero fun p => ?_
  rcases p with ⟨off, w⟩
  exact Drops.ite Drops.pure (Drops.ite Drops.pure fault_drops)

theorem parseField_drops (hchild : Drops 0 child) (field : WokField) :
    Drops 0 (parseField child field) := by
  unfold parseField
  cases field.cls with
  | node =>
      refine hchild.bind_zero fun n => ?_
      unfold familyOk
      exact (Drops.ite Drops.pure posFault_drops).bind_zero fun _ => Drops.pure
  | opt =>
      exact (parseOpt_drops hchild).bind_zero fun n =>
        (familiesOk_drops field _).bind_zero fun _ => Drops.pure
  | seq =>
      exact (parseSeq_drops hchild).bind_zero fun ns =>
        (familiesOk_drops field _).bind_zero fun _ => Drops.pure
  | name => exact (readStringLit_drops true).bind_zero fun _ => Drops.pure
  | text => exact (readStringLit_drops true).bind_zero fun _ => Drops.pure
  | int => exact readUintField_drops.bind_zero fun _ => Drops.pure
  | flag => exact readFlagField_drops.bind_zero fun _ => Drops.pure

theorem wrongCount_drops {α : Type} {tag : WokTag} {got : Nat} :
    Drops 0 (wrongCount tag got : Read α) := posFault_drops

theorem parseFields_drops (hchild : Drops 0 child) (tag : WokTag) (k : Nat)
    (fields : List WokField) : Drops 0 (parseFields child tag k fields) := by
  induction fields generalizing k with
  | nil => exact Drops.pure
  | cons field fields ih =>
      unfold parseFields
      refine (peekIs_drops _).bind_zero fun _ =>
        Drops.ite wrongCount_drops (Drops.input.bind_zero fun i => ?_)
      cases i with
      | nil => exact posFault_drops
      | cons c cs =>
          exact (parseField_drops hchild field).bind_zero fun _ =>
            (ih (k + 1)).bind_zero fun _ => Drops.pure

theorem closeNode_drops (tag : WokTag) : Drops 0 (closeNode tag) := by
  refine (peekIs_drops _).bind_zero fun _ =>
    Drops.ite tail_drops (Drops.input.bind_zero fun i => ?_)
  intro i₀ s a i' s' h
  cases i with
  | nil => exact absurd h posFault_ne_ok
  | cons c cs =>
      rw [bind_eq_ok] at h
      obtain ⟨_, _, _, _, h⟩ := h
      rw [bind_eq_ok] at h
      obtain ⟨_, _, _, _, h⟩ := h
      exact absurd h posFault_ne_ok

/-- A node takes a byte at least. -/
theorem parseNode_drops (left : Nat) : Drops 1 (parseNode left) := by
  induction left with
  | zero =>
      intro i s a i' s' h
      exact absurd h posFault_ne_ok
  | succ left ih =>
      unfold parseNode
      refine skipWs_drops.bind_zero fun _ => pos_drops.bind_zero fun off => ?_
      refine ((expectChar_drops (ch '(') _).bind fun _ => ?_ : Drops (1 + 0) _)
      refine wordElse_drops.bind_zero fun p => ?_
      rcases p with ⟨tagOff, w⟩
      cases hlookup : lookupTag w with
      | none =>
          simp only [hlookup]
          exact fault_drops
      | some tag =>
          simp only [hlookup]
          exact (parseFields_drops (ih.mono (Nat.zero_le 1)) tag 0 _).bind_zero fun _ =>
            (closeNode_drops tag).bind_zero fun _ => Drops.pure

/-- The fuel of the loop is not what ends it. -/
theorem parseItems_fuel (hchild : Drops 1 child) {i : List UInt8} {s : Reader} {fuel fuel' : Nat}
    (hfuel : i.length ≤ fuel) (hfuel' : i.length ≤ fuel') :
    parseItems child fuel i s = parseItems child fuel' i s := by
  induction fuel generalizing fuel' i s with
  | zero =>
      obtain rfl := List.length_eq_zero_iff.mp (Nat.le_zero.mp hfuel)
      cases fuel' with
      | zero => rfl
      | succ fuel' => rfl
  | succ fuel ih =>
      cases fuel' with
      | zero =>
          obtain rfl := List.length_eq_zero_iff.mp (Nat.le_zero.mp hfuel')
          rfl
      | succ fuel' =>
          unfold parseItems
          rw [bind_run peekIs_run, bind_run peekIs_run]
          split
          · rfl
          · rw [bind_run input_run, bind_run input_run]
            have hle := (List.dropWhile_suffix isWs (l := i)).length_le
            cases hi : i.dropWhile isWs with
            | nil => rfl
            | cons c cs =>
                rw [hi] at hle
                cases hn : child (c :: cs) s with
                | error e =>
                    simp only
                    rw [Scanner.bind_error hn, Scanner.bind_error hn]
                | ok r =>
                    rcases r with ⟨n, i', s'⟩
                    have hshort := hchild _ _ _ _ _ hn
                    simp only
                    rw [bind_run hn, bind_run hn]
                    exact Scanner.bind_congr (ih (by omega) (by omega))

end Drops

/-! ### Results -/

/-- A value of the schema was read: the pool has grown by its texts, counted as a `u32`
counts, and its spans are where the reader puts them. -/
structure ReadYields (conforms : Nat → Prop) (placed : List UInt8 → Nat → Prop)
    (texts : List UInt8 → List UInt8) (s s' : Reader) : Prop where
  grows : s.pool.length ≤ s'.pool.length
  conforms : ∀ size, s'.pool.length ≤ size → conforms size
  placed : ∀ src a, a % 2 ^ 32 = s.pool.length % 2 ^ 32 → placed src a
  counted : ∀ src a, a % 2 ^ 32 = s.pool.length % 2 ^ 32 →
    (a + (texts src).length) % 2 ^ 32 = s'.pool.length % 2 ^ 32

def ReadYieldsNode (n : WokNode) : Reader → Reader → Prop :=
  ReadYields (fun size => n.Conforms size) (fun src a => n.place src a = n) fun src => n.texts src

def ReadYieldsNodes (ns : List WokNode) : Reader → Reader → Prop :=
  ReadYields (fun size => ∀ n ∈ ns, n.Conforms size) (fun src a => placeNodes src a ns = ns)
    fun src => nodesTexts src ns

def ReadYieldsSlot (field : WokField) (slot : WokSlot) : Reader → Reader → Prop :=
  ReadYields (fun size => FieldConforms size field slot) (fun src a => slot.place src a = slot)
    fun src => slot.texts src

def ReadYieldsSlots (fields : List WokField) (slots : List WokSlot) : Reader → Reader → Prop :=
  ReadYields (fun size => FieldsConform size fields slots)
    (fun src a => placeSlots src a slots = slots) fun src => slotsTexts src slots

variable {i i' : List UInt8} {s s' : Reader} {left : Nat}

/-- The reader one level down yields nodes. -/
def NodesYield (child : Read WokNode) : Prop :=
  ∀ i s n i' s', child i s = .ok (n, i', s') → ReadYieldsNode n s s'

theorem peekIs_eq_ok {c : UInt8} {b : Bool} (h : peekIs c i s = .ok (b, i', s')) :
    b = decide ((i.dropWhile isWs).head? = some c) ∧ i' = i.dropWhile isWs ∧ s' = s := by
  rw [peekIs_run] at h
  cases h
  exact ⟨rfl, rfl, rfl⟩

/-- A literal that is kept goes to the end of the pool. -/
theorem readStringLit_eq_ok {sp : WokSpan} (h : readStringLit true i s = .ok (sp, i', s')) :
    ∃ bs, sp = s.span bs ∧ s' = s.keep bs := by
  unfold readStringLit at h
  rw [bind_eq_ok] at h
  obtain ⟨_, i₁, s₁, h₁, h⟩ := h
  cases h₁
  rw [bind_eq_ok] at h
  obtain ⟨start, i₂, s₂, h₂, h⟩ := h
  cases h₂
  rw [bind_eq_ok] at h
  obtain ⟨_, i₃, s₃, h₃, h⟩ := h
  obtain ⟨_, rfl⟩ := expectChar_eq_ok.mp h₃
  rw [bind_eq_ok] at h
  obtain ⟨r, i₄, s₄, h₄, h⟩ := h
  cases h₄
  rw [bind_eq_ok] at h
  obtain ⟨cs, i₅, s₅, h₅, h⟩ := h
  cases h₅
  cases hdec : decodeString s₃.n (UInt32.ofNat (s₃.n - (i.dropWhile isWs).length)) i₃ with
  | error e =>
      rw [hdec] at h
      cases h
  | ok p =>
      rcases p with ⟨bs, rest⟩
      rw [hdec] at h
      cases h
      exact ⟨bs, rfl, rfl⟩

theorem span_yields {field : WokField} (hcls : field.cls = .name ∨ field.cls = .text)
    (bs : List UInt8) : ReadYieldsSlot field (.span (s.span bs)) s (s.keep bs) := by
  have hlen : (UInt32.ofNat bs.length).toNat = bs.length % 2 ^ 32 := by simp
  constructor
  · rw [Reader.keep_length]
    omega
  · intro size hsize
    refine .span hcls fun k hk => ?_
    rw [Reader.keep_length] at hsize
    have hindex : ((s.span bs).off + UInt32.ofNat k).toNat = (s.pool.length + k) % 2 ^ 32 := by
      simp [Reader.span, UInt32.toNat_add]
    have hlt : k < bs.length % 2 ^ 32 := by
      rw [← hlen]
      exact hk
    have hmod := Nat.mod_le bs.length (2 ^ 32)
    have hmod' := Nat.mod_le (s.pool.length + k) (2 ^ 32)
    rw [hindex]
    omega
  · intro src a ha
    have hoff : UInt32.ofNat a = UInt32.ofNat s.pool.length := by
      apply UInt32.toNat_inj.mp
      simpa using ha
    simp only [WokSlot.place, Reader.span, hoff]
  · intro src a ha
    simp only [WokSlot.texts, WokSpan.length_text, Reader.span, Reader.keep_length, hlen]
    omega

/-! ### Nothing, and one thing after another -/

theorem nodes_yields_nil : ReadYieldsNodes [] s s where
  grows := Nat.le_refl _
  conforms := by simp
  placed := fun _ _ _ => rfl
  counted := fun _ _ ha => ha

theorem nodes_yields_cons {n : WokNode} {ns : List WokNode} {s₁ : Reader}
    (hn : ReadYieldsNode n s s₁) (hns : ReadYieldsNodes ns s₁ s') :
    ReadYieldsNodes (n :: ns) s s' where
  grows := Nat.le_trans hn.grows hns.grows
  conforms := by
    intro size hsize n' hn'
    rcases List.mem_cons.mp hn' with rfl | hn'
    · exact hn.conforms size (Nat.le_trans hns.grows hsize)
    · exact hns.conforms size hsize n' hn'
  placed := by
    intro src a ha
    simp only [placeNodes, hn.placed src a ha, hns.placed src _ (hn.counted src a ha)]
  counted := by
    intro src a ha
    have h := hns.counted src _ (hn.counted src a ha)
    simp only [nodesTexts, List.length_append, ← Nat.add_assoc]
    exact h

theorem slots_yields_nil : ReadYieldsSlots [] [] s s where
  grows := Nat.le_refl _
  conforms := fun _ _ => .nil
  placed := fun _ _ _ => rfl
  counted := fun _ _ ha => ha

theorem slots_yields_cons {field : WokField} {fields : List WokField} {slot : WokSlot}
    {slots : List WokSlot} {s₁ : Reader} (hslot : ReadYieldsSlot field slot s s₁)
    (hslots : ReadYieldsSlots fields slots s₁ s') :
    ReadYieldsSlots (field :: fields) (slot :: slots) s s' where
  grows := Nat.le_trans hslot.grows hslots.grows
  conforms := fun size hsize =>
    .cons (hslot.conforms size (Nat.le_trans hslots.grows hsize)) (hslots.conforms size hsize)
  placed := by
    intro src a ha
    simp only [placeSlots, hslot.placed src a ha, hslots.placed src _ (hslot.counted src a ha)]
  counted := by
    intro src a ha
    have h := hslots.counted src _ (hslot.counted src a ha)
    simp only [slotsTexts, List.length_append, ← Nat.add_assoc]
    exact h

/-- A slot with no text in it. -/
theorem slot_yields_const {field : WokField} {slot : WokSlot}
    (hconforms : ∀ size, FieldConforms size field slot)
    (hplaced : ∀ src a, slot.place src a = slot) (htexts : ∀ src, slot.texts src = []) :
    ReadYieldsSlot field slot s s where
  grows := Nat.le_refl _
  conforms := fun size _ => hconforms size
  placed := fun src a _ => hplaced src a
  counted := by
    intro src a ha
    simpa [htexts] using ha

/-! ### Reading -/

variable {child : Read WokNode} {field : WokField} {tag : WokTag}

theorem wordElse_keeps {atEnd : UInt32 → WokDiag} {other : UInt32 → UInt8 → WokDiag}
    {p : UInt32 × List UInt8} (h : wordElse atEnd other i s = .ok (p, i', s')) : s' = s := by
  rcases p with ⟨off, w⟩
  exact (wordElse_eq_ok.mp h).2.2.2.2

theorem parseOpt_yields (hchild : NodesYield child) {o : Option WokNode}
    (h : parseOpt child i s = .ok (o, i', s')) :
    (o = none ∧ s' = s) ∨ ∃ n, o = some n ∧ ReadYieldsNode n s s' := by
  unfold parseOpt at h
  rw [bind_eq_ok] at h
  obtain ⟨_, i₁, s₁, h₁, h⟩ := h
  cases h₁
  rw [bind_eq_ok] at h
  obtain ⟨off, i₂, s₂, h₂, h⟩ := h
  cases h₂
  rw [bind_eq_ok] at h
  obtain ⟨_, i₃, s₃, h₃, h⟩ := h
  obtain ⟨_, rfl⟩ := expectChar_eq_ok.mp h₃
  rw [bind_eq_ok] at h
  obtain ⟨⟨woff, w⟩, i₄, s₄, h₄, h⟩ := h
  obtain rfl := wordElse_keeps h₄
  by_cases hnone : w = bytes "none"
  · simp only [hnone, if_true] at h
    rw [bind_eq_ok] at h
    obtain ⟨_, i₅, s₅, h₅, h⟩ := h
    obtain ⟨_, rfl⟩ := expectChar_eq_ok.mp h₅
    cases h
    exact .inl ⟨rfl, rfl⟩
  · by_cases hsome : w = bytes "some"
    · subst hsome
      simp only [hnone, if_true, if_false] at h
      rw [bind_eq_ok] at h
      obtain ⟨n, i₅, s₅, h₅, h⟩ := h
      rw [bind_eq_ok] at h
      obtain ⟨_, i₆, s₆, h₆, h⟩ := h
      obtain ⟨_, rfl⟩ := expectChar_eq_ok.mp h₆
      cases h
      exact .inr ⟨n, rfl, hchild _ _ _ _ _ h₅⟩
    · simp only [hnone, hsome, if_false] at h
      exact absurd h fault_ne_ok

theorem parseItems_yields (hchild : NodesYield child) {fuel : Nat} {ns : List WokNode}
    (h : parseItems child fuel i s = .ok (ns, i', s')) : ReadYieldsNodes ns s s' := by
  induction fuel generalizing i s ns with
  | zero =>
      unfold parseItems at h
      rw [bind_eq_ok] at h
      obtain ⟨b, i₁, s₁, h₁, h⟩ := h
      obtain ⟨_, rfl, rfl⟩ := peekIs_eq_ok h₁
      cases b with
      | true =>
          cases h
          exact nodes_yields_nil
      | false => exact absurd h posFault_ne_ok
  | succ fuel ih =>
      unfold parseItems at h
      rw [bind_eq_ok] at h
      obtain ⟨b, i₁, s₁, h₁, h⟩ := h
      obtain ⟨_, rfl, rfl⟩ := peekIs_eq_ok h₁
      cases b with
      | true =>
          cases h
          exact nodes_yields_nil
      | false =>
          simp only [Bool.false_eq_true, if_false] at h
          rw [bind_eq_ok] at h
          obtain ⟨cs, i₂, s₂, h₂, h⟩ := h
          cases h₂
          cases hi : i.dropWhile isWs with
          | nil =>
              rw [hi] at h
              exact absurd h posFault_ne_ok
          | cons c cs =>
              rw [hi] at h
              rw [bind_eq_ok] at h
              obtain ⟨n, i₃, s₃, h₃, h⟩ := h
              rw [bind_eq_ok] at h
              obtain ⟨ns', i₄, s₄, h₄, h⟩ := h
              cases h
              exact nodes_yields_cons (hchild _ _ _ _ _ h₃) (ih h₄)

theorem parseSeq_yields (hchild : NodesYield child) {ns : List WokNode}
    (h : parseSeq child i s = .ok (ns, i', s')) : ReadYieldsNodes ns s s' := by
  unfold parseSeq at h
  rw [bind_eq_ok] at h
  obtain ⟨_, i₁, s₁, h₁, h⟩ := h
  cases h₁
  rw [bind_eq_ok] at h
  obtain ⟨off, i₂, s₂, h₂, h⟩ := h
  cases h₂
  rw [bind_eq_ok] at h
  obtain ⟨_, i₃, s₃, h₃, h⟩ := h
  obtain ⟨_, rfl⟩ := expectChar_eq_ok.mp h₃
  rw [bind_eq_ok] at h
  obtain ⟨⟨woff, w⟩, i₄, s₄, h₄, h⟩ := h
  obtain rfl := wordElse_keeps h₄
  by_cases hseq : w = bytes "seq"
  · simp only [hseq, if_true] at h
    rw [bind_eq_ok] at h
    obtain ⟨cs, i₅, s₅, h₅, h⟩ := h
    cases h₅
    exact parseItems_yields hchild h
  · simp only [hseq, if_false] at h
    exact absurd h fault_ne_ok

theorem familyOk_eq_ok {n : WokNode} (h : familyOk field n i s = .ok ((), i', s')) :
    field.family.accepts n.tag.family = true ∧ i' = i ∧ s' = s := by
  unfold familyOk at h
  split at h
  · next hfamily =>
      cases h
      exact ⟨hfamily, rfl, rfl⟩
  · exact absurd h posFault_ne_ok

theorem familiesOk_eq_ok {ns : List WokNode} (h : familiesOk field ns i s = .ok ((), i', s')) :
    (∀ n ∈ ns, field.family.accepts n.tag.family = true) ∧ s' = s := by
  induction ns generalizing i s with
  | nil =>
      cases h
      simp
  | cons n ns ih =>
      unfold familiesOk at h
      rw [bind_eq_ok] at h
      obtain ⟨_, i₁, s₁, h₁, h⟩ := h
      obtain ⟨hn, rfl, rfl⟩ := familyOk_eq_ok h₁
      obtain ⟨hns, rfl⟩ := ih h
      refine ⟨fun n' hn' => ?_, rfl⟩
      rcases List.mem_cons.mp hn' with rfl | hn'
      · exact hn
      · exact hns n' hn'

theorem node_slot_yields {n : WokNode} (hn : ReadYieldsNode n s s')
    (hconforms : ∀ size, n.Conforms size → FieldConforms size field (.node (some n))) :
    ReadYieldsSlot field (.node (some n)) s s' where
  grows := hn.grows
  conforms := fun size hsize => hconforms size (hn.conforms size hsize)
  placed := fun src a ha => by simp only [WokSlot.place, hn.placed src a ha]
  counted := fun src a ha => by
    simp only [WokSlot.texts]
    exact hn.counted src a ha

/-- A number or a bit, which leaves the pool alone. -/
theorem readUintField_keeps {v : UInt64} (h : readUintField i s = .ok (v, i', s')) : s' = s := by
  unfold readUintField fieldWord at h
  rw [bind_eq_ok] at h
  obtain ⟨⟨off, w⟩, i₁, s₁, h₁, h⟩ := h
  obtain rfl := wordElse_keeps h₁
  simp only at h
  rcases hread : readDecimal digitValue uint64Max 0 w with (_ | _) | v
  · rw [hread] at h
    exact absurd h fault_ne_ok
  · rw [hread] at h
    exact absurd h fault_ne_ok
  · rw [hread] at h
    cases h
    rfl

theorem readFlagField_keeps {b : Bool} (h : readFlagField i s = .ok (b, i', s')) : s' = s := by
  unfold readFlagField fieldWord at h
  rw [bind_eq_ok] at h
  obtain ⟨⟨off, w⟩, i₁, s₁, h₁, h⟩ := h
  obtain rfl := wordElse_keeps h₁
  simp only at h
  split at h
  · cases h
    rfl
  · split at h
    · cases h
      rfl
    · exact absurd h fault_ne_ok

theorem literal_field_yields (hcls : field.cls = .name ∨ field.cls = .text) {slot : WokSlot}
    (h : (readStringLit true >>= fun sp => pure (WokSlot.span sp) : Read WokSlot) i s =
      .ok (slot, i', s')) : ReadYieldsSlot field slot s s' := by
  rw [bind_eq_ok] at h
  obtain ⟨sp, i₁, s₁, h₁, h⟩ := h
  cases h
  obtain ⟨bs, rfl, rfl⟩ := readStringLit_eq_ok h₁
  exact span_yields hcls bs

theorem parseField_yields (hchild : NodesYield child) {slot : WokSlot}
    (h : parseField child field i s = .ok (slot, i', s')) : ReadYieldsSlot field slot s s' := by
  unfold parseField at h
  cases hcls : field.cls with
  | node =>
      rw [hcls] at h
      rw [bind_eq_ok] at h
      obtain ⟨n, i₁, s₁, h₁, h⟩ := h
      rw [bind_eq_ok] at h
      obtain ⟨_, i₂, s₂, h₂, h⟩ := h
      obtain ⟨hfamily, rfl, rfl⟩ := familyOk_eq_ok h₂
      cases h
      exact node_slot_yields (hchild _ _ _ _ _ h₁) fun size hn => .node hcls hfamily hn
  | opt =>
      rw [hcls] at h
      rw [bind_eq_ok] at h
      obtain ⟨o, i₁, s₁, h₁, h⟩ := h
      rw [bind_eq_ok] at h
      obtain ⟨_, i₂, s₂, h₂, h⟩ := h
      obtain ⟨hfamilies, rfl⟩ := familiesOk_eq_ok h₂
      cases h
      rcases parseOpt_yields hchild h₁ with ⟨rfl, rfl⟩ | ⟨n, rfl, hn⟩
      · exact slot_yields_const (fun size => .none hcls) (fun _ _ => rfl) fun _ => rfl
      · exact node_slot_yields hn fun size hn => .some hcls (hfamilies n (by simp)) hn
  | seq =>
      rw [hcls] at h
      rw [bind_eq_ok] at h
      obtain ⟨ns, i₁, s₁, h₁, h⟩ := h
      rw [bind_eq_ok] at h
      obtain ⟨_, i₂, s₂, h₂, h⟩ := h
      obtain ⟨hfamilies, rfl⟩ := familiesOk_eq_ok h₂
      cases h
      have hns := parseSeq_yields hchild h₁
      exact
        { grows := hns.grows
          conforms := fun size hsize => .seq hcls hfamilies (hns.conforms size hsize)
          placed := fun src a ha => by simp only [WokSlot.place, hns.placed src a ha]
          counted := fun src a ha => by
            simp only [WokSlot.texts]
            exact hns.counted src a ha }
  | name =>
      rw [hcls] at h
      exact literal_field_yields (.inl hcls) h
  | text =>
      rw [hcls] at h
      exact literal_field_yields (.inr hcls) h
  | int =>
      rw [hcls] at h
      rw [bind_eq_ok] at h
      obtain ⟨v, i₁, s₁, h₁, h⟩ := h
      cases h
      obtain rfl := readUintField_keeps h₁
      exact slot_yields_const (fun size => .num hcls) (fun _ _ => rfl) fun _ => rfl
  | flag =>
      rw [hcls] at h
      rw [bind_eq_ok] at h
      obtain ⟨b, i₁, s₁, h₁, h⟩ := h
      cases h
      obtain rfl := readFlagField_keeps h₁
      exact slot_yields_const (fun size => .flag hcls) (fun _ _ => rfl) fun _ => rfl

theorem wrongCount_ne_ok {α : Type} {got : Nat} {r : α × List UInt8 × Reader} :
    (wrongCount tag got : Read α) i s ≠ .ok r := by
  unfold wrongCount
  exact posFault_ne_ok

theorem parseFields_yields (hchild : NodesYield child) {k : Nat} {fields : List WokField}
    {slots : List WokSlot} (h : parseFields child tag k fields i s = .ok (slots, i', s')) :
    ReadYieldsSlots fields slots s s' := by
  induction fields generalizing k i s slots with
  | nil =>
      cases h
      exact slots_yields_nil
  | cons field fields ih =>
      unfold parseFields at h
      rw [bind_eq_ok] at h
      obtain ⟨b, i₁, s₁, h₁, h⟩ := h
      obtain ⟨_, rfl, rfl⟩ := peekIs_eq_ok h₁
      cases b with
      | true => exact absurd h wrongCount_ne_ok
      | false =>
          simp only [Bool.false_eq_true, if_false] at h
          rw [bind_eq_ok] at h
          obtain ⟨cs, i₂, s₂, h₂, h⟩ := h
          cases h₂
          cases hi : i.dropWhile isWs with
          | nil =>
              rw [hi] at h
              exact absurd h posFault_ne_ok
          | cons c cs =>
              rw [hi] at h
              rw [bind_eq_ok] at h
              obtain ⟨slot, i₃, s₃, h₃, h⟩ := h
              rw [bind_eq_ok] at h
              obtain ⟨slots', i₄, s₄, h₄, h⟩ := h
              cases h
              exact slots_yields_cons (parseField_yields hchild h₃) (ih h₄)

theorem closeNode_keeps {u : Unit} (h : closeNode tag i s = .ok (u, i', s')) : s' = s := by
  unfold closeNode at h
  rw [bind_eq_ok] at h
  obtain ⟨b, i₁, s₁, h₁, h⟩ := h
  obtain ⟨_, rfl, rfl⟩ := peekIs_eq_ok h₁
  cases b with
  | true =>
      cases h
      rfl
  | false =>
      simp only [Bool.false_eq_true, if_false] at h
      rw [bind_eq_ok] at h
      obtain ⟨cs, i₂, s₂, h₂, h⟩ := h
      cases h₂
      cases hi : i.dropWhile isWs with
      | nil =>
          rw [hi] at h
          exact absurd h posFault_ne_ok
      | cons c cs =>
          rw [hi] at h
          rw [bind_eq_ok] at h
          obtain ⟨_, _, _, _, h⟩ := h
          rw [bind_eq_ok] at h
          obtain ⟨_, _, _, _, h⟩ := h
          exact absurd h wrongCount_ne_ok

/-- Every node that is read is of the schema, with its spans in a row. -/
theorem parseNode_yields (left : Nat) : NodesYield (parseNode left) := by
  induction left with
  | zero =>
      intro i s n i' s' h
      exact absurd h posFault_ne_ok
  | succ left ih =>
      intro i s n i' s' h
      unfold parseNode at h
      rw [bind_eq_ok] at h
      obtain ⟨_, i₁, s₁, h₁, h⟩ := h
      cases h₁
      rw [bind_eq_ok] at h
      obtain ⟨off, i₂, s₂, h₂, h⟩ := h
      cases h₂
      rw [bind_eq_ok] at h
      obtain ⟨_, i₃, s₃, h₃, h⟩ := h
      obtain ⟨_, rfl⟩ := expectChar_eq_ok.mp h₃
      rw [bind_eq_ok] at h
      obtain ⟨⟨woff, w⟩, i₄, s₄, h₄, h⟩ := h
      obtain rfl := wordElse_keeps h₄
      simp only at h
      cases hlookup : lookupTag w with
      | none =>
          rw [hlookup] at h
          exact absurd h fault_ne_ok
      | some tag =>
          rw [hlookup] at h
          rw [bind_eq_ok] at h
          obtain ⟨slots, i₅, s₅, h₅, h⟩ := h
          rw [bind_eq_ok] at h
          obtain ⟨_, i₆, s₆, h₆, h⟩ := h
          obtain rfl := closeNode_keeps h₆
          cases h
          have hslots := parseFields_yields ih h₅
          exact
            { grows := hslots.grows
              conforms := fun size hsize => .mk (hslots.conforms size hsize)
              placed := fun src a ha => by
                simp only [WokNode.place, hslots.placed src a ha]
              counted := fun src a ha => by
                simp only [WokNode.texts]
                exact hslots.counted src a ha }

theorem readRoot_yields {n : WokNode} (h : readRoot i s = .ok (n, i', s')) :
    ReadYieldsNode n s s' := by
  unfold readRoot at h
  rw [bind_eq_ok] at h
  obtain ⟨root, i₁, s₁, h₁, h⟩ := h
  rw [bind_eq_ok] at h
  obtain ⟨_, i₂, s₂, h₂, h⟩ := h
  cases h₂
  rw [bind_eq_ok] at h
  obtain ⟨cs, i₃, s₃, h₃, h⟩ := h
  cases h₃
  cases hi : i₁.dropWhile isWs with
  | nil =>
      rw [hi] at h
      cases h
      exact parseNode_yields _ _ _ _ _ _ h₁
  | cons c cs =>
      rw [hi] at h
      exact absurd h posFault_ne_ok

/-- A tree that is read is laid out so that its texts repeat past the range of a `u32`. -/
theorem read_laid {text src : List UInt8} {n : WokNode} (h : wokSexprRead text = .ok (n, src)) :
    n.Conforms src.length ∧ n.place src 0 = n := by
  unfold wokSexprRead at h
  cases hroot : readRoot text ⟨text.length, []⟩ with
  | error e =>
      rw [hroot] at h
      cases h
  | ok r =>
      rcases r with ⟨n', i', s'⟩
      rw [hroot] at h
      cases h
      have hn := readRoot_yields hroot
      refine ⟨hn.conforms _ ?_, hn.placed _ 0 rfl⟩
      rw [List.length_append]
      omega

theorem repeats_of_shows {src bs : List UInt8} (h : Shows src 0 bs) : Repeats bs := by
  intro k hk
  have hmod : k % 2 ^ 32 < bs.length := Nat.lt_of_le_of_lt (Nat.mod_le _ _) hk
  have h₁ := h k hk
  have h₂ := h (k % 2 ^ 32) hmod
  rw [Nat.zero_add] at h₁ h₂
  rw [Nat.mod_mod, h₁, List.getD_eq_getElem _ _ hk, List.getD_eq_getElem _ _ hmod] at h₂
  rw [List.getElem?_eq_getElem hmod, List.getElem?_eq_getElem hk, h₂]

end Wok.Grammar
