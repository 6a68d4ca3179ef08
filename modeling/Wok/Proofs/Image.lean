/-
Module: Wok.Proofs.Image
Purpose: The cells of the C heap as images of abstract cells, and what the readers
  of the C heap get out of them.
Imports: Wok.Proofs.Slots, Wok.Proofs.Strings, Wok.Spec.Arrays
Trusted boundary: none
Main exports: Kept, Kept.readCCell, Kept.objKids, Kept.objBytes, Holds, Image
-/
import Wok.Proofs.Slots
import Wok.Proofs.Strings
import Wok.Spec.Arrays

namespace Wok.Interp.RC

open Wok.IR
open Wok.Lib

variable {s s' t : Store} {a b : Addr} {v : RCValue} {vs : List RCValue} {n : Node}
  {o : WokObj} {ρ : Addr → Addr}

/-! ### Renamed values -/

@[simp] theorem valueChildren_mapAddr (f : Addr → Addr) (v : RCValue) :
    valueChildren (v.mapAddr f) = (valueChildren v).map f := by
  cases v <;> rfl

/-- Nodes of cells that hold no continuation. -/
def Node.Plain : Node → Prop
  | .cont .. => False
  | .foreignBytes _ => False
  | .borrowView _ => False
  | _ => True

theorem nodeValues_mapAddr (f : Addr → Addr) (n : Node) :
    nodeValues (n.mapAddr f) = (nodeValues n).map (·.mapAddr f) := by
  cases n with
  | record name fields => simp [Node.mapAddr, nodeValues]
  | closure captured params body mode => simp [Node.mapAddr, nodeValues]
  | env captured => simp [Node.mapAddr, nodeValues]
  | contCell held => cases held <;> rfl
  | _ => rfl

/-! ### Nodes kept as C cells -/

/-- The slots that values are kept in. -/
def Slots (vs : List RCValue) (enc : List (SlotKind × UInt64)) : Prop :=
  List.Forall₂ (fun v e => encodeSlotC v = some e ∧ decodeSlotC e.1 e.2 = v) vs enc

/-- What the object of a node looks like, its count apart. -/
inductive Kept (s : Store) : WokObj → Node → Prop
  | con {rc : Nat} {tag : UInt16} {con : String} {vs : List RCValue}
      {enc : List (SlotKind × UInt64)} (hname : tagName tag.toUInt32 s = .ok con)
      (htag : tag.toNat ≤ 2 ^ 15) (hdesc : s.conDesc.lookup tag = some (enc.map (·.1)))
      (hslots : Slots vs enc) (hlen : enc.length ≤ 255) :
      Kept s ⟨rc, tag, UInt8.ofNat enc.length, enc.map (·.2)⟩ (.con con vs)
  | array {rc : Nat} {kind : SlotKind} {vs : List RCValue} {ws : List UInt64}
      (hslots : Slots vs (ws.map fun w => (kind, w))) (hlen : ws.length < 2 ^ 61) :
      Kept s ⟨rc, wokArrayTag, slotKindToElemKind kind, UInt64.ofNat ws.length :: ws⟩ (.array vs)
  | string {rc : Nat} {bs : List UInt8} (hlen : bs.length ≤ sizeMax - 16 - 7) :
      Kept s ⟨rc, wokStringTag, 0, UInt64.ofNat bs.length :: packBytes bs⟩ (.string bs)
  | bytes {rc : Nat} {bs : List UInt8} (hlen : bs.length ≤ sizeMax - 16 - 7) :
      Kept s ⟨rc, wokBytesTag, 0, UInt64.ofNat bs.length :: packBytes bs⟩ (.bytes bs)
  | view {rc : Nat} {q : Ptr} {off len : Nat} (hoff : off < 2 ^ 64) (hlen : len < 2 ^ 64) :
      Kept s ⟨rc, wokStringViewTag, 0, [q, UInt64.ofNat off, UInt64.ofNat len]⟩
        (.stringView (.c q) off len)

theorem Kept.setRc (h : Kept s o n) (rc : Nat) : Kept s { o with rc := rc } n := by
  cases h with
  | con hname htag hdesc hslots hlen => exact .con hname htag hdesc hslots hlen
  | array hslots hlen => exact .array hslots hlen
  | string hlen => exact .string hlen
  | bytes hlen => exact .bytes hlen
  | view hoff hlen => exact .view hoff hlen

/-- The number of a constructor below the tags that are reserved for other cells. -/
theorem tag_ne {tag : UInt16} (h : tag.toNat ≤ 2 ^ 15) :
    tag ≠ wokArrayTag ∧ tag ≠ wokStringTag ∧ tag ≠ wokStringViewTag ∧ tag ≠ wokBytesTag ∧
      tag ≠ wokForeignBytesTag ∧ tag ≠ wokBorrowViewTag := by
  refine ⟨?_, ?_, ?_, ?_, ?_, ?_⟩ <;>
  · intro heq
    rw [heq] at h
    exact absurd h (by decide)

theorem slots_zipWith {enc : List (SlotKind × UInt64)} (h : Slots vs enc) :
    List.zipWith decodeSlotC (enc.map (·.1)) (enc.map (·.2)) = vs := by
  induction h with
  | nil => rfl
  | cons h hrest ih =>
      rw [List.map_cons, List.map_cons, List.zipWith_cons_cons, h.2, ih]

theorem readCWords_eq {rc : Nat} {tag : UInt16} {ws : List UInt64} (h : ws.length ≤ 255) :
    readCWords ⟨rc, tag, UInt8.ofNat ws.length, ws⟩ = ws := by
  have harity : (UInt8.ofNat ws.length).toNat = ws.length := by
    rw [UInt8.toNat_ofNat']
    omega
  unfold readCWords
  rw [harity]
  apply List.ext_getElem
  · simp
  · intro i hi hi'
    simp [wokSlotGet, WokObj.word, List.getElem?_eq_getElem hi']

theorem readCConValues_eq {rc : Nat} {tag : UInt16} {enc : List (SlotKind × UInt64)}
    (hdesc : s.conDesc.lookup tag = some (enc.map (·.1))) (hslots : Slots vs enc)
    (hlen : enc.length ≤ 255) :
    readCConValues ⟨rc, tag, UInt8.ofNat enc.length, enc.map (·.2)⟩ s = .ok vs := by
  have hwords : readCWords ⟨rc, tag, UInt8.ofNat enc.length, enc.map (·.2)⟩ = enc.map (·.2) := by
    have h := @readCWords_eq rc tag (enc.map (·.2)) (by simpa using hlen)
    rwa [List.length_map] at h
  unfold readCConValues
  simp only [hdesc, hwords, List.length_map, if_true, slots_zipWith hslots]

theorem wokArrayLen_eq {rc : Nat} {tag : UInt16} {kind : UInt8} {ws : List UInt64}
    (h : ws.length < 2 ^ 61) :
    wokArrayLen ⟨rc, tag, kind, UInt64.ofNat ws.length :: ws⟩ = ws.length := by
  change (UInt64.ofNat ws.length).toNat = ws.length
  rw [UInt64.toNat_ofNat']
  omega

theorem readCArraySlots_eq {rc : Nat} {tag : UInt16} {k : UInt8} {kind : SlotKind}
    {ws : List UInt64} (hslots : Slots vs (ws.map fun w => (kind, w)))
    (hlen : ws.length < 2 ^ 61) :
    readCArraySlots kind ⟨rc, tag, k, UInt64.ofNat ws.length :: ws⟩ = vs := by
  have hdecode : ws.map (decodeSlotC kind) = vs := by
    clear hlen
    induction ws generalizing vs with
    | nil =>
        cases hslots
        rfl
    | cons w ws ih =>
        cases hslots with
        | cons h hrest => rw [List.map_cons, h.2, ih hrest]
  unfold readCArraySlots
  rw [wokArrayLen_eq hlen, ← hdecode]
  apply List.ext_getElem
  · simp
  · intro i hi hi'
    have hi : i < ws.length := by simpa using hi
    simp [wokArraySlotGet, WokObj.word, List.getElem?_eq_getElem hi]

theorem elemKindToSlotKind_slotKindToElemKind (kind : SlotKind) :
    elemKindToSlotKind (slotKindToElemKind kind) = .ok kind := by
  cases kind <;> rfl

/-- A kept node reads back. -/
theorem Kept.readCCell {p : Ptr} (h : Kept s o n) (ho : s.objs.lookup p = some o) :
    RC.readCCell p s = .ok ⟨0, n, 0⟩ := by
  have hobj : wokObj p s = .ok o := by
    unfold wokObj
    rw [ho]
  unfold RC.readCCell
  rw [hobj]
  cases h with
  | @con rc tag con vs enc hname htag hdesc hslots hlen =>
      rcases tag_ne htag with ⟨h1, h2, h3, h4, h5, h6⟩
      change (if tag = wokArrayTag then _ else _) = _
      rw [if_neg h1, if_neg h2, if_neg h3, if_neg h4, if_neg h5, if_neg h6,
        readCConValues_eq hdesc hslots hlen]
      change (tagName tag.toUInt32 s >>= _) = _
      rw [hname]
      rfl
  | @array rc kind vs ws hslots hlen =>
      change (elemKindToSlotKind (slotKindToElemKind kind) >>= _) = _
      rw [elemKindToSlotKind_slotKindToElemKind]
      change Except.ok _ = _
      rw [readCArraySlots_eq hslots hlen]
  | @string rc bs hlen =>
      have hbody := @wokBody_packBytes bs rc wokStringTag 0
        (by unfold sizeMax at *; omega)
      change Except.ok (Cell.mk 0 (.string (wokBody _)) 0) = _
      rw [hbody]
  | @bytes rc bs hlen =>
      have hbody := @wokBody_packBytes bs rc wokBytesTag 0
        (by unfold sizeMax at *; omega)
      change Except.ok (Cell.mk 0 (.bytes (wokBody _)) 0) = _
      rw [hbody]
  | @view rc q off len hoff hlen =>
      change Except.ok (Cell.mk 0 (.stringView (.c q) (UInt64.ofNat off).toNat
        (UInt64.ofNat len).toNat) 0) = _
      rw [UInt64.toNat_ofNat', UInt64.toNat_ofNat', Nat.mod_eq_of_lt hoff, Nat.mod_eq_of_lt hlen]

theorem countedRefs_of_kind {kind : SlotKind} {ws : List UInt64}
    (h : Slots vs (ws.map fun w => (kind, w))) (hkind : kind ≠ .pointer) : countedRefs vs = [] := by
  induction ws generalizing vs with
  | nil =>
      cases h
      rfl
  | cons w ws ih =>
      cases h with
      | cons h hrest =>
          unfold countedRefs
          rw [List.flatMap_cons, valueChildren_of_kind h.1 hkind]
          exact ih hrest

/-- The references that the free cascade reads off the object are those of the node. -/
theorem Kept.objKids (h : Kept s o n) : RC.objKids o s = .ok (cascadeChildren n) := by
  unfold RC.objKids
  cases h with
  | @con rc tag con vs enc hname htag hdesc hslots hlen =>
      rcases tag_ne htag with ⟨h1, h2, h3, h4, h5, h6⟩
      change (if tag = wokArrayTag then _ else _) = _
      rw [if_neg h1, if_neg h2, if_neg h3, if_neg h4, if_neg h5, if_neg h6,
        readCConValues_eq hdesc hslots hlen]
      rfl
  | @array rc kind vs ws hslots hlen =>
      change (elemKindToSlotKind (slotKindToElemKind kind) >>= _) = _
      rw [elemKindToSlotKind_slotKindToElemKind]
      have hrefs : cascadeChildren (.array vs) = countedRefs vs := rfl
      cases kind with
      | pointer =>
          change Except.ok (countedRefs (readCArraySlots _ _)) = _
          rw [readCArraySlots_eq hslots hlen]
          rfl
      | litInt =>
          rw [hrefs, countedRefs_of_kind hslots (by decide)]
          rfl
      | litChar =>
          rw [hrefs, countedRefs_of_kind hslots (by decide)]
          rfl
      | litUnit =>
          rw [hrefs, countedRefs_of_kind hslots (by decide)]
          rfl
  | string hlen => rfl
  | bytes hlen => rfl
  | view hoff hlen => rfl

theorem bytes_toNat {m : Nat} (h : m ≤ sizeMax - 16 - 7) :
    ((UInt64.ofNat m + 7) / 8).toNat = (m + 7) / 8 := by
  unfold sizeMax at h
  have hm : (UInt64.ofNat m).toNat = m := by
    rw [UInt64.toNat_ofNat']
    omega
  rw [UInt64.toNat_div, UInt64.toNat_add, hm]
  change (m + 7) % 2 ^ 64 / 8 = _
  rw [Nat.mod_eq_of_lt (by omega)]

theorem slots_length {enc : List (SlotKind × UInt64)} (h : Slots vs enc) :
    vs.length = enc.length := h.length_eq

theorem slots_isSome {enc : List (SlotKind × UInt64)} (h : Slots vs enc) :
    (vs.all fun v => (encodeSlotC v).isSome) = true := by
  rw [List.all_eq_true]
  intro v hv
  rcases List.mem_iff_getElem.mp hv with ⟨i, hi, rfl⟩
  have hslot := (List.forall₂_iff_get.mp h).2 i hi (h.length_eq ▸ hi)
  rw [List.get_eq_getElem] at hslot
  rw [hslot.1]
  rfl

/-- The object is on the books for what the abstract heap charges for the node. -/
theorem Kept.objBytes (h : Kept s o n) : RC.objBytes o = wouldBeCBytes n := by
  unfold RC.objBytes
  cases h with
  | @con rc tag con vs enc hname htag hdesc hslots hlen =>
      rcases tag_ne htag with ⟨h1, h2, h3, h4, h5, h6⟩
      change (if tag = wokArrayTag then _ else _) = _
      rw [if_neg h1, if_neg h2, if_neg h3, if_neg h4, if_neg h5, if_neg h6]
      have heligible : nodeCEligible (.con con vs) = true := by
        have hvs : vs.length ≤ 255 := (slots_length hslots).trans_le hlen
        simp only [nodeCEligible, hvs, decide_true, slots_isSome hslots, Bool.and_self]
      have harity : (UInt8.ofNat enc.length).toNat = enc.length := by
        rw [UInt8.toNat_ofNat']
        omega
      simp only [wouldBeCBytes, heligible, if_true, harity, slots_length hslots]
  | @array rc kind vs ws hslots hlen =>
      have hvs : vs.length = ws.length := by simpa using slots_length hslots
      change (16 + 8 * (wokArrayLen _ : Int)) = 16 + 8 * (vs.length : Int)
      rw [wokArrayLen_eq hlen, hvs]
  | @string rc bs hlen =>
      change (16 + 8 * (((UInt64.ofNat bs.length + 7) / 8).toNat : Int)) =
        bytesCellCBytes bs.length
      rw [bytes_toNat hlen, bytesCellCBytes]
      omega
  | @bytes rc bs hlen =>
      change (16 + 8 * (((UInt64.ofNat bs.length + 7) / 8).toNat : Int)) =
        bytesCellCBytes bs.length
      rw [bytes_toNat hlen, bytesCellCBytes]
      omega
  | view hoff hlen => rfl

/-! ### Images -/

/-- A cell of the C store with this count, this charge and this node. -/
inductive Holds (s : Store) : Addr → Nat → Int → Node → Prop
  | heap {j : Int} {rc : Nat} {bytes : Int} {n : Node} (hj : 0 ≤ j)
      (hc : s.cells.lookup j = some ⟨rc, n, bytes⟩) : Holds s (.heap j) rc bytes n
  | c {p : Ptr} {o : WokObj} {rc : Nat} {bytes : Int} {n : Node} (ho : s.objs.lookup p = some o)
      (hrc : o.rc = rc) (hbytes : objBytes o = bytes) (hkept : Kept s o n) :
      Holds s (.c p) rc bytes n

/-- An address of a store that has handed out the indices below `next`. It is no
static address, and its image fits a slot of a C cell. -/
structure Proper (ρ : Addr → Addr) (next : Int) (a : Addr) : Prop where
  below : ∀ i, a = .heap i → 0 ≤ i ∧ i < next
  notC : ∀ p, a ≠ .c p
  word : WordAddr (ρ a)

/-- Each name has the number that it was given when it was new. -/
def TagsOk (s : Store) : Prop :=
  ∀ e ∈ s.tags, e.2.toNat < s.tags.length ∧ tagName e.2 s = .ok e.1

/-- The C store `s'` is an image of the abstract store `s`: `ρ` takes each cell to
one with the same count, charge and contents, and to no other cell's. -/
structure Image (ρ : Addr → Addr) (s s' : Store) : Prop where
  backend : s.backend = .abstractHeap
  backend' : s'.backend = .cHeap
  uncounted : ∀ a, isUncounted a = true → ρ a = a
  counted : ∀ i, 0 ≤ i → isUncounted (ρ (.heap i)) = false
  cell : ∀ i c, 0 ≤ i → s.cells.lookup i = some c →
    Holds s' (ρ (.heap i)) c.rc c.bytes (c.node.mapAddr ρ)
  inj : ∀ i j c d, 0 ≤ i → 0 ≤ j → s.cells.lookup i = some c → s.cells.lookup j = some d →
    ρ (.heap i) = ρ (.heap j) → i = j
  pos : ∀ i c, 0 ≤ i → s.cells.lookup i = some c → 0 < c.rc
  plain : ∀ i c, 0 ≤ i → s.cells.lookup i = some c → c.node.Plain
  proper : ∀ i c, 0 ≤ i → s.cells.lookup i = some c →
    ∀ v ∈ nodeValues c.node, ∀ a ∈ valueChildren v, Proper ρ s.next a
  arena : ∀ i, s.isArenaAddr (.heap i) = false
  arena' : ∀ a, s'.isArenaAddr a = false
  tags : s'.tags = s.tags
  conDesc : s'.conDesc = s.conDesc
  stats : s'.stats = s.stats
  dead : ∀ i ∈ s.dead, s.cells.lookup i = none
  dead' : ∀ i ∈ s'.dead, s'.cells.lookup i = none
  fresh : s.Fresh
  fresh' : s'.Fresh
  tagsOk : TagsOk s

/-! ### Reading -/

/-- What a counted or immediate address reads as, the image of it reads as the image. -/
theorem Image.deref (h : Image ρ s s') {c : Cell} (hp : Proper ρ s.next a)
    (hread : RC.deref a s = .ok c) :
    ∃ c', RC.deref (ρ a) s' = .ok c' ∧ c'.node = c.node.mapAddr ρ := by
  cases a with
  | c p => exact absurd rfl (hp.notC p)
  | inline tid =>
      rw [h.uncounted (.inline tid) rfl]
      have htagName : tagName tid s' = tagName tid s := by
        unfold tagName
        rw [h.tags]
      simp only [RC.deref] at hread ⊢
      rw [htagName]
      cases hname : tagName tid s with
      | error e =>
          rw [hname] at hread
          cases hread
      | ok con =>
          rw [hname] at hread
          cases hread
          exact ⟨_, rfl, rfl⟩
  | inlineStr bs =>
      rw [h.uncounted (.inlineStr bs) rfl]
      cases hread
      exact ⟨_, rfl, rfl⟩
  | heap i =>
      have hi : 0 ≤ i := (hp.below i rfl).1
      simp only [RC.deref, derefPure] at hread
      split at hread
      · cases hread
      · cases hc : s.cells.lookup i with
        | none =>
            rw [hc] at hread
            cases hread
        | some c₀ =>
            rw [hc] at hread
            cases hread
            have hholds := h.cell i c hi hc
            generalize ρ (.heap i) = a' at hholds ⊢
            generalize c.node.mapAddr ρ = n at hholds ⊢
            cases hholds with
            | @heap j _ _ _ hj hd =>
                have hdead : j ∉ s'.dead := by
                  intro hmem
                  rw [h.dead' j hmem] at hd
                  cases hd
                refine ⟨⟨c.rc, n, c.bytes⟩, ?_, rfl⟩
                simp only [RC.deref, derefPure, hdead, hd, if_false]
            | c ho hrc hbytes hkept => exact ⟨_, hkept.readCCell ho, rfl⟩

/-! ### Counts -/

/-- The store with another count at an address. -/
inductive SetsRc (s : Store) : Addr → Nat → Store → Prop
  | heap {j : Int} {c : Cell} {r : Nat} (hc : s.cells.lookup j = some c) :
      SetsRc s (.heap j) r { s with cells := s.cells.insert j { c with rc := r } }
  | c {p : Ptr} {o : WokObj} {r : Nat} (ho : s.objs.lookup p = some o) :
      SetsRc s (.c p) r { s with objs := s.objs.insert p { o with rc := r } }

theorem SetsRc.sameNodes {r : Nat} (h : SetsRc s a r t) : SameNodes s t := by
  cases h with
  | heap hc => exact sameNodes_insert_cells hc r
  | c ho => exact sameNodes_insert_objs ho r

/-- The tables of a store have not lost an entry. -/
structure Extends (s t : Store) : Prop where
  names : ∀ w con, tagName w s = .ok con → tagName w t = .ok con
  descs : ∀ tag ks, s.conDesc.lookup tag = some ks → t.conDesc.lookup tag = some ks

theorem Extends.of_eq (htags : t.tags = s.tags) (hdesc : t.conDesc = s.conDesc) : Extends s t := by
  constructor
  · intro w con h
    unfold tagName at h ⊢
    rw [htags]
    exact h
  · intro tag ks h
    rw [hdesc]
    exact h

theorem Kept.mono (h : Kept s o n) (he : Extends s t) : Kept t o n := by
  cases h with
  | con hname htag hd hslots hlen =>
      exact .con (he.names _ _ hname) htag (he.descs _ _ hd) hslots hlen
  | array hslots hlen => exact .array hslots hlen
  | string hlen => exact .string hlen
  | bytes hlen => exact .bytes hlen
  | view hoff hlen => exact .view hoff hlen

/-- Cells elsewhere are as they were. -/
theorem Holds.frame {rc : Nat} {bytes : Int} (h : Holds s b rc bytes n) (he : Extends s t)
    (hcells : ∀ j, b = .heap j → t.cells.lookup j = s.cells.lookup j)
    (hobjs : ∀ p, b = .c p → t.objs.lookup p = s.objs.lookup p) : Holds t b rc bytes n := by
  cases h with
  | heap hj hc => exact .heap hj ((hcells _ rfl).trans hc)
  | c ho hrc hbytes hkept =>
      exact .c ((hobjs _ rfl).trans ho) hrc hbytes (hkept.mono he)

theorem SetsRc.holds_ne {rc r : Nat} {bytes : Int} (h : SetsRc s a r t) (hb : b ≠ a)
    (hholds : Holds s b rc bytes n) : Holds t b rc bytes n := by
  cases h with
  | heap hc =>
      refine hholds.frame (.of_eq rfl rfl) ?_ fun _ _ => rfl
      rintro j rfl
      exact AList.lookup_insert_ne fun heq => hb (heq ▸ rfl)
  | c ho =>
      refine hholds.frame (.of_eq rfl rfl) (fun _ _ => rfl) ?_
      rintro p rfl
      exact AList.lookup_insert_ne fun heq => hb (heq ▸ rfl)

theorem SetsRc.holds_self {rc r : Nat} {bytes : Int} (h : SetsRc s a r t)
    (hholds : Holds s a rc bytes n) : Holds t a r bytes n := by
  cases h with
  | heap hc =>
      cases hholds with
      | heap hj hc' =>
          rw [hc] at hc'
          cases hc'
          exact .heap hj (AList.lookup_insert _)
  | c ho =>
      cases hholds with
      | c ho' hrc hbytes hkept =>
          rw [ho] at ho'
          cases ho'
          refine .c (AList.lookup_insert _) rfl ?_ ((hkept.setRc r).mono (.of_eq rfl rfl))
          rw [← hbytes]
          rfl

/-- The image stays one when a cell and its image get the same new count. -/
theorem Image.setRc {i : Int} {c : Cell} {r : Nat} (h : Image ρ s s') (hi : 0 ≤ i)
    (hc : s.cells.lookup i = some c) (hr : 0 < r) (hset : SetsRc s' (ρ (.heap i)) r t) :
    Image ρ { s with cells := s.cells.insert i { c with rc := r } } t := by
  have hnodes := hset.sameNodes
  have hlookup : ∀ j d, (s.cells.insert i { c with rc := r }).lookup j = some d →
      (j = i ∧ d = { c with rc := r }) ∨ (j ≠ i ∧ s.cells.lookup j = some d) := by
    intro j d hd
    by_cases hj : j = i
    · subst hj
      rw [AList.lookup_insert] at hd
      exact .inl ⟨rfl, (Option.some.inj hd).symm⟩
    · rw [AList.lookup_insert_ne hj] at hd
      exact .inr ⟨hj, hd⟩
  have hpresent : ∀ j d, (s.cells.insert i { c with rc := r }).lookup j = some d →
      ∃ d₀, s.cells.lookup j = some d₀ ∧ d₀.node = d.node := by
    intro j d hd
    rcases hlookup j d hd with ⟨rfl, rfl⟩ | ⟨-, hd⟩
    · exact ⟨c, hc, rfl⟩
    · exact ⟨d, hd, rfl⟩
  have harena : ∀ a, t.isArenaAddr a = s'.isArenaAddr a := by
    intro a
    rw [hnodes.rest]
    rfl
  constructor
  · exact h.backend
  · rw [hnodes.rest]
    exact h.backend'
  · exact h.uncounted
  · exact h.counted
  · intro j d hj hd
    rcases hlookup j d hd with ⟨rfl, rfl⟩ | ⟨hne, hd⟩
    · exact hset.holds_self (h.cell j c hj hc)
    · apply hset.holds_ne
      · intro heq
        exact hne (h.inj j i d c hj hi hd hc heq)
      · exact h.cell j d hj hd
  · intro j k d e hj hk hd he heq
    rcases hpresent j d hd with ⟨d₀, hd₀, -⟩
    rcases hpresent k e he with ⟨e₀, he₀, -⟩
    exact h.inj j k d₀ e₀ hj hk hd₀ he₀ heq
  · intro j d hj hd
    rcases hlookup j d hd with ⟨rfl, rfl⟩ | ⟨-, hd⟩
    · exact hr
    · exact h.pos j d hj hd
  · intro j d hj hd
    rcases hpresent j d hd with ⟨d₀, hd₀, hnode⟩
    rw [← hnode]
    exact h.plain j d₀ hj hd₀
  · intro j d hj hd
    rcases hpresent j d hd with ⟨d₀, hd₀, hnode⟩
    rw [← hnode]
    exact h.proper j d₀ hj hd₀
  · exact h.arena
  · intro a
    rw [harena]
    exact h.arena' a
  · rw [hnodes.rest]
    exact h.tags
  · rw [hnodes.rest]
    exact h.conDesc
  · rw [hnodes.rest]
    exact h.stats
  · intro j hj
    exact lookup_insert_none hc (h.dead j hj)
  · intro j hj
    have hnone : s'.cells.lookup j = none := by
      apply h.dead' j
      rw [hnodes.rest] at hj
      exact hj
    simpa [hnone] using hnodes.cells j
  · exact (sameNodes_insert_cells hc r).fresh h.fresh
  · exact hnodes.fresh h.fresh'
  · exact h.tagsOk

/-! ### Another reference -/

theorem Holds.deref_heap {j : Int} {rc : Nat} {bytes : Int} (h : Holds s (.heap j) rc bytes n)
    (hdead : ∀ i ∈ s.dead, s.cells.lookup i = none) :
    derefPure j s = .ok ⟨rc, n, bytes⟩ ∧ j ∉ s.dead := by
  cases h with
  | heap hj hc =>
      have hj : j ∉ s.dead := by
        intro hmem
        rw [hdead j hmem] at hc
        cases hc
      exact ⟨by simp only [derefPure, hj, hc, if_false], hj⟩

theorem Holds.incref {rc : Nat} {bytes : Int} (h : Holds s a rc bytes n)
    (harena : s.isArenaAddr a = false) (hdead : ∀ i ∈ s.dead, s.cells.lookup i = none) :
    ∃ t, RC.incref a s = .ok t ∧ SetsRc s a (rc + 1) t := by
  cases h with
  | @heap j rc bytes n hj hc =>
      have hstatic : isStaticAddr (.heap j) = false := decide_eq_false (not_lt.mpr hj)
      have hread := (Holds.heap hj hc).deref_heap hdead
      refine ⟨_, ?_, .heap hc⟩
      simp only [RC.incref, harena, increfPure, hstatic, if_false, Bool.false_eq_true, hread.1]
      rfl
  | @c p o rc bytes n ho hrc hbytes hkept =>
      subst hrc
      refine ⟨_, ?_, .c ho⟩
      simp only [RC.incref, harena, wokDup, wokObj, ho, if_false, Bool.false_eq_true]
      rfl

/-! ### Frees -/

/-- The store without the cell at an address, for which `bytes` come off the books. -/
structure FreesCell (s : Store) (a : Addr) (bytes : Int) (t : Store) : Prop where
  rest : t = { s with
    cells := t.cells, objs := t.objs, dead := t.dead, stats := recordFree bytes s.stats }
  cells : ∀ j, a ≠ .heap j → t.cells.lookup j = s.cells.lookup j
  objs : ∀ p, a ≠ .c p → t.objs.lookup p = s.objs.lookup p
  gone : ∀ j, a = .heap j → t.cells.lookup j = none
  dead : ∀ j ∈ t.dead, j ∈ s.dead ∨ a = .heap j
  fresh : s.Fresh → t.Fresh

theorem dropHAddr_plain {j : Int} {c : Cell} (hj : 0 ≤ j) (hc : s.cells.lookup j = some c)
    (hplain : c.node.Plain) (hdead : j ∉ s.dead) :
    dropHAddr j s =
      if c.rc ≤ 1 then .ok (cascadeChildren c.node, { s with
        cells := s.cells.erase j
        dead := insert j s.dead
        stats := recordFree c.bytes s.stats })
      else .ok ([], { s with cells := s.cells.insert j { c with rc := c.rc - 1 } }) := by
  have hreclaim : reclaimIfNCont j s = .ok s := by
    unfold reclaimIfNCont
    rw [hc]
    rcases c with ⟨rc, node, bytes⟩
    cases node <;> first | rfl | exact hplain.elim
  have hstatic : isStaticAddr (.heap j) = false := decide_eq_false (not_lt.mpr hj)
  unfold dropHAddr
  rw [hreclaim]
  change (dropAddrStepPure j s >>= _) = _
  simp only [dropAddrStepPure, hstatic, hdead, hc, if_false, Bool.false_eq_true]
  by_cases hrc : c.rc ≤ 1
  · rw [if_pos hrc, if_pos hrc]
    rfl
  · rw [if_neg hrc, if_neg hrc]
    rfl

/-- A round of the worklist at a cell with other references. -/
theorem Holds.dropStep_shared {rc : Nat} {bytes : Int} (h : Holds s a rc bytes n)
    (harena : s.isArenaAddr a = false) (hdead : ∀ i ∈ s.dead, s.cells.lookup i = none)
    (hplain : n.Plain) (hrc : 1 < rc) (rest : List Addr) :
    ∃ t, dropStep (a :: rest, s) = .inl (rest, t) ∧ SetsRc s a (rc - 1) t := by
  cases h with
  | @heap j rc bytes n hj hc =>
      have hread := (Holds.heap hj hc).deref_heap hdead
      refine ⟨_, ?_, .heap hc⟩
      simp only [dropStep, harena, dropHAddr_plain hj hc hplain hread.2, if_false,
        Bool.false_eq_true, if_neg (Nat.not_le.mpr hrc)]
      rfl
  | @c p o rc bytes n ho hrc' hbytes hkept =>
      subst hrc'
      refine ⟨_, ?_, .c ho⟩
      have hdec : dropCAddr p s = .ok ([], { s with
          objs := s.objs.insert p { o with rc := o.rc - 1 } }) := by
        unfold dropCAddr
        rw [wokDec_ok ho (by omega)]
        change (if o.rc - 1 ≠ 0 then _ else _) = _
        rw [if_pos (by omega)]
        rfl
      simp only [dropStep, harena, hdec, if_false, Bool.false_eq_true]
      rfl

/-- A round of the worklist at a cell with no other reference. -/
theorem Holds.dropStep_last {bytes : Int} (h : Holds s a 1 bytes n)
    (harena : s.isArenaAddr a = false) (hdead : ∀ i ∈ s.dead, s.cells.lookup i = none)
    (hplain : n.Plain) (hbackend : ∀ p, a = .c p → s.backend = .cHeap) (rest : List Addr) :
    ∃ t, dropStep (a :: rest, s) = .inl (cascadeChildren n ++ rest, t) ∧
      FreesCell s a bytes t := by
  cases h with
  | @heap j rc bytes n hj hc =>
      have hread := (Holds.heap hj hc).deref_heap hdead
      have hdrop := dropHAddr_plain hj hc hplain hread.2
      rw [if_pos (le_refl 1)] at hdrop
      refine ⟨{ s with
          cells := s.cells.erase j
          dead := insert j s.dead
          stats := recordFree bytes s.stats }, ?_, ?_⟩
      · simp only [dropStep, harena, hdrop, if_false, Bool.false_eq_true]
      · refine ⟨rfl, ?_, fun _ _ => rfl, ?_, ?_, (dropHAddr_frame hdrop).1.fresh⟩
        · intro k hk
          exact AList.lookup_erase_ne fun heq => hk (heq ▸ rfl)
        · intro k hk
          cases hk
          exact AList.lookup_erase j s.cells
        · intro k hk
          rcases Finset.mem_insert.mp hk with rfl | hk
          · exact .inr rfl
          · exact .inl hk
  | @c p o rc bytes n ho hrc hbytes hkept =>
      let s₁ : Store := { s with objs := s.objs.insert p { o with rc := 0 } }
      let t : Store := { s with
        objs := s₁.objs.erase p
        stats := recordFree bytes s.stats }
      have hself : s₁.objs.lookup p = some { o with rc := 0 } := AList.lookup_insert _
      have hkids : RC.objKids { o with rc := 0 } s₁ = .ok (cascadeChildren n) :=
        ((hkept.setRc 0).mono (.of_eq rfl rfl)).objKids
      have hptr : heapPtr s₁ = .ok () := heapPtr_ok (hbackend p rfl)
      have hdrop : dropCAddr p s = .ok (cascadeChildren n, t) := by
        unfold dropCAddr
        rw [wokDec_ok ho (by omega)]
        change (if o.rc - 1 ≠ 0 then _ else _) = _
        rw [if_neg (by omega), hrc]
        change (RC.objKids { o with rc := 0 } s₁ >>= _) = _
        rw [hkids]
        change (heapPtr s₁ >>= _) = _
        rw [hptr]
        change (wokFree p s₁ >>= _) = _
        rw [wokFree_ok hself rfl]
        subst hbytes
        rfl
      refine ⟨t, ?_, ?_⟩
      · simp only [dropStep, harena, hdrop, if_false, Bool.false_eq_true]
      · refine ⟨rfl, fun _ _ => rfl, ?_, ?_, fun _ hj => .inl hj,
          (dropCAddr_frame harena hdrop).1.fresh⟩
        · intro q hq
          have hne : q ≠ p := fun heq => hq (heq ▸ rfl)
          exact (AList.lookup_erase_ne hne).trans (AList.lookup_insert_ne hne)
        · intro j hj
          cases hj

theorem FreesCell.arena {bytes : Int} (h : FreesCell s a bytes t) (b : Addr) :
    t.isArenaAddr b = s.isArenaAddr b := by
  rw [h.rest]
  rfl

/-- The image stays one when a cell and its image are freed. -/
theorem Image.free {i : Int} {c : Cell} {t' : Store} (h : Image ρ s s') (hi : 0 ≤ i)
    (hc : s.cells.lookup i = some c) (hfree : FreesCell s (.heap i) c.bytes t)
    (hfree' : FreesCell s' (ρ (.heap i)) c.bytes t') : Image ρ t t' := by
  have hlookup : ∀ j d, t.cells.lookup j = some d → j ≠ i ∧ s.cells.lookup j = some d := by
    intro j d hd
    have hne : j ≠ i := by
      intro heq
      rw [hfree.gone j (heq ▸ rfl)] at hd
      cases hd
    refine ⟨hne, ?_⟩
    rw [← hfree.cells j fun heq => hne (Addr.heap.inj heq).symm]
    exact hd
  constructor
  · rw [hfree.rest]
    exact h.backend
  · rw [hfree'.rest]
    exact h.backend'
  · exact h.uncounted
  · exact h.counted
  · intro j d hj hd
    rcases hlookup j d hd with ⟨hne, hd⟩
    have hne' : ρ (.heap i) ≠ ρ (.heap j) := by
      intro heq
      exact hne (h.inj j i d c hj hi hd hc heq.symm)
    apply (h.cell j d hj hd).frame
    · exact .of_eq (by rw [hfree'.rest]) (by rw [hfree'.rest])
    · intro k hk
      exact hfree'.cells k (hk ▸ hne')
    · intro p hp
      exact hfree'.objs p (hp ▸ hne')
  · intro j k d e hj hk hd he heq
    exact h.inj j k d e hj hk (hlookup j d hd).2 (hlookup k e he).2 heq
  · intro j d hj hd
    exact h.pos j d hj (hlookup j d hd).2
  · intro j d hj hd
    exact h.plain j d hj (hlookup j d hd).2
  · intro j d hj hd
    rw [hfree.rest]
    exact h.proper j d hj (hlookup j d hd).2
  · intro j
    rw [hfree.arena]
    exact h.arena j
  · intro b
    rw [hfree'.arena]
    exact h.arena' b
  · rw [hfree.rest, hfree'.rest]
    exact h.tags
  · rw [hfree.rest, hfree'.rest]
    exact h.conDesc
  · rw [hfree.rest, hfree'.rest]
    exact congrArg (recordFree c.bytes) h.stats
  · intro j hj
    by_cases hji : Addr.heap i = .heap j
    · exact hfree.gone j hji
    · rw [hfree.cells j hji]
      exact h.dead j ((hfree.dead j hj).resolve_right hji)
  · intro j hj
    by_cases hji : ρ (.heap i) = .heap j
    · exact hfree'.gone j hji
    · rw [hfree'.cells j hji]
      exact h.dead' j ((hfree'.dead j hj).resolve_right hji)
  · exact hfree.fresh h.fresh
  · exact hfree'.fresh h.fresh'
  · rw [hfree.rest]
    exact h.tagsOk

/-! ### Drops -/

theorem Proper.isUncounted (h : Image ρ s s') (hp : Proper ρ s.next a) :
    RC.isUncounted (ρ a) = RC.isUncounted a := by
  cases a with
  | c p => exact absurd rfl (hp.notC p)
  | inline tid => rw [h.uncounted _ rfl]
  | inlineStr bs => rw [h.uncounted _ rfl]
  | heap i =>
      have hi := (hp.below i rfl).1
      have hstatic : RC.isUncounted (.heap i) = false := by
        simp [RC.isUncounted, isStaticAddr, isInline, hi]
      rw [h.counted i hi, hstatic]

theorem Image.countedRefs (h : Image ρ s s') {vs : List RCValue}
    (hp : ∀ v ∈ vs, ∀ a ∈ valueChildren v, Proper ρ s.next a) :
    RC.countedRefs (vs.map (·.mapAddr ρ)) = (RC.countedRefs vs).map ρ := by
  unfold RC.countedRefs
  induction vs with
  | nil => rfl
  | cons v vs ih =>
      rw [List.map_cons, List.flatMap_cons, List.flatMap_cons, List.map_append,
        ih fun w hw => hp w (List.mem_cons_of_mem v hw), valueChildren_mapAddr, List.filter_map]
      congr 2
      apply List.filter_congr
      intro a ha
      have heq := Proper.isUncounted h (hp v List.mem_cons_self a ha)
      simp only [Function.comp_apply, heq]

theorem Node.Plain.cascadeChildren (h : n.Plain) :
    RC.cascadeChildren n = RC.countedRefs (nodeValues n) := by
  cases n <;> first | rfl | exact h.elim

theorem Node.Plain.mapAddr (h : n.Plain) (f : Addr → Addr) : (n.mapAddr f).Plain := by
  cases n <;> first | exact trivial | exact h.elim

theorem Image.cascadeChildren (h : Image ρ s s') (hplain : n.Plain)
    (hp : ∀ v ∈ nodeValues n, ∀ a ∈ valueChildren v, Proper ρ s.next a) :
    RC.cascadeChildren (n.mapAddr ρ) = (RC.cascadeChildren n).map ρ := by
  rw [(hplain.mapAddr ρ).cascadeChildren, hplain.cascadeChildren, nodeValues_mapAddr,
    h.countedRefs hp]

/-- An address with no cell cannot be dropped. -/
theorem dropHAddr_none {i : Int} (hi : 0 ≤ i) (hc : s.cells.lookup i = none) :
    ∃ e, dropHAddr i s = .error e := by
  have hreclaim : reclaimIfNCont i s = .ok s := by
    unfold reclaimIfNCont
    rw [hc]
  have hstatic : isStaticAddr (.heap i) = false := decide_eq_false (not_lt.mpr hi)
  unfold dropHAddr
  rw [hreclaim]
  change ∃ e, (dropAddrStepPure i s >>= _) = _
  simp only [dropAddrStepPure, hstatic, hc, if_false, Bool.false_eq_true]
  by_cases hdead : i ∈ s.dead
  · rw [if_pos hdead]
    exact ⟨_, rfl⟩
  · rw [if_neg hdead]
    exact ⟨_, rfl⟩

/-- A round of the worklist that succeeds on the abstract heap does the same on the
C heap. -/
theorem Image.dropStep {rest work : List Addr} {t : Store} (h : Image ρ s s')
    (hp : ∀ b ∈ a :: rest, Proper ρ s.next b)
    (hstep : RC.dropStep (a :: rest, s) = .inl (work, t)) :
    ∃ t', RC.dropStep ((a :: rest).map ρ, s') = .inl (work.map ρ, t') ∧ Image ρ t t' ∧
      (∀ b ∈ work, Proper ρ t.next b) ∧ t.next = s.next := by
  have hrest : ∀ b ∈ rest, Proper ρ s.next b := fun b hb => hp b (List.mem_cons_of_mem a hb)
  cases a with
  | c p => exact absurd rfl ((hp _ List.mem_cons_self).notC p)
  | inline tid =>
      cases hstep
      rw [List.map_cons, h.uncounted _ rfl]
      exact ⟨s', rfl, h, hrest, rfl⟩
  | inlineStr bs =>
      cases hstep
      rw [List.map_cons, h.uncounted _ rfl]
      exact ⟨s', rfl, h, hrest, rfl⟩
  | heap i =>
      have hi := ((hp _ List.mem_cons_self).below i rfl).1
      cases hc : s.cells.lookup i with
      | none =>
          rcases dropHAddr_none hi hc with ⟨e, hnone⟩
          simp only [RC.dropStep, h.arena i, hnone, if_false, Bool.false_eq_true] at hstep
          cases hstep
      | some c =>
          have hplain := h.plain i c hi hc
          have hholds : Holds s (.heap i) c.rc c.bytes c.node := .heap hi hc
          have hholds' := h.cell i c hi hc
          have hpos := h.pos i c hi hc
          by_cases hrc : 1 < c.rc
          · rcases hholds.dropStep_shared (h.arena i) h.dead hplain hrc rest with
              ⟨t₀, hrun, hset⟩
            rcases hholds'.dropStep_shared (h.arena' _) h.dead' (hplain.mapAddr ρ) hrc
              (rest.map ρ) with ⟨t', hrun', hset'⟩
            rw [hstep] at hrun
            cases hrun
            cases hset with
            | heap hc' =>
                rw [hc] at hc'
                cases hc'
                exact ⟨t', hrun', h.setRc hi hc (by omega) hset', hrest, rfl⟩
          · have hone : c.rc = 1 := by omega
            rw [hone] at hholds hholds'
            rcases hholds.dropStep_last (h.arena i) h.dead hplain (fun p hp => by cases hp) rest
              with ⟨t₀, hrun, hfree⟩
            rcases hholds'.dropStep_last (h.arena' _) h.dead' (hplain.mapAddr ρ)
              (fun _ _ => h.backend') (rest.map ρ) with ⟨t', hrun', hfree'⟩
            rw [hstep] at hrun
            cases hrun
            have hnext : t.next = s.next := by
              rw [hfree.rest]
            have hproper := h.proper i c hi hc
            refine ⟨t', ?_, h.free hi hc hfree hfree', ?_, hnext⟩
            · rw [h.cascadeChildren hplain hproper] at hrun'
              rw [List.map_append]
              exact hrun'
            · intro b hb
              rw [hnext]
              rcases List.mem_append.mp hb with hb | hb
              · rw [hplain.cascadeChildren] at hb
                rcases List.mem_flatMap.mp hb with ⟨v, hv, hb⟩
                exact hproper v hv b (List.mem_of_mem_filter hb)
              · exact hrest b hb

theorem Image.run {fuel : Nat} {work : List Addr} {t : Store} (h : Image ρ s s')
    (hp : ∀ b ∈ work, Proper ρ s.next b) (hrun : dropSystem.run fuel (work, s) = some (.ok t)) :
    ∃ t', dropSystem.run fuel (work.map ρ, s') = some (.ok t') ∧ Image ρ t t' ∧
      t.next = s.next := by
  induction fuel generalizing work s s' with
  | zero => cases hrun
  | succ fuel ih =>
      cases work with
      | nil =>
          cases hrun
          exact ⟨s', rfl, h, rfl⟩
      | cons a rest =>
          cases hstep : RC.dropStep (a :: rest, s) with
          | inr r =>
              rw [System.run_succ_of_halt hstep] at hrun
              cases hrun
              rcases dropStep_halts hstep with ⟨e, he⟩
              cases he
          | inl st =>
              rcases st with ⟨work, s₁⟩
              rcases h.dropStep hp hstep with ⟨s₁', hstep', h₁, hp₁, hnext⟩
              rw [System.run_succ_of_step hstep] at hrun
              rcases ih h₁ hp₁ hrun with ⟨t', hrun', ht, hnext'⟩
              refine ⟨t', ?_, ht, hnext'.trans hnext⟩
              rw [System.run_succ_of_step hstep']
              exact hrun'

/-- A drop that succeeds on the abstract heap does the same on the C heap. -/
theorem Image.drop {t : Store} (h : Image ρ s s') (hp : Proper ρ s.next a)
    (hdrop : RC.drop a s = .ok t) :
    ∃ t', RC.drop (ρ a) s' = .ok t' ∧ Image ρ t t' ∧ t.next = s.next := by
  rcases exists_dropAddr a s with ⟨r, hr⟩
  rw [drop_eq hr] at hdrop
  subst hdrop
  have hwork : ∀ b ∈ [a], Proper ρ s.next b := by
    intro b hb
    rw [List.mem_singleton.mp hb]
    exact hp
  rcases h.run hwork hr with ⟨t', hrun, ht, hnext⟩
  exact ⟨t', drop_eq hrun, ht, hnext⟩

end Wok.Interp.RC
