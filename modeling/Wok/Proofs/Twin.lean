/-
Module: Wok.Proofs.Twin
Purpose: Two stores, one on each heap, that own the same values: another reference
  keeps them so, and a new cell on each keeps one the image of the other.
Imports: Wok.Proofs.Image
Trusted boundary: none
Main exports: Grows, Image.intern, Image.add, Twin, Dups, Twin.dup
-/
import Wok.Proofs.Image

namespace Wok.Interp.RC

open Wok.IR
open Wok.Lib

variable {s s' t t' : Store} {a b : Addr} {v : RCValue} {vs ws : List RCValue} {n : Node}
  {o : WokObj} {ρ ρ' : Addr → Addr} {A : Allocator} {m : Nat}

/-! ### Tables -/

/-- Both stores with other tables. -/
theorem Image.retable {tags : List (String × UInt32)} {conDesc : List (UInt16 × List SlotKind)}
    (h : Image ρ s s') (he : Extends s' { s' with tags := tags, conDesc := conDesc })
    (hok : TagsOk { s with tags := tags, conDesc := conDesc }) :
    Image ρ { s with tags := tags, conDesc := conDesc }
      { s' with tags := tags, conDesc := conDesc } := {
  h with
  cell := fun i c hi hc =>
    (h.cell i c hi hc).frame he (fun _ _ => rfl) (fun _ _ => rfl)
  tags := rfl
  conDesc := rfl
  fresh := ⟨h.fresh.next, h.fresh.cells, h.fresh.dead, h.fresh.reserved, h.fresh.arena,
    h.fresh.arenaC, h.fresh.shells⟩
  fresh' := ⟨h.fresh'.next, h.fresh'.cells, h.fresh'.dead, h.fresh'.reserved, h.fresh'.arena,
    h.fresh'.arenaC, h.fresh'.shells⟩
  tagsOk := hok }

theorem skipTag_of_lt {reserved : UInt16} {w : UInt32} (h : w.toNat < 2 ^ 15)
    (hreserved : 2 ^ 15 ≤ reserved.toNat) : skipTag reserved w = w := by
  unfold skipTag
  rw [if_neg]
  intro hle
  have hle : reserved.toUInt32.toNat ≤ w.toNat := hle
  rw [UInt16.toNat_toUInt32] at hle
  omega

/-- A new name gets the number of names before it. -/
theorem internTag_new {con : String} (hnone : s.tags.lookup con = none)
    (hlen : s.tags.length < 2 ^ 15) :
    internTag con s = (UInt32.ofNat s.tags.length,
      { s with tags := (con, UInt32.ofNat s.tags.length) :: s.tags }) := by
  have hraw : (UInt32.ofNat s.tags.length).toNat < 2 ^ 15 := by
    rw [UInt32.toNat_ofNat']
    omega
  unfold internTag
  rw [hnone]
  simp only [skipTag_of_lt hraw (by decide : 2 ^ 15 ≤ wokBorrowViewTag.toNat),
    skipTag_of_lt hraw (by decide : 2 ^ 15 ≤ wokForeignBytesTag.toNat),
    skipTag_of_lt hraw (by decide : 2 ^ 15 ≤ wokBytesTag.toNat),
    skipTag_of_lt hraw (by decide : 2 ^ 15 ≤ wokStringViewTag.toNat),
    skipTag_of_lt hraw (by decide : 2 ^ 15 ≤ wokStringTag.toNat),
    skipTag_of_lt hraw (by decide : 2 ^ 15 ≤ wokArrayTag.toNat)]

/-- What interning a name does: the name has a number then, and the others keep theirs. -/
structure Interned (con : String) (s t : Store) (w : UInt32) : Prop where
  rest : t = { s with tags := t.tags }
  name : tagName w t = .ok con
  small : w.toNat < 2 ^ 15
  ok : TagsOk t
  names : ∀ w con, tagName w s = .ok con → tagName w t = .ok con
  length : t.tags.length ≤ s.tags.length + 1

theorem mem_of_lookup {con : String} {w : UInt32} {l : List (String × UInt32)}
    (h : l.lookup con = some w) : (con, w) ∈ l := by
  rcases List.lookup_eq_some_iff.mp h with ⟨l₁, l₂, rfl, -⟩
  exact List.mem_append_right l₁ List.mem_cons_self

theorem tagName_cons {con : String} {w : UInt32} {tags : List (String × UInt32)} (x : UInt32) :
    tagName x { s with tags := (con, w) :: tags } =
      if w = x then .ok con else tagName x { s with tags := tags } := by
  unfold tagName
  by_cases h : w = x
  · simp [h]
  · simp [h]

theorem tagName_mem {w : UInt32} {con : String} (h : tagName w s = .ok con) :
    (con, w) ∈ s.tags := by
  unfold tagName at h
  split at h
  next c x hfind =>
    cases h
    have hw := List.find?_some hfind
    have hmem := List.mem_of_find?_eq_some hfind
    simp only [decide_eq_true_eq] at hw
    exact hw ▸ hmem
  · cases h

theorem internTag_interned (con : String) (hok : TagsOk s) (hlen : s.tags.length < 2 ^ 15) :
    Interned con s (internTag con s).2 (internTag con s).1 := by
  cases hlookup : s.tags.lookup con with
  | some w =>
      have hrun : internTag con s = (w, s) := by
        unfold internTag
        rw [hlookup]
      rw [hrun]
      have hw := hok _ (mem_of_lookup hlookup)
      exact ⟨rfl, hw.2, hw.1.trans hlen, hok, fun _ _ h => h, Nat.le_succ _⟩
  | none =>
      rw [internTag_new hlookup hlen]
      have hnew : (UInt32.ofNat s.tags.length).toNat = s.tags.length := by
        rw [UInt32.toNat_ofNat']
        omega
      have hold : ∀ w con, tagName w s = .ok con → UInt32.ofNat s.tags.length ≠ w := by
        intro w con hname heq
        have hlt := (hok _ (tagName_mem hname)).1
        rw [← heq, hnew] at hlt
        exact lt_irrefl _ hlt
      refine ⟨rfl, ?_, by rw [hnew]; exact hlen, ?_, ?_, le_rfl⟩
      · rw [tagName_cons, if_pos rfl]
      · intro e he
        rcases List.mem_cons.mp he with rfl | he
        · refine ⟨?_, ?_⟩
          · rw [hnew]
            exact Nat.lt_succ_self _
          · rw [tagName_cons, if_pos rfl]
        · have hlt := (hok e he).1
          refine ⟨hlt.trans (Nat.lt_succ_self _), ?_⟩
          rw [tagName_cons, if_neg (hold e.2 e.1 (hok e he).2)]
          exact (hok e he).2
      · intro w con' hname
        rw [tagName_cons, if_neg (hold w con' hname)]
        exact hname

/-- Both stores give a name the same number. -/
theorem Image.intern (h : Image ρ s s') (con : String) (hlen : s.tags.length < 2 ^ 15) :
    (internTag con s').1 = (internTag con s).1 ∧
      Image ρ (internTag con s).2 (internTag con s').2 ∧
      Interned con s (internTag con s).2 (internTag con s).1 ∧
      Interned con s' (internTag con s').2 (internTag con s').1 := by
  have hok' : TagsOk s' := by
    intro e he
    have hname : tagName e.2 s' = tagName e.2 s := by
      unfold tagName
      rw [h.tags]
    rw [h.tags] at he
    rw [hname, h.tags]
    exact h.tagsOk e he
  have hint := internTag_interned con h.tagsOk hlen
  have hint' := internTag_interned con hok' (h.tags.symm ▸ hlen)
  rcases internTag_congr con h.tags with ⟨htag, htags⟩
  refine ⟨htag, ?_, hint, hint'⟩
  have hleft : (internTag con s).2 =
      { s with tags := (internTag con s).2.tags, conDesc := s.conDesc } := hint.rest
  have hright : (internTag con s').2 =
      { s' with tags := (internTag con s).2.tags, conDesc := s.conDesc } := by
    rw [hint'.rest, htags, ← h.conDesc]
  have hext : Extends s' { s' with tags := (internTag con s).2.tags, conDesc := s.conDesc } := by
    rw [← hright]
    refine ⟨hint'.names, ?_⟩
    intro tag ks hks
    rw [hright, ← h.conDesc]
    exact hks
  have hok : TagsOk { s with tags := (internTag con s).2.tags, conDesc := s.conDesc } := by
    rw [← hleft]
    exact hint.ok
  have himage := h.retable hext hok
  rw [hleft, hright]
  exact himage

/-! ### New cells -/

/-- `ρ'` takes the addresses that were there before as `ρ` does. -/
structure Grows (ρ : Addr → Addr) (next : Int) (ρ' : Addr → Addr) (next' : Int) : Prop where
  proper : ∀ a, Proper ρ next a → Proper ρ' next' a
  same : ∀ a, Proper ρ next a → ρ' a = ρ a

theorem Grows.refl (ρ : Addr → Addr) (next : Int) : Grows ρ next ρ next :=
  ⟨fun _ h => h, fun _ _ => rfl⟩

theorem Grows.trans {ρ₁ ρ₂ ρ₃ : Addr → Addr} {n₁ n₂ n₃ : Int} (h : Grows ρ₁ n₁ ρ₂ n₂)
    (h' : Grows ρ₂ n₂ ρ₃ n₃) : Grows ρ₁ n₁ ρ₃ n₃ :=
  ⟨fun a ha => h'.proper a (h.proper a ha),
    fun a ha => (h'.same a (h.proper a ha)).trans (h.same a ha)⟩

theorem mapAddr_congr {f g : Addr → Addr} (h : ∀ a ∈ valueChildren v, f a = g a) :
    v.mapAddr f = v.mapAddr g := by
  cases v with
  | box a => exact congrArg RCValue.box (h a List.mem_cons_self)
  | recMember group index e =>
      exact congrArg (RCValue.recMember group index) (h e List.mem_cons_self)
  | _ => rfl

theorem map_mapAddr_congr {f g : Addr → Addr}
    (h : ∀ v ∈ vs, ∀ a ∈ valueChildren v, f a = g a) :
    vs.map (·.mapAddr f) = vs.map (·.mapAddr g) :=
  List.map_congr_left fun v hv => mapAddr_congr (h v hv)

theorem node_mapAddr_congr {f g : Addr → Addr}
    (h : ∀ v ∈ nodeValues n, ∀ a ∈ valueChildren v, f a = g a) : n.mapAddr f = n.mapAddr g := by
  have hfields : ∀ {α : Type} (l : List (α × RCValue)),
      (∀ v ∈ l.map (·.2), ∀ a ∈ valueChildren v, f a = g a) →
        l.map (fun e => (e.1, e.2.mapAddr f)) = l.map fun e => (e.1, e.2.mapAddr g) := by
    intro α l hl
    apply List.map_congr_left
    intro e he
    rw [mapAddr_congr (hl e.2 (List.mem_map_of_mem he))]
  cases n with
  | con tag vs => exact congrArg (Node.con tag) (map_mapAddr_congr h)
  | array vs => exact congrArg Node.array (map_mapAddr_congr h)
  | record name fields => exact congrArg (Node.record name) (hfields fields h)
  | closure captured params body mode =>
      simp only [Node.mapAddr, hfields captured h]
  | env captured => exact congrArg Node.env (hfields captured h)
  | contCell held =>
      cases held with
      | none => rfl
      | some a =>
          have ha := h (.box a) List.mem_cons_self a List.mem_cons_self
          simp only [Node.mapAddr, Option.map_some, ha]
  | stringView parent off len =>
      have ha := h (.box parent) List.mem_cons_self parent List.mem_cons_self
      simp only [Node.mapAddr, ha]
  | _ => rfl

/-- A new cell of the C store. -/
structure NewCell (s : Store) (a : Addr) (bytes : Int) (n : Node) (t : Store) : Prop where
  rest : t = { s with
    cells := t.cells, objs := t.objs, next := t.next, stats := recordAlloc bytes s.stats }
  next : s.next ≤ t.next
  /-- the address was free -/
  new : ∀ rc bytes n, ¬ Holds s a rc bytes n
  self : Holds t a 1 bytes n
  cells : ∀ j, a ≠ .heap j → t.cells.lookup j = s.cells.lookup j
  objs : ∀ p, a ≠ .c p → t.objs.lookup p = s.objs.lookup p
  notDead : ∀ j, a = .heap j → j ∉ s.dead
  counted : isUncounted a = false
  fresh : t.Fresh
  dead : ∀ j ∈ s.dead, s.cells.lookup j = none → t.cells.lookup j = none

theorem newCell_heap (hf : s.Fresh) (bytes : Int) (n : Node) :
    NewCell s (.heap s.next) bytes n (allocPureBytes bytes n s).2 := by
  have hnext := hf.next
  constructor
  · rfl
  · exact (Int.lt_succ s.next).le
  · intro rc bytes n h
    cases h with
    | heap hj hc =>
        rw [hf.cells _ le_rfl] at hc
        cases hc
  · exact .heap hf.next (AList.lookup_insert _)
  · intro j hj
    exact AList.lookup_insert_ne fun heq => hj (heq ▸ rfl)
  · intro p _
    rfl
  · intro j hj hmem
    cases hj
    exact lt_irrefl _ (hf.dead _ hmem)
  · simp [isUncounted, isStaticAddr, isInline, hnext]
  · exact hf.add_heap _ _
  · intro j hj hnone
    have hlt := hf.dead j hj
    exact (AList.lookup_insert_ne (by omega)).trans hnone

theorem newCell_c {p : Ptr} {bytes : Int} (hf : s.Fresh) (hp : s.objs.lookup p = none)
    (hrc : o.rc = 1) (hbytes : objBytes o = bytes) (hkept : Kept s o n) :
    NewCell s (.c p) bytes n
      { s with objs := s.objs.insert p o, stats := recordAlloc bytes s.stats } := by
  constructor
  · rfl
  · exact le_rfl
  · intro rc bytes n h
    cases h with
    | c ho _ _ _ =>
        rw [hp] at ho
        cases ho
  · exact .c (AList.lookup_insert _) hrc hbytes (hkept.mono (.of_eq rfl rfl))
  · intro j _
    rfl
  · intro q hq
    exact AList.lookup_insert_ne fun heq => hq (heq ▸ rfl)
  · intro j hj
    cases hj
  · rfl
  · exact hf.add_c p o _
  · intro j _ hnone
    exact hnone

/-- A new cell of the abstract store and its image. -/
theorem Image.add {bytes : Int} (h : Image ρ s s') (hplain : n.Plain)
    (hproper : ∀ v ∈ nodeValues n, ∀ a ∈ valueChildren v, Proper ρ s.next a)
    (hword : WordAddr a) (hnew : NewCell s' a bytes (n.mapAddr ρ) t') :
    Image (Function.update ρ (.heap s.next) a) (allocPureBytes bytes n s).2 t' ∧
      Grows ρ s.next (Function.update ρ (.heap s.next) a) (s.next + 1) ∧
      Proper (Function.update ρ (.heap s.next) a) (s.next + 1) (.heap s.next) := by
  have hnext := h.fresh.next
  have hgrows : Grows ρ s.next (Function.update ρ (.heap s.next) a) (s.next + 1) := by
    have hsame : ∀ b, Proper ρ s.next b → Function.update ρ (.heap s.next) a b = ρ b := by
      intro b hb
      apply Function.update_of_ne
      intro heq
      exact lt_irrefl _ (hb.below _ heq).2
    refine ⟨?_, hsame⟩
    intro b hb
    refine ⟨?_, hb.notC, ?_⟩
    · intro i hi
      have hbelow := hb.below i hi
      omega
    · rw [hsame b hb]
      exact hb.word
  have hself : Proper (Function.update ρ (.heap s.next) a) (s.next + 1) (.heap s.next) := by
    refine ⟨?_, (fun p hp => by cases hp), ?_⟩
    · intro i hi
      cases hi
      omega
    · rw [Function.update_self]
      exact hword
  refine ⟨?_, hgrows, hself⟩
  have hlookup : ∀ j d, (allocPureBytes bytes n s).2.cells.lookup j = some d →
      (j = s.next ∧ d = ⟨1, n, bytes⟩) ∨ (j < s.next ∧ s.cells.lookup j = some d) := by
    intro j d hd
    by_cases hj : j = s.next
    · subst hj
      rw [allocPureBytes, AList.lookup_insert] at hd
      exact .inl ⟨rfl, (Option.some.inj hd).symm⟩
    · rw [allocPureBytes, AList.lookup_insert_ne hj] at hd
      refine .inr ⟨?_, hd⟩
      by_contra hge
      rw [h.fresh.cells j (by omega)] at hd
      cases hd
  have hmap : ∀ j d, 0 ≤ j → s.cells.lookup j = some d →
      d.node.mapAddr (Function.update ρ (.heap s.next) a) = d.node.mapAddr ρ := by
    intro j d hj hd
    apply node_mapAddr_congr
    intro v hv b hb
    exact hgrows.same b (h.proper j d hj hd v hv b hb)
  have hat : ∀ j, j < s.next → Function.update ρ (.heap s.next) a (.heap j) = ρ (.heap j) := by
    intro j hj
    apply Function.update_of_ne
    intro heq
    cases heq
    exact lt_irrefl _ hj
  have harena : ∀ b, t'.isArenaAddr b = s'.isArenaAddr b := by
    intro b
    rw [hnew.rest]
    rfl
  have hother : ∀ j d, 0 ≤ j → s.cells.lookup j = some d → a ≠ ρ (.heap j) := by
    intro j d hj hd heq
    exact hnew.new _ _ _ (heq ▸ h.cell j d hj hd)
  constructor
  · exact h.backend
  · rw [hnew.rest]
    exact h.backend'
  · intro b hb
    rw [Function.update_of_ne]
    · exact h.uncounted b hb
    · intro heq
      rw [heq] at hb
      simp [isUncounted, isStaticAddr, isInline] at hb
      omega
  · intro j hj
    by_cases hjn : j = s.next
    · subst hjn
      rw [Function.update_self]
      exact hnew.counted
    · rw [Function.update_of_ne fun heq => hjn (Addr.heap.inj heq)]
      exact h.counted j hj
  · intro j d hj hd
    rcases hlookup j d hd with ⟨rfl, rfl⟩ | ⟨hlt, hd⟩
    · rw [Function.update_self, node_mapAddr_congr fun v hv b hb =>
        hgrows.same b (hproper v hv b hb)]
      exact hnew.self
    · rw [hat j hlt, hmap j d hj hd]
      apply (h.cell j d hj hd).frame
      · exact .of_eq (by rw [hnew.rest]) (by rw [hnew.rest])
      · intro k hk
        exact hnew.cells k fun heq => hother j d hj hd (heq.trans hk.symm)
      · intro p hp
        exact hnew.objs p fun heq => hother j d hj hd (heq.trans hp.symm)
  · intro j k d e hj hk hd he heq
    rcases hlookup j d hd with ⟨rfl, rfl⟩ | ⟨hlt, hd⟩
    · rcases hlookup k e he with ⟨rfl, rfl⟩ | ⟨hlt', he⟩
      · rfl
      · rw [Function.update_self, hat k hlt'] at heq
        exact absurd heq (hother k e hk he)
    · rcases hlookup k e he with ⟨rfl, rfl⟩ | ⟨hlt', he⟩
      · rw [Function.update_self, hat j hlt] at heq
        exact absurd heq.symm (hother j d hj hd)
      · rw [hat j hlt, hat k hlt'] at heq
        exact h.inj j k d e hj hk hd he heq
  · intro j d hj hd
    rcases hlookup j d hd with ⟨rfl, rfl⟩ | ⟨-, hd⟩
    · exact Nat.one_pos
    · exact h.pos j d hj hd
  · intro j d hj hd
    rcases hlookup j d hd with ⟨rfl, rfl⟩ | ⟨-, hd⟩
    · exact hplain
    · exact h.plain j d hj hd
  · intro j d hj hd v hv b hb
    rcases hlookup j d hd with ⟨rfl, rfl⟩ | ⟨-, hd⟩
    · exact hgrows.proper b (hproper v hv b hb)
    · exact hgrows.proper b (h.proper j d hj hd v hv b hb)
  · exact h.arena
  · intro b
    rw [harena]
    exact h.arena' b
  · rw [hnew.rest]
    exact h.tags
  · rw [hnew.rest]
    exact h.conDesc
  · rw [hnew.rest]
    exact congrArg (recordAlloc bytes) h.stats
  · intro j hj
    have hlt := h.fresh.dead j hj
    exact (AList.lookup_insert_ne (by omega)).trans (h.dead j hj)
  · intro j hj
    have hj : j ∈ s'.dead := by
      rw [hnew.rest] at hj
      exact hj
    exact hnew.dead j hj (h.dead' j hj)
  · exact h.fresh.add_heap _ _
  · exact hnew.fresh
  · exact h.tagsOk

/-! ### Owned values -/

/-- A value that is about cells in use. -/
def Sound (ρ : Addr → Addr) (s : Store) (v : RCValue) : Prop :=
  ∀ a ∈ valueChildren v, Proper ρ s.next a ∧ (s.counted a = true → a ∈ s.liveCells)

/-- The abstract store `s` owns the values `vs`, its image the images of the values;
there are resources for `m` more cells. -/
structure Twin (A : Allocator) (ρ : Addr → Addr) (m : Nat) (s s' : Store)
    (vs : List RCValue) : Prop where
  image : Image ρ s s'
  counted : ∃ charge, s.Counted charge (vs.flatMap valueChildren)
  proper : ∀ v ∈ vs, ∀ a ∈ valueChildren v, Proper ρ s.next a
  supplied : Supplied A m s'

theorem Twin.sound (h : Twin A ρ m s s' vs) (hv : v ∈ vs) : Sound ρ s v := by
  intro a ha
  refine ⟨h.proper v hv a ha, fun hcounted => ?_⟩
  rcases h.counted with ⟨charge, hcount⟩
  apply hcount.balanced.mem_of_root
  exact List.mem_filter.mpr ⟨List.mem_flatMap.mpr ⟨v, hv, ha⟩, hcounted⟩

theorem Twin.perm (h : Twin A ρ m s s' vs) (hp : vs.Perm ws) : Twin A ρ m s s' ws := by
  rcases h.counted with ⟨charge, hcount⟩
  refine ⟨h.image, ⟨charge, hcount.perm (hp.flatMap_right _)⟩, ?_, h.supplied⟩
  intro v hv
  exact h.proper v (hp.mem_iff.mpr hv)

theorem Twin.wellFormed (h : Twin A ρ m s s' vs) : ∃ charge, s.WellFormed charge := by
  rcases h.counted with ⟨charge, hcount⟩
  exact ⟨charge, hcount.wellFormed⟩

/-- A cell in use can be read. -/
theorem Image.deref_live (h : Image ρ s s') {i : Int}
    (hlive : Addr.heap i ∈ s.liveCells) :
    ∃ c, s.cells.lookup i = some c ∧ RC.deref (.heap i) s = .ok c := by
  rcases mem_liveCells_heap.mp hlive with ⟨⟨c, hc⟩, -⟩
  have hdead : i ∉ s.dead := by
    intro hmem
    rw [h.dead i hmem] at hc
    cases hc
  exact ⟨c, hc, by simp only [RC.deref, derefPure, hdead, hc, if_false]⟩

theorem counted_heap (h : Image ρ s s') {i : Int} (hi : 0 ≤ i) :
    s.counted (.heap i) = true := by
  simp [Store.counted, isUncounted, isStaticAddr, isInline, h.arena i, hi]

/-- The values of a cell in use are about cells in use. -/
theorem Twin.sound_of_deref {c : Cell} (h : Twin A ρ m s s' vs) (ha : Sound ρ s (.box a))
    (hread : deref a s = .ok c) (hv : v ∈ nodeValues c.node) : Sound ρ s v := by
  rcases ha a List.mem_cons_self with ⟨hproper, hlive⟩
  cases a with
  | c p => exact absurd rfl (hproper.notC p)
  | inline tid =>
      simp only [deref] at hread
      cases hname : tagName tid s with
      | error e =>
          rw [hname] at hread
          cases hread
      | ok con =>
          rw [hname] at hread
          cases hread
          cases hv
  | inlineStr bs =>
      cases hread
      cases hv
  | heap i =>
      have hi := (hproper.below i rfl).1
      have hlive := hlive (counted_heap h.image hi)
      rcases h.image.deref_live hlive with ⟨d, hd, hread'⟩
      rw [hread] at hread'
      cases hread'
      intro b hb
      refine ⟨h.image.proper i c hi hd v hv b hb, fun hcounted => ?_⟩
      rcases h.counted with ⟨charge, hcount⟩
      have hkid : b ∈ s.kidsOf (.heap i) := by
        simp only [Store.kidsOf, hd, Option.map_some, Option.getD_some]
        rw [(h.image.plain i c hi hd).cascadeChildren]
        apply List.mem_flatMap.mpr
        refine ⟨v, hv, List.mem_filter.mpr ⟨hb, ?_⟩⟩
        simp only [Store.counted, Bool.and_eq_true] at hcounted
        exact hcounted.1
      have hedge : s.heap.Edge (.heap i) b := ⟨hlive, List.mem_filter.mpr ⟨hkid, hcounted⟩⟩
      exact hcount.balanced.mem_of_edge hedge

/-! ### Another reference -/

theorem Supplied.keeps {k : Nat} (h : Supplied A k s)
    (hobjs : ∀ p, s.objs.lookup p = none → t.objs.lookup p = none) (hnext : t.next = s.next)
    (htags : t.tags = s.tags) : Supplied A k t where
  room := by
    intro u hu
    rcases hu with ⟨ps, hps, hu⟩
    exact h.room u ⟨ps, hps, fun p hp => hu p (hobjs p hp)⟩
  cells := hnext ▸ h.cells
  tags := htags ▸ h.tags

theorem SameNodes.objs_none (h : SameNodes s t) {p : Ptr} (hp : s.objs.lookup p = none) :
    t.objs.lookup p = none := by
  simpa [hp] using h.objs p

theorem Image.incref (h : Image ρ s s') (hp : Proper ρ s.next a) (hrun : RC.incref a s = .ok t) :
    ∃ t', RC.incref (ρ a) s' = .ok t' ∧ Image ρ t t' ∧ SameNodes s' t' := by
  cases a with
  | c p => exact absurd rfl (hp.notC p)
  | inline tid =>
      cases hrun
      rw [h.uncounted _ rfl]
      exact ⟨s', rfl, h, .refl s'⟩
  | inlineStr bs =>
      cases hrun
      rw [h.uncounted _ rfl]
      exact ⟨s', rfl, h, .refl s'⟩
  | heap i =>
      have hi := (hp.below i rfl).1
      have hstatic : isStaticAddr (.heap i) = false := decide_eq_false (not_lt.mpr hi)
      simp only [RC.incref, h.arena i, increfPure, hstatic, if_false, Bool.false_eq_true] at hrun
      cases hc : s.cells.lookup i with
      | none =>
          exfalso
          simp only [derefPure, hc] at hrun
          split at hrun <;> cases hrun
      | some c =>
          have hholds : Holds s (.heap i) c.rc c.bytes c.node := .heap hi hc
          rw [(hholds.deref_heap h.dead).1] at hrun
          cases hrun
          rcases (h.cell i c hi hc).incref (h.arena' _) h.dead' with ⟨t', hrun', hset⟩
          exact ⟨t', hrun', h.setRc hi hc (Nat.succ_pos _) hset, hset.sameNodes⟩

/-- What another reference leaves as it was. -/
structure Dups (s t s' t' : Store) : Prop where
  nodes : SameNodes s t
  nodes' : SameNodes s' t'
  live : t.liveCells = s.liveCells

theorem Dups.refl (s s' : Store) : Dups s s s' s' := ⟨.refl s, .refl s', rfl⟩

theorem SameNodes.trans {u : Store} (h : SameNodes s t) (h' : SameNodes t u) : SameNodes s u where
  rest := by
    rw [h'.rest, h.rest]
  cells := fun i => (h'.cells i).trans (h.cells i)
  objs := fun p => (h'.objs p).trans (h.objs p)

theorem Dups.trans {u u' : Store} (h : Dups s t s' t') (h' : Dups t u t' u') : Dups s u s' u' :=
  ⟨h.nodes.trans h'.nodes, h.nodes'.trans h'.nodes', h'.live.trans h.live⟩

theorem Dups.next (h : Dups s t s' t') : t.next = s.next := by
  rw [h.nodes.rest]

theorem Dups.sound (h : Dups s t s' t') (hv : Sound ρ s v) : Sound ρ t v := by
  intro b hb
  have hcounted : t.counted b = s.counted b := by
    rw [h.nodes.rest]
    rfl
  rw [h.next, hcounted, h.live]
  exact hv b hb

/-- Both stores take another reference to a value and its image. -/
theorem Twin.dup (h : Twin A ρ m s s' vs) (hv : Sound ρ s v) :
    ∃ t t', dupValue v s = .ok t ∧ dupValue (v.mapAddr ρ) s' = .ok t' ∧
      Twin A ρ m t t' (v :: vs) ∧ Dups s t s' t' := by
  have hchildren := valueChildren_mapAddr ρ v
  unfold dupValue
  rw [hchildren]
  rcases h.counted with ⟨charge, hcount⟩
  have hcases : valueChildren v = [] ∨ ∃ a, valueChildren v = [a] := by
    cases v <;> first | exact .inl rfl | exact .inr ⟨_, rfl⟩
  rcases hcases with hnil | ⟨a, ha⟩
  · rw [hnil]
    refine ⟨s, s', rfl, rfl, ⟨h.image, ⟨charge, ?_⟩, ?_, h.supplied⟩, .refl s s'⟩
    · rwa [List.flatMap_cons, hnil]
    · intro w hw b hb
      rcases List.mem_cons.mp hw with rfl | hw
      · rw [hnil] at hb
        cases hb
      · exact h.proper w hw b hb
  · have hsound := hv a (ha ▸ List.mem_cons_self)
    rcases hcount.incref hsound.2 with ⟨t, hrun, hcount', ⟨-, hlive⟩, hnodes⟩
    rcases h.image.incref hsound.1 hrun with ⟨t', hrun', himage, hnodes'⟩
    have hnext : t.next = s.next := by rw [hnodes.rest]
    refine ⟨t, t', ?_, ?_, ⟨himage, ⟨charge, ?_⟩, ?_, ?_⟩, hnodes, hnodes', hlive⟩
    · rw [ha]
      change (RC.incref a s >>= _) = _
      rw [hrun]
      rfl
    · rw [ha]
      change (RC.incref (ρ a) s' >>= _) = _
      rw [hrun']
      rfl
    · rwa [List.flatMap_cons, ha]
    · intro w hw b hb
      rw [hnext]
      rcases List.mem_cons.mp hw with rfl | hw
      · exact (hv b hb).1
      · exact h.proper w hw b hb
    · exact h.supplied.keeps (fun p hp => hnodes'.objs_none hp) (by rw [hnodes'.rest])
        (by rw [hnodes'.rest])

end Wok.Interp.RC
