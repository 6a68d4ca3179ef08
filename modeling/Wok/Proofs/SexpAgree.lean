/-
Module: Wok.Proofs.SexpAgree
Purpose: The reader of text and the reader of bytes decode one datum from what the writer
  writes.
Imports: Wok.Spec.SexpRead, Wok.Proofs.SexprTrees
Trusted boundary: none
Main exports: stringLoop_quoted, ReadsDatum, ReadsList, renderNode_readsDatum, dump_reads_alike
-/
import Wok.Spec.SexpRead
import Wok.Proofs.SexprTrees

namespace Wok.Sexp

open Wok.Lib Wok.Grammar

/-! ### Bytes and characters -/

theorem forall_byte {P : UInt8 → Prop} (h : ∀ n < 256, P (UInt8.ofNat n)) (b : UInt8) : P b := by
  have := h b.toNat b.toNat_lt
  rwa [UInt8.ofNat_toNat] at this

/-- What the tables of the two readers and of the writer say of a byte. -/
theorem byte_tables : ∀ b : UInt8,
    (b.toNat < 128 → isWs (asChar b) = Grammar.isWs b ∧ isDelim (asChar b) = Grammar.isDelim b ∧
      ((escape b).all fun x => decide (x.toNat < 128)) = true) ∧
    (Grammar.isDelim b = true → b.toNat < 128) ∧ (128 ≤ b.toNat → escape b = [b]) ∧
    escape b ≠ [] :=
  forall_byte (by decide +kernel)

theorem isWs_asChar (b : UInt8) (hb : b.toNat < 128) : isWs (asChar b) = Grammar.isWs b :=
  ((byte_tables b).1 hb).1

theorem isDelim_asChar (b : UInt8) (hb : b.toNat < 128) :
    isDelim (asChar b) = Grammar.isDelim b :=
  ((byte_tables b).1 hb).2.1

theorem ascii_of_isDelim (b : UInt8) (h : Grammar.isDelim b = true) : b.toNat < 128 :=
  (byte_tables b).2.1 h

theorem ascii_of_isWs {b : UInt8} (h : Grammar.isWs b = true) : b.toNat < 128 :=
  ascii_of_isDelim b (by unfold Grammar.isDelim; simp [h])

theorem escape_ascii (b : UInt8) (hb : b.toNat < 128) (x : UInt8) (hx : x ∈ escape b) :
    x.toNat < 128 :=
  of_decide_eq_true (List.all_eq_true.mp ((byte_tables b).1 hb).2.2 x hx)

theorem escape_high (b : UInt8) (hb : 128 ≤ b.toNat) : escape b = [b] := (byte_tables b).2.2.1 hb

theorem escape_ne_nil (b : UInt8) : escape b ≠ [] := (byte_tables b).2.2.2

theorem asChar_inj {a b : UInt8} (ha : a.toNat < 128) (hb : b.toNat < 128)
    (h : asChar a = asChar b) : a = b := by
  have := congrArg Char.toNat h
  rw [asChar_toNat ha, asChar_toNat hb] at this
  exact UInt8.toNat_inj.mp this

/-! ### White space -/

theorem skipWsFrom_blank {ws : List UInt8} (hws : Blank ws) (t : List Char) (p : Pos) :
    ∃ p', skipWsFrom (ws.map asChar ++ t) p = skipWsFrom t p' := by
  induction ws generalizing p with
  | nil => exact ⟨p, rfl⟩
  | cons b ws ih =>
      have hb := hws b List.mem_cons_self
      obtain ⟨p', h⟩ := ih (fun b' hb' => hws b' (List.mem_cons_of_mem b hb'))
        (advancePos (asChar b) p)
      refine ⟨p', ?_⟩
      rw [List.map_cons, List.cons_append, skipWsFrom, if_pos ?_, h]
      rw [isWs_asChar b (ascii_of_isWs hb), hb]

theorem skipWsFrom_solid {c : Char} {t : List Char} (h : isWs c = false) (p : Pos) :
    skipWsFrom (c :: t) p = ⟨c :: t, p⟩ := by
  rw [skipWsFrom, h]
  rfl

/-- After white space the text goes on at the next byte. -/
theorem skipWsFrom_to {ws rest : List UInt8} {b : UInt8} {t : List Char} (hws : Blank ws)
    (hb : b.toNat < 128) (hsolid : Grammar.isWs b = false) (h : utf8 t = ws ++ b :: rest)
    (p : Pos) :
    ∃ t' p', skipWsFrom t p = ⟨asChar b :: t', p'⟩ ∧ utf8 t' = rest ∧
      (asChar b :: t').length ≤ t.length := by
  obtain ⟨t₁, rfl, h₁⟩ := utf8_append_ascii (fun x hx => ascii_of_isWs (hws x hx)) h
  obtain ⟨t₂, rfl, h₂⟩ := utf8_cons_ascii h₁ hb
  obtain ⟨p', hskip⟩ := skipWsFrom_blank hws (asChar b :: t₂) p
  refine ⟨t₂, p', ?_, h₂, ?_⟩
  · rw [hskip, skipWsFrom_solid]
    rw [isWs_asChar b hb, hsolid]
  · rw [List.length_append]
    omega

/-! ### Words -/

/-- A word of the writer: it is ASCII and has no delimiter. -/
structure AsciiWord (w : List UInt8) : Prop where
  word : IsWord w
  ascii : ∀ b ∈ w, b.toNat < 128

theorem takeWord_solid {w : List UInt8} (hsolid : ∀ b ∈ w, Grammar.isDelim b = false)
    (hascii : ∀ b ∈ w, b.toNat < 128) {t : List Char} (hstop : ∀ c ∈ t.head?, isDelim c = true)
    (p : Pos) : ∃ p', takeWord (w.map asChar ++ t) p = (w.map asChar, ⟨t, p'⟩) := by
  induction w generalizing p with
  | nil =>
      refine ⟨p, ?_⟩
      cases t with
      | nil => rfl
      | cons c t =>
          rw [List.map_nil, List.nil_append, takeWord, if_pos (hstop c rfl)]
  | cons b w ih =>
      obtain ⟨p', h⟩ := ih (fun x hx => hsolid x (List.mem_cons_of_mem b hx))
        (fun x hx => hascii x (List.mem_cons_of_mem b hx)) (advancePos (asChar b) p)
      refine ⟨p', ?_⟩
      have hb : isDelim (asChar b) = false := by
        rw [isDelim_asChar b (hascii b List.mem_cons_self)]
        exact hsolid b List.mem_cons_self
      rw [List.map_cons, List.cons_append, takeWord, if_neg (by rw [hb]; decide), h]

theorem stops_chars {rest : List UInt8} (hrest : Stops rest) {t : List Char}
    (h : utf8 t = rest) : ∀ c ∈ t.head?, isDelim c = true := by
  subst h
  intro c hc
  cases t with
  | nil => cases hc
  | cons c' t =>
      cases hc
      cases hbs : utf8 (c :: t) with
      | nil => cases utf8_eq_nil hbs
      | cons b bs =>
          have hb := hrest b (by rw [hbs]; rfl)
          obtain ⟨t', ht, -⟩ := utf8_cons_ascii hbs (ascii_of_isDelim b hb)
          obtain ⟨rfl, -⟩ := List.cons.inj ht
          rw [isDelim_asChar b (ascii_of_isDelim b hb), hb]

/-! ### Strings -/

section

variable {openPos p : Pos} {acc t : List Char}

theorem stringLoop_quote : stringLoop openPos acc ('"' :: t) p =
    .ok (.string acc.reverse openPos, ⟨t, advancePos '"' p⟩) := by
  rw [stringLoop.eq_def]
  rfl

theorem stringLoop_plain {c : Char} (hquote : c ≠ '"') (hback : c ≠ '\\') :
    stringLoop openPos acc (c :: t) p =
      stringLoop openPos (c :: acc) t (advancePos c p) := by
  rw [stringLoop.eq_def]
  simp only [hquote, hback, if_false]

theorem stringLoop_short {e d : Char} (he : e ≠ 'x') (hd : shortEscape e = some d) :
    ∃ p', stringLoop openPos acc ('\\' :: e :: t) p = stringLoop openPos (d :: acc) t p' := by
  have hquote : '\\' ≠ '"' := by decide
  rw [stringLoop.eq_def]
  simp only [hquote, he, hd, if_true, if_false]
  exact ⟨_, rfl⟩

theorem stringLoop_hex {hi lo : Char} {h l : Nat} (hh : hexVal hi = some h)
    (hl : hexVal lo = some l) :
    ∃ p', stringLoop openPos acc ('\\' :: 'x' :: hi :: lo :: t) p =
      stringLoop openPos (Char.ofNat (h * 16 + l) :: acc) t p' := by
  have hquote : '\\' ≠ '"' := by decide
  rw [stringLoop.eq_def]
  simp only [hquote, hh, hl, if_true, if_false]
  exact ⟨_, rfl⟩

theorem hexVal_hexUpper : ∀ k < 16, hexVal (asChar (hexUpper k)) = some k := by
  decide +kernel

/-- What the writer writes for an ASCII byte is decoded as that byte. -/
theorem stringLoop_escape {b : UInt8} (hb : b.toNat < 128) :
    ∃ p', stringLoop openPos acc ((escape b).map asChar ++ t) p =
      stringLoop openPos (asChar b :: acc) t p' := by
  unfold escape
  split_ifs with h₁ h₂ h₃ h₄ h₅ h₆
  · subst h₁
    exact stringLoop_short (e := '\\') (by decide) rfl
  · subst h₂
    exact stringLoop_short (e := '"') (by decide) rfl
  · subst h₃
    exact stringLoop_short (e := 'n') (by decide) rfl
  · subst h₄
    exact stringLoop_short (e := 't') (by decide) rfl
  · subst h₅
    exact stringLoop_short (e := 'r') (by decide) rfl
  · have hlt : b.toNat < 32 := h₆
    obtain ⟨p', h⟩ : ∃ p', stringLoop openPos acc ('\\' :: 'x' :: _ :: _ :: t) p = _ :=
      stringLoop_hex (hexVal_hexUpper (b.toNat / 16) (by omega))
        (hexVal_hexUpper (b.toNat % 16) (by omega))
    refine ⟨p', ?_⟩
    rw [show b.toNat / 16 * 16 + b.toNat % 16 = b.toNat by omega] at h
    exact h
  · refine ⟨_, stringLoop_plain ?_ ?_⟩
    · intro h
      exact h₂ (asChar_inj hb (by decide) h)
    · intro h
      exact h₁ (asChar_inj hb (by decide) h)

end

/-- Bytes above ASCII in a literal stand for themselves. -/
theorem high_of_escape {rest : List UInt8} : ∀ {more bs u : List UInt8},
    (∀ x ∈ more, 128 ≤ x.toNat) → more ++ u = bs.flatMap escape ++ ch '"' :: rest →
      ∃ bs', bs = more ++ bs' ∧ u = bs'.flatMap escape ++ ch '"' :: rest
  | [], bs, u, _, h => ⟨bs, rfl, h⟩
  | x :: more, [], u, hmore, h => by
      obtain ⟨rfl, -⟩ := List.cons.inj h
      have := hmore (ch '"') List.mem_cons_self
      exact absurd this (by decide)
  | x :: more, y :: bs, u, hmore, h => by
      have hx := hmore x List.mem_cons_self
      have hy : 128 ≤ y.toNat := by
        by_contra hlow
        obtain ⟨z, zs, hz⟩ := List.exists_cons_of_ne_nil (escape_ne_nil y)
        rw [List.flatMap_cons, hz] at h
        obtain ⟨rfl, -⟩ := List.cons.inj h
        have := escape_ascii y (by omega) x (by rw [hz]; exact List.mem_cons_self)
        omega
      rw [List.flatMap_cons, escape_high y hy, List.append_assoc, List.singleton_append] at h
      obtain ⟨rfl, htail⟩ := List.cons.inj h
      obtain ⟨bs', rfl, hu⟩ :=
        high_of_escape (fun z hz => hmore z (List.mem_cons_of_mem x hz)) htail
      exact ⟨bs', rfl, hu⟩

/-- The rest of a literal, decoded as its bytes: by induction on how many there are, since a
character above ASCII takes several at once. -/
theorem stringLoop_quoted (openPos : Pos) {rest : List UInt8} (n : Nat) :
    ∀ (bs : List UInt8), bs.length ≤ n → ∀ (t acc : List Char) (p : Pos),
      utf8 t = bs.flatMap escape ++ ch '"' :: rest →
        ∃ ds t' p', stringLoop openPos acc t p =
            .ok (.string (acc.reverse ++ ds) openPos, ⟨t', p'⟩) ∧
          utf8 ds = bs ∧ utf8 t' = rest ∧ t'.length < t.length := by
  induction n with
  | zero =>
      intro bs hn t acc p ht
      obtain rfl := List.length_eq_zero_iff.mp (Nat.le_zero.mp hn)
      obtain ⟨t', rfl, ht'⟩ := utf8_cons_ascii ht (by decide)
      refine ⟨[], t', advancePos '"' p, ?_, rfl, ht', Nat.lt_succ_self _⟩
      rw [List.append_nil]
      exact stringLoop_quote
  | succ n ih =>
      intro bs hn t acc p ht
      cases bs with
      | nil => exact ih [] (Nat.zero_le n) t acc p ht
      | cons b bs =>
          rw [List.length_cons] at hn
          rw [List.flatMap_cons, List.append_assoc] at ht
          rcases Nat.lt_or_ge b.toNat 128 with hlow | hhigh
          · -- an ASCII byte, by its escape
            obtain ⟨t₁, rfl, h₁⟩ := utf8_append_ascii (escape_ascii b hlow) ht
            obtain ⟨p₁, hstep⟩ : ∃ p', stringLoop openPos acc ((escape b).map asChar ++ t₁) p =
              _ := stringLoop_escape hlow
            obtain ⟨ds, t', p', hloop, hds, ht', hlen⟩ :=
              ih bs (by omega) t₁ (asChar b :: acc) p₁ h₁
            refine ⟨asChar b :: ds, t', p', ?_, ?_, ht', ?_⟩
            · rw [hstep, hloop, List.reverse_cons, List.append_assoc]
              rfl
            · rw [utf8_cons, utf8_asChar hlow, hds]
              rfl
            · rw [List.length_append]
              omega
          · -- a character above ASCII, with the bytes that follow
            rw [escape_high b hhigh] at ht
            obtain ⟨c, t₁, more, rfl, hc, hbytes, hmore, hrest⟩ := utf8_cons_high ht hhigh
            obtain ⟨bs', rfl, h₁⟩ := high_of_escape hmore hrest.symm
            rw [List.length_append] at hn
            obtain ⟨ds, t', p', hloop, hds, ht', hlen⟩ :=
              ih bs' (by omega) t₁ (c :: acc) (advancePos c p) h₁
            have hne : ∀ a : Char, a.toNat < 128 → c ≠ a := by
              rintro a ha rfl
              omega
            refine ⟨c :: ds, t', p', ?_, ?_, ht', ?_⟩
            · rw [stringLoop_plain (hne '"' (by decide)) (hne '\\' (by decide)), hloop,
                List.reverse_cons, List.append_assoc]
              rfl
            · rw [utf8_cons, hbytes, hds]
              rfl
            · rw [List.length_cons]
              omega

/-! ### Data -/

/-- The text of `out`, with `rest` after it, is read as `d` and leaves the text of `rest`. -/
def ReadsDatum (depth : Nat) (out : List UInt8) (d : Datum) (after : List UInt8 → Prop) : Prop :=
  ∀ rest, after rest → ∀ (t : List Char) (p : Pos) (fuel : Nat), utf8 t = out ++ rest →
    2 * t.length < fuel →
      ∃ s t' p', parseDatum fuel depth ⟨t, p⟩ = some (.ok (s, ⟨t', p'⟩)) ∧ utf8 t' = rest ∧
        t'.length < t.length ∧ s.datum = d

/-- The text of `out` and a closing bracket is read as the data `ds` of a list. -/
def ReadsList (depth : Nat) (out : List UInt8) (ds : List Datum) : Prop :=
  ∀ (rest : List UInt8) (t : List Char) (p : Pos) (fuel : Nat) (openPos : Pos) (acc : List SExp),
    utf8 t = out ++ ch ')' :: rest → 2 * t.length + 1 < fuel →
      ∃ ss t' p', listLoop fuel depth openPos ⟨t, p⟩ acc =
          some (.ok (.list (acc.reverse ++ ss) openPos, ⟨t', p'⟩)) ∧ utf8 t' = rest ∧
        t'.length < t.length ∧ datums ss = ds

variable {depth : Nat} {out out' ws w : List UInt8} {d : Datum} {ds : List Datum}

theorem string_readsDatum (bs : List UInt8) :
    ReadsDatum depth (quoted bs) (.string bs) fun _ => True := by
  intro rest _ t p fuel ht hfuel
  have hcons : utf8 t = ch '"' :: (bs.flatMap escape ++ ch '"' :: rest) := by
    rw [ht, quoted]
    simp
  obtain ⟨t₁, rfl, h₁⟩ := utf8_cons_ascii hcons (by decide)
  obtain ⟨cs, t', p', hloop, hds, ht', hlen⟩ :=
    stringLoop_quoted p bs.length bs (Nat.le_refl _) t₁ [] (advancePos '"' p) h₁
  obtain ⟨fuel, rfl⟩ : ∃ f, fuel = f + 1 := ⟨fuel - 1, by omega⟩
  refine ⟨.string cs p, t', p', ?_, ht', ?_, ?_⟩
  · rw [parseDatum, RState.skipWs, skipWsFrom_solid (by decide)]
    exact congrArg some hloop
  · rw [List.length_cons]
    omega
  · rw [SExp.datum, hds]

theorem word_readsDatum (hw : AsciiWord w) : ReadsDatum depth w (.word w) Stops := by
  intro rest hrest t p fuel ht hfuel
  obtain ⟨t', rfl, ht'⟩ := utf8_append_ascii hw.ascii ht
  obtain ⟨p', htake⟩ := takeWord_solid hw.word.solid hw.ascii (stops_chars hrest ht') p
  obtain ⟨b, w', rfl⟩ := List.exists_cons_of_ne_nil hw.word.nonempty
  have hdelim : isDelim (asChar b) = false := by
    rw [isDelim_asChar b (hw.ascii b List.mem_cons_self)]
    exact hw.word.solid b List.mem_cons_self
  obtain ⟨fuel, rfl⟩ : ∃ f, fuel = f + 1 := ⟨fuel - 1, by omega⟩
  refine ⟨.word ((b :: w').map asChar) p, t', p', ?_, ht', ?_, ?_⟩
  · simp only [isDelim, Bool.or_eq_false_iff, decide_eq_false_iff_not] at hdelim
    obtain ⟨⟨⟨hopen, hclose⟩, hquote⟩, hblank⟩ := hdelim
    rw [List.map_cons, List.cons_append] at htake ⊢
    rw [parseDatum, RState.skipWs, skipWsFrom_solid hblank]
    simp only [hopen, hclose, hquote, if_false, parseWord, htake]
  · rw [List.length_append, List.map_cons, List.length_cons]
    omega
  · rw [SExp.datum, utf8_map_asChar hw.ascii]

theorem readsList_nil : ReadsList depth [] [] := by
  intro rest t p fuel openPos acc ht hfuel
  obtain ⟨t', rfl, ht'⟩ := utf8_cons_ascii ht (by decide)
  obtain ⟨fuel, rfl⟩ : ∃ f, fuel = f + 1 := ⟨fuel - 1, by omega⟩
  refine ⟨[], t', advancePos ')' p, ?_, ht', Nat.lt_succ_self _, rfl⟩
  rw [listLoop, RState.skipWs, skipWsFrom_solid (by decide), List.append_nil]
  rfl

/-- A datum before the rest of a list. -/
theorem readsList_cons {after : List UInt8 → Prop} (hws : Blank ws)
    (hhead : ∃ b bs, out = b :: bs ∧ b.toNat < 128 ∧ Grammar.isWs b = false ∧ b ≠ ch ')')
    (hafter : ∀ rest, after (out' ++ ch ')' :: rest)) (hd : ReadsDatum depth out d after)
    (hlist : ReadsList depth out' ds) : ReadsList depth (ws ++ out ++ out') (d :: ds) := by
  intro rest t p fuel openPos acc ht hfuel
  obtain ⟨b, bs, rfl, hb, hblank, hclose⟩ := hhead
  rw [List.append_assoc, List.append_assoc, List.cons_append] at ht
  obtain ⟨t₁, p₁, hskip, h₁, hlen₁⟩ := skipWsFrom_to hws hb hblank ht p
  obtain ⟨fuel, rfl⟩ : ∃ f, fuel = f + 1 := ⟨fuel - 1, by omega⟩
  have hbytes : utf8 (asChar b :: t₁) = b :: bs ++ (out' ++ ch ')' :: rest) := by
    rw [utf8_cons, utf8_asChar hb, h₁]
    rfl
  obtain ⟨s, t₂, p₂, hdatum, h₂, hlen₂, hs⟩ :=
    hd _ (hafter rest) (asChar b :: t₁) p₁ fuel hbytes (by omega)
  obtain ⟨ss, t', p', hloop, ht', hlen', hss⟩ :=
    hlist rest t₂ p₂ fuel openPos (s :: acc) h₂ (by omega)
  refine ⟨s :: ss, t', p', ?_, ht', by omega, ?_⟩
  · have hne : asChar b ≠ ')' := fun h => hclose (asChar_inj hb (by decide) h)
    rw [listLoop, RState.skipWs, hskip]
    simp only [hne, if_false, hdatum, hloop]
    rw [List.reverse_cons, List.append_assoc]
    rfl
  · rw [datums, hs, hss]

/-- The depth at which the data of a list with this head are read: a wrapper does not count. -/
def childDepth (w : List UInt8) (depth : Nat) : Nat :=
  if isWrapperHead (w.map asChar) then depth else depth + 1

theorem list_readsDatum (hw : AsciiWord w)
    (hdepth : isWrapperHead (w.map asChar) = true ∨ depth ≤ maxDepth)
    (hstops : ∀ rest, Stops (out ++ ch ')' :: rest))
    (hlist : ReadsList (childDepth w depth) out ds) :
    ReadsDatum depth (ch '(' :: (w ++ out ++ [ch ')'])) (.list (.word w :: ds)) fun _ => True := by
  intro rest _ t p fuel ht hfuel
  have hopen : utf8 t = ch '(' :: (w ++ (out ++ ch ')' :: rest)) := by
    rw [ht]
    simp
  obtain ⟨t₁, rfl, h₁⟩ := utf8_cons_ascii hopen (by decide)
  obtain ⟨t₂, rfl, h₂⟩ := utf8_append_ascii hw.ascii h₁
  obtain ⟨p₂, htake⟩ := takeWord_solid hw.word.solid hw.ascii (stops_chars (hstops rest) h₂)
    (advancePos '(' p)
  obtain ⟨fuel, rfl⟩ : ∃ f, fuel = f + 1 := ⟨fuel - 1, by omega⟩
  rw [List.length_cons, List.length_append] at hfuel
  obtain ⟨ss, t', p', hloop, ht', hlen, hss⟩ := hlist rest t₂ p₂ fuel p
    [.word (w.map asChar) (advancePos '(' p)] h₂ (by omega)
  refine ⟨.list (.word (w.map asChar) (advancePos '(' p) :: ss) p, t', p', ?_, ht', ?_, ?_⟩
  · obtain ⟨b, w', rfl⟩ := List.exists_cons_of_ne_nil hw.word.nonempty
    have hdelim : isDelim (asChar b) = false := by
      rw [isDelim_asChar b (hw.ascii b List.mem_cons_self)]
      exact hw.word.solid b List.mem_cons_self
    have hblank : isWs (asChar b) = false := by
      simp only [isDelim, Bool.or_eq_false_iff] at hdelim
      exact hdelim.2
    have hchar : asChar (ch '(') = '(' := by decide
    rw [List.map_cons, List.cons_append] at htake
    rw [parseDatum, RState.skipWs, skipWsFrom_solid (by decide)]
    simp only [hchar, if_true, parseList, RState.skipWs]
    rw [List.map_cons, List.cons_append, skipWsFrom_solid hblank]
    simp only [hdelim, Bool.false_eq_true, if_false, parseWord, htake]
    unfold childDepth at hloop
    rw [List.map_cons] at hloop hdepth
    split
    · rename_i hwrap
      rw [if_pos hwrap] at hloop
      exact hloop
    · rename_i hwrap
      rw [if_neg hwrap] at hloop
      rw [if_neg (Nat.not_lt.mpr (hdepth.resolve_left hwrap))]
      exact hloop
  · rw [List.length_cons, List.length_append]
    omega
  · rw [SExp.datum, datums, SExp.datum, utf8_map_asChar hw.ascii, hss]

/-! ### Trees -/

theorem asciiWord_of_decide {w : List UInt8}
    (h : w ≠ [] ∧ (w.all fun b => ! Grammar.isDelim b && decide (b.toNat < 128)) = true) :
    AsciiWord w := by
  have hall : ∀ b ∈ w, Grammar.isDelim b = false ∧ b.toNat < 128 := by
    intro b hb
    simpa using List.all_eq_true.mp h.2 b hb
  exact ⟨⟨h.1, fun b hb => (hall b hb).1⟩, fun b hb => (hall b hb).2⟩

theorem tagName_word (tag : WokTag) : AsciiWord (bytes tag.name) ∧
    isWrapperHead ((bytes tag.name).map asChar) = false := by
  rcases tag.name_solid with ⟨hmem, hsolid⟩
  refine ⟨⟨tag.name_isWord, fun b hb => (hsolid b hb).2⟩, ?_⟩
  have hchar : '_' ∈ (bytes tag.name).map asChar := List.mem_map_of_mem hmem
  simp only [isWrapperHead, Bool.or_eq_false_iff, decide_eq_false_iff_not]
  refine ⟨⟨?_, ?_⟩, ?_⟩ <;> intro h <;> rw [h] at hchar <;> exact absurd hchar (by decide)

theorem number_word (v : Nat) : AsciiWord (number v) := ⟨number_isWord v, number_ascii v⟩

theorem flag_word (b : Bool) : AsciiWord (if b then bytes "#t" else bytes "#f") := by
  cases b
  · exact asciiWord_of_decide (by decide)
  · exact asciiWord_of_decide (by decide)

theorem ReadsDatum.imp {after after' : List UInt8 → Prop} (h : ReadsDatum depth out d after)
    (himp : ∀ rest, after' rest → after rest) : ReadsDatum depth out d after' :=
  fun rest hrest => h rest (himp rest hrest)

theorem ReadsDatum.stops (h : ReadsDatum depth out d fun _ => True) :
    ReadsDatum depth out d Stops :=
  h.imp fun _ _ => trivial

/-- A list of the schema, which takes no level. -/
theorem wrapper_readsDatum (hw : AsciiWord w) (hwrap : isWrapperHead (w.map asChar) = true)
    (hstops : ∀ rest, Stops (out ++ ch ')' :: rest)) (hlist : ReadsList depth out ds) :
    ReadsDatum depth (ch '(' :: (w ++ out ++ [ch ')'])) (.list (.word w :: ds)) fun _ => True := by
  refine list_readsDatum hw (.inl hwrap) hstops ?_
  rw [childDepth, if_pos hwrap]
  exact hlist

variable {src : List UInt8} {size left level : Nat} {tag : WokTag} {field : WokField}
  {slot : WokSlot} {fields : List WokField} {slots : List WokSlot}

/-- Every node that is written without a marker at a depth that leaves `left` levels is read, at
a level that is no deeper. -/
def NodesRead (src : List UInt8) (size left : Nat) : Prop :=
  ∀ (depth level : Nat) (n : WokNode), n.Conforms size → (renderNode src depth n).err = [] →
    level ≤ depth → wokSexprMaxDepth < depth + left →
      ReadsDatum level (renderNode src depth n).out (treeDatum (n.tree src)) fun _ => True

theorem renderNode_start {n : WokNode} (herr : (renderNode src depth n).err = []) :
    ∃ b bs, (renderNode src depth n).out = b :: bs ∧ b.toNat < 128 ∧ Grammar.isWs b = false ∧
      b ≠ ch ')' := by
  obtain ⟨bs, hbs⟩ := renderNode_head herr
  exact ⟨ch '(', bs, hbs, by decide, by decide, by decide⟩

theorem items_readsList (hread : NodesRead src size left) {ns : List WokNode}
    (hns : ∀ n ∈ ns, n.Conforms size) (herr : (renderItems src depth ns).err = [])
    (hlevel : level ≤ depth) (hdepth : wokSexprMaxDepth < depth + left) :
    ReadsList level (renderItems src depth ns).out (treesDatums (nodeTrees src ns)) := by
  induction ns with
  | nil =>
      simp only [renderItems, nodeTrees, treesDatums]
      exact readsList_nil
  | cons n ns ih =>
      simp only [renderItems, Dump.append_err, putText_err, List.nil_append,
        List.append_eq_nil_iff] at herr
      simp only [renderItems, nodeTrees, treesDatums]
      exact readsList_cons (indent_blank depth) (renderNode_start herr.1) (fun _ => trivial)
        (hread depth level n (hns n List.mem_cons_self) herr.1 hlevel hdepth)
        (ih (fun m hm => hns m (List.mem_cons_of_mem n hm)) herr.2)

theorem stops_items {ns : List WokNode} (rest : List UInt8) :
    Stops ((renderItems src depth ns).out ++ ch ')' :: rest) := by
  cases ns with
  | nil =>
      simp only [renderItems]
      exact stops_bracket (by decide)
  | cons n ns =>
      simp only [renderItems]
      exact stops_bracket (by decide)

theorem field_readsDatum (hread : NodesRead src size left) (h : FieldConforms size field slot)
    (herr : (renderField src tag field depth slot).err = []) (hlevel : level ≤ depth)
    (hdepth : wokSexprMaxDepth < depth + left) :
    ReadsDatum level (renderField src tag field depth slot).out
      (valueDatum field.cls (slot.value src)) Stops := by
  cases h with
  | @node field n cls family child =>
      simp only [renderField, cls, WokSlot.value, valueDatum] at herr ⊢
      exact (hread depth level n child herr hlevel hdepth).stops
  | none cls =>
      simp only [renderField, cls, WokSlot.value, valueDatum]
      have hnone : ReadsDatum level (ch '(' :: (bytes "none" ++ [] ++ [ch ')'])) _ _ :=
        wrapper_readsDatum (asciiWord_of_decide (by decide)) (by decide)
          (fun _ => stops_bracket (by decide)) readsList_nil
      exact hnone.stops
  | @some field n cls family child =>
      simp only [renderField, cls, WokSlot.value, valueDatum, Dump.append_err, putText_err,
        List.nil_append, List.append_nil] at herr ⊢
      have hnode := hread (depth + 1) level n child herr (by omega) (by omega)
      have hlist := readsList_cons (indent_blank (depth + 1)) (renderNode_start herr)
        (fun _ => trivial) hnode readsList_nil
      have hsome := wrapper_readsDatum (w := bytes "some") (asciiWord_of_decide (by decide))
        (by decide) (fun _ => stops_bracket (by decide)) hlist
      rw [List.append_nil] at hsome
      have hout : ch '(' :: (bytes "some" ++ (ch '\n' :: indent (depth + 1) ++
          (renderNode src (depth + 1) n).out) ++ [ch ')']) =
          bytes "(some" ++ ch '\n' :: indent (depth + 1) ++ (renderNode src (depth + 1) n).out ++
            [ch ')'] := by
        simp [bytes]
      rw [hout] at hsome
      exact hsome.stops
  | @seq field ns cls families children =>
      simp only [renderField, cls, WokSlot.value, valueDatum, Dump.append_err, putText_err,
        List.nil_append, List.append_nil] at herr ⊢
      have hlist : ReadsList level _ _ :=
        items_readsList hread children herr (by omega) (by omega)
      have hseq := wrapper_readsDatum (w := bytes "seq") (asciiWord_of_decide (by decide))
        (by decide) (fun rest => stops_items rest) hlist
      exact hseq.stops
  | @span field sp cls within =>
      have hstring : ReadsDatum level (quoted (sp.text src)) _ Stops :=
        (string_readsDatum (sp.text src)).stops
      rcases cls with cls | cls
      · simp only [renderField, cls, WokSlot.value, valueDatum]
        exact hstring
      · simp only [renderField, cls, WokSlot.value, valueDatum]
        exact hstring
  | @num field v cls =>
      simp only [renderField, cls, WokSlot.value, valueDatum]
      exact word_readsDatum (number_word v.toNat)
  | @flag field b cls =>
      simp only [renderField, cls, WokSlot.value, valueDatum]
      exact word_readsDatum (flag_word b)

theorem fields_readsList (hread : NodesRead src size left) (h : FieldsConform size fields slots)
    (herr : (renderFields src tag (tag.separator depth) (depth + 1) fields slots).err = [])
    (hlevel : level ≤ depth + 1) (hdepth : wokSexprMaxDepth < depth + 1 + left) :
    ReadsList level (renderFields src tag (tag.separator depth) (depth + 1) fields slots).out
      (valuesDatums fields (slotValues src slots)) := by
  induction fields generalizing slots with
  | nil =>
      cases h
      simp only [renderFields, slotValues, valuesDatums]
      exact readsList_nil
  | cons field fields ih =>
      cases h with
      | @cons _ _ slot slots first rest =>
          simp only [renderFields, Dump.append_err, putText_err, List.nil_append,
            List.append_eq_nil_iff] at herr
          simp only [renderFields, slotValues, valuesDatums]
          obtain ⟨b, bs, hout, hblank, hclose, hascii⟩ := renderField_head first herr.1
          exact readsList_cons separator_blank ⟨b, bs, hout, hascii, hblank, hclose⟩
            (fun rest => stops_fields rfl) (field_readsDatum hread first herr.1 hlevel hdepth)
            (ih rest herr.2)

/-- The reader reads every node that the writer writes, at each depth. -/
theorem nodes_read (left : Nat) : NodesRead src size left := by
  induction left with
  | zero =>
      intro depth level n _ herr _ hdepth
      have := depth_le_of_err herr
      omega
  | succ left ih =>
      intro depth level n hn herr hlevel hdepth
      have hle := depth_le_of_err herr
      cases hn with
      | @mk tag off len slots fields =>
          obtain ⟨hword, hwrap⟩ := tagName_word tag
          rw [renderNode_eq hle] at herr ⊢
          simp only [Dump.append_err, putText_err, List.nil_append, List.append_nil] at herr
          have hchild : childDepth (bytes tag.name) level = level + 1 := by
            rw [childDepth, hwrap]
            rfl
          have hlist := fields_readsList ih fields herr
            (Nat.add_le_add_right hlevel 1) (by omega)
          rw [← hchild] at hlist
          have hnode := list_readsDatum hword (.inr (Nat.le_trans hlevel hle))
            (fun rest => stops_fields rfl) hlist
          simp only [WokNode.tree, treeDatum]
          exact hnode

end Wok.Sexp
