/-
Module: Wok.Proofs.Scan
Purpose: Every source is cut into segments by the scanner; offsets, columns and the order of
  spans are right as far as 32 bits hold them, and line flags as long as a literal with a
  newline in it stands first on its line.
Imports: Wok.Proofs.Utf8Search, Wok.Spec.Scan
Trusted boundary: none
Main exports: At, FlagLaw, Cuts, wokScan_segmented, first_on_line_iff, literal_opens_line,
  well_scanned_iff, long_source_misplaced
-/
import Mathlib.Data.List.Pairwise
import Wok.Proofs.Utf8Search
import Wok.Spec.Scan

namespace Wok.Grammar.Scan

open Wok.Grammar.Trivia (WokComment)

/-! ### The cursor -/

theorem columnAfter_snoc (pre : List UInt8) (b : UInt8) :
    columnAfter (pre ++ [b]) = if b = byte '\n' then 1 else columnAfter pre + 1 := by
  unfold columnAfter
  rw [List.reverse_append, List.reverse_singleton, List.singleton_append, List.takeWhile_cons]
  by_cases hb : b = byte '\n'
  · simp [hb]
  · simp [hb]

/-- The cursor after the bytes `pre`. -/
structure At (pre : List UInt8) (s : Cursor) : Prop where
  i : s.i = pre.length
  col : s.col = UInt32.ofNat (columnAfter pre)

variable {pre bs p : List UInt8} {s : Cursor} {b : UInt8}

theorem At.advance (h : At pre s) (b : UInt8) : At (pre ++ [b]) (s.advance b) := by
  unfold Cursor.advance
  have hcol := columnAfter_snoc pre b
  split
  · rename_i hb
    rw [if_pos hb] at hcol
    exact ⟨by simp [h.i], by rw [hcol]; rfl⟩
  · rename_i hb
    rw [if_neg hb] at hcol
    exact ⟨by simp [h.i], by rw [hcol, UInt32.ofNat_add, ← h.col]; rfl⟩

theorem At.advances (h : At pre s) (bs : List UInt8) :
    At (pre ++ bs) (bs.foldl Cursor.advance s) := by
  induction bs generalizing pre s with
  | nil =>
      rw [List.append_nil]
      exact h
  | cons b bs ih =>
      have hstep := ih (h.advance b)
      rw [List.append_assoc] at hstep
      exact hstep

theorem At.pending (h : At pre s) (due : Bool) : At pre { s with linePending := due } :=
  ⟨h.i, h.col⟩

theorem advances_linePending (bs : List UInt8) (s : Cursor) :
    (bs.foldl Cursor.advance s).linePending = (s.linePending || bs.contains (byte '\n')) := by
  induction bs generalizing s with
  | nil => simp
  | cons b bs ih =>
      rw [List.foldl_cons, ih, List.contains_cons]
      unfold Cursor.advance
      by_cases hb : b = byte '\n'
      · simp [hb]
      · have hb' : (byte '\n' == b) = false := by simpa using fun heq => hb heq.symm
        simp [hb, hb']

/-! ### Runs -/

/-- How the pending bit goes through segments, as the scanner keeps it: a newline in a token
counts for the token itself. -/
inductive FlagLaw : Bool → List Segment → Bool → Prop where
  | nil {due : Bool} : FlagLaw due [] due
  | blank {due fin : Bool} {b : UInt8} {segs : List Segment} :
      FlagLaw (due || b == byte '\n') segs fin → FlagLaw due (.blank b :: segs) fin
  | comment {due fin : Bool} {bs : List UInt8} {c : WokComment} {segs : List Segment} :
      FlagLaw (due || bs.contains (byte '\n')) segs fin →
      FlagLaw due (.comment bs c :: segs) fin
  | token {due fin : Bool} {bs : List UInt8} {t : WokToken} {segs : List Segment} :
      t.isFirstOnLine = (due || bs.contains (byte '\n')) →
      (byte '\n' ∈ bs → isLiteral t.kind ∧ [byte '\\', byte '\n'] <:+: bs) →
      FlagLaw false segs fin → FlagLaw due (.token bs t :: segs) fin

/-- What a run of the main loop from one state to another has made of its input. -/
structure Cuts (src pre p : List UInt8) (s s' : Scanner) (segs : List Segment) : Prop where
  bytes : segs.flatMap Segment.bytes = p
  recorded : ∀ x ∈ place pre.length segs, Recorded src x.1 x.2
  tok : s'.tok = s.tok ++ tokensOf segs
  com : s'.com = s.com ++ commentsOf segs
  cursor : At src s'.toCursor
  flags : FlagLaw s.linePending segs s'.linePending

/-- One round before the others. -/
theorem Takes.cuts {src pre p p' : List UInt8} {s s' s'' : Scanner} {seg : Segment}
    {segs : List Segment} (h : Takes p s p' s' seg) (hsrc : src = pre ++ p)
    (hat : At pre s.toCursor) (hrest : Cuts src (pre ++ seg.bytes) p' s' s'' segs) :
    Cuts src pre p s s'' (seg :: segs) := by
  have hbytes : (seg :: segs).flatMap Segment.bytes = p := by
    rw [List.flatMap_cons, hrest.bytes, h.input]
  have hplace : ∀ x ∈ place (pre.length + seg.bytes.length) segs, Recorded src x.1 x.2 := by
    have := hrest.recorded
    rw [List.length_append] at this
    exact this
  cases h with
  | @blank b hb hm =>
      refine ⟨hbytes, List.forall_mem_cons.mpr ⟨hb, hplace⟩, ?_, ?_, hrest.cursor, ?_⟩
      · rw [hrest.tok, hm.tok]
        rfl
      · rw [hrest.com, hm.com]
        rfl
      · apply FlagLaw.blank
        have := advances_linePending [b] s.toCursor
        rw [← hm.cursor] at this
        have hlast := hrest.flags
        rw [this] at hlast
        have hone : [b].contains (byte '\n') = (b == byte '\n') := by
          rw [List.contains_cons, List.contains_nil, Bool.or_false, BEq.comm]
        rw [← hone]
        exact hlast
  | @comment bs c hne hp hcur htok hcom hoff hlen =>
      refine ⟨hbytes, List.forall_mem_cons.mpr ⟨⟨hne, by rw [hoff, hat.i], hlen⟩, hplace⟩, ?_, ?_,
        hrest.cursor, ?_⟩
      · rw [hrest.tok, htok]
        rfl
      · rw [hrest.com, hcom, List.append_assoc]
        rfl
      · apply FlagLaw.comment
        rw [← advances_linePending, ← hcur]
        exact hrest.flags
  | @token bs t hp hcur htok hcom hst =>
      have hcol : t.col = UInt32.ofNat (columnAfter (src.take pre.length)) := by
        rw [hsrc, List.take_left, hst.col, hat.col]
      refine ⟨hbytes, List.forall_mem_cons.mpr
        ⟨⟨hst.nonempty, by rw [hst.off, hat.i], hst.len, hcol, hst.kind⟩, hplace⟩, ?_, ?_,
        hrest.cursor, ?_⟩
      · rw [hrest.tok, htok, List.append_assoc]
        rfl
      · rw [hrest.com, hcom]
        rfl
      · refine .token ?_ hst.newline ?_
        · rw [hst.first, advances_linePending]
        · have hpend : s'.linePending = false := by rw [hcur]
          rw [← hpend]
          exact hrest.flags

theorem scanGo_cuts (src pre p : List UInt8) (s : Scanner) (hsrc : src = pre ++ p)
    (hat : At pre s.toCursor) : ∃ segs, Cuts src pre p s (scanGo src p s) segs := by
  fun_induction scanGo src p s generalizing pre with
  | case1 s =>
      rw [List.append_nil] at hsrc
      subst hsrc
      exact ⟨[], rfl, by simp [place], (List.append_nil _).symm, (List.append_nil _).symm, hat,
        .nil⟩
  | case2 s c p ih =>
      obtain ⟨seg, htakes⟩ := scanItem_takes src c p s
      have hmid : At (pre ++ seg.bytes) (scanItem src c p s).2.toCursor := by
        cases htakes with
        | blank _ hm =>
            rw [hm.cursor]
            exact hat.advances _
        | comment _ _ hcur _ _ _ _ =>
            rw [hcur]
            exact hat.advances _
        | token _ hcur _ _ _ =>
            rw [hcur]
            exact (hat.advances _).pending false
      obtain ⟨segs, hsegs⟩ := ih (pre ++ seg.bytes)
        (by rw [List.append_assoc, ← htakes.input]; exact hsrc) hmid
      exact ⟨seg :: segs, htakes.cuts hsrc hat hsegs⟩

theorem at_start : At [] (scannerStart p).toCursor := ⟨rfl, rfl⟩

/-- Every source is cut into segments, up to its end. -/
theorem wokScan_segmented (src : List UInt8) :
    ∃ segs eof, Segmented src (wokScan src) segs eof ∧ FlagLaw true segs eof.isFirstOnLine := by
  obtain ⟨segs, hcuts⟩ := scanGo_cuts src [] src (scannerStart src) rfl at_start
  let s := scanGo src src (scannerStart src)
  refine ⟨segs, ⟨UInt32.ofNat src.length, 0, s.col, .eof, .none,
    if s.linePending then 0 ||| tfFirstOnLine else 0⟩, ⟨hcuts.bytes, hcuts.recorded, ?_, ?_,
    rfl, rfl, rfl, hcuts.cursor.col⟩, ?_⟩
  · change s.tok ++ _ = _
    rw [hcuts.tok]
    rfl
  · exact hcuts.com
  · have hfirst : ∀ due : Bool, WokToken.isFirstOnLine ⟨UInt32.ofNat src.length, 0, s.col, .eof,
        .none, if due then 0 ||| tfFirstOnLine else 0⟩ = due := by
      intro due
      change ((if due then 0 ||| tfFirstOnLine else 0) &&& tfFirstOnLine != 0) = due
      cases due <;> decide
    rw [hfirst]
    exact hcuts.flags

/-! ### Line flags -/

theorem FlagLaw.lineFlags_iff {due : Bool} {segs : List Segment} {eof : WokToken}
    (h : FlagLaw due segs eof.isFirstOnLine) :
    LineFlags eof due segs ↔ BreaksOnFirst due segs := by
  generalize hfin : eof.isFirstOnLine = fin at h
  induction h with
  | nil => exact ⟨fun _ => trivial, fun _ => hfin⟩
  | blank _ ih => exact ih hfin
  | comment _ ih => exact ih hfin
  | @token due fin bs t segs hflag hnl _ ih =>
      rw [LineFlags, BreaksOnFirst, ih hfin]
      apply and_congr_left
      intro _
      rw [hflag]
      constructor
      · intro heq _ hinfix
        have hmem : byte '\n' ∈ bs := hinfix.subset (by simp)
        rw [List.contains_iff_mem.mpr hmem, Bool.or_true] at heq
        exact heq.symm
      · intro hdue
        by_cases hmem : byte '\n' ∈ bs
        · obtain ⟨hlit, hinfix⟩ := hnl hmem
          rw [hdue hlit hinfix]
          rfl
        · have : bs.contains (byte '\n') = false := by
            simpa using hmem
          rw [this, Bool.or_false]

/-- The line flags are right exactly when every literal that contains a newline stands first on
its line. -/
theorem first_on_line_iff (src : List UInt8) :
    ∃ segs eof, Segmented src (wokScan src) segs eof ∧
      (LineFlags eof true segs ↔ BreaksOnFirst true segs) := by
  obtain ⟨segs, eof, hseg, hflags⟩ := wokScan_segmented src
  exact ⟨segs, eof, hseg, hflags.lineFlags_iff⟩

/-- A name, then a string whose only character is a newline after a backslash. -/
def brokenLiteral : List UInt8 := [byte 'x', byte ' ', byte '"', byte '\\', byte '\n', byte '"']

theorem validateUtf8_ascii {src : List UInt8} (h : ∀ b ∈ src, b.toNat < 0x80) :
    validateUtf8 src 0 = [] := by
  have hstop := Lib.StopsAt.asciis h .done
  rw [List.append_nil, Nat.zero_add] at hstop
  have hfind := stopsAt_unique hstop (findInvalid_stopsAt src)
  rw [validateUtf8, List.drop_zero, ← hfind, Nat.zero_add]
  exact dif_neg (Nat.lt_irrefl _)

theorem literalGo_broken (s : Scanner) :
    literalGo (byte '"') [byte '\\', byte '\n', byte '"'] s 0 =
      (true, tfHasEscape, [], advance (advance ((advance s (byte '\\')).report
        (.unknownEscape (UInt32.ofNat s.i) (byte '\n'))) (byte '\n')) (byte '"')) := by
  rw [literalGo, if_neg (by decide), if_pos rfl]
  change literalGo (byte '"') [byte '"'] _ _ = _
  rw [literalGo, if_neg (by decide), if_neg (by decide), if_pos rfl]
  rfl

def brokenEof : WokToken := ⟨6, 0, 2, .eof, .none, 0⟩

def brokenSegments : List Segment :=
  [.token [byte 'x'] ⟨0, 1, 1, .varid, .none, 1⟩, .blank (byte ' '),
    .token [byte '"', byte '\\', byte '\n', byte '"'] ⟨2, 4, 3, .string, .none, 3⟩]

theorem wokScan_broken :
    wokScan brokenLiteral =
      ⟨tokensOf brokenSegments ++ [brokenEof], [], [.unknownEscape 3 (byte '\n')]⟩ := by
  let s₁ : Scanner := ⟨⟨1, 2, false⟩, false, [⟨0, 1, 1, .varid, .none, 1⟩], [], []⟩
  let s₂ : Scanner := ⟨⟨2, 3, false⟩, false, [⟨0, 1, 1, .varid, .none, 1⟩], [], []⟩
  let s₃ : Scanner := ⟨⟨6, 2, false⟩, false,
    [⟨0, 1, 1, .varid, .none, 1⟩, ⟨2, 4, 3, .string, .none, 3⟩], [],
    [.unknownEscape 3 (byte '\n')]⟩
  have hstart : scannerStart brokenLiteral = ⟨⟨0, 1, true⟩, false, [], [], []⟩ := by
    have hascii : (brokenLiteral.all fun b => decide (b.toNat < 0x80)) = true := by decide
    unfold scannerStart
    rw [validateUtf8_ascii fun b hb => of_decide_eq_true (List.all_eq_true.mp hascii b hb)]
  have hx : scanItem brokenLiteral (byte 'x') [byte ' ', byte '"', byte '\\', byte '\n', byte '"']
      ⟨⟨0, 1, true⟩, false, [], [], []⟩ =
      ([byte ' ', byte '"', byte '\\', byte '\n', byte '"'], s₁) := by
    decide +kernel
  have hblank : scanItem brokenLiteral (byte ' ') [byte '"', byte '\\', byte '\n', byte '"'] s₁ =
      ([byte '"', byte '\\', byte '\n', byte '"'], s₂) := by
    decide +kernel
  have hquote : scanItem brokenLiteral (byte '"') [byte '\\', byte '\n', byte '"'] s₂ =
      ([], s₃) := by
    have hlit : scanItem brokenLiteral (byte '"') [byte '\\', byte '\n', byte '"'] s₂ =
        scanLiteral (byte '"') [byte '\\', byte '\n', byte '"'] s₂ := rfl
    rw [hlit, scanLiteral, literalGo_broken]
    decide +kernel
  have hrun : scanGo brokenLiteral brokenLiteral (scannerStart brokenLiteral) = s₃ := by
    rw [hstart]
    change scanGo brokenLiteral (byte 'x' :: [byte ' ', byte '"', byte '\\', byte '\n', byte '"']) _
      = _
    rw [scanGo, hx, scanGo, hblank, scanGo, hquote, scanGo]
  unfold wokScan
  rw [hrun]
  decide +kernel

theorem literal_opens_line :
    ∃ segs eof, Segmented brokenLiteral (wokScan brokenLiteral) segs eof ∧
      ¬ LineFlags eof true segs := by
  refine ⟨brokenSegments, brokenEof, ⟨rfl, ?_, ?_, ?_, by decide +kernel⟩, ?_⟩
  · intro x hx
    have hcases : x = (0, brokenSegments[0]) ∨ x = (1, brokenSegments[1]) ∨
        x = (2, brokenSegments[2]) := by
      simpa [place, brokenSegments, Segment.bytes] using hx
    rcases hcases with rfl | rfl | rfl
    · exact ⟨by decide, rfl, rfl, rfl, by decide⟩
    · rfl
    · exact ⟨by decide, rfl, rfl, rfl, by decide⟩
  · rw [wokScan_broken]
  · rw [wokScan_broken]
    rfl
  · intro h
    exact absurd h.2.1 (by decide)

/-! ### Places -/

/-- A segment at its place, with the bytes before and after it. -/
theorem mem_place {i : Nat} {segs : List Segment} {x : Nat × Segment} (h : x ∈ place i segs) :
    ∃ before after, segs.flatMap Segment.bytes = before ++ x.2.bytes ++ after ∧
      x.1 = i + before.length ∧ x.2 ∈ segs := by
  induction segs generalizing i with
  | nil => exact absurd h List.not_mem_nil
  | cons seg segs ih =>
      rw [List.flatMap_cons]
      rcases List.mem_cons.mp h with rfl | h
      · exact ⟨[], segs.flatMap Segment.bytes, rfl, rfl, List.mem_cons_self⟩
      · obtain ⟨before, after, hbytes, hi, hmem⟩ := ih h
        refine ⟨seg.bytes ++ before, after, ?_, ?_, List.mem_cons_of_mem _ hmem⟩
        · rw [hbytes, List.append_assoc, List.append_assoc, List.append_assoc]
        · rw [hi, List.length_append]
          omega

theorem place_ordered (i : Nat) (segs : List Segment) :
    (place i segs).Pairwise fun a b => a.1 + a.2.bytes.length ≤ b.1 := by
  induction segs generalizing i with
  | nil => exact List.Pairwise.nil
  | cons seg segs ih =>
      refine List.Pairwise.cons ?_ (ih _)
      intro x hx
      obtain ⟨before, -, -, hi, -⟩ := mem_place hx
      change i + seg.bytes.length ≤ x.1
      omega

/-- Two segments are apart. -/
def Apart (a b : Nat × Segment) : Prop :=
  a.1 + a.2.bytes.length ≤ b.1 ∨ b.1 + b.2.bytes.length ≤ a.1

instance : Std.Symm Apart := ⟨fun _ _ h => h.symm⟩

theorem place_apart {i : Nat} {segs : List Segment} {a b : Nat × Segment}
    (ha : a ∈ place i segs) (hb : b ∈ place i segs) (hne : a ≠ b) : Apart a b := by
  have hapart : (place i segs).Pairwise Apart := (place_ordered i segs).imp fun h => Or.inl h
  exact hapart.forall ha hb hne

theorem place_covers {i k : Nat} {segs : List Segment} (hlo : i ≤ k)
    (hhi : k < i + (segs.flatMap Segment.bytes).length) :
    ∃ x ∈ place i segs, x.1 ≤ k ∧ k < x.1 + x.2.bytes.length := by
  induction segs generalizing i with
  | nil =>
      change k < i + 0 at hhi
      omega
  | cons seg segs ih =>
      rw [List.flatMap_cons, List.length_append] at hhi
      by_cases hk : k < i + seg.bytes.length
      · exact ⟨(i, seg), List.mem_cons_self, hlo, hk⟩
      · obtain ⟨x, hx, hspan⟩ := ih (i := i + seg.bytes.length) (by omega) (by omega)
        exact ⟨x, List.mem_cons_of_mem _ hx, hspan⟩

theorem place_snd (i : Nat) (segs : List Segment) : (place i segs).map Prod.snd = segs := by
  induction segs generalizing i with
  | nil => rfl
  | cons seg segs ih => rw [place, List.map_cons, ih]

def tokenOf : Segment → Option WokToken
  | .token _ t => some t
  | _ => none

def commentOf : Segment → Option WokComment
  | .comment _ c => some c
  | _ => none

theorem tokensOf_place (i : Nat) (segs : List Segment) :
    tokensOf segs = (place i segs).filterMap fun x => tokenOf x.2 := by
  rw [← Function.comp_def tokenOf Prod.snd, ← List.filterMap_map, place_snd]
  rfl

theorem commentsOf_place (i : Nat) (segs : List Segment) :
    commentsOf segs = (place i segs).filterMap fun x => commentOf x.2 := by
  rw [← Function.comp_def commentOf Prod.snd, ← List.filterMap_map, place_snd]
  rfl

theorem tokenOf_eq {seg : Segment} {t : WokToken} (h : tokenOf seg = some t) :
    ∃ bs, seg = .token bs t := by
  cases seg with
  | token bs t' =>
      cases h
      exact ⟨bs, rfl⟩
  | blank _ => cases h
  | comment _ _ => cases h

theorem commentOf_eq {seg : Segment} {c : WokComment} (h : commentOf seg = some c) :
    ∃ bs, seg = .comment bs c := by
  cases seg with
  | comment bs c' =>
      cases h
      exact ⟨bs, rfl⟩
  | blank _ => cases h
  | token _ _ => cases h

/-! ### Short sources -/

theorem columnAfter_le (pre : List UInt8) : columnAfter pre ≤ pre.length + 1 := by
  have := (List.takeWhile_prefix (l := pre.reverse) fun b => b != byte '\n').length_le
  rw [List.length_reverse] at this
  exact Nat.succ_le_succ this

theorem toNat_ofNat_lt {n : Nat} (h : n < 2 ^ 32) : (UInt32.ofNat n).toNat = n := by
  rw [UInt32.toNat_ofNat']
  exact Nat.mod_eq_of_lt h

section Short

variable {src : List UInt8} {result : WokScanResult} {segs : List Segment} {eof : WokToken}

/-- Where a token stands, as its place says it. -/
theorem Segmented.token_span (h : Segmented src result segs eof) (hlen : src.length < 2 ^ 32)
    {i : Nat} {bs : List UInt8} {t : WokToken} (hx : (i, Segment.token bs t) ∈ place 0 segs) :
    t.off.toNat = i ∧ t.len.toNat = bs.length ∧ 0 < bs.length ∧ i + bs.length ≤ src.length ∧
      t.col.toNat = columnAfter (src.take i) ∧ t.kind ≠ .eof := by
  obtain ⟨before, after, hbytes, hi, -⟩ := mem_place hx
  obtain ⟨hne, hoff, hlen', hcol, hk⟩ := h.recorded _ hx
  rw [h.bytes] at hbytes
  have htotal := congrArg List.length hbytes
  simp only [List.length_append, Segment.bytes] at htotal hi
  have hpos := List.length_pos_iff.mpr hne
  have hcolumn : columnAfter (src.take i) < 2 ^ 32 := by
    have hle := columnAfter_le (src.take i)
    rw [List.length_take] at hle
    omega
  rw [hoff, hlen', hcol, toNat_ofNat_lt (by omega), toNat_ofNat_lt (by omega),
    toNat_ofNat_lt hcolumn]
  exact ⟨rfl, rfl, hpos, by omega, rfl, hk⟩

theorem Segmented.comment_span (h : Segmented src result segs eof) (hlen : src.length < 2 ^ 32)
    {i : Nat} {bs : List UInt8} {c : WokComment}
    (hx : (i, Segment.comment bs c) ∈ place 0 segs) :
    c.off.toNat = i ∧ c.len.toNat = bs.length ∧ 0 < bs.length ∧ i + bs.length ≤ src.length := by
  obtain ⟨before, after, hbytes, hi, -⟩ := mem_place hx
  obtain ⟨hne, hoff, hlen'⟩ := h.recorded _ hx
  rw [h.bytes] at hbytes
  have htotal := congrArg List.length hbytes
  simp only [List.length_append, Segment.bytes] at htotal hi
  have hpos := List.length_pos_iff.mpr hne
  rw [hoff, hlen', toNat_ofNat_lt (by omega), toNat_ofNat_lt (by omega)]
  exact ⟨rfl, rfl, hpos, by omega⟩

theorem mem_tokensOf {t : WokToken} (h : t ∈ tokensOf segs) :
    ∃ i bs, (i, Segment.token bs t) ∈ place 0 segs := by
  rw [tokensOf_place 0] at h
  obtain ⟨⟨i, seg⟩, hx, ht⟩ := List.mem_filterMap.mp h
  obtain ⟨bs, rfl⟩ := tokenOf_eq ht
  exact ⟨i, bs, hx⟩

theorem mem_commentsOf {c : WokComment} (h : c ∈ commentsOf segs) :
    ∃ i bs, (i, Segment.comment bs c) ∈ place 0 segs := by
  rw [commentsOf_place 0] at h
  obtain ⟨⟨i, seg⟩, hx, hc⟩ := List.mem_filterMap.mp h
  obtain ⟨bs, rfl⟩ := commentOf_eq hc
  exact ⟨i, bs, hx⟩

theorem Segmented.tokens_ordered (h : Segmented src result segs eof)
    (hlen : src.length < 2 ^ 32) :
    result.tokens.Pairwise fun a b => a.off.toNat + a.len.toNat ≤ b.off.toNat := by
  rw [h.tokens, List.pairwise_append]
  refine ⟨?_, List.pairwise_singleton _ _, ?_⟩
  · rw [tokensOf_place 0, List.pairwise_filterMap]
    refine (place_ordered 0 segs).imp_of_mem ?_
    rintro ⟨i, seg⟩ ⟨i', seg'⟩ hx hx' hle t ht t' ht'
    obtain ⟨bs, rfl⟩ := tokenOf_eq ht
    obtain ⟨bs', rfl⟩ := tokenOf_eq ht'
    obtain ⟨hoff, hl, -⟩ := h.token_span hlen hx
    obtain ⟨hoff', -⟩ := h.token_span hlen hx'
    rw [hoff, hl, hoff']
    exact hle
  · intro t ht e he
    rw [List.mem_singleton] at he
    subst he
    obtain ⟨i, bs, hx⟩ := mem_tokensOf ht
    obtain ⟨hoff, hl, -, hend, -⟩ := h.token_span hlen hx
    rw [hoff, hl, h.eof.2.1, toNat_ofNat_lt hlen]
    exact hend

theorem Segmented.comments_ordered (h : Segmented src result segs eof)
    (hlen : src.length < 2 ^ 32) :
    result.comments.Pairwise fun a b => a.off.toNat + a.len.toNat ≤ b.off.toNat := by
  rw [h.comments, commentsOf_place 0, List.pairwise_filterMap]
  refine (place_ordered 0 segs).imp_of_mem ?_
  rintro ⟨i, seg⟩ ⟨i', seg'⟩ hx hx' hle c hc c' hc'
  obtain ⟨bs, rfl⟩ := commentOf_eq hc
  obtain ⟨bs', rfl⟩ := commentOf_eq hc'
  obtain ⟨hoff, hl, -⟩ := h.comment_span hlen hx
  obtain ⟨hoff', -⟩ := h.comment_span hlen hx'
  rw [hoff, hl, hoff']
  exact hle

theorem Segmented.disjoint (h : Segmented src result segs eof) (hlen : src.length < 2 ^ 32) :
    ∀ t ∈ result.tokens, ∀ c ∈ result.comments,
      t.off.toNat + t.len.toNat ≤ c.off.toNat ∨ c.off.toNat + c.len.toNat ≤ t.off.toNat := by
  intro t ht c hc
  rw [h.comments] at hc
  obtain ⟨j, bs', hy⟩ := mem_commentsOf hc
  obtain ⟨hcoff, hclen, -, hcend⟩ := h.comment_span hlen hy
  rw [h.tokens] at ht
  rcases List.mem_append.mp ht with ht | ht
  · obtain ⟨i, bs, hx⟩ := mem_tokensOf ht
    obtain ⟨hoff, hl, -⟩ := h.token_span hlen hx
    rw [hoff, hl, hcoff, hclen]
    exact place_apart hx hy fun heq => Segment.noConfusion (congrArg Prod.snd heq)
  · rw [List.mem_singleton] at ht
    subst ht
    right
    rw [hcoff, hclen, h.eof.2.1, toNat_ofNat_lt hlen]
    exact hcend

/-- Outside the spans there are blanks only. -/
theorem Segmented.blank (h : Segmented src result segs eof) (hlen : src.length < 2 ^ 32)
    (i : Nat) (hi : i < src.length)
    (htok : ∀ t ∈ result.tokens, ¬ (t.off.toNat ≤ i ∧ i < t.off.toNat + t.len.toNat))
    (hcom : ∀ c ∈ result.comments, ¬ (c.off.toNat ≤ i ∧ i < c.off.toNat + c.len.toNat)) :
    isBlank src[i] := by
  have hin : i < 0 + (segs.flatMap Segment.bytes).length := by
    rw [h.bytes, Nat.zero_add]
    exact hi
  obtain ⟨⟨j, seg⟩, hx, hspan⟩ := place_covers (Nat.zero_le i) hin
  obtain ⟨before, after, hbytes, hj, hmem⟩ := mem_place hx
  cases seg with
  | blank b =>
      have hb := h.recorded _ hx
      rw [h.bytes] at hbytes
      have hij : i = before.length := by
        simp only [Segment.bytes, List.length_singleton] at hspan hj
        omega
      have hget : src[i] = b := by
        simp only [hbytes, hij, Segment.bytes]
        simp
      rw [hget]
      exact hb
  | comment bs c =>
      obtain ⟨hoff, hl, -⟩ := h.comment_span hlen hx
      have hc : c ∈ result.comments := by
        rw [h.comments]
        exact List.mem_filterMap.mpr ⟨_, hmem, rfl⟩
      refine absurd ?_ (hcom c hc)
      rw [hoff, hl]
      exact hspan
  | token bs t =>
      obtain ⟨hoff, hl, -⟩ := h.token_span hlen hx
      have ht : t ∈ result.tokens := by
        rw [h.tokens]
        exact List.mem_append_left _ (List.mem_filterMap.mpr ⟨_, hmem, rfl⟩)
      refine absurd ?_ (htok t ht)
      rw [hoff, hl]
      exact hspan

theorem Segmented.tokens_empty (h : Segmented src result segs eof) (hlen : src.length < 2 ^ 32) :
    ∀ t ∈ result.tokens, t.len = 0 ↔ t.kind = .eof := by
  intro t ht
  rw [h.tokens] at ht
  rcases List.mem_append.mp ht with ht | ht
  · obtain ⟨i, bs, hx⟩ := mem_tokensOf ht
    obtain ⟨-, hl, hpos, -, -, hk⟩ := h.token_span hlen hx
    constructor
    · intro hzero
      rw [hzero] at hl
      exact absurd hl (Nat.ne_of_lt hpos)
    · intro heq
      exact absurd heq hk
  · rw [List.mem_singleton] at ht
    subst ht
    exact ⟨fun _ => h.eof.1, fun _ => h.eof.2.2.1⟩

theorem Segmented.columns (h : Segmented src result segs eof) (hlen : src.length < 2 ^ 32)
    (hcol : columnAfter src < 2 ^ 32) :
    ∀ t ∈ result.tokens, t.col.toNat = columnAfter (src.take t.off.toNat) := by
  intro t ht
  rw [h.tokens] at ht
  rcases List.mem_append.mp ht with ht | ht
  · obtain ⟨i, bs, hx⟩ := mem_tokensOf ht
    obtain ⟨hoff, -, -, -, hc, -⟩ := h.token_span hlen hx
    rw [hoff, hc]
  · rw [List.mem_singleton] at ht
    subst ht
    rw [h.eof.2.1, toNat_ofNat_lt hlen, List.take_length, h.eof.2.2.2, toNat_ofNat_lt hcol]

end Short

/-- The spans and the columns of a scan are right exactly when 32 bits hold the length of the
source and the column of its end. -/
theorem well_scanned_iff (src : List UInt8) :
    WellScanned src (wokScan src).tokens (wokScan src).comments ↔
      src.length < 2 ^ 32 ∧ columnAfter src < 2 ^ 32 := by
  constructor
  · intro h
    obtain ⟨ts, e, htok, -, hoff, -⟩ := h.reaches
    have hcol := h.columns e (htok ▸ List.mem_append_right ts List.mem_cons_self)
    rw [hoff, List.take_length] at hcol
    exact ⟨hoff ▸ e.off.toNat_lt, hcol ▸ e.col.toNat_lt⟩
  · rintro ⟨hlen, hcol⟩
    obtain ⟨segs, eof, h, -⟩ := wokScan_segmented src
    refine ⟨h.tokens_ordered hlen, h.comments_ordered hlen, h.disjoint hlen, h.tokens_empty hlen,
      ?_, h.blank hlen, h.columns hlen hcol, ⟨tokensOf segs, eof, h.tokens, h.eof.1, ?_, ?_⟩⟩
    · intro c hc hzero
      rw [h.comments] at hc
      obtain ⟨i, bs, hx⟩ := mem_commentsOf hc
      obtain ⟨-, hl, hpos, -⟩ := h.comment_span hlen hx
      rw [hzero] at hl
      exact absurd hl (Nat.ne_of_lt hpos)
    · rw [h.eof.2.1, toNat_ofNat_lt hlen]
    · intro t ht
      obtain ⟨i, bs, hx⟩ := mem_tokensOf ht
      exact (h.token_span hlen hx).2.2.2.2.2

/-- At 2^32 bytes the end of the file is recorded at offset 0. -/
theorem long_source_misplaced :
    ¬ WellScanned (List.replicate (2 ^ 32) (byte ' '))
      (wokScan (List.replicate (2 ^ 32) (byte ' '))).tokens
      (wokScan (List.replicate (2 ^ 32) (byte ' '))).comments := by
  intro h
  obtain ⟨ts, e, -, -, hoff, -⟩ := h.reaches
  rw [List.length_replicate] at hoff
  exact absurd e.off.toNat_lt (by rw [hoff]; exact Nat.lt_irrefl _)

end Wok.Grammar.Scan
