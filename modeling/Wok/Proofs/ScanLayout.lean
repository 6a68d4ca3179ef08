/-
Module: Wok.Proofs.ScanLayout
Purpose: The two stages in a row. Whatever the bytes of a source are, its tokens are what the
  layout pass takes, and what the pass gives back is well laid.
Imports: Wok.Proofs.LayoutGroups, Wok.Proofs.Scan
Trusted boundary: none
Main exports: Plain, scanItem_plain, wokScan_scanned, wokScan_wellLaid
-/
import Wok.Proofs.LayoutGroups
import Wok.Proofs.Scan

namespace Wok.Grammar.Scan

/-! ### Kinds of tokens -/

/-- No token of the layout pass has been scanned. -/
def Plain (s : Scanner) : Prop := ∀ t ∈ s.tok, t.kind.isLayout = false

section

variable {bs p p' : List UInt8} {s s' : Scanner} {k : WokKind} {w : WokWord}
  {off len col : UInt32} {extra : UInt16}

theorem Plain.moves (h : Plain s) (hmoves : Moves bs p s p' s') : Plain s' := by
  intro t ht
  rw [hmoves.tok] at ht
  exact h t ht

theorem Plain.emit (h : Plain s) (hk : k.isLayout = false) :
    Plain (emit s k w off len col extra) := by
  intro t ht
  rcases List.mem_append.mp ht with ht | ht
  · exact h t ht
  · rw [List.mem_singleton.mp ht]
    exact hk

theorem Plain.emitOne (h : Plain s) (hk : k.isLayout = false) (c : UInt8) :
    Plain (emitOne s k c) :=
  Plain.emit (h.moves (Moves.step c [] s)) hk

theorem Plain.report (h : Plain s) (d : LexDiag) : Plain (s.report d) := h

theorem Plain.addComment (h : Plain s) (off len : UInt32) (block : Bool) :
    Plain (addComment s off len block) := h

theorem reservedSym_plain (text : List UInt8) : (reservedSym text).isLayout = false := by
  unfold reservedSym
  split_ifs <;> rfl

theorem wokWordKind_plain (w : WokWord) : (wokWordKind w).isLayout = false := by
  cases w <;> rfl

theorem punctKind_plain (c : UInt8) : (punctKind c).isLayout = false := by
  unfold punctKind
  split_ifs <;> rfl

/-! ### Rounds -/

theorem skipBlockComment_plain (h : Plain s) (p : List UInt8) :
    Plain (skipBlockComment p s).2 := by
  rcases skipBlockGo_moves 0 p s with ⟨bs, hmoves, -⟩
  have hplain := h.moves hmoves
  unfold skipBlockComment
  dsimp only
  split
  · exact (hplain.report _).addComment _ _ _
  · exact hplain.addComment _ _ _

theorem scanSym_plain (h : Plain s) (src p : List UInt8) : Plain (scanSym src p s).2 := by
  have hplain := h.moves (advanceWhile_moves isSym p s)
  unfold scanSym
  dsimp only
  split
  · exact (hplain.moves (advanceWhile_moves _ _ _)).addComment _ _ _
  · exact hplain.emit (reservedSym_plain _)

theorem scanIdent_plain (h : Plain s) (src : List UInt8) (c : UInt8) (p : List UInt8) :
    Plain (scanIdent src c p s).2 := by
  have hplain := h.moves (advanceWhile_moves isIdentCont p s)
  unfold scanIdent
  dsimp only
  apply hplain.emit
  split_ifs
  · rfl
  · exact wokWordKind_plain _
  · rfl

theorem scanInt_plain (h : Plain s) (p : List UInt8) : Plain (scanInt p s).2 :=
  (h.moves (advanceWhile_moves _ p s)).emit rfl

theorem scanLiteral_plain (h : Plain s) (quote : UInt8) (p : List UInt8) :
    Plain (scanLiteral quote p s).2 := by
  rcases literalGo_moves quote p (advance s quote) 0 with ⟨bs, hmoves, -⟩
  have hplain := (h.moves (Moves.step quote p s)).moves hmoves
  have hkind : (if quote = byte '"' then WokKind.string else .char).isLayout = false := by
    split <;> rfl
  unfold scanLiteral
  dsimp only
  split
  · exact hplain.emit hkind
  · exact (hplain.report _).emit hkind

theorem scanDot_plain (h : Plain s) (c : UInt8) (p : List UInt8) : Plain (scanDot c p s).2 := by
  unfold scanDot
  split
  · split
    · exact ((h.moves (Moves.step c [] s)).moves (Moves.step _ [] _)).emit rfl
    · exact h.emitOne rfl c
  · exact h.emitOne rfl c

theorem scanPunct_plain (h : Plain s) (c : UInt8) : Plain (scanPunct c s) := by
  have hplain := h.emitOne (punctKind_plain c) c
  unfold scanPunct
  dsimp only
  split
  · exact hplain.report _
  · exact hplain

/-- Each round scans tokens of the source only. -/
theorem scanItem_plain (h : Plain s) (src : List UInt8) (c : UInt8) (p : List UInt8) :
    Plain (scanItem src c p s).2 := by
  have hstep : Plain (advance s c) := h.moves (Moves.step c p s)
  unfold scanItem
  split_ifs
  · exact hstep
  · have htab : Plain (reportTab s) := by
      unfold reportTab
      split
      · exact h
      · exact h
    exact htab.moves (Moves.step c p _)
  · exact skipBlockComment_plain h _
  · exact scanSym_plain h src _
  · exact h.emitOne rfl c
  · exact scanIdent_plain h src c _
  · exact scanInt_plain h _
  · exact scanLiteral_plain h c p
  · exact scanDot_plain h c p
  · exact (h.emitOne rfl c).report _
  · exact scanPunct_plain h c

/-- The rounds together, by induction on what is unread. -/
theorem scanGo_plain (h : Plain s) (src p : List UInt8) : Plain (scanGo src p s) := by
  fun_induction scanGo src p s with
  | case1 s => exact h
  | case2 s c p ih => exact ih (scanItem_plain h src c p)

end

/-! ### The two stages -/

theorem columnAfter_pos (pre : List UInt8) : 0 < columnAfter pre := Nat.succ_pos _

/-- The tokens of a source are what the layout pass takes. -/
theorem wokScan_scanned {src : List UInt8} (hlen : src.length + 1 < 2 ^ 32) :
    Scanned (wokScan src).tokens := by
  have hshort : src.length < 2 ^ 32 := Nat.lt_of_succ_lt hlen
  have hcol : columnAfter src < 2 ^ 32 := (columnAfter_le src).trans_lt hlen
  rcases wokScan_segmented src with ⟨segs, eof, h, -⟩
  constructor
  case ends =>
    refine ⟨tokensOf segs, eof, h.tokens, h.eof.1, ?_⟩
    intro t ht
    rcases mem_tokensOf ht with ⟨i, bs, hx⟩
    exact (h.token_span hshort hx).2.2.2.2.2
  case col =>
    intro t ht
    rw [UInt32.le_iff_toNat_le, h.columns hshort hcol t ht]
    exact columnAfter_pos _
  case kind =>
    have hstart : Plain (scannerStart src) := by
      intro t ht
      cases ht
    exact (scanGo_plain hstart src src).emit rfl

/-- Whatever the bytes of a source are, the output of the layout pass on its tokens is well
laid: blocks are nested and not empty, and its other tokens are those of the source. -/
theorem wokScan_wellLaid {src : List UInt8} {out : List WokToken} {diag : List LayoutDiag}
    (hlen : src.length + 1 < 2 ^ 32) (hrun : wokLayout (wokScan src).tokens = some (out, diag)) :
    WellLaid (wokScan src).tokens out := by
  have hscan := wokScan_scanned hlen
  rcases layoutOf_wellLaid .start hscan.ends hscan.kind with ⟨hnested, hchain, hfilter⟩
  rw [wokLayout_out hscan hrun]
  exact ⟨hnested, hchain, hfilter⟩

/-- The tokens of a source of one name. -/
theorem wokScan_name : (wokScan [byte 'x']).tokens =
    [⟨0, 1, 1, .varid, .none, tfFirstOnLine⟩, ⟨1, 0, 2, .eof, .none, 0⟩] := by
  have hrest : (scanItem [byte 'x'] (byte 'x') [] (scannerStart [byte 'x'])).1 = [] := rfl
  unfold wokScan
  rw [scanGo, hrest, scanGo]
  rfl

theorem wokScan_wellLaid_name : ∃ out diag,
    wokLayout (wokScan [byte 'x']).tokens = some (out, diag) ∧
      WellLaid (wokScan [byte 'x']).tokens out := by
  have hsome : (wokLayout (wokScan [byte 'x']).tokens).isSome = true := by
    rw [wokScan_name]
    decide
  rcases Option.isSome_iff_exists.mp hsome with ⟨⟨out, diag⟩, hrun⟩
  exact ⟨out, diag, hrun, wokScan_wellLaid (by decide) hrun⟩

end Wok.Grammar.Scan
