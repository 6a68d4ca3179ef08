/-
Module: Wok.Proofs.SexprRoundTrip
Purpose: The reader of s-expressions gives back what the writer has written: the node with
  its spans moved into the pool, which holds the same bytes.
Imports: Mathlib.Data.List.Nodup, Wok.Proofs.SexprAtoms
Trusted boundary: none
Main exports: WokNode.place, Inverts, parseNode_inverts, wokSexprRead_dump
-/
import Mathlib.Data.List.Nodup
import Wok.Proofs.SexprAtoms

namespace Wok.Grammar

open Wok.Lib
open Wok.Lib.Scanner

/-! ### Where the pool has the bytes -/

mutual

/-- The node with the spans that the reader gives it when the pool has `start` bytes. -/
def WokNode.place (src : List UInt8) (start : Nat) : WokNode → WokNode
  | .mk tag _ _ slots => .mk tag 0 0 (placeSlots src start slots)

def placeSlots (src : List UInt8) (start : Nat) : List WokSlot → List WokSlot
  | [] => []
  | slot :: slots =>
      slot.place src start :: placeSlots src (start + (slot.texts src).length) slots

def WokSlot.place (src : List UInt8) (start : Nat) : WokSlot → WokSlot
  | .node none => .node none
  | .node (some n) => .node (some (n.place src start))
  | .seq ns => .seq (placeNodes src start ns)
  | .span s => .span ⟨UInt32.ofNat start, s.len⟩
  | .num v => .num v
  | .flag b => .flag b

def placeNodes (src : List UInt8) (start : Nat) : List WokNode → List WokNode
  | [] => []
  | n :: ns => n.place src start :: placeNodes src (start + (n.texts src).length) ns

end

@[simp]
theorem WokSpan.length_text (src : List UInt8) (s : WokSpan) :
    (s.text src).length = s.len.toNat := by
  simp [WokSpan.text]

@[simp]
theorem WokNode.place_tag (src : List UInt8) (start : Nat) (n : WokNode) :
    (n.place src start).tag = n.tag := by
  cases n
  rfl

theorem WokNode.texts_def (src : List UInt8) (n : WokNode) :
    n.texts src = slotsTexts src n.slots := by
  cases n
  rfl

variable {s : Reader}

@[simp]
theorem Reader.keep_keep (a b : List UInt8) : (s.keep a).keep b = s.keep (a ++ b) := by
  simp [Reader.keep]

@[simp]
theorem Reader.keep_nil : s.keep [] = s := by
  simp [Reader.keep]

@[simp]
theorem Reader.keep_length (a : List UInt8) :
    (s.keep a).pool.length = s.pool.length + a.length := by
  simp [Reader.keep]

/-! ### The schema's names -/

theorem WokTag.mem_all (t : WokTag) : t ∈ WokTag.all := by
  cases t <;> decide

theorem bytes_ofList (cs : List Char) : bytes (String.ofList cs) = cs.map ch := by
  rw [bytes, String.toList_ofList]

/-- The letters of a name; every name has an underscore, as no keyword of the notation has. -/
theorem WokTag.name_letters (t : WokTag) :
    ∃ cs : List Char, t.name = String.ofList cs ∧ ch '_' ∈ cs.map ch ∧
      ((cs.map ch).all fun b => ! isDelim b && decide (b.toNat < 128)) = true := by
  cases t <;> exact ⟨_, rfl, by decide, by decide⟩

theorem WokTag.name_solid (t : WokTag) :
    ch '_' ∈ bytes t.name ∧ ∀ b ∈ bytes t.name, isDelim b = false ∧ b.toNat < 128 := by
  rcases t.name_letters with ⟨cs, hname, hmem, hall⟩
  rw [hname, bytes_ofList]
  exact ⟨hmem, fun b hb => by simpa using List.all_eq_true.mp hall b hb⟩

theorem WokTag.name_isWord (t : WokTag) : IsWord (bytes t.name) := by
  rcases t.name_solid with ⟨hmem, hsolid⟩
  exact ⟨List.ne_nil_of_mem hmem, fun b hb => (hsolid b hb).1⟩

/-- A number that tells the names of the schema apart. -/
def fingerprint (w : List UInt8) : Nat := w.foldl (fun n b => (n * 9 + b.toNat) % 449) 0

theorem fingerprints_nodup : (WokTag.all.map fun t => fingerprint (bytes t.name)).Nodup := by
  have hmap : (WokTag.all.map fun t => fingerprint (bytes t.name)) =
      [310, 147, 327, 4, 314, 208, 149, 272, 205, 280, 259, 89, 440, 410, 250, 86, 374, 11,
        62, 95, 350, 211, 422, 55, 181, 111, 409, 408, 8, 434, 51, 417, 192, 340, 74, 345,
        428, 336, 392, 356, 407, 358, 194, 219, 29, 170, 263, 217, 352, 97, 27, 61, 25, 122,
        334, 20, 325, 229, 114, 372, 193, 348, 67, 421, 123, 213, 385, 153, 242, 284, 31,
        355, 75, 32, 65, 423, 403, 195, 267, 393, 220, 3, 252, 330] := by
    decide +kernel
  rw [hmap]
  decide +kernel

theorem WokTag.name_injective {t t' : WokTag} (h : bytes t.name = bytes t'.name) : t = t' :=
  List.inj_on_of_nodup_map fingerprints_nodup t.mem_all t'.mem_all (congrArg fingerprint h)

theorem lookupTag_name (t : WokTag) : lookupTag (bytes t.name) = some t := by
  unfold lookupTag
  rcases hfind : WokTag.all.find? (fun u => bytes u.name = bytes t.name) with _ | u
  · exact absurd (decide_eq_true rfl) (List.find?_eq_none.mp hfind t t.mem_all)
  · have hu := List.find?_some hfind
    rw [hfind, WokTag.name_injective (of_decide_eq_true hu)]

/-! ### What is written -/

@[simp]
theorem Dump.append_out (a b : Dump) : (a ++ b).out = a.out ++ b.out := rfl

@[simp]
theorem Dump.append_err (a b : Dump) : (a ++ b).err = a.err ++ b.err := rfl

@[simp]
theorem putText_out (bs : List UInt8) : (putText bs).out = bs := rfl

@[simp]
theorem putText_err (bs : List UInt8) : (putText bs).err = [] := rfl

theorem indent_blank (depth : Nat) : Blank (ch '\n' :: indent depth) := by
  intro b hb
  rcases List.mem_cons.mp hb with rfl | hb
  · decide
  · obtain ⟨l, hl, hbl⟩ := List.mem_flatten.mp hb
    rw [(List.mem_replicate.mp hl).2] at hbl
    have hall : (bytes "  ").all isWs = true := by decide
    exact List.all_eq_true.mp hall b hbl

variable {src : List UInt8} {size : Nat} {tag : WokTag} {field : WokField} {slot : WokSlot}
  {fields : List WokField} {slots : List WokSlot} {sep : List UInt8} {depth left : Nat}

/-- A field that holds no node is written alike at every depth. -/
theorem renderField_depth (h : field.cls ≠ .node ∧ field.cls ≠ .opt ∧ field.cls ≠ .seq)
    (depth' : Nat) :
    renderField src tag field depth slot = renderField src tag field depth' slot := by
  obtain ⟨hnode, hopt, hseq⟩ := h
  cases slot with
  | node n =>
      cases n with
      | none => simp only [renderField]
      | some n => cases hcls : field.cls <;> simp_all [renderField]
  | seq ns => cases hcls : field.cls <;> simp_all [renderField]
  | span s => simp only [renderField]
  | num v => simp only [renderField]
  | flag b => simp only [renderField]

theorem renderFields_depth
    (h : ∀ f ∈ fields, f.cls ≠ .node ∧ f.cls ≠ .opt ∧ f.cls ≠ .seq) (depth' : Nat) :
    renderFields src tag sep depth fields slots =
      renderFields src tag sep depth' fields slots := by
  induction fields generalizing slots with
  | nil => simp only [renderFields]
  | cons field fields ih =>
      cases slots with
      | nil => simp only [renderFields]
      | cons slot slots =>
          simp only [renderFields]
          rw [renderField_depth (h field List.mem_cons_self) depth',
            ih fun f hf => h f (List.mem_cons_of_mem field hf)]

/-- What stands before each field. -/
def WokTag.separator (tag : WokTag) (depth : Nat) : List UInt8 :=
  if tag.isBlock then ch '\n' :: indent (depth + 1) else [ch ' ']

theorem separator_blank : Blank (tag.separator depth) := by
  unfold WokTag.separator
  split
  · exact indent_blank (depth + 1)
  · intro b hb
    rw [List.mem_singleton.mp hb]
    decide

theorem separator_head (tag : WokTag) (depth : Nat) :
    ∃ b bs, tag.separator depth = b :: bs ∧ isWs b = true := by
  unfold WokTag.separator
  split
  · exact ⟨ch '\n', _, rfl, by decide⟩
  · exact ⟨ch ' ', _, rfl, by decide⟩

/-- A node in a block or on one line, within the limit: its fields may be taken to be one
level down in both. -/
theorem renderNode_eq {off len : UInt32} (h : depth ≤ wokSexprMaxDepth) :
    renderNode src depth (.mk tag off len slots) =
      putText (ch '(' :: bytes tag.name) ++
        renderFields src tag (tag.separator depth) (depth + 1) tag.fields slots ++
          putText [ch ')'] := by
  simp only [renderNode, WokTag.separator]
  rw [if_neg (by omega)]
  split
  · rfl
  · next hblock =>
      have hatoms : ∀ f ∈ tag.fields, f.cls ≠ .node ∧ f.cls ≠ .opt ∧ f.cls ≠ .seq := by
        intro f hf
        simp only [WokTag.isBlock, List.any_eq_true, not_exists, not_and] at hblock
        simpa [and_assoc] using hblock f hf
      rw [renderFields_depth hatoms (depth + 1)]

theorem depth_le_of_err {n : WokNode} (herr : (renderNode src depth n).err = []) :
    depth ≤ wokSexprMaxDepth := by
  cases n with
  | mk tag off len slots =>
      by_contra hdepth
      simp only [renderNode] at herr
      rw [if_pos (by omega)] at herr
      cases herr

theorem renderNode_head {n : WokNode} (herr : (renderNode src depth n).err = []) :
    ∃ bs, (renderNode src depth n).out = ch '(' :: bs := by
  have hdepth := depth_le_of_err herr
  cases n with
  | mk tag off len slots =>
      rw [renderNode_eq hdepth]
      exact ⟨_, rfl⟩

/-- A field is written from a byte on that is no blank and closes nothing, and is ASCII. -/
theorem renderField_head (h : FieldConforms size field slot)
    (herr : (renderField src tag field depth slot).err = []) :
    ∃ b bs, (renderField src tag field depth slot).out = b :: bs ∧ isWs b = false ∧
      b ≠ ch ')' ∧ b.toNat < 128 := by
  cases h with
  | @node field n cls family child =>
      simp only [renderField, cls] at herr ⊢
      obtain ⟨bs, hbs⟩ := renderNode_head herr
      exact ⟨ch '(', bs, hbs, by decide, by decide, by decide⟩
  | none cls =>
      simp only [renderField, cls]
      exact ⟨ch '(', bytes "none)", by decide, by decide, by decide, by decide⟩
  | some cls family child =>
      simp only [renderField, cls]
      exact ⟨ch '(', _, rfl, by decide, by decide, by decide⟩
  | seq cls families children =>
      simp only [renderField, cls]
      exact ⟨ch '(', _, rfl, by decide, by decide, by decide⟩
  | span cls within =>
      rcases cls with cls | cls
      · simp only [renderField, cls]
        exact ⟨ch '"', _, rfl, by decide, by decide, by decide⟩
      · simp only [renderField, cls]
        exact ⟨ch '"', _, rfl, by decide, by decide, by decide⟩
  | @num field v cls =>
      simp only [renderField, cls, putText_out]
      have hword := number_isWord v.toNat
      cases hout : number v.toNat with
      | nil => exact absurd hout hword.nonempty
      | cons b bs =>
          have hb := hword.solid b (by rw [hout]; exact List.mem_cons_self)
          refine ⟨b, bs, rfl, isWs_of_not_delim hb, ?_, ?_⟩
          · rintro rfl
            exact absurd hb (by decide)
          · exact number_ascii v.toNat b (by rw [hout]; exact List.mem_cons_self)
  | @flag field b cls =>
      simp only [renderField, cls]
      cases b
      · exact ⟨ch '#', [ch 'f'], by decide, by decide, by decide, by decide⟩
      · exact ⟨ch '#', [ch 't'], by decide, by decide, by decide, by decide⟩

/-! ### Reading back -/

/-- The reader with `left` levels to go inverts the writer at any depth that leaves it as
many. -/
def Inverts (src : List UInt8) (size left : Nat) : Prop :=
  ∀ depth n s ws, WokNode.Conforms size n → (renderNode src depth n).err = [] →
    wokSexprMaxDepth < depth + left → Blank ws →
      Reads (parseNode left) s (ws ++ (renderNode src depth n).out)
        (n.place src s.pool.length) (s.keep (n.texts src)) fun _ => True

theorem familiesOk_run {ns : List WokNode} {i : List UInt8}
    (h : ∀ n ∈ ns, field.family.accepts n.tag.family = true) :
    familiesOk field ns i s = .ok ((), i, s) := by
  induction ns with
  | nil => rfl
  | cons n ns ih =>
      have hn : familyOk field n i s = .ok ((), i, s) := by
        unfold familyOk
        rw [if_pos (h n List.mem_cons_self)]
        rfl
      unfold familiesOk
      rw [bind_run hn]
      exact ih fun n' hn' => h n' (List.mem_cons_of_mem n hn')

theorem mem_placeNodes_tag {ns : List WokNode} {start : Nat} {n : WokNode}
    (h : n ∈ placeNodes src start ns) : ∃ n' ∈ ns, n.tag = n'.tag := by
  induction ns generalizing start with
  | nil =>
      simp only [placeNodes] at h
      cases h
  | cons n' ns ih =>
      simp only [placeNodes] at h
      rcases List.mem_cons.mp h with rfl | h
      · exact ⟨n', List.mem_cons_self, WokNode.place_tag src start n'⟩
      · obtain ⟨n'', hmem, htag⟩ := ih h
        exact ⟨n'', List.mem_cons_of_mem n' hmem, htag⟩

/-- Before a byte that is no blank, the reader looks past the blanks. -/
theorem peekIs_blank {ws rest : List UInt8} {b c : UInt8} (hws : Blank ws) (hb : isWs b = false) :
    peekIs c (ws ++ b :: rest) s = .ok (decide (b = c), b :: rest, s) := by
  rw [peekIs_run, dropWs_bracket hws hb]
  simp

theorem closeNode_reads {ws : List UInt8} (hws : Blank ws) :
    Reads (closeNode tag) s (ws ++ [ch ')']) () s fun _ => True := by
  intro rest _
  have hpeek : peekIs (ch ')') (ws ++ ch ')' :: rest) s = _ := peekIs_blank hws (by decide)
  rw [List.append_assoc]
  unfold closeNode
  rw [List.singleton_append, bind_run hpeek]
  rfl

theorem stops_bracket {c : UInt8} {rest : List UInt8} (h : isDelim c = true) :
    Stops (c :: rest) := by
  intro b hb
  cases hb
  exact h

section Heads

variable {w what rest : List UInt8} {atEnd : UInt32 → WokDiag} {other : UInt32 → UInt8 → WokDiag}

theorem open_run : expectChar (ch '(') what (ch '(' :: rest) s = .ok ((), rest, s) :=
  expectChar_eq_ok.mpr ⟨rfl, rfl⟩

theorem close_run : expectChar (ch ')') what (ch ')' :: rest) s = .ok ((), rest, s) :=
  expectChar_eq_ok.mpr ⟨rfl, rfl⟩

theorem head_run (hw : IsWord w) (hrest : Stops rest) :
    wordElse atEnd other (w ++ rest) s =
      .ok ((UInt32.ofNat (s.n - (w ++ rest).length), w), rest, s) :=
  wordElse_run blank_nil hw hrest

end Heads

theorem none_isWord : IsWord (bytes "none") := isWord_of_all (by decide) (by decide)

theorem some_isWord : IsWord (bytes "some") := isWord_of_all (by decide) (by decide)

theorem seq_isWord : IsWord (bytes "seq") := isWord_of_all (by decide) (by decide)

theorem bracket_skip {rest : List UInt8} :
    (ch '(' :: rest).dropWhile isWs = ch '(' :: rest := rfl

theorem parseOpt_reads_none (child : Read WokNode) :
    Reads (parseOpt child) s (bytes "(none)") none s fun _ => True := by
  intro rest _
  have hinput : bytes "(none)" ++ rest = ch '(' :: (bytes "none" ++ ch ')' :: rest) := by
    simp [show bytes "(none)" = ch '(' :: (bytes "none" ++ [ch ')']) from by decide]
  rw [hinput]
  unfold parseOpt
  rw [bind_run skipWs_run, bracket_skip, bind_run pos_run, bind_run open_run,
    bind_run (head_run none_isWord (stops_bracket (by decide)))]
  simp only [if_true]
  rw [bind_run close_run]
  rfl

theorem parseOpt_reads_some {n : WokNode} (hinv : Inverts src size left)
    (hn : n.Conforms size) (herr : (renderNode src (depth + 1) n).err = [])
    (hdepth : wokSexprMaxDepth < depth + 1 + left) :
    Reads (parseOpt (parseNode left)) s
      (bytes "(some" ++ ch '\n' :: indent (depth + 1) ++ (renderNode src (depth + 1) n).out ++
        [ch ')'])
      (some (n.place src s.pool.length)) (s.keep (n.texts src)) fun _ => True := by
  intro rest _
  have hchild := hinv (depth + 1) n s (ch '\n' :: indent (depth + 1)) hn herr hdepth
    (indent_blank (depth + 1)) (ch ')' :: rest) trivial
  have hinput : bytes "(some" ++ ch '\n' :: indent (depth + 1) ++
      (renderNode src (depth + 1) n).out ++ [ch ')'] ++ rest =
        ch '(' :: (bytes "some" ++ (ch '\n' :: indent (depth + 1) ++
          (renderNode src (depth + 1) n).out ++ ch ')' :: rest)) := by
    simp [show bytes "(some" = ch '(' :: bytes "some" from by decide]
  have hne : bytes "some" ≠ bytes "none" := by decide
  have hstops : Stops (ch '\n' :: indent (depth + 1) ++
      (renderNode src (depth + 1) n).out ++ ch ')' :: rest) := stops_bracket (by decide)
  rw [hinput]
  unfold parseOpt
  rw [bind_run skipWs_run, bracket_skip, bind_run pos_run, bind_run open_run,
    bind_run (head_run some_isWord hstops)]
  simp only [hne, if_true, if_false]
  rw [bind_run hchild, bind_run close_run]
  rfl

theorem parseItems_reads (hinv : Inverts src size left) {ns : List WokNode}
    (hns : ∀ n ∈ ns, n.Conforms size) (herr : (renderItems src depth ns).err = [])
    (hdepth : wokSexprMaxDepth < depth + left) {fuel : Nat} (hfuel : ns.length ≤ fuel) :
    Reads (parseItems (parseNode left) fuel) s ((renderItems src depth ns).out ++ [ch ')'])
      (placeNodes src s.pool.length ns) (s.keep (nodesTexts src ns)) fun _ => True := by
  induction ns generalizing fuel s with
  | nil =>
      intro rest _
      have hpeek : peekIs (ch ')') (ch ')' :: rest) s = .ok (true, ch ')' :: rest, s) := rfl
      simp only [renderItems, placeNodes, nodesTexts, putText_out, List.nil_append,
        List.singleton_append, Reader.keep_nil]
      cases fuel with
      | zero =>
          unfold parseItems
          rw [bind_run hpeek]
          rfl
      | succ fuel =>
          unfold parseItems
          rw [bind_run hpeek]
          rfl
  | cons n ns ih =>
      intro rest _
      simp only [renderItems, Dump.append_err, putText_err, List.nil_append,
        List.append_eq_nil_iff] at herr
      obtain ⟨bs, hbs⟩ := renderNode_head herr.1
      cases fuel with
      | zero => cases hfuel
      | succ fuel =>
          have hchild := hinv depth n s [] (hns n List.mem_cons_self) herr.1 hdepth
            blank_nil ((renderItems src depth ns).out ++ [ch ')'] ++ rest) trivial
          have hitems := ih (s := s.keep (n.texts src))
            (fun n' hn' => hns n' (List.mem_cons_of_mem n hn')) herr.2
            (Nat.le_of_succ_le_succ hfuel) rest trivial
          have hpeek : peekIs (ch ')') (_ ++ ch '(' :: (bs ++
              ((renderItems src depth ns).out ++ [ch ')'] ++ rest))) s = _ :=
            peekIs_blank (indent_blank depth) (by decide)
          have hinput : (renderItems src depth (n :: ns)).out ++ [ch ')'] ++ rest =
              ch '\n' :: indent depth ++
                ch '(' :: (bs ++ ((renderItems src depth ns).out ++ [ch ')'] ++ rest)) := by
            simp [renderItems, hbs]
          rw [List.nil_append, hbs, List.cons_append] at hchild
          rw [hinput]
          unfold parseItems
          rw [bind_run hpeek]
          simp only [show ¬ ch '(' = ch ')' from by decide, decide_false, Bool.false_eq_true,
            if_false]
          rw [bind_run input_run]
          simp only
          rw [bind_run hchild, bind_run hitems]
          simp [placeNodes, nodesTexts]

theorem length_renderItems (ns : List WokNode) :
    ns.length ≤ (renderItems src depth ns).out.length := by
  induction ns with
  | nil => exact Nat.zero_le _
  | cons n ns ih =>
      simp only [renderItems, Dump.append_out, putText_out, List.length_append, List.length_cons]
      omega

theorem parseSeq_reads (hinv : Inverts src size left) {ns : List WokNode}
    (hns : ∀ n ∈ ns, n.Conforms size) (herr : (renderItems src depth ns).err = [])
    (hdepth : wokSexprMaxDepth < depth + left) :
    Reads (parseSeq (parseNode left)) s
      (bytes "(seq" ++ (renderItems src depth ns).out ++ [ch ')'])
      (placeNodes src s.pool.length ns) (s.keep (nodesTexts src ns)) fun _ => True := by
  intro rest _
  have hinput : bytes "(seq" ++ (renderItems src depth ns).out ++ [ch ')'] ++ rest =
      ch '(' :: (bytes "seq" ++ ((renderItems src depth ns).out ++ [ch ')'] ++ rest)) := by
    simp [show bytes "(seq" = ch '(' :: bytes "seq" from by decide]
  have hstops : Stops ((renderItems src depth ns).out ++ [ch ')'] ++ rest) := by
    cases ns with
    | nil => exact stops_bracket (by decide)
    | cons n ns => exact stops_bracket (by decide)
  have hfuel : ns.length ≤ ((renderItems src depth ns).out ++ [ch ')'] ++ rest).length := by
    have : ns.length ≤ (renderItems src depth ns).out.length := length_renderItems ns
    simp only [List.length_append]
    omega
  have hitems := parseItems_reads (s := s) hinv hns herr hdepth hfuel rest trivial
  rw [hinput]
  unfold parseSeq
  rw [bind_run skipWs_run, bracket_skip, bind_run pos_run, bind_run open_run,
    bind_run (head_run seq_isWord hstops)]
  simp only [if_true]
  rw [bind_run input_run]
  exact hitems

theorem parseField_reads (hinv : Inverts src size left) (hfield : FieldConforms size field slot)
    (herr : (renderField src tag field depth slot).err = [])
    (hdepth : wokSexprMaxDepth < depth + left) :
    Reads (parseField (parseNode left) field) s (renderField src tag field depth slot).out
      (slot.place src s.pool.length) (s.keep (slot.texts src)) Stops := by
  intro rest hrest
  unfold parseField
  cases hfield with
  | @node field n cls family child =>
      simp only [renderField, cls] at herr ⊢
      have hchild := hinv depth n s [] child herr hdepth blank_nil rest trivial
      have hfamily : familyOk field (n.place src s.pool.length) rest (s.keep (n.texts src)) =
          .ok ((), rest, s.keep (n.texts src)) := by
        unfold familyOk
        rw [if_pos (by rw [WokNode.place_tag]; exact family)]
        rfl
      rw [List.nil_append] at hchild
      rw [bind_run hchild, bind_run hfamily]
      rfl
  | none cls =>
      simp only [renderField, cls]
      rw [putText_out, bind_run (parseOpt_reads_none _ rest trivial)]
      simp only [Option.toList_none, familiesOk]
      rw [bind_run pure_run]
      simp [WokSlot.place, WokSlot.texts]
  | @some field n cls family child =>
      simp only [renderField, cls, Dump.append_err, putText_err, List.nil_append,
        List.append_nil] at herr ⊢
      have hopt := parseOpt_reads_some (s := s) hinv child herr (by omega) rest trivial
      have hfamilies : familiesOk field (some (n.place src s.pool.length)).toList rest
          (s.keep (n.texts src)) = _ := familiesOk_run (by
        intro n' hn'
        rw [Option.toList_some, List.mem_singleton] at hn'
        rw [hn', WokNode.place_tag]
        exact family)
      simp only [Dump.append_out, putText_out]
      rw [bind_run hopt, bind_run hfamilies]
      rfl
  | @seq field ns cls families children =>
      simp only [renderField, cls, Dump.append_err, putText_err, List.nil_append,
        List.append_nil] at herr ⊢
      have hseq := parseSeq_reads (s := s) hinv children herr (by omega) rest trivial
      have hfamilies : familiesOk field (placeNodes src s.pool.length ns) rest
          (s.keep (nodesTexts src ns)) = _ := familiesOk_run (by
        intro n hn
        obtain ⟨n', hn', htag⟩ := mem_placeNodes_tag hn
        rw [htag]
        exact families n' hn')
      simp only [Dump.append_out, putText_out]
      rw [bind_run hseq, bind_run hfamilies]
      rfl
  | @span field sp cls within =>
      have hlit := readStringLit_reads (s := s) (sp.text src) blank_nil rest trivial
      have hplace : s.span (sp.text src) = ⟨UInt32.ofNat s.pool.length, sp.len⟩ := by
        simp [Reader.span]
      rw [hplace] at hlit
      rcases cls with cls | cls
      · simp only [renderField, cls]
        rw [putText_out]
        exact bind_run hlit
      · simp only [renderField, cls]
        rw [putText_out]
        exact bind_run hlit
  | @num field v cls =>
      have hread := readUintField_reads (s := s) v blank_nil rest hrest
      simp only [renderField, cls]
      rw [putText_out, ← List.nil_append (number v.toNat), bind_run hread]
      simp [WokSlot.place, WokSlot.texts]
  | @flag field b cls =>
      have hread := readFlagField_reads (s := s) b blank_nil rest hrest
      simp only [renderField, cls]
      rw [putText_out, ← List.nil_append (if b = true then bytes "#t" else bytes "#f"),
        bind_run hread]
      simp [WokSlot.place, WokSlot.texts]

/-- The input goes on with the closing bracket. -/
def Closes (rest : List UInt8) : Prop := rest.head? = some (ch ')')

theorem stops_fields {rest : List UInt8} (hrest : Closes rest) :
    Stops ((renderFields src tag (tag.separator depth) (depth + 1) fields slots).out ++ rest) := by
  have hclose : Stops rest := by
    intro b hb
    rw [hrest] at hb
    cases hb
    decide
  cases fields with
  | nil => simpa [renderFields] using hclose
  | cons field fields =>
      cases slots with
      | nil => simpa [renderFields] using hclose
      | cons slot slots =>
          obtain ⟨b, bs, hsep, hb⟩ := separator_head tag depth
          simp only [renderFields, hsep]
          exact stops_bracket (by unfold isDelim; simp [hb])

theorem parseFields_reads (hinv : Inverts src size left) (i : Nat)
    (hfields : FieldsConform size fields slots)
    (herr : (renderFields src tag (tag.separator depth) (depth + 1) fields slots).err = [])
    (hdepth : wokSexprMaxDepth < depth + 1 + left) :
    Reads (parseFields (parseNode left) tag i fields) s
      (renderFields src tag (tag.separator depth) (depth + 1) fields slots).out
      (placeSlots src s.pool.length slots) (s.keep (slotsTexts src slots)) Closes := by
  induction fields generalizing slots i s with
  | nil =>
      intro rest _
      cases hfields
      simp only [renderFields, placeSlots, slotsTexts, putText_out, Reader.keep_nil]
      rfl
  | cons field fields ih =>
      intro rest hrest
      cases hfields with
      | @cons _ _ slot slots first tail =>
          simp only [renderFields, Dump.append_err, putText_err, List.nil_append,
            List.append_eq_nil_iff] at herr
          obtain ⟨b, bs, hout, hb, hclose, -⟩ := renderField_head first herr.1
          have hfield := parseField_reads (s := s) hinv first herr.1 hdepth
            ((renderFields src tag (tag.separator depth) (depth + 1) fields slots).out ++ rest)
            (stops_fields hrest)
          have htail := ih (s := s.keep (slot.texts src)) (i + 1) tail herr.2 rest hrest
          have hpeek : peekIs (ch ')') (tag.separator depth ++ b :: (bs ++
              ((renderFields src tag (tag.separator depth) (depth + 1) fields slots).out ++
                rest))) s = _ := peekIs_blank separator_blank hb
          have hinput :
              (renderFields src tag (tag.separator depth) (depth + 1) (field :: fields)
                (slot :: slots)).out ++ rest =
                tag.separator depth ++ b :: (bs ++
                  ((renderFields src tag (tag.separator depth) (depth + 1) fields
                    slots).out ++ rest)) := by
            simp [renderFields, hout]
          rw [hout, List.cons_append] at hfield
          rw [hinput]
          unfold parseFields
          rw [bind_run hpeek]
          simp only [hclose, decide_false, Bool.false_eq_true, if_false]
          rw [bind_run input_run]
          simp only
          rw [bind_run hfield, bind_run htail]
          simp [placeSlots, slotsTexts]

/-- The reader inverts the writer at every depth. -/
theorem parseNode_inverts (left : Nat) : Inverts src size left := by
  induction left with
  | zero =>
      intro depth n s ws _ herr hdepth
      have := depth_le_of_err herr
      omega
  | succ left ih =>
      intro depth n s ws hn herr hdepth hws rest _
      have hle := depth_le_of_err herr
      cases hn with
      | @mk tag off len slots fields =>
          rw [renderNode_eq hle] at herr ⊢
          simp only [Dump.append_err, putText_err, List.nil_append, List.append_nil] at herr
          have hfields := parseFields_reads (s := s) ih 0 fields herr (by omega)
            (ch ')' :: rest) rfl
          have hclose : closeNode tag _ (s.keep (slotsTexts src slots)) = _ :=
            closeNode_reads blank_nil rest trivial
          have hinput : ws ++ (putText (ch '(' :: bytes tag.name) ++
              renderFields src tag (tag.separator depth) (depth + 1) tag.fields slots ++
                putText [ch ')']).out ++ rest =
              ws ++ ch '(' :: (bytes tag.name ++
                ((renderFields src tag (tag.separator depth) (depth + 1) tag.fields slots).out ++
                  ch ')' :: rest)) := by
            simp
          have hskip : (ws ++ ch '(' :: (bytes tag.name ++
              ((renderFields src tag (tag.separator depth) (depth + 1) tag.fields slots).out ++
                ch ')' :: rest))).dropWhile isWs = _ := dropWs_bracket hws (by decide)
          rw [hinput]
          unfold parseNode
          rw [bind_run skipWs_run, hskip, bind_run pos_run, bind_run open_run,
            bind_run (head_run tag.name_isWord
              (stops_fields (show Closes (ch ')' :: rest) from rfl)))]
          simp only [lookupTag_name]
          rw [bind_run hfields]
          rw [List.nil_append, List.singleton_append] at hclose
          rw [bind_run hclose]
          simp [WokNode.place, WokNode.texts]

/-- What the writer writes without a marker is read as the node with its spans in a pool of
its own. -/
theorem wokSexprRead_dump {n : WokNode} (hn : n.Conforms size)
    (herr : (wokSexprDump src n).err = []) :
    wokSexprRead (wokSexprDump src n).out = .ok (n.place src 0, n.texts src ++ [0]) := by
  have herr' : (renderNode src 1 n).err = [] := by
    simpa [wokSexprDump] using herr
  have hinverts : Inverts src size wokSexprMaxDepth := parseNode_inverts wokSexprMaxDepth
  have hnode := hinverts 1 n ⟨(wokSexprDump src n).out.length, []⟩ [] hn herr' (by omega)
    blank_nil [ch '\n'] trivial
  have hend : ([ch '\n'] : List UInt8).dropWhile isWs = [] := by decide
  rw [List.nil_append] at hnode
  unfold wokSexprRead readRoot
  rw [show (wokSexprDump src n).out = (renderNode src 1 n).out ++ [ch '\n'] from rfl] at hnode ⊢
  rw [bind_run hnode, bind_run skipWs_run, hend, bind_run input_run]
  simp [Reader.keep]

end Wok.Grammar
