/-
Module: Wok.Proofs.ContractStore
Purpose: The operations of the store do not look through the view: reading, allocation,
  counting and drops, the brackets of activations and foreign calls.
Imports: Wok.Proofs.Contraction, Wok.Proofs.Drop
Trusted boundary: none
Main exports: deref_contract, alloc_contract, incref_contract, drop_contract
-/
import Wok.Proofs.Contraction
import Wok.Proofs.Drop

namespace Wok.Interp.RC

open Wok.IR
open Wok.Lib (Commutes mapVal mapSnd insert_mapVal erase_mapVal lookup_mapVal)

variable {env : RCEnv} {A : Allocator} {s s' : Store}

/-- A result next to a store, in the view. -/
def contractWith {α β : Type} (env : RCEnv) (f : α → β) (r : α × Store) : β × Store :=
  (f r.1, contractStore env r.2)

/-! ### Clear stores -/

theorem nodeClear.mono {R R' : Finset Addr} {n : Node} (h : nodeClear env R n) (hR : R' ⊆ R) :
    nodeClear env R' n := by
  cases n with
  | cont pfx h' tag sc =>
      intro fr hfr
      cases fr with
      | let_ b body sc' =>
          intro hinert
          rw [reservationsFromValues_filter hR, h _ hfr hinert]
          rfl
      | _ => trivial
  | _ => trivial

namespace cellsClear

variable {cells : AList fun _ : Int => Cell} {R R' : Finset Addr} {i : Int} {c : Cell}

theorem mono (h : cellsClear env cells R) (hR : R' ⊆ R) : cellsClear env cells R' :=
  fun j d hd => (h j d hd).mono hR

theorem insert (h : cellsClear env cells R) (hc : nodeClear env R c.node) :
    cellsClear env (cells.insert i c) R := by
  intro j d hd
  by_cases hj : j = i
  · subst hj
    rw [AList.lookup_insert] at hd
    cases hd
    exact hc
  · rw [AList.lookup_insert_ne hj] at hd
    exact h j d hd

theorem erase (h : cellsClear env cells R) : cellsClear env (cells.erase i) R := by
  intro j d hd
  by_cases hj : j = i
  · subst hj
    rw [AList.lookup_erase] at hd
    cases hd
  · rw [AList.lookup_erase_ne hj] at hd
    exact h j d hd

end cellsClear

/-! ### Reading -/

@[simp] theorem lookup_contractStore (env : RCEnv) (s : Store) (i : Int) :
    (contractStore env s).cells.lookup i = (s.cells.lookup i).map (contractCell env) :=
  lookup_mapVal _ _ i

@[simp] theorem isArenaAddr_contract (env : RCEnv) (s : Store) (a : Addr) :
    (contractStore env s).isArenaAddr a = s.isArenaAddr a := by
  cases a <;> rfl

theorem derefPure_contract (env : RCEnv) (i : Int) (s : Store) :
    derefPure i (contractStore env s) = (derefPure i s).map (contractCell env) := by
  simp only [derefPure, lookup_contractStore]
  by_cases hdead : i ∈ s.dead
  · rw [if_pos hdead, if_pos (show i ∈ (contractStore env s).dead from hdead)]
    rfl
  · rw [if_neg hdead, if_neg (show i ∉ (contractStore env s).dead from hdead)]
    cases s.cells.lookup i <;> rfl

theorem map_contractValue_readCArraySlots (kind : SlotKind) (o : WokObj) :
    (readCArraySlots kind o).map contractValue = readCArraySlots kind o := by
  simp [readCArraySlots, Function.comp_def]

theorem map_contractValue_zipWith (kinds : List SlotKind) (ws : List UInt64) :
    (List.zipWith decodeSlotC kinds ws).map contractValue =
      List.zipWith decodeSlotC kinds ws := by
  rw [List.map_zipWith]
  simp only [contractValue_decodeSlotC]

/-- What a C cell decodes to is its own view. -/
theorem readCConValues_contract (o : WokObj) (s : Store) :
    (readCConValues o s).map (List.map contractValue) = readCConValues o s := by
  unfold readCConValues
  cases s.conDesc.lookup o.tag with
  | none => rfl
  | some kinds =>
      simp only
      split_ifs
      · exact congrArg Except.ok (map_contractValue_zipWith kinds _)
      · rfl

theorem readCCell_contract (env : RCEnv) (p : Ptr) (s : Store) :
    readCCell p (contractStore env s) = (readCCell p s).map (contractCell env) := by
  have hobj : wokObj p (contractStore env s) = wokObj p s := rfl
  unfold readCCell
  rw [hobj]
  cases wokObj p s with
  | error e => rfl
  | ok o =>
      simp only [bind, Except.bind, pure, Except.pure]
      split_ifs
      · cases elemKindToSlotKind o.arity with
        | error e => rfl
        | ok kind =>
            simp [Except.map, contractCell, contractNode, map_contractValue_readCArraySlots]
      · rfl
      · rfl
      · rfl
      · have hbody : foreignBody o (contractStore env s) = foreignBody o s := rfl
        rw [hbody]
        cases foreignBody o s <;> rfl
      · have hbody : foreignBody o (contractStore env s) = foreignBody o s := rfl
        rw [hbody]
        cases foreignBody o s <;> rfl
      · have hvalues : readCConValues o (contractStore env s) = readCConValues o s := rfl
        have hname : tagName o.tag.toUInt32 (contractStore env s) =
            tagName o.tag.toUInt32 s := rfl
        rw [hvalues, hname]
        have hown := readCConValues_contract o s
        cases hvs : readCConValues o s with
        | error e => rfl
        | ok vs =>
            rw [hvs] at hown
            have hvs' : vs.map contractValue = vs := Except.ok.inj hown
            cases tagName o.tag.toUInt32 s with
            | error e => rfl
            | ok con => simp [Except.map, contractCell, contractNode, hvs']

theorem deref_contract (env : RCEnv) (a : Addr) (s : Store) :
    deref a (contractStore env s) = (deref a s).map (contractCell env) := by
  cases a with
  | c p => exact readCCell_contract env p s
  | heap i => exact derefPure_contract env i s
  | inline tid =>
      have hname : tagName tid (contractStore env s) = tagName tid s := rfl
      simp only [deref, hname]
      cases tagName tid s <;> rfl
  | inlineStr bs => rfl

/-- A cell that has been read, in both stores. -/
theorem deref_commutes (env : RCEnv) (a : Addr) (s : Store) :
    Commutes (contractCell env) (fun _ => True) (deref a s) (deref a (contractStore env s)) :=
  .of_view (deref_contract env a s)

theorem derefPure_commutes (env : RCEnv) (i : Int) (s : Store) :
    Commutes (contractCell env) (fun _ => True) (derefPure i s)
      (derefPure i (contractStore env s)) :=
  .of_view (derefPure_contract env i s)

/-- A cell of a clear store is clear. -/
theorem derefPure_clear (i : Int) (hs : s.Clear env) :
    Commutes (contractCell env) (fun c => nodeClear env s.reserved c.node) (derefPure i s)
      (derefPure i (contractStore env s)) := by
  refine ⟨derefPure_contract env i s, fun c h => ?_⟩
  unfold derefPure at h
  split_ifs at h
  cases hc : s.cells.lookup i with
  | none => rw [hc] at h; cases h
  | some d =>
      rw [hc] at h
      cases h
      exact hs i c hc

/-! ### Allocation -/

theorem internTag_contract (env : RCEnv) (con : String) (s : Store) :
    internTag con (contractStore env s) = contractWith env id (internTag con s) := by
  have htags : (contractStore env s).tags = s.tags := rfl
  have hnew : ∀ w : UInt32, (w, { contractStore env s with tags := (con, w) :: s.tags }) =
      contractWith env id (w, { s with tags := (con, w) :: s.tags }) := fun _ => rfl
  unfold internTag
  rw [htags]
  cases s.tags.lookup con with
  | some w => rfl
  | none => exact hnew _

theorem allocPureBytes_contract (env : RCEnv) (bytes : Int) (n : Node) (s : Store) :
    allocPureBytes bytes (contractNode env n) (contractStore env s) =
      contractWith env id (allocPureBytes bytes n s) := by
  have hcells : (contractStore env s).cells.insert s.next ⟨1, contractNode env n, bytes⟩ =
      mapVal (contractCell env) (s.cells.insert s.next ⟨1, n, bytes⟩) :=
    insert_mapVal (contractCell env) s.cells s.next ⟨1, n, bytes⟩
  have hnext : (contractStore env s).next = s.next := rfl
  simp only [allocPureBytes, hnext, hcells]
  rfl

theorem allocPure_contract (env : RCEnv) (n : Node) (s : Store) :
    allocPure (contractNode env n) (contractStore env s) =
      contractWith env id (allocPure n s) := by
  rw [allocPure, allocPure, wouldBeCBytes_contract, allocPureBytes_contract]

theorem allocPureFallback_contract (env : RCEnv) (n : Node) (s : Store) :
    allocPureFallback (contractNode env n) (contractStore env s) =
      contractWith env id (allocPureFallback n s) :=
  allocPureBytes_contract env 0 n s

theorem wokNew_contract (hA : A.Uniform env) (o : WokObj) (s : Store) :
    wokNew A o (contractStore env s) = (wokNew A o s).map (contractWith env id) := by
  simp only [wokNew, hA.pick s]
  cases A.pick s <;> rfl

theorem wokArrayAlloc_contract (hA : A.Uniform env) (kind : UInt8) (ws : List UInt64)
    (s : Store) :
    wokArrayAlloc A kind ws (contractStore env s) =
      (wokArrayAlloc A kind ws s).map (contractWith env id) := by
  unfold wokArrayAlloc
  split_ifs
  · rfl
  · exact wokNew_contract hA _ s

theorem wokBodyAlloc_contract (hA : A.Uniform env) (tag : UInt16) (bs : List UInt8) (s : Store) :
    wokBodyAlloc A tag bs (contractStore env s) =
      (wokBodyAlloc A tag bs s).map (contractWith env id) := by
  unfold wokBodyAlloc
  split_ifs
  · rfl
  · exact wokNew_contract hA _ s

/-- A new C cell that goes on the books. -/
theorem recorded_contract (env : RCEnv) (bytes : Int) {x y : Except Fault (Ptr × Store)}
    (h : y = x.map (contractWith env id)) :
    (do let (p, s') ← y; return (Addr.c p, recordAllocS bytes s')) =
      Except.map (contractWith env id)
        (do let (p, s') ← x; return (Addr.c p, recordAllocS bytes s')) := by
  rw [h]
  cases x <;> rfl

/-- A store that knows the slot kinds of one more tag. -/
def described (s : Store) (tid : UInt32) (encoded : List (SlotKind × UInt64)) : Store :=
  { s with conDesc := (tid.toUInt16, encoded.map (·.1)) :: s.conDesc }

theorem allocNCon_contract (hA : A.Uniform env) (con : String) (vs : List RCValue) (s : Store) :
    allocNCon A con (vs.map contractValue) (contractStore env s) =
      (allocNCon A con vs s).map (contractWith env id) := by
  have hpure : ∀ st, allocPure (.con con (vs.map contractValue)) (contractStore env st) =
      contractWith env id (allocPure (.con con vs) st) := allocPure_contract env (.con con vs)
  have hfall : ∀ st, allocPureFallback (.con con (vs.map contractValue)) (contractStore env st) =
      contractWith env id (allocPureFallback (.con con vs) st) :=
    allocPureFallback_contract env (.con con vs)
  have hbackend : (contractStore env s).backend = s.backend := rfl
  unfold allocNCon
  rw [hbackend, mapM_encodeSlotC_contract, List.length_map, internTag_contract]
  generalize internTag con s = tagged
  rcases tagged with ⟨tid, s₁⟩
  have hdesc : (contractStore env s₁).conDesc = s₁.conDesc := rfl
  simp only [contractWith, id, hdesc]
  by_cases hlen : vs.length > 255
  · cases s.backend with
    | abstractHeap => simp only [if_pos hlen, hpure]; rfl
    | cHeap => simp only [if_pos hlen, hfall]; rfl
  · simp only [if_neg hlen]
    cases s.backend with
    | abstractHeap =>
        cases vs.mapM encodeSlotC with
        | none => simp only [hpure]; rfl
        | some encoded =>
            simp only
            split_ifs
            · rw [hfall]; rfl
            · cases s₁.conDesc.lookup tid.toUInt16 with
              | none => exact congrArg Except.ok (hpure (described s₁ tid encoded))
              | some existing =>
                  simp only
                  split_ifs
                  · rw [hpure]; rfl
                  · rw [hfall]; rfl
    | cHeap =>
        cases vs.mapM encodeSlotC with
        | none => simp only [hfall]; rfl
        | some encoded =>
            simp only
            split_ifs
            · rw [hfall]; rfl
            · cases s₁.conDesc.lookup tid.toUInt16 with
              | none =>
                  exact recorded_contract env _
                    (wokNew_contract hA _ (described s₁ tid encoded))
              | some existing =>
                  simp only
                  split_ifs
                  · exact recorded_contract env _ (wokNew_contract hA _ _)
                  · rw [hfall]; rfl

theorem allocNArray_contract (hA : A.Uniform env) (vs : List RCValue) (s : Store) :
    allocNArray A (vs.map contractValue) (contractStore env s) =
      (allocNArray A vs s).map (contractWith env id) := by
  unfold allocNArray
  rw [mapM_encodeSlotC_contract, List.length_map]
  cases vs.mapM encodeSlotC with
  | none => rfl
  | some encoded => exact recorded_contract env _ (wokArrayAlloc_contract hA _ _ s)

theorem allocForeignBytes_contract (hA : A.Uniform env) (bs : List UInt8) (s : Store) :
    allocForeignBytes A bs (contractStore env s) =
      (allocForeignBytes A bs s).map (contractWith env id) := by
  unfold allocForeignBytes
  rw [hA.buffer s]
  cases A.buffer s with
  | none => rfl
  | some d =>
      exact recorded_contract env _
        (wokNew_contract hA _ { s with buffers := (d, bs) :: s.buffers })

theorem alloc_contract (hA : A.Uniform env) (n : Node) (s : Store) :
    alloc A (contractNode env n) (contractStore env s) =
      (alloc A n s).map (contractWith env id) := by
  have hbackend : (contractStore env s).backend = s.backend := rfl
  have hpure := allocPure_contract env n s
  cases n with
  | con con vs =>
      cases vs with
      | nil =>
          simp only [contractNode, List.map_nil, alloc, allocInline, internTag_contract]
          rfl
      | cons v vs => exact allocNCon_contract hA con (v :: vs) s
  | array vs =>
      simp only [contractNode] at hpure
      simp only [contractNode, alloc, hbackend, hpure]
      cases s.backend with
      | cHeap => exact allocNArray_contract hA vs s
      | abstractHeap => rfl
  | string bs =>
      simp only [contractNode] at hpure
      simp only [contractNode, alloc, hbackend, hpure]
      split_ifs
      · rfl
      · cases s.backend with
        | cHeap => exact recorded_contract env _ (wokBodyAlloc_contract hA _ bs s)
        | abstractHeap => rfl
  | bytes bs =>
      simp only [contractNode] at hpure
      simp only [contractNode, alloc, hbackend, hpure]
      cases s.backend with
      | cHeap => exact recorded_contract env _ (wokBodyAlloc_contract hA _ bs s)
      | abstractHeap => rfl
  | foreignBytes bs =>
      simp only [contractNode] at hpure
      simp only [contractNode, alloc, hbackend, hpure]
      cases s.backend with
      | cHeap => exact allocForeignBytes_contract hA bs s
      | abstractHeap => rfl
  | _ => exact congrArg Except.ok hpure

/-! ### What an allocation adds -/

/-- One cell with the node is new, at most. -/
structure Adds (n : Node) (s s' : Store) : Prop where
  reserved : s'.reserved = s.reserved
  cells : s'.cells = s.cells ∨ ∃ i bytes, s'.cells = s.cells.insert i ⟨1, n, bytes⟩

theorem Adds.clear {n : Node} (h : Adds n s s') (hs : s.Clear env)
    (hn : nodeClear env s.reserved n) : s'.Clear env := by
  rw [Store.Clear, h.reserved]
  rcases h.cells with hcells | ⟨i, bytes, hcells⟩
  · rw [hcells]
    exact hs
  · rw [hcells]
    exact hs.insert hn

theorem allocPureBytes_adds (bytes : Int) (n : Node) (s : Store) :
    Adds n s (allocPureBytes bytes n s).2 :=
  ⟨rfl, .inr ⟨s.next, bytes, rfl⟩⟩

theorem internTag_adds (con : String) (n : Node) (s : Store) : Adds n s (internTag con s).2 := by
  unfold internTag
  cases s.tags.lookup con <;> exact ⟨rfl, .inl rfl⟩

/-- A new tag leaves the cells alone. -/
theorem Adds.of_internTag {n : Node} {con : String} (h : Adds n (internTag con s).2 s') :
    Adds n s s' := by
  have htag : (internTag con s).2.cells = s.cells ∧ (internTag con s).2.reserved = s.reserved := by
    unfold internTag
    cases s.tags.lookup con <;> exact ⟨rfl, rfl⟩
  exact ⟨h.reserved.trans htag.2, htag.1 ▸ h.cells⟩

theorem Adds.of_described {n : Node} {tid : UInt32} {encoded : List (SlotKind × UInt64)}
    (h : Adds n (described s tid encoded) s') : Adds n s s' :=
  ⟨h.reserved, h.cells⟩

theorem wokNew_adds {n : Node} {o : WokObj} {r : Ptr × Store} (h : wokNew A o s = .ok r) :
    Adds n s r.2 := by
  unfold wokNew at h
  cases hp : A.pick s with
  | none => rw [hp] at h; cases h
  | some p =>
      rw [hp] at h
      cases h
      exact ⟨rfl, .inl rfl⟩

theorem recorded_adds {n : Node} {bytes : Int} {x : Except Fault (Ptr × Store)}
    {r : Addr × Store} (hx : ∀ q, x = .ok q → Adds n s q.2)
    (h : (do let (p, st) ← x; return (Addr.c p, recordAllocS bytes st)) = .ok r) :
    Adds n s r.2 := by
  cases x with
  | error e => cases h
  | ok q =>
      cases h
      exact ⟨(hx q rfl).reserved, (hx q rfl).cells⟩

theorem allocNCon_adds {con : String} {vs : List RCValue} {r : Addr × Store}
    (h : allocNCon A con vs s = .ok r) : Adds (.con con vs) s r.2 := by
  have hpure : ∀ bytes (st : Store),
      Adds (.con con vs) st (allocPureBytes bytes (.con con vs) st).2 :=
    fun bytes st => allocPureBytes_adds bytes _ st
  unfold allocNCon at h
  split at h
  · split_ifs at h
    · cases h
      exact hpure _ s
    · split at h
      · cases h
        exact hpure _ s
      next encoded _ =>
        simp only at h
        split_ifs at h
        · cases h
          exact (hpure _ _).of_internTag
        · split at h
          · cases h
            exact (hpure _ (described (internTag con s).2 _ encoded)).of_described.of_internTag
          · split_ifs at h <;> cases h <;> exact (hpure _ _).of_internTag
  · split_ifs at h
    · cases h
      exact hpure _ s
    · split at h
      · cases h
        exact hpure _ s
      next encoded _ =>
        simp only at h
        split_ifs at h
        · cases h
          exact (hpure _ _).of_internTag
        · split at h
          · split_ifs at h
            · exact (recorded_adds (fun _ hq => wokNew_adds hq) h).of_internTag
            · cases h
              exact (hpure _ _).of_internTag
          · exact (recorded_adds (s := described (internTag con s).2 _ encoded)
              (fun _ hq => wokNew_adds hq) h).of_described.of_internTag

theorem wokBodyAlloc_adds {n : Node} {tag : UInt16} {bs : List UInt8} {r : Ptr × Store}
    (h : wokBodyAlloc A tag bs s = .ok r) : Adds n s r.2 := by
  unfold wokBodyAlloc at h
  split_ifs at h
  exact wokNew_adds h

theorem allocForeignBytes_adds {bs : List UInt8} {r : Addr × Store}
    (h : allocForeignBytes A bs s = .ok r) : Adds (.foreignBytes bs) s r.2 := by
  unfold allocForeignBytes at h
  cases hd : A.buffer s with
  | none => rw [hd] at h; cases h
  | some d =>
      rw [hd] at h
      have hadds := recorded_adds (s := { s with buffers := (d, bs) :: s.buffers })
        (fun _ hq => wokNew_adds (n := .foreignBytes bs) hq) h
      exact ⟨hadds.reserved, hadds.cells⟩

theorem alloc_adds {n : Node} {r : Addr × Store} (h : alloc A n s = .ok r) : Adds n s r.2 := by
  have hpure : ∀ m, Adds m s (allocPure m s).2 := fun m => allocPureBytes_adds _ m s
  unfold alloc at h
  split at h
  · cases h
    exact internTag_adds _ _ s
  · exact allocNCon_adds h
  · split at h
    · unfold allocNArray at h
      split at h
      · cases h
      · refine recorded_adds (fun q hq => ?_) h
        unfold wokArrayAlloc at hq
        split_ifs at hq
        exact wokNew_adds hq
    · cases h
      exact hpure _
  · split_ifs at h
    · cases h
      exact ⟨rfl, .inl rfl⟩
    · split at h
      · exact recorded_adds (fun _ hq => wokBodyAlloc_adds hq) h
      · cases h
        exact hpure _
  · split at h
    · exact recorded_adds (fun _ hq => wokBodyAlloc_adds hq) h
    · cases h
      exact hpure _
  · split at h
    · exact allocForeignBytes_adds h
    · cases h
      exact hpure _
  · cases h
    exact hpure _

/-- An allocation of a node that is clear, in both stores. -/
theorem alloc_commutes (hA : A.Uniform env) {n : Node} (hs : s.Clear env)
    (hn : nodeClear env s.reserved n) :
    Commutes (contractWith env id) (fun r => r.2.Clear env) (alloc A n s)
      (alloc A (contractNode env n) (contractStore env s)) :=
  ⟨alloc_contract hA n s, fun _ h => (alloc_adds h).clear hs hn⟩

/-! ### Another reference -/

theorem insert_contract (env : RCEnv) (s : Store) (i : Int) (c : Cell) :
    (contractStore env s).cells.insert i (contractCell env c) =
      mapVal (contractCell env) (s.cells.insert i c) :=
  insert_mapVal (contractCell env) s.cells i c

theorem incref_commutes (a : Addr) (hs : s.Clear env) :
    Commutes (contractStore env) (Store.Clear env) (incref a s)
      (incref a (contractStore env s)) := by
  cases a with
  | c p =>
      simp only [incref, isArenaAddr_contract]
      refine .ite (.ok rfl hs) ?_
      have hobj : wokObj p (contractStore env s) = wokObj p s := rfl
      unfold wokDup
      rw [hobj]
      cases wokObj p s with
      | error e => exact .error e
      | ok o => exact .ok rfl hs
  | heap i =>
      simp only [incref, isArenaAddr_contract, increfPure]
      refine .ite (.ok rfl hs) (.ite (.ok rfl hs) ?_)
      refine .bind (derefPure_clear i hs) fun c hc => ?_
      refine .ok ?_ (hs.insert hc)
      have hcells := insert_contract env s i { c with rc := c.rc + 1 }
      simp only [contractCell] at hcells ⊢
      rw [hcells]
      rfl
  | inline t => exact .ok rfl hs
  | inlineStr bs => exact .ok rfl hs

theorem increfAll_commutes (as : List Addr) (hs : s.Clear env) :
    Commutes (contractStore env) (Store.Clear env) (increfAll as s)
      (increfAll as (contractStore env s)) :=
  .foldlM (fun _ a ht => incref_commutes a ht) as hs

/-! ### Dropping -/

/-- What `wokDec` leaves, in the view. -/
def contractDec (env : RCEnv) (r : Nat × WokObj × Store) : Nat × WokObj × Store :=
  (r.1, r.2.1, contractStore env r.2.2)

theorem wokDec_commutes (p : Ptr) (hs : s.Clear env) :
    Commutes (contractDec env) (fun r => r.2.2.Clear env) (wokDec p s)
      (wokDec p (contractStore env s)) := by
  have hobjs : (contractStore env s).objs = s.objs := rfl
  unfold wokDec
  rw [hobjs]
  cases s.objs.lookup p with
  | none => exact .error _
  | some o => exact .ite (.error _) (.ok rfl hs)

theorem wokFree_commutes (p : Ptr) (hs : s.Clear env) :
    Commutes (contractStore env) (Store.Clear env) (wokFree p s)
      (wokFree p (contractStore env s)) := by
  have hobjs : (contractStore env s).objs = s.objs := rfl
  unfold wokFree
  rw [hobjs]
  cases s.objs.lookup p with
  | none => exact .error _
  | some o => exact .ite (.ok rfl hs) (.error _)

theorem dropCAddr_commutes (p : Ptr) (hs : s.Clear env) :
    Commutes (contractWith env id) (fun r => r.2.Clear env) (dropCAddr p s)
      (dropCAddr p (contractStore env s)) := by
  refine .bind (wokDec_commutes p hs) fun r h₁ => ?_
  rcases r with ⟨newrc, o, s₁⟩
  refine .ite (.ok rfl h₁) ?_
  refine .bind (.refl (objKids o s₁)) fun kids _ => ?_
  refine .bind (.refl (heapPtr s₁)) fun _ _ => ?_
  exact .bind (wokFree_commutes p h₁) fun s₂ h₂ => .ok rfl h₂

end Wok.Interp.RC
