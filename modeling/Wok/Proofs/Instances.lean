/-
Module: Wok.Proofs.Instances
Purpose: Resolution of class constraints against registered instances: when it ends, and
  when the instances it picks fit.
Imports: Wok.Lib.Refinement, Wok.Spec.Classes
Trusted boundary: none
Main exports: resolve_explains, resolve_halts, applySub_instMatch, register_instances,
  resolve_registered
-/
import Wok.Lib.Refinement
import Wok.Spec.Classes

namespace Wok.TypeChecking

open Wok.Lib (exceptBind_ok)

section Runs

variable {ε α β : Type} {x : ExceptT ε Option α} {f : α → ExceptT ε Option β}

theorem run_bind_eq_ok {b : β} :
    (x >>= f).run = some (.ok b) ↔ ∃ a, x.run = some (.ok a) ∧ (f a).run = some (.ok b) := by
  rw [ExceptT.run_bind]
  rcases x.run with _ | _ | a
  · simp
  · simp
  · simp

theorem run_bind_ne_none (hx : x.run ≠ none)
    (hf : ∀ a, x.run = some (.ok a) → (f a).run ≠ none) : (x >>= f).run ≠ none := by
  rw [ExceptT.run_bind]
  rcases h : x.run with _ | _ | a
  · exact absurd h hx
  · simp
  · simpa using hf a h

theorem run_bind_none (hx : x.run = none) : (x >>= f).run = none := by
  rw [ExceptT.run_bind, hx]
  rfl

theorem run_mapM_ok {l : List α} {bs : List β} (h : (l.mapM f).run = some (.ok bs)) :
    bs.length = l.length ∧
      ∀ n (hn : n < l.length) (hn' : n < bs.length), (f l[n]).run = some (.ok bs[n]) := by
  induction l generalizing bs with
  | nil =>
      cases h
      exact ⟨rfl, fun n hn => absurd hn (Nat.not_lt_zero n)⟩
  | cons a l ih =>
      rw [List.mapM_cons, run_bind_eq_ok] at h
      obtain ⟨b, hb, h⟩ := h
      rw [run_bind_eq_ok] at h
      obtain ⟨bs', hbs, h⟩ := h
      cases h
      obtain ⟨hlen, hall⟩ := ih hbs
      refine ⟨by simp [hlen], ?_⟩
      intro n hn hn'
      cases n with
      | zero => exact hb
      | succ n => exact hall n (Nat.lt_of_succ_lt_succ hn) (Nat.lt_of_succ_lt_succ hn')

theorem run_mapM_ne_none {l : List α} (h : ∀ a ∈ l, (f a).run ≠ none) :
    (l.mapM f).run ≠ none := by
  induction l with
  | nil => simp
  | cons a l ih =>
      rw [List.mapM_cons]
      apply run_bind_ne_none (h a List.mem_cons_self)
      intro b _
      apply run_bind_ne_none (ih fun a' ha' => h a' (List.mem_cons_of_mem a ha'))
      intro bs _
      simp

end Runs

variable {P E : Type} {env : Env E} {params : Finset Nat} {cls : String} {arg : CType}

/-! ### The resolver -/

/-- What the resolver picks from. -/
theorem mem_candidates (ts : List CType) {i : Env.InstanceInfo E} {c : TyCon} :
    i ∈ (lookupInstances cls env).filter (fun inst => headConEq inst.head c) ↔
      i ∈ env.instances ∧ i.cls = cls ∧ headCon i.head = headCon (.con c ts) := by
  rw [List.mem_filter, lookupInstances, List.mem_filter]
  have hhead : headConEq i.head c = true ↔ headCon i.head = headCon (.con c ts) := by
    cases i.head <;> simp [headConEq, headCon]
  rw [hhead, decide_eq_true_iff, and_assoc]

/-- Of a constraint, either the argument alone decides, or an instance is picked. -/
theorem resolve_succ (env : Env E) (params : Finset Nat) (cls : String) (arg : CType)
    (fuel : Nat) :
    (∃ r, (∀ fuel', (resolve env params (fuel' + 1) cls arg).run = some r) ∧
      ∀ ev, r = .ok ev → ∃ i ∈ params, arg = .gen i ∧ ev = .param (paramName cls i)) ∨
    ∃ i ∈ env.instances, i.cls = cls ∧ headCon i.head = headCon arg ∧
      resolve env params (fuel + 1) cls arg = (do
        let sub ← ExceptT.mk (some (instMatch i.head arg))
        let evs ← i.context.mapM fun ctx =>
          resolve env params fuel ctx.cls (applySub sub ctx.arg)
        return if evs.isEmpty then .global i.dictName else .app i.dictName evs) := by
  have hfail : ∀ e, (∀ fuel', (resolve env params (fuel' + 1) cls arg).run = some (.error e)) →
      ∃ r, (∀ fuel', (resolve env params (fuel' + 1) cls arg).run = some r) ∧
        ∀ ev, r = .ok ev → ∃ i ∈ params, arg = .gen i ∧ ev = .param (paramName cls i) :=
    fun e he => ⟨_, he, fun ev hev => by cases hev⟩
  cases arg with
  | gen i =>
      left
      by_cases hi : i ∈ params
      · refine ⟨.ok (.param (paramName cls i)), fun fuel' => ?_, ?_⟩
        · simp [resolve, hi]
        · intro ev hev
          cases hev
          exact ⟨i, hi, rfl, rfl⟩
      · exact hfail (.ambiguous cls) fun fuel' => by simp [resolve, hi]
  | con c ts =>
      cases hpick : (lookupInstances cls env).filter fun inst => headConEq inst.head c with
      | nil => exact .inl (hfail (.noInst cls (.con c ts)) fun fuel' => by simp [resolve, hpick])
      | cons i rest =>
          right
          have hmem := (mem_candidates ts).mp (hpick ▸ List.mem_cons_self)
          refine ⟨i, hmem.1, hmem.2.1, hmem.2.2, ?_⟩
          rw [resolve]
          simp only [hpick]
  | arr a r b => exact .inl (hfail (.noInst cls (.arr a r b)) fun fuel' => rfl)
  | record tag r => exact .inl (hfail (.noInst cls (.record tag r)) fun fuel' => rfl)
  | rowEmpty => exact .inl (hfail (.noInst cls .rowEmpty) fun fuel' => rfl)
  | rowExtend l t r => exact .inl (hfail (.noInst cls (.rowExtend l t r)) fun fuel' => rfl)

/-- If every match keeps an invariant of the arguments and fits, then so does the whole of
the evidence. -/
theorem resolve_explains {A : CType → Prop}
    {Fits : Env.InstanceInfo E → CType → GenSub → Prop}
    (hstep : ∀ i ∈ env.instances, ∀ arg sub, A arg → headCon i.head = headCon arg →
      instMatch i.head arg = .ok sub →
        Fits i arg sub ∧ ∀ ctx ∈ i.context, A (applySub sub ctx.arg))
    {fuel : Nat} {ev : Evidence} (ha : A arg)
    (h : (resolve env params fuel cls arg).run = some (.ok ev)) :
    Explains env params Fits cls arg ev := by
  induction fuel generalizing cls arg ev with
  | zero => cases h
  | succ fuel ih =>
      rcases resolve_succ env params cls arg fuel with ⟨r, hr, hparam⟩ | ⟨i, hi, rfl, hhead, heq⟩
      · rw [hr] at h
        obtain ⟨i, hi, rfl, rfl⟩ := hparam ev (Option.some.inj h)
        exact .param hi
      · rw [heq, run_bind_eq_ok] at h
        obtain ⟨sub, hsub, h⟩ := h
        have hmatch : instMatch i.head arg = .ok sub := Option.some.inj hsub
        rw [run_bind_eq_ok] at h
        obtain ⟨evs, hevs, h⟩ := h
        cases h
        obtain ⟨hlen, hall⟩ := run_mapM_ok hevs
        obtain ⟨hfits, hkeep⟩ := hstep i hi arg sub ha hhead hmatch
        exact .inst hi hmatch hfits hlen fun n hn hn' =>
          ih (hkeep _ (List.getElem_mem hn)) (hall n hn hn')

/-- If every match keeps an invariant and makes a measure of the arguments smaller, then
resolution ends. -/
theorem resolve_halts {A : CType → Prop} {size : CType → Nat}
    (hstep : ∀ i ∈ env.instances, ∀ arg sub, A arg → headCon i.head = headCon arg →
      instMatch i.head arg = .ok sub →
        ∀ ctx ∈ i.context, A (applySub sub ctx.arg) ∧ size (applySub sub ctx.arg) < size arg)
    {fuel : Nat} (ha : A arg) (hfuel : size arg < fuel) :
    (resolve env params fuel cls arg).run ≠ none := by
  induction fuel generalizing cls arg with
  | zero => exact absurd hfuel (Nat.not_lt_zero _)
  | succ fuel ih =>
      rcases resolve_succ env params cls arg fuel with ⟨r, hr, _⟩ | ⟨i, hi, rfl, hhead, heq⟩
      · rw [hr]
        exact Option.some_ne_none r
      · rw [heq]
        apply run_bind_ne_none (by simp)
        intro sub hsub
        have hmatch : instMatch i.head arg = .ok sub := Option.some.inj hsub
        apply run_bind_ne_none
        · apply run_mapM_ne_none
          intro ctx hctx
          obtain ⟨hkeep, hlt⟩ := hstep i hi arg sub ha hhead hmatch ctx hctx
          exact ih hkeep (by omega)
        · intro evs _
          simp

/-! ### Heads -/

mutual

/-- What the translation of an instance's head builds. -/
def CType.IsHead : CType → Prop
  | .con _ ts => AreHeads ts
  | .arr a r b => a.IsHead ∧ r = .rowEmpty ∧ b.IsHead
  | .gen _ => True
  | _ => False

def AreHeads : List CType → Prop
  | [] => True
  | t :: ts => t.IsHead ∧ AreHeads ts

end

mutual

/-- The variables of a head, as often as they occur. -/
def CType.gens : CType → List Nat
  | .con _ ts => gensAll ts
  | .arr a _ b => a.gens ++ b.gens
  | .gen i => [i]
  | _ => []

def gensAll : List CType → List Nat
  | [] => []
  | t :: ts => t.gens ++ gensAll ts

end

mutual

def CType.NoArrows : CType → Prop
  | .con _ ts => NoArrowsAll ts
  | .arr .. => False
  | _ => True

def NoArrowsAll : List CType → Prop
  | [] => True
  | t :: ts => t.NoArrows ∧ NoArrowsAll ts

end

section Match

variable {x : CType} {i : Nat}

mutual

/-- A match is about the variables of the head. -/
theorem lookup_instMatch (h t : CType) {m : GenSub} (hm : instMatch h t = .ok m)
    (hi : i ∉ h.gens) : m.lookup i = none := by
  cases h with
  | gen j =>
      cases hm
      have hne : i ≠ j := fun he => hi (he ▸ List.mem_singleton.mpr rfl)
      rw [List.lookup_cons, beq_false_of_ne hne]
      rfl
  | con c ts =>
      cases t with
      | con d us =>
          rw [instMatch] at hm
          split at hm
          · exact lookup_instMatches ts us hm hi
          · cases hm
      | _ => cases hm
  | arr a r b =>
      cases t with
      | arr a' r' b' =>
          rw [instMatch] at hm
          obtain ⟨m₁, h₁, hm⟩ := exceptBind_ok hm
          obtain ⟨m₂, h₂, hm⟩ := exceptBind_ok hm
          cases hm
          rw [CType.gens, List.mem_append, not_or] at hi
          rw [List.lookup_append, lookup_instMatch a a' h₁ hi.1, lookup_instMatch b b' h₂ hi.2]
          rfl
      | _ => cases hm
  | record tag r =>
      cases t with
      | record tag' r' =>
          rw [instMatch] at hm
          split at hm
          · cases hm
            rfl
          · cases hm
      | _ => cases hm
  | rowEmpty => cases hm
  | rowExtend l a r => cases hm

theorem lookup_instMatches (ts us : List CType) {m : GenSub} (hm : instMatches ts us = .ok m)
    (hi : i ∉ gensAll ts) : m.lookup i = none := by
  cases ts with
  | nil =>
      cases hm
      rfl
  | cons t ts =>
      cases us with
      | nil =>
          cases hm
          rfl
      | cons u us =>
          rw [instMatches] at hm
          obtain ⟨m₁, h₁, hm⟩ := exceptBind_ok hm
          obtain ⟨m₂, h₂, hm⟩ := exceptBind_ok hm
          cases hm
          rw [gensAll, List.mem_append, not_or] at hi
          rw [List.lookup_append, lookup_instMatch t u h₁ hi.1, lookup_instMatches ts us h₂ hi.2]
          rfl

end

/-- The function types of a head meet function types that perform nothing. -/
def Meets (h t : CType) : Prop := h.NoArrows ∨ t.PureArrows

mutual

/-- A substitution that has the match's entries for a head makes it the type that it
matches, if no variable occurs in it twice. -/
theorem applySub_instMatch (h t : CType) {m m' : GenSub} (hhead : h.IsHead)
    (hnodup : h.gens.Nodup) (hmeets : Meets h t) (hm : instMatch h t = .ok m)
    (hagree : ∀ i ∈ h.gens, m'.lookup i = m.lookup i) : applySub m' h = t := by
  cases h with
  | gen j =>
      cases hm
      have hj := hagree j (List.mem_singleton.mpr rfl)
      rw [List.lookup_cons_self] at hj
      simp [applySub, hj]
  | con c ts =>
      cases t with
      | con d us =>
          rw [instMatch] at hm
          split at hm
          next hcond =>
            rw [Bool.and_eq_true, decide_eq_true_iff, decide_eq_true_iff] at hcond
            obtain ⟨rfl, hlen⟩ := hcond
            have hmeets' : NoArrowsAll ts ∨ PureArrowsAll us := hmeets
            rw [applySub, applySubs_instMatches ts us hlen hhead hnodup hmeets' hm hagree]
          next => cases hm
      | _ => cases hm
  | arr a r b =>
      cases t with
      | arr a' r' b' =>
          obtain ⟨ha, hr, hb⟩ := hhead
          obtain ⟨hpa, hpr, hpb⟩ : (CType.arr a' r' b').PureArrows := by
            rcases hmeets with hno | hpure
            · exact hno.elim
            · exact hpure
          rw [instMatch] at hm
          obtain ⟨m₁, h₁, hm⟩ := exceptBind_ok hm
          obtain ⟨m₂, h₂, hm⟩ := exceptBind_ok hm
          cases hm
          rw [CType.gens, List.nodup_append] at hnodup
          have hfst : applySub m' a = a' :=
            applySub_instMatch a a' ha hnodup.1 (.inr hpa) h₁ fun i hi => by
              rw [hagree i (List.mem_append_left _ hi), List.lookup_append,
                lookup_instMatch b b' h₂ fun hi' => hnodup.2.2 i hi i hi' rfl, Option.or_none]
          have hsnd : applySub m' b = b' :=
            applySub_instMatch b b' hb hnodup.2.1 (.inr hpb) h₂ fun i hi => by
              rw [hagree i (List.mem_append_right _ hi), List.lookup_append,
                lookup_instMatch a a' h₁ fun hi' => hnodup.2.2 i hi' i hi rfl, Option.none_or]
          rw [applySub, hfst, hsnd, hr, hpr]
      | _ => cases hm
  | record tag r => exact hhead.elim
  | rowEmpty => exact hhead.elim
  | rowExtend l a r => exact hhead.elim

theorem applySubs_instMatches (ts us : List CType) {m m' : GenSub} (hlen : ts.length = us.length)
    (hhead : AreHeads ts) (hnodup : (gensAll ts).Nodup)
    (hmeets : NoArrowsAll ts ∨ PureArrowsAll us) (hm : instMatches ts us = .ok m)
    (hagree : ∀ i ∈ gensAll ts, m'.lookup i = m.lookup i) : applySubs m' ts = us := by
  cases ts with
  | nil =>
      cases us with
      | nil => rfl
      | cons u us => cases hlen
  | cons t ts =>
      cases us with
      | nil => cases hlen
      | cons u us =>
          rw [instMatches] at hm
          obtain ⟨m₁, h₁, hm⟩ := exceptBind_ok hm
          obtain ⟨m₂, h₂, hm⟩ := exceptBind_ok hm
          cases hm
          rw [gensAll, List.nodup_append] at hnodup
          have hhd : applySub m' t = u :=
            applySub_instMatch t u hhead.1 hnodup.1 (hmeets.imp And.left And.left) h₁
              fun i hi => by
                rw [hagree i (List.mem_append_left _ hi), List.lookup_append,
                  lookup_instMatches ts us h₂ fun hi' => hnodup.2.2 i hi i hi' rfl,
                  Option.or_none]
          have htl : applySubs m' ts = us :=
            applySubs_instMatches ts us (Nat.succ.inj hlen) hhead.2 hnodup.2.1
              (hmeets.imp And.right And.right) h₂ fun i hi => by
                rw [hagree i (List.mem_append_right _ hi), List.lookup_append,
                  lookup_instMatch t u h₁ fun hi' => hnodup.2.2 i hi' i hi rfl, Option.none_or]
          rw [applySubs, hhd, htl]

end

/-! ### Parts of a head -/

mutual

/-- A substitution makes a proper part of a head a smaller type than the head. -/
theorem sizeOf_elemSub (m : GenSub) (h : CType) (hhead : h.IsHead) (hx : elemSub x h = true) :
    sizeOf (applySub m x) < sizeOf (applySub m h) := by
  cases h with
  | con c ts =>
      have := sizeOf_elemSubs m ts hhead hx
      simp only [applySub, CType.con.sizeOf_spec]
      omega
  | arr a r b =>
      obtain ⟨ha, rfl, hb⟩ := hhead
      simp only [elemSub, elemSubR, Bool.or_eq_true, decide_eq_true_eq, Bool.false_eq_true,
        or_false] at hx
      simp only [applySub, CType.arr.sizeOf_spec]
      rcases hx with ((rfl | rfl) | hx) | hx
      · omega
      · omega
      · have := sizeOf_elemSub m a ha hx
        omega
      · have := sizeOf_elemSub m b hb hx
        omega
  | gen i => cases hx
  | record tag r => exact hhead.elim
  | rowEmpty => exact hhead.elim
  | rowExtend l a r => exact hhead.elim

theorem sizeOf_elemSubs (m : GenSub) (ts : List CType) (hhead : AreHeads ts)
    (hx : elemSubs x ts = true) : sizeOf (applySub m x) < sizeOf (applySubs m ts) := by
  cases ts with
  | nil => cases hx
  | cons t ts =>
      simp only [elemSubs, Bool.or_eq_true, decide_eq_true_eq] at hx
      simp only [applySubs, List.cons.sizeOf_spec]
      rcases hx with (rfl | hx) | hx
      · omega
      · have := sizeOf_elemSub m t hhead.1 hx
        omega
      · have := sizeOf_elemSubs m ts hhead.2 hx
        omega

end

mutual

theorem pureArrows_elemSub (m : GenSub) (h : CType) (hhead : h.IsHead)
    (hx : elemSub x h = true) (hpure : (applySub m h).PureArrows) :
    (applySub m x).PureArrows := by
  cases h with
  | con c ts => exact pureArrows_elemSubs m ts hhead hx hpure
  | arr a r b =>
      obtain ⟨ha, rfl, hb⟩ := hhead
      obtain ⟨hpa, -, hpb⟩ := hpure
      simp only [elemSub, elemSubR, Bool.or_eq_true, decide_eq_true_eq, Bool.false_eq_true,
        or_false] at hx
      rcases hx with ((rfl | rfl) | hx) | hx
      · exact hpa
      · exact hpb
      · exact pureArrows_elemSub m a ha hx hpa
      · exact pureArrows_elemSub m b hb hx hpb
  | gen i => cases hx
  | record tag r => exact hhead.elim
  | rowEmpty => exact hhead.elim
  | rowExtend l a r => exact hhead.elim

theorem pureArrows_elemSubs (m : GenSub) (ts : List CType) (hhead : AreHeads ts)
    (hx : elemSubs x ts = true) (hpure : PureArrowsAll (applySubs m ts)) :
    (applySub m x).PureArrows := by
  cases ts with
  | nil => cases hx
  | cons t ts =>
      obtain ⟨hpt, hpts⟩ := hpure
      simp only [elemSubs, Bool.or_eq_true, decide_eq_true_eq] at hx
      rcases hx with (rfl | hx) | hx
      · exact hpt
      · exact pureArrows_elemSub m t hhead.1 hx hpt
      · exact pureArrows_elemSubs m ts hhead.2 hx hpts

end

end Match

/-! ### Registered heads -/

/-- A closed type over the numbers of the variables of a type as it is written. -/
structure Renders (vmap : Dict Nat) (t : Abs.Ty) (c : CType) : Prop where
  isHead : c.IsHead
  gens : c.gens.map some = t.occurrences.map fun v => vmap.lookup v
  noArrows : t.ArrowFree → c.NoArrows

structure RendersAll (vmap : Dict Nat) (occs : List String) (free : Prop) (cs : List CType) :
    Prop where
  areHeads : AreHeads cs
  gens : (gensAll cs).map some = occs.map fun v => vmap.lookup v
  noArrows : free → NoArrowsAll cs

theorem areHeads_append {as bs : List CType} :
    AreHeads (as ++ bs) ↔ AreHeads as ∧ AreHeads bs := by
  induction as with
  | nil => simp [AreHeads]
  | cons a as ih => simp [AreHeads, ih, and_assoc]

theorem noArrowsAll_append {as bs : List CType} :
    NoArrowsAll (as ++ bs) ↔ NoArrowsAll as ∧ NoArrowsAll bs := by
  induction as with
  | nil => simp [NoArrowsAll]
  | cons a as ih => simp [NoArrowsAll, ih, and_assoc]

theorem gensAll_append {as bs : List CType} : gensAll (as ++ bs) = gensAll as ++ gensAll bs := by
  induction as with
  | nil => rfl
  | cons a as ih => simp [gensAll, ih]

section Translate

variable {vmap : Dict Nat}

theorem RendersAll.snoc {occs : List String} {free : Prop} {cs : List CType} {t : Abs.Ty}
    {c : CType} (hs : RendersAll vmap occs free cs) (h : Renders vmap t c) :
    RendersAll vmap (occs ++ t.occurrences) (free ∧ t.ArrowFree) (cs ++ [c]) where
  areHeads := areHeads_append.mpr ⟨hs.areHeads, h.isHead, trivial⟩
  gens := by simp [gensAll_append, gensAll, hs.gens, h.gens]
  noArrows hfree := noArrowsAll_append.mpr ⟨hs.noArrows hfree.1, h.noArrows hfree.2, trivial⟩

mutual

theorem typeArgToCType_renders (t : Abs.Ty) {c : CType} (h : typeArgToCType vmap t = .ok c) :
    Renders vmap t c := by
  cases t with
  | tQual ctx body =>
      have hb := typeArgToCType_renders body h
      exact ⟨hb.isHead, hb.gens, hb.noArrows⟩
  | tFun a b =>
      obtain ⟨ca, ha, h⟩ := exceptBind_ok h
      obtain ⟨cb, hb, h⟩ := exceptBind_ok h
      cases h
      have ha := typeArgToCType_renders a ha
      have hb := typeArgToCType_renders b hb
      exact ⟨⟨ha.isHead, rfl, hb.isHead⟩,
        by simp [CType.gens, Abs.Ty.occurrences, ha.gens, hb.gens], False.elim⟩
  | tWith a b effs =>
      obtain ⟨ca, ha, h⟩ := exceptBind_ok h
      obtain ⟨cb, hb, h⟩ := exceptBind_ok h
      cases h
      have ha := typeArgToCType_renders a ha
      have hb := typeArgToCType_renders b hb
      exact ⟨⟨ha.isHead, rfl, hb.isHead⟩,
        by simp [CType.gens, Abs.Ty.occurrences, ha.gens, hb.gens], False.elim⟩
  | tParen t =>
      have ht := typeArgToCType_renders t h
      exact ⟨ht.isHead, ht.gens, ht.noArrows⟩
  | tList inner =>
      obtain ⟨c, hc, h⟩ := exceptBind_ok h
      cases h
      have hc := typeArgToCType_renders inner hc
      exact ⟨⟨hc.isHead, trivial⟩,
        by simp [CType.gens, gensAll, Abs.Ty.occurrences, hc.gens],
        fun hfree => ⟨hc.noArrows hfree, trivial⟩⟩
  | tTuple a others =>
      obtain ⟨ca, ha, h⟩ := exceptBind_ok h
      obtain ⟨cs, hs, h⟩ := exceptBind_ok h
      cases h
      have ha := typeArgToCType_renders a ha
      have hs := typeArgsToCTypes_renders others hs
      exact ⟨⟨ha.isHead, hs.areHeads⟩,
        by simp [CType.gens, gensAll, Abs.Ty.occurrences, ha.gens, hs.gens],
        fun hfree => ⟨ha.noArrows hfree.1, hs.noArrows hfree.2⟩⟩
  | tUnit =>
      cases h
      exact ⟨trivial, rfl, fun _ => trivial⟩
  | tVar v =>
      rw [typeArgToCType] at h
      split at h
      next i hi =>
        cases h
        exact ⟨trivial, by simp [CType.gens, Abs.Ty.occurrences, hi], fun _ => trivial⟩
      next => cases h
  | tCon p =>
      obtain ⟨_, _, h⟩ := exceptBind_ok h
      cases h
      exact ⟨trivial, rfl, fun _ => trivial⟩
  | tApp f x =>
      rw [typeArgToCType] at h
      split at h
      next p hp =>
        obtain ⟨_, _, h⟩ := exceptBind_ok h
        obtain ⟨args, hargs, h⟩ := exceptBind_ok h
        obtain ⟨arg, harg, h⟩ := exceptBind_ok h
        cases h
        have hall := (appArgsToCTypes_renders f hp hargs).snoc (typeArgToCType_renders x harg)
        exact ⟨hall.areHeads, hall.gens, hall.noArrows⟩
      next => cases h
  | tExtend t op rc => cases h
  | tRowArg v => cases h
  | tOwned t => cases h

theorem appArgsToCTypes_renders (f : Abs.Ty) {p : Abs.ModPath} (hp : appHead f = .tCon p)
    {cs : List CType} (h : appArgsToCTypes vmap f = .ok cs) :
    RendersAll vmap f.occurrences f.ArrowFree cs := by
  cases f with
  | tApp f x =>
      obtain ⟨args, hargs, h⟩ := exceptBind_ok h
      obtain ⟨arg, harg, h⟩ := exceptBind_ok h
      cases h
      exact (appArgsToCTypes_renders f hp hargs).snoc (typeArgToCType_renders x harg)
  | tCon q =>
      cases h
      exact ⟨trivial, rfl, fun _ => trivial⟩
  | _ => cases hp

theorem typeArgsToCTypes_renders (ts : List Abs.Ty) {cs : List CType}
    (h : typeArgsToCTypes vmap ts = .ok cs) :
    RendersAll vmap (Abs.occurrencesAll ts) (Abs.ArrowFreeAll ts) cs := by
  cases ts with
  | nil =>
      cases h
      exact ⟨trivial, rfl, fun _ => trivial⟩
  | cons t ts =>
      obtain ⟨c, hc, h⟩ := exceptBind_ok h
      obtain ⟨cs, hcs, h⟩ := exceptBind_ok h
      cases h
      have hc := typeArgToCType_renders t hc
      have hcs := typeArgsToCTypes_renders ts hcs
      exact ⟨⟨hc.isHead, hcs.areHeads⟩,
        by simp [gensAll, Abs.occurrencesAll, hc.gens, hcs.gens],
        fun hfree => ⟨hc.noArrows hfree.1, hcs.noArrows hfree.2⟩⟩

end

end Translate

/-! ### Numbering -/

/-- The numbers of distinct names are distinct, and below the number of names. -/
structure Numbers (m : Dict Nat) : Prop where
  nodup : (m.map (·.2)).Nodup
  below : ∀ e ∈ m, e.2 < m.length

theorem perm_insert {k : String} {v : Nat} {m : Dict Nat} (h : m.lookup k = none) :
    (m.insert k v).Perm ((k, v) :: m) := by
  induction m with
  | nil => exact List.Perm.refl _
  | cons e m ih =>
      obtain ⟨k', v'⟩ := e
      rw [List.lookup_cons] at h
      have hne : k ≠ k' := by
        rintro rfl
        simp at h
      rw [beq_false_of_ne hne] at h
      rw [Dict.insert, if_neg hne]
      split
      · exact List.Perm.refl _
      · exact ((ih h).cons _).trans (List.Perm.swap _ _ _)

theorem Numbers.nil : Numbers [] := ⟨List.nodup_nil, fun _ he => by cases he⟩

theorem Numbers.numberVar {m : Dict Nat} (h : Numbers m) (n : String) :
    Numbers (numberVar m n) := by
  unfold TypeChecking.numberVar
  split
  next => exact h
  next hnone =>
    have hnone' : m.lookup n = none := by
      rw [Dict.member, Bool.not_eq_true, Option.isSome_eq_false_iff,
        Option.isNone_iff_eq_none] at hnone
      exact hnone
    have hperm := perm_insert (v := m.length) hnone'
    constructor
    · rw [(hperm.map _).nodup_iff, List.map_cons, List.nodup_cons]
      refine ⟨?_, h.nodup⟩
      intro hmem
      obtain ⟨e, he, heq⟩ := List.mem_map.mp hmem
      have := h.below e he
      omega
    · intro e he
      rw [hperm.length_eq, List.length_cons]
      rcases List.mem_cons.mp (hperm.mem_iff.mp he) with rfl | he
      · exact Nat.lt_succ_self _
      · exact Nat.lt_succ_of_lt (h.below e he)

mutual

theorem Numbers.collectVarsT {m : Dict Nat} (h : Numbers m) (t : Abs.Ty) :
    Numbers (collectVarsT m t) := by
  cases t with
  | tQual ctx b => exact h.collectVarsT b
  | tFun a b => exact (h.collectVarsT a).collectVarsT b
  | tWith a b effs => exact (h.collectVarsT a).collectVarsT b
  | tParen t => exact h.collectVarsT t
  | tList inner => exact h.collectVarsT inner
  | tTuple a others => exact (h.collectVarsT a).collectVarsTs others
  | tUnit => exact h
  | tApp f x => exact (h.collectVarsT f).collectVarsT x
  | tExtend a op rc => exact h.collectVarsT a
  | tCon p => exact h
  | tOwned t => exact h.collectVarsT t
  | tRowArg v => exact h.numberVar v.text
  | tVar v => exact h.numberVar v.text

theorem Numbers.collectVarsTs {m : Dict Nat} (h : Numbers m) (ts : List Abs.Ty) :
    Numbers (collectVarsTs m ts) := by
  cases ts with
  | nil => exact h
  | cons t ts => exact (h.collectVarsT t).collectVarsTs ts

end

theorem Numbers.collectVars {m : Dict Nat} (h : Numbers m) (ctx : List Abs.Constraint) :
    Numbers (collectVars m ctx) := by
  induction ctx generalizing m with
  | nil => exact h
  | cons c ctx ih => exact ih (h.collectVarsTs c.args)

theorem Numbers.lookup_inj {m : Dict Nat} (h : Numbers m) {a b : String} {n : Nat}
    (ha : m.lookup a = some n) (hb : m.lookup b = some n) : a = b := by
  have hmem : ∀ {k : String}, m.lookup k = some n → (k, n) ∈ m := by
    intro k hk
    obtain ⟨l₁, l₂, hm, _⟩ := List.lookup_eq_some_iff.mp hk
    rw [hm]
    simp
  have heq := List.inj_on_of_nodup_map h.nodup (hmem ha) (hmem hb) rfl
  exact congrArg Prod.fst heq

/-- A head in which no variable is written twice has no number twice. -/
theorem Renders.nodup {vmap : Dict Nat} {t : Abs.Ty} {c : CType} (h : Renders vmap t c)
    (hn : Numbers vmap) (hocc : t.occurrences.Nodup) : c.gens.Nodup := by
  have hmap : (t.occurrences.map fun v => vmap.lookup v).Nodup := by
    refine hocc.map_on fun a ha b hb heq => ?_
    have hmem : vmap.lookup a ∈ c.gens.map some :=
      h.gens ▸ List.mem_map_of_mem (f := fun v => vmap.lookup v) ha
    obtain ⟨n, -, hlook⟩ := List.mem_map.mp hmem
    exact hn.lookup_inj hlook.symm (heq ▸ hlook.symm)
  rw [← h.gens] at hmap
  exact hmap.of_map

/-! ### Registration -/

section Register

variable {env' : Env E} {d : Abs.Decl P E}

theorem forM_ok {α ε : Type} {l : List α} {f : α → Except ε Unit} {u : Unit}
    (h : l.forM f = .ok u) : ∀ a ∈ l, ∃ v, f a = .ok v := by
  induction l with
  | nil => simp
  | cons a l ih =>
      change (f a >>= fun _ => l.forM f) = _ at h
      obtain ⟨v, hv, h⟩ := exceptBind_ok h
      intro a' ha'
      rcases List.mem_cons.mp ha' with rfl | ha'
      · exact ⟨v, hv⟩
      · exact ih h a' ha'

theorem orThrow_ok {α : Type} {e : ClassError} {o : Option α} {a : α}
    (h : orThrow e o = .ok a) : o = some a := by
  cases o with
  | none => cases h
  | some b => exact congrArg some (Except.ok.inj h)

theorem splitHead_plain {ihead : Abs.InstHead} {ctx : List Abs.Constraint} {cname : String}
    {args : List Abs.Ty} (h : splitHead ihead = (ctx, cname, args)) : '$' ∉ cname.toList := by
  cases ihead with
  | ihPlain c _ =>
      cases h
      exact c.plain
  | ihCtx _ c _ =>
      cases h
      exact c.plain

theorem splitHead_heads {ihead : Abs.InstHead} {ctx : List Abs.Constraint} {cname : String}
    {args : List Abs.Ty} (entries : List (Abs.InstEntry P E))
    (h : splitHead ihead = (ctx, cname, args)) :
    (Abs.Decl.dInstance ihead entries).heads = args := by
  cases ihead with
  | ihPlain _ _ =>
      cases h
      rfl
  | ihCtx _ _ _ =>
      cases h
      rfl

/-- What a registered instance is, next to those that were there. -/
structure IsInstance (env : Env E) (d : Abs.Decl P E) (i : Env.InstanceInfo E) : Prop where
  plain : '$' ∉ i.cls.toList
  head : ∃ t vmap, d.heads = [t] ∧ Numbers vmap ∧ typeArgToCType vmap t = .ok i.head
  smaller : ∀ ctx ∈ i.context, smaller ctx.arg i.head = true
  dict : instanceDictName d = .ok i.dictName
  con : ∃ c, headCon i.head = some c ∧ i.dictName = dictName i.cls c
  fresh : ∀ j ∈ env.instances, j.cls = i.cls → headCon j.head ≠ headCon i.head

theorem processClassDecl_instances (h : processClassDecl env d = .ok env') :
    env'.instances = env.instances := by
  have hvars : ∀ (sigs : List (String × Scheme)) (e : Env E),
      (sigs.foldl (fun e s => extendVar s.1 s.2 e) e).instances = e.instances := by
    intro sigs
    induction sigs with
    | nil => exact fun _ => rfl
    | cons s sigs ih => exact fun e => ih _
  cases d with
  | dClass c params entries =>
      simp only [processClassDecl] at h
      obtain ⟨pvar, _, h⟩ := exceptBind_ok h
      obtain ⟨sigs, _, h⟩ := exceptBind_ok h
      cases h
      exact hvars sigs _
  | dInstance ihead entries =>
      cases h
      rfl

/-- A declaration adds nothing to the instances, or one that passes the checks. -/
theorem processInstanceDecl_instances (h : processInstanceDecl env d = .ok env') :
    env'.instances = env.instances ∨
      ∃ i, env'.instances = i :: env.instances ∧ IsInstance env d i := by
  cases d with
  | dClass c params entries =>
      cases h
      exact .inl rfl
  | dInstance ihead entries =>
      right
      rcases hsplit : splitHead ihead with ⟨ctxC, cname, targs⟩
      simp only [processInstanceDecl, hsplit] at h
      obtain ⟨ci, _, h⟩ := exceptBind_ok h
      obtain ⟨argTy, harg, h⟩ := exceptBind_ok h
      obtain ⟨headTy, hhead, h⟩ := exceptBind_ok h
      obtain ⟨context, hcontext, h⟩ := exceptBind_ok h
      obtain ⟨_, hsmaller, h⟩ := exceptBind_ok h
      obtain ⟨hc, hcon, h⟩ := exceptBind_ok h
      obtain ⟨_, hoverlap, h⟩ := exceptBind_ok h
      obtain ⟨_, _, h⟩ := exceptBind_ok h
      cases h
      refine ⟨_, rfl, splitHead_plain hsplit, ⟨argTy, _, ?_, ?_, hhead⟩, ?_, ?_, ?_, ?_⟩
      · rw [splitHead_heads entries hsplit]
        rcases targs with _ | ⟨t, _ | ⟨u, targs⟩⟩
        · cases harg
        · rw [Except.ok.inj harg]
        · cases harg
      · exact (Numbers.nil.collectVarsT argTy).collectVars ctxC
      · intro ctx hctx
        obtain ⟨v, hv⟩ := forM_ok hsmaller ctx hctx
        by_cases hs : smaller ctx.arg headTy = true
        · exact hs
        · rw [if_neg hs] at hv
          cases hv
      · have hdict : instanceDictName (Abs.Decl.dInstance ihead entries) =
            (do
              let t ← instArg cname targs
              let headTy ← typeArgToCType (collectVars (collectVarsT [] t) ctxC) t
              let hc ← instCon cname headTy
              return dictName cname hc) := by
          simp only [instanceDictName, hsplit]
        rw [hdict, harg]
        change (typeArgToCType (collectVars (collectVarsT [] argTy) ctxC) argTy >>= fun headTy =>
          instCon cname headTy >>= fun hc => pure (dictName cname hc)) = _
        rw [hhead]
        change (instCon cname headTy >>= fun hc => pure (dictName cname hc)) = _
        rw [hcon]
        rfl
      · exact ⟨hc, orThrow_ok hcon, rfl⟩
      · intro j hj hcls heq
        rw [orThrow_ok hcon] at heq
        unfold checkOverlap at hoverlap
        rw [if_pos] at hoverlap
        · cases hoverlap
        · rw [List.any_eq_true]
          exact ⟨j, hj, by simp [hcls, heq]⟩

theorem register_instances (h : register env d = .ok env') :
    env'.instances = env.instances ∨
      ∃ i, env'.instances = i :: env.instances ∧ IsInstance env d i := by
  obtain ⟨env₁, hclass, h⟩ := exceptBind_ok h
  have hsame := processClassDecl_instances hclass
  rcases processInstanceDecl_instances h with heq | ⟨i, heq, hi⟩
  · exact .inl (heq.trans hsame)
  · refine .inr ⟨i, by rw [heq, hsame], hi.plain, hi.head, hi.smaller, hi.dict, hi.con, ?_⟩
    rw [← hsame]
    exact hi.fresh

/-- Every instance of an environment that is registered from none is one of the
declarations'. -/
theorem registerAll_instances {P' : Env.InstanceInfo E → Prop} {ds : List (Abs.Decl P E)}
    (hstart : ∀ i ∈ env.instances, P' i)
    (hnew : ∀ d ∈ ds, ∀ env i, IsInstance env d i → P' i)
    (h : registerAll env ds = .ok env') : ∀ i ∈ env'.instances, P' i := by
  induction ds generalizing env with
  | nil =>
      cases h
      exact hstart
  | cons d ds ih =>
      rw [registerAll, List.foldlM_cons] at h
      obtain ⟨env₁, hd, h⟩ := exceptBind_ok h
      refine ih ?_ (fun d' hd' => hnew d' (List.mem_cons_of_mem d hd')) h
      rcases register_instances hd with heq | ⟨i, heq, hi⟩
      · rw [heq]
        exact hstart
      · rw [heq]
        intro j hj
        rcases List.mem_cons.mp hj with rfl | hj
        · exact hnew d List.mem_cons_self env j hi
        · exact hstart j hj

end Register

/-! ### Sound resolution -/

/-- The head of an instance names no variable twice, and its context is about parts of
it. -/
structure Fit (i : Env.InstanceInfo E) : Prop where
  isHead : i.head.IsHead
  nodup : i.head.gens.Nodup
  part : ∀ ctx ∈ i.context, elemSub ctx.arg i.head = true

theorem IsInstance.fit {d : Abs.Decl P E} {i : Env.InstanceInfo E} (h : IsInstance env d i)
    (hlinear : ∀ t ∈ d.heads, t.occurrences.Nodup) : Fit i := by
  obtain ⟨t, vmap, hheads, hnum, htrans⟩ := h.head
  have hrend := typeArgToCType_renders t htrans
  refine ⟨hrend.isHead, hrend.nodup hnum (hlinear t (hheads ▸ List.mem_singleton.mpr rfl)), ?_⟩
  intro ctx hctx
  have hsmaller := h.smaller ctx hctx
  unfold TypeChecking.smaller at hsmaller
  rw [Bool.and_eq_true] at hsmaller
  exact hsmaller.2

theorem IsInstance.noArrows {d : Abs.Decl P E} {i : Env.InstanceInfo E} (h : IsInstance env d i)
    (hfree : ∀ t ∈ d.heads, t.ArrowFree) : i.head.NoArrows := by
  obtain ⟨t, vmap, hheads, -, htrans⟩ := h.head
  exact (typeArgToCType_renders t htrans).noArrows
    (hfree t (hheads ▸ List.mem_singleton.mpr rfl))

/-- Instances that fit, matched against arguments that their function types meet. -/
theorem Fit.step {i : Env.InstanceInfo E} {sub : GenSub} (hi : Fit i)
    (hmeets : Meets i.head arg) (hm : instMatch i.head arg = .ok sub) :
    applySub sub i.head = arg ∧ ∀ ctx ∈ i.context,
      sizeOf (applySub sub ctx.arg) < sizeOf arg ∧
        (arg.PureArrows → (applySub sub ctx.arg).PureArrows) := by
  have heq := applySub_instMatch i.head arg hi.isHead hi.nodup hmeets hm fun _ _ => rfl
  refine ⟨heq, fun ctx hctx => ⟨?_, fun hpure => ?_⟩⟩
  · have hlt := sizeOf_elemSub sub i.head hi.isHead (hi.part ctx hctx)
    rwa [heq] at hlt
  · exact pureArrows_elemSub sub i.head hi.isHead (hi.part ctx hctx) (heq.symm ▸ hpure)

theorem resolvesSoundly_of_fit (hfit : ∀ i ∈ env.instances, Fit i)
    (hmeets : (∀ i ∈ env.instances, i.head.NoArrows) ∨ arg.PureArrows) :
    ResolvesSoundly env params cls arg := by
  let A : CType → Prop := fun t => (∀ i ∈ env.instances, i.head.NoArrows) ∨ t.PureArrows
  have hstep : ∀ i ∈ env.instances, ∀ arg sub, A arg → instMatch i.head arg = .ok sub →
      applySub sub i.head = arg ∧ ∀ ctx ∈ i.context,
        A (applySub sub ctx.arg) ∧ sizeOf (applySub sub ctx.arg) < sizeOf arg := by
    intro i hi arg sub ha hm
    obtain ⟨heq, hctx⟩ := (hfit i hi).step (ha.imp_left fun hall => hall i hi) hm
    exact ⟨heq, fun ctx hmem => ⟨ha.imp_right (hctx ctx hmem).2, (hctx ctx hmem).1⟩⟩
  have hne : (resolve env params (sizeOf arg + 1) cls arg).run ≠ none :=
    resolve_halts (A := A) (fun i hi arg sub ha _ hm => (hstep i hi arg sub ha hm).2) hmeets
      (Nat.lt_succ_self _)
  obtain ⟨r, hr⟩ := Option.ne_none_iff_exists'.mp hne
  refine ⟨sizeOf arg + 1, r, hr, fun ev hev => ?_⟩
  rw [hev] at hr
  exact resolve_explains (A := A)
    (fun i hi arg sub ha _ hm => ⟨(hstep i hi arg sub ha hm).1,
      fun ctx hctx => ((hstep i hi arg sub ha hm).2 ctx hctx).1⟩) hmeets hr

/-- Whatever is registered with heads that name no variable twice, resolution ends and its
evidence fits, as long as no function type of a head meets one that performs effects. -/
theorem resolve_registered {env₀ : Env E} (hstart : env₀.instances = [])
    {ds : List (Abs.Decl P E)} (haccept : registerAll env₀ ds = .ok env)
    (hlinear : ∀ d ∈ ds, ∀ t ∈ d.heads, t.occurrences.Nodup)
    (hmeets : (∀ d ∈ ds, ∀ t ∈ d.heads, t.ArrowFree) ∨ arg.PureArrows) :
    ResolvesSoundly env params cls arg := by
  have hnone : ∀ Q : Env.InstanceInfo E → Prop, ∀ i ∈ env₀.instances, Q i := by
    intro Q i hi
    rw [hstart] at hi
    cases hi
  apply resolvesSoundly_of_fit
  · exact registerAll_instances (hnone _) (fun d hd _ _ hi => hi.fit (hlinear d hd)) haccept
  · exact hmeets.imp_left fun hfree =>
      registerAll_instances (hnone _) (fun d hd _ _ hi => hi.noArrows (hfree d hd)) haccept

/-! ### A head that names a variable twice -/

theorem Explains.picked {Fits : Env.InstanceInfo E → CType → GenSub → Prop} {c : TyCon}
    {ts : List CType} {ev : Evidence} (h : Explains env params Fits cls (.con c ts) ev) :
    ∃ i ∈ env.instances, ∃ sub, instMatch i.head (.con c ts) = .ok sub ∧
      Fits i (.con c ts) sub := by
  cases h with
  | inst hmem hmatch hfits hlen hcontext => exact ⟨_, hmem, _, hmatch, hfits⟩

section Example

/-- A name that stands at the start of a file. -/
def startVar (text : String) : Abs.VarId := ⟨(1, 1), text⟩

def className : Abs.ConId := ⟨(1, 1), "C", by decide⟩

/-- The type constructor of the name, applied to two types. -/
def applied (text : String) (h : '$' ∉ text.toList) (a b : Abs.Ty) : Abs.Ty :=
  .tApp (.tApp (.tCon (.mpName ⟨(1, 1), text, h⟩)) a) b

def appliedP (a b : Abs.Ty) : Abs.Ty := applied "P" (by decide) a b

def appliedQ (a b : Abs.Ty) : Abs.Ty := applied "Q" (by decide) a b

def tyVar (text : String) : Abs.Ty := .tVar (startVar text)

/-- A class without methods, and `instance C (P a a)`. -/
def pairDecls : List (Abs.Decl Unit Unit) :=
  [.dClass className [startVar "a"] [],
    .dInstance (.ihPlain className [appliedP (tyVar "a") (tyVar "a")]) []]

/-- The class, `instance (C (Q a a)) => C (P a (Q a a))` and
`instance (C (P a (Q b c))) => C (Q a (P a (Q b c)))`. -/
def loopDecls : List (Abs.Decl Unit Unit) :=
  [.dClass className [startVar "a"] [],
    .dInstance (.ihCtx [⟨className, [appliedQ (tyVar "a") (tyVar "a")]⟩] className
      [appliedP (tyVar "a") (appliedQ (tyVar "a") (tyVar "a"))]) [],
    .dInstance (.ihCtx
      [⟨className, [appliedP (tyVar "a") (appliedQ (tyVar "b") (tyVar "c"))]⟩] className
      [appliedQ (tyVar "a") (appliedP (tyVar "a") (appliedQ (tyVar "b") (tyVar "c")))]) []]

def consP (a b : CType) : CType := .con (.user "P") [a, b]

def consQ (a b : CType) : CType := .con (.user "Q") [a, b]

def pairInstance : Env.InstanceInfo Unit :=
  ⟨"C", consP (.gen 0) (.gen 0), [], "dict$C$P", []⟩

def loopInstances : List (Env.InstanceInfo Unit) :=
  [⟨"C", consQ (.gen 0) (consP (.gen 0) (consQ (.gen 1) (.gen 2))),
      [⟨"C", consP (.gen 0) (consQ (.gen 1) (.gen 2))⟩], "dict$C$Q", []⟩,
    ⟨"C", consP (.gen 0) (consQ (.gen 0) (.gen 0)),
      [⟨"C", consQ (.gen 0) (.gen 0)⟩], "dict$C$P", []⟩]

/-- The environment that the class and the instances make. -/
def classEnv (instances : List (Env.InstanceInfo Unit)) : Env Unit :=
  { (emptyEnv : Env Unit) with
    classes := [("C", ⟨(0, .star), [], [], [], "C$Dict"⟩)]
    instances := instances }

/-- The class, `instance C U64` and `instance (C a) => C [a]`. -/
def listDecls : List (Abs.Decl Unit Unit) :=
  [.dClass className [startVar "a"] [],
    .dInstance (.ihPlain className [.tCon (.mpName ⟨(1, 1), "U64", Abs.u64_plain⟩)]) [],
    .dInstance (.ihCtx [⟨className, [tyVar "a"]⟩] className [.tList (tyVar "a")]) []]

/-- Every constraint on lists of lists is resolved soundly. -/
theorem resolve_registered_lists : ∃ env, registerAll (emptyEnv : Env Unit) listDecls = .ok env ∧
    ∀ params cls arg, ResolvesSoundly env params cls arg := by
  refine ⟨_, rfl, fun params cls arg => ?_⟩
  have hheads : ∀ d ∈ listDecls, ∀ t ∈ d.heads,
      t.occurrences.Nodup ∧ t.ArrowFree := by
    intro d hd t ht
    simp only [listDecls, List.mem_cons, List.not_mem_nil, or_false] at hd
    rcases hd with rfl | rfl | rfl
    · cases ht
    · rw [List.mem_singleton.mp ht]
      exact ⟨List.nodup_nil, trivial⟩
    · rw [List.mem_singleton.mp ht]
      exact ⟨List.nodup_singleton _, trivial⟩
  exact @resolve_registered Unit Unit _ params cls arg emptyEnv rfl listDecls rfl
    (fun d hd t ht => (hheads d hd t ht).1) (.inl fun d hd t ht => (hheads d hd t ht).2)

/-- The constraint `C (P (P u (Q v w)) (Q v' w'))` comes back after two steps. -/
theorem loop_runs_out (u v w : CType) (fuel : Nat) : ∀ v' w' : CType,
    (resolve (classEnv loopInstances) ∅ fuel "C" (consP (consP u (consQ v w)) (consQ v' w'))).run =
        none ∧
      (resolve (classEnv loopInstances) ∅ fuel "C"
        (consQ (consP u (consQ v w)) (consP u (consQ v w)))).run = none := by
  have hone : ∀ {x : ExceptT SolveError Option Evidence} {k : List Evidence → Evidence},
      x.run = none → (do let evs ← [()].mapM fun _ => x; return k evs :
        ExceptT SolveError Option Evidence).run = none := by
    intro x k hx
    apply run_bind_none
    rw [List.mapM_cons]
    exact run_bind_none hx
  induction fuel with
  | zero => exact fun _ _ => ⟨rfl, rfl⟩
  | succ fuel ih =>
      intro v' w'
      have hfirst := hone (k := fun evs => if evs.isEmpty then .global "dict$C$P"
        else .app "dict$C$P" evs) (ih v' w').2
      have hsecond := hone (k := fun evs => if evs.isEmpty then .global "dict$C$Q"
        else .app "dict$C$Q" evs) (ih v w).1
      exact ⟨hfirst, hsecond⟩

/-- Only the one instance can be picked, and it does not fit. -/
theorem not_resolvesSoundly {i : Env.InstanceInfo Unit} {c : TyCon} {ts : List CType}
    {ev : Evidence}
    (hpick : ∀ fuel, (resolve (classEnv [i]) ∅ (fuel + 1) "C" (.con c ts)).run = some (.ok ev))
    (hmiss : ∀ sub, instMatch i.head (.con c ts) = .ok sub → applySub sub i.head ≠ .con c ts) :
    ¬ ResolvesSoundly (classEnv [i]) ∅ "C" (.con c ts) := by
  rintro ⟨fuel, r, hr, hsound⟩
  cases fuel with
  | zero => cases hr
  | succ fuel =>
      have hok : r = .ok ev := by
        rw [← Option.some.injEq, ← hr]
        exact hpick fuel
      obtain ⟨j, hj, sub, hmatch, hhead⟩ := (hsound _ hok).picked
      rw [show j = i from List.mem_singleton.mp hj] at hmatch hhead
      exact hmiss sub hmatch hhead

/-- The class, and `instance C [a -> b]`. -/
def arrowDecls : List (Abs.Decl Unit Unit) :=
  [.dClass className [startVar "a"] [],
    .dInstance (.ihPlain className [.tList (.tFun (tyVar "a") (tyVar "b"))]) []]

def arrowInstance : Env.InstanceInfo Unit :=
  ⟨"C", .con .list [.arr (.gen 0) .rowEmpty (.gen 1)], [], "dict$C$List", []⟩

/-- Functions from `U64` to `U64` that perform `IO`. -/
def ioFunction : CType :=
  .arr (.con .u64 []) (.rowExtend "IO" (.con .unit []) .rowEmpty) (.con .u64 [])

/-- `P a a` is picked for a type with two different arguments, two instances whose heads
name a variable twice send resolution round in a circle, and `[a -> b]` is picked for
functions that perform effects. -/
theorem resolve_repeated_variable :
    (∃ env, registerAll emptyEnv pairDecls = .ok env ∧
      ¬ ResolvesSoundly env ∅ "C" (consP (.con .u64 []) (.con .bool []))) ∧
    (∃ env, registerAll emptyEnv loopDecls = .ok env ∧
      ¬ ResolvesSoundly env ∅ "C"
        (consP (consP (.con .u64 []) (consQ (.con .u64 []) (.con .u64 [])))
          (consQ (.con .u64 []) (.con .u64 [])))) ∧
    ∃ env, registerAll emptyEnv arrowDecls = .ok env ∧
      ¬ ResolvesSoundly env ∅ "C" (.con .list [ioFunction]) := by
  refine ⟨⟨classEnv [pairInstance], rfl, ?_⟩, ⟨classEnv loopInstances, rfl, ?_⟩,
    classEnv [arrowInstance], rfl, ?_⟩
  · refine not_resolvesSoundly (fun _ => rfl) ?_
    intro sub hmatch
    cases hmatch
    decide
  · rintro ⟨fuel, r, hr, -⟩
    rw [(loop_runs_out _ _ _ fuel _ _).1] at hr
    cases hr
  · refine not_resolvesSoundly (fun _ => rfl) ?_
    intro sub hmatch
    cases hmatch
    decide

end Example

end Wok.TypeChecking
