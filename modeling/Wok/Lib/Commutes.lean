/-
Module: Wok.Lib.Commutes
Purpose: A view of data that a computation does not look through: the computation on the
  view has the view of the computation's results. Rules for sequences and for maps.
Imports: Mathlib.Data.List.AList
Trusted boundary: none
Main exports: Commutes, Commutes.bind, Commutes.foldlM, map_bind_congr, mapVal, lookup_mapVal,
  insert_mapVal, erase_mapVal, lookup_mapSnd
-/
import Mathlib.Data.List.AList

namespace Wok.Lib

/-! ### Computations that may fail -/

section Except

variable {ε α β γ δ κ μ : Type} {v : α → β} {w : γ → δ} {P : α → Prop} {Q : γ → Prop}
  {x : Except ε α} {y : Except ε β} {f : α → Except ε γ} {g : β → Except ε δ}

/-- `y` is the view of `x`, and the result of `x` meets `P`. -/
structure Commutes (v : α → β) (P : α → Prop) (x : Except ε α) (y : Except ε β) : Prop where
  view : y = x.map v
  keeps : ∀ a, x = .ok a → P a

namespace Commutes

theorem ok {a : α} {b : β} (hb : b = v a) (ha : P a) :
    Commutes v P (.ok a : Except ε α) (.ok b) := by
  refine ⟨by rw [hb]; rfl, ?_⟩
  intro a' h
  cases h
  exact ha

theorem error (e : ε) : Commutes v P (.error e : Except ε α) (.error e) := by
  refine ⟨rfl, ?_⟩
  intro a' h
  cases h

theorem weaken {Q : α → Prop} (h : Commutes v P x y) (hP : ∀ a, P a → Q a) :
    Commutes v Q x y :=
  ⟨h.view, fun a ha => hP a (h.keeps a ha)⟩

/-- A computation of whose results nothing else is kept. -/
theorem of_view (h : y = x.map v) : Commutes v (fun _ => True) x y :=
  ⟨h, fun _ _ => trivial⟩

/-- A computation that reads nothing that the view changes. -/
theorem refl (x : Except ε α) : Commutes id (fun _ => True) x x :=
  .of_view (by rw [Except.map_id]; rfl)

/-- A sequence commutes when both of its parts do. -/
theorem bind (h : Commutes v P x y)
    (hf : ∀ a, P a → Commutes w Q (f a) (g (v a))) :
    Commutes w Q (x >>= f) (y >>= g) := by
  rw [h.view]
  cases x with
  | error e => exact .error e
  | ok a => exact hf a (h.keeps a rfl)

theorem ite {p : Prop} [Decidable p] {x' : Except ε α} {y' : Except ε β}
    (h : Commutes v P x y) (h' : Commutes v P x' y') :
    Commutes v P (if p then x else x') (if p then y else y') := by
  split
  · exact h
  · exact h'

/-- A fold commutes when each of its steps does. -/
theorem foldlM {step : α → κ → Except ε α} {step' : β → κ → Except ε β}
    (hstep : ∀ a k, P a → Commutes v P (step a k) (step' (v a) k)) (ks : List κ) {a : α}
    (ha : P a) : Commutes v P (ks.foldlM step a) (ks.foldlM step' (v a)) := by
  induction ks generalizing a with
  | nil => exact ok rfl ha
  | cons k ks ih =>
      rw [List.foldlM_cons, List.foldlM_cons]
      exact (hstep a k ha).bind fun a' ha' => ih ha'

/-- Views of equal things are equal. -/
theorem congr {x' : Except ε α} {y' : Except ε β} (h : Commutes v P x y)
    (h' : Commutes v P x' y') (hy : y = y') : x.map v = x'.map v := by
  rw [← h.view, ← h'.view, hy]

end Commutes

theorem isSome_toOption (x : Except ε α) : x.toOption.isSome = x.isOk := by
  cases x <;> rfl

theorem isOk_congr {x' : Except ε α} (h : x.map v = x'.map v) : x.isOk = x'.isOk := by
  cases x with
  | error e =>
      cases x' with
      | error e' => rfl
      | ok a' => cases h
  | ok a =>
      cases x' with
      | error e' => cases h
      | ok a' => rfl

/-- Sequences look alike when both of their parts do. -/
theorem map_bind_congr {x' : Except ε α} {f' : α → Except ε γ} (h : x.map v = x'.map v)
    (hf : ∀ a a', x = .ok a → x' = .ok a' → v a = v a' → (f a).map w = (f' a').map w) :
    (x >>= f).map w = (x' >>= f').map w := by
  cases x with
  | error e =>
      cases x' with
      | error e' =>
          cases h
          rfl
      | ok a' => cases h
  | ok a =>
      cases x' with
      | error e' => cases h
      | ok a' => exact hf a a' rfl rfl (Except.ok.inj h)

end Except

/-! ### Maps -/

section AList

variable {α β γ : Type} [DecidableEq α] (f : β → γ) (l : AList fun _ : α => β) (k : α)

def mapEntry (e : (_ : α) × β) : (_ : α) × γ := ⟨e.1, f e.2⟩

/-- The values of a map under a function. -/
def mapVal : AList fun _ : α => γ :=
  ⟨l.entries.map (mapEntry f), List.NodupKeys.map₂ (fun _ => f) _ l.nodupKeys⟩

@[simp] theorem lookup_mapVal : (mapVal f l).lookup k = (l.lookup k).map f :=
  List.dlookup_map₂ (f := fun _ => f) k

theorem kerase_mapEntry (es : List ((_ : α) × β)) :
    List.kerase k (es.map (mapEntry f)) = (List.kerase k es).map (mapEntry f) := by
  induction es with
  | nil => rfl
  | cons e es ih =>
      by_cases h : k = e.1
      · rw [List.map_cons, List.kerase_cons_eq h, List.kerase_cons_eq (s := mapEntry f e) h]
      · rw [List.map_cons, List.kerase_cons_ne h, List.kerase_cons_ne (s := mapEntry f e) h,
          List.map_cons, ih]

@[simp] theorem erase_mapVal : (mapVal f l).erase k = mapVal f (l.erase k) :=
  AList.ext (kerase_mapEntry f k l.entries)

@[simp] theorem insert_mapVal (v : β) :
    (mapVal f l).insert k (f v) = mapVal f (l.insert k v) := by
  apply AList.ext
  rw [AList.entries_insert]
  simp only [mapVal, AList.entries_insert, List.map_cons, kerase_mapEntry]
  rfl

end AList

/-! ### Association lists -/

section Lists

variable {α β γ : Type} (f : β → γ)

/-- The values of an association list under a function. -/
def mapSnd (l : List (α × β)) : List (α × γ) := l.map fun e => (e.1, f e.2)

@[simp] theorem mapSnd_nil : mapSnd f ([] : List (α × β)) = [] := rfl

@[simp] theorem mapSnd_cons (e : α × β) (l : List (α × β)) :
    mapSnd f (e :: l) = (e.1, f e.2) :: mapSnd f l := rfl

@[simp] theorem lookup_mapSnd [BEq α] (l : List (α × β)) (k : α) :
    (mapSnd f l).lookup k = (l.lookup k).map f := by
  induction l with
  | nil => rfl
  | cons e l ih =>
      rcases e with ⟨a, b⟩
      simp only [mapSnd_cons, List.lookup_cons, ih]
      split <;> rfl

@[simp] theorem map_snd_mapSnd (l : List (α × β)) :
    (mapSnd f l).map (·.2) = (l.map (·.2)).map f := by
  simp [mapSnd]

end Lists

end Wok.Lib
