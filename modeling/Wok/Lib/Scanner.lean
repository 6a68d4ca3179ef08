/-
Module: Wok.Lib.Scanner
Purpose: Scanners: procedures that take symbols off the front of their input, keep a store
  and may fail; what they read, what they leave, and decimal numerals.
Imports: Mathlib.Data.Nat.Digits.Defs
Trusted boundary: none
Main exports: Scanner, Scanner.Reads, Scanner.Reads.bind, Scanner.bind_eq_ok, Scanner.Drops,
  decimal, readDecimal, readDecimal_decimal
-/
import Mathlib.Data.Nat.Digits.Defs

namespace Wok.Lib

/-- A scanner of symbols `τ` with a store `σ`: a result, the symbols it leaves and the new
store, or an error. -/
def Scanner (τ σ ε α : Type) := List τ → σ → Except ε (α × List τ × σ)

namespace Scanner

variable {τ σ ε α β : Type} {x : Scanner τ σ ε α} {f : α → Scanner τ σ ε β}
  {i i' : List τ} {s s' : σ} {a : α}

instance : Monad (Scanner τ σ ε) where
  pure a := fun i s => .ok (a, i, s)
  bind x f := fun i s =>
    match x i s with
    | .ok (a, i', s') => f a i' s'
    | .error e => .error e

/-- The symbols that are left. -/
def input : Scanner τ σ ε (List τ) := fun i s => .ok (i, i, s)

def get : Scanner τ σ ε σ := fun i s => .ok (s, i, s)

def set (s : σ) : Scanner τ σ ε Unit := fun i _ => .ok ((), i, s)

def fail (e : ε) : Scanner τ σ ε α := fun _ _ => .error e

/-- Go on at `i`. -/
def seek (i : List τ) : Scanner τ σ ε Unit := fun _ s => .ok ((), i, s)

def skipWhile (p : τ → Bool) : Scanner τ σ ε Unit := fun i s => .ok ((), i.dropWhile p, s)

def takeWhile (p : τ → Bool) : Scanner τ σ ε (List τ) :=
  fun i s => .ok (i.takeWhile p, i.dropWhile p, s)

/-! ### One run -/

@[simp]
theorem pure_run : (pure a : Scanner τ σ ε α) i s = .ok (a, i, s) := rfl

@[simp]
theorem input_run : (input : Scanner τ σ ε _) i s = .ok (i, i, s) := rfl

@[simp]
theorem get_run : (get : Scanner τ σ ε σ) i s = .ok (s, i, s) := rfl

@[simp]
theorem set_run : (set s' : Scanner τ σ ε _) i s = .ok ((), i, s') := rfl

@[simp]
theorem seek_run : (seek i' : Scanner τ σ ε _) i s = .ok ((), i', s) := rfl

@[simp]
theorem fail_run {e : ε} : (fail e : Scanner τ σ ε α) i s = .error e := rfl

@[simp]
theorem skipWhile_run {p : τ → Bool} :
    (skipWhile p : Scanner τ σ ε _) i s = .ok ((), i.dropWhile p, s) := rfl

@[simp]
theorem takeWhile_run {p : τ → Bool} :
    (takeWhile p : Scanner τ σ ε _) i s = .ok (i.takeWhile p, i.dropWhile p, s) := rfl

theorem bind_run (h : x i s = .ok (a, i', s')) : (x >>= f) i s = f a i' s' := by
  change (match x i s with
    | .ok (a, i', s') => f a i' s'
    | .error e => .error e) = _
  rw [h]

theorem bind_error {e : ε} (h : x i s = .error e) : (x >>= f) i s = .error e := by
  change (match x i s with
    | .ok (a, i', s') => f a i' s'
    | .error e => .error e) = _
  rw [h]

/-- Of the first part, only its outcome here counts. -/
theorem bind_congr {y : Scanner τ σ ε α} (h : x i s = y i s) :
    (x >>= f) i s = (y >>= f) i s := by
  change (match x i s with
    | .ok (a, i', s') => f a i' s'
    | .error e => .error e) = _
  rw [h]
  rfl

/-- A result comes from results of both parts. -/
theorem bind_eq_ok {b : β} {i'' : List τ} {s'' : σ} :
    (x >>= f) i s = .ok (b, i'', s'') ↔
      ∃ a i' s', x i s = .ok (a, i', s') ∧ f a i' s' = .ok (b, i'', s'') := by
  constructor
  · intro h
    change (match x i s with
      | .ok (a, i', s') => f a i' s'
      | .error e => .error e) = _ at h
    cases hx : x i s with
    | error e =>
        rw [hx] at h
        cases h
    | ok r =>
        rcases r with ⟨a, i', s'⟩
        rw [hx] at h
        exact ⟨a, i', s', rfl, h⟩
  · rintro ⟨a, i', s', hx, hf⟩
    rw [bind_run hx]
    exact hf

/-! ### What a scanner reads -/

/-- From the store `s`, the scanner takes exactly `ts` off any input that goes on as `next`
says, and gives `a` and the store `s'`. -/
def Reads (x : Scanner τ σ ε α) (s : σ) (ts : List τ) (a : α) (s' : σ)
    (next : List τ → Prop) : Prop :=
  ∀ rest, next rest → x (ts ++ rest) s = .ok (a, rest, s')

namespace Reads

variable {ts us : List τ} {b : β} {s'' : σ} {next next' : List τ → Prop}

theorem pure : Reads (Pure.pure a : Scanner τ σ ε α) s [] a s next :=
  fun _ _ => rfl

theorem bind (hx : Reads x s ts a s' next) (hf : Reads (f a) s' us b s'' next')
    (hnext : ∀ rest, next' rest → next (us ++ rest)) :
    Reads (x >>= f) s (ts ++ us) b s'' next' := by
  intro rest hrest
  rw [List.append_assoc, bind_run (hx _ (hnext rest hrest))]
  exact hf rest hrest

theorem mono (hx : Reads x s ts a s' next) (h : ∀ rest, next' rest → next rest) :
    Reads x s ts a s' next' :=
  fun rest hrest => hx rest (h rest hrest)

end Reads

/-! ### How much is left -/

/-- What the scanner leaves is shorter than what it got by `k` symbols at least. -/
def Drops (k : Nat) (x : Scanner τ σ ε α) : Prop :=
  ∀ i s a i' s', x i s = .ok (a, i', s') → i'.length + k ≤ i.length

namespace Drops

variable {k l : Nat}

theorem mono (h : Drops k x) (hl : l ≤ k) : Drops l x := by
  intro i s a i' s' hx
  have := h i s a i' s' hx
  omega

theorem bind (hx : Drops k x) (hf : ∀ a, Drops l (f a)) : Drops (k + l) (x >>= f) := by
  intro i s b i'' s'' h
  obtain ⟨a, i', s', hxa, hfb⟩ := bind_eq_ok.mp h
  have h₁ := hx i s a i' s' hxa
  have h₂ := hf a i' s' b i'' s'' hfb
  omega

/-- The first part may leave its own count to the second. -/
theorem bind_zero (hx : Drops 0 x) (hf : ∀ a, Drops l (f a)) : Drops l (x >>= f) :=
  (hx.bind hf).mono (by omega)

theorem pure : Drops 0 (Pure.pure a : Scanner τ σ ε α) := by
  intro i s a i' s' h
  cases h
  exact Nat.le_refl _

theorem fail {e : ε} : Drops k (Scanner.fail e : Scanner τ σ ε α) := by
  intro i s a i' s' h
  cases h

theorem input : Drops 0 (Scanner.input : Scanner τ σ ε _) := by
  intro i s a i' s' h
  cases h
  exact Nat.le_refl _

theorem get : Drops 0 (Scanner.get : Scanner τ σ ε σ) := by
  intro i s a i' s' h
  cases h
  exact Nat.le_refl _

theorem set : Drops 0 (Scanner.set s : Scanner τ σ ε _) := by
  intro i s a i' s' h
  cases h
  exact Nat.le_refl _

theorem skipWhile {p : τ → Bool} : Drops 0 (Scanner.skipWhile p : Scanner τ σ ε _) := by
  intro i s a i' s' h
  cases h
  exact (List.dropWhile_suffix p).length_le

theorem takeWhile {p : τ → Bool} : Drops 0 (Scanner.takeWhile p : Scanner τ σ ε _) := by
  intro i s a i' s' h
  cases h
  exact (List.dropWhile_suffix p).length_le

theorem ite {c : Prop} [Decidable c] {y : Scanner τ σ ε α} (hx : Drops k x) (hy : Drops k y) :
    Drops k (if c then x else y) := by
  split
  · exact hx
  · exact hy

end Drops

end Scanner

/-! ### Runs of symbols -/

section Runs

variable {τ : Type} {p : τ → Bool} {ts rest : List τ}

/-- A run of symbols with `p` ends where the next one is not with `p`. -/
theorem dropWhile_append_stop (hts : ∀ t ∈ ts, p t = true)
    (hrest : ∀ t ∈ rest.head?, p t = false) : (ts ++ rest).dropWhile p = rest := by
  rw [List.dropWhile_append_of_pos hts]
  cases rest with
  | nil => rfl
  | cons t rest => exact List.dropWhile_cons_of_neg (by simp [hrest t rfl])

theorem takeWhile_append_stop (hts : ∀ t ∈ ts, p t = true)
    (hrest : ∀ t ∈ rest.head?, p t = false) : (ts ++ rest).takeWhile p = ts := by
  rw [List.takeWhile_append_of_pos hts]
  cases rest with
  | nil => simp
  | cons t rest => simp [hrest t rfl]

end Runs

/-! ### Decimal numerals -/

/-- The digits of a number, the leading one first. -/
def decimal (v : Nat) : List Nat := if v = 0 then [0] else (Nat.digits 10 v).reverse

inductive NumeralFault where
  | notDigit | range
  deriving Repr, DecidableEq

/-- Read digits after those that stand for `v`, up to the number `max`; `digit` is the value
of a symbol. -/
def readDecimal {τ : Type} (digit : τ → Option Nat) (max : Nat) :
    Nat → List τ → Except NumeralFault Nat
  | v, [] => .ok v
  | v, t :: ts =>
      match digit t with
      | none => .error .notDigit
      | some d =>
          if v > (max - d) / 10 then .error .range else readDecimal digit max (v * 10 + d) ts

theorem decimal_ne_nil (v : Nat) : decimal v ≠ [] := by
  unfold decimal
  split
  · simp
  · next h => simpa [Nat.digits_ne_nil_iff_ne_zero] using h

theorem lt_of_mem_decimal {v d : Nat} (h : d ∈ decimal v) : d < 10 := by
  unfold decimal at h
  split at h
  · simp_all
  · exact Nat.digits_lt_base (by omega) (List.mem_reverse.mp h)

theorem foldl_decimal (v : Nat) : (decimal v).foldl (fun acc d => acc * 10 + d) 0 = v := by
  unfold decimal
  split
  · next h => simp [h]
  · rw [List.foldl_reverse]
    have h := Nat.ofDigits_digits 10 v
    rw [Nat.ofDigits_eq_foldr] at h
    simpa [Nat.mul_comm, Nat.add_comm] using h

theorem le_foldl_digits (ds : List Nat) (v : Nat) :
    v ≤ ds.foldl (fun acc d => acc * 10 + d) v := by
  induction ds generalizing v with
  | nil => exact Nat.le_refl v
  | cons d ds ih =>
      have := ih (v * 10 + d)
      rw [List.foldl_cons]
      omega

section

variable {τ : Type} {digit : τ → Option Nat} {symbol : Nat → τ}

/-- Digits that stand for a number in range are read as that number. -/
theorem readDecimal_eq_foldl (hdigit : ∀ d < 10, digit (symbol d) = some d) {max v : Nat}
    {ds : List Nat} (hds : ∀ d ∈ ds, d < 10)
    (hmax : ds.foldl (fun acc d => acc * 10 + d) v ≤ max) :
    readDecimal digit max v (ds.map symbol) = .ok (ds.foldl (fun acc d => acc * 10 + d) v) := by
  induction ds generalizing v with
  | nil => rfl
  | cons d ds ih =>
      have hd := hds d List.mem_cons_self
      have hle := le_foldl_digits ds (v * 10 + d)
      rw [List.foldl_cons] at hmax
      rw [List.map_cons, readDecimal, hdigit d hd, List.foldl_cons]
      have hrange : ¬ v > (max - d) / 10 := by omega
      simp only [hrange, if_false]
      exact ih (fun d' hd' => hds d' (List.mem_cons_of_mem d hd')) hmax

theorem readDecimal_decimal (hdigit : ∀ d < 10, digit (symbol d) = some d) {max v : Nat}
    (h : v ≤ max) : readDecimal digit max 0 ((decimal v).map symbol) = .ok v := by
  have hfold := foldl_decimal v
  rw [readDecimal_eq_foldl hdigit (fun d hd => lt_of_mem_decimal hd) (by omega), hfold]

end

end Wok.Lib
