/-
Module: Wok.IR.Name
Purpose: Identities of Core binders and join points, and the supply that mints
  them.
Trusted boundary: none
Main exports: Unique, Name, JoinId, Fresh, freshName, freshJoin, Fresh.bind_eq,
  Fresh.Succeeds
-/

namespace Wok.IR

/-- Opaque identity token. -/
structure Unique where
  id : Int
  deriving Repr, DecidableEq, Inhabited

/-- A term-level name: a hint for messages plus an identity. Names are compared
on the identity alone. -/
structure Name where
  hint : String
  uniq : Unique
  deriving Repr, Inhabited

instance : BEq Name := ⟨fun a b => a.uniq == b.uniq⟩

/-- Join-point label, a type of its own so that a jump cannot target a value. -/
structure JoinId where
  uniq : Unique
  deriving Repr, DecidableEq, Inhabited

/-- The supply of identities, one counter for binders and joins. A call of the
source's `error` is an exception that carries its text. -/
abbrev Fresh := StateT Int (Except String)

def freshUnique : Fresh Unique := fun n => .ok (⟨n⟩, n + 1)

def freshName (hint : String) : Fresh Name := return ⟨hint, ← freshUnique⟩

def freshJoin : Fresh JoinId := return ⟨← freshUnique⟩

theorem Fresh.bind_eq {α β : Type} {x : Fresh α} {f : α → Fresh β} {n m : Int} {a : α}
    (h : x n = .ok (a, m)) : (x >>= f) n = f a m := by
  change (x n >>= fun r => f r.1 r.2) = f a m
  rw [h]
  rfl

/-- The rule succeeds from some supply. -/
def Fresh.Succeeds {α : Type} (x : Fresh α) : Prop := ∃ n r, x n = .ok r

theorem Fresh.Succeeds.bind {α β : Type} {x : Fresh α} {f : α → Fresh β}
    (h : Fresh.Succeeds (x >>= f)) : Fresh.Succeeds x ∧ ∃ a, Fresh.Succeeds (f a) := by
  rcases h with ⟨n, r, h⟩
  cases hx : x n with
  | error e =>
      have : (x >>= f) n = .error e := by
        change (x n >>= fun r => f r.1 r.2) = _
        rw [hx]
        rfl
      rw [this] at h
      cases h
  | ok p =>
      rw [Fresh.bind_eq hx] at h
      exact ⟨⟨n, p, hx⟩, p.1, p.2, r, h⟩

theorem Fresh.Succeeds.lift {α : Type} {x : Except String α}
    (h : Fresh.Succeeds (liftM x : Fresh α)) : ∃ a, x = .ok a := by
  rcases h with ⟨n, r, h⟩
  cases x with
  | error e => cases h
  | ok a => exact ⟨a, rfl⟩

theorem Fresh.lift_eq {α β : Type} {x : Except String α} {f : α → Fresh β} {n : Int} {a : α}
    (h : x = .ok a) : ((liftM x : Fresh α) >>= f) n = f a n := by
  subst h
  rfl

end Wok.IR
