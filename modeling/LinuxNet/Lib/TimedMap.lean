import Mathlib

/-!
# Maps whose entries live for a while

A map from keys to values in which what was learned is good for `life` units of
time. `learn` puts a value in, `refresh` does so only for a key that is still
good, `find` answers with what is. Nothing is ever removed: an entry past its
time is simply not found.

This is what a cache of addresses, leases or sessions is for, with no word about
where it keeps its entries or when it forgets them.
-/

namespace LinuxNet

/-- For each key the value that was learned last, and when. -/
def TimedMap (κ α : Type) := κ → Option (α × Nat)

namespace TimedMap

variable {κ α : Type} {m : TimedMap κ α} {life now now' : Nat} {k k' : κ} {v w : α}

/-- Nothing has been learned. -/
def empty : TimedMap κ α := fun _ => none

/-- The value of a key, if it was learned at most `life` ago. -/
def find (life now : Nat) (m : TimedMap κ α) (k : κ) : Option α :=
  (m k).bind fun p => if now ≤ p.2 + life then some p.1 else none

/-- The key was learned at most `life` ago. -/
def Fresh (life now : Nat) (m : TimedMap κ α) (k : κ) : Prop :=
  ∃ p, m k = some p ∧ now ≤ p.2 + life

theorem find_eq_some : m.find life now k = some v ↔ ∃ τ, m k = some (v, τ) ∧ now ≤ τ + life := by
  unfold find
  cases m k with
  | none =>
    refine iff_of_false (fun h => ?_) fun h => ?_
    · cases h
    · obtain ⟨τ, h, -⟩ := h
      cases h
  | some p =>
    rw [Option.bind_some]
    split
    next h =>
      constructor
      · intro hp
        cases hp
        exact ⟨p.2, rfl, h⟩
      · intro hp
        obtain ⟨τ, hp, -⟩ := hp
        cases hp
        rfl
    next h =>
      refine iff_of_false (fun hp => ?_) fun hp => ?_
      · cases hp
      · obtain ⟨τ, hp, hτ⟩ := hp
        cases hp
        exact h hτ

theorem fresh_iff : m.Fresh life now k ↔ ∃ v, m.find life now k = some v := by
  constructor
  · intro h
    obtain ⟨p, hp, hnow⟩ := h
    exact ⟨p.1, find_eq_some.mpr ⟨p.2, hp, hnow⟩⟩
  · intro h
    obtain ⟨v, hv⟩ := h
    obtain ⟨τ, hp, hnow⟩ := find_eq_some.mp hv
    exact ⟨(v, τ), hp, hnow⟩

/-- A key that is not good is not found. -/
theorem find_eq_none : m.find life now k = none ↔ ¬ m.Fresh life now k := by
  rw [fresh_iff, not_exists]
  exact Option.eq_none_iff_forall_ne_some

/-- What is good later is good now. -/
theorem find_of_later (hle : now ≤ now') (h : m.find life now' k = some v) :
    m.find life now k = some v := by
  obtain ⟨τ, hm, hτ⟩ := find_eq_some.mp h
  exact find_eq_some.mpr ⟨τ, hm, hle.trans hτ⟩

/-! ## Learning -/

variable [DecidableEq κ]

/-- A value learned now. -/
def learn (now : Nat) (m : TimedMap κ α) (k : κ) (v : α) : TimedMap κ α :=
  Function.update m k (some (v, now))

/-- A value learned now for a key that is still good. -/
def refresh (life now : Nat) (m : TimedMap κ α) (k : κ) (v : α) : TimedMap κ α :=
  if (m.find life now k).isSome = true then m.learn now k v else m

theorem find_learn_self : (m.learn now k v).find life now k = some v :=
  find_eq_some.mpr ⟨now, Function.update_self .., Nat.le_add_right ..⟩

theorem find_learn_ne (h : k' ≠ k) : (m.learn now k v).find life now' k' = m.find life now' k' := by
  have hk : m.learn now k v k' = m k' := Function.update_of_ne h ..
  rw [find, find, hk]

/-- A key that is good behind a refresh has the new value. -/
theorem find_refresh_self (h : (m.refresh life now k v).find life now k = some w) : w = v := by
  unfold refresh at h
  split at h
  next =>
    rw [find_learn_self] at h
    exact (Option.some.inj h).symm
  next hstale =>
    rw [h] at hstale
    exact absurd rfl hstale

theorem find_refresh_ne (h : k' ≠ k) :
    (m.refresh life now k v).find life now' k' = m.find life now' k' := by
  unfold refresh
  split
  · exact find_learn_ne h
  · rfl

end TimedMap

end LinuxNet
