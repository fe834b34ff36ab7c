import Mathlib

/-!
# Conjunctions of independent tests

A thing with coordinates `x i` passes a conjunction of tests `P i` if every
coordinate passes its own. When the coordinates are free — every combination
of values exists — two such conjunctions accept the same things only in two
ways: they agree on every coordinate, or each of them has a coordinate that
no value passes, and both accept nothing.

This is what turns "the two sides agree on every packet" into one small
question for each field.
-/

namespace LinuxNet

variable {ι : Type} {α : ι → Type} {P Q : ∀ i, α i → Prop}

/-- Nothing passes a conjunction exactly when some coordinate admits no value. -/
theorem forall_not_tests_iff :
    (∀ x : ∀ i, α i, ¬ ∀ i, P i (x i)) ↔ ∃ i, ∀ a, ¬ P i a := by
  constructor
  · intro h
    by_contra hne
    have hall : ∀ i, ∃ a, P i a := fun i => by
      by_contra hi
      exact hne ⟨i, fun a ha => hi ⟨a, ha⟩⟩
    exact h (fun i => (hall i).choose) fun i => (hall i).choose_spec
  · intro h x hx
    obtain ⟨i, hi⟩ := h
    exact hi (x i) (hx i)

/-- Where something passes all of `P`, and both conjunctions accept the same
things, each test of `P` implies the test of `Q` on the same coordinate. -/
theorem test_of_agree [DecidableEq ι] {x : ∀ i, α i} (hx : ∀ i, P i (x i))
    (h : ∀ y : ∀ i, α i, (∀ i, P i (y i)) → ∀ i, Q i (y i)) (i : ι) (a : α i) (ha : P i a) :
    Q i a := by
  have hy : ∀ j, P j (Function.update x i a j) := fun j => by
    by_cases hj : j = i
    · subst hj
      rw [Function.update_self]
      exact ha
    · rw [Function.update_of_ne hj]
      exact hx j
  have hq := h _ hy i
  rwa [Function.update_self] at hq

/-- **Agreement is coordinatewise**, unless both conjunctions accept nothing. -/
theorem tests_agree_iff [DecidableEq ι] :
    (∀ x : ∀ i, α i, (∀ i, P i (x i)) ↔ ∀ i, Q i (x i)) ↔
      ((∃ i, ∀ a, ¬ P i a) ∧ ∃ i, ∀ a, ¬ Q i a) ∨ ∀ i a, P i a ↔ Q i a := by
  constructor
  · intro h
    by_cases hne : ∃ x : ∀ i, α i, ∀ i, P i (x i)
    · obtain ⟨x, hx⟩ := hne
      exact .inr fun i a =>
        ⟨test_of_agree hx (fun y => (h y).mp) i a,
          test_of_agree ((h x).mp hx) (fun y => (h y).mpr) i a⟩
    · have hP : ∀ x : ∀ i, α i, ¬ ∀ i, P i (x i) := fun x hx => hne ⟨x, hx⟩
      exact .inl ⟨forall_not_tests_iff.mp hP,
        forall_not_tests_iff.mp fun x hx => hP x ((h x).mpr hx)⟩
  · intro h x
    rcases h with ⟨⟨i, hi⟩, ⟨j, hj⟩⟩ | h
    · exact ⟨fun hx => absurd (hx i) (hi _), fun hx => absurd (hx j) (hj _)⟩
    · exact forall_congr' fun i => h i (x i)

end LinuxNet
