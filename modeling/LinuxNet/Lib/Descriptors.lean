import Mathlib

/-!
# Descriptors

A process has a finite set of open descriptors, and a call that opens one gets the lowest
that is free. `lowestFree` looks for it from a given descriptor on, over as many steps as
there are open ones: behind that many, one has to be free.
-/

namespace LinuxNet

/-- The lowest descriptor from `fd` on that is not open, of which `count` may be. -/
def lowestFreeIn (opened : Finset Nat) : Nat → Nat → Nat
  | 0, fd => fd
  | count + 1, fd => if fd ∈ opened then lowestFreeIn opened count (fd + 1) else fd

/-- The lowest descriptor from `fd` on that is not open. -/
def lowestFree (opened : Finset Nat) (fd : Nat) : Nat := lowestFreeIn opened opened.card fd

variable {opened : Finset Nat} {fd : Nat}

/-- From a descriptor of the set on there is one more of them than behind it. -/
theorem card_from_mem {fds : Finset Nat} (h : fd ∈ fds) :
    (fds.filter fun x => fd ≤ x).card = (fds.filter fun x => fd + 1 ≤ x).card + 1 := by
  have hsplit : (fds.filter fun x => fd ≤ x) = insert fd (fds.filter fun x => fd + 1 ≤ x) := by
    ext x
    simp only [Finset.mem_filter, Finset.mem_insert]
    constructor
    · intro hx
      rcases Nat.eq_or_lt_of_le hx.2 with heq | hlt
      · exact Or.inl heq.symm
      · exact Or.inr ⟨hx.1, hlt⟩
    · intro hx
      rcases hx with rfl | hx
      · exact ⟨h, Nat.le_refl _⟩
      · exact ⟨hx.1, Nat.le_of_succ_le hx.2⟩
  rw [hsplit, Finset.card_insert_of_notMem]
  exact fun hmem => absurd (Finset.mem_filter.mp hmem).2 (Nat.not_succ_le_self _)

/-- A descriptor that is not in the set does not count. -/
theorem card_from_notMem {fds : Finset Nat} (h : fd ∉ fds) :
    (fds.filter fun x => fd ≤ x).card = (fds.filter fun x => fd + 1 ≤ x).card := by
  refine congrArg _ (Finset.filter_congr fun x hx => ?_)
  have hne : x ≠ fd := fun heq => h (heq ▸ hx)
  omega

theorem lowestFreeIn_spec (count : Nat) : ∀ {fd : Nat},
    (opened.filter fun x => fd ≤ x).card ≤ count →
      lowestFreeIn opened count fd ∉ opened ∧ fd ≤ lowestFreeIn opened count fd ∧
        ∀ x, fd ≤ x → x < lowestFreeIn opened count fd → x ∈ opened := by
  induction count with
  | zero =>
    intro fd hcard
    have hempty := Finset.card_eq_zero.mp (Nat.le_zero.mp hcard)
    refine ⟨fun h => ?_, Nat.le_refl _, fun x hle hlt => absurd hle (Nat.not_le.mpr hlt)⟩
    have hmem : fd ∈ opened.filter fun x => fd ≤ x := Finset.mem_filter.mpr ⟨h, Nat.le_refl _⟩
    rw [hempty] at hmem
    exact Finset.notMem_empty _ hmem
  | succ count ih =>
    intro fd hcard
    rw [lowestFreeIn]
    by_cases hfd : fd ∈ opened
    · rw [card_from_mem hfd] at hcard
      rw [if_pos hfd]
      obtain ⟨hfree, hle, hbelow⟩ := ih (Nat.le_of_succ_le_succ hcard)
      refine ⟨hfree, Nat.le_of_succ_le hle, fun x hx hxlt => ?_⟩
      by_cases hxfd : x = fd
      · rw [hxfd]
        exact hfd
      · exact hbelow x (by omega) hxlt
    · rw [if_neg hfd]
      exact ⟨hfd, Nat.le_refl _, fun x hle hlt => absurd hle (Nat.not_le.mpr hlt)⟩

/-- What `lowestFree` finds is not open, and everything below it is. -/
theorem lowestFree_spec (opened : Finset Nat) (fd : Nat) :
    lowestFree opened fd ∉ opened ∧ fd ≤ lowestFree opened fd ∧
      ∀ x, fd ≤ x → x < lowestFree opened fd → x ∈ opened :=
  lowestFreeIn_spec opened.card (Finset.card_le_card (Finset.filter_subset _ _))

end LinuxNet
