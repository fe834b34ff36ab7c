import Mathlib

/-!
# One's-complement sums of 16-bit words

The Internet checksum adds 16-bit words with end-around carry: a carry out of
the sixteenth bit is added back at the bottom (`oneAdd`). `onesSum` is that sum
over a list of words, and a block *verifies* if its sum is all ones.

Code does not add that way. It adds everything up in a wide accumulator and
folds the carries back afterwards, so what is needed is the bridge between the
two: `fold` keeps a number's residue modulo 65535 and its being nonzero, and
these two determine the folded value (`onesSum_eq_fold`, `onesSum_eq_iff`).
-/

namespace LinuxNet

/-- Add the part above sixteen bits back at the bottom. -/
def fold (n : Nat) : Nat := n / 65536 + n % 65536

/-- Addition with end-around carry. -/
def oneAdd (a b : Nat) : Nat := fold (a + b)

/-- The one's-complement sum of a list of words. -/
def onesSum (ws : List Nat) : Nat := ws.foldl oneAdd 0

theorem fold_mod (n : Nat) : fold n % 65535 = n % 65535 := by
  unfold fold
  omega

theorem fold_eq_zero {n : Nat} : fold n = 0 ↔ n = 0 := by
  unfold fold
  omega

theorem fold_of_lt {n : Nat} (h : n < 65536) : fold n = n := by
  unfold fold
  omega

/-- Folding a sum of two words leaves one word. -/
theorem oneAdd_le {a b : Nat} (ha : a ≤ 65535) (hb : b ≤ 65535) : oneAdd a b ≤ 65535 := by
  unfold oneAdd fold
  omega

/-- Folding a 32-bit number twice leaves one word. -/
theorem fold_fold_le {n : Nat} (h : n < 4294967296) : fold (fold n) ≤ 65535 := by
  unfold fold
  omega

/-- A word is all ones exactly if it is a nonzero multiple of 65535. -/
theorem eq_allOnes_iff {n : Nat} (h : n ≤ 65535) : n = 65535 ↔ 0 < n ∧ n % 65535 = 0 := by
  omega

/-- What folding twice makes of a 32-bit accumulator is all ones exactly if the
accumulator is a nonzero multiple of 65535. -/
theorem fold_fold_eq_iff {n : Nat} (h : n < 4294967296) :
    fold (fold n) = 65535 ↔ 0 < n ∧ n % 65535 = 0 := by
  rw [eq_allOnes_iff (fold_fold_le h), fold_mod, fold_mod, Nat.pos_iff_ne_zero, Nat.pos_iff_ne_zero,
    ne_eq, fold_eq_zero, fold_eq_zero]

/-- Along the sum: one word, the residue and the being zero of the plain sum. -/
theorem foldl_oneAdd_spec (ws : List Nat) : ∀ acc : Nat, (∀ w ∈ ws, w ≤ 65535) → acc ≤ 65535 →
    ws.foldl oneAdd acc ≤ 65535 ∧ ws.foldl oneAdd acc % 65535 = (acc + ws.sum) % 65535 ∧
      (ws.foldl oneAdd acc = 0 ↔ acc + ws.sum = 0) := by
  induction ws with
  | nil =>
    intro acc _ ha
    rw [List.sum_nil, Nat.add_zero]
    exact ⟨ha, rfl, Iff.rfl⟩
  | cons w ws ih =>
    intro acc hw ha
    have hw1 : w ≤ 65535 := hw w (List.mem_cons_self ..)
    obtain ⟨h1, h2, h3⟩ := ih (oneAdd acc w) (fun v hv => hw v (List.mem_cons_of_mem _ hv))
      (oneAdd_le ha hw1)
    have hm : oneAdd acc w % 65535 = (acc + w) % 65535 := fold_mod _
    have hz : oneAdd acc w = 0 ↔ acc + w = 0 := fold_eq_zero
    rw [List.foldl_cons, List.sum_cons]
    exact ⟨h1, by omega, by omega⟩

theorem onesSum_spec {ws : List Nat} (hw : ∀ w ∈ ws, w ≤ 65535) :
    onesSum ws ≤ 65535 ∧ onesSum ws % 65535 = ws.sum % 65535 ∧ (onesSum ws = 0 ↔ ws.sum = 0) := by
  have h := foldl_oneAdd_spec ws 0 hw (by decide)
  rwa [Nat.zero_add] at h

/-- **The sum of an accumulator**: what 32 bits are folded to is the one's-complement sum. -/
theorem onesSum_eq_fold {ws : List Nat} (hw : ∀ w ∈ ws, w ≤ 65535) (h : ws.sum < 4294967296) :
    onesSum ws = fold (fold ws.sum) := by
  obtain ⟨hle, hmod, hzero⟩ := onesSum_spec hw
  have hle' := fold_fold_le h
  have hmod' : fold (fold ws.sum) % 65535 = ws.sum % 65535 := (fold_mod _).trans (fold_mod _)
  have hzero' : fold (fold ws.sum) = 0 ↔ ws.sum = 0 := fold_eq_zero.trans fold_eq_zero
  omega

/-- **The complement**: the sum and its complement together are a nonzero multiple of 65535. -/
theorem onesSum_complement {ws : List Nat} (hw : ∀ w ∈ ws, w ≤ 65535) :
    0 < ws.sum + (65535 - onesSum ws) ∧ (ws.sum + (65535 - onesSum ws)) % 65535 = 0 := by
  obtain ⟨hle, hmod, hzero⟩ := onesSum_spec hw
  omega

/-- A block verifies exactly if the plain sum of its words is a nonzero multiple
of 65535. -/
theorem onesSum_eq_iff {ws : List Nat} (hw : ∀ w ∈ ws, w ≤ 65535) :
    onesSum ws = 65535 ↔ 0 < ws.sum ∧ ws.sum % 65535 = 0 := by
  obtain ⟨h1, h2, h3⟩ := onesSum_spec hw
  rw [eq_allOnes_iff h1, h2, Nat.pos_iff_ne_zero, Nat.pos_iff_ne_zero, ne_eq, h3]

end LinuxNet
