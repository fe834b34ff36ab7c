import Mathlib

/-!
# The words of a text

What stands between separators (`wordsOf`), and how a reader that skips separators and takes
what follows up to the next one goes through it: `wordsOf_next` is one turn of it.
-/

namespace LinuxNet

variable {α : Type} {sep : α → Bool}

/-- The words of a text: what stands between separators, where anything does. -/
def wordsOf (sep : α → Bool) (s : List α) : List (List α) :=
  (s.splitOnP sep).filter fun w => !w.isEmpty

@[simp] theorem wordsOf_nil : wordsOf sep [] = [] := by
  rw [wordsOf, List.splitOnP_nil]
  rfl

/-- A separator in front of a text. -/
theorem wordsOf_sep {c : α} (hc : sep c = true) (s : List α) :
    wordsOf sep (c :: s) = wordsOf sep s := by
  rw [wordsOf, List.splitOnP_cons_eq_if_modifyHead, if_pos hc]
  rfl

theorem wordsOf_dropWhile (s : List α) : wordsOf sep (s.dropWhile sep) = wordsOf sep s := by
  induction s with
  | nil => rfl
  | cons c s ih =>
    by_cases hc : sep c = true
    · rw [List.dropWhile_cons_of_pos hc, ih, wordsOf_sep hc]
    · rw [List.dropWhile_cons_of_neg hc]

/-- A word in front of a text that does not go on with it. -/
theorem wordsOf_word {w rest : List α} (hne : w ≠ []) (hw : ∀ c ∈ w, sep c = false)
    (hrest : ∀ c ∈ rest.head?, sep c = true) :
    wordsOf sep (w ++ rest) = w :: wordsOf sep rest := by
  have hkeep : (!w.isEmpty) = true := by
    rw [Bool.not_eq_true', List.isEmpty_eq_false_iff]
    exact hne
  cases rest with
  | nil =>
    rw [List.append_nil, wordsOf_nil, wordsOf, List.splitOnP_eq_singleton hw]
    exact List.filter_cons_of_pos hkeep
  | cons c rest =>
    have hc := hrest c rfl
    rw [wordsOf_sep hc, wordsOf, List.splitOnP_append_cons w rest hc,
      List.splitOnP_eq_singleton hw]
    exact List.filter_cons_of_pos hkeep

/-- **One turn of a reader**: behind the separators stands the first word. -/
theorem wordsOf_next {s : List α} (h : s.dropWhile sep ≠ []) :
    wordsOf sep s = (s.dropWhile sep).takeWhile (fun c => !sep c) ::
      wordsOf sep ((s.dropWhile sep).dropWhile fun c => !sep c) := by
  have hhead := List.head?_dropWhile_not sep s
  rw [← wordsOf_dropWhile s]
  generalize s.dropWhile sep = t at h hhead
  have hend := List.head?_dropWhile_not (fun c => !sep c) t
  have hne : t.takeWhile (fun c => !sep c) ≠ [] := by
    cases t with
    | nil => exact absurd rfl h
    | cons c t =>
      rw [List.takeWhile_cons_of_pos (by rw [hhead]; rfl)]
      exact List.cons_ne_nil _ _
  have hall : ∀ c ∈ t.takeWhile (fun c => !sep c), sep c = false := by
    intro c hc
    have hnot := List.mem_takeWhile_imp hc
    rwa [Bool.not_eq_true'] at hnot
  have hrest : ∀ c ∈ (t.dropWhile fun c => !sep c).head?, sep c = true := by
    intro c hc
    rw [Option.mem_def.mp hc] at hend
    have hnot : (!sep c) = false := hend
    rwa [Bool.not_eq_false'] at hnot
  have hword := wordsOf_word hne hall hrest
  rwa [List.takeWhile_append_dropWhile] at hword

end LinuxNet
