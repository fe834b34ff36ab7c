import Mathlib.Data.List.Basic

/-!
# Handing over a list piece by piece

A sender has elements to hand over and offers all that is left of them; each
time the receiver answers that it takes so many, that it takes none for now, or
that it fails. `drain` goes on until nothing is left, the receiver fails, or the
answers given so far are used up.

However the answers cut the list into pieces, what has been handed over is the
list's beginning, as long as the answers allow (`drain_moved`), and nothing is
lost or handed over twice (`drain_conserves`). A receiver that does not fail and
takes something often enough gets all of it (`drain_progress`).
-/

namespace LinuxNet

/-- What a receiver answers to an offer. -/
inductive Answer (ε : Type) where
  /-- It takes at most `n`. -/
  | takes (n : Nat)
  /-- It takes nothing now, and may be asked again. -/
  | again
  /-- It takes nothing any more. -/
  | fails (e : ε)
  deriving DecidableEq, Repr

/-- How far a transfer has come. -/
structure Drained (β ε : Type) where
  /-- What has been handed over, in order. -/
  moved : List β
  /-- What is still to be handed over. -/
  left : List β
  /-- The answers that have not been used. -/
  answers : List (Answer ε)
  /-- Why the receiver failed, if it did. -/
  failure : Option ε
  deriving DecidableEq, Repr

variable {β ε : Type}

/-- Hand over a list, given the receiver's answers. -/
def drain : List (Answer ε) → List β → Drained β ε
  | as, [] => ⟨[], [], as, none⟩
  | [], x :: xs => ⟨[], x :: xs, [], none⟩
  | .takes n :: as, x :: xs =>
    let d := drain as ((x :: xs).drop n)
    { d with moved := (x :: xs).take n ++ d.moved }
  | .again :: as, x :: xs => drain as (x :: xs)
  | .fails e :: as, x :: xs => ⟨[], x :: xs, as, some e⟩

/-- How many elements the answers would take, up to the first failure. -/
def offered : List (Answer ε) → Nat
  | [] => 0
  | .takes n :: as => n + offered as
  | .again :: as => offered as
  | .fails _ :: _ => 0

/-- The first failure among the answers. -/
def firstFailure : List (Answer ε) → Option ε
  | [] => none
  | .takes _ :: as => firstFailure as
  | .again :: as => firstFailure as
  | .fails e :: _ => some e

@[simp] theorem drain_nil (as : List (Answer ε)) :
    drain as ([] : List β) = ⟨[], [], as, none⟩ := by
  cases as <;> rfl

/-- Nothing is lost, and nothing handed over twice. -/
theorem drain_conserves (as : List (Answer ε)) : ∀ todo : List β,
    (drain as todo).moved ++ (drain as todo).left = todo := by
  induction as with
  | nil => intro todo; cases todo <;> rfl
  | cons a as ih =>
    intro todo
    cases todo with
    | nil => rw [drain_nil]; rfl
    | cons x xs =>
      cases a with
      | takes n =>
        rw [drain, List.append_assoc, ih, List.take_append_drop]
      | again => exact ih (x :: xs)
      | fails e => rfl

/-- What has been handed over is the beginning of the list, as long as the
answers allow. -/
theorem drain_moved (as : List (Answer ε)) : ∀ todo : List β,
    (drain as todo).moved = todo.take (offered as) := by
  induction as with
  | nil => intro todo; cases todo <;> rfl
  | cons a as ih =>
    intro todo
    cases todo with
    | nil => rw [drain_nil, List.take_nil]
    | cons x xs =>
      cases a with
      | takes n =>
        rw [drain, ih, offered, List.take_add]
      | again => exact ih (x :: xs)
      | fails e => rfl

/-- A failure is met when the answers before it do not take the whole list. -/
theorem drain_failure (as : List (Answer ε)) : ∀ todo : List β,
    (drain as todo).failure = if todo.length ≤ offered as then none else firstFailure as := by
  induction as with
  | nil =>
    intro todo
    cases todo with
    | nil => rfl
    | cons x xs => exact (ite_self none).symm
  | cons a as ih =>
    intro todo
    cases todo with
    | nil =>
      rw [drain_nil]
      exact (if_pos (Nat.zero_le _)).symm
    | cons x xs =>
      cases a with
      | takes n =>
        have hlen : (x :: xs).length ≤ n + offered as ↔ ((x :: xs).drop n).length ≤ offered as := by
          rw [List.length_drop]
          omega
        rw [drain, ih, offered, firstFailure, if_congr hlen rfl rfl]
      | again => exact ih (x :: xs)
      | fails e =>
        rw [offered, if_neg (by rw [List.length_cons]; omega)]
        rfl

/-- The transfer is complete if and only if the answers take as much as there is. -/
theorem drain_left (as : List (Answer ε)) (todo : List β) :
    (drain as todo).left = [] ↔ todo.length ≤ offered as := by
  have h := congrArg List.length (drain_conserves as todo)
  rw [List.length_append, drain_moved, List.length_take] at h
  rw [← List.length_eq_zero_iff]
  omega

/-! ## A receiver that goes on taking -/

/-- How many answers take something. -/
def progress : List (Answer ε) → Nat
  | [] => 0
  | .takes n :: as => (if n = 0 then 0 else 1) + progress as
  | .again :: as => progress as
  | .fails _ :: as => progress as

/-- A receiver that does not fail and takes something often enough gets all of it, and each
element costs at most one of the times it takes something. -/
theorem drain_progress (as : List (Answer ε)) : ∀ todo : List β, (∀ e, .fails e ∉ as) →
    todo.length ≤ progress as →
    (drain as todo).left = [] ∧ progress as ≤ progress (drain as todo).answers + todo.length ∧
      ∀ e, .fails e ∉ (drain as todo).answers := by
  induction as with
  | nil =>
    intro todo hf h
    have hnil : todo = [] := List.length_eq_zero_iff.mp (Nat.le_zero.mp h)
    rw [hnil, drain_nil]
    exact ⟨rfl, Nat.le_refl _, hf⟩
  | cons a as ih =>
    intro todo hf h
    have hf' : ∀ e, .fails e ∉ as := fun e he => hf e (List.mem_cons_of_mem a he)
    cases todo with
    | nil =>
      rw [drain_nil]
      exact ⟨rfl, Nat.le_add_right _ _, hf⟩
    | cons x xs =>
      cases a with
      | takes n =>
        have hdrop : ((x :: xs).drop n).length = (x :: xs).length - n := List.length_drop
        rw [progress] at h ⊢
        obtain ⟨hleft, hcost, hrest⟩ := ih ((x :: xs).drop n) hf' (by split at h <;> omega)
        refine ⟨hleft, ?_, hrest⟩
        have hpos : 0 < (x :: xs).length := Nat.succ_pos _
        show _ ≤ progress (drain as ((x :: xs).drop n)).answers + _
        split
        next => omega
        next => omega
      | again => exact ih (x :: xs) hf' h
      | fails e => exact absurd List.mem_cons_self (hf e)

end LinuxNet
