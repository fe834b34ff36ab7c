import Mathlib

/-!
# Computations that get through

A program that may fault is modelled in `Except ε`. What is known of a run that got
through is read off backwards: both parts of a sequence did (`bind_eq_ok`), what a function
is applied to did (`map_eq_ok`), and so did every turn of a loop that collects its results
(`mapM_cons_eq_ok`, `mem_of_mapM`).
-/

namespace LinuxNet

variable {ε α β : Type}

/-- A sequence gets through if its first part does, and then the rest. -/
theorem bind_eq_ok {x : Except ε α} {f : α → Except ε β} {b : β} :
    x >>= f = .ok b ↔ ∃ a, x = .ok a ∧ f a = .ok b := by
  cases x with
  | error e =>
    refine iff_of_false (fun h => ?_) fun h => ?_
    · cases h
    · obtain ⟨a, ha, -⟩ := h
      cases ha
  | ok a =>
    constructor
    · intro h
      exact ⟨a, rfl, h⟩
    · intro h
      obtain ⟨a', ha, h⟩ := h
      cases ha
      exact h

/-- What is made of a result. -/
theorem map_eq_ok {x : Except ε α} {f : α → β} {b : β} :
    x.map f = .ok b ↔ ∃ a, x = .ok a ∧ f a = b := by
  cases x with
  | error e =>
    refine iff_of_false (fun h => ?_) fun h => ?_
    · cases h
    · obtain ⟨a, ha, -⟩ := h
      cases ha
  | ok a =>
    constructor
    · intro h
      exact ⟨a, rfl, Except.ok.inj h⟩
    · intro h
      obtain ⟨a', ha, rfl⟩ := h
      cases ha
      rfl

variable {f : α → Except ε β}

theorem mapM_cons_eq_ok {a : α} {as : List α} {bs : List β} :
    (a :: as).mapM f = .ok bs ↔
      ∃ b bs', f a = .ok b ∧ as.mapM f = .ok bs' ∧ bs = b :: bs' := by
  rw [List.mapM_cons, bind_eq_ok]
  constructor
  · intro h
    obtain ⟨b, hb, h⟩ := h
    obtain ⟨bs', hbs, h⟩ := bind_eq_ok.mp h
    cases h
    exact ⟨b, bs', hb, hbs, rfl⟩
  · intro h
    obtain ⟨b, bs', hb, hbs, rfl⟩ := h
    exact ⟨b, hb, bind_eq_ok.mpr ⟨bs', hbs, rfl⟩⟩

/-- What a loop has collected comes from its turns. -/
theorem mem_of_mapM {as : List α} :
    ∀ {bs : List β}, as.mapM f = .ok bs → ∀ b ∈ bs, ∃ a ∈ as, f a = .ok b := by
  induction as with
  | nil =>
    intro bs h b hb
    cases h
    cases hb
  | cons a as ih =>
    intro bs h b hb
    obtain ⟨b', bs', hb', hbs, rfl⟩ := mapM_cons_eq_ok.mp h
    rcases List.mem_cons.mp hb with rfl | hb
    · exact ⟨a, List.mem_cons_self, hb'⟩
    · obtain ⟨a', ha', hf⟩ := ih hbs b hb
      exact ⟨a', List.mem_cons_of_mem a ha', hf⟩

/-- A loop that gets through has one result for each turn. -/
theorem length_of_mapM {as : List α} :
    ∀ {bs : List β}, as.mapM f = .ok bs → bs.length = as.length := by
  induction as with
  | nil =>
    intro bs h
    cases h
    rfl
  | cons a as ih =>
    intro bs h
    obtain ⟨b', bs', -, hbs, rfl⟩ := mapM_cons_eq_ok.mp h
    rw [List.length_cons, List.length_cons, ih hbs]

end LinuxNet
