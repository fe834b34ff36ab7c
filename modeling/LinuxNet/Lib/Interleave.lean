import LinuxNet.Lib.Run

/-!
# Interleaved runs

A system of several components takes one step after the other, and each input is for one of
them, or for none. Two ways to take a run of it apart:

* `run_project` — a component that only its own inputs change has gone through the run of its
  own inputs, wherever the others stand in between;
* `run_outputs` — what every step adds to has, at the end, everything added that the steps have
  put out, in their order.
-/

namespace LinuxNet

variable {ε σ ι α β : Type} {step : σ → ι → Except ε σ}

/-- **Projection** of a run to one component. -/
theorem run_project {ε₁ σ₁ ι₁ : Type} {step₁ : σ₁ → ι₁ → Except ε₁ σ₁} {view : σ → σ₁}
    {own : ι → Option ι₁}
    (hown : ∀ s i s' j, step s i = .ok s' → own i = some j → step₁ (view s) j = .ok (view s'))
    (hother : ∀ s i s', step s i = .ok s' → own i = none → view s' = view s) (is : List ι) :
    ∀ {s t : σ}, run step s is = .ok t → run step₁ (view s) (is.filterMap own) = .ok (view t) := by
  induction is with
  | nil =>
    intro s t h
    cases h
    rfl
  | cons i is ih =>
    intro s t h
    obtain ⟨s', h1, h2⟩ := run_cons_cases h
    rw [List.filterMap_cons]
    cases hi : own i with
    | none =>
      show run step₁ (view s) (is.filterMap own) = _
      rw [← hother s i s' h1 hi]
      exact ih h2
    | some j => exact (run_cons_ok (hown s i s' j h1 hi)).trans (ih h2)

/-- What the steps of a run put out. -/
def outputs (step : σ → ι → Except ε σ) (out : σ → ι → List α) : σ → List ι → List α
  | _, [] => []
  | s, i :: is =>
    out s i ++
      match step s i with
      | .ok s' => outputs step out s' is
      | .error _ => []

/-- The number of steps that meet a condition. -/
def stepCount (step : σ → ι → Except ε σ) (p : σ → ι → Bool) (s : σ) (is : List ι) : Nat :=
  (outputs step (fun s i => if p s i = true then [()] else []) s is).length

theorem outputs_cons {out : σ → ι → List α} {s s' : σ} {i : ι} (h : step s i = .ok s')
    (is : List ι) : outputs step out s (i :: is) = out s i ++ outputs step out s' is := by
  rw [outputs, h]

/-- **Accumulation**: what every step changes by its output, a run changes by all of them. -/
theorem run_outputs {out : σ → ι → List α} {view : σ → β} {add : β → List α → β}
    (hnil : ∀ b, add b [] = b) (happend : ∀ b l m, add b (l ++ m) = add (add b l) m)
    (hstep : ∀ s i s', step s i = .ok s' → view s' = add (view s) (out s i))
    (is : List ι) : ∀ {s t : σ}, run step s is = .ok t →
      view t = add (view s) (outputs step out s is) := by
  induction is with
  | nil =>
    intro s t h
    cases h
    exact (hnil _).symm
  | cons i is ih =>
    intro s t h
    obtain ⟨s', h1, h2⟩ := run_cons_cases h
    rw [ih h2, hstep s i s' h1, outputs_cons h1, happend]

/-- Outputs that each step has as many of as two conditions say. -/
theorem outputs_length {out : σ → ι → List α} {p q : σ → ι → Bool}
    (h : ∀ s i, (out s i).length = (p s i).toNat + (q s i).toNat) (is : List ι) :
    ∀ s, (outputs step out s is).length = stepCount step p s is + stepCount step q s is := by
  have hone : ∀ b : Bool, (if b = true then [()] else []).length = b.toNat := fun b => by
    cases b <;> rfl
  induction is with
  | nil =>
    intro s
    rfl
  | cons i is ih =>
    intro s
    cases h1 : step s i with
    | error e => simp only [stepCount, outputs, h1, List.append_nil, hone, h]
    | ok s' =>
      have hrest := ih s'
      simp only [stepCount] at hrest
      simp only [stepCount, outputs_cons h1, List.length_append, hone, h, hrest]
      omega

end LinuxNet
