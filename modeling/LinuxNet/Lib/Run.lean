import Mathlib

/-!
# Runs of a step function that may fault

A system is a step function `σ → ι → Except ε σ`: a state takes an input to
the next state, or to the fault in which the program is stuck. `run` feeds it
a list of inputs, `Always` speaks about every state on the way, and `Along step
guard s is` says that every input of the run meets the guard *in the state in
which it is taken*, so a condition on the steps of a run is one definition and
not a second copy of the step function.

The rules reduce a theorem about runs to one about a step.
`ok_always_iff_along` and its special case `always_iff_along` are for a guard
that is exact: a run keeps what it should exactly if all its steps meet the
guard. `run_guarded` is for a guard that is enough and `run_works` for steps that need
none, `run_last_write` for a part of the state that a step sets or keeps. `run_simulates`
and `along_of_run` are for a run that is to follow an abstract one, `run_relates` for two
runs of the same steps.
-/

namespace LinuxNet

variable {σ ι ε : Type}

/-- Feed the inputs to the step function; the first fault ends the run. -/
def run (step : σ → ι → Except ε σ) : σ → List ι → Except ε σ
  | s, [] => .ok s
  | s, i :: is =>
    match step s i with
    | .ok s' => run step s' is
    | .error e => .error e

/-- Every input of the run meets `guard` in the state in which it is taken. -/
def Along (step : σ → ι → Except ε σ) (guard : σ → ι → Prop) : σ → List ι → Prop
  | _, [] => True
  | s, i :: is => guard s i ∧ ∀ s', step s i = .ok s' → Along step guard s' is

/-- Every state the run goes through meets `P`, the first and the last included. -/
def Always (step : σ → ι → Except ε σ) (P : σ → Prop) : σ → List ι → Prop
  | s, [] => P s
  | s, i :: is => P s ∧ ∀ s', step s i = .ok s' → Always step P s' is

variable {step : σ → ι → Except ε σ} {guard : σ → ι → Prop} {P : σ → Prop}

@[simp] theorem run_nil (s : σ) : run step s [] = .ok s := rfl

theorem run_cons_ok {s s' : σ} {i : ι} {is : List ι} (h : step s i = .ok s') :
    run step s (i :: is) = run step s' is := by
  rw [run, h]

/-- A run that gets through has got through its first step. -/
theorem run_cons_cases {s t : σ} {i : ι} {is : List ι}
    (h : run step s (i :: is) = .ok t) :
    ∃ s', step s i = .ok s' ∧ run step s' is = .ok t := by
  rw [run] at h
  split at h
  next s' hs => exact ⟨s', hs, h⟩
  next => exact nomatch h

/-- The first state of a run is one of the states it goes through. -/
theorem Always.head {is : List ι} {s : σ} (h : Always step P s is) : P s := by
  cases is with
  | nil => exact h
  | cons i is => exact h.1

/-- Two guards all along a run are one. -/
theorem along_and {guard' : σ → ι → Prop} (is : List ι) : ∀ s : σ,
    Along step (fun s i => guard s i ∧ guard' s i) s is ↔
      Along step guard s is ∧ Along step guard' s is := by
  induction is with
  | nil =>
    intro s
    exact (and_self_iff (a := True)).symm
  | cons i is ih =>
    intro s
    constructor
    · intro h
      obtain ⟨⟨h, h'⟩, hs⟩ := h
      exact ⟨⟨h, fun s' h1 => ((ih s').mp (hs s' h1)).1⟩, h',
        fun s' h1 => ((ih s').mp (hs s' h1)).2⟩
    · intro h
      obtain ⟨⟨h, hs⟩, h', hs'⟩ := h
      exact ⟨⟨h, h'⟩, fun s' h1 => (ih s').mpr ⟨hs s' h1, hs' s' h1⟩⟩

/-- Two properties of every state of a run are one. -/
theorem always_and {Q : σ → Prop} (is : List ι) : ∀ s : σ,
    Always step (fun s => P s ∧ Q s) s is ↔ Always step P s is ∧ Always step Q s is := by
  induction is with
  | nil => exact fun _ => Iff.rfl
  | cons i is ih =>
    intro s
    constructor
    · intro h
      obtain ⟨⟨hp, hq⟩, hs⟩ := h
      exact ⟨⟨hp, fun s' h1 => ((ih s').mp (hs s' h1)).1⟩, hq,
        fun s' h1 => ((ih s').mp (hs s' h1)).2⟩
    · intro h
      obtain ⟨⟨hp, hs⟩, hq, hs'⟩ := h
      exact ⟨⟨hp, hq⟩, fun s' h1 => (ih s').mpr ⟨hs s' h1, hs' s' h1⟩⟩

/-- A guard that every input of the run meets in every state is met along it. -/
theorem along_of_forall {is : List ι} (h : ∀ i ∈ is, ∀ s, guard s i) :
    ∀ s, Along step guard s is := by
  induction is with
  | nil =>
    intro s
    exact trivial
  | cons i is ih =>
    intro s
    exact ⟨h i (List.mem_cons_self ..) s, fun s' _ =>
      ih (fun j hj => h j (List.mem_cons_of_mem _ hj)) s'⟩

/-- What is true of every state is true of every state of a run. -/
theorem always_of_forall (h : ∀ s, P s) (is : List ι) : ∀ s, Always step P s is := by
  induction is with
  | nil => exact h
  | cons i is ih => exact fun s => ⟨h s, fun s' _ => ih s'⟩

/-- A guard that implies another on every step implies it along every run. -/
theorem along_mono {guard' : σ → ι → Prop} (h : ∀ s i, guard s i → guard' s i) (is : List ι) :
    ∀ s, Along step guard s is → Along step guard' s is := by
  induction is with
  | nil => exact fun _ _ => trivial
  | cons i is ih => exact fun s hs => ⟨h s i hs.1, fun s' h1 => ih s' (hs.2 s' h1)⟩

/-- A guard on the inputs alone, with which every step gets through, is met along a run by
every input of it. -/
theorem along_iff_forall {g : ι → Prop} (hg : ∀ s i, guard s i ↔ g i)
    (hok : ∀ s i, g i → ∃ s', step s i = .ok s') (is : List ι) :
    ∀ s, Along step guard s is ↔ ∀ i ∈ is, g i := by
  induction is with
  | nil =>
    intro s
    exact iff_of_true trivial fun i hi => nomatch hi
  | cons i is ih =>
    intro s
    rw [Along, hg, List.forall_mem_cons]
    refine and_congr_right fun hi => ?_
    obtain ⟨s', h1⟩ := hok s i hi
    rw [h1]
    exact ⟨fun h => (ih s').mp (h s' rfl), fun h s'' _ => (ih s'').mpr h⟩

/-- Guards that agree on every step agree on every run. -/
theorem along_congr {guard' : σ → ι → Prop} (h : ∀ s i, guard s i ↔ guard' s i)
    (is : List ι) (s : σ) : Along step guard s is ↔ Along step guard' s is := by
  rw [show guard = guard' from funext fun s => funext fun i => propext (h s i)]

/-- Guards that agree on every step from a good state agree on every run from one. -/
theorem along_congr_of_inv {guard' : σ → ι → Prop} (Inv : σ → Prop)
    (hinv : ∀ s i s', Inv s → step s i = .ok s' → Inv s')
    (h : ∀ s i, Inv s → (guard s i ↔ guard' s i)) (is : List ι) :
    ∀ {s : σ}, Inv s → (Along step guard s is ↔ Along step guard' s is) := by
  induction is with
  | nil =>
    intro s _
    exact Iff.rfl
  | cons i is ih =>
    intro s hs
    rw [Along, Along, h s i hs]
    exact and_congr_right fun _ => forall₂_congr fun s' h1 => ih (hinv s i s' hs h1)

/-- **Exactness of a guard, with a condition on the steps**: let `Inv` imply `P` and
be kept by guarded steps. Where a step that misses the guard does not lead to a
state with `P`, and a step is `Ok` if it meets the guard and succeeds, and exactly
if it meets the guard when it does not succeed, a run has `Ok` steps and `P` states
only exactly when it meets the guard all along. -/
theorem ok_always_iff_along (Inv : σ → Prop) (Ok : σ → ι → Prop) (hP : ∀ s, Inv s → P s)
    (hinv : ∀ s i s', Inv s → guard s i → step s i = .ok s' → Inv s')
    (hbad : ∀ s i s', Inv s → ¬ guard s i → step s i = .ok s' → ¬ P s')
    (hok : ∀ s i s', Inv s → guard s i → step s i = .ok s' → Ok s i)
    (hfault : ∀ s i e, Inv s → step s i = .error e → (Ok s i ↔ guard s i)) (is : List ι) :
    ∀ {s : σ}, Inv s →
      (Along step Ok s is ∧ Always step P s is ↔ Along step guard s is) := by
  induction is with
  | nil =>
    intro s hs
    exact iff_of_true ⟨trivial, hP s hs⟩ trivial
  | cons i is ih =>
    intro s hs
    rw [Along, Along, Always]
    cases h1 : step s i with
    | error e =>
      -- the run ends here, and all turns on this step
      have hiff := hfault s i e hs h1
      exact ⟨fun h => ⟨hiff.mp h.1.1, nofun⟩, fun h => ⟨⟨hiff.mpr h.1, nofun⟩, hP s hs, nofun⟩⟩
    | ok s' =>
      simp only [Except.ok.injEq, forall_eq']
      by_cases hg : guard s i
      · have ih := ih (hinv s i s' hs hg h1)
        constructor
        · intro h
          obtain ⟨⟨_, ho⟩, _, ha⟩ := h
          exact ⟨hg, ih.mp ⟨ho, ha⟩⟩
        · intro h
          obtain ⟨_, ha⟩ := h
          exact ⟨⟨hok s i s' hs hg h1, (ih.mpr ha).1⟩, hP s hs, (ih.mpr ha).2⟩
      · -- a step that misses the guard has spoilt the next state
        refine iff_of_false ?_ fun h => hg h.1
        intro h
        obtain ⟨_, _, ha⟩ := h
        exact hbad s i s' hs hg h1 ha.head

/-- **Exactness of a guard**: where a successful step from a good state leads to
a good state exactly when it meets the guard, a run goes through good states
only exactly when it meets the guard all along. `Inv` is what every step keeps. -/
theorem always_iff_along (Inv : σ → Prop)
    (hinv : ∀ s i s', Inv s → step s i = .ok s' → Inv s')
    (hstep : ∀ s i s', Inv s → P s → step s i = .ok s' → (P s' ↔ guard s i))
    (hfault : ∀ s i e, Inv s → P s → step s i = .error e → guard s i) (is : List ι) {s : σ}
    (hs : Inv s) (hp : P s) : Always step P s is ↔ Along step guard s is := by
  have h := ok_always_iff_along (fun s => Inv s ∧ P s) (fun _ _ => True) (fun _ h => h.2)
    (fun s i s' h hg h1 => ⟨hinv s i s' h.1 h1, (hstep s i s' h.1 h.2 h1).mpr hg⟩)
    (fun s i s' h hg h1 => mt (hstep s i s' h.1 h.2 h1).mp hg)
    (fun _ _ _ _ _ _ => trivial)
    (fun s i e h h1 => iff_of_true trivial (hfault s i e h.1 h.2 h1)) is ⟨hs, hp⟩
  rwa [and_iff_right (along_of_forall (fun _ _ _ => trivial) s)] at h

/-- A run gets through if every step with one of its inputs does. -/
theorem run_gets_through {is : List ι} (hok : ∀ i ∈ is, ∀ s, ∃ s', step s i = .ok s') :
    ∀ s, ∃ t, run step s is = .ok t := by
  induction is with
  | nil =>
    intro s
    exact ⟨s, rfl⟩
  | cons i is ih =>
    intro s
    obtain ⟨s', h1⟩ := hok i (List.mem_cons_self ..) s
    rw [run_cons_ok h1]
    exact ih (fun j hj => hok j (List.mem_cons_of_mem _ hj)) s'

/-- What guarded steps keep is true behind a run that meets the guard all along. -/
theorem run_keeps {Inv : σ → Prop}
    (hstep : ∀ s i s', Inv s → guard s i → step s i = .ok s' → Inv s') (is : List ι) :
    ∀ {s t : σ}, Inv s → Along step guard s is → run step s is = .ok t → Inv t := by
  induction is with
  | nil =>
    intro s t hs _ h
    rw [← Except.ok.inj h]
    exact hs
  | cons i is ih =>
    intro s t hs hg h
    obtain ⟨s', h1, h2⟩ := run_cons_cases h
    exact ih (hstep s i s' hs hg.1 h1) (hg.2 s' h1) h2

/-- **Invariants with a past**: what is said of a state and of the inputs that led to it is
true of every run if a step keeps it. -/
theorem run_history {Inv : List ι → σ → Prop}
    (hstep : ∀ past s i s', Inv past s → step s i = .ok s' → Inv (past ++ [i]) s')
    (is : List ι) : ∀ {past : List ι} {s t : σ}, Inv past s → run step s is = .ok t →
      Inv (past ++ is) t := by
  induction is with
  | nil =>
    intro past s t hs h
    rw [← Except.ok.inj h, List.append_nil]
    exact hs
  | cons i is ih =>
    intro past s t hs h
    obtain ⟨s', h1, h2⟩ := run_cons_cases h
    rw [List.append_cons]
    exact ih (hstep past s i s' hs h1) h2

/-- **The last write wins**: where every step of a run either sets a part of the state, to
a value that the input determines, or keeps it, the last input to set it decides. -/
theorem run_last_write {α : Type} {f : σ → α} {p : ι → Prop} [DecidablePred p] {val : ι → α}
    (is : List ι) : ∀ {s t : σ},
      (∀ i ∈ is, ∀ s s', step s i = .ok s' → f s' = if p i then val i else f s) →
        run step s is = .ok t → f t = (is.filter p).getLast?.elim (f s) val := by
  induction is with
  | nil =>
    intro s t _ h
    rw [← Except.ok.inj h]
    rfl
  | cons i is ih =>
    intro s t hstep h
    obtain ⟨s', h1, h2⟩ := run_cons_cases h
    rw [ih (fun j hj => hstep j (List.mem_cons_of_mem _ hj)) h2,
      hstep i (List.mem_cons_self ..) s s' h1]
    by_cases hp : p i
    · rw [if_pos hp, List.filter_cons, if_pos (decide_eq_true hp), List.getLast?_cons]
      cases (is.filter p).getLast? <;> rfl
    · rw [if_neg hp, List.filter_cons, if_neg (mt of_decide_eq_true hp)]

/-- **Guarded runs get through**: where every step from a good state that meets the guard is
`Ok` and gets through to a good state, so does every run that meets the guard all along, with
`Ok` steps and `P` states only. -/
theorem run_guarded {Inv : σ → Prop} {Ok : σ → ι → Prop} (hP : ∀ s, Inv s → P s)
    (hstep : ∀ s i, Inv s → guard s i → Ok s i ∧ ∃ s', step s i = .ok s' ∧ Inv s')
    (is : List ι) : ∀ {s : σ}, Inv s → Along step guard s is →
      (∃ t, run step s is = .ok t) ∧ Along step Ok s is ∧ Always step P s is := by
  induction is with
  | nil =>
    intro s hs _
    exact ⟨⟨s, rfl⟩, trivial, hP s hs⟩
  | cons i is ih =>
    intro s hs hg
    obtain ⟨hok, s', h1, hs'⟩ := hstep s i hs hg.1
    obtain ⟨⟨t, ht⟩, halong, halways⟩ := ih hs' (hg.2 s' h1)
    rw [Along, Always, h1]
    simp only [Except.ok.injEq, forall_eq']
    exact ⟨⟨t, (run_cons_ok h1).trans ht⟩, ⟨hok, halong⟩, hP s hs, halways⟩

/-- **Runs that always get through**: where every step from a good state is `Ok` and gets
through to a good state, so does every run, with `Ok` steps and `P` states only. -/
theorem run_works {Inv : σ → Prop} {Ok : σ → ι → Prop} (hP : ∀ s, Inv s → P s)
    (hstep : ∀ s i, Inv s → Ok s i ∧ ∃ s', step s i = .ok s' ∧ Inv s') (is : List ι) {s : σ}
    (hs : Inv s) : (∃ t, run step s is = .ok t) ∧ Along step Ok s is ∧ Always step P s is := by
  have halong : Along step (fun _ _ => True) s is := along_of_forall (fun _ _ _ => trivial) s
  exact run_guarded hP (fun s i hs _ => hstep s i hs) is hs halong

/-- A run goes on where its first part has got to. -/
theorem run_append (is js : List ι) : ∀ {s t : σ}, run step s is = .ok t →
    run step s (is ++ js) = run step t js := by
  induction is with
  | nil =>
    intro s t h
    cases h
    rfl
  | cons i is ih =>
    intro s t h
    obtain ⟨s', h1, h2⟩ := run_cons_cases h
    rw [List.cons_append, run_cons_ok h1, ih h2]

/-- A run that gets through has got through its first part. -/
theorem run_append_cases {is js : List ι} : ∀ {s t : σ}, run step s (is ++ js) = .ok t →
    ∃ r, run step s is = .ok r ∧ run step r js = .ok t := by
  induction is with
  | nil =>
    intro s t h
    exact ⟨s, rfl, h⟩
  | cons i is ih =>
    intro s t h
    obtain ⟨s', h1, h2⟩ := run_cons_cases h
    obtain ⟨r, hr, h3⟩ := ih h2
    exact ⟨r, (run_cons_ok h1).trans hr, h3⟩

/-- A guard met all along is met by the rest of the run. -/
theorem along_append (is js : List ι) : ∀ {s t : σ}, run step s is = .ok t →
    Along step guard s (is ++ js) → Along step guard t js := by
  induction is with
  | nil =>
    intro s t h hg
    cases h
    exact hg
  | cons i is ih =>
    intro s t h hg
    obtain ⟨s', h1, h2⟩ := run_cons_cases h
    exact ih h2 (hg.2 s' h1)

/-! ## Simulation -/

section Simulation

variable {τ : Type} {astep : τ → ι → τ} {aguard : τ → ι → Prop} {R : σ → τ → Prop}

/-- **Forward simulation**: an abstract run that meets its guard is followed by a run
that succeeds. -/
theorem run_simulates
    (hstep : ∀ s t i, R s t → aguard t i → ∃ s', step s i = .ok s' ∧ R s' (astep t i))
    (is : List ι) : ∀ {s : σ} {t : τ}, R s t →
      Along (fun t i => (.ok (astep t i) : Except ε τ)) aguard t is →
        ∃ s', run step s is = .ok s' ∧ R s' (is.foldl astep t) := by
  induction is with
  | nil =>
    intro s t hr _
    exact ⟨s, rfl, hr⟩
  | cons i is ih =>
    intro s t hr ha
    obtain ⟨s', h1, hr'⟩ := hstep s t i hr ha.1
    rw [run_cons_ok h1]
    exact ih hr' (ha.2 _ rfl)

/-- Where a step that misses the guard of the abstract run is stuck, a run that succeeds
has met it. -/
theorem along_of_run
    (hstep : ∀ s t i, R s t → aguard t i → ∃ s', step s i = .ok s' ∧ R s' (astep t i))
    (hstuck : ∀ s t i s', R s t → ¬ aguard t i → step s i ≠ .ok s') (is : List ι) :
    ∀ {s s' : σ} {t : τ}, R s t → run step s is = .ok s' →
      Along (fun t i => (.ok (astep t i) : Except ε τ)) aguard t is := by
  induction is with
  | nil =>
    intro s s' t _ _
    exact trivial
  | cons i is ih =>
    intro s s' t hr hrun
    obtain ⟨s1, h1, h2⟩ := run_cons_cases hrun
    have hg : aguard t i := by
      by_cases hg : aguard t i
      · exact hg
      · exact absurd h1 (hstuck s t i s1 hr hg)
    obtain ⟨s2, h1', hr'⟩ := hstep s t i hr hg
    have hs : s1 = s2 := Except.ok.inj (h1.symm.trans h1')
    subst hs
    refine ⟨hg, fun t' ht => ?_⟩
    rw [← Except.ok.inj ht]
    exact ih hr' h2

/-- **Two runs side by side**: where related states stay related under a step that meets the
guard, a run of the one is followed by a run of the other with the same inputs. -/
theorem run_relates {R : σ → σ → Prop}
    (hstep : ∀ s t i s', R s t → guard s i → step s i = .ok s' →
      ∃ t', step t i = .ok t' ∧ R s' t') (is : List ι) :
    ∀ {s t s' : σ}, R s t → Along step guard s is → run step s is = .ok s' →
      ∃ t', run step t is = .ok t' ∧ R s' t' := by
  induction is with
  | nil =>
    intro s t s' hr _ h
    cases h
    exact ⟨t, rfl, hr⟩
  | cons i is ih =>
    intro s t s' hr hg h
    obtain ⟨s1, h1, h2⟩ := run_cons_cases h
    obtain ⟨t1, ht1, hr1⟩ := hstep s t i s1 hr hg.1 h1
    obtain ⟨t', ht', hr'⟩ := ih hr1 (hg.2 s1 h1) h2
    exact ⟨t', (run_cons_ok ht1).trans ht', hr'⟩

end Simulation

end LinuxNet
