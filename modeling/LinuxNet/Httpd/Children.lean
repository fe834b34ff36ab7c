import Mathlib.Data.List.Basic

/-!
# The accept loop and its children

For every connection the parent forks a child and counts it. When the count
reaches `max_child` it waits for a child to exit; then it takes, without
waiting, one child more that has exited, as the `for` in front of that ends in a
semicolon.

`Parent` has the counter of the program beside the children there really are,
those that run and those that have exited and not been taken. Children exit at
any time: between two connections, while the parent waits, and between its two
calls.

The counter goes up also when `fork` fails. That is never made good: after `k`
failed forks the server has `k` places for children less, down to one, for good
(`children_capacity`).
-/

namespace LinuxNet.Httpd

/-- The parent. -/
structure Parent where
  runningChildren : Int
  /-- Children that run. -/
  alive : Nat
  /-- Children that have exited and not been waited for. -/
  exited : Nat
  deriving DecidableEq, Repr

/-- When the parent begins to listen. -/
def Parent.start : Parent := ⟨0, 0, 0⟩

/-- What happens to the parent. -/
inductive ParentEvent where
  /-- A child exits while the parent is in `accept`. -/
  | exit
  /-- A connection: whether `fork` succeeds, how many children exit before the parent waits, and
  how many between its two calls. -/
  | connection (forked : Bool) (before between : Nat)
  deriving DecidableEq, Repr

namespace Parent

/-- `n` children exit, or all there are. -/
def exits (p : Parent) (n : Nat) : Parent :=
  { p with alive := p.alive - min n p.alive, exited := p.exited + min n p.alive }

/-- `wait`: a child that has exited, or else the first to exit. Without children it returns at
once. -/
def wait (p : Parent) : Parent :=
  if 0 < p.exited then { p with exited := p.exited - 1 } else { p with alive := p.alive - 1 }

/-- A connection is accepted: the child that `fork` made, if it made one, and the counter. -/
def accepts (p : Parent) (forked : Bool) : Parent :=
  { p with
    runningChildren := p.runningChildren + 1
    alive := if forked then p.alive + 1 else p.alive }

/-- With too many children, the parent waits for one. -/
def waitIfFull (maxChild : Nat) (p : Parent) : Parent :=
  if (maxChild : Int) ≤ p.runningChildren then
    { p.wait with runningChildren := p.runningChildren - 1 }
  else p

/-- `waitpid` with `WNOHANG`. -/
def waitpid (p : Parent) : Parent :=
  if 0 < p.exited then
    { p with exited := p.exited - 1, runningChildren := p.runningChildren - 1 }
  else p

/-- The parent's side of the loop in `main`, or a child's exit. -/
def step (maxChild : Nat) (p : Parent) : ParentEvent → Parent
  | .exit => p.exits 1
  | .connection forked before between =>
    ((waitIfFull maxChild ((p.accepts forked).exits before)).exits between).waitpid

end Parent

/-- The connections for which `fork` failed. -/
def failedForks (es : List ParentEvent) : Nat :=
  es.countP fun e => match e with | .connection false _ _ => true | _ => false

/-- Children that have not been waited for. -/
def Parent.unreaped (p : Parent) : Nat := p.alive + p.exited

/-- The counter is the children there are, and `lost` more; and there is room for another. -/
structure Parent.Counts (maxChild : Nat) (p : Parent) (lost : Nat) : Prop where
  counter : p.runningChildren = p.unreaped + lost
  room : p.runningChildren < maxChild

theorem exits_unreaped (p : Parent) (n : Nat) : (p.exits n).unreaped = p.unreaped := by
  simp only [Parent.exits, Parent.unreaped]
  omega

/-- `wait` takes a child if there is one. -/
theorem wait_unreaped (p : Parent) : p.wait.unreaped = p.unreaped - 1 := by
  rw [Parent.wait]
  split
  next h =>
    simp only [Parent.unreaped]
    omega
  next h =>
    simp only [Parent.unreaped]
    omega

theorem exits_counts {maxChild : Nat} {p : Parent} {lost : Nat} (h : p.Counts maxChild lost)
    (n : Nat) : (p.exits n).Counts maxChild lost :=
  ⟨by rw [exits_unreaped]; exact h.counter, h.room⟩

theorem waitpid_counts {maxChild : Nat} {p : Parent} {lost : Nat} (h : p.Counts maxChild lost) :
    p.waitpid.Counts maxChild lost := by
  obtain ⟨hc, hr⟩ := h
  rw [Parent.waitpid]
  split
  next hex =>
    refine ⟨?_, ?_⟩
    · show p.runningChildren - 1 = _
      rw [hc]
      simp only [Parent.unreaped]
      omega
    · show p.runningChildren - 1 < maxChild
      omega
  next => exact ⟨hc, hr⟩

/-- Where the parent waits, the child it takes makes up for the connection; without a child to
take, a failed fork is made up for. -/
theorem waitIfFull_counts {maxChild : Nat} (hmax : 0 < maxChild) {p p₁ : Parent} {lost : Nat}
    {forked : Bool} (hun : p₁.unreaped = p.unreaped + if forked then 1 else 0)
    (hrun : p₁.runningChildren = p.runningChildren + 1) (h : p.Counts maxChild lost) :
    (p₁.waitIfFull maxChild).Counts maxChild
      (min (maxChild - 1) (lost + if forked then 0 else 1)) := by
  obtain ⟨hc, hr⟩ := h
  rw [Parent.waitIfFull]
  split
  next hfull =>
    have hw : ({ p₁.wait with runningChildren := p₁.runningChildren - 1 } : Parent).unreaped
        = p₁.unreaped - 1 := wait_unreaped p₁
    refine ⟨?_, ?_⟩
    · rw [hw, hun]
      show p₁.runningChildren - 1 = _
      rw [hrun, hc]
      split <;> omega
    · show p₁.runningChildren - 1 < maxChild
      omega
  next hfull =>
    refine ⟨?_, by omega⟩
    rw [hun, hrun, hc]
    split <;> omega

/-- One turn of the loop: a failed fork loses a place, unless all but one are lost already. -/
theorem step_counts {maxChild : Nat} (hmax : 0 < maxChild) {p : Parent} {lost : Nat}
    (h : p.Counts maxChild lost) (e : ParentEvent) :
    (p.step maxChild e).Counts maxChild
      (min (maxChild - 1) (lost + failedForks [e])) := by
  obtain ⟨hc, hr⟩ := h
  cases e with
  | exit =>
    have hlost : min (maxChild - 1) (lost + failedForks [.exit]) = lost := by
      have : failedForks [.exit] = 0 := rfl
      omega
    rw [hlost, Parent.step]
    exact ⟨by rw [exits_unreaped]; exact hc, hr⟩
  | connection forked before between =>
    have hfail : failedForks [.connection forked before between] = if forked then 0 else 1 := by
      cases forked <;> rfl
    rw [hfail]
    -- behind the fork there may be one child too many
    have hun : ((p.accepts forked).exits before).unreaped
        = p.unreaped + if forked then 1 else 0 := by
      rw [exits_unreaped]
      simp only [Parent.accepts, Parent.unreaped]
      split <;> omega
    have hrun : ((p.accepts forked).exits before).runningChildren = p.runningChildren + 1 := rfl
    exact waitpid_counts (exits_counts (waitIfFull_counts hmax hun hrun ⟨hc, hr⟩) between)

/-- What holds after every run of the loop, whenever children exit: the counter is the number of
children that have not been waited for, and one for each fork that failed, up to `maxChild - 1`.
As the counter stays below `maxChild`, each failed fork takes a place for a child away, for good;
when `maxChild - 1` forks have failed, no child is left running when the parent accepts. -/
theorem children_capacity {maxChild : Nat} (hmax : 0 < maxChild) (es : List ParentEvent) :
    (es.foldl (Parent.step maxChild) Parent.start).runningChildren
        = ((es.foldl (Parent.step maxChild) Parent.start).unreaped : Int)
          + min (maxChild - 1) (failedForks es) ∧
      (es.foldl (Parent.step maxChild) Parent.start).unreaped
        ≤ maxChild - 1 - min (maxChild - 1) (failedForks es) := by
  have hrun : ∀ {p : Parent} {lost : Nat}, p.Counts maxChild lost → lost ≤ maxChild - 1 →
      (es.foldl (Parent.step maxChild) p).Counts maxChild
        (min (maxChild - 1) (lost + failedForks es)) := by
    induction es with
    | nil =>
      intro p lost h hle
      have : min (maxChild - 1) (lost + failedForks []) = lost := Nat.min_eq_right hle
      rw [this]
      exact h
    | cons e es ih =>
      intro p lost h hle
      have hcons : failedForks (e :: es) = failedForks [e] + failedForks es :=
        @List.countP_append _ _ [e] es
      have := ih (step_counts hmax h e) (Nat.min_le_left _ _)
      rw [List.foldl_cons]
      have hmin : min (maxChild - 1) (min (maxChild - 1) (lost + failedForks [e]) + failedForks es)
          = min (maxChild - 1) (lost + failedForks (e :: es)) := by
        rw [hcons]
        omega
      rwa [hmin] at this
  have hstart : Parent.start.Counts maxChild 0 := ⟨rfl, by
    show (0 : Int) < maxChild
    omega⟩
  have hend := hrun hstart (Nat.zero_le _)
  rw [Nat.zero_add] at hend
  refine ⟨hend.counter, ?_⟩
  have h₁ := hend.counter
  have h₂ := hend.room
  omega

theorem children_capacity_at :
    (([.connection true 0 0, .connection false 0 0, .exit, .connection true 0 1] :
        List ParentEvent).foldl (Parent.step 3) Parent.start).runningChildren
        = ((([.connection true 0 0, .connection false 0 0, .exit, .connection true 0 1] :
            List ParentEvent).foldl (Parent.step 3) Parent.start).unreaped : Int)
          + min (3 - 1)
            (failedForks [.connection true 0 0, .connection false 0 0, .exit, .connection true 0 1]) ∧
      (([.connection true 0 0, .connection false 0 0, .exit, .connection true 0 1] :
        List ParentEvent).foldl (Parent.step 3) Parent.start).unreaped
        ≤ 3 - 1 - min (3 - 1)
          (failedForks [.connection true 0 0, .connection false 0 0, .exit, .connection true 0 1]) :=
  children_capacity (by decide)
    [.connection true 0 0, .connection false 0 0, .exit, .connection true 0 1]

end LinuxNet.Httpd
