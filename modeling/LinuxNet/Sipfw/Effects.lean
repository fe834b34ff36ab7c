import LinuxNet.Sipfw.Steps

/-!
# The exact effect of each editing handler

`Steps.lean` says what a handler may do; this file says which of it a handler
does do, and when: the chain it leaves, the cells it frees, and where it
faults. Everything follows from one specification of the walk: the rules it
passed satisfied the loop condition at their positions, and the rule it stopped
at did not.

A chain is always described by a split `prev ++ cur :: next`, the way the
handlers hold it.
-/

namespace LinuxNet.Sipfw

/-! ## Where a walk stops -/

/-- A walk passes the rules for which the loop goes on and stops at the first
for which it does not. -/
theorem walk_spec (go : Int → SipfwRules → Bool) (l : List SipfwRules) :
    ∀ (i : Int) (prev : List SipfwRules), ∃ passed rest,
      walk go i prev l = (passed.reverse ++ prev, rest) ∧ l = passed ++ rest ∧
        (∀ p cur s, passed = p ++ cur :: s → go (i + p.length) cur = true) ∧
        ∀ cur next, rest = cur :: next → go (i + passed.length) cur = false := by
  induction l with
  | nil =>
    intro i prev
    exact ⟨[], [], rfl, rfl, fun p cur s h => by simp at h, fun cur next h => by cases h⟩
  | cons c l ih =>
    intro i prev
    by_cases hg : go i c = true
    · obtain ⟨passed, rest, hw, hl, hp, hr⟩ := ih (i + 1) (c :: prev)
      refine ⟨c :: passed, rest, ?_, by rw [hl]; rfl, ?_, ?_⟩
      · rw [walk, if_pos hg, hw, List.reverse_cons, List.append_assoc, List.singleton_append]
      · intro p cur s h
        cases p with
        | nil =>
          cases h
          simpa using hg
        | cons d p =>
          obtain ⟨rfl, ht⟩ := List.cons.inj h
          have := hp p cur s ht
          rwa [List.length_cons, Int.natCast_add, Int.natCast_one, Int.add_comm (p.length : Int),
            ← Int.add_assoc]
      · intro cur next h
        have := hr cur next h
        rwa [List.length_cons, Int.natCast_add, Int.natCast_one, Int.add_comm (passed.length : Int),
          ← Int.add_assoc]
    · refine ⟨[], c :: l, by rw [walk, if_neg hg]; rfl, rfl, fun p cur s h => by simp at h, ?_⟩
      intro cur next h
      cases h
      simpa using hg

/-- The number is the position of a rule of the chain. -/
def Position (number : Int) (l : List SipfwRules) : Prop := 1 ≤ number ∧ number ≤ l.length

/-- Counting to the position of a rule stops in front of it. -/
theorem walk_ne_position {number : Int} {l : List SipfwRules} (h : Position number l) :
    ∃ prev cur next, l = prev ++ cur :: next ∧ (prev.length : Int) + 1 = number ∧
      walk (fun i _ => decide (i ≠ number)) 1 [] l = (prev.reverse, cur :: next) := by
  obtain ⟨h1, h2⟩ := h
  obtain ⟨passed, rest, hw, hl, hp, hr⟩ := walk_spec (fun i _ => decide (i ≠ number)) l 1 []
  rw [List.append_nil] at hw
  cases rest with
  | nil =>
    -- the walk would have passed position `number`
    rw [List.append_nil] at hl
    subst hl
    have hlt : number.toNat - 1 < l.length := by omega
    have := hp (l.take (number.toNat - 1)) l[number.toNat - 1] (l.drop (number.toNat - 1 + 1))
      (by rw [List.getElem_cons_drop, List.take_append_drop])
    simp only [List.length_take, ne_eq, decide_not, Bool.not_eq_eq_eq_not, Bool.not_true,
      decide_eq_false_iff_not] at this
    omega
  | cons cur next =>
    have := hr cur next rfl
    simp only [ne_eq, decide_not, Bool.not_eq_eq_eq_not, Bool.not_false, decide_eq_true_eq] at this
    exact ⟨passed, cur, next, hl, by omega, hw⟩

/-- Counting to any other number passes the whole chain. -/
theorem walk_ne_end {number : Int} {l : List SipfwRules} (h : ¬ Position number l) :
    walk (fun i _ => decide (i ≠ number)) 1 [] l = (l.reverse, []) := by
  obtain ⟨passed, rest, hw, hl, -, hr⟩ := walk_spec (fun i _ => decide (i ≠ number)) l 1 []
  rw [List.append_nil] at hw
  cases rest with
  | nil => rw [hw, hl, List.append_nil]
  | cons cur next =>
    have hn := hr cur next rfl
    simp only [ne_eq, decide_not, Bool.not_eq_eq_eq_not, Bool.not_false, decide_eq_true_eq] at hn
    have hlen : l.length = passed.length + (next.length + 1) := by
      rw [hl, List.length_append, List.length_cons]
    exact absurd ⟨by omega, by omega⟩ h

/-- Searching for an equal rule stops at the first one, or at the end. -/
theorem walk_same (rule : SipfwRules) (l : List SipfwRules) :
    (∃ prev cur next, l = prev ++ cur :: next ∧ (∀ p ∈ prev, sameRule p rule = false) ∧
      sameRule cur rule = true ∧
      walk (fun _ cur => !sameRule cur rule) 1 [] l = (prev.reverse, cur :: next)) ∨
    (∀ cur ∈ l, sameRule cur rule = false) ∧
      walk (fun _ cur => !sameRule cur rule) 1 [] l = (l.reverse, []) := by
  obtain ⟨passed, rest, hw, hl, hp, hr⟩ := walk_spec (fun _ cur => !sameRule cur rule) l 1 []
  rw [List.append_nil] at hw
  have hpassed : ∀ p ∈ passed, sameRule p rule = false := by
    intro p hm
    obtain ⟨q, s, hqs⟩ := List.append_of_mem hm
    simpa using hp q p s hqs
  cases rest with
  | nil =>
    rw [List.append_nil] at hl
    subst hl
    exact .inr ⟨hpassed, hw⟩
  | cons cur next => exact .inl ⟨passed, cur, next, hl, hpassed, by simpa using hr cur next rfl, hw⟩

/-- A loop that runs while `i < number` stops at the position, if it is behind
the first rule. -/
theorem walk_lt_position {number : Int} {l : List SipfwRules} (h : Position number l)
    (h2 : 2 ≤ number) :
    ∃ p prev cur next, l = (p :: prev).reverse ++ cur :: next ∧
      walk (fun i _ => decide (i < number)) 1 [] l = (p :: prev, cur :: next) := by
  obtain ⟨h1, hlen⟩ := h
  obtain ⟨passed, cur, next, hl, hpl, hw⟩ := walk_lt_spec number l 1 [] h1 (by omega)
  rw [List.append_nil] at hw
  cases hr : passed.reverse with
  | nil =>
    rw [List.reverse_eq_nil_iff.mp hr, List.length_nil] at hpl
    omega
  | cons p prev =>
    refine ⟨p, prev, cur, next, ?_, by rw [hw, hr]⟩
    rw [← hr, List.reverse_reverse, hl]

/-- Otherwise it stops at the first rule or behind the last. -/
theorem walk_lt_off {number : Int} {l : List SipfwRules} (h : ¬ Position number l) :
    (walk (fun i _ => decide (i < number)) 1 [] l).1 = [] ∨
      (walk (fun i _ => decide (i < number)) 1 [] l).2 = [] := by
  cases hw : walk (fun i _ => decide (i < number)) 1 [] l with
  | mk prev rest =>
    cases rest with
    | nil => exact .inr rfl
    | cons cur next =>
      obtain ⟨hle, hlt⟩ := walk_lt_stop hw
      refine .inl (hlt.resolve_right fun hlt => h ⟨by omega, by omega⟩)

/-! ## DELETE -/

section Handlers

variable {rule : SipfwRules} {number : Int} {l : SipfwList}

/-- DELETE at a position the counter allows unlinks and frees that rule. -/
theorem ruleDelete_position (hn : number ≤ l.number) (hp : Position number l.rule) :
    ∃ prev cur next, l.rule = prev ++ cur :: next ∧ (prev.length : Int) + 1 = number ∧
      ruleDelete rule number l =
        .ok ⟨⟨prev ++ next, intWrap (l.number - 1)⟩, [cur.cell, rule.cell], 0⟩ := by
  obtain ⟨prev, cur, next, hl, hlen, hw⟩ := walk_ne_position hp
  refine ⟨prev, cur, next, hl, hlen, ?_⟩
  have := hp.1
  rw [ruleDelete, if_neg (by omega), if_pos (by omega), hw]
  dsimp only
  rw [List.reverse_reverse]

/-- DELETE at a number that is no position only gives its own cell back. -/
theorem ruleDelete_off (h : l.number < number ∨ number ≠ -1 ∧ ¬ Position number l.rule) :
    ruleDelete rule number l = .ok ⟨l, [rule.cell], 0⟩ := by
  unfold ruleDelete
  split
  next => rfl
  next hn =>
    obtain ⟨h1, hp⟩ := h.resolve_left hn
    rw [if_pos h1, walk_ne_end hp]

/-- DELETE without a number unlinks and frees the first equal rule. -/
theorem ruleDelete_same (hn : -1 ≤ l.number) (hs : ∃ cur ∈ l.rule, sameRule cur rule = true) :
    ∃ prev cur next, l.rule = prev ++ cur :: next ∧ sameRule cur rule = true ∧
      ruleDelete rule (-1) l =
        .ok ⟨⟨prev ++ next, intWrap (l.number - 1)⟩, [cur.cell, rule.cell], 0⟩ := by
  rcases walk_same rule l.rule with ⟨prev, cur, next, hl, -, hcur, hw⟩ | ⟨hno, _⟩
  · refine ⟨prev, cur, next, hl, hcur, ?_⟩
    rw [ruleDelete, if_neg (by omega), if_neg (by omega), hw]
    dsimp only
    rw [List.reverse_reverse]
  · obtain ⟨cur, hm, hcur⟩ := hs
    rw [hno cur hm] at hcur
    cases hcur

/-- Where no rule is equal, nothing is done at all: not even the cell is freed. -/
theorem ruleDelete_different (hn : -1 ≤ l.number)
    (hs : ¬ ∃ cur ∈ l.rule, sameRule cur rule = true) :
    ruleDelete rule (-1) l = .ok ⟨l, [], 0⟩ := by
  rcases walk_same rule l.rule with ⟨prev, cur, next, hl, -, hcur, _⟩ | ⟨_, hw⟩
  · exact absurd ⟨cur, by rw [hl]; simp, hcur⟩ hs
  · rw [ruleDelete, if_neg (by omega), if_neg (by omega), hw]

/-! ## REPLACE -/

/-- REPLACE at a position links the new rule and frees the old one. -/
theorem ruleReplace_position (hp : Position number l.rule) :
    ∃ prev cur next, l.rule = prev ++ cur :: next ∧ (prev.length : Int) + 1 = number ∧
      ruleReplace rule number l = .ok ⟨⟨prev ++ rule :: next, l.number⟩, [cur.cell], 0⟩ := by
  obtain ⟨prev, cur, next, hl, hlen, hw⟩ := walk_ne_position hp
  refine ⟨prev, cur, next, hl, hlen, ?_⟩
  have := hp.1
  rw [ruleReplace, if_pos (by omega), hw]
  dsimp only
  rw [List.reverse_reverse]

/-- REPLACE at any other number changes nothing; the test that would free the
cell is behind the one that excludes it, except for a counter below -1. -/
theorem ruleReplace_off (hp : ¬ Position number l.rule) :
    ruleReplace rule number l =
      .ok ⟨l, if number = -1 ∧ l.number < -1 then [rule.cell] else [], 0⟩ := by
  unfold ruleReplace
  by_cases h1 : number = -1
  · rw [if_neg (not_not.mpr h1), h1]
    by_cases h2 : l.number < -1
    · rw [if_pos h2, if_pos ⟨rfl, h2⟩]
    · rw [if_neg h2, if_neg fun h => h2 h.2]
  · rw [if_pos h1, walk_ne_end hp, if_neg fun h => h1 h.1]

/-! ## INSERT -/

theorem ruleInsert_first : ruleInsert rule 1 l = .ok ⟨⟨rule :: l.rule, l.number⟩, [], 0⟩ :=
  if_pos rfl

/-- INSERT at a number above the counter links the rule behind the last one, if
there is a last one. -/
theorem ruleInsert_last (h1 : number ≠ 1) (hn : l.number < number) (hl : l.rule ≠ []) :
    ruleInsert rule number l = .ok ⟨⟨l.rule ++ [rule], l.number⟩, [], 0⟩ := by
  rw [ruleInsert, if_neg h1, if_pos hn, walk_true, List.append_nil]
  cases hr : l.rule.reverse with
  | nil => exact absurd (List.reverse_eq_nil_iff.mp hr) hl
  | cons prev passed =>
    dsimp only
    rw [← hr, List.reverse_reverse]

theorem ruleInsert_empty (h1 : number ≠ 1) (hn : l.number < number) (hl : l.rule = []) :
    ruleInsert rule number l = .error .nullDeref := by
  rw [ruleInsert, if_neg h1, if_pos hn, hl]
  rfl

/-- INSERT in the middle unlinks the rule at the position and frees nothing. -/
theorem ruleInsert_middle (h2 : 2 ≤ number) (hn : number ≤ l.number)
    (hp : Position number l.rule) :
    ∃ prev cur next, l.rule = prev ++ cur :: next ∧
      ruleInsert rule number l = .ok ⟨⟨prev ++ rule :: next, l.number⟩, [], 0⟩ := by
  obtain ⟨p, prev, cur, next, hl, hw⟩ := walk_lt_position hp h2
  refine ⟨(p :: prev).reverse, cur, next, hl, ?_⟩
  rw [ruleInsert, if_neg (by omega), if_neg (by omega), if_pos (by omega), hw]

/-- INSERT at a number the chain has no rule for follows a NULL pointer. -/
theorem ruleInsert_off (h1 : number ≠ -1) (hn : number ≤ l.number)
    (hp : ¬ Position number l.rule) (h1' : number ≠ 1) :
    ruleInsert rule number l = .error .nullDeref := by
  rw [ruleInsert, if_neg h1', if_neg (by omega), if_pos h1]
  have hoff := walk_lt_off hp
  split
  next => rfl
  next => rfl
  next hw =>
    rw [hw] at hoff
    rcases hoff with h | h <;> cases h

theorem ruleInsert_none (hn : -1 ≤ l.number) : ruleInsert rule (-1) l = .ok ⟨l, [], 0⟩ := by
  rw [ruleInsert, if_neg (by omega), if_neg (by omega), if_neg (by omega)]

end Handlers

end LinuxNet.Sipfw
