import LinuxNet.Sipfw.Counts
import LinuxNet.Sipfw.Effects

/-!
# The handlers as operations on lists

What APPEND, DELETE, REPLACE and INSERT make of a chain, as the list operation
each stands for: `l ++ [rule]`, `eraseIdx` and `eraseP`, `set`, and an insertion
between `take` and `drop`. The first three are exactly that wherever the counters
are right (`edits_refine`). INSERT is not: in the middle of a chain it takes out
the rule it is to move back, and where it expects a rule that is not there it
follows NULL. `inserts_iff` says for which position, chain and counter it does
what an insertion does.
-/

namespace LinuxNet.Sipfw

/-! ## What is to hold -/

/-- The fields DELETE without a number compares. -/
def SameFields (cur rule : SipfwRules) : Prop :=
  cur.action = rule.action ∧ cur.addtion = rule.addtion ∧ cur.chain = rule.chain ∧
    cur.source = rule.source ∧ cur.dest = rule.dest ∧ cur.sport = rule.sport ∧
    cur.dport = rule.dport ∧ cur.protocol = rule.protocol

instance (cur rule : SipfwRules) : Decidable (SameFields cur rule) :=
  inferInstanceAs (Decidable (_ ∧ _))

instance (n : Int) (l : List SipfwRules) : Decidable (Position n l) :=
  inferInstanceAs (Decidable (_ ∧ _))

/-- DELETE: the rule at the position, or the first equal one. -/
def deleted (rule : SipfwRules) (n : Int) (l : List SipfwRules) : List SipfwRules :=
  if n = -1 then l.eraseP fun cur => decide (SameFields cur rule)
  else if Position n l then l.eraseIdx (n.toNat - 1)
  else l

/-- REPLACE: the new rule in the place of the one at the position. -/
def replaced (rule : SipfwRules) (n : Int) (l : List SipfwRules) : List SipfwRules :=
  if Position n l then l.set (n.toNat - 1) rule else l

/-- The command comes to its end, the chain is now this list and its counter, an
`int`, the length; the other two chains are as before. -/
def TurnsInto (t : SipfwTables) (c : Chain) (l : List SipfwRules) (out : Except Fault Outcome) :
    Prop :=
  ∃ o, out = .ok o ∧ (o.tables c).rule = l ∧ (o.tables c).number = intWrap l.length ∧
    ∀ c', c' ≠ c → o.tables c' = t c'

/-- INSERT follows no NULL pointer, and adds the rule at the position, or behind the
last rule for a position that is not in the chain; the other two chains are as
before. What a wrong counter does to a position in the chain is left open. -/
def Inserts (t : SipfwTables) (c : Chain) (rule : SipfwRules) (n : Int)
    (out : Except Fault Outcome) : Prop :=
  ∃ o, out = .ok o ∧
    ((t c).number = (t c).rule.length → Position n (t c).rule →
      (o.tables c).rule = (t c).rule.take (n.toNat - 1) ++ rule :: (t c).rule.drop (n.toNat - 1)) ∧
    (((t c).rule.length : Int) < n → (o.tables c).rule = (t c).rule ++ [rule]) ∧
    ∀ c', c' ≠ c → o.tables c' = t c'

/-- When it does: at the front, behind the last rule where the counter says so and
there is a last rule, and where it does nothing and nothing is asked of it. -/
def InsertsRight (n : Int) (l : SipfwList) : Prop :=
  n = 1 ∨ (l.rule ≠ [] ∧ l.number < n) ∨ (n = -1 ∧ -1 ≤ l.number) ∨
    (2 ≤ n ∧ n ≤ l.number ∧ Position n l.rule ∧ l.number ≠ l.rule.length)

/-! ## One chain -/

section Handlers

variable {rule : SipfwRules} {n : Int} {l : SipfwList}

theorem sameRule_iff {cur : SipfwRules} : sameRule cur rule = true ↔ SameFields cur rule := by
  simp only [sameRule, SameFields, Bool.and_eq_true, beq_iff_eq, and_assoc]

/-- The place of the rule at a position is one less. -/
theorem position_toNat {prev : List SipfwRules} (h : (prev.length : Int) + 1 = n) :
    n.toNat - 1 = prev.length := by
  omega

/-- The search leaves what is left when the first equal rule is taken out. -/
theorem eraseP_same {prev next : List SipfwRules} {cur : SipfwRules}
    (hprev : ∀ p ∈ prev, sameRule p rule = false) (hcur : sameRule cur rule = true) :
    (prev ++ cur :: next).eraseP (fun cur => decide (SameFields cur rule)) = prev ++ next := by
  have hnot : ∀ p ∈ prev, ¬ decide (SameFields p rule) = true := by
    intro p hp h
    have := sameRule_iff.mpr (of_decide_eq_true h)
    rw [hprev p hp] at this
    cases this
  rw [List.eraseP_append_right _ hnot]
  exact congrArg (prev ++ ·) (List.eraseP_cons_of_pos (decide_eq_true (sameRule_iff.mp hcur)))

/-- DELETE is the removal it stands for. -/
theorem ruleDelete_deleted (hcount : l.number = l.rule.length) (hrange : l.number ≤ 2147483647) :
    ∃ hd, ruleDelete rule n l = .ok hd ∧ hd.list.rule = deleted rule n l.rule ∧
      hd.list.number = intWrap (deleted rule n l.rule).length := by
  have hsame : l.number = intWrap l.rule.length := by
    rw [← hcount, intWrap_of_lt (by omega) (by omega)]
  unfold deleted
  by_cases h1 : n = -1
  · subst h1
    rw [if_pos rfl]
    rcases walk_same rule l.rule with ⟨prev, cur, next, hl, hprev, hcur, hw⟩ | ⟨hno, hw⟩
    · rw [hl, eraseP_same hprev hcur]
      refine ⟨_, by rw [ruleDelete, if_neg (by omega), if_neg (by omega), hw], ?_, ?_⟩
      · rw [List.reverse_reverse]
      · show intWrap (l.number - 1) = _
        rw [hcount, hl]
        simp only [List.length_append, List.length_cons]
        congr 1
        omega
    · have herase : l.rule.eraseP (fun cur => decide (SameFields cur rule)) = l.rule := by
        refine List.eraseP_of_forall_not fun cur hm h => ?_
        have := sameRule_iff.mpr (of_decide_eq_true h)
        rw [hno cur hm] at this
        cases this
      rw [herase]
      exact ⟨_, by rw [ruleDelete, if_neg (by omega), if_neg (by omega), hw], rfl, hsame⟩
  · rw [if_neg h1]
    by_cases hp : Position n l.rule
    · obtain ⟨prev, cur, next, hl, hlen, hr⟩ :=
        @ruleDelete_position rule n l (by rw [hcount]; exact hp.2) hp
      have herase : l.rule.eraseIdx (n.toNat - 1) = prev ++ next := by
        rw [position_toNat hlen, hl, List.eraseIdx_append_of_length_le (Nat.le_refl _),
          Nat.sub_self]
        rfl
      rw [if_pos hp, hr, herase]
      refine ⟨_, rfl, rfl, ?_⟩
      show intWrap (l.number - 1) = _
      rw [hcount, hl]
      simp only [List.length_append, List.length_cons]
      congr 1
      omega
    · rw [if_neg hp]
      exact ⟨_, ruleDelete_off (.inr ⟨h1, hp⟩), rfl, hsame⟩

/-- REPLACE is the update it stands for. -/
theorem ruleReplace_replaced (hcount : l.number = l.rule.length)
    (hrange : l.number ≤ 2147483647) :
    ∃ hd, ruleReplace rule n l = .ok hd ∧ hd.list.rule = replaced rule n l.rule ∧
      hd.list.number = intWrap (replaced rule n l.rule).length := by
  have hsame : l.number = intWrap l.rule.length := by
    rw [← hcount, intWrap_of_lt (by omega) (by omega)]
  unfold replaced
  by_cases hp : Position n l.rule
  · obtain ⟨prev, cur, next, hl, hlen, hr⟩ := @ruleReplace_position rule n l hp
    have hset : l.rule.set (n.toNat - 1) rule = prev ++ rule :: next := by
      rw [position_toNat hlen, hl, List.set_append_right _ _ (Nat.le_refl _), Nat.sub_self]
      rfl
    rw [if_pos hp, hr, hset]
    refine ⟨_, rfl, rfl, hsame.trans ?_⟩
    rw [hl]
    simp only [List.length_append, List.length_cons]
  · rw [if_neg hp]
    exact ⟨_, ruleReplace_off hp, rfl, hsame⟩

end Handlers

/-! ## The tables -/

variable {t : SipfwTables} {c : Chain} {rule : SipfwRules} {n : Int}

/-- A handler that turns its chain into a list, as a command on the tables. -/
theorem turnsInto_of_handler {pid : BitVec 32} (hc : rule.chain = c.code)
    {f : SipfwList → Except Fault Handled} {l : List SipfwRules}
    (hf : ∃ hd, f (t c) = .ok hd ∧ hd.list.rule = l ∧ hd.list.number = intWrap l.length) :
    TurnsInto t c l (onChain pid rule.chain t f) := by
  obtain ⟨hd, hh, hrule, hnumber⟩ := hf
  refine ⟨_, onChain_ok hc hh, ?_, ?_, fun c' hc' => SipfwTables.set_other t hc' _⟩
  · simp only [SipfwTables.set_same, hrule]
  · simp only [SipfwTables.set_same, hnumber]

/-- **Append, delete and replace are list edits.** In tables whose counters are right,
each handler turns the chain into what its list operation makes of it, counts it
and leaves the other chains alone. -/
theorem edits_refine (hcount : Counted t) (hrange : InRange t) (hc : rule.chain = c.code)
    (pid : BitVec 32) (n : Int) :
    TurnsInto t c ((t c).rule ++ [rule]) (onChain pid rule.chain t (ruleAddpend rule)) ∧
      TurnsInto t c (deleted rule n (t c).rule) (onChain pid rule.chain t (ruleDelete rule n)) ∧
      TurnsInto t c (replaced rule n (t c).rule)
        (onChain pid rule.chain t (ruleReplace rule n)) := by
  refine ⟨turnsInto_of_handler hc ⟨_, ruleAddpend_eq rule (t c), rfl, ?_⟩,
    turnsInto_of_handler hc (ruleDelete_deleted (hcount c) (hrange c).2),
    turnsInto_of_handler hc (ruleReplace_replaced (hcount c) (hrange c).2)⟩
  show intWrap ((t c).number + 1) = _
  rw [hcount c, List.length_append, List.length_singleton, Int.natCast_add, Int.natCast_one]

/-- A rule for chain INPUT without criteria. -/
def plainRule (cell : Nat) : SipfwRules := ⟨cell, 0, 0, 0, 0, 0, 0, 0, 0⟩

/-- INPUT holds two rules, in cells 1 and 2. -/
def twoRules : SipfwTables := SipfwTables.empty.set .input ⟨[plainRule 1, plainRule 2], 2⟩

/-- The second of two equal rules is addressed by its number, the first by its
fields. -/
theorem edits_refine_two :
    TurnsInto twoRules .input [plainRule 1, plainRule 2, plainRule 3]
        (onChain 0 0 twoRules (ruleAddpend (plainRule 3))) ∧
      TurnsInto twoRules .input [plainRule 1] (onChain 0 0 twoRules (ruleDelete (plainRule 3) 2)) ∧
      TurnsInto twoRules .input [plainRule 2]
        (onChain 0 0 twoRules (ruleDelete (plainRule 3) (-1))) ∧
      TurnsInto twoRules .input [plainRule 1, plainRule 3]
        (onChain 0 0 twoRules (ruleReplace (plainRule 3) 2)) := by
  have hcount : Counted twoRules := fun c => by cases c <;> decide
  have hrange : InRange twoRules := fun c => by cases c <;> decide
  have h2 := @edits_refine twoRules .input (plainRule 3) hcount hrange rfl 0 2
  have hm := @edits_refine twoRules .input (plainRule 3) hcount hrange rfl 0 (-1)
  exact ⟨h2.1, h2.2.1, hm.2.1, h2.2.2⟩

/-! ## INSERT -/

/-- A command on the tables does what its handler does to its chain. -/
theorem inserts_of_handler {pid : BitVec 32} (hc : rule.chain = c.code) {hd : Handled}
    (hh : ruleInsert rule n (t c) = .ok hd) :
    Inserts t c rule n (onChain pid rule.chain t (ruleInsert rule n)) ↔
      ((t c).number = (t c).rule.length → Position n (t c).rule →
        hd.list.rule = (t c).rule.take (n.toNat - 1) ++ rule :: (t c).rule.drop (n.toNat - 1)) ∧
      (((t c).rule.length : Int) < n → hd.list.rule = (t c).rule ++ [rule]) := by
  unfold Inserts
  rw [onChain_ok hc hh]
  constructor
  · intro h
    obtain ⟨o, ho, hat, hend, -⟩ := h
    cases ho
    simp only [SipfwTables.set_same] at hat hend
    exact ⟨hat, hend⟩
  · intro h
    obtain ⟨hat, hend⟩ := h
    refine ⟨_, rfl, ?_, ?_, fun c' hc' => SipfwTables.set_other t hc' _⟩
    · simpa only [SipfwTables.set_same] using hat
    · simpa only [SipfwTables.set_same] using hend

theorem not_inserts_of_fault {pid : BitVec 32} (hc : rule.chain = c.code)
    (hh : ruleInsert rule n (t c) = .error .nullDeref) :
    ¬ Inserts t c rule n (onChain pid rule.chain t (ruleInsert rule n)) := by
  intro h
  obtain ⟨o, ho, -⟩ := h
  unfold onChain at ho
  rw [hc, Chain.ofInt_code] at ho
  dsimp only at ho
  rw [hh] at ho
  cases ho

/-- **When INSERT inserts.** -/
theorem inserts_iff (hc : rule.chain = c.code) (pid : BitVec 32) (n : Int) :
    Inserts t c rule n (onChain pid rule.chain t (ruleInsert rule n)) ↔ InsertsRight n (t c) := by
  unfold InsertsRight
  by_cases h1 : n = 1
  · subst h1
    rw [inserts_of_handler hc ruleInsert_first]
    refine iff_of_true ⟨fun _ _ => rfl, fun hlen => ?_⟩ (.inl rfl)
    -- position 1 is behind the last rule of an empty chain
    have hnil : (t c).rule = [] := List.eq_nil_of_length_eq_zero (by omega)
    show rule :: (t c).rule = _
    rw [hnil]
    rfl
  · rw [or_iff_right h1]
    by_cases hn : (t c).number < n
    · by_cases hl : (t c).rule = []
      · refine iff_of_false (not_inserts_of_fault hc (ruleInsert_empty h1 hn hl)) fun h => ?_
        rcases h with h | h | h
        · exact h.1 hl
        · omega
        · omega
      · rw [inserts_of_handler hc (ruleInsert_last h1 hn hl)]
        refine iff_of_true ⟨fun hcount hp => ?_, fun _ => rfl⟩ (.inl ⟨hl, hn⟩)
        have := hp.2
        omega
    · rw [or_iff_right (fun h => hn h.2)]
      by_cases hm : n = -1
      · subst hm
        rw [inserts_of_handler hc (ruleInsert_none (by omega))]
        refine iff_of_true ⟨fun _ hp => ?_, fun hlen => ?_⟩ (.inl ⟨rfl, by omega⟩)
        · have := hp.1
          omega
        · omega
      · rw [or_iff_right (fun h => hm h.1)]
        by_cases hp : Position n (t c).rule
        · obtain ⟨prev, cur, next, hl, hr⟩ :=
            @ruleInsert_middle rule n (t c) (by have := hp.1; omega) (by omega) hp
          rw [inserts_of_handler hc hr]
          constructor
          · intro h
            refine ⟨by have := hp.1; omega, by omega, hp, fun hcount => ?_⟩
            -- the chain is no longer than before: the rule at the position is gone
            have hbad := congrArg List.length (h.1 hcount hp)
            have hle := hp.2
            rw [hl] at hle
            simp only [hl, List.length_append, List.length_cons, List.length_take,
              List.length_drop] at hbad hle
            omega
          · intro h
            refine ⟨fun hcount => absurd hcount h.2.2.2, fun hlt => ?_⟩
            have := hp.2
            omega
        · exact iff_of_false (not_inserts_of_fault hc (ruleInsert_off hm (by omega) hp h1))
            fun h => hp h.2.2.1

/-- At position 2 of two rules the second one is lost; at position 2 of an empty chain
NULL is followed. -/
theorem insert_in_the_middle :
    ¬ Inserts twoRules .input (plainRule 3) 2 (onChain 0 0 twoRules (ruleInsert (plainRule 3) 2)) ∧
      ¬ Inserts .empty .input (plainRule 3) 2 (onChain 0 0 .empty (ruleInsert (plainRule 3) 2)) ∧
      ¬ ∀ t c rule n pid, rule.chain = Chain.code c →
        Inserts t c rule n (onChain pid rule.chain t (ruleInsert rule n)) := by
  have hlost : ¬ Inserts twoRules .input (plainRule 3) 2
      (onChain 0 0 twoRules (ruleInsert (plainRule 3) 2)) := by
    intro h
    obtain ⟨o, ho, hat, -⟩ := h
    have hrun : onChain 0 0 twoRules (ruleInsert (plainRule 3) 2) =
        .ok ⟨twoRules.set .input ⟨[plainRule 1, plainRule 3], 2⟩, [], [reply 0 0]⟩ := rfl
    rw [hrun] at ho
    cases ho
    exact absurd (hat (by decide) (by decide)) (by decide)
  refine ⟨hlost, fun h => ?_, fun h => hlost (h twoRules .input (plainRule 3) 2 0 rfl)⟩
  obtain ⟨o, ho, -⟩ := h
  have hrun : onChain 0 0 .empty (ruleInsert (plainRule 3) 2) = .error .nullDeref := rfl
  rw [hrun] at ho
  cases ho

/-- Behind the last rule it is right. -/
theorem inserts_behind :
    Inserts twoRules .input (plainRule 3) 3 (onChain 0 0 twoRules (ruleInsert (plainRule 3) 3)) :=
  (@inserts_iff twoRules .input (plainRule 3) rfl 0 3).mpr (.inr (.inl ⟨nofun, by decide⟩))

end LinuxNet.Sipfw
