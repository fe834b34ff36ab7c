import LinuxNet.Sipfw.Effects
import LinuxNet.Sipfw.Isolation

/-!
# First match, and edits that must not be felt

The verdict of LOCAL_IN is meant to be the action of the earliest rule that
matches. Two edits then leave verdicts alone: an APPEND cannot be felt by a
packet some rule already matches, and a DELETE not by a packet whose earliest
rule is another one.

All of this holds of the matching loop and of the relinking. What breaks the
verdict is the log: before the hook returns the action of the rule,
`SIPFW_LogAppend` makes a date of the clock by tables that end in 2012, and
indexes the table of action names with the action, whatever it is.
`firstMatch_iff` is exact about that.
-/

namespace LinuxNet.Sipfw

/-! ## The earliest match in a chain -/

/-- The earliest rule of INPUT that both tests accept. -/
def earliest (t : SipfwTables) (skb : SkBuff) : Option SipfwRules :=
  (t .input).rule.find? (ruleMatches skb)

/-- The position of the earliest rule, counted from 1; one behind the last where
there is none. -/
def earliestAt (t : SipfwTables) (skb : SkBuff) : Int :=
  (t .input).rule.findIdx (ruleMatches skb) + 1

section Find

variable {p : SipfwRules → Bool} {l prev next : List SipfwRules} {cur : SipfwRules}

/-- What is appended comes too late for a search that succeeds before. -/
theorem find_append (h : ∃ r ∈ l, p r = true) (rule : SipfwRules) :
    (l ++ [rule]).find? p = l.find? p := by
  have hs := List.find?_isSome.mpr h
  rw [List.find?_append, Option.or_of_isSome hs]

/-- A rule that is not the one found can be unlinked. -/
theorem find_unlink (h : (l.findIdx p : Int) + 1 ≠ (prev.length : Int) + 1)
    (hl : l = prev ++ cur :: next) : (prev ++ next).find? p = l.find? p := by
  subst hl
  rw [List.find?_append, List.find?_append]
  cases hp : prev.find? p with
  | some r => rfl
  | none =>
    -- the search gets to `cur`, which therefore does not match
    have hcur : p cur = false := by
      by_contra hne
      rw [Bool.not_eq_false] at hne
      refine h ?_
      have hno : ∀ r ∈ prev, p r = false := fun r hr => by
        simpa using List.find?_eq_none.mp hp r hr
      rw [List.findIdx_append, List.findIdx_eq_length.mpr hno, if_neg (Nat.lt_irrefl _),
        List.findIdx_cons, hne, cond_true, Nat.zero_add]
    rw [List.find?_cons, hcur]

end Find

/-! ## The hook -/

/-- The hook returns what the earliest rule says, or the default, and counts the hit. -/
def Decides (env : LogEnv) (t : SipfwTables) (cf : SipfwConf) (skb : SkBuff) : Prop :=
  ∃ fired, hookLocalIn env t cf skb = .ok fired ∧
    fired.verdict = ((earliest t skb).map (·.action)).getD cf.defaultAction ∧
    fired.cf = { cf with hitNumber :=
      if (earliest t skb).isSome then cf.hitNumber + 1#32 else cf.hitNumber }

/-- The packet's verdict, or the fault it ends in. -/
def verdict (env : LogEnv) (t : SipfwTables) (cf : SipfwConf) (skb : SkBuff) :
    Except Fault (BitVec 32) :=
  (hookLocalIn env t cf skb).map (·.verdict)

/-- First-match filtering, stable under edits. -/
structure FirstMatch (env : LogEnv) (t : SipfwTables) (cf : SipfwConf) (skb : SkBuff) : Prop where
  decides : Decides env t cf skb
  append : ∀ rule, (∃ r ∈ (t .input).rule, ruleMatches skb r = true) →
    ∃ hd, ruleAddpend rule (t .input) = .ok hd ∧
      verdict env (t.set .input hd.list) cf skb = verdict env t cf skb
  delete : ∀ rule k, (t .input).number = (t .input).rule.length → Position k (t .input).rule →
    earliestAt t skb ≠ k → ∃ hd, ruleDelete rule k (t .input) = .ok hd ∧
      verdict env (t.set .input hd.list) cf skb = verdict env t cf skb

/-- The log is off; or a hit finds the clock inside the tables of the dates, and the action of the
earliest rule inside that of the names. -/
def Loggable (env : LogEnv) (t : SipfwTables) (cf : SipfwConf) (skb : SkBuff) : Prop :=
  cf.logPause ≠ 0#32 ∨ env.opens cf.logFilePath = false ∨
    ∀ r, earliest t skb = some r →
      InTables env.now ∧ r.action.toNat < sipfwActionName.length

section Hook

variable {env : LogEnv} {t : SipfwTables} {cf : SipfwConf} {skb : SkBuff}

/-- The hook decides unless the log faults. -/
theorem decides_iff (hi : cf.invalid = 0#32) : Decides env t cf skb ↔ Loggable env t cf skb := by
  unfold Decides Loggable hookLocalIn hookOn
  rw [if_neg (not_not.mpr hi), isMatch_val]
  rw [show (t .input).rule.find? (ruleMatches skb) = earliest t skb from rfl]
  cases he : earliest t skb with
  | none => exact iff_of_true ⟨_, rfl, rfl, rfl⟩ (.inr (.inr fun r h => by cases h))
  | some r =>
    simp only [Option.some.injEq, forall_eq']
    rw [← or_assoc, ← LogOff, ← @logAppend_iff env cf skb]
    cases hl : logAppend env cf skb r with
    | ok line => exact iff_of_true ⟨_, rfl, rfl, rfl⟩ ⟨_, rfl⟩
    | error e =>
      refine iff_of_false (fun h => ?_) fun h => ?_
      · obtain ⟨fired, h, -⟩ := h
        cases h
      · obtain ⟨line, h⟩ := h
        cases h

/-- The verdict depends on the chain only through its earliest match. -/
theorem verdict_congr {t' : SipfwTables} (h : earliest t' skb = earliest t skb) :
    verdict env t' cf skb = verdict env t cf skb := by
  unfold verdict hookLocalIn hookOn
  rw [isMatch_val, isMatch_val]
  rw [show (t' .input).rule.find? (ruleMatches skb) =
    (t .input).rule.find? (ruleMatches skb) from h]

/-- An appended rule is not felt where another one matches. -/
theorem append_stable (rule : SipfwRules)
    (h : ∃ r ∈ (t .input).rule, ruleMatches skb r = true) :
    ∃ hd, ruleAddpend rule (t .input) = .ok hd ∧
      verdict env (t.set .input hd.list) cf skb = verdict env t cf skb := by
  refine ⟨_, ruleAddpend_eq _ _, verdict_congr ?_⟩
  rw [earliest, SipfwTables.set_same]
  exact find_append h rule

/-- A deleted rule is not felt where an earlier or later one decides. -/
theorem delete_stable (rule : SipfwRules) {k : Int}
    (hn : (t .input).number = (t .input).rule.length) (hk : Position k (t .input).rule)
    (h : earliestAt t skb ≠ k) :
    ∃ hd, ruleDelete rule k (t .input) = .ok hd ∧
      verdict env (t.set .input hd.list) cf skb = verdict env t cf skb := by
  obtain ⟨prev, cur, next, hl, hlen, hr⟩ := @ruleDelete_position rule _ _ (hn ▸ hk.2) hk
  refine ⟨_, hr, verdict_congr ?_⟩
  rw [earliest, SipfwTables.set_same]
  exact find_unlink (hlen ▸ h) hl

/-- **First match, exactly**: while the firewall is on, LOCAL_IN filters by the
earliest match, stable under APPEND and DELETE, if and only if the log can date the
hit and name its action. -/
theorem firstMatch_iff (env : LogEnv) (t : SipfwTables) (skb : SkBuff) (hi : cf.invalid = 0#32) :
    FirstMatch env t cf skb ↔ Loggable env t cf skb := by
  constructor
  · intro h
    exact (decides_iff hi).mp h.decides
  · intro h
    exact ⟨(decides_iff hi).mpr h, fun rule hm => append_stable rule hm,
      fun rule k hn hk hne => delete_stable rule hn hk hne⟩

end Hook

/-! ## A rule the log cannot name -/

/-- One rule that drops ICMP in INPUT: the hook drops the packet, an appended rule
is not felt, and the packet is dropped before a second rule. -/
theorem icmp_dropped :
    icmpPacket.len = 28 ∧
      FirstMatch openLog (SipfwTables.empty.set .input ⟨[wildRule nfDrop], 1⟩) .initial
        icmpPacket :=
  ⟨rfl, (firstMatch_iff openLog _ icmpPacket rfl).mpr (.inr (.inr fun r h => by
    cases h
    exact ⟨by decide, by decide⟩))⟩

/-- A rule without an action (-1), as INSERT links it when no `-j` is given: the
packet matches it, and the hook faults in the log instead of returning a verdict. -/
theorem nameless_action_faults :
    let t := SipfwTables.empty.set .input ⟨[wildRule (-1)], 1⟩
    earliest t icmpPacket = some (wildRule (-1)) ∧
      verdict openLog t .initial icmpPacket = .error .outOfBounds ∧
      ¬ FirstMatch openLog t .initial icmpPacket := by
  refine ⟨rfl, rfl, fun h => ?_⟩
  obtain ⟨fired, hf, -⟩ := h.decides
  cases hf

end LinuxNet.Sipfw
