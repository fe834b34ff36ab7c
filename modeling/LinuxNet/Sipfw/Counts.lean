import LinuxNet.Sipfw.Steps

/-!
# The counters of the rule tables

`sipfw_tables[c].number` is kept by hand in each handler, and
`SIPFW_NLAction_RuleList` announces it before it sends the rules. The table is
good (`Honest`) when every counter is the length of its chain and every LIST
announces as many rules as it sends.

INSERT never touches the counter, so it keeps the table good only where it
does not lengthen the chain: the case in which it links the new rule *instead*
of the one at the position. `Uncounted` says which requests break the table —
INSERT at position 1 or behind the last rule, and an APPEND that overflows a
counter — and `honest_iff_counted` that these are exactly the ones.
-/

namespace LinuxNet.Sipfw

/-- Every counter is the number of rules in its chain. -/
def Counted (t : SipfwTables) : Prop := ∀ c, (t c).number = (t c).rule.length

/-- The count the first message of a LIST announces. -/
def announced : List UserMsg → Option Nat
  | ⟨_, .rule, .count n⟩ :: _ => some n.toNat
  | _ => none

/-- The message carries a rule. -/
def UserMsg.isRule (m : UserMsg) : Bool :=
  match m.payload with
  | .rule _ => true
  | _ => false

/-- The rule messages among those sent. -/
def rulesSent (sent : List UserMsg) : Nat := sent.countP UserMsg.isRule

/-- Every LIST announces the number of rules it then sends. -/
def ListHonest (t : SipfwTables) : Prop :=
  ∀ (req : Request) (out : Outcome), req.cmd = some .list →
    doAction req.mem req.pid req.opts t = .ok out →
      announced out.sent = some (rulesSent out.sent)

/-- The property of a reachable state. -/
def Honest (t : SipfwTables) : Prop := Counted t ∧ ListHonest t

/-- The sum of the three counters. -/
def total (t : SipfwTables) : Int :=
  (t .input).number + (t .output).number + (t .forward).number

/-- The requests that make a counter wrong: an INSERT that links a rule more,
and an APPEND at the limit of a counter or of the sum LIST announces. -/
def Uncounted (t : SipfwTables) (req : Request) : Prop :=
  ∃ c, req.chain = some c ∧
    (req.cmd = some .insert ∧
        (req.number = 1 ∨ (t c).number < req.number ∧ (t c).rule ≠ []) ∨
      req.cmd = some .append ∧ ((t c).number = 2147483647 ∨ total t = 4294967295))

/-- The range of the counters, which wrap at 32 bits. -/
def InRange (t : SipfwTables) : Prop :=
  ∀ c, -2147483648 ≤ (t c).number ∧ (t c).number ≤ 2147483647

theorem intWrap_range (n : Int) : -2147483648 ≤ intWrap n ∧ intWrap n ≤ 2147483647 := by
  unfold intWrap
  constructor
  · have := @Int.le_bmod n 4294967296 (by decide)
    omega
  · have := @Int.bmod_lt n 4294967296 (by decide)
    omega

/-! ## One chain -/

/-- What an editing command leaves in its chain, counted. -/
theorem edit_number {cmd : Cmd} {rule : SipfwRules} {number : Int}
    {f : SipfwList → Except Fault Handled} {l : SipfwList} {hd : Handled}
    (hf : editHandler cmd rule number = some f) (hh : f l = .ok hd) :
    hd.list.number = l.number ∨ ∃ n, hd.list.number = intWrap n := by
  cases cmd with
  | insert =>
    cases hf
    exact .inl (ruleInsert_cases hh).1
  | delete =>
    cases hf
    rcases ruleDelete_cases hh with h | ⟨_, h⟩
    · exact .inl (by rw [h])
    · exact .inr ⟨_, h⟩
  | replace =>
    cases hf
    rcases ruleReplace_cases hh with h | ⟨_, h⟩
    · exact .inl (by rw [h])
    · exact .inl h
  | append =>
    cases hf
    rw [ruleAddpend_eq] at hh
    cases hh
    exact .inr ⟨_, rfl⟩
  | list => exact nomatch hf
  | flush => exact nomatch hf

theorem step_inRange {t t' : SipfwTables} {req : Request} (hr : InRange t)
    (h : step t req = .ok t') : InRange t' := by
  intro c
  rcases step_cases h with ⟨cmd, f, c', hd, _, hf, _, hh, rfl⟩ | ⟨_, hfl⟩ | ⟨_, rfl⟩
  · by_cases hc : c = c'
    · subst hc
      rw [SipfwTables.set_same]
      rcases edit_number hf hh with hn | ⟨n, hn⟩
      · exact hn ▸ hr c
      · exact hn ▸ intWrap_range n
    · rw [SipfwTables.set_other t hc]
      exact hr c
  · rcases hfl c with h0 | h1
    · rw [h0]; exact ⟨by decide, by decide⟩
    · rw [h1]; exact hr c
  · exact hr c

/-- INSERT keeps the number right unless it makes the chain longer: it does not count. In
the middle the new rule takes the place of one, so the length is right by accident. -/
theorem ruleInsert_counted {rule : SipfwRules} {number : Int} {l : SipfwList} {hd : Handled}
    (hl : l.number = l.rule.length) (hh : ruleInsert rule number l = .ok hd) :
    hd.list.number = hd.list.rule.length ↔ ¬ (number = 1 ∨ l.number < number ∧ l.rule ≠ []) := by
  obtain ⟨hn, ⟨h1, hr⟩ | ⟨_, h2, h3, hr⟩ | ⟨h1, h2, hr⟩⟩ := ruleInsert_cases hh
  · rw [hn, hr, List.length_cons, hl]
    exact iff_of_false (by omega) fun h => h (.inl h1)
  · rw [hn, hr, List.length_append, List.length_singleton, hl]
    exact iff_of_false (by omega) fun h => h (.inr ⟨by omega, h3⟩)
  · have hlen : hd.list.rule.length = l.rule.length := by
      rcases hr with ⟨_, hr⟩ | ⟨_, _, hr⟩
      · rw [hr]
      · exact hr.length
    rw [hn, hlen]
    refine iff_of_true hl fun h => ?_
    rcases h with h | h
    · exact h1 h
    · omega

/-- APPEND is the only handler that raises the counter, and there it can wrap. -/
theorem ruleAddpend_counted {rule : SipfwRules} {l : SipfwList} {hd : Handled}
    (hl : l.number = l.rule.length) (hmax : l.number ≤ 2147483647)
    (hh : ruleAddpend rule l = .ok hd) :
    hd.list.number = hd.list.rule.length ↔ l.number ≠ 2147483647 := by
  rw [ruleAddpend_eq] at hh
  cases hh
  show intWrap (l.number + 1) = ((l.rule ++ [rule]).length : Int) ↔ _
  rw [List.length_append, List.length_singleton]
  by_cases hm : l.number = 2147483647
  · refine iff_of_false ?_ fun h => h hm
    rw [hm, show intWrap (2147483647 + 1) = -2147483648 by decide]
    omega
  · refine iff_of_true ?_ hm
    rw [intWrap_of_lt (by omega) (by omega)]
    omega

/-- A good chain stays good under every edit except the two kinds of INSERT
that lengthen it and an APPEND at the limit. -/
theorem edit_counted {cmd : Cmd} {rule : SipfwRules} {number : Int}
    {f : SipfwList → Except Fault Handled} {l : SipfwList} {hd : Handled}
    (hl : l.number = l.rule.length) (hmax : l.number ≤ 2147483647)
    (hf : editHandler cmd rule number = some f) (hh : f l = .ok hd) :
    hd.list.number = hd.list.rule.length ↔
      ¬ (cmd = .insert ∧ (number = 1 ∨ l.number < number ∧ l.rule ≠ []) ∨
        cmd = .append ∧ l.number = 2147483647) := by
  cases cmd with
  | insert =>
    cases hf
    rw [ruleInsert_counted hl hh]
    simp only [reduceCtorEq, false_and, true_and, or_false]
  | delete =>
    cases hf
    refine iff_of_true ?_ (by simp only [reduceCtorEq, false_and, or_self, not_false_eq_true])
    rcases ruleDelete_cases hh with h | ⟨hu, hn⟩
    · rw [h]
      exact hl
    · have := hu.length
      rw [hn, intWrap_of_lt (by omega) (by omega)]
      omega
  | replace =>
    cases hf
    refine iff_of_true ?_ (by simp only [reduceCtorEq, false_and, or_self, not_false_eq_true])
    rcases ruleReplace_cases hh with h | ⟨hr, hn⟩
    · rw [h]
      exact hl
    · rw [hn, hr.length]
      exact hl
  | append =>
    cases hf
    rw [ruleAddpend_counted hl hmax hh]
    simp only [reduceCtorEq, false_and, true_and, false_or, ne_eq]
  | list => exact nomatch hf
  | flush => exact nomatch hf

/-! ## The sum -/

theorem counted_set {t : SipfwTables} (ht : Counted t) (c : Chain) (l : SipfwList) :
    Counted (t.set c l) ↔ l.number = l.rule.length := by
  constructor
  · intro h
    have := h c
    rwa [SipfwTables.set_same] at this
  · intro h c'
    by_cases hc : c' = c
    · subst hc
      rw [SipfwTables.set_same]
      exact h
    · rw [SipfwTables.set_other t hc]
      exact ht c'

theorem total_set (t : SipfwTables) (c : Chain) (l : SipfwList) :
    total (t.set c l) = total t - (t c).number + l.number := by
  cases c <;> simp only [total, SipfwTables.set_same, ne_eq, reduceCtorEq, not_false_eq_true,
    SipfwTables.set_other] <;> omega

/-- The chains LIST goes through hold as many rules as their counters say, and
never more than the sum. -/
theorem chains_total {t : SipfwTables} (ht : Counted t) {chain : BitVec 32} {cs : List Chain}
    (hcs : chainsFrom chain = .ok cs) :
    (cs.map fun c => (t c).number).sum = (cs.flatMap fun c => (t c).rule).length ∧
      (cs.map fun c => (t c).number).sum ≤ total t := by
  have h1 := ht .input
  have h2 := ht .output
  have h3 := ht .forward
  unfold chainsFrom at hcs
  split at hcs
  next =>
    cases hcs
    simp only [List.map_cons, List.map_nil, List.sum_cons, List.sum_nil, List.flatMap_cons,
      List.flatMap_nil, List.length_append, List.length_nil, total]
    omega
  next =>
    split at hcs
    next c _ =>
      cases hcs
      simp only [List.map_cons, List.map_nil, List.sum_cons, List.sum_nil, List.flatMap_cons,
        List.flatMap_nil, List.append_nil, total]
      cases c <;> omega
    next => exact nomatch hcs

theorem rulesSent_list (pid : BitVec 32) (n : BitVec 32) (rs : List SipfwRules) :
    rulesSent (⟨pid, .rule, .count n⟩ :: rs.map fun r => ⟨pid, .rule, .rule r⟩) = rs.length := by
  have hall : ∀ m ∈ rs.map fun r => (⟨pid, .rule, .rule r⟩ : UserMsg), m.isRule = true := by
    intro m hm
    obtain ⟨r, _, rfl⟩ := List.mem_map.mp hm
    rfl
  rw [rulesSent, List.countP_cons_of_neg Bool.false_ne_true, List.countP_eq_length.mpr hall,
    List.length_map]

/-- The request `LIST` of all chains. -/
def listAll (mem : SipfwRules) : Request where
  mem := mem
  pid := 0#32
  opts := ⟨.ofUint Cmd.list.code, .ofUint 0#32, .ofUint 0#32, .ofUint 0#32, .ofUint 0#32,
    .ofUint 0#32, .ofUint chainAll, .ofUint 0#32, .ofUint 0#32, 0#32, .ofUint 0#32⟩

/-- Where the counters are right, LIST is honest as long as the sum fits its
`unsigned int`. -/
theorem listHonest_iff {t : SipfwTables} (ht : Counted t) :
    ListHonest t ↔ total t < 4294967296 := by
  constructor
  · intro h
    have ha := h (listAll ⟨0, 0, 0, 0, 0, 0, 0, 0, 0⟩) _ rfl rfl
    have hs := (chains_total ht (show chainsFrom chainAll = .ok _ from rfl)).1
    rw [rulesSent_list, announced, Option.some.injEq] at ha
    have hlt := (BitVec.ofInt 32
      ([Chain.input, .output, .forward].map fun c => (t c).number).sum).isLt
    have ht' : total t = ([Chain.input, .output, .forward].map fun c => (t c).number).sum := by
      simp only [List.map_cons, List.map_nil, List.sum_cons, List.sum_nil, total]
      omega
    omega
  · intro hlt req out hc ho
    rw [doAction_list hc] at ho
    unfold ruleList at ho
    split at ho
    next => cases ho
    next cs hcs =>
      cases ho
      obtain ⟨h1, h2⟩ := chains_total ht hcs
      rw [rulesSent_list, announced, Option.some.injEq, h1, BitVec.toNat_ofInt]
      omega

/-! ## Whole runs -/

theorem honest_iff {t : SipfwTables} : Honest t ↔ Counted t ∧ total t < 4294967296 :=
  and_congr_right fun ht => listHonest_iff ht

theorem uncounted_iff {t : SipfwTables} {req : Request} {cmd : Cmd} {c : Chain}
    (hcmd : req.cmd = some cmd) (hch : req.chain = some c) :
    Uncounted t req ↔
      cmd = .insert ∧ (req.number = 1 ∨ (t c).number < req.number ∧ (t c).rule ≠ []) ∨
        cmd = .append ∧ ((t c).number = 2147483647 ∨ total t = 4294967295) := by
  simp only [Uncounted, hcmd, hch, Option.some.injEq, exists_eq_left']

/-- Only APPEND raises a counter. -/
theorem edit_number_le {cmd : Cmd} {rule : SipfwRules} {number : Int}
    {f : SipfwList → Except Fault Handled} {l : SipfwList} {hd : Handled}
    (hl : l.number = l.rule.length) (hmax : l.number ≤ 2147483647)
    (hf : editHandler cmd rule number = some f) (hh : f l = .ok hd) (hne : cmd ≠ .append) :
    hd.list.number ≤ l.number := by
  cases cmd with
  | insert =>
    cases hf
    exact Int.le_of_eq (ruleInsert_cases hh).1
  | delete =>
    cases hf
    rcases ruleDelete_cases hh with h | ⟨hu, hn⟩
    · exact Int.le_of_eq (by rw [h])
    · have := hu.length
      rw [hn, intWrap_of_lt (by omega) (by omega)]
      omega
  | replace =>
    cases hf
    rcases ruleReplace_cases hh with h | ⟨_, hn⟩
    · exact Int.le_of_eq (by rw [h])
    · exact Int.le_of_eq hn
  | append => exact absurd rfl hne
  | list => exact nomatch hf
  | flush => exact nomatch hf

/-- An editing command keeps a good table good exactly if it is not uncounted. -/
theorem edit_honest {t : SipfwTables} {req : Request} {cmd : Cmd} {c : Chain}
    {f : SipfwList → Except Fault Handled} {hd : Handled} (hr : InRange t) (hc : Counted t)
    (hlt : total t < 4294967296) (hcmd : req.cmd = some cmd) (hch : req.chain = some c)
    (hf : editHandler cmd req.rule req.number = some f) (hh : f (t c) = .ok hd) :
    Honest (t.set c hd.list) ↔ ¬ Uncounted t req := by
  rw [honest_iff, counted_set hc, edit_counted (hc c) (hr c).2 hf hh, total_set,
    uncounted_iff hcmd hch]
  by_cases happ : cmd = .append
  · subst happ
    cases hf
    rw [ruleAddpend_eq] at hh
    cases hh
    simp only [reduceCtorEq, false_and, true_and, false_or]
    by_cases hm : (t c).number = 2147483647
    · exact iff_of_false (fun h => h.1 hm) fun h => h (.inl hm)
    · have := hc c
      have := (hr c).2
      rw [intWrap_of_lt (by omega) (by omega)]
      omega
  · have hle := edit_number_le (hc c) (hr c).2 hf hh happ
    simp only [happ, false_and, or_false]
    exact and_iff_left_of_imp fun _ => by omega

/-- Only INSERT and APPEND can be uncounted. -/
theorem uncounted_cmd {t : SipfwTables} {req : Request} (hu : Uncounted t req) :
    req.cmd = some .insert ∨ req.cmd = some .append := by
  obtain ⟨_, _, h⟩ := hu
  exact h.imp And.left And.left

/-- FLUSH cannot make a counter wrong. -/
theorem flush_honest {t t' : SipfwTables} (hc : Counted t) (hlt : total t < 4294967296)
    (hfl : ∀ c, t' c = ⟨[], 0⟩ ∨ t' c = t c) : Honest t' := by
  have hle : ∀ c, (t' c).number ≤ (t c).number := fun c => by
    have := hc c
    rcases hfl c with h0 | h1
    · rw [h0]; dsimp only; omega
    · exact Int.le_of_eq (by rw [h1])
  refine honest_iff.mpr ⟨fun c => ?_, ?_⟩
  · rcases hfl c with h0 | h1
    · rw [h0]; rfl
    · rw [h1]; exact hc c
  · have h1 := hle .input
    have h2 := hle .output
    have h3 := hle .forward
    unfold total at hlt ⊢
    omega

/-- **One step**: a good table stays good exactly if the request is not one of
the uncounted ones. -/
theorem step_honest {t t' : SipfwTables} {req : Request} (hr : InRange t) (ht : Honest t)
    (h : step t req = .ok t') : Honest t' ↔ ¬ Uncounted t req := by
  obtain ⟨hc, hlt⟩ := honest_iff.mp ht
  rcases step_cases h with ⟨cmd, f, c, hd, hcmd, hf, hch, hh, rfl⟩ | ⟨hcmd, hfl⟩ | ⟨hcmd, rfl⟩
  · exact edit_honest hr hc hlt hcmd hch hf hh
  · exact iff_of_true (flush_honest hc hlt hfl) fun hu => by
      rcases uncounted_cmd hu with h | h <;> rw [hcmd] at h <;> cases h
  · refine iff_of_true ht fun hu => ?_
    rcases hcmd with hcmd | hcmd
    · rcases uncounted_cmd hu with h | h <;> rw [hcmd] at h <;> cases h
    · rcases uncounted_cmd hu with h | h <;> rw [hcmd] at h <;> cases h

/-- A request that faults is not an uncounted one. -/
theorem fault_not_uncounted {t : SipfwTables} {req : Request} {e : Fault}
    (h : step t req = .error e) : ¬ Uncounted t req := by
  -- a handler that gets through on the chain of the request does not fault
  have hedit : ∀ {cmd : Cmd} {f : SipfwList → Except Fault Handled} {c : Chain} {hd : Handled},
      req.cmd = some cmd → editHandler cmd req.rule req.number = some f →
      req.chain = some c → f (t c) ≠ .ok hd := fun hcmd hf hch hok => by
    rw [step_edit hcmd hf, onChain_ok (Chain.ofInt_eq_some.mp hch) hok] at h
    cases h
  intro hu
  obtain ⟨c, hch, ⟨hcmd, hpos⟩ | ⟨hcmd, _⟩⟩ := hu
  · by_cases h1 : req.number = 1
    · exact hedit hcmd rfl hch (if_pos h1)
    · obtain ⟨h2, h3⟩ := hpos.resolve_left h1
      cases hrev : (t c).rule.reverse with
      | nil => exact h3 (List.reverse_eq_nil_iff.mp hrev)
      | cons prev passed =>
        have hi : ruleInsert req.rule req.number (t c) =
            .ok ⟨⟨(prev :: passed).reverse ++ [req.rule], (t c).number⟩, [], 0⟩ := by
          simp only [ruleInsert, if_neg h1, if_pos h2, walk_true, hrev, List.append_nil]
        exact hedit hcmd rfl hch hi
  · exact hedit hcmd rfl hch (ruleAddpend_eq _ _)

theorem empty_honest : Honest SipfwTables.empty :=
  honest_iff.mpr ⟨fun _ => rfl, by decide⟩

/-- What a run keeps whose requests are all counted. -/
structure Sound (t : SipfwTables) : Prop where
  inRange : InRange t
  honest : Honest t

theorem empty_sound : Sound .empty :=
  ⟨fun _ => (by decide : (-2147483648 : Int) ≤ 0 ∧ (0 : Int) ≤ 2147483647), empty_honest⟩

theorem step_sound {t t' : SipfwTables} {req : Request} (ht : Sound t) (hu : ¬ Uncounted t req)
    (h : step t req = .ok t') : Sound t' :=
  ⟨step_inRange ht.inRange h, (step_honest ht.inRange ht.honest h).mpr hu⟩

/-- **The counters over every run**: from the empty tables, every state is good
exactly when no request of the run is an uncounted one. -/
theorem honest_iff_counted (reqs : List Request) :
    Always step Honest SipfwTables.empty reqs ↔
      Along step (fun t req => ¬ Uncounted t req) SipfwTables.empty reqs :=
  always_iff_along InRange (fun _ _ _ hr h => step_inRange hr h)
    (fun _ _ _ hr ht h => step_honest hr ht h) (fun _ _ _ _ _ h => fault_not_uncounted h)
    reqs (fun _ => (by decide : (-2147483648 : Int) ≤ 0 ∧ (0 : Int) ≤ 2147483647)) empty_honest

/-- `INSERT` of a rule at position 1 of INPUT. -/
def insertFirst : Request where
  mem := ⟨7, 0, 0, 0, 0, 0, 0, 0, 0⟩
  pid := 0#32
  opts := { (listAll ⟨0, 0, 0, 0, 0, 0, 0, 0, 0⟩).opts with
    command := .ofUint Cmd.insert.code, chain := .ofUint Chain.input.code, number := .ofUint 1#32 }

/-- One INSERT into the empty tables: a rule is linked and none is counted, and
LIST announces no rule and sends one. -/
theorem insert_not_counted :
    ∃ t, run step SipfwTables.empty [insertFirst] = .ok t ∧
      (t .input).rule.length = 1 ∧ (t .input).number = 0 ∧ ¬ Counted t ∧ ¬ ListHonest t := by
  refine ⟨_, rfl, rfl, rfl, fun h => ?_, fun h => ?_⟩
  · exact absurd (h .input) (by decide)
  · exact absurd (h (listAll ⟨0, 0, 0, 0, 0, 0, 0, 0, 0⟩) _ rfl rfl) (by decide)

end LinuxNet.Sipfw
