import LinuxNet.Sipfw.Netlink

/-!
# What `SIPFW_NLInput` lets in

A queue is handled as it should be (`Validated`) if every buffer is taken once
and in order, every byte read lies inside the message, and a message that is too
short for `struct sipfw_cmd_opts`, or that says CLOSE, changes nothing.

The first fails where a handler follows NULL or leaves the tables: what is behind
that message in the queue is never taken, so the command has to be one that gets
through in any state (`GetsThrough`). The second fails as soon as a message that
passes the two length tests ends before the last member the kernel reads. The
third fails because neither the length of the payload nor the type is tested:
such a message is taken for a command, and only the commands that change
nothing in any state (`Harmless`) do no harm. `validated_iff` puts this together
for every class of messages: all queues made of them are handled as they should
be exactly if each of them is `Fine`.
-/

namespace LinuxNet.Sipfw

/-! ## What is to hold -/

/-- The payload is shorter than `struct sipfw_cmd_opts`. -/
def Short (abi : Abi) (skb : NlSkb) : Prop := skb.len < NlSkb.hdrLen + cmdOptsSize abi

/-- The message of the tool's SIGINT handler. -/
def IsClose (skb : NlSkb) : Prop := skb.nlmsgType = MsgType.close.code

/-- The buffers taken from the queue, in order. -/
def takenOf : List NlEv → List NlSkb
  | [] => []
  | .taken skb :: evs => skb :: takenOf evs
  | .read _ _ :: evs => takenOf evs

/-- A read stays inside the message. -/
def NlEv.Within : NlEv → Prop
  | .taken _ => True
  | .read skb o => o < skb.len

/-- The queue is handled as it should be, from the tables `t` on. A fault ends the
run, and with it the taking of messages. -/
structure Validated (abi : Abi) (queue : List Queued) (t : SipfwTables) : Prop where
  taken : takenOf (nlInput abi t queue).log = queue.map (·.skb)
  inside : Traced.All NlEv.Within (nlInput abi t queue)
  unchanged : Along (stepMsg abi)
    (fun t q => Short abi q.skb ∨ IsClose q.skb → stepMsg abi t q = .ok t) t queue

/-! ## Taking -/

theorem takenOf_append (a b : List NlEv) : takenOf (a ++ b) = takenOf a ++ takenOf b := by
  induction a with
  | nil => rfl
  | cons ev a ih =>
    cases ev with
    | taken skb => exact congrArg _ ih
    | read skb o => exact ih

/-- Handling a message takes no other. -/
theorem nlMessage_taken (abi : Abi) (t : SipfwTables) (q : Queued) :
    takenOf (nlMessage abi t q).log = [] := by
  have hopts : takenOf (nlOpts abi q.skb).log = [] := rfl
  have hto : ∀ o, takenOf (nlTo q.skb o).log = [] := fun o => by
    unfold nlTo
    cases Cmd.ofInt o.command.vUint <;> rfl
  unfold nlMessage nlDoAction
  simp only [Traced.log_ite, Traced.log_bind, Traced.log_pure, List.append_nil]
  split
  next =>
    rw [takenOf_append]
    split
    next => rw [takenOf_append, hopts, hto]; rfl
    next => rfl
  next => rfl

/-- What is taken: the first message, and the others if it is handled without a fault. -/
theorem nlInput_taken_cons (abi : Abi) (t : SipfwTables) (q : Queued) (queue : List Queued) :
    takenOf (nlInput abi t (q :: queue)).log = q.skb ::
      match stepMsg abi t q with
      | .ok t' => takenOf (nlInput abi t' queue).log
      | .error _ => [] := by
  have hq := nlMessage_taken abi t q
  rw [nlInput, Traced.log_bind, Traced.log_bind, takenOf_append, takenOf_append, hq]
  unfold stepMsg
  cases (nlMessage abi t q).val <;> rfl

/-- **Taking**: messages that are handled without a fault are taken once and in order. -/
theorem nlInput_taken {abi : Abi} {queue : List Queued}
    (hok : ∀ q ∈ queue, ∀ t, ∃ t', stepMsg abi t q = .ok t') :
    ∀ t, takenOf (nlInput abi t queue).log = queue.map (·.skb) := by
  induction queue with
  | nil =>
    intro t
    rfl
  | cons q queue ih =>
    intro t
    obtain ⟨t', h1⟩ := hok q (List.mem_cons_self ..) t
    rw [nlInput_taken_cons, h1, List.map_cons]
    exact congrArg (q.skb :: ·) (ih (fun q' hm => hok q' (List.mem_cons_of_mem _ hm)) t')

/-- A message behind one that faults is not taken. -/
theorem ok_of_taken {abi : Abi} {t : SipfwTables} {q q' : Queued} {queue : List Queued}
    (h : takenOf (nlInput abi t (q :: q' :: queue)).log = (q :: q' :: queue).map (·.skb)) :
    ∃ t', stepMsg abi t q = .ok t' := by
  rw [nlInput_taken_cons] at h
  cases h1 : stepMsg abi t q with
  | ok t' => exact ⟨t', rfl⟩
  | error f =>
    rw [h1] at h
    exact absurd (congrArg List.length h) (by simp)

/-! ## Reading -/

section Reading

variable {abi : Abi} {skb : NlSkb}

theorem within_readMsg32 {o : Nat} :
    Traced.All NlEv.Within (readMsg32 skb o) ↔ o + 3 < skb.len := by
  constructor
  · intro h
    exact h (.read skb (o + 3)) (by simp)
  · intro h e he
    simp only [List.map_cons, List.map_nil, List.mem_cons, List.not_mem_nil, or_false] at he
    rcases he with rfl | rfl | rfl | rfl
    · exact Nat.lt_of_le_of_lt (Nat.le_add_right _ _) h
    · exact Nat.lt_of_le_of_lt (Nat.add_le_add_left (by decide) _) h
    · exact Nat.lt_of_le_of_lt (Nat.add_le_add_left (by decide) _) h
    · exact h

/-- `number` is the last member that is read. -/
theorem offset_le_number (f : OptField) : f.offset abi ≤ OptField.number.offset abi :=
  Nat.add_le_add_left (Nat.mul_le_mul_right _ (by cases f <;> decide)) _

/-- The members that are read lie inside the message exactly if the last one does. -/
theorem nlOpts_within : Traced.All NlEv.Within (nlOpts abi skb) ↔
    OptField.number.offset abi + 3 < skb.len := by
  unfold nlOpts
  simp only [Traced.all_bind, Traced.all_pure, and_true, within_readMsg32]
  constructor
  · intro h
    obtain ⟨_, _, _, _, _, _, _, _, _, h⟩ := h
    exact h
  · intro h
    have hf : ∀ f : OptField, f.offset abi + 3 < skb.len := fun f =>
      Nat.lt_of_le_of_lt (Nat.add_le_add_right (offset_le_number f) 3) h
    exact ⟨hf _, hf _, hf _, hf _, hf _, hf _, hf _, hf _, hf _, hf _⟩

/-- **Reading**: a message is read inside exactly if it is dropped or reaches to
the end of `number`. -/
theorem nlMessage_within {t : SipfwTables} {q : Queued} :
    Traced.All NlEv.Within (nlMessage abi t q) ↔
      (Dispatched q.skb → OptField.number.offset abi + 3 < q.skb.len) := by
  have hto : NlSkb.hdrLen ≤ q.skb.len → ∀ o, Traced.All NlEv.Within (nlTo q.skb o) :=
    fun h16 o => by
      unfold nlTo
      cases Cmd.ofInt o.command.vUint with
      | none => exact Traced.all_pure _
      | some cmd => exact within_readMsg32.mpr (Nat.lt_of_lt_of_le (by decide) h16)
  unfold nlMessage nlDoAction
  simp only [Traced.all_ite, Traced.all_bind, Traced.all_pure, and_true, implies_true,
    within_readMsg32, nlOpts_within]
  constructor
  · intro h hd
    exact ((h hd.1).2 hd.2).1
  · intro h h16
    exact ⟨Nat.lt_of_lt_of_le (by decide) h16, fun h2 => ⟨h ⟨h16, h2⟩, hto h16 _⟩⟩

/-- The reads of a queue are those of the messages that are reached. -/
theorem nlInput_within (queue : List Queued) : ∀ t : SipfwTables,
    Traced.All NlEv.Within (nlInput abi t queue) ↔
      Along (stepMsg abi) (fun t q => Traced.All NlEv.Within (nlMessage abi t q)) t queue := by
  induction queue with
  | nil =>
    intro t
    exact iff_of_true (Traced.all_pure _) trivial
  | cons q queue ih =>
    intro t
    have htaken : Traced.All NlEv.Within (Traced.emit (.taken q.skb)) :=
      List.forall_mem_singleton.mpr trivial
    rw [nlInput, Traced.all_bind, Traced.all_bind, and_iff_right htaken, Along]
    refine and_congr_right fun _ => ?_
    unfold stepMsg
    cases (nlMessage abi t q).val with
    | error f => exact iff_of_true (Traced.all_pure _) fun t' h => by cases h
    | ok t' =>
      simp only [Except.ok.injEq, forall_eq']
      exact ih t'

end Reading

/-- A state with rules in one chain only. -/
def onlyIn (c : Chain) (l : SipfwList) : SipfwTables := SipfwTables.empty.set c l

/-! ## Commands that get through -/

/-- The command gets through in every state: an unknown one, LIST and FLUSH of chains that exist,
and in a chain that does APPEND, DELETE, REPLACE, and INSERT at its head. -/
def GetsThrough (req : Request) : Prop :=
  req.cmd = none ∨
  (req.cmd = some .list ∨ req.cmd = some .flush) ∧ (∃ cs, chainsFrom req.rule.chain = .ok cs) ∨
  (req.cmd = some .append ∨ req.cmd = some .delete ∨ req.cmd = some .replace ∨
    req.cmd = some .insert ∧ req.number = 1) ∧ ∃ c, req.chain = some c

theorem ruleDelete_ok (rule : SipfwRules) (number : Int) (l : SipfwList) :
    ∃ hd, ruleDelete rule number l = .ok hd := by
  unfold ruleDelete
  split
  next => exact ⟨_, rfl⟩
  next =>
    split
    next => split <;> exact ⟨_, rfl⟩
    next => split <;> exact ⟨_, rfl⟩

theorem ruleReplace_ok (rule : SipfwRules) (number : Int) (l : SipfwList) :
    ∃ hd, ruleReplace rule number l = .ok hd := by
  unfold ruleReplace
  split
  next => split <;> exact ⟨_, rfl⟩
  next => split <;> exact ⟨_, rfl⟩

/-- INSERT anywhere but at the head follows NULL in an empty chain, if its counter is low enough
not to stop it. -/
theorem ruleInsert_fault (rule : SipfwRules) {number : Int} (h : number ≠ 1) :
    ruleInsert rule number ⟨[], -2⟩ = .error .nullDeref := by
  unfold ruleInsert
  rw [if_neg h]
  by_cases h2 : number > -2
  · rw [if_pos h2]
    rfl
  · rw [if_neg h2, if_pos (by omega : number ≠ -1)]
    rfl

/-! ## Commands that change nothing -/

/-- The command changes nothing, in whatever state: an unknown one, LIST of chains
that exist, and DELETE or REPLACE at a position no rule can have. -/
def Harmless (req : Request) : Prop :=
  req.cmd = none ∨
  req.cmd = some .list ∧ (∃ cs, chainsFrom req.rule.chain = .ok cs) ∨
  (req.cmd = some .delete ∧ req.number ≠ -1 ∨ req.cmd = some .replace) ∧
    (∃ c, req.chain = some c) ∧ req.number ≤ 0

/-- A walk that looks for a position no rule has passes the whole chain. -/
theorem walk_ne_nonpos {number : Int} (l : List SipfwRules) : ∀ {i : Int} (prev : List SipfwRules),
    number < i → (walk (fun i _ => decide (i ≠ number)) i prev l).2 = [] := by
  induction l with
  | nil =>
    intro i prev _
    rfl
  | cons cur l ih =>
    intro i prev h
    have hi : i ≠ number := by omega
    rw [walk, if_pos (decide_eq_true hi)]
    exact ih (cur :: prev) (by omega)

/-- Up to the position, looking for it is counting up to it. -/
theorem walk_ne_eq_lt {number : Int} (l : List SipfwRules) : ∀ {i : Int} (prev : List SipfwRules),
    i ≤ number → walk (fun i _ => decide (i ≠ number)) i prev l =
      walk (fun i _ => decide (i < number)) i prev l := by
  induction l with
  | nil =>
    intro i prev _
    rfl
  | cons cur l ih =>
    intro i prev h
    rw [walk, walk]
    by_cases hi : i = number
    · have hge : number ≤ i := Int.le_of_eq hi.symm
      rw [if_neg (by simpa using hi), if_neg (by simpa using hge)]
    · have hlt : i < number := by omega
      rw [if_pos (decide_eq_true hi), if_pos (decide_eq_true hlt)]
      exact ih (cur :: prev) (by omega)

theorem ruleDelete_nonpos {rule : SipfwRules} {number : Int} (h0 : number ≤ 0) (h1 : number ≠ -1)
    (l : SipfwList) : ∃ freed, ruleDelete rule number l = .ok ⟨l, freed, 0⟩ := by
  have hw := walk_ne_nonpos l.rule [] (by omega : number < 1)
  unfold ruleDelete
  split
  next => exact ⟨_, rfl⟩
  next =>
    split
    next => exact ⟨_, rfl⟩
    next hw' => rw [hw'] at hw; exact nomatch hw

theorem ruleReplace_nonpos {rule : SipfwRules} {number : Int} (h0 : number ≤ 0)
    (l : SipfwList) : ∃ freed, ruleReplace rule number l = .ok ⟨l, freed, 0⟩ := by
  have hw := walk_ne_nonpos l.rule [] (by omega : number < 1)
  unfold ruleReplace
  split
  next =>
    split
    next => exact ⟨_, rfl⟩
    next hw' => rw [hw'] at hw; exact nomatch hw
  next => split <;> exact ⟨_, rfl⟩

theorem SipfwTables.set_eq_self (t : SipfwTables) (c : Chain) : t.set c (t c) = t :=
  Function.update_eq_self c t

/-- A handler whose command changes nothing has left its list as it was. -/
theorem unchanged_list {req : Request} {f : SipfwList → Except Fault Handled} {t : SipfwTables}
    (h : (onChain req.pid req.rule.chain t f).map (·.tables) = .ok t) :
    ∃ c hd, req.chain = some c ∧ f (t c) = .ok hd ∧ hd.list = t c := by
  obtain ⟨c, hd, hc, hh, ht⟩ := onChain_tables h
  refine ⟨c, hd, hc, hh, ?_⟩
  rw [← SipfwTables.set_same t c hd.list, ← ht]

/-- INSERT changes something, or faults, in one of three states. -/
theorem insert_changes {rule : SipfwRules} {number : Int}
    (h : ∀ l, ∃ hd, ruleInsert rule number l = .ok hd ∧ hd.list = l) : False := by
  -- only position -1 leaves an empty chain alone, and -1 lies behind a counter of -2
  have hempty : number = -1 := by
    obtain ⟨hd, hh, hl⟩ := h ⟨[], 0⟩
    obtain ⟨_, ⟨_, hr⟩ | ⟨_, _, hne, _⟩ | ⟨_, _, ⟨hm, _⟩ | ⟨h2, hle, _⟩⟩⟩ := ruleInsert_cases hh
    · rw [hl] at hr
      exact nomatch hr
    · exact absurd rfl hne
    · exact hm
    · rw [List.length_nil] at hle
      omega
  obtain ⟨hd, hh, hl⟩ := h ⟨[rule], -2⟩
  obtain ⟨_, ⟨h1, _⟩ | ⟨_, _, _, hr⟩ | ⟨_, hle, _⟩⟩ := ruleInsert_cases hh
  · omega
  · rw [hl] at hr
    exact absurd (congrArg List.length hr) (by simp)
  · have hle' : number ≤ -2 := hle
    omega

/-- DELETE at a position, or of a rule like its own, unlinks a rule in some state. -/
theorem delete_changes {rule : SipfwRules} {number : Int}
    (h : ∀ l, ∃ hd, ruleDelete rule number l = .ok hd ∧ hd.list = l) :
    number ≤ 0 ∧ number ≠ -1 := by
  constructor
  · by_contra hpos
    -- a chain with a rule at that position
    obtain ⟨hd, hh, hl⟩ := h ⟨List.replicate number.toNat rule, number⟩
    obtain ⟨passed, cur, next, hsplit, _, hw⟩ := walk_lt_spec number
      (List.replicate number.toNat rule) 1 [] (by omega) (by rw [List.length_replicate]; omega)
    unfold ruleDelete at hh
    rw [if_neg (Int.lt_irrefl number), if_pos (by omega : number ≠ -1),
      walk_ne_eq_lt _ _ (by omega), hw] at hh
    cases hh
    have hlen := congrArg (fun l : SipfwList => l.rule.length) hl
    rw [hsplit] at hlen
    simp at hlen
  · intro he
    subst he
    obtain ⟨hd, hh, hl⟩ := h ⟨[rule], 1⟩
    have hsame : sameRule rule rule = true := by simp [sameRule]
    unfold ruleDelete at hh
    rw [if_neg (show ¬ (-1 : Int) > 1 by decide), if_neg (by decide), walk,
      if_neg (by rw [hsame]; decide)] at hh
    cases hh
    exact absurd (congrArg (fun l : SipfwList => l.rule.length) hl) (by simp)

/-- REPLACE at a position puts its rule into a chain of other rules. -/
theorem replace_changes {rule : SipfwRules} {number : Int}
    (h : ∀ l, ∃ hd, ruleReplace rule number l = .ok hd ∧ hd.list = l) : number ≤ 0 := by
  by_contra hpos
  -- a chain of rules in another cell, long enough for the position
  obtain ⟨hd, hh, hl⟩ :=
    h ⟨List.replicate number.toNat { rule with cell := rule.cell + 1 }, number⟩
  obtain ⟨passed, cur, next, hsplit, _, hw⟩ := walk_lt_spec number
    (List.replicate number.toNat { rule with cell := rule.cell + 1 }) 1 [] (by omega)
    (by rw [List.length_replicate]; omega)
  unfold ruleReplace at hh
  rw [if_pos (by omega : number ≠ -1), walk_ne_eq_lt _ _ (by omega), hw] at hh
  cases hh
  have hmem : rule ∈ List.replicate number.toNat { rule with cell := rule.cell + 1 } := by
    have hrule := congrArg SipfwList.rule hl
    rw [← show _ = List.replicate number.toNat _ from hrule]
    simp
  have hcell := congrArg SipfwRules.cell (List.eq_of_mem_replicate hmem)
  exact absurd hcell (Nat.ne_of_lt (Nat.lt_succ_self _))

/-- FLUSH empties a chain with one rule. -/
theorem flush_changes {req : Request} (hc : req.cmd = some .flush)
    (h : ∀ t, step t req = .ok t) : False := by
  cases hcs : chainsFrom req.rule.chain with
  | error e =>
    have he := h .empty
    rw [step_flush hc, hcs] at he
    cases he
  | ok cs =>
    -- one chain is flushed at least, and that one is given a rule
    obtain ⟨c, hmem⟩ : ∃ c, c ∈ cs := by
      unfold chainsFrom at hcs
      split at hcs
      next => cases hcs; exact ⟨_, List.mem_cons_self ..⟩
      next =>
        split at hcs
        next => cases hcs; exact ⟨_, List.mem_cons_self ..⟩
        next => cases hcs
    have he := h (onlyIn c ⟨[req.rule], 1⟩)
    rw [step_flush hc, hcs] at he
    have hsame := congrFun (Except.ok.inj he) c
    rcases flushChains_table cs none (onlyIn c ⟨[req.rule], 1⟩) c with ⟨h0, _⟩ | ⟨_, hno⟩
    · have hempty := h0.symm.trans hsame
      rw [onlyIn, SipfwTables.set_same] at hempty
      cases hempty
    · exact hno hmem

section Commands

variable {req : Request} {cmd : Cmd} {f : SipfwList → Except Fault Handled}

/-- A command whose handler gets through everywhere gets through in a chain that exists. -/
theorem edit_ok (hc : req.cmd = some cmd) (hf : editHandler cmd req.rule req.number = some f)
    {c : Chain} (hch : req.chain = some c) (h : ∀ l, ∃ hd, f l = .ok hd) (t : SipfwTables) :
    ∃ t', step t req = .ok t' := by
  obtain ⟨hd, hh⟩ := h (t c)
  rw [step_edit hc hf, onChain_ok (Chain.ofInt_eq_some.mp hch) hh]
  exact ⟨_, rfl⟩

theorem GetsThrough.step_ok (h : GetsThrough req) (t : SipfwTables) :
    ∃ t', step t req = .ok t' := by
  rcases h with hc | ⟨hc | hc, cs, hcs⟩ | ⟨hc | hc | hc | ⟨hc, h1⟩, c, hch⟩
  · exact ⟨t, step_none hc t⟩
  · rw [step_list hc, hcs]
    exact ⟨_, rfl⟩
  · rw [step_flush hc, hcs]
    exact ⟨_, rfl⟩
  · exact edit_ok hc rfl hch (fun l => ⟨_, ruleAddpend_eq _ l⟩) t
  · exact edit_ok hc rfl hch (ruleDelete_ok _ _) t
  · exact edit_ok hc rfl hch (ruleReplace_ok _ _) t
  · exact edit_ok hc rfl hch (fun l => ⟨_, if_pos h1⟩) t

/-- An editing command that gets through names a chain, and its handler gets through with
every list. -/
theorem edit_gets_through (hc : req.cmd = some cmd)
    (hf : editHandler cmd req.rule req.number = some f) (h : ∀ t, ∃ t', step t req = .ok t') :
    (∃ c, req.chain = some c) ∧ ∀ l, ∃ hd, f l = .ok hd := by
  have hone : ∀ t : SipfwTables, ∃ c hd, req.chain = some c ∧ f (t c) = .ok hd := fun t => by
    obtain ⟨t', ht⟩ := h t
    obtain ⟨c, hd, hch, hh, -⟩ := onChain_tables ((step_edit hc hf t).symm.trans ht)
    exact ⟨c, hd, hch, hh⟩
  obtain ⟨c, -, hch, -⟩ := hone .empty
  refine ⟨⟨c, hch⟩, fun l => ?_⟩
  obtain ⟨c', hd, hch', hh⟩ := hone (onlyIn c l)
  have hcc : c' = c := Option.some.inj (hch'.symm.trans hch)
  subst hcc
  rw [onlyIn, SipfwTables.set_same] at hh
  exact ⟨hd, hh⟩

theorem getsThrough_of_step (h : ∀ t, ∃ t', step t req = .ok t') : GetsThrough req := by
  -- LIST and FLUSH go through the chains their number stands for
  have hchains : ∀ {g : List Chain → SipfwTables},
      (∃ t', (chainsFrom req.rule.chain).map g = .ok t') →
        ∃ cs, chainsFrom req.rule.chain = .ok cs := fun hg => by
    obtain ⟨t', hg⟩ := hg
    cases hcs : chainsFrom req.rule.chain with
    | error e =>
      rw [hcs] at hg
      cases hg
    | ok cs => exact ⟨cs, rfl⟩
  cases hc : req.cmd with
  | none => exact .inl hc
  | some cmd =>
    cases cmd with
    | insert =>
      obtain ⟨hch, hall⟩ := edit_gets_through hc rfl h
      refine .inr (.inr ⟨.inr (.inr (.inr ⟨hc, ?_⟩)), hch⟩)
      by_contra h1
      obtain ⟨hd, hh⟩ := hall ⟨[], -2⟩
      rw [ruleInsert_fault _ h1] at hh
      cases hh
    | append => exact .inr (.inr ⟨.inl hc, (edit_gets_through hc rfl h).1⟩)
    | delete => exact .inr (.inr ⟨.inr (.inl hc), (edit_gets_through hc rfl h).1⟩)
    | replace => exact .inr (.inr ⟨.inr (.inr (.inl hc)), (edit_gets_through hc rfl h).1⟩)
    | list =>
      have hl := h .empty
      rw [step_list hc] at hl
      exact .inr (.inl ⟨.inl hc, hchains hl⟩)
    | flush =>
      have hl := h .empty
      rw [step_flush hc] at hl
      exact .inr (.inl ⟨.inr hc, hchains hl⟩)

/-- **Commands that get through**: those that fault in no state. -/
theorem getsThrough_iff : (∀ t, ∃ t', step t req = .ok t') ↔ GetsThrough req :=
  ⟨getsThrough_of_step, GetsThrough.step_ok⟩

/-- An editing command that changes nothing leaves every list of its chain as it was. -/
theorem edit_unchanged (hc : req.cmd = some cmd)
    (hf : editHandler cmd req.rule req.number = some f) (h : ∀ t, step t req = .ok t) :
    (∃ c, req.chain = some c) ∧ ∀ l, ∃ hd, f l = .ok hd ∧ hd.list = l := by
  obtain ⟨⟨c, hch⟩, -⟩ := edit_gets_through hc hf fun t => ⟨t, h t⟩
  refine ⟨⟨c, hch⟩, fun l => ?_⟩
  -- every list is the list of that chain in some state
  obtain ⟨c', hd, hch', hh, hl⟩ :=
    unchanged_list ((step_edit hc hf (onlyIn c l)).symm.trans (h (onlyIn c l)))
  have hcc : c' = c := Option.some.inj (hch'.symm.trans hch)
  subst hcc
  rw [onlyIn, SipfwTables.set_same] at hh hl
  exact ⟨hd, hh, hl⟩

/-- A command that changes nothing in any state is one of the harmless ones. -/
theorem harmless_of_unchanged (h : ∀ t, step t req = .ok t) : Harmless req := by
  cases hc : req.cmd with
  | none => exact .inl hc
  | some cmd =>
    cases cmd with
    | insert => exact (insert_changes (edit_unchanged hc rfl h).2).elim
    | append =>
      obtain ⟨hd, hh, hl⟩ := (edit_unchanged hc rfl h).2 ⟨[], 0⟩
      rw [ruleAddpend_eq] at hh
      cases hh
      cases hl
    | delete =>
      obtain ⟨hch, hall⟩ := edit_unchanged hc rfl h
      exact .inr (.inr ⟨.inl ⟨hc, (delete_changes hall).2⟩, hch, (delete_changes hall).1⟩)
    | replace =>
      obtain ⟨hch, hall⟩ := edit_unchanged hc rfl h
      exact .inr (.inr ⟨.inr hc, hch, replace_changes hall⟩)
    | list =>
      have hl := (step_list hc .empty).symm.trans (h .empty)
      cases hcs : chainsFrom req.rule.chain with
      | error e =>
        rw [hcs] at hl
        cases hl
      | ok cs => exact .inr (.inl ⟨hc, cs, hcs⟩)
    | flush =>
      exact (flush_changes hc h).elim

/-- The harmless commands change nothing in any state. -/
theorem Harmless.unchanged (h : Harmless req) (t : SipfwTables) : step t req = .ok t := by
  rcases h with hc | ⟨hc, cs, hcs⟩ | ⟨hc, ⟨c, hch⟩, h0⟩
  · exact step_none hc t
  · rw [step_list hc, hcs]
    rfl
  · have hsame : ∀ {f : SipfwList → Except Fault Handled},
        (∃ freed, f (t c) = .ok ⟨t c, freed, 0⟩) →
        (onChain req.pid req.rule.chain t f).map (·.tables) = .ok t := fun hf => by
      obtain ⟨freed, hf⟩ := hf
      rw [onChain_ok (Chain.ofInt_eq_some.mp hch) hf]
      exact congrArg Except.ok (SipfwTables.set_eq_self t c)
    rcases hc with ⟨hc, h1⟩ | hc
    · rw [step_edit hc rfl]
      exact hsame (ruleDelete_nonpos h0 h1 _)
    · rw [step_edit hc rfl]
      exact hsame (ruleReplace_nonpos h0 _)

/-- **Harmless commands**: those that leave every state as it is. -/
theorem harmless_iff : (∀ t, step t req = .ok t) ↔ Harmless req :=
  ⟨harmless_of_unchanged, Harmless.unchanged⟩

end Commands

/-! ## The theorem -/

/-- A message that does no harm: it is dropped, or it reaches to the end of
`number`, its command gets through, and if it is short or says CLOSE its command is
harmless. -/
def Fine (abi : Abi) (q : Queued) : Prop :=
  Dispatched q.skb → OptField.number.offset abi + 3 < q.skb.len ∧ GetsThrough (q.request abi) ∧
    (Short abi q.skb ∨ IsClose q.skb → Harmless (q.request abi))

/-- A fine message is handled without a fault. -/
theorem Fine.step_ok {abi : Abi} {q : Queued} (h : Fine abi q) (t : SipfwTables) :
    ∃ t', stepMsg abi t q = .ok t' := by
  by_cases hd : Dispatched q.skb
  · rw [stepMsg_dispatched hd]
    exact getsThrough_iff.mpr (h hd).2.1 t
  · exact ⟨t, stepMsg_dropped hd abi t⟩

/-- A fine message leaves the tables as they are if it is short or says CLOSE. -/
theorem Fine.unchanged {abi : Abi} {q : Queued} (h : Fine abi q)
    (hbad : Short abi q.skb ∨ IsClose q.skb) (t : SipfwTables) : stepMsg abi t q = .ok t := by
  by_cases hd : Dispatched q.skb
  · rw [stepMsg_dispatched hd]
    exact harmless_iff.mpr ((h hd).2.2 hbad) t
  · exact stepMsg_dropped hd abi t

/-- **Validation**: the queues made of messages of some class are all handled as
they should be, whatever the tables hold, exactly if every message of the class
is fine. -/
theorem validated_iff (abi : Abi) (P : Queued → Prop) :
    (∀ queue, (∀ q ∈ queue, P q) → ∀ t, Validated abi queue t) ↔ ∀ q, P q → Fine abi q := by
  constructor
  · intro h q hq hd
    have hone := fun t => h [q] (fun q' hm => List.mem_singleton.mp hm ▸ hq) t
    refine ⟨?_, getsThrough_iff.mp fun t => ?_, fun hbad => harmless_iff.mp fun t => ?_⟩
    · exact nlMessage_within.mp ((nlInput_within [q] .empty).mp (hone .empty).inside).1 hd
    · -- two of them in a row
      rw [← stepMsg_dispatched hd]
      refine ok_of_taken (h [q, q] (fun q' hm => ?_) t).taken
      rcases List.mem_pair.mp hm with rfl | rfl <;> exact hq
    · rw [← stepMsg_dispatched hd]
      exact (hone t).unchanged.1 hbad
  · intro h queue hq t
    have hall : ∀ q ∈ queue, Fine abi q := fun q hm => h q (hq q hm)
    refine ⟨nlInput_taken (fun q hm => (hall q hm).step_ok) t,
      (nlInput_within queue t).mpr ?_, ?_⟩
    · exact along_of_forall (fun q hm s => nlMessage_within.mpr fun hd => (hall q hm hd).1) t
    · exact along_of_forall (fun q hm s hbad => (hall q hm).unchanged hbad s) t

/-! ## The message of the SIGINT handler -/

/-- What `sig_int` sends: a header of sixteen bytes with the type CLOSE. Behind it
the memory holds the command APPEND, for the chain INPUT. -/
def closeMessage : Queued where
  skb :=
    { data := fun o => if o = 0 then 16#8 else if o = 4 then 2#8 else if o = 16 then 2#8 else 0#8
      len := 16 }
  mem := ⟨7, 0, 0, 0, 0, 0, 0, 0, 0⟩

/-- The message has no payload; the kernel reads one behind its end, and appends a
rule to INPUT. -/
theorem close_appends :
    IsClose closeMessage.skb ∧ Short .lp64 closeMessage.skb ∧
      (∃ t, stepMsg .lp64 .empty closeMessage = .ok t ∧ (t .input).rule.length = 1 ∧
        (t .input).number = 1) ∧
      ¬ Validated .lp64 [closeMessage] .empty := by
  refine ⟨by unfold IsClose; decide, by unfold Short; decide, ⟨_, rfl, rfl, rfl⟩, fun h => ?_⟩
  have hsame := h.unchanged.1 (.inl (by unfold Short; decide))
  exact absurd (congrArg (fun r => match r with
    | .ok t => (t .input).number
    | .error _ => 0) hsame) (by decide)

end LinuxNet.Sipfw
