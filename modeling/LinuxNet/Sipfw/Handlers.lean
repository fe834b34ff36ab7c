import LinuxNet.Sipfw.Types

/-!
# The command handlers of the kernel module

`SIPFW_NLDoAction` of `sipfw_k_nl.c` and the six `SIPFW_NLAction_Rule*`
handlers it dispatches to. A chain is the list of its rules; the source's
pair `prev`/`cur` is a position in that list, held as the rules already passed
(last passed first, so `prev` is its head) and the rules from `cur` on. A
handler that follows a NULL `prev` or `cur` faults, and so does one whose
`rule->chain` is not an index of `sipfw_tables`.

A command consumes one fresh cell `mem`, whose content is whatever `kmalloc`
returned, and reports the cells it gives back with `kfree` and the messages
it sends.
-/

namespace LinuxNet.Sipfw

/-! ## Messages to the user -/

/-- `SIPFW_MSG_*`. -/
inductive MsgType where
  | pid
  | rule
  | close
  | failure
  | success
  deriving DecidableEq, Repr

def MsgType.code : MsgType → BitVec 16
  | .pid => 0#16
  | .rule => 1#16
  | .close => 2#16
  | .failure => 3#16
  | .success => 4#16

/-- What a message to the user carries. -/
inductive Payload where
  | info (s : CStr)
  | count (n : BitVec 32)
  | rule (r : SipfwRules)
  deriving DecidableEq, Repr

/-- A message of `SIPFW_NLSendToUser`, addressed to a netlink pid. -/
structure UserMsg where
  pid : BitVec 32
  type : MsgType
  payload : Payload
  deriving DecidableEq, Repr

/-- The answer to an editing command: `SUCCESS` if the handler returned 0. -/
def reply (pid : BitVec 32) (err : Int) : UserMsg :=
  if err = 0 then ⟨pid, .success, .info "SUCCESS".toList⟩
  else ⟨pid, .failure, .info "FAILURE".toList⟩

/-! ## Walking a chain -/

/-- `for (cur = head, i = 1; cur != NULL && go; prev = cur, cur = cur->next, i++)`:
the rules passed, last passed first, and those from `cur` on. -/
def walk (go : Int → SipfwRules → Bool) :
    Int → List SipfwRules → List SipfwRules → List SipfwRules × List SipfwRules
  | _, prev, [] => (prev, [])
  | i, prev, cur :: next =>
    if go i cur then walk go (i + 1) (cur :: prev) next else (prev, cur :: next)

/-- A walk only moves the position: the chain around it is the same. -/
theorem walk_append (go : Int → SipfwRules → Bool) (l : List SipfwRules) :
    ∀ (i : Int) (prev : List SipfwRules),
      (walk go i prev l).1.reverse ++ (walk go i prev l).2 = prev.reverse ++ l := by
  induction l with
  | nil =>
    intro i prev
    rfl
  | cons cur next ih =>
    intro i prev
    rw [walk]
    split
    · rw [ih, List.reverse_cons, List.append_assoc, List.singleton_append]
    · rfl

/-- Counting up to a position: a walk that goes on while `i < number` ends there
or at the end of the chain. -/
theorem walk_lt_spec (number : Int) (l : List SipfwRules) :
    ∀ (i : Int) (prev : List SipfwRules), i ≤ number → number < i + l.length →
      ∃ passed cur next, l = passed ++ cur :: next ∧ (passed.length : Int) = number - i ∧
        walk (fun i _ => decide (i < number)) i prev l = (passed.reverse ++ prev, cur :: next) := by
  induction l with
  | nil =>
    intro i prev h1 h2
    simp only [List.length_nil, Int.natCast_zero, Int.add_zero] at h2
    omega
  | cons cur next ih =>
    intro i prev h1 h2
    simp only [List.length_cons, Int.natCast_add, Int.natCast_one] at h2
    by_cases hi : i < number
    · obtain ⟨passed, c, n, hl, hp, hw⟩ := ih (i + 1) (cur :: prev) (by omega) (by omega)
      refine ⟨cur :: passed, c, n, by rw [hl]; rfl, ?_, ?_⟩
      · simp only [List.length_cons, Int.natCast_add, Int.natCast_one]
        omega
      · rw [walk, if_pos (by simpa using hi), hw]
        simp
    · exact ⟨[], cur, next, rfl, by simp only [List.length_nil]; omega, by
        rw [walk, if_neg (by simpa using hi)]; rfl⟩

/-- A walk that never stops passes the whole chain. -/
theorem walk_true (l : List SipfwRules) : ∀ (i : Int) (prev : List SipfwRules),
    walk (fun _ _ => true) i prev l = (l.reverse ++ prev, []) := by
  induction l with
  | nil =>
    intro i prev
    rfl
  | cons cur next ih =>
    intro i prev
    rw [walk, if_pos rfl, ih, List.reverse_cons, List.append_assoc, List.singleton_append]

/-! ## The handlers -/

/-- What a handler leaves: the list, the cells freed in order, the return value. -/
structure Handled where
  list : SipfwList
  freed : List Nat
  retval : Int
  deriving DecidableEq, Repr

/-- `SIPFW_NLAction_RuleAddpend`. -/
def ruleAddpend (rule : SipfwRules) (l : SipfwList) : Except Fault Handled :=
  match l.rule with
  | [] => .ok ⟨⟨[rule], intWrap (l.number + 1)⟩, [], 0⟩
  | _ :: _ =>
    match walk (fun _ _ => true) 1 [] l.rule with
    | ([], _) => .error .nullDeref
    | (prev :: passed, _) =>
      .ok ⟨⟨(prev :: passed).reverse ++ [rule], intWrap (l.number + 1)⟩, [], 0⟩

/-- The comparison of the `number == -1` branch of `SIPFW_NLAction_RuleDelete`. -/
def sameRule (cur rule : SipfwRules) : Bool :=
  cur.action == rule.action && cur.addtion == rule.addtion && cur.chain == rule.chain &&
    cur.source == rule.source && cur.dest == rule.dest && cur.sport == rule.sport &&
    cur.dport == rule.dport && cur.protocol == rule.protocol

/-- `SIPFW_NLAction_RuleDelete`. -/
def ruleDelete (rule : SipfwRules) (number : Int) (l : SipfwList) : Except Fault Handled :=
  if number > l.number then .ok ⟨l, [rule.cell], 0⟩
  else if number ≠ -1 then
    match walk (fun i _ => decide (i ≠ number)) 1 [] l.rule with
    | (_, []) => .ok ⟨l, [rule.cell], 0⟩
    | (prev, cur :: next) =>
      .ok ⟨⟨prev.reverse ++ next, intWrap (l.number - 1)⟩, [cur.cell, rule.cell], 0⟩
  else
    match walk (fun _ cur => !sameRule cur rule) 1 [] l.rule with
    | (_, []) => .ok ⟨l, [], 0⟩
    | (prev, cur :: next) =>
      .ok ⟨⟨prev.reverse ++ next, intWrap (l.number - 1)⟩, [cur.cell, rule.cell], 0⟩

/-- `SIPFW_NLAction_RuleReplace`. -/
def ruleReplace (rule : SipfwRules) (number : Int) (l : SipfwList) : Except Fault Handled :=
  if number ≠ -1 then
    match walk (fun i _ => decide (i ≠ number)) 1 [] l.rule with
    | (_, []) => .ok ⟨l, [], 0⟩
    | (prev, cur :: next) =>
      .ok ⟨⟨prev.reverse ++ rule :: next, l.number⟩, [cur.cell], 0⟩
  else if number > l.number then .ok ⟨l, [rule.cell], 0⟩
  else .ok ⟨l, [], 0⟩

/-- `SIPFW_NLAction_RuleInsert`. -/
def ruleInsert (rule : SipfwRules) (number : Int) (l : SipfwList) : Except Fault Handled :=
  if number = 1 then .ok ⟨⟨rule :: l.rule, l.number⟩, [], 0⟩
  else if number > l.number then
    match walk (fun _ _ => true) 1 [] l.rule with
    | ([], _) => .error .nullDeref
    | (prev :: passed, _) => .ok ⟨⟨(prev :: passed).reverse ++ [rule], l.number⟩, [], 0⟩
  else if number ≠ -1 then
    match walk (fun i _ => decide (i < number)) 1 [] l.rule with
    | ([], _) => .error .nullDeref
    | (_ :: _, []) => .error .nullDeref
    -- rule->next = cur->next: the rule at cur is no longer linked
    | (prev :: passed, _ :: next) =>
      .ok ⟨⟨(prev :: passed).reverse ++ rule :: next, l.number⟩, [], 0⟩
  else .ok ⟨l, [], 0⟩

/-- The inner loop of `SIPFW_NLAction_RuleFlush`: the cells freed, and `prev`,
which the source does not reset between two chains. -/
def flushWalk : Option Nat → List SipfwRules → List Nat × Option Nat
  | prev, [] => ([], prev)
  | prev, cur :: next =>
    let r := flushWalk (some cur.cell) next
    (prev.toList ++ r.1, r.2)

/-- The chains from `i` up to `num` in `SIPFW_NLAction_RuleFlush` and
`SIPFW_NLAction_RuleList`. -/
def chainsFrom (chain : BitVec 32) : Except Fault (List Chain) :=
  if chain = chainAll then .ok [.input, .output, .forward]
  else
    match Chain.ofInt chain with
    | some c => .ok [c]
    | none => .error .outOfBounds

/-- The outer loop of `SIPFW_NLAction_RuleFlush`. -/
def flushChains : Option Nat → List Chain → SipfwTables → SipfwTables × List Nat
  | _, [], t => (t, [])
  | prev, c :: cs, t =>
    let r := flushWalk prev (t c).rule
    let s := flushChains r.2 cs (t.set c ⟨[], 0⟩)
    (s.1, r.1 ++ s.2)

/-! ## Walks to the end -/

/-- APPEND always gets to the end of the chain. -/
theorem ruleAddpend_eq (rule : SipfwRules) (l : SipfwList) :
    ruleAddpend rule l = .ok ⟨⟨l.rule ++ [rule], intWrap (l.number + 1)⟩, [], 0⟩ := by
  unfold ruleAddpend
  cases hl : l.rule with
  | nil => rfl
  | cons cur next =>
    dsimp only
    rw [walk_true, List.append_nil]
    cases hr : (cur :: next).reverse with
    | nil => exact absurd hr (by simp)
    | cons prev passed =>
      dsimp only
      rw [← hr, List.reverse_reverse]

/-! ## `SIPFW_NLDoAction` -/

/-- The rule `SIPFW_NLDoAction` fills in. `rule->source` is assigned twice and
`rule->dest` never: it keeps what `kmalloc` returned. -/
def buildRule (mem : SipfwRules) (o : SipfwCmdOpts) : SipfwRules :=
  { mem with
    chain := o.chain.vUint, source := o.source.vUint, sport := o.sport.vUint.setWidth 16
    dport := o.dport.vUint.setWidth 16, protocol := o.protocol.vUint.setWidth 8
    action := o.action.vUint, addtion := o.addtion }

/-- What a command leaves: the tables, the cells freed, the messages sent. -/
structure Outcome where
  tables : SipfwTables
  freed : List Nat
  sent : List UserMsg

/-- A handler that works on `sipfw_tables[rule->chain]` and is answered. -/
def onChain (pid : BitVec 32) (chain : BitVec 32) (t : SipfwTables)
    (handler : SipfwList → Except Fault Handled) : Except Fault Outcome :=
  match Chain.ofInt chain with
  | none => .error .outOfBounds
  | some c =>
    match handler (t c) with
    | .error e => .error e
    | .ok h => .ok ⟨t.set c h.list, h.freed, [reply pid h.retval]⟩

theorem onChain_ok {pid chain : BitVec 32} {t : SipfwTables}
    {handler : SipfwList → Except Fault Handled} {c : Chain} {h : Handled}
    (hc : chain = c.code) (hh : handler (t c) = .ok h) :
    onChain pid chain t handler = .ok ⟨t.set c h.list, h.freed, [reply pid h.retval]⟩ := by
  unfold onChain
  rw [hc, Chain.ofInt_code]
  dsimp only
  rw [hh]

/-- `SIPFW_NLAction_RuleList`: the count first, then every rule. -/
def ruleList (pid : BitVec 32) (rule : SipfwRules) (t : SipfwTables) : Except Fault Outcome :=
  match chainsFrom rule.chain with
  | .error e => .error e
  | .ok cs =>
    .ok ⟨t, [rule.cell],
      ⟨pid, .rule, .count (BitVec.ofInt 32 (cs.map fun c => (t c).number).sum)⟩ ::
        (cs.flatMap fun c => (t c).rule).map fun r => ⟨pid, .rule, .rule r⟩⟩

/-- `SIPFW_NLAction_RuleFlush`. -/
def ruleFlush (pid : BitVec 32) (rule : SipfwRules) (t : SipfwTables) : Except Fault Outcome :=
  match chainsFrom rule.chain with
  | .error e => .error e
  | .ok cs =>
    let r := flushChains none cs t
    .ok ⟨r.1, r.2 ++ [rule.cell], [reply pid 0]⟩

/-- `SIPFW_NLDoAction` once the options have been read: `mem` is the cell
`kmalloc` returned, `pid` the one the message came from. -/
def doAction (mem : SipfwRules) (pid : BitVec 32) (o : SipfwCmdOpts) (t : SipfwTables) :
    Except Fault Outcome :=
  let rule := buildRule mem o
  let number := o.number.vInt
  match Cmd.ofInt o.command.vUint with
  | some .insert => onChain pid rule.chain t (ruleInsert rule number)
  | some .delete => onChain pid rule.chain t (ruleDelete rule number)
  | some .replace => onChain pid rule.chain t (ruleReplace rule number)
  | some .append => onChain pid rule.chain t (ruleAddpend rule)
  | some .list => ruleList pid rule t
  | some .flush => ruleFlush pid rule t
  | none => .ok ⟨t, [], []⟩

end LinuxNet.Sipfw
