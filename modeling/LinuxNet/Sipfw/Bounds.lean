import LinuxNet.Sipfw.Isolation
import LinuxNet.Sipfw.Parsed
import LinuxNet.Sipfw.Steps

/-!
# Accepted commands and the bounds of the tables

The kernel indexes `sipfw_tables` by the chain of a command and
`sipfw_action_name` by the action of a rule that a packet hits, and tests
neither. All validation is in the tool (`judgeCommand`), and this file follows
every command line the tool accepts (`CommandLine`) into both tables.

The tool lets `SIPFW_CHAIN_ALL` = 3 pass for APPEND and DELETE, which is what an
unknown chain name is parsed to; and its INSERT case ends without an error
where it means to refuse, and never looks at the action. The commands have one more
way to a fault: a hit on any rule they link is logged with a date, and the
tables of the dates end in 2012. `inBounds_iff` says that these are the only ways: a
run of accepted commands is in bounds exactly if its APPEND, DELETE and INSERT
commands name a chain, no INSERT without an action links its rule, and the clock is
inside the tables if a packet can hit what is linked.
-/

namespace LinuxNet.Sipfw

/-! ## What is to hold -/

/-- A command line the tool accepts, with the cell and the sender its command
will have in the kernel. -/
structure CommandLine where
  abi : Abi
  argv : List CStr
  ifname : SipfwVariant
  mem : SipfwRules
  pid : BitVec 32
  accepted : (toolMain abi argv ifname).1 = 0

/-- The command as the kernel handles it. -/
def CommandLine.request (line : CommandLine) : Request :=
  ⟨line.mem, line.pid, (toolMain line.abi line.argv line.ifname).2⟩

/-- The tables after an accepted command. -/
def stepLine (t : SipfwTables) (line : CommandLine) : Except Fault SipfwTables :=
  step t line.request

/-- The action has a named entry in `sipfw_action_name`. -/
def Named (action : BitVec 32) : Prop :=
  ∃ v, actionEntry action = .ok v ∧ v.ptr.isSome = true

/-- Every linked rule has a named action, and a hit at a time of the clock is logged inside the
tables: the hook returns the action, one of the verdicts `NF_DROP` to `NF_REPEAT`. -/
structure HitsNamed (now : Nat) (t : SipfwTables) : Prop where
  named : ∀ c, ∀ r ∈ (t c).rule, Named r.action
  verdict : ∀ (c : Chain) (env : LogEnv) (cf : SipfwConf) (skb : SkBuff) (r : SipfwRules),
    env.now = now → cf.invalid = 0#32 → (isMatch skb (t c).rule).val = some r →
      ∃ fired, hookOn c env t cf skb = .ok fired ∧ fired.verdict = r.action ∧
        fired.verdict.toNat ≤ 4

/-- A run of accepted commands never indexes `sipfw_tables` outside, and leaves only states whose
rules have named actions and decide about what hits them then. -/
def InBounds (now : Nat) (lines : List CommandLine) : Prop :=
  Along stepLine (fun t line => stepLine t line ≠ .error .outOfBounds) .empty lines ∧
    Always stepLine (HitsNamed now) .empty lines

/-! ## When it holds -/

/-- The three commands whose chain the tool does not check well enough. -/
def Edits (req : Request) : Prop :=
  req.cmd = some .append ∨ req.cmd = some .delete ∨ req.cmd = some .insert

/-- INSERT at this position links its rule into the list. -/
def Links (l : SipfwList) (number : Int) : Prop :=
  number = 1 ∨ l.rule ≠ [] ∧ l.number < number ∨ 2 ≤ number ∧ number ≤ l.rule.length

/-- An INSERT without an action that links its rule. -/
def LinksUnnamed (t : SipfwTables) (req : Request) : Prop :=
  req.cmd = some .insert ∧ req.rule.action = -1#32 ∧
    ∃ c, req.chain = some c ∧ Links (t c) req.number

/-- No packet can hit a rule. -/
def Unhit (t : SipfwTables) : Prop := ∀ c, ∀ r ∈ (t c).rule, ∀ skb, ruleMatches skb r = false

/-- The commands that stay in bounds. -/
def StaysNamed (t : SipfwTables) (line : CommandLine) : Prop :=
  (Edits line.request → ∃ c, line.request.chain = some c) ∧ ¬ LinksUnnamed t line.request

/-! ## Named actions -/

theorem named_of_le {action : BitVec 32} (h : action.toNat ≤ 4) : Named action := by
  have hlt : action.toInt = action.toNat := by
    rw [BitVec.toInt_eq_toNat_of_lt]
    omega
  obtain ⟨v, hv, hsome⟩ : ∃ v, sipfwActionName[action.toNat]? = some v ∧ v.ptr.isSome = true := by
    match action.toNat, h with
    | 0, _ | 1, _ | 2, _ | 3, _ | 4, _ => exact ⟨_, rfl, rfl⟩
  refine ⟨v, ?_, hsome⟩
  unfold actionEntry
  rw [if_neg (by omega), hv]

theorem named_iff {action : BitVec 32} : Named action ↔ action.toNat ≤ 4 := by
  refine ⟨?_, named_of_le⟩
  intro h
  obtain ⟨v, hv, hsome⟩ := h
  unfold actionEntry at hv
  split at hv
  next => exact nomatch hv
  next =>
    split at hv
    next v' hv' =>
      cases hv
      by_contra hlt
      rcases Nat.lt_or_ge action.toNat 6 with h6 | h6
      · have h5 : action.toNat = 5 := by omega
        rw [h5] at hv'
        cases hv'
        exact Bool.false_ne_true hsome
      · rw [List.getElem?_eq_none h6] at hv'
        exact nomatch hv'
    next => exact nomatch hv

/-- Every linked rule has a named action. -/
def AllNamed (t : SipfwTables) : Prop := ∀ c, ∀ r ∈ (t c).rule, Named r.action

/-- The rest of `HitsNamed` follows from the actions, as far as the log has a date for a hit. -/
theorem hitsNamed_iff {now : Nat} {t : SipfwTables} :
    HitsNamed now t ↔ AllNamed t ∧ (InTables now ∨ Unhit t) := by
  constructor
  · intro h
    refine ⟨h.named, or_iff_not_imp_left.mpr fun hnow c r hr skb => ?_⟩
    by_contra hmr
    rw [Bool.not_eq_false] at hmr
    -- with the log on, a packet that hits the chain faults
    obtain ⟨r', hr'⟩ := Option.isSome_iff_exists.mp
      (List.find?_isSome.mpr ⟨r, hr, hmr⟩ : ((t c).rule.find? (ruleMatches skb)).isSome = true)
    have hm : (isMatch skb (t c).rule).val = some r' := (isMatch_val _ _).trans hr'
    obtain ⟨fired, hf, -⟩ := h.verdict c ⟨fun _ => true, now⟩ .initial skb r' rfl rfl hm
    have hon : ¬ LogOff ⟨fun _ => true, now⟩ .initial := fun hoff =>
      hoff.elim (fun hp => hp rfl) Bool.noConfusion
    cases hf.symm.trans (hookOn_unstamped rfl hm hon hnow)
  · intro h
    obtain ⟨hnamed, hlog⟩ := h
    refine ⟨hnamed, fun c env cf skb r henv hi hm => ?_⟩
    obtain ⟨hr, hmr⟩ : r ∈ (t c).rule ∧ ruleMatches skb r = true := by
      rw [isMatch_val] at hm
      exact ⟨List.mem_of_find?_eq_some hm, List.find?_some hm⟩
    have hnow : InTables env.now := by
      rcases hlog with hlog | hlog
      · rwa [henv]
      · exact absurd ((hlog c r hr skb).symm.trans hmr) Bool.false_ne_true
    have hle := named_iff.mp (hnamed c r hr)
    obtain ⟨fired, hf, hverdict⟩ := hookOn_found hi hm
      (.inr ⟨hnow, (Nat.lt_succ_of_le hle).trans (by decide)⟩)
    exact ⟨fired, hf, hverdict, hverdict ▸ hle⟩

/-! ## What the tool sends -/

section Sent

variable {line : CommandLine}

/-- The action of a command line is DROP, ACCEPT, or missing. -/
theorem sent_action (line : CommandLine) :
    line.request.rule.action.toNat ≤ 4 ∨ line.request.rule.action = -1#32 := by
  have h := @sent_get line.abi .action line.argv line.ifname
  have hparsed : ∀ str, (parsedValue line.abi .action str).toNat ≤ 4 := fun str => by
    have hle : (findName sipfwActionName 2 str).getD 0 ≤ 2 := by
      unfold findName
      cases hf : (sipfwActionName.take 2).findIdx? fun v => strncmp0 str (v.ptr.getD []) v.len with
      | none => exact Nat.zero_le _
      | some k =>
        have hk := (List.findIdx?_eq_some_iff_getElem.mp hf).1
        exact Nat.le_of_lt hk
    change (BitVec.ofNat 32 _).toNat ≤ 4
    rw [BitVec.toNat_ofNat]
    omega
  change (toolMain line.abi line.argv line.ifname).2.action.vUint.toNat ≤ 4 ∨
    (toolMain line.abi line.argv line.ifname).2.action.vUint = _
  rw [show (toolMain line.abi line.argv line.ifname).2.action.vUint =
    NumField.action.get (toolMain line.abi line.argv line.ifname).2 from rfl, h]
  cases namedArg NumField.action.option (optEvents line.argv) with
  | none => exact .inr rfl
  | some str => exact .inl (hparsed str)

/-- A missing action is the only one without a name. -/
theorem sent_named (line : CommandLine) :
    Named line.request.rule.action ↔ line.request.rule.action ≠ -1#32 := by
  rw [named_iff]
  constructor
  · intro h he
    rw [he] at h
    exact absurd h (by decide)
  · intro h
    exact (sent_action line).resolve_right h

/-- No option selects REPLACE. -/
theorem sent_cmd (line : CommandLine) : line.request.cmd ≠ some .replace := by
  have h := @sent_command line.abi line.argv line.ifname
  intro hr
  change Cmd.ofInt (toolMain line.abi line.argv line.ifname).2.command.vUint = _ at hr
  rw [h] at hr
  cases hn : namedCmd (optEvents line.argv) with
  | none =>
    rw [hn] at hr
    exact absurd hr (by decide)
  | some cmd =>
    rw [hn] at hr
    have hcmd : cmd = .replace := by
      have hc : Cmd.ofInt cmd.code = some .replace := hr
      rw [Cmd.ofInt_code] at hc
      exact Option.some.inj hc
    obtain ⟨ev, _, hev⟩ := lastOf_eq_some hn
    rw [hcmd] at hev
    unfold cmdOf at hev
    split at hev <;> exact nomatch hev

/-- An accepted APPEND has an action. -/
theorem sent_append (h : line.request.cmd = some .append) :
    line.request.rule.action ≠ -1#32 := by
  obtain ⟨chain, hj⟩ := judgeCommand_opts (parseCommand line.abi line.argv (mainOpts line.ifname))
  have hacc := line.accepted
  change (judgeCommand _).1 = 0 at hacc
  change Cmd.ofInt (judgeCommand _).2.command.vUint = _ at h
  change (judgeCommand _).2.action.vUint ≠ _
  rw [hj] at h ⊢
  unfold judgeCommand at hacc
  rw [show Cmd.ofInt (parseCommand line.abi line.argv (mainOpts line.ifname)).command.vUint =
    some .append from h] at hacc
  dsimp only at hacc
  split at hacc
  next => exact nomatch hacc
  next hno =>
    intro he
    refine hno (.inr (.inr ?_))
    unfold SipfwVariant.vInt
    rw [show (parseCommand line.abi line.argv (mainOpts line.ifname)).action.vUint = -1#32 from he]
    decide

/-- What `judgeList` accepts selects chains. -/
theorem judgeList_chains {o : SipfwCmdOpts} (h : (judgeList o).1 = 0) :
    ∃ cs, chainsFrom (judgeList o).2.chain.vUint = .ok cs := by
  have hrange : ¬ ((judgeList o).2.chain.vInt > chainNum.toInt ∨
      (judgeList o).2.chain.vInt < 0) := by
    unfold judgeList at h ⊢
    dsimp only at h ⊢
    generalize (if o.chain.vInt = -1 then { o with chain := .ofUint chainAll } else o) = o' at h ⊢
    by_cases hbad : o'.chain.vInt > chainNum.toInt ∨ o'.chain.vInt < 0
    · rw [if_pos hbad] at h
      exact absurd (show (-1 : Int) = 0 from h) (by decide)
    · rwa [if_neg hbad]
  generalize (judgeList o).2.chain = v at hrange
  unfold SipfwVariant.vInt at hrange
  rw [show chainNum.toInt = 3 by decide] at hrange
  -- the test is made on the signed reading
  have hlt : v.vUint.toNat ≤ 3 := by
    have := v.vUint.isLt
    rw [BitVec.toInt_eq_toNat_cond] at hrange
    split at hrange <;> omega
  have hcases : v.vUint = 0#32 ∨ v.vUint = 1#32 ∨ v.vUint = 2#32 ∨ v.vUint = 3#32 := by
    rcases (by omega : v.vUint.toNat = 0 ∨ v.vUint.toNat = 1 ∨ v.vUint.toNat = 2 ∨
      v.vUint.toNat = 3) with h | h | h | h
    · exact .inl (BitVec.eq_of_toNat_eq h)
    · exact .inr (.inl (BitVec.eq_of_toNat_eq h))
    · exact .inr (.inr (.inl (BitVec.eq_of_toNat_eq h)))
    · exact .inr (.inr (.inr (BitVec.eq_of_toNat_eq h)))
  rcases hcases with h | h | h | h <;> rw [h] <;> exact ⟨_, rfl⟩

/-- An accepted LIST or FLUSH selects chains. -/
theorem sent_chains (line : CommandLine)
    (h : line.request.cmd = some .list ∨ line.request.cmd = some .flush) :
    ∃ cs, chainsFrom line.request.rule.chain = .ok cs := by
  obtain ⟨chain, hj⟩ := judgeCommand_opts (parseCommand line.abi line.argv (mainOpts line.ifname))
  have hcmd : ∀ cmd, line.request.cmd = some cmd →
      Cmd.ofInt (parseCommand line.abi line.argv (mainOpts line.ifname)).command.vUint =
        some cmd := fun cmd hc => by
    change Cmd.ofInt (judgeCommand _).2.command.vUint = _ at hc
    rwa [hj] at hc
  have hjudge : judgeCommand (parseCommand line.abi line.argv (mainOpts line.ifname)) =
      judgeList (parseCommand line.abi line.argv (mainOpts line.ifname)) := by
    unfold judgeCommand
    rcases h with h | h <;> rw [hcmd _ h]
  have hacc : (judgeCommand _).1 = 0 := line.accepted
  change ∃ cs, chainsFrom (judgeCommand _).2.chain.vUint = .ok cs
  rw [hjudge] at hacc ⊢
  exact judgeList_chains hacc

end Sent

/-! ## The index into the tables -/

/-- An editing handler that fails has followed a NULL pointer. -/
theorem editHandler_fault {cmd : Cmd} {rule : SipfwRules} {number : Int}
    {f : SipfwList → Except Fault Handled} {l : SipfwList} {e : Fault}
    (hf : editHandler cmd rule number = some f) (h : f l = .error e) : e = .nullDeref := by
  cases cmd with
  | insert =>
    cases hf
    unfold ruleInsert at h
    split at h
    next => exact nomatch h
    next =>
      split at h
      next => split at h <;> first | cases h; rfl | exact nomatch h
      next =>
        split at h
        next => split at h <;> first | cases h; rfl | exact nomatch h
        next => exact nomatch h
  | delete =>
    cases hf
    unfold ruleDelete at h
    split at h
    next => exact nomatch h
    next => split at h <;> split at h <;> exact nomatch h
  | replace =>
    cases hf
    unfold ruleReplace at h
    split at h
    next => split at h <;> exact nomatch h
    next => split at h <;> exact nomatch h
  | append =>
    cases hf
    rw [ruleAddpend_eq] at h
    exact nomatch h
  | list => exact nomatch hf
  | flush => exact nomatch hf

/-- A handler that works on a chain is outside the tables exactly if the chain
is none of the three. -/
theorem onChain_outOfBounds {pid : BitVec 32} {cmd : Cmd} {req : Request} {t : SipfwTables}
    {f : SipfwList → Except Fault Handled}
    (hf : editHandler cmd req.rule req.number = some f) :
    (onChain pid req.rule.chain t f).map (·.tables) = .error .outOfBounds ↔ req.chain = none := by
  unfold onChain Request.chain
  cases Chain.ofInt req.rule.chain with
  | none => exact iff_of_true rfl rfl
  | some c =>
    refine iff_of_false ?_ nofun
    dsimp only
    cases hh : f (t c) with
    | ok hd => exact nofun
    | error e => rw [editHandler_fault hf hh]; exact nofun

/-- **The index**: an accepted command indexes `sipfw_tables` outside exactly if
it is APPEND, DELETE or INSERT for none of the three chains. -/
theorem stepLine_outOfBounds (t : SipfwTables) (line : CommandLine) :
    stepLine t line ≠ .error .outOfBounds ↔
      (Edits line.request → ∃ c, line.request.chain = some c) := by
  have hedit : ∀ {cmd f}, line.request.cmd = some cmd →
      editHandler cmd line.request.rule line.request.number = some f → Edits line.request →
      (stepLine t line ≠ .error .outOfBounds ↔
        (Edits line.request → ∃ c, line.request.chain = some c)) := fun {cmd f} hc hf he => by
    rw [stepLine, step_edit hc hf, ne_eq, onChain_outOfBounds hf, ← ne_eq,
      Option.ne_none_iff_exists']
    exact ⟨fun h _ => h, fun h => h he⟩
  have hno : ∀ {cmd : Option Cmd}, line.request.cmd = cmd → cmd ≠ some .append →
      cmd ≠ some .delete → cmd ≠ some .insert → ¬ Edits line.request := by
    intro cmd hc h1 h2 h3 h
    rcases h with h | h | h
    · exact h1 (hc.symm.trans h)
    · exact h2 (hc.symm.trans h)
    · exact h3 (hc.symm.trans h)
  cases hc : line.request.cmd with
  | none =>
    refine iff_of_true ?_ fun h => absurd h (hno hc (by decide) (by decide) (by decide))
    rw [stepLine, step_none hc]
    intro h
    cases h
  | some cmd =>
    cases cmd with
    | insert => exact hedit hc rfl (.inr (.inr hc))
    | delete => exact hedit hc rfl (.inr (.inl hc))
    | append => exact hedit hc rfl (.inl hc)
    | replace => exact absurd hc (sent_cmd line)
    | list =>
      -- the tool has tested the chain of these two
      obtain ⟨cs, hcs⟩ := sent_chains line (.inl hc)
      refine iff_of_true ?_ fun h => absurd h (hno hc (by decide) (by decide) (by decide))
      rw [stepLine, step_list hc, hcs]
      intro h
      cases h
    | flush =>
      obtain ⟨cs, hcs⟩ := sent_chains line (.inr hc)
      refine iff_of_true ?_ fun h => absurd h (hno hc (by decide) (by decide) (by decide))
      rw [stepLine, step_flush hc, hcs]
      intro h
      cases h

/-! ## The actions of the linked rules -/

/-- INSERT at a position that links gets through. -/
theorem ruleInsert_ok (rule : SipfwRules) {number : Int} {l : SipfwList} (h : Links l number) :
    ∃ hd, ruleInsert rule number l = .ok hd := by
  have hbehind : l.rule ≠ [] → ∃ prev passed, (walk (fun _ _ => true) 1 [] l.rule).1 =
      prev :: passed := fun hne => by
    rw [walk_true, List.append_nil]
    exact List.exists_cons_of_ne_nil (mt List.reverse_eq_nil_iff.mp hne)
  unfold ruleInsert
  by_cases h1 : number = 1
  · rw [if_pos h1]
    exact ⟨_, rfl⟩
  · rw [if_neg h1]
    have hne : l.rule ≠ [] := by
      rcases h with h | h | h
      · exact absurd h h1
      · exact h.1
      · intro hnil
        rw [hnil, List.length_nil] at h
        omega
    -- past the end the new rule is linked behind the last one, so there has to be one
    by_cases h2 : number > l.number
    · rw [if_pos h2]
      obtain ⟨prev, passed, hw⟩ := hbehind hne
      split
      next hw' => rw [hw'] at hw; exact nomatch hw
      next => exact ⟨_, rfl⟩
    · rw [if_neg h2]
      have h3 : 2 ≤ number ∧ number ≤ l.rule.length := by
        rcases h with h | h | h
        · exact absurd h h1
        · exact absurd h.2 h2
        · exact h
      -- inside the list the walk stops with a predecessor
      obtain ⟨passed, cur, next, hl, hp, hw⟩ :=
        walk_lt_spec number l.rule 1 [] (by omega) (by omega)
      rw [if_pos (by omega : number ≠ -1), hw, List.append_nil]
      cases hrev : passed.reverse with
      | nil =>
        rw [List.reverse_eq_nil_iff.mp hrev, List.length_nil] at hp
        omega
      | cons prev rest => exact ⟨_, rfl⟩

/-- The rules of a list after INSERT: with the new one exactly if it links. -/
theorem ruleInsert_named {rule : SipfwRules} {number : Int} {l : SipfwList} {hd : Handled}
    (hl : ∀ r ∈ l.rule, Named r.action) (hh : ruleInsert rule number l = .ok hd) :
    (∀ r ∈ hd.list.rule, Named r.action) ↔ (Links l number → Named rule.action) := by
  obtain ⟨_, ⟨h1, hr⟩ | ⟨_, h2, h3, hr⟩ | ⟨h1, h2, ⟨hm, hr⟩ | ⟨h3, h4, hr⟩⟩⟩ := ruleInsert_cases hh
  · rw [hr, List.forall_mem_cons]
    exact ⟨fun h _ => h.1, fun h => ⟨h (.inl h1), hl⟩⟩
  · rw [hr, List.forall_mem_append, List.forall_mem_singleton]
    exact ⟨fun h _ => h.2, fun h => ⟨hl, h (.inr (.inl ⟨h3, h2⟩))⟩⟩
  · rw [hr]
    refine ⟨fun _ h => ?_, fun _ => hl⟩
    rcases h with h | h | h <;> omega
  · obtain ⟨prev, cur, next, hsplit, hr⟩ := hr
    rw [hsplit, List.forall_mem_append, List.forall_mem_cons] at hl
    rw [hr, List.forall_mem_append, List.forall_mem_cons]
    exact ⟨fun h _ => h.2.1, fun h => ⟨hl.1, h (.inr (.inr ⟨h3, h4⟩)), hl.2.2⟩⟩

/-- DELETE only takes rules away. -/
theorem ruleDelete_named {rule : SipfwRules} {number : Int} {l : SipfwList} {hd : Handled}
    (hl : ∀ r ∈ l.rule, Named r.action) (hh : ruleDelete rule number l = .ok hd) :
    ∀ r ∈ hd.list.rule, Named r.action := by
  rcases ruleDelete_cases hh with h | ⟨⟨prev, cur, next, hsplit, hr⟩, _⟩
  · rw [h]
    exact hl
  · rw [hsplit, List.forall_mem_append, List.forall_mem_cons] at hl
    rw [hr, List.forall_mem_append]
    exact ⟨hl.1, hl.2.2⟩

/-- After an edit of one chain only its own rules are in question. -/
theorem named_set {t : SipfwTables} (ht : AllNamed t) (c : Chain) (l : SipfwList) :
    AllNamed (t.set c l) ↔ ∀ r ∈ l.rule, Named r.action := by
  constructor
  · intro h r hr
    exact h c r (by rwa [SipfwTables.set_same])
  · intro h c' r hr
    by_cases hc : c' = c
    · subst hc
      rw [SipfwTables.set_same] at hr
      exact h r hr
    · rw [SipfwTables.set_other t hc] at hr
      exact ht c' r hr

/-- **One step**: the rules keep named actions exactly if the command is not an
INSERT without an action that links its rule. -/
theorem stepLine_named {t t' : SipfwTables} {line : CommandLine} (ht : AllNamed t)
    (h : stepLine t line = .ok t') : AllNamed t' ↔ ¬ LinksUnnamed t line.request := by
  have hother : ∀ {c}, line.request.cmd = some c → c ≠ .insert → ¬ LinksUnnamed t line.request :=
    fun hc hne hu => hne (Option.some.inj (hc.symm.trans hu.1))
  rcases step_cases h with ⟨cmd, f, c, hd, hcmd, hf, hch, hh, rfl⟩ | ⟨hcmd, hfl⟩ | ⟨hcmd, rfl⟩
  · rw [named_set ht]
    cases cmd with
    | insert =>
      cases hf
      rw [ruleInsert_named (ht c) hh, sent_named]
      constructor
      · intro hn h
        obtain ⟨_, hact, c', hch', hlinks⟩ := h
        rw [hch, Option.some.injEq] at hch'
        subst hch'
        exact hn hlinks hact
      · intro hno hlinks hact
        exact hno ⟨hcmd, hact, c, hch, hlinks⟩
    | delete =>
      cases hf
      exact iff_of_true (ruleDelete_named (ht c) hh) (hother hcmd nofun)
    | replace => exact absurd hcmd (sent_cmd line)
    | append =>
      cases hf
      refine iff_of_true ?_ (hother hcmd nofun)
      rw [ruleAddpend_eq] at hh
      cases hh
      rw [List.forall_mem_append, List.forall_mem_singleton]
      exact ⟨ht c, (sent_named line).mpr (sent_append hcmd)⟩
    | list => exact nomatch hf
    | flush => exact nomatch hf
  · refine iff_of_true (fun c r hr => ?_) (hother hcmd nofun)
    rcases hfl c with h0 | h1
    · rw [h0] at hr
      exact nomatch hr
    · rw [h1] at hr
      exact ht c r hr
  · refine iff_of_true ht ?_
    intro h
    obtain ⟨hi, _⟩ := h
    rcases hcmd with hcmd | hcmd <;> rw [hcmd] at hi <;> exact nomatch hi

/-- An INSERT that links its rule does not fault. -/
theorem fault_not_linksUnnamed {t : SipfwTables} {line : CommandLine} {e : Fault}
    (h : stepLine t line = .error e) : ¬ LinksUnnamed t line.request := by
  intro h
  obtain ⟨hcmd, _, c, hch, hlinks⟩ := h
  obtain ⟨hd, hh⟩ := ruleInsert_ok line.request.rule hlinks
  rw [stepLine, step_edit hcmd rfl, onChain_ok (Chain.ofInt_eq_some.mp hch) hh] at h
  cases h

/-- `sipfw -A FOO -j DROP`: a chain the tool does not know. -/
def appendFoo : CommandLine where
  abi := .lp64
  argv := ["-A".toList, "FOO".toList, "-j".toList, "DROP".toList]
  ifname := ⟨[], 0⟩
  mem := ⟨7, 0, 0, 0, 0, 0, 0, 0, 0⟩
  pid := 0#32
  accepted := by decide

/-- `sipfw -I INPUT -u 256 -p icmp`: position 1, as `SIPFW_ParseOpt` reads it, and
no action. -/
def insertNoAction : CommandLine where
  abi := .lp64
  argv := ["-I".toList, "INPUT".toList, "-u".toList, "256".toList, "-p".toList, "icmp".toList]
  ifname := ⟨[], 0⟩
  mem := ⟨7, 0, 0, 0, 0, 0, 0, 0, 0⟩
  pid := 0#32
  accepted := by decide

end LinuxNet.Sipfw
