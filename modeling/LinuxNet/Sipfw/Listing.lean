import LinuxNet.Sipfw.Bounds
import LinuxNet.Sipfw.Counts
import LinuxNet.Sipfw.Positions

/-!
# A LIST session

`sipfw -L` from the command line to what is on the screen. The tool sends its command,
takes the first message that comes back for a count, and prints that many rules, a heading
in front of every change of chain (`recvRuleList`). The kernel sends the sum of the
hand-kept counters, and then every rule there is.

So the two agree only as far as the counters do: with a sum that is too small the listing
is cut off, with one that is too large the tool waits for a message that never comes
(`list_session`). A tool with pointers of eight bytes does not get that far: the command
it sends does not fit into its message.

How `printf` prints a `struct vec` it is passed by value is up to the calling convention;
it comes in as `vecText`. A `recvfrom` that fails is an arrival without a message. The traces
of `DBGPRINT` are left out of what is printed.
-/

namespace LinuxNet.Sipfw

/-! ## What the tool prints -/

def sipfwCommandName : List Vec :=
  [⟨some "INSERT".toList, 6, 0⟩, ⟨some "DELETE".toList, 6, 0⟩, ⟨some "APPEND".toList, 6, 0⟩,
   ⟨some "LIST".toList, 4, 0⟩, ⟨some "FLUSH".toList, 5, 0⟩, ⟨none, 0, 0⟩]

/-- `union response`: whatever a message carries can be read as a rule and as a count. -/
structure ResponseUnion where
  asRule : Payload → SipfwRules
  asCount : Payload → BitVec 32
  rule : ∀ r, asRule (.rule r) = r
  count : ∀ n, asCount (.count n) = n

section Printing

variable (vecText : Vec → CStr)

/-- `SIPFW_DisplayOpts`, for a command in the table of names. -/
def displayOpts (o : SipfwCmdOpts) : CStr :=
  "command:".toList ++ ((sipfwCommandName[o.command.vUint.toNat]?).map vecText).getD [] ++
    "\nsource IP:".toList ++ dotted o.source.vUint ++ "\nDest IP:".toList ++ dotted o.dest.vUint ++
    "\nsport : ".toList ++ Nat.toDigits 10 o.sport.vUint.toNat ++
    "\ndport: ".toList ++ Nat.toDigits 10 o.dport.vUint.toNat ++
    "\nproto: ".toList ++ Nat.toDigits 10 o.protocol.vUint.toNat ++
    "\nifname:".toList ++ o.ifname.vStr ++ "\n".toList

/-- The heading of a chain, by its entry in the table of names. -/
def headingText (v : Vec) : CStr :=
  "CHAIN ".toList ++ vecText v ++ " Rules\nACTION\tSOURCE\tSPORT\tDEST\t\tDPORT\tPROTO\n".toList

/-- The heading of a chain, by its number. -/
def chainHeading (chain : BitVec 8) : Except Fault CStr :=
  match sipfwChainName[chain.toNat]? with
  | some v => .ok (headingText vecText v)
  | none => .error .outOfBounds

/-- `if (action > -1 && action < 3)`: the name of an action, or `NOTSET`. -/
def actionText (action : BitVec 32) : CStr :=
  if action.toInt > -1 ∧ action.toInt < 3 then
    ((sipfwActionName[action.toNat]?).map vecText).getD []
  else "NOTSET".toList

/-- The line of a rule. -/
def ruleText (r : SipfwRules) : CStr :=
  actionText vecText r.action ++ '\t' :: dotted r.source ++
    '\t' :: Nat.toDigits 10 (ntohs r.sport).toNat ++ '\t' :: dotted r.dest ++
    '\t' :: Nat.toDigits 10 (ntohs r.dport).toNat ++
    '\t' :: Nat.toDigits 10 r.protocol.toNat ++ ['\n']

/-- The loop of `SIPFW_NLRecvRuleList` with as many turns left and this `chain_org`: what it
prints of what arrives, and whether it ends. -/
def recvRuleList (u : ResponseUnion) :
    Nat → BitVec 8 → List (Option UserMsg) → Except Fault (CStr × Bool)
  | 0, _, _ => .ok ([], true)
  | _ + 1, _, [] => .ok ([], false)
  | left + 1, org, none :: arrivals => recvRuleList u left org arrivals
  | left + 1, org, some m :: arrivals => do
    let rules := u.asRule m.payload
    let chain := rules.chain.setWidth 8
    let heading ← if chain ≠ org then chainHeading vecText chain else .ok []
    let rest ← recvRuleList u left chain arrivals
    return (heading ++ ruleText vecText rules ++ rest.1, rest.2)

/-- What has been printed, and the value `main` returns; it has none while it waits. -/
structure Session where
  out : CStr
  exit : Option Int
  deriving DecidableEq, Repr

/-- `main` behind `SIPFW_JudgeCommand`, with what arrives on the socket. -/
def mainSession (u : ResponseUnion) (o : SipfwCmdOpts) :
    List (Option UserMsg) → Except Fault Session
  | [] => .ok ⟨displayOpts vecText o, none⟩
  | none :: _ => .ok ⟨displayOpts vecText o, some (-1)⟩
  | some m :: arrivals =>
    if o.command.vUint = Cmd.list.code then do
      let shown ← recvRuleList vecText u (u.asCount m.payload).toNat (chainNum.setWidth 8) arrivals
      return ⟨displayOpts vecText o ++ shown.1, if shown.2 = true then some 0 else none⟩
    else .ok ⟨displayOpts vecText o, some 0⟩

end Printing

/-! ## The two together -/

/-- The message of a command line, with the cell it is handled with. -/
def CommandLine.message (line : CommandLine) : Queued :=
  ⟨packetU line.abi (toolMain line.abi line.argv line.ifname).2 line.pid MsgType.pid.code, line.mem⟩

/-- The tool sends its command, and the kernel handles it. -/
def sendLine (t : SipfwTables) (line : CommandLine) : Except Fault SipfwTables := do
  let skb ← nlSend line.abi (toolMain line.abi line.argv line.ifname).2 line.pid MsgType.pid.code
  stepMsg line.abi t ⟨skb, line.mem⟩

/-- The tool sends its command, the kernel answers, and every answer to the tool arrives. -/
def listSession (vecText : Vec → CStr) (u : ResponseUnion) (t : SipfwTables)
    (line : CommandLine) : Except Fault Session := do
  let skb ← nlSend line.abi (toolMain line.abi line.argv line.ifname).2 line.pid MsgType.pid.code
  let out ← (nlDoAction line.abi t ⟨skb, line.mem⟩).val
  mainSession vecText u (toolMain line.abi line.argv line.ifname).2
    ((out.sent.filter fun m => m.pid = line.pid).map some)

/-! ## The listing -/

/-- The entry of a chain in the table of names. -/
def Chain.vec (c : Chain) : Vec := ⟨some c.name, c.name.length, 0⟩

/-- A chain on the screen: its heading and its rules, if it has any. -/
def chainListing (vecText : Vec → CStr) (c : Chain) : List SipfwRules → CStr
  | [] => []
  | r :: rs => headingText vecText c.vec ++ (r :: rs).flatMap (ruleText vecText)

/-- The chains on the screen, as far as so many rules go. -/
def listing (vecText : Vec → CStr) (t : SipfwTables) : Nat → List Chain → CStr
  | _, [] => []
  | n, c :: cs =>
    chainListing vecText c ((t c).rule.take n) ++ listing vecText t (n - (t c).rule.length) cs

/-- Every rule is in the chain it was made for. -/
def InPlace (t : SipfwTables) : Prop := ∀ c, ∀ r ∈ (t c).rule, r.chain = c.code

/-! ## The message -/

section Message

variable {line : CommandLine} {t t' : SipfwTables}

/-- A command is what its members say that the kernel reads. -/
theorem doAction_congr {o o' : SipfwCmdOpts} (h : ∀ f : OptField, f.get o = f.get o')
    (mem : SipfwRules) (pid : BitVec 32) (t : SipfwTables) :
    doAction mem pid o t = doAction mem pid o' t := by
  have hrule : buildRule mem o = buildRule mem o' := by
    unfold buildRule
    rw [show o.chain.vUint = o'.chain.vUint from h .chain,
      show o.source.vUint = o'.source.vUint from h .source,
      show o.sport.vUint = o'.sport.vUint from h .sport,
      show o.dport.vUint = o'.dport.vUint from h .dport,
      show o.protocol.vUint = o'.protocol.vUint from h .protocol,
      show o.action.vUint = o'.action.vUint from h .action,
      show o.addtion = o'.addtion from h .addtion]
  have hnumber : o.number.vInt = o'.number.vInt := congrArg BitVec.toInt (h .number)
  unfold doAction
  rw [hrule, hnumber, show o.command.vUint = o'.command.vUint from h .command]

/-- The kernel reads the members the tool has sent. -/
theorem message_opts (line : CommandLine) (f : OptField) :
    f.get (nlOpts line.abi line.message.skb).val =
      f.get (toolMain line.abi line.argv line.ifname).2 := by
  have hread := readOpt_packetU line.abi (toolMain line.abi line.argv line.ifname).2 line.pid
    MsgType.pid.code f
  rw [← hread]
  cases f <;> rfl

/-- The header has the sender behind it. -/
theorem packetU_pid (abi : Abi) (o : SipfwCmdOpts) (pid : BitVec 32) (type : BitVec 16) :
    (packetU abi o pid type).data.u32 12 = pid := by
  rw [packetU, Mem.u32_writeWords_apart (OptField.header_le_offset abi), nlmsghdr,
    Mem.u32_write_self]

/-- **The command arrives as it was meant**, and its answers go back to the tool. -/
theorem message_outcome {cmd : Cmd} (hcmd : line.request.cmd = some cmd) (t : SipfwTables) :
    (nlDoAction line.abi t line.message).val =
      doAction line.mem line.pid (toolMain line.abi line.argv line.ifname).2 t := by
  have hcommand : (nlOpts line.abi line.message.skb).val.command.vUint =
      (toolMain line.abi line.argv line.ifname).2.command.vUint := message_opts line .command
  have hpid : (nlTo line.message.skb (nlOpts line.abi line.message.skb).val).val = line.pid := by
    have hknown : Cmd.ofInt (toolMain line.abi line.argv line.ifname).2.command.vUint = some cmd :=
      hcmd
    unfold nlTo
    rw [hcommand, hknown]
    exact packetU_pid ..
  show doAction line.mem (nlTo line.message.skb (nlOpts line.abi line.message.skb).val).val
    (nlOpts line.abi line.message.skb).val t = _
  rw [hpid, doAction_congr (message_opts line)]

/-- There is room for the structure where a word has four bytes. -/
theorem nlSend_message (line : CommandLine) :
    nlSend line.abi (toolMain line.abi line.argv line.ifname).2 line.pid MsgType.pid.code =
      if line.abi = .ilp32 then .ok line.message.skb else .error .outOfBounds := by
  unfold nlSend CommandLine.message
  cases line.abi <;> rfl

/-- **A command that is sent** is the command of the line. -/
theorem sendLine_ok (h : sendLine t line = .ok t') : stepLine t line = .ok t' := by
  obtain ⟨skb, hskb, h⟩ := bind_eq_ok.mp h
  rw [nlSend_message] at hskb
  split at hskb
  next =>
    cases hskb
    have hstep : stepMsg line.abi t line.message = .ok t' := h
    rw [stepMsg_dispatched (dispatched_packetU ..)] at hstep
    have hcommand : (line.message.request line.abi).cmd = line.request.cmd :=
      congrArg Cmd.ofInt (message_opts line .command)
    cases hcmd : line.request.cmd with
    | none =>
      rw [step_none (hcommand.trans hcmd)] at hstep
      rw [stepLine, step_none hcmd, hstep]
    | some cmd =>
      have hout : (nlDoAction line.abi t line.message).val.map (·.tables) = .ok t' := hstep
      rw [message_outcome hcmd] at hout
      exact hout
  next => cases hskb

end Message

/-! ## The loop -/

section Loop

variable {vecText : Vec → CStr} {u : ResponseUnion} {t : SipfwTables} {pid : BitVec 32}

/-- The number of a chain as the tool keeps it, in a byte. -/
def Chain.byte (c : Chain) : BitVec 8 := c.code.setWidth 8

theorem Chain.byte_inj {c c' : Chain} (h : c.byte = c'.byte) : c = c' := by
  revert h
  cases c <;> cases c' <;> decide

/-- A rule as it arrives. -/
def ruleArrives (pid : BitVec 32) (r : SipfwRules) : Option UserMsg := some ⟨pid, .rule, .rule r⟩

theorem chainHeading_byte (c : Chain) :
    chainHeading vecText c.byte = .ok (headingText vecText c.vec) := by
  cases c <;> rfl

/-- One more rule. -/
theorem recvRuleList_rule (left : Nat) (org : BitVec 8) {c : Chain} {r : SipfwRules}
    (hr : r.chain = c.code) (arrivals : List (Option UserMsg)) :
    recvRuleList vecText u (left + 1) org (ruleArrives pid r :: arrivals) =
      (recvRuleList vecText u left c.byte arrivals).map fun rest =>
        ((if c.byte ≠ org then headingText vecText c.vec else []) ++ ruleText vecText r ++ rest.1,
          rest.2) := by
  rw [ruleArrives, recvRuleList]
  dsimp only
  rw [u.rule, hr, show c.code.setWidth 8 = c.byte from rfl, chainHeading_byte]
  by_cases hc : c.byte = org
  · rw [if_neg (not_not.mpr hc), if_neg (not_not.mpr hc)]
    cases recvRuleList vecText u left c.byte arrivals <;> rfl
  · rw [if_pos hc, if_pos hc]
    cases recvRuleList vecText u left c.byte arrivals <;> rfl

/-- The rules of a chain whose heading has been printed. -/
theorem recvRuleList_chain {c : Chain} (arrivals : List (Option UserMsg)) (rs : List SipfwRules) :
    ∀ left, (∀ r ∈ rs, r.chain = c.code) →
      recvRuleList vecText u left c.byte (rs.map (ruleArrives pid) ++ arrivals) =
        if left ≤ rs.length then .ok ((rs.take left).flatMap (ruleText vecText), true)
        else (recvRuleList vecText u (left - rs.length) c.byte arrivals).map fun rest =>
          (rs.flatMap (ruleText vecText) ++ rest.1, rest.2) := by
  induction rs with
  | nil =>
    intro left _
    cases left with
    | zero => rfl
    | succ left =>
      rw [if_neg (by simp)]
      show recvRuleList vecText u (left + 1) c.byte arrivals = _
      cases recvRuleList vecText u (left + 1) c.byte arrivals <;> rfl
  | cons r rs ih =>
    intro left hrs
    cases left with
    | zero => rfl
    | succ left =>
      have hrest := ih left fun x hx => hrs x (List.mem_cons_of_mem r hx)
      rw [List.map_cons, List.cons_append, recvRuleList_rule left c.byte (hrs r List.mem_cons_self),
        hrest, if_neg (not_not.mpr rfl), List.nil_append, List.length_cons]
      by_cases hle : left ≤ rs.length
      · rw [if_pos hle, if_pos (Nat.succ_le_succ hle), List.take_succ_cons, List.flatMap_cons]
        rfl
      · rw [if_neg hle, if_neg fun h => hle (Nat.le_of_succ_le_succ h), Nat.add_sub_add_right,
          List.flatMap_cons]
        cases recvRuleList vecText u (left - rs.length) c.byte arrivals with
        | error e => rfl
        | ok rest => simp only [Except.map, List.append_assoc]

@[simp] theorem listing_zero (cs : List Chain) : listing vecText t 0 cs = [] := by
  induction cs with
  | nil => rfl
  | cons c cs ih => rw [listing, List.take_zero, Nat.zero_sub, ih]; rfl

/-- **The loop** over the rules of some chains: each chain gets its heading, and the listing goes as
far as the count. -/
theorem recvRuleList_chains (ht : InPlace t) (cs : List Chain) : ∀ (left : Nat) (org : BitVec 8),
    cs.Nodup → (∀ c ∈ cs, c.byte ≠ org) →
      recvRuleList vecText u left org ((cs.flatMap fun c => (t c).rule).map (ruleArrives pid)) =
        .ok (listing vecText t left cs, decide (left ≤ (cs.flatMap fun c => (t c).rule).length)) := by
  induction cs with
  | nil =>
    intro left org _ _
    cases left <;> rfl
  | cons c cs ih =>
    intro left org hnodup horg
    obtain ⟨hc, hnodup⟩ := List.nodup_cons.mp hnodup
    have hplace := ht c
    rw [List.flatMap_cons, List.map_append, List.length_append, listing]
    cases hrule : (t c).rule with
    | nil =>
      -- nothing is printed for an empty chain
      rw [List.take_nil, List.length_nil, Nat.zero_add, Nat.sub_zero]
      exact ih left org hnodup fun c' hc' => horg c' (List.mem_cons_of_mem c hc')
    | cons r rs =>
      rw [hrule] at hplace
      cases left with
      | zero =>
        rw [List.take_zero, Nat.zero_sub, listing_zero]
        rfl
      | succ left =>
        have hrest := ih (left - rs.length) c.byte hnodup fun c' hc' he =>
          hc (Chain.byte_inj he ▸ hc')
        rw [List.map_cons, List.cons_append,
          recvRuleList_rule left org (hplace r List.mem_cons_self),
          if_pos (horg c List.mem_cons_self),
          recvRuleList_chain _ rs left fun x hx => hplace x (List.mem_cons_of_mem r hx), hrest,
          List.take_succ_cons, chainListing, List.length_cons]
        by_cases hle : left ≤ rs.length
        · rw [if_pos hle, Nat.add_sub_add_right, Nat.sub_eq_zero_of_le hle, listing_zero,
            decide_eq_true (by omega)]
          simp only [Except.map, List.flatMap_cons, List.append_assoc, List.append_nil]
        · rw [if_neg hle, Nat.add_sub_add_right, List.take_of_length_le (by omega)]
          have hends : decide (left - rs.length ≤ (cs.flatMap fun c => (t c).rule).length) =
              decide (left + 1 ≤ rs.length + 1 + (cs.flatMap fun c => (t c).rule).length) :=
            decide_eq_decide.mpr (by omega)
          simp only [Except.map, hends, List.flatMap_cons, List.append_assoc]

end Loop

/-! ## The session -/

section Session

variable {vecText : Vec → CStr} {u : ResponseUnion} {t t' : SipfwTables} {line : CommandLine}

/-- The rules of the chains a LIST is about. -/
def listedRules (t : SipfwTables) (cs : List Chain) : List SipfwRules :=
  cs.flatMap fun c => (t c).rule

/-- What the counters of these chains add up to, as it is announced. -/
def announcedCount (t : SipfwTables) (cs : List Chain) : Nat :=
  (BitVec.ofInt 32 (cs.map fun c => (t c).number).sum).toNat

/-- The chains of a LIST are three or one. -/
theorem chainsFrom_nodup {chain : BitVec 32} {cs : List Chain} (h : chainsFrom chain = .ok cs) :
    cs.Nodup := by
  unfold chainsFrom at h
  split at h
  next => cases h; decide
  next =>
    split at h
    next c _ => cases h; exact List.nodup_singleton c
    next => cases h

/-- **A session on a table**: the tool shows the rules as far as the counters go, and ends if
there are as many. -/
theorem listSession_eq (habi : line.abi = .ilp32) (ht : InPlace t)
    (hcmd : line.request.cmd = some .list) {cs : List Chain}
    (hcs : chainsFrom line.request.rule.chain = .ok cs) :
    listSession vecText u t line =
      .ok ⟨displayOpts vecText (toolMain line.abi line.argv line.ifname).2 ++
          listing vecText t (announcedCount t cs) cs,
        if announcedCount t cs ≤ (listedRules t cs).length then some 0 else none⟩ := by
  have hout : (nlDoAction line.abi t line.message).val =
      .ok ⟨t, [line.request.rule.cell],
        ⟨line.pid, .rule, .count (BitVec.ofInt 32 (cs.map fun c => (t c).number).sum)⟩ ::
          (cs.flatMap fun c => (t c).rule).map fun r => ⟨line.pid, .rule, .rule r⟩⟩ := by
    rw [message_outcome hcmd]
    have hlist := doAction_list hcmd t
    rw [ruleList, hcs] at hlist
    exact hlist
  have hall : ∀ (n : BitVec 32) (rs : List SipfwRules),
      (((⟨line.pid, .rule, .count n⟩ : UserMsg) ::
        rs.map fun r => ⟨line.pid, .rule, .rule r⟩).filter fun m => m.pid = line.pid).map some =
          some ⟨line.pid, .rule, .count n⟩ :: rs.map (ruleArrives line.pid) := by
    intro n rs
    rw [List.filter_eq_self.mpr, List.map_cons, List.map_map]
    · rfl
    · intro m hm
      rcases List.mem_cons.mp hm with rfl | hm
      · exact decide_eq_true rfl
      · obtain ⟨r, -, rfl⟩ := List.mem_map.mp hm
        exact decide_eq_true rfl
  have hlist : (toolMain line.abi line.argv line.ifname).2.command.vUint = Cmd.list.code := by
    have hc : Cmd.ofInt (toolMain line.abi line.argv line.ifname).2.command.vUint = some .list :=
      hcmd
    revert hc
    unfold Cmd.ofInt
    repeat' split
    all_goals intro hc; cases hc
    next h => exact h
  have hloop := @recvRuleList_chains vecText u t line.pid ht cs (announcedCount t cs)
    (chainNum.setWidth 8) (chainsFrom_nodup hcs) fun c _ => by cases c <;> decide
  unfold listSession
  rw [nlSend_message, if_pos habi]
  show ((nlDoAction line.abi t line.message).val >>= _) = _
  rw [hout]
  show mainSession vecText u _ _ = _
  dsimp only
  rw [hall, mainSession, if_pos hlist]
  dsimp only
  rw [u.count]
  show (recvRuleList vecText u (announcedCount t cs) (chainNum.setWidth 8) _ >>= _) = _
  rw [hloop]
  show Except.ok (Session.mk _ (if decide (announcedCount t cs ≤ (listedRules t cs).length) = true
    then some 0 else none)) = _
  by_cases hle : announcedCount t cs ≤ (listedRules t cs).length
  · rw [if_pos hle, decide_eq_true hle, if_pos rfl]
  · rw [if_neg hle, decide_eq_false hle, if_neg Bool.false_ne_true]

/-! ## Rules in their place -/

/-- What an editing command leaves in its chain was there before, or is the new rule. -/
theorem edit_mem {cmd : Cmd} {rule r : SipfwRules} {number : Int}
    {f : SipfwList → Except Fault Handled} {l : SipfwList} {hd : Handled}
    (hf : editHandler cmd rule number = some f) (hh : f l = .ok hd) (hr : r ∈ hd.list.rule) :
    r ∈ l.rule ∨ r = rule := by
  have hunlinked : ∀ {l l' : List SipfwRules}, Unlinked l l' → r ∈ l' → r ∈ l := by
    intro l l' h hr
    obtain ⟨prev, cur, next, rfl, rfl⟩ := h
    exact (List.mem_append.mp hr).elim (List.mem_append_left _) fun h =>
      List.mem_append_right _ (List.mem_cons_of_mem cur h)
  have hreplaced : ∀ {l l' : List SipfwRules}, Replaced rule l l' → r ∈ l' → r ∈ l ∨ r = rule := by
    intro l l' h hr
    obtain ⟨prev, cur, next, rfl, rfl⟩ := h
    rcases List.mem_append.mp hr with h | h
    · exact .inl (List.mem_append_left _ h)
    · rcases List.mem_cons.mp h with rfl | h
      · exact .inr rfl
      · exact .inl (List.mem_append_right _ (List.mem_cons_of_mem cur h))
  cases cmd with
  | insert =>
    cases hf
    obtain ⟨-, ⟨-, h⟩ | ⟨-, -, -, h⟩ | ⟨-, -, ⟨-, h⟩ | ⟨-, -, h⟩⟩⟩ := ruleInsert_cases hh
    · rw [h] at hr
      exact (List.mem_cons.mp hr).symm
    · rw [h] at hr
      exact (List.mem_append.mp hr).imp_right List.mem_singleton.mp
    · exact .inl (h ▸ hr)
    · exact hreplaced h hr
  | delete =>
    cases hf
    rcases ruleDelete_cases hh with h | ⟨h, -⟩
    · exact .inl (h ▸ hr)
    · exact .inl (hunlinked h hr)
  | replace =>
    cases hf
    rcases ruleReplace_cases hh with h | ⟨h, -⟩
    · exact .inl (h ▸ hr)
    · exact hreplaced h hr
  | append =>
    cases hf
    rw [ruleAddpend_eq] at hh
    cases hh
    exact (List.mem_append.mp hr).imp_right List.mem_singleton.mp
  | list => cases hf
  | flush => cases hf

/-- A command puts its rule into the chain it names. -/
theorem step_inPlace {req : Request} (ht : InPlace t) (h : step t req = .ok t') : InPlace t' := by
  intro c r hr
  rcases step_cases h with ⟨cmd, f, c', hd, -, hf, hch, hh, rfl⟩ | ⟨-, hfl⟩ | ⟨-, rfl⟩
  · by_cases hc : c = c'
    · subst hc
      rw [SipfwTables.set_same] at hr
      rcases edit_mem hf hh hr with hr | rfl
      · exact ht c r hr
      · exact Chain.ofInt_eq_some.mp hch
    · rw [SipfwTables.set_other t hc] at hr
      exact ht c r hr
  · rcases hfl c with h0 | h1
    · rw [h0] at hr
      cases hr
    · rw [h1] at hr
      exact ht c r hr
  · exact ht c r hr

/-! ## After any run -/

/-- All there is to show: the chains, each as a whole. -/
def wholeListing (vecText : Vec → CStr) (t : SipfwTables) (cs : List Chain) : CStr :=
  cs.flatMap fun c => chainListing vecText c (t c).rule

theorem listing_whole (cs : List Chain) : ∀ n, (listedRules t cs).length ≤ n →
    listing vecText t n cs = wholeListing vecText t cs := by
  induction cs with
  | nil =>
    intro n _
    rfl
  | cons c cs ih =>
    intro n hn
    rw [listedRules, List.flatMap_cons, List.length_append] at hn
    rw [listing, wholeListing, List.flatMap_cons, List.take_of_length_le (by omega),
      ih (n - (t c).rule.length) (by rw [listedRules]; omega)]
    rfl

/-- Where the counters are right, so is what is announced. -/
theorem announced_counted (hc : Counted t) (hlt : total t < 4294967296) {chain : BitVec 32}
    {cs : List Chain} (hcs : chainsFrom chain = .ok cs) :
    announcedCount t cs = (listedRules t cs).length := by
  obtain ⟨hsum, hle⟩ := chains_total hc hcs
  rw [announcedCount, hsum, BitVec.toNat_ofInt, listedRules]
  omega

/-- **A LIST session after any run** of accepted commands that are sent: where a word has four
bytes, the tool shows the rules of its chains as far as the counters go, and ends exactly if there
are that many; if no command of the run left its rule uncounted it shows all of them and ends. Where
a word has eight bytes the tool writes past the end of its message. -/
theorem list_session {lines : List CommandLine} (hrun : run sendLine .empty lines = .ok t)
    (hcmd : line.request.cmd = some .list) :
    (line.abi = .lp64 → listSession vecText u t line = .error .outOfBounds) ∧
    (line.abi = .ilp32 → ∃ cs, chainsFrom line.request.rule.chain = .ok cs ∧
      listSession vecText u t line =
        .ok ⟨displayOpts vecText (toolMain line.abi line.argv line.ifname).2 ++
            listing vecText t (announcedCount t cs) cs,
          if announcedCount t cs ≤ (listedRules t cs).length then some 0 else none⟩ ∧
      (Along sendLine (fun t line => ¬ Uncounted t line.request) .empty lines →
        listSession vecText u t line =
          .ok ⟨displayOpts vecText (toolMain line.abi line.argv line.ifname).2 ++
            wholeListing vecText t cs, some 0⟩)) := by
  refine ⟨fun habi => ?_, fun habi => ?_⟩
  · have hwide : ¬ line.abi = .ilp32 := fun h => by cases h.symm.trans habi
    unfold listSession
    rw [nlSend_message, if_neg hwide]
    rfl
  obtain ⟨cs, hcs⟩ := sent_chains line (.inl hcmd)
  have hplace : InPlace t := by
    have hall : Along sendLine (fun _ _ => True) .empty lines :=
      along_of_forall (fun _ _ _ => trivial) _
    have hempty : InPlace .empty := fun c r hr => by cases hr
    exact run_keeps (fun _ _ _ hs _ h => step_inPlace hs (sendLine_ok h)) lines hempty hall hrun
  refine ⟨cs, hcs, listSession_eq habi hplace hcmd hcs, fun hcounted => ?_⟩
  have hsound : Sound t :=
    run_keeps (fun _ _ _ hs hu h1 => step_sound hs hu (sendLine_ok h1)) lines empty_sound hcounted
      hrun
  obtain ⟨hc, hlt⟩ := honest_iff.mp hsound.honest
  rw [listSession_eq habi hplace hcmd hcs, announced_counted hc hlt hcs, if_pos (Nat.le_refl _),
    listing_whole cs _ (Nat.le_refl _)]

/-- A message of the other kind reads as zeros. -/
def plainUnion : ResponseUnion where
  asRule p := if let .rule r := p then r else ⟨0, 0, 0, 0, 0, 0, 0, 0, 0⟩
  asCount p := if let .count n := p then n else 0#32
  rule _ := rfl
  count _ := rfl

/-- `sipfw -I INPUT -u 256 -j DROP`: position 1, as it is read. -/
def insertAtHead : CommandLine where
  abi := .ilp32
  argv := ["-I".toList, "INPUT".toList, "-u".toList, "256".toList, "-j".toList, "DROP".toList]
  ifname := ⟨[], 0⟩
  mem := ⟨7, 0, 0, 0, 0, 0, 0, 0, 0⟩
  pid := 0#32
  accepted := by decide

/-- `sipfw -L INPUT` -/
def listInput : CommandLine where
  abi := .ilp32
  argv := ["-L".toList, "INPUT".toList]
  ifname := ⟨[], 0⟩
  mem := ⟨8, 0, 0, 0, 0, 0, 0, 0, 0⟩
  pid := 4711#32
  accepted := by decide

/-- The rule that an INSERT has put into the table is not shown. -/
theorem list_session_uncounted :
    listSession (fun v => v.ptr.getD []) plainUnion
        (SipfwTables.empty.set .input ⟨[insertAtHead.request.rule], 0⟩) listInput =
      .ok ⟨displayOpts (fun v => v.ptr.getD []) listInput.request.opts, some 0⟩ := by
  obtain ⟨cs, hcs, h, -⟩ := (@list_session (fun v => v.ptr.getD []) plainUnion
    (SipfwTables.empty.set .input ⟨[insertAtHead.request.rule], 0⟩) listInput [insertAtHead]
    rfl rfl).2 rfl
  cases hcs
  rw [h]
  rfl

end Session

end LinuxNet.Sipfw
