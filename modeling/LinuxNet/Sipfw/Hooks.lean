import LinuxNet.Sipfw.Localtime
import LinuxNet.Sipfw.Match

/-!
# The Netfilter hooks

The five hook functions of `sipfw_k.c` and `SIPFW_LogAppend`. Four hooks are
the same function on a table of their choice (`hookOn`); the choice is the
source's, so `hookPreRouting` and `hookPostRouting` read the OUTPUT table.
`hookForward` returns `NF_STOLEN` from a block of debugging code before it
looks at any table: it rewrites the link header, transmits the packet itself
and drops it from the stack. The code behind that `return` is never reached
and is not modelled.

A hook returns what it leaves behind: the verdict, the configuration with the
hit counter, the lines written to the log, and the packets it transmitted.
Inputs of the log that come from outside are in `LogEnv`: whether the file
opens, and the seconds on the clock. The date is made of them before anything is
looked up, so a clock outside the tables of `SIPFW_Localtime` faults at every hit
that is logged, whatever the rule (`logAppend_iff`).
-/

namespace LinuxNet.Sipfw

/-! ## The log -/

/-- What the log finds outside the module: whether its file opens, and what `get_seconds`
returns. -/
structure LogEnv where
  opens : CStr → Bool
  now : Nat

/-- `%0wd`. -/
def padded (w n : Nat) : CStr :=
  List.replicate (w - (Nat.toDigits 10 n).length) '0' ++ Nat.toDigits 10 n

/-- `%d.%d.%d.%d` of an address. -/
def dotted (a : BitVec 32) : CStr :=
  padded 1 (byteOf 0 a).toNat ++ '.' :: padded 1 (byteOf 1 a).toNat ++ '.' ::
    padded 1 (byteOf 2 a).toNat ++ '.' :: padded 1 (byteOf 3 a).toNat

/-- `%s`; the kernel prints a NULL pointer as `<NULL>`. -/
def shown (ptr : Option CStr) : CStr := ptr.getD "<NULL>".toList

/-- The line `SIPFW_LogAppend` formats. -/
def logLine (cur : Tm) (iph : Mem) (proto action : Option CStr) : CStr :=
  "Time: ".toList ++ padded 4 cur.year ++ '-' :: padded 2 cur.mon ++ '-' :: padded 2 cur.mday ++
    ' ' :: padded 2 cur.hour ++ ':' :: padded 2 cur.min ++ ':' :: padded 2 cur.sec ++
    "  From ".toList ++ dotted (iphSaddr iph) ++ " To ".toList ++ dotted (iphDaddr iph) ++
    "  ".toList ++ shown proto ++ " PROTOCOL was ".toList ++ shown action ++ "ed\n".toList

/-- The entry of the protocol table the search of `SIPFW_LogAppend` stops at. -/
def protoEntry (protocol : BitVec 8) : Option Vec :=
  sipfwProtocolName.find? fun v => v.ptr.isNone || v.value == protocol.setWidth 32

/-- `sipfw_action_name[action]`: the entry, or a fault outside the table. -/
def actionEntry (action : BitVec 32) : Except Fault Vec :=
  if action.toInt < 0 then .error .outOfBounds
  else
    match sipfwActionName[action.toNat]? with
    | some v => .ok v
    | none => .error .outOfBounds

/-- `SIPFW_LogAppend`: the line it writes, if any. -/
def logAppend (env : LogEnv) (cf : SipfwConf) (skb : SkBuff) (r : SipfwRules) :
    Except Fault (Option CStr) :=
  if cf.logPause ≠ 0#32 then .ok none
  else if env.opens cf.logFilePath = false then .ok none
  else
    match sipfwLocaltime env.now with
    | .error e => .error e
    | .ok cur =>
      match actionEntry r.action with
      | .error e => .error e
      | .ok v =>
        .ok (some (logLine cur skb.data
          ((protoEntry (iphProtocol skb.data)).bind (·.ptr)) v.ptr))

/-! ## The hooks -/

/-- What a hook leaves behind. -/
structure Fired where
  verdict : BitVec 32
  cf : SipfwConf
  logged : List CStr
  xmitted : List SkBuff

/-- A hook that filters by a table. -/
def hookOn (c : Chain) (env : LogEnv) (t : SipfwTables) (cf : SipfwConf) (skb : SkBuff) :
    Except Fault Fired :=
  if cf.invalid ≠ 0#32 then .ok ⟨nfAccept, cf, [], []⟩
  else
    match (isMatch skb (t c).rule).val with
    | none => .ok ⟨cf.defaultAction, cf, [], []⟩
    | some found =>
      match logAppend env cf skb found with
      | .error e => .error e
      | .ok line =>
        .ok ⟨found.action, { cf with hitNumber := cf.hitNumber + 1#32 }, line.toList, []⟩

/-- `SIPFW_HookLocalIn`. -/
def hookLocalIn := hookOn .input

/-- `SIPFW_HookLocaOut`. -/
def hookLocaOut := hookOn .output

/-- `SIPFW_HookPreRouting`. -/
def hookPreRouting := hookOn .output

/-- `SIPFW_HookPostRouting`. -/
def hookPostRouting := hookOn .output

/-- The link header as `SIPFW_HookForward` rewrites it. -/
def forwardMac (mac : Mem) : Mem := fun o =>
  match o with
  | 0 => 0x00#8
  | 1 => 0x1F#8
  | 2 => 0x3A#8
  | 3 => 0xB1#8
  | 4 => 0xFA#8
  | 5 => 0x60#8
  | 6 => mac 0
  | 7 => mac 1
  | 8 => mac 2
  | 9 => mac 3
  | 10 => mac 4
  | 11 => 0x15#8
  | o => mac o

/-- `SIPFW_HookForward`. -/
def hookForward (_ : LogEnv) (_ : SipfwTables) (cf : SipfwConf) (skb : SkBuff) :
    Except Fault Fired :=
  .ok ⟨nfStolen, cf, [], [{ skb with mac := forwardMac skb.mac }]⟩

/-! ## Paths -/

/-- A hook function, as it is registered. -/
abbrev Hook := LogEnv → SipfwTables → SipfwConf → SkBuff → Except Fault Fired

/-- The hooks a packet meets on the path of a chain. -/
def hooksOf : Chain → List Hook
  | .input => [hookPreRouting, hookLocalIn]
  | .output => [hookLocaOut, hookPostRouting]
  | .forward => [hookPreRouting, hookForward, hookPostRouting]

/-- Netfilter goes on to the next hook only after `NF_ACCEPT`. -/
def runHooks (env : LogEnv) (t : SipfwTables) (skb : SkBuff) :
    List Hook → SipfwConf → Except Fault (BitVec 32)
  | [], _ => .ok nfAccept
  | h :: hs, cf =>
    match h env t cf skb with
    | .error e => .error e
    | .ok fired =>
      if fired.verdict = nfAccept then runHooks env t skb hs fired.cf else .ok fired.verdict

/-- The final verdict on the path of a chain. -/
def pathVerdict (env : LogEnv) (t : SipfwTables) (cf : SipfwConf) (skb : SkBuff) (c : Chain) :
    Except Fault (BitVec 32) :=
  runHooks env t skb (hooksOf c) cf

/-! ## When a hook decides -/

/-- Switched off, every table lets everything pass. -/
theorem hookOn_invalid {cf : SipfwConf} (h : cf.invalid ≠ 0#32) (c : Chain) (env : LogEnv)
    (t : SipfwTables) (skb : SkBuff) : hookOn c env t cf skb = .ok ⟨nfAccept, cf, [], []⟩ :=
  if_pos h

/-- A hook sees its own table and no other. -/
theorem hookOn_congr {t t' : SipfwTables} {c : Chain} (h : (t c).rule = (t' c).rule)
    (env : LogEnv) (cf : SipfwConf) (skb : SkBuff) :
    hookOn c env t cf skb = hookOn c env t' cf skb := by
  unfold hookOn
  rw [h]

/-! ## A hit -/

/-- An index of the table of action names. -/
theorem actionEntry_iff (action : BitVec 32) :
    (∃ v, actionEntry action = .ok v) ↔ action.toNat < sipfwActionName.length := by
  have hlen : sipfwActionName.length = 6 := rfl
  have hint := BitVec.toInt_eq_toNat_cond action
  have hlt := action.isLt
  unfold actionEntry
  by_cases h : action.toNat < sipfwActionName.length
  · rw [if_neg (by split at hint <;> omega), List.getElem?_eq_getElem h]
    exact iff_of_true ⟨_, rfl⟩ h
  · refine iff_of_false (fun hv => ?_) h
    obtain ⟨v, hv⟩ := hv
    rw [List.getElem?_eq_none (by omega)] at hv
    split at hv <;> cases hv

/-- Nothing is logged: the log is paused, or its file does not open. -/
def LogOff (env : LogEnv) (cf : SipfwConf) : Prop :=
  cf.logPause ≠ 0#32 ∨ env.opens cf.logFilePath = false

section Hit

variable {env : LogEnv} {t : SipfwTables} {c : Chain} {cf : SipfwConf} {skb : SkBuff}
  {r : SipfwRules}

theorem logAppend_off (h : LogOff env cf) : logAppend env cf skb r = .ok none := by
  unfold logAppend
  rcases h with h | h
  · rw [if_pos h]
  · rw [if_pos h, ite_self]

theorem logAppend_on (h : ¬ LogOff env cf) :
    logAppend env cf skb r =
      (sipfwLocaltime env.now).bind fun cur => (actionEntry r.action).map fun v =>
        some (logLine cur skb.data ((protoEntry (iphProtocol skb.data)).bind (·.ptr)) v.ptr) := by
  rw [LogOff, not_or] at h
  unfold logAppend
  rw [if_neg h.1, if_neg h.2]
  cases sipfwLocaltime env.now with
  | error e => rfl
  | ok cur => cases actionEntry r.action <;> rfl

/-- Where the log is on, a hit needs a clock inside the tables of the dates and an action inside
that of the names. -/
theorem logAppend_iff :
    (∃ line, logAppend env cf skb r = .ok line) ↔
      LogOff env cf ∨ InTables env.now ∧ r.action.toNat < sipfwActionName.length := by
  by_cases hoff : LogOff env cf
  · exact iff_of_true ⟨none, logAppend_off hoff⟩ (.inl hoff)
  rw [logAppend_on hoff, ← localtime_iff, ← actionEntry_iff]
  cases sipfwLocaltime env.now with
  | error e => simp [hoff, Except.bind]
  | ok cur => cases actionEntry r.action <;> simp [hoff, Except.bind, Except.map]

/-- A clock outside the tables faults at every hit that is logged. -/
theorem logAppend_unstamped (hoff : ¬ LogOff env cf) (hnow : ¬ InTables env.now) :
    logAppend env cf skb r = .error .outOfBounds := by
  rw [logAppend_on hoff, localtime_fault hnow]
  rfl

/-- A rule that a packet hits decides, unless the log faults. -/
theorem hookOn_found (hi : cf.invalid = 0#32) (hm : (isMatch skb (t c).rule).val = some r)
    (hl : LogOff env cf ∨ InTables env.now ∧ r.action.toNat < sipfwActionName.length) :
    ∃ fired, hookOn c env t cf skb = .ok fired ∧ fired.verdict = r.action := by
  obtain ⟨line, hline⟩ := logAppend_iff.mpr hl
  refine ⟨⟨r.action, { cf with hitNumber := cf.hitNumber + 1#32 }, line.toList, []⟩, ?_, rfl⟩
  unfold hookOn
  rw [if_neg (not_not.mpr hi), hm]
  dsimp only
  rw [hline]

/-- A hit that is logged outside the tables of the dates. -/
theorem hookOn_unstamped (hi : cf.invalid = 0#32) (hm : (isMatch skb (t c).rule).val = some r)
    (hoff : ¬ LogOff env cf) (hnow : ¬ InTables env.now) :
    hookOn c env t cf skb = .error .outOfBounds := by
  unfold hookOn
  rw [if_neg (not_not.mpr hi), hm]
  dsimp only
  rw [logAppend_unstamped hoff hnow]

/-- Without a hit the default decides. -/
theorem hookOn_default (hi : cf.invalid = 0#32) (hm : (isMatch skb (t c).rule).val = none) :
    hookOn c env t cf skb = .ok ⟨cf.defaultAction, cf, [], []⟩ := by
  unfold hookOn
  rw [if_neg (not_not.mpr hi), hm]

end Hit

/-- A packet of another protocol than the four meets the default everywhere. -/
theorem hookOn_unmatchable {skb : SkBuff} (h : ¬ matchable (iphProtocol skb.data)) (c : Chain)
    (env : LogEnv) (t : SipfwTables) {cf : SipfwConf} (hi : cf.invalid = 0#32) :
    hookOn c env t cf skb = .ok ⟨cf.defaultAction, cf, [], []⟩ := by
  refine hookOn_default hi ?_
  rw [isMatch_val, List.find?_eq_none]
  intro r _
  rw [ruleMatches, isAddtionMatch_default _ _ h, Bool.and_false]
  exact Bool.false_ne_true

end LinuxNet.Sipfw
