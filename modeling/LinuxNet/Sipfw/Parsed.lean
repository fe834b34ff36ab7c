import LinuxNet.Sipfw.Tool

/-!
# What a parsed command line holds

`parseCommand` handles the options one after the other, each overwriting the
field it is about. So a field of the result is the value of the *last* option
that sets it (`foldl_lastOf`), or its default. This file states that once for
every field the kernel reads, in terms of `namedArg`: the argument of the last
such option, an argument that starts with `:` not counting.

Everything after this file speaks about a command line through these lemmas
and never unfolds the parser again.
-/

namespace LinuxNet.Sipfw

/-! ## What a command line names -/

/-- The option argument the tool takes into account. -/
def takenArg : Option CStr → Option CStr
  | some str => if str.head? = some ':' then none else some str
  | none => none

/-- The argument an event gives to option `oc`. -/
def argOf (oc : OptChar) (ev : OptEvent) : Option CStr :=
  if OptChar.ofChar ev.c = some oc then takenArg ev.optarg else none

/-- The argument of the last option `oc`. -/
def namedArg (oc : OptChar) (evs : List OptEvent) : Option CStr := lastOf (argOf oc) evs

/-- The command an event selects. -/
def cmdOf (ev : OptEvent) : Option Cmd :=
  match OptChar.ofChar ev.c with
  | some .L => some .list
  | some .F => some .flush
  | some .A => some .append
  | some .I => some .insert
  | some .D => some .delete
  | _ => none

/-- The last command of the command line. -/
def namedCmd (evs : List OptEvent) : Option Cmd := lastOf cmdOf evs

/-- The chain argument of a command option. -/
def chainArgOf (ev : OptEvent) : Option CStr :=
  if (cmdOf ev).isSome then takenArg ev.optarg else none

/-- The chain argument of the last command option that has one. -/
def namedChain (evs : List OptEvent) : Option CStr := lastOf chainArgOf evs

/-- Option `oc` is given. -/
def given (oc : OptChar) (evs : List OptEvent) : Bool :=
  evs.any fun ev => OptChar.ofChar ev.c = some oc

/-- The event is one of the four TCP flag options. -/
def isFlag (ev : OptEvent) : Bool :=
  match OptChar.ofChar ev.c with
  | some .y | some .r | some .k | some .f => true
  | _ => false

/-- One of the four TCP flag options is given. -/
def flagGiven (evs : List OptEvent) : Bool := evs.any isFlag

/-! ## The fields of the parsed options -/

/-- The fields that one option each sets to a number. -/
inductive NumField where
  | source
  | dest
  | sport
  | dport
  | protocol
  | action
  | number
  deriving DecidableEq, Repr

namespace NumField

/-- The option that sets the field. -/
def option : NumField → OptChar
  | .source => .s
  | .dest => .d
  | .sport => .m
  | .dport => .n
  | .protocol => .p
  | .action => .j
  | .number => .u

/-- How `SIPFW_ParseOpt` is told to read the argument. -/
def kind : NumField → SipfwOpt
  | .source | .dest => .ip
  | .sport | .dport | .number => .port
  | .protocol => .protocol
  | .action => .action

def get : NumField → SipfwCmdOpts → BitVec 32
  | .source, o => o.source.vUint
  | .dest, o => o.dest.vUint
  | .sport, o => o.sport.vUint
  | .dport, o => o.dport.vUint
  | .protocol, o => o.protocol.vUint
  | .action, o => o.action.vUint
  | .number, o => o.number.vUint

end NumField

/-- The number `SIPFW_ParseOpt` stores. -/
def parsedValue (abi : Abi) (opt : SipfwOpt) (str : CStr) : BitVec 32 :=
  (parseOpt abi opt str ⟨[], 0⟩).vUint

/-- A parsed argument overwrites the number a variant holds. -/
theorem parseArg_vUint (abi : Abi) (opt : SipfwOpt) (optarg : Option CStr) (var : SipfwVariant)
    (hopt : opt ≠ .str) :
    (parseArg abi opt optarg var).vUint =
      ((takenArg optarg).map (parsedValue abi opt)).getD var.vUint := by
  cases optarg with
  | none => rfl
  | some str =>
    by_cases h : str.head? = some ':'
    · rw [parseArg, takenArg, if_pos h, if_pos h]
      rfl
    · rw [parseArg, takenArg, if_neg h, if_neg h]
      cases opt <;> first | rfl | exact absurd rfl hopt

variable {abi : Abi}

/-- A part of the options that every event overwrites or leaves alone ends up
with the last value written. -/
theorem parsed_part {β γ : Type} {g : SipfwCmdOpts → β} {f : OptEvent → Option γ} {val : γ → β}
    (h : ∀ o ev, g (parseCase abi o ev) = ((f ev).map val).getD (g o))
    (argv : List CStr) (o : SipfwCmdOpts) :
    g (parseCommand abi argv o) =
      ((lastOf f (optEvents argv)).map val).getD (g (parseDefaults o)) := by
  rw [← lastOf_map]
  exact foldl_lastOf h (optEvents argv) (parseDefaults o)

/-- One event: its argument if it is the field's option, else what was there. -/
theorem parseCase_get (f : NumField) (o : SipfwCmdOpts) (ev : OptEvent) :
    f.get (parseCase abi o ev) =
      ((argOf f.option ev).map (parsedValue abi f.kind)).getD (f.get o) := by
  unfold parseCase argOf
  cases OptChar.ofChar ev.c with
  | none => cases f <;> rfl
  | some oc =>
    cases f <;> cases oc <;> first | rfl | exact parseArg_vUint abi _ _ _ nofun

/-- A field that one option sets holds the value of the last such option. -/
theorem parsed_get (f : NumField) (argv : List CStr) (o : SipfwCmdOpts) :
    f.get (parseCommand abi argv o) =
      ((namedArg f.option (optEvents argv)).map (parsedValue abi f.kind)).getD
        (f.get (parseDefaults o)) :=
  parsed_part (parseCase_get f) argv o

theorem parseCase_command (o : SipfwCmdOpts) (ev : OptEvent) :
    (parseCase abi o ev).command.vUint = ((cmdOf ev).map Cmd.code).getD o.command.vUint := by
  unfold parseCase cmdOf
  cases OptChar.ofChar ev.c with
  | none => rfl
  | some oc => cases oc <;> rfl

/-- The command is the last command option. -/
theorem parsed_command (argv : List CStr) (o : SipfwCmdOpts) :
    (parseCommand abi argv o).command.vUint =
      ((namedCmd (optEvents argv)).map Cmd.code).getD (-1#32) :=
  parsed_part (g := fun o => o.command.vUint) parseCase_command argv o

theorem parseCase_chain (o : SipfwCmdOpts) (ev : OptEvent) :
    (parseCase abi o ev).chain.vUint =
      ((chainArgOf ev).map (parsedValue abi .chain)).getD o.chain.vUint := by
  unfold parseCase chainArgOf cmdOf
  cases OptChar.ofChar ev.c with
  | none => rfl
  | some oc => cases oc <;> first | rfl | exact parseArg_vUint abi _ _ _ nofun

/-- The chain is the argument of the last command option that has one. -/
theorem parsed_chain (argv : List CStr) (o : SipfwCmdOpts) :
    (parseCommand abi argv o).chain.vUint =
      ((namedChain (optEvents argv)).map (parsedValue abi .chain)).getD (-1#32) :=
  parsed_part (g := fun o => o.chain.vUint) parseCase_chain argv o

/-! ## The TCP flags -/

/-- A flag option marks the flags as given, in bit 16 of the word. -/
theorem parseCase_valid (o : SipfwCmdOpts) (ev : OptEvent) :
    (parseCase abi o ev).addtion.getLsbD 16 = (o.addtion.getLsbD 16 || isFlag ev) := by
  unfold parseCase isFlag
  cases OptChar.ofChar ev.c with
  | none => simp
  | some oc =>
    cases oc <;>
      simp [Addtion.setTcpValid, Addtion.setTcpSyn, Addtion.setTcpRst, Addtion.setTcpAck,
        Addtion.setTcpFin, parseCmdCase]

theorem parseCase_addtion_of_not_flag {o : SipfwCmdOpts} {ev : OptEvent} (h : isFlag ev = false) :
    (parseCase abi o ev).addtion = o.addtion := by
  unfold isFlag at h
  unfold parseCase
  cases hc : OptChar.ofChar ev.c with
  | none => rfl
  | some oc => rw [hc] at h; cases oc <;> first | rfl | exact nomatch h

theorem foldl_valid (evs : List OptEvent) : ∀ o : SipfwCmdOpts,
    (evs.foldl (parseCase abi) o).addtion.getLsbD 16 =
      (o.addtion.getLsbD 16 || flagGiven evs) := by
  induction evs with
  | nil =>
    intro o
    simp [flagGiven]
  | cons ev evs ih =>
    intro o
    rw [List.foldl_cons, ih, parseCase_valid, flagGiven, flagGiven, List.any_cons, Bool.or_assoc]

theorem foldl_addtion_of_no_flag (evs : List OptEvent) : ∀ o : SipfwCmdOpts,
    flagGiven evs = false → (evs.foldl (parseCase abi) o).addtion = o.addtion := by
  induction evs with
  | nil =>
    intro o _
    rfl
  | cons ev evs ih =>
    intro o h
    rw [flagGiven, List.any_cons, Bool.or_eq_false_iff] at h
    rw [List.foldl_cons, ih _ h.2, parseCase_addtion_of_not_flag h.1]

/-- The rule looks at the TCP flags exactly when a flag option was given. -/
theorem parsed_addtion_eq_zero (argv : List CStr) {o : SipfwCmdOpts} (ho : o.addtion = 0#32) :
    (parseCommand abi argv o).addtion = 0#32 ↔ flagGiven (optEvents argv) = false := by
  constructor
  · intro h
    have hv := @foldl_valid abi (optEvents argv) (parseDefaults o)
    rw [show (optEvents argv).foldl (parseCase abi) (parseDefaults o) =
      parseCommand abi argv o from rfl, h] at hv
    simpa [parseDefaults, ho] using hv.symm
  · intro h
    rw [parseCommand, foldl_addtion_of_no_flag _ _ h]
    exact ho

/-! ## What the tool sends -/

/-- `SIPFW_JudgeCommand` changes nothing but the chain. -/
theorem judgeCommand_opts (o : SipfwCmdOpts) :
    ∃ chain, (judgeCommand o).2 = { o with chain := chain } := by
  have hl : ∃ chain, (judgeList o).2 = { o with chain := chain } := by
    unfold judgeList
    by_cases hc : o.chain.vInt = -1
    · rw [if_pos hc]
      exact ⟨.ofUint chainAll, by dsimp only; split <;> rfl⟩
    · rw [if_neg hc]
      exact ⟨o.chain, by dsimp only; split <;> rfl⟩
  unfold judgeCommand
  cases Cmd.ofInt o.command.vUint with
  | none => exact ⟨o.chain, rfl⟩
  | some c =>
    cases c
    case list => exact hl
    case flush => exact hl
    case insert => dsimp only; split; exacts [⟨o.chain, rfl⟩, hl]
    all_goals exact ⟨o.chain, by dsimp only; split <;> rfl⟩

theorem sent_get (f : NumField) (argv : List CStr) (ifname : SipfwVariant) :
    f.get (toolMain abi argv ifname).2 =
      ((namedArg f.option (optEvents argv)).map (parsedValue abi f.kind)).getD
        (f.get (parseDefaults (mainOpts ifname))) := by
  obtain ⟨chain, h⟩ := judgeCommand_opts (parseCommand abi argv (mainOpts ifname))
  rw [toolMain, h, ← parsed_get]
  cases f <;> rfl

theorem sent_addtion_eq_zero (argv : List CStr) (ifname : SipfwVariant) :
    (toolMain abi argv ifname).2.addtion = 0#32 ↔ flagGiven (optEvents argv) = false := by
  obtain ⟨chain, h⟩ := judgeCommand_opts (parseCommand abi argv (mainOpts ifname))
  rw [toolMain, h]
  exact parsed_addtion_eq_zero argv rfl

theorem sent_command (argv : List CStr) (ifname : SipfwVariant) :
    (toolMain abi argv ifname).2.command.vUint =
      ((namedCmd (optEvents argv)).map Cmd.code).getD (-1#32) := by
  obtain ⟨chain, h⟩ := judgeCommand_opts (parseCommand abi argv (mainOpts ifname))
  rw [toolMain, h]
  exact parsed_command argv _

end LinuxNet.Sipfw
