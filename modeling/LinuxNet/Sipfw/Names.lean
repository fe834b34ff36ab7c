import LinuxNet.Sipfw.Fidelity

/-!
# Names on the command line

Three kinds of arguments are names: the chain of `-A`, `-I` and `-D`, the
action of `-j` and the protocol of `-p`. `SIPFW_ParseOpt` looks a name up by
its prefixes, and stores a default when it finds none; `SIPFW_JudgeCommand`
sees only the codes. This file says for which command lines the two together
take names exactly (`NamesExact`).

For one string, what is stored is `findPrefix` of the place's names
(`parseOpt_name`), so a string with something behind a name passes for the
name, and an unknown action passes for `DROP`. An unknown chain does get a code
of its own, `SIPFW_CHAIN_ALL`, but `SIPFW_JudgeCommand` compares with `>` where
it would have to compare with `>=`: it refuses a command for what is missing,
never for a name (`judged_iff`).
-/

namespace LinuxNet.Sipfw

/-! ## The places of a name -/

/-- What a name can be given for. -/
inductive NamePlace where
  | chain
  | action
  | protocol
  deriving DecidableEq, Repr

namespace NamePlace

/-- How `SIPFW_ParseOpt` is told to read the string. -/
def opt : NamePlace → SipfwOpt
  | .chain => .chain
  | .action => .action
  | .protocol => .protocol

/-- The names of the place, with the codes they stand for. -/
def names : NamePlace → List (CStr × BitVec 32)
  | .chain =>
    [("INPUT".toList, Chain.input.code), ("OUTPUT".toList, Chain.output.code),
     ("FORWARD".toList, Chain.forward.code)]
  | .action => [("DROP".toList, nfDrop), ("ACCEPT".toList, nfAccept)]
  | .protocol =>
    [("tcp".toList, 6#32), ("udp".toList, 17#32), ("icmp".toList, 1#32), ("igmp".toList, 2#32)]

/-- What is stored for a string that begins with none of the names. -/
def default : NamePlace → BitVec 32
  | .chain => chainAll
  | .action => nfDrop
  | .protocol => 0#32

/-- The string is a name of the place. -/
def IsName (k : NamePlace) (str : CStr) : Prop := ∃ n ∈ k.names, str = n.1

/-- The string begins with a name of the place. -/
def Begins (k : NamePlace) (str : CStr) : Prop := ∃ n ∈ k.names, n.1 <+: str

instance (k : NamePlace) (str : CStr) : Decidable (k.IsName str) := by
  unfold IsName; infer_instance

instance (k : NamePlace) (str : CStr) : Decidable (k.Begins str) := by
  unfold Begins; infer_instance

theorem prefixFree_names (k : NamePlace) : PrefixFree k.names := by
  cases k <;> unfold PrefixFree <;> decide

theorem names_code_inj (k : NamePlace) : ∀ n ∈ k.names, ∀ m ∈ k.names, n.2 = m.2 → n = m := by
  cases k <;> decide

end NamePlace

/-- The string an event gives for a name, and what for. -/
def nameOf (ev : OptEvent) : Option (NamePlace × CStr) :=
  match OptChar.ofChar ev.c with
  | some .A | some .I | some .D => ev.optarg.map (.chain, ·)
  | some .j => ev.optarg.map (.action, ·)
  | some .p => ev.optarg.map (.protocol, ·)
  | _ => none

/-- The strings a command line gives for names. -/
def givenNames (evs : List OptEvent) : List (NamePlace × CStr) := evs.filterMap nameOf

/-! ## One string -/

/-- A name compared over its own length is looked for in front of the string. -/
theorem strncmp0_eq (name str : CStr) :
    strncmp0 str name name.length = name.isPrefixOf str := by
  rw [Bool.eq_iff_iff, strncmp0_iff_prefix, List.isPrefixOf_iff_prefix]

theorem findName_chain (str : CStr) :
    (findName sipfwChainName 3 str).map (BitVec.ofNat 32) =
      findPrefix NamePlace.chain.names str := by
  have htake : sipfwChainName.take 3 =
      [⟨some "INPUT".toList, "INPUT".toList.length, 0⟩,
        ⟨some "OUTPUT".toList, "OUTPUT".toList.length, 0⟩,
        ⟨some "FORWARD".toList, "FORWARD".toList.length, 0⟩] := by rfl
  rw [findName, htake, findPrefix, NamePlace.names]
  simp only [List.findIdx?_cons, List.find?_cons, Option.getD_some, strncmp0_eq]
  cases "INPUT".toList.isPrefixOf str
  · cases "OUTPUT".toList.isPrefixOf str
    · cases "FORWARD".toList.isPrefixOf str <;> rfl
    · rfl
  · rfl

theorem findName_action (str : CStr) :
    (findName sipfwActionName 2 str).map (BitVec.ofNat 32) =
      findPrefix NamePlace.action.names str := by
  have htake : sipfwActionName.take 2 =
      [⟨some "DROP".toList, "DROP".toList.length, 0⟩,
        ⟨some "ACCEPT".toList, "ACCEPT".toList.length, 0⟩] := by rfl
  rw [findName, htake, findPrefix, NamePlace.names]
  simp only [List.findIdx?_cons, List.find?_cons, Option.getD_some, strncmp0_eq]
  cases "DROP".toList.isPrefixOf str
  · cases "ACCEPT".toList.isPrefixOf str <;> rfl
  · rfl

theorem findProtocol_names (str : CStr) :
    findProtocol str = findPrefix NamePlace.protocol.names str := by
  rw [findProtocol_eq, findPrefix, NamePlace.names]
  simp only [List.find?_cons, ← List.isPrefixOf_iff_prefix]
  cases "tcp".toList.isPrefixOf str
  · cases "udp".toList.isPrefixOf str
    · cases "icmp".toList.isPrefixOf str
      · cases "igmp".toList.isPrefixOf str <;> rfl
      · rfl
    · rfl
  · rfl

/-- What `SIPFW_ParseOpt` stores for a string given as a name. -/
theorem parseOpt_name (abi : Abi) (k : NamePlace) (str : CStr) (var : SipfwVariant) :
    (parseOpt abi k.opt str var).vUint = (findPrefix k.names str).getD k.default := by
  cases k with
  | chain =>
    rw [← findName_chain]
    cases h : findName sipfwChainName 3 str <;> simp only [parseOpt, NamePlace.opt, h] <;> rfl
  | action =>
    rw [← findName_action]
    cases h : findName sipfwActionName 2 str <;> simp only [parseOpt, NamePlace.opt, h] <;> rfl
  | protocol =>
    rw [← findProtocol_names]
    rfl

/-- `SIPFW_ParseOpt` stores the code of a name for that name only. -/
def StoredExactly (abi : Abi) (k : NamePlace) (str : CStr) : Prop :=
  ∀ var, ∀ n ∈ k.names, (parseOpt abi k.opt str var).vUint = n.2 → str = n.1

/-- The strings that are stored exactly: the names, and for a chain or a
protocol what begins with none of them. -/
theorem storedExactly_iff (abi : Abi) (k : NamePlace) (str : CStr) :
    StoredExactly abi k str ↔ k.IsName str ∨ k ≠ .action ∧ ¬ k.Begins str := by
  unfold StoredExactly
  simp only [parseOpt_name]
  by_cases hb : k.Begins str
  · obtain ⟨n, hn, hp⟩ := hb
    rw [findPrefix_of_isPrefix k.prefixFree_names hn hp, Option.getD_some]
    constructor
    · intro h
      exact .inl ⟨n, hn, h ⟨[], 0⟩ n hn rfl⟩
    · rintro (⟨m, hm, rfl⟩ | ⟨-, hb⟩) _ m' hm' hcode
      · -- the name that is a prefix of a name is that name
        rw [k.prefixFree_names n hn m hm hp] at hcode
        rw [k.names_code_inj m hm m' hm' hcode]
      · exact absurd ⟨n, hn, hp⟩ hb
  · have hnone : findPrefix k.names str = none :=
      (findPrefix_eq_none_iff str).mpr fun n hn hp => hb ⟨n, hn, hp⟩
    have hname : ¬ k.IsName str := fun ⟨n, hn, he⟩ => hb ⟨n, hn, he ▸ List.prefix_refl _⟩
    rw [hnone, Option.getD_none, or_iff_right hname, and_iff_left hb]
    cases k with
    | action =>
      refine iff_of_false (fun h => hname ⟨("DROP".toList, nfDrop), by decide, ?_⟩) (absurd rfl)
      exact h ⟨[], 0⟩ ("DROP".toList, nfDrop) (by decide) rfl
    | chain => exact iff_of_true (fun _ n hn hd => absurd hd (by revert n; decide)) nofun
    | protocol => exact iff_of_true (fun _ n hn hd => absurd hd (by revert n; decide)) nofun

/-! ## The verdict on the command -/

/-- The command lines that are refused: no command, an append without a chain or
without an action, a delete without a chain. No name has a part in it. -/
def Incomplete (evs : List OptEvent) : Prop :=
  namedCmd evs = none ∨
    namedCmd evs = some .append ∧ (namedChain evs = none ∨ namedArg .j evs = none) ∨
    namedCmd evs = some .delete ∧ namedChain evs = none

instance (evs : List OptEvent) : Decidable (Incomplete evs) := by
  unfold Incomplete; infer_instance

/-- What is stored for a name is the default or a code of its table. -/
theorem parsedValue_induct (abi : Abi) (k : NamePlace) (str : CStr) {P : BitVec 32 → Prop}
    (hdefault : P k.default) (hnames : ∀ n ∈ k.names, P n.2) : P (parsedValue abi k.opt str) := by
  rw [parsedValue, parseOpt_name]
  cases hf : findPrefix k.names str with
  | none => exact hdefault
  | some c =>
    obtain ⟨n, hn, rfl⟩ := Option.map_eq_some_iff.mp hf
    exact hnames n (List.mem_of_find?_eq_some hn)

variable (abi : Abi) (argv : List CStr)

/-- The number of the chain: `-1` if none was given, and else one that both
comparisons of `SIPFW_JudgeCommand` let through. -/
theorem parsed_chain_vInt (o : SipfwCmdOpts) :
    if namedChain (optEvents argv) = none then (parseCommand abi argv o).chain.vInt = -1
    else 0 ≤ (parseCommand abi argv o).chain.vInt ∧
      (parseCommand abi argv o).chain.vInt ≤ chainNum.toInt := by
  rw [SipfwVariant.vInt, parsed_chain]
  cases namedChain (optEvents argv) with
  | none => rfl
  | some str =>
    rw [if_neg (Option.some_ne_none _), Option.map_some, Option.getD_some]
    exact parsedValue_induct abi .chain str (P := fun c => 0 ≤ c.toInt ∧ c.toInt ≤ chainNum.toInt)
      (by decide) (by decide)

/-- The number of the action: `-1` if none was given. -/
theorem parsed_action_vInt (o : SipfwCmdOpts) :
    (parseCommand abi argv o).action.vInt = -1 ↔ namedArg .j (optEvents argv) = none := by
  have hget : (parseCommand abi argv o).action.vUint =
      ((namedArg .j (optEvents argv)).map (parsedValue abi .action)).getD (-1#32) :=
    parsed_get .action argv o
  rw [SipfwVariant.vInt, hget]
  cases namedArg .j (optEvents argv) with
  | none => exact iff_of_true rfl rfl
  | some str =>
    rw [Option.map_some, Option.getD_some]
    refine iff_of_false ?_ (Option.some_ne_none _)
    exact parsedValue_induct abi .action str (P := fun c => c.toInt ≠ -1) (by decide) (by decide)

/-- Listing and flushing are refused for no chain the parser can store. -/
theorem judgeList_fst {o : SipfwCmdOpts}
    (h : o.chain.vInt = -1 ∨ 0 ≤ o.chain.vInt ∧ o.chain.vInt ≤ chainNum.toInt) :
    (judgeList o).1 = 0 := by
  have hnum : (0 : Int) ≤ chainNum.toInt := by decide
  rw [judgeList]
  by_cases hc : o.chain.vInt = -1
  · rw [if_pos hc]
    -- `SIPFW_CHAIN_ALL` is `SIPFW_CHAIN_NUM`
    rfl
  · rw [if_neg hc, if_neg (by omega)]

theorem namedCmd_ne_replace (evs : List OptEvent) : namedCmd evs ≠ some .replace := by
  intro h
  obtain ⟨ev, -, hev⟩ := lastOf_eq_some h
  unfold cmdOf at hev
  split at hev <;> cases hev

/-- **No command is refused for a name**: what `SIPFW_JudgeCommand` refuses is
an incomplete command. -/
theorem judged_iff (ifname : SipfwVariant) :
    (toolMain abi argv ifname).1 ≠ 0 ↔ Incomplete (optEvents argv) := by
  have hchain := parsed_chain_vInt abi argv (mainOpts ifname)
  have haction := parsed_action_vInt abi argv (mainOpts ifname)
  have hcmd := @parsed_command abi argv (mainOpts ifname)
  rw [toolMain, judgeCommand, hcmd, Incomplete, ← haction]
  generalize parseCommand abi argv (mainOpts ifname) = o at hchain ⊢
  -- the chain is out of range exactly when none was given
  have hbad : o.chain.vInt > chainNum.toInt ∨ o.chain.vInt < 0 ↔
      namedChain (optEvents argv) = none := by
    have hnum : (0 : Int) ≤ chainNum.toInt := by decide
    split at hchain
    next h => exact iff_of_true (by omega) h
    next h => exact iff_of_false (by omega) h
  have hlist : (judgeList o).1 = 0 := judgeList_fst <| by
    split at hchain
    next => exact .inl hchain
    next => exact .inr hchain
  cases hc : namedCmd (optEvents argv) with
  | none => exact iff_of_true (show (-1 : Int) ≠ 0 by decide) (.inl rfl)
  | some c =>
    rw [Option.map_some, Option.getD_some, Cmd.ofInt_code]
    cases c with
    | replace => exact absurd hc (namedCmd_ne_replace _)
    | list | flush => simp [hlist]
    | insert =>
      dsimp only
      split <;> simp [hlist]
    | append =>
      dsimp only
      simp only [← or_assoc, hbad]
      split <;> simp [*]
    | delete =>
      dsimp only
      simp only [hbad]
      split <;> simp [*]

/-! ## The whole command line -/

/-- Names are parsed exactly: each is stored exactly, if it is read at all, and
a command line with a string that is no name is refused. -/
def NamesExact (ifname : SipfwVariant) : Prop :=
  (∀ g ∈ givenNames (optEvents argv), g.2.head? ≠ some ':' → StoredExactly abi g.1 g.2) ∧
    ((∃ g ∈ givenNames (optEvents argv), ¬ g.1.IsName g.2) → (toolMain abi argv ifname).1 ≠ 0)

/-- A string that is passed over, or stored as what no name stands for. -/
def HarmlessName (k : NamePlace) (str : CStr) : Prop :=
  str.head? = some ':' ∨ k ≠ .action ∧ ¬ k.Begins str

/-- **Names are parsed exactly** on the command lines that give names only, and
on incomplete ones whose other strings are harmless. -/
theorem namesExact_iff (ifname : SipfwVariant) :
    NamesExact abi argv ifname ↔
      (∀ g ∈ givenNames (optEvents argv), g.1.IsName g.2) ∨
      Incomplete (optEvents argv) ∧
        ∀ g ∈ givenNames (optEvents argv), g.1.IsName g.2 ∨ HarmlessName g.1 g.2 := by
  unfold NamesExact
  rw [judged_iff]
  have hstored : ∀ g : NamePlace × CStr,
      (g.2.head? ≠ some ':' → StoredExactly abi g.1 g.2) ↔
        g.1.IsName g.2 ∨ HarmlessName g.1 g.2 := fun g => by
    rw [storedExactly_iff, HarmlessName]
    tauto
  simp only [hstored]
  by_cases hall : ∀ g ∈ givenNames (optEvents argv), g.1.IsName g.2
  · exact iff_of_true ⟨fun g hg => .inl (hall g hg), fun ⟨g, hg, hno⟩ => absurd (hall g hg) hno⟩
      (.inl hall)
  · rw [or_iff_right hall, and_comm]
    refine and_congr_left fun _ => ⟨fun h => h ?_, fun h _ => h⟩
    simpa only [not_forall, exists_prop] using hall

/-- `-A INPUTX -j FOO` is sent to the kernel as `-A INPUT -j DROP`. -/
theorem not_namesExact_inputx :
    ¬ NamesExact .lp64 ["-A".toList, "INPUTX".toList, "-j".toList, "FOO".toList] ⟨[], 0⟩ := by
  intro h
  exact h.2 ⟨(.chain, "INPUTX".toList), by decide, by decide⟩ (by decide)

end LinuxNet.Sipfw
