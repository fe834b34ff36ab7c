import LinuxNet.Sipfw.Edits
import LinuxNet.Sipfw.Netlink
import LinuxNet.Sipfw.Parsed

/-!
# The position of a rule, from the command line to the chain

`sipfw -D INPUT -u 3` is to delete the third rule of INPUT. The tool reads the
argument of `-u` with the code it has for ports, so what it stores is the number
with its two bytes exchanged; the structure goes to the kernel as it is, and the
kernel counts rules up to the number it finds. `delete_position_iff` says when
the rule deleted is the one that was named.
-/

namespace LinuxNet.Sipfw

/-! ## The command line -/

/-- The name of a chain on the command line. -/
def Chain.name : Chain → CStr
  | .input => "INPUT".toList
  | .output => "OUTPUT".toList
  | .forward => "FORWARD".toList

/-- `-D <chain> -u n`. -/
def deleteLine (c : Chain) (n : Nat) : List CStr :=
  ["-D".toList, c.name, "-u".toList, Nat.toDigits 10 n]

/-- What the tool makes of it: the verdict and the structure. -/
def deleteTool (abi : Abi) (c : Chain) (n : Nat) (ifname : SipfwVariant) : Int × SipfwCmdOpts :=
  toolMain abi (deleteLine c n) ifname

/-- The message that goes to the kernel, with the cell it is handled with. -/
def deleteMsg (abi : Abi) (c : Chain) (n : Nat) (ifname : SipfwVariant) (pid : BitVec 32)
    (mem : SipfwRules) : Queued :=
  ⟨packetU abi (deleteTool abi c n ifname).2 pid MsgType.pid.code, mem⟩

/-- The kernel deletes exactly the rule at the position, or nothing where the chain is
shorter; the other chains are as before. -/
def DeletesAt (t : SipfwTables) (c : Chain) (n : Nat) (out : Except Fault SipfwTables) : Prop :=
  ∃ t', out = .ok t' ∧
    (t' c).rule = (if n ≤ (t c).rule.length then (t c).rule.eraseIdx (n - 1) else (t c).rule) ∧
    ∀ c', c' ≠ c → t' c' = t c'

/-- A number of sixteen bits with its two bytes exchanged. -/
def swapBytes (n : Nat) : Nat := n % 256 * 256 + n / 256

/-! ## What the tool sends -/

section Tool

variable {abi : Abi} {c : Chain} {n : Nat} {ifname : SipfwVariant}

theorem deleteLine_events :
    optEvents (deleteLine c n) = [⟨'D', some c.name⟩, ⟨'u', some (Nat.toDigits 10 n)⟩] := by
  cases c <;> rfl

/-- A number does not begin with a colon. -/
theorem takenArg_toDigits : takenArg (some (Nat.toDigits 10 n)) = some (Nat.toDigits 10 n) := by
  refine if_neg fun h => ?_
  have := Nat.isDigit_of_mem_toDigits (b := 10) (by decide) (by decide) (List.mem_of_head? h)
  exact absurd this (by decide)

theorem parsed_delete :
    (parseCommand abi (deleteLine c n) (mainOpts ifname)).command.vUint = Cmd.delete.code := by
  rw [parsed_command, deleteLine_events]
  rfl

theorem parsed_delete_chain :
    (parseCommand abi (deleteLine c n) (mainOpts ifname)).chain.vUint = c.code := by
  rw [parsed_chain, deleteLine_events]
  cases c <;> rfl

theorem parsed_delete_number :
    (parseCommand abi (deleteLine c n) (mainOpts ifname)).number.vUint =
      parsePort abi (Nat.toDigits 10 n) := by
  have h := @parsed_get abi .number (deleteLine c n) (mainOpts ifname)
  have harg : namedArg .u (optEvents (deleteLine c n)) = some (Nat.toDigits 10 n) := by
    have hu : argOf .u ⟨'u', some (Nat.toDigits 10 n)⟩ = some (Nat.toDigits 10 n) :=
      (if_pos rfl).trans takenArg_toDigits
    rw [deleteLine_events, namedArg, lastOf, lastOf, lastOf, Option.none_or, hu, Option.some_or]
  rw [show NumField.option .number = .u from rfl, harg] at h
  exact h

/-- The tool accepts the command and sends it as it was parsed. -/
theorem deleteTool_eq :
    deleteTool abi c n ifname = (0, parseCommand abi (deleteLine c n) (mainOpts ifname)) := by
  have hchain : (parseCommand abi (deleteLine c n) (mainOpts ifname)).chain.vInt =
      c.code.toInt := by
    rw [SipfwVariant.vInt, parsed_delete_chain]
  unfold deleteTool toolMain judgeCommand
  rw [parsed_delete, Cmd.ofInt_code]
  dsimp only
  rw [hchain, if_neg]
  cases c <;> decide

/-- A 16-bit number that was widened is read as it was, signed or not. -/
theorem toInt_setWidth (x : BitVec 16) : (x.setWidth 32).toInt = x.toNat := by
  have hx := x.isLt
  have hwide : (x.setWidth 32).toNat = x.toNat := by
    rw [BitVec.toNat_setWidth, Nat.mod_eq_of_lt (by omega)]
  rw [BitVec.toInt_eq_toNat_of_lt (by omega), hwide]

/-- The position is sent with its bytes exchanged. -/
theorem deleteTool_number (h : n ≤ 65535) :
    (deleteTool abi c n ifname).2.number.vInt = swapBytes n := by
  have hmax : n ≤ abi.ulongMax := by cases abi <;> exact h.trans (by decide)
  have hmod : n % 2 ^ 16 = n := Nat.mod_eq_of_lt (Nat.lt_succ_of_le h)
  rw [deleteTool_eq, SipfwVariant.vInt, parsed_delete_number, parsePort, strtoul_toDigits hmax,
    toInt_setWidth, htons_toNat, BitVec.toNat_ofNat, hmod, swapBytes]

end Tool

/-! ## What the kernel does -/

variable {abi : Abi} {c : Chain} {n : Nat} {ifname : SipfwVariant} {pid : BitVec 32}
  {mem : SipfwRules} {t : SipfwTables}

/-- No position of sixteen bits is sent as 0, or as a number of more bits. -/
theorem swapBytes_range (h1 : 1 ≤ n) (h : n ≤ 65535) :
    1 ≤ swapBytes n ∧ swapBytes n ≤ 65535 := by
  unfold swapBytes
  omega

/-- The kernel takes the message for what the tool meant, but for the position. -/
theorem delete_request :
    let req := (deleteMsg abi c n ifname pid mem).request abi
    req.cmd = some .delete ∧ req.chain = some c ∧
      req.number = (deleteTool abi c n ifname).2.number.vInt := by
  have hword := readOpt_packetU abi (deleteTool abi c n ifname).2 pid MsgType.pid.code
  have hcommand := hword .command
  have hchain := hword .chain
  have hnumber := hword .number
  refine ⟨?_, ?_, ?_⟩
  · show Cmd.ofInt (readOpt abi _ .command).val = _
    rw [deleteMsg, hcommand, OptField.get, deleteTool_eq, parsed_delete, Cmd.ofInt_code]
  · show Chain.ofInt (readOpt abi _ .chain).val = _
    rw [deleteMsg, hchain, OptField.get, deleteTool_eq, parsed_delete_chain, Chain.ofInt_code]
  · show (readOpt abi _ .number).val.toInt = _
    rw [deleteMsg, hnumber]
    rfl

/-- So it deletes at the position with the bytes exchanged. -/
theorem stepMsg_delete (h : n ≤ 65535) :
    ∃ rule, stepMsg abi t (deleteMsg abi c n ifname pid mem) =
      (ruleDelete rule (swapBytes n) (t c)).map fun hd => t.set c hd.list := by
  obtain ⟨hcmd, hchain, hnumber⟩ := @delete_request abi c n ifname pid mem
  rw [deleteTool_number h] at hnumber
  refine ⟨((deleteMsg abi c n ifname pid mem).request abi).rule, ?_⟩
  rw [stepMsg_dispatched (dispatched_packetU abi _ pid _), step_edit hcmd rfl, onChain,
    show Chain.ofInt _ = some c from hchain, hnumber]
  dsimp only
  cases ruleDelete _ (swapBytes n) (t c) <;> rfl

/-- The rules of a chain are in cells of their own, so it shows which was taken out. -/
theorem eraseIdx_inj {l : List SipfwRules} (hl : (l.map (·.cell)).Nodup) {i j : Nat}
    (hi : i < l.length) (h : l.eraseIdx i = l.eraseIdx j) : i = j := by
  have hnodup : l.Nodup := List.Nodup.of_map _ hl
  by_contra hne
  have hmem : l[i] ∈ l.eraseIdx j :=
    List.mem_eraseIdx_iff_getElem.mpr ⟨i, hi, hne, rfl⟩
  rw [← h] at hmem
  obtain ⟨k, hk, hki, hkl⟩ := List.mem_eraseIdx_iff_getElem.mp hmem
  exact hki (hnodup.getElem_inj_iff.mp hkl)

/-- What DELETE does to a chain with a right counter, at any position the tool sends. -/
theorem stepMsg_delete_cases (h1 : 1 ≤ n) (h : n ≤ 65535)
    (hcount : (t c).number = (t c).rule.length) :
    ∃ t', stepMsg abi t (deleteMsg abi c n ifname pid mem) = .ok t' ∧
      (t' c).rule = (if swapBytes n ≤ (t c).rule.length then
        (t c).rule.eraseIdx (swapBytes n - 1) else (t c).rule) ∧
      ∀ c', c' ≠ c → t' c' = t c' := by
  obtain ⟨rule, hstep⟩ := @stepMsg_delete abi c n ifname pid mem t h
  obtain ⟨hs1, hs⟩ := swapBytes_range h1 h
  have hother : ∀ l c', c' ≠ c → t.set c l c' = t c' := fun l c' hc' =>
    SipfwTables.set_other t hc' l
  rw [hstep]
  by_cases hp : Position (swapBytes n) (t c).rule
  · obtain ⟨prev, cur, next, hl, hlen, hr⟩ :=
      @ruleDelete_position rule (swapBytes n) (t c) (by rw [hcount]; exact hp.2) hp
    refine ⟨_, by rw [hr]; rfl, ?_, hother _⟩
    rw [SipfwTables.set_same, if_pos (by have := hp.2; omega), hl]
    show prev ++ next = _
    rw [show swapBytes n - 1 = prev.length by omega,
      List.eraseIdx_append_of_length_le (Nat.le_refl _), Nat.sub_self]
    rfl
  · refine ⟨_, by rw [ruleDelete_off (.inr ⟨by omega, hp⟩)]; rfl, ?_, hother _⟩
    rw [SipfwTables.set_same, if_neg fun hle => hp ⟨by omega, by omega⟩]

/-- **When the position named is the position deleted.** `-D <chain> -u n` deletes the
`n`-th rule of a chain with a right counter, or nothing if there is none, exactly if
exchanging the bytes of `n` leaves it what it is, or out of the chain as it was. -/
theorem delete_position_iff (h1 : 1 ≤ n) (h : n ≤ 65535)
    (hcount : (t c).number = (t c).rule.length) (hcells : ((t c).rule.map (·.cell)).Nodup) :
    (deleteTool abi c n ifname).1 = 0 ∧
      (DeletesAt t c n (stepMsg abi t (deleteMsg abi c n ifname pid mem)) ↔
        swapBytes n = n ∨ (t c).rule.length < n ∧ (t c).rule.length < swapBytes n) := by
  refine ⟨by rw [deleteTool_eq], ?_⟩
  obtain ⟨t', hstep, hrule, hother⟩ :=
    @stepMsg_delete_cases abi c n ifname pid mem t h1 h hcount
  obtain ⟨hs1, hs⟩ := swapBytes_range h1 h
  have hiff : DeletesAt t c n (stepMsg abi t (deleteMsg abi c n ifname pid mem)) ↔
      (if swapBytes n ≤ (t c).rule.length then (t c).rule.eraseIdx (swapBytes n - 1)
        else (t c).rule) =
      if n ≤ (t c).rule.length then (t c).rule.eraseIdx (n - 1) else (t c).rule := by
    unfold DeletesAt
    rw [hstep, ← hrule]
    constructor
    · intro h
      obtain ⟨_, ht, hat, -⟩ := h
      cases ht
      exact hat
    · intro h
      exact ⟨t', rfl, h, hother⟩
  -- taking a rule out makes the list shorter
  have hshort : ∀ i < (t c).rule.length, (t c).rule.eraseIdx i ≠ (t c).rule := by
    intro i hi he
    have := congrArg List.length he
    rw [List.length_eraseIdx_of_lt hi] at this
    omega
  rw [hiff]
  by_cases hin : n ≤ (t c).rule.length
  · rw [if_pos hin, or_iff_left fun h => Nat.not_lt.mpr hin h.1]
    by_cases hsin : swapBytes n ≤ (t c).rule.length
    · rw [if_pos hsin]
      constructor
      · intro he
        have := eraseIdx_inj hcells (by omega) he
        omega
      · intro he
        rw [he]
    · rw [if_neg hsin]
      exact iff_of_false (fun he => hshort (n - 1) (by omega) he.symm) fun he => hsin (by rwa [he])
  · rw [if_neg hin]
    by_cases hsin : swapBytes n ≤ (t c).rule.length
    · rw [if_pos hsin]
      refine iff_of_false (hshort (swapBytes n - 1) (by omega)) fun h => ?_
      rcases h with h | h
      · exact hin (by rwa [← h])
      · omega
    · rw [if_neg hsin]
      exact iff_of_true rfl (.inr ⟨by omega, by omega⟩)

/-- A position behind the last rule, with the bytes exchanged too. -/
theorem delete_third_of_two :
    (deleteTool .lp64 .input 3 ⟨[], 0⟩).1 = 0 ∧
      DeletesAt twoRules .input 3
        (stepMsg .lp64 twoRules (deleteMsg .lp64 .input 3 ⟨[], 0⟩ 0 (plainRule 7))) := by
  have h := @delete_position_iff .lp64 .input 3 ⟨[], 0⟩ 0 (plainRule 7) twoRules (by decide)
    (by decide) (by decide) (by decide)
  exact ⟨h.1, h.2.mpr (.inr (by decide))⟩

/-- `-u 2` deletes nothing of two rules, and `-u 256` the first. -/
theorem second_of_two_stays :
    (∃ t', stepMsg .lp64 twoRules (deleteMsg .lp64 .input 2 ⟨[], 0⟩ 0 (plainRule 7)) = .ok t' ∧
        (t' .input).rule = [plainRule 1, plainRule 2]) ∧
      ¬ DeletesAt twoRules .input 2
        (stepMsg .lp64 twoRules (deleteMsg .lp64 .input 2 ⟨[], 0⟩ 0 (plainRule 7))) ∧
      (∃ t', stepMsg .lp64 twoRules (deleteMsg .lp64 .input 256 ⟨[], 0⟩ 0 (plainRule 7)) = .ok t' ∧
        (t' .input).rule = [plainRule 2]) ∧
      ¬ DeletesAt twoRules .input 256
        (stepMsg .lp64 twoRules (deleteMsg .lp64 .input 256 ⟨[], 0⟩ 0 (plainRule 7))) := by
  have hcases := fun (n : Nat) (h1 : 1 ≤ n) (h : n ≤ 65535) =>
    @stepMsg_delete_cases .lp64 .input n ⟨[], 0⟩ 0 (plainRule 7) twoRules h1 h (by decide)
  obtain ⟨t', hstep, hrule, -⟩ := hcases 2 (by decide) (by decide)
  obtain ⟨u, hstep', hrule', -⟩ := hcases 256 (by decide) (by decide)
  have h2 : (t' .input).rule = [plainRule 1, plainRule 2] := hrule.trans (by decide)
  have h256 : (u .input).rule = [plainRule 2] := hrule'.trans (by decide)
  refine ⟨⟨t', hstep, h2⟩, fun h => ?_, ⟨u, hstep', h256⟩, fun h => ?_⟩
  · obtain ⟨_, ht, hat, -⟩ := h
    rw [hstep] at ht
    cases ht
    exact absurd (h2.symm.trans hat) (by decide)
  · obtain ⟨_, ht, hat, -⟩ := h
    rw [hstep'] at ht
    cases ht
    exact absurd (h256.symm.trans hat) (by decide)

end LinuxNet.Sipfw
