import LinuxNet.Sipfw.Criteria
import LinuxNet.Sipfw.Handlers

/-!
# From the command line to the verdict

`Faithful` is what an `--append` command promises: the rule the kernel module
builds accepts a complete TCP or UDP packet exactly when the packet satisfies
the criteria of the command line. Both sides are conjunctions over the five
free coordinates of a packet, so by `tests_agree_iff` the promise splits into
one question per coordinate.

It is kept on few command lines (`Kept`): `rule->dest` is never assigned, the
default of the protocol is not the matcher's wildcard, and the RST bit is not
compared. What is left are commands that ask for nothing a TCP or UDP packet
can satisfy and get a rule that matches none, and `-p tcp` or `-p udp` without
flags where the cell happened to hold the right destination already.
-/

namespace LinuxNet.Sipfw

/-- `SIPFW_JudgeCommand` lets the command line through, and it is an APPEND. -/
def AcceptedAppend (abi : Abi) (argv : List CStr) (ifname : SipfwVariant) : Prop :=
  (toolMain abi argv ifname).1 = 0 ∧
    (toolMain abi argv ifname).2.command.vUint = Cmd.append.code

instance (abi : Abi) (argv : List CStr) (ifname : SipfwVariant) :
    Decidable (AcceptedAppend abi argv ifname) := by
  unfold AcceptedAppend; infer_instance

/-- The rule built for a command line in the cell `mem`. -/
def builtRule (abi : Abi) (argv : List CStr) (ifname : SipfwVariant) (mem : SipfwRules) :
    SipfwRules :=
  buildRule mem (toolMain abi argv ifname).2

/-- The criteria of a command line. -/
def criteria (abi : Abi) (argv : List CStr) : Criteria := .ofEvents abi (optEvents argv)

/-- The rule matches a complete packet exactly when the packet satisfies the
criteria the command line named. -/
def Faithful (abi : Abi) (argv : List CStr) (ifname : SipfwVariant) (mem : SipfwRules) : Prop :=
  ∀ skb : SkBuff, skb.Complete →
    (ruleMatches skb (builtRule abi argv ifname mem) = true ↔
      (criteria abi argv).Satisfied skb)

/-- The command lines, and the old contents of the cell, for which the rule is
faithful. -/
def Kept (crit : Criteria) (dest : BitVec 32) : Prop :=
  match crit.protocol with
  | none => (∃ n ∈ crit.sport, 65536 ≤ n) ∨ ∃ n ∈ crit.dport, 65536 ≤ n
  | some str =>
    "icmp".toList <+: str ∨ "igmp".toList <+: str ∨
      ((str = "tcp".toList ∨ str = "udp".toList) ∧ crit.flags = none ∧
        (dest = crit.dest.getD 0#32 ∧ crit.dest ≠ some 0#32) ∧ crit.source ≠ some 0#32 ∧
        (∀ n ∈ crit.sport, 1 ≤ n ∧ n ≤ 65535) ∧ ∀ n ∈ crit.dport, 1 ≤ n ∧ n ≤ 65535)

/-! ## One coordinate at a time -/

/-- Two conjunctions of tests over packets agree coordinatewise or accept nothing. -/
theorem faithful_iff_tests (abi : Abi) (argv : List CStr) (ifname : SipfwVariant)
    (mem : SipfwRules) :
    Faithful abi argv ifname mem ↔
      ((∃ c, ∀ x, ¬ ruleTest (builtRule abi argv ifname mem) c x) ∧
        ∃ c, ∀ x, ¬ (criteria abi argv).test c x) ∨
      ∀ c x, ruleTest (builtRule abi argv ifname mem) c x ↔ (criteria abi argv).test c x := by
  rw [← tests_agree_iff]
  constructor
  · intro h x
    have hx := h (packetOf x) (packetOf_complete x)
    rwa [ruleMatches_iff (packetOf_complete x), Criteria.Satisfied, packetOf_view] at hx
  · intro h skb hc
    rw [ruleMatches_iff hc]
    exact h skb.view

/-- An address field holds the criterion: right value, and a value that the
matcher does not take for a wildcard. -/
theorem address_agree_iff (m : BitVec 32) (o : Option (BitVec 32)) :
    (∀ x : BitVec 32, Wild m x ↔ ∀ a ∈ o, x = a) ↔ m = o.getD 0#32 ∧ o ≠ some 0#32 := by
  cases o with
  | none =>
    constructor
    · intro h
      refine ⟨?_, nofun⟩
      -- no packet address is excluded, not even one that differs from the rule
      rcases (h (m + 1#32)).mpr nofun with h1 | h0
      · exact absurd h1 (by bv_omega)
      · exact h0
    · intro h x
      obtain ⟨rfl, _⟩ := h
      exact ⟨fun _ => nofun, fun _ => .inr rfl⟩
  | some a =>
    simp only [Option.mem_some_iff, forall_eq', Option.getD_some, ne_eq, Option.some.injEq]
    constructor
    · intro h
      have hm : m = a := (h m).mp (.inl rfl)
      refine ⟨hm, fun h0 => ?_⟩
      -- 0 would match every address, its successor too
      have h1 : a + 1#32 = a := (h _).mp (.inr (hm.trans h0))
      bv_omega
    · intro h x
      obtain ⟨rfl, h0⟩ := h
      exact or_iff_left h0

/-- The number a port field holds. -/
def portField (o : Option Nat) : BitVec 16 := htons (BitVec.ofNat 16 (o.getD 0))

/-- A port field holds the criterion exactly for the ports from 1 to 65535. -/
theorem port_agree_iff (o : Option Nat) :
    (∀ x : BitVec 16, Wild (portField o) x ↔ ∀ n ∈ o, (ntohs x).toNat = n) ↔
      ∀ n ∈ o, 1 ≤ n ∧ n ≤ 65535 := by
  cases o with
  | none => exact ⟨fun _ => nofun, fun _ x => ⟨fun _ => nofun, fun _ => .inr rfl⟩⟩
  | some n =>
    simp only [Option.mem_some_iff, forall_eq', portField, Option.getD_some, Wild, htons_eq_zero]
    constructor
    · intro h
      have hn : n < 65536 := by
        have := (h _).mp (.inl rfl)
        rw [ntohs_htons_ofNat] at this
        omega
      refine ⟨Nat.one_le_iff_ne_zero.mpr fun h0 => ?_, by omega⟩
      have := (h 1#16).mp (.inr (by rw [h0]))
      rw [h0] at this
      exact absurd this (by decide)
    · intro h x
      obtain ⟨h1, h2⟩ := h
      have h0 : BitVec.ofNat 16 n ≠ 0#16 := by bv_omega
      rw [or_iff_left h0]
      exact eq_htons_ofNat_iff (by omega) x

/-- A port criterion that some packet satisfies. -/
theorem port_sat_iff (o : Option Nat) :
    (∀ x : BitVec 16, ¬ ∀ n ∈ o, (ntohs x).toNat = n) ↔ ∃ n ∈ o, 65536 ≤ n := by
  cases o with
  | none => exact ⟨fun h => absurd nofun (h 0#16), nofun⟩
  | some n =>
    simp only [Option.mem_some_iff, forall_eq', exists_eq_left']
    constructor
    · intro h
      by_contra hn
      refine h (htons (BitVec.ofNat 16 n)) ?_
      rw [ntohs_htons_ofNat]
      omega
    · intro h x hx
      have := (ntohs x).isLt
      omega

/-! ## The protocol and the flags -/

/-- The search of `SIPFW_OPT_PROTOCOL` accepts every word that begins with a
name of the table. -/
theorem findProtocol_eq (str : CStr) :
    findProtocol str =
      if "tcp".toList <+: str then some 6#32
      else if "udp".toList <+: str then some 17#32
      else if "icmp".toList <+: str then some 1#32
      else if "igmp".toList <+: str then some 2#32
      else none := by
  have htable : sipfwProtocolName.takeWhile (·.ptr.isSome) =
      [⟨some "tcp".toList, 3, 6⟩, ⟨some "udp".toList, 3, 17⟩, ⟨some "icmp".toList, 4, 1⟩,
        ⟨some "igmp".toList, 4, 2⟩] := by rfl
  -- each name is compared over its own length, so it only has to be a prefix
  have hcmp : ∀ name : CStr, strncmp0 name str name.length = decide (name <+: str) := fun name => by
    rw [strncmp0_comm, Bool.eq_iff_iff, strncmp0_iff_prefix, decide_eq_true_iff]
  rw [findProtocol, htable]
  simp only [List.find?_cons, Option.getD_some, List.find?_nil]
  rw [show 3 = "tcp".toList.length from rfl, hcmp, show "tcp".toList.length = "udp".toList.length
    from rfl, hcmp, show 4 = "icmp".toList.length from rfl, hcmp,
    show "icmp".toList.length = "igmp".toList.length from rfl, hcmp]
  by_cases h1 : "tcp".toList <+: str
  · simp only [h1, decide_true, if_true]; rfl
  by_cases h2 : "udp".toList <+: str
  · simp only [h1, h2, decide_true, decide_false, if_true, if_false]; rfl
  by_cases h3 : "icmp".toList <+: str
  · simp only [h1, h2, h3, decide_true, decide_false, if_true, if_false]; rfl
  by_cases h4 : "igmp".toList <+: str
  all_goals simp only [h1, h2, h3, h4, decide_true, decide_false, if_true, if_false]; rfl

/-- A name stands for the number next to it in the table. -/
theorem protocolNamed_cases {str : CStr} {p : BitVec 8} (h : protocolNamed str = some p) :
    str = "tcp".toList ∧ p = 6#8 ∨ str = "udp".toList ∧ p = 17#8 ∨
      str = "icmp".toList ∧ p = 1#8 ∨ str = "igmp".toList ∧ p = 2#8 := by
  obtain ⟨v, hv, rfl⟩ := Option.map_eq_some_iff.mp h
  have hptr : v.ptr = some str := by simpa using List.find?_some hv
  have hmem := List.mem_of_find?_eq_some hv
  simp only [sipfwProtocolName, List.mem_cons, List.not_mem_nil, or_false] at hmem
  rcases hmem with rfl | rfl | rfl | rfl | rfl
  · exact .inl ⟨(Option.some.inj hptr).symm, rfl⟩
  · exact .inr (.inl ⟨(Option.some.inj hptr).symm, rfl⟩)
  · exact .inr (.inr (.inl ⟨(Option.some.inj hptr).symm, rfl⟩))
  · exact .inr (.inr (.inr ⟨(Option.some.inj hptr).symm, rfl⟩))
  · cases hptr

theorem protocolNamed_eq_tcp (str : CStr) : protocolNamed str = some 6#8 ↔ str = "tcp".toList := by
  constructor
  · intro h
    rcases protocolNamed_cases h with ⟨h, _⟩ | ⟨_, h⟩ | ⟨_, h⟩ | ⟨_, h⟩
    · exact h
    all_goals exact absurd h (by decide)
  · intro he
    subst he
    decide

theorem protocolNamed_eq_udp (str : CStr) : protocolNamed str = some 17#8 ↔ str = "udp".toList := by
  constructor
  · intro h
    rcases protocolNamed_cases h with ⟨_, h⟩ | ⟨h, _⟩ | ⟨_, h⟩ | ⟨_, h⟩
    · exact absurd h (by decide)
    · exact h
    all_goals exact absurd h (by decide)
  · intro he
    subst he
    decide

/-! ## The fields of the built rule -/

section Built

variable (abi : Abi) (argv : List CStr) (ifname : SipfwVariant) (mem : SipfwRules)

theorem built_source :
    (builtRule abi argv ifname mem).source = (criteria abi argv).source.getD 0#32 :=
  sent_get .source argv ifname

theorem built_dest : (builtRule abi argv ifname mem).dest = mem.dest := rfl

/-- A port argument is stored as the port field of the number it is. -/
theorem setWidth_parsePort (o : Option CStr) :
    ((o.map (parsedValue abi .port)).getD 0#32).setWidth 16 =
      portField (o.map (strtoul abi.ulongMax)) := by
  cases o with
  | none =>
    change (0#32).setWidth 16 = htons 0#16
    decide
  | some str =>
    change ((htons (BitVec.ofNat 16 (strtoul abi.ulongMax str))).setWidth 32).setWidth 16 = _
    rw [BitVec.setWidth_setWidth_of_le _ (by decide : 16 ≤ 32), BitVec.setWidth_eq]
    rfl

theorem built_sport :
    (builtRule abi argv ifname mem).sport = portField (criteria abi argv).sport :=
  (congrArg (BitVec.setWidth 16) (sent_get .sport argv ifname)).trans
    (setWidth_parsePort abi _)

theorem built_dport :
    (builtRule abi argv ifname mem).dport = portField (criteria abi argv).dport :=
  (congrArg (BitVec.setWidth 16) (sent_get .dport argv ifname)).trans
    (setWidth_parsePort abi _)

/-- No protocol named: the field holds 255, which is not the wildcard. -/
theorem built_protocol :
    (builtRule abi argv ifname mem).protocol =
      (((criteria abi argv).protocol.map fun str => (findProtocol str).getD 0#32).getD
        (-1#32)).setWidth 8 :=
  congrArg (BitVec.setWidth 8) (sent_get .protocol argv ifname)

theorem built_addtion :
    (builtRule abi argv ifname mem).addtion = 0#32 ↔ (criteria abi argv).flags = none := by
  rw [show (builtRule abi argv ifname mem).addtion = (toolMain abi argv ifname).2.addtion from rfl,
    sent_addtion_eq_zero, criteria, Criteria.ofEvents]
  cases flagGiven (optEvents argv) <;> simp

end Built

/-! ## The transport coordinate -/

/-- A flag byte whose FIN, SYN and ACK are those of a rule, with RST as wanted. -/
def flagsOf (a : Addtion) (rst : Bool) : Byte :=
  BitVec.ofNat 8 (a.tcpFin.toNat + 2 * a.tcpSyn.toNat + 4 * rst.toNat + 16 * a.tcpAck.toNat)

/-- The flag test of a rule does not see RST. -/
theorem tcpFlagsMatch_flagsOf (a : Addtion) (rst : Bool) :
    tcpFlagsMatch a (flagsOf a rst) = true := by
  unfold tcpFlagsMatch flagsOf
  cases a.tcpFin <;> cases a.tcpSyn <;> cases a.tcpAck <;> cases rst <;> decide

theorem tcpBits_flagsOf (a : Addtion) (rst : Bool) : (tcpBits (flagsOf a rst)).rst = rst := by
  unfold tcpBits flagsOf
  cases a.tcpFin <;> cases a.tcpSyn <;> cases a.tcpAck <;> cases rst <;> decide

/-- Every combination of the four bits stands in some flag byte. -/
theorem exists_tcpBits (b : TcpBits) : ∃ flags, tcpBits flags = b := by
  obtain ⟨syn, ack, fin, rst⟩ := b
  refine ⟨BitVec.ofNat 8 (fin.toNat + 2 * syn.toNat + 4 * rst.toNat + 16 * ack.toNat), ?_⟩
  cases fin <;> cases syn <;> cases rst <;> cases ack <;> decide

/-- A rule whose protocol is TCP, UDP or the wildcard lets some packet pass. -/
theorem rule_sat {r : SipfwRules} (h : r.protocol = 6#8 ∨ r.protocol = 17#8 ∨ r.protocol = 0#8) :
    ∀ c, ∃ x, ruleTest r c x
  | .saddr => ⟨r.source, .inl rfl⟩
  | .daddr => ⟨r.dest, .inl rfl⟩
  | .sport => ⟨r.sport, .inl rfl⟩
  | .dport => ⟨r.dport, .inl rfl⟩
  | .transport => by
    rcases h with h | h | h
    · exact ⟨.tcp (flagsOf r.addtion true), (ruleTest_tcp _ _).mpr
        ⟨.inl h.symm, .inr (tcpFlagsMatch_flagsOf _ _)⟩⟩
    · exact ⟨.udp, (ruleTest_udp r).mpr (.inl h.symm)⟩
    · exact ⟨.udp, (ruleTest_udp r).mpr (.inr h)⟩

/-- A rule with any other protocol passes no TCP or UDP packet. -/
theorem rule_unsat {r : SipfwRules} (h6 : r.protocol ≠ 6#8) (h17 : r.protocol ≠ 17#8)
    (h0 : r.protocol ≠ 0#8) (t : Transport) : ¬ ruleTest r .transport t := by
  cases t with
  | tcp flags =>
    rw [ruleTest_tcp]
    intro h
    rcases h with ⟨h | h, _⟩
    · exact h6 h.symm
    · exact h0 h
  | udp =>
    rw [ruleTest_udp]
    intro h
    rcases h with h | h
    · exact h17 h.symm
    · exact h0 h

/-- With a flag criterion a rule is never right: it ignores RST, and it ignores
all flags of a UDP packet. -/
theorem transport_flags {r : SipfwRules} {crit : Criteria} {b : TcpBits}
    (hb : crit.flags = some b)
    (hr : r.protocol = 6#8 ∨ r.protocol = 17#8 ∨ r.protocol = 0#8) :
    ¬ ∀ t, ruleTest r .transport t ↔ crit.test .transport t := by
  intro h
  rcases hr with h6 | hr
  · -- RST is not compared, so two packets that differ in it both pass
    have hrst : ∀ rst, tcpBits (flagsOf r.addtion rst) = b := fun rst => by
      have hx := (h (.tcp (flagsOf r.addtion rst))).mp ((ruleTest_tcp _ _).mpr
        ⟨.inl h6.symm, .inr (tcpFlagsMatch_flagsOf _ _)⟩)
      exact Option.some.inj (hx.2 b hb)
    have h1 := tcpBits_flagsOf r.addtion true
    have h2 := tcpBits_flagsOf r.addtion false
    rw [hrst] at h1 h2
    exact Bool.noConfusion (h1.symm.trans h2)
  · have hudp := (h .udp).mp ((ruleTest_udp r).mpr (hr.imp_left Eq.symm))
    exact nomatch hudp.2 b hb

/-- Without flags only the protocol is left to agree on. -/
theorem transport_plain {r : SipfwRules} {crit : Criteria} {str : CStr}
    (hf : crit.flags = none) (ha : r.addtion = 0#32) (hs : crit.protocol = some str) :
    (∀ t, ruleTest r .transport t ↔ crit.test .transport t) ↔
      ((6#8 = r.protocol ∨ r.protocol = 0#8) ↔ str = "tcp".toList) ∧
        ((17#8 = r.protocol ∨ r.protocol = 0#8) ↔ str = "udp".toList) := by
  have htest : ∀ t, crit.test .transport t ↔ protocolNamed str = some t.protocol := fun t =>
    ⟨fun h => h.1 str hs, fun h => ⟨fun str' hs' => by
      rw [hs, Option.mem_some_iff] at hs'
      exact hs' ▸ h, fun b hb => by rw [hf] at hb; exact nomatch hb⟩⟩
  rw [← protocolNamed_eq_tcp, ← protocolNamed_eq_udp]
  constructor
  · intro h
    have h6 := h (.tcp 0#8)
    have h17 := h .udp
    rw [ruleTest_tcp, htest, and_iff_left (Or.inl ha)] at h6
    rw [ruleTest_udp, htest] at h17
    exact ⟨h6, h17⟩
  · intro h t
    obtain ⟨h6, h17⟩ := h
    rw [htest]
    cases t with
    | tcp flags => rw [ruleTest_tcp, and_iff_left (Or.inl ha)]; exact h6
    | udp => rw [ruleTest_udp]; exact h17

/-! ## The theorem -/

/-- The protocol number stored for a name. -/
def protocolField (str : CStr) : BitVec 8 := ((findProtocol str).getD 0#32).setWidth 8

/-- What the stored number says about the name. -/
theorem protocolField_cases (str : CStr) :
    "tcp".toList <+: str ∧ protocolField str = 6#8 ∨
    "udp".toList <+: str ∧ protocolField str = 17#8 ∨
    "icmp".toList <+: str ∧ protocolField str = 1#8 ∨
    "igmp".toList <+: str ∧ protocolField str = 2#8 ∨
    (¬ "tcp".toList <+: str ∧ ¬ "udp".toList <+: str ∧ ¬ "icmp".toList <+: str ∧
      ¬ "igmp".toList <+: str) ∧ protocolField str = 0#8 := by
  unfold protocolField
  rw [findProtocol_eq]
  split
  next h => exact .inl ⟨h, by decide⟩
  next h1 =>
    split
    next h => exact .inr (.inl ⟨h, by decide⟩)
    next h2 =>
      split
      next h => exact .inr (.inr (.inl ⟨h, by decide⟩))
      next h3 =>
        split
        next h => exact .inr (.inr (.inr (.inl ⟨h, by decide⟩)))
        next h4 => exact .inr (.inr (.inr (.inr ⟨⟨h1, h2, h3, h4⟩, by decide⟩)))

/-- Names of different protocols begin differently. -/
theorem not_prefix_both {a b str : CStr} (hb : b <+: str) (hab : ¬ a <+: b) (hba : ¬ b <+: a) :
    ¬ a <+: str := fun ha => by
  rcases Nat.le_total a.length b.length with hl | hl
  · exact hab (List.prefix_of_prefix_length_le ha hb hl)
  · exact hba (List.prefix_of_prefix_length_le hb ha hl)

/-- The stored number is right exactly for the two names spelled out. -/
theorem protocolField_right_iff {str : CStr} (hi : ¬ "icmp".toList <+: str)
    (hg : ¬ "igmp".toList <+: str) :
    (((6#8 = protocolField str ∨ protocolField str = 0#8) ↔ str = "tcp".toList) ∧
      ((17#8 = protocolField str ∨ protocolField str = 0#8) ↔ str = "udp".toList)) ↔
      str = "tcp".toList ∨ str = "udp".toList := by
  rcases protocolField_cases str with ⟨h, hf⟩ | ⟨h, hf⟩ | ⟨h, _⟩ | ⟨h, _⟩ | ⟨⟨h1, h2, _⟩, hf⟩
  · have hne : str ≠ "udp".toList := by
      intro he
      subst he
      exact absurd h (by decide)
    rw [hf]
    constructor
    · intro h
      obtain ⟨h6, _⟩ := h
      exact .inl (h6.mp (.inl rfl))
    · intro h
      rcases h with h6 | h17
      · exact ⟨⟨fun _ => h6, fun _ => .inl rfl⟩,
          ⟨fun h => absurd h (by decide), fun h => absurd h hne⟩⟩
      · exact absurd h17 hne
  · have hne : str ≠ "tcp".toList := by
      intro he
      subst he
      exact absurd h (by decide)
    rw [hf]
    constructor
    · intro h
      obtain ⟨_, h17⟩ := h
      exact .inr (h17.mp (.inl rfl))
    · intro h
      rcases h with h6 | h17
      · exact absurd h6 hne
      · exact ⟨⟨fun h => absurd h (by decide), fun h => absurd h hne⟩,
          ⟨fun _ => h17, fun _ => .inl rfl⟩⟩
  · exact absurd h hi
  · exact absurd h hg
  · rw [hf]
    constructor
    · intro h
      obtain ⟨h6, _⟩ := h
      exact .inl (h6.mp (.inr rfl))
    · intro h
      rcases h with rfl | rfl
      · exact absurd (List.prefix_refl _) h1
      · exact absurd (List.prefix_refl _) h2

/-- Criteria that name no protocol are satisfied by some packet unless a port
is out of range. -/
theorem criteria_unsat_iff {crit : Criteria} (hp : crit.protocol = none) :
    (∃ c, ∀ x, ¬ crit.test c x) ↔
      (∃ n ∈ crit.sport, 65536 ≤ n) ∨ ∃ n ∈ crit.dport, 65536 ≤ n := by
  have haddr : ∀ o : Option (BitVec 32), ∀ a ∈ o, o.getD 0#32 = a := fun o a ha => by
    rw [Option.mem_def] at ha
    rw [ha]
    rfl
  constructor
  · intro h
    obtain ⟨c, hc⟩ := h
    cases c with
    | saddr => exact absurd (haddr crit.source) (hc _)
    | daddr => exact absurd (haddr crit.dest) (hc _)
    | sport => exact .inl ((port_sat_iff crit.sport).mp hc)
    | dport => exact .inr ((port_sat_iff crit.dport).mp hc)
    | transport =>
      have hpn : ∀ t : Transport, ∀ str ∈ crit.protocol, protocolNamed str = some t.protocol := by
        rw [hp]
        nofun
      -- without flags any datagram will do, with flags a segment that carries them
      cases hf : crit.flags with
      | none => exact absurd ⟨hpn _, by rw [hf]; nofun⟩ (hc .udp)
      | some b =>
        obtain ⟨flags, hb⟩ := exists_tcpBits b
        refine absurd ⟨hpn _, fun b' hb' => ?_⟩ (hc (.tcp flags))
        rw [hf, Option.mem_some_iff] at hb'
        rw [Transport.bits, hb, hb']
  · intro h
    rcases h with h | h
    · exact ⟨.sport, (port_sat_iff crit.sport).mpr h⟩
    · exact ⟨.dport, (port_sat_iff crit.dport).mpr h⟩

section Main

variable {abi : Abi} {argv : List CStr} {ifname : SipfwVariant} {mem : SipfwRules}

/-- No protocol named: the rule matches nothing, so the criteria must too. -/
theorem faithful_no_protocol (hp : (criteria abi argv).protocol = none) :
    Faithful abi argv ifname mem ↔
      (∃ n ∈ (criteria abi argv).sport, 65536 ≤ n) ∨
        ∃ n ∈ (criteria abi argv).dport, 65536 ≤ n := by
  have hr := built_protocol abi argv ifname mem
  rw [hp] at hr
  have hun : ∀ t, ¬ ruleTest (builtRule abi argv ifname mem) .transport t :=
    rule_unsat (by rw [hr]; decide) (by rw [hr]; decide) (by rw [hr]; decide)
  rw [faithful_iff_tests, ← criteria_unsat_iff hp]
  constructor
  · intro h
    rcases h with ⟨_, h⟩ | h
    · exact h
    · exact ⟨.transport, fun t ht => hun t ((h .transport t).mpr ht)⟩
  · exact fun h => .inl ⟨⟨.transport, hun⟩, h⟩

/-- ICMP or IGMP named: neither side has anything to say about TCP and UDP. -/
theorem faithful_icgmp {str : CStr} (hp : (criteria abi argv).protocol = some str)
    (hs : "icmp".toList <+: str ∨ "igmp".toList <+: str) : Faithful abi argv ifname mem := by
  have htcp : ¬ "tcp".toList <+: str := by
    rcases hs with h | h <;> exact not_prefix_both h (by decide) (by decide)
  have hudp : ¬ "udp".toList <+: str := by
    rcases hs with h | h <;> exact not_prefix_both h (by decide) (by decide)
  have hr : (builtRule abi argv ifname mem).protocol = protocolField str := by
    rw [built_protocol, hp]
    rfl
  rw [faithful_iff_tests]
  refine .inl ⟨⟨.transport, ?_⟩, ⟨.transport, fun t ht => ?_⟩⟩
  · rcases protocolField_cases str with ⟨h, _⟩ | ⟨h, _⟩ | ⟨_, h⟩ | ⟨_, h⟩ | ⟨⟨_, _, h3, h4⟩, _⟩
    · exact absurd h htcp
    · exact absurd h hudp
    · exact rule_unsat (by rw [hr, h]; decide) (by rw [hr, h]; decide) (by rw [hr, h]; decide)
    · exact rule_unsat (by rw [hr, h]; decide) (by rw [hr, h]; decide) (by rw [hr, h]; decide)
    · exact absurd hs (by simp only [h3, h4, or_self, not_false_eq_true])
  · have hn := ht.1 str hp
    cases t with
    | tcp flags => exact htcp ((protocolNamed_eq_tcp str).mp hn ▸ List.prefix_refl _)
    | udp => exact hudp ((protocolNamed_eq_udp str).mp hn ▸ List.prefix_refl _)

/-- Any other name: every coordinate has to agree. -/
theorem faithful_other {str : CStr} (hp : (criteria abi argv).protocol = some str)
    (hi : ¬ "icmp".toList <+: str) (hg : ¬ "igmp".toList <+: str) :
    Faithful abi argv ifname mem ↔
      (str = "tcp".toList ∨ str = "udp".toList) ∧ (criteria abi argv).flags = none ∧
        (mem.dest = (criteria abi argv).dest.getD 0#32 ∧ (criteria abi argv).dest ≠ some 0#32) ∧
        (criteria abi argv).source ≠ some 0#32 ∧
        (∀ n ∈ (criteria abi argv).sport, 1 ≤ n ∧ n ≤ 65535) ∧
        ∀ n ∈ (criteria abi argv).dport, 1 ≤ n ∧ n ≤ 65535 := by
  have hr : (builtRule abi argv ifname mem).protocol = protocolField str := by
    rw [built_protocol, hp]
    rfl
  have hsat : protocolField str = 6#8 ∨ protocolField str = 17#8 ∨ protocolField str = 0#8 := by
    rcases protocolField_cases str with ⟨_, h⟩ | ⟨_, h⟩ | ⟨h, _⟩ | ⟨h, _⟩ | ⟨_, h⟩
    · exact .inl h
    · exact .inr (.inl h)
    · exact absurd h hi
    · exact absurd h hg
    · exact .inr (.inr h)
  -- the rule lets some packet pass at every coordinate, so no coordinate can hide another
  have hrule := rule_sat (r := builtRule abi argv ifname mem) (by rw [hr]; exact hsat)
  rw [faithful_iff_tests, or_iff_right (fun h => by
    obtain ⟨⟨c, hc⟩, _⟩ := h
    obtain ⟨x, hx⟩ := hrule c
    exact hc x hx), forall_coord]
  have hsrc := address_agree_iff (builtRule abi argv ifname mem).source (criteria abi argv).source
  rw [built_source, and_iff_right rfl, ← built_source abi argv ifname mem] at hsrc
  have hdst := address_agree_iff (builtRule abi argv ifname mem).dest (criteria abi argv).dest
  rw [built_dest] at hdst
  have hsp := port_agree_iff (criteria abi argv).sport
  rw [← built_sport abi argv ifname mem] at hsp
  have hdp := port_agree_iff (criteria abi argv).dport
  rw [← built_dport abi argv ifname mem] at hdp
  have htr : (∀ t, ruleTest (builtRule abi argv ifname mem) .transport t ↔
      (criteria abi argv).test .transport t) ↔
      (str = "tcp".toList ∨ str = "udp".toList) ∧ (criteria abi argv).flags = none := by
    cases hf : (criteria abi argv).flags with
    | none =>
      rw [transport_plain hf ((built_addtion ..).mpr hf) hp, hr, protocolField_right_iff hi hg,
        and_iff_left rfl]
    | some b =>
      exact iff_of_false (transport_flags hf (by rw [hr]; exact hsat)) fun h => nomatch h.2
  rw [← and_assoc (a := _ ∨ _), ← htr, ← hsrc, ← hdst, ← hsp, ← hdp]
  exact ⟨fun ⟨h1, h2, h3, h4, h5⟩ => ⟨h5, h2, h1, h3, h4⟩,
    fun ⟨h5, h2, h1, h3, h4⟩ => ⟨h1, h2, h3, h4, h5⟩⟩

theorem faithful_iff_kept :
    Faithful abi argv ifname mem ↔ Kept (criteria abi argv) mem.dest := by
  unfold Kept
  cases hp : (criteria abi argv).protocol with
  | none => exact faithful_no_protocol hp
  | some str =>
    dsimp only
    rw [← or_assoc]
    by_cases hs : "icmp".toList <+: str ∨ "igmp".toList <+: str
    · exact iff_of_true (faithful_icgmp hp hs) (.inl hs)
    · rw [faithful_other hp (fun h => hs (.inl h)) (fun h => hs (.inr h)), or_iff_right hs]

/-- An accepted APPEND links the rule it builds at the end of its chain. -/
theorem append_links (h : AcceptedAppend abi argv ifname) (pid : BitVec 32) (t : SipfwTables)
    {c : Chain} (hc : (builtRule abi argv ifname mem).chain = c.code) :
    ∃ out, doAction mem pid (toolMain abi argv ifname).2 t = .ok out ∧
      (out.tables c).rule = (t c).rule ++ [builtRule abi argv ifname mem] := by
  rw [doAction, h.2, Cmd.ofInt_code]
  refine ⟨_, onChain_ok hc (ruleAddpend_eq _ _), ?_⟩
  dsimp only
  rw [SipfwTables.set_same]
  rfl

/-- **Rule fidelity of APPEND**: the rule that is linked is the built one, and
it is faithful to the command line exactly for the command lines and cells in
`Kept`. -/
theorem append_fidelity (h : AcceptedAppend abi argv ifname) :
    (∀ (pid : BitVec 32) (t : SipfwTables) (c : Chain),
      (builtRule abi argv ifname mem).chain = c.code →
        ∃ out, doAction mem pid (toolMain abi argv ifname).2 t = .ok out ∧
          (out.tables c).rule = (t c).rule ++ [builtRule abi argv ifname mem]) ∧
      (Faithful abi argv ifname mem ↔ Kept (criteria abi argv) mem.dest) :=
  ⟨fun pid t _ hc => append_links h pid t hc, faithful_iff_kept⟩

end Main

/-! ## A command line -/

/-- `-A INPUT -p tcp -d 10.0.0.1 -j DROP`. -/
def argvDest : List CStr :=
  ["-A".toList, "INPUT".toList, "-p".toList, "tcp".toList, "-d".toList, "10.0.0.1".toList,
    "-j".toList, "DROP".toList]

/-- A cell that `kmalloc` returned zeroed. -/
def zeroCell : SipfwRules := ⟨0, 0, 0, 0, 0, 0, 0, 0, 0⟩

/-- A TCP packet from 10.0.0.9 to 10.0.0.2, port 4000 to port 80. -/
def packetElsewhere : SkBuff :=
  packetOf fun
    | .saddr => 0x0900000A#32
    | .daddr => 0x0200000A#32
    | .sport => htons 4000#16
    | .dport => htons 80#16
    | .transport => .tcp 0x10#8

/-- A rule for the destination 10.0.0.1 drops what goes to 10.0.0.2. -/
theorem dest_not_faithful :
    AcceptedAppend .lp64 argvDest ⟨[], 0⟩ ∧ packetElsewhere.Complete ∧
      ruleMatches packetElsewhere (builtRule .lp64 argvDest ⟨[], 0⟩ zeroCell) = true ∧
      ¬ (criteria .lp64 argvDest).Satisfied packetElsewhere ∧
      ¬ Faithful .lp64 argvDest ⟨[], 0⟩ zeroCell := by
  have hc : packetElsewhere.Complete := packetOf_complete _
  have hm : ruleMatches packetElsewhere (builtRule .lp64 argvDest ⟨[], 0⟩ zeroCell) = true := by
    decide
  have hs : ¬ (criteria .lp64 argvDest).Satisfied packetElsewhere := fun h =>
    absurd (h .daddr 0x0100000A#32 (by decide)) (by decide)
  exact ⟨by decide, hc, hm, hs, fun h => hs ((h _ hc).mp hm)⟩

/-- The same command line with a cell that happens to hold 10.0.0.1. -/
theorem append_fidelity_dest :
    Faithful .lp64 argvDest ⟨[], 0⟩ { zeroCell with dest := 0x0100000A#32 } :=
  (append_fidelity (by decide)).2.mpr
    (.inr (.inr ⟨.inl (by decide), by decide, by decide, by decide, by decide, by decide⟩))

end LinuxNet.Sipfw
