import LinuxNet.Lib.Tests
import LinuxNet.Sipfw.Match
import LinuxNet.Sipfw.Parsed

/-!
# What a command line asks for, and what a rule tests

Two readings of the same packet. `Criteria` is what the user wrote: an option
that was given is a criterion, one that was not is a wildcard, and
`Criteria.test` is the meaning of that, field by field. `ruleTest` is what the
matcher of the kernel module compares, again field by field, once a rule is
linked. A packet is seen through its five coordinates (`Coord`), which are
free: `packetOf` builds a complete packet with any values of them.
-/

namespace LinuxNet.Sipfw

/-! ## The coordinates of a packet -/

/-- The four bits of a TCP header a command line can select. -/
structure TcpBits where
  syn : Bool
  ack : Bool
  fin : Bool
  rst : Bool
  deriving DecidableEq, Repr

/-- The bits as they stand in the flag byte. -/
def tcpBits (flags : Byte) : TcpBits :=
  ⟨flags.getLsbD 1, flags.getLsbD 4, flags.getLsbD 0, flags.getLsbD 2⟩

/-- The transport header, as far as it matters: TCP with its flag byte, or UDP. -/
inductive Transport where
  | tcp (flags : Byte)
  | udp
  deriving DecidableEq, Repr

def Transport.protocol : Transport → BitVec 8
  | .tcp _ => 6#8
  | .udp => 17#8

def Transport.bits : Transport → Option TcpBits
  | .tcp flags => some (tcpBits flags)
  | .udp => none

/-- What rules and command lines can speak about. -/
inductive Coord where
  | saddr
  | daddr
  | sport
  | dport
  | transport
  deriving DecidableEq, Repr

/-- The values of a coordinate; addresses and ports as they stand in the packet. -/
abbrev Coord.Val : Coord → Type
  | .saddr => BitVec 32
  | .daddr => BitVec 32
  | .sport => BitVec 16
  | .dport => BitVec 16
  | .transport => Transport

/-- The coordinates of a packet. -/
def SkBuff.view (skb : SkBuff) : ∀ c : Coord, c.Val
  | .saddr => iphSaddr skb.data
  | .daddr => iphDaddr skb.data
  | .sport => skb.data.u16 (iphHdrLen skb.data)
  | .dport => skb.data.u16 (iphHdrLen skb.data + 2)
  | .transport =>
    if iphProtocol skb.data = 6#8 then .tcp (skb.data (iphHdrLen skb.data + 13)) else .udp

/-- A whole TCP or UDP packet: IPv4, not a fragment, as long as it says, with
the transport header inside. -/
structure SkBuff.Complete (skb : SkBuff) : Prop where
  version : (skb.data 0).toNat / 16 = 4
  header : 20 ≤ iphHdrLen skb.data
  length : (ntohs (skb.data.u16 2)).toNat = skb.len
  whole : (ntohs (skb.data.u16 6)).toNat % 16384 = 0
  transport : iphProtocol skb.data = 6#8 ∧ iphHdrLen skb.data + 20 ≤ skb.len ∨
    iphProtocol skb.data = 17#8 ∧ iphHdrLen skb.data + 8 ≤ skb.len

/-- The flag byte a transport header carries. -/
def Transport.flags : Transport → Byte
  | .tcp flags => flags
  | .udp => 0#8

/-- A packet with given coordinates: a 20-byte IP header and 20 bytes behind it. -/
def packetOf (x : ∀ c : Coord, c.Val) : SkBuff where
  data o :=
    ([0x45#8, 0#8, 0#8, 40#8, 0#8, 0#8, 0#8, 0#8, 64#8, (x .transport).protocol, 0#8, 0#8] ++
      bytesOf32 (x .saddr) ++ bytesOf32 (x .daddr) ++ bytesOf16 (x .sport) ++
      bytesOf16 (x .dport) ++ List.replicate 9 0#8 ++ [(x .transport).flags]).getD o 0#8
  len := 40
  mac _ := 0#8

theorem packetOf_hdrLen (x : ∀ c : Coord, c.Val) : iphHdrLen (packetOf x).data = 20 := by
  rw [iphHdrLen, show (packetOf x).data 0 = 0x45#8 from rfl]
  rfl

theorem packetOf_protocol (x : ∀ c : Coord, c.Val) :
    iphProtocol (packetOf x).data = (x .transport).protocol := rfl

theorem packetOf_view (x : ∀ c : Coord, c.Val) : (packetOf x).view = x := by
  funext c
  cases c with
  | saddr => exact le32_byteOf (x .saddr)
  | daddr => exact le32_byteOf (x .daddr)
  | sport =>
    rw [SkBuff.view, packetOf_hdrLen]
    exact le16_byteOf (x .sport)
  | dport =>
    rw [SkBuff.view, packetOf_hdrLen]
    exact le16_byteOf (x .dport)
  | transport =>
    rw [SkBuff.view, packetOf_hdrLen, packetOf_protocol,
      show (packetOf x).data (20 + 13) = (x .transport).flags from rfl]
    cases x .transport <;> rfl

theorem packetOf_complete (x : ∀ c : Coord, c.Val) : (packetOf x).Complete where
  version := by rw [show (packetOf x).data 0 = 0x45#8 from rfl]; rfl
  header := Nat.le_of_eq (packetOf_hdrLen x).symm
  length := by
    rw [Mem.u16, show (packetOf x).data 2 = 0#8 from rfl, show (packetOf x).data 3 = 40#8 from rfl,
      show (packetOf x).len = 40 from rfl]
    decide
  whole := by
    rw [Mem.u16, show (packetOf x).data 6 = 0#8 from rfl, show (packetOf x).data 7 = 0#8 from rfl]
    decide
  transport := by
    rw [packetOf_hdrLen, packetOf_protocol]
    cases x .transport with
    | tcp flags => exact .inl ⟨rfl, Nat.le_refl 40⟩
    | udp => exact .inr ⟨rfl, Nat.le_add_right 28 12⟩

/-! ## What a rule tests -/

/-- The matcher's comparison: equal, or the field of the rule is 0. -/
def Wild {w : Nat} (a x : BitVec w) : Prop := x = a ∨ a = 0#w

/-- What the matcher asks of each coordinate. -/
def ruleTest (r : SipfwRules) : ∀ c : Coord, c.Val → Prop
  | .saddr, x => Wild r.source x
  | .daddr, x => Wild r.dest x
  | .sport, x => Wild r.sport x
  | .dport, x => Wild r.dport x
  | .transport, t => Wild r.protocol t.protocol ∧
      ∀ flags, t = .tcp flags → r.addtion = 0#32 ∨ tcpFlagsMatch r.addtion flags = true

theorem forall_coord {p : Coord → Prop} :
    (∀ c, p c) ↔ p .saddr ∧ p .daddr ∧ p .sport ∧ p .dport ∧ p .transport := by
  constructor
  · exact fun h => ⟨h _, h _, h _, h _, h _⟩
  · intro h c
    obtain ⟨h1, h2, h3, h4, h5⟩ := h
    cases c with
    | saddr => exact h1
    | daddr => exact h2
    | sport => exact h3
    | dport => exact h4
    | transport => exact h5

theorem SkBuff.view_tcp {skb : SkBuff} (h : iphProtocol skb.data = 6#8) :
    skb.view .transport = .tcp (skb.data (iphHdrLen skb.data + 13)) := if_pos h

theorem SkBuff.view_udp {skb : SkBuff} (h : iphProtocol skb.data = 17#8) :
    skb.view .transport = .udp := if_neg (by rw [h]; decide)

theorem ruleTest_tcp (r : SipfwRules) (flags : Byte) :
    ruleTest r .transport (.tcp flags) ↔ (6#8 = r.protocol ∨ r.protocol = 0#8) ∧
      (r.addtion = 0#32 ∨ tcpFlagsMatch r.addtion flags = true) :=
  and_congr_right fun _ => ⟨fun h => h flags rfl, fun h _ ht => by cases ht; exact h⟩

theorem ruleTest_udp (r : SipfwRules) :
    ruleTest r .transport .udp ↔ (17#8 = r.protocol ∨ r.protocol = 0#8) :=
  and_iff_left fun _ ht => nomatch ht

/-- On a complete packet the matcher tests each coordinate, and nothing else. -/
theorem ruleMatches_iff {skb : SkBuff} (hc : skb.Complete) (r : SipfwRules) :
    ruleMatches skb r = true ↔ ∀ c, ruleTest r c (skb.view c) := by
  rw [ruleMatches, Bool.and_eq_true, isIPMatch_val, forall_coord]
  rcases hc.transport with ⟨hp, _⟩ | ⟨hp, _⟩
  · rw [isAddtionMatch_tcp _ _ hp, portsMatch_val, SkBuff.view_tcp hp, ruleTest_tcp, hp]
    exact ⟨fun ⟨⟨hd, hs, h6⟩, ⟨hsp, hdp⟩, ha⟩ => ⟨hs, hd, hsp, hdp, h6, ha⟩,
      fun ⟨hs, hd, hsp, hdp, h6, ha⟩ => ⟨⟨hd, hs, h6⟩, ⟨hsp, hdp⟩, ha⟩⟩
  · rw [isAddtionMatch_udp _ _ hp, portsMatch_val, SkBuff.view_udp hp, ruleTest_udp, hp]
    exact ⟨fun ⟨⟨hd, hs, h17⟩, hsp, hdp⟩ => ⟨hs, hd, hsp, hdp, h17⟩,
      fun ⟨hs, hd, hsp, hdp, h17⟩ => ⟨⟨hd, hs, h17⟩, hsp, hdp⟩⟩

/-! ## What a command line asks for -/

/-- The criteria of a command line; `none` is a wildcard. -/
structure Criteria where
  source : Option (BitVec 32)
  dest : Option (BitVec 32)
  sport : Option Nat
  dport : Option Nat
  protocol : Option CStr
  flags : Option TcpBits

/-- The protocol a name stands for. -/
def protocolNamed (str : CStr) : Option (BitVec 8) :=
  (sipfwProtocolName.find? (·.ptr = some str)).map (·.value.setWidth 8)

/-- A command line is read option by option: the last one counts. -/
def Criteria.ofEvents (abi : Abi) (evs : List OptEvent) : Criteria where
  source := (namedArg .s evs).map inetAddr
  dest := (namedArg .d evs).map inetAddr
  sport := (namedArg .m evs).map (strtoul abi.ulongMax)
  dport := (namedArg .n evs).map (strtoul abi.ulongMax)
  protocol := namedArg .p evs
  flags :=
    if flagGiven evs then
      some ⟨given .y evs || given .k evs, given .k evs, given .f evs, given .r evs⟩
    else none

/-- What the criteria ask of each coordinate. -/
def Criteria.test (crit : Criteria) : ∀ c : Coord, c.Val → Prop
  | .saddr, x => ∀ a ∈ crit.source, x = a
  | .daddr, x => ∀ a ∈ crit.dest, x = a
  | .sport, x => ∀ n ∈ crit.sport, (ntohs x).toNat = n
  | .dport, x => ∀ n ∈ crit.dport, (ntohs x).toNat = n
  | .transport, t =>
    (∀ str ∈ crit.protocol, protocolNamed str = some t.protocol) ∧
      ∀ b ∈ crit.flags, t.bits = some b

/-- The packet satisfies every criterion. -/
def Criteria.Satisfied (crit : Criteria) (skb : SkBuff) : Prop :=
  ∀ c, crit.test c (skb.view c)

end LinuxNet.Sipfw
