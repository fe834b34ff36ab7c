import LinuxNet.Sip.Receive

/-!
# Which packets `ip_input` accepts

`Valid` says what an IPv4 packet has to be for a host to take it, without the
code. `AcceptsExactly` compares: the code hands a packet to the ICMP or the UDP
handler exactly if it is valid and of that protocol, and then with the transport
header behind all of the IP header.

The code makes four of the tests as it should (`Basics`). The other two it gets
wrong: the header length is compared with the total length the wrong way round,
and the checksum runs over the first 20 bytes whatever the header length is. So
it agrees with `Valid` on the packets that are only a header of 20 bytes and on
those that neither accepts (`acceptsExactly_iff`).
-/

namespace LinuxNet.Sip

/-! ## What a packet has to be -/

/-- `ihl * 4` of the packet in a frame. -/
def hdrLen (frame : Mem) : Nat := ipIhl frame ethHlen * 4

/-- The total length of the packet in a frame. -/
def totLen (frame : Mem) : Nat := ipTotLen frame ethHlen

/-- The tests that `ip_input` makes as it should: version, least header length,
total length against the frame, addresses. -/
structure Basics (dev : NetDevice) (frame : Mem) (n : Nat) : Prop where
  version : ipVersion frame ethHlen = 4
  hdrLen_ge : iphdrLen ≤ hdrLen frame
  totLen_le : totLen frame ≤ n - ethHlen
  dest : ipDaddr frame ethHlen = dev.ipHost ∨ Broadcast dev (ipDaddr frame ethHlen)
  source : ¬ Broadcast dev (ipSaddr frame ethHlen)

/-- A valid IPv4 packet for this host, in a frame of `n` bytes. -/
structure Valid (dev : NetDevice) (frame : Mem) (n : Nat) : Prop where
  basics : Basics dev frame n
  hdrLen_le : hdrLen frame ≤ totLen frame
  check : Verifies frame ethHlen (hdrLen frame)

/-- The buffer in which `input` hands a packet to `ip_input`. -/
def ipSkb (frame : Mem) (n : Nat) : Skbuff :=
  { rxSkb frame n with
    nh := ethHlen
    tail := ethHlen + iphdrLen
    len := (rxSkb frame n).len - 14#32 - 20#32 }

/-- The protocol and the buffer of a packet that goes to a transport handler. -/
def handlerOf : Handed → Option (Byte × Skbuff)
  | .icmp skb => some (1#8, skb)
  | .udp skb => some (17#8, skb)
  | _ => none

/-- What `ip_input` hands to a transport handler. -/
def handedTo (now : Nat) (dev : NetDevice) (st : ReassState) (skb : Skbuff) :
    Option (Byte × Skbuff) :=
  match (ipInput now dev st skb).val with
  | .ok (_, handed) => handlerOf handed
  | .error _ => none

/-- `ip_input` accepts the packet exactly if it is valid, for the handler of its
protocol, and passes the transport header on where the IP header ends. -/
def AcceptsExactly (now : Nat) (dev : NetDevice) (st : ReassState) (frame : Mem) (n : Nat) :
    Prop :=
  (∀ p, (∃ skb, handedTo now dev st (ipSkb frame n) = some (p, skb)) ↔
    Valid dev frame n ∧ ipProtocol frame ethHlen = p ∧ (p = 1#8 ∨ p = 17#8)) ∧
  ∀ p skb, handedTo now dev st (ipSkb frame n) = some (p, skb) →
    skb.th = ethHlen + hdrLen frame

/-! ## What the code tests -/

theorem addressesOk_iff (dev : NetDevice) (saddr daddr : BitVec 32) :
    addressesOk dev saddr daddr = true ↔
      (daddr = dev.ipHost ∨ Broadcast dev daddr) ∧ ¬ Broadcast dev saddr := by
  unfold addressesOk
  rw [Bool.and_eq_true, Bool.or_eq_true, beq_iff_eq, Bool.not_eq_true', ← Bool.not_eq_true,
    ipIsBroadcast_iff, ipIsBroadcast_iff]

/-- The unsigned subtraction of `ip_input` does not wrap for a frame with an
Ethernet header. -/
theorem frame_sub {n : Nat} (h14 : ethHlen ≤ n) (hn : n < 2 ^ 32) :
    (BitVec.ofNat 32 n - BitVec.ofNat 32 ethHlen).toNat = n - ethHlen := by
  rw [BitVec.toNat_sub, BitVec.toNat_ofNat, BitVec.toNat_ofNat]
  omega

/-- The checks of `ip_input`, without the reads. -/
theorem ipChecks_val (dev : NetDevice) (frame : Mem) (n : Nat) :
    (ipChecks dev (ipSkb frame n)).val =
      if ipVersion frame ethHlen ≠ 4 then false
      else if hdrLen frame < iphdrLen then false
      else if (BitVec.ofNat 32 n - BitVec.ofNat 32 ethHlen).toNat < totLen frame then false
      else if hdrLen frame < totLen frame then false
      else if (sipChksum frame ethHlen iphdrLen).val ≠ 0#16 then false
      else addressesOk dev (ipSaddr frame ethHlen) (ipDaddr frame ethHlen) := by
  simp only [ipChecks, Traced.val_bind, Traced.val_ite, Traced.val_pure]
  rfl

/-- **The checks**: `ip_input` lets a packet pass exactly if the basics are
right, its total length is *at most* its header length, and its first 20 bytes
verify. -/
theorem ipChecks_iff {dev : NetDevice} {frame : Mem} {n : Nat} (h14 : ethHlen ≤ n)
    (hn : n < 2 ^ 32) :
    (ipChecks dev (ipSkb frame n)).val = true ↔
      Basics dev frame n ∧ totLen frame ≤ hdrLen frame ∧ Verifies frame ethHlen iphdrLen := by
  have hsum : (sipChksum frame ethHlen iphdrLen).val = 0#16 ↔ Verifies frame ethHlen iphdrLen :=
    sipChksum_eq_zero_iff (by decide)
  rw [ipChecks_val, frame_sub h14 hn]
  simp only [Bool.if_false_left, Bool.and_eq_true, Bool.not_eq_true', decide_eq_false_iff_not,
    ne_eq, not_not, Nat.not_lt, addressesOk_iff, hsum]
  constructor
  · intro h
    obtain ⟨h1, h2, h3, h4, h5, h6, h7⟩ := h
    exact ⟨⟨h1, h2, h3, h6, h7⟩, h4, h5⟩
  · intro h
    obtain ⟨h, h4, h5⟩ := h
    exact ⟨h.version, h.hdrLen_ge, h.totLen_le, h4, h5, h.dest, h.source⟩

/-- The buffer that has passed the checks. -/
def checkedSkb (frame : Mem) (n : Nat) : Skbuff := { ipSkb frame n with ipSummed := .hw }

/-- A packet that is no fragment and passes goes by its protocol; no other goes
anywhere. -/
theorem handedTo_eq {now : Nat} {dev : NetDevice} {st : ReassState} {frame : Mem} {n : Nat}
    (hfrag : isFragment (ipSkb frame n) = false) :
    handedTo now dev st (ipSkb frame n) =
      if (ipChecks dev (ipSkb frame n)).val = true then
        handlerOf (ipDispatch (ipProtocol frame ethHlen) (checkedSkb frame n)).val
      else none := by
  have hdefrag : ipDefrag now st (checkedSkb frame n) = .ok (st, some (checkedSkb frame n)) := by
    unfold ipDefrag
    rw [show isFragment (checkedSkb frame n) = false from hfrag]
    rfl
  unfold checkedSkb at hdefrag
  unfold handedTo ipInput
  simp only [Traced.val_bind]
  cases hc : (ipChecks dev (ipSkb frame n)).val with
  | false => rfl
  | true =>
    rw [if_neg (by decide), if_pos rfl]
    simp only [Traced.val_bind, hdefrag]
    rfl

/-- The buffer a transport handler gets: its header is where `tail` stands. -/
def transportSkb (skb : Skbuff) : Skbuff := { (skbPut skb 8).val.2 with th := skb.tail }

/-- The dispatch by protocol. -/
theorem handlerOf_dispatch (protocol : Byte) (skb : Skbuff) (p : Byte) (skb' : Skbuff) :
    handlerOf (ipDispatch protocol skb).val = some (p, skb') ↔
      protocol = p ∧ (p = 1#8 ∨ p = 17#8) ∧ skb' = transportSkb skb := by
  unfold ipDispatch
  by_cases h1 : protocol = 1#8
  · subst h1
    rw [if_pos rfl]
    constructor
    · intro h
      have h' := Option.some.inj h
      rw [Prod.mk.injEq] at h'
      exact ⟨h'.1, .inl h'.1.symm, h'.2.symm⟩
    · intro h
      obtain ⟨rfl, _, rfl⟩ := h
      rfl
  · rw [if_neg h1]
    by_cases h17 : protocol = 17#8
    · subst h17
      rw [if_pos rfl]
      constructor
      · intro h
        have h' := Option.some.inj h
        rw [Prod.mk.injEq] at h'
        exact ⟨h'.1, .inr h'.1.symm, h'.2.symm⟩
      · intro h
        obtain ⟨rfl, _, rfl⟩ := h
        rfl
    · rw [if_neg h17]
      refine iff_of_false nofun ?_
      intro h
      obtain ⟨rfl, h, _⟩ := h
      exact h.elim h1 h17

/-- **What is handed on**: a packet that passes the checks of the code, to the
handler of its protocol. -/
theorem handedTo_iff {now : Nat} {dev : NetDevice} {st : ReassState} {frame : Mem} {n : Nat}
    (hlen : ethHlen + iphdrLen ≤ n) (hn : n < 2 ^ 32)
    (hfrag : isFragment (ipSkb frame n) = false) (p : Byte) (skb : Skbuff) :
    handedTo now dev st (ipSkb frame n) = some (p, skb) ↔
      (Basics dev frame n ∧ totLen frame ≤ hdrLen frame ∧ Verifies frame ethHlen iphdrLen) ∧
        ipProtocol frame ethHlen = p ∧ (p = 1#8 ∨ p = 17#8) ∧
        skb = transportSkb (checkedSkb frame n) := by
  rw [handedTo_eq hfrag, ← ipChecks_iff (Nat.le_trans (Nat.le_add_right _ _) hlen) hn]
  by_cases hc : (ipChecks dev (ipSkb frame n)).val = true
  · rw [if_pos hc, handlerOf_dispatch]
    exact (and_iff_right hc).symm
  · rw [if_neg hc]
    exact iff_of_false nofun fun h => hc h.1

/-! ## The theorem -/

section Exact

variable {now : Nat} {dev : NetDevice} {st : ReassState} {frame : Mem} {n : Nat}

theorem valid_iff :
    Valid dev frame n ↔ Basics dev frame n ∧ hdrLen frame ≤ totLen frame ∧
      Verifies frame ethHlen (hdrLen frame) :=
  ⟨fun h => ⟨h.basics, h.hdrLen_le, h.check⟩, fun h => ⟨h.1, h.2.1, h.2.2⟩⟩

/-- A packet that is not handed on, and that should not be, is judged well. -/
theorem acceptsExactly_of_neither
    (hno : ∀ p skb, handedTo now dev st (ipSkb frame n) ≠ some (p, skb))
    (hbad : ¬ (Valid dev frame n ∧ (ipProtocol frame ethHlen = 1#8 ∨
      ipProtocol frame ethHlen = 17#8))) : AcceptsExactly now dev st frame n := by
  refine ⟨fun p => ?_, fun p skb h => absurd h (hno p skb)⟩
  constructor
  · intro h
    obtain ⟨skb, h⟩ := h
    exact absurd h (hno p skb)
  · intro h
    obtain ⟨hv, rfl, hp⟩ := h
    exact absurd ⟨hv, hp⟩ hbad

/-- Where the code accepts exactly the valid packets, one for ICMP or UDP with its basics
right is a bare header, or fails by both measures. -/
theorem AcceptsExactly.measures (hlen : ethHlen + iphdrLen ≤ n) (hn : n < 2 ^ 32)
    (hfrag : isFragment (ipSkb frame n) = false) (h : AcceptsExactly now dev st frame n)
    (hproto : ipProtocol frame ethHlen = 1#8 ∨ ipProtocol frame ethHlen = 17#8)
    (hb : Basics dev frame n) :
    (hdrLen frame = iphdrLen ∧ totLen frame = iphdrLen) ∨
      (¬ (totLen frame ≤ hdrLen frame ∧ Verifies frame ethHlen iphdrLen) ∧
        ¬ (hdrLen frame ≤ totLen frame ∧ Verifies frame ethHlen (hdrLen frame))) := by
  have hhanded := @handedTo_iff now dev st frame n hlen hn hfrag (ipProtocol frame ethHlen)
  by_cases hcode : totLen frame ≤ hdrLen frame ∧ Verifies frame ethHlen iphdrLen
  · -- what the code accepts must be valid, and have its transport header behind 20 bytes
    have hand := (hhanded _).mpr ⟨⟨hb, hcode⟩, rfl, hproto, rfl⟩
    have hvalid := ((h.1 _).mp ⟨_, hand⟩).1
    have hth : ethHlen + iphdrLen = ethHlen + hdrLen frame := h.2 _ _ hand
    have hle := hvalid.hdrLen_le
    have hle' := hcode.1
    exact .inl ⟨by omega, by omega⟩
  · refine .inr ⟨hcode, fun hv => ?_⟩
    obtain ⟨skb, hand⟩ := (h.1 _).mpr ⟨valid_iff.mpr ⟨hb, hv⟩, rfl, hproto⟩
    exact hcode ((hhanded skb).mp hand).1.2

end Exact

/-- **Acceptance**: for a frame that is not a fragment, `ip_input` accepts
exactly the valid packets — for another protocol than ICMP and UDP, when a basic
test fails, when the packet is a bare header of 20 bytes, or when it fails both
by the code's measure and by the right one. -/
theorem acceptsExactly_iff {now : Nat} {dev : NetDevice} {st : ReassState} {frame : Mem} {n : Nat}
    (hlen : ethHlen + iphdrLen ≤ n) (hn : n < 2 ^ 32)
    (hfrag : isFragment (ipSkb frame n) = false) :
    AcceptsExactly now dev st frame n ↔
      ¬ (ipProtocol frame ethHlen = 1#8 ∨ ipProtocol frame ethHlen = 17#8) ∨
      ¬ Basics dev frame n ∨
      (hdrLen frame = iphdrLen ∧ totLen frame = iphdrLen) ∨
      (¬ (totLen frame ≤ hdrLen frame ∧ Verifies frame ethHlen iphdrLen) ∧
        ¬ (hdrLen frame ≤ totLen frame ∧ Verifies frame ethHlen (hdrLen frame))) := by
  have hhanded := @handedTo_iff now dev st frame n hlen hn hfrag
  constructor
  · intro h
    by_cases hproto : ipProtocol frame ethHlen = 1#8 ∨ ipProtocol frame ethHlen = 17#8
    · by_cases hb : Basics dev frame n
      · exact .inr (.inr (h.measures hlen hn hfrag hproto hb))
      · exact .inr (.inl hb)
    · exact .inl hproto
  · intro h
    rcases h with hproto | hb | ⟨hH, hT⟩ | ⟨hcode, hval⟩
    · refine acceptsExactly_of_neither (fun p skb h => ?_) fun h => hproto h.2
      obtain ⟨_, rfl, hp, _⟩ := (hhanded p skb).mp h
      exact hproto hp
    · exact acceptsExactly_of_neither (fun p skb h => hb ((hhanded p skb).mp h).1.1)
        fun h => hb h.1.basics
    · -- the two measures are one here, and 20 bytes are the whole header
      have hsame : (Basics dev frame n ∧ totLen frame ≤ hdrLen frame ∧
          Verifies frame ethHlen iphdrLen) ↔ Valid dev frame n := by
        rw [valid_iff, hH, hT]
      simp only [AcceptsExactly, hhanded, hsame]
      constructor
      · intro p
        constructor
        · intro h
          obtain ⟨_, hv, hp, hp', _⟩ := h
          exact ⟨hv, hp, hp'⟩
        · intro h
          obtain ⟨hv, hp, hp'⟩ := h
          exact ⟨_, hv, hp, hp', rfl⟩
      · intro p skb h
        obtain ⟨_, _, _, rfl⟩ := h
        rw [hH]
        rfl
    · exact acceptsExactly_of_neither (fun p skb h => hcode ((hhanded p skb).mp h).1.2)
        fun h => hval (valid_iff.mp h.1).2

/-! ## Two UDP packets -/

/-- A host in a network of 256 addresses. -/
def host : NetDevice where
  ipHost := 0x0100000A#32
  ipNetmask := 0x00FFFFFF#32
  hwaddr := ⟨[0x00#8, 0x0C#8, 0x29#8, 0x73#8, 0x9D#8, 0x1F#8], rfl⟩
  hwbroadcast := ⟨List.replicate 6 0xFF#8, rfl⟩

/-- A UDP packet of 10.0.0.2 to 10.0.0.1, for the Ethernet address of the host. -/
def udpFrame (totLen check : List Byte) : Mem := fun o =>
  (host.hwaddr.bytes ++ List.replicate 6 0x02#8 ++ [0x08#8, 0#8] ++
    [0x45#8, 0#8] ++ totLen ++ [0#8, 0#8, 0#8, 0#8, 64#8, 17#8] ++ check ++
    [10#8, 0#8, 0#8, 2#8] ++ [10#8, 0#8, 0#8, 1#8] ++
    [0x0F#8, 0xA0#8, 0#8, 53#8, 0#8, 8#8, 0#8, 0#8]).getD o 0#8

/-- The header is all there is to this packet: the code judges it well. -/
theorem bare_header_accepted_exactly :
    AcceptsExactly 0 host .initial (udpFrame [0#8, 20#8] [0x66#8, 0xD7#8]) 34 :=
  (acceptsExactly_iff (by decide) (by decide) (by decide)).mpr (.inr (.inr (.inl (by decide))))

/-- An ordinary packet, eight bytes of UDP behind a header of 20, is valid and
dropped. -/
theorem ordinary_packet_dropped :
    Valid host (udpFrame [0#8, 28#8] [0x66#8, 0xCF#8]) 42 ∧
      isFragment (ipSkb (udpFrame [0#8, 28#8] [0x66#8, 0xCF#8]) 42) = false ∧
      handedTo 0 host .initial (ipSkb (udpFrame [0#8, 28#8] [0x66#8, 0xCF#8]) 42) = none ∧
      ¬ AcceptsExactly 0 host .initial (udpFrame [0#8, 28#8] [0x66#8, 0xCF#8]) 42 := by
  have hfrag : isFragment (ipSkb (udpFrame [0#8, 28#8] [0x66#8, 0xCF#8]) 42) = false := by decide
  have hvalid : Valid host (udpFrame [0#8, 28#8] [0x66#8, 0xCF#8]) 42 :=
    ⟨⟨by decide, by decide, by decide, .inl (by decide),
      (ipIsBroadcast_iff _ _).not.mp (by decide)⟩, by decide, by decide⟩
  have hnone : ∀ p skb, handedTo 0 host .initial
      (ipSkb (udpFrame [0#8, 28#8] [0x66#8, 0xCF#8]) 42) ≠ some (p, skb) := fun p skb h => by
    have hle := ((handedTo_iff (by decide) (by decide) hfrag p skb).mp h).1.2.1
    exact absurd hle (by decide)
  refine ⟨hvalid, hfrag, ?_, fun h => ?_⟩
  · exact Option.eq_none_iff_forall_ne_some.mpr fun r => hnone r.1 r.2
  · obtain ⟨skb, hs⟩ := (h.1 17#8).mpr ⟨hvalid, by decide, .inr rfl⟩
    exact hnone _ _ hs

end LinuxNet.Sip
