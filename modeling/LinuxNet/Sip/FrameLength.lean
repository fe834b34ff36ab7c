import LinuxNet.Sip.Accept
import LinuxNet.Sip.Transmit

/-!
# The length of what is sent

`lowoutput` passes `skb->len` to `sendto`. On the receive path that counter is what
`tail` has not passed yet; `skb_alloc` starts it at zero and `skb_put` takes off it.
So in a buffer that was allocated to be sent it is a negative number taken as an
unsigned one. Only `ip_output` sets it, to `skb->tot_len`, and only a packet that is
not cut up reaches `lowoutput` in the buffer in which it did so.
-/

namespace LinuxNet.Sip

/-- The bytes of the frame in a buffer: the Ethernet header, and what the header
behind it says there is. -/
def frameLen (skb : Skbuff) : Nat :=
  ethHlen + if htons (skb.mem.u16 (skb.phy + 12)) = 0x0806#16 then 28 else ipTotLen skb.mem skb.nh

/-- `skb->len` is the length of the frame, and within the buffer. -/
structure LengthRight (skb : Skbuff) : Prop where
  len_eq : skb.len.toNat = frameLen skb
  fits : skb.len.toNat ≤ skb.size

/-- The packet stands in the buffer behind room for an Ethernet header. -/
def Framed (skb : Skbuff) : Prop := skb.phy + ethHlen ≤ skb.nh

/-- `skb->tot_len` is the length of the frame, within the buffer and within the `mtu`. -/
structure WholeFrame (dev : TxDevice) (skb : Skbuff) : Prop where
  short : skb.totLen.toNat ≤ dev.mtu.toNat
  len_eq : skb.totLen.toNat = ethHlen + ipTotLen skb.mem skb.nh
  fits : skb.totLen.toNat ≤ skb.size

/-! ## Counters that have wrapped -/

theorem frameLen_lt (skb : Skbuff) : frameLen skb < 2 ^ 17 := by
  have h : ipTotLen skb.mem skb.nh < 2 ^ 16 := BitVec.isLt _
  unfold frameLen ethHlen
  split <;> omega

/-- More bytes were put into the buffer than its counter was set to. -/
def Wrapped (skb : Skbuff) : Prop := 2 ^ 31 ≤ skb.len.toNat

/-- A counter that has wrapped is no length. -/
theorem Wrapped.not_lengthRight {skb : Skbuff} (h : Wrapped skb) : ¬ LengthRight skb := by
  intro hr
  have hlt := frameLen_lt skb
  rw [← hr.len_eq] at hlt
  have : 2 ^ 31 ≤ skb.len.toNat := h
  omega

theorem arpCreate_wrapped (dev : TxDevice) (type : BitVec 16) (srcIp destIp : BitVec 32)
    (srcHw destHw targetHw : Option Mac) :
    Wrapped (arpCreate dev type srcIp destIp srcHw destHw targetHw) := by
  show 2 ^ 31 ≤ (0#32 - 14#32 - 28#32).toNat
  decide

theorem fragBuf_len (mtu : Nat) : (fragBuf mtu).len.toNat = 2 ^ 32 - 34 := by
  show (0#32 - 14#32 - 20#32).toNat = 2 ^ 32 - 34
  decide

theorem fragBuf_wrapped (mtu : Nat) : Wrapped (fragBuf mtu) := by
  rw [Wrapped, fragBuf_len]
  decide

theorem copyBytes_len {dst src t : Skbuff} {o s n : Nat} (h : copyBytes dst o src s n = .ok t) :
    t.len = dst.len := by
  unfold copyBytes at h
  split at h
  next =>
    cases h
    rfl
  next => cases h

theorem fragHeader_len {skb t : Skbuff} {fragOff totLen : BitVec 16}
    (h : fragHeader skb fragOff totLen = .ok t) : t.len = skb.len := by
  unfold fragHeader at h
  split at h
  next =>
    cases h
    rfl
  next => cases h

theorem firstFrag_wrapped {mtu : Nat} {skb t : Skbuff} (h : firstFrag mtu skb = .ok t) :
    Wrapped t := by
  obtain ⟨t1, h1, h⟩ := bind_eq_ok.mp h
  rw [Wrapped, fragHeader_len h, copyBytes_len h1]
  exact fragBuf_wrapped mtu

theorem lastFrag_wrapped {mtu i : Nat} {skb t : Skbuff} (h : lastFrag mtu i skb = .ok t) :
    Wrapped t := by
  obtain ⟨t1, h1, h⟩ := bind_eq_ok.mp h
  split at h
  next => cases h
  next =>
    obtain ⟨t2, h2, h⟩ := bind_eq_ok.mp h
    rw [Wrapped, fragHeader_len h, copyBytes_len h2, copyBytes_len h1]
    exact fragBuf_wrapped mtu

/-- Here `skb_put` is called once more, for the payload. -/
theorem middleFrag_wrapped {mtu i : Nat} {skb t : Skbuff} (hmtu : mtu < 2 ^ 8)
    (h : middleFrag mtu i skb = .ok t) : Wrapped t := by
  obtain ⟨t1, h1, h⟩ := bind_eq_ok.mp h
  split at h
  next => cases h
  next =>
    obtain ⟨t2, h2, h⟩ := bind_eq_ok.mp h
    have hlen : t.len = (fragBuf mtu).len - BitVec.ofNat 32 (mtu - ethHlen - iphdrLen) := by
      rw [fragHeader_len h]
      show t2.len - _ = _
      rw [copyBytes_len h2, copyBytes_len h1]
    have hput : mtu - ethHlen - iphdrLen < 2 ^ 8 :=
      Nat.lt_of_le_of_lt ((Nat.sub_le _ _).trans (Nat.sub_le _ _)) hmtu
    rw [Wrapped, hlen, BitVec.toNat_sub, BitVec.toNat_ofNat, fragBuf_len]
    omega

/-- No fragment has a length in its counter. -/
theorem fragments_wrapped {dev : TxDevice} {skb : Skbuff} {skbs : List Skbuff}
    (h : fragments dev skb = .ok skbs) : ∀ t ∈ skbs, Wrapped t := by
  obtain ⟨num, -, h⟩ := bind_eq_ok.mp h
  intro t ht
  obtain ⟨i, -, hi⟩ := mem_of_mapM h t ht
  unfold fragment at hi
  split at hi
  next => exact firstFrag_wrapped hi
  next =>
    split at hi
    next => exact lastFrag_wrapped hi
    next => exact middleFrag_wrapped dev.mtu.isLt hi

/-- The Ethernet header does not touch the counters. -/
theorem linkFrames_wrapped {dev : TxDevice} {ethaddr : List Byte} {skbs : List Skbuff}
    (h : ∀ t ∈ skbs, Wrapped t) : ∀ t ∈ linkFrames dev ethaddr skbs, Wrapped t := by
  cases skbs with
  | nil => exact h
  | cons skb skbs =>
    intro t ht
    rcases List.mem_cons.mp ht with rfl | ht
    · exact h skb List.mem_cons_self
    · exact h t (List.mem_cons_of_mem skb ht)

/-! ## A whole packet -/

section Whole

variable {dev : TxDevice} {a : IpArgs} {ethaddr : List Byte} {skb : Skbuff}

/-- Behind the Ethernet header `output` writes nothing. -/
theorem etherHeader_u16 {i : Nat} (h : skb.phy + ethHlen ≤ i) :
    (etherHeader dev ethaddr skb).mem.u16 i = skb.mem.u16 i := by
  unfold ethHlen at h
  have h0 : skb.phy + (ethaddr.take 6).length ≤ i := by
    have := List.length_take_le 6 ethaddr
    omega
  have h6 : skb.phy + 6 + dev.hwaddr.bytes.length ≤ i := by
    have := dev.hwaddr.length
    omega
  have h12 : skb.phy + 12 + (bytesOf16 (htons 0x0800#16)).length ≤ i := h
  rw [etherHeader, Mem.u16_write_apart (.inr h12), Mem.u16_write_apart (.inr h6),
    Mem.u16_write_apart (.inr h0)]

/-- `ip_output` leaves the total length as it is. -/
theorem ipHeader_totLen : ipTotLen (ipHeader a skb).mem skb.nh = ipTotLen skb.mem skb.nh := by
  have h1 : skb.nh + 1 + [a.tos].length ≤ skb.nh + 2 := Nat.le_refl _
  have h8 : skb.nh + 2 + 2 ≤ skb.nh + 8 := by omega
  have h9 : skb.nh + 2 + 2 ≤ skb.nh + 9 := by omega
  have h10 : skb.nh + 2 + 2 ≤ skb.nh + 10 := by omega
  have h12 : skb.nh + 2 + 2 ≤ skb.nh + 12 := by omega
  have h16 : skb.nh + 2 + 2 ≤ skb.nh + 16 := by omega
  rw [ipTotLen, ipHeader, Mem.u16_write_apart (.inl h10), Mem.u16_write_apart (.inl h10),
    Mem.u16_write_apart (.inl h12), Mem.u16_write_apart (.inl h16),
    Mem.u16_write_apart (.inl h8), Mem.u16_write_apart (.inr h1), Mem.u16_write_apart (.inl h9)]
  rfl

/-- A packet that is sent whole is of type IP. -/
theorem etherType_whole :
    htons ((etherHeader dev ethaddr skb).mem.u16 (skb.phy + 12)) = 0x0800#16 := by
  rw [etherHeader, Mem.u16_write_self, htons_htons]

theorem frameLen_whole (h : Framed skb) :
    frameLen (etherHeader dev ethaddr (ipHeader a skb)) = ethHlen + ipTotLen skb.mem skb.nh := by
  have hphy : (etherHeader dev ethaddr (ipHeader a skb)).phy = (ipHeader a skb).phy := rfl
  have hnh : (etherHeader dev ethaddr (ipHeader a skb)).nh = skb.nh := rfl
  have hbehind : (ipHeader a skb).phy + ethHlen ≤ skb.nh + 2 := Nat.le_add_right_of_le h
  rw [frameLen, hphy, hnh, etherType_whole, if_neg (by decide), ipTotLen, etherHeader_u16 hbehind]
  exact congrArg (ethHlen + ·) ipHeader_totLen

end Whole

/-- The frames of a packet that reach `lowoutput`. -/
theorem ipFrames_lengthRight_iff {dev : TxDevice} {a : IpArgs} {ethaddr : List Byte} {skb : Skbuff}
    {skbs : List Skbuff} (h : Framed skb) (hskbs : ipFrames dev a skb = .ok skbs) :
    ∀ t ∈ linkFrames dev ethaddr skbs, LengthRight t ↔ WholeFrame dev skb := by
  unfold ipFrames at hskbs
  split at hskbs
  next hlong =>
    intro t ht
    refine iff_of_false ?_ fun hw => ?_
    · exact (linkFrames_wrapped (fragments_wrapped hskbs) t ht).not_lengthRight
    · have := hw.short
      omega
  next hshort =>
    cases hskbs
    intro t ht
    rw [List.mem_singleton.mp ht]
    -- the buffer is the one the packet came in, and its counter is `tot_len`
    have hlen : (etherHeader dev ethaddr (ipHeader a skb)).len = skb.totLen := rfl
    have hsize : (etherHeader dev ethaddr (ipHeader a skb)).size = skb.size := rfl
    constructor
    · intro hr
      refine ⟨Nat.le_of_not_lt hshort, ?_, ?_⟩
      · rw [← hlen, hr.len_eq, frameLen_whole h]
      · rw [← hlen, ← hsize]
        exact hr.fits
    · intro hw
      refine ⟨?_, ?_⟩
      · rw [hlen, hw.len_eq, frameLen_whole h]
      · rw [hlen, hsize]
        exact hw.fits

/-! ## What reaches `lowoutput` -/

/-- **Frame lengths**: what `arp_send` and `arp_request` pass to `lowoutput` never has its
length in `skb->len`; what `ip_output` passes to it has it exactly if the packet is a whole
frame. An IP packet gets to `lowoutput` when it yields frames and the table has an address
for it. -/
theorem sent_length_right_iff (clock : Nat → Nat) (dev : TxDevice) {st : TxState}
    (hu : Unused st.sock) :
    (∀ type srcIp destIp srcHw destHw targetHw,
      arpSend dev st type srcIp destIp srcHw destHw targetHw =
        lowoutput (st.alloc (arpCreate dev type srcIp destIp srcHw destHw targetHw))
          (some st.sock.brk) ∧
      ¬ LengthRight (arpCreate dev type srcIp destIp srcHw destHw targetHw)) ∧
    ∀ p a c, st.sock.skb p = some c → c.next = none → Framed c.datagram →
      ∀ t ts ethaddr, ipFrames dev a c.datagram = .ok (t :: ts) →
        arpLookup (clock 0) (nextHop dev (ipDaddr t.mem t.nh)) st.arp = some ethaddr →
        ∃ st' head l, ipOutput clock dev st p a = lowoutput st' head ∧
          Chain st'.sock head l (linkFrames dev ethaddr (t :: ts)) ∧
          ∀ u ∈ linkFrames dev ethaddr (t :: ts), LengthRight u ↔ WholeFrame dev c.datagram := by
  constructor
  · intro type srcIp destIp srcHw destHw targetHw
    exact ⟨rfl, (arpCreate_wrapped dev type srcIp destIp srcHw destHw targetHw).not_lengthRight⟩
  · intro p a c hp hnext hframed t ts ethaddr hframes hlookup
    have hlt : p < st.sock.brk := by
      refine Nat.lt_of_not_le fun hle => ?_
      rw [hu p hle] at hp
      cases hp
    rcases @ipOutput_eq st dev p a c clock hp hnext hlt hu with
      ⟨e, he, _⟩ | ⟨skbs, st1, head, l, hskbs, hout, hchain, hand⟩
    · rw [hframes] at he
      cases he
    · rw [hframes] at hskbs
      cases hskbs
      -- there is a frame and an address for it: it reaches `lowoutput`
      obtain ⟨q, rfl⟩ := hchain.some_head
      rcases @output_eq _ dev _ _ clock _ _ hchain hand.unused with
        ⟨hnone, _⟩ | ⟨ethaddr', st2, hsome, hlow, hchain2, _⟩
      · rw [hand.arp, hlookup] at hnone
        cases hnone
      · rw [hand.arp, hlookup] at hsome
        cases hsome
        exact ⟨st2, some q, l, hout.trans hlow, hchain2, ipFrames_lengthRight_iff hframed hframes⟩

/-- A host with a gateway and an `mtu`. -/
def txHost : TxDevice where
  toNetDevice := host
  ipGw := 0xFE00000A#32
  mtu := 200#8

/-- A packet that is only a header. -/
def headerSkb : Skbuff := ipSkb (udpFrame [0#8, 20#8] [0x66#8, 0xD7#8]) 34

/-- It in the only buffer, and an address for where it came from. -/
def headerState : TxState where
  arp := [⟨0x0200000A#32, List.replicate 6 0x02#8, 0, .established⟩]
  sock := SockState.initial.alloc headerSkb
  sent := []

/-- The arguments of an echo reply to it. -/
def headerArgs : IpArgs := ⟨host.ipHost, 0x0200000A#32, 255#8, 0#8, 1#8⟩

theorem headerState_unused : Unused headerState.sock := by
  intro q hq
  exact SockState.skb_alloc_ne (Nat.ne_of_gt hq) headerSkb

/-- Sent within the `mtu`, the packet has its 34 bytes in the counter. -/
theorem header_length_right :
    ∃ st' head l, ipOutput (fun _ => 0) txHost headerState 0 headerArgs = lowoutput st' head ∧
      Chain st'.sock head l
        [etherHeader txHost (List.replicate 6 0x02#8) (ipHeader headerArgs headerSkb)] ∧
      LengthRight
        (etherHeader txHost (List.replicate 6 0x02#8) (ipHeader headerArgs headerSkb)) := by
  have hlookup : arpLookup 0 (nextHop txHost (ipDaddr (ipHeader headerArgs headerSkb).mem ethHlen))
      headerState.arp = some (List.replicate 6 0x02#8) := by decide
  have hwhole : WholeFrame txHost headerSkb := ⟨by decide, by decide, by decide⟩
  obtain ⟨st', head, l, hout, hchain, hiff⟩ :=
    (sent_length_right_iff (fun _ => 0) txHost headerState_unused).2 0 headerArgs
      ⟨headerSkb, none⟩ rfl rfl (Nat.le_refl _) _ [] _ rfl hlookup
  exact ⟨st', head, l, hout, hchain, (hiff _ List.mem_cons_self).mpr hwhole⟩

/-- The 42 bytes of an ARP request are passed on with a counter that is 42 below zero. -/
theorem request_length_wrong :
    arpRequest txHost headerState 0x0200000A#32 =
        lowoutput (headerState.alloc
          (arpCreate txHost arpopRequest host.ipHost 0x0200000A#32 (some host.hwaddr) none none))
          (some 1) ∧
      (arpCreate txHost arpopRequest host.ipHost 0x0200000A#32 (some host.hwaddr) none none).len =
        0xFFFFFFD6#32 ∧
      frameLen (arpCreate txHost arpopRequest host.ipHost 0x0200000A#32 (some host.hwaddr)
        none none) = 42 ∧
      ¬ LengthRight (arpCreate txHost arpopRequest host.ipHost 0x0200000A#32 (some host.hwaddr)
        none none) := by
  refine ⟨rfl, rfl, by decide, fun h => ?_⟩
  have := h.fits
  revert this
  decide

end LinuxNet.Sip
