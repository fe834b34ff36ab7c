import LinuxNet.Sip.FrameLength

/-!
# Packets that are sent in one frame

`lowoutput` handles one buffer. `ip_output` hands on one buffer when the packet is
within the `mtu`, and when `ip_frag` cuts it into one piece: `frag_num` is a rounded
quotient and can be one where more is needed. `InOneFrame` is the exact condition
(`ipFrames_single_iff`).

That one fragment is the first `mtu` bytes of the packet. With an `mtu` of 33 they end
inside the destination address, and `output` looks up what is left of it (`sentTo`).
-/

namespace LinuxNet.Sip

/-- The packet is handed on in one buffer. -/
def InOneFrame (dev : TxDevice) (skb : Skbuff) : Prop :=
  skb.totLen.toNat ≤ dev.mtu.toNat ∨ fragNum dev skb = .ok 1#8 ∧ 33 ≤ dev.mtu.toNat

/-- The destination in the frame of a packet that is handed on in one buffer. -/
def sentTo (dev : TxDevice) (skb : Skbuff) (dest : BitVec 32) : BitVec 32 :=
  if skb.totLen.toNat ≤ dev.mtu.toNat ∨ 34 ≤ dev.mtu.toNat then dest
  else (dest.setWidth 24).setWidth 32

section Fragments

variable {dev : TxDevice} {a : IpArgs} {skb t : Skbuff} {mtu : Nat}

/-- One fragment is a first fragment. -/
theorem fragments_single_iff :
    fragments dev skb = .ok [t] ↔
      fragNum dev skb = .ok 1#8 ∧ firstFrag dev.mtu.toNat skb = .ok t := by
  constructor
  · intro h
    obtain ⟨num, hnum, h⟩ := bind_eq_ok.mp h
    have hlen := length_of_mapM h
    rw [List.length_singleton, List.length_range] at hlen
    have hone : num = 1#8 := BitVec.eq_of_toNat_eq hlen.symm
    subst hone
    obtain ⟨t', ts, ht, _, heq⟩ := mapM_cons_eq_ok.mp h
    cases heq
    exact ⟨hnum, ht⟩
  · intro h
    obtain ⟨hnum, ht⟩ := h
    refine bind_eq_ok.mpr ⟨1#8, hnum, ?_⟩
    exact mapM_cons_eq_ok.mpr ⟨t, [], ht, rfl, rfl⟩

/-- The first `mtu` bytes of a packet. -/
def front (mtu : Nat) (skb : Skbuff) : Skbuff :=
  { fragBuf mtu with
    mem := (fragBuf mtu).mem.write 0 ((List.range mtu).map fun i => skb.mem (0 + i)) }

theorem firstFrag_eq (hsize : mtu ≤ skb.size) :
    firstFrag mtu skb =
      fragHeader (front mtu skb) 0x2000#16 (BitVec.ofInt 16 (mtu - ethHlen)) := by
  have hbuf : 0 + mtu ≤ (fragBuf mtu).size := by
    show 0 + mtu ≤ (mtu + 3) / 4 * 4
    omega
  have hfrom : 0 + mtu ≤ skb.size := by rwa [Nat.zero_add]
  rw [firstFrag, copyBytes, if_pos ⟨hbuf, hfrom⟩]
  rfl

/-- The buffer has room for the IP header from 33 bytes on. -/
theorem fragHeader_front_iff {fragOff totLen : BitVec 16} :
    (∃ t, fragHeader (front mtu skb) fragOff totLen = .ok t) ↔ 33 ≤ mtu := by
  have hroom : (front mtu skb).nh + iphdrLen ≤ (front mtu skb).size ↔ 33 ≤ mtu := by
    show 14 + 20 ≤ (mtu + 3) / 4 * 4 ↔ 33 ≤ mtu
    omega
  unfold fragHeader
  rw [← hroom]
  split
  next h => exact iff_of_true ⟨_, rfl⟩ h
  next h =>
    refine iff_of_false (fun ht => ?_) h
    obtain ⟨t, ht⟩ := ht
    cases ht

/-- The byte of the packet, or the zero it was allocated with. -/
theorem front_mem (i : Nat) : (front mtu skb).mem i = if i < mtu then skb.mem i else 0#8 := by
  show (fragBuf mtu).mem.write 0 _ i = _
  rw [Mem.write, if_pos (Nat.zero_le i), Nat.sub_zero, List.getD_eq_getElem?_getD,
    List.getElem?_map]
  split
  next h =>
    rw [List.getElem?_range h, Option.map_some, Option.getD_some, Nat.zero_add]
  next h =>
    rw [List.getElem?_eq_none (by rw [List.length_range]; omega)]
    rfl

/-- The header fields `ip_frag` writes do not reach the destination. -/
theorem fragHeader_daddr {fragOff totLen : BitVec 16} (h : fragHeader skb fragOff totLen = .ok t) :
    ipDaddr t.mem t.nh = ipDaddr skb.mem skb.nh := by
  have h6 : skb.nh + 6 + 2 ≤ skb.nh + 16 := by omega
  have h2 : skb.nh + 2 + 2 ≤ skb.nh + 16 := by omega
  have h10 : skb.nh + 10 + 2 ≤ skb.nh + 16 := by omega
  unfold fragHeader at h
  split at h
  next =>
    cases h
    show ipDaddr (Mem.write _ _ _) skb.nh = _
    rw [ipDaddr, Mem.u32_write_apart (.inr h10), Mem.u32_write_apart (.inr h10),
      Mem.u32_write_apart (.inr h2), Mem.u32_write_apart (.inr h6)]
    rfl
  next => cases h

/-- `ip_output` writes the destination, and then leaves it alone. -/
theorem ipHeader_daddr : ipDaddr (ipHeader a skb).mem skb.nh = a.dest := by
  have h12 : skb.nh + 12 + 4 ≤ skb.nh + 16 := by omega
  have h10 : skb.nh + 10 + 2 ≤ skb.nh + 16 := by omega
  rw [ipDaddr, ipHeader, Mem.u32_write_apart (.inr h10), Mem.u32_write_apart (.inr h10),
    Mem.u32_write_apart (.inr h12), Mem.u32_write_self]

/-- The destination in the first fragment: three octets of it, or all four. -/
theorem front_daddr (hmtu : 33 ≤ mtu) (hnh : skb.nh = ethHlen) :
    ipDaddr (front mtu skb).mem ethHlen =
      if 34 ≤ mtu then ipDaddr skb.mem skb.nh
      else ((ipDaddr skb.mem skb.nh).setWidth 24).setWidth 32 := by
  have h30 : ethHlen + 16 < mtu := Nat.lt_of_lt_of_le (by decide) hmtu
  have h31 : ethHlen + 16 + 1 < mtu := Nat.lt_of_lt_of_le (by decide) hmtu
  have h32 : ethHlen + 16 + 2 < mtu := Nat.lt_of_lt_of_le (by decide) hmtu
  have h33 : ethHlen + 16 + 3 < mtu ↔ 34 ≤ mtu := Iff.rfl
  rw [hnh, ipDaddr, ipDaddr, Mem.u32, Mem.u32]
  simp only [front_mem, if_pos h30, if_pos h31, if_pos h32, h33]
  split
  next => rfl
  next => exact le32_zero _ _ _ _

/-- The number of fragments depends on the total length alone. -/
theorem fragNum_congr {skb' : Skbuff} (h : ipTotLen skb'.mem skb'.nh = ipTotLen skb.mem skb.nh) :
    fragNum dev skb' = fragNum dev skb := by
  rw [fragNum, fragNum, h]

end Fragments

section Single

variable {dev : TxDevice} {a : IpArgs} {skb t : Skbuff}

/-- A packet that is cut up is handed on in one buffer if it is cut into one piece, and the
piece has room for the header. -/
theorem ipFrames_long (hsize : skb.totLen.toNat ≤ skb.size)
    (hlong : dev.mtu.toNat < skb.totLen.toNat) :
    ipFrames dev a skb = .ok [t] ↔ fragNum dev skb = .ok 1#8 ∧
      fragHeader (front dev.mtu.toNat (ipHeader a skb)) 0x2000#16
        (BitVec.ofInt 16 (dev.mtu.toNat - ethHlen)) = .ok t := by
  have hnum : fragNum dev (ipHeader a skb) = fragNum dev skb := fragNum_congr ipHeader_totLen
  have hle : dev.mtu.toNat ≤ (ipHeader a skb).size := Nat.le_of_lt (Nat.lt_of_lt_of_le hlong hsize)
  rw [ipFrames, if_pos hlong, fragments_single_iff, hnum, firstFrag_eq hle]

/-- **One buffer**: when `ip_output` hands a packet on in one. -/
theorem ipFrames_single_iff (hsize : skb.totLen.toNat ≤ skb.size) :
    (∃ t, ipFrames dev a skb = .ok [t]) ↔ InOneFrame dev skb := by
  unfold InOneFrame
  by_cases hlong : dev.mtu.toNat < skb.totLen.toNat
  · rw [or_iff_right (Nat.not_le.mpr hlong)]
    simp only [ipFrames_long hsize hlong, exists_and_left, fragHeader_front_iff]
  · refine iff_of_true ⟨ipHeader a skb, ?_⟩ (.inl (Nat.le_of_not_lt hlong))
    rw [ipFrames, if_neg hlong]

/-- What stands as its destination in the one frame of a packet. -/
theorem ipFrames_daddr (hnh : skb.nh = ethHlen) (hsize : skb.totLen.toNat ≤ skb.size)
    (h : ipFrames dev a skb = .ok [t]) : ipDaddr t.mem t.nh = sentTo dev skb a.dest := by
  unfold sentTo
  by_cases hlong : dev.mtu.toNat < skb.totLen.toNat
  · have hfrag := ((ipFrames_long hsize hlong).mp h).2
    have hmtu : 33 ≤ dev.mtu.toNat := fragHeader_front_iff.mp ⟨t, hfrag⟩
    have hfront : (front dev.mtu.toNat (ipHeader a skb)).nh = ethHlen := rfl
    have hhdr : (ipHeader a skb).nh = ethHlen := hnh
    have hdest : ipDaddr (ipHeader a skb).mem (ipHeader a skb).nh = a.dest := ipHeader_daddr
    rw [fragHeader_daddr hfrag, hfront, front_daddr hmtu hhdr, hdest]
    exact if_congr (or_iff_right (Nat.not_le.mpr hlong)).symm rfl rfl
  · rw [ipFrames, if_neg hlong] at h
    cases h
    rw [if_pos (.inl (Nat.le_of_not_lt hlong))]
    exact ipHeader_daddr

end Single

end LinuxNet.Sip
