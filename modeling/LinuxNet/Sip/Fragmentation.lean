import LinuxNet.Lib.CStr
import LinuxNet.Sip.FrameLength

/-!
# What `ip_frag` owes the receiver

A datagram is fragmented if every piece has its identity and fits the link, and
the pieces, put in order, tile the payload (`Fragmented`). The order in which
they are chained is left open.

`ip_frag` never gets there (`not_fragmentsWell`). A datagram for which the rounded
quotient is 0 gets no fragment at all, one for which it is 1 a single fragment
that announces more, and from the second fragment on the offset is counted in
bytes, with the length of the header added, where the receiver counts in units of
eight bytes.

The second part is about the device the stack runs with. `sip_init_ethnet` clears it
and sets every field but `mtu`, and no function writes to a device again, so every
packet that has a length is handed to `ip_frag`, to be divided by -34
(`handed_right_iff`).
-/

namespace LinuxNet.Sip

/-! ## The fields of a fragment -/

/-- What a datagram carries behind its header. -/
def ipPayload (skb : Skbuff) : List Byte :=
  (List.range (ipTotLen skb.mem skb.nh - iphdrLen)).map fun i => skb.mem (skb.nh + iphdrLen + i)

/-- The more-fragments bit. -/
def MoreFragments (skb : Skbuff) : Prop := ipFragOff skb.mem skb.nh &&& 0x2000#16 ≠ 0#16

instance (skb : Skbuff) : Decidable (MoreFragments skb) := by
  unfold MoreFragments; infer_instance

@[simp] theorem ipPayload_length (skb : Skbuff) :
    (ipPayload skb).length = ipTotLen skb.mem skb.nh - iphdrLen := by
  rw [ipPayload, List.length_map, List.length_range]

/-! ## What is asked for -/

/-- A frame that the link can carry, with a part of the datagram in it. -/
structure PieceOf (mtu : Nat) (skb t : Skbuff) : Prop where
  frame : ethHlen + ipTotLen t.mem t.nh ≤ mtu
  length : iphdrLen ≤ ipTotLen t.mem t.nh ∧ t.nh + ipTotLen t.mem t.nh ≤ t.size
  id : t.mem.u16 (t.nh + 4) = skb.mem.u16 (skb.nh + 4)
  saddr : ipSaddr t.mem t.nh = ipSaddr skb.mem skb.nh
  daddr : ipDaddr t.mem t.nh = ipDaddr skb.mem skb.nh
  protocol : ipProtocol t.mem t.nh = ipProtocol skb.mem skb.nh
  check : (sipChksum t.mem t.nh iphdrLen).val = 0#16

/-- Each piece starts where the one in front of it ends, and all but the last announce more. -/
def Tiles : Nat → List Skbuff → Prop
  | _, [] => True
  | o, t :: ts =>
    fragStart t = o ∧ (MoreFragments t ↔ ts ≠ []) ∧ Tiles (o + (ipPayload t).length) ts

/-- Pieces of the datagram that give its payload when they are put in order. -/
structure Fragmented (mtu : Nat) (skb : Skbuff) (ts : List Skbuff) : Prop where
  pieces : ∀ t ∈ ts, PieceOf mtu skb t
  ordered : ∃ ts', ts'.Perm ts ∧ Tiles 0 ts' ∧ ts'.flatMap ipPayload = ipPayload skb

/-- The last piece in the order announces no more. -/
theorem Tiles.last {ts : List Skbuff} {z : Skbuff} :
    ∀ {o : Nat}, Tiles o (ts ++ [z]) → ¬ MoreFragments z := by
  induction ts with
  | nil =>
    intro o h hz
    exact h.2.1.mp hz rfl
  | cons t ts ih =>
    intro o h
    exact ih h.2.2

/-! ## The headers that are written -/

section Headers

variable {skb t : Skbuff} {mtu i : Nat}

theorem fragHeader_fields {fragOff totLen : BitVec 16} (h : fragHeader skb fragOff totLen = .ok t) :
    ipFragOff t.mem t.nh = fragOff ∧ ipTotLen t.mem t.nh = totLen.toNat := by
  unfold fragHeader at h
  split at h
  next =>
    cases h
    constructor
    · rw [ipFragOff, Mem.u16_write_apart (by simp [bytesOf16]), Mem.u16_write_apart (by simp),
        Mem.u16_write_apart (by simp [bytesOf16]), Mem.u16_write_self]
      exact htons_htons fragOff
    · rw [ipTotLen, Mem.u16_write_apart (by simp [bytesOf16]), Mem.u16_write_apart (by simp),
        Mem.u16_write_self]
      exact congrArg BitVec.toNat (htons_htons totLen)
  next => cases h

/-- A number in the offset field, as the receiver reads it. -/
theorem toNat_and_offset (x : BitVec 16) : (x &&& 0x1FFF#16).toNat = x.toNat % 8192 := by
  rw [BitVec.toNat_and]
  exact Nat.and_two_pow_sub_one_eq_mod x.toNat 13

theorem or_more_and_offset (x : BitVec 16) : (x ||| 0x2000#16) &&& 0x1FFF#16 = x &&& 0x1FFF#16 := by
  rw [BitVec.and_comm, BitVec.and_or_distrib_left, show 0x1FFF#16 &&& 0x2000#16 = 0#16 by decide,
    BitVec.or_zero, BitVec.and_comm]

theorem or_more_and_more (x : BitVec 16) : (x ||| 0x2000#16) &&& 0x2000#16 ≠ 0#16 := by
  intro h
  have hbit := congrArg (fun y : BitVec 16 => y.getLsbD 13) h
  simp at hbit

/-- A number of 16 bits, computed with signs. -/
theorem ofInt_toNat {n : Nat} (hn : n < 65536) {z : Int} (hz : z = n) :
    (BitVec.ofInt 16 z).toNat = n := by
  rw [hz, BitVec.ofInt_natCast, BitVec.toNat_ofNat, Nat.mod_eq_of_lt hn]

theorem firstFrag_fields (hlow : 34 ≤ mtu) (hhigh : mtu < 256) (h : firstFrag mtu skb = .ok t) :
    MoreFragments t ∧ fragStart t = 0 ∧ ipTotLen t.mem t.nh = mtu - ethHlen := by
  obtain ⟨t1, -, h⟩ := bind_eq_ok.mp h
  obtain ⟨hoff, hlen⟩ := fragHeader_fields h
  rw [MoreFragments, fragStart, hoff, hlen]
  have heth : ethHlen = 14 := rfl
  exact ⟨by decide, by decide, ofInt_toNat (by omega) (by omega)⟩

/-- The offset field of the other fragments: a number of bytes, the header with them. -/
def rawStart (mtu i : Nat) : Nat := i * (mtu - 34) + 20

theorem rawStart_toNat (hlow : 34 ≤ mtu) (hhigh : mtu < 256) (hi : i < 256) :
    (BitVec.ofInt 16 (i * (mtu - ethHlen - iphdrLen) + iphdrLen)).toNat = rawStart mtu i := by
  obtain ⟨p, rfl⟩ := Nat.exists_eq_add_of_le hlow
  have hle : i * p ≤ 255 * 221 := Nat.mul_le_mul (by omega) (by omega)
  unfold rawStart
  rw [Nat.add_sub_cancel_left]
  refine ofInt_toNat (by omega) ?_
  have hp : ((34 + p : Nat) : Int) - ethHlen - iphdrLen = p := by
    simp only [ethHlen, iphdrLen]
    omega
  rw [hp]
  push_cast
  rfl

theorem middleFrag_fields (hlow : 34 ≤ mtu) (hhigh : mtu < 256) (hi : i < 256)
    (h : middleFrag mtu i skb = .ok t) :
    MoreFragments t ∧ fragStart t = rawStart mtu i % 8192 * 8 ∧
      ipTotLen t.mem t.nh = mtu - ethHlen := by
  have heth : ethHlen = 14 := rfl
  have hiph : iphdrLen = 20 := rfl
  obtain ⟨t1, -, h⟩ := bind_eq_ok.mp h
  rw [if_neg (by omega)] at h
  obtain ⟨t2, -, h⟩ := bind_eq_ok.mp h
  obtain ⟨hoff, hlen⟩ := fragHeader_fields h
  rw [MoreFragments, fragStart, hoff, hlen, or_more_and_offset, toNat_and_offset,
    rawStart_toNat hlow hhigh hi]
  exact ⟨or_more_and_more _, rfl, ofInt_toNat (by omega) (by omega)⟩

theorem lastFrag_start (hlow : 34 ≤ mtu) (hhigh : mtu < 256) (hi : i < 256)
    (h : lastFrag mtu i skb = .ok t) : fragStart t = rawStart mtu i % 8192 * 8 := by
  obtain ⟨t1, -, h⟩ := bind_eq_ok.mp h
  split at h
  next => cases h
  next =>
    obtain ⟨t2, -, h⟩ := bind_eq_ok.mp h
    rw [fragStart, (fragHeader_fields h).1, toNat_and_offset, rawStart_toNat hlow hhigh hi]

/-- **No second fragment**: no offset that is written is that of the byte behind the first. -/
theorem rawStart_ne (hlow : 42 ≤ mtu) (hhigh : mtu < 256) (hi : 1 ≤ i) (hi' : i < 256) :
    rawStart mtu i % 8192 * 8 ≠ mtu - 34 := by
  obtain ⟨p, rfl⟩ := Nat.exists_eq_add_of_le (by omega : 34 ≤ mtu)
  unfold rawStart
  rw [Nat.add_sub_cancel_left]
  intro h
  -- the payload would be a multiple of eight, `8 * q`, and `q` of the form `8 * k + 4`
  obtain ⟨q, rfl⟩ : ∃ q, p = 8 * q := ⟨(i * p + 20) % 8192, by omega⟩
  have hq : (i * (8 * q) + 20) % 8192 = q := by omega
  rw [Nat.mul_left_comm] at hq
  have hmod : q % 8 = 4 := by
    generalize i * q = r at hq
    omega
  have hcases : q = 4 ∨ q = 12 ∨ q = 20 := by omega
  rcases hcases with rfl | rfl | rfl <;> omega

end Headers

/-! ## The chain -/

section Chains

variable {dev : TxDevice} {skb : Skbuff} {ts : List Skbuff}

/-- A fragment with others behind it: it announces more, is full, and does not start where a
full one at the front ends. -/
structure HeadPiece (mtu : Nat) (t : Skbuff) : Prop where
  more : MoreFragments t
  length : (ipPayload t).length = mtu - 34
  start : fragStart t ≠ mtu - 34

theorem fragment_head {mtu num i : Nat} {t : Skbuff} (hlow : 42 ≤ mtu) (hhigh : mtu < 256)
    (hnum : num < 256) (hi : i = 0 ∨ i < num - 1) (h : fragment mtu num i skb = .ok t) :
    HeadPiece mtu t := by
  have heth : ethHlen = 14 := rfl
  have hiph : iphdrLen = 20 := rfl
  unfold fragment at h
  by_cases h0 : i = 0
  · rw [if_pos h0] at h
    obtain ⟨hmore, hstart, hlen⟩ := firstFrag_fields (by omega) hhigh h
    refine ⟨hmore, ?_, by omega⟩
    rw [ipPayload_length, hlen]
    omega
  · rw [if_neg h0, if_neg (by omega)] at h
    obtain ⟨hmore, hstart, hlen⟩ := middleFrag_fields (by omega) hhigh (by omega) h
    refine ⟨hmore, ?_, hstart ▸ rawStart_ne hlow hhigh (by omega) (by omega)⟩
    rw [ipPayload_length, hlen]
    omega

/-- Where there are two fragments or more, all but the last are head pieces, and a last one
behind a single head piece does not start where that ends. -/
theorem fragments_split {mtu n : Nat} (hlow : 42 ≤ mtu) (hhigh : mtu < 256) (hn : n + 2 < 256)
    (h : (List.range (n + 2)).mapM (fun i => fragment mtu (n + 2) i skb) = .ok ts) :
    ∃ heads z, ts = heads ++ [z] ∧ heads ≠ [] ∧ (∀ t ∈ heads, HeadPiece mtu t) ∧
      (heads.length = 1 → fragStart z ≠ mtu - 34) := by
  rw [List.range_succ, List.mapM_append] at h
  obtain ⟨heads, hheads, h⟩ := bind_eq_ok.mp h
  obtain ⟨zs, hzs, h⟩ := bind_eq_ok.mp h
  obtain ⟨z, zs', hz, hnil, rfl⟩ := mapM_cons_eq_ok.mp hzs
  cases hnil
  cases h
  have hlength : heads.length = n + 1 := by rw [length_of_mapM hheads, List.length_range]
  refine ⟨heads, z, rfl, List.ne_nil_of_length_pos (by omega), fun t ht => ?_, fun hone => ?_⟩
  · obtain ⟨i, hi, ht⟩ := mem_of_mapM hheads t ht
    rw [List.mem_range] at hi
    exact fragment_head hlow hhigh hn (by omega) ht
  · unfold fragment at hz
    rw [if_neg (by omega), if_pos (by omega)] at hz
    exact lastFrag_start (by omega) hhigh (by omega) hz ▸
      rawStart_ne hlow hhigh (by omega) (by omega)

/-- **No datagram is fragmented**: with an `mtu` that leaves room for eight bytes, what `ip_frag`
makes of a datagram that does not fit is never a fragmentation of it. -/
theorem fragments_wrong (hlow : 42 ≤ dev.mtu.toNat)
    (hlong : dev.mtu.toNat < ethHlen + ipTotLen skb.mem skb.nh) (h : fragments dev skb = .ok ts) :
    ¬ Fragmented dev.mtu.toNat skb ts := by
  have heth : ethHlen = 14 := rfl
  have hiph : iphdrLen = 20 := rfl
  obtain ⟨num, -, h⟩ := bind_eq_ok.mp h
  have hnum : num.toNat < 256 := num.isLt
  rintro ⟨-, ts', hperm, htiles, hpayload⟩
  generalize num.toNat = n at *
  rcases n with _ | _ | n
  · -- no fragment, but something to carry
    cases h
    have hlength := congrArg List.length hpayload
    rw [List.perm_nil.mp hperm, List.flatMap_nil, List.length_nil, ipPayload_length] at hlength
    omega
  · obtain ⟨t, us, ht, hnil, rfl⟩ := mapM_cons_eq_ok.mp h
    cases hnil
    rw [List.perm_singleton.mp hperm] at htiles
    have hmore := (fragment_head hlow dev.mtu.isLt hnum (.inl rfl) ht).more
    exact htiles.2.1.mp hmore rfl
  · obtain ⟨heads, z, rfl, hne, hheads, hz⟩ := fragments_split hlow dev.mtu.isLt hnum h
    obtain ⟨init, z', rfl⟩ : ∃ init z', ts' = init ++ [z'] := by
      refine (List.eq_nil_or_concat' ts').resolve_left fun hnil => ?_
      rw [hnil, List.nil_perm] at hperm
      exact List.append_ne_nil_of_right_ne_nil heads (List.cons_ne_nil z []) hperm
    -- the last in the order is the last in the chain, since only that announces no more
    have hz' : z' = z := by
      have hmem := hperm.subset (List.mem_append_right init (List.mem_singleton_self z'))
      rcases List.mem_append.mp hmem with hmem | hmem
      · exact absurd (hheads z' hmem).more htiles.last
      · exact List.mem_singleton.mp hmem
    subst hz'
    have hinit : init.Perm heads := (List.perm_append_right_iff [z']).mp hperm
    -- what comes second starts where a full piece ends
    cases init with
    | nil => exact hne (List.nil_perm.mp hinit)
    | cons g init =>
      have hg := (hheads g (hinit.subset List.mem_cons_self)).length
      cases init with
      | nil =>
        have hstart := htiles.2.2.1
        rw [hg, Nat.zero_add] at hstart
        exact hz hinit.length_eq.symm hstart
      | cons g' init =>
        have hg' := hheads g' (hinit.subset (List.mem_cons_of_mem g List.mem_cons_self))
        have hstart := htiles.2.2.1
        rw [hg, Nat.zero_add] at hstart
        exact hg'.start hstart

end Chains

/-! ## The function -/

/-- `ip_frag` returns a chain of buffers that is a fragmentation of the packet. -/
def FragmentsWell (dev : TxDevice) (st : TxState) (p : Nat) (skb : Skbuff) : Prop :=
  ∃ st' head l ts, ipFrag dev st p = .ok (st', head) ∧ Chain st'.sock head l ts ∧
    Fragmented dev.mtu.toNat skb ts

/-- A pointer leads through one chain, with one content. -/
theorem Chain.unique {s : SockState Skbuff} {p : Option Nat} {l l' : List Nat}
    {ts ts' : List Skbuff} (h : Chain s p l ts) (h' : Chain s p l' ts') : ts = ts' := by
  have hl := h.linked.unique h'.linked
  subst hl
  exact List.map_injective_iff.mpr (Option.some_injective Skbuff) (h.data.symm.trans h'.data)

section Function

variable {dev : TxDevice} {st : TxState} {p : Nat} {c : RecvSkb Skbuff}

/-- The chain has the fragments in it. -/
theorem FragmentsWell.fragmented (hp : st.sock.skb p = some c) (hlt : p < st.sock.brk)
    (hu : Unused st.sock) (h : FragmentsWell dev st p c.datagram) :
    ∃ ts, fragments dev c.datagram = .ok ts ∧ Fragmented dev.mtu.toNat c.datagram ts := by
  obtain ⟨st', head, l, ts, hok, hchain, hfrag⟩ := h
  cases hts : fragments dev c.datagram with
  | error e =>
    rw [ipFrag_error hp hts] at hok
    cases hok
  | ok ts' =>
    obtain ⟨st'', head', l', hok', hchain', -⟩ := ipFrag_ok hp hlt hu hts
    rw [hok] at hok'
    cases hok'
    exact ⟨ts', rfl, hchain.unique hchain' ▸ hfrag⟩

/-- **`ip_frag` fragments no datagram**, whatever the device's `mtu` from 42 on and the datagram
that does not fit it. -/
theorem not_fragmentsWell (hp : st.sock.skb p = some c) (hlt : p < st.sock.brk)
    (hu : Unused st.sock) (hlow : 42 ≤ dev.mtu.toNat)
    (hlong : dev.mtu.toNat < ethHlen + ipTotLen c.datagram.mem c.datagram.nh) :
    ¬ FragmentsWell dev st p c.datagram := by
  intro h
  obtain ⟨ts, hts, hfrag⟩ := h.fragmented hp hlt hu
  exact fragments_wrong hlow hlong hts hfrag

end Function

/-- A link of 100 bytes. -/
def shortLink : TxDevice := { txHost with mtu := 100#8 }

/-- A datagram with this in its `tot_len`, in the only buffer. -/
def oneDatagram (totLen : Byte) : TxState where
  arp := []
  sock := SockState.initial.alloc (ipSkb (udpFrame [0#8, totLen] [0#8, 0#8]) (14 + totLen.toNat))
  sent := []

theorem oneDatagram_unused (totLen : Byte) : Unused (oneDatagram totLen).sock := fun _ hq =>
  SockState.skb_alloc_ne (Nat.ne_of_gt hq) _

/-- A datagram of 200 bytes. -/
theorem not_fragmentsWell_long :
    (oneDatagram 200#8).sock.skb 0 = some ⟨ipSkb (udpFrame [0#8, 200#8] [0#8, 0#8]) 214, none⟩ ∧
      0 < (oneDatagram 200#8).sock.brk ∧ Unused (oneDatagram 200#8).sock ∧
      42 ≤ shortLink.mtu.toNat ∧
      shortLink.mtu.toNat < ethHlen + ipTotLen (udpFrame [0#8, 200#8] [0#8, 0#8]) 14 ∧
      ¬ FragmentsWell shortLink (oneDatagram 200#8) 0
        (ipSkb (udpFrame [0#8, 200#8] [0#8, 0#8]) 214) :=
  ⟨rfl, by decide, oneDatagram_unused _, by decide, by decide,
    not_fragmentsWell (c := ⟨ipSkb (udpFrame [0#8, 200#8] [0#8, 0#8]) 214, none⟩) rfl (by decide)
      (oneDatagram_unused _) (by decide) (by decide)⟩

/-- A datagram of 87 bytes does not fit either; its only fragment announces more. -/
theorem single_fragment_more :
    fragNum shortLink (ipSkb (udpFrame [0#8, 87#8] [0#8, 0#8]) 101) = .ok 1#8 ∧
      ¬ FragmentsWell shortLink (oneDatagram 87#8) 0
        (ipSkb (udpFrame [0#8, 87#8] [0#8, 0#8]) 101) := by
  have hnum : fragNum shortLink (ipSkb (udpFrame [0#8, 87#8] [0#8, 0#8]) 101) = .ok 1#8 := by decide
  refine ⟨hnum, fun h => ?_⟩
  obtain ⟨ts, hts, -, ts', hperm, htiles, -⟩ :=
    h.fragmented (c := ⟨ipSkb (udpFrame [0#8, 87#8] [0#8, 0#8]) 101, none⟩) rfl (by decide)
      (oneDatagram_unused _)
  obtain ⟨num, hnum', hts⟩ := bind_eq_ok.mp hts
  rw [hnum] at hnum'
  cases hnum'
  obtain ⟨t, us, ht, hnil, rfl⟩ := mapM_cons_eq_ok.mp hts
  cases hnil
  rw [List.perm_singleton.mp hperm] at htiles
  have hpiece := fragment_head (by decide : 42 ≤ shortLink.mtu.toNat) shortLink.mtu.isLt
    (by decide : (1#8).toNat < 256) (.inl rfl) ht
  exact htiles.2.1.mp hpiece.more rfl

/-! ## The device of the stack -/

/-- `sip_init_ethnet`: `memset`, and then all fields but `mtu`. -/
def sipInitEthnet : TxDevice where
  ipHost := inetAddr "172.16.12.250".toList
  ipNetmask := inetAddr "255.255.255.0".toList
  hwaddr := macOf 0x00#8 0x0C#8 0x29#8 0x73#8 0x9D#8 0x1F#8
  hwbroadcast := macOf 0xFF#8 0xFF#8 0xFF#8 0xFF#8 0xFF#8 0xFF#8
  ipGw := inetAddr "172.16.12.1".toList
  mtu := 0#8

/-- The test of `ip_output` that sends a datagram to `ip_frag`. -/
def HandedToFrag (dev : TxDevice) (a : IpArgs) (skb : Skbuff) : Prop :=
  dev.mtu.toNat < (ipHeader a skb).len.toNat

/-- The payload one fragment carries, as `ip_frag` computes it. -/
def fragPayload (dev : TxDevice) : Int := dev.mtu.toNat - iphdrLen - ethHlen

/-- What `ip_frag` computes with is in order: it has a frame to cut that is too long, something
to divide by, and the number of fragments that are needed. -/
structure CutsRight (dev : TxDevice) (skb : Skbuff) : Prop where
  long : ethFrameLen < ethHlen + ipTotLen skb.mem skb.nh
  divisor : 0 < fragPayload dev
  count : ∃ num, fragNum dev skb = .ok num ∧
    (num.toNat : Int) * fragPayload dev ≥ ipTotLen skb.mem skb.nh - iphdrLen ∧
    ((num.toNat : Int) - 1) * fragPayload dev < ipTotLen skb.mem skb.nh - iphdrLen

/-- **The arithmetic of `ip_frag` on the device of the stack** is in order for a packet of no
length, which does not get there, and for no other. -/
theorem handed_right_iff (a : IpArgs) (skb : Skbuff) :
    (HandedToFrag sipInitEthnet a skb → CutsRight sipInitEthnet (ipHeader a skb)) ↔
      skb.totLen = 0#32 := by
  have hhanded : HandedToFrag sipInitEthnet a skb ↔ skb.totLen ≠ 0#32 := by
    rw [ne_eq, ← BitVec.toNat_inj]
    exact Nat.pos_iff_ne_zero
  rw [hhanded]
  constructor
  · intro h
    by_contra hne
    -- the divisor is -34
    exact absurd (h hne).divisor (by decide)
  · intro h hne
    exact absurd h hne

/-- A packet that is only a header is handed on, to be divided by -34. -/
theorem handed_wrong :
    HandedToFrag sipInitEthnet headerArgs headerSkb ∧
      ¬ CutsRight sipInitEthnet (ipHeader headerArgs headerSkb) := by
  refine ⟨by unfold HandedToFrag; decide, fun h => absurd h.divisor (by decide)⟩

end LinuxNet.Sip
