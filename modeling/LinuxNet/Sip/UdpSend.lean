import LinuxNet.Lib.Except
import LinuxNet.Sip.Checksum
import LinuxNet.Sip.UdpSteps

/-!
# What is sent over UDP

`SIP_UDPSendTo` and `SIP_ChksumPseudo`. Two pointers of `SIP_UDPSendTo` are followed
before they have a value: `q`, which is to be the packet, and `src_ip` in the branch for
a block without a local address. Whatever happens to be in them comes in as a parameter
(`Stray`).

The checksum is folded into that of the pseudo header as it is returned by `SIP_Chksum`,
which has already complemented it, and it is one of the whole buffer, not of what stands
behind the UDP header. `sendTo_iff` says when the result still is the checksum of the
datagram.

Left out: the call of `SIP_UDPSendOutput` at the end, which is passed its arguments in
other places than it takes them.
-/

namespace LinuxNet.Sip

/-! ## The functions -/

/-- `while ((acc >> 16) != 0) acc = (acc & 0xffff) + (acc >> 16)`. -/
def carries (acc : Nat) : Nat :=
  if acc / 65536 = 0 then acc else carries (acc % 65536 + acc / 65536)
  termination_by acc
  decreasing_by omega

/-- `((acc & 0xff) << 8) | ((acc & 0xff00) >> 8)`. -/
def swapOctets (acc : Nat) : Nat := acc % 256 * 256 + acc / 256 % 256

/-- `SIP_ChksumPseudo`; `data` is where the buffer begins. -/
def sipChksumPseudo (skb : Skbuff) (src dest : BitVec 32) (proto : BitVec 8)
    (protoLen : BitVec 16) : BitVec 16 :=
  let acc := carries (sipChksum skb.mem 0 (skb.size % 65536)).val.toNat
  let swapped := skb.len.toNat % 2 ≠ 0
  let acc := if swapped then swapOctets acc else acc
  let acc := if swapped then swapOctets acc else acc
  let acc := acc + src.toNat % 65536 + src.toNat / 65536
  let acc := acc + dest.toNat % 65536 + dest.toNat / 65536
  let acc := acc + (htons (proto.setWidth 16)).toNat + (htons protoLen).toNat
  ~~~BitVec.ofNat 16 (carries acc)

/-- `UDP_FLAGS_NOCHKSUM`. -/
def udpFlagsNochksum : BitVec 8 := 1#8

/-- `IPPROTO_UDP`. -/
def ipprotoUdp : BitVec 8 := 17#8

/-- What ends `SIP_UDPSendTo` early. -/
inductive SendFault where
  | fault (f : Fault)
  /-- A pointer without a value leads nowhere. -/
  | wild
  deriving DecidableEq, Repr

/-- What the two pointers without a value lead to. -/
structure Stray where
  /-- `q->tot_len`, if there is a buffer at `q`. -/
  totLen : Option (BitVec 32)
  /-- There is an address at `src_ip`, and it may be written. -/
  srcIp : Bool

/-- The UDP header as it is filled in before the checksum is taken. -/
def udpHeader (c : UdpPcb) (skb : Skbuff) (dstPort len : BitVec 16) : Skbuff :=
  let mem := skb.mem.write skb.th (bytesOf16 (htons c.portLocal))
  let mem := mem.write (skb.th + 2) (bytesOf16 (htons dstPort))
  let mem := mem.write (skb.th + 6) [0#8, 0#8]
  { skb with mem := mem.write (skb.th + 4) (bytesOf16 (htons len)) }

/-- The source address of `SIP_UDPSendTo`. -/
def sendSource (dev : NetDevice) (c : UdpPcb) : BitVec 32 :=
  if c.ipLocal = 0#32 then dev.ipHost else c.ipLocal

/-- `SIP_UDPSendTo` from where the block has a port: the buffer that goes to
`SIP_UDPSendOutput`. -/
def udpFill (dev : NetDevice) (stray : Stray) (c : UdpPcb) (skb : Skbuff) (dstIp : BitVec 32)
    (dstPort : BitVec 16) : Except SendFault Skbuff :=
  if c.ipLocal = 0#32 ∧ stray.srcIp = false then .error .wild
  else
    match stray.totLen with
    | none => .error .wild
    | some totLen =>
      let skb := udpHeader c skb dstPort (totLen.setWidth 16)
      if c.flags &&& udpFlagsNochksum = 0#8 then
        let check :=
          sipChksumPseudo skb (sendSource dev c) dstIp ipprotoUdp (totLen.setWidth 16)
        let check := if check = 0#16 then 0xFFFF#16 else check
        .ok { skb with mem := skb.mem.write (skb.th + 6) (bytesOf16 check) }
      else .ok skb

/-- The bind at the beginning of `SIP_UDPSendTo`. -/
def boundFirst (st : UdpState) (p : Nat) : Except Fault (UdpState × Int) := do
  let c ← st.deref (some p)
  if c.portLocal = 0#16 then st.udpBind p c.ipLocal c.portLocal else return (st, 0)

/-- `SIP_UDPSendTo`: the control blocks, the error of the bind, and the buffer that is
handed on if there was none. -/
def udpSendTo (dev : NetDevice) (stray : Stray) (st : UdpState) (p : Nat) (skb : Skbuff)
    (dstIp : BitVec 32) (dstPort : BitVec 16) :
    Except SendFault (UdpState × Int × Option Skbuff) :=
  match boundFirst st p with
  | .error f => .error (.fault f)
  | .ok (st, err) =>
    if err ≠ 0 then .ok (st, err, none)
    else
      match st.deref (some p) with
      | .error f => .error (.fault f)
      | .ok c => (udpFill dev stray c skb dstIp dstPort).map fun skb => (st, 0, some skb)

/-! ## The accumulator -/

theorem carries_of_lt {n : Nat} (h : n < 65536) : carries n = n := by
  rw [carries, if_pos (by omega)]

theorem carries_step (n : Nat) : carries n = carries (fold n) := by
  by_cases h : n < 65536
  · rw [fold_of_lt h]
  · rw [carries, if_neg (by omega), fold, Nat.add_comm]

/-- The loop is the two folds that a 32-bit accumulator needs. -/
theorem carries_eq_fold {n : Nat} (h : n < 4294967296) : carries n = fold (fold n) := by
  rw [carries_step, carries_step, carries_of_lt]
  exact Nat.lt_succ_of_le (fold_fold_le h)

theorem swapOctets_swapOctets {n : Nat} (h : n < 65536) : swapOctets (swapOctets n) = n := by
  obtain ⟨hi, lo, hhi, hlo, rfl⟩ : ∃ hi lo, hi < 256 ∧ lo < 256 ∧ n = 256 * hi + lo :=
    ⟨n / 256, n % 256, by omega, by omega, by omega⟩
  have hswap : ∀ hi lo, hi < 256 → lo < 256 → swapOctets (256 * hi + lo) = 256 * lo + hi := by
    intro hi lo hhi hlo
    unfold swapOctets
    omega
  rw [hswap hi lo hhi hlo, hswap lo hi hlo hhi]

/-- What is swapped for an odd length is swapped back. -/
theorem swapped_twice {n : Nat} (h : n < 65536) (swapped : Prop) [Decidable swapped] :
    (if swapped then swapOctets (if swapped then swapOctets n else n)
      else if swapped then swapOctets n else n) = n := by
  by_cases hs : swapped
  · rw [if_pos hs, if_pos hs, swapOctets_swapOctets h]
  · rw [if_neg hs, if_neg hs]

/-! ## The datagram -/

/-- The words of an address, as it is stored. -/
def addrWords (ip : BitVec 32) : List Nat :=
  [(byteOf 0 ip).toNat * 256 + (byteOf 1 ip).toNat,
    (byteOf 2 ip).toNat * 256 + (byteOf 3 ip).toNat]

/-- The words of the pseudo header. -/
def pseudoWords (src dest : BitVec 32) (len : Nat) : List Nat :=
  addrWords src ++ addrWords dest ++ [17, len]

/-- A receiver accepts the datagram of `len` bytes at an offset: there is a checksum, and
the one's-complement sum of the pseudo header and the datagram is all ones. -/
structure Accepted (m : Mem) (src dest : BitVec 32) (o len : Nat) : Prop where
  present : m.u16 (o + 6) ≠ 0#16
  sum : onesSum (pseudoWords src dest len ++ beWords m len o) = 65535

/-- The halves of an address in the order of the host. -/
theorem addrWords_mod (ip : BitVec 32) :
    (ip.toNat % 65536 + ip.toNat / 65536) % 65535 = (addrWords ip).sum * 256 % 65535 := by
  have h := ip.isLt
  obtain ⟨b0, b1, b2, b3, h0, h1, h2, h3, hip⟩ : ∃ b0 b1 b2 b3, b0 < 256 ∧ b1 < 256 ∧ b2 < 256 ∧
      b3 < 256 ∧ ip.toNat = b0 + 256 * b1 + 65536 * b2 + 16777216 * b3 :=
    ⟨ip.toNat % 256, ip.toNat / 256 % 256, ip.toNat / 65536 % 256, ip.toNat / 16777216,
      by omega, by omega, by omega, by omega, by omega⟩
  have hlow : ip.toNat % 65536 = b0 + 256 * b1 := by omega
  have hhigh : ip.toNat / 65536 = b2 + 256 * b3 := by omega
  have hbyte : (byteOf 0 ip).toNat = b0 ∧ (byteOf 1 ip).toNat = b1 ∧
      (byteOf 2 ip).toNat = b2 ∧ (byteOf 3 ip).toNat = b3 := by
    simp only [byteOf, BitVec.toNat_ofNat]
    omega
  obtain ⟨hb0, hb1, hb2, hb3⟩ := hbyte
  rw [hlow, hhigh, addrWords, hb0, hb1, hb2, hb3, List.sum_cons, List.sum_singleton]
  omega

theorem addrWords_le (ip : BitVec 32) : ∀ w ∈ addrWords ip, w ≤ 65535 := by
  intro w hw
  have h0 := (byteOf 0 ip).isLt
  have h1 := (byteOf 1 ip).isLt
  have h2 := (byteOf 2 ip).isLt
  have h3 := (byteOf 3 ip).isLt
  rw [addrWords, List.mem_cons, List.mem_singleton] at hw
  omega

theorem pseudoWords_sum (src dest : BitVec 32) (len : Nat) :
    (pseudoWords src dest len).sum = (addrWords src).sum + (addrWords dest).sum + 17 + len := by
  simp only [pseudoWords, List.sum_append, List.sum_cons, List.sum_nil]
  omega

theorem pseudoWords_le {src dest : BitVec 32} {len : Nat} (h : len ≤ 65535) :
    ∀ w ∈ pseudoWords src dest len, w ≤ 65535 := by
  intro w hw
  rw [pseudoWords, List.mem_append, List.mem_append] at hw
  rcases hw with (hw | hw) | hw
  · exact addrWords_le src w hw
  · exact addrWords_le dest w hw
  · rw [List.mem_cons, List.mem_singleton] at hw
    omega

/-- What `SIP_ChksumPseudo` adds up. -/
def pseudoAcc (skb : Skbuff) (src dest : BitVec 32) (len : BitVec 16) : Nat :=
  (sipChksum skb.mem 0 (skb.size % 65536)).val.toNat + src.toNat % 65536 + src.toNat / 65536 +
    dest.toNat % 65536 + dest.toNat / 65536 + 17 * 256 + (htons len).toNat

theorem pseudoAcc_lt (skb : Skbuff) (src dest : BitVec 32) (len : BitVec 16) :
    pseudoAcc skb src dest len < 4294967296 := by
  have hlt := (sipChksum skb.mem 0 (skb.size % 65536)).val.isLt
  have hsrc := src.isLt
  have hdest := dest.isLt
  have hlen := (htons len).isLt
  unfold pseudoAcc
  omega

theorem sipChksumPseudo_eq (skb : Skbuff) (src dest : BitVec 32) (len : BitVec 16) :
    (sipChksumPseudo skb src dest ipprotoUdp len).toNat =
      65535 - fold (fold (pseudoAcc skb src dest len)) := by
  have hlt := (sipChksum skb.mem 0 (skb.size % 65536)).val.isLt
  have hproto : (htons (ipprotoUdp.setWidth 16)).toNat = 17 * 256 := by decide
  have hacc := pseudoAcc_lt skb src dest len
  have hle := fold_fold_le hacc
  unfold sipChksumPseudo
  dsimp only
  rw [carries_of_lt hlt, swapped_twice hlt, hproto, BitVec.toNat_not]
  change 65535 - (BitVec.ofNat 16 (carries (pseudoAcc skb src dest len))).toNat = _
  rw [carries_eq_fold hacc, BitVec.toNat_ofNat, Nat.mod_eq_of_lt (by omega)]

/-- The checksum of the pseudo header and a buffer: modulo 65535, the sum of the buffer less
that of the pseudo header. -/
theorem sipChksumPseudo_mod (skb : Skbuff) (src dest : BitVec 32) (len : BitVec 16) :
    ((htons (sipChksumPseudo skb src dest ipprotoUdp len)).toNat +
        (pseudoWords src dest len.toNat).sum) % 65535 =
      (beWords skb.mem (skb.size % 65536) 0).sum % 65535 := by
  have hlen : skb.size % 65536 ≤ 65535 := by omega
  obtain ⟨hones, hmod, -⟩ := onesSum_spec (beWords_le skb.mem (skb.size % 65536) 0)
  have hcount : (BitVec.ofNat 16 (onesSum (beWords skb.mem (skb.size % 65536) 0))).toNat =
      onesSum (beWords skb.mem (skb.size % 65536) 0) := by
    rw [BitVec.toNat_ofNat, Nat.mod_eq_of_lt (by omega)]
  have hS := htons_mod (~~~BitVec.ofNat 16 (onesSum (beWords skb.mem (skb.size % 65536) 0)))
  rw [← sipChksum_val hlen, BitVec.toNat_not, hcount] at hS
  have hSlt := (sipChksum skb.mem 0 (skb.size % 65536)).val.isLt
  have hacc : pseudoAcc skb src dest len % 65535 =
      (65535 - onesSum (beWords skb.mem (skb.size % 65536) 0) +
        (pseudoWords src dest len.toNat).sum) * 256 % 65535 := by
    have hsrc := addrWords_mod src
    have hdest := addrWords_mod dest
    have hL := htons_mod len
    rw [pseudoWords_sum, pseudoAcc]
    omega
  have hle := fold_fold_le (pseudoAcc_lt skb src dest len)
  have hres : fold (fold (pseudoAcc skb src dest len)) % 65535 =
      pseudoAcc skb src dest len % 65535 := (fold_mod _).trans (fold_mod _)
  have hback := htons_mod (sipChksumPseudo skb src dest ipprotoUdp len)
  rw [sipChksumPseudo_eq] at hback
  omega

/-! ## What is stored -/

/-- With the header filled in, the words of the whole buffer and once more those of the datagram,
of `8 + n` bytes, make up for its length being taken from `q`; and the pointers without a value
lead somewhere. -/
def MakesUp (stray : Stray) (c : UdpPcb) (skb : Skbuff) (dstPort : BitVec 16) (n : Nat) : Prop :=
  (c.ipLocal = 0#32 → stray.srcIp = true) ∧ ∃ totLen, stray.totLen = some totLen ∧
    ((beWords (udpHeader c skb dstPort (totLen.setWidth 16)).mem (skb.size % 65536) 0).sum +
        (beWords (udpHeader c skb dstPort (totLen.setWidth 16)).mem (8 + n) skb.th).sum +
          (8 + n)) % 65535 =
      totLen.toNat % 65536 % 65535

section Send

variable {dev : NetDevice} {stray : Stray} {st st' : UdpState} {p n : Nat} {c : UdpPcb}
  {skb : Skbuff} {dstIp : BitVec 32} {dstPort : BitVec 16}

/-- The checksum field is zero while the checksum is taken. -/
theorem udpHeader_check (c : UdpPcb) (skb : Skbuff) (dstPort len : BitVec 16) :
    (udpHeader c skb dstPort len).mem.write (skb.th + 6) [0#8, 0#8] =
      (udpHeader c skb dstPort len).mem := by
  funext i
  by_cases hi : i < skb.th + 6 ∨ skb.th + 6 + 2 ≤ i
  · exact Mem.write_apart hi
  · obtain ⟨k, hk, rfl⟩ : ∃ k, k < 2 ∧ i = skb.th + 6 + k := ⟨i - (skb.th + 6), by omega, by omega⟩
    have hzero : ∀ m : Mem, m.write (skb.th + 6) [0#8, 0#8] (skb.th + 6 + k) = 0#8 := by
      intro m
      rw [Mem.write, if_pos (Nat.le_add_right ..), Nat.add_sub_cancel_left]
      rcases Nat.le_one_iff_eq_zero_or_eq_one.mp (Nat.le_of_lt_succ hk) with rfl | rfl <;> rfl
    rw [hzero, udpHeader]
    exact ((Mem.write_apart (.inr (by rw [bytesOf16]; simp))).trans (hzero _)).symm

/-- The datagram with a checksum in its header. -/
theorem accepted_iff {m : Mem} {src : BitVec 32} {o : Nat} {x : BitVec 16} (hn : 8 + n ≤ 65535)
    (hzero : m.write (o + 6) [0#8, 0#8] = m) (hx : x ≠ 0#16) :
    Accepted (m.write (o + 6) (bytesOf16 x)) src dstIp o (8 + n) ↔
      ((pseudoWords src dstIp (8 + n)).sum + (beWords m (8 + n) o).sum + (htons x).toNat) % 65535 =
        0 := by
  have hwords : ∀ w ∈ pseudoWords src dstIp (8 + n) ++
      beWords (m.write (o + 6) (bytesOf16 x)) (8 + n) o, w ≤ 65535 := by
    intro w hw
    rcases List.mem_append.mp hw with hw | hw
    · exact pseudoWords_le hn w hw
    · exact beWords_le _ _ _ w hw
  have hsum := beWords_sum_write m x 3 (8 + n) o (by omega)
  rw [hzero] at hsum
  have hpos := pseudoWords_sum src dstIp (8 + n)
  have hiff := onesSum_eq_iff hwords
  rw [List.sum_append, hsum] at hiff
  constructor
  · intro h
    have := (hiff.mp h.sum).2
    omega
  · intro h
    refine ⟨?_, hiff.mpr ⟨by omega, by omega⟩⟩
    rw [Mem.u16_write_self]
    exact hx

/-- A checksum of zero is stored as `0xFFFF`, which is as good. -/
theorem stored_cases (check : BitVec 16) : ∃ x : BitVec 16, x ≠ 0#16 ∧
    (htons x).toNat % 65535 = (htons check).toNat % 65535 ∧
      (if check = 0#16 then 0xFFFF#16 else check) = x := by
  by_cases h : check = 0#16
  · subst h
    exact ⟨0xFFFF#16, by decide, by decide, rfl⟩
  · exact ⟨check, h, rfl, if_neg h⟩

/-- The checksum of a datagram whose source port is known. -/
theorem fill_iff (hn : 8 + n ≤ 65535) (hflag : c.flags &&& udpFlagsNochksum = 0#8) :
    (∃ skb', udpFill dev stray c skb dstIp dstPort = .ok skb' ∧
        Accepted skb'.mem (sendSource dev c) dstIp skb.th (8 + n)) ↔
      MakesUp stray c skb dstPort n := by
  unfold udpFill MakesUp
  by_cases hwild : c.ipLocal = 0#32 ∧ stray.srcIp = false
  · rw [if_pos hwild]
    refine iff_of_false (fun h => ?_) fun h => ?_
    · obtain ⟨skb', hok, -⟩ := h
      cases hok
    · rw [hwild.2] at h
      cases h.1 hwild.1
  rw [if_neg hwild]
  cases htot : stray.totLen with
  | none =>
    refine iff_of_false (fun h => ?_) fun h => ?_
    · obtain ⟨skb', hok, -⟩ := h
      cases hok
    · obtain ⟨-, totLen, hsome, -⟩ := h
      cases hsome
  | some totLen =>
    dsimp only
    rw [if_pos hflag]
    -- the value that means no checksum is stored as the other zero
    obtain ⟨x, hx, hres, hstored⟩ := stored_cases (sipChksumPseudo
      (udpHeader c skb dstPort (totLen.setWidth 16)) (sendSource dev c) dstIp ipprotoUdp
      (totLen.setWidth 16))
    rw [hstored]
    have hacc := @accepted_iff n dstIp (udpHeader c skb dstPort (totLen.setWidth 16)).mem
      (sendSource dev c) skb.th x hn (udpHeader_check ..) hx
    have hpseudo := sipChksumPseudo_mod (udpHeader c skb dstPort (totLen.setWidth 16))
      (sendSource dev c) dstIp (totLen.setWidth 16)
    have hsize : (udpHeader c skb dstPort (totLen.setWidth 16)).size = skb.size := rfl
    rw [pseudoWords_sum, BitVec.toNat_setWidth, hsize] at hpseudo
    rw [pseudoWords_sum] at hacc
    have hsum : Accepted ((udpHeader c skb dstPort (totLen.setWidth 16)).mem.write (skb.th + 6)
        (bytesOf16 x)) (sendSource dev c) dstIp skb.th (8 + n) ↔
        ((beWords (udpHeader c skb dstPort (totLen.setWidth 16)).mem (skb.size % 65536) 0).sum +
          (beWords (udpHeader c skb dstPort (totLen.setWidth 16)).mem (8 + n) skb.th).sum +
            (8 + n)) % 65535 = totLen.toNat % 65536 % 65535 := by
      rw [hacc]
      omega
    constructor
    · intro h
      obtain ⟨skb', hok, haccepted⟩ := h
      cases hok
      exact ⟨fun hz => by simpa [hz] using hwild, totLen, rfl, hsum.mp haccepted⟩
    · intro h
      obtain ⟨-, totLen', hsome, hcond⟩ := h
      cases hsome
      exact ⟨_, rfl, hsum.mpr hcond⟩

/-- Behind the bind `SIP_UDPSendTo` is what fills the header in. -/
theorem sendTo_eq (hbind : boundFirst st p = .ok (st', 0)) (hc : st'.pcb p = some c) :
    udpSendTo dev stray st p skb dstIp dstPort =
      (udpFill dev stray c skb dstIp dstPort).map fun skb => (st', 0, some skb) := by
  rw [udpSendTo, hbind]
  dsimp only
  rw [if_neg (not_not_intro rfl), UdpState.deref_eq hc]

/-- **The checksum of `SIP_UDPSendTo`** is the one of the datagram exactly if what is summed
up besides makes up for it. -/
theorem sendTo_iff (hn : 8 + n ≤ 65535) (hbind : boundFirst st p = .ok (st', 0))
    (hc : st'.pcb p = some c) (hflag : c.flags &&& udpFlagsNochksum = 0#8) :
    (∃ skb', udpSendTo dev stray st p skb dstIp dstPort = .ok (st', 0, some skb') ∧
        Accepted skb'.mem (sendSource dev c) dstIp skb.th (8 + n)) ↔
      MakesUp stray c skb dstPort n := by
  rw [← @fill_iff dev stray n c skb dstIp dstPort hn hflag, sendTo_eq hbind hc]
  constructor
  · intro h
    obtain ⟨skb', hok, haccepted⟩ := h
    obtain ⟨skb'', hfill, he⟩ := map_eq_ok.mp hok
    cases he
    exact ⟨skb', hfill, haccepted⟩
  · intro h
    obtain ⟨skb', hfill, haccepted⟩ := h
    exact ⟨skb', by rw [hfill]; rfl, haccepted⟩

/-- The device of 10.0.0.1. -/
def sendDevice : NetDevice where
  ipHost := 0x0100000A#32
  ipNetmask := 0x00FFFFFF#32
  hwaddr := macOf 0x00#8 0x0C#8 0x29#8 0x73#8 0x9D#8 0x1F#8
  hwbroadcast := macOf 0xFF#8 0xFF#8 0xFF#8 0xFF#8 0xFF#8 0xFF#8

/-- A block bound to port 5 of 10.0.0.1. -/
def boundBlock : UdpPcb := ⟨0x0100000A#32, 0#32, 255#8, none, 0#8, 5#16, 0#16, none⟩

/-- The table with this block in it. -/
def boundTable : UdpState :=
  ⟨Function.update (fun _ => none) 0 (some boundBlock),
    Function.update (fun _ => none) 5 (some 0), 0#32, 1⟩

/-- A buffer for a datagram with two bytes of payload. -/
def wordSkb (payload : BitVec 16) : Skbuff :=
  { skbAlloc 44 with th := 34, mem := Mem.zero.write 42 (bytesOf16 (htons payload)) }

/-- Pointers without a value that lead to the packet itself, of `len` bytes. -/
def lucky (len : Nat) : Stray := ⟨some (BitVec.ofNat 32 len), true⟩

/-- With these two bytes the sum of the datagram is zero as it is. -/
theorem sendTo_iff_zero : ∃ skb',
    udpSendTo sendDevice (lucky 10) boundTable 0 (wordSkb 0xFFE9#16) 0x0200000A#32 7#16 =
      .ok (boundTable, 0, some skb') ∧
      Accepted skb'.mem 0x0100000A#32 0x0200000A#32 34 10 :=
  (@sendTo_iff sendDevice (lucky 10) boundTable boundTable 0 2 boundBlock (wordSkb 0xFFE9#16)
    0x0200000A#32 7#16 (by decide) rfl rfl (by decide)).mpr
      ⟨fun _ => rfl, 10#32, rfl, by decide⟩

/-- With two zeros it is not, even if the two pointers lead where they should. -/
theorem sendTo_unaccepted : ¬∀ (dev : NetDevice) (st st' : UdpState) (p n : Nat) (c : UdpPcb)
    (skb : Skbuff) (dstIp : BitVec 32) (dstPort : BitVec 16), 8 + n ≤ 65535 →
    boundFirst st p = .ok (st', 0) → st'.pcb p = some c → c.flags &&& udpFlagsNochksum = 0#8 →
    ∃ skb', udpSendTo dev (lucky (8 + n)) st p skb dstIp dstPort = .ok (st', 0, some skb') ∧
      Accepted skb'.mem (sendSource dev c) dstIp skb.th (8 + n) := by
  intro h
  obtain ⟨skb', hok, haccepted⟩ := h sendDevice boundTable boundTable 0 2 boundBlock
    (wordSkb 0#16) 0x0200000A#32 7#16 (by decide) rfl rfl (by decide)
  rw [sendTo_eq rfl rfl] at hok
  obtain ⟨skb'', hfill, he⟩ := map_eq_ok.mp hok
  cases he
  obtain ⟨-, totLen, hsome, hcond⟩ := (fill_iff (by decide) (by decide)).mp ⟨_, hfill, haccepted⟩
  cases hsome
  exact absurd hcond (by decide)

end Send

end LinuxNet.Sip
