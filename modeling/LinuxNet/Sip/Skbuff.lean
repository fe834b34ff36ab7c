import LinuxNet.Lib.Memory

/-!
# Socket buffers and the device of the user-space stack

`struct skbuff` of `sip_skbuff.h`: one allocated block seen from `head`, with
the header pointers `phy`, `nh`, `th` and the pointer `tail` as offsets into
it, and the two counters. `skb_put` moves `tail` forward and takes the same
amount off the *unsigned* counter `len`, without a test; both new values go to
the trace, next to every byte that is read.

Left out: the fields no function under verification uses (`dev`, `flags`,
`ref`, `type`, the bit field), and the failure of `malloc`.
-/

namespace LinuxNet.Sip

/-- What the receive path does to a frame: it reads a byte, or moves `tail`. -/
inductive Ev where
  | read (o : Nat)
  /-- `skb_put` has left these values of `len` and `tail`. -/
  | put (len : BitVec 32) (tail : Nat)
  deriving DecidableEq, Repr

/-- Read a byte of a frame. -/
abbrev peek8 (m : Mem) (o : Nat) : Traced Ev Byte := (rd8 m o).mapLog .read

/-- Read a 16-bit word of a frame, as it is stored. -/
abbrev peek16 (m : Mem) (o : Nat) : Traced Ev (BitVec 16) := (rd16 m o).mapLog .read

/-- Read a 32-bit word of a frame, as it is stored. -/
abbrev peek32 (m : Mem) (o : Nat) : Traced Ev (BitVec 32) := (rd32 m o).mapLog .read

/-! ## Constants -/

/-- `ETH_HLEN`. -/
abbrev ethHlen : Nat := 14

/-- `IPHDR_LEN`. -/
abbrev iphdrLen : Nat := 20

/-- `ETH_FRAME_LEN`. -/
abbrev ethFrameLen : Nat := 1514

/-! ## The buffer -/

/-- `CHECKSUM_*`. -/
inductive Summed where
  | none
  | hw
  | unnecessary
  deriving DecidableEq, Repr

/-- `struct skbuff`. -/
structure Skbuff where
  mem : Mem
  /-- `end - head`. -/
  size : Nat
  phy : Nat
  nh : Nat
  th : Nat
  tail : Nat
  totLen : BitVec 32
  len : BitVec 32
  ipSummed : Summed

/-- `SKB_DATA_ALIGN`. -/
def skbDataAlign (x : Nat) : Nat := (x + 3) / 4 * 4

/-- `skb_alloc`. -/
def skbAlloc (size : Nat) : Skbuff where
  mem _ := 0#8
  size := skbDataAlign size
  phy := 0
  nh := 0
  th := 0
  tail := 0
  totLen := 0#32
  len := 0#32
  ipSummed := .none

/-- `skb_put`: the old `tail`, and the buffer it leaves. -/
abbrev skbPut (skb : Skbuff) (len : Nat) : Traced Ev (Nat × Skbuff) :=
  let skb' :=
    { skb with tail := skb.tail + len, len := skb.len - BitVec.ofNat 32 len }
  ⟨(skb.tail, skb'), [.put skb'.len skb'.tail]⟩

/-! ## The IP header -/

/-- `iph->version`. -/
def ipVersion (m : Mem) (nh : Nat) : Nat := (m nh).toNat / 16

/-- `iph->ihl`. -/
def ipIhl (m : Mem) (nh : Nat) : Nat := (m nh).toNat % 16

/-- `ntohs(iph->tot_len)`. -/
def ipTotLen (m : Mem) (nh : Nat) : Nat := (ntohs (m.u16 (nh + 2))).toNat

/-- `ntohs(iph->frag_off)`. -/
def ipFragOff (m : Mem) (nh : Nat) : BitVec 16 := ntohs (m.u16 (nh + 6))

/-- `iph->protocol`. -/
def ipProtocol (m : Mem) (nh : Nat) : Byte := m (nh + 9)

/-- `iph->saddr`. -/
def ipSaddr (m : Mem) (nh : Nat) : BitVec 32 := m.u32 (nh + 12)

/-- `iph->daddr`. -/
def ipDaddr (m : Mem) (nh : Nat) : BitVec 32 := m.u32 (nh + 16)

/-! ## The device -/

/-- A hardware address: six octets. -/
structure Mac where
  bytes : List Byte
  length : bytes.length = 6
  deriving DecidableEq

/-- The hardware address of six octets. -/
def macOf (b0 b1 b2 b3 b4 b5 : Byte) : Mac := ⟨[b0, b1, b2, b3, b4, b5], rfl⟩

/-- `struct net_device`, by the fields the receive path reads. -/
structure NetDevice where
  ipHost : BitVec 32
  ipNetmask : BitVec 32
  hwaddr : Mac
  hwbroadcast : Mac

/-- `samemac`: the six comparisons, stopping at the first that fails. -/
def samemac (m : Mem) : Nat → List Byte → Traced Ev Bool
  | _, [] => return true
  | o, h :: hs => do
    let b ← peek8 m o
    if b = h then samemac m (o + 1) hs else return false

/-- `IP_IS_BROADCAST`. -/
def ipIsBroadcast (dev : NetDevice) (ip : BitVec 32) : Bool :=
  if ip = 0#32 ∨ ~~~ip = 0#32 then true
  else if ip = dev.ipHost then false
  else
    (ip &&& dev.ipNetmask) == (dev.ipHost &&& dev.ipNetmask) &&
      (ip &&& ~~~dev.ipNetmask) == (0xFFFFFFFF#32 &&& ~~~dev.ipNetmask)

/-- An address is a broadcast address: all zeros, all ones, or another address
of the subnet than the host's with all host bits set. -/
def Broadcast (dev : NetDevice) (ip : BitVec 32) : Prop :=
  ip = 0#32 ∨ ip = BitVec.allOnes 32 ∨
    ip ≠ dev.ipHost ∧ ip &&& dev.ipNetmask = dev.ipHost &&& dev.ipNetmask ∧
      ip ||| dev.ipNetmask = BitVec.allOnes 32

/-- The host bits of an address are all set exactly if the mask fills it up. -/
theorem hostBits_iff (ip mask : BitVec 32) :
    ip &&& ~~~mask = 0xFFFFFFFF#32 &&& ~~~mask ↔ ip ||| mask = BitVec.allOnes 32 := by
  have hones : (0xFFFFFFFF#32 : BitVec 32) = BitVec.allOnes 32 := by decide
  rw [hones]
  constructor
  · intro h
    ext i hi
    have hb := congrArg (fun x => x.getLsbD i) h
    simp only [BitVec.getLsbD_and, BitVec.getLsbD_not, BitVec.getLsbD_allOnes, hi, decide_true,
      Bool.true_and] at hb
    simp only [BitVec.getElem_or, BitVec.getElem_allOnes]
    rw [← BitVec.getLsbD_eq_getElem, ← BitVec.getLsbD_eq_getElem]
    revert hb
    cases ip.getLsbD i <;> cases mask.getLsbD i <;> simp
  · intro h
    ext i hi
    have hb := congrArg (fun x => x.getLsbD i) h
    simp only [BitVec.getLsbD_or, BitVec.getLsbD_allOnes, hi, decide_true] at hb
    simp only [BitVec.getElem_and, BitVec.getElem_not, BitVec.getElem_allOnes]
    rw [← BitVec.getLsbD_eq_getElem, ← BitVec.getLsbD_eq_getElem]
    revert hb
    cases ip.getLsbD i <;> cases mask.getLsbD i <;> simp

/-- `IP_IS_BROADCAST` tells exactly the broadcast addresses. -/
theorem ipIsBroadcast_iff (dev : NetDevice) (ip : BitVec 32) :
    ipIsBroadcast dev ip = true ↔ Broadcast dev ip := by
  have hones : ~~~ip = 0#32 ↔ ip = BitVec.allOnes 32 := by
    constructor
    · intro h
      rw [← BitVec.not_not (b := ip), h]
      decide
    · intro he
      subst he
      decide
  unfold ipIsBroadcast Broadcast
  rw [← hones]
  by_cases h0 : ip = 0#32 ∨ ~~~ip = 0#32
  · rw [if_pos h0]
    exact iff_of_true rfl (h0.imp_right .inl)
  · rw [if_neg h0]
    obtain ⟨hz, ho⟩ := not_or.mp h0
    rw [or_iff_right hz, or_iff_right ho]
    by_cases hh : ip = dev.ipHost
    · rw [if_pos hh]
      exact iff_of_false Bool.false_ne_true fun h => h.1 hh
    · rw [if_neg hh, Bool.and_eq_true, beq_iff_eq, beq_iff_eq, hostBits_iff]
      exact (and_iff_right hh).symm

end LinuxNet.Sip
