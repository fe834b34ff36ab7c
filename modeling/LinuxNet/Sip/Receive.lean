import LinuxNet.Sip.Arp
import LinuxNet.Sip.Reassembly

/-!
# The receive path

`input` of `sip_ether.c`, `ip_input` of `sip_ip.c`, `icmp_input` and
`icmp_echo` of `sip_icmp.c`, from the bytes `read` returned down to the
transport handlers. Every access through `phy`, `nh` and `th` goes through the
trace, and so does every `skb_put`.

`icmp_input` calls `cksum`, which is declared in `sip.h` with a 16-bit length
and whose text in `sip_skbuff.c` is disabled; `cksum` below is that text.

What a function passes on, rather than what it does next, is its result: the
packet for a transport handler (`Handed`), the echo reply for `ip_output`.
-/

namespace LinuxNet.Sip

/-! ## ICMP -/

/-- The loop of `cksum`. -/
def cksumLoop (m : Mem) : Nat → Nat → Nat → Traced Ev Nat
  | 0, _, sum => return sum
  | 1, o, sum => do
    let b ← peek8 m o
    return sum + b.toNat * 256
  | len + 2, o, sum => do
    let w ← peek16 m o
    cksumLoop m len (o + 2) (sum + w.toNat)

/-- `cksum`, with the length its prototype has. -/
def cksum (m : Mem) (o : Nat) (len : BitVec 16) : Traced Ev (BitVec 16) := do
  let sum ← cksumLoop m len.toNat o 0
  let sum := sum / 65536 + sum % 65536
  return ~~~BitVec.ofNat 16 (sum + sum / 65536)

/-- `IP_IS_MULTICAST`. -/
def ipIsMulticast (ip : BitVec 32) : Bool := ip &&& htonl 0xF0000000#32 == htonl 0xE0000000#32

/-- What `icmp_input` makes of a message. -/
inductive IcmpOutcome where
  /-- `skb_free`. -/
  | dropped
  /-- The handler of the type does nothing. -/
  | ignored
  /-- The buffer goes to `ip_output`, for this destination. -/
  | echoed (skb : Skbuff) (dest : BitVec 32)

/-- `icmp_echo`. -/
def icmpEcho (dev : NetDevice) (skb : Skbuff) : Traced Ev IcmpOutcome := do
  let daddr ← peek32 skb.mem (skb.nh + 16)
  if ipIsBroadcast dev daddr = true ∨ ipIsMulticast daddr = true then return .ignored
  else do
    let checksum ← peek16 skb.mem (skb.th + 2)
    let checksum :=
      if htons 0xF7FF#16 ≤ checksum then checksum + (htons 0x0800#16 + 1#16)
      else checksum + htons 0x0800#16
    let dest ← peek32 skb.mem (skb.nh + 12)
    let mem := (skb.mem.write skb.th [0#8]).write (skb.th + 2) (bytesOf16 checksum)
    return .echoed { skb with mem := mem } dest

/-- `NR_ICMP_TYPES`. -/
def nrIcmpTypes : Nat := 18

/-- The `CHECKSUM_NONE` case of `icmp_input`: a sum over no bytes of the frame. -/
def icmpUnsummed (skb : Skbuff) : Traced Ev Bool :=
  if skb.ipSummed = .none then do
    let c ← cksum skb.mem skb.phy 0#16
    return decide (c ≠ 0#16)
  else return false

/-- `icmp_input`. -/
def icmpInput (dev : NetDevice) (skb : Skbuff) : Traced Ev IcmpOutcome := do
  let bad ← icmpUnsummed skb
  if bad = true then return .dropped
  else do
    let totLen ← peek16 skb.mem (skb.nh + 2)
    let ihl ← peek8 skb.mem skb.nh
    let _ ← cksum skb.mem skb.th (ntohs totLen - BitVec.ofNat 16 (ihl.toNat % 16 * 4))
    let type ← peek8 skb.mem skb.th
    if type.toNat > nrIcmpTypes then return .dropped
    -- icmp_pointers: every handler but that of ICMP_ECHO is empty
    else if type = 8#8 then icmpEcho dev skb
    else return .ignored

/-! ## IP -/

/-- The address test of `ip_input`: for the host, or a broadcast; and not from a
broadcast address. -/
def addressesOk (dev : NetDevice) (saddr daddr : BitVec 32) : Bool :=
  (daddr == dev.ipHost || ipIsBroadcast dev daddr) && !ipIsBroadcast dev saddr

/-- The checks of `ip_input`, in its order; `false` is a drop. The first test,
`skb->len < 0`, compares an unsigned number and never drops. -/
def ipChecks (dev : NetDevice) (skb : Skbuff) : Traced Ev Bool := do
  let b ← peek8 skb.mem skb.nh
  if b.toNat / 16 ≠ 4 then return false
  else if b.toNat % 16 * 4 < iphdrLen then return false
  else do
    let totLen ← peek16 skb.mem (skb.nh + 2)
    if (skb.totLen - BitVec.ofNat 32 ethHlen).toNat < (ntohs totLen).toNat then return false
    else if b.toNat % 16 * 4 < (ntohs totLen).toNat then return false
    else do
      let sum ← sipChksum skb.mem skb.nh iphdrLen
      if sum ≠ 0#16 then return false
      else do
        let daddr ← peek32 skb.mem (skb.nh + 16)
        let saddr ← peek32 skb.mem (skb.nh + 12)
        return addressesOk dev saddr daddr

/-- What `ip_input` does with a packet. -/
inductive Handed where
  | dropped
  /-- `sip_reassemble` has kept it. -/
  | kept
  /-- No handler for the protocol. -/
  | ignored
  | icmp (skb : Skbuff)
  | udp (skb : Skbuff)

/-- The `switch` at the end of `ip_input`: `protocol` is read through the old
header pointer, the transport header is where `tail` stands. -/
def ipDispatch (protocol : Byte) (skb : Skbuff) : Traced Ev Handed :=
  if protocol = 1#8 then do
    let (th, skb) ← skbPut skb 8
    return .icmp { skb with th := th }
  else if protocol = 17#8 then do
    let (th, skb) ← skbPut skb 8
    return .udp { skb with th := th }
  else return .ignored

/-- `ip_input`, up to the call of the transport handler. -/
def ipInput (now : Nat) (dev : NetDevice) (st : ReassState) (skb : Skbuff) :
    Traced Ev (Except Fault (ReassState × Handed)) := do
  let ok ← ipChecks dev skb
  if ok = false then return .ok (st, .dropped)
  else do
    let _ ← peek16 skb.mem (skb.nh + 6)
    match ipDefrag now st { skb with ipSummed := .hw } with
    | .error f => return .error f
    | .ok (st, none) => return .ok (st, .kept)
    | .ok (st, some skb') => do
      let protocol ← peek8 skb.mem (skb.nh + 9)
      let handed ← ipDispatch protocol skb'
      return .ok (st, handed)

/-! ## The link layer -/

/-- `ntohs(skb->th.udph->dest)`, the port `SIP_UDPInput` looks for. -/
def udpPort (skb : Skbuff) : Traced Ev (BitVec 16) := do
  let dest ← peek16 skb.mem (skb.th + 2)
  return ntohs dest

/-- The tables a frame is processed with. -/
structure RxState where
  arp : ArpTable
  reass : ReassState

/-- What becomes of a frame. -/
inductive Received where
  | dropped
  | arp (reply : Option ArpReply)
  | kept
  | icmp (outcome : IcmpOutcome)
  | udp (port : BitVec 16) (skb : Skbuff)

/-- The transport handlers, as far as they look into the frame. -/
def transport (dev : NetDevice) : Handed → Traced Ev Received
  | .dropped | .ignored => return .dropped
  | .kept => return .kept
  | .icmp skb => do
    let r ← icmpInput dev skb
    return .icmp r
  | .udp skb => do
    let port ← udpPort skb
    return .udp port skb

/-- The buffer `input` makes of the `n` bytes that `read` has returned. -/
def rxSkb (frame : Mem) (n : Nat) : Skbuff :=
  { skbAlloc n with mem := frame, totLen := BitVec.ofNat 32 n, len := BitVec.ofNat 32 n }

/-- The destination tests of `input`. -/
def forUs (dev : NetDevice) (frame : Mem) : Traced Ev Bool := do
  let own ← samemac frame 0 dev.hwaddr.bytes
  if own = true then return true else samemac frame 0 dev.hwbroadcast.bytes

/-- The `ETH_P_IP` case of `input`. -/
def inputIp (now : Nat) (dev : NetDevice) (st : RxState) (skb : Skbuff) :
    Traced Ev (Except Fault (RxState × Received)) := do
  let (nh, skb) ← skbPut skb iphdrLen
  let skb := { skb with nh := nh }
  let saddr ← peek32 skb.mem (skb.nh + 12)
  let arp ← arpAddEntry now st.arp saddr (peekMac skb.mem (skb.phy + 6)) .established
  let r ← ipInput now dev st.reass skb
  match r with
  | .error f => return .error f
  | .ok (reass, handed) => do
    let received ← transport dev handed
    return .ok (⟨arp, reass⟩, received)

/-- The `ETH_P_ARP` case of `input`. -/
def inputArp (now : Nat) (dev : NetDevice) (st : RxState) (skb : Skbuff) :
    Traced Ev (Except Fault (RxState × Received)) := do
  let (nh, skb) ← skbPut skb 28
  let skb := { skb with nh := nh }
  let tip ← peek32 skb.mem (skb.nh + 24)
  if tip = dev.ipHost then do
    let r ← arpInput now dev st.arp skb
    return .ok ({ st with arp := r.1 }, .arp r.2)
  else return .ok (st, .dropped)

/-- `input`, for a frame of `n` bytes. -/
def input (now : Nat) (dev : NetDevice) (st : RxState) (frame : Mem) (n : Nat) :
    Traced Ev (Except Fault (RxState × Received)) := do
  let (phy, skb) ← skbPut (rxSkb frame n) ethHlen
  let skb := { skb with phy := phy }
  let us ← forUs dev frame
  if us = true then do
    let proto ← peek16 frame (phy + 12)
    if htons proto = 0x0800#16 then inputIp now dev st skb
    else if htons proto = 0x0806#16 then inputArp now dev st skb
    else return .ok (st, .dropped)
  else return .ok (st, .dropped)

end LinuxNet.Sip
