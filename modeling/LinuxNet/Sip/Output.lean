import LinuxNet.Sip.ArpTable
import LinuxNet.Sip.Receive
import LinuxNet.Sip.UdpQueue

/-!
# The send path

`arp_create`, `arp_send` and `arp_request` of `sip_arp.c`, `ip_frag` and
`ip_output` of `sip_ip.c`, `output` and `lowoutput` of `sip_ether.c`. The buffers
are the cells the receive queues are made of, with their `next` pointers; what a
function puts into a buffer is a function on `Skbuff`, what it does with the
buffers is a step on `TxState`. A buffer that has been freed is gone, so to free
it again is a fault.

`memcpy` outside a buffer is a fault; a negative difference is, as a size, larger
than any buffer. `hwaddr_len` is `ETH_ALEN`, as `sip_init_ethnet` sets it. While
`output` sleeps nothing else happens; `clock k` is what the clock shows at its
lookup number `k`. Left out: `sendto` failing, whose result is only printed.
-/

namespace LinuxNet.Sip

/-! ## Device and state -/

/-- `struct net_device`, with what the send path reads. -/
structure TxDevice extends NetDevice where
  ipGw : BitVec 32
  mtu : BitVec 8

/-- What ends the send path early. -/
inductive TxFault where
  | fault (f : Fault)
  /-- `ip_frag` divides by zero. -/
  | divByZero
  deriving DecidableEq, Repr

/-- The ARP table, the buffers and receive queues, and the frames `sendto` was
called with. -/
structure TxState where
  arp : ArpTable
  sock : SockState Skbuff
  sent : List Skbuff

namespace TxState

/-- Follow a pointer. -/
def deref (st : TxState) : Option Nat → Except TxFault (RecvSkb Skbuff)
  | none => .error (.fault .nullDeref)
  | some p =>
    match st.sock.skb p with
    | some c => .ok c
    | none => .error (.fault .useAfterFree)

/-- Write through a pointer. -/
def modify (st : TxState) (skb : Option Nat) (f : Skbuff → Skbuff) : Except TxFault TxState :=
  match skb, st.deref skb with
  | some p, .ok c =>
    .ok { st with sock := st.sock.write p { c with datagram := f c.datagram } }
  | none, .ok _ => .error (.fault .nullDeref)
  | _, .error e => .error e

/-- A new buffer; it is at the old `brk`. -/
def alloc (st : TxState) (skb : Skbuff) : TxState := { st with sock := st.sock.alloc skb }

/-- `skb_free`. -/
def skbFree (st : TxState) (p : Nat) : Except TxFault TxState :=
  match st.deref (some p) with
  | .ok _ => .ok { st with sock := { st.sock with skb := Function.update st.sock.skb p none } }
  | .error e => .error e

end TxState

/-! ## The link layer -/

/-- The loop of `lowoutput`. Its last part sets `skb` to `p`, moves `p` on, frees
`skb` and sets it to NULL; its body reads through `skb`. -/
def lowLoop : Nat → TxState → Option Nat → Option Nat → Except TxFault TxState
  | 0, _, _, _ => .error (.fault .diverges)
  | _ + 1, st, _, none => .ok st
  | turns + 1, st, skb, some p => do
    let c ← st.deref skb
    let st := { st with sent := st.sent ++ [c.datagram] }
    let q ← st.deref (some p)
    let st ← st.skbFree p
    lowLoop turns st none q.next

/-- `lowoutput`. -/
def lowoutput (st : TxState) (skb : Option Nat) : Except TxFault TxState :=
  lowLoop (st.sock.brk + 1) st skb skb

/-! ## ARP -/

/-- `ARPOP_REQUEST`. -/
def arpopRequest : BitVec 16 := 1#16

/-- `ARPOP_REPLY`. -/
def arpopReply : BitVec 16 := 2#16

/-- `ETH_ZLEN`. -/
def ethZlen : Nat := 60

/-- `arp_create`. -/
def arpCreate (dev : TxDevice) (type : BitVec 16) (srcIp destIp : BitVec 32)
    (srcHw destHw targetHw : Option Mac) : Skbuff :=
  let (phy, skb) := (skbPut (skbAlloc ethZlen) ethHlen).val
  let (nh, skb) := (skbPut skb 28).val
  let srcHw := srcHw.getD dev.hwaddr
  let destHw := destHw.getD dev.hwbroadcast
  let mem := skb.mem.write (phy + 12) (bytesOf16 (htons 0x0806#16))
  let mem := (mem.write phy destHw.bytes).write (phy + 6) srcHw.bytes
  let mem := mem.write (nh + 6) (bytesOf16 (htons type))
  let mem := mem.write nh (bytesOf16 (htons 1#16))
  let mem := mem.write (nh + 2) (bytesOf16 (htons 0x0800#16))
  let mem := (mem.write (nh + 4) [6#8]).write (nh + 5) [4#8]
  let mem := mem.write (nh + 8) srcHw.bytes
  let mem := (mem.write (nh + 14) (bytesOf32 srcIp)).write (nh + 24) (bytesOf32 destIp)
  let target := (targetHw.map Mac.bytes).getD (List.replicate 6 0#8)
  { skb with phy := phy, nh := nh, mem := mem.write (nh + 18) target }

/-- `arp_send`. -/
def arpSend (dev : TxDevice) (st : TxState) (type : BitVec 16) (srcIp destIp : BitVec 32)
    (srcHw destHw targetHw : Option Mac) : Except TxFault TxState :=
  lowoutput (st.alloc (arpCreate dev type srcIp destIp srcHw destHw targetHw)) (some st.sock.brk)

/-- The address is in the subnet of the host. -/
def onLink (dev : TxDevice) (ip : BitVec 32) : Bool :=
  ip &&& dev.ipNetmask == dev.ipHost &&& dev.ipNetmask

/-- `arp_request`. -/
def arpRequest (dev : TxDevice) (st : TxState) (ip : BitVec 32) : Except TxFault TxState :=
  let tip := if onLink dev ip = true then ip else dev.ipGw
  arpSend dev st arpopRequest dev.ipHost tip (some dev.hwaddr) none none

/-! ## Output -/

/-- The loop of `output`, with as many requests left: the hardware address, if there
is one in the end. -/
def arpWait (clock : Nat → Nat) (dev : TxDevice) (destip : BitVec 32) :
    Nat → Nat → TxState → Except TxFault (TxState × Option (List Byte))
  | left, times, st =>
    let arp := arpLookup (clock times) destip st.arp
    let st := { st with arp := (arpFindEntry (clock times) destip st.arp).1 }
    match arp, left with
    | none, left + 1 => do
      let st ← arpRequest dev st destip
      arpWait clock dev destip left (times + 1) st
    | arp, _ => .ok (st, arp)

/-- The Ethernet header `output` writes. -/
def etherHeader (dev : TxDevice) (ethaddr : List Byte) (skb : Skbuff) : Skbuff :=
  let mem := skb.mem.write skb.phy (ethaddr.take 6)
  let mem := mem.write (skb.phy + 6) dev.hwaddr.bytes
  { skb with mem := mem.write (skb.phy + 12) (bytesOf16 (htons 0x0800#16)) }

/-- The address `output` asks ARP for. -/
def nextHop (dev : TxDevice) (daddr : BitVec 32) : BitVec 32 :=
  if onLink dev daddr = true then daddr else dev.ipGw

/-- `output`. Without a hardware address the buffer is left alone. -/
def output (clock : Nat → Nat) (dev : TxDevice) (st : TxState) (skb : Option Nat) :
    Except TxFault TxState := do
  let c ← st.deref skb
  let destip := nextHop dev (ipDaddr c.datagram.mem c.datagram.nh)
  let (st, arp) ← arpWait clock dev destip 5 0 st
  match arp with
  | none => return st
  | some ethaddr => do
    let st ← st.modify skb (etherHeader dev ethaddr)
    lowoutput st skb

end LinuxNet.Sip
