import LinuxNet.Sip.Skbuff

/-!
# The ARP cache and `arp_input`

`arp_find_entry`, `update_arp_entry`, `arp_add_entry` and `arp_input` of
`sip_arp.c`. The table is the list of its entries. The hardware address an
entry is given is passed as the *read* of it: the source passes a pointer and
copies from it only once it has found an entry.

One call reads one time from the clock.
-/

namespace LinuxNet.Sip

/-- `enum arp_status`. -/
inductive ArpStatus where
  | empty
  | padding
  | established
  deriving DecidableEq, Repr

/-- `struct arpt_arp`. -/
structure ArptArp where
  ipaddr : BitVec 32
  ethaddr : List Byte
  ctime : Nat
  status : ArpStatus
  deriving DecidableEq, Repr

/-- `arp_table[ARP_TABLE_SIZE]`. -/
abbrev ArpTable := List ArptArp

/-- `ARP_LIVE_TIME`. -/
def arpLiveTime : Nat := 20

/-- `arp_find_entry`: entries it passes may be emptied on the way. -/
def arpFindEntry (now : Nat) (ip : BitVec 32) : ArpTable → ArpTable × Option Nat
  | [] => ([], none)
  | e :: es =>
    if e.ctime > now + arpLiveTime then
      let r := arpFindEntry now ip es
      ({ e with status := .empty } :: r.1, r.2.map (· + 1))
    else if e.ipaddr = ip ∧ e.status = .established then (e :: es, some 0)
    else
      let r := arpFindEntry now ip es
      (e :: r.1, r.2.map (· + 1))

/-- `update_arp_entry`. -/
def updateArpEntry (now : Nat) (t : ArpTable) (ip : BitVec 32) (ethaddr : Traced Ev (List Byte)) :
    Traced Ev (ArpTable × Option Nat) :=
  let r := arpFindEntry now ip t
  match r.2 with
  | none => return (r.1, none)
  | some i => do
    let bytes ← ethaddr
    return (r.1.modify i fun e => { e with ethaddr := bytes, status := .established, ctime := now },
      some i)

/-- The entry `arp_add_entry` writes: the one that was updated, else an empty one. -/
def arpSlot (r : ArpTable × Option Nat) : Option Nat :=
  r.2.or (r.1.findIdx? (·.status = .empty))

/-- `arp_add_entry`. -/
def arpAddEntry (now : Nat) (t : ArpTable) (ip : BitVec 32) (ethaddr : Traced Ev (List Byte))
    (status : ArpStatus) : Traced Ev ArpTable := do
  let r ← updateArpEntry now t ip ethaddr
  match arpSlot r with
  | none => return r.1
  | some i => do
    let bytes ← ethaddr
    return r.1.modify i fun _ => ⟨ip, bytes, now, status⟩

/-- Read the six octets of a hardware address. -/
def peekMac (m : Mem) (o : Nat) : Traced Ev (List Byte) :=
  ⟨(List.range' o 6).map m, (List.range' o 6).map .read⟩

/-- The arguments of the `arp_send` that answers a request: the addresses, and
where in the frame the hardware addresses stand. -/
structure ArpReply where
  srcIp : BitVec 32
  destIp : BitVec 32
  destHw : Nat
  targetHw : Nat
  deriving DecidableEq, Repr

/-- The update `arp_input` makes when it is asked for the host's own address. -/
def arpOwn (now : Nat) (dev : NetDevice) (t : ArpTable) (ip : BitVec 32) : Traced Ev ArpTable :=
  if ip = dev.ipHost then do
    let r ← updateArpEntry now t ip (return dev.hwaddr.bytes)
    return r.1
  else return t

/-- `arp_input`. -/
def arpInput (now : Nat) (dev : NetDevice) (t : ArpTable) (skb : Skbuff) :
    Traced Ev (ArpTable × Option ArpReply) :=
  if skb.totLen.toNat < 28 then return (t, none)
  else do
    let ip ← peek32 skb.mem (skb.nh + 24)
    let t ← arpOwn now dev t ip
    let op ← peek16 skb.mem (skb.nh + 6)
    if ntohs op = 1#16 then do
      let sip ← peek32 skb.mem (skb.nh + 14)
      let t ← arpAddEntry now t sip (peekMac skb.mem (skb.phy + 6)) .established
      return (t, some ⟨dev.ipHost, sip, skb.phy + 6, skb.nh + 8⟩)
    else if ntohs op = 2#16 then do
      let sip ← peek32 skb.mem (skb.nh + 14)
      let t ← arpAddEntry now t sip (peekMac skb.mem (skb.phy + 6)) .established
      return (t, none)
    else return (t, none)

end LinuxNet.Sip
