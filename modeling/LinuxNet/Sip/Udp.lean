import LinuxNet.Lib.Linked
import LinuxNet.Lib.Run
import LinuxNet.Sip.Skbuff

/-!
# UDP control blocks

The five operations of `sip_udp.c` on `udp_pcbs`, and its two searches. The
control blocks live in cells; `udp_pcbs` is the table of the heads of the bucket
lists, which share one `next` pointer per control block. An index that is not
below `UDP_HTABLE_SIZE` is a fault, and so is a pointer to a block that has been
removed. `SIP_UDPNew` asks for the size of a pointer and clears a whole block: how much
more than that `malloc` has given it comes with the call, and where that is too little the
clearing is a fault.

The three places that compute a bucket do it as in the source: `&` and `%` with
the size of the table, and nothing at all — `udp_pcbs[port]` — where a block is
put into the table.

Left out: the fields no operation uses, and `malloc` failing.
-/

namespace LinuxNet.Sip

/-- `UDP_HTABLE_SIZE`. -/
def udpHtableSize : Nat := 128

/-- `sizeof(struct udp_pcb)`, with pointers of eight bytes. -/
def sizeofUdpPcb : Nat := 64

/-- `sizeof(struct udp_pcb *)`, which is what `SIP_UDPNew` asks for. -/
def sizeofUdpPcbPointer : Nat := 8

/-- `UDP_PORT_RANGE_END`. -/
def udpPortRangeEnd : BitVec 16 := 0x7FFF#16

/-- `UDP_FLAGS_CONNECTED`. -/
def udpFlagsConnected : BitVec 8 := 4#8

/-- `struct udp_pcb`. -/
structure UdpPcb where
  ipLocal : BitVec 32
  ipRemote : BitVec 32
  ttl : BitVec 8
  next : Option Nat
  flags : BitVec 8
  portLocal : BitVec 16
  portRemote : BitVec 16
  conn : Option Nat
  deriving DecidableEq, Repr

/-- The control blocks, `udp_pcbs`, and the counter of `found_a_port`. -/
structure UdpState where
  pcb : Nat → Option UdpPcb
  table : Nat → Option Nat
  index : BitVec 32
  /-- The next address `malloc` returns. -/
  brk : Nat

/-- No control block, and a zeroed table. -/
def UdpState.initial : UdpState := ⟨fun _ => none, fun _ => none, 0#32, 0⟩

namespace UdpState

/-- The `next` pointers. -/
def link (st : UdpState) (p : Nat) : Option (Option Nat) := (st.pcb p).map (·.next)

/-- Follow a pointer. -/
def deref (st : UdpState) : Option Nat → Except Fault UdpPcb
  | none => .error .nullDeref
  | some p =>
    match st.pcb p with
    | some c => .ok c
    | none => .error .useAfterFree

/-- Write through a pointer. -/
def modify (st : UdpState) (p : Nat) (f : UdpPcb → UdpPcb) : Except Fault UdpState :=
  match st.pcb p with
  | some c => .ok { st with pcb := Function.update st.pcb p (some (f c)) }
  | none => .error .useAfterFree

/-- `free`. -/
def free (st : UdpState) (p : Nat) : UdpState :=
  { st with pcb := Function.update st.pcb p none }

/-- `udp_pcbs[i]`. -/
def bucket (st : UdpState) (i : Nat) : Except Fault (Option Nat) :=
  if i < udpHtableSize then .ok (st.table i) else .error .outOfBounds

/-- `udp_pcbs[i] = p`. -/
def setBucket (st : UdpState) (i : Nat) (p : Option Nat) : Except Fault UdpState :=
  if i < udpHtableSize then .ok { st with table := Function.update st.table i p }
  else .error .outOfBounds

/-- Enough for every list of the control blocks there are. -/
def fuel (st : UdpState) : Nat := st.brk + 1

/-- The block at an address has this local port. -/
def hasPort (st : UdpState) (port : BitVec 16) (p : Nat) : Bool :=
  (st.pcb p).any (·.portLocal == port)

/-- The first block with a local port, from a pointer on. -/
def scan (st : UdpState) (port : BitVec 16) (h : Option Nat) : Except Fault (Option Nat) :=
  chase st.link (st.hasPort port) st.fuel h

/-! ## The operations -/

/-- `found_a_port`. -/
def foundAPort (st : UdpState) : BitVec 16 × UdpState :=
  ((st.index + 1#32).setWidth 16, { st with index := st.index + 1#32 })

/-- The search of `SIP_UDPBind` for a free port, one port a turn; what `ipcb` is at
its end comes last. -/
def autoPort : Nat → UdpState → Except Fault (UdpState × BitVec 16 × Option Nat)
  | 0, _ => .error .diverges
  | turns + 1, st =>
    let (port, st) := st.foundAPort
    match st.bucket port.toNat with
    | .error f => .error f
    | .ok ipcb =>
      if port = udpPortRangeEnd then .ok (st, port, ipcb)
      else
        match st.scan port ipcb with
        | .error f => .error f
        | .ok none => .ok (st, port, none)
        | .ok (some _) => autoPort turns st

/-- `pcb->next = udp_pcbs[port]; udp_pcbs[port] = pcb`. -/
def pushFront (st : UdpState) (p port : Nat) : Except Fault UdpState := do
  let head ← st.bucket port
  let st ← st.modify p fun c => { c with next := head }
  st.setBucket port (some p)

/-- A block that has been cleared; it is at the old `brk`. -/
def newBlock (st : UdpState) : UdpState :=
  { st with
    pcb := Function.update st.pcb st.brk (some ⟨0#32, 0#32, 255#8, none, 0#8, 0#16, 0#16, none⟩)
    brk := st.brk + 1 }

/-- `SIP_UDPNew`, where the block `malloc` has found is so many bytes larger than asked for. -/
def udpNew (st : UdpState) (spare : Nat) : Except Fault UdpState :=
  -- `memset(pcb, 0, sizeof(struct udp_pcb))`
  if sizeofUdpPcb ≤ sizeofUdpPcbPointer + spare then .ok st.newBlock else .error .outOfBounds

/-- The port of `SIP_UDPBind`: the one given, or a free one. Two hundred turns are
more than the table has buckets. -/
def bindPort (st : UdpState) (port : BitVec 16) :
    Except Fault (UdpState × BitVec 16 × Option Nat) :=
  if port = 0#16 then autoPort 200 st else .ok (st, port, none)

/-- The end of `SIP_UDPBind`: the block gets the port, and is put into the table if
the first loop has not met it. -/
def bindAs (st : UdpState) (p : Nat) (cells : List Nat) (port : BitVec 16) :
    Except Fault (UdpState × Int) := do
  let st ← st.modify p fun c => { c with portLocal := port }
  if p ∈ cells then return (st, 0)
  else do
    let st ← st.pushFront p port.toNat
    return (st, 0)

/-- `SIP_UDPBind`. -/
def udpBind (st : UdpState) (p : Nat) (ipaddr : BitVec 32) (port : BitVec 16) :
    Except Fault (UdpState × Int) := do
  let head ← st.bucket (port.toNat &&& (udpHtableSize - 1))
  let cells ← cellsFrom st.link st.fuel head
  let st ← st.modify p fun c => { c with ipLocal := ipaddr }
  let (st, port, ipcb) ← st.bindPort port
  if ipcb ≠ none then return (st, -1) else st.bindAs p cells port

/-- What `SIP_UDPConnect` does once the block has a port. -/
def connectTo (st : UdpState) (p : Nat) (ipaddr : BitVec 32) (port : BitVec 16) :
    Except Fault (UdpState × Int) := do
  let st ← st.modify p fun c =>
    { c with ipRemote := ipaddr, portRemote := port, flags := c.flags ||| udpFlagsConnected }
  let c ← st.deref (some p)
  let head ← st.bucket c.portLocal.toNat
  let found ← chase st.link (fun q => q == p) st.fuel head
  if found ≠ none then return (st, 0)
  else do
    let st ← st.pushFront p c.portLocal.toNat
    return (st, 0)

/-- `SIP_UDPConnect`. -/
def udpConnect (st : UdpState) (p : Nat) (ipaddr : BitVec 32) (port : BitVec 16) :
    Except Fault (UdpState × Int) := do
  let c ← st.deref (some p)
  if c.portLocal = 0#16 then do
    let (st, err) ← st.udpBind p c.ipLocal 0#16
    if err ≠ 0 then return (st, err) else st.connectTo p ipaddr port
  else st.connectTo p ipaddr port

/-- `SIP_UDPDisconnect`. -/
def udpDisconnect (st : UdpState) (p : Nat) : Except Fault UdpState :=
  st.modify p fun c =>
    { c with ipRemote := -1#32, portRemote := 0#16, flags := c.flags &&& ~~~udpFlagsConnected }

/-- The `for` loop of `SIP_UDPRemove`. It goes on after it has taken the block out. -/
def removeLoop (p : Nat) : Nat → UdpState → Option Nat → Except Fault UdpState
  | 0, _, _ => .error .diverges
  | turns + 1, st, pcbT => do
    let t ← st.deref pcbT
    match t.next, pcbT with
    | none, _ => return st
    | some q, some pt =>
      if q = p then do
        let c ← st.deref (some p)
        let st ← st.modify pt fun t => { t with next := c.next }
        removeLoop p turns st c.next
      else removeLoop p turns st (some q)
    | some _, none => .error .nullDeref

/-- `SIP_UDPRemove`. -/
def udpRemove (st : UdpState) : Option Nat → Except Fault UdpState
  | none => .ok st
  | some p => do
    let c ← st.deref (some p)
    let head ← st.bucket (c.portLocal.toNat % udpHtableSize)
    match head with
    | none => return st.free p
    | some t =>
      if t = p then do
        let st ← st.setBucket (c.portLocal.toNat % udpHtableSize) c.next
        return st.free p
      else do
        let st ← removeLoop p st.fuel st (some t)
        return st.free p

/-- The search of `SIP_UDPInput`. -/
def udpLookup (st : UdpState) (port : BitVec 16) : Except Fault (Option Nat) := do
  let head ← st.bucket (port.toNat % udpHtableSize)
  st.scan port head

end UdpState

/-! ## A run of operations -/

/-- The operations on the table. -/
inductive UdpOp where
  | new (spare : Nat)
  | bind (p : Nat) (ipaddr : BitVec 32) (port : BitVec 16)
  | connect (p : Nat) (ipaddr : BitVec 32) (port : BitVec 16)
  | disconnect (p : Nat)
  | remove (p : Option Nat)
  deriving DecidableEq, Repr

/-- One operation. -/
def udpStep (st : UdpState) : UdpOp → Except Fault UdpState
  | .new spare => st.udpNew spare
  | .bind p ipaddr port => (st.udpBind p ipaddr port).map (·.1)
  | .connect p ipaddr port => (st.udpConnect p ipaddr port).map (·.1)
  | .disconnect p => st.udpDisconnect p
  | .remove p => st.udpRemove p

end LinuxNet.Sip
