import LinuxNet.Sip.FrameBounds
import LinuxNet.Sip.FrameLength

/-!
# `input` and the buffers

`input` once more, now with what becomes of the buffers. What a function makes of a
packet is taken from the receive path as it stands; here it is followed by the calls of
`skb_free`, `ip_output` and `arp_send` the function makes, on the cells the buffers are
in. The buffer of the frame is at the old `brk`.

A buffer that `sip_reassemble` hands back is taken to be the one it was given. With the
clock past its first minutes there is no other: either nothing comes back
(`ipDefrag_stuck`) or the packet as it went in (`ipDefrag_free`). What is read or written
past the end of a short frame does not count here.
-/

namespace LinuxNet.Sip

/-- The tables of the stack, its buffers, and the control blocks. -/
structure Stack where
  tx : TxState
  reass : ReassState
  udp : UdpState

/-! ## The functions -/

/-- The hardware address at an offset. -/
def macAt (m : Mem) (o : Nat) : Mac := ⟨(peekMac m o).val, rfl⟩

/-- The `arp_send` of `arp_input`, if it answers. -/
def sendReply (dev : TxDevice) (tx : TxState) (frame : Mem) :
    Option ArpReply → Except TxFault TxState
  | none => .ok tx
  | some r =>
    arpSend dev tx arpopReply r.srcIp r.destIp (some dev.hwaddr) (some (macAt frame r.destHw))
      (some (macAt frame r.targetHw))

/-- The `ETH_P_ARP` case of `input`. -/
def stackArp (now : Nat) (dev : TxDevice) (tx : TxState) (frame : Mem) (n p : Nat) :
    Except TxFault TxState :=
  if frame.u32 (ethHlen + 24) = dev.ipHost then do
    let r := (arpInput now dev.toNetDevice tx.arp (arpSkb frame n)).val
    let tx ← sendReply dev { tx with arp := r.1 } frame r.2
    tx.skbFree p
  else tx.skbFree p

/-- The arguments behind the buffer with which `icmp_echo` calls `ip_output`. -/
def echoArgs (dev : TxDevice) (dest : BitVec 32) : IpArgs := ⟨dev.ipHost, dest, 255#8, 0#8, 1#8⟩

/-- `icmp_input`. -/
def stackIcmp (clock : Nat → Nat) (dev : TxDevice) (tx : TxState) (p : Nat) (skb : Skbuff) :
    Except TxFault TxState :=
  match (icmpInput dev.toNetDevice skb).val with
  | .dropped => tx.skbFree p
  | .ignored => .ok tx
  | .echoed skb dest => do
    let tx ← tx.modify (some p) fun _ => skb
    ipOutput clock dev tx p (echoArgs dev dest)

/-- `SIP_UDPInput`; nobody looks at its result. -/
def stackUdp (udp : UdpState) (tx : TxState) (p : Nat) (skb : Skbuff) : Except TxFault TxState :=
  match SockState.udpInput udp tx.sock p (udpPort skb).val with
  | .ok (sock, _) => .ok { tx with sock := sock }
  | .error f => .error (.fault f)

/-- What `ip_input` does with the buffer of a packet. -/
def stackHanded (clock : Nat → Nat) (dev : TxDevice) (udp : UdpState) (tx : TxState) (p : Nat) :
    Handed → Except TxFault TxState
  | .dropped => tx.skbFree p
  | .kept | .ignored => .ok tx
  | .icmp skb => do
    let tx ← tx.modify (some p) fun _ => skb
    stackIcmp clock dev tx p skb
  | .udp skb => do
    let tx ← tx.modify (some p) fun _ => skb
    stackUdp udp tx p skb

/-- The `ETH_P_IP` case of `input`. -/
def stackIp (clock : Nat → Nat) (now : Nat) (dev : TxDevice) (st : Stack) (frame : Mem)
    (n p : Nat) : Except TxFault Stack :=
  match (ipInput now dev.toNetDevice st.reass (ipSkb frame n)).val with
  | .error f => .error (.fault f)
  | .ok (reass, handed) => do
    let tx := { st.tx with arp := (ipArp now st.tx.arp frame).val }
    let tx ← tx.modify (some p) fun _ => ipSkb frame n
    let tx ← stackHanded clock dev st.udp tx p handed
    return { st with tx := tx, reass := reass }

/-- `input`, for a frame of `n` bytes. -/
def stackInput (clock : Nat → Nat) (now : Nat) (dev : TxDevice) (st : Stack) (frame : Mem)
    (n : Nat) : Except TxFault Stack :=
  let p := st.tx.sock.brk
  let tx := st.tx.alloc (ethSkb frame n)
  if IsLocal dev.toNetDevice frame ∧ etherType frame = 0x0800#16 then
    stackIp clock now dev { st with tx := tx } frame n p
  else if IsLocal dev.toNetDevice frame ∧ etherType frame = 0x0806#16 then do
    let tx ← stackArp now dev tx frame n p
    return { st with tx := tx }
  else do
    let tx ← tx.skbFree p
    return { st with tx := tx }

/-! ## What the functions make of a packet -/

section Values

variable {dev : NetDevice} {skb : Skbuff}

/-- `icmp_input`, on a packet whose header has been summed up. -/
theorem icmpInput_val (hsum : skb.ipSummed ≠ .none) :
    (icmpInput dev skb).val =
      if 18 < (skb.mem skb.th).toNat then .dropped
      else if skb.mem skb.th = 8#8 then (icmpEcho dev skb).val
      else .ignored := by
  unfold icmpInput icmpUnsummed
  rw [if_neg hsum]
  simp only [Traced.val_bind, Traced.val_ite, Traced.val_pure]
  rfl

/-- The buffer in which an echo request is answered. -/
def echoSkb (skb : Skbuff) : Skbuff :=
  let checksum := skb.mem.u16 (skb.th + 2)
  let checksum :=
    if htons 0xF7FF#16 ≤ checksum then checksum + (htons 0x0800#16 + 1#16)
    else checksum + htons 0x0800#16
  { skb with mem := (skb.mem.write skb.th [0#8]).write (skb.th + 2) (bytesOf16 checksum) }

theorem icmpEcho_val (dev : NetDevice) (skb : Skbuff) :
    (icmpEcho dev skb).val =
      if ipIsBroadcast dev (ipDaddr skb.mem skb.nh) = true ∨
          ipIsMulticast (ipDaddr skb.mem skb.nh) = true then .ignored
      else .echoed (echoSkb skb) (ipSaddr skb.mem skb.nh) := by
  unfold icmpEcho
  simp only [Traced.val_bind, Traced.val_ite, Traced.val_pure]
  rfl

/-- The answer leaves what stands in front of the message alone. -/
theorem echoSkb_totLen (h : skb.nh + 4 ≤ skb.th) :
    ipTotLen (echoSkb skb).mem skb.nh = ipTotLen skb.mem skb.nh := by
  have h0 : skb.nh + 2 + 2 ≤ skb.th := h
  have h2 : skb.nh + 2 + 2 ≤ skb.th + 2 := Nat.le_add_right_of_le h
  rw [ipTotLen, echoSkb, Mem.u16_write_apart (.inl h2), Mem.u16_write_apart (.inl h0)]
  rfl

end Values

end LinuxNet.Sip
