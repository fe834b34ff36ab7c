import LinuxNet.Lib.Memory

/-!
# The two threads of `ping`

`ping.c` sends an echo request a second and counts the replies. What the sending
and the receiving thread share is the table `pingpacket` of 128 slots and the two
counters. `icmpSend` is one turn of the loop of `icmp_send`, `icmpUnpack` what
`icmp_recv` does with a datagram.

The widths are those of the source: the counters and the number in a slot are
`short`, the number on the wire is an unsigned 16-bit word, and the identifier on
the wire, 16 bits as well, is compared with a `pid_t` of 32.

Left out: the field `tv_end`, which nothing uses, the IP header of a request,
which nobody looks at, and the lines that are only printed.
-/

namespace LinuxNet.Ping

/-- `struct timeval`, as `gettimeofday` fills it in. -/
structure Timeval where
  tvSec : Int
  tvUsec : Int
  nonneg : 0 ≤ tvUsec
  lt : tvUsec < 1000000
  deriving DecidableEq

def Timeval.zero : Timeval := ⟨0, 0, by decide, by decide⟩

/-- `struct pingm_pakcet`. -/
structure PingmPakcet where
  tvBegin : Timeval
  seq : BitVec 16
  flag : Nat
  deriving DecidableEq

/-- The table and the two counters. -/
structure PingState where
  pingpacket : Fin 128 → PingmPakcet
  packetSend : BitVec 16
  packetRecv : BitVec 16

/-- The state `main` starts the threads in. -/
def PingState.initial : PingState := ⟨fun _ => ⟨Timeval.zero, 0#16, 0⟩, 0#16, 0#16⟩

/-- `icmp_findpacket`. -/
def icmpFindpacket (st : PingState) (seq : Int) : Option (Fin 128) :=
  if seq = -1 then (List.finRange 128).find? fun i => (st.pingpacket i).flag = 0
  else if 0 ≤ seq then (List.finRange 128).find? fun i => (st.pingpacket i).seq.toInt = seq
  else none

/-- The loop of `icmp_cksum`, for a length below 65536: words as they are in memory, and
an odd byte as the high one. -/
def cksumLoop (m : Mem) : Nat → Nat → BitVec 32 → BitVec 32
  | 0, _, sum => sum
  | 1, o, sum => sum + (m o).setWidth 32 <<< 8
  | len + 2, o, sum => cksumLoop m len (o + 2) (sum + (m.u16 o).setWidth 32)

/-- `icmp_cksum`. -/
def icmpCksum (m : Mem) (o len : Nat) : BitVec 16 :=
  let sum := cksumLoop m len o 0#32
  let sum := sum.sshiftRight 16 + (sum &&& 0xFFFF#32)
  let sum := sum + sum.sshiftRight 16
  (~~~sum).setWidth 16

/-- `icmp_pack`: the request with a number, as `icmp_send` hands it over to be sent. The
number is stored in the 16 bits of `icmp_seq`, the low half of the process id in those of
`icmp_id`. -/
def icmpPack (pid : BitVec 32) (seq : Int) (length : Nat) : Mem :=
  let m := Mem.zero.write 0 [8#8, 0#8]
  let m := m.write 6 (bytesOf16 (BitVec.ofInt 16 seq))
  let m := m.write 4 (bytesOf16 (pid.setWidth 16))
  let m := m.write 8 ((List.range length).map fun i => BitVec.ofNat 8 i)
  m.write 2 (bytesOf16 (icmpCksum m 0 length))

/-- One turn of the loop of `icmp_send`; `now` is what `gettimeofday` puts into the
slot. The request comes last. -/
def icmpSend (pid : BitVec 32) (st : PingState) (now : Timeval) : PingState × Mem :=
  let pingpacket :=
    match icmpFindpacket st (-1) with
    | some i => Function.update st.pingpacket i ⟨now, st.packetSend, 1⟩
    | none => st.pingpacket
  ({ st with pingpacket, packetSend := st.packetSend + 1#16 },
    icmpPack pid st.packetSend.toInt 64)

/-- `icmp_tvsub`. -/
def icmpTvsub (e b : Timeval) : Int × Int :=
  if e.tvUsec - b.tvUsec < 0 then
    (e.tvSec - b.tvSec - 1, e.tvUsec - b.tvUsec + 1000000)
  else (e.tvSec - b.tvSec, e.tvUsec - b.tvUsec)

/-- The milliseconds between two times, in an `int`. -/
def rtt (e b : Timeval) : BitVec 32 :=
  BitVec.ofInt 32 ((icmpTvsub e b).1 * 1000 + (icmpTvsub e b).2.tdiv 1000)

/-- The length of the IP header at the start of a buffer. -/
def iphdrlen (buf : Mem) : Nat := (buf 0).toNat % 16 * 4

/-- A datagram as a raw socket hands it over, with a whole IP header at least, and the
number of bytes that were received. -/
structure Datagram where
  buf : Mem
  len : Int
  header : 20 ≤ iphdrlen buf

/-- The line that is printed for a reply. -/
structure Report where
  len : Int
  src : BitVec 32
  icmpSeq : BitVec 16
  ttl : Byte
  rtt : BitVec 32
  deriving DecidableEq

/-- The slot of a reply is free again, and the reply is counted. -/
def received (st : PingState) (i : Fin 128) : PingState :=
  { st with
    pingpacket := Function.update st.pingpacket i { st.pingpacket i with flag := 0 }
    packetRecv := st.packetRecv + 1#16 }

/-- `icmp_unpack`: the new state and the line for the reply; `none` is the return value
-1. The checksum field of the IP header is cleared first. -/
def icmpUnpack (pid : BitVec 32) (st : PingState) (d : Datagram) (now : Timeval) :
    PingState × Option Report :=
  let buf := d.buf.write 10 [0#8, 0#8]
  let icmp := iphdrlen buf
  let len := d.len - icmp
  if len < 8 then (st, none)
  else if buf icmp = 0#8 ∧ (buf.u16 (icmp + 4)).setWidth 32 = pid then
    match icmpFindpacket st (buf.u16 (icmp + 6)).toNat with
    | none => (st, none)
    | some i =>
      (received st i,
        some ⟨len, buf.u32 12, buf.u16 (icmp + 6), buf 8, rtt now (st.pingpacket i).tvBegin⟩)
  else (st, none)

end LinuxNet.Ping
