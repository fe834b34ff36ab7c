import LinuxNet.Sip.Output

/-!
# `ip_output` and `ip_frag`

The IP layer of the send path, in `sip_ip.c`. `ip_output` fills in the header and
has a packet that is longer than the device's `mtu` cut up; `mtu` has eight bits, as
in the source, and so has the number of fragments.

A fragment is one of three things by its place: the first, the last, or one in
between; a fragment that is first and last is a first one. Only the first moves
`skb->tail`, from `head` to `head + mtu`, and the others copy from there.
-/

namespace LinuxNet.Sip

/-! ## The header -/

/-- The arguments of `ip_output` behind the buffer. -/
structure IpArgs where
  src : BitVec 32
  dest : BitVec 32
  ttl : Byte
  tos : Byte
  proto : Byte

/-- The header as `ip_output` fills it in, and `skb->len`. -/
def ipHeader (a : IpArgs) (skb : Skbuff) : Skbuff :=
  let mem := (skb.mem.write (skb.nh + 9) [a.proto]).write (skb.nh + 1) [a.tos]
  let mem := mem.write (skb.nh + 8) [a.ttl]
  let mem := mem.write (skb.nh + 16) (bytesOf32 a.dest)
  let mem := mem.write (skb.nh + 12) (bytesOf32 a.src)
  let mem := mem.write (skb.nh + 10) [0#8, 0#8]
  let check := (sipChksum mem skb.nh iphdrLen).val
  { skb with mem := mem.write (skb.nh + 10) (bytesOf16 check), len := skb.totLen }

/-! ## The fragments -/

/-- `frag_num`: the quotient is rounded towards zero, and cut to eight bits. -/
def fragNum (dev : TxDevice) (skb : Skbuff) : Except TxFault (BitVec 8) :=
  let mtu : Int := dev.mtu.toNat
  let half : Int := (dev.mtu.toNat + 1) / 2
  let payload : Int := mtu - iphdrLen - ethHlen
  if payload = 0 then .error .divByZero
  else .ok (BitVec.ofInt 8 ((ipTotLen skb.mem skb.nh - iphdrLen + half : Int).tdiv payload))

/-- `memcpy` from one buffer to another. -/
def copyBytes (dst : Skbuff) (o : Nat) (src : Skbuff) (s n : Nat) : Except TxFault Skbuff :=
  if o + n ≤ dst.size ∧ s + n ≤ src.size then
    .ok { dst with mem := dst.mem.write o ((List.range n).map fun i => src.mem (s + i)) }
  else .error (.fault .outOfBounds)

/-- The buffer of a fragment, with the two headers put. -/
def fragBuf (mtu : Nat) : Skbuff :=
  let (phy, skb) := (skbPut (skbAlloc mtu) ethHlen).val
  let (nh, skb) := (skbPut skb iphdrLen).val
  { skb with phy := phy, nh := nh }

/-- The header fields of a fragment. -/
def fragHeader (skb : Skbuff) (fragOff totLen : BitVec 16) : Except TxFault Skbuff :=
  if skb.nh + iphdrLen ≤ skb.size then
    let mem := skb.mem.write (skb.nh + 6) (bytesOf16 (htons fragOff))
    let mem := mem.write (skb.nh + 2) (bytesOf16 (htons totLen))
    let mem := mem.write (skb.nh + 10) [0#8, 0#8]
    let check := (sipChksum mem skb.nh iphdrLen).val
    .ok { skb with mem := mem.write (skb.nh + 10) (bytesOf16 check), ipSummed := .hw }
  else .error (.fault .outOfBounds)

/-- The first fragment: the first `mtu` bytes. -/
def firstFrag (mtu : Nat) (skb : Skbuff) : Except TxFault Skbuff := do
  let t ← copyBytes (fragBuf mtu) 0 skb 0 mtu
  fragHeader t 0x2000#16 (BitVec.ofInt 16 (mtu - ethHlen))

/-- The last fragment: the headers, and everything behind the first `mtu` bytes. -/
def lastFrag (mtu i : Nat) (skb : Skbuff) : Except TxFault Skbuff := do
  let t ← copyBytes (fragBuf mtu) 0 skb 0 (ethHlen + iphdrLen)
  if skb.size < mtu then .error (.fault .outOfBounds)
  else do
    let t ← copyBytes t (ethHlen + iphdrLen) skb mtu (skb.size - mtu)
    fragHeader t (BitVec.ofInt 16 (i * (mtu - ethHlen - iphdrLen) + iphdrLen))
      (BitVec.ofInt 16 (skb.size - mtu + iphdrLen))

/-- A fragment in between: the headers, and what follows the first `mtu` bytes. -/
def middleFrag (mtu i : Nat) (skb : Skbuff) : Except TxFault Skbuff := do
  let t ← copyBytes (fragBuf mtu) 0 skb 0 (ethHlen + iphdrLen)
  if mtu < ethHlen + iphdrLen then .error (.fault .outOfBounds)
  else do
    let t ← copyBytes t (ethHlen + iphdrLen) skb mtu (mtu - ethHlen - iphdrLen)
    let t := (skbPut t (mtu - ethHlen - iphdrLen)).val.2
    fragHeader t (BitVec.ofInt 16 (i * (mtu - ethHlen - iphdrLen) + iphdrLen) ||| 0x2000#16)
      (BitVec.ofInt 16 (mtu - ethHlen))

/-- Fragment number `i` of `num`. -/
def fragment (mtu num i : Nat) (skb : Skbuff) : Except TxFault Skbuff :=
  if i = 0 then firstFrag mtu skb
  else if i = num - 1 then lastFrag mtu i skb
  else middleFrag mtu i skb

/-- The fragments of a packet, in order. -/
def fragments (dev : TxDevice) (skb : Skbuff) : Except TxFault (List Skbuff) := do
  let num ← fragNum dev skb
  (List.range num.toNat).mapM fun i => fragment dev.mtu.toNat num.toNat i skb

/-! ## The functions -/

/-- Allocate buffers one after the other, each linked to the next. -/
def SockState.allocChain : List Skbuff → SockState Skbuff → SockState Skbuff
  | [], st => st
  | [skb], st => st.alloc skb
  | skb :: skbs, st =>
    allocChain skbs
      { st with
        skb := Function.update st.skb st.brk (some ⟨skb, some (st.brk + 1)⟩)
        brk := st.brk + 1 }

/-- `ip_frag`: the pointer to the first fragment, NULL if there is none. -/
def ipFrag (dev : TxDevice) (st : TxState) (p : Nat) : Except TxFault (TxState × Option Nat) := do
  let c ← st.deref (some p)
  let skbs ← fragments dev c.datagram
  let head := if skbs = [] then none else some st.sock.brk
  let st ← { st with sock := st.sock.allocChain skbs }.skbFree p
  return (st, head)

/-- `ip_output`. -/
def ipOutput (clock : Nat → Nat) (dev : TxDevice) (st : TxState) (p : Nat) (a : IpArgs) :
    Except TxFault TxState := do
  let st ← st.modify (some p) (ipHeader a)
  let c ← st.deref (some p)
  if dev.mtu.toNat < c.datagram.len.toNat then do
    let (st, head) ← ipFrag dev st p
    output clock dev st head
  else output clock dev st (some p)

end LinuxNet.Sip
