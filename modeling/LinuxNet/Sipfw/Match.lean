import LinuxNet.Sipfw.Types

/-!
# Matching a packet against a chain

`SIPFW_IsIPMatch`, `SIPFW_IsAddtionMatch` and `SIPFW_IsMatch` of
`sipfw_k_common.c`, over the memory a hook sees from `skb->data`, which is
where the IP header starts. Every read goes through the trace, in the order
and with the short circuits of the C expressions, so how far the matcher looks
into a packet is part of the model.

`isMatch_val` says what the loop computes: the first rule of the chain for
which both tests hold.
-/

namespace LinuxNet.Sipfw

/-- A packet at a hook: the memory from `skb->data` (the IP header), the number
of its bytes, and the memory from `skb->mac.raw`. -/
structure SkBuff where
  data : Mem
  len : Nat
  mac : Mem

/-- `iph->ihl * 4`. -/
def iphHdrLen (m : Mem) : Nat := (m 0).toNat % 16 * 4

/-- `iph->protocol`. -/
def iphProtocol (m : Mem) : BitVec 8 := m 9

/-- `iph->saddr`. -/
def iphSaddr (m : Mem) : BitVec 32 := m.u32 12

/-- `iph->daddr`. -/
def iphDaddr (m : Mem) : BitVec 32 := m.u32 16

/-- `SIPFW_IsIPMatch`. -/
def isIPMatch (iph : Mem) (r : SipfwRules) : Traced Nat Bool := do
  let daddr ← rd32 iph 16
  if daddr = r.dest ∨ r.dest = 0#32 then
    let saddr ← rd32 iph 12
    if saddr = r.source ∨ r.source = 0#32 then
      let protocol ← rd8 iph 9
      return decide (protocol = r.protocol ∨ r.protocol = 0#8)
    else return false
  else return false

/-- The port tests the TCP and the UDP case share; `p` is the offset of the
transport header. -/
def portsMatch (iph : Mem) (p : Nat) (r : SipfwRules) : Traced Nat Bool := do
  let source ← rd16 iph p
  if source = r.sport ∨ r.sport = 0#16 then
    let dest ← rd16 iph (p + 2)
    return decide (dest = r.dport ∨ r.dport = 0#16)
  else return false

/-- The flag test of the TCP case: ACK, FIN and SYN of the rule against the
flag byte of the TCP header. -/
def tcpFlagsMatch (a : Addtion) (flags : Byte) : Bool :=
  a.tcpAck == flags.getLsbD 4 && a.tcpFin == flags.getLsbD 0 && a.tcpSyn == flags.getLsbD 1

/-- `SIPFW_IsAddtionMatch`. -/
def isAddtionMatch (iph : Mem) (p : Nat) (r : SipfwRules) : Traced Nat Bool := do
  let protocol ← rd8 iph 9
  if protocol = 6#8 then
    let ports ← portsMatch iph p r
    if ports = true then
      if r.addtion = 0#32 then return true
      else
        let flags ← rd8 iph (p + 13)
        return tcpFlagsMatch r.addtion flags
    else return false
  else if protocol = 17#8 then portsMatch iph p r
  else if protocol = 1#8 ∨ protocol = 2#8 then
    if r.addtion = 0#32 then return true
    else
      let type ← rd8 iph p
      if r.addtion.icgmpType = type then
        let code ← rd8 iph (p + 1)
        return decide (r.addtion.icgmpCode = code)
      else return false
  else return false

/-- The `for` loop of `SIPFW_IsMatch`. -/
def matchLoop (iph : Mem) (p : Nat) : List SipfwRules → Traced Nat (Option SipfwRules)
  | [] => return none
  | r :: next => do
    let ip ← isIPMatch iph r
    if ip = true then
      let addtion ← isAddtionMatch iph p r
      if addtion = true then return some r else matchLoop iph p next
    else matchLoop iph p next

/-- `SIPFW_IsMatch`. -/
def isMatch (skb : SkBuff) (l : List SipfwRules) : Traced Nat (Option SipfwRules) := do
  let ihl ← rd8 skb.data 0
  let _ ← rd32 skb.data 12
  let _ ← rd32 skb.data 16
  matchLoop skb.data (ihl.toNat % 16 * 4) l

/-! ## What the matcher computes -/

theorem isIPMatch_val (iph : Mem) (r : SipfwRules) :
    (isIPMatch iph r).val = true ↔
      (iphDaddr iph = r.dest ∨ r.dest = 0#32) ∧ (iphSaddr iph = r.source ∨ r.source = 0#32) ∧
        (iphProtocol iph = r.protocol ∨ r.protocol = 0#8) := by
  simp only [isIPMatch, iphDaddr, iphSaddr, iphProtocol, Traced.val_bind, Traced.val_ite,
    Traced.val_pure]
  split
  next h1 =>
    split
    next h2 => simp [h1, h2]
    next h2 => simp [h2]
  next h1 => simp [h1]

theorem portsMatch_val (iph : Mem) (p : Nat) (r : SipfwRules) :
    (portsMatch iph p r).val = true ↔
      (iph.u16 p = r.sport ∨ r.sport = 0#16) ∧ (iph.u16 (p + 2) = r.dport ∨ r.dport = 0#16) := by
  simp only [portsMatch, Traced.val_bind, Traced.val_ite, Traced.val_pure]
  split
  next h1 => simp [h1]
  next h1 => simp [h1]

theorem isAddtionMatch_tcp {iph : Mem} (p : Nat) (r : SipfwRules) (h : iphProtocol iph = 6#8) :
    (isAddtionMatch iph p r).val = true ↔
      (portsMatch iph p r).val = true ∧
        (r.addtion = 0#32 ∨ tcpFlagsMatch r.addtion (iph (p + 13)) = true) := by
  have h9 : iph 9 = 6#8 := h
  simp only [isAddtionMatch, Traced.val_bind, Traced.val_ite, Traced.val_pure, h9,
    if_true]
  split
  next hp =>
    split
    next ha => simp [hp, ha]
    next ha => simp [hp, ha]
  next hp => simp [hp]

theorem isAddtionMatch_udp {iph : Mem} (p : Nat) (r : SipfwRules) (h : iphProtocol iph = 17#8) :
    (isAddtionMatch iph p r).val = (portsMatch iph p r).val := by
  have h9 : iph 9 = 17#8 := h
  simp [isAddtionMatch, h9]

/-- The protocols some rule can match: the matcher's `switch` has no other case. -/
def matchable (protocol : BitVec 8) : Prop :=
  protocol = 6#8 ∨ protocol = 17#8 ∨ protocol = 1#8 ∨ protocol = 2#8

instance (protocol : BitVec 8) : Decidable (matchable protocol) := by
  unfold matchable; infer_instance

theorem isAddtionMatch_default {iph : Mem} (p : Nat) (r : SipfwRules)
    (h : ¬ matchable (iphProtocol iph)) : (isAddtionMatch iph p r).val = false := by
  simp only [matchable, iphProtocol, not_or] at h
  simp [isAddtionMatch, h]

/-- Both tests `SIPFW_IsMatch` makes of one rule. -/
def ruleMatches (skb : SkBuff) (r : SipfwRules) : Bool :=
  (isIPMatch skb.data r).val && (isAddtionMatch skb.data (iphHdrLen skb.data) r).val

/-- The loop finds the first rule both tests accept. -/
theorem matchLoop_val (iph : Mem) (p : Nat) (l : List SipfwRules) :
    (matchLoop iph p l).val =
      l.find? fun r => (isIPMatch iph r).val && (isAddtionMatch iph p r).val := by
  induction l with
  | nil => rfl
  | cons r next ih =>
    simp only [matchLoop, Traced.val_bind, Traced.val_ite, Traced.val_pure, List.find?_cons, ih]
    cases (isIPMatch iph r).val <;> cases (isAddtionMatch iph p r).val <;> rfl

/-- `SIPFW_IsMatch` returns the earliest rule that matches. -/
theorem isMatch_val (skb : SkBuff) (l : List SipfwRules) :
    (isMatch skb l).val = l.find? (ruleMatches skb) :=
  matchLoop_val skb.data (iphHdrLen skb.data) l

end LinuxNet.Sipfw
