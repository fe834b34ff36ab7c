import LinuxNet.Sip.UdpSend

/-!
# The port that is chosen

`SIP_UDPBind` without a port takes one from `found_a_port`, whose counter starts at zero
and is never brought into the range `UDP_PORT_RANGE_START..UDP_PORT_RANGE_END`, and it
uses the port as an index into the table before it tests anything. So where it comes to an
end, the port is below the size of the table (`autoPort_low`), which is below the range. The
end of the range, where the search is to give up, is behind the table too: -1 is never
returned. `autoPort_never` draws the conclusion for the three functions that let a port be
chosen.
-/

namespace LinuxNet.Sip

/-- `UDP_PORT_RANGE_START`. -/
def udpPortRangeStart : BitVec 16 := 4096#16

/-- The port is in the range. -/
def InPortRange (port : BitVec 16) : Prop := udpPortRangeStart ≤ port ∧ port ≤ udpPortRangeEnd

/-- A port has been chosen for a block: one of the range that no other block has; or the range
is used up, and block and table are as they were. -/
def Chosen {ε : Type} (st : UdpState) (p : Nat) (r : Except ε (UdpState × Int)) : Prop :=
  (∃ st' c, r = .ok (st', 0) ∧ st'.pcb p = some c ∧ InPortRange c.portLocal ∧
    ∀ q d, q ≠ p → st.pcb q = some d → d.portLocal ≠ c.portLocal) ∨
  ∃ st', r = .ok (st', -1) ∧ (∀ port, InPortRange port → ∃ q d, st.pcb q = some d ∧
    d.portLocal = port) ∧ st'.pcb = st.pcb ∧ st'.table = st.table

/-- What the functions return if they do: the block has a port below the size of the
table. -/
def LowPort {ε : Type} (p : Nat) (r : Except ε (UdpState × Int)) : Prop :=
  ∀ st' err, r = .ok (st', err) →
    err = 0 ∧ ∃ c, st'.pcb p = some c ∧ c.portLocal.toNat < udpHtableSize

section Choice

open UdpState

variable {ε : Type} {st st' : UdpState} {p : Nat} {c : UdpPcb} {port : BitVec 16}

/-- A port of the table is none of the range. -/
theorem LowPort.not_chosen {r : Except ε (UdpState × Int)} (h : LowPort p r) :
    ¬Chosen st p r := by
  intro hc
  rcases hc with ⟨st', c, hr, hpcb, hrange, -⟩ | ⟨st', hr, -⟩
  · obtain ⟨-, d, hd, hlt⟩ := h st' 0 hr
    rw [hpcb, Option.some.injEq] at hd
    subst hd
    have hle : 4096 ≤ c.portLocal.toNat := hrange.1
    have : c.portLocal.toNat < 128 := hlt
    omega
  · exact absurd (h st' (-1) hr).1 (by decide)

/-- Where the search ends, the port is an index of the table, and nothing is left of the
list. -/
theorem autoPort_low (turns : Nat) : ∀ {st st' : UdpState} {ipcb : Option Nat},
    autoPort turns st = .ok (st', port, ipcb) → port.toNat < udpHtableSize ∧ ipcb = none := by
  induction turns with
  | zero =>
    intro st st' ipcb h
    cases h
  | succ turns ih =>
    intro st st' ipcb h
    rw [autoPort, foundAPort] at h
    dsimp only at h
    by_cases hlt : ((st.index + 1#32).setWidth 16).toNat < udpHtableSize
    · have hend : (st.index + 1#32).setWidth 16 ≠ udpPortRangeEnd := by
        intro he
        rw [he] at hlt
        exact absurd hlt (by decide)
      rw [bucket_eq hlt] at h
      dsimp only at h
      rw [if_neg hend] at h
      split at h
      next => cases h
      next =>
        cases h
        exact ⟨hlt, rfl⟩
      next => exact ih h
    · rw [bucket_oob hlt] at h
      cases h

theorem modify_ok {f : UdpPcb → UdpPcb} (h : st.modify p f = .ok st') :
    ∃ c, st.pcb p = some c ∧ st' = st.write p (f c) := by
  cases hc : st.pcb p with
  | none =>
    rw [modify_dead hc] at h
    cases h
  | some c =>
    rw [modify_eq hc] at h
    cases h
    exact ⟨c, rfl, rfl⟩

/-- Putting a block in front of a list leaves its port alone. -/
theorem pushFront_ok {b : Nat} (h : st.pushFront p b = .ok st') :
    ∃ c, st.pcb p = some c ∧ st' = st.pushed p c b := by
  by_cases hb : b < udpHtableSize
  · cases hc : st.pcb p with
    | none =>
      rw [pushFront, bucket_eq hb] at h
      change (st.modify p _ >>= _) = _ at h
      rw [modify_dead hc] at h
      cases h
    | some c =>
      rw [pushFront_eq hc hb] at h
      cases h
      exact ⟨c, rfl, rfl⟩
  · rw [pushFront_oob hb] at h
    cases h

/-- The end of `SIP_UDPBind`. -/
theorem bindAs_lowPort (cells : List Nat) (hport : port.toNat < udpHtableSize) :
    LowPort p (st.bindAs p cells port) := by
  intro st' err h
  obtain ⟨st1, h1, h⟩ := bind_eq_ok.mp h
  obtain ⟨c, -, rfl⟩ := modify_ok h1
  split at h
  next =>
    cases h
    exact ⟨rfl, _, pcb_write_self .., hport⟩
  next =>
    obtain ⟨st2, h2, h⟩ := bind_eq_ok.mp h
    obtain ⟨d, hd, rfl⟩ := pushFront_ok h2
    cases h
    rw [pcb_write_self, Option.some.injEq] at hd
    subst hd
    exact ⟨rfl, _, pcb_pushed_self .., hport⟩

theorem udpBind_lowPort (st : UdpState) (p : Nat) (ipaddr : BitVec 32) :
    LowPort p (st.udpBind p ipaddr 0#16) := by
  intro st' err h
  obtain ⟨head, -, h⟩ := bind_eq_ok.mp h
  obtain ⟨cells, -, h⟩ := bind_eq_ok.mp h
  obtain ⟨st1, -, h⟩ := bind_eq_ok.mp h
  obtain ⟨⟨st2, port, ipcb⟩, h2, h⟩ := bind_eq_ok.mp h
  obtain ⟨hport, hnone⟩ := autoPort_low 200 h2
  subst hnone
  exact bindAs_lowPort cells hport st' err h

/-- Connecting leaves the local port alone. -/
theorem connectTo_lowPort (hc : st.pcb p = some c) (hport : c.portLocal.toNat < udpHtableSize)
    (ipaddr : BitVec 32) (remote : BitVec 16) : LowPort p (st.connectTo p ipaddr remote) := by
  intro st' err h
  obtain ⟨st1, h1, h⟩ := bind_eq_ok.mp h
  obtain ⟨d, hd, rfl⟩ := modify_ok h1
  rw [hc, Option.some.injEq] at hd
  subst hd
  obtain ⟨d, -, h⟩ := bind_eq_ok.mp h
  obtain ⟨head, -, h⟩ := bind_eq_ok.mp h
  obtain ⟨found, -, h⟩ := bind_eq_ok.mp h
  split at h
  next =>
    cases h
    exact ⟨rfl, _, pcb_write_self .., hport⟩
  next =>
    obtain ⟨st2, h2, h⟩ := bind_eq_ok.mp h
    obtain ⟨e, he, rfl⟩ := pushFront_ok h2
    cases h
    rw [pcb_write_self, Option.some.injEq] at he
    subst he
    exact ⟨rfl, _, pcb_pushed_self .., hport⟩

theorem udpConnect_lowPort (hc : st.pcb p = some c) (hzero : c.portLocal = 0#16)
    (ipaddr : BitVec 32) (remote : BitVec 16) : LowPort p (st.udpConnect p ipaddr remote) := by
  intro st' err h
  rw [udpConnect, deref_eq hc] at h
  change (if c.portLocal = 0#16 then _ else _) = _ at h
  rw [if_pos hzero] at h
  obtain ⟨⟨st1, err1⟩, h1, h⟩ := bind_eq_ok.mp h
  obtain ⟨rfl, d, hd, hlt⟩ := udpBind_lowPort st p c.ipLocal st1 err1 h1
  exact connectTo_lowPort hd hlt ipaddr remote st' err h

/-- The control blocks after `SIP_UDPSendTo`, and the error it got from the bind. -/
def sendToBind (dev : NetDevice) (stray : Stray) (st : UdpState) (p : Nat) (skb : Skbuff)
    (dstIp : BitVec 32) (dstPort : BitVec 16) : Except SendFault (UdpState × Int) :=
  (udpSendTo dev stray st p skb dstIp dstPort).map fun r => (r.1, r.2.1)

theorem sendTo_lowPort (hc : st.pcb p = some c) (hzero : c.portLocal = 0#16) (dev : NetDevice)
    (stray : Stray) (skb : Skbuff) (dstIp : BitVec 32) (dstPort : BitVec 16) :
    LowPort p (sendToBind dev stray st p skb dstIp dstPort) := by
  intro st' err h
  have hfirst : boundFirst st p = st.udpBind p c.ipLocal 0#16 := by
    rw [boundFirst, deref_eq hc]
    change (if c.portLocal = 0#16 then _ else _) = _
    rw [if_pos hzero, hzero]
  obtain ⟨r, hr, he⟩ := map_eq_ok.mp h
  rw [udpSendTo, hfirst] at hr
  cases hb : st.udpBind p c.ipLocal 0#16 with
  | error f =>
    rw [hb] at hr
    cases hr
  | ok x =>
    obtain ⟨st1, err1⟩ := x
    obtain ⟨rfl, d, hd, hlt⟩ := udpBind_lowPort st p c.ipLocal st1 err1 hb
    rw [hb] at hr
    dsimp only at hr
    rw [if_neg (not_not_intro rfl), deref_eq hd] at hr
    obtain ⟨skb', -, rfl⟩ := map_eq_ok.mp hr
    cases he
    exact ⟨rfl, d, hd, hlt⟩

/-- **No port of the range is ever chosen**: whatever the table and the counter are, neither
`SIP_UDPBind` without a port nor the bind of `SIP_UDPConnect` or `SIP_UDPSendTo` for a block
without one does what it is to do. -/
theorem autoPort_never (st : UdpState) (p : Nat) :
    (∀ ipaddr, ¬Chosen st p (st.udpBind p ipaddr 0#16)) ∧
      ∀ c, st.pcb p = some c → c.portLocal = 0#16 →
        (∀ ipaddr port, ¬Chosen st p (st.udpConnect p ipaddr port)) ∧
          ∀ dev stray skb dstIp dstPort,
            ¬Chosen st p (sendToBind dev stray st p skb dstIp dstPort) := by
  refine ⟨fun ipaddr => (udpBind_lowPort st p ipaddr).not_chosen, fun c hc hzero => ⟨?_, ?_⟩⟩
  · intro ipaddr port
    exact (udpConnect_lowPort hc hzero ipaddr port).not_chosen
  · intro dev stray skb dstIp dstPort
    exact (sendTo_lowPort hc hzero dev stray skb dstIp dstPort).not_chosen

theorem autoPort_never_new :
    ¬Chosen UdpState.initial.newBlock 0 (UdpState.initial.newBlock.udpBind 0 0#32 0#16) ∧
      ¬Chosen UdpState.initial.newBlock 0
        (UdpState.initial.newBlock.udpConnect 0 0x0200000A#32 7#16) :=
  have h := autoPort_never UdpState.initial.newBlock 0
  ⟨h.1 0#32, (h.2 _ rfl rfl).1 _ _⟩

/-- The first block of all gets port 1. -/
theorem first_port : ¬∀ (st : UdpState) (p : Nat) (ipaddr : BitVec 32) (c : UdpPcb),
    st.pcb p = some c → Chosen st p (st.udpBind p ipaddr 0#16) := by
  intro h
  have hc := h UdpState.initial.newBlock 0 0#32 _ rfl
  rcases hc with ⟨st', c, hr, hpcb, hrange, -⟩ | ⟨st', hr, -⟩
  · cases hr
    cases hpcb
    exact absurd hrange.1 (by decide)
  · cases hr

end Choice

end LinuxNet.Sip
