import LinuxNet.Sip.OneFrame
import LinuxNet.Sip.Stack

/-!
# Every buffer is released once

When `input` returns, is every buffer that was allocated on the way released, on the
list of one socket, or in one entry of the reassembly queue? `ReleasedOnce` says so for
one frame; that `input` returns at all is part of it, since a second release of a buffer
is a fault.

Whoever drops a packet releases it. It is the others that do not: a handler that has
nothing to do with its packet leaves the buffer where it is, and so do `SIP_UDPInput`
without a listener and `output` without an address. `every_buffer_released_iff` is the exact
condition. For the buffers the stack starts with, the lists of the sockets are as the
receive queues keep them (`Queues`).
-/

namespace LinuxNet.Sip

/-! ## Where a buffer is -/

/-- The buffer is on the list of a socket. -/
def QueuedOn (s : SockState Skbuff) (b k : Nat) : Prop :=
  ∃ l, Linked s.link (s.skbRecv k) l ∧ b ∈ l

/-- An entry of the reassembly queue has got the buffer of the frame: it has more than
before, and no other buffer is passed to `sip_reassemble`. -/
def HeldBy (st st' : Stack) (b e : Nat) : Prop :=
  b = st.tx.sock.brk ∧ (st.reass.held e).length < (st'.reass.held e).length

/-- A buffer is in exactly one of the three places. -/
inductive Owned (st st' : Stack) (b : Nat) : Prop where
  | released (gone : st'.tx.sock.skb b = none) (notQueued : ∀ k, ¬ QueuedOn st'.tx.sock b k)
      (notHeld : ∀ e, ¬ HeldBy st st' b e)
  | queued (live : st'.tx.sock.skb b ≠ none) (k : Nat) (on : QueuedOn st'.tx.sock b k)
      (only : ∀ j, QueuedOn st'.tx.sock b j → j = k) (notHeld : ∀ e, ¬ HeldBy st st' b e)
  | held (live : st'.tx.sock.skb b ≠ none) (e : Nat) (has : HeldBy st st' b e)
      (only : ∀ e', HeldBy st st' b e' → e' = e) (notQueued : ∀ k, ¬ QueuedOn st'.tx.sock b k)

/-- `input` returns, and every buffer that was allocated on the way is in one place. -/
def ReleasedOnce (clock : Nat → Nat) (now : Nat) (dev : TxDevice) (st : Stack) (frame : Mem)
    (n : Nat) : Prop :=
  ∃ st', stackInput clock now dev st frame n = .ok st' ∧
    ∀ b, st.tx.sock.brk ≤ b → b < st'.tx.sock.brk → Owned st st' b

/-! ## When it is -/

/-- The ICMP message of a packet is of no known type, or asks for an echo that can be sent:
not to a broadcast or multicast address, in one frame, and to a known hardware address. -/
def IcmpSettled (clock : Nat → Nat) (now : Nat) (dev : TxDevice) (st : Stack) (frame : Mem)
    (n : Nat) : Prop :=
  nrIcmpTypes < (frame (ethHlen + iphdrLen)).toNat ∨
    frame (ethHlen + iphdrLen) = 8#8 ∧
    ¬ (ipIsBroadcast dev.toNetDevice (ipDaddr frame ethHlen) = true ∨
      ipIsMulticast (ipDaddr frame ethHlen) = true) ∧
    InOneFrame dev (ipSkb frame n) ∧
    arpLookup (clock 0) (nextHop dev (sentTo dev (ipSkb frame n) (ipSaddr frame ethHlen)))
      (ipArp now st.tx.arp frame).val ≠ none

/-- The UDP datagram of a packet has a socket, with at most one unread datagram. -/
def UdpSettled (st : Stack) (frame : Mem) : Prop :=
  ∃ l : Listener st.udp, l.port = ntohs (frame.u16 (ethHlen + iphdrLen + 2)) ∧
    ∃ bs, Linked st.tx.sock.link (st.tx.sock.skbRecv l.conn) bs ∧ bs.length < 2

/-- What a frame has to be: if it carries a packet for this host that passes the checks, the
packet gets past the reassembly and is settled by its protocol. -/
def Settled (clock : Nat → Nat) (now : Nat) (dev : TxDevice) (st : Stack) (frame : Mem)
    (n : Nat) : Prop :=
  IsLocal dev.toNetDevice frame → etherType frame = 0x0800#16 →
    (ipChecks dev.toNetDevice (ipSkb frame n)).val = true →
    ¬ Stuck st.reass (ipSkb frame n) ∧
    (ipProtocol frame ethHlen = 1#8 ∧ IcmpSettled clock now dev st frame n ∨
      ipProtocol frame ethHlen = 17#8 ∧ UdpSettled st frame)

/-! ## What can become of the buffers -/

/-- The buffers there were, and their lists, are as before. -/
structure Untouched (s s' : SockState Skbuff) : Prop where
  old : ∀ r, r < s.brk → s'.skb r = s.skb r
  recv : s'.skbRecv = s.skbRecv
  reads : s'.reads = s.reads
  brk : s.brk ≤ s'.brk
  unused : Unused s'

/-- The four outcomes of a function that has been given a packet, for the buffers that are
new. The first and the third are good; `P` is the condition for one of them. -/
inductive Fate (s : SockState Skbuff) (udp : UdpState) (out : Except TxFault TxState) (P : Prop) :
    Prop where
  /-- All of them have been released. -/
  | gone (tx : TxState) (ok : out = .ok tx) (kept : Untouched s tx.sock)
      (all : ∀ b, s.brk ≤ b → tx.sock.skb b = none) (yes : P)
  /-- One of them is still there. -/
  | lost (tx : TxState) (b : Nat) (ok : out = .ok tx) (kept : Untouched s tx.sock)
      (new : s.brk ≤ b) (below : b < tx.sock.brk) (live : tx.sock.skb b ≠ none) (no : ¬ P)
  /-- There is one, and a socket has got it. -/
  | queued (tx : TxState) (l : Listener udp) (d : Skbuff) (ok : out = .ok tx)
      (step : sockStep udp s (.arrive l d) = .ok tx.sock) (yes : P)
  | failed (e : TxFault) (error : out = .error e) (no : ¬ P)

section Places

variable {s s' : SockState Skbuff} {udp : UdpState} {q : Fifo Skbuff} {L : Nat → List Nat}
  {b k : Nat}

/-- What is on a list has not been released. -/
theorem QueuedOn.live (h : QueuedOn s b k) : s.skb b ≠ none := by
  obtain ⟨l, hlinked, hb⟩ := h
  obtain ⟨next, hn⟩ := hlinked.live b hb
  obtain ⟨c, hc, -⟩ := Option.map_eq_some_iff.mp hn
  rw [hc]
  exact Option.some_ne_none c

theorem Queues.queuedOn_iff (hq : Queues s q L) : QueuedOn s b k ↔ b ∈ L k := by
  constructor
  · intro h
    obtain ⟨l, hlinked, hb⟩ := h
    rwa [hlinked.unique (hq.linked k)] at hb
  · intro h
    exact ⟨L k, hq.linked k, h⟩

theorem Queues.lt_brk (hq : Queues s q L) (h : b ∈ L k) : b < s.brk := by
  obtain ⟨c, hc⟩ := hq.live h
  refine Nat.lt_of_not_le fun hle => ?_
  rw [hq.fresh b hle] at hc
  cases hc

/-- The lists are what they were. -/
theorem Queues.untouched (hq : Queues s q L) (h : Untouched s s') : Queues s' q L where
  linked k := by
    rw [h.recv]
    exact (hq.linked k).congr fun r hr => by
      rw [SockState.link, SockState.link, h.old r (hq.lt_brk hr)]
  data k := by
    rw [← hq.data k]
    exact List.map_congr_left fun r hr => by
      rw [SockState.datagram, SockState.datagram, h.old r (hq.lt_brk hr)]
  apart := hq.apart
  fresh := h.unused
  reads := h.reads.trans hq.reads

/-- No new buffer is on one. -/
theorem Queues.not_queued (hq : Queues s q L) (h : Untouched s s') (hb : s.brk ≤ b) :
    ¬ QueuedOn s' b k := by
  rw [(hq.untouched h).queuedOn_iff]
  intro hk
  exact absurd (hq.lt_brk hk) (Nat.not_lt.mpr hb)

/-- A datagram that has got to its socket is on the list of this socket, in the only new
buffer. -/
theorem Queues.arrived_on {l : Listener udp} {d : Skbuff} (hq : Queues s q L)
    (h : sockStep udp s (.arrive l d) = .ok s') :
    s'.brk = s.brk + 1 ∧
      ∃ L', Queues s' (q.step (.arrive l d)) L' ∧ s.brk ∈ L' l.conn := by
  refine ⟨?_, ?_⟩
  · rw [sockStep] at h
    cases hin : SockState.udpInput udp (s.alloc d) s.brk l.port with
    | error f =>
      rw [hin] at h
      cases h
    | ok x =>
      rw [hin] at h
      cases h
      exact (SockState.udpInput_ok hin).1
  -- there was room, or the step would not have got through
  · have hroom : (L l.conn).length < 2 := by
      rw [hq.length_eq]
      by_contra hfull
      exact hq.step_stuck (.arrive l d) hfull h
    cases hL : L l.conn with
    | nil =>
      obtain ⟨s1, hstep, hq'⟩ := hq.arrive_first l d hL
      rw [h] at hstep
      cases hstep
      refine ⟨_, hq', ?_⟩
      rw [Function.update_self]
      exact List.mem_singleton_self _
    | cons r rest =>
      rw [hL, List.length_cons] at hroom
      have hrest : rest = [] := List.eq_nil_of_length_eq_zero (by omega)
      rw [hrest] at hL
      obtain ⟨s1, hstep, hq'⟩ := hq.arrive_second l d hL
      rw [h] at hstep
      cases hstep
      refine ⟨_, hq', ?_⟩
      rw [Function.update_self]
      exact List.mem_cons_of_mem r (List.mem_singleton_self _)

end Places

namespace Fate

variable {st : Stack} {reass : ReassState} {out : Except TxFault TxState} {P Q : Prop}
  {q : Fifo Skbuff} {L : Nat → List Nat}

theorem congr {s : SockState Skbuff} {udp : UdpState} (h : Fate s udp out P) (hpq : P ↔ Q) :
    Fate s udp out Q := by
  rwa [← propext hpq]

/-- **The good outcomes**: every new buffer is in one place exactly if all of them have been
released, or the one there is has been queued. -/
theorem owned_iff (h : Fate st.tx.sock st.udp out P) (hq : Queues st.tx.sock q L)
    (hheld : ∀ e, (reass.held e).length ≤ (st.reass.held e).length) :
    (∃ tx, out = .ok tx ∧ ∀ b, st.tx.sock.brk ≤ b → b < tx.sock.brk →
      Owned st { st with tx := tx, reass := reass } b) ↔ P := by
  have hnot : ∀ (tx : TxState) b e, ¬ HeldBy st { st with tx := tx, reass := reass } b e :=
    fun tx b e h => absurd h.2 (Nat.not_lt.mpr (hheld e))
  cases h with
  | gone tx ok kept all yes =>
    refine iff_of_true ⟨tx, ok, fun b hb _ => ?_⟩ yes
    exact .released (all b hb) (fun _ => hq.not_queued kept hb) (hnot tx b)
  | lost tx b ok kept new below live no =>
    refine iff_of_false (fun h => ?_) no
    obtain ⟨tx', ok', howned⟩ := h
    cases ok.symm.trans ok'
    cases howned b new below with
    | released gone _ _ => exact live gone
    | queued _ k on _ _ => exact hq.not_queued kept new on
    | held _ e has _ _ => exact hnot tx b e has
  | queued tx l d ok step yes =>
    -- the buffer of the frame is the only new one, and it is on one list
    obtain ⟨hbrk, L', hq', hin⟩ := hq.arrived_on step
    refine iff_of_true ⟨tx, ok, fun b hb hlt => ?_⟩ yes
    have hself : b = st.tx.sock.brk := by omega
    subst hself
    have hon : QueuedOn tx.sock st.tx.sock.brk l.conn := hq'.queuedOn_iff.mpr hin
    refine .queued hon.live l.conn hon (fun j hj => ?_) (hnot tx _)
    exact hq'.apart j l.conn _ (hq'.queuedOn_iff.mp hj) hin
  | failed e error no =>
    refine iff_of_false (fun h => ?_) no
    obtain ⟨tx, ok, -⟩ := h
    cases error.symm.trans ok

end Fate

/-! ## One new buffer -/

/-- The buffer of the frame is the only new one. -/
structure OneNew (s s' : SockState Skbuff) (skb : Skbuff) : Prop where
  skb : s'.skb = (s.alloc skb).skb
  recv : s'.skbRecv = s.skbRecv
  reads : s'.reads = s.reads
  brk : s.brk < s'.brk

namespace OneNew

variable {s : SockState Skbuff} {udp : UdpState} {tx : TxState} {skb : Skbuff} {b : Nat} {P : Prop}

theorem alloc (s : SockState Skbuff) (skb : Skbuff) : OneNew s (s.alloc skb) skb :=
  ⟨rfl, rfl, rfl, Nat.lt_succ_self _⟩

theorem self (h : OneNew s tx.sock skb) : tx.sock.skb s.brk = some ⟨skb, none⟩ := by
  rw [h.skb]
  exact SockState.skb_alloc_self ..

theorem old (h : OneNew s tx.sock skb) (hb : b ≠ s.brk) : tx.sock.skb b = s.skb b := by
  rw [h.skb]
  exact SockState.skb_alloc_ne hb skb

theorem unused (h : OneNew s tx.sock skb) (hu : Unused s) : Unused tx.sock := by
  intro r hr
  have hlt := h.brk
  rw [h.old (by omega)]
  exact hu r (by omega)

theorem untouched (h : OneNew s tx.sock skb) (hu : Unused s) : Untouched s tx.sock :=
  ⟨fun _ hr => h.old (Nat.ne_of_lt hr), h.recv, h.reads, Nat.le_of_lt h.brk, h.unused hu⟩

/-- It is released. -/
theorem free (h : OneNew s tx.sock skb) (hu : Unused s) (yes : P) :
    Fate s udp (tx.skbFree s.brk) P := by
  have hall : ∀ b, s.brk ≤ b → (tx.drop s.brk).sock.skb b = none := by
    intro b hb
    by_cases hself : b = s.brk
    · rw [hself]
      exact TxState.drop_self
    · rw [TxState.drop_ne hself, h.old hself]
      exact hu b hb
  refine .gone _ (TxState.skbFree_eq h.self) ?_ hall yes
  refine ⟨fun r hr => ?_, h.recv, h.reads, Nat.le_of_lt h.brk, fun b hb => ?_⟩
  · exact (TxState.drop_ne (Nat.ne_of_lt hr)).trans (h.old (Nat.ne_of_lt hr))
  · exact hall b (Nat.le_of_lt (h.brk.trans_le hb))

/-- It is left where it is. -/
theorem lost (h : OneNew s tx.sock skb) (hu : Unused s) (no : ¬ P) : Fate s udp (.ok tx) P := by
  refine .lost tx s.brk rfl (h.untouched hu) (Nat.le_refl _) h.brk ?_ no
  rw [h.self]
  exact Option.some_ne_none _

/-- It is written over. -/
theorem modify {skb' : Skbuff} (h : tx.sock = s.alloc skb) :
    tx.modify (some s.brk) (fun _ => skb') = .ok { tx with sock := s.alloc skb' } := by
  have hself : tx.sock.skb s.brk = some ⟨skb, none⟩ := by
    rw [h]
    exact SockState.skb_alloc_self ..
  have hskb : tx.sock.write s.brk ⟨skb', none⟩ = s.alloc skb' := by
    rw [h, SockState.write, SockState.alloc, SockState.alloc, Function.update_idem]
  rw [TxState.modify_eq hself, hskb]

end OneNew

/-! ## Sending an answer -/

section Send

variable {clock : Nat → Nat} {dev : TxDevice} {s : SockState Skbuff} {udp : UdpState}
  {tx : TxState} {skb : Skbuff} {a : IpArgs}

/-- Handing a packet on leaves the old buffers alone. -/
theorem HandedOn.untouched {tx1 : TxState} {l : List Nat} (hand : HandedOn tx tx1 s.brk l)
    (hnew : OneNew s tx.sock skb) : Untouched s tx1.sock where
  old r hr :=
    (hand.others r (hr.trans hnew.brk) (Nat.ne_of_lt hr)).trans (hnew.old (Nat.ne_of_lt hr))
  recv := hand.recv.trans hnew.recv
  reads := hand.reads.trans hnew.reads
  brk := (Nat.le_of_lt hnew.brk).trans hand.brk
  unused := hand.unused

/-- The new buffers are those of the chain. -/
theorem HandedOn.only_chain {tx1 : TxState} {l : List Nat} {b : Nat}
    (hand : HandedOn tx tx1 s.brk l) (hnew : OneNew s tx.sock skb) (hu : Unused s)
    (hb : s.brk ≤ b) (hl : b ∉ l) : tx1.sock.skb b = none := by
  by_cases hself : b = s.brk
  · rw [hself] at hl ⊢
    exact hand.own hl
  by_cases hlt : b < tx.sock.brk
  · rw [hand.others b hlt hself, hnew.old hself]
    exact hu b hb
  · exact hand.new b (Nat.le_of_not_lt hlt) hl

theorem Untouched.same {tx1 tx2 : TxState} (h : Untouched s tx1.sock)
    (hsame : SameBuffers tx1 tx2) :
    Untouched s tx2.sock where
  old r hr := by
    rw [hsame.skb]
    exact h.old r hr
  recv := hsame.recv.trans h.recv
  reads := hsame.reads.trans h.reads
  brk := h.brk.trans hsame.brk
  unused := hsame.unused h.unused

/-- The chain that `ip_output` hands on is sent if it is one buffer with a known address. -/
theorem output_fate {tx1 : TxState} {q0 : Nat} {l : List Nat} {t : Skbuff} {ts : List Skbuff}
    (hu : Unused s) (hnew : OneNew s tx.sock skb) (hchain : Chain tx1.sock (some q0) l (t :: ts))
    (hand : HandedOn tx tx1 s.brk l) :
    Fate s udp (output clock dev tx1 (some q0))
      (ts = [] ∧ arpLookup (clock 0) (nextHop dev (ipDaddr t.mem t.nh)) tx.arp ≠ none) := by
  obtain ⟨c0, l', -, hc0, rfl, -, -⟩ := hchain.head
  have hbelow : q0 < tx1.sock.brk := hand.below q0 List.mem_cons_self
  have hq0 : s.brk ≤ q0 := by
    rcases hand.cells q0 List.mem_cons_self with rfl | hle
    · exact Nat.le_refl _
    · exact (Nat.le_of_lt hnew.brk).trans hle
  have hkept := hand.untouched hnew
  rcases @output_eq tx1 dev q0 _ clock t ts hchain hand.unused with
    ⟨hnone, tx2, hout, hsame⟩ | ⟨ethaddr, tx2, hsome, hout, hchain2, hne, hrecv, hreads, hbrk⟩
  · -- no address: the chain is left where it is
    rw [hand.arp] at hnone
    refine .lost tx2 q0 hout (hkept.same hsame) hq0 (hbelow.trans_le hsame.brk) ?_
      fun h => h.2 hnone
    rw [hsame.skb, hc0]
    exact Option.some_ne_none c0
  · rw [hand.arp] at hsome
    rw [hout]
    obtain ⟨c, _, _, hc, hl, hts, hrest⟩ := hchain2.head
    cases hl
    rw [linkFrames, List.cons.injEq] at hts
    cases ts with
    | nil =>
      rw [← hts.2] at hrest
      obtain ⟨hnext, rfl⟩ := hrest.of_nil
      -- the chain is one buffer, and it is sent and freed
      have hall : ∀ b, s.brk ≤ b → (tx2.drop q0).sock.skb b = none := by
        intro b hb
        by_cases hb0 : b = q0
        · rw [hb0]
          exact TxState.drop_self
        rw [TxState.drop_ne hb0, hne b hb0]
        exact hand.only_chain hnew hu hb fun h => hb0 (List.mem_singleton.mp h)
      have hpos : 0 < tx2.sock.brk := Nat.lt_of_le_of_lt (Nat.zero_le _) (hbelow.trans_le hbrk)
      refine .gone _ (lowoutput_one hc hnext hpos) ⟨fun r hr => ?_, hrecv.trans hkept.recv,
        hreads.trans hkept.reads, hkept.brk.trans hbrk,
        fun b hb => hall b ((hkept.brk.trans hbrk).trans hb)⟩ hall ⟨rfl, ?_⟩
      · have hr0 : r ≠ q0 := Nat.ne_of_lt (hr.trans_le hq0)
        exact (TxState.drop_ne hr0).trans ((hne r hr0).trans (hkept.old r hr))
      · rw [hsome]
        exact Option.some_ne_none ethaddr
    | cons t' ts =>
      rw [← hts.2] at hrest
      obtain ⟨q1, hnext⟩ := hrest.some_head
      obtain ⟨e, he⟩ := lowoutput_second hc (by rw [hnext]; exact Option.some_ne_none q1)
      exact .failed e he fun h => List.cons_ne_nil _ _ h.1

/-- **Answers**: `ip_output` leaves no buffer behind exactly if the packet goes out in one
frame, to a known address. -/
theorem ipOutput_fate (hu : Unused s) (hnew : OneNew s tx.sock skb) (hnh : skb.nh = ethHlen)
    (hsize : skb.totLen.toNat ≤ skb.size) :
    Fate s udp (ipOutput clock dev tx s.brk a)
      (InOneFrame dev skb ∧
        arpLookup (clock 0) (nextHop dev (sentTo dev skb a.dest)) tx.arp ≠ none) := by
  rw [← @ipFrames_single_iff dev a skb hsize]
  rcases @ipOutput_eq tx dev _ a _ clock hnew.self rfl hnew.brk (hnew.unused hu) with
    ⟨e, he, hout⟩ | ⟨skbs, tx1, head, l, hskbs, hout, hchain, hand⟩
  · have he' : ipFrames dev a skb = .error e := he
    refine .failed e hout fun h => ?_
    obtain ⟨⟨t, ht⟩, -⟩ := h
    cases he'.symm.trans ht
  · have hskbs' : ipFrames dev a skb = .ok skbs := hskbs
    rw [hout]
    cases skbs with
    | nil =>
      -- no fragment at all: `output` follows NULL
      rw [hchain.of_nil.1]
      refine .failed (.fault .nullDeref) rfl fun h => ?_
      obtain ⟨⟨t, ht⟩, -⟩ := h
      cases hskbs'.symm.trans ht
    | cons t ts =>
      obtain ⟨q0, rfl⟩ := hchain.some_head
      refine (output_fate hu hnew hchain hand).congr ?_
      constructor
      · intro h
        obtain ⟨rfl, hknown⟩ := h
        rw [← ipFrames_daddr hnh hsize hskbs']
        exact ⟨⟨t, hskbs'⟩, hknown⟩
      · intro h
        obtain ⟨⟨t', ht'⟩, hknown⟩ := h
        cases hskbs'.symm.trans ht'
        rw [← ipFrames_daddr hnh hsize hskbs'] at hknown
        exact ⟨rfl, hknown⟩

end Send

/-! ## The handlers -/

section Handlers

variable {clock : Nat → Nat} {now n : Nat} {dev : TxDevice} {st : Stack} {tx : TxState}
  {q : Fifo Skbuff} {L : Nat → List Nat} {skb : Skbuff} {frame : Mem}

/-- **Datagrams**: `SIP_UDPInput` leaves no buffer behind exactly if there is a socket with
room for it. -/
theorem stackUdp_fate (hq : Queues st.tx.sock q L) (hs : tx.sock = st.tx.sock.alloc skb)
    (hport : (udpPort skb).val = ntohs (frame.u16 (ethHlen + iphdrLen + 2))) :
    Fate st.tx.sock st.udp (stackUdp st.udp tx st.tx.sock.brk skb) (UdpSettled st frame) := by
  have hnew : OneNew st.tx.sock tx.sock skb := hs ▸ OneNew.alloc st.tx.sock skb
  have hroom : ∀ l : Listener st.udp,
      (∃ bs, Linked st.tx.sock.link (st.tx.sock.skbRecv l.conn) bs ∧ bs.length < 2) ↔
        Room q (.arrive l skb) := by
    intro l
    show _ ↔ (q.queue l.conn).length < 2
    rw [← hq.length_eq]
    constructor
    · intro h
      obtain ⟨bs, hlinked, hlen⟩ := h
      rwa [hlinked.unique (hq.linked l.conn)] at hlen
    · intro h
      exact ⟨L l.conn, hq.linked l.conn, h⟩
  have hstep : ∀ l : Listener st.udp, l.port = (udpPort skb).val →
      sockStep st.udp st.tx.sock (.arrive l skb) =
        (SockState.udpInput st.udp tx.sock st.tx.sock.brk (udpPort skb).val).map (·.1) := by
    intro l hl
    rw [sockStep, hs, hl]
  unfold stackUdp UdpSettled
  cases hin : SockState.udpInput st.udp tx.sock st.tx.sock.brk (udpPort skb).val with
  | error f =>
    -- the queue had no room, as a delivery with room succeeds
    refine .failed (.fault f) rfl fun h => ?_
    obtain ⟨l, hl, hlist⟩ := h
    obtain ⟨s', _, hok, -⟩ := hq.step_room (.arrive l skb) ((hroom l).mp hlist)
    rw [hstep l (hl.trans hport.symm), hin] at hok
    cases hok
  | ok x =>
    obtain ⟨-, ⟨l, hl⟩ | ⟨hsame, hno⟩⟩ := SockState.udpInput_ok hin
    · have hok : sockStep st.udp st.tx.sock (.arrive l skb) = .ok x.1 := by
        rw [hstep l hl, hin]
        rfl
      refine .queued { tx with sock := x.1 } l skb rfl hok ⟨l, hl.trans hport, (hroom l).mpr ?_⟩
      -- delivered, so the queue was not full
      by_contra hfull
      exact hq.step_stuck (.arrive l skb) hfull hok
    · -- nothing has been done with the buffer
      have hnew' : OneNew st.tx.sock ({ tx with sock := x.1 } : TxState).sock skb := by
        show OneNew st.tx.sock x.1 skb
        rwa [hsame]
      refine hnew'.lost hq.fresh fun h => ?_
      obtain ⟨l, hl, -⟩ := h
      exact hno l (hl.trans hport.symm)

/-- The answer to an echo request is as long as the request. -/
theorem echoSkb_inOneFrame :
    InOneFrame dev (echoSkb (transportSkb (checkedSkb frame n))) ↔
      InOneFrame dev (ipSkb frame n) := by
  have hnum : fragNum dev (echoSkb (transportSkb (checkedSkb frame n))) =
      fragNum dev (ipSkb frame n) :=
    fragNum_congr (@echoSkb_totLen (transportSkb (checkedSkb frame n))
      (show 14 + 4 ≤ 14 + 20 by decide))
  unfold InOneFrame
  rw [hnum]
  exact Iff.rfl

/-- **ICMP**: `icmp_input` leaves no buffer behind exactly if it drops the message or can
answer it. -/
theorem stackIcmp_fate (hu : Unused st.tx.sock)
    (hs : tx.sock = st.tx.sock.alloc (transportSkb (checkedSkb frame n)))
    (harp : tx.arp = (ipArp now st.tx.arp frame).val) :
    Fate st.tx.sock st.udp
      (stackIcmp clock dev tx st.tx.sock.brk (transportSkb (checkedSkb frame n)))
      (IcmpSettled clock now dev st frame n) := by
  have hnew : OneNew st.tx.sock tx.sock (transportSkb (checkedSkb frame n)) :=
    hs ▸ OneNew.alloc st.tx.sock _
  have htype : (icmpInput dev.toNetDevice (transportSkb (checkedSkb frame n))).val =
      if 18 < (frame (ethHlen + iphdrLen)).toNat then .dropped
      else if frame (ethHlen + iphdrLen) = 8#8 then
        (icmpEcho dev.toNetDevice (transportSkb (checkedSkb frame n))).val
      else .ignored := icmpInput_val fun h => by cases h
  have hecho : (icmpEcho dev.toNetDevice (transportSkb (checkedSkb frame n))).val =
      if ipIsBroadcast dev.toNetDevice (ipDaddr frame ethHlen) = true ∨
          ipIsMulticast (ipDaddr frame ethHlen) = true then .ignored
      else .echoed (echoSkb (transportSkb (checkedSkb frame n))) (ipSaddr frame ethHlen) :=
    icmpEcho_val ..
  unfold stackIcmp IcmpSettled
  by_cases hbig : 18 < (frame (ethHlen + iphdrLen)).toNat
  · rw [htype, if_pos hbig]
    -- the only types for which the buffer is released here
    exact hnew.free hu (.inl hbig)
  rw [htype, if_neg hbig, or_iff_right (show ¬ nrIcmpTypes < _ from hbig)]
  by_cases h8 : frame (ethHlen + iphdrLen) = 8#8
  · rw [if_pos h8, hecho, and_iff_right h8]
    by_cases hbc : ipIsBroadcast dev.toNetDevice (ipDaddr frame ethHlen) = true ∨
        ipIsMulticast (ipDaddr frame ethHlen) = true
    · rw [if_pos hbc]
      -- `icmp_echo` returns at once
      exact hnew.lost hu fun h => h.1 hbc
    · rw [if_neg hbc, and_iff_right hbc]
      dsimp only
      rw [OneNew.modify hs, ← harp, ← echoSkb_inOneFrame]
      have hsize : (echoSkb (transportSkb (checkedSkb frame n))).totLen.toNat ≤
          (echoSkb (transportSkb (checkedSkb frame n))).size := by
        show (BitVec.ofNat 32 n).toNat ≤ (n + 3) / 4 * 4
        rw [BitVec.toNat_ofNat]
        omega
      exact ipOutput_fate hu (OneNew.alloc st.tx.sock _) rfl hsize
  · rw [if_neg h8]
    -- the handler is empty
    exact hnew.lost hu fun h => h8 h.1

/-- An ARP packet: the answer and the frame are both released. -/
theorem stackArp_fate (hu : Unused st.tx.sock) :
    Fate st.tx.sock st.udp
      (stackArp now dev (st.tx.alloc (ethSkb frame n)) frame n st.tx.sock.brk) True := by
  have hnew : OneNew st.tx.sock (st.tx.alloc (ethSkb frame n)).sock (ethSkb frame n) :=
    OneNew.alloc st.tx.sock _
  unfold stackArp
  split
  next =>
    dsimp only
    generalize (arpInput now dev.toNetDevice _ (arpSkb frame n)).val = r
    cases hreply : r.2 with
    | none => exact @OneNew.free _ _ { st.tx.alloc (ethSkb frame n) with arp := r.1 } _ _ hnew hu ⟨⟩
    | some reply =>
      -- the answer has come and gone when the frame is released
      have hu' : Unused { st.tx.alloc (ethSkb frame n) with arp := r.1 }.sock := hnew.unused hu
      obtain ⟨tx, htx, hsame, -⟩ := @arpSend_spec _ dev hu' arpopReply reply.srcIp reply.destIp
        (some dev.hwaddr) (some (macAt frame reply.destHw)) (some (macAt frame reply.targetHw))
      have hfree : OneNew st.tx.sock tx.sock (ethSkb frame n) :=
        ⟨hsame.skb.trans hnew.skb, hsame.recv.trans hnew.recv, hsame.reads.trans hnew.reads,
          hnew.brk.trans_le hsame.brk⟩
      rw [sendReply, htx]
      exact hfree.free hu ⟨⟩
  next => exact hnew.free hu ⟨⟩

end Handlers

/-! ## The theorem -/

section Input

variable {clock : Nat → Nat} {now n : Nat} {dev : TxDevice} {st st' : Stack} {frame : Mem}
  {q : Fifo Skbuff} {L : Nat → List Nat}

/-- A packet that gets through `ip_input` goes on with its buffer as it is then, and with the
sender's address in the map. -/
theorem stackInput_ip {tx : TxState} (hip : IsLocal dev.toNetDevice frame ∧
    etherType frame = 0x0800#16) (htx : tx = { st.tx.alloc (ethSkb frame n) with
      arp := (ipArp now st.tx.arp frame).val, sock := st.tx.sock.alloc (ipSkb frame n) })
    {reass : ReassState} {handed : Handed}
    (h : (ipInput now dev.toNetDevice st.reass (ipSkb frame n)).val = .ok (reass, handed)) :
    stackInput clock now dev st frame n =
      (stackHanded clock dev st.udp tx st.tx.sock.brk handed >>=
        fun tx => .ok { st with tx := tx, reass := reass }) := by
  have hmodify : TxState.modify
      { st.tx.alloc (ethSkb frame n) with arp := (ipArp now st.tx.arp frame).val }
      (some st.tx.sock.brk) (fun _ => ipSkb frame n) = .ok tx := by
    rw [htx]
    exact OneNew.modify rfl
  rw [stackInput, if_pos hip, stackIp, h]
  exact congrArg (· >>= _) hmodify

/-- An IP packet: what becomes of its buffer is up to its handler. -/
theorem stackIp_fate (hnow : 258 < now) (hq : Queues st.tx.sock q L)
    (hip : IsLocal dev.toNetDevice frame ∧ etherType frame = 0x0800#16) :
    ∃ reass out, (∀ e, (reass.held e).length ≤ (st.reass.held e).length) ∧
      stackInput clock now dev st frame n =
        (out >>= fun tx => .ok { st with tx := tx, reass := reass }) ∧
      Fate st.tx.sock st.udp out
        ((ipChecks dev.toNetDevice (ipSkb frame n)).val = true →
          ¬ Stuck st.reass (ipSkb frame n) ∧
          (ipProtocol frame ethHlen = 1#8 ∧ IcmpSettled clock now dev st frame n ∨
            ipProtocol frame ethHlen = 17#8 ∧ UdpSettled st frame)) := by
  obtain ⟨tx, htx⟩ : ∃ tx : TxState, tx = { st.tx.alloc (ethSkb frame n) with
    arp := (ipArp now st.tx.arp frame).val, sock := st.tx.sock.alloc (ipSkb frame n) } := ⟨_, rfl⟩
  have hs : tx.sock = st.tx.sock.alloc (ipSkb frame n) := by rw [htx]
  have harp : tx.arp = (ipArp now st.tx.arp frame).val := by rw [htx]
  have hnew : OneNew st.tx.sock tx.sock (ipSkb frame n) := hs ▸ OneNew.alloc st.tx.sock _
  rcases ipInput_cases dev.toNetDevice hnow st.reass frame n with
    ⟨hc, hval⟩ | ⟨hc, hstuck, f, hval⟩ | ⟨hc, hfree, reass, hheld, hval⟩
  · refine ⟨st.reass, _, fun _ => Nat.le_refl _, stackInput_ip hip htx hval, ?_⟩
    rw [hc]
    exact hnew.free hq.fresh fun h => by cases h
  -- stuck in `sip_reassemble`
  · refine ⟨st.reass, .error (.fault f), fun _ => Nat.le_refl _, ?_,
      .failed (.fault f) rfl fun h => (h hc).1 hstuck⟩
    rw [stackInput, if_pos hip, stackIp, hval]
    rfl
  · refine ⟨reass, _, hheld, stackInput_ip hip htx hval, ?_⟩
    have hproto : ¬ (ipProtocol frame ethHlen = 1#8 ∧ ipProtocol frame ethHlen = 17#8) := by
      intro h
      rw [h.1] at h
      exact absurd h.2 (by decide)
    rw [hc, ipDispatch_val, forall_prop_of_true rfl, and_iff_right hfree]
    by_cases h1 : ipProtocol frame ethHlen = 1#8
    · rw [if_pos h1, and_iff_right h1, or_iff_left fun h => hproto ⟨h1, h.1⟩, stackHanded,
        OneNew.modify hs]
      exact stackIcmp_fate hq.fresh rfl harp
    rw [if_neg h1, or_iff_right fun h => h1 h.1]
    by_cases h17 : ipProtocol frame ethHlen = 17#8
    · rw [if_pos h17, and_iff_right h17, stackHanded, OneNew.modify hs]
      exact stackUdp_fate hq rfl rfl
    · rw [if_neg h17]
      -- the `switch` has no case for it
      exact hnew.lost hq.fresh fun h => h17 h.1

/-- Every frame has one of the four outcomes. -/
theorem stackInput_fate (hnow : 258 < now) (hq : Queues st.tx.sock q L) :
    ∃ reass out, (∀ e, (reass.held e).length ≤ (st.reass.held e).length) ∧
      stackInput clock now dev st frame n =
        (out >>= fun tx => .ok { st with tx := tx, reass := reass }) ∧
      Fate st.tx.sock st.udp out (Settled clock now dev st frame n) := by
  by_cases hip : IsLocal dev.toNetDevice frame ∧ etherType frame = 0x0800#16
  · obtain ⟨reass, out, hheld, hinput, hfate⟩ :=
      @stackIp_fate clock now n dev st frame q L hnow hq hip
    refine ⟨reass, out, hheld, hinput, hfate.congr ?_⟩
    exact ⟨fun h _ _ => h, fun h => h hip.1 hip.2⟩
  · have hsettled : Settled clock now dev st frame n := fun hl ht => absurd ⟨hl, ht⟩ hip
    by_cases harp : IsLocal dev.toNetDevice frame ∧ etherType frame = 0x0806#16
    · refine ⟨st.reass, _, fun _ => Nat.le_refl _, ?_,
        (@stackArp_fate now n dev st frame hq.fresh).congr (iff_of_true ⟨⟩ hsettled)⟩
      rw [stackInput, if_neg hip, if_pos harp]
      rfl
    -- any other frame is freed at once
    · refine ⟨st.reass, (st.tx.alloc (ethSkb frame n)).skbFree st.tx.sock.brk,
        fun _ => Nat.le_refl _, ?_, ?_⟩
      · rw [stackInput, if_neg hip, if_neg harp]
        rfl
      · have hnew : OneNew st.tx.sock (st.tx.alloc (ethSkb frame n)).sock (ethSkb frame n) :=
          OneNew.alloc st.tx.sock _
        exact hnew.free hq.fresh hsettled

/-- For one frame the outcome is all there is to know. -/
theorem Fate.releasedOnce_iff {reass : ReassState} {out : Except TxFault TxState} {P : Prop}
    (h : Fate st.tx.sock st.udp out P) (hq : Queues st.tx.sock q L)
    (hheld : ∀ e, (reass.held e).length ≤ (st.reass.held e).length)
    (hinput : stackInput clock now dev st frame n =
      (out >>= fun tx => .ok { st with tx := tx, reass := reass })) :
    ReleasedOnce clock now dev st frame n ↔ P := by
  rw [← h.owned_iff hq hheld, ReleasedOnce, hinput]
  constructor
  · intro h
    obtain ⟨st', h, howned⟩ := h
    obtain ⟨tx, htx, h⟩ := bind_eq_ok.mp h
    cases h
    exact ⟨tx, htx, howned⟩
  · intro h
    obtain ⟨tx, htx, howned⟩ := h
    exact ⟨_, bind_eq_ok.mpr ⟨tx, htx, rfl⟩, howned⟩

/-- **Ownership**: for every frame, `input` returns with every buffer in exactly one place
if and only if the frame is settled. -/
theorem every_buffer_released_iff (hnow : 258 < now) (hq : Queues st.tx.sock q L) :
    ReleasedOnce clock now dev st frame n ↔ Settled clock now dev st frame n := by
  obtain ⟨reass, out, hheld, hinput, hfate⟩ :=
    @stackInput_fate clock now n dev st frame q L hnow hq
  exact hfate.releasedOnce_iff hq hheld hinput

/-- A socket for port 53. -/
def dnsSocket : UdpState where
  pcb := Function.update (fun _ => none) 0
    (some ⟨0#32, 0#32, 255#8, none, 0#8, 53#16, 0#16, some 0⟩)
  table := Function.update (fun _ => none) 53 (some 0)
  index := 0#32
  brk := 1

/-- A stack that has not seen a frame. -/
def freshStack (udp : UdpState) : Stack := ⟨⟨[], .initial, []⟩, .initial, udp⟩

/-- A packet to port 53 is queued. -/
theorem dns_packet_queued :
    ReleasedOnce (fun _ => 1000000000) 1000000000 txHost (freshStack dnsSocket)
      (udpFrame [0#8, 20#8] [0x66#8, 0xD7#8]) 42 := by
  refine (every_buffer_released_iff (by decide) initial_queues).mpr fun _ _ _ => ⟨?_, .inr ?_⟩
  · intro h
    exact absurd h.1 (by decide)
  · exact ⟨by decide, ⟨53#16, 0, _, 0, rfl, rfl, rfl⟩, by decide, [], rfl, by decide⟩

/-- Without a socket for it the same packet is lost. -/
theorem unknown_port_lost :
    ¬ ReleasedOnce (fun _ => 1000000000) 1000000000 txHost (freshStack .initial)
      (udpFrame [0#8, 20#8] [0x66#8, 0xD7#8]) 42 := by
  obtain ⟨reass, out, hheld, hinput, hfate⟩ :=
    @stackInput_fate (fun _ => 1000000000) 1000000000 42 txHost (freshStack .initial)
      (udpFrame [0#8, 20#8] [0x66#8, 0xD7#8]) _ _ (by decide) initial_queues
  rw [hfate.releasedOnce_iff initial_queues hheld hinput]
  intro h
  obtain ⟨-, ⟨h1, -⟩ | ⟨-, l, -, -⟩⟩ := h (by decide) (by decide) (by decide)
  · exact absurd h1 (by decide)
  · -- there is no control block at all
    have hlive := l.live
    cases hlive

end Input

end LinuxNet.Sip
