import LinuxNet.Sip.Receive
import LinuxNet.Sip.UdpQueue

/-!
# Which socket gets a datagram

`SIP_UDPInput` takes the first block of the bucket with the destination port and looks at
nothing else: not at the local address, not at `UDP_FLAGS_CONNECTED` and the remote address
behind it, and not at whether there is a `conn`. So a datagram goes where it should if that
block happens to be one that accepts it, or if none with a `conn` does and that block has no
`conn` either (`udpInput_iff`). The queue must have room besides, as in `lossless_iff`.
-/

namespace LinuxNet.Sip

open SockState

/-- Every block that is in the table is in the bucket of its local port. -/
structure Bucketed (udp : UdpState) (L : Nat → List Nat) : Prop where
  linked : ∀ b < udpHtableSize, Linked udp.link (udp.table b) (L b)
  bucket : ∀ b < udpHtableSize, ∀ p ∈ L b, ∀ c, udp.pcb p = some c →
    c.portLocal.toNat % udpHtableSize = b
  fresh : ∀ p, udp.brk ≤ p → udp.pcb p = none

/-- `ntohs(skb->th.udph->source)`. -/
def udpSource (skb : Skbuff) : BitVec 16 := ntohs (skb.mem.u16 skb.th)

/-- A block of the table that a datagram is for: it is bound to the port and the address,
and connected to the sender if it is connected. -/
structure Accepts (udp : UdpState) (L : Nat → List Nat) (skb : Skbuff) (p : Nat) (c : UdpPcb) :
    Prop where
  listed : ∃ b < udpHtableSize, p ∈ L b
  live : udp.pcb p = some c
  port : c.portLocal = (udpPort skb).val
  local_ : c.ipLocal = 0#32 ∨ c.ipLocal = ipDaddr skb.mem skb.nh
  remote : c.flags &&& udpFlagsConnected ≠ 0#8 →
    c.ipRemote = ipSaddr skb.mem skb.nh ∧ c.portRemote = udpSource skb

/-- `SIP_UDPInput` with a datagram that has just been received. -/
def udpReceived (udp : UdpState) (st : SockState Skbuff) (skb : Skbuff) :
    Except Fault (SockState Skbuff) :=
  (udpInput udp (st.alloc skb) st.brk (udpPort skb).val).map (·.1)

/-- The datagram is appended to the queue of a block that accepts it, if there is one with a
`conn`, and to no other; and else to none. -/
def Demultiplexed (udp : UdpState) (L : Nat → List Nat) (st : SockState Skbuff)
    (q : Fifo Skbuff) (skb : Skbuff) : Prop :=
  ∃ st' q' Q, udpReceived udp st skb = .ok st' ∧ Queues st' q' Q ∧
    ((∃ p c k, Accepts udp L skb p c ∧ c.conn = some k ∧
        q'.queue = Function.update q.queue k (q.queue k ++ [skb])) ∨
      (∀ p c, Accepts udp L skb p c → c.conn = none) ∧ q'.queue = q.queue)

/-- The first block of the bucket with the port will do. -/
def FirstFits (udp : UdpState) (L : Nat → List Nat) (q : Fifo Skbuff) (skb : Skbuff) : Prop :=
  ∀ p c, (L ((udpPort skb).val.toNat % udpHtableSize)).find? (udp.hasPort (udpPort skb).val) =
      some p → udp.pcb p = some c →
    (c.conn = none → ∀ r d, Accepts udp L skb r d → d.conn = none) ∧
      ∀ k, c.conn = some k →
        (q.queue k).length < 2 ∧ ∃ r d, Accepts udp L skb r d ∧ d.conn = some k

section Demux

variable {udp : UdpState} {L Q Q' : Nat → List Nat} {st : SockState Skbuff}
  {q q' : Fifo Skbuff} {skb : Skbuff} {p : Nat} {c : UdpPcb}

/-- The buffers determine what is in the queues. -/
theorem Queues.queue_unique (h : Queues st q Q) (h' : Queues st q' Q') : q.queue = q'.queue := by
  funext k
  have hsame : Q k = Q' k := (h.linked k).unique (h'.linked k)
  have hdata := (h.data k).symm.trans (hsame ▸ h'.data k)
  exact List.map_injective_iff.mpr (Option.some_injective _) hdata

/-- A new buffer is in no queue yet. -/
theorem Queues.alloc (h : Queues st q Q) (skb : Skbuff) : Queues (st.alloc skb) q Q := by
  have hne : ∀ k, ∀ s ∈ Q k, (st.alloc skb).skb s = st.skb s := fun k s hs =>
    skb_alloc_ne (fun he => h.brk_not_mem k (he ▸ hs)) skb
  refine ⟨fun k => ?_, fun k => ?_, h.apart, fun s hs => ?_, h.reads⟩
  · exact (h.linked k).congr fun s hs => by rw [link, link, hne k s hs]
  · rw [← h.data k]
    exact List.map_congr_left fun s hs => by rw [datagram, datagram, hne k s hs]
  · exact (skb_alloc_ne (Nat.ne_of_gt hs) skb).trans (h.fresh s (Nat.le_of_succ_le hs))

/-- A queue with one more datagram is another one. -/
theorem update_append_ne (f : Nat → List Skbuff) (k : Nat) :
    Function.update f k (f k ++ [skb]) ≠ f := by
  intro h
  have hk := congrFun h k
  rw [Function.update_self] at hk
  exact List.cons_ne_nil skb [] (List.append_right_eq_self.mp hk)

/-- Where the same datagram has been appended. -/
theorem update_append_inj {f : Nat → List Skbuff} {j k : Nat}
    (h : Function.update f j (f j ++ [skb]) = Function.update f k (f k ++ [skb])) : j = k := by
  by_contra hjk
  have hj := congrFun h j
  rw [Function.update_self, Function.update_of_ne hjk] at hj
  exact List.cons_ne_nil skb [] (List.append_right_eq_self.mp hj)

theorem Bucketed.lookup_eq (ht : Bucketed udp L) (port : BitVec 16) :
    udp.udpLookup port = .ok ((L (port.toNat % udpHtableSize)).find? (udp.hasPort port)) := by
  have hb : port.toNat % udpHtableSize < udpHtableSize := Nat.mod_lt _ (by decide)
  have hlinked := ht.linked _ hb
  unfold UdpState.udpLookup
  rw [UdpState.bucket_eq hb]
  refine hlinked.chase_eq (Nat.lt_succ_of_le (hlinked.length_le fun r hr => ?_))
  obtain ⟨next, hn⟩ := hlinked.live r hr
  obtain ⟨d, hd, -⟩ := Option.map_eq_some_iff.mp hn
  by_contra hlt
  rw [ht.fresh r (Nat.le_of_not_lt hlt)] at hd
  cases hd

/-- A block that accepts a datagram is one the search passes. -/
theorem Accepts.candidate (ht : Bucketed udp L) (h : Accepts udp L skb p c) :
    p ∈ L ((udpPort skb).val.toNat % udpHtableSize) ∧ udp.hasPort (udpPort skb).val p = true := by
  obtain ⟨b, hb, hp⟩ := h.listed
  have hbucket := ht.bucket b hb p hp c h.live
  rw [h.port] at hbucket
  subst hbucket
  refine ⟨hp, ?_⟩
  rw [UdpState.hasPort, h.live, Option.any_some, h.port, beq_self_eq_true]

/-- If the queues stay as they are, nobody with a `conn` may have been waiting. -/
theorem demultiplexed_unchanged (hq : Queues st q Q)
    (hrec : udpReceived udp st skb = .ok (st.alloc skb)) :
    Demultiplexed udp L st q skb ↔ ∀ p c, Accepts udp L skb p c → c.conn = none := by
  constructor
  · intro h
    obtain ⟨st', q', Q', hok, hq', hdone⟩ := h
    rw [hrec] at hok
    cases hok
    rcases hdone with ⟨p, c, k, -, -, hqueue⟩ | ⟨hnone, -⟩
    · rw [hq'.queue_unique (hq.alloc skb)] at hqueue
      exact absurd hqueue.symm (update_append_ne q.queue k)
    · exact hnone
  · intro h
    exact ⟨_, q, Q, hrec, hq.alloc skb, .inr ⟨h, rfl⟩⟩

/-- If a queue has grown, it must be that of a block that accepts the datagram. -/
theorem demultiplexed_appended {st' : SockState Skbuff} {k : Nat} (hq' : Queues st' q' Q')
    (hqueue : q'.queue = Function.update q.queue k (q.queue k ++ [skb]))
    (hrec : udpReceived udp st skb = .ok st') :
    Demultiplexed udp L st q skb ↔ ∃ p c, Accepts udp L skb p c ∧ c.conn = some k := by
  constructor
  · intro h
    obtain ⟨st2, q2, Q2, hok, hq2, hdone⟩ := h
    rw [hrec] at hok
    cases hok
    have hsame := (hq2.queue_unique hq').trans hqueue
    rcases hdone with ⟨p, c, j, ha, hconn, hj⟩ | ⟨-, hj⟩
    · have hjk : j = k := update_append_inj (hj.symm.trans hsame)
      exact ⟨p, c, ha, hjk ▸ hconn⟩
    · exact absurd (hsame.symm.trans hj) (update_append_ne q.queue k)
  · intro h
    obtain ⟨p, c, ha, hconn⟩ := h
    exact ⟨st', q', Q', hrec, hq', .inl ⟨p, c, k, ha, hconn, hqueue⟩⟩

/-- Without a block for the port, or a `conn` of the first, nothing is done. -/
theorem udpReceived_none (h : udp.udpLookup (udpPort skb).val = .ok none) :
    udpReceived udp st skb = .ok (st.alloc skb) := by
  rw [udpReceived, udpInput, h]
  rfl

theorem udpReceived_unowned (h : udp.udpLookup (udpPort skb).val = .ok (some p))
    (hc : udp.pcb p = some c) (hconn : c.conn = none) :
    udpReceived udp st skb = .ok (st.alloc skb) := by
  unfold udpReceived udpInput
  simp only [h, UdpState.deref_eq hc, hconn, bind, Except.bind]
  rfl

/-- **Which socket gets a datagram**: the right one exactly if the first block of the bucket
with the port will do. -/
theorem udpInput_iff (ht : Bucketed udp L) (hq : Queues st q Q) :
    Demultiplexed udp L st q skb ↔ FirstFits udp L q skb := by
  have hlookup := ht.lookup_eq (udpPort skb).val
  unfold FirstFits
  cases hfind : (L ((udpPort skb).val.toNat % udpHtableSize)).find?
      (udp.hasPort (udpPort skb).val) with
  | none =>
    rw [hfind] at hlookup
    rw [demultiplexed_unchanged hq (udpReceived_none hlookup)]
    refine iff_of_true (fun p c ha => ?_) fun p c h => ?_
    · obtain ⟨hmem, hport⟩ := ha.candidate ht
      exact absurd hport (List.find?_eq_none.mp hfind p hmem)
    · cases h
  | some p =>
    rw [hfind] at hlookup
    obtain ⟨c, hc⟩ : ∃ c, udp.pcb p = some c := by
      have hport := List.find?_some hfind
      cases hc : udp.pcb p with
      | none =>
        rw [UdpState.hasPort, hc] at hport
        cases hport
      | some c => exact ⟨c, rfl⟩
    -- the condition is about this block alone
    have hone : ∀ P : UdpPcb → Prop,
        (∀ p' c', some p = some p' → udp.pcb p' = some c' → P c') ↔ P c := by
      intro P
      refine ⟨fun h => h p c rfl hc, fun h p' c' hp' hc' => ?_⟩
      cases hp'
      rw [hc, Option.some.injEq] at hc'
      exact hc' ▸ h
    rw [hone fun c => (c.conn = none → ∀ r d, Accepts udp L skb r d → d.conn = none) ∧
      ∀ k, c.conn = some k →
        (q.queue k).length < 2 ∧ ∃ r d, Accepts udp L skb r d ∧ d.conn = some k]
    cases hconn : c.conn with
    | none =>
      rw [demultiplexed_unchanged hq (udpReceived_unowned hlookup hc hconn)]
      refine ⟨fun h => ⟨fun _ => h, fun k hk => ?_⟩, fun h => h.1 rfl⟩
      cases hk
    | some k =>
      let l : Listener udp := ⟨(udpPort skb).val, p, c, k, hlookup, hc, hconn⟩
      have hstep : udpReceived udp st skb = sockStep udp st (.arrive l skb) := rfl
      by_cases hroom : (q.queue k).length < 2
      · obtain ⟨st', Q', hok, hq'⟩ := hq.step_room (.arrive l skb) hroom
        rw [demultiplexed_appended hq' rfl (hstep.trans hok)]
        refine ⟨fun h => ⟨fun hn => ?_, fun j hj => ?_⟩, fun h => (h.2 k rfl).2⟩
        · cases hn
        · cases hj
          exact ⟨hroom, h⟩
      · refine iff_of_false (fun h => ?_) fun h => hroom (h.2 k rfl).1
        obtain ⟨st', _, _, hok, _⟩ := h
        exact hq.step_stuck (.arrive l skb) hroom (hstep.symm.trans hok)

/-- One block of socket 0, bound to port 5 and connected to port 7 of 10.0.0.2. -/
def connectedBlock : UdpPcb := ⟨0#32, 0x0200000A#32, 255#8, none, 4#8, 5#16, 7#16, some 0⟩

/-- The table with this block in it. -/
def connectedTable : UdpState :=
  ⟨Function.update (fun _ => none) 0 (some connectedBlock),
    Function.update (fun _ => none) 5 (some 0), 0#32, 1⟩

/-- Its lists. -/
def connectedLists : Nat → List Nat := Function.update (fun _ => []) 5 [0]

theorem connected_only (hp : p ≠ 0) : connectedTable.pcb p = none := by
  show Function.update (fun _ => none) 0 (some connectedBlock) p = none
  exact Function.update_of_ne hp ..

theorem connected_bucketed : Bucketed connectedTable connectedLists := by
  refine ⟨fun b hb => ?_, fun b hb p hp c hc => ?_, fun p hp => ?_⟩
  · by_cases hb5 : b = 5
    · subst hb5
      exact ⟨rfl, none, rfl, rfl⟩
    · rw [connectedLists, Function.update_of_ne hb5]
      show Function.update (fun _ => none) 5 (some 0) b = none
      exact Function.update_of_ne hb5 ..
  · by_cases hb5 : b = 5
    · subst hb5
      obtain rfl : p = 0 := List.mem_singleton.mp hp
      cases hc
      rfl
    · rw [connectedLists, Function.update_of_ne hb5] at hp
      cases hp
  · exact connected_only (Nat.ne_of_gt hp)

/-- A datagram from a port of 10.0.0.2 to port 5. -/
def datagramFrom (port : BitVec 16) : Skbuff :=
  { skbAlloc 42 with
    nh := 14
    th := 34
    mem := ((Mem.zero.write 26 (bytesOf32 0x0200000A#32)).write 34 (bytesOf16 (htons port))).write
      36 (bytesOf16 (htons 5#16)) }

/-- The peer's datagram is delivered. -/
theorem udpInput_iff_peer :
    Demultiplexed connectedTable connectedLists .initial .empty (datagramFrom 7#16) := by
  refine (udpInput_iff connected_bucketed initial_queues).mpr fun p c hfind hc => ?_
  obtain rfl : p = 0 := (Option.some.inj hfind).symm
  cases hc
  refine ⟨fun hn => ?_, fun k hk => ?_⟩
  · cases hn
  cases hk
  exact ⟨by decide, 0, connectedBlock, ⟨⟨5, by decide, List.mem_singleton_self 0⟩, rfl, by decide,
    .inl rfl, fun _ => by decide⟩, rfl⟩

/-- So is the datagram of another port, to the socket that is connected to port 7. -/
theorem stranger_delivered : ¬∀ (udp : UdpState) (L : Nat → List Nat) (st : SockState Skbuff)
    (q : Fifo Skbuff) (Q : Nat → List Nat) (skb : Skbuff), Bucketed udp L → Queues st q Q →
    Demultiplexed udp L st q skb := by
  intro h
  have hd := h connectedTable connectedLists .initial .empty _ (datagramFrom 8#16)
    connected_bucketed initial_queues
  obtain ⟨st', hok, hq'⟩ := initial_queues.arrive_first
    (⟨5#16, 0, connectedBlock, 0, rfl, rfl, rfl⟩ : Listener connectedTable)
    (datagramFrom 8#16) rfl
  rw [demultiplexed_appended hq' rfl hok] at hd
  obtain ⟨p, c, ha, -⟩ := hd
  have hp : p = 0 := by
    by_contra hne
    have hlive := ha.live
    rw [connected_only hne] at hlive
    cases hlive
  subst hp
  have hc : connectedBlock = c := Option.some.inj ha.live
  subst hc
  exact absurd (ha.remote (by decide)).2 (by decide)

end Demux

end LinuxNet.Sip
