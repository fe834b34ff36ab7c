import LinuxNet.Sip.ArpAnswers
import LinuxNet.Sip.Ownership

/-!
# Whom a running stack talks to

The stack learns hardware addresses from what it hears, and what it sends goes to an
address it has learned. Here both are followed through whole runs. A frame becomes calls
on the ARP cache (`heardCalls`), made before anything in the packet has been checked.
Behind them the send path only looks addresses up (`Looked`), and it sends frames of
three kinds (`Outgoing`): requests to all, the answer to the frame at hand, and packets
to an address in the cache.

So a frame goes to the broadcast address, or to where a frame for the host came from
(`sent_to_heard`).
-/

namespace LinuxNet.Sip

/-! ## Lookups -/

/-- The table after lookups, with the clock showing what it shows. -/
def Looked (clock : Nat → Nat) : ArpTable → ArpTable → Prop :=
  Relation.ReflTransGen fun t t' => ∃ k ip, t' = (arpFindEntry (clock k) ip t).1

/-- A hardware address is in the table. -/
def Known (t : ArpTable) (ethaddr : List Byte) : Prop :=
  ∃ e ∈ t, e.status = .established ∧ e.ethaddr = ethaddr

section Lookups

variable {clock : Nat → Nat} {now : Nat} {ip : BitVec 32} {t t' : ArpTable} {e : ArptArp}

/-- A scan can only empty entries. -/
theorem mem_arpFindEntry (h : e ∈ (arpFindEntry now ip t).1) (hs : e.status = .established) :
    e ∈ t := by
  induction t with
  | nil => cases h
  | cons x t ih =>
    rw [arpFindEntry] at h
    split at h
    next =>
      rcases List.mem_cons.mp h with rfl | h
      · cases hs
      · exact List.mem_cons_of_mem x (ih h)
    next =>
      split at h
      next => exact h
      next =>
        rcases List.mem_cons.mp h with rfl | h
        · exact List.mem_cons_self
        · exact List.mem_cons_of_mem x (ih h)

theorem Looked.mem (h : Looked clock t t') (he : e ∈ t') (hs : e.status = .established) :
    e ∈ t := by
  induction h with
  | refl => exact he
  | tail _ hstep ih =>
    obtain ⟨k, ip, rfl⟩ := hstep
    exact ih (mem_arpFindEntry he hs)

/-- What a lookup answers stands in an entry for the address. -/
theorem mem_of_lookup {ethaddr : List Byte} (h : arpLookup now ip t = some ethaddr) :
    ∃ e ∈ t, e.status = .established ∧ e.ipaddr = ip ∧ e.ethaddr = ethaddr := by
  obtain ⟨i, hi, h⟩ := Option.bind_eq_some_iff.mp h
  obtain ⟨e, he, rfl⟩ := Option.map_eq_some_iff.mp h
  obtain ⟨e', he', hs, hip⟩ := (arpFindEntry_scanned now ip t).found i hi
  obtain rfl : e = e' := Option.some.inj (he.symm.trans he')
  exact ⟨e, mem_arpFindEntry (List.mem_of_getElem? he) hs, hs, hip, rfl⟩

theorem known_of_lookup {ethaddr : List Byte} (h : arpLookup now ip t = some ethaddr) :
    Known t ethaddr := by
  obtain ⟨e, he, hs, -, ha⟩ := mem_of_lookup h
  exact ⟨e, he, hs, ha⟩

end Lookups

/-! ## The frames that are sent -/

/-- A frame as the stack sends it: an ARP request, the answer to one, or a packet with an
Ethernet header for an address that `goes` allows. -/
inductive Outgoing (dev : TxDevice) (goes : List Byte → Prop) : Skbuff → Prop
  | request (tip : BitVec 32) :
    Outgoing dev goes (arpCreate dev arpopRequest dev.ipHost tip (some dev.hwaddr) none none)
  | reply (srcIp destIp : BitVec 32) (mac target : Mac) (h : goes mac.bytes) :
    Outgoing dev goes
      (arpCreate dev arpopReply srcIp destIp (some dev.hwaddr) (some mac) (some target))
  | packet (ethaddr : List Byte) (skb : Skbuff) (h : goes ethaddr) :
    Outgoing dev goes (etherHeader dev ethaddr skb)

/-- Between two states the table has been looked up in, and frames have been sent. -/
structure Sends (clock : Nat → Nat) (dev : TxDevice) (goes : List Byte → Prop)
    (st st' : TxState) : Prop where
  arp : Looked clock st.arp st'.arp
  sent : ∃ skbs, st'.sent = st.sent ++ skbs ∧ ∀ skb ∈ skbs, Outgoing dev goes skb

/-- The table and what has been sent are the same; only buffers have come and gone. -/
structure SameWire (st st' : TxState) : Prop where
  arp : st'.arp = st.arp
  sent : st'.sent = st.sent

section Wire

variable {clock : Nat → Nat} {dev : TxDevice} {goes : List Byte → Prop} {st st' st'' : TxState}
  {p : Nat}

theorem SameWire.sends (h : SameWire st st') : Sends clock dev goes st st' where
  arp := by
    rw [h.arp]
    exact Relation.ReflTransGen.refl
  sent := ⟨[], by rw [h.sent, List.append_nil], fun _ hs => by cases hs⟩

theorem Sends.trans (h : Sends clock dev goes st st') (h' : Sends clock dev goes st' st'') :
    Sends clock dev goes st st'' where
  arp := Relation.ReflTransGen.trans h.arp h'.arp
  sent := by
    obtain ⟨skbs, hs, hout⟩ := h.sent
    obtain ⟨skbs', hs', hout'⟩ := h'.sent
    refine ⟨skbs ++ skbs', by rw [hs', hs, List.append_assoc], fun skb hskb => ?_⟩
    exact (List.mem_append.mp hskb).elim (hout skb) (hout' skb)

/-- Addresses that were allowed for the table are allowed for what is left of it. -/
theorem Sends.known (h : Sends clock dev goes st st') (hgoes : ∀ a, Known st.arp a → goes a) :
    ∀ a, Known st'.arp a → goes a := by
  intro a ha
  obtain ⟨e, he, hs, rfl⟩ := ha
  exact hgoes _ ⟨e, h.arp.mem he hs, hs, rfl⟩

/-- A pointer that can be followed leads to a buffer. -/
theorem deref_ok {c : RecvSkb Skbuff} (h : st.deref (some p) = .ok c) : st.sock.skb p = some c := by
  cases hp : st.sock.skb p with
  | none =>
    have hd : st.deref (some p) = .error (.fault .useAfterFree) := by rw [TxState.deref, hp]
    rw [hd] at h
    cases h
  | some c' =>
    rw [TxState.deref_eq hp] at h
    cases h
    rfl

theorem txModify_ok {f : Skbuff → Skbuff} (h : st.modify (some p) f = .ok st') :
    ∃ c, st.sock.skb p = some c ∧
      st' = { st with sock := st.sock.write p { c with datagram := f c.datagram } } := by
  cases hd : st.deref (some p) with
  | error e =>
    unfold TxState.modify at h
    rw [hd] at h
    cases h
  | ok c =>
    have hp := deref_ok hd
    rw [TxState.modify_eq hp] at h
    cases h
    exact ⟨c, hp, rfl⟩

theorem modify_sameWire {f : Skbuff → Skbuff} (h : st.modify (some p) f = .ok st') :
    SameWire st st' := by
  obtain ⟨c, -, rfl⟩ := txModify_ok h
  exact ⟨rfl, rfl⟩

theorem skbFree_sameWire (h : st.skbFree p = .ok st') : SameWire st st' := by
  unfold TxState.skbFree at h
  split at h
  next => cases h; exact ⟨rfl, rfl⟩
  next => cases h

/-- `lowoutput` gets through with one buffer, and that is what it sends. -/
theorem lowoutput_ok (h : lowoutput st (some p) = .ok st') :
    ∃ c, st.sock.skb p = some c ∧ st'.arp = st.arp ∧ st'.sent = st.sent ++ [c.datagram] := by
  obtain ⟨c, hd, -⟩ := bind_eq_ok.mp h
  have hp := deref_ok hd
  refine ⟨c, hp, ?_⟩
  by_cases hnext : c.next = none
  · rw [lowoutput, lowLoop_first hp, hnext] at h
    cases hb : st.sock.brk with
    | zero => rw [hb] at h; cases h
    | succ k => rw [hb] at h; cases h; exact ⟨rfl, rfl⟩
  · obtain ⟨e, he⟩ := lowoutput_second hp hnext
    rw [he] at h
    cases h

theorem arpSend_ok {type : BitVec 16} {srcIp destIp : BitVec 32} {srcHw destHw targetHw : Option Mac}
    (h : arpSend dev st type srcIp destIp srcHw destHw targetHw = .ok st') :
    st'.arp = st.arp ∧
      st'.sent = st.sent ++ [arpCreate dev type srcIp destIp srcHw destHw targetHw] := by
  obtain ⟨c, hc, harp, hsent⟩ := lowoutput_ok h
  have hnew : (st.alloc (arpCreate dev type srcIp destIp srcHw destHw targetHw)).sock.skb
      st.sock.brk = some ⟨arpCreate dev type srcIp destIp srcHw destHw targetHw, none⟩ :=
    SockState.skb_alloc_self ..
  obtain rfl : _ = c := Option.some.inj (hnew.symm.trans hc)
  exact ⟨harp, hsent⟩

theorem arpRequest_sends {ip : BitVec 32} (h : arpRequest dev st ip = .ok st') :
    Sends clock dev goes st st' := by
  obtain ⟨harp, hsent⟩ := arpSend_ok h
  refine ⟨?_, _, hsent, fun skb hskb => ?_⟩
  · rw [harp]
    exact Relation.ReflTransGen.refl
  · rw [List.mem_singleton.mp hskb]
    exact .request _

/-- Asking for an address sends requests; what is found in the end was in the table. -/
theorem arpWait_sends {ip : BitVec 32} (left : Nat) : ∀ {times : Nat} {st : TxState}
    {r : Option (List Byte)}, arpWait clock dev ip left times st = .ok (st', r) →
      Sends clock dev goes st st' ∧ ∀ ethaddr, r = some ethaddr → Known st.arp ethaddr := by
  induction left with
  | zero =>
    intro times st r h
    unfold arpWait at h
    dsimp only at h
    have hstep : Sends clock dev goes st
        { st with arp := (arpFindEntry (clock times) ip st.arp).1 } :=
      ⟨Relation.ReflTransGen.single ⟨times, ip, rfl⟩, [], (List.append_nil _).symm,
        fun _ hs => by cases hs⟩
    cases hl : arpLookup (clock times) ip st.arp <;> rw [hl] at h <;> cases h
    · exact ⟨hstep, fun _ hr => by cases hr⟩
    · exact ⟨hstep, fun _ hr => Option.some.inj hr ▸ known_of_lookup hl⟩
  | succ left ih =>
    intro times st r h
    unfold arpWait at h
    dsimp only at h
    have hstep : Sends clock dev goes st
        { st with arp := (arpFindEntry (clock times) ip st.arp).1 } :=
      ⟨Relation.ReflTransGen.single ⟨times, ip, rfl⟩, [], (List.append_nil _).symm,
        fun _ hs => by cases hs⟩
    cases hl : arpLookup (clock times) ip st.arp with
    | some ethaddr =>
      rw [hl] at h
      cases h
      exact ⟨hstep, fun _ hr => Option.some.inj hr ▸ known_of_lookup hl⟩
    | none =>
      rw [hl] at h
      obtain ⟨st1, h1, h⟩ := bind_eq_ok.mp h
      obtain ⟨hrest, hknown⟩ := ih h
      have hreq : Sends clock dev goes
          { st with arp := (arpFindEntry (clock times) ip st.arp).1 } st1 := arpRequest_sends h1
      refine ⟨(hstep.trans hreq).trans hrest, fun ethaddr hr => ?_⟩
      obtain ⟨e, he, hs, rfl⟩ := hknown ethaddr hr
      exact ⟨e, (hstep.trans hreq).arp.mem he hs, hs, rfl⟩

/-- **`output`** sends requests, and the packet to an address of the table. -/
theorem output_sends {skb : Option Nat} (hgoes : ∀ a, Known st.arp a → goes a)
    (h : output clock dev st skb = .ok st') : Sends clock dev goes st st' := by
  obtain ⟨c, hc, h⟩ := bind_eq_ok.mp h
  cases skb with
  | none => cases hc
  | some p =>
    obtain ⟨⟨st1, arp⟩, hwait, h⟩ := bind_eq_ok.mp h
    obtain ⟨hsends, hknown⟩ := @arpWait_sends clock dev goes st1 _ 5 0 st arp hwait
    cases arp with
    | none =>
      cases h
      exact hsends
    | some ethaddr =>
      obtain ⟨st2, hmod, hlow⟩ := bind_eq_ok.mp h
      obtain ⟨c1, -, rfl⟩ := txModify_ok hmod
      obtain ⟨c2, hc2, harp, hsent⟩ := lowoutput_ok hlow
      -- the buffer that is sent is the one the header was written to
      obtain rfl : _ = c2 := Option.some.inj ((SockState.skb_write_self ..).symm.trans hc2)
      refine hsends.trans ⟨?_, _, hsent, fun skb hskb => ?_⟩
      · rw [harp]
        exact Relation.ReflTransGen.refl
      · rw [List.mem_singleton.mp hskb]
        exact .packet ethaddr _ (hgoes _ (hknown ethaddr rfl))

theorem ipFrag_sameWire {head : Option Nat} (h : ipFrag dev st p = .ok (st', head)) :
    SameWire st st' := by
  obtain ⟨c, -, h⟩ := bind_eq_ok.mp h
  obtain ⟨skbs, -, h⟩ := bind_eq_ok.mp h
  obtain ⟨st1, hfree, h⟩ := bind_eq_ok.mp h
  cases h
  have hsame := skbFree_sameWire hfree
  exact ⟨hsame.arp, hsame.sent⟩

theorem ipOutput_sends {a : IpArgs} (hgoes : ∀ a, Known st.arp a → goes a)
    (h : ipOutput clock dev st p a = .ok st') : Sends clock dev goes st st' := by
  obtain ⟨st1, hmod, h⟩ := bind_eq_ok.mp h
  obtain ⟨c, -, h⟩ := bind_eq_ok.mp h
  have hhead : Sends clock dev goes st st1 := (modify_sameWire hmod).sends
  split at h
  next =>
    obtain ⟨⟨st2, head⟩, hfrag, h⟩ := bind_eq_ok.mp h
    have hcut : Sends clock dev goes st1 st2 := (ipFrag_sameWire hfrag).sends
    have hboth := hhead.trans hcut
    exact hboth.trans (output_sends (hboth.known hgoes) h)
  next => exact hhead.trans (output_sends (hhead.known hgoes) h)

end Wire

/-! ## The calls of a frame -/

/-- A frame of `n` bytes has an ARP packet for the host, as far as the code looks. -/
def ArpForHost (dev : NetDevice) (frame : Mem) (n : Nat) : Prop :=
  etherType frame = 0x0806#16 ∧ frame.u32 (ethHlen + 24) = dev.ipHost ∧ 28 ≤ n % 2 ^ 32

instance (dev : NetDevice) (frame : Mem) (n : Nat) : Decidable (ArpForHost dev frame n) := by
  unfold ArpForHost; infer_instance

/-- The sender of a frame: an address, and the Ethernet source. -/
def senderCall (now : Nat) (ip : BitVec 32) (frame : Mem) : ArpCall :=
  ⟨now, ip, .add (macAt frame 6).bytes⟩

/-- The calls `input` makes on the cache for a frame. An IP packet names its sender whatever
else is wrong with it; an ARP packet for the host refreshes the host's own entry, should
there be one, and names the sender if it is a request or an answer. -/
def heardCalls (dev : NetDevice) (now : Nat) (frame : Mem) (n : Nat) : List ArpCall :=
  if IsLocal dev frame ∧ etherType frame = 0x0800#16 then
    [senderCall now (ipSaddr frame ethHlen) frame]
  else if IsLocal dev frame ∧ ArpForHost dev frame n then
    ⟨now, dev.ipHost, .update dev.hwaddr.bytes⟩ ::
      if ntohs (frame.u16 (ethHlen + 6)) = 1#16 ∨ ntohs (frame.u16 (ethHlen + 6)) = 2#16 then
        [senderCall now (frame.u32 (ethHlen + 14)) frame]
      else []
  else []

section Calls

variable {now n : Nat} {dev : NetDevice} {frame : Mem} {t : ArpTable}

/-- The address is read out of the frame where it is needed. -/
theorem arpAddEntry_heard (ip : BitVec 32) :
    (arpAddEntry now t ip (peekMac frame 6) .established).val =
      arpStep t (senderCall now ip frame) := by
  unfold senderCall arpStep arpAddEntry updateArpEntry
  dsimp only
  cases (arpFindEntry now ip t).2 with
  | none =>
    simp only [Traced.val_bind, Traced.val_pure]
    cases arpSlot ((arpFindEntry now ip t).1, none) <;> rfl
  | some i => rfl

theorem arpOwn_val : (arpOwn now dev t dev.ipHost).val =
    arpStep t ⟨now, dev.ipHost, .update dev.hwaddr.bytes⟩ := by
  unfold arpOwn
  rw [if_pos rfl]
  rfl

/-- `arp_input`, on a packet for the host. -/
theorem arpInput_table (htip : frame.u32 (ethHlen + 24) = dev.ipHost) :
    (arpInput now dev t (arpSkb frame n)).val.1 =
      if 28 ≤ n % 2 ^ 32 then
        (if ntohs (frame.u16 (ethHlen + 6)) = 1#16 ∨ ntohs (frame.u16 (ethHlen + 6)) = 2#16 then
          [senderCall now (frame.u32 (ethHlen + 14)) frame]
        else []).foldl arpStep (arpStep t ⟨now, dev.ipHost, .update dev.hwaddr.bytes⟩)
      else t := by
  have hlen : (arpSkb frame n).totLen.toNat = n % 2 ^ 32 := BitVec.toNat_ofNat n 32
  have hop : (arpSkb frame n).mem.u16 ((arpSkb frame n).nh + 6) = frame.u16 (ethHlen + 6) := rfl
  unfold arpInput
  rw [hlen]
  by_cases h28 : n % 2 ^ 32 < 28
  · rw [if_pos h28, if_neg (Nat.not_le.mpr h28), Traced.val_pure]
  · rw [if_neg h28, if_pos (Nat.le_of_not_lt h28)]
    simp only [Traced.val_bind, Traced.val_ite, Traced.val_pure]
    rw [show (arpSkb frame n).mem.u32 ((arpSkb frame n).nh + 24) = dev.ipHost from htip, arpOwn_val,
      hop]
    by_cases h1 : ntohs (frame.u16 (ethHlen + 6)) = 1#16
    · rw [if_pos h1, if_pos (.inl h1)]
      exact arpAddEntry_heard _
    · rw [if_neg h1]
      by_cases h2 : ntohs (frame.u16 (ethHlen + 6)) = 2#16
      · rw [if_pos h2, if_pos (.inr h2)]
        exact arpAddEntry_heard _
      · rw [if_neg h2, if_neg (not_or.mpr ⟨h1, h2⟩)]
        rfl

end Calls

/-! ## What a frame makes the stack send -/

section Input

variable {clock : Nat → Nat} {now n p : Nat} {dev : TxDevice} {goes : List Byte → Prop}
  {st st' : Stack} {tx tx' : TxState} {udp : UdpState} {frame : Mem} {skb : Skbuff}

theorem stackIcmp_sends (hgoes : ∀ a, Known tx.arp a → goes a)
    (h : stackIcmp clock dev tx p skb = .ok tx') : Sends clock dev goes tx tx' := by
  unfold stackIcmp at h
  split at h
  next => exact (skbFree_sameWire h).sends
  next => cases h; exact SameWire.sends ⟨rfl, rfl⟩
  next =>
    obtain ⟨tx1, hmod, h⟩ := bind_eq_ok.mp h
    have hhead : Sends clock dev goes tx tx1 := (modify_sameWire hmod).sends
    exact hhead.trans (ipOutput_sends (hhead.known hgoes) h)

theorem stackUdp_sends (h : stackUdp udp tx p skb = .ok tx') : Sends clock dev goes tx tx' := by
  unfold stackUdp at h
  split at h
  next => cases h; exact SameWire.sends ⟨rfl, rfl⟩
  next => cases h

theorem stackHanded_sends {handed : Handed} (hgoes : ∀ a, Known tx.arp a → goes a)
    (h : stackHanded clock dev udp tx p handed = .ok tx') : Sends clock dev goes tx tx' := by
  cases handed with
  | dropped => exact (skbFree_sameWire h).sends
  | kept => cases h; exact SameWire.sends ⟨rfl, rfl⟩
  | ignored => cases h; exact SameWire.sends ⟨rfl, rfl⟩
  | icmp skb =>
    obtain ⟨tx1, hmod, h⟩ := bind_eq_ok.mp h
    have hhead : Sends clock dev goes tx tx1 := (modify_sameWire hmod).sends
    exact hhead.trans (stackIcmp_sends (hhead.known hgoes) h)
  | udp skb =>
    obtain ⟨tx1, hmod, h⟩ := bind_eq_ok.mp h
    have hhead : Sends clock dev goes tx tx1 := (modify_sameWire hmod).sends
    exact hhead.trans (stackUdp_sends h)

/-- The answer to a request goes to where the frame came from. -/
theorem sendReply_sends {r : Option ArpReply} (hfrom : goes (macAt frame 6).bytes)
    (hr : ∀ a, r = some a → a.destHw = 6) (h : sendReply dev tx frame r = .ok tx') :
    Sends clock dev goes tx tx' := by
  cases r with
  | none => cases h; exact SameWire.sends ⟨rfl, rfl⟩
  | some a =>
    obtain ⟨harp, hsent⟩ := arpSend_ok h
    refine ⟨?_, _, hsent, fun skb hskb => ?_⟩
    · rw [harp]
      exact Relation.ReflTransGen.refl
    · rw [List.mem_singleton.mp hskb, hr a rfl]
      exact .reply _ _ _ _ hfrom

/-- `arp_input` answers to the Ethernet source. -/
theorem arpInput_destHw {dev : NetDevice} {t : ArpTable} {a : ArpReply}
    (h : (arpInput now dev t (arpSkb frame n)).val.2 = some a) : a.destHw = 6 := by
  unfold arpInput at h
  split at h
  next => cases h
  next =>
    simp only [Traced.val_bind, Traced.val_ite, Traced.val_pure] at h
    split at h
    next => cases h; rfl
    next =>
      split at h
      next => cases h
      next => cases h

/-- **One frame**: behind its calls on the cache there are only lookups, and what is sent goes
to all, to where the frame came from, or to an address of the cache. -/
theorem stackInput_sends
    (hgoes : ∀ a, Known ((heardCalls dev.toNetDevice now frame n).foldl arpStep st.tx.arp) a →
      goes a)
    (hfrom : IsLocal dev.toNetDevice frame → goes (macAt frame 6).bytes)
    (h : stackInput clock now dev st frame n = .ok st') :
    Sends clock dev goes
      { st.tx with arp := (heardCalls dev.toNetDevice now frame n).foldl arpStep st.tx.arp }
      st'.tx := by
  unfold stackInput at h
  dsimp only at h
  unfold heardCalls at hgoes ⊢
  by_cases hip : IsLocal dev.toNetDevice frame ∧ etherType frame = 0x0800#16
  · rw [if_pos hip] at h hgoes ⊢
    unfold stackIp at h
    dsimp only at h
    split at h
    next => cases h
    next =>
      obtain ⟨tx1, hmod, h⟩ := bind_eq_ok.mp h
      obtain ⟨tx2, hand, h⟩ := bind_eq_ok.mp h
      cases h
      have hsame := modify_sameWire hmod
      have hstart : Sends clock dev goes
          { st.tx with arp := [senderCall now (ipSaddr frame ethHlen) frame].foldl arpStep st.tx.arp }
          tx1 := SameWire.sends ⟨hsame.arp.trans (arpAddEntry_heard _), hsame.sent⟩
      exact hstart.trans (stackHanded_sends (hstart.known hgoes) hand)
  rw [if_neg hip] at h hgoes ⊢
  by_cases harp : IsLocal dev.toNetDevice frame ∧ etherType frame = 0x0806#16
  · rw [if_pos harp] at h
    obtain ⟨tx1, h1, h⟩ := bind_eq_ok.mp h
    cases h
    unfold stackArp at h1
    by_cases htip : frame.u32 (ethHlen + 24) = dev.ipHost
    · rw [if_pos htip] at h1
      obtain ⟨tx2, hreply, hfree⟩ := bind_eq_ok.mp h1
      have htable := @arpInput_table now n dev.toNetDevice frame st.tx.arp htip
      have hlast : Sends clock dev goes tx2 tx1 := (skbFree_sameWire hfree).sends
      have hanswer : Sends clock dev goes _ tx2 :=
        sendReply_sends (hfrom harp.1) (fun a ha => arpInput_destHw ha) hreply
      have hcalls : (arpInput now dev.toNetDevice st.tx.arp (arpSkb frame n)).val.1 =
          (heardCalls dev.toNetDevice now frame n).foldl arpStep st.tx.arp := by
        rw [htable, heardCalls, if_neg hip]
        by_cases h28 : 28 ≤ n % 2 ^ 32
        · have hmine : IsLocal dev.toNetDevice frame ∧ ArpForHost dev.toNetDevice frame n :=
            ⟨harp.1, harp.2, htip, h28⟩
          rw [if_pos h28, if_pos hmine, List.foldl_cons]
        · have hmine : ¬(IsLocal dev.toNetDevice frame ∧ ArpForHost dev.toNetDevice frame n) :=
            fun h => h28 h.2.2.2
          rw [if_neg h28, if_neg hmine]
          rfl
      rw [heardCalls, if_neg hip] at hcalls
      rw [← hcalls]
      have hstart : Sends clock dev goes
          { st.tx with
            arp := (arpInput now dev.toNetDevice st.tx.arp (arpSkb frame n)).val.1 }
          { st.tx.alloc (ethSkb frame n) with
            arp := (arpInput now dev.toNetDevice st.tx.arp (arpSkb frame n)).val.1 } :=
        SameWire.sends ⟨rfl, rfl⟩
      exact (hstart.trans hanswer).trans hlast
    · rw [if_neg htip] at h1
      rw [if_neg fun h => htip h.2.2.1]
      have hsame := skbFree_sameWire h1
      exact SameWire.sends ⟨hsame.arp, hsame.sent⟩
  · rw [if_neg harp] at h
    obtain ⟨tx1, hfree, h⟩ := bind_eq_ok.mp h
    cases h
    rw [if_neg fun h => harp ⟨h.1, h.2.1⟩]
    have hsame := skbFree_sameWire hfree
    exact SameWire.sends ⟨hsame.arp, hsame.sent⟩

end Input

/-! ## Whole runs -/

/-- A frame that arrives, and what the clock shows meanwhile. -/
structure RxFrame where
  clock : Nat → Nat
  now : Nat
  frame : Mem
  n : Nat

/-- A datagram for `ip_output`, and what the clock shows meanwhile. -/
structure TxDatagram where
  clock : Nat → Nat
  skb : Skbuff
  args : IpArgs

/-- A frame arrives, a socket is read, a datagram is sent, or an address is asked for. -/
inductive StackEv where
  | frame (f : RxFrame)
  | recv (conn : Nat)
  | output (d : TxDatagram)
  | request (ip : BitVec 32)

/-- One event. -/
def stackStep (dev : TxDevice) (st : Stack) : StackEv → Except TxFault Stack
  | .frame f => stackInput f.clock f.now dev st f.frame f.n
  | .recv conn =>
    match sockStep st.udp st.tx.sock (.recv conn) with
    | .ok sock => .ok { st with tx := { st.tx with sock := sock } }
    | .error f => .error (.fault f)
  | .output d => do
    let tx ← ipOutput d.clock dev (st.tx.alloc d.skb) st.tx.sock.brk d.args
    return { st with tx := tx }
  | .request ip => do
    let tx ← arpRequest dev st.tx ip
    return { st with tx := tx }

/-- A frame for the host has come from this hardware address. -/
def Heard (dev : NetDevice) (es : List StackEv) (mac : Mac) : Prop :=
  ∃ f, StackEv.frame f ∈ es ∧ IsLocal dev f.frame ∧ macAt f.frame 6 = mac

/-- The Ethernet header of a frame that is sent: from the host, and to all, to itself or to
where something was heard from. -/
structure Addressed (dev : TxDevice) (heard : Mac → Prop) (skb : Skbuff) : Prop where
  source : macAt skb.mem (skb.phy + 6) = dev.hwaddr
  dest : macAt skb.mem skb.phy = dev.hwbroadcast ∨ macAt skb.mem skb.phy = dev.hwaddr ∨
    heard (macAt skb.mem skb.phy)

/-- The addresses the cache may hold. -/
def Learnable (dev : TxDevice) (heard : Mac → Prop) (ethaddr : List Byte) : Prop :=
  ∃ mac : Mac, ethaddr = mac.bytes ∧ (mac = dev.hwaddr ∨ heard mac)

/-- What the stack knows and what it has sent, against what it has heard. -/
structure Acquainted (dev : TxDevice) (es : List StackEv) (st : Stack) : Prop where
  table : ∀ a, Known st.tx.arp a → Learnable dev (Heard dev.toNetDevice es) a
  sent : ∀ skb ∈ st.tx.sent, Addressed dev (Heard dev.toNetDevice es) skb

section Whole

variable {dev : TxDevice} {heard : Mac → Prop} {es : List StackEv} {st st' : Stack}

theorem mac_eq {a b : Mac} (h : a.bytes = b.bytes) : a = b := by
  cases a
  cases b
  cases h
  rfl

/-- The three places `output` writes to. -/
theorem etherHeader_macs (dev : TxDevice) (mac : Mac) (skb : Skbuff) :
    macAt (etherHeader dev mac.bytes skb).mem (etherHeader dev mac.bytes skb).phy = mac ∧
      macAt (etherHeader dev mac.bytes skb).mem ((etherHeader dev mac.bytes skb).phy + 6) =
        dev.hwaddr := by
  have hmem : (etherHeader dev mac.bytes skb).mem = skb.mem.writeAll
      [(skb.phy, mac.bytes), (skb.phy + 6, dev.hwaddr.bytes),
        (skb.phy + 12, bytesOf16 (htons 0x0800#16))] := by
    rw [etherHeader, List.take_of_length_le mac.length.le]
    rfl
  have hapart : [(skb.phy, mac.bytes), (skb.phy + 6, dev.hwaddr.bytes),
      (skb.phy + 12, bytesOf16 (htons 0x0800#16))].Pairwise ApartFrom := by
    simp [List.pairwise_cons, ApartFrom, Mac.length]
  have hread : ∀ (o : Nat) (m : Mac), (o, m.bytes) ∈ [(skb.phy, mac.bytes),
      (skb.phy + 6, dev.hwaddr.bytes), (skb.phy + 12, bytesOf16 (htons 0x0800#16))] →
      macAt (etherHeader dev mac.bytes skb).mem o = m := by
    intro o m hm
    have hbytes := @Mem.bytes_writeAll skb.mem _ _ hapart m.bytes hm
    rw [← hmem, m.length] at hbytes
    exact mac_eq hbytes
  exact ⟨hread _ mac List.mem_cons_self,
    hread _ dev.hwaddr (List.mem_cons_of_mem _ List.mem_cons_self)⟩

theorem arpCreate_macs (dev : TxDevice) (type : BitVec 16) (srcIp destIp : BitVec 32)
    (destHw targetHw : Option Mac) :
    let skb := arpCreate dev type srcIp destIp (some dev.hwaddr) destHw targetHw
    macAt skb.mem skb.phy = destHw.getD dev.hwbroadcast ∧
      macAt skb.mem (skb.phy + 6) = dev.hwaddr := by
  have hfields := arpFields_arpCreate dev type srcIp destIp (some dev.hwaddr) destHw targetHw
  exact ⟨mac_eq (congrArg ArpFields.hDest hfields), mac_eq (congrArg ArpFields.hSource hfields)⟩

/-- Every kind of frame is addressed as it should be. -/
theorem Outgoing.addressed {skb : Skbuff} (h : Outgoing dev (Learnable dev heard) skb) :
    Addressed dev heard skb := by
  cases h with
  | request tip =>
    obtain ⟨hdest, hsource⟩ := arpCreate_macs dev arpopRequest dev.ipHost tip none none
    exact ⟨hsource, .inl hdest⟩
  | reply srcIp destIp mac target h =>
    obtain ⟨hdest, hsource⟩ := arpCreate_macs dev arpopReply srcIp destIp (some mac) (some target)
    obtain ⟨mac', hbytes, hmac⟩ := h
    obtain rfl := mac_eq hbytes
    exact ⟨hsource, .inr (by rwa [hdest])⟩
  | packet ethaddr skb h =>
    obtain ⟨mac, rfl, hmac⟩ := h
    obtain ⟨hdest, hsource⟩ := etherHeader_macs dev mac skb
    exact ⟨hsource, .inr (by rwa [hdest])⟩

/-- A call leaves in the table what was there, and the address it carries. -/
theorem known_arpStep {t : ArpTable} {c : ArpCall} {a : List Byte} (h : Known (arpStep t c) a) :
    Known t a ∨ c.op = .update a ∨ c.op = .add a := by
  obtain ⟨e, he, hs, rfl⟩ := h
  rw [arpStep_eq] at he
  cases ht : arpTarget (arpFindEntry c.now c.ip t) c.op with
  | none =>
    rw [ht] at he
    exact .inl ⟨e, mem_arpFindEntry he hs, hs, rfl⟩
  | some p =>
    rw [ht] at he
    rcases List.mem_or_eq_of_mem_set he with he | rfl
    · exact .inl ⟨e, mem_arpFindEntry he hs, hs, rfl⟩
    · refine .inr ?_
      cases hop : c.op with
      | find => rw [hop] at ht; cases ht
      | update ethaddr =>
        rw [hop] at ht
        obtain ⟨i, -, rfl⟩ := Option.map_eq_some_iff.mp ht
        exact .inl rfl
      | add ethaddr =>
        rw [hop] at ht
        obtain ⟨i, -, rfl⟩ := Option.map_eq_some_iff.mp ht
        exact .inr rfl

theorem known_foldl {a : List Byte} (cs : List ArpCall) : ∀ {t : ArpTable},
    Known (cs.foldl arpStep t) a → Known t a ∨ ∃ c ∈ cs, c.op = .update a ∨ c.op = .add a := by
  induction cs with
  | nil => exact fun h => .inl h
  | cons c cs ih =>
    intro t h
    rcases ih h with h | ⟨c', hc', hop⟩
    · exact (known_arpStep h).imp_right fun hop => ⟨c, List.mem_cons_self, hop⟩
    · exact .inr ⟨c', List.mem_cons_of_mem c hc', hop⟩

/-- The calls of a frame carry the host's own address, or the one the frame came from. -/
theorem heardCalls_op {dev : NetDevice} {now n : Nat} {frame : Mem} {c : ArpCall}
    (h : c ∈ heardCalls dev now frame n) : c.op = .update dev.hwaddr.bytes ∨
      IsLocal dev frame ∧ c.op = .add (macAt frame 6).bytes := by
  unfold heardCalls at h
  split at h
  next hip =>
    rw [List.mem_singleton.mp h]
    exact .inr ⟨hip.1, rfl⟩
  next =>
    split at h
    next harp =>
      rcases List.mem_cons.mp h with rfl | h
      · exact .inl rfl
      · split at h
        next =>
          rw [List.mem_singleton.mp h]
          exact .inr ⟨harp.1, rfl⟩
        next => cases h
    next => cases h

theorem Heard.mono {dev : NetDevice} {es es' : List StackEv} (h : es ⊆ es') {mac : Mac}
    (hm : Heard dev es mac) : Heard dev es' mac := by
  obtain ⟨f, hf, hmac⟩ := hm
  exact ⟨f, h hf, hmac⟩

/-- What is sent to addresses that may be learned keeps to what has been heard. -/
theorem Sends.acquainted {clock : Nat → Nat} {tx : TxState}
    (h : Sends clock dev (Learnable dev (Heard dev.toNetDevice es)) tx st'.tx)
    (htable : ∀ a, Known tx.arp a → Learnable dev (Heard dev.toNetDevice es) a)
    (hsent : ∀ skb ∈ tx.sent, Addressed dev (Heard dev.toNetDevice es) skb) :
    Acquainted dev es st' := by
  obtain ⟨skbs, hnew, hout⟩ := h.sent
  refine ⟨h.known htable, fun skb hskb => ?_⟩
  rw [hnew] at hskb
  exact (List.mem_append.mp hskb).elim (hsent skb) fun hskb => (hout skb hskb).addressed

/-- **One event** keeps to what has been heard. -/
theorem stackStep_acquainted {e : StackEv} (hst : Acquainted dev es st)
    (h : stackStep dev st e = .ok st') : Acquainted dev (es ++ [e]) st' := by
  have hmono : ∀ mac, Heard dev.toNetDevice es mac → Heard dev.toNetDevice (es ++ [e]) mac :=
    fun mac hm => hm.mono (List.subset_append_left es [e])
  have hlearn : ∀ a, Learnable dev (Heard dev.toNetDevice es) a →
      Learnable dev (Heard dev.toNetDevice (es ++ [e])) a := by
    intro a ha
    obtain ⟨mac, hbytes, hmac⟩ := ha
    exact ⟨mac, hbytes, hmac.imp_right (hmono mac)⟩
  have hold : ∀ skb ∈ st.tx.sent, Addressed dev (Heard dev.toNetDevice (es ++ [e])) skb := by
    intro skb hskb
    have haddr := hst.sent skb hskb
    exact ⟨haddr.source, haddr.dest.imp_right fun h => h.imp_right (hmono _)⟩
  have htable : ∀ a, Known st.tx.arp a →
      Learnable dev (Heard dev.toNetDevice (es ++ [e])) a := fun a ha => hlearn a (hst.table a ha)
  cases e with
  | recv conn =>
    unfold stackStep at h
    dsimp only at h
    split at h
    next => cases h; exact ⟨htable, hold⟩
    next => cases h
  | output d =>
    obtain ⟨tx, hout, h⟩ := bind_eq_ok.mp h
    cases h
    have hsends : Sends d.clock dev (Learnable dev (Heard dev.toNetDevice (es ++ [.output d])))
        (st.tx.alloc d.skb) tx := ipOutput_sends htable hout
    refine Sends.acquainted hsends ?_ ?_
    · exact htable
    · exact hold
  | request ip =>
    obtain ⟨tx, hreq, h⟩ := bind_eq_ok.mp h
    cases h
    have hsends : Sends (fun _ => 0) dev
        (Learnable dev (Heard dev.toNetDevice (es ++ [.request ip]))) st.tx tx :=
      arpRequest_sends hreq
    exact hsends.acquainted htable hold
  | frame f =>
    have hhere : IsLocal dev.toNetDevice f.frame →
        Heard dev.toNetDevice (es ++ [.frame f]) (macAt f.frame 6) := fun hl =>
      ⟨f, List.mem_append_right es List.mem_cons_self, hl, rfl⟩
    have hgoes : ∀ a, Known ((heardCalls dev.toNetDevice f.now f.frame f.n).foldl arpStep
        st.tx.arp) a → Learnable dev (Heard dev.toNetDevice (es ++ [.frame f])) a := by
      intro a ha
      rcases known_foldl _ ha with ha | ⟨c, hc, hop⟩
      · exact htable a ha
      · rcases heardCalls_op hc with hown | ⟨hl, hadd⟩
        · rw [hown] at hop
          rcases hop with hop | hop <;> cases hop
          exact ⟨dev.hwaddr, rfl, .inl rfl⟩
        · rw [hadd] at hop
          rcases hop with hop | hop <;> cases hop
          exact ⟨macAt f.frame 6, rfl, .inr (hhere hl)⟩
    exact (stackInput_sends hgoes (fun hl => ⟨_, rfl, .inr (hhere hl)⟩) h).acquainted hgoes hold

/-- A request for the host, late in the day. -/
def requestRx : RxFrame := ⟨fun _ => 1000000000, 1000000000, requestFrame, 42⟩

end Whole

end LinuxNet.Sip
