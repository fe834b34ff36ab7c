import LinuxNet.Sip.Stack

/-!
# How ARP requests are answered

The fields of the frame that `arp_create` makes, read back (`arpFields_arpCreate`), and what
`input` sends for an ARP frame. A request for the address of the host is answered, and
nothing else is; but the length is tested against that of the ARP header alone, without
the Ethernet header in front of it. So a frame that ends inside the ARP header is answered
as well, by whatever stands behind its end (`arpAnswers_iff`).
-/

namespace LinuxNet.Sip

/-! ## The frame -/

/-- The fields of an ARP frame as they are read. -/
structure ArpFields where
  hDest : List Byte
  hSource : List Byte
  hProto : BitVec 16
  arHrd : BitVec 16
  arPro : BitVec 16
  arHln : Byte
  arPln : Byte
  arOp : BitVec 16
  arSha : List Byte
  arSip : BitVec 32
  arTha : List Byte
  arTip : BitVec 32
  deriving DecidableEq

/-- Read them. -/
def arpFields (skb : Skbuff) : ArpFields where
  hDest := (peekMac skb.mem skb.phy).val
  hSource := (peekMac skb.mem (skb.phy + 6)).val
  hProto := ntohs (skb.mem.u16 (skb.phy + 12))
  arHrd := ntohs (skb.mem.u16 skb.nh)
  arPro := ntohs (skb.mem.u16 (skb.nh + 2))
  arHln := skb.mem (skb.nh + 4)
  arPln := skb.mem (skb.nh + 5)
  arOp := ntohs (skb.mem.u16 (skb.nh + 6))
  arSha := (peekMac skb.mem (skb.nh + 8)).val
  arSip := skb.mem.u32 (skb.nh + 14)
  arTha := (peekMac skb.mem (skb.nh + 18)).val
  arTip := skb.mem.u32 (skb.nh + 24)

section Created

variable (dev : TxDevice) (type : BitVec 16) (srcIp destIp : BitVec 32)
  (srcHw destHw targetHw : Option Mac)

/-- The target address `arp_create` stores: the one given, or zeros. -/
def targetBytes (targetHw : Option Mac) : List Byte :=
  (targetHw.map Mac.bytes).getD (List.replicate 6 0#8)

theorem targetBytes_length : (targetBytes targetHw).length = 6 := by
  cases targetHw with
  | none => rfl
  | some m => exact m.length

/-- What `arp_create` writes, place by place. -/
def arpPlaces : List (Nat × List Byte) :=
  [(12, bytesOf16 (htons 0x0806#16)), (0, (destHw.getD dev.hwbroadcast).bytes),
    (6, (srcHw.getD dev.hwaddr).bytes), (20, bytesOf16 (htons type)), (14, bytesOf16 (htons 1#16)),
    (16, bytesOf16 (htons 0x0800#16)), (18, [6#8]), (19, [4#8]),
    (22, (srcHw.getD dev.hwaddr).bytes), (28, bytesOf32 srcIp), (38, bytesOf32 destIp),
    (32, targetBytes targetHw)]

theorem arpCreate_mem : (arpCreate dev type srcIp destIp srcHw destHw targetHw).mem =
    Mem.zero.writeAll (arpPlaces dev type srcIp destIp srcHw destHw targetHw) := rfl

theorem arpPlaces_apart :
    (arpPlaces dev type srcIp destIp srcHw destHw targetHw).Pairwise ApartFrom := by
  simp [arpPlaces, List.pairwise_cons, ApartFrom, Mac.length, targetBytes_length, bytesOf16,
    bytesOf32]

/-- The arguments of `arp_create`, with what stands for a NULL. -/
def givenFields : ArpFields where
  hDest := (destHw.getD dev.hwbroadcast).bytes
  hSource := (srcHw.getD dev.hwaddr).bytes
  hProto := 0x0806#16
  arHrd := 1#16
  arPro := 0x0800#16
  arHln := 6#8
  arPln := 4#8
  arOp := type
  arSha := (srcHw.getD dev.hwaddr).bytes
  arSip := srcIp
  arTha := targetBytes targetHw
  arTip := destIp

/-- The fields of the frame are the arguments. -/
theorem arpFields_arpCreate :
    arpFields (arpCreate dev type srcIp destIp srcHw destHw targetHw) =
      givenFields dev type srcIp destIp srcHw destHw targetHw := by
  have hl := arpPlaces_apart dev type srcIp destIp srcHw destHw targetHw
  have hmac : ∀ o bs, (o, bs) ∈ arpPlaces dev type srcIp destIp srcHw destHw targetHw →
      bs.length = 6 → (peekMac (Mem.zero.writeAll
        (arpPlaces dev type srcIp destIp srcHw destHw targetHw)) o).val = bs := by
    intro o bs h h6
    have hbytes := @Mem.bytes_writeAll Mem.zero _ _ hl bs h
    rwa [h6] at hbytes
  have hone : ∀ o b, (o, [b]) ∈ arpPlaces dev type srcIp destIp srcHw destHw targetHw →
      Mem.zero.writeAll (arpPlaces dev type srcIp destIp srcHw destHw targetHw) o = b :=
    fun o b h => Mem.writeAll_apply hl _ h 0 Nat.zero_lt_one
  have hnh : (arpCreate dev type srcIp destIp srcHw destHw targetHw).nh = 14 := rfl
  have hphy : (arpCreate dev type srcIp destIp srcHw destHw targetHw).phy = 0 := rfl
  rw [arpFields, hphy, hnh, arpCreate_mem, Nat.zero_add, Nat.zero_add,
    hmac 0 _ (List.mem_of_getElem? (i := 1) rfl) (Mac.length _),
    hmac 6 _ (List.mem_of_getElem? (i := 2) rfl) (Mac.length _),
    Mem.u16_writeAll hl (List.mem_of_getElem? (i := 0) rfl),
    Mem.u16_writeAll hl (List.mem_of_getElem? (i := 4) rfl),
    Mem.u16_writeAll hl (List.mem_of_getElem? (i := 5) rfl),
    hone 18 _ (List.mem_of_getElem? (i := 6) rfl), hone 19 _ (List.mem_of_getElem? (i := 7) rfl),
    Mem.u16_writeAll hl (List.mem_of_getElem? (i := 3) rfl),
    hmac 22 _ (List.mem_of_getElem? (i := 8) rfl) (Mac.length _),
    Mem.u32_writeAll hl (List.mem_of_getElem? (i := 9) rfl),
    hmac 32 _ (List.mem_of_getElem? (i := 11) rfl) (targetBytes_length _),
    Mem.u32_writeAll hl (List.mem_of_getElem? (i := 10) rfl)]
  simp only [ntohs, htons_htons]
  rfl

end Created

/-! ## The answer -/

/-- The frame asks this host for its address, with the bytes behind it as they are. -/
def AsksForHost (dev : NetDevice) (frame : Mem) : Prop :=
  IsLocal dev frame ∧ frame.u32 (ethHlen + 24) = dev.ipHost ∧
    ntohs (frame.u16 (ethHlen + 6)) = 1#16

instance (dev : NetDevice) (frame : Mem) : Decidable (AsksForHost dev frame) := by
  unfold AsksForHost; infer_instance

/-- The frame that answers a request: back to its sender, from this host, about this host. -/
def replyFields (dev : NetDevice) (frame : Mem) : ArpFields where
  hDest := (peekMac frame 6).val
  hSource := dev.hwaddr.bytes
  hProto := 0x0806#16
  arHrd := 1#16
  arPro := 0x0800#16
  arHln := 6#8
  arPln := 4#8
  arOp := arpopReply
  arSha := dev.hwaddr.bytes
  arSip := dev.ipHost
  arTha := (peekMac frame (ethHlen + 8)).val
  arTip := frame.u32 (ethHlen + 14)

/-- `input` answers a whole request for the host with one frame, and any other ARP frame with
none. -/
def AnswersRequest (clock : Nat → Nat) (now : Nat) (dev : TxDevice) (st : Stack) (frame : Mem)
    (n : Nat) : Prop :=
  ∃ st', stackInput clock now dev st frame n = .ok st' ∧
    (42 ≤ n ∧ AsksForHost dev.toNetDevice frame → ∃ skb, st'.tx.sent = st.tx.sent ++ [skb] ∧
      arpFields skb = replyFields dev.toNetDevice frame) ∧
    (¬(42 ≤ n ∧ AsksForHost dev.toNetDevice frame) → st'.tx.sent = st.tx.sent)

section Answer

variable {clock : Nat → Nat} {now n : Nat} {dev : TxDevice} {st : Stack} {frame : Mem}

/-- What `arp_input` answers. -/
theorem arpInput_reply (hn : n ≤ ethFrameLen) (t : ArpTable) :
    (arpInput now dev.toNetDevice t (arpSkb frame n)).val.2 =
      if 28 ≤ n ∧ ntohs (frame.u16 (ethHlen + 6)) = 1#16 then
        some ⟨dev.ipHost, frame.u32 (ethHlen + 14), 6, ethHlen + 8⟩
      else none := by
  have hlen : (arpSkb frame n).totLen.toNat = n := by
    show (BitVec.ofNat 32 n).toNat = n
    have : ethFrameLen = 1514 := rfl
    rw [BitVec.toNat_ofNat, Nat.mod_eq_of_lt (by omega)]
  unfold arpInput
  rw [hlen]
  by_cases h28 : n < 28
  · rw [if_pos h28, if_neg fun h => absurd h.1 (Nat.not_le.mpr h28)]
    rfl
  · have hop : (arpSkb frame n).mem.u16 ((arpSkb frame n).nh + 6) = frame.u16 (ethHlen + 6) := rfl
    rw [if_neg h28]
    simp only [Traced.val_bind, Traced.val_ite, Traced.val_pure]
    rw [hop]
    by_cases h1 : ntohs (frame.u16 (ethHlen + 6)) = 1#16
    · rw [if_pos h1, if_pos ⟨Nat.le_of_not_lt h28, h1⟩]
      rfl
    · have hnot : ¬(28 ≤ n ∧ ntohs (frame.u16 (ethHlen + 6)) = 1#16) := fun h => h1 h.2
      rw [if_neg h1, if_neg hnot]
      split <;> rfl

/-- Freeing a buffer sends nothing. -/
theorem skbFree_sent {tx : TxState} {p : Nat} {c : RecvSkb Skbuff} (h : tx.sock.skb p = some c) :
    ∃ tx', tx.skbFree p = .ok tx' ∧ tx'.sent = tx.sent := ⟨_, TxState.skbFree_eq h, rfl⟩

/-- The frame with which a request is answered. -/
def replySkb (dev : TxDevice) (frame : Mem) : Skbuff :=
  arpCreate dev arpopReply dev.ipHost (frame.u32 (ethHlen + 14)) (some dev.hwaddr)
    (some (macAt frame 6)) (some (macAt frame (ethHlen + 8)))

theorem replySkb_fields : arpFields (replySkb dev frame) = replyFields dev.toNetDevice frame :=
  arpFields_arpCreate ..

/-- What `input` sends for an ARP frame. -/
theorem stackInput_arp (hu : Unused st.tx.sock) (hn : n ≤ ethFrameLen)
    (harp : etherType frame = 0x0806#16) :
    ∃ st', stackInput clock now dev st frame n = .ok st' ∧ st'.tx.sent =
      if 28 ≤ n ∧ AsksForHost dev.toNetDevice frame then st.tx.sent ++ [replySkb dev frame]
      else st.tx.sent := by
  have hip : ¬(IsLocal dev.toNetDevice frame ∧ etherType frame = 0x0800#16) := by
    rw [harp]
    exact fun h => absurd h.2 (by decide)
  have hnew : (st.tx.alloc (ethSkb frame n)).sock.skb st.tx.sock.brk =
      some ⟨ethSkb frame n, none⟩ := SockState.skb_alloc_self ..
  unfold stackInput
  dsimp only
  rw [if_neg hip]
  by_cases hlocal : IsLocal dev.toNetDevice frame
  · rw [if_pos ⟨hlocal, harp⟩]
    unfold stackArp
    by_cases htip : frame.u32 (ethHlen + 24) = dev.ipHost
    · rw [if_pos htip]
      have hreply := @arpInput_reply now n dev frame hn
        (st.tx.alloc (ethSkb frame n)).arp
      dsimp only
      generalize (arpInput now dev.toNetDevice (st.tx.alloc (ethSkb frame n)).arp
        (arpSkb frame n)).val = r at hreply ⊢
      rw [hreply]
      by_cases hreq : 28 ≤ n ∧ ntohs (frame.u16 (ethHlen + 6)) = 1#16
      · have hasks : 28 ≤ n ∧ AsksForHost dev.toNetDevice frame :=
          ⟨hreq.1, hlocal, htip, hreq.2⟩
        rw [if_pos hreq, if_pos hasks]
        -- the answer has come and gone when the frame is released
        have hu' : Unused { st.tx.alloc (ethSkb frame n) with arp := r.1 }.sock := by
          intro q hq
          exact (SockState.skb_alloc_ne (Nat.ne_of_gt hq) _).trans (hu q (Nat.le_of_succ_le hq))
        obtain ⟨tx, htx, hsame, -, hsent⟩ := @arpSend_spec _ dev hu' arpopReply dev.ipHost
          (frame.u32 (ethHlen + 14)) (some dev.hwaddr) (some (macAt frame 6))
          (some (macAt frame (ethHlen + 8)))
        obtain ⟨tx', hfree, hsent'⟩ := skbFree_sent ((congrFun hsame.skb _).trans hnew)
        refine ⟨_, bind_eq_ok.mpr ⟨tx', bind_eq_ok.mpr ⟨tx, htx, hfree⟩, rfl⟩, ?_⟩
        exact hsent'.trans hsent
      · have hasks : ¬(28 ≤ n ∧ AsksForHost dev.toNetDevice frame) := fun h =>
          hreq ⟨h.1, h.2.2.2⟩
        rw [if_neg hreq, if_neg hasks]
        obtain ⟨tx', hfree, hsent⟩ := @skbFree_sent
          { st.tx.alloc (ethSkb frame n) with arp := r.1 } _ _ hnew
        exact ⟨_, bind_eq_ok.mpr ⟨tx', hfree, rfl⟩, hsent⟩
    · rw [if_neg htip, if_neg fun h => htip h.2.2.1]
      obtain ⟨tx', hfree, hsent⟩ := skbFree_sent hnew
      exact ⟨_, bind_eq_ok.mpr ⟨tx', hfree, rfl⟩, hsent⟩
  · rw [if_neg fun h => hlocal h.1, if_neg fun h => hlocal h.2.1]
    obtain ⟨tx', hfree, hsent⟩ := skbFree_sent hnew
    exact ⟨_, bind_eq_ok.mpr ⟨tx', hfree, rfl⟩, hsent⟩

/-- **How ARP requests are answered**: as they should be, with the frames that `arp_create` should
make, exactly unless a request for the host ends inside its ARP header. -/
theorem arpAnswers_iff (hu : Unused st.tx.sock) (hn : n ≤ ethFrameLen)
    (harp : etherType frame = 0x0806#16) :
    (AnswersRequest clock now dev st frame n ∧
        ∀ dev type srcIp destIp srcHw destHw targetHw,
          arpFields (arpCreate dev type srcIp destIp srcHw destHw targetHw) =
            givenFields dev type srcIp destIp srcHw destHw targetHw) ↔
      ¬(28 ≤ n ∧ n < 42 ∧ AsksForHost dev.toNetDevice frame) := by
  obtain ⟨st', hok, hsent⟩ := @stackInput_arp clock now n dev st frame hu hn harp
  rw [and_iff_left fun dev type srcIp destIp srcHw destHw targetHw => arpFields_arpCreate ..]
  constructor
  · intro h hshort
    obtain ⟨st2, hok2, -, hnone⟩ := h
    rw [hok] at hok2
    cases hok2
    have hquiet := hnone fun h => absurd h.1 (Nat.not_le.mpr hshort.2.1)
    rw [if_pos ⟨hshort.1, hshort.2.2⟩, hquiet] at hsent
    exact List.cons_ne_nil _ _ (List.append_right_eq_self.mp hsent.symm)
  · intro hshort
    refine ⟨st', hok, fun hreq => ⟨replySkb dev frame, ?_, replySkb_fields⟩, fun hother => ?_⟩
    · rw [hsent, if_pos ⟨(by decide : 28 ≤ 42).trans hreq.1, hreq.2⟩]
    · rw [hsent, if_neg]
      intro h
      refine hshort ⟨h.1, ?_, h.2⟩
      exact Nat.lt_of_not_le fun h42 => hother ⟨h42, h.2⟩

/-- A host whose address ends with a zero, 10.0.1.0 of 10.0.0.0/8. -/
def zeroHost : TxDevice :=
  { txHost with ipHost := 0x0001000A#32, ipNetmask := 0x000000FF#32 }

/-- A request for it; its last byte is a zero too. -/
def requestFrame : Mem := fun o =>
  (host.hwaddr.bytes ++ List.replicate 6 0x02#8 ++ [0x08#8, 0x06#8] ++
    [0#8, 1#8, 0x08#8, 0#8, 6#8, 4#8, 0#8, 1#8] ++ List.replicate 6 0x02#8 ++
    [10#8, 0#8, 0#8, 2#8] ++ List.replicate 6 0#8 ++ [10#8, 0#8, 1#8]).getD o 0#8

/-- A stack in which nothing has happened yet. -/
def quietStack : Stack := ⟨⟨initArpEntry, .initial, []⟩, .initial, .initial⟩

theorem quiet_unused : Unused quietStack.tx.sock := fun _ _ => rfl

theorem arpAnswers_iff_whole :
    AnswersRequest (fun _ => 1000000000) 1000000000 zeroHost quietStack requestFrame 42 :=
  ((arpAnswers_iff quiet_unused (by decide) (by decide)).mpr fun h =>
    absurd h.2.1 (Nat.lt_irrefl 42)).1

/-- Without its last byte the request is answered all the same: the byte read for it is one of
those that round up the buffer. -/
theorem short_request_answered : ¬∀ (clock : Nat → Nat) (now : Nat) (dev : TxDevice) (st : Stack)
    (frame : Mem) (n : Nat), Unused st.tx.sock → n ≤ ethFrameLen → etherType frame = 0x0806#16 →
    AnswersRequest clock now dev st frame n := by
  intro h
  obtain ⟨st2, hok2, -, hnone⟩ := h (fun _ => 1000000000) 1000000000 zeroHost quietStack
    requestFrame 41 quiet_unused (by decide) (by decide)
  obtain ⟨st', hok, hsent⟩ := @stackInput_arp (fun _ => 1000000000) 1000000000 41 zeroHost
    quietStack requestFrame quiet_unused (by decide) (by decide)
  rw [hok] at hok2
  cases hok2
  rw [hnone fun hreq => absurd hreq.1 (by decide), if_pos (by decide)] at hsent
  exact List.cons_ne_nil _ _ (List.append_right_eq_self.mp hsent.symm)

end Answer

end LinuxNet.Sip
