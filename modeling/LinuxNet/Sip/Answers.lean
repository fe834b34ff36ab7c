import LinuxNet.Sip.Echo

/-!
# Which ICMP messages are answered

A message is to be answered if it is an echo request that verifies, to an address that
is neither a broadcast nor a multicast one, and no other. `icmp_input` computes the sum
over the message and does nothing with it: what it hands on depends on the type and the
destination alone (`answered_iff`). The handler table has an entry for each type that
gets as far as it (`icmpInput_table`).

The sum over no bytes in front of that is for buffers that `ip_input` has not marked. It
marks all, and the one that `sip_reassemble` makes anew has a message of type 0
(`ipInput_icmp`).
-/

namespace LinuxNet.Sip

/-! ## The table -/

/-- The handlers in `icmp_pointers`. -/
inductive IcmpHandler where
  | discard
  | unreach
  | redirect
  | timestamp
  | address
  | addressReply
  | echo
  deriving DecidableEq

/-- What a handler does. All but `icmp_echo` are empty. -/
def IcmpHandler.run (dev : NetDevice) (skb : Skbuff) : IcmpHandler → Traced Ev IcmpOutcome
  | .echo => icmpEcho dev skb
  | _ => return .ignored

/-- `icmp_pointers`, by its handlers. -/
def icmpPointers : List IcmpHandler :=
  [.discard, .discard, .discard, .unreach, .unreach, .redirect, .discard, .discard, .echo, .discard,
    .discard, .unreach, .unreach, .timestamp, .discard, .discard, .discard, .address, .addressReply]

theorem icmpPointers_get : ∀ t < 19, (icmpPointers[t]?).isSome = true ∧
    (icmpPointers[t]? = some .echo ↔ t = 8) := by decide

theorem IcmpHandler.run_of_ne {dev : NetDevice} {skb : Skbuff} {h : IcmpHandler} (hne : h ≠ .echo) :
    (h.run dev skb).val = .ignored := by
  cases h with
  | echo => exact absurd rfl hne
  | _ => rfl

section Input

variable {dev : NetDevice} {skb : Skbuff}

/-- A message is dropped in front of the table, or goes by its type. -/
theorem icmpInput_cases (dev : NetDevice) (skb : Skbuff) :
    (icmpInput dev skb).val = .dropped ∨ (skb.mem skb.th).toNat ≤ nrIcmpTypes ∧
      (icmpInput dev skb).val =
        if skb.mem skb.th = 8#8 then (icmpEcho dev skb).val else .ignored := by
  unfold icmpInput
  simp only [Traced.val_bind, Traced.val_ite, Traced.val_pure]
  split
  next => exact .inl rfl
  next =>
    by_cases h18 : (skb.mem skb.th).toNat > nrIcmpTypes
    · exact .inl (if_pos h18)
    · exact .inr ⟨Nat.le_of_not_gt h18, if_neg h18⟩

/-- **The handler table** is read at an entry it has. -/
theorem icmpInput_table (dev : NetDevice) (skb : Skbuff) :
    (icmpInput dev skb).val = .dropped ∨
      ∃ h, icmpPointers[(skb.mem skb.th).toNat]? = some h ∧
        (icmpInput dev skb).val = (h.run dev skb).val := by
  refine (icmpInput_cases dev skb).imp_right fun hcase => ?_
  obtain ⟨h18, hval⟩ := hcase
  obtain ⟨hsome, hecho⟩ := icmpPointers_get _ (Nat.lt_succ_of_le h18)
  obtain ⟨h, hget⟩ := Option.isSome_iff_exists.mp hsome
  refine ⟨h, hget, hval.trans ?_⟩
  rw [hget, Option.some_inj] at hecho
  by_cases h8 : skb.mem skb.th = 8#8
  · rw [if_pos h8, hecho.mpr (congrArg BitVec.toNat h8)]
    rfl
  · rw [if_neg h8, IcmpHandler.run_of_ne fun he => h8 (BitVec.eq_of_toNat_eq (hecho.mp he))]

/-- Neither a broadcast nor a multicast address. -/
def Unicast (dev : NetDevice) (ip : BitVec 32) : Prop :=
  ¬ Broadcast dev ip ∧ ipIsMulticast ip = false

/-- A packet is handed to `ip_output`. -/
def Answered (dev : NetDevice) (skb : Skbuff) : Prop :=
  ∃ reply dest, (icmpInput dev skb).val = .echoed reply dest

theorem icmpEcho_echoed_iff :
    (∃ reply dest, (icmpEcho dev skb).val = .echoed reply dest) ↔
      Unicast dev (ipDaddr skb.mem skb.nh) := by
  rw [icmpEcho_val, Unicast, ← ipIsBroadcast_iff, ← Bool.not_eq_true, ← not_or]
  split
  next h => exact iff_of_false (by rintro ⟨reply, dest, he⟩; cases he) (not_not.mpr h)
  next h => exact iff_of_true ⟨_, _, rfl⟩ h

/-- **What is answered**: of buffers that are marked, or are no echo requests, the echo requests
to one host. -/
theorem answered_iff (h : skb.ipSummed ≠ .none ∨ skb.mem skb.th ≠ 8#8) :
    Answered dev skb ↔ skb.mem skb.th = 8#8 ∧ Unicast dev (ipDaddr skb.mem skb.nh) := by
  rw [Answered, ← icmpEcho_echoed_iff]
  by_cases h8 : skb.mem skb.th = 8#8
  · rw [and_iff_right h8, icmpInput_val (h.resolve_right fun hne => hne h8), h8,
      if_neg (by decide), if_pos rfl]
  · refine iff_of_false ?_ fun hand => h8 hand.1
    rintro ⟨reply, dest, he⟩
    rcases icmpInput_cases dev skb with hval | ⟨-, hval⟩
    · cases hval.symm.trans he
    · rw [if_neg h8] at hval
      cases hval.symm.trans he

end Input

/-! ## What `ip_input` hands on -/

section Reassembled

/-- Marked as summed up, or with a zero where the message begins. -/
def MarkedOrZero (skb : Skbuff) : Prop := skb.ipSummed = .hw ∨ skb.mem skb.tail = 0#8

theorem insertLoop_ipSummed {offset len : Int} (l : List Skbuff) :
    ∀ (prev : List Skbuff) (skb : Skbuff) (head : Bool),
      (insertLoop offset len prev l skb head).2.ipSummed = skb.ipSummed := by
  induction l with
  | nil =>
    intro prev skb head
    rw [insertLoop]
  | cons cur l ih =>
    intro prev skb head
    cases prev with
    | nil =>
      rw [insertLoop]
      split
      next =>
        rw [ih]
        split <;> rfl
      next => exact ih ..
    | cons p ps =>
      rw [insertLoop]
      split
      next =>
        dsimp only
        split <;> rfl
      next => exact ih ..

/-- The whole datagram has nothing behind its header. -/
theorem complete_zero {st st' : ReassState} {prev : Option Nat} {p : Nat} {e : SipReass}
    {skb : Skbuff} (h : complete st prev p e = .ok (st', skb)) : skb.mem skb.tail = 0#8 := by
  unfold complete at h
  cases hl : e.skb with
  | cons _ _ =>
    rw [hl] at h
    cases h
  | nil =>
    rw [hl] at h
    obtain ⟨st1, -, h⟩ := bind_eq_ok.mp h
    dsimp only at h
    split at h
    next => cases h
    next =>
      cases h
      -- the byte at `tail` is behind the header
      rfl

theorem reassembleAt_marked {st st' : ReassState} {prev : Option Nat} {p : Nat} {e : SipReass}
    {skb skb' : Skbuff} (hskb : skb.ipSummed = .hw)
    (h : reassembleAt st prev p e skb = .ok (st', some skb')) : MarkedOrZero skb' := by
  unfold reassembleAt at h
  dsimp only at h
  split at h
  next =>
    obtain ⟨⟨st1, whole⟩, hwhole, h⟩ := bind_eq_ok.mp h
    cases h
    exact .inr (complete_zero hwhole)
  next =>
    cases h
    exact .inl ((insertLoop_ipSummed _ _ _ _).trans hskb)

theorem ipDefrag_marked {now : Nat} {st st' : ReassState} {skb skb' : Skbuff}
    (hskb : skb.ipSummed = .hw) (h : ipDefrag now st skb = .ok (st', some skb')) :
    MarkedOrZero skb' := by
  unfold ipDefrag at h
  split at h
  next =>
    unfold sipReassemble at h
    obtain ⟨⟨st1, prev, found⟩, -, h⟩ := bind_eq_ok.mp h
    cases found with
    | none => exact reassembleAt_marked hskb h
    | some p =>
      obtain ⟨e, -, h⟩ := bind_eq_ok.mp h
      exact reassembleAt_marked hskb h
  next =>
    cases h
    exact .inl hskb

/-- **The packets of `icmp_input`**: they are marked, or their message begins with a zero. -/
theorem ipInput_icmp {now : Nat} {dev : NetDevice} {st st' : ReassState} {p skb : Skbuff}
    (h : (ipInput now dev st p).val = .ok (st', .icmp skb)) :
    skb.ipSummed = .hw ∨ skb.mem skb.th = 0#8 := by
  unfold ipInput at h
  cases hc : (ipChecks dev p).val with
  | false =>
    simp only [Traced.val_bind, hc, if_true] at h
    cases h
  | true =>
    simp only [Traced.val_bind, hc, Bool.true_eq_false, if_false] at h
    cases hd : ipDefrag now st { p with ipSummed := .hw } with
    | error f =>
      rw [hd] at h
      cases h
    | ok r =>
      obtain ⟨st1, whole⟩ := r
      rw [hd] at h
      cases whole with
      | none => cases h
      | some skb' =>
        simp only [Traced.val_bind, ipDispatch_val, Traced.val_pure] at h
        have hmarked : MarkedOrZero skb' := ipDefrag_marked rfl hd
        split at h
        next =>
          cases h
          exact hmarked
        next =>
          split at h
          next => cases h
          next => cases h

end Reassembled

/-! ## The theorem -/

/-- A message is answered exactly if it is an echo request that verifies, to one host; and the
handler table is read at an entry it has, if at all. -/
structure AnswersExactly (dev : NetDevice) (skb : Skbuff) (len : Nat) : Prop where
  answered : Answered dev skb ↔ skb.mem skb.th = 8#8 ∧ Verifies skb.mem skb.th len ∧
    Unicast dev (ipDaddr skb.mem skb.nh)
  table : (icmpInput dev skb).val = .dropped ∨
    ∃ h, icmpPointers[(skb.mem skb.th).toNat]? = some h ∧
      (icmpInput dev skb).val = (h.run dev skb).val

/-- **Answers.** For every message that `ip_input` passes on, and however long it is, the right
ones are answered if and only if it is no corrupted echo request to one host. -/
theorem answersExactly_iff {now : Nat} {dev : NetDevice} {st st' : ReassState} {p skb : Skbuff}
    {len : Nat} (h : (ipInput now dev st p).val = .ok (st', .icmp skb)) :
    AnswersExactly dev skb len ↔
      ¬ (skb.mem skb.th = 8#8 ∧ Unicast dev (ipDaddr skb.mem skb.nh) ∧
        ¬ Verifies skb.mem skb.th len) := by
  have hmarked : skb.ipSummed ≠ .none ∨ skb.mem skb.th ≠ 8#8 := by
    rcases ipInput_icmp h with hw | hz
    · exact .inl (by rw [hw]; exact Summed.noConfusion)
    · exact .inr (by rw [hz]; decide)
  have hiff := @answered_iff dev skb hmarked
  constructor
  · rintro hexact ⟨h8, huni, hbad⟩
    exact hbad (hexact.answered.mp (hiff.mpr ⟨h8, huni⟩)).2.1
  · intro hno
    refine ⟨hiff.trans ⟨fun hand => ?_, fun hand => ⟨hand.1, hand.2.2⟩⟩, icmpInput_table dev skb⟩
    obtain ⟨h8, huni⟩ := hand
    exact ⟨h8, not_not.mp fun hbad => hno ⟨h8, huni, hbad⟩, huni⟩

/-- A packet that passes and is no fragment goes by its protocol. -/
theorem ipInput_whole {now : Nat} {dev : NetDevice} {st : ReassState} {p : Skbuff}
    (hc : (ipChecks dev p).val = true) (hfrag : isFragment p = false) :
    (ipInput now dev st p).val =
      .ok (st, (ipDispatch (ipProtocol p.mem p.nh) { p with ipSummed := .hw }).val) := by
  have hd : ipDefrag now st { p with ipSummed := .hw } =
      .ok (st, some { p with ipSummed := .hw }) := by
    rw [ipDefrag, show isFragment { p with ipSummed := .hw } = false from hfrag]
    rfl
  unfold ipInput
  simp only [Traced.val_bind, hc, Bool.true_eq_false, if_false, hd]
  rfl

/-- The packet with an echo request of this checksum and identifier. -/
def echoPacket (checksum ident : BitVec 16) : Skbuff :=
  ipSkb (icmpFrame ([8#8, 0#8] ++ bytesOf16 checksum ++ bytesOf16 ident)) 42

theorem answersExactly_request : AnswersExactly host (echoRequest 0xFEF7#16 0x0100#16) 8 := by
  have hpassed : (ipInput 0 host .initial (echoPacket 0xFEF7#16 0x0100#16)).val =
      .ok (.initial, .icmp (echoRequest 0xFEF7#16 0x0100#16)) :=
    ipInput_whole (by decide) (by decide)
  exact (answersExactly_iff hpassed).mpr fun h => h.2.2 (by decide)

/-- An echo request with a wrong checksum is answered. -/
theorem corrupted_answered :
    (ipInput 0 host .initial (echoPacket 0#16 0x0100#16)).val =
        .ok (.initial, .icmp (echoRequest 0#16 0x0100#16)) ∧
      ¬ Verifies (echoRequest 0#16 0x0100#16).mem 34 8 ∧
      Answered host (echoRequest 0#16 0x0100#16) ∧
      ¬ AnswersExactly host (echoRequest 0#16 0x0100#16) 8 := by
  have hbad : ¬ Verifies (echoRequest 0#16 0x0100#16).mem 34 8 := by decide
  have hanswered : Answered host (echoRequest 0#16 0x0100#16) := by
    refine (answered_iff (.inl (by decide))).mpr ⟨by decide, ?_, by decide⟩
    exact (ipIsBroadcast_iff _ _).not.mp (by decide)
  exact ⟨ipInput_whole (by decide) (by decide), hbad, hanswered, fun h =>
    hbad (h.answered.mp hanswered).2.1⟩

end LinuxNet.Sip
