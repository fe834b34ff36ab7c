import LinuxNet.Sip.Accept

/-!
# The receive path and the end of the frame

Which frames does the receive path handle without leaving them? `StaysInside`
asks for three things: every byte read through `phy`, `nh` and `th` lies in the
frame, the unsigned counter `len` is always what is left of it, and a frame too
short for a header it announces is dropped.

Nothing in the code compares a length with `n` before `skb_put`: only frames as
long as all the headers they announce are safe. In an ICMP message there is one
more condition, because the length `icmp_input` passes to `cksum` is a difference
of 16 bits, and `ip_input` has made sure that it is not positive.
`staysInside_iff` gives the exact condition.
-/

namespace LinuxNet.Sip

/-- An event stays inside a frame of `n` bytes: a byte of it is read, or `len`
is left as what `tail` has not passed. -/
def Ev.Within (n : Nat) : Ev → Prop
  | .read o => o < n
  | .put len tail => (len.toNat : Int) = n - tail

/-- Everything a computation does to a frame of `n` bytes stays inside. -/
abbrev Inside {α : Type} (n : Nat) (x : Traced Ev α) : Prop := Traced.All (Ev.Within n) x

/-! ## The single accesses -/

section Accesses

variable {n : Nat} {m : Mem} {o : Nat}

@[simp] theorem inside_peek8 : Inside n (peek8 m o) ↔ o < n := List.forall_mem_singleton

@[simp] theorem inside_peek16 : Inside n (peek16 m o) ↔ o + 1 < n := by
  constructor
  · intro h
    exact h (.read (o + 1)) (by simp)
  · intro h e he
    simp only [List.map_cons, List.map_nil, List.mem_cons, List.not_mem_nil, or_false] at he
    rcases he with rfl | rfl
    · exact Nat.lt_of_succ_lt h
    · exact h

/-- Reading a block stays inside exactly if the block does. -/
theorem inside_range {α : Type} {x : Traced Ev α} {len : Nat}
    (hlog : x.log = (List.range' o len).map .read) : Inside n x ↔ len = 0 ∨ o + len ≤ n := by
  unfold Inside Traced.All
  rw [hlog, List.forall_mem_map]
  constructor
  · intro h
    by_cases hz : len = 0
    · exact .inl hz
    · have hlast : o + (len - 1) < n := h (o + (len - 1)) (by
        rw [List.mem_range'_1]
        omega)
      exact .inr (by omega)
  · intro h i hi
    rw [List.mem_range'_1] at hi
    have : i < n := by omega
    exact this

@[simp] theorem inside_peek32 : Inside n (peek32 m o) ↔ o + 3 < n := by
  rw [inside_range (show (peek32 m o).log = (List.range' o 4).map .read from rfl)]
  omega

@[simp] theorem inside_peekMac : Inside n (peekMac m o) ↔ o + 5 < n := by
  rw [inside_range (show (peekMac m o).log = (List.range' o 6).map .read from rfl)]
  omega

/-- `samemac` may stop early; it reads no further than the address it compares. -/
theorem samemac_inside (hs : List Byte) :
    ∀ {o : Nat}, o + hs.length ≤ n → Inside n (samemac m o hs) := by
  induction hs with
  | nil =>
    intro o _
    exact Traced.all_pure _
  | cons h hs ih =>
    intro o hle
    rw [List.length_cons] at hle
    unfold samemac
    rw [Inside, Traced.all_bind, Traced.all_ite]
    exact ⟨inside_peek8.mpr (by omega), fun _ => ih (by omega), fun _ => Traced.all_pure _⟩

theorem cksumLoop_log (m : Mem) : ∀ (len o sum : Nat),
    (cksumLoop m len o sum).log = (List.range' o len).map .read
  | 0, _, _ => rfl
  | 1, _, _ => rfl
  | len + 2, o, sum => by
    change Ev.read o :: Ev.read (o + 1) :: (cksumLoop m len (o + 2) _).log = _
    rw [cksumLoop_log m len (o + 2)]
    rfl

/-- `cksum` reads the bytes it is given the length of. -/
theorem cksum_log (m : Mem) (o : Nat) (len : BitVec 16) :
    (cksum m o len).log = (List.range' o len.toNat).map .read := by
  change (cksumLoop m len.toNat o 0).log ++ [] = _
  rw [List.append_nil, cksumLoop_log]

end Accesses

/-! ## Taking bytes off the buffer -/

/-- The counter of a buffer is what its `tail` has left of `n` bytes. -/
structure Consumed (n : Nat) (skb : Skbuff) : Prop where
  tail_le : skb.tail ≤ n
  len_eq : skb.len = BitVec.ofNat 32 (n - skb.tail)

/-- `skb_put` stays inside exactly if there are as many bytes left. -/
theorem skbPut_inside {n k : Nat} {skb : Skbuff} (hn : n < 2 ^ 31) (hk : k < 2 ^ 31)
    (h : Consumed n skb) : Inside n (skbPut skb k) ↔ skb.tail + k ≤ n := by
  have hlen : (skb.len - BitVec.ofNat 32 k).toNat =
      (2 ^ 32 - k + (n - skb.tail)) % 2 ^ 32 := by
    rw [h.len_eq, BitVec.toNat_sub, BitVec.toNat_ofNat, BitVec.toNat_ofNat,
      Nat.mod_eq_of_lt (by omega : k < 2 ^ 32), Nat.mod_eq_of_lt (by omega : n - skb.tail < 2 ^ 32)]
  have htail := h.tail_le
  refine List.forall_mem_singleton.trans ?_
  change ((skb.len - BitVec.ofNat 32 k).toNat : Int) = n - (skb.tail + k : Nat) ↔ _
  rw [hlen]
  omega

/-- What `skb_put` leaves is consumed as far as it says. -/
theorem Consumed.put {n k : Nat} {skb : Skbuff} (h : Consumed n skb) (hle : skb.tail + k ≤ n) :
    Consumed n (skbPut skb k).val.2 := by
  refine ⟨hle, ?_⟩
  change skb.len - BitVec.ofNat 32 k = BitVec.ofNat 32 (n - (skb.tail + k))
  rw [h.len_eq, ← Nat.sub_sub]
  apply BitVec.eq_of_toNat_eq
  rw [BitVec.toNat_sub]
  simp only [BitVec.toNat_ofNat]
  omega

/-! ## ICMP and UDP -/

section Transport

variable {n : Nat} {dev : NetDevice} {skb : Skbuff}

theorem icmpEcho_inside (hnh : skb.nh + 20 ≤ n) (hth : skb.th + 8 ≤ n) :
    Inside n (icmpEcho dev skb) := by
  unfold icmpEcho
  simp only [Inside, Traced.all_bind, Traced.all_ite, Traced.all_pure, inside_peek32, inside_peek16]
  exact ⟨by omega, fun _ => trivial, fun _ => ⟨by omega, by omega, trivial⟩⟩

/-- The length `icmp_input` passes to `cksum`. -/
def icmpLen (skb : Skbuff) : BitVec 16 :=
  ntohs (skb.mem.u16 (skb.nh + 2)) - BitVec.ofNat 16 (ipIhl skb.mem skb.nh * 4)

/-- With its headers in the frame, `icmp_input` stays inside exactly if the bytes
it sums up do. -/
theorem icmpInput_inside (hsum : skb.ipSummed ≠ .none) (hnh : skb.nh + 20 ≤ n)
    (hth : skb.th + 8 ≤ n) :
    Inside n (icmpInput dev skb) ↔ (icmpLen skb).toNat = 0 ∨ skb.th + (icmpLen skb).toNat ≤ n := by
  have hcksum := inside_range (n := n) (cksum_log skb.mem skb.th (icmpLen skb))
  have hecho : Inside n (icmpEcho dev skb) := icmpEcho_inside hnh hth
  unfold icmpInput icmpUnsummed
  rw [if_neg hsum, ← hcksum]
  simp only [Inside, Traced.all_bind, Traced.all_ite, Traced.all_pure]
  constructor
  · intro h
    obtain ⟨_, _, h⟩ := h
    exact (h Bool.false_ne_true).2.2.1
  · intro h
    exact ⟨trivial, fun h => absurd h Bool.false_ne_true, fun _ =>
      ⟨inside_peek16.mpr (by omega), inside_peek8.mpr (by omega), h,
        inside_peek8.mpr (by omega), fun _ => trivial, fun _ => ⟨fun _ => hecho, fun _ => trivial⟩⟩⟩

theorem udpPort_inside (hth : skb.th + 8 ≤ n) : Inside n (udpPort skb) := by
  unfold udpPort
  simp only [Inside, Traced.all_bind, Traced.all_pure, inside_peek16]
  exact ⟨by omega, trivial⟩

end Transport

/-! ## IP -/

/-- The packet passes the checks of `ip_input`. -/
def Passes (dev : NetDevice) (frame : Mem) (n : Nat) : Prop :=
  Basics dev frame n ∧ totLen frame ≤ hdrLen frame ∧ Verifies frame ethHlen iphdrLen

/-- From the dispatch on: the packet that has passed goes to its handler. -/
def deliver (dev : NetDevice) (frame : Mem) (n : Nat) : Traced Ev Received := do
  let handed ← ipDispatch (ipProtocol frame ethHlen) (checkedSkb frame n)
  transport dev handed

section Ip

variable {now n : Nat} {dev : NetDevice} {frame : Mem}

theorem ipChecks_inside (h34 : 34 ≤ n) : Inside n (ipChecks dev (ipSkb frame n)) := by
  have hsum : Inside n (sipChksum frame ethHlen iphdrLen) :=
    (inside_range (sipChksum_log frame ethHlen iphdrLen)).mpr (.inr h34)
  unfold ipChecks
  simp only [Inside, Traced.all_bind, Traced.all_ite, Traced.all_pure]
  refine ⟨inside_peek8.mpr ?_, fun _ => trivial, fun _ => ⟨fun _ => trivial, fun _ =>
    ⟨inside_peek16.mpr ?_, fun _ => trivial, fun _ => ⟨fun _ => trivial, fun _ =>
      ⟨hsum, fun _ => trivial, fun _ =>
        ⟨inside_peek32.mpr ?_, inside_peek32.mpr ?_, trivial⟩⟩⟩⟩⟩⟩
  all_goals
    have hnh : (ipSkb frame n).nh = 14 := rfl
    omega

/-- The counter of the buffer `ip_input` gets, and of the one that has passed. -/
theorem checkedSkb_consumed (h34 : 34 ≤ n) (hn : n < 2 ^ 31) : Consumed n (checkedSkb frame n) := by
  refine ⟨h34, ?_⟩
  change BitVec.ofNat 32 n - 14#32 - 20#32 = BitVec.ofNat 32 (n - 34)
  apply BitVec.eq_of_toNat_eq
  simp only [BitVec.toNat_sub, BitVec.toNat_ofNat]
  omega

theorem hdrLen_le (frame : Mem) : hdrLen frame ≤ 60 := by
  have : ipIhl frame ethHlen < 16 := Nat.mod_lt _ (by decide)
  unfold hdrLen
  omega

/-- With no more in the packet than its header, the difference `icmp_input` computes is a
small number only if it is zero. -/
theorem icmpLen_fits (hle : totLen frame ≤ hdrLen frame) (hn : n ≤ ethFrameLen) :
    (icmpLen (transportSkb (checkedSkb frame n))).toNat = 0 ∨
      34 + (icmpLen (transportSkb (checkedSkb frame n))).toNat ≤ n ↔
    totLen frame = hdrLen frame := by
  have hhdr := hdrLen_le frame
  have hlen : (icmpLen (transportSkb (checkedSkb frame n))).toNat =
      (65536 - hdrLen frame + totLen frame) % 65536 := by
    change (ntohs (frame.u16 (ethHlen + 2)) - BitVec.ofNat 16 (hdrLen frame)).toNat = _
    rw [BitVec.toNat_sub, BitVec.toNat_ofNat,
      Nat.mod_eq_of_lt (show hdrLen frame < 2 ^ 16 by omega)]
    rfl
  rw [hlen]
  unfold ethFrameLen at hn
  omega

/-- **The transport handlers**: with the fixed headers in the frame, a packet that
has passed is delivered inside the frame exactly if it is no ICMP and no UDP
packet, or eight more bytes are there and, for ICMP, there are no bytes to sum up. -/
theorem deliver_inside (h34 : 34 ≤ n) (hn : n ≤ ethFrameLen) (hle : totLen frame ≤ hdrLen frame) :
    Inside n (deliver dev frame n) ↔
      (ipProtocol frame ethHlen = 1#8 → 42 ≤ n ∧ totLen frame = hdrLen frame) ∧
      (ipProtocol frame ethHlen = 17#8 → 42 ≤ n) := by
  have hn' : n < 2 ^ 31 := Nat.lt_of_le_of_lt hn (by decide)
  have hput : Inside n (skbPut (checkedSkb frame n) 8) ↔ 42 ≤ n :=
    skbPut_inside hn' (by decide) (checkedSkb_consumed h34 hn')
  -- behind its eight bytes only ICMP reads on, in `cksum`
  have hicmp : 42 ≤ n → (Inside n (icmpInput dev (transportSkb (checkedSkb frame n))) ↔
      totLen frame = hdrLen frame) := fun h42 => by
    rw [← icmpLen_fits (n := n) hle hn]
    exact icmpInput_inside (fun h => by cases h) h34 h42
  have hudp : 42 ≤ n → Inside n (udpPort (transportSkb (checkedSkb frame n))) :=
    fun h42 => udpPort_inside h42
  unfold deliver ipDispatch
  by_cases h1 : ipProtocol frame ethHlen = 1#8
  · have h17 : ipProtocol frame ethHlen ≠ 17#8 := by rw [h1]; decide
    rw [if_pos h1]
    change Inside n (do
      let _ ← skbPut (checkedSkb frame n) 8
      let r ← icmpInput dev (transportSkb (checkedSkb frame n))
      return Received.icmp r) ↔ _
    simp only [Inside, Traced.all_bind, Traced.all_pure, and_true]
    constructor
    · intro h
      obtain ⟨hp, hi⟩ := h
      exact ⟨fun _ => ⟨hput.mp hp, (hicmp (hput.mp hp)).mp hi⟩, fun h => absurd h h17⟩
    · intro h
      obtain ⟨h, _⟩ := h
      exact ⟨hput.mpr (h h1).1, (hicmp (h h1).1).mpr (h h1).2⟩
  · rw [if_neg h1]
    by_cases h17 : ipProtocol frame ethHlen = 17#8
    · rw [if_pos h17]
      change Inside n (do
        let _ ← skbPut (checkedSkb frame n) 8
        let port ← udpPort (transportSkb (checkedSkb frame n))
        return Received.udp port (transportSkb (checkedSkb frame n))) ↔ _
      simp only [Inside, Traced.all_bind, Traced.all_pure, and_true]
      constructor
      · intro h
        obtain ⟨hp, _⟩ := h
        exact ⟨fun h => absurd h h1, fun _ => hput.mp hp⟩
      · intro h
        obtain ⟨_, h⟩ := h
        exact ⟨hput.mpr (h h17), hudp (h h17)⟩
    · rw [if_neg h17]
      exact iff_of_true (Traced.all_pure _) ⟨fun h => absurd h h1, fun h => absurd h h17⟩

/-- A packet that has passed is dropped exactly if it is of another protocol. -/
theorem deliver_val :
    (deliver dev frame n).val = .dropped ↔
      ¬ (ipProtocol frame ethHlen = 1#8 ∨ ipProtocol frame ethHlen = 17#8) := by
  unfold deliver ipDispatch
  by_cases h1 : ipProtocol frame ethHlen = 1#8
  · rw [if_pos h1]
    exact iff_of_false nofun fun h => h (.inl h1)
  · rw [if_neg h1]
    by_cases h17 : ipProtocol frame ethHlen = 17#8
    · rw [if_pos h17]
      exact iff_of_false nofun fun h => h (.inr h17)
    · rw [if_neg h17]
      exact iff_of_true rfl fun h => h.elim h1 h17

/-- The buffer with the Ethernet header taken off. -/
def ethSkb (frame : Mem) (n : Nat) : Skbuff := (skbPut (rxSkb frame n) ethHlen).val.2

theorem ethSkb_consumed (h14 : 14 ≤ n) : Consumed n (ethSkb frame n) := by
  have h0 : Consumed n (rxSkb frame n) := ⟨Nat.zero_le _, rfl⟩
  exact h0.put (by rwa [show (rxSkb frame n).tail = 0 from rfl, Nat.zero_add])

/-- `arp_add_entry` reads no more of the frame than the address it is given. -/
theorem arpAddEntry_inside {t : ArpTable} {ip : BitVec 32} {status : ArpStatus} {o : Nat}
    (ho : o + 5 < n) : Inside n (arpAddEntry now t ip (peekMac frame o) status) := by
  have hmac : Inside n (peekMac frame o) := inside_peekMac.mpr ho
  unfold arpAddEntry
  rw [Inside, Traced.all_bind]
  constructor
  · unfold updateArpEntry
    dsimp only
    cases (arpFindEntry now ip t).2 with
    | none => exact Traced.all_pure _
    | some i => exact (Traced.all_bind _ _).mpr ⟨hmac, Traced.all_pure _⟩
  · cases arpSlot _ with
    | none => exact Traced.all_pure _
    | some i => exact (Traced.all_bind _ _).mpr ⟨hmac, Traced.all_pure _⟩

/-- The `ETH_P_IP` case, from the checks on. -/
def inputPacket (now : Nat) (dev : NetDevice) (arp : ArpTable) (st : ReassState) (frame : Mem)
    (n : Nat) : Traced Ev (Except Fault (RxState × Received)) := do
  let r ← ipInput now dev st (ipSkb frame n)
  match r with
  | .error f => return .error f
  | .ok (reass, handed) => do
    let received ← transport dev handed
    return .ok (⟨arp, reass⟩, received)

/-- `ip_input`: a drop, a fault in `sip_reassemble`, or the dispatch by protocol; no entry
of the reassembly queue gets a buffer. -/
theorem ipInput_cases (dev : NetDevice) (hnow : 258 < now) (st : ReassState) (frame : Mem)
    (n : Nat) :
    ((ipChecks dev (ipSkb frame n)).val = false ∧
      (ipInput now dev st (ipSkb frame n)).val = .ok (st, .dropped)) ∨
    ((ipChecks dev (ipSkb frame n)).val = true ∧ Stuck st (ipSkb frame n) ∧
      ∃ f, (ipInput now dev st (ipSkb frame n)).val = .error f) ∨
    ((ipChecks dev (ipSkb frame n)).val = true ∧ ¬ Stuck st (ipSkb frame n) ∧
      ∃ st', (∀ q, (st'.held q).length ≤ (st.held q).length) ∧
        (ipInput now dev st (ipSkb frame n)).val =
          .ok (st', (ipDispatch (ipProtocol frame ethHlen) (checkedSkb frame n)).val)) := by
  unfold ipInput
  cases hc : (ipChecks dev (ipSkb frame n)).val with
  | false =>
    refine .inl ⟨rfl, ?_⟩
    simp only [Traced.val_bind, hc, if_true]
    rfl
  | true =>
    -- `sip_reassemble` returns what it was given, or does not return
    by_cases hs : Stuck st (ipSkb frame n)
    · obtain ⟨f, hf⟩ := ipDefrag_stuck hnow (show Stuck st (checkedSkb frame n) from hs)
      unfold checkedSkb at hf
      refine .inr (.inl ⟨rfl, hs, f, ?_⟩)
      simp only [Traced.val_bind, hc, Bool.true_eq_false, if_false, hf]
      rfl
    · obtain ⟨st', hheld, hf⟩ := ipDefrag_free now (show ¬ Stuck st (checkedSkb frame n) from hs)
      unfold checkedSkb at hf
      refine .inr (.inr ⟨rfl, hs, st', hheld, ?_⟩)
      simp only [Traced.val_bind, hc, Bool.true_eq_false, if_false, hf]
      rfl

/-- The dispatch by protocol. -/
theorem ipDispatch_val (protocol : Byte) (skb : Skbuff) :
    (ipDispatch protocol skb).val =
      if protocol = 1#8 then .icmp (transportSkb skb)
      else if protocol = 17#8 then .udp (transportSkb skb)
      else .ignored := by
  unfold ipDispatch
  simp only [Traced.val_ite]
  rfl

/-- With the fixed header in the frame, only the dispatch can leave it. -/
theorem ipInput_inside {st : ReassState} (hnow : 258 < now) (h34 : 34 ≤ n) :
    Inside n (ipInput now dev st (ipSkb frame n)) ↔
      ((ipChecks dev (ipSkb frame n)).val = true → ¬ Stuck st (ipSkb frame n) →
        Inside n (ipDispatch (ipProtocol frame ethHlen) (checkedSkb frame n))) := by
  have hinside : Inside n (ipChecks dev (ipSkb frame n)) := ipChecks_inside h34
  -- the fields read behind the checks lie in the fixed header
  have h20 : Inside n (peek16 frame (ethHlen + 6)) :=
    inside_peek16.mpr (Nat.lt_of_lt_of_le (by decide) h34)
  have h23 : Inside n (peek8 frame (ethHlen + 9)) :=
    inside_peek8.mpr (Nat.lt_of_lt_of_le (by decide) h34)
  unfold ipInput
  rw [Inside, Traced.all_bind, and_iff_right hinside]
  cases hc : (ipChecks dev (ipSkb frame n)).val with
  | false => exact iff_of_true (Traced.all_pure _) fun h => absurd h Bool.false_ne_true
  | true =>
    rw [if_neg Bool.false_ne_true.symm, Traced.all_bind, forall_prop_of_true rfl]
    refine (and_iff_right h20).trans ?_
    by_cases hs : Stuck st (ipSkb frame n)
    · obtain ⟨f, hf⟩ := ipDefrag_stuck hnow (show Stuck st (checkedSkb frame n) from hs)
      unfold checkedSkb at hf
      rw [hf]
      exact iff_of_true (Traced.all_pure _) fun h => absurd hs h
    · obtain ⟨st', -, hf⟩ := ipDefrag_free now (show ¬ Stuck st (checkedSkb frame n) from hs)
      unfold checkedSkb at hf
      rw [hf, forall_prop_of_true hs]
      refine (Traced.all_bind _ _).trans ((and_iff_right h23).trans ?_)
      exact (Traced.all_bind _ _).trans (and_iff_left (Traced.all_pure _))

/-- What the checks, the reassembly and the handlers make of a packet. -/
theorem inputPacket_spec (dev : NetDevice) (frame : Mem) (arp : ArpTable) (st : ReassState)
    (hnow : 258 < now) (h34 : 34 ≤ n) (hn : n ≤ ethFrameLen) :
    (¬ Passes dev frame n ∧ Inside n (inputPacket now dev arp st frame n) ∧
      (inputPacket now dev arp st frame n).val = .ok (⟨arp, st⟩, .dropped)) ∨
    (Passes dev frame n ∧ Stuck st (ipSkb frame n) ∧
      Inside n (inputPacket now dev arp st frame n) ∧
      ∃ f, (inputPacket now dev arp st frame n).val = .error f) ∨
    (Passes dev frame n ∧ ¬ Stuck st (ipSkb frame n) ∧
      (Inside n (inputPacket now dev arp st frame n) ↔ Inside n (deliver dev frame n)) ∧
      ∃ st', (inputPacket now dev arp st frame n).val =
        .ok (⟨arp, st'⟩, (deliver dev frame n).val)) := by
  have hchecks : (ipChecks dev (ipSkb frame n)).val = true ↔ Passes dev frame n :=
    ipChecks_iff (Nat.le_trans (by decide) h34) (Nat.lt_of_le_of_lt hn (by decide))
  unfold inputPacket
  rw [← hchecks, Inside, Traced.all_bind, Traced.val_bind]
  have hinput := @ipInput_inside now n dev frame st hnow h34
  rcases ipInput_cases dev hnow st frame n with
    ⟨hc, hval⟩ | ⟨hc, hs, f, hval⟩ | ⟨hc, hs, st', -, hval⟩
  · rw [hval]
    refine .inl ⟨by rw [hc]; exact Bool.false_ne_true, ⟨hinput.mpr fun h => ?_, ?_⟩, rfl⟩
    · rw [hc] at h
      cases h
    · exact Traced.all_pure _
  · rw [hval]
    exact .inr (.inl ⟨hc, hs, ⟨hinput.mpr fun _ h => absurd hs h, Traced.all_pure _⟩, f, rfl⟩)
  · rw [hval]
    refine .inr (.inr ⟨hc, hs, ?_, st', rfl⟩)
    -- what is left is the dispatch and then the handler
    have hdispatch : Inside n (ipInput now dev st (ipSkb frame n)) ↔
        Inside n (ipDispatch (ipProtocol frame ethHlen) (checkedSkb frame n)) :=
      hinput.trans ⟨fun h => h hc hs, fun h _ _ => h⟩
    refine (and_congr hdispatch ?_).trans (Traced.all_bind _ _).symm
    exact (Traced.all_bind _ _).trans (and_iff_left (Traced.all_pure _))

/-- The ARP table after an IP packet: its source address has been entered. -/
def ipArp (now : Nat) (t : ArpTable) (frame : Mem) : Traced Ev ArpTable :=
  arpAddEntry now t (ipSaddr frame ethHlen) (peekMac frame 6) .established

/-- The `ETH_P_IP` case: the fixed header has to be there, and the rest is up to
the packet. -/
theorem inputIp_inside {st : RxState} (h14 : 14 ≤ n) (hn : n ≤ ethFrameLen) :
    Inside n (inputIp now dev st (ethSkb frame n)) ↔
      34 ≤ n ∧ Inside n (inputPacket now dev (ipArp now st.arp frame).val st.reass frame n) := by
  have hn' : n < 2 ^ 31 := Nat.lt_of_le_of_lt hn (by decide)
  have hput : Inside n (skbPut (ethSkb frame n) iphdrLen) ↔ 34 ≤ n :=
    skbPut_inside hn' (by decide) (ethSkb_consumed h14)
  have hinput : Inside n (inputIp now dev st (ethSkb frame n)) ↔
      Inside n (skbPut (ethSkb frame n) iphdrLen) ∧ Inside n (peek32 frame (ethHlen + 12)) ∧
      Inside n (ipArp now st.arp frame) ∧
      Inside n (inputPacket now dev (ipArp now st.arp frame).val st.reass frame n) := by
    unfold inputIp
    rw [Inside, Traced.all_bind, Traced.all_bind, Traced.all_bind]
    exact Iff.rfl
  rw [hinput, hput, inside_peek32]
  constructor
  · intro h
    obtain ⟨h34, _, _, hp⟩ := h
    exact ⟨h34, hp⟩
  · intro h
    obtain ⟨h34, hp⟩ := h
    exact ⟨h34, Nat.lt_of_lt_of_le (by decide) h34, arpAddEntry_inside (by omega), hp⟩

end Ip

/-! ## ARP -/

section Arp

variable {now n : Nat} {dev : NetDevice} {frame : Mem}

/-- The buffer `arp_input` gets. -/
def arpSkb (frame : Mem) (n : Nat) : Skbuff :=
  { (skbPut (ethSkb frame n) 28).val.2 with nh := ethHlen }

theorem arpInput_inside {t : ArpTable} (h42 : 42 ≤ n) :
    Inside n (arpInput now dev t (arpSkb frame n)) := by
  have hown : ∀ ip, Inside n (arpOwn now dev t ip) := fun ip => by
    unfold arpOwn updateArpEntry
    rw [Inside, Traced.all_ite]
    refine ⟨fun _ => (Traced.all_bind _ _).mpr ⟨?_, Traced.all_pure _⟩, fun _ => Traced.all_pure _⟩
    dsimp only
    cases (arpFindEntry now ip t).2 with
    | none => exact Traced.all_pure _
    | some i => exact Traced.all_pure _
  have hadd : ∀ t' ip, Inside n (arpAddEntry now t' ip
      (peekMac (arpSkb frame n).mem ((arpSkb frame n).phy + 6)) .established) :=
    fun t' ip => arpAddEntry_inside (show 0 + 6 + 5 < n by omega)
  have hnh : (arpSkb frame n).nh = 14 := rfl
  unfold arpInput
  simp only [Inside, Traced.all_bind, Traced.all_ite, Traced.all_pure, inside_peek32,
    inside_peek16, hnh]
  exact ⟨fun _ => trivial, fun _ => ⟨by omega, hown _, by omega,
    fun _ => ⟨by omega, hadd _ _, trivial⟩,
    fun _ => ⟨fun _ => ⟨by omega, hadd _ _, trivial⟩, fun _ => trivial⟩⟩⟩

/-- The `ETH_P_ARP` case: all of the packet has to be there. -/
theorem inputArp_inside {st : RxState} (h14 : 14 ≤ n) (hn : n ≤ ethFrameLen) :
    Inside n (inputArp now dev st (ethSkb frame n)) ↔ 42 ≤ n := by
  have hn' : n < 2 ^ 31 := Nat.lt_of_le_of_lt hn (by decide)
  have hput : Inside n (skbPut (ethSkb frame n) 28) ↔ 42 ≤ n :=
    skbPut_inside hn' (by decide) (ethSkb_consumed h14)
  have hinput : Inside n (inputArp now dev st (ethSkb frame n)) ↔
      Inside n (skbPut (ethSkb frame n) 28) ∧ Inside n (peek32 frame (ethHlen + 24)) ∧
      (frame.u32 (ethHlen + 24) = dev.ipHost →
        Inside n (arpInput now dev st.arp (arpSkb frame n))) := by
    unfold inputArp
    rw [Inside, Traced.all_bind, Traced.all_bind, Traced.all_ite, Traced.all_bind]
    simp only [Traced.all_pure, and_true, implies_true]
    exact Iff.rfl
  rw [hinput, hput, inside_peek32]
  exact ⟨fun h => h.1, fun h42 => ⟨h42, Nat.lt_of_lt_of_le (by decide) h42, fun _ =>
    arpInput_inside h42⟩⟩

end Arp

/-! ## The frame -/

/-- The frame is for this host or for all. -/
def IsLocal (dev : NetDevice) (frame : Mem) : Prop := (forUs dev frame).val = true

instance (dev : NetDevice) (frame : Mem) : Decidable (IsLocal dev frame) := by
  unfold IsLocal; infer_instance

/-- `htons(skb->phy.ethh->h_proto)`. -/
def etherType (frame : Mem) : BitVec 16 := htons (frame.u16 12)

section Frame

variable {now n : Nat} {dev : NetDevice} {st : RxState} {frame : Mem}

/-- **The link layer**: the Ethernet header has to be there, and the rest is up to
the case of the type. -/
theorem input_inside (hn : n ≤ ethFrameLen) :
    Inside n (input now dev st frame n) ↔ 14 ≤ n ∧ (IsLocal dev frame →
      (etherType frame = 0x0800#16 → Inside n (inputIp now dev st (ethSkb frame n))) ∧
      (etherType frame = 0x0806#16 → Inside n (inputArp now dev st (ethSkb frame n)))) := by
  have hn' : n < 2 ^ 31 := Nat.lt_of_le_of_lt hn (by decide)
  have hput : Inside n (skbPut (rxSkb frame n) ethHlen) ↔ 14 ≤ n := by
    have hc : Consumed n (rxSkb frame n) := ⟨Nat.zero_le _, rfl⟩
    exact (skbPut_inside hn' (by decide) hc).trans (by
      rw [show (rxSkb frame n).tail = 0 from rfl, Nat.zero_add])
  have hinput : Inside n (input now dev st frame n) ↔
      Inside n (skbPut (rxSkb frame n) ethHlen) ∧ Inside n (forUs dev frame) ∧
      (IsLocal dev frame → Inside n (peek16 frame 12) ∧
        (etherType frame = 0x0800#16 → Inside n (inputIp now dev st (ethSkb frame n))) ∧
        (¬ etherType frame = 0x0800#16 → etherType frame = 0x0806#16 →
          Inside n (inputArp now dev st (ethSkb frame n)))) := by
    unfold input
    rw [Inside, Traced.all_bind, Traced.all_bind, Traced.all_ite, Traced.all_bind,
      Traced.all_ite, Traced.all_ite]
    simp only [Traced.all_pure, implies_true, and_true]
    exact Iff.rfl
  have hus : 14 ≤ n → Inside n (forUs dev frame) := fun h14 => by
    have hmac : ∀ mac : Mac, Inside n (samemac frame 0 mac.bytes) := fun mac =>
      samemac_inside mac.bytes (by rw [mac.length]; omega)
    unfold forUs
    rw [Inside, Traced.all_bind, Traced.all_ite]
    exact ⟨hmac _, fun _ => Traced.all_pure _, fun _ => hmac _⟩
  rw [hinput, hput]
  constructor
  · intro h
    obtain ⟨h14, _, h⟩ := h
    refine ⟨h14, fun hl => ⟨(h hl).2.1, fun h6 => (h hl).2.2 ?_ h6⟩⟩
    rw [h6]
    decide
  · intro h
    obtain ⟨h14, h⟩ := h
    exact ⟨h14, hus h14, fun hl => ⟨inside_peek16.mpr (by omega), (h hl).1, fun _ => (h hl).2⟩⟩

theorem input_val (now : Nat) (dev : NetDevice) (st : RxState) (frame : Mem) (n : Nat) :
    (input now dev st frame n).val =
      if IsLocal dev frame then
        if etherType frame = 0x0800#16 then
          (inputPacket now dev (ipArp now st.arp frame).val st.reass frame n).val
        else if etherType frame = 0x0806#16 then (inputArp now dev st (ethSkb frame n)).val
        else .ok (st, .dropped)
      else .ok (st, .dropped) := by
  unfold input
  simp only [Traced.val_bind, Traced.val_ite, Traced.val_pure]
  rfl

end Frame

/-! ## The theorem -/

/-- The frame is too short for a header it announces: the Ethernet header, the
IP header of the length its `ihl` says, the eight bytes of ICMP or UDP behind it,
or the ARP packet. -/
def TooShort (dev : NetDevice) (frame : Mem) (n : Nat) : Prop :=
  n < 14 ∨ IsLocal dev frame ∧
    (etherType frame = 0x0800#16 ∧ (n < 34 ∨ n < 14 + hdrLen frame ∨
        (ipProtocol frame ethHlen = 1#8 ∨ ipProtocol frame ethHlen = 17#8) ∧
          n < 14 + hdrLen frame + 8) ∨
      etherType frame = 0x0806#16 ∧ n < 42)

/-- The receive path stays inside the frame, and drops what is too short. -/
structure StaysInside (now : Nat) (dev : NetDevice) (st : RxState) (frame : Mem) (n : Nat) :
    Prop where
  inside : Inside n (input now dev st frame n)
  dropped : TooShort dev frame n → ∃ st', (input now dev st frame n).val = .ok (st', .dropped)

/-- The frame has room for the packet in it that has passed the checks. -/
structure PacketFits (st : ReassState) (frame : Mem) (n : Nat) : Prop where
  transport : ipProtocol frame ethHlen = 1#8 ∨ ipProtocol frame ethHlen = 17#8 →
    14 + hdrLen frame + 8 ≤ n
  /-- An ICMP message has no payload behind its header. -/
  icmp : ¬ Stuck st (ipSkb frame n) → ipProtocol frame ethHlen = 1#8 →
    totLen frame = hdrLen frame
  stuck : Stuck st (ipSkb frame n) → 14 + hdrLen frame ≤ n

/-- The frame has room for all the headers it announces. -/
structure FrameFits (dev : NetDevice) (st : RxState) (frame : Mem) (n : Nat) : Prop where
  ether : 14 ≤ n
  ip : IsLocal dev frame → etherType frame = 0x0800#16 →
    34 ≤ n ∧ (Passes dev frame n → PacketFits st.reass frame n)
  arp : IsLocal dev frame → etherType frame = 0x0806#16 → 42 ≤ n

section Exact

variable {now n : Nat} {dev : NetDevice} {st : RxState} {frame : Mem}

/-- A packet that is handled inside the frame fits it. -/
theorem StaysInside.packetFits (hnow : 258 < now) (hn : n ≤ ethFrameLen) (hl : IsLocal dev frame)
    (hip : etherType frame = 0x0800#16) (h34 : 34 ≤ n) (hp : Passes dev frame n)
    (h : StaysInside now dev st frame n) : PacketFits st.reass frame n := by
  have hval := input_val now dev st frame n
  rw [if_pos hl, if_pos hip] at hval
  have hinput := ((input_inside hn).mp h.inside).2 hl
  have hpacket := ((inputIp_inside (by omega) hn).mp (hinput.1 hip)).2
  rcases inputPacket_spec dev frame (ipArp now st.arp frame).val st.reass hnow h34 hn with
    ⟨hno, _⟩ | ⟨_, hs, _, f, hf⟩ | ⟨_, hs, hiff, st', hok⟩
  · exact absurd hp hno
  · -- a stuck packet is never dropped, so it must not be too short
    have hlong : ¬ TooShort dev frame n := fun ht => by
      obtain ⟨st', hd⟩ := h.dropped ht
      rw [hval, hf] at hd
      exact nomatch hd
    refine ⟨fun hproto => ?_, fun hno => absurd hs hno, fun _ => ?_⟩
    · exact Nat.le_of_not_lt fun hlt => hlong (.inr ⟨hl, .inl ⟨hip, .inr (.inr ⟨hproto, hlt⟩)⟩⟩)
    · exact Nat.le_of_not_lt fun hlt => hlong (.inr ⟨hl, .inl ⟨hip, .inr (.inl hlt)⟩⟩)
  · have hd := (deliver_inside h34 hn hp.2.1).mp (hiff.mp hpacket)
    refine ⟨fun hproto => ?_, fun _ h1 => (hd.1 h1).2, fun h => absurd h hs⟩
    refine Nat.le_of_not_lt fun hlt => ?_
    obtain ⟨st'', hdrop⟩ := h.dropped (.inr ⟨hl, .inl ⟨hip, .inr (.inr ⟨hproto, hlt⟩)⟩⟩)
    rw [hval, hok] at hdrop
    exact deliver_val.mp (congrArg Prod.snd (Except.ok.inj hdrop)) hproto

/-- A packet that fits is handled inside the frame, and dropped if it is too short
for its own header. -/
theorem PacketFits.handled (hnow : 258 < now) (hn : n ≤ ethFrameLen) (h34 : 34 ≤ n)
    (arp : ArpTable) (h : Passes dev frame n → PacketFits st.reass frame n) :
    Inside n (inputPacket now dev arp st.reass frame n) ∧
      (n < 14 + hdrLen frame ∨
        (ipProtocol frame ethHlen = 1#8 ∨ ipProtocol frame ethHlen = 17#8) ∧
          n < 14 + hdrLen frame + 8 →
        ∃ st', (inputPacket now dev arp st.reass frame n).val = .ok (st', .dropped)) := by
  rcases inputPacket_spec dev frame arp st.reass hnow h34 hn
    with ⟨_, hin, hok⟩ | ⟨hp, hs, hin, _⟩ | ⟨hp, hs, hiff, st', hok⟩
  · exact ⟨hin, fun _ => ⟨_, hok⟩⟩
  · -- a packet that gets stuck is not dropped, so it has to be long enough
    have hfit := h hp
    have := hfit.stuck hs
    refine ⟨hin, ?_⟩
    intro h
    rcases h with hlt | ⟨hproto, hlt⟩
    · omega
    · have := hfit.transport hproto
      omega
  · have hfit := h hp
    have hge : 20 ≤ hdrLen frame := hp.1.hdrLen_ge
    have hdeliver : Inside n (deliver dev frame n) := by
      refine (deliver_inside h34 hn hp.2.1).mpr ⟨fun h1 => ⟨?_, hfit.icmp hs h1⟩, fun h17 => ?_⟩
      · have := hfit.transport (.inl h1)
        omega
      · have := hfit.transport (.inr h17)
        omega
    refine ⟨hiff.mpr hdeliver, fun hshort => ⟨⟨arp, st'⟩, ?_⟩⟩
    -- the only packets left that are too short have no handler
    have hother : ¬ (ipProtocol frame ethHlen = 1#8 ∨ ipProtocol frame ethHlen = 17#8) :=
      fun hproto => by
        have := hfit.transport hproto
        omega
    rw [hok, deliver_val.mpr hother]

/-- **Frame bounds**: for every frame `read` can return, the receive path stays
inside it and drops what is too short exactly if the frame has room for all the
headers it announces and no ICMP message with a payload is delivered. -/
theorem staysInside_iff (hnow : 258 < now) (hn : n ≤ ethFrameLen) :
    StaysInside now dev st frame n ↔ FrameFits dev st frame n := by
  constructor
  · intro h
    obtain ⟨h14, hcases⟩ := (input_inside hn).mp h.inside
    refine ⟨h14, fun hl hip => ?_, fun hl harp => ?_⟩
    · have h34 := ((inputIp_inside h14 hn).mp ((hcases hl).1 hip)).1
      exact ⟨h34, fun hp => h.packetFits hnow hn hl hip h34 hp⟩
    · exact (inputArp_inside h14 hn).mp ((hcases hl).2 harp)
  · intro h
    have hpacket := fun hl hip => @PacketFits.handled now n dev st frame hnow hn (h.ip hl hip).1
      (ipArp now st.arp frame).val (h.ip hl hip).2
    refine ⟨(input_inside hn).mpr ⟨h.ether, fun hl => ⟨fun hip => ?_, fun harp => ?_⟩⟩, ?_⟩
    · exact (inputIp_inside h.ether hn).mpr ⟨(h.ip hl hip).1, (hpacket hl hip).1⟩
    · exact (inputArp_inside h.ether hn).mpr (h.arp hl harp)
    · intro h
      rcases h with h14 | ⟨hl, ⟨hip, hshort⟩ | ⟨harp, h42⟩⟩
      · exact absurd h.ether (Nat.not_le.mpr h14)
      · have h34 := (h.ip hl hip).1
        rw [input_val, if_pos hl, if_pos hip]
        exact (hpacket hl hip).2 (hshort.resolve_left (Nat.not_lt.mpr h34))
      · exact absurd (h.arp hl harp) (Nat.not_le.mpr h42)

end Exact

/-- A UDP packet with nothing behind its header, in a frame of 42 bytes. -/
theorem bare_header_stays_inside :
    StaysInside 1000000000 host ⟨[], .initial⟩ (udpFrame [0#8, 20#8] [0x66#8, 0xD7#8]) 42 := by
  refine (staysInside_iff (by decide) (by decide)).mpr
    ⟨by decide, fun _ _ => ⟨by decide, fun _ => ⟨fun _ => by decide, fun _ _ => by decide,
      fun h => ?_⟩⟩, fun _ h => absurd h (by decide)⟩
  exact absurd h.1 (by decide)

/-- An Ethernet header and no more, with the type of IP: the source address is
read behind the end, and `len` wraps. -/
theorem ether_header_overrun :
    Ev.read 26 ∈ (input 1000000000 host ⟨[], .initial⟩
        (udpFrame [0#8, 28#8] [0x66#8, 0xCF#8]) 14).log ∧
      Ev.put 0xFFFFFFEC#32 34 ∈ (input 1000000000 host ⟨[], .initial⟩
        (udpFrame [0#8, 28#8] [0x66#8, 0xCF#8]) 14).log ∧
      ¬ StaysInside 1000000000 host ⟨[], .initial⟩ (udpFrame [0#8, 28#8] [0x66#8, 0xCF#8]) 14 := by
  have hread : Ev.read 26 ∈ (input 1000000000 host ⟨[], .initial⟩
      (udpFrame [0#8, 28#8] [0x66#8, 0xCF#8]) 14).log := by decide
  refine ⟨hread, by decide, fun h => ?_⟩
  exact absurd (show 26 < 14 from h.inside _ hread) (by decide)

end LinuxNet.Sip
