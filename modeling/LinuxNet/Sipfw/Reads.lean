import LinuxNet.Sipfw.Match

/-!
# What the matcher reads of a packet

The matcher takes the bytes behind the IP header for a TCP, UDP, ICMP or IGMP
header without asking how many there are. How far it looks depends on the rule:
not at all where the addresses and the protocol differ, at the source port, at
both ports, at the flag byte of TCP, at type and code. `looked` is that number
of bytes, and a search stays inside the packet exactly if every rule it comes
to, which are those up to the first match, looks no further than the packet
goes.
-/

namespace LinuxNet.Sipfw

/-- `ntohs(iph->tot_len)`. -/
def iphTotLen (m : Mem) : Nat := (ntohs (m.u16 2)).toNat

/-- An IPv4 packet with a valid header, in a buffer of exactly its total length. -/
structure ValidPacket (skb : SkBuff) : Prop where
  version : (skb.data 0).toNat / 16 = 4
  header : 20 ≤ iphHdrLen skb.data
  total : iphHdrLen skb.data ≤ iphTotLen skb.data
  size : skb.len = iphTotLen skb.data

/-- The matcher reads no byte at or beyond the end of the packet. -/
def ReadsPacket (skb : SkBuff) (l : List SipfwRules) : Prop :=
  Traced.All (fun o => o < skb.len) (isMatch skb l)

/-- How many bytes the port tests look at: the second only if the first succeeds. -/
def portsLooked (m : Mem) (p : Nat) (r : SipfwRules) : Nat :=
  if m.u16 p = r.sport ∨ r.sport = 0#16 then 4 else 2

/-- How many bytes behind the IP header a rule looks at, once addresses and
protocol agree. -/
def looked (m : Mem) (p : Nat) (r : SipfwRules) : Nat :=
  if iphProtocol m = 6#8 then
    if (portsMatch m p r).val = true ∧ r.addtion ≠ 0#32 then 14 else portsLooked m p r
  else if iphProtocol m = 17#8 then portsLooked m p r
  else if iphProtocol m = 1#8 ∨ iphProtocol m = 2#8 then
    if r.addtion = 0#32 then 0 else if r.addtion.icgmpType = m p then 2 else 1
  else 0

/-- The rule does not look further than the packet goes. -/
def Covered (skb : SkBuff) (r : SipfwRules) : Prop :=
  (isIPMatch skb.data r).val = true →
    iphHdrLen skb.data + looked skb.data (iphHdrLen skb.data) r ≤ skb.len

/-! ## One rule -/

section Reads

variable {n : Nat} {m : Mem} {p : Nat} {r : SipfwRules}

theorem all_rd8 (o : Nat) : Traced.All (fun i => i < n) (rd8 m o) ↔ o + 1 ≤ n :=
  List.forall_mem_singleton

theorem all_rd16 (o : Nat) : Traced.All (fun i => i < n) (rd16 m o) ↔ o + 2 ≤ n := by
  simp only [Traced.All, List.mem_cons, List.not_mem_nil, or_false, forall_eq_or_imp,
    forall_eq]
  omega

theorem all_rd32 (o : Nat) : Traced.All (fun i => i < n) (rd32 m o) ↔ o + 4 ≤ n := by
  simp only [Traced.All, List.mem_cons, List.not_mem_nil, or_false, forall_eq_or_imp,
    forall_eq]
  omega

/-- The address test looks at the header only. -/
theorem isIPMatch_reads (h : 20 ≤ n) : Traced.All (fun i => i < n) (isIPMatch m r) := by
  simp only [isIPMatch, Traced.all_bind, Traced.all_ite, Traced.all_pure, all_rd32, all_rd8]
  exact ⟨by omega, fun _ => ⟨by omega, fun _ => ⟨by omega, trivial⟩, fun _ => trivial⟩,
    fun _ => trivial⟩

theorem portsMatch_reads :
    Traced.All (fun i => i < n) (portsMatch m p r) ↔ p + portsLooked m p r ≤ n := by
  simp only [portsMatch, portsLooked, Traced.all_bind, Traced.all_ite, Traced.all_pure, all_rd16]
  split
  next h => simp only [h, true_implies, not_true, false_implies, and_true]; omega
  next h => simp only [h, false_implies, implies_true, and_true]

/-- The rest of the test looks at as many bytes of the transport part as `looked` says. -/
theorem isAddtionMatch_reads (h9 : 20 ≤ n) (hp : p ≤ n) :
    Traced.All (fun i => i < n) (isAddtionMatch m p r) ↔ p + looked m p r ≤ n := by
  have hports := @portsMatch_reads n m p r
  have hle : portsLooked m p r ≤ 4 := by
    unfold portsLooked
    split <;> omega
  simp only [isAddtionMatch, Traced.all_bind, Traced.all_ite, Traced.all_pure, all_rd8,
    hports, looked, iphProtocol]
  refine (and_iff_right (by omega)).trans ?_
  -- TCP reads the flags behind the ports, ICMP and IGMP the type at the front
  by_cases h6 : m 9 = 6#8
  · simp only [h6, true_implies, not_true, false_implies, and_true, if_true]
    by_cases hm : (portsMatch m p r).val = true
    · by_cases ha : r.addtion = 0#32
      · simp only [hm, ha, true_implies, not_true, false_implies, and_true, ne_eq, and_false,
          if_false]
      · simp only [hm, ha, true_implies, true_and, ne_eq, not_false_eq_true,
          implies_true, and_true, if_true]
        omega
    · simp only [hm, Bool.false_eq_true, false_implies, not_false_eq_true, implies_true, and_true,
        false_and, if_false]
  · by_cases h17 : m 9 = 17#8
    · simp [h17]
    · by_cases hi : m 9 = 1#8 ∨ m 9 = 2#8
      · simp only [h6, h17, hi, false_implies, true_implies, true_and, not_false_eq_true,
          not_true, and_true, if_false, if_true]
        by_cases ha : r.addtion = 0#32
        · simp only [ha, true_implies, not_true, false_implies, and_true, if_true, Nat.add_zero,
            true_iff]
          exact hp
        · simp only [ha, false_implies, not_false_eq_true, true_implies, true_and, if_false]
          by_cases ht : r.addtion.icgmpType = m p
          · simp only [ht, true_implies, not_true, false_implies, and_true, if_true]
            omega
          · simp only [ht, false_implies, implies_true, and_true, if_false]
      · simp only [h6, h17, hi, false_implies, true_implies, true_and, not_false_eq_true,
          if_false, Nat.add_zero, true_iff]
        exact hp

end Reads

/-! ## The search -/

/-- Every split of a list, by whether it is in front of the first element. -/
theorem forall_split_cons {α : Type} {P : List α → α → Prop} (a : α) (l : List α) :
    (∀ pre x post, a :: l = pre ++ x :: post → P pre x) ↔
      P [] a ∧ ∀ pre x post, l = pre ++ x :: post → P (a :: pre) x := by
  constructor
  · intro h
    exact ⟨h [] a l rfl, fun pre x post he => h (a :: pre) x post (by rw [he]; rfl)⟩
  · intro h pre x post he
    cases pre with
    | nil =>
      cases he
      exact h.1
    | cons b pre =>
      obtain ⟨rfl, ht⟩ := List.cons.inj he
      exact h.2 pre x post ht

/-- The search stays inside the packet if every rule it comes to does. -/
theorem matchLoop_reads {skb : SkBuff} (h20 : 20 ≤ skb.len) (hp : iphHdrLen skb.data ≤ skb.len)
    (l : List SipfwRules) :
    Traced.All (fun o => o < skb.len) (matchLoop skb.data (iphHdrLen skb.data) l) ↔
      ∀ pre r post, l = pre ++ r :: post → (∀ q ∈ pre, ruleMatches skb q = false) →
        Covered skb r := by
  induction l with
  | nil =>
    refine iff_of_true (Traced.all_pure _) fun pre r post h => ?_
    simp at h
  | cons r next ih =>
    rw [forall_split_cons]
    simp only [List.not_mem_nil, false_implies, implies_true, true_implies, List.forall_mem_cons,
      and_imp]
    simp only [matchLoop, Traced.all_bind, Traced.all_ite, Traced.all_pure, ih,
      isAddtionMatch_reads h20 hp, implies_true, true_and]
    refine (and_iff_right (isIPMatch_reads h20)).trans ?_
    by_cases hip : (isIPMatch skb.data r).val = true
    · simp only [Covered, hip, true_implies, not_true, false_implies, and_true]
      refine and_congr_right fun _ => ?_
      by_cases hadd : (isAddtionMatch skb.data (iphHdrLen skb.data) r).val = true
      · simp [ruleMatches, hip, hadd]
      · simp [ruleMatches, hip, hadd]
    · simp [Covered, hip, ruleMatches]

/-- **What the matcher reads, exactly**: it stays inside a valid packet if and only if no
rule up to the first match looks further than the packet goes. -/
theorem readsPacket_iff {skb : SkBuff} (h : ValidPacket skb) (l : List SipfwRules) :
    ReadsPacket skb l ↔
      ∀ pre r post, l = pre ++ r :: post → (∀ q ∈ pre, ruleMatches skb q = false) →
        Covered skb r := by
  have hsize := h.size
  have hheader := h.header
  have htotal := h.total
  rw [← matchLoop_reads (by omega) (by omega)]
  simp only [ReadsPacket, isMatch, Traced.all_bind, all_rd8, all_rd32]
  exact ⟨fun h => h.2.2.2, fun h => ⟨by omega, by omega, by omega, h⟩⟩

/-! ## A TCP packet of 21 bytes -/

/-- A packet of protocol TCP and of a given length below 256, zero but for its header. -/
def tcpPacket (len : Nat) : SkBuff :=
  ⟨fun o => if o = 0 then 0x45#8 else if o = 3 then BitVec.ofNat 8 len
    else if o = 9 then 6#8 else 0#8, len, fun _ => 0#8⟩

/-- A rule for packets to TCP port 80, without flags. -/
def httpRule : SipfwRules := ⟨0, 0, 0, 0, 0, htons 80#16, 6, 0, 0⟩

/-- With four bytes behind the header, the rule finds all it looks at. -/
theorem httpRule_reads_ports : ReadsPacket (tcpPacket 24) [httpRule] :=
  (readsPacket_iff ⟨by decide, by decide, by decide, by decide⟩ [httpRule]).mpr (by
    intro pre r post hl _
    cases pre with
    | nil =>
      cases hl
      intro _
      decide
    | cons q pre => simp at hl)

/-- With one, the matcher reads three bytes beyond the end of the packet. -/
theorem short_tcp_overread :
    ValidPacket (tcpPacket 21) ∧ 23 ∈ (isMatch (tcpPacket 21) [httpRule]).log ∧
      ¬ ReadsPacket (tcpPacket 21) [httpRule] := by
  have hread : 23 ∈ (isMatch (tcpPacket 21) [httpRule]).log := by decide
  exact ⟨⟨by decide, by decide, by decide, by decide⟩, hread,
    fun h => absurd (h 23 hread) (by decide)⟩

end LinuxNet.Sipfw
