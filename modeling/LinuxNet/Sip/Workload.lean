import LinuxNet.Sip.Reassembly

/-!
# Datagrams, fragments, and what reassembly owes them

The purpose of `sip_reassemble`, stated without its code. A datagram is sent in
pieces (`Cut`: nonempty ones, on 8-byte boundaries); the pieces arrive as
fragments in any order, mixed with those of other datagrams and repeated
(`Workload`). `Expected` is what each arrival must bring: the whole datagram
when the last missing piece comes, and nothing before and after.

`Reassembles` runs the code over the arrivals and compares. It holds of exactly
the workloads without fragments: the very first fragment is neither kept nor
answered with NULL.
-/

namespace LinuxNet.Sip

/-! ## Datagrams in pieces -/

/-- A way to cut a payload: pieces of whole 8-byte blocks, the last one aside. -/
structure Cut where
  pieces : List (List Byte)
  nonempty : pieces ≠ []
  filled : 2 ≤ pieces.length → ∀ p ∈ pieces, p ≠ []
  aligned : ∀ p ∈ pieces.dropLast, 8 ∣ p.length
  fits : pieces.flatten.length ≤ 65515

/-- A datagram on its way: the header fields and the cut payload. -/
structure Datagram where
  saddr : BitVec 32
  daddr : BitVec 32
  id : BitVec 16
  tos : Byte
  ttl : Byte
  protocol : Byte
  cut : Cut

namespace Datagram

def payload (d : Datagram) : List Byte := d.cut.pieces.flatten

/-- The key of a datagram. -/
def key (d : Datagram) : BitVec 32 × BitVec 32 × BitVec 16 := (d.saddr, d.daddr, d.id)

/-- The IP header of `len` bytes of payload with a given fragment field. -/
def header (d : Datagram) (len frag : Nat) (check : BitVec 16) : List Byte :=
  [0x45#8, d.tos] ++ bytesOf16 (htons (BitVec.ofNat 16 (20 + len))) ++ bytesOf16 d.id ++
    bytesOf16 (htons (BitVec.ofNat 16 frag)) ++ [d.ttl, d.protocol] ++ bytesOf16 check ++
    bytesOf32 d.saddr ++ bytesOf32 d.daddr

/-- Where a piece starts. -/
def offset (d : Datagram) (k : Nat) : Nat := (d.cut.pieces.take k).flatten.length

/-- The fragment field of a piece: its offset in blocks, and whether more follow. -/
def fragField (d : Datagram) (k : Nat) : Nat :=
  d.offset k / 8 + if k + 1 < d.cut.pieces.length then 8192 else 0

end Datagram

/-- A piece arriving: which one, when, and the bytes the sender is free in. -/
structure Arrival where
  datagram : Datagram
  piece : Fin datagram.cut.pieces.length
  now : Nat
  ether : List Byte
  check : BitVec 16
  etherLength : ether.length = 14

namespace Arrival

/-- The frame the piece arrives in. -/
def frame (a : Arrival) : List Byte :=
  let piece := a.datagram.cut.pieces.get a.piece
  a.ether ++ a.datagram.header piece.length (a.datagram.fragField a.piece) a.check ++ piece

/-- The frame as `ip_input` hands it to `sip_reassemble`. -/
def skb (a : Arrival) : Skbuff where
  mem o := a.frame.getD o 0#8
  size := skbDataAlign a.frame.length
  phy := 0
  nh := ethHlen
  th := 0
  tail := ethHlen + iphdrLen
  totLen := BitVec.ofNat 32 a.frame.length
  len := BitVec.ofNat 32 a.frame.length - 34#32
  ipSummed := .hw

end Arrival

/-- Arrivals within the timeout, of datagrams that their keys tell apart. -/
structure Workload where
  arrivals : List Arrival
  distinct : ∀ a ∈ arrivals, ∀ b ∈ arrivals, a.datagram.key = b.datagram.key →
    a.datagram = b.datagram
  timely : ∀ a ∈ arrivals, ∀ b ∈ arrivals, a.now ≤ b.now + ipreassTimeout

/-! ## What is expected -/

/-- Every piece of the datagram has arrived. -/
def Arrived (hist : List Arrival) (d : Datagram) : Prop :=
  ∀ k < d.cut.pieces.length, ∃ a ∈ hist, a.datagram = d ∧ a.piece.val = k

/-- The buffer holds the whole datagram: its payload behind the header of the
first fragment, with the full length and no fragment field. -/
def IsWhole (d : Datagram) (skb : Skbuff) : Prop :=
  (∀ o < 20, o ≠ 10 → o ≠ 11 →
    skb.mem (skb.nh + o) = (d.header d.payload.length 0 0#16).getD o 0#8) ∧
    ∀ i < d.payload.length, skb.mem (skb.nh + 20 + i) = d.payload.getD i 0#8

/-- What an arrival must bring. -/
def Expected (hist : List Arrival) (a : Arrival) (result : Option Skbuff) : Prop :=
  if isFragment a.skb = true then
    (Arrived (hist ++ [a]) a.datagram ∧ ¬ Arrived hist a.datagram →
      ∃ whole, result = some whole ∧ IsWhole a.datagram whole) ∧
    (¬ (Arrived (hist ++ [a]) a.datagram ∧ ¬ Arrived hist a.datagram) → result = none)
  else result = some a.skb

/-- The code brings what is expected, arrival after arrival. -/
def Reassembles : List Arrival → ReassState → List Arrival → Prop
  | _, _, [] => True
  | hist, st, a :: as =>
    ∃ st' result, ipDefrag a.now st a.skb = .ok (st', result) ∧ Expected hist a result ∧
      Reassembles (hist ++ [a]) st' as

/-! ## Which arrivals are fragments -/

/-- The header bytes of an arrival, behind the Ethernet header. -/
theorem skb_header (a : Arrival) {o : Nat} (ho : o < 20) :
    a.skb.mem (ethHlen + o) =
      (a.datagram.header (a.datagram.cut.pieces.get a.piece).length
        (a.datagram.fragField a.piece) a.check).getD o 0#8 := by
  have hlen : (a.datagram.header (a.datagram.cut.pieces.get a.piece).length
      (a.datagram.fragField a.piece) a.check).length = 20 := rfl
  change (a.ether ++ _ ++ _).getD (14 + o) 0#8 = _
  rw [List.append_assoc, List.getD_append_right _ _ _ _ (by rw [a.etherLength]; omega),
    a.etherLength, Nat.add_sub_cancel_left, List.getD_append _ _ _ _ (by rw [hlen]; exact ho)]

/-- The fragment field of an arrival, in host order. -/
theorem skb_fragOff (a : Arrival) :
    ipFragOff a.skb.mem a.skb.nh = BitVec.ofNat 16 (a.datagram.fragField a.piece) := by
  have h6 := skb_header a (o := 6) (by decide)
  have h7 := skb_header a (o := 7) (by decide)
  change ntohs (le16 (a.skb.mem (ethHlen + 6)) (a.skb.mem (ethHlen + 7))) = _
  rw [h6, h7]
  change htons (le16 (byteOf 0 _) (byteOf 1 _)) = _
  rw [le16_byteOf, htons_htons]

theorem offset_lt (d : Datagram) (k : Nat) : d.offset k ≤ 65515 := by
  have hle : (d.cut.pieces.take k).flatten.length ≤ d.cut.pieces.flatten.length := by
    rw [← List.take_append_drop k d.cut.pieces, List.flatten_append, List.length_append,
      List.take_append_drop]
    exact Nat.le_add_right _ _
  exact Nat.le_trans hle d.cut.fits

theorem fragField_lt (d : Datagram) (k : Nat) : d.fragField k < 16384 := by
  have := offset_lt d k
  unfold Datagram.fragField
  split <;> omega

/-- Behind the first of several pieces the offset is not zero. -/
theorem offset_pos {d : Datagram} {k : Nat} (h2 : 2 ≤ d.cut.pieces.length) (hk : 1 ≤ k) :
    8 ≤ d.offset k := by
  have hfill := d.cut.filled h2
  have halign := d.cut.aligned
  unfold Datagram.offset
  cases hp : d.cut.pieces with
  | nil => rw [hp] at h2; exact absurd h2 (by decide)
  | cons p ps =>
    rw [hp] at hfill halign h2
    have hps : ps ≠ [] := by
      intro he
      subst he
      exact absurd h2 (by rw [List.length_singleton]; decide)
    have hdvd : 8 ∣ p.length := halign p (by
      rw [List.dropLast_cons_of_ne_nil hps]
      exact List.mem_cons_self ..)
    have hpos : 0 < p.length := List.length_pos_iff.mpr (hfill p (List.mem_cons_self ..))
    cases k with
    | zero => exact absurd hk (by decide)
    | succ k =>
      rw [List.take_succ_cons, List.flatten_cons, List.length_append]
      have := Nat.le_of_dvd hpos hdvd
      omega

/-- The fragment field is zero exactly for the only piece of a datagram. -/
theorem fragField_eq_zero (a : Arrival) :
    a.datagram.fragField a.piece = 0 ↔ ¬ 2 ≤ a.datagram.cut.pieces.length := by
  have hk := a.piece.isLt
  constructor
  · intro h h2
    unfold Datagram.fragField at h
    split at h
    next => omega
    next hlast =>
      have := offset_pos (k := a.piece) h2 (by omega)
      omega
  · intro h
    have hzero : a.piece.val = 0 := by omega
    unfold Datagram.fragField Datagram.offset
    rw [hzero, if_neg (by omega), List.take_zero, List.flatten_nil, List.length_nil]

/-- A piece is a fragment exactly if it is not the only one. -/
theorem isFragment_iff (a : Arrival) :
    isFragment a.skb = true ↔ 2 ≤ a.datagram.cut.pieces.length := by
  have hlt := fragField_lt a.datagram a.piece
  have hand : (BitVec.ofNat 16 (a.datagram.fragField a.piece) &&& 0x3FFF#16).toNat =
      a.datagram.fragField a.piece := by
    rw [BitVec.toNat_and, BitVec.toNat_ofNat, show (0x3FFF#16).toNat = 2 ^ 14 - 1 by rfl,
      Nat.and_two_pow_sub_one_eq_mod]
    omega
  unfold isFragment
  rw [skb_fragOff, bne_iff_ne, ne_eq, ← BitVec.toNat_inj, hand,
    show (0#16).toNat = 0 from rfl, fragField_eq_zero, not_not]

/-! ## The theorem -/

/-- A datagram of several pieces has not arrived with one of them. -/
theorem not_arrived_first {hist : List Arrival} {a : Arrival}
    (h2 : 2 ≤ a.datagram.cut.pieces.length)
    (hno : ∀ b ∈ hist, isFragment b.skb = false) : ¬ Arrived (hist ++ [a]) a.datagram := by
  intro h
  -- any piece but the one that has just come is missing
  obtain ⟨k, hk, hne⟩ : ∃ k < a.datagram.cut.pieces.length, k ≠ a.piece.val := by
    by_cases h0 : a.piece.val = 0
    · exact ⟨1, by omega, by omega⟩
    · exact ⟨0, by omega, fun h => h0 h.symm⟩
  obtain ⟨b, hb, hd, hp⟩ := h k hk
  rcases List.mem_append.mp hb with hb | hb
  · have hf := (isFragment_iff b).mpr (by rw [hd]; exact h2)
    rw [hno b hb] at hf
    exact Bool.false_ne_true hf
  · rw [List.mem_singleton] at hb
    subst hb
    exact hne hp.symm

/-- Before the first fragment nothing is queued, and from there on the code
brings what is expected only as long as no fragment comes. -/
theorem reassembles_iff (as : List Arrival) : ∀ hist : List Arrival,
    (∀ b ∈ hist, isFragment b.skb = false) →
      (Reassembles hist .initial as ↔ ∀ a ∈ as, isFragment a.skb = false) := by
  induction as with
  | nil =>
    intro hist _
    exact iff_of_true trivial (List.forall_mem_nil _)
  | cons a as ih =>
    intro hist hno
    rw [Reassembles, List.forall_mem_cons]
    cases hf : isFragment a.skb with
    | false =>
      have hrun : ipDefrag a.now .initial a.skb = .ok (.initial, some a.skb) := by
        rw [ipDefrag, hf]
        rfl
      have hexp : Expected hist a (some a.skb) := by
        unfold Expected
        rw [hf]
        exact rfl
      have ih := ih (hist ++ [a]) fun b hb => by
        rcases List.mem_append.mp hb with hb | hb
        · exact hno b hb
        · rw [List.mem_singleton.mp hb]
          exact hf
      rw [hrun]
      constructor
      · intro h
        obtain ⟨st', result, h1, _, h3⟩ := h
        cases h1
        exact ⟨rfl, ih.mp h3⟩
      · intro h
        obtain ⟨_, h⟩ := h
        exact ⟨_, _, rfl, hexp, ih.mpr h⟩
    | true =>
      refine iff_of_false ?_ fun h => Bool.noConfusion h.1
      intro h
      obtain ⟨st', result, h1, h2, _⟩ := h
      have h2' := (isFragment_iff a).mp hf
      unfold Expected at h2
      rw [hf, if_pos rfl] at h2
      have hnone : result = none := h2.2 fun h => not_arrived_first h2' hno h.1
      -- the code faults here or returns the fragment, but never NULL
      rw [ipDefrag, hf, if_pos rfl] at h1
      obtain ⟨st'', -, he⟩ :=
        sipReassemble_empty a.now (show ReassState.initial.list = none from rfl) a.skb
      rw [he, hnone] at h1
      split at h1
      next => cases h1
      next => cases h1

/-- **Reassembly**: the code brings what is expected of it on exactly the
workloads in which every datagram that arrives comes in one piece. -/
theorem reassembles_iff_whole (w : Workload) :
    Reassembles [] .initial w.arrivals ↔
      ∀ a ∈ w.arrivals, a.datagram.cut.pieces.length = 1 := by
  rw [reassembles_iff w.arrivals [] nofun]
  refine forall_congr' fun a => imp_congr_right fun _ => ?_
  have hpos : 0 < a.datagram.cut.pieces.length := List.length_pos_iff.mpr a.datagram.cut.nonempty
  rw [← Bool.not_eq_true, isFragment_iff]
  omega

/-! ## Two fragments -/

/-- Sixteen bytes of UDP payload in two pieces of eight. -/
def twoPieces : Datagram where
  saddr := 0x0200000A#32
  daddr := 0x0100000A#32
  id := 7#16
  tos := 0#8
  ttl := 64#8
  protocol := 17#8
  cut :=
    { pieces := [List.replicate 8 1#8, List.replicate 8 2#8]
      nonempty := by decide
      filled := by decide
      aligned := by decide
      fits := by decide }

/-- The two pieces, in order and in the same second. -/
def twoFragments : Workload where
  arrivals :=
    [⟨twoPieces, ⟨0, by decide⟩, 1000000000, List.replicate 14 0#8, 0#16, by decide⟩,
     ⟨twoPieces, ⟨1, by decide⟩, 1000000000, List.replicate 14 0#8, 0#16, by decide⟩]
  distinct := by
    intro a ha b hb _
    simp only [List.mem_cons, List.not_mem_nil, or_false] at ha hb
    rcases ha with rfl | rfl <;> rcases hb with rfl | rfl <;> rfl
  timely := by
    intro a ha b hb
    simp only [List.mem_cons, List.not_mem_nil, or_false] at ha hb
    rcases ha with rfl | rfl <;> rcases hb with rfl | rfl <;> decide

/-- The first fragment of two comes back at once, as if it were the datagram. -/
theorem first_fragment_returned :
    (∃ a st', twoFragments.arrivals.head? = some a ∧ isFragment a.skb = true ∧
      ipDefrag a.now .initial a.skb = .ok (st', some a.skb)) ∧
    ¬ Reassembles [] .initial twoFragments.arrivals := by
  refine ⟨⟨_, _, rfl, by decide, rfl⟩, fun h => ?_⟩
  have hall := (reassembles_iff twoFragments.arrivals [] nofun).mp h
  exact absurd (hall _ (List.mem_cons_self ..)) (by decide)

end LinuxNet.Sip
