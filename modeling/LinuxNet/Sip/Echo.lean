import LinuxNet.Sip.Stack

/-!
# Answers to echo requests

`icmp_echo` does not sum up the message again: it changes the type from 8 to 0 and adds
`0x0800` to the checksum, with an end-around carry from a threshold on
(`echoChecksum`). The word `0x0800` of the type goes over into the checksum, so the
sum of all words stays what it was, modulo 65535 (`echoChecksum_cases`).

That leaves the two zeros of one's-complement sums. The threshold is one too low: the
checksum `0xF7FF` becomes `0x0000` where `0xFFFF` is meant. A message with this checksum
that verifies adds up to zero but for its type and checksum, so the sum of the answer is
a true zero if there is nothing else in it (`echoRight_iff`).
-/

namespace LinuxNet.Sip

/-! ## The checksum -/

/-- The checksum of the answer, from that of the request. -/
def echoChecksum (checksum : BitVec 16) : BitVec 16 :=
  if htons 0xF7FF#16 ≤ checksum then checksum + (htons 0x0800#16 + 1#16)
  else checksum + htons 0x0800#16

/-- `0x0800` is added, in network order, or `0x0801` with the carry out of the word dropped; this
is done for `0xF7FF` already. -/
theorem echoChecksum_cases (checksum : BitVec 16) :
    (htons (echoChecksum checksum)).toNat + 65535 = (htons checksum).toNat + 0x0800 ∨
      (htons (echoChecksum checksum)).toNat = (htons checksum).toNat + 0x0800 ∧
        (htons checksum).toNat ≠ 0xF7FF := by
  obtain ⟨hi, lo, hhi, hlo, hold, hswap⟩ := htons_cases checksum
  obtain ⟨hi', lo', hhi', hlo', hnew, hswap'⟩ := htons_cases (echoChecksum checksum)
  have hval : echoChecksum checksum =
      if 65527#16 ≤ checksum then checksum + 9#16 else checksum + 8#16 := rfl
  rw [hswap, hswap']
  rw [hval] at hnew
  split at hnew
  next hle =>
    have hle' : 65527 ≤ checksum.toNat := hle
    have hmod : (checksum.toNat + 9) % 65536 = checksum.toNat + 9 - 65536 := by omega
    rw [BitVec.toNat_add] at hnew
    have hwrap := hnew.symm.trans hmod
    have hhi : hi = 255 := by omega
    have hzero : hi' = 0 := by omega
    omega
  next hlt =>
    have hlt' : ¬ 65527 ≤ checksum.toNat := hlt
    have hmod : (checksum.toNat + 8) % 65536 = checksum.toNat + 8 := by omega
    rw [BitVec.toNat_add] at hnew
    have hsum := hnew.symm.trans hmod
    -- the low byte is the high one in network order: its carry is the end-around one
    by_cases hcarry : lo < 248
    · have hsame : hi' = hi := by omega
      omega
    · have hnext : hi' = hi + 1 := by omega
      omega

/-! ## The answer -/

/-- What the answer owes. -/
structure EchoRight (skb reply : Skbuff) (len : Nat) : Prop where
  th : reply.th = skb.th
  type : reply.mem skb.th = 0#8
  kept : ∀ i, i ≠ skb.th → i ≠ skb.th + 2 → i ≠ skb.th + 3 → reply.mem i = skb.mem i
  check : (sipChksum reply.mem skb.th len).val = 0#16

/-- The message has nothing in it but its type and its checksum. -/
def BlankMessage (m : Mem) (th len : Nat) : Prop :=
  ∀ i < len, i ≠ 0 → i ≠ 2 → i ≠ 3 → m (th + i) = 0#8

section Echo

variable {skb : Skbuff} {len : Nat}

theorem echoSkb_type (skb : Skbuff) : (echoSkb skb).mem skb.th = 0#8 := by
  have htype : skb.mem.write skb.th [0#8] skb.th = 0#8 := by simp [Mem.write]
  exact (Mem.write_apart (.inl (Nat.lt_add_of_pos_right Nat.zero_lt_two))).trans htype

theorem echoSkb_checksum (skb : Skbuff) :
    (echoSkb skb).mem.u16 (skb.th + 2) = echoChecksum (skb.mem.u16 (skb.th + 2)) :=
  Mem.u16_write_self

theorem echoSkb_kept {i : Nat} (h0 : i ≠ skb.th) (h2 : i ≠ skb.th + 2) (h3 : i ≠ skb.th + 3) :
    (echoSkb skb).mem i = skb.mem i := by
  have hcheck : i < skb.th + 2 ∨ skb.th + 2 + (bytesOf16 (echoChecksum
      (skb.mem.u16 (skb.th + 2)))).length ≤ i := by
    rw [bytesOf16]
    simp only [List.length_cons, List.length_nil]
    omega
  have htype : i < skb.th ∨ skb.th + [0#8].length ≤ i := by
    rw [List.length_singleton]
    omega
  exact (Mem.write_apart hcheck).trans (Mem.write_apart htype)

/-- The sum of a message with its first two words apart. -/
theorem beWords_sum_message (m : Mem) (th : Nat) (h : 4 ≤ len) :
    (beWords m len th).sum = (m th).toNat * 256 + (m (th + 1)).toNat +
      (htons (m.u16 (th + 2))).toNat + (beWords m (len - 4) (th + 4)).sum := by
  obtain ⟨len, rfl⟩ : ∃ l, len = l + 2 + 2 := ⟨len - 4, by omega⟩
  have hword : (htons (m.u16 (th + 2))).toNat = _ := Mem.ntohs_u16 m (th + 2)
  rw [beWords, beWords, List.sum_cons, List.sum_cons, hword, ← Nat.add_assoc]
  rfl

theorem blankMessage_iff (m : Mem) (th : Nat) (h : 4 ≤ len) :
    BlankMessage m th len ↔
      (m (th + 1)).toNat = 0 ∧ (beWords m (len - 4) (th + 4)).sum = 0 := by
  rw [beWords_sum_eq_zero]
  constructor
  · intro hb
    refine ⟨congrArg BitVec.toNat (hb 1 (by omega) (by decide) (by decide) (by decide)),
      fun i hi => ?_⟩
    rw [Nat.add_assoc]
    exact hb (4 + i) (by omega) (by omega) (by omega) (by omega)
  · rintro ⟨hcode, hrest⟩ i hi h0 h2 h3
    by_cases h1 : i = 1
    · subst h1
      exact BitVec.eq_of_toNat_eq hcode
    · have := hrest (i - 4) (by omega)
      rwa [Nat.add_assoc, Nat.add_sub_of_le (by omega : 4 ≤ i)] at this

/-- The answer to a request that verifies does so too, unless there is nothing in the request. -/
theorem echoSkb_verifies_iff (h : 4 ≤ len) (htype : skb.mem skb.th = 8#8)
    (hsum : Verifies skb.mem skb.th len) :
    Verifies (echoSkb skb).mem skb.th len ↔ ¬ BlankMessage skb.mem skb.th len := by
  have hcode : (echoSkb skb).mem (skb.th + 1) = skb.mem (skb.th + 1) :=
    echoSkb_kept (by omega) (by omega) (by omega)
  have hrest : beWords (echoSkb skb).mem (len - 4) (skb.th + 4) =
      beWords skb.mem (len - 4) (skb.th + 4) := beWords_congr _ _ _ fun i _ =>
    echoSkb_kept (by omega) (by omega) (by omega)
  have hold : (skb.mem skb.th).toNat = 8 := congrArg BitVec.toNat htype
  have hnew : ((echoSkb skb).mem skb.th).toNat = 0 := congrArg BitVec.toNat (echoSkb_type skb)
  have hcheck := (htons (skb.mem.u16 (skb.th + 2))).isLt
  have hcases := echoChecksum_cases (skb.mem.u16 (skb.th + 2))
  rw [Verifies, onesSum_eq_iff (beWords_le _ _ _), beWords_sum_message _ _ h] at hsum
  rw [Verifies, onesSum_eq_iff (beWords_le _ _ _), beWords_sum_message _ _ h,
    blankMessage_iff _ _ h, hcode, hrest, echoSkb_checksum]
  omega

end Echo

/-- **The answer to an echo request.** Of a request that verifies, the answer has type 0 and all
else as it was, and verifies, if and only if the request has something in it besides its type
and its checksum. -/
theorem echoRight_iff {dev : NetDevice} {skb reply : Skbuff} {dest : BitVec 32} {len : Nat}
    (h8 : 8 ≤ len) (hlen : len ≤ 65535) (htype : skb.mem skb.th = 8#8)
    (hsum : (sipChksum skb.mem skb.th len).val = 0#16)
    (h : (icmpEcho dev skb).val = .echoed reply dest) :
    EchoRight skb reply len ↔ ¬ BlankMessage skb.mem skb.th len := by
  have h4 : 4 ≤ len := Nat.le_trans (by decide) h8
  have hreply : reply = echoSkb skb := by
    rw [icmpEcho_val] at h
    split at h
    next => cases h
    next =>
      cases h
      rfl
  subst hreply
  rw [sipChksum_eq_zero_iff hlen] at hsum
  rw [← echoSkb_verifies_iff h4 htype hsum, ← sipChksum_eq_zero_iff hlen]
  exact ⟨fun hright => hright.check, fun hcheck =>
    ⟨rfl, echoSkb_type skb, fun i => echoSkb_kept, hcheck⟩⟩

/-- A packet of 10.0.0.2 to 10.0.0.1 with this message behind its header of 20 bytes. -/
def icmpFrame (message : List Byte) : Mem := fun o =>
  (host.hwaddr.bytes ++ List.replicate 6 0x02#8 ++ [0x08#8, 0#8] ++
    [0x45#8, 0#8, 0#8, 20#8, 0#8, 0#8, 0#8, 0#8, 64#8, 1#8, 0x66#8, 0xE7#8] ++
    [10#8, 0#8, 0#8, 2#8] ++ [10#8, 0#8, 0#8, 1#8] ++ message).getD o 0#8

/-- An echo request with this checksum and identifier. -/
def echoRequest (checksum ident : BitVec 16) : Skbuff :=
  transportSkb (checkedSkb (icmpFrame ([8#8, 0#8] ++ bytesOf16 checksum ++ bytesOf16 ident)) 42)

/-- A request to the host is answered. -/
theorem icmpEcho_host {skb : Skbuff} (hdest : ipDaddr skb.mem skb.nh = host.ipHost) :
    (icmpEcho host skb).val = .echoed (echoSkb skb) (ipSaddr skb.mem skb.nh) := by
  rw [icmpEcho_val, hdest, if_neg (by decide)]

theorem echoRight_request : EchoRight (echoRequest 0xFEF7#16 0x0100#16)
    (echoSkb (echoRequest 0xFEF7#16 0x0100#16)) 8 := by
  refine (echoRight_iff (by decide) (by decide) (by decide) (by decide)
    (icmpEcho_host (by decide))).mpr fun h => ?_
  exact absurd (h 5 (by decide) (by decide) (by decide) (by decide)) (by decide)

/-- An echo request with identifier, sequence number and code zero and no data: it verifies, and
the checksum of the answer to it is wrong. -/
theorem not_echoRight_blank :
    (sipChksum (echoRequest 0xFFF7#16 0#16).mem 34 8).val = 0#16 ∧
      (icmpEcho host (echoRequest 0xFFF7#16 0#16)).val =
        .echoed (echoSkb (echoRequest 0xFFF7#16 0#16))
          (ipSaddr (echoRequest 0xFFF7#16 0#16).mem ethHlen) ∧
      ¬ EchoRight (echoRequest 0xFFF7#16 0#16) (echoSkb (echoRequest 0xFFF7#16 0#16)) 8 := by
  refine ⟨by decide, icmpEcho_host (by decide), fun h => ?_⟩
  exact absurd h.check (by decide)

end LinuxNet.Sip
