import LinuxNet.Sip.Fragment

/-!
# Checksums that are written and checked

What the two checksum functions owe their callers: no carry is lost on the way
(`SumFits`), the result is the complement of the one's-complement sum, and a block
that has its own checksum in a field verifies. `ip_output` writes such a header,
so that a receiver that gets it finds a checksum of zero (`sipChksum_right`).
-/

namespace LinuxNet.Sip

/-- Every addition to the accumulator fits its 32 bits. -/
def SumFits (m : Mem) : Nat → Nat → Nat → Prop
  | 0, _, _ => True
  | 1, o, acc => acc + (m o).toNat * 256 < 4294967296
  | len + 2, o, acc =>
    acc + ((m o).toNat * 256 + (m (o + 1)).toNat) < 4294967296 ∧
      SumFits m len (o + 2) (acc + ((m o).toNat * 256 + (m (o + 1)).toNat))

theorem sumFits_of_lt (m : Mem) : ∀ (len o acc : Nat),
    acc + (beWords m len o).sum < 4294967296 → SumFits m len o acc
  | 0, _, _, _ => trivial
  | 1, o, acc, h => by rwa [beWords, List.sum_singleton] at h
  | len + 2, o, acc, h => by
    rw [beWords, List.sum_cons, ← Nat.add_assoc] at h
    exact ⟨Nat.lt_of_le_of_lt (Nat.le_add_right ..) h, sumFits_of_lt m len (o + 2) _ h⟩

/-- A buffer with the header of another. -/
def SameHeader (skb r : Skbuff) : Prop := ∀ i < iphdrLen, r.mem (r.nh + i) = skb.mem (skb.nh + i)

/-- The header that `ip_output` fills in verifies. -/
theorem ipHeader_verifies (a : IpArgs) (skb : Skbuff) :
    Verifies (ipHeader a skb).mem skb.nh iphdrLen :=
  @verifies_withChecksum _ skb.nh iphdrLen 10 (by decide) (by decide) (by decide)

/-- **The Internet checksum.** For every block of at most 65535 bytes no addition overflows, so
that the accumulator is the sum of the big-endian words; the result is the complement of their
one's-complement sum in network order; and a block with its own checksum in a field at an even
offset has the checksum zero. So has the header of `ip_output`, wherever it is received. -/
theorem sipChksum_right {m : Mem} {o len : Nat} (h : len ≤ 65535) :
    SumFits m len o 0 ∧
      (chksumLoop m len o 0).val = (beWords m len o).sum ∧
      (sipChksum m o len).val = htons (~~~BitVec.ofNat 16 (onesSum (beWords m len o))) ∧
      (∀ off, off % 2 = 0 → off + 2 ≤ len →
        (sipChksum (withChecksum m o len off) o len).val = 0#16) ∧
      ∀ a skb r, SameHeader (ipHeader a skb) r → (sipChksum r.mem r.nh iphdrLen).val = 0#16 := by
  have hsum := beWords_sum_le m len o
  have hlt : 0 + (beWords m len o).sum < 4294967296 := by omega
  refine ⟨sumFits_of_lt m len o 0 hlt, (chksumLoop_val m len o 0 hlt).trans (Nat.zero_add _),
    sipChksum_val h, fun off heven hoff => ?_, fun a skb r hsame => ?_⟩
  · exact (sipChksum_eq_zero_iff h).mpr (verifies_withChecksum h heven hoff)
  · have hwords := beWords_congr iphdrLen r.nh (ipHeader a skb).nh hsame
    rw [sipChksum_eq_zero_iff (by decide), Verifies, hwords]
    exact ipHeader_verifies a skb

/-- Three bytes, the last of which is the high octet of a word. -/
def oddBytes : Mem := fun o => [0x45#8, 0x00#8, 0x03#8].getD o 0#8

theorem sipChksum_oddBytes : (sipChksum oddBytes 0 3).val = 0xFFB7#16 ∧
    (sipChksum (withChecksum oddBytes 0 3 0) 0 3).val = 0#16 := by
  obtain ⟨-, -, hval, hstored, -⟩ := @sipChksum_right oddBytes 0 3 (by decide)
  exact ⟨hval.trans (by decide), hstored 0 rfl (by decide)⟩

end LinuxNet.Sip
