import LinuxNet.Ping.Ping
import LinuxNet.Sip.Checksum

/-!
# The checksum of `ping`

`icmp_cksum` adds the words as they lie in memory, `SIP_Chksum` adds them in network
order. Modulo 65535 the two sums differ by the factor 256 alone, which the swap of the
bytes takes out again, so that on an even length they are the same checksum. Of an odd
length the last byte is the *high* one of its word in both; in the order of memory this
is the byte that is padded in front, so that the two sums agree only if it is zero
(`icmpCksum_iff`).
-/

namespace LinuxNet.Ping

/-! ## The accumulator -/

/-- The words that `icmp_cksum` adds. -/
def leWords (m : Mem) : Nat → Nat → List Nat
  | 0, _ => []
  | 1, o => [(m o).toNat * 256]
  | len + 2, o => ((m o).toNat + 256 * (m (o + 1)).toNat) :: leWords m len (o + 2)

/-- The byte behind the last whole word, or zero. -/
def oddByte (m : Mem) (len o : Nat) : Nat := if len % 2 = 0 then 0 else (m (o + len - 1)).toNat

/-- Every addition to the accumulator fits an `int`. -/
def IntFits (m : Mem) : Nat → Nat → Nat → Prop
  | 0, _, _ => True
  | 1, o, sum => sum + (m o).toNat * 256 < 2147483648
  | len + 2, o, sum =>
    sum + ((m o).toNat + 256 * (m (o + 1)).toNat) < 2147483648 ∧
      IntFits m len (o + 2) (sum + ((m o).toNat + 256 * (m (o + 1)).toNat))

/-- The guard `len & 0xfffe` of the loop: a whole word is left. -/
theorem guard_iff {len : Nat} (h : len ≤ 65535) : len &&& 0xfffe ≠ 0 ↔ 2 ≤ len := by
  have hdiv : (len &&& 0xfffe) / 2 = len / 2 := by
    rw [Nat.and_div_two, show 0xfffe / 2 = 2 ^ 15 - 1 from rfl, Nat.and_two_pow_sub_one_eq_mod]
    omega
  have hmod : ¬(len &&& 0xfffe) % 2 = 1 := by
    rw [Nat.and_mod_two_eq_one]
    exact fun hodd => absurd hodd.2 (by decide)
  omega

theorem leWords_sum_le (m : Mem) : ∀ (len o : Nat),
    (leWords m len o).sum ≤ 65535 * ((len + 1) / 2)
  | 0, _ => Nat.zero_le _
  | 1, o => by
    have := (m o).isLt
    rw [leWords, List.sum_singleton]
    omega
  | len + 2, o => by
    have h0 := (m o).isLt
    have h1 := (m (o + 1)).isLt
    have ih := leWords_sum_le m len (o + 2)
    rw [leWords, List.sum_cons]
    omega

theorem intFits_of_lt (m : Mem) : ∀ (len o sum : Nat),
    sum + (leWords m len o).sum < 2147483648 → IntFits m len o sum
  | 0, _, _, _ => trivial
  | 1, o, sum, h => by rwa [leWords, List.sum_singleton] at h
  | len + 2, o, sum, h => by
    rw [leWords, List.sum_cons, ← Nat.add_assoc] at h
    exact ⟨Nat.lt_of_le_of_lt (Nat.le_add_right ..) h, intFits_of_lt m len (o + 2) _ h⟩

/-- The accumulator is the sum of the words as long as that fits. -/
theorem cksumLoop_toNat (m : Mem) : ∀ (len o : Nat) (sum : BitVec 32),
    sum.toNat + (leWords m len o).sum < 2147483648 →
      (cksumLoop m len o sum).toNat = sum.toNat + (leWords m len o).sum
  | 0, _, _, _ => rfl
  | 1, o, sum, h => by
    have hb := (m o).isLt
    rw [leWords, List.sum_singleton] at h ⊢
    rw [cksumLoop, BitVec.toNat_add, BitVec.toNat_shiftLeft, BitVec.toNat_setWidth,
      Nat.shiftLeft_eq]
    omega
  | len + 2, o, sum, h => by
    have h0 := (m o).isLt
    have h1 := (m (o + 1)).isLt
    rw [leWords, List.sum_cons] at h ⊢
    have hadd : (sum + (m.u16 o).setWidth 32).toNat =
        sum.toNat + ((m o).toNat + 256 * (m (o + 1)).toNat) := by
      rw [BitVec.toNat_add, BitVec.toNat_setWidth, Mem.u16, le16, BitVec.toNat_ofNat]
      omega
    rw [cksumLoop, cksumLoop_toNat m len (o + 2) _ (by omega), hadd]
    omega

/-- What the two additions at the end make of the accumulator. -/
theorem icmpCksum_eq {m : Mem} {o len : Nat} (h : len ≤ 65535) :
    icmpCksum m o len = ~~~BitVec.ofNat 16 (fold (fold (leWords m len o).sum)) := by
  have hle := leWords_sum_le m len o
  have hsum := cksumLoop_toNat m len o 0#32 (by rw [BitVec.toNat_ofNat]; omega)
  rw [BitVec.toNat_ofNat, Nat.zero_mod, Nat.zero_add] at hsum
  have hshift : ∀ x : BitVec 32, x.toNat < 2147483648 →
      (x.sshiftRight 16).toNat = x.toNat / 65536 := by
    intro x hx
    rw [BitVec.sshiftRight_eq_of_msb_false (by rw [BitVec.msb_eq_false_iff_two_mul_lt]; omega),
      BitVec.toNat_ushiftRight, Nat.shiftRight_eq_div_pow]
  have hfold : ∀ x : BitVec 32, x.toNat < 2147483648 →
      (x.sshiftRight 16 + (x &&& 0xFFFF#32)).toNat = fold x.toNat := by
    intro x hx
    rw [BitVec.toNat_add, hshift x hx, BitVec.toNat_and, BitVec.toNat_ofNat,
      show 0xFFFF % 2 ^ 32 = 2 ^ 16 - 1 from rfl, Nat.and_two_pow_sub_one_eq_mod, fold]
    omega
  have hs1 := (hfold (cksumLoop m len o 0#32) (by omega)).trans (congrArg fold hsum)
  have hlt : fold (leWords m len o).sum < 131072 := by
    unfold fold
    omega
  unfold icmpCksum
  dsimp only
  rw [BitVec.setWidth_not (by decide)]
  apply congrArg
  apply BitVec.eq_of_toNat_eq
  rw [BitVec.toNat_setWidth, BitVec.toNat_add, hshift _ (by omega), hs1, BitVec.toNat_ofNat]
  generalize fold (leWords m len o).sum = n at hlt ⊢
  unfold fold
  omega

/-! ## The two orders of bytes -/

/-- Modulo 65535 the words in the order of memory are the words in network order times 256, but
for the odd byte. -/
theorem leWords_mod (m : Mem) : ∀ (len o : Nat),
    ((leWords m len o).sum + oddByte m len o) % 65535 =
      ((Sip.beWords m len o).sum * 256 + oddByte m len o * 256) % 65535
  | 0, _ => by
    rw [leWords, Sip.beWords, oddByte, if_pos rfl, List.sum_nil, Nat.zero_mul]
  | 1, o => by
    have := (m o).isLt
    rw [leWords, Sip.beWords, List.sum_singleton, oddByte, if_neg (by decide),
      Nat.add_sub_cancel]
    omega
  | len + 2, o => by
    have h0 := (m o).isLt
    have h1 := (m (o + 1)).isLt
    have ih := leWords_mod m len (o + 2)
    have hodd : oddByte m (len + 2) o = oddByte m len (o + 2) := by
      unfold oddByte
      rw [Nat.add_mod_right, show o + (len + 2) - 1 = o + 2 + len - 1 by omega]
    rw [leWords, Sip.beWords, List.sum_cons, List.sum_cons, hodd]
    omega

/-- Both sums are zero for a block of zeros only. -/
theorem leWords_sum_eq_zero {m : Mem} : ∀ (len o : Nat),
    (leWords m len o).sum = 0 ↔ (Sip.beWords m len o).sum = 0
  | 0, _ => Iff.rfl
  | 1, _ => Iff.rfl
  | len + 2, o => by
    have ih := leWords_sum_eq_zero (m := m) len (o + 2)
    rw [leWords, Sip.beWords, List.sum_cons, List.sum_cons]
    omega

/-- A byte that counts as much high as it does low is zero. -/
theorem residue_iff {b n k : Nat} (hb : b < 256)
    (h : (n + b) % 65535 = (k * 256 + b * 256) % 65535) :
    n % 65535 = k * 256 % 65535 ↔ b = 0 := by
  omega

/-! ## The checksum -/

/-- `icmp_cksum` computes the Internet checksum of a block: the loop stops behind the last
whole word, no addition leaves the `int`, and the result is the complement of the
one's-complement sum of the words in network order, as it is stored in memory, and with it
what `SIP_Chksum` returns. -/
structure IsInternet (m : Mem) (o len : Nat) : Prop where
  goesOn : ∀ k ≤ len, k &&& 0xfffe ≠ 0 ↔ 2 ≤ k
  fits : IntFits m len o 0
  folds : fold (leWords m len o).sum + fold (leWords m len o).sum / 65536 < 2147483648
  value : icmpCksum m o len = htons (~~~BitVec.ofNat 16 (onesSum (Sip.beWords m len o)))
  same : icmpCksum m o len = (Sip.sipChksum m o len).val

/-- The two checksums are the same exactly if the odd byte is zero. -/
theorem icmpCksum_eq_iff {m : Mem} {o len : Nat} (h : len ≤ 65535) :
    icmpCksum m o len = htons (~~~BitVec.ofNat 16 (onesSum (Sip.beWords m len o))) ↔
      oddByte m len o = 0 := by
  have hle := leWords_sum_le m len o
  have hb : oddByte m len o < 256 := by
    unfold oddByte
    split
    · decide
    · exact (m (o + len - 1)).isLt
  obtain ⟨hones, hmod, hzero⟩ := onesSum_spec (Sip.beWords_le m len o)
  have hfold := fold_fold_le (n := (leWords m len o).sum) (by omega)
  have hres : fold (fold (leWords m len o).sum) % 65535 = (leWords m len o).sum % 65535 :=
    (fold_mod _).trans (fold_mod _)
  have hnil : fold (fold (leWords m len o).sum) = 0 ↔ onesSum (Sip.beWords m len o) = 0 := by
    rw [fold_eq_zero, fold_eq_zero, leWords_sum_eq_zero, hzero]
  have hcount : (BitVec.ofNat 16 (onesSum (Sip.beWords m len o))).toNat =
      onesSum (Sip.beWords m len o) := by
    rw [BitVec.toNat_ofNat, Nat.mod_eq_of_lt (by omega)]
  have hswap := htons_mod (BitVec.ofNat 16 (onesSum (Sip.beWords m len o)))
  obtain ⟨hi, lo, hhi, hlo, hx, hy⟩ :=
    htons_cases (BitVec.ofNat 16 (onesSum (Sip.beWords m len o)))
  rw [icmpCksum_eq h, ← not_htons, BitVec.not_inj, ← BitVec.toNat_inj, BitVec.toNat_ofNat,
    Nat.mod_eq_of_lt (by omega), ← residue_iff hb (leWords_mod m len o)]
  rw [hcount] at hswap hx
  -- both are single words with the same zero, so their residues decide
  constructor
  · intro he
    rw [← he] at hswap
    omega
  · intro he
    omega

/-- **The checksum of `ping`** is the Internet checksum of a block exactly if the length is
even or the last byte is zero. -/
theorem icmpCksum_iff {m : Mem} {o len : Nat} (h : len ≤ 65535) :
    IsInternet m o len ↔ len % 2 = 0 ∨ m (o + len - 1) = 0#8 := by
  have hodd : oddByte m len o = 0 ↔ len % 2 = 0 ∨ m (o + len - 1) = 0#8 := by
    unfold oddByte
    split
    next heven => exact iff_of_true rfl (.inl heven)
    next hne => rw [or_iff_right hne, ← BitVec.toNat_inj]; rfl
  have hle := leWords_sum_le m len o
  have hfold : fold (leWords m len o).sum < 131072 := by
    unfold fold
    omega
  rw [← hodd, ← icmpCksum_eq_iff h]
  refine ⟨fun hi => hi.value, fun hvalue => ?_⟩
  exact {
    goesOn := fun k hk => guard_iff (hk.trans h)
    fits := intFits_of_lt m len o 0 (by omega)
    folds := by omega
    value := hvalue
    same := hvalue.trans (Sip.sipChksum_val h).symm }

/-- Bytes that are all zero but the third. -/
def oddOne : Mem := fun o => if o = 2 then 1#8 else 0#8

theorem icmpCksum_iff_oddOne : ¬IsInternet oddOne 0 3 ∧ IsInternet oddOne 0 4 := by
  constructor
  · rw [icmpCksum_iff (by decide)]
    decide
  · exact (icmpCksum_iff (by decide)).mpr (.inl rfl)

theorem oddOne_wrong : ¬∀ (m : Mem) (o len : Nat), len ≤ 65535 → IsInternet m o len := by
  intro h
  have hsame := (h oddOne 0 3 (by decide)).same
  exact absurd hsame (by decide)

end LinuxNet.Ping
