import LinuxNet.Lib.OnesComplement
import LinuxNet.Sip.Skbuff

/-!
# The Internet checksum of the stack

`SIP_ChksumStandard` and `SIP_Chksum` of `sip_skbuff.c`. The accumulator has 32
bits and takes big-endian words; the carries are folded in twice at the end.
`sipChksum_eq_zero_iff` says what a zero result means: the block verifies, its
one's-complement sum is all ones. `verifies_withChecksum` says how to get such a
block: by storing the checksum in a field that was zero. `sipChksum_log` says
which bytes were read.
-/

namespace LinuxNet.Sip

/-- The `while` loop of `SIP_ChksumStandard` and the odd octet behind it. -/
def chksumLoop (m : Mem) : Nat → Nat → Nat → Traced Ev Nat
  | 0, _, acc => return acc
  | 1, o, acc => do
    let b ← peek8 m o
    return (acc + b.toNat * 256) % 4294967296
  | len + 2, o, acc => do
    let b0 ← peek8 m o
    let b1 ← peek8 m (o + 1)
    chksumLoop m len (o + 2) ((acc + (b0.toNat * 256 + b1.toNat)) % 4294967296)

/-- `SIP_ChksumStandard`. -/
def sipChksumStandard (m : Mem) (o len : Nat) : Traced Ev (BitVec 16) := do
  let acc ← chksumLoop m len o 0
  let acc := acc / 65536 + acc % 65536
  let acc := if acc / 65536 ≠ 0 then acc / 65536 + acc % 65536 else acc
  return htons (BitVec.ofNat 16 acc)

/-- `SIP_Chksum`. Its own carry loop has nothing to do: the accumulator it
starts from is 16 bits wide. -/
def sipChksum (m : Mem) (o len : Nat) : Traced Ev (BitVec 16) := do
  let acc ← sipChksumStandard m o len
  return ~~~acc

/-! ## What it computes -/

/-- The big-endian words of a block; an odd octet at the end is a high octet. -/
def beWords (m : Mem) : Nat → Nat → List Nat
  | 0, _ => []
  | 1, o => [(m o).toNat * 256]
  | len + 2, o => ((m o).toNat * 256 + (m (o + 1)).toNat) :: beWords m len (o + 2)

/-- The block verifies: the one's-complement sum of its words is all ones. -/
def Verifies (m : Mem) (o len : Nat) : Prop := onesSum (beWords m len o) = 65535

instance (m : Mem) (o len : Nat) : Decidable (Verifies m o len) := by
  unfold Verifies; infer_instance

theorem beWords_le (m : Mem) : ∀ (len o : Nat), ∀ w ∈ beWords m len o, w ≤ 65535
  | 0, _, _, hw => nomatch hw
  | 1, o, w, hw => by
    have := (m o).isLt
    rw [beWords, List.mem_singleton] at hw
    omega
  | len + 2, o, w, hw => by
    have h0 := (m o).isLt
    have h1 := (m (o + 1)).isLt
    rw [beWords, List.mem_cons] at hw
    rcases hw with rfl | hw
    · omega
    · exact beWords_le m len (o + 2) w hw

theorem beWords_sum_le (m : Mem) : ∀ (len o : Nat), (beWords m len o).sum ≤ 65535 * ((len + 1) / 2)
  | 0, _ => Nat.zero_le _
  | 1, o => by
    have := (m o).isLt
    rw [beWords, List.sum_singleton]
    omega
  | len + 2, o => by
    have h0 := (m o).isLt
    have h1 := (m (o + 1)).isLt
    have ih := beWords_sum_le m len (o + 2)
    rw [beWords, List.sum_cons]
    omega

/-- The sum is zero only for a block of zeros. -/
theorem beWords_sum_eq_zero {m : Mem} : ∀ (len o : Nat),
    (beWords m len o).sum = 0 ↔ ∀ i < len, m (o + i) = 0#8
  | 0, _ => iff_of_true rfl fun i hi => absurd hi (Nat.not_lt_zero i)
  | 1, o => by
    rw [beWords, List.sum_singleton, Nat.mul_eq_zero, or_iff_left (by decide)]
    constructor
    · intro h i hi
      obtain rfl : i = 0 := by omega
      exact BitVec.eq_of_toNat_eq h
    · intro h
      exact congrArg BitVec.toNat (h 0 Nat.zero_lt_one)
  | len + 2, o => by
    rw [beWords, List.sum_cons, Nat.add_eq_zero_iff, beWords_sum_eq_zero len (o + 2)]
    constructor
    · intro ⟨hword, hrest⟩ i hi
      rcases Nat.lt_or_ge i 2 with hi2 | hi2
      · have h0 : m o = 0#8 := BitVec.eq_of_toNat_eq (show (m o).toNat = 0 by omega)
        have h1 : m (o + 1) = 0#8 := BitVec.eq_of_toNat_eq (show (m (o + 1)).toNat = 0 by omega)
        rcases Nat.le_one_iff_eq_zero_or_eq_one.mp (Nat.le_of_lt_succ hi2) with rfl | rfl
        · exact h0
        · exact h1
      · have := hrest (i - 2) (by omega)
        rwa [Nat.add_assoc, Nat.add_sub_of_le hi2] at this
    · intro h
      have h0 : m o = 0#8 := h 0 (Nat.zero_lt_succ _)
      have h1 : m (o + 1) = 0#8 := h 1 (Nat.succ_lt_succ (Nat.zero_lt_succ _))
      refine ⟨by rw [h0, h1]; rfl, fun i hi => ?_⟩
      rw [Nat.add_assoc, Nat.add_comm 2]
      exact h (i + 2) (Nat.add_lt_add_right hi 2)

/-- The accumulator does not overflow as long as the sum fits it. -/
theorem chksumLoop_val (m : Mem) : ∀ (len o acc : Nat),
    acc + (beWords m len o).sum < 4294967296 →
      (chksumLoop m len o acc).val = acc + (beWords m len o).sum
  | 0, _, acc, _ => by
    rw [chksumLoop, beWords, List.sum_nil, Nat.add_zero]
    rfl
  | 1, o, acc, h => by
    rw [beWords, List.sum_singleton] at h ⊢
    change (acc + (m o).toNat * 256) % 4294967296 = _
    omega
  | len + 2, o, acc, h => by
    rw [beWords, List.sum_cons] at h ⊢
    have hacc : (acc + ((m o).toNat * 256 + (m (o + 1)).toNat)) % 4294967296 =
        acc + ((m o).toNat * 256 + (m (o + 1)).toNat) := by omega
    change (chksumLoop m len (o + 2)
      ((acc + ((m o).toNat * 256 + (m (o + 1)).toNat)) % 4294967296)).val = _
    rw [hacc, chksumLoop_val m len (o + 2) _ (by omega)]
    omega

/-- The two conditional folds of the source are two folds. -/
theorem sipChksumStandard_val {m : Mem} {o len : Nat} (h : len ≤ 65535) :
    (sipChksumStandard m o len).val =
      htons (BitVec.ofNat 16 (fold (fold (beWords m len o).sum))) := by
  have hsum := beWords_sum_le m len o
  have hval := chksumLoop_val m len o 0 (by omega)
  rw [Nat.zero_add] at hval
  simp only [sipChksumStandard, Traced.val_bind, Traced.val_pure, hval]
  change htons (BitVec.ofNat 16 (if fold _ / 65536 ≠ 0 then fold (fold _) else fold _)) = _
  split
  next => rfl
  next hlt => rw [fold_of_lt (n := fold (beWords m len o).sum) (by omega)]

/-- **A zero checksum**: `SIP_Chksum` returns 0 exactly for a block that verifies. -/
theorem sipChksum_eq_zero_iff {m : Mem} {o len : Nat} (h : len ≤ 65535) :
    (sipChksum m o len).val = 0#16 ↔ Verifies m o len := by
  have hsum := beWords_sum_le m len o
  have hle := fold_fold_le (n := (beWords m len o).sum) (by omega)
  have hnot : ∀ x : BitVec 16, ~~~x = 0#16 ↔ x = htons 0xFFFF#16 := fun x => by
    rw [show htons 0xFFFF#16 = ~~~0#16 by decide]
    constructor
    · intro hx
      rw [← hx, BitVec.not_not]
    · intro he
      subst he
      decide
  change ~~~(sipChksumStandard m o len).val = 0#16 ↔ _
  rw [hnot, sipChksumStandard_val h, htons_inj, Verifies, onesSum_eq_iff (beWords_le m len o),
    ← fold_fold_eq_iff (by omega)]
  constructor
  · intro hx
    have := congrArg BitVec.toNat hx
    rw [BitVec.toNat_ofNat, Nat.mod_eq_of_lt (by omega)] at this
    exact this
  · intro hx
    rw [hx]

theorem sipChksum_val {m : Mem} {o len : Nat} (h : len ≤ 65535) :
    (sipChksum m o len).val = htons (~~~BitVec.ofNat 16 (onesSum (beWords m len o))) := by
  have hsum := beWords_sum_le m len o
  rw [← not_htons, onesSum_eq_fold (beWords_le m len o) (by omega)]
  exact congrArg (~~~ ·) (sipChksumStandard_val h)

/-! ## The checksum field -/

/-- The words depend on nothing but the block. -/
theorem beWords_congr {m m' : Mem} : ∀ (len o o' : Nat), (∀ i < len, m (o + i) = m' (o' + i)) →
    beWords m len o = beWords m' len o'
  | 0, _, _, _ => rfl
  | 1, o, o', h => by
    have h0 : m o = m' o' := h 0 Nat.zero_lt_one
    rw [beWords, beWords, h0]
  | len + 2, o, o', h => by
    have h0 : m o = m' o' := h 0 (Nat.zero_lt_succ _)
    have h1 : m (o + 1) = m' (o' + 1) := h 1 (Nat.succ_lt_succ (Nat.zero_lt_succ _))
    have ih := beWords_congr len (o + 2) (o' + 2) fun i hi => by
      have := h (i + 2) (Nat.add_lt_add_right hi 2)
      rwa [Nat.add_comm i 2, ← Nat.add_assoc, ← Nat.add_assoc] at this
    rw [beWords, beWords, h0, h1, ih]

/-- A word stored at an even offset, where there was a zero, comes to the sum. -/
theorem beWords_sum_write (m : Mem) (x : BitVec 16) : ∀ (k len o : Nat), 2 * k + 2 ≤ len →
    (beWords (m.write (o + 2 * k) (bytesOf16 x)) len o).sum =
      (beWords (m.write (o + 2 * k) [0#8, 0#8]) len o).sum + (htons x).toNat := by
  intro k
  induction k with
  | zero =>
    intro len o hlen
    obtain ⟨len, rfl⟩ : ∃ l, len = l + 2 := ⟨len - 2, by omega⟩
    have hrest : ∀ bs : List Byte, bs.length = 2 →
        beWords (m.write o bs) len (o + 2) = beWords m len (o + 2) := fun bs hbs =>
      beWords_congr len _ _ fun i _ => Mem.write_apart (.inr (hbs ▸ Nat.le_add_right ..))
    obtain ⟨h0, h1⟩ := @Mem.write_bytesOf16 m o x
    have hz : m.write o [0#8, 0#8] o = 0#8 ∧ m.write o [0#8, 0#8] (o + 1) = 0#8 :=
      @Mem.write_bytesOf16 m o 0#16
    rw [Nat.mul_zero, Nat.add_zero, beWords, beWords, List.sum_cons, List.sum_cons,
      hrest _ rfl, hrest _ rfl, h0, h1, hz.1, hz.2, byteOf_toNat, BitVec.toNat_ofNat]
    omega
  | succ k ih =>
    intro len o hlen
    obtain ⟨len, rfl⟩ : ∃ l, len = l + 2 := ⟨len - 2, by omega⟩
    have hplace : o + 2 * (k + 1) = o + 2 + 2 * k := by omega
    have h0 : ∀ bs, m.write (o + 2 + 2 * k) bs o = m o := fun bs => Mem.write_apart (.inl (by omega))
    have h1 : ∀ bs, m.write (o + 2 + 2 * k) bs (o + 1) = m (o + 1) := fun bs =>
      Mem.write_apart (.inl (by omega))
    rw [hplace, beWords, beWords, List.sum_cons, List.sum_cons, ih len (o + 2) (by omega), h0, h0,
      h1, h1, ← Nat.add_assoc]

/-- `check = 0; check = SIP_Chksum(block)`, for a field in the block. -/
def withChecksum (m : Mem) (o len off : Nat) : Mem :=
  let m := m.write (o + off) [0#8, 0#8]
  m.write (o + off) (bytesOf16 (sipChksum m o len).val)

/-- **The checksum field**: with its checksum in the field, a block verifies. -/
theorem verifies_withChecksum {m : Mem} {o len off : Nat} (h : len ≤ 65535) (heven : off % 2 = 0)
    (hoff : off + 2 ≤ len) : Verifies (withChecksum m o len off) o len := by
  obtain ⟨k, rfl⟩ : ∃ k, off = 2 * k := ⟨off / 2, by omega⟩
  have hwords := beWords_le (m.write (o + 2 * k) [0#8, 0#8]) len o
  have hlt := Nat.lt_succ_of_le (onesSum_spec hwords).1
  -- the word of the field is the complement of the sum
  have hfield : (htons (sipChksum (m.write (o + 2 * k) [0#8, 0#8]) o len).val).toNat =
      65535 - onesSum (beWords (m.write (o + 2 * k) [0#8, 0#8]) len o) := by
    rw [sipChksum_val h, htons_htons, BitVec.toNat_not, BitVec.toNat_ofNat, Nat.mod_eq_of_lt hlt]
  have hsame : withChecksum m o len (2 * k) = m.write (o + 2 * k)
      (bytesOf16 (sipChksum (m.write (o + 2 * k) [0#8, 0#8]) o len).val) := Mem.write_write rfl
  rw [Verifies, onesSum_eq_iff (beWords_le _ _ _), hsame, beWords_sum_write m _ k len o hoff, hfield]
  exact onesSum_complement hwords

/-! ## What it reads -/

theorem chksumLoop_log (m : Mem) : ∀ (len o acc : Nat),
    (chksumLoop m len o acc).log = (List.range' o len).map .read
  | 0, _, _ => rfl
  | 1, _, _ => rfl
  | len + 2, o, acc => by
    change Ev.read o :: Ev.read (o + 1) :: (chksumLoop m len (o + 2) _).log = _
    rw [chksumLoop_log m len (o + 2)]
    rfl

/-- The checksum reads the block, octet by octet. -/
theorem sipChksum_log (m : Mem) (o len : Nat) :
    (sipChksum m o len).log = (List.range' o len).map .read := by
  change (((chksumLoop m len o 0).log ++ []) ++ []) = _
  rw [List.append_nil, List.append_nil, chksumLoop_log]

end LinuxNet.Sip
