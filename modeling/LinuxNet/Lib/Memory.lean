import LinuxNet.Lib.Trace

/-!
# Bytes, words and faults

Memory as C code sees it from a base pointer: a byte at every offset. A buffer
is such a memory plus the number of bytes that belong to it; what lies beyond
is whatever the machine holds there, so a read past the end *has* a value —
it is the trace (`rd8`, `rd16`, `rd32`) that tells it apart from a good one.

Words are little endian, as on the hosts the programs are written for;
`htons`/`htonl` swap bytes.
-/

namespace LinuxNet

/-- An octet. -/
abbrev Byte := BitVec 8

/-- Memory seen from a base pointer: the byte at every offset. -/
abbrev Mem := Nat → Byte

/-- Where a C program leaves its defined behaviour, or never comes back. -/
inductive Fault where
  /-- A NULL pointer is followed. -/
  | nullDeref
  /-- A cell that has been freed is read or written. -/
  | useAfterFree
  /-- An array is indexed outside its bounds. -/
  | outOfBounds
  /-- A loop does not end. -/
  | diverges
  deriving DecidableEq, Repr

/-! ## Little-endian words -/

/-- The 16-bit word stored as `b0 b1`. -/
def le16 (b0 b1 : Byte) : BitVec 16 := BitVec.ofNat 16 (b0.toNat + 256 * b1.toNat)

/-- The 32-bit word stored as `b0 b1 b2 b3`. -/
def le32 (b0 b1 b2 b3 : Byte) : BitVec 32 :=
  BitVec.ofNat 32
    (b0.toNat + 256 * b1.toNat + 65536 * b2.toNat + 16777216 * b3.toNat)

/-- Byte `k` of a word as it is stored in memory. -/
def byteOf {w : Nat} (k : Nat) (x : BitVec w) : Byte := BitVec.ofNat 8 (x.toNat / 256 ^ k)

/-- Storing a 16-bit word and loading it again gives it back. -/
theorem le16_byteOf (x : BitVec 16) : le16 (byteOf 0 x) (byteOf 1 x) = x := by
  apply BitVec.eq_of_toNat_eq
  have h := x.isLt
  simp only [le16, byteOf, BitVec.toNat_ofNat]
  omega

/-- Storing a 32-bit word and loading it again gives it back. -/
theorem le32_byteOf (x : BitVec 32) :
    le32 (byteOf 0 x) (byteOf 1 x) (byteOf 2 x) (byteOf 3 x) = x := by
  apply BitVec.eq_of_toNat_eq
  have h := x.isLt
  simp only [le32, byteOf, BitVec.toNat_ofNat]
  omega

/-- Without its last byte a 32-bit word is its low 24 bits. -/
theorem le32_zero (b0 b1 b2 b3 : Byte) :
    le32 b0 b1 b2 0#8 = ((le32 b0 b1 b2 b3).setWidth 24).setWidth 32 := by
  apply BitVec.eq_of_toNat_eq
  have h0 := b0.isLt
  have h1 := b1.isLt
  have h2 := b2.isLt
  simp only [le32, BitVec.toNat_setWidth, BitVec.toNat_ofNat]
  omega

/-- The bytes of a 16-bit word in memory order. -/
def bytesOf16 (x : BitVec 16) : List Byte := [byteOf 0 x, byteOf 1 x]

/-- The bytes of a 32-bit word in memory order. -/
def bytesOf32 (x : BitVec 32) : List Byte := [byteOf 0 x, byteOf 1 x, byteOf 2 x, byteOf 3 x]

/-- The 16-bit word at an offset. -/
def Mem.u16 (m : Mem) (o : Nat) : BitVec 16 := le16 (m o) (m (o + 1))

/-- The 32-bit word at an offset. -/
def Mem.u32 (m : Mem) (o : Nat) : BitVec 32 :=
  le32 (m o) (m (o + 1)) (m (o + 2)) (m (o + 3))

/-- Memory that was cleared. -/
def Mem.zero : Mem := fun _ => 0#8

/-- Overwrite the bytes from an offset on. -/
def Mem.write (m : Mem) (o : Nat) (bs : List Byte) : Mem := fun i =>
  if o ≤ i then bs.getD (i - o) (m i) else m i

section Write

variable {m : Mem} {o i : Nat} {bs : List Byte}

/-- A write leaves the bytes in front of it and behind it alone. -/
theorem Mem.write_apart (h : i < o ∨ o + bs.length ≤ i) : m.write o bs i = m i := by
  unfold Mem.write
  split
  next hle =>
    have hlen : bs.length ≤ i - o := by omega
    rw [List.getD_eq_getElem?_getD, List.getElem?_eq_none hlen, Option.getD_none]
  next => rfl

theorem Mem.u16_write_apart (h : i + 2 ≤ o ∨ o + bs.length ≤ i) :
    (m.write o bs).u16 i = m.u16 i := by
  rw [Mem.u16, Mem.u16, Mem.write_apart (by omega), Mem.write_apart (by omega)]

theorem Mem.u32_write_apart (h : i + 4 ≤ o ∨ o + bs.length ≤ i) :
    (m.write o bs).u32 i = m.u32 i := by
  rw [Mem.u32, Mem.u32, Mem.write_apart (by omega), Mem.write_apart (by omega),
    Mem.write_apart (by omega), Mem.write_apart (by omega)]

/-- Of two writes at one place the second counts. -/
theorem Mem.write_write {bs' : List Byte} (h : bs.length = bs'.length) :
    (m.write o bs).write o bs' = m.write o bs' := by
  funext i
  by_cases hi : i < o ∨ o + bs'.length ≤ i
  · rw [Mem.write_apart hi, Mem.write_apart hi, Mem.write_apart (h ▸ hi)]
  · have hlt : i - o < bs'.length := by omega
    have hle : o ≤ i := by omega
    simp only [Mem.write, if_pos hle, List.getD_eq_getElem?_getD, List.getElem?_eq_getElem hlt,
      Option.getD_some]

/-- A word that was stored, byte by byte. -/
theorem Mem.write_bytesOf16 {x : BitVec 16} :
    m.write o (bytesOf16 x) o = byteOf 0 x ∧ m.write o (bytesOf16 x) (o + 1) = byteOf 1 x := by
  simp [Mem.write, bytesOf16]

/-- A word that was stored is loaded again. -/
theorem Mem.u16_write_self {x : BitVec 16} : (m.write o (bytesOf16 x)).u16 o = x := by
  rw [Mem.u16, Mem.write_bytesOf16.1, Mem.write_bytesOf16.2, le16_byteOf]

theorem Mem.u32_write_self {x : BitVec 32} : (m.write o (bytesOf32 x)).u32 o = x := by
  have hbyte : ∀ k b, (bytesOf32 x)[k]? = some b → m.write o (bytesOf32 x) (o + k) = b := by
    intro k b hk
    rw [Mem.write, if_pos (Nat.le_add_right o k), Nat.add_sub_cancel_left,
      List.getD_eq_getElem?_getD, hk, Option.getD_some]
  have h0 : m.write o (bytesOf32 x) o = byteOf 0 x := hbyte 0 _ rfl
  rw [Mem.u32, h0, hbyte 1 _ rfl, hbyte 2 _ rfl, hbyte 3 _ rfl, le32_byteOf]

/-- Store a word at an offset of its own for each entry of a list. -/
def Mem.writeWords {ι : Type} (m : Mem) (off : ι → Nat) (word : ι → BitVec 32) (l : List ι) :
    Mem :=
  l.foldl (fun m i => m.write (off i) (bytesOf32 (word i))) m

theorem Mem.u32_writeWords_apart {ι : Type} {off : ι → Nat} {word : ι → BitVec 32} {l : List ι} :
    ∀ {m : Mem}, (∀ j ∈ l, i + 4 ≤ off j) → (m.writeWords off word l).u32 i = m.u32 i := by
  induction l with
  | nil =>
    intro m _
    rfl
  | cons j l ih =>
    intro m h
    have hj := h j (List.mem_cons_self ..)
    exact (ih fun k hk => h k (List.mem_cons_of_mem _ hk)).trans (Mem.u32_write_apart (.inl hj))

/-- Words stored at growing offsets are all loaded again. -/
theorem Mem.u32_writeWords {ι : Type} {off : ι → Nat} {word : ι → BitVec 32} {l : List ι}
    (hl : l.Pairwise fun j k => off j + 4 ≤ off k) :
    ∀ {m : Mem}, ∀ j ∈ l, (m.writeWords off word l).u32 (off j) = word j := by
  induction l with
  | nil =>
    intro m j hj
    cases hj
  | cons k l ih =>
    intro m j hj
    obtain ⟨hk, hl⟩ := List.pairwise_cons.mp hl
    rcases List.mem_cons.mp hj with rfl | hj
    · exact (Mem.u32_writeWords_apart hk).trans Mem.u32_write_self
    · exact ih hl j hj

end Write

/-! ## Places that are apart -/

/-- Overwrite several places, one after the other. -/
def Mem.writeAll (m : Mem) (l : List (Nat × List Byte)) : Mem :=
  l.foldl (fun m w => m.write w.1 w.2) m

/-- Two places have no byte in common. -/
def ApartFrom (v w : Nat × List Byte) : Prop := v.1 + v.2.length ≤ w.1 ∨ w.1 + w.2.length ≤ v.1

section Places

variable {m : Mem} {l : List (Nat × List Byte)} {i : Nat}

theorem Mem.writeAll_apart : ∀ {m : Mem}, (∀ w ∈ l, i < w.1 ∨ w.1 + w.2.length ≤ i) →
    m.writeAll l i = m i := by
  induction l with
  | nil =>
    intro m _
    rfl
  | cons w l ih =>
    intro m h
    exact (ih fun v hv => h v (List.mem_cons_of_mem _ hv)).trans
      (Mem.write_apart (h w (List.mem_cons_self ..)))

/-- A byte of what was written. -/
theorem Mem.write_get {o : Nat} {bs : List Byte} (k : Nat) (hk : k < bs.length) :
    m.write o bs (o + k) = bs[k] := by
  unfold Mem.write
  rw [if_pos (Nat.le_add_right o k), Nat.add_sub_cancel_left, List.getD_eq_getElem?_getD,
    List.getElem?_eq_getElem hk, Option.getD_some]

/-- Bytes stored at places that are apart are all there. -/
theorem Mem.writeAll_apply (hl : l.Pairwise ApartFrom) : ∀ {m : Mem}, ∀ w ∈ l,
    ∀ (k : Nat) (hk : k < w.2.length), m.writeAll l (w.1 + k) = w.2[k] := by
  induction l with
  | nil =>
    intro m w hw
    cases hw
  | cons v l ih =>
    intro m w hw k hk
    obtain ⟨hv, hl⟩ := List.pairwise_cons.mp hl
    rcases List.mem_cons.mp hw with rfl | hw
    · show (m.write w.1 w.2).writeAll l (w.1 + k) = w.2[k]
      refine (Mem.writeAll_apart fun u hu => ?_).trans (Mem.write_get k hk)
      rcases hv u hu with h | h
      · exact .inl (by omega)
      · exact .inr (by omega)
    · exact ih hl w hw k hk

theorem Mem.u16_writeAll (hl : l.Pairwise ApartFrom) {x : BitVec 16} (h : (i, bytesOf16 x) ∈ l) :
    (m.writeAll l).u16 i = x := by
  have h0 : m.writeAll l i = byteOf 0 x := Mem.writeAll_apply hl _ h 0 Nat.zero_lt_two
  have h1 : m.writeAll l (i + 1) = byteOf 1 x := Mem.writeAll_apply hl _ h 1 Nat.one_lt_two
  rw [Mem.u16, h0, h1, le16_byteOf]

theorem Mem.u32_writeAll (hl : l.Pairwise ApartFrom) {x : BitVec 32} (h : (i, bytesOf32 x) ∈ l) :
    (m.writeAll l).u32 i = x := by
  have hbyte : ∀ (k : Nat) (hk : k < 4), m.writeAll l (i + k) = (bytesOf32 x)[k] :=
    fun k hk => Mem.writeAll_apply hl _ h k hk
  have h0 : m.writeAll l i = byteOf 0 x := hbyte 0 (by decide)
  have h1 : m.writeAll l (i + 1) = byteOf 1 x := hbyte 1 (by decide)
  have h2 : m.writeAll l (i + 2) = byteOf 2 x := hbyte 2 (by decide)
  have h3 : m.writeAll l (i + 3) = byteOf 3 x := hbyte 3 (by decide)
  rw [Mem.u32, h0, h1, h2, h3, le32_byteOf]

theorem Mem.bytes_writeAll (hl : l.Pairwise ApartFrom) {bs : List Byte} (h : (i, bs) ∈ l) :
    (List.range' i bs.length).map (m.writeAll l) = bs := by
  refine List.ext_getElem (by rw [List.length_map, List.length_range']) fun k _ hk => ?_
  rw [List.getElem_map, List.getElem_range', Nat.one_mul]
  exact Mem.writeAll_apply hl _ h k hk

end Places

/-! ## Byte order -/

/-- `htons` of a little-endian host: the two bytes change places. -/
def htons (x : BitVec 16) : BitVec 16 :=
  BitVec.ofNat 16 (x.toNat % 256 * 256 + x.toNat / 256)

/-- `ntohs` is the same exchange of bytes. -/
abbrev ntohs (x : BitVec 16) : BitVec 16 := htons x

/-- `htonl` of a little-endian host: the four bytes are reversed. -/
def htonl (x : BitVec 32) : BitVec 32 :=
  le32 (byteOf 3 x) (byteOf 2 x) (byteOf 1 x) (byteOf 0 x)

theorem htons_toNat (x : BitVec 16) :
    (htons x).toNat = x.toNat % 256 * 256 + x.toNat / 256 := by
  have h := x.isLt
  simp only [htons, BitVec.toNat_ofNat]
  omega

/-- A word by its two bytes, and the word with the bytes swapped. -/
theorem htons_cases (x : BitVec 16) : ∃ hi lo, hi < 256 ∧ lo < 256 ∧
    x.toNat = 256 * hi + lo ∧ (htons x).toNat = 256 * lo + hi := by
  have h := x.isLt
  refine ⟨x.toNat / 256, x.toNat % 256, by omega, by omega, by omega, ?_⟩
  rw [htons_toNat, Nat.mul_comm]

/-- Modulo 65535 swapping the bytes is multiplying by 256. -/
theorem htons_mod (x : BitVec 16) : (htons x).toNat % 65535 = x.toNat * 256 % 65535 := by
  obtain ⟨hi, lo, hhi, hlo, hx, hy⟩ := htons_cases x
  omega

/-- A word of memory, taken for big endian. -/
theorem Mem.ntohs_u16 (m : Mem) (o : Nat) :
    (ntohs (m.u16 o)).toNat = (m o).toNat * 256 + (m (o + 1)).toNat := by
  have h0 := (m o).isLt
  have h1 := (m (o + 1)).isLt
  rw [ntohs, htons_toNat, Mem.u16, le16, BitVec.toNat_ofNat]
  omega

@[simp] theorem htons_htons (x : BitVec 16) : htons (htons x) = x := by
  apply BitVec.eq_of_toNat_eq
  have h := x.isLt
  rw [htons_toNat, htons_toNat]
  omega

/-- Swapping the bytes loses nothing. -/
theorem htons_inj {x y : BitVec 16} : htons x = htons y ↔ x = y :=
  ⟨fun h => by rw [← htons_htons x, h, htons_htons], fun h => by rw [h]⟩

@[simp] theorem htons_eq_zero {x : BitVec 16} : htons x = 0#16 ↔ x = 0#16 :=
  htons_inj (y := 0#16)

theorem not_htons (x : BitVec 16) : ~~~htons x = htons (~~~x) := by
  apply BitVec.eq_of_toNat_eq
  have h := x.isLt
  rw [BitVec.toNat_not, htons_toNat, htons_toNat, BitVec.toNat_not]
  omega

/-- The bytes of a word, the first taken for the high one. -/
theorem byteOf_toNat (x : BitVec 16) :
    (byteOf 0 x).toNat * 256 + (byteOf 1 x).toNat = (htons x).toNat := by
  have h := x.isLt
  rw [htons_toNat]
  simp only [byteOf, BitVec.toNat_ofNat]
  omega

/-- A number stored with `htons` is read back with `ntohs`, sixteen bits of it. -/
theorem ntohs_htons_ofNat (n : Nat) :
    (ntohs (htons (BitVec.ofNat 16 n))).toNat = n % 65536 := by
  change (htons (htons (BitVec.ofNat 16 n))).toNat = n % 65536
  rw [htons_htons, BitVec.toNat_ofNat]

/-- The word that stores a 16-bit number is the one that is read as that number. -/
theorem eq_htons_ofNat_iff {n : Nat} (hn : n < 65536) (x : BitVec 16) :
    x = htons (BitVec.ofNat 16 n) ↔ (ntohs x).toNat = n := by
  constructor
  · intro he
    subst he
    rw [ntohs_htons_ofNat, Nat.mod_eq_of_lt hn]
  · intro hx
    rw [← htons_inj, htons_htons]
    apply BitVec.eq_of_toNat_eq
    rw [BitVec.toNat_ofNat, Nat.mod_eq_of_lt hn]
    exact hx

/-! ## Reads that leave a trace -/

/-- Read one byte. -/
abbrev rd8 (m : Mem) (o : Nat) : Traced Nat Byte := ⟨m o, [o]⟩

/-- Read a 16-bit word. -/
abbrev rd16 (m : Mem) (o : Nat) : Traced Nat (BitVec 16) := ⟨m.u16 o, [o, o + 1]⟩

/-- Read a 32-bit word. -/
abbrev rd32 (m : Mem) (o : Nat) : Traced Nat (BitVec 32) :=
  ⟨m.u32 o, [o, o + 1, o + 2, o + 3]⟩

@[simp] theorem val_rd8 (m : Mem) (o : Nat) : (rd8 m o).val = m o := rfl

@[simp] theorem log_rd8 (m : Mem) (o : Nat) : (rd8 m o).log = [o] := rfl

@[simp] theorem val_rd16 (m : Mem) (o : Nat) : (rd16 m o).val = m.u16 o := rfl

@[simp] theorem log_rd16 (m : Mem) (o : Nat) : (rd16 m o).log = [o, o + 1] := rfl

@[simp] theorem val_rd32 (m : Mem) (o : Nat) : (rd32 m o).val = m.u32 o := rfl

@[simp] theorem log_rd32 (m : Mem) (o : Nat) :
    (rd32 m o).log = [o, o + 1, o + 2, o + 3] := rfl

end LinuxNet
