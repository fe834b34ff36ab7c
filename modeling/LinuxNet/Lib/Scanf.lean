import LinuxNet.Lib.Memory

/-!
# Reading and printing numbers in a buffer

`sscanf(buf, "%d\n", &n)`, `strcmp` and `sprintf("%d\n")` over the bytes of a
buffer that need not be terminated. `sscanf` is read one byte at a time, as an
automaton whose state is what has been recognised: white space, a sign, digits,
and the white space the `\n` of the format skips. It stops at the first byte
that does not fit. A buffer that ends before it has stopped is overrun.

What is written to the front of a buffer and what is still behind it are then
read by the same fold, and `Scan.Closes` says when the second part does not
change what the first part means.
-/

namespace LinuxNet

/-- The bytes of a string. -/
def bytesOf (s : List Char) : List Byte := s.map fun c => BitVec.ofNat 8 c.toNat

/-- `isspace` in the C locale. -/
def isSpaceByte (b : Byte) : Bool := b.toNat == 32 || (9 ≤ b.toNat && b.toNat ≤ 13)

/-- `isdigit`. -/
def isDigitByte (b : Byte) : Bool := 48 ≤ b.toNat && b.toNat ≤ 57

/-- `+` or `-`. -/
def isSignByte (b : Byte) : Bool := b.toNat == 43 || b.toNat == 45

/-! ## `strcmp` -/

/-- `strcmp(a, b) == 0`, up to the terminating NUL of both. -/
def strcmp0 : List Byte → List Byte → Bool
  | x :: xs, y :: ys => x == y && (x == 0#8 || strcmp0 xs ys)
  | _, _ => false

/-- A buffer equals a string without NUL if it starts with the string and a NUL. -/
theorem strcmp0_iff {name : List Byte} (hn : 0#8 ∉ name) : ∀ {buf : List Byte},
    strcmp0 buf (name ++ [0#8]) = true ↔ name ++ [0#8] <+: buf := by
  induction name with
  | nil =>
    intro buf
    cases buf with
    | nil => simp [strcmp0]
    | cons x xs =>
      rw [List.nil_append, List.cons_prefix_cons, strcmp0, Bool.and_eq_true, beq_iff_eq]
      constructor
      · intro h
        exact ⟨h.1.symm, List.nil_prefix⟩
      · intro h
        exact ⟨h.1.symm, by rw [← h.1]; rfl⟩
  -- equal at 0 would end the name, which has none
  | cons y ys ih =>
    intro buf
    obtain ⟨hy, hys⟩ := List.mem_cons.not.mp hn |> not_or.mp
    cases buf with
    | nil => simp [strcmp0]
    | cons x xs =>
      rw [List.cons_append, List.cons_prefix_cons, strcmp0, Bool.and_eq_true, beq_iff_eq,
        Bool.or_eq_true, beq_iff_eq, ih hys]
      constructor
      · intro h
        obtain ⟨rfl, h⟩ := h
        exact ⟨rfl, h.resolve_left fun h0 => hy h0.symm⟩
      · intro h
        exact ⟨h.1.symm, .inr h.2⟩

/-! ## `sscanf` with the format `%d\n` -/

/-- What has been recognised: white space, a sign, digits and their value, white
space behind the number; and the result once a byte did not fit, `none` where
nothing is stored. -/
inductive Scan where
  | space
  | signed (neg : Bool)
  | digits (neg : Bool) (v : Nat)
  | after (n : Int)
  | stop (result : Option Int)
  deriving DecidableEq, Repr

namespace Scan

/-- The number a sign and digits stand for. -/
def value (neg : Bool) (v : Nat) : Int := if neg then -(v : Int) else v

/-- The value of a digit. -/
def digit (b : Byte) : Nat := b.toNat - 48

/-- One more byte. -/
def next : Scan → Byte → Scan
  | space, b =>
    if isSpaceByte b then space
    else if isSignByte b then signed (b.toNat == 45)
    else if isDigitByte b then digits false (digit b)
    else stop none
  | signed neg, b => if isDigitByte b then digits neg (digit b) else stop none
  | digits neg v, b =>
    if isDigitByte b then digits neg (10 * v + digit b)
    else if isSpaceByte b then after (value neg v)
    else stop (some (value neg v))
  | after n, b => if isSpaceByte b then after n else stop (some n)
  | stop r, _ => stop r

/-- The result of a buffer, or the overrun. -/
def result : Scan → Except Fault (Option Int)
  | stop r => .ok r
  | _ => .error .outOfBounds

@[simp] theorem foldl_stop (r : Option Int) (bs : List Byte) :
    bs.foldl next (stop r) = stop r := by
  induction bs with
  | nil => rfl
  | cons b bs ih => rw [List.foldl_cons, next, ih]

end Scan

/-- `sscanf(buf, "%d\n", &n)`: the number it stores, if any. -/
def sscanfInt (buf : List Byte) : Except Fault (Option Int) := (buf.foldl Scan.next .space).result

namespace Scan

/-! ## What is behind the text -/

/-- Bytes that begin no number: behind their white space is a byte that starts none. -/
def NoNumber : List Byte → Prop
  | [] => False
  | b :: bs =>
    if isSpaceByte b then NoNumber bs
    else if isSignByte b then ∃ d, bs.head? = some d ∧ isDigitByte d = false
    else isDigitByte b = false

/-- The bytes behind do not go on with what has been recognised, and end it. -/
def Closes (stale : List Byte) : Scan → Prop
  | space => NoNumber stale
  | signed _ => ∃ b, stale.head? = some b ∧ isDigitByte b = false
  | digits _ _ =>
    (∃ b, stale.head? = some b ∧ isDigitByte b = false) ∧ ∃ b ∈ stale, isSpaceByte b = false
  | after _ => ∃ b ∈ stale, isSpaceByte b = false
  | stop _ => True

/-- White space behind a number ends at the first other byte. -/
theorem foldl_after {stale : List Byte} (n : Int) (h : ∃ b ∈ stale, isSpaceByte b = false) :
    stale.foldl next (after n) = stop (some n) := by
  induction stale with
  | nil =>
    obtain ⟨b, hb, -⟩ := h
    cases hb
  | cons c stale ih =>
    rw [List.foldl_cons, next]
    by_cases hc : isSpaceByte c = true
    · rw [if_pos hc]
      refine ih ?_
      obtain ⟨b, hb, hs⟩ := h
      rcases List.mem_cons.mp hb with rfl | hb
      · rw [hc] at hs
        cases hs
      · exact ⟨b, hb, hs⟩
    · rw [if_neg hc, foldl_stop]

theorem foldl_noNumber {stale : List Byte} (h : NoNumber stale) :
    stale.foldl next space = stop none := by
  induction stale with
  | nil => cases h
  | cons c stale ih =>
    rw [List.foldl_cons, next]
    rw [NoNumber] at h
    split at h
    next hc => rw [if_pos hc, ih h]
    next hc =>
      rw [if_neg hc]
      split at h
      next hs =>
        rw [if_pos hs]
        obtain ⟨d, hd, hdig⟩ := h
        cases stale with
        | nil => cases hd
        | cons e stale =>
          cases hd
          rw [List.foldl_cons, next, if_neg (by rw [hdig]; exact Bool.false_ne_true), foldl_stop]
      next hs => rw [if_neg hs, if_neg (by rw [h]; exact Bool.false_ne_true), foldl_stop]

/-- **Closed text means what it means in front of a NUL.** -/
theorem foldl_closes {φ : Scan} {stale : List Byte} (h : Closes stale φ) :
    stale.foldl next φ = next φ 0#8 := by
  cases φ with
  | space => exact foldl_noNumber h
  | signed neg =>
    obtain ⟨b, hb, hdig⟩ := h
    cases stale with
    | nil => cases hb
    | cons c stale =>
      cases hb
      rw [List.foldl_cons, next, if_neg (by rw [hdig]; exact Bool.false_ne_true), foldl_stop]
      rfl
  | digits neg v =>
    obtain ⟨⟨b, hb, hdig⟩, hend⟩ := h
    cases stale with
    | nil => cases hb
    | cons c stale =>
      cases hb
      -- the digits have ended, whatever follows leaves the number alone
      have hafter := foldl_after (value neg v) hend
      rw [List.foldl_cons, next] at hafter
      rw [List.foldl_cons, next, if_neg (by rw [hdig]; exact Bool.false_ne_true)]
      by_cases hs : isSpaceByte b = true
      · rw [if_pos hs] at hafter ⊢
        exact hafter
      · rw [if_neg hs, foldl_stop]
        rfl
  | after n => exact foldl_after n h
  | stop r => exact foldl_stop r stale

/-- A NUL behind the text closes it, whatever it is. -/
theorem closes_nul (φ : Scan) (stale : List Byte) : Closes (0#8 :: stale) φ := by
  cases φ with
  | space => rfl
  | signed neg => exact ⟨_, rfl, rfl⟩
  | digits neg v => exact ⟨⟨_, rfl, rfl⟩, _, List.mem_cons_self .., rfl⟩
  | after n => exact ⟨_, List.mem_cons_self .., rfl⟩
  | stop r => trivial

end Scan

/-- What a NUL makes of what has been recognised. -/
def Scan.atNul (φ : Scan) : Option Int :=
  match φ.next 0#8 with
  | .stop r => r
  | _ => none

/-- A NUL stops the scan from every state. -/
theorem Scan.next_nul (φ : Scan) : φ.next 0#8 = .stop φ.atNul := by
  cases φ <;> rfl

/-- The number in a text on its own: what `sscanf` stores when a NUL follows. -/
def scanText (text : List Byte) : Option Int := (text.foldl Scan.next .space).atNul

/-- In front of bytes that close it, a text is read as on its own. -/
theorem sscanfInt_append {text stale : List Byte}
    (h : Scan.Closes stale (text.foldl Scan.next .space)) :
    sscanfInt (text ++ stale) = .ok (scanText text) := by
  rw [sscanfInt, List.foldl_append, Scan.foldl_closes h, Scan.next_nul]
  rfl

/-! ## `sprintf` with the format `%d\n` -/

/-- The line `%d\n` prints. -/
def printInt (n : Int) : List Byte :=
  bytesOf ((if n < 0 then ['-'] else []) ++ Nat.toDigits 10 n.natAbs ++ ['\n'])

/-- A character that is a digit, as a byte. -/
theorem isDigit_byte {c : Char} (h : c.isDigit = true) :
    isDigitByte (BitVec.ofNat 8 c.toNat) = true ∧
      Scan.digit (BitVec.ofNat 8 c.toNat) = c.toNat - '0'.toNat ∧
        isSpaceByte (BitVec.ofNat 8 c.toNat) = false ∧
          isSignByte (BitVec.ofNat 8 c.toNat) = false := by
  have h1 : 48 ≤ c.toNat ∧ c.toNat ≤ 57 := by
    rw [Char.isDigit, Bool.and_eq_true, decide_eq_true_eq, decide_eq_true_eq] at h
    exact h
  have hb : (BitVec.ofNat 8 c.toNat).toNat = c.toNat := by
    rw [BitVec.toNat_ofNat, Nat.mod_eq_of_lt (by omega)]
  simp only [isDigitByte, Scan.digit, isSpaceByte, isSignByte, hb, Bool.and_eq_true,
    decide_eq_true_eq, Bool.or_eq_false_iff, Bool.and_eq_false_iff, decide_eq_false_iff_not,
    beq_eq_false_iff_ne]
  exact ⟨by omega, rfl, ⟨by omega, by omega⟩, by omega, by omega⟩

/-- Digits are read to the number they write. -/
theorem foldl_digits (neg : Bool) {ds : List Char} (h : ∀ c ∈ ds, c.isDigit = true) :
    ∀ v, (bytesOf ds).foldl Scan.next (.digits neg v) = .digits neg (Nat.ofDigitChars 10 ds v) := by
  induction ds with
  | nil =>
    intro v
    rw [Nat.ofDigitChars_nil]
    rfl
  | cons c ds ih =>
    intro v
    obtain ⟨hd, hv, -⟩ := isDigit_byte (h c (List.mem_cons_self ..))
    rw [Nat.ofDigitChars_cons, ← hv, ← ih fun d hm => h d (List.mem_cons_of_mem _ hm)]
    show (bytesOf ds).foldl Scan.next (Scan.next (.digits neg v) _) = _
    rw [Scan.next, if_pos hd]

/-- The first digit of a number may follow white space or a sign. -/
theorem foldl_number {neg : Bool} {φ : Scan} (n : Nat)
    (hφ : ∀ b, isDigitByte b = true → isSpaceByte b = false → isSignByte b = false →
      φ.next b = .digits neg (Scan.digit b)) :
    (bytesOf (Nat.toDigits 10 n)).foldl Scan.next φ = .digits neg n := by
  have hall : ∀ c ∈ Nat.toDigits 10 n, c.isDigit = true := fun c hc =>
    Nat.isDigit_of_mem_toDigits (by decide) (by decide) hc
  have hval := @Nat.ofDigitChars_ten_toDigits n
  cases hds : Nat.toDigits 10 n with
  | nil => exact absurd hds Nat.toDigits_ne_nil
  | cons c ds =>
    rw [hds] at hall hval
    obtain ⟨hd, hv, hs, hg⟩ := isDigit_byte (hall c (List.mem_cons_self ..))
    rw [Nat.ofDigitChars_cons, Nat.mul_zero, Nat.zero_add, ← hv] at hval
    show (bytesOf ds).foldl Scan.next (φ.next _) = _
    rw [hφ _ hd hs hg, foldl_digits neg (fun d hm => hall d (List.mem_cons_of_mem _ hm)), hval]

theorem bytesOf_append (a b : List Char) : bytesOf (a ++ b) = bytesOf a ++ bytesOf b :=
  List.map_append

/-- **Round trip**: what `%d\n` prints is read back, by itself. -/
theorem scanText_printInt (n : Int) : scanText (printInt n) = some n := by
  -- the line ends in the white space behind the digits
  have hend : ∀ neg, ((bytesOf ['\n']).foldl Scan.next (.digits neg n.natAbs)).atNul =
      some (Scan.value neg n.natAbs) := fun neg => rfl
  have hneg : ∀ b, isDigitByte b = true → isSpaceByte b = false → isSignByte b = false →
      Scan.next (.signed true) b = .digits true (Scan.digit b) := fun b hb _ _ => if_pos hb
  have hpos : ∀ b, isDigitByte b = true → isSpaceByte b = false → isSignByte b = false →
      Scan.next .space b = .digits false (Scan.digit b) := fun b hb hs hg => by
    rw [Scan.next, hs, hg, if_neg Bool.false_ne_true, if_neg Bool.false_ne_true, if_pos hb]
  have hsign : (bytesOf ['-']).foldl Scan.next .space = .signed true := rfl
  rw [scanText, printInt, bytesOf_append, bytesOf_append, List.foldl_append, List.foldl_append]
  by_cases hn : n < 0
  · rw [if_pos hn, hsign, foldl_number n.natAbs hneg, hend, Scan.value, if_pos rfl]
    congr 1
    omega
  · rw [if_neg hn]
    show Scan.atNul (List.foldl Scan.next (List.foldl Scan.next .space _) _) = _
    rw [foldl_number n.natAbs hpos, hend, Scan.value, if_neg Bool.false_ne_true]
    congr 1
    omega

end LinuxNet
