import LinuxNet.Lib.Memory

/-!
# C strings and the number parsers of the C library

A C string is the list of its characters without the terminating NUL. What is
here is the part of `<string.h>`, `<stdlib.h>` and `<arpa/inet.h>` that the
command-line tool calls: the test `strncmp(a, b, n) == 0`, `strtoul` in base
ten, and `inet_addr` with the four POSIX forms `a.b.c.d`, `a.b.c`, `a.b` and
`a` whose parts may be decimal, octal (leading `0`) or hexadecimal (`0x`).

`strncmp0_iff_prefix` is the one fact the tool's name tables turn on: compared
over the length of the table's own name, `strncmp` accepts every string that
*begins* with the name. What a search through a table of such names finds is
`findPrefix`; no name being a prefix of another, it is well behaved.
-/

namespace LinuxNet

/-- A C string: its characters, without the terminating NUL. -/
abbrev CStr := List Char

/-- `strncmp(a, b, n) == 0`. -/
def strncmp0 : CStr → CStr → Nat → Bool
  | _, _, 0 => true
  | [], [], _ + 1 => true
  | x :: xs, y :: ys, n + 1 => x == y && strncmp0 xs ys n
  | _, _, _ + 1 => false

/-- Over the length of `name`, `strncmp` tests whether `str` begins with it. -/
theorem strncmp0_iff_prefix (name : CStr) :
    ∀ str : CStr, strncmp0 str name name.length = true ↔ name <+: str := by
  induction name with
  | nil =>
    intro str
    cases str <;> simp [strncmp0]
  | cons y ys ih =>
    intro str
    cases str with
    | nil => simp [strncmp0]
    | cons x xs =>
      rw [List.length_cons, strncmp0, Bool.and_eq_true, beq_iff_eq, ih xs, List.cons_prefix_cons]
      exact and_congr_left fun _ => eq_comm

/-- `strncmp` over `n` characters does not tell its arguments apart. -/
theorem strncmp0_comm (n : Nat) : ∀ a b : CStr, strncmp0 a b n = strncmp0 b a n := by
  induction n with
  | zero =>
    intro a b
    simp [strncmp0]
  | succ n ih =>
    intro a b
    -- a character on one side only is a difference either way
    cases a <;> cases b
    · rfl
    · rfl
    · rfl
    · rw [strncmp0, strncmp0, ih, Bool.beq_comm]

/-! ## Numbers -/

/-- `isspace` in the C locale. -/
def isSpace (c : Char) : Bool :=
  c = ' ' || c = '\t' || c = '\n' || c = '\x0b' || c = '\x0c' || c = '\r'

/-- The value of a run of decimal digits. -/
def decimal (ds : CStr) : Nat := ds.foldl (fun a c => 10 * a + (c.toNat - '0'.toNat)) 0

/-- `strtoul(str, NULL, 10)` where `ULONG_MAX` is `max`: white space, a sign,
digits; a value that does not fit is `ULONG_MAX`, a negative one is taken
modulo `ULONG_MAX + 1`, and a string without digits is `0`. -/
def strtoul (max : Nat) (str : CStr) : Nat :=
  let s := str.dropWhile isSpace
  let neg := s.head? = some '-'
  let digits := if s.head? = some '-' ∨ s.head? = some '+' then s.tail else s
  let v := decimal (digits.takeWhile Char.isDigit)
  if max < v then max else if neg then (max + 1 - v) % (max + 1) else v

theorem decimal_eq (ds : CStr) : decimal ds = Nat.ofDigitChars 10 ds 0 := by
  rw [decimal, Nat.ofDigitChars_eq_foldl]

/-- A number that was printed is parsed to itself. -/
theorem strtoul_toDigits {max n : Nat} (h : n ≤ max) : strtoul max (Nat.toDigits 10 n) = n := by
  have hall : ∀ c ∈ Nat.toDigits 10 n, c.isDigit = true := fun c hc =>
    Nat.isDigit_of_mem_toDigits (by decide) (by decide) hc
  have hval : decimal (Nat.toDigits 10 n) = n := by
    rw [decimal_eq, Nat.ofDigitChars_ten_toDigits]
  have htake : (Nat.toDigits 10 n).takeWhile Char.isDigit = Nat.toDigits 10 n :=
    List.takeWhile_eq_self_iff.mpr hall
  have hhead : ∀ c, c.isDigit = false → (Nat.toDigits 10 n).head? ≠ some c := by
    intro c hc he
    rw [hall c (List.mem_of_head? he)] at hc
    cases hc
  have hminus := hhead '-' (by decide)
  have hplus := hhead '+' (by decide)
  have hdrop : (Nat.toDigits 10 n).dropWhile isSpace = Nat.toDigits 10 n := by
    cases hds : Nat.toDigits 10 n with
    | nil => rfl
    | cons c ds =>
      -- no white space is a digit
      have hne : ∀ x : Char, x.isDigit = false → decide (c = x) = false := fun x hx =>
        decide_eq_false fun he => hhead x hx (by rw [hds, he]; rfl)
      have hc : isSpace c = false := by
        simp only [isSpace, hne ' ' (by decide), hne '\t' (by decide), hne '\n' (by decide),
          hne '\x0b' (by decide), hne '\x0c' (by decide), hne '\r' (by decide), Bool.or_self]
      rw [List.dropWhile_cons_of_neg (by rw [hc]; exact Bool.false_ne_true)]
  simp only [strtoul, hdrop, hminus, hplus, or_self, if_false, htake, hval]
  exact if_neg (Nat.not_lt.mpr h)

/-- The value of a digit in a base up to sixteen. -/
def digitVal (base : Nat) (c : Char) : Option Nat :=
  let v :=
    if c.isDigit then some (c.toNat - '0'.toNat)
    else if 'a' ≤ c ∧ c ≤ 'f' then some (c.toNat - 'a'.toNat + 10)
    else if 'A' ≤ c ∧ c ≤ 'F' then some (c.toNat - 'A'.toNat + 10)
    else none
  v.filter (· < base)

/-- A nonempty run of digits in a base, and nothing else. -/
def inBase (base : Nat) (ds : CStr) : Option Nat :=
  if ds = [] then none
  else ds.foldlM (fun a c => (digitVal base c).map (base * a + ·)) 0

/-- One part of an address: `0x…` is hexadecimal, `0…` octal, the rest decimal. -/
def inetPart : CStr → Option Nat
  | '0' :: 'x' :: ds => inBase 16 ds
  | '0' :: 'X' :: ds => inBase 16 ds
  | '0' :: d :: ds => inBase 8 (d :: ds)
  | ds => inBase 10 ds

/-- The parts between the dots. -/
def splitDots (s : CStr) : List CStr :=
  s.foldr (fun c acc =>
    match acc with
    | part :: rest => if c = '.' then [] :: part :: rest else (c :: part) :: rest
    | [] => [[c]]) [[]]

/-- `inet_addr`: the address in network byte order, `INADDR_NONE` if malformed. -/
def inetAddr (str : CStr) : BitVec 32 :=
  let host :=
    match (splitDots str).mapM inetPart with
    | some [a] => if a < 4294967296 then some a else none
    | some [a, b] => if a < 256 ∧ b < 16777216 then some (a * 16777216 + b) else none
    | some [a, b, c] =>
      if a < 256 ∧ b < 256 ∧ c < 65536 then some (a * 16777216 + b * 65536 + c) else none
    | some [a, b, c, d] =>
      if a < 256 ∧ b < 256 ∧ c < 256 ∧ d < 256 then
        some (a * 16777216 + b * 65536 + c * 256 + d)
      else none
    | _ => none
  match host with
  | some n => htonl (BitVec.ofNat 32 n)
  | none => 0xFFFFFFFF#32

example : inetAddr "192.168.1.250".toList = 0xFA01A8C0#32 := by decide

/-! ## Tables of names -/

section NameTable

variable {β : Type} {names : List (CStr × β)}

/-- The value of the first name a string begins with. -/
def findPrefix (names : List (CStr × β)) (str : CStr) : Option β :=
  (names.find? fun n => n.1.isPrefixOf str).map (·.2)

/-- Of two names one of which begins with the other, both are the same entry. -/
def PrefixFree (names : List (CStr × β)) : Prop :=
  ∀ n ∈ names, ∀ m ∈ names, n.1 <+: m.1 → n = m

/-- In a prefix-free table a string begins with at most one name, and the
search finds it. -/
theorem findPrefix_of_isPrefix (hpf : PrefixFree names) {n : CStr × β} (hn : n ∈ names)
    {str : CStr} (h : n.1 <+: str) : findPrefix names str = some n.2 := by
  unfold findPrefix
  cases hf : names.find? fun n => n.1.isPrefixOf str with
  | none => exact absurd (List.isPrefixOf_iff_prefix.mpr h) (List.find?_eq_none.mp hf n hn)
  | some m =>
    have hm : m.1 <+: str := by simpa using List.find?_some hf
    have hmem : m ∈ names := List.mem_of_find?_eq_some hf
    -- two prefixes of one string are prefixes of one another
    have hmn : m = n := by
      rcases List.prefix_or_prefix_of_prefix hm h with hp | hp
      · exact hpf m hmem n hn hp
      · exact (hpf n hn m hmem hp).symm
    rw [hmn]
    rfl

/-- The search fails on the strings that begin with no name. -/
theorem findPrefix_eq_none_iff (str : CStr) :
    findPrefix names str = none ↔ ∀ n ∈ names, ¬ n.1 <+: str := by
  rw [findPrefix, Option.map_eq_none_iff, List.find?_eq_none]
  simp only [List.isPrefixOf_iff_prefix]

end NameTable

end LinuxNet
