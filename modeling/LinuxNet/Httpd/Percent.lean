import LinuxNet.Lib.Replace
import LinuxNet.Lib.CStr

/-!
# `DHTTPD_ConvertPercents`

The escapes of a path are undone in place: the first `%20` becomes a blank, what
stands behind it is moved up over the other two characters, and the search
starts again. The number of characters to move comes from `l`, the length the
string had on entry; no replacement corrects it, so from the second on the move
takes with it characters from behind the string.

`convertPercents_works` says that this is the single pass `replaceAll` all the
same, that the loop ends, and that nothing behind place `l` is read or written.

A buffer is the list of its characters, the NUL and what stands behind it
included; reading or writing outside it is a fault.
-/

namespace LinuxNet.Httpd

/-- The character that ends a string. -/
def nul : Char := '\x00'

/-- The string in a buffer. -/
def cstr (buf : List Char) : CStr := buf.takeWhile (· ≠ nul)

/-- A value of type `size_t`. -/
def sizeT (n : Int) : Nat := (n % 18446744073709551616).toNat

/-- `memmove(buf + dst, buf + src, n)`. -/
def memmove (buf : List Char) (dst src n : Nat) : Except Fault (List Char) :=
  if src + n ≤ buf.length ∧ dst + n ≤ buf.length then
    .ok (buf.take dst ++ (buf.drop src).take n ++ buf.drop (dst + n))
  else .error .outOfBounds

/-- `tok`: the escape of a blank. -/
def tok : CStr := ['%', '2', '0']

/-- `tokSubst`. -/
def tokSubst : Char := ' '

/-- One turn of the loop: `none` when there is no `tok` left. -/
def convertTurn (s : List Char) (l : Nat) : Except Fault (Option (List Char)) :=
  match strstr tok (cstr s) with
  | none => .ok none
  | some tokPos =>
    (memmove (s.set tokPos tokSubst) (tokPos + 1) (tokPos + tok.length)
      (sizeT (l - tokPos - tok.length + 1))).map some

/-- `DHTTPD_ConvertPercents(s, l)`, with a bound on the turns. -/
def convertPercents : Nat → List Char → Nat → Except Fault (List Char)
  | 0, _, _ => .error .diverges
  | turns + 1, s, l =>
    match convertTurn s l with
    | .error e => .error e
    | .ok none => .ok s
    | .ok (some s') => convertPercents turns s' l

/-! ## The string in a buffer -/

theorem cstr_append {s : CStr} (hs : nul ∉ s) (rest : List Char) :
    cstr (s ++ nul :: rest) = s := by
  have hall : ∀ c ∈ s, decide (c ≠ nul) = true := fun c hc =>
    decide_eq_true fun he => hs (he ▸ hc)
  rw [cstr, List.takeWhile_append_of_pos hall, List.takeWhile_cons_of_neg (by simp)]
  exact List.append_nil s

theorem sizeT_of_nonneg {n : Int} {k : Nat} (h : n = k) (hk : k < 18446744073709551616) :
    sizeT n = k := by
  rw [sizeT, h]
  omega

/-! ## One turn -/

/-- A turn on a buffer that holds `s` replaces the first `tok` of `s`. What is behind the
string may change up to place `l`, and no further. -/
theorem convertTurn_some {s : CStr} {rest : List Char} {l p : Nat} (hs : nul ∉ s)
    (hl : s.length ≤ l) (hfit : l ≤ s.length + rest.length) (hint : l < 2147483648)
    (hp : strstr tok s = some p) :
    ∃ rest', convertTurn (s ++ nul :: rest) l
        = .ok (some (replaceStep tok tokSubst s p ++ nul :: rest')) ∧
      (replaceStep tok tokSubst s p ++ nul :: rest').length = (s ++ nul :: rest).length ∧
      (replaceStep tok tokSubst s p ++ nul :: rest').drop (l + 1)
        = (s ++ nul :: rest).drop (l + 1) := by
  obtain ⟨hat, hple, -⟩ := strstr_some hp
  have h3 : tok.length = 3 := rfl
  have hroom : p + 3 ≤ s.length := by
    have := hat.length_le
    rw [List.length_drop, h3] at this
    omega
  obtain ⟨n, hn⟩ : ∃ n, l = p + 2 + n := ⟨l - p - 2, by omega⟩
  have hsize : sizeT ((l : Int) - p - tok.length + 1) = n :=
    sizeT_of_nonneg (by rw [h3]; omega) (by omega)
  -- the buffer once the blank is in, and what the move leaves in it
  have hset : (s ++ nul :: rest).set p tokSubst
      = s.take p ++ tokSubst :: (s.drop (p + 1) ++ nul :: rest) := by
    rw [List.set_eq_take_append_cons_drop, if_pos (by rw [List.length_append]; omega),
      List.take_append_of_le_length hple, List.drop_append_of_le_length (by omega)]
  have htake : (s.take p ++ [tokSubst]).length = p + 1 := by
    rw [List.length_append, List.length_take_of_le hple, List.length_singleton]
  have hsplit : s.take p ++ tokSubst :: (s.drop (p + 1) ++ nul :: rest)
      = (s.take p ++ [tokSubst]) ++ (s.drop (p + 1) ++ nul :: rest) := by
    rw [List.append_assoc, List.singleton_append]
  have hlen : (s.take p ++ tokSubst :: (s.drop (p + 1) ++ nul :: rest)).length
      = (s ++ nul :: rest).length := by rw [← hset, List.length_set]
  have htail : s.drop (p + 3) ++ nul :: rest = (s ++ nul :: rest).drop (p + 3) :=
    (List.drop_append_of_le_length hroom).symm
  have hmoved : (s.drop (p + 3) ++ nul :: rest).take n
      = s.drop (p + 3) ++ nul :: rest.take (l - s.length) := by
    have hd : (s.drop (p + 3)).length = s.length - (p + 3) := List.length_drop
    rw [List.take_append, List.take_of_length_le (by omega), hd,
      show n - (s.length - (p + 3)) = l - s.length + 1 by omega, List.take_succ_cons]
  have hdrop : ∀ k, p + 1 ≤ k → (s.take p ++ tokSubst :: (s.drop (p + 1) ++ nul :: rest)).drop k
      = (s ++ nul :: rest).drop k := by
    intro k hk
    rw [← hset, List.drop_set_of_lt (by omega)]
  have hbuf : (s ++ nul :: rest).length = s.length + rest.length + 1 := by
    rw [List.length_append, List.length_cons, Nat.add_assoc]
  refine ⟨rest.take (l - s.length) ++ (s ++ nul :: rest).drop (p + 1 + n), ?_, ?_, ?_⟩
  · rw [convertTurn, cstr_append hs]
    simp only [hp]
    rw [hsize, hset, memmove, if_pos ⟨by rw [hlen, hbuf, h3]; omega, by rw [hlen, hbuf]; omega⟩,
      hdrop (p + tok.length) (by omega), hdrop (p + 1 + n) (by omega), hsplit,
      List.take_left' htake, h3, ← htail, hmoved, replaceStep, h3]
    simp [Except.map]
  · rw [replaceStep, h3]
    simp only [List.length_append, List.length_cons, List.length_take, List.length_drop]
    omega
  · have hfront : (s.take p ++ tokSubst :: s.drop (p + 3) ++ nul :: rest.take (l - s.length)).length
        = p + 1 + n := by
      simp only [List.length_append, List.length_cons, List.length_take, List.length_drop]
      omega
    rw [replaceStep, h3, ← List.cons_append, ← List.append_assoc, List.drop_append,
      List.drop_eq_nil_of_le (by rw [hfront]; omega), hfront, List.nil_append, List.drop_drop]
    congr 1
    omega

theorem convertTurn_none {s : CStr} {rest : List Char} {l : Nat} (hs : nul ∉ s)
    (hp : strstr tok s = none) : convertTurn (s ++ nul :: rest) l = .ok none := by
  rw [convertTurn, cstr_append hs]
  simp only [hp]

/-! ## The loop -/

theorem nul_notMem_replaceStep {s : CStr} {p : Nat} (hs : nul ∉ s) :
    nul ∉ replaceStep tok tokSubst s p := by
  intro h
  rcases List.mem_append.mp h with h | h
  · exact hs (List.mem_of_mem_take h)
  · rcases List.mem_cons.mp h with h | h
    · exact absurd h (by decide)
    · exact hs (List.mem_of_mem_drop h)

/-- On a buffer that holds the string `s`, with `l` at least the length of `s` and inside the
buffer, `DHTTPD_ConvertPercents` returns, within as many turns as `s` has characters and one
more. The buffer then holds `s` with every `%20` replaced in one pass from left to right, its
size is what it was, and so is every character behind place `l`. -/
theorem convertPercents_works (turns : Nat) : ∀ {s : CStr} (rest : List Char) {l : Nat},
    nul ∉ s → s.length ≤ l → l ≤ s.length + rest.length → l < 2147483648 → s.length < turns →
    ∃ rest', convertPercents turns (s ++ nul :: rest) l
        = .ok (replaceAll tok tokSubst s ++ nul :: rest') ∧
      (replaceAll tok tokSubst s ++ nul :: rest').length = (s ++ nul :: rest).length ∧
      (replaceAll tok tokSubst s ++ nul :: rest').drop (l + 1)
        = (s ++ nul :: rest).drop (l + 1) := by
  induction turns with
  | zero => intro s rest l _ _ _ _ h; exact absurd h (Nat.not_lt_zero _)
  | succ turns ih =>
    intro s rest l hs hl hfit hint hturns
    cases hp : strstr tok s with
    | none =>
      refine ⟨rest, ?_, ?_, ?_⟩
      · rw [convertPercents, convertTurn_none hs hp, replaceAll_of_none hp]
      · rw [replaceAll_of_none hp]
      · rw [replaceAll_of_none hp]
    | some p =>
      obtain ⟨rest₁, hturn, hlen₁, hdrop₁⟩ := convertTurn_some hs hl hfit hint hp
      -- the string is two characters shorter, and the buffer as long as it was
      have hshort := length_replaceStep (c := tokSubst) hp
      have h3 : tok.length = 3 := rfl
      have hsum := hlen₁
      rw [List.length_append, List.length_append, List.length_cons, List.length_cons] at hsum
      obtain ⟨rest₂, hrun, hlen₂, hdrop₂⟩ := ih rest₁ (l := l)
        (nul_notMem_replaceStep (p := p) hs) (by omega) (by omega) hint (by omega)
      rw [replaceAll_step (by decide) (by decide) hp] at hrun hlen₂ hdrop₂
      refine ⟨rest₂, ?_, hlen₂.trans hlen₁, hdrop₂.trans hdrop₁⟩
      rw [convertPercents, hturn]
      exact hrun

/-- In place and with the length it had on entry, `DHTTPD_ConvertPercents` makes of a string what
one pass from left to right makes of it, in which no `%20` is left; it ends, stays in the buffer,
and changes nothing behind place `l`. -/
theorem convertPercents_exact {s : CStr} {rest : List Char} {l turns : Nat} (hs : nul ∉ s)
    (hl : s.length ≤ l) (hfit : l ≤ s.length + rest.length) (hint : l < 2147483648)
    (hturns : s.length < turns) :
    ∃ buf, convertPercents turns (s ++ nul :: rest) l = .ok buf ∧
      cstr buf = replaceAll tok tokSubst s ∧ ¬ tok <:+: cstr buf ∧
      buf.length = (s ++ nul :: rest).length ∧
      buf.drop (l + 1) = (s ++ nul :: rest).drop (l + 1) := by
  obtain ⟨rest', hrun, hlen, hdrop⟩ := convertPercents_works turns rest hs hl hfit hint hturns
  have hnul : nul ∉ replaceAll tok tokSubst s := by
    intro hm
    rcases mem_replaceAll hm with h | h
    · exact absurd h (by decide)
    · exact hs h
  refine ⟨_, hrun, cstr_append hnul rest', ?_, hlen, hdrop⟩
  rw [cstr_append hnul]
  exact not_infix_replaceAll (by decide) (by decide) s.length s (Nat.le_refl _)

theorem convertPercents_exact_at : ∃ buf,
    convertPercents 10 ("a%20%20b".toList ++ nul :: "old".toList) 8 = .ok buf ∧
      cstr buf = replaceAll tok tokSubst "a%20%20b".toList ∧ ¬ tok <:+: cstr buf ∧
      buf.length = ("a%20%20b".toList ++ nul :: "old".toList).length ∧
      buf.drop 9 = ("a%20%20b".toList ++ nul :: "old".toList).drop 9 :=
  convertPercents_exact (by decide) (by decide) (by decide) (by decide) (by decide)

end LinuxNet.Httpd
