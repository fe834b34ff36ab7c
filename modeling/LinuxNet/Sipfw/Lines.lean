import LinuxNet.Sipfw.File

/-!
# What `SIPFW_ReadLine` owes its caller

A line reader leaves the text of the line as a C string in the buffer, cut to
what fits, returns its length and goes on behind the terminator (`IsLine`).
`File` says what the function does at the three exits of its loop: at a
terminator, at the end of the file, and at the end of the buffer, which is here
(`readLine_full`). Put together they say exactly when it is a line reader
(`readsLine_iff`).

A buffer of `len` characters is a list of that length, so a write outside it is
a fault. The function is wrong in four ways:

- a text of `len` characters or more is not cut, the NUL goes to `buf[len]`;
- in front of a NUL the count is one too many;
- an `EOF` character at the front of the line is left in the buffer;
- at the end of the file the character behind the text is not the function's
  own, and what it does depends on it.
-/

namespace LinuxNet.Sipfw

/-! ## What is asked for -/

/-- The text of the line: what stands in front of the first terminator. -/
def lineText (file : List Char) : List Char := file.takeWhile fun c => !endsLine c

/-- The text cut to what fits in a buffer of `len`, with its NUL. -/
def lineStored (file : List Char) (len : Nat) : List Char := (lineText file).take (len - 1)

/-- How many characters of the file that takes: a text that fits goes with its terminator. -/
def lineTaken (file : List Char) (len : Nat) : Nat :=
  if (lineText file).length < len then (lineText file).length + 1 else len - 1

/-- The buffer holds the line as a string, the count is its length, and the file goes on
behind it. -/
structure IsLine (file : List Char) (len : Nat) (r : LineRead) : Prop where
  string : lineStored file len ++ [nul] <+: r.buf
  size : r.buf.length = len
  count : r.count = (lineStored file len).length
  rest : r.rest = file.drop (lineTaken file len)

/-- The files and buffers for which `SIPFW_ReadLine` is a line reader: the text and a
terminator that it replaces fit, or the file is at its end and the buffer has a NUL where the
text ends. -/
def LineFits (file buf : List Char) : Prop :=
  (lineText file).length < buf.length ∧
      (∃ c ∈ file[(lineText file).length]?,
        c = '\r' ∨ c = '\n' ∨ c = eofChar ∧ lineText file ≠ []) ∨
    file[(lineText file).length]? = none ∧
      (lineText file = [] ∨ (lineText file).length + 1 < buf.length) ∧
      buf.getD (lineText file).length nul = nul

/-! ## A full buffer -/

/-- On a text with no end in sight the loop runs up to the end of the buffer. -/
theorem readLoop_full {len : Nat} {buf tail : List Char} (hlen : len ≤ buf.length)
    (text : List Char) : ∀ (p : List Char) (c : Char), endsLine c = false → Unbroken text →
      p.length + 1 ≤ len → len ≤ p.length + 1 + text.length →
        ∃ q d rest, readLoop len (text ++ tail) p.length (onto (p ++ [c]) buf) =
            ⟨onto (q ++ [d]) buf, q.length, q.length + 1, rest⟩ ∧
          q.length + 1 = len ∧ endsLine d = false := by
  -- the loop that is at the last place of the buffer stops, whatever is to come
  have hstop : ∀ (file p : List Char) (c : Char), p.length + 1 = len →
      readLoop len file p.length (onto (p ++ [c]) buf) =
        ⟨onto (p ++ [c]) buf, p.length, p.length + 1, file⟩ := by
    intro file p c hp
    cases file with
    | nil => rw [readLoop, if_pos (.inr (by omega))]
    | cons d file => rw [readLoop, if_pos (.inr (by omega))]
  induction text with
  | nil =>
    intro p c hc _ h1 h2
    rw [List.length_nil] at h2
    exact ⟨p, c, _, hstop _ p c (by omega), by omega, hc⟩
  | cons d text ih =>
    intro p c hc hu h1 h2
    rw [List.length_cons] at h2
    rcases Nat.eq_or_lt_of_le h1 with he | hlt
    · exact ⟨p, c, _, hstop _ p c he, he, hc⟩
    · rw [List.cons_append, readLoop_step hlen hc (by omega)]
      exact ih (p ++ [c]) d (hu d (List.mem_cons_self ..))
        (fun e he => hu e (List.mem_cons_of_mem _ he)) (by simp; omega) (by simp; omega)

theorem not_replaced_of_endsLine {c : Char} (h : endsLine c = false) : ¬ NulReplaced c := by
  rintro (rfl | rfl | rfl)
  all_goals exact absurd h (by decide)

/-- **The NUL of a text that fills the buffer is written behind it.** -/
theorem readLine_full {text buf tail : List Char} (hu : Unbroken text) (hbuf : buf ≠ [])
    (hlen : buf.length ≤ text.length) :
    readLine (text ++ tail) buf buf.length = .error .outOfBounds := by
  have hpos := List.length_pos_iff.mpr hbuf
  cases text with
  | nil => exact absurd (List.length_nil ▸ hlen) (by omega)
  | cons c text =>
    have hc := hu c (List.mem_cons_self ..)
    rw [List.length_cons] at hlen
    obtain ⟨q, d, rest, hloop, hq, hd⟩ := @readLoop_full buf.length buf tail (Nat.le_refl _)
      text [] c hc (fun e he => hu e (List.mem_cons_of_mem _ he)) (by simp; omega) (by simp; omega)
    rw [List.length_nil] at hloop
    rw [List.cons_append, readLine_cons (ne_eofChar_of_endsLine hc) hbuf, hloop,
      endLine_kept (not_replaced_of_endsLine hd) (by omega), if_neg (by omega)]

/-! ## The terminators -/

theorem unbroken_lineText (file : List Char) : Unbroken (lineText file) := by
  intro c hc
  have := List.all_eq_true.mp (List.all_takeWhile (p := fun c => !endsLine c)) c hc
  simpa using this

theorem endsLine_iff (c : Char) : endsLine c = true ↔ NulReplaced c ∨ c = nul := by
  simp only [endsLine, NulReplaced, Bool.or_eq_true, beq_iff_eq]
  tauto

/-- A file that has no terminator to come is all text. -/
theorem lineText_of_unbroken {file : List Char} (h : Unbroken file) : lineText file = file :=
  List.takeWhile_eq_self_iff.mpr fun c hc => by rw [h c hc]; rfl

theorem lineText_append {text rest : List Char} {τ : Char} (hu : Unbroken text)
    (hτ : endsLine τ = true) : lineText (text ++ τ :: rest) = text := by
  rw [lineText, List.takeWhile_append_of_pos fun c hc => by rw [hu c hc]; rfl,
    List.takeWhile_cons_of_neg (by rw [hτ]; decide), List.append_nil]

/-- A file has a terminator, with the text in front of it, or is all text. -/
theorem unbroken_or_terminated (file : List Char) :
    Unbroken file ∨
      ∃ text τ rest, file = text ++ τ :: rest ∧ Unbroken text ∧ endsLine τ = true := by
  have hsplit := List.takeWhile_append_dropWhile (p := fun c => !endsLine c) (l := file)
  cases hd : file.dropWhile fun c => !endsLine c with
  | nil =>
    rw [hd, List.append_nil] at hsplit
    exact .inl (hsplit ▸ unbroken_lineText file)
  | cons τ rest =>
    rw [hd] at hsplit
    have hτ := List.head_dropWhile_not (p := fun c => !endsLine c)
      (by rw [hd]; exact List.cons_ne_nil _ _)
    exact .inr ⟨lineText file, τ, rest, hsplit.symm, unbroken_lineText file, by simpa [hd] using hτ⟩

/-! ## When it is a line reader -/

/-- `SIPFW_ReadLine` stays in the buffer and reads a line. -/
def ReadsLine (file buf : List Char) : Prop :=
  ∃ r, readLine file buf buf.length = .ok r ∧ IsLine file buf.length r

/-- Two strings in one buffer are one. -/
theorem append_nul_prefix_iff {text buf : List Char} (c : Char) :
    text ++ [nul] <+: onto (text ++ [c]) buf ↔ c = nul := by
  rw [onto, List.append_assoc, List.prefix_append_right_inj, List.cons_append,
    List.cons_prefix_cons, and_iff_left (List.nil_prefix ..), eq_comm]

section

variable {text rest buf : List Char}

/-- A text that fits and is returned with its length is the line that was asked for. -/
theorem isLine_iff {file p : List Char} (ht : lineText file = text)
    (hlen : text.length < buf.length) (hp : p.length ≤ buf.length)
    (hrest : rest = file.drop (text.length + 1)) (count : Nat) :
    IsLine file buf.length ⟨onto p buf, count, rest⟩ ↔
      text ++ [nul] <+: onto p buf ∧ count = text.length := by
  have hstored : lineStored file buf.length = text := by
    rw [lineStored, ht, List.take_of_length_le (by omega)]
  have htaken : lineTaken file buf.length = text.length + 1 := by rw [lineTaken, ht, if_pos hlen]
  constructor
  · intro h
    exact ⟨hstored ▸ h.string, hstored ▸ h.count⟩
  · intro h
    exact ⟨hstored ▸ h.1, onto_length hp, hstored ▸ h.2, htaken ▸ hrest⟩

/-- In front of a terminator that is replaced, and that is not an `EOF` at the front of the
line. -/
theorem readsLine_terminated_iff {τ : Char} (hu : Unbroken text) (hτ : endsLine τ = true)
    (hlen : text.length < buf.length) :
    ReadsLine (text ++ τ :: rest) buf ↔ τ = '\r' ∨ τ = '\n' ∨ τ = eofChar ∧ text ≠ [] := by
  have ht : lineText (text ++ τ :: rest) = text := lineText_append hu hτ
  have hrest : rest = (text ++ τ :: rest).drop (text.length + 1) := by simp
  unfold ReadsLine
  by_cases hfirst : text ≠ [] ∨ τ ≠ eofChar
  · rw [readLine_text hτ hfirst hu hlen]
    rcases (endsLine_iff τ).mp hτ with hr | rfl
    · rw [endLine_replaced hr hlen]
      refine iff_of_true ⟨_, rfl, (isLine_iff ht hlen (by simp; omega) hrest _).mpr ⟨?_, rfl⟩⟩ ?_
      · exact (append_nul_prefix_iff nul).mpr rfl
      · unfold NulReplaced at hr
        tauto
    · rw [endLine_kept (by rintro (h | h | h) <;> exact absurd h (by decide)) hlen]
      refine iff_of_false ?_ (by rintro (h | h | ⟨h, -⟩) <;> exact absurd h (by decide))
      rintro ⟨r, hr, hline⟩
      split at hr
      next hlt =>
        cases hr
        have := ((isLine_iff ht hlen (by simp; omega) hrest _).mp hline).2
        omega
      next => cases hr
  · rw [not_or, not_not, not_not] at hfirst
    obtain ⟨rfl, rfl⟩ := hfirst
    refine iff_of_false ?_ (by rintro (h | h | ⟨-, h⟩) <;> exact absurd h (by decide))
    rintro ⟨r, hr, hline⟩
    rw [List.nil_append, readLine, if_pos rfl] at hr
    cases hr
    have hset : buf.set 0 eofChar = onto ([] ++ [eofChar]) buf := onto_set (p := []) hlen _
    rw [hset] at hline
    have := ((isLine_iff ht hlen (by simp; omega) hrest _).mp hline).1
    exact absurd ((append_nul_prefix_iff eofChar).mp this) (by decide)

/-- At the end of the file. -/
theorem readsLine_end_iff (hu : Unbroken text) (hlen : text.length < buf.length) :
    ReadsLine text buf ↔
      (text = [] ∨ text.length + 1 < buf.length) ∧ buf.getD text.length nul = nul := by
  have ht := lineText_of_unbroken hu
  have hrest : [] = text.drop (text.length + 1) := by simp
  unfold ReadsLine
  by_cases hne : text = []
  · subst hne
    have hbuf := onto_next hlen
    have hline := @isLine_iff [] [] buf [] [] ht hlen (Nat.zero_le _) hrest 0
    rw [show onto [] buf = buf from rfl] at hbuf hline
    constructor
    · rintro ⟨r, hr, h⟩
      cases hr
      have := (hline.mp h).1
      rw [hbuf] at this
      exact ⟨.inl rfl, (append_nul_prefix_iff _).mp this⟩
    · rintro ⟨-, h⟩
      refine ⟨_, rfl, hline.mpr ⟨?_, rfl⟩⟩
      rw [hbuf]
      exact (append_nul_prefix_iff _).mpr h
  · rw [readLine_stale hne hu hlen, or_iff_right hne]
    have hpos := List.length_pos_iff.mpr hne
    generalize buf.getD text.length nul = c
    by_cases hc : NulReplaced c
    · obtain ⟨n, hn⟩ : ∃ n, text.length = n + 1 := ⟨text.length - 1, by omega⟩
      have hend := @endLine_replaced text buf [] c hc hlen n
      rw [← hn] at hend
      rw [hend]
      refine iff_of_false ?_ fun h => ?_
      · rintro ⟨r, hr, hline⟩
        cases hr
        have := ((isLine_iff ht hlen (by simp; omega) hrest _).mp hline).2
        omega
      · rw [h.2] at hc
        rcases hc with h | h | h <;> exact absurd h (by decide)
    · rw [endLine_kept hc hlen]
      split
      next hlt =>
        have hpre : text ++ [nul] <+: onto (text ++ [c, nul]) buf ↔ c = nul := by
          rw [onto, List.append_assoc, List.prefix_append_right_inj, List.cons_append,
            List.cons_prefix_cons, and_iff_left (List.nil_prefix ..), eq_comm]
        constructor
        · rintro ⟨r, hr, hline⟩
          cases hr
          exact ⟨hlt, hpre.mp ((isLine_iff ht hlen (by simp; omega) hrest _).mp hline).1⟩
        · rintro ⟨-, h⟩
          exact ⟨_, rfl, (isLine_iff ht hlen (by simp; omega) hrest _).mpr ⟨hpre.mpr h, rfl⟩⟩
      next hge =>
        refine iff_of_false ?_ fun h => hge h.1
        rintro ⟨r, hr, -⟩
        cases hr

end

/-- **When `SIPFW_ReadLine` reads a line**, at any position of any file and into any buffer:
a text that fits, with a terminator that is replaced, and at the end of the file where a
NUL stands in the buffer already. -/
theorem readsLine_iff (content : List Char) (pos : Nat) {len : Nat} {buf : List Char}
    (hlen : 1 ≤ len) (hbuf : buf.length = len) :
    ReadsLine (content.drop pos) buf ↔ LineFits (content.drop pos) buf := by
  generalize content.drop pos = file
  have hne : buf ≠ [] := List.ne_nil_of_length_pos (by omega)
  unfold LineFits
  rcases unbroken_or_terminated file with hu | ⟨text, τ, rest, rfl, hu, hτ⟩
  · rw [lineText_of_unbroken hu, List.getElem?_eq_none (Nat.le_refl _)]
    rcases Nat.lt_or_ge file.length buf.length with hfits | hfull
    · rw [readsLine_end_iff hu hfits]
      simp
    · refine iff_of_false ?_ ?_
      · rintro ⟨r, hr, -⟩
        have hf := @readLine_full file buf [] hu hne hfull
        rw [List.append_nil, hr] at hf
        cases hf
      · rintro (⟨h, -⟩ | ⟨-, h | h, -⟩)
        · omega
        · rw [h, List.length_nil] at hfull
          omega
        · omega
  · rw [lineText_append hu hτ]
    have hget : (text ++ τ :: rest)[text.length]? = some τ := by simp
    rw [hget]
    rcases Nat.lt_or_ge text.length buf.length with hfits | hfull
    · rw [readsLine_terminated_iff hu hτ hfits]
      simp [hfits]
    · refine iff_of_false ?_ ?_
      · rintro ⟨r, hr, -⟩
        rw [readLine_full hu hne hfull] at hr
        cases hr
      · rintro (⟨h, -⟩ | ⟨h, -⟩)
        · omega
        · cases h

/-- A line of three characters in a buffer of eight. -/
theorem readsLine_abc :
    1 ≤ 8 ∧ (List.replicate 8 'x').length = 8 ∧
      ReadsLine ("abc\ndef".toList.drop 0) (List.replicate 8 'x') :=
  ⟨by decide, by decide,
    (readsLine_iff "abc\ndef".toList 0 (by decide : 1 ≤ 8) (by decide)).mpr
      (.inl ⟨by decide, '\n', by decide, .inr (.inl rfl)⟩)⟩

/-- Read once more, the last line of a file without a final newline keeps a character of the
buffer. -/
theorem not_readsLine_stale :
    ¬ ReadsLine ("abc".toList.drop 0) (List.replicate 8 'x') := by
  rintro ⟨r, hr, hline⟩
  have hread : readLine ("abc".toList.drop 0) (List.replicate 8 'x') 8 =
      .ok ⟨"abcx".toList ++ [nul] ++ "xxx".toList, 3, []⟩ := by rfl
  rw [List.length_replicate, hread] at hr
  cases hr
  exact absurd hline.string (by decide)

end LinuxNet.Sipfw
