import LinuxNet.Httpd.Request

/-!
# Reading the header of a request

The child reads the header character by character until it ends in an empty
line: a newline, any one character, a newline. A read may time out; the child
tries again, three times in all. A header that fills the buffer is answered with
an error, and then handled all the same.

`readHeader` goes through the results of `fgetc`. `frame` is the reader without
timeouts. The header is the same whatever timeouts there are in between, as long as
they are fewer than three (`readHeader_frame`).
-/

namespace LinuxNet.Httpd

/-- `BUFFER_SIZE`. -/
def bufferSize : Nat := 2048

/-- `MAX_STUCK_COUNTER`. -/
def maxStuckCounter : Nat := 3

/-- What `fgetc` gives: a character, or `EOF` with `errno` being `EAGAIN`, or another `EOF`. -/
inductive Fgetc where
  | char (c : Char)
  | again
  | failed
  deriving DecidableEq, Repr

/-- Why the loop ended. -/
inductive ReadEnd where
  /-- The header is complete. -/
  | complete
  /-- The buffer is full. -/
  | tooLong
  /-- The third timeout. -/
  | stuck
  /-- The end of the stream, or an error. -/
  | failed
  deriving DecidableEq, Repr

/-- What comes of the loop. -/
structure HeaderRead where
  /-- The characters read. -/
  buff : CStr
  /-- Why the loop ended, if it has. -/
  ended : Option ReadEnd
  /-- The results of `fgetc` that have not been used. -/
  rest : List Fgetc

/-- The test behind each character. -/
def stops (buff : CStr) : Option ReadEnd :=
  if 2 < buff.length then
    if bufferSize ≤ buff.length then some .tooLong
    else if buff[buff.length - 1]? = some '\n' ∧ buff[buff.length - 3]? = some '\n' then
      some .complete
    else none
  else none

/-- The loop in `main` that reads the header. -/
def readHeader : CStr → Nat → List Fgetc → HeaderRead
  | buff, _, [] => ⟨buff, none, []⟩
  | buff, stuckCounter, .char c :: rs =>
    match stops (buff ++ [c]) with
    | some e => ⟨buff ++ [c], some e, rs⟩
    | none => readHeader (buff ++ [c]) stuckCounter rs
  | buff, stuckCounter, .again :: rs =>
    if maxStuckCounter ≤ stuckCounter + 1 then ⟨buff, some .stuck, rs⟩
    else readHeader buff (stuckCounter + 1) rs
  | buff, _, .failed :: rs => ⟨buff, some .failed, rs⟩

/-! ## Without timeouts -/

/-- The reader on characters alone: what it reads, why it stops, and what it leaves. -/
def frame : CStr → CStr → CStr × Option ReadEnd × CStr
  | buff, [] => (buff, none, [])
  | buff, c :: cs =>
    match stops (buff ++ [c]) with
    | some e => (buff ++ [c], some e, cs)
    | none => frame (buff ++ [c]) cs

/-- The characters among the results of `fgetc`. -/
def chars (rs : List Fgetc) : CStr :=
  rs.filterMap fun r =>
    match r with
    | .char c => some c
    | _ => none

/-- Where the test does not succeed, the reader goes on. -/
theorem frame_append (t : CStr) : ∀ {buff : CStr} (cs : CStr),
    (∀ p, p ≠ [] → p <+: t → stops (buff ++ p) = none) →
    frame buff (t ++ cs) = frame (buff ++ t) cs := by
  induction t with
  | nil => intro buff cs _; rw [List.append_nil]; rfl
  | cons c t ih =>
    intro buff cs h
    have hc := h [c] (List.cons_ne_nil c []) (List.prefix_append [c] t)
    rw [List.cons_append, frame]
    simp only [hc]
    rw [ih cs, List.append_assoc, List.singleton_append]
    intro p _ hpt
    rw [List.append_assoc, List.singleton_append]
    exact h (c :: p) (List.cons_ne_nil c p) (List.cons_prefix_cons.mpr ⟨rfl, hpt⟩)

/-- Timeouts do not change what is read and why the loop ends, as long as there are not too many
of them in all. -/
theorem readHeader_frame (rs : List Fgetc) : ∀ (buff : CStr) (stuck : Nat),
    .failed ∉ rs → stuck + rs.count .again < maxStuckCounter →
    (readHeader buff stuck rs).buff = (frame buff (chars rs)).1 ∧
      (readHeader buff stuck rs).ended = (frame buff (chars rs)).2.1 ∧
      chars (readHeader buff stuck rs).rest = (frame buff (chars rs)).2.2 := by
  induction rs with
  | nil => intro buff stuck _ _; exact ⟨rfl, rfl, rfl⟩
  | cons r rs ih =>
    intro buff stuck hf hcount
    have hf' : .failed ∉ rs := fun h => hf (List.mem_cons_of_mem r h)
    cases r with
    | char c =>
      have hne : Fgetc.char c ≠ .again := by intro h; cases h
      have hcount' : stuck + rs.count .again < maxStuckCounter := by
        rwa [List.count_cons_of_ne hne] at hcount
      have hchars : chars (.char c :: rs) = c :: chars rs := rfl
      rw [hchars, readHeader, frame]
      cases stops (buff ++ [c]) with
      | some e => exact ⟨rfl, rfl, rfl⟩
      | none => exact ih _ _ hf' hcount'
    | again =>
      rw [List.count_cons_self] at hcount
      rw [readHeader, if_neg (by omega)]
      exact ih _ _ hf' (by omega)
    | failed => exact absurd List.mem_cons_self hf

/-! ## The end of a header -/

/-- A line in a header: something, and no newline in it. -/
def IsText (line : CStr) : Prop := line ≠ [] ∧ '\n' ∉ line

/-- The end of a line. -/
def crlf : CStr := ['\r', '\n']

/-- A header: its lines, and an empty one. -/
def block (lines : List CStr) : CStr := lines.flatMap (fun line => line ++ crlf) ++ crlf

theorem block_cons (line : CStr) (lines : List CStr) :
    block (line :: lines) = (line ++ crlf) ++ block lines := by
  rw [block, block, List.flatMap_cons, List.append_assoc]

/-- The test does not succeed at another character than a newline. -/
theorem stops_of_ne {buff : CStr} {c : Char} (hc : c ≠ '\n')
    (hlen : (buff ++ [c]).length < bufferSize) : stops (buff ++ [c]) = none := by
  have hlast : (buff ++ [c])[(buff ++ [c]).length - 1]? = some c := by
    rw [List.length_append, List.length_singleton, Nat.add_sub_cancel,
      List.getElem?_append_right (Nat.le_refl _), Nat.sub_self]
    rfl
  rw [stops, hlast]
  split
  next =>
    rw [if_neg (Nat.not_le.mpr hlen), if_neg (fun h => hc (Option.some.inj h.1))]
  next => rfl

/-- Nor does it at a newline two characters behind something else. -/
theorem stops_of_third {buff : CStr} {a b : Char} (ha : a ≠ '\n')
    (hlen : (buff ++ [a, b, '\n']).length < bufferSize) : stops (buff ++ [a, b, '\n']) = none := by
  have hthird : (buff ++ [a, b, '\n'])[(buff ++ [a, b, '\n']).length - 3]? = some a := by
    rw [List.length_append, show [a, b, '\n'].length = 3 from rfl, Nat.add_sub_cancel,
      List.getElem?_append_right (Nat.le_refl _), Nat.sub_self]
    rfl
  rw [stops, hthird]
  split
  next =>
    rw [if_neg (Nat.not_le.mpr hlen), if_neg (fun h => ha (Option.some.inj h.2))]
  next => rfl

/-- It succeeds at the empty line. -/
theorem stops_at_end {buff : CStr} (hlen : (buff ++ ['\n', '\r', '\n']).length < bufferSize) :
    stops (buff ++ ['\n', '\r', '\n']) = some .complete := by
  have hsum : (buff ++ ['\n', '\r', '\n']).length = buff.length + 3 := by
    rw [List.length_append]
    rfl
  rw [stops, if_pos (by omega), if_neg (Nat.not_le.mpr hlen), if_pos]
  constructor
  · rw [hsum, List.getElem?_append_right (by omega), show buff.length + 3 - 1 - buff.length = 2 by
      omega]
    rfl
  · rw [hsum, List.getElem?_append_right (by omega), show buff.length + 3 - 3 - buff.length = 0 by
      omega]
    rfl

/-- A prefix of a line with its end is a piece of the line, the line and the carriage return, or
the whole. -/
theorem prefix_line {line p : CStr} (h : p <+: line ++ crlf) :
    p <+: line ++ ['\r'] ∨ p = line ++ crlf := by
  have hle := h.length_le
  have hlen : (line ++ crlf).length = line.length + 2 := by rw [List.length_append]; rfl
  have hlen' : (line ++ ['\r']).length = line.length + 1 := by rw [List.length_append]; rfl
  have hpre : line ++ ['\r'] <+: line ++ crlf := ⟨['\n'], by rw [List.append_assoc]; rfl⟩
  rcases Nat.lt_or_ge p.length (line.length + 2) with hlt | hge
  · exact .inl (List.prefix_of_prefix_length_le h hpre (by omega))
  · exact .inr (h.eq_of_length (by omega))

/-- The reader goes on over a line. -/
theorem stops_in_line {buff line p : CStr} (hline : IsText line) (hp : p ≠ [])
    (hpre : p <+: line ++ crlf) (hlen : (buff ++ (line ++ crlf)).length < bufferSize) :
    stops (buff ++ p) = none := by
  have hle : (buff ++ p).length ≤ (buff ++ (line ++ crlf)).length := by
    rw [List.length_append, List.length_append]
    exact Nat.add_le_add_left hpre.length_le _
  rcases prefix_line hpre with hin | rfl
  · -- no newline so far
    obtain ⟨q, c, rfl⟩ := List.eq_nil_or_concat p |>.resolve_left hp
    rw [List.concat_eq_append] at hin hle ⊢
    have hc : c ∈ line ++ ['\r'] := hin.subset (List.mem_append_right q (List.mem_singleton_self c))
    rw [← List.append_assoc] at hle ⊢
    refine stops_of_ne ?_ (Nat.lt_of_le_of_lt hle hlen)
    rintro rfl
    rcases List.mem_append.mp hc with hc | hc
    · exact hline.2 hc
    · exact absurd hc (by decide)
  · obtain ⟨q, a, hqa⟩ := List.eq_nil_or_concat line |>.resolve_left hline.1
    rw [List.concat_eq_append] at hqa
    have ha : a ≠ '\n' := by
      rintro rfl
      exact hline.2 (hqa ▸ List.mem_append_right q (List.mem_singleton_self _))
    have hshape : buff ++ (line ++ crlf) = (buff ++ q) ++ [a, '\r', '\n'] := by
      rw [hqa, crlf]
      simp
    rw [hshape] at hlen ⊢
    exact stops_of_third ha hlen

/-- Behind a newline, the reader reads a header to its empty line, and stops there. -/
theorem frame_block (lines : List CStr) : ∀ {buff : CStr} (body : CStr),
    (∀ line ∈ lines, IsText line) → (buff ++ ['\n'] ++ block lines).length < bufferSize →
    frame (buff ++ ['\n']) (block lines ++ body)
      = (buff ++ ['\n'] ++ block lines, some .complete, body) := by
  induction lines with
  | nil =>
    intro buff body _ hlen
    have hr : stops (buff ++ ['\n'] ++ ['\r']) = none := by
      apply stops_of_ne (by decide)
      rw [block, List.flatMap_nil, List.nil_append, crlf, List.length_append] at hlen
      rw [List.length_append]
      simp only [List.length_cons, List.length_nil] at hlen ⊢
      omega
    have hn : stops (buff ++ ['\n'] ++ ['\r'] ++ ['\n']) = some .complete := by
      have hshape : buff ++ ['\n'] ++ ['\r'] ++ ['\n'] = buff ++ ['\n', '\r', '\n'] := by simp
      rw [hshape]
      apply stops_at_end
      rw [← hshape]
      exact List.append_assoc (buff ++ ['\n']) ['\r'] ['\n'] ▸ hlen
    show frame (buff ++ ['\n']) ('\r' :: '\n' :: body) = _
    rw [frame]
    simp only [hr]
    rw [frame]
    simp only [hn]
    rw [List.append_assoc (buff ++ ['\n']) ['\r'] ['\n']]
    rfl
  | cons line lines ih =>
    intro buff body hall hlen
    have hline := hall line List.mem_cons_self
    rw [block_cons] at hlen ⊢
    have hfit : (buff ++ ['\n'] ++ (line ++ crlf)).length < bufferSize := by
      rw [← List.append_assoc, List.length_append] at hlen
      omega
    have hshape : buff ++ ['\n'] ++ (line ++ crlf) = (buff ++ ['\n'] ++ line ++ ['\r']) ++ ['\n'] := by
      rw [crlf]
      simp
    rw [List.append_assoc (line ++ crlf), frame_append (line ++ crlf) _ fun p hp hpre =>
      stops_in_line hline hp hpre hfit, hshape, ih body fun l hl => hall l (List.mem_cons_of_mem _ hl)]
    · rw [← hshape, List.append_assoc (buff ++ ['\n']) (line ++ crlf)]
    · rw [← hshape, List.append_assoc (buff ++ ['\n']) (line ++ crlf)]
      exact hlen

/-- The reader reads a header of at least one line, whatever follows it. -/
theorem frame_header {line : CStr} {lines : List CStr} (body : CStr) (hline : IsText line)
    (hlines : ∀ l ∈ lines, IsText l) (hlen : (block (line :: lines)).length < bufferSize) :
    frame [] (block (line :: lines) ++ body) = (block (line :: lines), some .complete, body) := by
  rw [block_cons] at hlen ⊢
  have hfit : ([] ++ (line ++ crlf)).length < bufferSize := by
    rw [List.length_append] at hlen
    rw [List.nil_append]
    omega
  have hshape : [] ++ (line ++ crlf) = (line ++ ['\r']) ++ ['\n'] := by
    rw [crlf]
    simp
  rw [List.append_assoc (line ++ crlf), frame_append (line ++ crlf) _ fun p hp hpre =>
    stops_in_line hline hp hpre hfit, hshape, frame_block lines body hlines]
  · rw [← hshape, List.nil_append]
  · rw [← hshape, List.nil_append]
    exact hlen

end LinuxNet.Httpd
