import LinuxNet.Lib.CStr
import LinuxNet.Sipfw.Types

/-!
# Reading the configuration file

`SIPFW_ReadLine` and `SIPFW_HandleConf` of `sipfw_k_file.c`. A file is the list
of its characters from the position on, a buffer the list of the characters it
holds; a character stands for the byte of its code, so that `EOF`, which is -1
in a signed `char`, is the character 255.

`SIPFW_ReadLine` puts one character after the other into the buffer until one
ends the line, the buffer is full or the file is at its end, and then writes a
NUL: over the terminator, or behind the position it has got to. At the end of
the file that position holds no character of the file but what was in the
buffer before. The return value is both the length of the line and, as 0, the
end of the file.

The position never passes the size of the file, so that test of the loop is
left out, and so are the tests of the file object, which was opened for reading.
-/

namespace LinuxNet.Sipfw

/-- `'\0'`. -/
def nul : Char := '\x00'

/-- `EOF`, as a `char` compares to it. -/
def eofChar : Char := '\xff'

/-- What ends the loop of `SIPFW_ReadLine`. -/
def endsLine (c : Char) : Bool := c == eofChar || c == nul || c == '\n' || c == '\r'

/-- `struct sipfw_conf` with the path of the rules file. -/
structure SipfwConfPaths extends SipfwConf where
  ruleFilePath : CStr
  deriving DecidableEq, Repr

/-- `char line[256]`. -/
structure LineBuf where
  chars : List Char
  full : chars.length = 256

/-! ## One line -/

/-- The loop has got to `pos`, with `count` characters, and `rest` of the file to go. -/
structure Loaded where
  buf : List Char
  pos : Nat
  count : Nat
  rest : List Char

/-- The `while` loop of `SIPFW_ReadLine`: `*buf` is at `pos`. -/
def readLoop (len : Nat) : List Char → Nat → List Char → Loaded
  | [], pos, buf =>
    if endsLine (buf.getD pos nul) = true ∨ len ≤ pos + 1 then ⟨buf, pos, pos + 1, []⟩
    else ⟨buf, pos + 1, pos + 1, []⟩
  | c :: rest, pos, buf =>
    if endsLine (buf.getD pos nul) = true ∨ len ≤ pos + 1 then ⟨buf, pos, pos + 1, c :: rest⟩
    else readLoop len rest (pos + 1) (buf.set (pos + 1) c)

/-- What `SIPFW_ReadLine` leaves: the buffer, the return value, the rest of the file. -/
structure LineRead where
  buf : List Char
  count : Nat
  rest : List Char

/-- The end of `SIPFW_ReadLine`. -/
def endLine (r : Loaded) : Except Fault LineRead :=
  let c := r.buf.getD r.pos nul
  if c = '\r' ∨ c = '\n' ∨ c = eofChar then .ok ⟨r.buf.set r.pos nul, r.count - 1, r.rest⟩
  else if r.pos + 1 < r.buf.length then .ok ⟨r.buf.set (r.pos + 1) nul, r.count, r.rest⟩
  else .error .outOfBounds

/-- `SIPFW_ReadLine`. -/
def readLine (file buf : List Char) (len : Nat) : Except Fault LineRead :=
  match file with
  | [] => .ok ⟨buf, 0, []⟩
  | c :: rest =>
    if c = eofChar then .ok ⟨buf.set 0 c, 0, rest⟩
    else endLine (readLoop len rest 0 (buf.set 0 c))

theorem readLoop_rest (len : Nat) (file : List Char) : ∀ (pos : Nat) (buf : List Char),
    (readLoop len file pos buf).rest.length ≤ file.length := by
  induction file with
  | nil =>
    intro pos buf
    rw [readLoop]
    split
    next => exact Nat.le_refl _
    next => exact Nat.le_refl _
  | cons c rest ih =>
    intro pos buf
    rw [readLoop]
    split
    next => exact Nat.le_refl _
    next => exact Nat.le_succ_of_le (ih _ _)

theorem endLine_rest {r : Loaded} {l : LineRead} (h : endLine r = .ok l) : l.rest = r.rest := by
  unfold endLine at h
  dsimp only at h
  split at h
  next => cases h; rfl
  next =>
    split at h
    next => cases h; rfl
    next => cases h

/-- A line that was read has taken something from the file. -/
theorem readLine_rest {file buf : List Char} {len : Nat} {l : LineRead}
    (h : readLine file buf len = .ok l) (hc : 0 < l.count) : l.rest.length < file.length := by
  cases file with
  | nil =>
    cases h
    cases hc
  | cons c rest =>
    rw [readLine] at h
    split at h
    next =>
      cases h
      cases hc
    next =>
      rw [endLine_rest h]
      exact Nat.lt_succ_of_le (readLoop_rest len rest 0 _)

/-! ## `SIPFW_HandleConf` -/

/-- `strcpy(dst, src)` out of the buffer; the paths have room for all of it. -/
def strcpy (src : List Char) : Except Fault CStr :=
  if nul ∈ src then .ok (src.takeWhile fun c => c != nul) else .error .outOfBounds

/-- The body of the loop: what a line sets, by its beginning and what is at a fixed
offset in the buffer. -/
def handleLine (line : List Char) (cf : SipfwConfPaths) : Except Fault SipfwConfPaths :=
  if strncmp0 line "DefaultAction".toList 13 = true then
    let pos := line.drop 14
    if strncmp0 pos "ACCEPT".toList 6 = true then .ok { cf with defaultAction := nfAccept }
    else if strncmp0 pos "DROP".toList 4 = true then .ok { cf with defaultAction := nfDrop }
    else .ok cf
  else if strncmp0 line "RulesFile".toList 9 = true then
    (strcpy (line.drop 10)).map fun path => { cf with ruleFilePath := path }
  else if strncmp0 line "LogFile".toList 7 = true then
    (strcpy (line.drop 8)).map fun path => { cf with logFilePath := path }
  else .ok cf

/-- The loop of `SIPFW_HandleConf`: it ends when a line has no characters. -/
def handleLines (file buf : List Char) (cf : SipfwConfPaths) : Except Fault SipfwConfPaths :=
  match _hr : readLine file buf 256 with
  | .error e => .error e
  | .ok l =>
    if _hc : 0 < l.count then
      match handleLine l.buf cf with
      | .error e => .error e
      | .ok cf' => handleLines l.rest l.buf cf'
    else .ok cf
  termination_by file.length
  decreasing_by exact readLine_rest _hr _hc

/-- `SIPFW_HandleConf`, on the content of `/etc/sipfw.conf` if it opens. -/
def handleConf (file : Option (List Char)) (line : LineBuf) (cf : SipfwConfPaths) :
    Except Fault SipfwConfPaths :=
  match file with
  | none => .ok cf
  | some file => handleLines file line.chars cf

/-! ## A line with its terminator -/

/-- The characters read so far, in front of what the buffer held. -/
def onto (p buf : List Char) : List Char := p ++ buf.drop p.length

@[simp] theorem onto_length {p buf : List Char} (h : p.length ≤ buf.length) :
    (onto p buf).length = buf.length := by
  rw [onto, List.length_append, List.length_drop]
  omega

theorem onto_set {p buf : List Char} (h : p.length < buf.length) (c : Char) :
    (onto p buf).set p.length c = onto (p ++ [c]) buf := by
  rw [onto, onto, List.set_append_right _ _ (Nat.le_refl _), Nat.sub_self,
    List.drop_eq_getElem_cons h, List.set_cons_zero, List.append_assoc, List.length_append]
  rfl

theorem onto_getD {p buf : List Char} (c : Char) : (onto (p ++ [c]) buf).getD p.length nul = c := by
  rw [onto, List.append_assoc, List.getD_append_right _ _ _ _ (Nat.le_refl _), Nat.sub_self]
  rfl

/-- A text the loop takes as one line: none of its characters ends a line. -/
def Unbroken (text : List Char) : Prop := ∀ c ∈ text, endsLine c = false

/-- A turn of the loop that goes on: the character just stored ends no line. -/
theorem readLoop_step {len : Nat} {p buf file : List Char} {c : Char} (hlen : len ≤ buf.length)
    (hc : endsLine c = false) (hl : p.length + 2 ≤ len) (d : Char) :
    readLoop len (d :: file) p.length (onto (p ++ [c]) buf) =
      readLoop len file (p ++ [c]).length (onto (p ++ [c] ++ [d]) buf) := by
  have hlength : (p ++ [c]).length = p.length + 1 := List.length_append ..
  rw [readLoop, onto_getD, hc, if_neg (by simp; omega), ← hlength, onto_set (by omega)]

/-- A turn that ends the loop. -/
theorem readLoop_stop {c : Char} (hc : endsLine c = true) (len : Nat) (file p buf : List Char) :
    readLoop len file p.length (onto (p ++ [c]) buf) =
      ⟨onto (p ++ [c]) buf, p.length, p.length + 1, file⟩ := by
  have hget : (onto (p ++ [c]) buf).getD p.length nul = c := onto_getD c
  cases file with
  | nil => rw [readLoop, hget, if_pos (.inl hc)]
  | cons d file => rw [readLoop, hget, if_pos (.inl hc)]

/-- The loop goes through an unbroken text, up to the terminator. -/
theorem readLoop_text {len : Nat} {buf rest : List Char} {τ : Char} (hτ : endsLine τ = true)
    (hlen : len ≤ buf.length) (text : List Char) : ∀ (p : List Char) (c : Char),
    endsLine c = false → Unbroken text → p.length + text.length + 2 ≤ len →
      readLoop len (text ++ τ :: rest) p.length (onto (p ++ [c]) buf) =
        ⟨onto (p ++ c :: text ++ [τ]) buf, p.length + text.length + 1,
          p.length + text.length + 2, rest⟩ := by
  induction text with
  | nil =>
    intro p c hc _ hl
    rw [List.length_nil] at hl
    rw [List.nil_append, readLoop_step hlen hc (by omega), readLoop_stop hτ, List.length_append]
    rfl
  | cons d text ih =>
    intro p c hc hu hl
    rw [List.length_cons] at hl
    have := ih (p ++ [c]) d (hu d (List.mem_cons_self ..))
      (fun e he => hu e (List.mem_cons_of_mem _ he)) (by simp; omega)
    have he : p ++ [c] ++ d :: text ++ [τ] = p ++ c :: d :: text ++ [τ] := by simp
    rw [List.cons_append, readLoop_step hlen hc (by omega), this, he, List.length_cons,
      List.length_append, List.length_singleton]
    congr 1 <;> omega

/-- The last character written is the one at the position. -/
theorem onto_set_last {p buf : List Char} (h : p.length < buf.length) (c d : Char) :
    (onto (p ++ [c]) buf).set p.length d = onto (p ++ [d]) buf := by
  rw [← onto_set h, ← onto_set h, List.set_set]

/-- What `SIPFW_ReadLine` replaces by the NUL of the string. -/
def NulReplaced (c : Char) : Prop := c = '\r' ∨ c = '\n' ∨ c = eofChar

theorem ne_eofChar_of_endsLine {c : Char} (h : endsLine c = false) : c ≠ eofChar := by
  intro he
  rw [he] at h
  exact absurd h (by decide)

/-- The first character is stored before the loop. -/
theorem readLine_cons {file buf : List Char} {c : Char} (hc : c ≠ eofChar) (hbuf : buf ≠ [])
    (len : Nat) :
    readLine (c :: file) buf len = endLine (readLoop len file 0 (onto ([] ++ [c]) buf)) := by
  have h0 : buf.set 0 c = onto ([] ++ [c]) buf :=
    onto_set (p := []) (List.length_pos_iff.mpr hbuf) c
  rw [readLine, if_neg hc, h0]

/-- An unbroken text in front of a terminator is read whole into a buffer that has room for
both; the loop stops at the terminator. -/
theorem readLine_text {text buf rest : List Char} {τ : Char} (hτ : endsLine τ = true)
    (hfirst : text ≠ [] ∨ τ ≠ eofChar) (hu : Unbroken text) (hlen : text.length < buf.length) :
    readLine (text ++ τ :: rest) buf buf.length =
      endLine ⟨onto (text ++ [τ]) buf, text.length, text.length + 1, rest⟩ := by
  have hbuf : buf ≠ [] := List.ne_nil_of_length_pos (by omega)
  cases text with
  | nil =>
    rw [List.nil_append, readLine_cons (hfirst.resolve_left fun h => h rfl) hbuf]
    exact congrArg endLine (readLoop_stop hτ buf.length rest [] buf)
  | cons c text =>
    have hc := hu c (List.mem_cons_self ..)
    rw [List.length_cons] at hlen
    have hloop := @readLoop_text buf.length buf rest τ hτ (Nat.le_refl _)
      text [] c hc (fun d hd => hu d (List.mem_cons_of_mem _ hd)) (by simp; omega)
    rw [List.length_nil, Nat.zero_add] at hloop
    rw [List.cons_append, readLine_cons (ne_eofChar_of_endsLine hc) hbuf, hloop]
    rfl

/-- The terminator is overwritten by the NUL of the string. -/
theorem endLine_replaced {p buf rest : List Char} {τ : Char} (hτ : NulReplaced τ)
    (h : p.length < buf.length) (count : Nat) :
    endLine ⟨onto (p ++ [τ]) buf, p.length, count + 1, rest⟩ =
      .ok ⟨onto (p ++ [nul]) buf, count, rest⟩ := by
  unfold NulReplaced at hτ
  rw [endLine, onto_getD, if_pos hτ, onto_set_last h]
  rfl

/-- **A terminated line**: an unbroken text in front of `\n` or `\r` is read whole, its
terminator replaced by a NUL. -/
theorem readLine_terminated {text buf rest : List Char} {τ : Char} (hτ : τ = '\n' ∨ τ = '\r')
    (hu : Unbroken text) (hbuf : buf.length = 256) (hlen : text.length < 256) :
    readLine (text ++ τ :: rest) buf 256 =
      .ok ⟨onto (text ++ [nul]) buf, text.length, rest⟩ := by
  have hends : endsLine τ = true := by rcases hτ with rfl | rfl <;> decide
  have hne : τ ≠ eofChar := by rcases hτ with rfl | rfl <;> decide
  rw [← hbuf] at hlen ⊢
  rw [readLine_text hends (.inr hne) hu hlen]
  exact endLine_replaced (hτ.elim (fun h => .inr (.inl h)) .inl) hlen text.length

/-! ## The end of the file -/

/-- The loop takes what is left of the file, and then a step too many. -/
theorem readLoop_end {len : Nat} {buf : List Char} (hlen : len ≤ buf.length) (text : List Char) :
    ∀ (p : List Char) (c : Char), endsLine c = false → Unbroken text →
      p.length + text.length + 2 ≤ len →
        readLoop len text p.length (onto (p ++ [c]) buf) =
          ⟨onto (p ++ c :: text) buf, p.length + text.length + 1, p.length + text.length + 1,
            []⟩ := by
  induction text with
  | nil =>
    intro p c hc _ hl
    rw [List.length_nil] at hl
    rw [readLoop, onto_getD, hc, if_neg (by simp; omega)]
    rfl
  | cons d text ih =>
    intro p c hc hu hl
    rw [List.length_cons] at hl
    have := ih (p ++ [c]) d (hu d (List.mem_cons_self ..))
      (fun e he => hu e (List.mem_cons_of_mem _ he)) (by simp; omega)
    have he : p ++ [c] ++ d :: text = p ++ c :: d :: text := by simp
    rw [readLoop_step hlen hc (by omega), this, he, List.length_cons, List.length_append,
      List.length_singleton]
    congr 1 <;> omega

/-- Behind what was written is what was there. -/
theorem onto_next {p buf : List Char} (h : p.length < buf.length) :
    onto p buf = onto (p ++ [buf.getD p.length nul]) buf := by
  rw [onto, onto, List.drop_eq_getElem_cons h, List.length_append, List.append_assoc,
    List.getD_eq_getElem _ _ h]
  rfl

/-- A character that is not replaced stays, and the NUL is put behind it if the buffer
goes on that far. -/
theorem endLine_kept {p buf rest : List Char} {c : Char} (hc : ¬ NulReplaced c)
    (h : p.length < buf.length) (count : Nat) :
    endLine ⟨onto (p ++ [c]) buf, p.length, count, rest⟩ =
      if p.length + 1 < buf.length then .ok ⟨onto (p ++ [c, nul]) buf, count, rest⟩
      else .error .outOfBounds := by
  have hlen : (onto (p ++ [c]) buf).length = buf.length := onto_length (by simp; omega)
  unfold NulReplaced at hc
  rw [endLine, onto_getD, if_neg hc]
  dsimp only
  rw [hlen]
  split
  next hlt =>
    have hset := @onto_set (p ++ [c]) buf (by simp; omega) nul
    rw [List.length_append, List.append_assoc] at hset
    exact congrArg (fun b => Except.ok (LineRead.mk b count rest)) hset
  next => rfl

/-- At the end of the file the character the loop stops at is the one behind the text, which
this call has not written. -/
theorem readLine_stale {text buf : List Char} (hne : text ≠ []) (hu : Unbroken text)
    (hlen : text.length < buf.length) :
    readLine text buf buf.length =
      endLine ⟨onto (text ++ [buf.getD text.length nul]) buf, text.length, text.length, []⟩ := by
  cases text with
  | nil => exact absurd rfl hne
  | cons d text =>
    have hd := hu d (List.mem_cons_self ..)
    have hloop := @readLoop_end buf.length buf (Nat.le_refl _) text [] d hd
      (fun e he => hu e (List.mem_cons_of_mem _ he)) (by simp at hlen ⊢; omega)
    rw [List.length_nil, Nat.zero_add] at hloop
    rw [readLine_cons (ne_eofChar_of_endsLine hd) (List.ne_nil_of_length_pos (by omega)), hloop,
      List.nil_append, onto_next hlen]
    rfl

/-- **An unterminated line**: behind the text stands what was in the buffer before. If that is
a terminator it becomes the NUL, and the count is one too small; any other character is
taken for the last of the line. -/
theorem readLine_end {text buf : List Char} (hne : text ≠ []) (hu : Unbroken text)
    (hbuf : buf.length = 256) (hlen : text.length < 255) :
    let c := buf.getD text.length nul
    readLine text buf 256 =
      if c = '\r' ∨ c = '\n' ∨ c = eofChar then
        .ok ⟨onto (text ++ [nul]) buf, text.length - 1, []⟩
      else .ok ⟨onto (text ++ [c, nul]) buf, text.length, []⟩ := by
  intro c
  have hr := readLine_stale hne hu (by omega : text.length < buf.length)
  rw [hbuf] at hr
  rw [hr]
  split
  next hc =>
    obtain ⟨n, hn⟩ : ∃ n, text.length = n + 1 :=
      ⟨text.length - 1, by have := List.length_pos_iff.mpr hne; omega⟩
    have hend := @endLine_replaced text buf [] c hc (by omega) n
    rw [← hn] at hend
    rw [hend, hn]
    rfl
  next hc => rw [endLine_kept hc (by omega), if_pos (by omega)]

end LinuxNet.Sipfw
