import LinuxNet.Httpd.Handlers

/-!
# The data of a `POST`

`DHTTPD_HandleMethod` reads the data character by character until it has as many
as the header said. The result of `fgetc` is cut to a `char` before it is
compared with `EOF`, so the character `0xff` looks like the end of the stream;
what happens then depends on the `errno` left by the last read that failed.
Unlike in the header, a timeout counts only until the next character.

A length between 1 and the size of the buffer is kept to exactly
(`post_exact`). A length of 0 passes the test of the length too, and the
loop, which looks at its counter only behind a character, does not meet it: what
the client sends is stored until it stops, also behind the end of the buffer
(`post_zero`).

The data are passed on as a string. A newline is put behind data that do not end
in one, and only then a NUL.
-/

namespace LinuxNet.Httpd

/-- The characters of `buff`. -/
def postBuff : Nat := postBufferSize + 5

/-- `EOF` as a `char`. -/
def eofChar : Char := '\xff'

/-- What has been read of the data, whether the loop has closed the connection, and the results of
`fgetc` that have not been used. -/
structure PostRead where
  buff : CStr
  closed : Bool
  rest : List Fgetc
  deriving DecidableEq, Repr

/-- The loop; `eagain` is whether `errno` is `EAGAIN`. `none` is a loop that has not ended. -/
def readPost (contentLength : Nat) : CStr → Nat → Bool → List Fgetc → Except Fault (Option PostRead)
  | _, _, _, [] => .ok none
  | buff, stuckCounter, eagain, r :: rs =>
    let eagain' := if r = .again then true else if r = .failed then false else eagain
    match r with
    | .char c =>
      if c = eofChar then
        if eagain' then
          if maxStuckCounter ≤ stuckCounter + 1 then .ok (some ⟨buff, true, rs⟩)
          else readPost contentLength buff (stuckCounter + 1) eagain' rs
        else .ok (some ⟨buff, true, rs⟩)
      else if buff.length < postBuff then
        if (buff ++ [c]).length = contentLength then .ok (some ⟨buff ++ [c], false, rs⟩)
        else readPost contentLength (buff ++ [c]) 0 eagain' rs
      else .error .outOfBounds
    | .again =>
      if maxStuckCounter ≤ stuckCounter + 1 then .ok (some ⟨buff, true, rs⟩)
      else readPost contentLength buff (stuckCounter + 1) eagain' rs
    | .failed => .ok (some ⟨buff, true, rs⟩)

/-- The string `cgiHandler` is given, when anything has been read; `behind` is what the buffer holds
behind the data. -/
def postString (buff : CStr) (behind : List Char) : CStr :=
  if buff.getLast? ≠ some '\n' then cstr (buff ++ ['\n'] ++ nul :: behind) else cstr (buff ++ behind)

/-! ## Clients that keep sending -/

/-- From here on, fewer than three timeouts in a row, `stuck` of which have been, and neither an
end nor a character that looks like one. -/
def Patient : Nat → List Fgetc → Prop
  | _, [] => True
  | _, .char c :: rs => c ≠ eofChar ∧ Patient 0 rs
  | stuck, .again :: rs => stuck + 1 < maxStuckCounter ∧ Patient (stuck + 1) rs
  | _, .failed :: _ => False

/-- As long as the length has not been reached, what a patient client sends is stored. -/
theorem readPost_patient (n : Nat) (rs : List Fgetc) : ∀ (buff : CStr) (stuck : Nat) (eagain : Bool)
    (body more : CStr), Patient stuck rs → chars rs = body ++ more →
    buff.length + body.length = n → body ≠ [] → n ≤ postBuff →
    ∃ rest, readPost n buff stuck eagain rs = .ok (some ⟨buff ++ body, false, rest⟩) ∧
      chars rest = more := by
  induction rs with
  | nil =>
    intro buff stuck eagain body more _ hchars _ hbody _
    exact absurd (List.append_eq_nil_iff.mp hchars.symm).1 hbody
  | cons r rs ih =>
    intro buff stuck eagain body more hp hchars hn hbody hfit
    cases r with
    | char c =>
      obtain ⟨b, bs, rfl⟩ := List.exists_cons_of_ne_nil hbody
      have hcs : c :: chars rs = b :: (bs ++ more) := hchars
      obtain ⟨rfl, hmore⟩ := List.cons.inj hcs
      rw [List.length_cons] at hn
      have hlen : (buff ++ [c]).length = buff.length + 1 := by
        rw [List.length_append, List.length_singleton]
      simp only [readPost]
      rw [if_neg hp.1, if_pos (by omega), hlen]
      by_cases hbs : bs = []
      · subst hbs
        rw [List.length_nil, Nat.zero_add] at hn
        rw [if_pos hn]
        exact ⟨rs, rfl, hmore⟩
      · have := List.length_pos_iff.mpr hbs
        rw [if_neg (by omega)]
        obtain ⟨rest, hr, hrest⟩ := ih (buff ++ [c]) 0
          (if Fgetc.char c = .again then true else if Fgetc.char c = .failed then false else eagain)
          bs more hp.2 hmore (by omega) hbs hfit
        rw [List.append_assoc, List.singleton_append] at hr
        exact ⟨rest, hr, hrest⟩
    | again =>
      simp only [readPost]
      rw [if_neg (Nat.not_le.mpr hp.1)]
      exact ih buff (stuck + 1) _ body more hp.2 hchars hn hbody hfit
    | failed => exact absurd hp id

/-- With a length of 0 there is no end: the loop stores what a patient client sends, and faults at
the first character behind the buffer. -/
theorem readPost_unbounded (rs : List Fgetc) : ∀ (buff : CStr) (stuck : Nat) (eagain : Bool),
    Patient stuck rs → buff.length ≤ postBuff →
    readPost 0 buff stuck eagain rs
      = if buff.length + (chars rs).length ≤ postBuff then .ok none else .error .outOfBounds := by
  induction rs with
  | nil =>
    intro buff stuck eagain _ hle
    exact (if_pos hle).symm
  | cons r rs ih =>
    intro buff stuck eagain hp hle
    cases r with
    | char c =>
      have hlen : (buff ++ [c]).length = buff.length + 1 := by
        rw [List.length_append, List.length_singleton]
      have hchars : (chars (.char c :: rs)).length = (chars rs).length + 1 := rfl
      simp only [readPost]
      rw [if_neg hp.1, hchars]
      by_cases hfull : buff.length < postBuff
      · rw [if_pos hfull, if_neg (by omega), ih (buff ++ [c]) 0 _ hp.2 (by omega), hlen]
        exact if_congr (by omega) rfl rfl
      · rw [if_neg hfull, if_neg (by omega)]
    | again =>
      simp only [readPost]
      rw [if_neg (Nat.not_le.mpr hp.1)]
      exact ih buff (stuck + 1) _ hp.2 hle
    | failed => exact absurd hp id

/-- The string for the script: the data, and a newline behind them if they do not end in one. Data
that do end in one are not given a NUL, and the string goes on with what the buffer held. -/
theorem postString_eq {buff : CStr} (hnul : nul ∉ buff) (behind : List Char) :
    postString buff behind
      = if buff.getLast? = some '\n' then buff ++ cstr behind else buff ++ ['\n'] := by
  have happend : ∀ (s t : CStr), nul ∉ s → cstr (s ++ t) = s ++ cstr t := by
    intro s t hs
    have hall : ∀ c ∈ s, decide (c ≠ nul) = true := fun c hc =>
      decide_eq_true fun he => hs (he ▸ hc)
    exact List.takeWhile_append_of_pos hall
  rw [postString]
  by_cases h : buff.getLast? = some '\n'
  · rw [if_neg (not_not.mpr h), if_pos h, happend _ _ hnul]
  · have hnl : nul ∉ buff ++ ['\n'] := by
      rw [List.mem_append]
      exact fun hm => hm.elim hnul (by decide)
    rw [if_pos h, if_neg h, cstr_append hnl]

/-- A length between 1 and the bound of the test is met exactly, whatever the client sends behind
the data and however often reads time out, as long as three do not follow each other: the script
is given the data, and what follows them is left on the connection. -/
theorem post_exact {req : Request} {n : Nat} (hpost : handlePost req = .post n) (hn : 0 < n)
    {body more : CStr} (hbody : body.length = n) (hnul : nul ∉ body) {reads : List Fgetc}
    (hpatient : Patient 0 reads) (hreads : chars reads = body ++ more) (eagain : Bool)
    (behind : List Char) :
    ∃ rest, readPost n [] 0 eagain reads = .ok (some ⟨body, false, rest⟩) ∧ chars rest = more ∧
      postString body behind
        = if body.getLast? = some '\n' then body ++ cstr behind else body ++ ['\n'] := by
  have hlt : n < postBufferSize := by
    rw [handlePost] at hpost
    split at hpost
    next => cases hpost
    next =>
      split at hpost
      next => cases hpost
      next =>
        split at hpost
        next => cases hpost
        next h =>
          cases hpost
          omega
  have hne : body ≠ [] := List.length_pos_iff.mp (by omega)
  obtain ⟨rest, hr, hrest⟩ := readPost_patient n reads [] 0 eagain body more hpatient hreads
    (by rw [List.length_nil]; omega) hne (by unfold postBuff; omega)
  exact ⟨rest, hr, hrest, postString_eq hnul behind⟩

/-- A `POST` to a script. -/
def samplePost (n : Int) : Request :=
  { emptyRequest with
    method := "POST".toList
    documentAddress := "/cgi-bin/a".toList
    contentLength := n }

theorem post_exact_at : ∃ rest,
    readPost 3 [] 0 false [.char 'a', .again, .again, .char '=', .char 'b', .char 'c']
        = .ok (some ⟨"a=b".toList, false, rest⟩) ∧ chars rest = ['c'] ∧
      postString "a=b".toList "old".toList
        = if "a=b".toList.getLast? = some '\n' then "a=b".toList ++ cstr "old".toList
          else "a=b".toList ++ ['\n'] :=
  post_exact (show handlePost (samplePost 3) = .post 3 from rfl) (by decide) (by decide) (by decide)
    (by simp [Patient, eofChar, maxStuckCounter]) rfl false "old".toList

/-- A length of 0 is let through, and then nothing but the client bounds what is stored: the buffer
overflows if and only if the client sends more than it holds. -/
theorem post_zero {req : Request}
    (hcgi : strncmp0 req.documentAddress cgiMatchString cgiMatchString.length = true)
    (hzero : req.contentLength = 0) {reads : List Fgetc} (hpatient : Patient 0 reads)
    (eagain : Bool) :
    handlePost req = .post 0 ∧
      (readPost 0 [] 0 eagain reads = .error .outOfBounds ↔ postBuff < (chars reads).length) := by
  constructor
  · rw [handlePost, hcgi, hzero]
    rfl
  · rw [readPost_unbounded reads [] 0 eagain hpatient (Nat.zero_le _), List.length_nil,
      Nat.zero_add]
    split
    next h => exact iff_of_false (fun he => by cases he) (by omega)
    next h => exact iff_of_true rfl (by omega)

theorem post_zero_at :
    handlePost (samplePost 0) = .post 0 ∧
      (readPost 0 [] 0 false [.char 'a', .again, .char 'b'] = .error .outOfBounds ↔
        postBuff < (chars [.char 'a', .again, .char 'b']).length) :=
  post_zero (by decide) rfl (by simp [Patient, eofChar, maxStuckCounter]) false

end LinuxNet.Httpd
