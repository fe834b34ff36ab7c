import LinuxNet.Httpd.Header

/-!
# The types of files

At start the server reads a table of extensions and MIME types from a file, once
to count the entries and once to store them (`initMimeTypes`). For each file it
serves, `analyzeExtension` walks back from the end of the name to a dot or a
slash, and looks up what is behind the dot in lower case.

`fscanf` with `%s` takes a word and sets the end-of-file flag when it comes to
the end of the file, be it in front of a word or behind one; a word that the
buffer has no room for is written past its end. A table written one
entry a line is read back whatever it is (`initMimeTypes_text`), and a file of
the type of each entry is given that type in upper case as in lower
(`analyzeExtension_ext`). An extension of exactly 64 characters is let through
by the test of its length and written one character past the array.
-/

namespace LinuxNet.Httpd

/-- `MAX_EXTENSION_LEN`. -/
def maxExtensionLen : Nat := 64

/-- `MAX_MIMETYPE_LEN`. -/
def maxMimetypeLen : Nat := 32

/-- `MIME_TYPE_DEFAULT`. -/
def mimeTypeDefault : CStr := "application/octet-stream".toList

/-- `mimeData`. -/
structure MimeData where
  ext : CStr
  type : CStr
  deriving DecidableEq, Repr

/-! ## Reading words -/

/-- A file being read word by word into `str`. -/
structure WordFile where
  rest : CStr
  /-- `feof`. -/
  eof : Bool
  str : CStr
  deriving DecidableEq, Repr

/-- A character that is part of a word. -/
def inWord (c : Char) : Bool := !isSpace c

/-- `fscanf(f, "%s", str)`: without a word, `str` is left as it is. -/
def WordFile.fscanf (f : WordFile) : WordFile :=
  let s := f.rest.dropWhile isSpace
  if s = [] then { f with rest := [], eof := true }
  else
    let rest := s.dropWhile inWord
    { rest := rest, eof := rest = [], str := s.takeWhile inWord }

/-- `fscanf` into `char str[BUFFER_SIZE]`. -/
def WordFile.read (f : WordFile) : Except Fault WordFile :=
  if ((f.rest.dropWhile isSpace).takeWhile inWord).length < bufferSize then .ok f.fscanf
  else .error .outOfBounds

/-- The first pass: how many entries there are. A turn takes a character at least, or sets the
flag; `turns` bounds them. -/
def countEntries : Nat → WordFile → Except Fault Nat
  | 0, _ => .ok 0
  | turns + 1, f =>
    if f.eof then .ok 0
    else do
      let f ← f.read
      if f.eof then countEntries turns f
      else
        let f ← f.read
        (countEntries turns f).map (· + 1)

/-- The second pass: at most `entries` entries, each of two words. -/
def readEntries : Nat → WordFile → Except Fault (List MimeData)
  | 0, _ => .ok []
  | entries + 1, f =>
    if f.eof then .ok []
    else do
      let f ← f.read
      let ext := f.str
      let f ← f.read
      let type := f.str
      -- the words are copied to arrays of these sizes
      if ext.length ≤ maxExtensionLen ∧ type.length ≤ maxMimetypeLen then
        (readEntries entries f).map (⟨ext, type⟩ :: ·)
      else .error .outOfBounds

/-- The table used when there is no file. -/
def defaultMimeTypes : List MimeData :=
  [⟨"html".toList, "text/html".toList⟩, ⟨"gif".toList, "image/gif".toList⟩,
    ⟨"jpg".toList, "image/jpg".toList⟩]

/-- `initMimeTypes`, on the text of the file; `str` is what the buffer for words holds. Entries
that the second pass does not reach stay empty. -/
def initMimeTypes (str : CStr) : Option CStr → Except Fault (List MimeData)
  | none => .ok defaultMimeTypes
  | some text => do
    let entries ← countEntries (text.length + 1) ⟨text, false, str⟩
    let l ← readEntries entries ⟨text, false, str⟩
    return l ++ List.replicate (entries - l.length) ⟨[], []⟩

/-! ## The extension of a name -/

/-- From place `i` back to a dot, a slash, or the front. -/
def extStart (addr : CStr) : Nat → Nat
  | 0 => 0
  | i + 1 => if addr[i + 1]? = some '.' ∨ addr[i + 1]? = some '/' then i + 1 else extStart addr i

/-- `tolower` in the C locale. -/
def toLower (c : Char) : Char := if 'A' ≤ c ∧ c ≤ 'Z' then Char.ofNat (c.toNat + 32) else c

/-- `lowerCase`. -/
def lowerCase (str : CStr) : CStr := str.map toLower

/-- The type of the first entry with this extension. -/
def lookupType (mimeArray : List MimeData) (ext : CStr) : CStr :=
  match mimeArray.find? fun e => e.ext = ext with
  | some e => e.type
  | none => mimeTypeDefault

/-- `analyzeExtension`: the type of the file. -/
def analyzeExtension (mimeArray : List MimeData) (addr : CStr) : Except Fault CStr :=
  let i := extStart addr addr.length
  if i = 0 ∨ (addr.length : Int) - i - 1 > maxExtensionLen then .ok mimeTypeDefault
  else if addr[i]? = some '.' then
    let ext := addr.drop (i + 1)
    -- the NUL goes behind the extension in an array of `MAX_EXTENSION_LEN`
    if ext.length < maxExtensionLen then .ok (lookupType mimeArray (lowerCase ext))
    else .error .outOfBounds
  else .ok mimeTypeDefault

/-! ## A table that has been written is read back -/

/-- A word: something, and no white space in it. -/
def IsWord (s : CStr) : Prop := s ≠ [] ∧ ∀ c ∈ s, isSpace c = false

/-- An entry that fits its arrays. -/
def MimeData.Ok (e : MimeData) : Prop :=
  IsWord e.ext ∧ IsWord e.type ∧ e.ext.length ≤ maxExtensionLen ∧ e.type.length ≤ maxMimetypeLen

/-- The line of an entry. -/
def MimeData.line (e : MimeData) : CStr := e.ext ++ '\t' :: (e.type ++ ['\n'])

/-- The file of a table. -/
def mimeText (table : List MimeData) : CStr := table.flatMap MimeData.line

/-- A word that fits, with white space behind it, is taken, and the flag is not set. -/
theorem read_word {s : CStr} {c : Char} {pre rest : CStr} (hs : IsWord s)
    (hfits : s.length < bufferSize) (hpre : ∀ x ∈ pre, isSpace x = true)
    (hc : isSpace c = true) (eof : Bool) (str : CStr) :
    (WordFile.mk (pre ++ (s ++ c :: rest)) eof str).read = .ok ⟨c :: rest, false, s⟩ := by
  have hall : ∀ x ∈ s, inWord x = true := fun x hx => by rw [inWord, hs.2 x hx]; rfl
  have hdrop : (pre ++ (s ++ c :: rest)).dropWhile isSpace = s ++ c :: rest := by
    rw [List.dropWhile_append_of_pos hpre]
    cases hcase : s with
    | nil => exact absurd hcase hs.1
    | cons x xs =>
      have hx : ¬ isSpace x = true := by
        rw [hs.2 x (hcase ▸ List.mem_cons_self)]
        exact Bool.false_ne_true
      rw [List.cons_append, List.dropWhile_cons_of_neg hx]
  have hne : s ++ c :: rest ≠ [] := List.append_ne_nil_of_left_ne_nil hs.1 _
  have hnot : ¬ inWord c = true := by
    rw [inWord, hc]
    exact Bool.false_ne_true
  have hrest : (s ++ c :: rest).dropWhile inWord = c :: rest := by
    rw [List.dropWhile_append_of_pos hall, List.dropWhile_cons_of_neg hnot]
  have htake : (s ++ c :: rest).takeWhile inWord = s := by
    rw [List.takeWhile_append_of_pos hall, List.takeWhile_cons_of_neg hnot, List.append_nil]
  rw [WordFile.read, hdrop, htake, if_pos hfits, WordFile.fscanf, hdrop]
  simp only [if_neg hne, hrest, htake, List.cons_ne_nil, decide_false]

theorem isSpace_singleton {c : Char} (h : isSpace c = true) : ∀ x ∈ [c], isSpace x = true := by
  intro x hx
  rw [List.mem_singleton.mp hx, h]

/-- The two words of a line. -/
theorem read_line {e : MimeData} (he : e.Ok) {pre : CStr} (hpre : ∀ x ∈ pre, isSpace x = true)
    (rest : CStr) (eof : Bool) (str : CStr) :
    ∃ f, (WordFile.mk (pre ++ (e.line ++ rest)) eof str).read = .ok f ∧ f.eof = false ∧
      f.str = e.ext ∧ f.read = .ok ⟨'\n' :: rest, false, e.type⟩ := by
  obtain ⟨hext, htype, hextFits, htypeFits⟩ := he
  have hshape : e.line ++ rest = e.ext ++ '\t' :: (e.type ++ '\n' :: rest) := by
    rw [MimeData.line]
    simp
  have hextSmall : e.ext.length < bufferSize := Nat.lt_of_le_of_lt hextFits (by decide)
  have htypeSmall : e.type.length < bufferSize := Nat.lt_of_le_of_lt htypeFits (by decide)
  rw [hshape]
  exact ⟨_, read_word hext hextSmall hpre rfl eof str, rfl, rfl,
    read_word htype htypeSmall (isSpace_singleton (c := '\t') rfl) rfl _ _⟩

/-- The end of the file is noticed behind the last newline. -/
theorem read_end {pre : CStr} (hpre : ∀ x ∈ pre, isSpace x = true) (eof : Bool) (str : CStr) :
    (WordFile.mk pre eof str).read = .ok ⟨[], true, str⟩ := by
  rw [WordFile.read, WordFile.fscanf, List.dropWhile_eq_nil_iff.mpr hpre]
  rfl

theorem countEntries_succ {f g h : WordFile} (turns : Nat) (hf : f.eof = false)
    (hg : f.read = .ok g) (hg' : g.eof = false) (hh : g.read = .ok h) :
    countEntries (turns + 1) f = (countEntries turns h).map (· + 1) := by
  rw [countEntries, hf, hg, if_neg Bool.false_ne_true]
  show (if g.eof = true then countEntries turns g else
    g.read.bind fun h => (countEntries turns h).map (· + 1)) = _
  rw [hg', if_neg Bool.false_ne_true, hh]
  rfl

theorem readEntries_succ {f g h : WordFile} {e : MimeData} (he : e.Ok) (entries : Nat)
    (hf : f.eof = false) (hg : f.read = .ok g) (hext : g.str = e.ext) (hh : g.read = .ok h)
    (htype : h.str = e.type) :
    readEntries (entries + 1) f = (readEntries entries h).map (e :: ·) := by
  rw [readEntries, hf, hg, if_neg Bool.false_ne_true]
  show (g.read.bind fun h => _) = _
  rw [hh]
  show (if g.str.length ≤ maxExtensionLen ∧ h.str.length ≤ maxMimetypeLen then
    (readEntries entries h).map (⟨g.str, h.str⟩ :: ·) else .error .outOfBounds) = _
  rw [hext, htype, if_pos ⟨he.2.2.1, he.2.2.2⟩]

theorem countEntries_text (table : List MimeData) (htable : ∀ e ∈ table, e.Ok) :
    ∀ (pre str : CStr) (turns : Nat), (∀ x ∈ pre, isSpace x = true) → table.length < turns →
      countEntries turns ⟨pre ++ mimeText table, false, str⟩ = .ok table.length := by
  induction table with
  | nil =>
    intro pre str turns hpre hturns
    cases turns with
    | zero => exact absurd hturns (Nat.lt_irrefl 0)
    | succ turns =>
      rw [countEntries, if_neg Bool.false_ne_true, mimeText, List.flatMap_nil, List.append_nil,
        read_end hpre]
      cases turns with
      | zero => rfl
      | succ turns => rfl
  | cons e table ih =>
    intro pre str turns hpre hturns
    cases turns with
    | zero => exact absurd hturns (Nat.not_lt_zero _)
    | succ turns =>
      obtain ⟨f, hf, heof, -, hnext⟩ :=
        read_line (htable e List.mem_cons_self) hpre (mimeText table) false str
      have hrest := ih (fun x hx => htable x (List.mem_cons_of_mem e hx)) _ e.type turns
        (isSpace_singleton (c := '\n') rfl) (Nat.lt_of_succ_lt_succ hturns)
      show countEntries (turns + 1) ⟨pre ++ (e.line ++ mimeText table), false, str⟩ = _
      rw [countEntries_succ turns rfl hf heof hnext]
      show (countEntries turns ⟨['\n'] ++ mimeText table, false, e.type⟩).map _ = _
      rw [hrest]
      rfl

theorem readEntries_text (table : List MimeData) (htable : ∀ e ∈ table, e.Ok) :
    ∀ (pre str : CStr), (∀ x ∈ pre, isSpace x = true) →
      readEntries table.length ⟨pre ++ mimeText table, false, str⟩ = .ok table := by
  induction table with
  | nil => intro pre str _; rfl
  | cons e table ih =>
    intro pre str hpre
    have he := htable e List.mem_cons_self
    obtain ⟨f, hf, heof, hstr, hnext⟩ := read_line he hpre (mimeText table) false str
    have hrest := ih (fun x hx => htable x (List.mem_cons_of_mem e hx)) _ e.type
      (isSpace_singleton (c := '\n') rfl)
    show readEntries (table.length + 1) ⟨pre ++ (e.line ++ mimeText table), false, str⟩ = _
    rw [readEntries_succ he table.length rfl hf hstr hnext rfl]
    show (readEntries table.length ⟨['\n'] ++ mimeText table, false, e.type⟩).map _ = _
    rw [hrest]
    rfl

/-- A table of entries that fit, written one a line, is read back as it is. -/
theorem initMimeTypes_text (str : CStr) {table : List MimeData} (htable : ∀ e ∈ table, e.Ok) :
    initMimeTypes str (some (mimeText table)) = .ok table := by
  have hlen : table.length ≤ (mimeText table).length := by
    induction table with
    | nil => exact Nat.zero_le _
    | cons e table ih =>
      have := ih fun x hx => htable x (List.mem_cons_of_mem e hx)
      rw [mimeText, List.flatMap_cons, List.length_append, List.length_cons, MimeData.line]
      simp only [List.length_append, List.length_cons, mimeText] at this ⊢
      omega
  have hcount := countEntries_text table htable [] str ((mimeText table).length + 1)
    (by simp) (by omega)
  have hread := readEntries_text table htable [] str (by simp)
  rw [List.nil_append] at hcount hread
  rw [initMimeTypes, hcount]
  show (readEntries table.length _ >>= fun l => _) = _
  rw [hread]
  show Except.ok (table ++ List.replicate (table.length - table.length) _) = _
  rw [Nat.sub_self, List.replicate_zero, List.append_nil]

/-! ## The type of a file -/

theorem extStart_back {stem ext : CStr} {c : Char} (hc : c = '.' ∨ c = '/')
    (hext : '.' ∉ ext ∧ '/' ∉ ext) (hstem : stem ≠ []) (k : Nat) (hk : k ≤ ext.length + 1) :
    extStart (stem ++ c :: ext) (stem.length + k) = stem.length := by
  obtain ⟨n, hn⟩ : ∃ n, stem.length = n + 1 :=
    ⟨stem.length - 1, by have := List.length_pos_iff.mpr hstem; omega⟩
  induction k with
  | zero =>
    have hget : (stem ++ c :: ext)[n + 1]? = some c := by
      rw [← hn, List.getElem?_append_right (Nat.le_refl _), Nat.sub_self]
      rfl
    rw [Nat.add_zero, hn, extStart, hget]
    rcases hc with rfl | rfl
    · rw [if_pos (.inl rfl)]
    · rw [if_pos (.inr rfl)]
  | succ k ih =>
    have hget : (stem ++ c :: ext)[stem.length + k + 1]? = ext[k]? := by
      rw [List.getElem?_append_right (by omega), show stem.length + k + 1 - stem.length = k + 1 by
        omega]
      rfl
    have hne : ¬ (ext[k]? = some '.' ∨ ext[k]? = some '/') := by
      rintro (h | h)
      · exact hext.1 (List.mem_of_getElem? h)
      · exact hext.2 (List.mem_of_getElem? h)
    rw [← Nat.add_assoc, extStart, hget, if_neg hne]
    exact ih (by omega)

/-- A name with the extension `ext` has the type of the first entry for it, in upper case as in
lower, or the default type when there is none; an extension of more than 64 characters has the
default type, and one of exactly 64 is stored past the end of its array. -/
theorem analyzeExtension_ext (mimeArray : List MimeData) {stem ext : CStr} (hstem : stem ≠ [])
    (hext : '.' ∉ ext ∧ '/' ∉ ext) : analyzeExtension mimeArray (stem ++ '.' :: ext)
      = if ext.length < maxExtensionLen then .ok (lookupType mimeArray (lowerCase ext))
        else if ext.length = maxExtensionLen then .error .outOfBounds
        else .ok mimeTypeDefault := by
  have hlen : (stem ++ '.' :: ext).length = stem.length + (ext.length + 1) := by
    rw [List.length_append, List.length_cons]
  have hpos := List.length_pos_iff.mpr hstem
  have hstart : extStart (stem ++ '.' :: ext) (stem ++ '.' :: ext).length = stem.length := by
    rw [hlen]
    exact extStart_back (.inl rfl) hext hstem _ (Nat.le_refl _)
  have hdot : (stem ++ '.' :: ext)[stem.length]? = some '.' := by
    rw [List.getElem?_append_right (Nat.le_refl _), Nat.sub_self]
    rfl
  have hdrop : (stem ++ '.' :: ext).drop (stem.length + 1) = ext := by
    rw [List.drop_append, List.drop_eq_nil_of_le (by omega), Nat.add_sub_cancel_left]
    rfl
  rw [analyzeExtension]
  simp only [hstart, hdot, hdrop, if_true]
  rw [hlen]
  by_cases hlt : ext.length < maxExtensionLen
  · rw [if_neg (by omega), if_pos hlt, if_pos hlt]
  · rw [if_neg hlt, if_neg hlt]
    by_cases heq : ext.length = maxExtensionLen
    · rw [if_neg (by omega), if_pos heq]
    · rw [if_pos (by omega), if_neg heq]

theorem toLower_toLower (c : Char) : toLower (toLower c) = toLower c := by
  by_cases h : 'A' ≤ c ∧ c ≤ 'Z'
  · have hlow : 65 ≤ c.toNat := h.1
    have hhigh : c.toNat ≤ 90 := h.2
    have hval : (Char.ofNat (c.toNat + 32)).toNat = c.toNat + 32 := by
      rw [Char.toNat_ofNat, if_pos (.inl (by omega))]
    have hno : ¬ ('A' ≤ Char.ofNat (c.toNat + 32) ∧ Char.ofNat (c.toNat + 32) ≤ 'Z') := by
      rintro ⟨-, hle⟩
      have hle : (Char.ofNat (c.toNat + 32)).toNat ≤ 90 := hle
      omega
    rw [toLower, toLower, if_pos h, if_neg hno]
  · rw [toLower, toLower, if_neg h, if_neg h]

theorem lowerCase_lowerCase (s : CStr) : lowerCase (lowerCase s) = lowerCase s := by
  rw [lowerCase, lowerCase, List.map_map]
  exact List.map_congr_left fun c _ => toLower_toLower c

/-- Entries with an upper-case letter do not count: no extension that is looked up has one. -/
theorem lookupType_lower (table : List MimeData) (ext : CStr) :
    lookupType (table.filter fun e => lowerCase e.ext = e.ext) (lowerCase ext)
      = lookupType table (lowerCase ext) := by
  have hsame : ∀ e : MimeData,
      (lowerCase e.ext = e.ext ∧ e.ext = lowerCase ext) ↔ e.ext = lowerCase ext := by
    intro e
    refine ⟨And.right, fun h => ⟨?_, h⟩⟩
    rw [h, lowerCase_lowerCase]
  rw [lookupType, List.find?_filter, lookupType]
  simp only [decide_eq_true_iff, hsame]

/-- From the file of the table to the type of a file: the first entry for the extension in lower
case decides, entries with an upper-case letter are never used, and an extension of more than 64
characters has no entry. At 64 characters the extension is stored past its array. -/
theorem mimeType_exact (str : CStr) {table : List MimeData} (htable : ∀ e ∈ table, e.Ok)
    {stem ext : CStr} (hstem : stem ≠ []) (hext : '.' ∉ ext ∧ '/' ∉ ext) :
    ((initMimeTypes str (some (mimeText table))).bind fun mimeArray =>
      analyzeExtension mimeArray (stem ++ '.' :: ext))
      = if ext.length < maxExtensionLen then
          .ok (lookupType (table.filter fun e => lowerCase e.ext = e.ext) (lowerCase ext))
        else if ext.length = maxExtensionLen then .error .outOfBounds
        else .ok mimeTypeDefault := by
  rw [initMimeTypes_text str htable, lookupType_lower]
  exact analyzeExtension_ext table hstem hext

theorem mimeType_exact_at :
    ((initMimeTypes [] (some (mimeText [⟨"html".toList, "text/html".toList⟩]))).bind fun mimeArray =>
      analyzeExtension mimeArray ("/srv/www/a".toList ++ '.' :: "HTML".toList))
      = if "HTML".toList.length < maxExtensionLen then
          .ok (lookupType ([⟨"html".toList, "text/html".toList⟩].filter fun e =>
            lowerCase e.ext = e.ext) (lowerCase "HTML".toList))
        else if "HTML".toList.length = maxExtensionLen then .error .outOfBounds
        else .ok mimeTypeDefault :=
  mimeType_exact [] (by simp [MimeData.Ok, IsWord, isSpace, maxExtensionLen, maxMimetypeLen])
    (by decide) (by decide)

end LinuxNet.Httpd
