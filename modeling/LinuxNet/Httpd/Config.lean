import LinuxNet.Httpd.Header
import LinuxNet.Httpd.Mime
import LinuxNet.Httpd.Request
import LinuxNet.Lib.Except
import LinuxNet.Lib.Scanf
import LinuxNet.Lib.Words

/-!
# The configuration

`DHTTPD_InitPara` takes nine entries of two words from the file, one for each setting in a
fixed order, and each only if its first word is the name of the setting; else the setting has
its default. At the end of the file the two buffers keep what they hold.

So nothing is looked up: an entry that is missing puts all behind it off by one place
(`initPara_without`), and what the last entry left in the buffers is taken for all settings the
file has no entry for (`initPara_entries`).

How `sscanf` stores a number that does not fit is not specified; it is `conv` for an `int` and
`convLong` for a `long`. A name in the globals is at most as long as their arrays.
-/

namespace LinuxNet.Httpd

/-- `MAX_INDEX_NAME_LEN`. -/
def maxIndexNameLen : Nat := 16

/-- `DEFAULT_CONFIG_LOCATION CONFIG_FILE_NAME`. -/
def configFile : CStr := "/usr/local/etc/pserv/pserv.conf".toList

/-- What is set: the globals, and what `main` passes pointers to. -/
structure Para where
  serverPort : Int
  maxChild : Int
  homePath : CStr
  defaultFileName : CStr
  /-- `s_tv.tv_sec`. -/
  sec : Int
  /-- `s_tv.tv_usec`. -/
  usec : Int
  logFileName : CStr
  mimeTypesFileName : CStr
  cgiroot : CStr
  mimeArray : List MimeData
  deriving DecidableEq, Repr

/-- The defaults; the table of types is not one of them. -/
def Para.defaults (mimeArray : List MimeData) : Para where
  serverPort := 2000
  maxChild := 5
  homePath := "/usr/local/var/www".toList
  defaultFileName := "index.html".toList
  sec := 1
  usec := 100
  logFileName := "/usr/local/var/log/pserv.log".toList
  mimeTypesFileName := "/usr/local/etc/pserv/mime_types.dat".toList
  cgiroot := "/usr/local/var/www/cgi-bin".toList
  mimeArray := mimeArray

/-! ## An entry -/

/-- `char str[BUFFER_SIZE+1]`, by the string in it. -/
structure WordBuf where
  str : CStr
  fits : str.length ≤ bufferSize

/-- What `%s` has stored. -/
def WordBuf.store (s : CStr) : Except Fault WordBuf :=
  if h : s.length ≤ bufferSize then .ok ⟨s, h⟩ else .error .outOfBounds

/-- The file and the two buffers. -/
structure EntryFile where
  rest : CStr
  /-- `feof`. -/
  eof : Bool
  str1 : WordBuf
  str2 : WordBuf

/-- `if (!feof(f)) fscanf(f, "%s %s", str1, str2)`. -/
def EntryFile.read (f : EntryFile) : Except Fault EntryFile :=
  if f.eof then .ok f
  else do
    let w1 := (WordFile.mk f.rest f.eof f.str1.str).fscanf
    let str1 ← WordBuf.store w1.str
    let w2 := (WordFile.mk w1.rest w1.eof f.str2.str).fscanf
    let str2 ← WordBuf.store w2.str
    return ⟨w2.rest, w2.eof, str1, str2⟩

/-- What is in the buffers. -/
def EntryFile.entry (f : EntryFile) : CStr × CStr := (f.str1.str, f.str2.str)

/-- A number: `unset` if there is none, and the default if it is less than `least`. -/
def paraNumber (conv : Int → Int) (name : CStr) (unset least default : Int) (e : CStr × CStr) :
    Int :=
  let n := if e.1 = name then ((scanText (bytesOf e.2)).map conv).getD unset else unset
  if n < least then default else n

/-- A name, stored over the one in `old`. -/
def paraName (name default old : CStr) (e : CStr × CStr) : Except Fault CStr :=
  if e.1 = name then
    let stored := (WordFile.mk e.2 false old).fscanf.str
    if stored.length ≤ maxPathLen then .ok stored else .error .outOfBounds
  else .ok default

/-! ## The settings, in their order -/

section Settings

variable (conv convLong : Int → Int) (p : Para)

def portOf := paraNumber conv "port".toList 0 1 2000

def maxChildOf := paraNumber conv "max_child".toList 0 1 5

def homePathOf := paraName "documentsPath".toList "/usr/local/var/www".toList p.homePath

def defaultFileOf := paraName "defaultFile".toList "index.html".toList p.defaultFileName

def secOf := paraNumber convLong "secTimeout".toList (-1) 0 1

def usecOf := paraNumber convLong "uSecTimeout".toList (-1) 0 100

def logFileOf := paraName "logFile".toList "/usr/local/var/log/pserv.log".toList p.logFileName

def mimeTypesFileOf :=
  paraName "mimeTypesFile".toList "/usr/local/etc/pserv/mime_types.dat".toList p.mimeTypesFileName

def cgirootOf := paraName "cgiroot".toList "/usr/local/var/www/cgi-bin".toList p.cgiroot

/-- `DHTTPD_InitPara`, with the files there are and what variables and buffers hold before: the
value it returns, and the settings. -/
def initPara (files : CStr → Option CStr) (str1 str2 : WordBuf) (word : CStr) :
    Except Fault (Int × Para) :=
  match files configFile with
  | none => .ok (-1, .defaults p.mimeArray)
  | some text => do
    let f ← EntryFile.read ⟨text, false, str1, str2⟩
    let serverPort := portOf conv f.entry
    let f ← f.read
    let maxChild := maxChildOf conv f.entry
    let f ← f.read
    let homePath ← homePathOf p f.entry
    let f ← f.read
    let defaultFileName ← defaultFileOf p f.entry
    if maxIndexNameLen < defaultFileName.length then
      return (-1, { p with serverPort, maxChild, homePath, defaultFileName })
    let f ← f.read
    let sec := secOf convLong f.entry
    let f ← f.read
    let usec := usecOf convLong f.entry
    let f ← f.read
    let logFileName ← logFileOf p f.entry
    let f ← f.read
    let mimeTypesFileName ← mimeTypesFileOf p f.entry
    let f ← f.read
    let cgiroot ← cgirootOf p f.entry
    let mimeArray ← initMimeTypes word (files mimeTypesFileName)
    return (0, ⟨serverPort, maxChild, homePath, defaultFileName, sec, usec, logFileName,
      mimeTypesFileName, cgiroot, mimeArray⟩)

/-- The settings, if the entry at each place is known. -/
def paraOf (files : CStr → Option CStr) (word : CStr) (e : Nat → CStr × CStr) :
    Except Fault (Int × Para) := do
  let homePath ← homePathOf p (e 2)
  let defaultFileName ← defaultFileOf p (e 3)
  if maxIndexNameLen < defaultFileName.length then
    return (-1, { p with
      serverPort := portOf conv (e 0), maxChild := maxChildOf conv (e 1), homePath, defaultFileName })
  let logFileName ← logFileOf p (e 6)
  let mimeTypesFileName ← mimeTypesFileOf p (e 7)
  let cgiroot ← cgirootOf p (e 8)
  let mimeArray ← initMimeTypes word (files mimeTypesFileName)
  return (0, ⟨portOf conv (e 0), maxChildOf conv (e 1), homePath, defaultFileName,
    secOf convLong (e 4), usecOf convLong (e 5), logFileName, mimeTypesFileName, cgiroot, mimeArray⟩)

end Settings

/-! ## What the buffers hold -/

/-- The words of a text. -/
def words (text : CStr) : List CStr := wordsOf isSpace text

/-- What two words more leave in the buffers. -/
def heldNext (ws : List CStr) (e : CStr × CStr) : CStr × CStr :=
  (ws.head?.getD e.1, ws.tail.head?.getD e.2)

/-- What the buffers hold after so many entries. -/
def heldAfter : List CStr → CStr × CStr → Nat → CStr × CStr
  | _, e, 0 => e
  | ws, e, n + 1 => heldAfter (ws.drop 2) (heldNext ws e) n

/-- One word. -/
theorem fscanf_words (f : WordFile) :
    f.fscanf.str = (words f.rest).head?.getD f.str ∧
      words f.fscanf.rest = (words f.rest).tail ∧
        (f.fscanf.eof = true → words f.fscanf.rest = []) := by
  unfold WordFile.fscanf words
  by_cases hs : f.rest.dropWhile isSpace = []
  · rw [if_pos hs, ← wordsOf_dropWhile f.rest, hs, wordsOf_nil]
    have hnil : wordsOf isSpace ([] : CStr) = [] := wordsOf_nil
    exact ⟨rfl, hnil, fun _ => hnil⟩
  · rw [if_neg hs, wordsOf_next hs]
    refine ⟨rfl, rfl, fun heof => ?_⟩
    rw [of_decide_eq_true heof, wordsOf_nil]

/-- The reader has these words to go, and these in its buffers. -/
structure EntryFile.Reads (f : EntryFile) (ws : List CStr) (e : CStr × CStr) : Prop where
  words : words f.rest = ws
  held : f.entry = e
  fit : ∀ w ∈ ws, w.length ≤ bufferSize
  eof : f.eof = true → ws = []

theorem store_ok {s : CStr} (h : s.length ≤ bufferSize) : WordBuf.store s = .ok ⟨s, h⟩ := dif_pos h

theorem getD_fits {o : Option CStr} {s : CStr} (ho : ∀ w ∈ o, w.length ≤ bufferSize)
    (hs : s.length ≤ bufferSize) : (o.getD s).length ≤ bufferSize := by
  cases o with
  | none => exact hs
  | some w => exact ho w rfl

/-- **One entry.** -/
theorem EntryFile.Reads.read {f : EntryFile} {ws : List CStr} {e : CStr × CStr}
    (h : f.Reads ws e) : ∃ f', f.read = .ok f' ∧ f'.Reads (ws.drop 2) (heldNext ws e) := by
  unfold EntryFile.read
  by_cases heof : f.eof = true
  · rw [if_pos heof]
    obtain rfl := h.eof heof
    exact ⟨f, rfl, h.words, h.held, h.fit, fun _ => rfl⟩
  · rw [if_neg heof]
    dsimp only
    obtain ⟨hstr1, hrest1, -⟩ := fscanf_words ⟨f.rest, f.eof, f.str1.str⟩
    generalize (WordFile.mk f.rest f.eof f.str1.str).fscanf = w1 at hstr1 hrest1 ⊢
    obtain ⟨hstr2, hrest2, heof2⟩ := fscanf_words ⟨w1.rest, w1.eof, f.str2.str⟩
    generalize (WordFile.mk w1.rest w1.eof f.str2.str).fscanf = w2 at hstr2 hrest2 heof2 ⊢
    dsimp only at hstr1 hrest1 hstr2 hrest2
    rw [h.words] at hstr1 hrest1
    rw [hrest1] at hstr2 hrest2
    have hfit1 : w1.str.length ≤ bufferSize := by
      rw [hstr1]
      exact getD_fits (fun w hw => h.fit w (List.mem_of_head? hw)) f.str1.fits
    have hfit2 : w2.str.length ≤ bufferSize := by
      rw [hstr2]
      exact getD_fits (fun w hw => h.fit w (List.mem_of_mem_tail (List.mem_of_head? hw)))
        f.str2.fits
    have hdrop : ws.tail.tail = ws.drop 2 := by
      rw [← List.drop_one, ← List.drop_one, List.drop_drop]
    rw [hdrop] at hrest2
    refine ⟨⟨w2.rest, w2.eof, ⟨w1.str, hfit1⟩, ⟨w2.str, hfit2⟩⟩, ?_, ?_⟩
    · rw [store_ok hfit1, store_ok hfit2]
      rfl
    · refine ⟨hrest2, ?_, fun w hw => h.fit w (List.mem_of_mem_drop hw), fun he => ?_⟩
      · rw [← h.held]
        exact Prod.ext hstr1 hstr2
      · exact hrest2.symm.trans (heof2 he)

/-- The reader one entry further on. -/
def EntryFile.next (f : EntryFile) : EntryFile := (f.read).toOption.getD f

/-- **All entries**, one after the other. -/
theorem EntryFile.Reads.all (i : Nat) : ∀ {f : EntryFile} {ws : List CStr} {e : CStr × CStr},
    f.Reads ws e → (EntryFile.next^[i] f).read = .ok (EntryFile.next^[i + 1] f) ∧
      (EntryFile.next^[i] f).entry = heldAfter ws e i := by
  induction i with
  | zero =>
    intro f ws e h
    obtain ⟨f', hf', -⟩ := h.read
    refine ⟨?_, h.held⟩
    show f.read = .ok f.next
    rw [EntryFile.next, hf']
    rfl
  | succ i ih =>
    intro f ws e h
    obtain ⟨f', hf', hnext⟩ := h.read
    have hf : f.next = f' := by
      rw [EntryFile.next, hf']
      rfl
    rw [Function.iterate_succ_apply, Function.iterate_succ_apply EntryFile.next (i + 1), hf]
    exact ih hnext

/-! ## Entries -/

/-- The words of entries. -/
def entryWords (es : List (CStr × CStr)) : List CStr := es.flatMap fun e => [e.1, e.2]

/-- A line of the file: two words, and white space between them. -/
structure Line where
  key : CStr
  gap : CStr
  value : CStr

/-- The line is as it should be. -/
def Line.Ok (l : Line) : Prop :=
  IsWord l.key ∧ l.gap ≠ [] ∧ (∀ c ∈ l.gap, isSpace c = true) ∧ IsWord l.value

/-- The file of some lines. -/
def fileText (ls : List Line) : CStr :=
  ls.flatMap fun l => l.key ++ (l.gap ++ (l.value ++ ['\n']))

theorem words_gap {gap : CStr} (hgap : ∀ c ∈ gap, isSpace c = true) (text : CStr) :
    words (gap ++ text) = words text := by
  induction gap with
  | nil => rfl
  | cons c gap ih =>
    exact (wordsOf_sep (hgap c List.mem_cons_self) _).trans
      (ih fun d hd => hgap d (List.mem_cons_of_mem c hd))

/-- **A file of lines** is the words that stand in them. -/
theorem words_fileText {ls : List Line} (h : ∀ l ∈ ls, l.Ok) :
    words (fileText ls) = entryWords (ls.map fun l => (l.key, l.value)) := by
  induction ls with
  | nil => exact wordsOf_nil
  | cons l ls ih =>
    obtain ⟨hkey, hne, hgap, hvalue⟩ := h l List.mem_cons_self
    have hrest := ih fun l' hl' => h l' (List.mem_cons_of_mem l hl')
    have hhead : ∀ c ∈ (l.gap ++ (l.value ++ '\n' :: fileText ls)).head?, isSpace c = true := by
      intro c hc
      rw [List.head?_append_of_ne_nil _ hne] at hc
      exact hgap c (List.mem_of_head? hc)
    show words (l.key ++ (l.gap ++ (l.value ++ ['\n'])) ++ fileText ls) = l.key :: l.value :: _
    rw [List.append_assoc, List.append_assoc, List.append_assoc, List.singleton_append]
    have h1 : words (l.key ++ (l.gap ++ (l.value ++ '\n' :: fileText ls))) = _ :=
      wordsOf_word hkey.1 hkey.2 hhead
    have h2 : words (l.value ++ '\n' :: fileText ls) = _ :=
      wordsOf_word hvalue.1 hvalue.2 fun c hc => by cases hc; rfl
    have h3 : words ('\n' :: fileText ls) = _ := wordsOf_sep rfl _
    rw [h1]
    show l.key :: words (l.gap ++ _) = _
    rw [words_gap hgap, h2]
    show l.key :: l.value :: words ('\n' :: fileText ls) = _
    rw [h3]
    exact congrArg _ (congrArg _ hrest)

theorem isWord_of_all {w : CStr} (hne : w ≠ []) (h : w.all inWord = true) : IsWord w := by
  refine ⟨hne, fun c hc => ?_⟩
  have hword := List.all_eq_true.mp h c hc
  rwa [inWord, Bool.not_eq_true'] at hword

/-- `Line.Ok`, to be evaluated. -/
def Line.check (l : Line) : Bool :=
  !l.key.isEmpty && l.key.all inWord && !l.gap.isEmpty && l.gap.all isSpace && !l.value.isEmpty &&
    l.value.all inWord

theorem Line.ok_of_check {ls : List Line} (h : ls.all Line.check = true) : ∀ l ∈ ls, l.Ok := by
  intro l hl
  have hl := List.all_eq_true.mp h l hl
  simp only [Line.check, Bool.and_eq_true, Bool.not_eq_true', List.isEmpty_eq_false_iff] at hl
  obtain ⟨⟨⟨⟨⟨h1, h2⟩, h3⟩, h4⟩, h5⟩, h6⟩ := hl
  exact ⟨isWord_of_all h1 h2, h3, List.all_eq_true.mp h4, isWord_of_all h5 h6⟩

/-- The entry a setting sees: its own, or else the last one, with a word behind it in the place of
the first. -/
def seenOf (es : List (CStr × CStr)) (last : Option CStr) (e : CStr × CStr) (i : Nat) :
    CStr × CStr :=
  (es[i]?).getD (last.getD (es.getLast?.getD e).1, (es.getLast?.getD e).2)

theorem heldAfter_nil (e : CStr × CStr) (n : Nat) : heldAfter [] e n = e := by
  induction n with
  | zero => rfl
  | succ n ih => exact ih

theorem heldAfter_entries (last : Option CStr) (es : List (CStr × CStr)) :
    ∀ (e : CStr × CStr) (i : Nat),
      heldAfter (entryWords es ++ last.toList) e (i + 1) = seenOf es last e i := by
  induction es with
  | nil =>
    intro e i
    cases last with
    | none => exact heldAfter_nil e i
    | some w => exact heldAfter_nil (w, e.2) i
  | cons x es ih =>
    intro e i
    show heldAfter (entryWords es ++ last.toList) x i = _
    cases i with
    | zero => rfl
    | succ i =>
      rw [ih x i, seenOf, seenOf, List.getElem?_cons_succ, List.getLast?_cons]
      rfl

/-! ## Reading the file -/

section Reading

variable {conv convLong : Int → Int} {p : Para} {files : CStr → Option CStr} {str1 str2 : WordBuf}
  {word text : CStr}

/-- **The settings** are those of what the buffers hold when they are looked at. -/
theorem initPara_held (hfile : files configFile = some text)
    (hfit : ∀ w ∈ words text, w.length ≤ bufferSize) :
    initPara conv convLong p files str1 str2 word =
      paraOf conv convLong p files word fun i =>
        heldAfter (words text) (str1.str, str2.str) (i + 1) := by
  obtain ⟨g, hstart, hread, hentry⟩ : ∃ g : Nat → EntryFile, g 0 = ⟨text, false, str1, str2⟩ ∧
      (∀ i, (g i).read = .ok (g (i + 1))) ∧
        ∀ i, (g i).entry = heldAfter (words text) (str1.str, str2.str) i := by
    have h : (EntryFile.mk text false str1 str2).Reads (words text) (str1.str, str2.str) :=
      ⟨rfl, rfl, hfit, fun h => Bool.noConfusion h⟩
    exact ⟨fun i => EntryFile.next^[i] ⟨text, false, str1, str2⟩, rfl, fun i => (h.all i).1,
      fun i => (h.all i).2⟩
  have hbind : ∀ {α β : Type} (a : α) (k : α → Except Fault β),
      ((Except.ok a : Except Fault α) >>= k) = k a := fun _ _ => rfl
  unfold initPara paraOf
  rw [hfile]
  dsimp only
  rw [← hstart]
  simp only [hread, hbind, hentry, Nat.reduceAdd]

/-- The configuration file that comes with the server. -/
def pservConf : List Line :=
  [⟨"port".toList, ['\t'], "8080".toList⟩, ⟨"maxChildren".toList, ['\t'], "4".toList⟩,
    ⟨"documentsPath".toList, [' ', ' ', ' '], "/usr/local/var/www".toList⟩,
    ⟨"defaultFile".toList, ['\t'], "index.html".toList⟩, ⟨"secTimeout".toList, ['\t'], "1".toList⟩,
    ⟨"uSecTimeout".toList, ['\t'], "100000".toList⟩,
    ⟨"logFile".toList, ['\t', '\t'], "/usr/local/var/log/pserv.log".toList⟩,
    ⟨"mimeTypesFile".toList, ['\t'], "/usr/local/etc/pserv/mime_types.dat".toList⟩,
    ⟨"cgiRoot".toList, ['\t', '\t'], "/usr/local/var/www/cgi-bin".toList⟩]

end Reading

/-! ## A file with a missing entry -/

/-- Settings that can be written down. -/
structure Para.Ok (p : Para) : Prop where
  port : 0 < p.serverPort ∧ p.serverPort < 2147483648
  maxChild : 0 < p.maxChild ∧ p.maxChild < 2147483648
  sec : 0 ≤ p.sec ∧ p.sec < 2147483648
  usec : 0 ≤ p.usec ∧ p.usec < 2147483648
  homePath : IsWord p.homePath ∧ p.homePath.length ≤ maxPathLen
  defaultFile : IsWord p.defaultFileName ∧ p.defaultFileName.length ≤ maxIndexNameLen
  logFile : IsWord p.logFileName ∧ p.logFileName.length ≤ maxPathLen
  mimeTypesFile : IsWord p.mimeTypesFileName ∧ p.mimeTypesFileName.length ≤ maxPathLen
  cgiroot : IsWord p.cgiroot ∧ p.cgiroot.length ≤ maxPathLen

/-- `%d` of a number that is not negative. -/
def digits (n : Int) : CStr := Nat.toDigits 10 n.toNat

/-- Settings as entries, each in its place. -/
def Para.entries (p : Para) : List (CStr × CStr) :=
  [("port".toList, digits p.serverPort), ("max_child".toList, digits p.maxChild),
    ("documentsPath".toList, p.homePath), ("defaultFile".toList, p.defaultFileName),
    ("secTimeout".toList, digits p.sec), ("uSecTimeout".toList, digits p.usec),
    ("logFile".toList, p.logFileName), ("mimeTypesFile".toList, p.mimeTypesFileName),
    ("cgiroot".toList, p.cgiroot)]

/-- What is left of the settings if the entry at place `j` is missing: those in front of it, and
`cgiroot`, which sees the last entry. -/
def Para.upTo (p : Para) (j : Nat) (mimeArray : List MimeData) : Para :=
  let d := Para.defaults mimeArray
  { serverPort := if 0 < j then p.serverPort else d.serverPort
    maxChild := if 1 < j then p.maxChild else d.maxChild
    homePath := if 2 < j then p.homePath else d.homePath
    defaultFileName := if 3 < j then p.defaultFileName else d.defaultFileName
    sec := if 4 < j then p.sec else d.sec
    usec := if 5 < j then p.usec else d.usec
    logFileName := if 6 < j then p.logFileName else d.logFileName
    mimeTypesFileName := if 7 < j then p.mimeTypesFileName else d.mimeTypesFileName
    cgiroot := if j = 8 then d.cgiroot else p.cgiroot
    mimeArray := mimeArray }

section Missing

variable {conv convLong : Int → Int}

/-- What a setting sees of entries with one missing. -/
theorem seenOf_eraseIdx {es : List (CStr × CStr)} {a b : CStr × CStr} {i : Nat}
    (ha : es[i]? = some a) (hb : es[i + 1]? = some b) (j : Nat) (e : CStr × CStr) :
    seenOf (es.eraseIdx j) none e i = if i < j then a else b := by
  rw [seenOf, List.getElem?_eraseIdx, ha, hb]
  split
  next => rfl
  next => rfl

/-- The last setting sees its own entry, unless that is the one. -/
theorem seenOf_eraseIdx_last {es : List (CStr × CStr)} {a b : CStr × CStr} (j : Nat)
    (e : CStr × CStr) :
    seenOf ((es ++ [a, b]).eraseIdx j) none e (es.length + 1) =
      if j = es.length + 1 then a else b := by
  have hlast : ∀ {l : List (CStr × CStr)} {x : CStr × CStr}, l.length ≤ es.length →
      seenOf (l ++ [x]) none e (es.length + 1) = x := by
    intro l x hl
    have hnone : (l ++ [x])[es.length + 1]? = none := by
      apply List.getElem?_eq_none
      rw [List.length_append, List.length_singleton]
      omega
    rw [seenOf, hnone, List.getLast?_concat]
    rfl
  rcases Nat.lt_trichotomy j (es.length + 1) with hj | hj | hj
  · rw [if_neg (by omega)]
    rcases Nat.lt_or_ge j es.length with hlt | hge
    · rw [List.eraseIdx_append_of_lt_length hlt, ← List.singleton_append, ← List.append_assoc]
      apply hlast
      rw [List.length_append, List.length_eraseIdx_of_lt hlt, List.length_singleton]
      omega
    · rw [List.eraseIdx_append_of_length_le hge, show j - es.length = 0 by omega]
      exact hlast (Nat.le_refl _)
  · rw [if_pos hj, List.eraseIdx_append_of_length_le (by omega),
      show j - es.length = 1 by omega]
    exact hlast (Nat.le_refl _)
  · rw [if_neg (by omega), List.eraseIdx_of_length_le (by
      rw [List.length_append]
      show es.length + 2 ≤ j
      omega)]
    rw [seenOf, List.getElem?_append_right (by omega), Nat.add_sub_cancel_left]
    rfl

theorem scanText_digits {n : Int} (h : 0 ≤ n) : scanText (bytesOf (digits n)) = some n := by
  have hall : ∀ b, isDigitByte b = true → isSpaceByte b = false → isSignByte b = false →
      Scan.next .space b = .digits false (Scan.digit b) := by
    intro b hb hs hg
    rw [Scan.next, hs, hg, if_neg Bool.false_ne_true, if_neg Bool.false_ne_true, if_pos hb]
  rw [scanText, digits, foldl_number n.toNat hall]
  exact congrArg some (Int.toNat_of_nonneg h)

/-- A number that is seen in its place, or not. -/
theorem paraNumber_seen {name name' v' : CStr} {unset least default n : Int} {c : Prop}
    [Decidable c] (hne : name' ≠ name) (hunset : unset < least) (hn : least ≤ n) (h0 : 0 ≤ n)
    (hconv : conv n = n) :
    paraNumber conv name unset least default (if c then (name, digits n) else (name', v')) =
      if c then n else default := by
  unfold paraNumber
  by_cases hc : c
  · rw [if_pos hc, if_pos hc, if_pos rfl, scanText_digits h0, Option.map_some, Option.getD_some,
      hconv]
    exact if_neg (Int.not_lt.mpr hn)
  · rw [if_neg hc, if_neg hc, if_neg hne]
    exact if_pos hunset

/-- A word is read as a whole. -/
theorem fscanf_isWord {w : CStr} (hw : IsWord w) (old : CStr) :
    (WordFile.mk w false old).fscanf.str = w := by
  rw [(fscanf_words _).1]
  have hone : wordsOf isSpace (w ++ []) = w :: wordsOf isSpace [] :=
    wordsOf_word hw.1 hw.2 fun c hc => by cases hc
  rw [List.append_nil] at hone
  show ((wordsOf isSpace w).head?).getD old = w
  rw [hone]
  rfl

/-- A name that is seen in its place, or not. -/
theorem paraName_seen {name name' v v' default : CStr} {c : Prop} [Decidable c]
    (hne : name' ≠ name) (hv : IsWord v ∧ v.length ≤ maxPathLen) (old : CStr) :
    paraName name default old (if c then (name, v) else (name', v')) =
      .ok (if c then v else default) := by
  unfold paraName
  by_cases hc : c
  · rw [if_pos hc, if_pos hc, if_pos rfl, fscanf_isWord hv.1]
    exact if_pos hv.2
  · rw [if_neg hc, if_neg hc, if_neg hne]

/-- All settings from what each of them sees. -/
theorem paraOf_fields {p0 q : Para} {files : CStr → Option CStr} {word : CStr}
    {held : Nat → CStr × CStr} (hport : portOf conv (held 0) = q.serverPort)
    (hmax : maxChildOf conv (held 1) = q.maxChild) (hhome : homePathOf p0 (held 2) = .ok q.homePath)
    (hdefault : defaultFileOf p0 (held 3) = .ok q.defaultFileName)
    (hshort : ¬ maxIndexNameLen < q.defaultFileName.length)
    (hsec : secOf convLong (held 4) = q.sec) (husec : usecOf convLong (held 5) = q.usec)
    (hlog : logFileOf p0 (held 6) = .ok q.logFileName)
    (hmime : mimeTypesFileOf p0 (held 7) = .ok q.mimeTypesFileName)
    (hcgi : cgirootOf p0 (held 8) = .ok q.cgiroot) :
    paraOf conv convLong p0 files word held =
      (initMimeTypes word (files q.mimeTypesFileName)).map fun t =>
        (0, { q with mimeArray := t }) := by
  have hbind : ∀ {α β : Type} (a : α) (k : α → Except Fault β),
      ((Except.ok a : Except Fault α) >>= k) = k a := fun _ _ => rfl
  unfold paraOf
  rw [hport, hmax, hsec, husec, hhome, hdefault, hlog, hmime, hcgi]
  simp only [hbind, if_neg hshort]
  cases initMimeTypes word (files q.mimeTypesFileName) <;> rfl

/-- **One entry less**: of settings that are written down in their order, without the one at a
place, all from this place on are the defaults, apart from the last. With none missing, all are
read back. -/
theorem initPara_without {p p0 : Para} {files : CStr → Option CStr} {str1 str2 : WordBuf}
    {word text : CStr} {j : Nat} (hp : p.Ok)
    (hconv : ∀ n, 0 ≤ n → n < 2147483648 → conv n = n ∧ convLong n = n)
    (hfile : files configFile = some text)
    (hwords : words text = entryWords (p.entries.eraseIdx j))
    (hfit : ∀ w ∈ words text, w.length ≤ bufferSize) :
    initPara conv convLong p0 files str1 str2 word =
      (initMimeTypes word (files (p.upTo j []).mimeTypesFileName)).map fun t => (0, p.upTo j t) := by
  have hheld : (fun i => heldAfter (words text) (str1.str, str2.str) (i + 1)) =
      seenOf (p.entries.eraseIdx j) none (str1.str, str2.str) := by
    rw [hwords, ← List.append_nil (entryWords _)]
    exact funext fun i => heldAfter_entries none _ _ i
  rw [initPara_held hfile hfit, hheld]
  generalize (str1.str, str2.str) = e
  -- what each setting sees: itself, or the one behind it
  have hseen : ∀ {i : Nat} {a b : CStr × CStr}, p.entries[i]? = some a →
      p.entries[i + 1]? = some b → seenOf (p.entries.eraseIdx j) none e i =
        if i < j then a else b :=
    fun ha hb => seenOf_eraseIdx ha hb j e
  have hlast : seenOf (p.entries.eraseIdx j) none e 8 = if ¬ j = 8 then
      ("cgiroot".toList, p.cgiroot) else ("mimeTypesFile".toList, p.mimeTypesFileName) := by
    rw [ite_not]
    exact @seenOf_eraseIdx_last (p.entries.take 7) _ _ j e
  have hint := fun (n : Int) (h : 0 < n ∧ n < 2147483648) => (hconv n (Int.le_of_lt h.1) h.2).1
  have hport : portOf conv (seenOf (p.entries.eraseIdx j) none e 0) = (p.upTo j []).serverPort := by
    rw [hseen rfl rfl]
    exact paraNumber_seen (by decide) (by decide) hp.port.1 (Int.le_of_lt hp.port.1)
      (hint _ hp.port)
  have hmax : maxChildOf conv (seenOf (p.entries.eraseIdx j) none e 1) =
      (p.upTo j []).maxChild := by
    rw [hseen rfl rfl]
    exact paraNumber_seen (by decide) (by decide) hp.maxChild.1 (Int.le_of_lt hp.maxChild.1)
      (hint _ hp.maxChild)
  have hsec : secOf convLong (seenOf (p.entries.eraseIdx j) none e 4) = (p.upTo j []).sec := by
    rw [hseen rfl rfl]
    exact paraNumber_seen (by decide) (by decide) hp.sec.1 hp.sec.1 (hconv _ hp.sec.1 hp.sec.2).2
  have husec : usecOf convLong (seenOf (p.entries.eraseIdx j) none e 5) = (p.upTo j []).usec := by
    rw [hseen rfl rfl]
    exact paraNumber_seen (by decide) (by decide) hp.usec.1 hp.usec.1
      (hconv _ hp.usec.1 hp.usec.2).2
  have hhome : homePathOf p0 (seenOf (p.entries.eraseIdx j) none e 2) =
      .ok (p.upTo j []).homePath := by
    rw [hseen rfl rfl]
    exact paraName_seen (by decide) hp.homePath _
  have hdefault : defaultFileOf p0 (seenOf (p.entries.eraseIdx j) none e 3) =
      .ok (p.upTo j []).defaultFileName := by
    rw [hseen rfl rfl]
    exact paraName_seen (by decide)
      ⟨hp.defaultFile.1, Nat.le_trans hp.defaultFile.2 (by decide)⟩ _
  have hlog : logFileOf p0 (seenOf (p.entries.eraseIdx j) none e 6) =
      .ok (p.upTo j []).logFileName := by
    rw [hseen rfl rfl]
    exact paraName_seen (by decide) hp.logFile _
  have hmime : mimeTypesFileOf p0 (seenOf (p.entries.eraseIdx j) none e 7) =
      .ok (p.upTo j []).mimeTypesFileName := by
    rw [hseen rfl rfl]
    exact paraName_seen (by decide) hp.mimeTypesFile _
  have hcgi : cgirootOf p0 (seenOf (p.entries.eraseIdx j) none e 8) =
      .ok (p.upTo j []).cgiroot := by
    rw [hlast]
    refine (paraName_seen (by decide) hp.cgiroot _).trans ?_
    rw [ite_not]
    rfl
  have hshort : ¬ maxIndexNameLen < (p.upTo j []).defaultFileName.length := by
    show ¬ maxIndexNameLen < List.length (if 3 < j then _ else _)
    split
    next => exact Nat.not_lt.mpr hp.defaultFile.2
    next => decide
  exact paraOf_fields hport hmax hhome hdefault hshort hsec husec hlog hmime hcgi

/-- A server of its own. -/
def ownPara : Para where
  serverPort := 8080
  maxChild := 4
  homePath := "/srv/www".toList
  defaultFileName := "main.html".toList
  sec := 2
  usec := 5
  logFileName := "/srv/log".toList
  mimeTypesFileName := "/srv/types".toList
  cgiroot := "/srv/cgi-bin".toList
  mimeArray := []

theorem ownPara_ok : ownPara.Ok where
  port := by decide
  maxChild := by decide
  sec := by decide
  usec := by decide
  homePath := ⟨isWord_of_all (by decide) rfl, by decide⟩
  defaultFile := ⟨isWord_of_all (by decide) rfl, by decide⟩
  logFile := ⟨isWord_of_all (by decide) rfl, by decide⟩
  mimeTypesFile := ⟨isWord_of_all (by decide) rfl, by decide⟩
  cgiroot := ⟨isWord_of_all (by decide) rfl, by decide⟩

/-- The file of settings less the entry at a place, one a line. -/
def Para.lines (p : Para) (j : Nat) : List Line :=
  (p.entries.eraseIdx j).map fun e => ⟨e.1, [' '], e.2⟩

/-- Without `port`, nothing is taken but `cgiroot`. -/
theorem initPara_without_port :
    initPara id id (.defaults [])
        (fun f => if f = configFile then some (fileText (ownPara.lines 0)) else none)
        ⟨[], Nat.zero_le _⟩ ⟨[], Nat.zero_le _⟩ [] =
      .ok (0, { Para.defaults defaultMimeTypes with cgiroot := "/srv/cgi-bin".toList }) := by
  have hcheck : (ownPara.lines 0).all Line.check = true := by decide +kernel
  have hwords : words (fileText (ownPara.lines 0)) = entryWords (ownPara.entries.eraseIdx 0) :=
    words_fileText (Line.ok_of_check hcheck)
  have hfit : ∀ w ∈ words (fileText (ownPara.lines 0)), w.length ≤ bufferSize := by
    rw [hwords]
    decide
  exact (initPara_without ownPara_ok (fun n _ _ => ⟨rfl, rfl⟩) (if_pos rfl) hwords hfit).trans rfl

end Missing

end LinuxNet.Httpd
