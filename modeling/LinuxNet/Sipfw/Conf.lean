import LinuxNet.Sipfw.File

/-!
# The configuration file, directive by directive

What the file is meant to say (`directive`, `confOf`) against what
`SIPFW_HandleConf` makes of it, for every initial content of the line buffer.

The loop stops at a line without characters, so nothing behind a blank line is
read, and nothing behind a line that ends in CR LF, whose LF looks like one.
A directive is recognised by the beginning of its name and read at a fixed
offset, whatever stands in between, and behind a name on its own the offset is
in the stale part of the buffer. A last line without a newline gets a stale
character. `ConfFile.Plain` is the condition that none of this happens where it
could matter.
-/

namespace LinuxNet.Sipfw

/-! ## What the file says -/

/-- The three directives. -/
inductive Directive where
  | defaultAction (v : BitVec 32)
  | rulesFile (path : CStr)
  | logFile (path : CStr)
  deriving DecidableEq, Repr

/-- What a directive sets. -/
def Directive.apply (d : Directive) (cf : SipfwConfPaths) : SipfwConfPaths :=
  match d with
  | .defaultAction v => { cf with defaultAction := v }
  | .rulesFile path => { cf with ruleFilePath := path }
  | .logFile path => { cf with logFilePath := path }

/-- `DefaultAction=ACCEPT|DROP`, `RulesFile=<path>`, `LogFile=<path>`; any other line
is none. -/
def directive (text : CStr) : Option Directive :=
  if text = "DefaultAction=ACCEPT".toList then some (.defaultAction nfAccept)
  else if text = "DefaultAction=DROP".toList then some (.defaultAction nfDrop)
  else if "RulesFile=".toList <+: text then some (.rulesFile (text.drop 10))
  else if "LogFile=".toList <+: text then some (.logFile (text.drop 8))
  else none

/-- A line as it is meant to act on the configuration. -/
def obey (cf : SipfwConfPaths) (text : CStr) : SipfwConfPaths :=
  ((directive text).map fun d => d.apply cf).getD cf

/-- The lines in order. -/
def confOf (texts : List CStr) (cf : SipfwConfPaths) : SipfwConfPaths := texts.foldl obey cf

/-- A line of less than 256 bytes that ends in LF or CR LF. -/
structure ConfLine where
  text : CStr
  crlf : Bool
  short : text.length < 256
  oneLine : '\n' ∉ text
  noCR : crlf = false → text.getLast? ≠ some '\r'

/-- The line as it stands in the file. -/
def ConfLine.chars (l : ConfLine) : List Char :=
  l.text ++ if l.crlf = true then ['\r', '\n'] else ['\n']

/-- A file: its lines, and what follows the last newline, if anything. -/
structure ConfFile where
  lines : List ConfLine
  last : CStr
  short : last.length < 256
  oneLine : '\n' ∉ last

namespace ConfFile

def chars (f : ConfFile) : List Char := f.lines.flatMap ConfLine.chars ++ f.last

def texts (f : ConfFile) : List CStr := f.lines.map (·.text) ++ [f.last]

/-- The file is read to its end: whatever was in the line buffer, the configuration
becomes what the lines say. -/
def Handled (f : ConfFile) : Prop :=
  ∀ line cf, handleConf (some f.chars) line cf = .ok (confOf f.texts cf)

end ConfFile

/-! ## Lines that mean what they say -/

/-- Read by its beginning and at fixed offsets, the line means what it says: no
character of it ends a line, the name of a directive is followed by `=`, and what
begins like a value of `DefaultAction` is one. -/
structure WellRead (text : CStr) : Prop where
  unbroken : Unbroken text
  action : "DefaultAction".toList <+: text → 14 ≤ text.length ∧
    ("ACCEPT".toList <+: text.drop 14 → text = "DefaultAction=ACCEPT".toList) ∧
    ("DROP".toList <+: text.drop 14 → text = "DefaultAction=DROP".toList)
  rules : "RulesFile".toList <+: text → "RulesFile=".toList <+: text
  log : "LogFile".toList <+: text → "LogFile=".toList <+: text

/-- One more character does not change what the line means: it has no path, and is not
one short of a name or of a value. -/
structure Tolerant (text : CStr) : Prop where
  action : text ≠ "DefaultActio".toList ∧
    ("DefaultAction".toList <+: text →
      text.drop 14 ≠ "ACCEP".toList ∧ text.drop 14 ≠ "DRO".toList)
  rules : text ≠ "RulesFil".toList ∧ ¬ "RulesFile".toList <+: text
  log : text ≠ "LogFil".toList ∧ ¬ "LogFile".toList <+: text

/-- After these lines, the last one first, the buffer holds a NUL at the position: the
last line that reached it ended there. -/
def NulAt : List CStr → Nat → Prop
  | [], _ => False
  | text :: seen, k => k = text.length ∨ text.length < k ∧ NulAt seen k

/-- A last line without a newline is empty, or has room for a stale character and for a
NUL, and either the stale one is a NUL or it does not matter. -/
def LastPlain (seen : List CStr) (last : CStr) : Prop :=
  last = [] ∨ last.length < 255 ∧ WellRead last ∧ (NulAt seen last.length ∨ Tolerant last)

/-- Lines from which nothing is lost when they are not read. -/
def Quiet (lines : List ConfLine) (last : CStr) : Prop :=
  (∀ l ∈ lines, directive l.text = none) ∧ directive last = none

/-- Every line that is read means what it says, and what is not read says nothing: the
lines behind the first that is blank or ends in CR LF. -/
def PlainFrom : List CStr → List ConfLine → CStr → Prop
  | seen, [], last => LastPlain seen last
  | seen, l :: lines, last =>
    if l.text = [] then Quiet lines last
    else WellRead l.text ∧
      if l.crlf = true then Quiet lines last else PlainFrom (l.text :: seen) lines last

def ConfFile.Plain (f : ConfFile) : Prop := PlainFrom [] f.lines f.last

/-- Every line means what it says, and the file ends with a newline. -/
def ConfFile.Regular (f : ConfFile) : Prop := (∀ l ∈ f.lines, WellRead l.text) ∧ f.last = []

/-- The lines the loop gets to: those in front of the first blank one, up to and
including the first that ends in CR LF. -/
def readPart : List ConfLine → List CStr
  | [] => []
  | l :: lines =>
    if l.text = [] then []
    else l.text :: if l.crlf = true then [] else readPart lines

/-- The setting of each directive. -/
def Directive.action? : Directive → Option (BitVec 32)
  | .defaultAction v => some v
  | _ => none

def Directive.rules? : Directive → Option CStr
  | .rulesFile path => some path
  | _ => none

def Directive.log? : Directive → Option CStr
  | .logFile path => some path
  | _ => none

/-- What the last directive of a kind sets. -/
def lastSet {α : Type} (kind : Directive → Option α) (texts : List CStr) : Option α :=
  (texts.filterMap fun t => (directive t).bind kind).getLast?

/-- For each kind, the last directive that is read sets what the last one in the file
sets. -/
def ConfFile.LastRead (f : ConfFile) : Prop :=
  lastSet Directive.action? (readPart f.lines) = lastSet Directive.action? f.texts ∧
    lastSet Directive.rules? (readPart f.lines) = lastSet Directive.rules? f.texts ∧
    lastSet Directive.log? (readPart f.lines) = lastSet Directive.log? f.texts

/-! ## One line in the buffer -/

section Line

variable {text stale : List Char} {cf : SipfwConfPaths}

/-- A name is at the beginning of the buffer if it is at the beginning of the text. -/
theorem prefix_text {name : List Char} (hn : nul ∉ name) :
    name <+: text ++ nul :: stale ↔ name <+: text := by
  constructor
  · intro h
    rcases List.prefix_or_prefix_of_prefix h (List.prefix_append text (nul :: stale)) with h' | h'
    · exact h'
    · -- the name would go on with the NUL
      obtain ⟨r, rfl⟩ := h'
      rw [List.prefix_append_right_inj] at h
      cases r with
      | nil => rw [List.append_nil]
      | cons c r =>
        rw [List.cons_prefix_cons] at h
        exact absurd (by rw [h.1]; simp) hn
  · intro h
    exact h.trans (List.prefix_append _ _)

/-- The name of a directive at the beginning of the buffer. -/
theorem strncmp0_line {name : List Char} {n : Nat} (hn : nul ∉ name) (hlen : name.length = n) :
    strncmp0 (text ++ nul :: stale) name n = true ↔ name <+: text := by
  rw [← hlen, strncmp0_iff_prefix, prefix_text hn]

theorem line_action :
    strncmp0 (text ++ nul :: stale) "DefaultAction".toList 13 = true ↔
      "DefaultAction".toList <+: text := strncmp0_line (by decide) rfl

theorem line_rules :
    strncmp0 (text ++ nul :: stale) "RulesFile".toList 9 = true ↔ "RulesFile".toList <+: text :=
  strncmp0_line (by decide) rfl

theorem line_log :
    strncmp0 (text ++ nul :: stale) "LogFile".toList 7 = true ↔ "LogFile".toList <+: text :=
  strncmp0_line (by decide) rfl

/-- A value at an offset in the text. -/
theorem strncmp0_value {name : List Char} {n k : Nat} (hn : nul ∉ name) (hlen : name.length = n)
    (hk : k ≤ text.length) :
    strncmp0 ((text ++ nul :: stale).drop k) name n = true ↔ name <+: text.drop k := by
  rw [List.drop_append_of_le_length hk, strncmp0_line hn hlen]

/-- What is copied from an offset in the text is the rest of the text. -/
theorem strcpy_text (hn : nul ∉ text) {k : Nat} (hk : k ≤ text.length) :
    strcpy ((text ++ nul :: stale).drop k) = .ok (text.drop k) := by
  have hd : nul ∉ text.drop k := fun h => hn (List.mem_of_mem_drop h)
  rw [List.drop_append_of_le_length hk, strcpy, if_pos (by simp)]
  rw [List.takeWhile_append_of_pos fun c hc => by
    have : c ≠ nul := fun he => hd (he ▸ hc)
    simpa using this]
  simp

/-- Two names that begin the same text begin alike. -/
theorem names_differ {a b : List Char} (ha : a <+: text) (hb : b <+: text)
    (hab : ¬ a <+: b ∧ ¬ b <+: a) : False :=
  (List.prefix_or_prefix_of_prefix ha hb).elim hab.1 hab.2

theorem handleLine_action (h : "DefaultAction".toList <+: text) (hlen : 14 ≤ text.length) :
    handleLine (text ++ nul :: stale) cf =
      .ok { cf with defaultAction :=
        if "ACCEPT".toList <+: text.drop 14 then nfAccept
        else if "DROP".toList <+: text.drop 14 then nfDrop else cf.defaultAction } := by
  have ha := @strncmp0_value text stale "ACCEPT".toList 6 14 (by decide) rfl hlen
  have hd := @strncmp0_value text stale "DROP".toList 4 14 (by decide) rfl hlen
  rw [handleLine, if_pos (line_action.mpr h)]
  dsimp only
  by_cases h1 : "ACCEPT".toList <+: text.drop 14
  · rw [if_pos (ha.mpr h1), if_pos h1]
  · rw [if_neg (mt ha.mp h1), if_neg h1]
    by_cases h2 : "DROP".toList <+: text.drop 14
    · rw [if_pos (hd.mpr h2), if_pos h2]
    · rw [if_neg (mt hd.mp h2), if_neg h2]

theorem handleLine_rules (h : "RulesFile=".toList <+: text) (hn : nul ∉ text) :
    handleLine (text ++ nul :: stale) cf = .ok { cf with ruleFilePath := text.drop 10 } := by
  have hname : "RulesFile".toList <+: text := List.IsPrefix.trans (by decide) h
  have ha : ¬ "DefaultAction".toList <+: text := fun h' => names_differ hname h' (by decide)
  have hlen : 10 ≤ text.length := h.length_le
  rw [handleLine, if_neg (mt line_action.mp ha),
    if_pos (line_rules.mpr hname), strcpy_text hn hlen]
  rfl

theorem handleLine_log (h : "LogFile=".toList <+: text) (hn : nul ∉ text) :
    handleLine (text ++ nul :: stale) cf = .ok { cf with logFilePath := text.drop 8 } := by
  have hname : "LogFile".toList <+: text := List.IsPrefix.trans (by decide) h
  have ha : ¬ "DefaultAction".toList <+: text := fun h' => names_differ hname h' (by decide)
  have hr : ¬ "RulesFile".toList <+: text := fun h' => names_differ hname h' (by decide)
  have hlen : 8 ≤ text.length := h.length_le
  rw [handleLine, if_neg (mt line_action.mp ha),
    if_neg (mt line_rules.mp hr),
    if_pos (line_log.mpr hname), strcpy_text hn hlen]
  rfl

theorem handleLine_other (ha : ¬ "DefaultAction".toList <+: text)
    (hr : ¬ "RulesFile".toList <+: text) (hl : ¬ "LogFile".toList <+: text) :
    handleLine (text ++ nul :: stale) cf = .ok cf := by
  rw [handleLine, if_neg (mt line_action.mp ha),
    if_neg (mt line_rules.mp hr),
    if_neg (mt line_log.mp hl)]

/-! ## What the line says -/

theorem obey_accept :
    obey cf "DefaultAction=ACCEPT".toList = { cf with defaultAction := nfAccept } :=
  rfl

theorem obey_drop : obey cf "DefaultAction=DROP".toList = { cf with defaultAction := nfDrop } := rfl

/-- A text that begins like none of the directives says nothing. -/
theorem directive_none (ha : text ≠ "DefaultAction=ACCEPT".toList)
    (hd : text ≠ "DefaultAction=DROP".toList) (hr : ¬ "RulesFile=".toList <+: text)
    (hl : ¬ "LogFile=".toList <+: text) : directive text = none := by
  rw [directive, if_neg ha, if_neg hd, if_neg hr, if_neg hl]

theorem obey_none (h : directive text = none) : obey cf text = cf := by
  rw [obey, h]
  rfl

/-- Nor does one that begins with none of the keywords. -/
theorem obey_other (ha : ¬ "DefaultAction".toList <+: text)
    (hr : ¬ "RulesFile".toList <+: text) (hl : ¬ "LogFile".toList <+: text) :
    obey cf text = cf := by
  refine obey_none (directive_none (fun he => ha ?_) (fun he => ha ?_) (fun h => hr ?_)
    fun h => hl ?_)
  · rw [he]
    decide
  · rw [he]
    decide
  · exact List.IsPrefix.trans (by decide) h
  · exact List.IsPrefix.trans (by decide) h

/-- A text is none that does not begin as it does. -/
theorem ne_of_prefix {p t : List Char} (h : p <+: text) (hp : ¬ p <+: t) : text ≠ t :=
  fun he => hp (he ▸ h)

theorem obey_rules (h : "RulesFile=".toList <+: text) :
    obey cf text = { cf with ruleFilePath := text.drop 10 } := by
  have ha : text ≠ "DefaultAction=ACCEPT".toList := ne_of_prefix h (by decide)
  have hd : text ≠ "DefaultAction=DROP".toList := ne_of_prefix h (by decide)
  rw [obey, directive, if_neg ha, if_neg hd, if_pos h]
  rfl

theorem obey_log (h : "LogFile=".toList <+: text) :
    obey cf text = { cf with logFilePath := text.drop 8 } := by
  have ha : text ≠ "DefaultAction=ACCEPT".toList := ne_of_prefix h (by decide)
  have hd : text ≠ "DefaultAction=DROP".toList := ne_of_prefix h (by decide)
  have hr : ¬ "RulesFile=".toList <+: text := fun h' => names_differ h h' (by decide)
  rw [obey, directive, if_neg ha, if_neg hd, if_neg hr, if_pos h]
  rfl

/-- Under its name the default action is obeyed as it is read at the offset, if only the
values themselves begin like values. -/
theorem obey_action (h : "DefaultAction".toList <+: text)
    (ha : "ACCEPT".toList <+: text.drop 14 ↔ text = "DefaultAction=ACCEPT".toList)
    (hd : "DROP".toList <+: text.drop 14 ↔ text = "DefaultAction=DROP".toList) :
    obey cf text = { cf with defaultAction :=
      if "ACCEPT".toList <+: text.drop 14 then nfAccept
      else if "DROP".toList <+: text.drop 14 then nfDrop else cf.defaultAction } := by
  by_cases h1 : text = "DefaultAction=ACCEPT".toList
  · rw [if_pos (ha.mpr h1), h1, obey_accept]
  · rw [if_neg (mt ha.mp h1)]
    by_cases h2 : text = "DefaultAction=DROP".toList
    · rw [if_pos (hd.mpr h2), h2, obey_drop]
    · rw [if_neg (mt hd.mp h2)]
      refine obey_none (directive_none h1 h2 (fun h' => ?_) fun h' => ?_)
      · exact names_differ h h' (by decide)
      · exact names_differ h h' (by decide)

/-- **A line that means what it says** is handled as it is meant. -/
theorem handleLine_wellRead (h : WellRead text) :
    handleLine (text ++ nul :: stale) cf = .ok (obey cf text) := by
  have hn : nul ∉ text := fun hm => absurd (h.unbroken nul hm) (by decide)
  by_cases ha : "DefaultAction".toList <+: text
  · obtain ⟨hlen, h1, h2⟩ := h.action ha
    rw [handleLine_action ha hlen, obey_action ha ⟨h1, fun he => ?_⟩ ⟨h2, fun he => ?_⟩]
    · rw [he]; decide
    · rw [he]; decide
  · by_cases hr : "RulesFile".toList <+: text
    · rw [handleLine_rules (h.rules hr) hn, obey_rules (h.rules hr)]
    · by_cases hl : "LogFile".toList <+: text
      · rw [handleLine_log (h.log hl) hn, obey_log (h.log hl)]
      · rw [handleLine_other ha hr hl, obey_other ha hr hl]

/-- So is a tolerant one in front of a stale character. -/
theorem handleLine_tolerant (h : WellRead text) (ht : Tolerant text) (c : Char) :
    handleLine (text ++ c :: nul :: stale) cf = .ok (obey cf text) := by
  have hc : text ++ c :: nul :: stale = (text ++ [c]) ++ nul :: stale := by simp
  -- one character more completes a keyword only if the line is the keyword less its last one
  have hstep : ∀ name d, name ++ [d] <+: text ++ [c] → name ++ [d] <+: text ∨ name = text := by
    intro name d hp
    rcases List.prefix_concat_iff.mp hp with he | hp
    · exact .inr (List.append_inj' he rfl).1
    · exact .inl hp
  have hr : ¬ "RulesFile".toList <+: text ++ [c] := fun hp =>
    (hstep "RulesFil".toList 'e' hp).elim ht.rules.2 fun he => ht.rules.1 he.symm
  have hl : ¬ "LogFile".toList <+: text ++ [c] := fun hp =>
    (hstep "LogFil".toList 'e' hp).elim ht.log.2 fun he => ht.log.1 he.symm
  rw [hc]
  by_cases ha : "DefaultAction".toList <+: text
  · obtain ⟨hlen, h1, h2⟩ := h.action ha
    obtain ⟨hA, hD⟩ := ht.action.2 ha
    -- the same of the value behind `DefaultAction=`
    have hval : ∀ name d, text.drop 14 ≠ name →
        (name ++ [d] <+: (text ++ [c]).drop 14 ↔ name ++ [d] <+: text.drop 14) := by
      intro name d hne
      rw [List.drop_append_of_le_length hlen, List.prefix_concat_iff]
      refine or_iff_right fun he => hne ?_
      exact (List.append_inj' he rfl).1.symm
    have hA' : "ACCEPT".toList <+: (text ++ [c]).drop 14 ↔ "ACCEPT".toList <+: text.drop 14 :=
      hval "ACCEP".toList 'T' hA
    have hD' : "DROP".toList <+: (text ++ [c]).drop 14 ↔ "DROP".toList <+: text.drop 14 :=
      hval "DRO".toList 'P' hD
    rw [handleLine_action (ha.trans (List.prefix_append _ _)) (by simp; omega),
      obey_action ha ⟨h1, fun he => ?_⟩ ⟨h2, fun he => ?_⟩]
    · simp only [hA', hD']
    · rw [he]; decide
    · rw [he]; decide
  · have ha' : ¬ "DefaultAction".toList <+: text ++ [c] := fun hp =>
      (hstep "DefaultActio".toList 'n' hp).elim ha fun he => ht.action.1 he.symm
    have hr' : ¬ "RulesFile".toList <+: text := fun hp => hr (hp.trans (List.prefix_append ..))
    have hl' : ¬ "LogFile".toList <+: text := fun hp => hl (hp.trans (List.prefix_append ..))
    rw [handleLine_other ha' hr hl, obey_other ha hr' hl']

end Line

/-! ## The loop -/

section Loop

variable {file buf : List Char} {cf : SipfwConfPaths} {l : LineRead}

/-- A line without characters ends the loop. -/
theorem handleLines_stop (hr : readLine file buf 256 = .ok l) (hc : l.count = 0) :
    handleLines file buf cf = .ok cf := by
  rw [handleLines]
  split
  next e he =>
    rw [hr] at he
    cases he
  next l' hl =>
    rw [hr] at hl
    cases hl
    rw [dif_neg (by omega)]

/-- Any other line is handled. -/
theorem handleLines_step (hr : readLine file buf 256 = .ok l) (hc : 0 < l.count)
    {cf' : SipfwConfPaths} (hh : handleLine l.buf cf = .ok cf') :
    handleLines file buf cf = handleLines l.rest l.buf cf' := by
  rw [handleLines]
  split
  next e he =>
    rw [hr] at he
    cases he
  next l' hl =>
    rw [hr] at hl
    cases hl
    rw [dif_pos hc, hh]

/-- At the end of the file nothing is changed any more. -/
theorem handleLines_nil : handleLines [] buf cf = .ok cf :=
  @handleLines_stop [] buf cf ⟨buf, 0, []⟩ rfl rfl

/-- Lines that say nothing leave the configuration as it is. -/
theorem confOf_quiet {texts : List CStr} (h : ∀ t ∈ texts, directive t = none) :
    confOf texts cf = cf := by
  induction texts with
  | nil => rfl
  | cons t texts ih =>
    rw [confOf, List.foldl_cons, obey_none (h t (List.mem_cons_self ..))]
    exact ih fun t' ht => h t' (List.mem_cons_of_mem _ ht)

theorem quiet_texts {lines : List ConfLine} {last : CStr} (h : Quiet lines last) :
    ∀ t ∈ lines.map (·.text) ++ [last], directive t = none := by
  intro t ht
  rcases List.mem_append.mp ht with ht | ht
  · obtain ⟨l, hl, rfl⟩ := List.mem_map.mp ht
    exact h.1 l hl
  · rw [List.mem_singleton.mp ht]
    exact h.2

/-- The buffer holds a NUL wherever the lines read before have left one. -/
def Holds (seen : List CStr) (buf : List Char) : Prop :=
  buf.length = 256 ∧ ∀ k, NulAt seen k → buf.getD k nul = nul

theorem Holds.cons {seen : List CStr} {text : CStr} (h : Holds seen buf)
    (hlen : text.length < 256) : Holds (text :: seen) (onto (text ++ [nul]) buf) := by
  have h256 := h.1
  refine ⟨by rw [onto_length (by simp; omega), h256], fun k hk => ?_⟩
  rcases hk with rfl | ⟨hlt, hk⟩
  · exact onto_getD nul
  · -- behind the line the buffer is as it was
    have hd : (text ++ [nul]).length ≤ k := by simp; omega
    refine Eq.trans ?_ (h.2 k hk)
    rw [onto, List.getD_append_right _ _ _ _ hd, List.getD_eq_getElem?_getD,
      List.getD_eq_getElem?_getD, List.getElem?_drop]
    congr 2
    omega

/-- A terminated line that means what it says, or is blank. -/
theorem handleLines_line {seen : List CStr} {text : CStr} {τ : Char} {rest : List Char}
    (hb : Holds seen buf) (hτ : τ = '\n' ∨ τ = '\r') (hw : WellRead text)
    (hlen : text.length < 256) (hne : text ≠ []) :
    handleLines (text ++ τ :: rest) buf cf =
      handleLines rest (onto (text ++ [nul]) buf) (obey cf text) := by
  have hr := @readLine_terminated _ _ rest _ hτ hw.unbroken hb.1 hlen
  have hbuf : onto (text ++ [nul]) buf = text ++ nul :: buf.drop (text ++ [nul]).length := by
    rw [onto, List.append_assoc]
    rfl
  refine handleLines_step hr (List.length_pos_iff.mpr hne) ?_
  show handleLine (onto (text ++ [nul]) buf) cf = _
  rw [hbuf, handleLine_wellRead hw]

/-- A blank line, or the LF of a CR LF. -/
theorem handleLines_blank {seen : List CStr} {τ : Char} {rest : List Char} (hb : Holds seen buf)
    (hτ : τ = '\n' ∨ τ = '\r') : handleLines (τ :: rest) buf cf = .ok cf :=
  handleLines_stop (@readLine_terminated [] _ rest _ hτ
    (fun c hc => by cases hc) hb.1 (by decide)) rfl

/-- A last line without a newline. -/
theorem handleLines_last {seen : List CStr} {last : CStr} (hb : Holds seen buf)
    (h : LastPlain seen last) : handleLines last buf cf = .ok (obey cf last) := by
  rcases h with rfl | ⟨hlen, hw, hstale⟩
  · rw [handleLines_nil, obey_none (by decide)]
  · by_cases hne : last = []
    · rw [hne, handleLines_nil, obey_none (by decide)]
    · have hr := readLine_end hne hw.unbroken hb.1 hlen
      dsimp only at hr
      have hbuf : ∀ p : List Char,
          onto (last ++ p) buf = last ++ p ++ buf.drop (last ++ p).length :=
        fun p => rfl
      split at hr
      next hc =>
        by_cases h1 : last.length - 1 = 0
        · -- a line of one character may be lost here, but it says nothing
          have hlong : 8 ≤ last.length → False := by omega
          rw [handleLines_stop hr h1, obey_none (directive_none ?_ ?_ ?_ ?_)]
          · intro he
            exact hlong (by rw [he]; decide)
          · intro he
            exact hlong (by rw [he]; decide)
          · exact fun hp => hlong (Nat.le_trans (by decide) hp.length_le)
          · exact fun hp => hlong (Nat.le_trans (by decide) hp.length_le)
        · have hh : handleLine (onto (last ++ [nul]) buf) cf = .ok (obey cf last) := by
            rw [hbuf, List.append_assoc]
            exact handleLine_wellRead hw
          rw [handleLines_step hr (by show 0 < last.length - 1; omega) hh, handleLines_nil]
      next hc =>
        -- the stale character reads as a terminator, and the 0 goes over it
        have hh : handleLine (onto (last ++ [buf.getD last.length nul, nul]) buf) cf =
            .ok (obey cf last) := by
          rw [hbuf, List.append_assoc]
          -- a stale character stands behind the line: 0, or one that changes nothing
          rcases hstale with hn | ht
          · rw [hb.2 _ hn]
            exact handleLine_wellRead hw
          · exact handleLine_tolerant hw ht _
        rw [handleLines_step hr (List.length_pos_iff.mpr hne) hh, handleLines_nil]

/-- A line in the file: its text, its terminator, and for CR LF a second terminator. -/
theorem chars_cons (l : ConfLine) (lines : List ConfLine) (last : CStr) :
    ∃ τ rest, (τ = '\n' ∨ τ = '\r') ∧
      (l :: lines).flatMap ConfLine.chars ++ last = l.text ++ τ :: rest ∧
      (l.crlf = true → ∃ rest', rest = '\n' :: rest') ∧
      (l.crlf ≠ true → rest = lines.flatMap ConfLine.chars ++ last) := by
  rw [List.flatMap_cons, ConfLine.chars]
  by_cases hc : l.crlf = true
  · refine ⟨'\r', '\n' :: (lines.flatMap ConfLine.chars ++ last), .inr rfl, ?_,
      fun _ => ⟨_, rfl⟩, fun h => absurd hc h⟩
    rw [if_pos hc]
    simp
  · refine ⟨'\n', lines.flatMap ConfLine.chars ++ last, .inl rfl, ?_, fun h => absurd h hc,
      fun _ => rfl⟩
    rw [if_neg hc]
    simp

/-- The first line of a file, and what the loop makes of the rest: nothing behind a blank
line, nothing behind a CR LF. -/
theorem handleLines_cons {seen : List CStr} {l : ConfLine} {lines : List ConfLine} {last : CStr}
    (hb : Holds seen buf) (hw : l.text ≠ [] → WellRead l.text) :
    handleLines ((l :: lines).flatMap ConfLine.chars ++ last) buf cf =
      if l.text = [] then .ok cf
      else if l.crlf = true then .ok (obey cf l.text)
      else handleLines (lines.flatMap ConfLine.chars ++ last) (onto (l.text ++ [nul]) buf)
        (obey cf l.text) := by
  obtain ⟨τ, rest, hτ, hfile, hcr, hlf⟩ := chars_cons l lines last
  rw [hfile]
  split
  next hblank => rw [hblank, List.nil_append, handleLines_blank hb hτ]
  next hne =>
    rw [handleLines_line hb hτ (hw hne) l.short hne]
    split
    next hc =>
      obtain ⟨rest', rfl⟩ := hcr hc
      rw [handleLines_blank (hb.cons l.short) (.inl rfl)]
    next hc => rw [hlf hc]

/-- **The loop over plain lines** obeys every line. -/
theorem handleLines_plain (lines : List ConfLine) : ∀ {seen : List CStr} {last : CStr}
    {buf : List Char} {cf : SipfwConfPaths}, Holds seen buf → PlainFrom seen lines last →
      handleLines (lines.flatMap ConfLine.chars ++ last) buf cf =
        .ok (confOf (lines.map (·.text) ++ [last]) cf) := by
  induction lines with
  | nil =>
    intro seen last buf cf hb hp
    exact handleLines_last hb hp
  | cons l lines ih =>
    intro seen last buf cf hb hp
    rw [PlainFrom] at hp
    have hcons : confOf ((l :: lines).map (·.text) ++ [last]) cf =
        confOf (lines.map (·.text) ++ [last]) (obey cf l.text) := rfl
    rw [hcons]
    split at hp
    -- nothing behind a blank line is read
    next hblank =>
      rw [handleLines_cons hb fun hne => absurd hblank hne, if_pos hblank, hblank,
        obey_none (by decide), confOf_quiet (quiet_texts hp)]
    next hne =>
      obtain ⟨hw, hp⟩ := hp
      rw [handleLines_cons hb fun _ => hw, if_neg hne]
      split at hp
      -- behind CR LF the next read finds an empty line
      next hc => rw [if_pos hc, confOf_quiet (quiet_texts hp)]
      next hc =>
        rw [if_neg hc]
        exact ih (hb.cons l.short) hp

/-- The loop over well read lines obeys those it gets to. -/
theorem handleLines_regular (lines : List ConfLine) : ∀ {seen : List CStr} {buf : List Char}
    {cf : SipfwConfPaths}, Holds seen buf → (∀ l ∈ lines, WellRead l.text) →
      handleLines (lines.flatMap ConfLine.chars ++ []) buf cf =
        .ok (confOf (readPart lines) cf) := by
  induction lines with
  | nil =>
    intro seen buf cf _ _
    exact handleLines_nil
  | cons l lines ih =>
    intro seen buf cf hb hw
    rw [handleLines_cons hb fun _ => hw l (List.mem_cons_self ..), readPart]
    split
    next => rfl
    next =>
      have hcons : ∀ texts, confOf (l.text :: texts) cf = confOf texts (obey cf l.text) :=
        fun _ => rfl
      rw [hcons]
      split
      next => rfl
      next => exact ih (hb.cons l.short) fun l' hl => hw l' (List.mem_cons_of_mem _ hl)

/-- A plain file is read to its end. -/
theorem plain_handled {f : ConfFile} (h : f.Plain) : f.Handled := fun line _ =>
  handleLines_plain f.lines (⟨line.full, fun _ hk => hk.elim⟩ : Holds [] line.chars) h

/-! ## The last directive of each kind -/

theorem lastSet_cons {α : Type} (kind : Directive → Option α) (t : CStr) (texts : List CStr)
    (x : α) :
    (lastSet kind (t :: texts)).getD x =
      (lastSet kind texts).getD (((directive t).bind kind).getD x) := by
  rw [lastSet, List.filterMap_cons]
  cases h : (directive t).bind kind with
  | none => rfl
  | some v =>
    rw [List.getLast?_cons]
    cases hl : (texts.filterMap fun t => (directive t).bind kind).getLast? with
    | none => simp [lastSet, hl]
    | some w => simp [lastSet, hl]

/-- What a list of lines says is what its last directives say. -/
theorem confOf_eq (texts : List CStr) : ∀ cf : SipfwConfPaths,
    confOf texts cf =
      { cf with
        defaultAction := (lastSet Directive.action? texts).getD cf.defaultAction
        logFilePath := (lastSet Directive.log? texts).getD cf.logFilePath
        ruleFilePath := (lastSet Directive.rules? texts).getD cf.ruleFilePath } := by
  induction texts with
  | nil => exact fun _ => rfl
  | cons t texts ih =>
    intro cf
    have hcons : confOf (t :: texts) cf = confOf texts (obey cf t) := rfl
    rw [hcons, ih, lastSet_cons, lastSet_cons, lastSet_cons, obey]
    cases directive t with
    | none => rfl
    | some d => cases d <;> rfl

/-- Two last values agree if they do whatever was set before. -/
theorem getD_inj {α : Type} [Nontrivial α] {a b : Option α} :
    (∀ x, a.getD x = b.getD x) ↔ a = b := by
  constructor
  · intro h
    cases a with
    | none =>
      cases b with
      | none => rfl
      | some w =>
        obtain ⟨x, hx⟩ := exists_ne w
        exact absurd (h x) hx
    | some v =>
      cases b with
      | none =>
        obtain ⟨x, hx⟩ := exists_ne v
        exact absurd (h x).symm hx
      | some w => exact congrArg some (h v)
  · intro h
    rw [h]
    exact fun _ => rfl

/-- On a regular file the loop does what the file says exactly if it gets to the last
directive of each kind. -/
theorem regular_handled_iff {f : ConfFile} (h : f.Regular) : f.Handled ↔ f.LastRead := by
  obtain ⟨hw, hlast⟩ := h
  have hread : ∀ (line : LineBuf) cf, handleConf (some f.chars) line cf =
      .ok (confOf (readPart f.lines) cf) := by
    intro line cf
    rw [handleConf, ConfFile.chars, hlast]
    exact handleLines_regular f.lines (⟨line.full, fun _ hk => hk.elim⟩ : Holds [] line.chars) hw
  have hall : f.Handled ↔ ∀ cf, confOf (readPart f.lines) cf = confOf f.texts cf := by
    constructor
    · intro h cf
      have := h ⟨List.replicate 256 nul, List.length_replicate⟩ cf
      rw [hread] at this
      exact Except.ok.inj this
    · intro h line cf
      rw [hread, h]
  have : Nontrivial (BitVec 32) := ⟨0, 1, by decide⟩
  rw [hall, ConfFile.LastRead, ← getD_inj, ← getD_inj, ← getD_inj]
  constructor
  · intro h
    have heq : ∀ cf, _ = _ := fun cf => (confOf_eq _ cf).symm.trans ((h cf).trans (confOf_eq _ cf))
    refine ⟨fun x => ?_, fun x => ?_, fun x => ?_⟩
    -- each field is asked for with that field free and the others fixed
    · exact congrArg (·.defaultAction) (heq ⟨⟨x, [], 0, 0, 0⟩, []⟩)
    · exact congrArg (·.ruleFilePath) (heq ⟨⟨0, [], 0, 0, 0⟩, x⟩)
    · exact congrArg (·.logFilePath) (heq ⟨⟨0, x, 0, 0, 0⟩, []⟩)
  · intro h cf
    obtain ⟨ha, hr, hl⟩ := h
    rw [confOf_eq, confOf_eq, ha, hr, hl]

end Loop

/-- **The configuration file**: a plain file is read to its end, whatever the buffer
held; and a regular one exactly if the last directive of each kind is in the part that is
read. -/
theorem conf_handled (f : ConfFile) :
    (f.Plain → f.Handled) ∧ (f.Regular → (f.Handled ↔ f.LastRead)) :=
  ⟨plain_handled, regular_handled_iff⟩

/-! ## Files -/

/-- The line of a text without CR. -/
def lfLine (text : CStr)
    (h : text.length < 256 ∧ '\n' ∉ text ∧ text.getLast? ≠ some '\r') : ConfLine :=
  ⟨text, false, h.1, h.2.1, fun _ => h.2.2⟩

/-- `sipfw.conf` as it is shipped. -/
def shippedConf : ConfFile :=
  ⟨[lfLine "#test file".toList (by decide), lfLine "DefaultAction=ACCEPT".toList (by decide),
    lfLine "RulesFile=/etc/sipfw.rules".toList (by decide),
    lfLine "LogFile=/etc/sipfw.log".toList (by decide)], [], by decide, by decide⟩

instance (text : CStr) : Decidable (Unbroken text) :=
  decidable_of_iff (text.all fun c => !endsLine c) (by simp [Unbroken])

theorem wellRead_iff {text : CStr} :
    WellRead text ↔ Unbroken text ∧
      ("DefaultAction".toList <+: text → 14 ≤ text.length ∧
        ("ACCEPT".toList <+: text.drop 14 → text = "DefaultAction=ACCEPT".toList) ∧
        ("DROP".toList <+: text.drop 14 → text = "DefaultAction=DROP".toList)) ∧
      ("RulesFile".toList <+: text → "RulesFile=".toList <+: text) ∧
      ("LogFile".toList <+: text → "LogFile=".toList <+: text) :=
  ⟨fun h => ⟨h.unbroken, h.action, h.rules, h.log⟩, fun h => ⟨h.1, h.2.1, h.2.2.1, h.2.2.2⟩⟩

instance (text : CStr) : Decidable (WellRead text) := decidable_of_iff _ wellRead_iff.symm

/-- The shipped file is plain, and regular too. -/
theorem shippedConf_handled :
    shippedConf.Handled ∧ (shippedConf.Handled ↔ shippedConf.LastRead) :=
  ⟨(conf_handled shippedConf).1 ⟨by decide, by decide, by decide,
      by decide, .inl rfl⟩,
    (conf_handled shippedConf).2 ⟨by decide, rfl⟩⟩

/-- A blank line in front of the one directive. -/
def blankFirst : ConfFile :=
  ⟨[lfLine [] (by decide), lfLine "DefaultAction=DROP".toList (by decide)], [], by decide,
    by decide⟩

/-- A directive without a newline. -/
def noNewline : ConfFile := ⟨[], "LogFile=/a".toList, by decide, by decide⟩

/-- Behind a blank line nothing is read: the default action stays ACCEPT. And behind a
path without a newline a character of the buffer is taken for the last of the path. -/
theorem blank_line_ends_conf :
    (∀ line cf, handleConf (some blankFirst.chars) line cf = .ok cf) ∧
      (confOf blankFirst.texts ⟨.initial, []⟩).defaultAction = nfDrop ∧ ¬ blankFirst.Handled ∧
      handleConf (some noNewline.chars) ⟨List.replicate 256 'x', List.length_replicate⟩
          ⟨.initial, []⟩ = .ok ⟨{ SipfwConf.initial with logFilePath := "/ax".toList }, []⟩ ∧
      ¬ noNewline.Handled := by
  have hblank : ∀ line cf, handleConf (some blankFirst.chars) line cf = .ok cf := fun line cf =>
    handleLines_blank (⟨line.full, fun _ hk => hk.elim⟩ : Holds [] line.chars) (.inl rfl)
  have hlast : handleConf (some noNewline.chars) ⟨List.replicate 256 'x', List.length_replicate⟩
      ⟨.initial, []⟩ = .ok ⟨{ SipfwConf.initial with logFilePath := "/ax".toList }, []⟩ := by
    have hr := @readLine_end noNewline.chars (List.replicate 256 'x') (by decide)
      (by decide) List.length_replicate (by decide)
    have hstale : (List.replicate 256 'x').getD noNewline.chars.length nul = 'x' := rfl
    dsimp only at hr
    rw [hstale, if_neg (by decide)] at hr
    have hh : ∀ cf, handleLine (onto (noNewline.chars ++ ['x', nul]) (List.replicate 256 'x')) cf =
        .ok { cf with logFilePath := "/ax".toList } := fun cf =>
      @handleLine_log "LogFile=/ax".toList _ _ (by decide) (by decide)
    exact (handleLines_step hr (by decide) (hh _)).trans handleLines_nil
  refine ⟨hblank, rfl, fun h => ?_, hlast, fun h => ?_⟩
  -- the action of the second line never arrives
  · have := h ⟨List.replicate 256 nul, List.length_replicate⟩ ⟨.initial, []⟩
    rw [hblank] at this
    exact absurd (congrArg (·.defaultAction) (Except.ok.inj this)) (by decide)
  · have := h ⟨List.replicate 256 'x', List.length_replicate⟩ ⟨.initial, []⟩
    rw [hlast] at this
    exact absurd (congrArg (·.logFilePath) (Except.ok.inj this)) (by decide)

end LinuxNet.Sipfw
