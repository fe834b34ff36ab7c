import LinuxNet.Lib.Run
import LinuxNet.Lib.Scanf
import LinuxNet.Sipfw.Hooks

/-!
# The control files under /proc/net/sipfw

`sipfw_k_proc.c`: the three files `defaultaction`, `logpause` and `invalid`, each
with a handler that prints a setting and one that takes what the user writes.
All three write handlers copy the bytes to the front of one page, `cookie_pot`,
and read the page as a string; nothing terminates what was copied, so what is
read goes on with whatever an earlier write, to any of the files, left behind.

How `sscanf` stores a number that is no `int` is not specified; it is the
parameter `conv`.
-/

namespace LinuxNet.Sipfw

/-- `PAGE_SIZE`. -/
def pageSize : Nat := 4096

/-- The page `cookie_pot`. -/
structure Page where
  bytes : List Byte
  full : bytes.length = pageSize

/-- The page `SIPFW_Proc_Init` allocates and clears. -/
def Page.zero : Page := ⟨List.replicate pageSize 0#8, List.length_replicate⟩

/-- `copy_from_user(cookie_pot, buff, len)`: the bytes behind `len` stay. -/
def Page.copy (p : Page) (text : List Byte) (fits : text.length ≤ pageSize) : Page :=
  ⟨text ++ p.bytes.drop text.length, by
    rw [List.length_append, List.length_drop, p.full]
    omega⟩

/-- The files that can be written. -/
inductive ProcFile where
  | action
  | log
  | invalid
  deriving DecidableEq, Repr

/-- The setting behind a file. -/
def ProcFile.get (file : ProcFile) (cf : SipfwConf) : BitVec 32 :=
  match file with
  | .action => cf.defaultAction
  | .log => cf.logPause
  | .invalid => cf.invalid

/-- A configuration with one setting replaced. -/
def ProcFile.set (file : ProcFile) (cf : SipfwConf) (v : BitVec 32) : SipfwConf :=
  match file with
  | .action => { cf with defaultAction := v }
  | .log => { cf with logPause := v }
  | .invalid => { cf with invalid := v }

/-- One write of a user. -/
structure ProcWrite where
  file : ProcFile
  text : List Byte
  fits : text.length ≤ pageSize

/-- What the handlers work on. -/
structure ProcState where
  cf : SipfwConf
  cookiePot : Page

/-- `SIPFW_Proc_Init`. -/
def procInit (cf : SipfwConf) : ProcState := ⟨cf, Page.zero⟩

/-! ## The handlers -/

/-- The name of an action in the page, up to its NUL. `strcmp` compares at most the
bytes of the name, so it stays inside the page. -/
def Page.holds (p : Page) (name : List Byte) : Bool := strcmp0 p.bytes (name ++ [0#8])

def acceptName : List Byte := bytesOf "ACCEPT".toList

def dropName : List Byte := bytesOf "DROP".toList

/-- `SIPFW_ProcActionWrite`. -/
def procActionWrite (s : ProcState) (text : List Byte) (fits : text.length ≤ pageSize) :
    Except Fault ProcState :=
  let pot := s.cookiePot.copy text fits
  if pot.holds acceptName = true then .ok ⟨{ s.cf with defaultAction := nfAccept }, pot⟩
  else if pot.holds dropName = true then .ok ⟨{ s.cf with defaultAction := nfDrop }, pot⟩
  else .ok ⟨s.cf, pot⟩

/-- The two handlers that scan a number into a setting. -/
def procIntWrite (conv : Int → BitVec 32) (set : SipfwConf → BitVec 32 → SipfwConf) (s : ProcState)
    (text : List Byte) (fits : text.length ≤ pageSize) : Except Fault ProcState :=
  let pot := s.cookiePot.copy text fits
  match sscanfInt pot.bytes with
  | .error e => .error e
  | .ok none => .ok ⟨s.cf, pot⟩
  | .ok (some n) => .ok ⟨set s.cf (conv n), pot⟩

/-- `SIPFW_ProcLogWrite`. -/
def procLogWrite (conv : Int → BitVec 32) :=
  procIntWrite conv fun cf v => { cf with logPause := v }

/-- `SIPFW_ProcInvalidWrite`. -/
def procInvalidWrite (conv : Int → BitVec 32) :=
  procIntWrite conv fun cf v => { cf with invalid := v }

/-- The `write_proc` of a file. -/
def procWrite (conv : Int → BitVec 32) (s : ProcState) (w : ProcWrite) : Except Fault ProcState :=
  match w.file with
  | .action => procActionWrite s w.text w.fits
  | .log => procLogWrite conv s w.text w.fits
  | .invalid => procInvalidWrite conv s w.text w.fits

/-- `SIPFW_ProcActionRead`. -/
def procActionRead (cf : SipfwConf) : Except Fault (List Byte) :=
  (actionEntry cf.defaultAction).map fun v => bytesOf (shown v.ptr ++ ['\n'])

/-- `SIPFW_ProcLogRead`. -/
def procLogRead (cf : SipfwConf) : Except Fault (List Byte) := .ok (printInt cf.logPause.toInt)

/-- `SIPFW_ProcInvalidRead`. -/
def procInvalidRead (cf : SipfwConf) : Except Fault (List Byte) := .ok (printInt cf.invalid.toInt)

/-- The `read_proc` of a file, from its beginning. -/
def procRead (file : ProcFile) (cf : SipfwConf) : Except Fault (List Byte) :=
  match file with
  | .action => procActionRead cf
  | .log => procLogRead cf
  | .invalid => procInvalidRead cf

/-! ## What is to hold -/

/-- How a setting is to be determined: by its previous value and the bytes written. -/
abbrev Meaning := ProcFile → BitVec 32 → List Byte → BitVec 32

/-- Every write of the run gets through, changes its own setting only, and changes it
to what the previous value and the bytes mean. -/
def HistoryFree (conv : Int → BitVec 32) (f : Meaning) (s : ProcState) (ws : List ProcWrite) :
    Prop :=
  Along (procWrite conv) (fun s w => ∃ s', procWrite conv s w = .ok s' ∧
    s'.cf = w.file.set s.cf (f w.file (w.file.get s.cf) w.text)) s ws

/-- Writing back what was read restores the setting; the default action is ACCEPT or
DROP wherever it is set. -/
def Restores (f : Meaning) : Prop :=
  ∀ file cf text prev, cf.defaultAction = nfAccept ∨ cf.defaultAction = nfDrop →
    procRead file cf = .ok text → f file prev text = file.get cf

/-! ## Text on its own -/

/-- The text up to a NUL is the name, or the name on a line. -/
def spells (name text : List Byte) : Bool :=
  let t := text.takeWhile (fun b => b != 0#8)
  t == name || t == name ++ [10#8]

/-- What a text means when nothing is behind it. -/
def meaning (conv : Int → BitVec 32) : Meaning := fun file prev text =>
  match file with
  | .action =>
    if spells acceptName text = true then nfAccept
    else if spells dropName text = true then nfDrop
    else prev
  | .log | .invalid => ((scanText text).map conv).getD prev

/-- The bytes behind the text neither complete it to the name nor hide that it is
the name; and the name is not written as the read handler prints it. -/
structure NameSettled (name text stale : List Byte) : Prop where
  line : text.takeWhile (fun b => b != 0#8) ≠ name ++ [10#8]
  closed : text = name → stale.head? = some 0#8
  incomplete : 0#8 ∉ text → text ≠ name → ¬ name ++ [0#8] <+: text ++ stale

/-- What the write finds behind its bytes does not matter: for the action, as far as
the action would change; for a number, the text ends the number itself, or the byte
behind it does, and the page does not end in white space. -/
def Settled (s : ProcState) (w : ProcWrite) : Prop :=
  let stale := s.cookiePot.bytes.drop w.text.length
  match w.file with
  | .action =>
    (s.cf.defaultAction ≠ nfAccept → NameSettled acceptName w.text stale) ∧
      (s.cf.defaultAction ≠ nfDrop → NameSettled dropName w.text stale)
  | .log | .invalid => Scan.Closes stale (w.text.foldl Scan.next .space)

/-! ## One write -/

/-- A NUL in the text ends it, whatever is behind. -/
theorem prefix_of_nul {name text : List Byte} (hname : 0#8 ∉ name) (h : 0#8 ∈ text)
    (stale : List Byte) :
    name ++ [0#8] <+: text ++ stale ↔ text.takeWhile (fun b => b != 0#8) = name := by
  induction name generalizing text with
  | nil =>
    cases text with
    | nil => cases h
    | cons b text =>
      rw [List.nil_append, List.cons_append, List.cons_prefix_cons]
      by_cases hb : b = 0#8
      · subst hb
        exact iff_of_true ⟨rfl, List.nil_prefix⟩ rfl
      · refine iff_of_false (fun h => hb h.1.symm) fun h => ?_
        rw [List.takeWhile_cons_of_pos (by simpa using hb)] at h
        cases h
  | cons c name ih =>
    obtain ⟨hc, hname⟩ := not_or.mp (List.mem_cons.not.mp hname)
    cases text with
    | nil => cases h
    | cons b text =>
      rw [List.cons_append, List.cons_append, List.cons_prefix_cons]
      by_cases hb : b = 0#8
      · subst hb
        -- the string ends before the name does
        refine iff_of_false (fun h => hc h.1.symm) fun h => ?_
        cases h
      · have hmem : 0#8 ∈ text := (List.mem_cons.mp h).resolve_left fun h => hb h.symm
        rw [List.takeWhile_cons_of_pos (by simpa using hb), List.cons.injEq, ih hname hmem,
          eq_comm (a := c)]

/-- A text without NUL is all of the string it begins. -/
theorem takeWhile_no_nul {text : List Byte} (h : 0#8 ∉ text) :
    text.takeWhile (fun b => b != 0#8) = text := by
  refine List.takeWhile_eq_self_iff.mpr fun b hb => ?_
  have hne : b ≠ 0#8 := fun he => h (he ▸ hb)
  simpa using hne

/-- A settled text is found in the page exactly if it spells the name. -/
theorem holds_iff {name text stale : List Byte} (hname : 0#8 ∉ name)
    (h : NameSettled name text stale) :
    name ++ [0#8] <+: text ++ stale ↔ spells name text = true := by
  have hspells : spells name text = true ↔ text.takeWhile (fun b => b != 0#8) = name := by
    rw [spells, Bool.or_eq_true, beq_iff_eq, beq_iff_eq, or_iff_left h.line]
  rw [hspells]
  by_cases h0 : 0#8 ∈ text
  · exact prefix_of_nul hname h0 stale
  · rw [takeWhile_no_nul h0]
    by_cases ht : text = name
    · have hc := h.closed ht
      subst ht
      cases stale with
      | nil => cases hc
      | cons b stale =>
        cases hc
        exact iff_of_true ⟨stale, by rw [List.append_assoc]; rfl⟩ rfl
    · exact iff_of_false (h.incomplete h0 ht) ht

/-- What two tests for the names make of the default action. -/
def chosen (accept drop : Bool) (prev : BitVec 32) : BitVec 32 :=
  if accept = true then nfAccept else if drop = true then nfDrop else prev

/-- A test may be wrong about the action that is set already. -/
theorem chosen_congr {a a' d d' : Bool} {prev : BitVec 32} (ha : prev ≠ nfAccept → a = a')
    (hd : prev ≠ nfDrop → d = d') (hx : a = true → d = false) (hx' : a' = true → d' = false) :
    chosen a d prev = chosen a' d' prev := by
  have hfalse : ∀ {x y : Bool}, (x = true → y = false) → y = true → x = false := fun h hy => by
    rw [← Bool.not_eq_true]
    intro hx
    rw [h hx] at hy
    cases hy
  by_cases h1 : prev = nfAccept
  · subst h1
    obtain rfl := hd (by decide)
    cases d with
    | true => rw [hfalse hx rfl, hfalse hx' rfl]
    | false => cases a <;> cases a' <;> rfl
  · obtain rfl := ha h1
    by_cases h2 : prev = nfDrop
    · subst h2
      cases a with
      | true => rfl
      | false => cases d <;> cases d' <;> rfl
    · rw [hd h2]

theorem procActionWrite_eq (s : ProcState) (text : List Byte) (fits : text.length ≤ pageSize) :
    procActionWrite s text fits =
      .ok ⟨ProcFile.action.set s.cf (chosen ((s.cookiePot.copy text fits).holds acceptName)
          ((s.cookiePot.copy text fits).holds dropName) s.cf.defaultAction),
        s.cookiePot.copy text fits⟩ := by
  unfold procActionWrite chosen
  dsimp only
  split
  next => rfl
  next =>
    split
    next => rfl
    next => rfl

/-- The page does not hold both names. -/
theorem holds_exclusive {p : Page} (h : p.holds acceptName = true) : p.holds dropName = false := by
  by_contra hne
  rw [Bool.not_eq_false] at hne
  have ha := (strcmp0_iff (by decide)).mp h
  have hd := (strcmp0_iff (by decide)).mp hne
  rcases List.prefix_or_prefix_of_prefix ha hd with hp | hp
  · exact absurd hp (by decide)
  · exact absurd hp (by decide)

theorem spells_exclusive {text : List Byte} (h : spells acceptName text = true) :
    spells dropName text = false := by
  rw [spells, Bool.or_eq_true, beq_iff_eq, beq_iff_eq] at h
  rcases h with h | h
  · rw [spells, h]
    decide
  · rw [spells, h]
    decide

theorem actionWrite_meaning {conv : Int → BitVec 32} {s : ProcState} {w : ProcWrite}
    (hf : w.file = .action) (h : Settled s w) :
    ∃ s', procWrite conv s w = .ok s' ∧
      s'.cf = w.file.set s.cf (meaning conv w.file (w.file.get s.cf) w.text) := by
  rw [Settled, hf] at h
  obtain ⟨ha, hd⟩ := h
  rw [procWrite, hf]
  refine ⟨_, procActionWrite_eq s w.text w.fits, ?_⟩
  show ProcFile.action.set s.cf _ = ProcFile.action.set s.cf (chosen _ _ s.cf.defaultAction)
  rw [chosen_congr (fun hne => ?_) (fun hne => ?_) holds_exclusive spells_exclusive]
  · exact Bool.eq_iff_iff.mpr ((strcmp0_iff (by decide)).trans (holds_iff (by decide) (ha hne)))
  · exact Bool.eq_iff_iff.mpr ((strcmp0_iff (by decide)).trans (holds_iff (by decide) (hd hne)))

/-- A number that is closed is stored as it is read on its own. -/
theorem procIntWrite_eq {conv : Int → BitVec 32} {set : SipfwConf → BitVec 32 → SipfwConf}
    {s : ProcState} {text : List Byte} (fits : text.length ≤ pageSize)
    (h : Scan.Closes (s.cookiePot.bytes.drop text.length) (text.foldl Scan.next .space)) :
    procIntWrite conv set s text fits =
      .ok ⟨((scanText text).map fun n => set s.cf (conv n)).getD s.cf,
        s.cookiePot.copy text fits⟩ := by
  have hs : sscanfInt (s.cookiePot.copy text fits).bytes = .ok (scanText text) := sscanfInt_append h
  rw [procIntWrite, hs]
  cases scanText text <;> rfl

/-- **One write**: a settled write gets through, and its setting is what the previous
value and the bytes mean. -/
theorem settled_step {conv : Int → BitVec 32} {s : ProcState} {w : ProcWrite} (h : Settled s w) :
    ∃ s', procWrite conv s w = .ok s' ∧
      s'.cf = w.file.set s.cf (meaning conv w.file (w.file.get s.cf) w.text) := by
  cases hf : w.file with
  | action => exact hf ▸ actionWrite_meaning hf h
  | log =>
    rw [Settled, hf] at h
    rw [procWrite, hf]
    refine ⟨_, procIntWrite_eq w.fits h, ?_⟩
    show Option.getD _ _ = { s.cf with logPause := ((scanText w.text).map conv).getD s.cf.logPause }
    cases scanText w.text <;> rfl
  | invalid =>
    rw [Settled, hf] at h
    rw [procWrite, hf]
    refine ⟨_, procIntWrite_eq w.fits h, ?_⟩
    show Option.getD _ _ = { s.cf with invalid := ((scanText w.text).map conv).getD s.cf.invalid }
    cases scanText w.text <;> rfl

/-! ## Whole runs -/

/-- The meaning of a text takes back what the read handlers print. -/
theorem meaning_restores {conv : Int → BitVec 32}
    (hconv : ∀ n : Int, -2147483648 ≤ n → n < 2147483648 → conv n = BitVec.ofInt 32 n) :
    Restores (meaning conv) := by
  have hint : ∀ v prev : BitVec 32, ((scanText (printInt v.toInt)).map conv).getD prev = v := by
    intro v prev
    rw [scanText_printInt, Option.map_some, Option.getD_some, hconv _ (by have := v.le_toInt; omega)
      (by have := v.toInt_lt; omega), BitVec.ofInt_toInt]
  intro file cf text prev hcf hr
  -- one case a file: the name of the action, or the digits of a number
  cases file with
  | action =>
    rcases hcf with h | h
    · rw [procRead, procActionRead, h] at hr
      cases hr
      rw [ProcFile.get, h]
      rfl
    · rw [procRead, procActionRead, h] at hr
      cases hr
      rw [ProcFile.get, h]
      rfl
  | log =>
    cases hr
    exact hint _ _
  | invalid =>
    cases hr
    exact hint _ _

/-- **Writes without history**: in every run whose writes are all settled, each write
changes its own setting only, to a value its previous value and the bytes
determine; and with that meaning, what was read can be written back. -/
theorem proc_history_free {conv : Int → BitVec 32}
    (hconv : ∀ n : Int, -2147483648 ≤ n → n < 2147483648 → conv n = BitVec.ofInt 32 n) :
    ∃ f : Meaning, Restores f ∧ ∀ cf ws,
      Along (procWrite conv) Settled (procInit cf) ws → HistoryFree conv f (procInit cf) ws :=
  ⟨meaning conv, meaning_restores hconv, fun _ ws h =>
    along_mono (fun _ _ hs => settled_step hs) ws _ h⟩

/-! ## A number in two writes -/

/-- A conversion that keeps 32 bits. -/
def keep32 (n : Int) : BitVec 32 := BitVec.ofInt 32 n

/-- A run of settled writes: `1` to the log file, on a line of its own, and `DROP`
without one, terminated. -/
theorem settled_run_free :
    ∃ f : Meaning, Restores f ∧ HistoryFree keep32 f (procInit .initial)
      [⟨.log, bytesOf "1\n".toList, by decide⟩, ⟨.action, dropName ++ [0#8], by decide⟩] := by
  obtain ⟨f, hf, hrun⟩ := @proc_history_free keep32 fun n _ _ => rfl
  refine ⟨f, hf, hrun _ _ ⟨⟨0#8, ?_, rfl⟩, fun s' _ =>
    ⟨⟨fun _ => ?_, fun _ => ?_⟩, fun _ _ => trivial⟩⟩⟩
  · show 0#8 ∈ (List.replicate pageSize 0#8).drop 2
    rw [List.drop_replicate]
    exact List.mem_replicate.mpr ⟨by decide, rfl⟩
  · exact ⟨by decide, fun h => absurd h (by decide), fun h => absurd h (by decide)⟩
  · exact ⟨by decide, fun h => absurd h (by decide), fun h => absurd h (by decide)⟩

/-- `x234` to the action file. -/
def writeX : ProcWrite := ⟨.action, bytesOf "x234".toList, by decide⟩

/-- `5` to the log file. -/
def writeFive : ProcWrite := ⟨.log, bytesOf "5".toList, by decide⟩

/-- What the scan finds behind the `5` is the number that is set. -/
theorem five_after (p : Page) {n : Int}
    (hn : sscanfInt (p.copy writeFive.text writeFive.fits).bytes = .ok (some n)) :
    ∃ s', procWrite keep32 ⟨.initial, p⟩ writeFive = .ok s' ∧ s'.cf.logPause = keep32 n := by
  refine ⟨⟨ProcFile.log.set .initial (keep32 n), p.copy writeFive.text writeFive.fits⟩, ?_, rfl⟩
  show procLogWrite keep32 ⟨.initial, p⟩ writeFive.text writeFive.fits = _
  rw [procLogWrite, procIntWrite, hn]
  rfl

/-- A file that `x234` was written to, not even the same, and `5` means 5234: no
meaning of the bytes alone fits both runs. And `ACCEPT` is not taken back as it is
printed: the default action stays DROP. -/
theorem stale_digits_read :
    let clean := procInit .initial
    let used : ProcState := ⟨.initial, Page.zero.copy writeX.text writeX.fits⟩
    procWrite keep32 clean writeX = .ok used ∧
      (∃ s, procWrite keep32 clean writeFive = .ok s ∧ s.cf.logPause = 5#32) ∧
      (∃ s, procWrite keep32 used writeFive = .ok s ∧ s.cf.logPause = 5234#32) ∧
      (procRead .action .initial = .ok (acceptName ++ [10#8]) ∧
        ∀ cf s h, procWrite keep32 (procInit cf) ⟨.action, acceptName ++ [10#8], h⟩ = .ok s →
          s.cf = cf) ∧
      ¬ ∃ f : Meaning, Restores f ∧ ∀ cf ws, HistoryFree keep32 f (procInit cf) ws := by
  have h1 : procWrite keep32 (procInit .initial) writeX =
      .ok ⟨.initial, Page.zero.copy writeX.text writeX.fits⟩ := rfl
  have h2 := five_after Page.zero (n := 5)
    (@sscanfInt_append (bytesOf "5".toList) _ (Scan.closes_nul _ (List.replicate 4094 0#8)))
  -- behind the digit stand the `234` of the write before
  have h3 := five_after (Page.zero.copy writeX.text writeX.fits) (n := 5234)
    (@sscanfInt_append (bytesOf "5234".toList) _
      (Scan.closes_nul _ (List.replicate 4091 0#8)))
  refine ⟨h1, h2, h3, ⟨rfl, ?_⟩, fun h => ?_⟩
  · intro cf s _ hs
    cases hs
    rfl
  · obtain ⟨f, -, hf⟩ := h
    obtain ⟨s, hs, hcf⟩ := (hf .initial [writeFive]).1
    obtain ⟨s', hs', hcf'⟩ := ((hf .initial [writeX, writeFive]).2 _ h1).1
    obtain ⟨t, ht, hv⟩ := h2
    obtain ⟨t', ht', hv'⟩ := h3
    rw [show s = t from Except.ok.inj (hs.symm.trans ht)] at hcf
    rw [show s' = t' from Except.ok.inj (hs'.symm.trans ht')] at hcf'
    -- one meaning of the text would have to give both numbers
    have heq : t.cf.logPause = t'.cf.logPause := by
      rw [hcf, hcf']
      rfl
    rw [hv, hv'] at heq
    exact absurd heq (by decide)

end LinuxNet.Sipfw
