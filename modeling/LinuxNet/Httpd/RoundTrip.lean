import LinuxNet.Httpd.Header

/-!
# From a client's request to `struct request`

A client writes a request (`ClientRequest`): the request line with the blanks of
the path as `%20`, the fields, an empty line, each with a carriage return and a
newline. The bounds a request has to keep are those of the server's arrays, and
are part of the type.

What the server reads of the connection is the header and nothing behind it, and
what it parses is what the client meant (`request_roundtrip`), wherever reads time
out, and whatever the stack held before. The one text the path must not have is
`%20` itself. A query string or a length that the request does not give is what
the structure held before, which `main` never fills in; and with fewer than
fourteen fields the parse gets through only where nothing in use lies in front of
its buffer.
-/

namespace LinuxNet.Httpd

/-- A field of a request, as far as the server looks at it. -/
inductive Field where
  | agent (name : CStr)
  | contentLength (n : Nat)
  /-- Any other line. -/
  | other (line : CStr)
  deriving DecidableEq, Repr

/-- The line of a field. -/
def Field.line : Field → CStr
  | agent name => userAgentName ++ ' ' :: name
  | contentLength n => contentLengthName ++ ' ' :: Nat.toDigits 10 n
  | other line => line

/-- A field keeps to what the server can store, and does not look like another. -/
def Field.Ok : Field → Prop
  | agent name => name ≠ [] ∧ '\n' ∉ name ∧ nul ∉ name ∧ name.length < userAgentLen - 1
  | contentLength n => (n : Int) ≤ longMax
  | other line => IsText line ∧ nul ∉ line ∧ ¬ userAgentName <+: line ∧
      ¬ contentLengthName <+: line ∧ ¬ contentLengthName' <+: line

/-- A character inside a word of the request line. -/
def InWord (c : Char) : Prop := c ≠ ' ' ∧ c ≠ nul ∧ c ≠ '\n'

/-- What a client may ask for. -/
structure ClientRequest where
  method : CStr
  path : CStr
  query : Option CStr
  protocol : CStr
  fields : List Field
  method_word : ∀ c ∈ method, InWord c
  method_fits : method.length ≤ methodLen
  path_word : ∀ c ∈ path, c ≠ '?' ∧ c ≠ nul ∧ c ≠ '\n'
  path_fits : (escape tok tokSubst path).length ≤ maxPathLen
  query_word : ∀ q ∈ query, ∀ c ∈ q, c ≠ '?' ∧ InWord c
  query_fits : ∀ q ∈ query, q.length ≤ maxQueryStringLen
  protocol_word : protocol ≠ [] ∧ ∀ c ∈ protocol, InWord c
  protocol_fits : protocol.length ≤ protocolLen
  fields_ok : ∀ f ∈ fields, f.Ok
  fields_fit : fields.length + 2 ≤ maxRequestLines

/-- The agent a field names, `before` when it names none. -/
def Field.agentOr (before : CStr) : Field → CStr
  | agent name => name
  | _ => before

/-- The length of the content a field gives, `before` when it gives none. -/
def Field.lengthOr (before : Int) : Field → Int
  | contentLength n => n
  | _ => before

/-- The agent named last, `before` when none is. -/
def lastAgent (fields : List Field) (before : CStr) : CStr := fields.foldl Field.agentOr before

/-- The length of the content given last, `before` when none is. -/
def lastLength (fields : List Field) (before : Int) : Int := fields.foldl Field.lengthOr before

namespace ClientRequest

/-- What follows the path. -/
def target (r : ClientRequest) : CStr :=
  match r.query with
  | none => ' ' :: r.protocol
  | some q => '?' :: (q ++ ' ' :: r.protocol)

/-- The request line. -/
def firstLine (r : ClientRequest) : CStr :=
  r.method ++ ' ' :: (escape tok tokSubst r.path ++ r.target)

/-- The header the client writes. -/
def header (r : ClientRequest) : CStr := block (r.firstLine :: r.fields.map Field.line)

/-- What the server is to make of the request: what it does not say is left as it was. -/
def received (r : ClientRequest) (before : Request) : Request where
  address := before.address
  method := r.method
  documentAddress := r.path
  queryString := r.query.getD before.queryString
  protocolVersion := r.protocol
  keepAlive := asksKeepAlive ((r.fields.map Field.line).headD [])
  userAgent := lastAgent r.fields noAgent
  contentLength := lastLength r.fields before.contentLength

end ClientRequest

/-! ## The lines -/

theorem rawLines_line {t : CStr} (ht : '\n' ∉ t) (n : Nat) (rest : CStr) :
    rawLines (n + 1) (t ++ '\n' :: rest) = t :: rawLines n rest := by
  have hall : ∀ c ∈ t, decide (c ≠ '\n') = true := fun c hc =>
    decide_eq_true fun he => ht (he ▸ hc)
  have htake : (t ++ '\n' :: rest).takeWhile (· ≠ '\n') = t := by
    rw [List.takeWhile_append_of_pos hall, List.takeWhile_cons_of_neg (by decide), List.append_nil]
  have hdrop : (t ++ '\n' :: rest).dropWhile (· ≠ '\n') = '\n' :: rest := by
    rw [List.dropWhile_append_of_pos hall, List.dropWhile_cons_of_neg (by decide)]
  cases hs : t ++ '\n' :: rest with
  | nil => exact absurd hs (List.append_ne_nil_of_right_ne_nil t (List.cons_ne_nil _ _))
  | cons c cs =>
    rw [hs] at htake hdrop
    rw [rawLines, htake, hdrop]
    rfl

theorem rawLines_block (lines : List CStr) : ∀ n : Nat, (∀ line ∈ lines, '\n' ∉ line) →
    rawLines n (block lines ++ ['\n'])
      = (lines.map (fun line => line ++ ['\r']) ++ [['\r'], []]).take n := by
  induction lines with
  | nil =>
    intro n _
    match n with
    | 0 => rfl
    | 1 => rfl
    | 2 => rfl
    | n + 3 => rfl
  | cons line lines ih =>
    intro n h
    cases n with
    | zero => rfl
    | succ n =>
      have hr : '\n' ∉ line ++ ['\r'] := by
        rw [List.mem_append]
        exact fun hm => hm.elim (h line List.mem_cons_self) (by decide)
      have hshape : block (line :: lines) ++ ['\n']
          = (line ++ ['\r']) ++ '\n' :: (block lines ++ ['\n']) := by
        rw [block_cons, crlf]
        simp
      rw [hshape, rawLines_line hr, ih n fun l hl => h l (List.mem_cons_of_mem _ hl)]
      rfl

/-- A line with a character in it is stored without the last one. -/
theorem storedLines_cons (frontFree : Bool) (token line : CStr) (c : Char) (texts : List CStr) :
    storedLines frontFree token ((line ++ [c]) :: texts)
      = (storedLines frontFree line texts).map (line :: ·) := by
  have hne : line ++ [c] ≠ [] := List.append_ne_nil_of_right_ne_nil line (List.cons_ne_nil _ _)
  rw [storedLines, if_neg fun h => hne h.1]
  simp only [if_neg hne, List.dropLast_concat]

/-- Of each line the text is stored, and of the last two nothing; the last one is not always
reached, and where it is, it needs the room in front of `token`. -/
theorem storedLines_block (frontFree : Bool) (lines : List CStr) : ∀ (token : CStr) (n : Nat),
    storedLines frontFree token
        ((lines.map (fun line => line ++ ['\r']) ++ [['\r'], []]).take n)
      = if frontFree = true ∨ n ≤ lines.length + 1 then .ok ((lines ++ [[], []]).take n)
        else .error .outOfBounds := by
  induction lines with
  | nil =>
    intro token n
    match n with
    | 0 => exact (if_pos (.inr (Nat.zero_le _))).symm
    | 1 => exact (if_pos (.inr (Nat.le_refl _))).symm
    | n + 2 =>
      have hlast : ([] : List CStr).map (fun line => line ++ ['\r']) ++ [['\r'], []]
          = [([] : CStr) ++ ['\r'], []] := rfl
      have htake : ∀ a b : CStr, [a, b].take (n + 2) = [a, b] := fun a b =>
        List.take_of_length_le (show 2 ≤ n + 2 from Nat.le_add_left ..)
      rw [hlast, htake, storedLines_cons, List.nil_append, htake]
      cases frontFree with
      | true => rfl
      | false =>
        rw [if_neg (by rw [List.length_nil]; simp)]
        rfl
  | cons line lines ih =>
    intro token n
    cases n with
    | zero => exact (if_pos (.inr (Nat.zero_le _))).symm
    | succ n =>
      rw [List.map_cons, List.cons_append, List.take_succ_cons, storedLines_cons, ih,
        List.length_cons]
      simp only [Nat.succ_le_succ_iff]
      split
      next => rfl
      next => rfl

/-! ## The first line -/

theorem scan_word {stop : Char → Bool} {max : Nat} {t : CStr} {c : Char} (rest : List Char)
    (ht : ∀ x ∈ t, stop x = false) (hc : stop c = true) (hlen : t.length ≤ max) :
    scan stop max (t ++ c :: rest) = t := by
  have hall : ∀ x ∈ t, (!stop x) = true := fun x hx => by rw [ht x hx]; rfl
  rw [scan, List.take_append, List.take_of_length_le hlen, List.takeWhile_append_of_pos hall]
  cases max - t.length with
  | zero => exact List.append_nil t
  | succ n =>
    rw [List.take_succ_cons, List.takeWhile_cons_of_neg (by rw [hc]; exact Bool.false_ne_true),
      List.append_nil]

theorem endsWord_false {c : Char} (h : InWord c) : endsWord c = false := by
  rw [endsWord, decide_eq_false h.1, decide_eq_false h.2.1]
  rfl

theorem endsPath_false {c : Char} (hq : c ≠ '?') (hb : c ≠ ' ') (hn : c ≠ nul) :
    endsPath c = false := by
  rw [endsPath, decide_eq_false hb, decide_eq_false hq, decide_eq_false hn]
  rfl

/-- A written path has no blank, and no character the path does not have but those of `%20`. -/
theorem mem_escape {s : CStr} {c : Char} (h : c ∈ escape tok tokSubst s) :
    c ≠ ' ' ∧ (c ∈ tok ∨ c ∈ s) := by
  obtain ⟨x, hx, hc⟩ := List.mem_flatMap.mp h
  split at hc
  next =>
    refine ⟨?_, .inl hc⟩
    rintro rfl
    exact absurd hc (by decide)
  next hne =>
    rw [List.mem_singleton] at hc
    subst hc
    exact ⟨hne, .inr hx⟩

/-- A path survives the trip if and only if `%20` does not occur in it. -/
theorem unescape_escape (s : CStr) :
    replaceAll tok tokSubst (escape tok tokSubst s) = s ↔ ¬ tok <:+: s :=
  replaceAll_escape (show tok = '%' :: ['2', '0'] from rfl) (by decide) (by decide) (by decide) s

theorem protocolIn_word {p : CStr} (hne : p ≠ []) (hword : ∀ c ∈ p, InWord c)
    (hfits : p.length ≤ protocolLen) (rest : List Char) :
    protocolIn (p ++ nul :: rest) = p := by
  rw [protocolIn, scan_word rest (fun x hx => endsWord_false (hword x hx)) rfl hfits]
  exact if_neg hne

variable (r : ClientRequest)

theorem nul_notMem_path : nul ∉ r.path := fun h => (r.path_word nul h).2.1 rfl

theorem parseTail_target (req : Request) (rest : List Char) :
    parseTail req (r.target ++ nul :: rest)
      = { req with queryString := r.query.getD req.queryString, protocolVersion := r.protocol } := by
  have hprot := protocolIn_word r.protocol_word.1 r.protocol_word.2 r.protocol_fits rest
  cases hq : r.query with
  | none =>
    have ht : r.target = ' ' :: r.protocol := by rw [ClientRequest.target, hq]
    rw [ht, parseTail]
    show (if some ' ' = some nul then _ else if some ' ' = some '?' then _ else _) = _
    rw [if_neg (by decide), if_neg (by decide)]
    show { req with protocolVersion := protocolIn (r.protocol ++ nul :: rest) } = _
    rw [hprot]
    rfl
  | some q =>
    have ht : r.target = '?' :: (q ++ ' ' :: r.protocol) := by rw [ClientRequest.target, hq]
    have hscan : scan endsPath maxQueryStringLen (q ++ ' ' :: (r.protocol ++ nul :: rest)) = q := by
      refine scan_word _ (fun x hx => ?_) rfl (r.query_fits q hq)
      have hx := r.query_word q hq x hx
      exact endsPath_false hx.1 hx.2.1 hx.2.2.1
    have hrow : ('?' :: (q ++ ' ' :: r.protocol) ++ nul :: rest).tail
        = q ++ ' ' :: (r.protocol ++ nul :: rest) := by
      rw [List.cons_append, List.tail_cons, List.append_assoc, List.cons_append]
    rw [ht, parseTail]
    show (if some '?' = some nul then _ else if some '?' = some '?' then _ else _) = _
    have hrest : ((q ++ ' ' :: (r.protocol ++ nul :: rest)).drop q.length).drop 1
        = r.protocol ++ nul :: rest := by
      rw [List.drop_left]
      rfl
    rw [if_neg (by decide), if_pos rfl, hrow, hscan]
    show { req with
      queryString := q
      protocolVersion := protocolIn
        (((q ++ ' ' :: (r.protocol ++ nul :: rest)).drop q.length).drop 1) } = _
    rw [hrest, hprot]
    rfl

theorem parseFirst_firstLine (stale : Stale) (req : Request) (hpath : ¬ tok <:+: r.path) :
    parseFirst stale req r.firstLine = .ok { req with
      method := r.method
      documentAddress := r.path
      queryString := r.query.getD req.queryString
      protocolVersion := r.protocol } := by
  obtain ⟨c, ts, htarget, hc⟩ : ∃ c ts, r.target = c :: ts ∧ endsPath c = true := by
    cases hq : r.query with
    | none => exact ⟨' ', r.protocol, by rw [ClientRequest.target, hq], rfl⟩
    | some q => exact ⟨'?', q ++ ' ' :: r.protocol, by rw [ClientRequest.target, hq], rfl⟩
  have hrow : r.firstLine ++ nul :: stale.behindLine = r.method ++ ' ' ::
      (escape tok tokSubst r.path ++ (r.target ++ nul :: stale.behindLine)) := by
    simp [ClientRequest.firstLine]
  have hmethod : scan endsWord methodLen (r.firstLine ++ nul :: stale.behindLine) = r.method := by
    rw [hrow]
    exact scan_word _ (fun x hx => endsWord_false (r.method_word x hx)) rfl r.method_fits
  have hrow₁ : (r.firstLine ++ nul :: stale.behindLine).drop r.method.length = ' ' ::
      (escape tok tokSubst r.path ++ (r.target ++ nul :: stale.behindLine)) := by
    rw [hrow, List.drop_left]
  have hscan : scan endsPath maxPathLen
      (escape tok tokSubst r.path ++ (r.target ++ nul :: stale.behindLine))
      = escape tok tokSubst r.path := by
    rw [htarget, List.cons_append]
    refine scan_word _ (fun x hx => ?_) hc r.path_fits
    obtain ⟨hb, ht | hp⟩ := mem_escape hx
    · exact endsPath_false (fun he => absurd (he ▸ ht) (by decide)) hb
        (fun he => absurd (he ▸ ht) (by decide))
    · exact endsPath_false (r.path_word x hp).1 hb (r.path_word x hp).2.1
  have hnul : nul ∉ escape tok tokSubst r.path := by
    intro h
    rcases (mem_escape h).2 with ht | hp
    · exact absurd ht (by decide)
    · exact nul_notMem_path r hp
  obtain ⟨rest', hconv, -, -⟩ := convertPercents_works ((escape tok tokSubst r.path).length + 1)
    stale.behindToken hnul (Nat.le_refl _) (Nat.le_add_right _ _)
    (Nat.lt_of_le_of_lt r.path_fits (by decide)) (Nat.lt_succ_self _)
  rw [(unescape_escape r.path).mpr hpath] at hconv
  rw [parseFirst]
  simp only [hmethod, hrow₁]
  rw [if_neg (by simp [nul])]
  simp only [List.tail_cons, hscan, hconv, List.drop_left]
  rw [parseTail_target, cstr_append (nul_notMem_path r)]

/-! ## The fields -/

/-- Behind the name of a field and a blank stands its text. -/
theorem lineFrom_field (stale : Stale) {name s : CStr} (h : nul ∉ s) :
    lineFrom stale (name ++ ' ' :: s) (name.length + 1) = s := by
  have hshape : name ++ ' ' :: s ++ nul :: stale.behindLine
      = (name ++ [' ']) ++ (s ++ nul :: stale.behindLine) := by simp
  have hlen : (name ++ [' ']).length = name.length + 1 := by
    rw [List.length_append, List.length_singleton]
  rw [lineFrom, hshape, List.drop_left' hlen, cstr_append h]

theorem scanText_toDigits (n : Nat) : scanText (bytesOf (Nat.toDigits 10 n)) = some (n : Int) := by
  have hpos : ∀ b, isDigitByte b = true → isSpaceByte b = false → isSignByte b = false →
      Scan.next .space b = .digits false (Scan.digit b) := fun b hb hs hg => by
    rw [Scan.next, hs, hg, if_neg Bool.false_ne_true, if_neg Bool.false_ne_true, if_pos hb]
  rw [scanText, foldl_number n hpos]
  rfl

/-- No digit is a NUL. -/
theorem nul_notMem_toDigits (n : Nat) : nul ∉ Nat.toDigits 10 n := fun h =>
  absurd (Nat.isDigit_of_mem_toDigits (by decide) (by decide) h) (by decide)

/-- What a field makes of the structure. -/
def Field.store (req : Request) : Field → Request
  | agent name => { req with userAgent := name }
  | contentLength n => { req with contentLength := n }
  | other _ => req

/-- A length that fits is stored as it is. -/
theorem toLong_natCast {n : Nat} (h : (n : Int) ≤ longMax) : toLong n = n := by
  have hlow : -longMax - 1 ≤ (n : Int) := by
    unfold longMax
    omega
  rw [toLong, min_eq_left h, max_eq_right hlow]

theorem strncmp0_pos {name line : CStr} (h : name <+: line) :
    strncmp0 line name name.length = true := by
  rw [ strncmp0_iff_prefix]
  exact h

theorem strncmp0_neg {name line : CStr} (h : ¬ name <+: line) :
    strncmp0 line name name.length = false :=
  Bool.eq_false_iff.mpr fun hp => by
    rw [ strncmp0_iff_prefix] at hp
    exact h hp

/-- The length of the content is not taken for an agent. -/
theorem agent_ne_length (s : CStr) : ¬ userAgentName <+: contentLengthName ++ s := by
  have hu : userAgentName = 'U' :: userAgentName.tail := rfl
  have hc : contentLengthName = 'C' :: contentLengthName.tail := rfl
  rw [hu, hc, List.cons_append, List.cons_prefix_cons]
  exact fun h => absurd h.1 (by decide)

theorem parseLine_field (stale : Stale) (req : Request) {f : Field} (hf : f.Ok) :
    parseLine stale req f.line = f.store req := by
  have hlen : contentLengthName.length = contentLengthName'.length := by decide
  cases f with
  | agent name =>
    rw [Field.line, parseLine, if_pos (strncmp0_pos (List.prefix_append _ _)),
      lineFrom_field stale hf.2.2.1, storeAgent, if_pos hf.2.2.2]
    rfl
  | contentLength n =>
    rw [Field.line, parseLine, strncmp0_neg (agent_ne_length _), ← hlen,
      strncmp0_pos (List.prefix_append _ _), lineFrom_field stale (nul_notMem_toDigits n),
      scanText_toDigits]
    simp only [toLong_natCast hf]
    rfl
  | other line =>
    have h₁ := strncmp0_neg hf.2.2.1
    have h₂ := strncmp0_neg hf.2.2.2.1
    have h₃ := strncmp0_neg hf.2.2.2.2
    rw [Field.line, parseLine, h₁, h₃, ← hlen, h₂]
    rfl

/-- The loop over the lines stores the fields one after the other. -/
theorem foldl_parseLine (stale : Stale) (fields : List Field) (hf : ∀ f ∈ fields, f.Ok) :
    ∀ req : Request, (fields.map Field.line).foldl (parseLine stale) req
      = fields.foldl Field.store req := by
  induction fields with
  | nil => intro req; rfl
  | cons f fields ih =>
    intro req
    rw [List.map_cons, List.foldl_cons, List.foldl_cons, parseLine_field stale req
      (hf f List.mem_cons_self), ih fun g hg => hf g (List.mem_cons_of_mem f hg)]

theorem foldl_store (fields : List Field) : ∀ req : Request,
    fields.foldl Field.store req = { req with
      userAgent := lastAgent fields req.userAgent
      contentLength := lastLength fields req.contentLength } := by
  induction fields with
  | nil => intro req; rfl
  | cons f fields ih =>
    intro req
    rw [List.foldl_cons, ih]
    cases f <;> rfl

/-- Either no agent is named, or one that does not depend on what was there before. -/
theorem lastAgent_cases (fields : List Field) (hf : ∀ f ∈ fields, f.Ok) :
    (∀ a, lastAgent fields a = a) ∨ ∃ name, name ≠ [] ∧ ∀ a, lastAgent fields a = name := by
  induction fields with
  | nil => exact .inl fun a => rfl
  | cons f fields ih =>
    have hcons : ∀ a, lastAgent (f :: fields) a = lastAgent fields (f.agentOr a) := fun a => rfl
    rcases ih fun g hg => hf g (List.mem_cons_of_mem f hg) with h | ⟨name, hne, h⟩
    · cases f with
      | agent name =>
        exact .inr ⟨name, (hf _ List.mem_cons_self).1, fun a => by rw [hcons, h]; rfl⟩
      | contentLength n => exact .inl fun a => by rw [hcons, h]; rfl
      | other line => exact .inl fun a => by rw [hcons, h]; rfl
    · exact .inr ⟨name, hne, fun a => by rw [hcons, h]⟩

theorem parseLine_nil (stale : Stale) (req : Request) : parseLine stale req [] = req := by
  have hno : ∀ name : CStr, name ≠ [] → ¬ name <+: ([] : CStr) :=
    fun name hne h => hne (List.prefix_nil.mp h)
  have hlen : contentLengthName.length = contentLengthName'.length := by decide
  rw [parseLine, strncmp0_neg (hno _ (by decide)), strncmp0_neg (hno contentLengthName' (by decide)),
    ← hlen, strncmp0_neg (hno _ (by decide))]
  rfl

theorem foldl_parseLine_nil (stale : Stale) (blanks : List CStr) (h : ∀ l ∈ blanks, l = []) :
    ∀ req : Request, blanks.foldl (parseLine stale) req = req := by
  induction blanks with
  | nil => intro req; rfl
  | cons l blanks ih =>
    intro req
    rw [List.foldl_cons, h l List.mem_cons_self, parseLine_nil,
      ih fun m hm => h m (List.mem_cons_of_mem l hm)]

/-! ## The whole -/

/-- The request line and the field lines have no newline, and no NUL. -/
theorem firstLine_chars : ∀ c ∈ r.firstLine, c ≠ '\n' ∧ c ≠ nul := by
  intro c hc
  have hblank : ' ' ≠ '\n' ∧ ' ' ≠ nul := by decide
  have hmark : '?' ≠ '\n' ∧ '?' ≠ nul := by decide
  have hword : InWord c → c ≠ '\n' ∧ c ≠ nul := fun h => ⟨h.2.2, h.2.1⟩
  rcases List.mem_append.mp hc with hc | hc
  · exact hword (r.method_word c hc)
  rcases List.mem_cons.mp hc with rfl | hc
  · exact hblank
  rcases List.mem_append.mp hc with hc | hc
  · rcases (mem_escape hc).2 with ht | hp
    · exact ⟨fun he => absurd (he ▸ ht) (by decide), fun he => absurd (he ▸ ht) (by decide)⟩
    · exact ⟨(r.path_word c hp).2.2, (r.path_word c hp).2.1⟩
  · rw [ClientRequest.target] at hc
    split at hc
    next =>
      rcases List.mem_cons.mp hc with rfl | hc
      · exact hblank
      · exact hword (r.protocol_word.2 c hc)
    next q hq =>
      rcases List.mem_cons.mp hc with rfl | hc
      · exact hmark
      rcases List.mem_append.mp hc with hc | hc
      · exact hword (r.query_word q hq c hc).2
      rcases List.mem_cons.mp hc with rfl | hc
      · exact hblank
      · exact hword (r.protocol_word.2 c hc)

theorem isText_firstLine : IsText r.firstLine :=
  ⟨List.append_ne_nil_of_right_ne_nil _ (List.cons_ne_nil _ _),
    fun h => (firstLine_chars r _ h).1 rfl⟩

theorem Field.isText {f : Field} (hf : f.Ok) : IsText f.line ∧ nul ∉ f.line := by
  cases f with
  | agent name =>
    refine ⟨⟨List.append_ne_nil_of_right_ne_nil _ (List.cons_ne_nil _ _), fun h => ?_⟩, fun h => ?_⟩
    · rcases List.mem_append.mp h with h | h
      · exact absurd h (by decide)
      · exact hf.2.1 ((List.mem_cons.mp h).resolve_left (by decide))
    · rcases List.mem_append.mp h with h | h
      · exact absurd h (by decide)
      · exact hf.2.2.1 ((List.mem_cons.mp h).resolve_left (by decide))
  | contentLength n =>
    have hdigit : ∀ c ∈ Nat.toDigits 10 n, c.isDigit = true := fun c hc =>
      Nat.isDigit_of_mem_toDigits (by decide) (by decide) hc
    refine ⟨⟨List.append_ne_nil_of_right_ne_nil _ (List.cons_ne_nil _ _), fun h => ?_⟩, fun h => ?_⟩
    · rcases List.mem_append.mp h with h | h
      · exact absurd h (by decide)
      · exact absurd (hdigit _ ((List.mem_cons.mp h).resolve_left (by decide))) (by decide)
    · rcases List.mem_append.mp h with h | h
      · exact absurd h (by decide)
      · exact absurd (hdigit _ ((List.mem_cons.mp h).resolve_left (by decide))) (by decide)
  | other line => exact ⟨hf.1, hf.2.1⟩

theorem nul_notMem_header : nul ∉ r.header := by
  have hend : nul ∉ crlf := by decide
  intro h
  rcases List.mem_append.mp h with h | h
  · obtain ⟨line, hline, h⟩ := List.mem_flatMap.mp h
    rcases List.mem_append.mp h with h | h
    · rcases List.mem_cons.mp hline with rfl | hline
      · exact (firstLine_chars r _ h).2 rfl
      · obtain ⟨f, hf, rfl⟩ := List.mem_map.mp hline
        exact (Field.isText (r.fields_ok f hf)).2 h
    · exact hend h
  · exact hend h

/-- The lines that are looked at behind the first are the fields, and empty ones. -/
theorem lines_after_first (first : CStr) {fl : List CStr} (hfl : fl.length + 2 ≤ maxRequestLines) :
    ∃ blanks : List CStr, (∀ l ∈ blanks, l = []) ∧
      ((((first :: fl ++ [[], []]).take maxRequestLines).take
        (((first :: fl ++ [[], []]).take maxRequestLines).length - 1)).drop 1) = fl ++ blanks := by
  have hlen : ((first :: fl ++ [[], []]).take maxRequestLines).length - 1
      = min maxRequestLines (fl.length + 3) - 1 := by
    rw [List.length_take, List.length_append, List.length_cons]
    rfl
  obtain ⟨n, hn, hge⟩ : ∃ n, min (min maxRequestLines (fl.length + 3) - 1) maxRequestLines = n + 1 ∧
      fl.length ≤ n :=
    ⟨min maxRequestLines (fl.length + 3) - 2, by unfold maxRequestLines at hfl ⊢; omega, by
      unfold maxRequestLines at hfl ⊢; omega⟩
  refine ⟨([[], []] : List CStr).take (n - fl.length), ?_, ?_⟩
  · intro l hl
    have := List.mem_of_mem_take hl
    simpa using this
  · rw [hlen, List.take_take, hn, List.cons_append, List.take_succ_cons, List.drop_succ_cons,
      List.drop_zero, List.take_append, List.take_of_length_le hge]

/-- The empty line behind the request does no harm: it does not overwrite anything, or it is not
looked at. -/
def EndsSafely (stale : Stale) (r : ClientRequest) : Prop :=
  stale.frontFree = true ∨ r.fields.length + 2 = maxRequestLines

instance (stale : Stale) (r : ClientRequest) : Decidable (EndsSafely stale r) :=
  inferInstanceAs (Decidable (_ ∨ _))

/-- What is parsed from the header of a request is what the client meant, if it is parsed. -/
theorem parseRequest_header (stale : Stale) (before : Request) (hpath : ¬ tok <:+: r.path) :
    parseRequest stale before r.header
      = if EndsSafely stale r then .ok (r.received before) else .error .outOfBounds := by
  have hlines : reqArray stale r.header
      = if EndsSafely stale r then
          .ok ((r.firstLine :: r.fields.map Field.line ++ [[], []]).take maxRequestLines)
        else .error .outOfBounds := by
    rw [reqArray, ClientRequest.header, rawLines_block, storedLines_block]
    · have hlen : (r.firstLine :: r.fields.map Field.line).length = r.fields.length + 1 := by
        rw [List.length_cons, List.length_map]
      have hfit := r.fields_fit
      rw [hlen]
      refine if_congr (or_congr_right ?_) rfl rfl
      omega
    · intro line hline
      rcases List.mem_cons.mp hline with rfl | hline
      · exact (isText_firstLine r).2
      · obtain ⟨f, hf, rfl⟩ := List.mem_map.mp hline
        exact (Field.isText (r.fields_ok f hf)).1.2
  by_cases hsafe : EndsSafely stale r
  case neg =>
    rw [parseRequest, hlines, if_neg hsafe, if_neg hsafe]
  rw [if_pos hsafe] at hlines
  rw [if_pos hsafe]
  have hfl : (r.fields.map Field.line).length + 2 ≤ maxRequestLines := by
    rw [List.length_map]
    exact r.fields_fit
  obtain ⟨blanks, hblanks, hrest⟩ := lines_after_first r.firstLine hfl
  have hhead : ((r.firstLine :: r.fields.map Field.line ++ [[], []]).take maxRequestLines).headD
      stale.token = r.firstLine := rfl
  have hsecond : ((r.firstLine :: r.fields.map Field.line ++ [[], []]).take maxRequestLines).getD 1
      stale.secondLine = (r.fields.map Field.line).headD [] := by
    cases r.fields <;> rfl
  rw [parseRequest]
  simp only [hlines, hrest, hhead, hsecond]
  rw [parseFirst_firstLine r stale before hpath]
  simp only [List.foldl_append, foldl_parseLine stale r.fields r.fields_ok,
    foldl_parseLine_nil stale blanks hblanks, foldl_store]
  rcases lastAgent_cases r.fields r.fields_ok with h | ⟨name, hne, h⟩
  · simp only [h, if_true, ClientRequest.received]
  · simp only [h, if_neg hne, ClientRequest.received]

/-- The reader takes the header, and leaves what follows it. -/
theorem readHeader_header (hfits : r.header.length < bufferSize) (body : CStr)
    {reads : List Fgetc} (hreads : chars reads = r.header ++ body) (hlive : .failed ∉ reads)
    (htimeouts : reads.count .again < maxStuckCounter) :
    (readHeader [] 0 reads).buff = r.header ∧
      (readHeader [] 0 reads).ended = some .complete ∧
      chars (readHeader [] 0 reads).rest = body := by
  have hframe : frame [] (r.header ++ body) = (r.header, some .complete, body) := by
    refine frame_header body (isText_firstLine r) (fun l hl => ?_) hfits
    obtain ⟨f, hf, rfl⟩ := List.mem_map.mp hl
    exact (Field.isText (r.fields_ok f hf)).1
  obtain ⟨hbuff, hended, hrest⟩ := readHeader_frame reads [] 0 hlive (by omega)
  rw [hreads, hframe] at hbuff hended hrest
  exact ⟨hbuff, hended, hrest⟩

/-- A child reads from the connection the header of a request and nothing of what follows,
whatever follows and wherever reads time out, as long as they do so less than three times in
all. What it then has in the structure is what the client meant, and what the request does not
say is as it was before, unless the empty line behind the request overwrites something. -/
theorem request_roundtrip (hpath : ¬ tok <:+: r.path) (hfits : r.header.length < bufferSize)
    (stale : Stale) (before : Request) (body : CStr) (reads : List Fgetc)
    (hreads : chars reads = r.header ++ body) (hlive : .failed ∉ reads)
    (htimeouts : reads.count .again < maxStuckCounter) :
    (readHeader [] 0 reads).ended = some .complete ∧
      chars (readHeader [] 0 reads).rest = body ∧
      parseRequest stale before (cstr ((readHeader [] 0 reads).buff ++ [nul]))
        = if EndsSafely stale r then .ok (r.received before) else .error .outOfBounds := by
  obtain ⟨hbuff, hended, hrest⟩ := readHeader_header r hfits body hreads hlive htimeouts
  refine ⟨hended, hrest, ?_⟩
  rw [hbuff, cstr_append (nul_notMem_header r), parseRequest_header r stale before hpath]

/-- A request for `/a b.txt`. -/
def sampleRequest : ClientRequest where
  method := "GET".toList
  path := "/a b.txt".toList
  query := none
  protocol := "HTTP/1.0".toList
  fields := [.agent "w3m".toList]
  method_word := by simp [InWord, nul]
  method_fits := by decide
  path_word := by simp [nul]
  path_fits := by decide
  query_word := by simp
  query_fits := by simp
  protocol_word := by simp [InWord, nul]
  protocol_fits := by decide
  fields_ok := by simp [Field.Ok, nul, userAgentLen]
  fields_fit := by decide

/-- What `fgetc` gives for it, with a timeout in front. -/
def sampleReads : List Fgetc := .again :: sampleRequest.header.map Fgetc.char

/-- Nothing in memory, and nothing in the structure. -/
def emptyStale : Stale := ⟨[], [], [], [], none, true⟩

def emptyRequest : Request := ⟨[], [], [], [], [], false, [], 0⟩

theorem request_roundtrip_at :
    (readHeader [] 0 sampleReads).ended = some .complete ∧
      chars (readHeader [] 0 sampleReads).rest = [] ∧
      parseRequest emptyStale emptyRequest (cstr ((readHeader [] 0 sampleReads).buff ++ [nul]))
        = if EndsSafely emptyStale sampleRequest then .ok (sampleRequest.received emptyRequest)
          else .error .outOfBounds :=
  request_roundtrip sampleRequest (by rw [← strstr_eq_none_iff]; decide) (by decide) emptyStale
    emptyRequest [] sampleReads (by rw [List.append_nil]; decide) (by decide) (by decide)

end LinuxNet.Httpd
