import LinuxNet.Httpd.RoundTrip
import LinuxNet.Httpd.Depth
import LinuxNet.Httpd.Mime
import LinuxNet.Httpd.Output
import LinuxNet.Lib.Except

/-!
# What a request is answered with

`DHTTPD_HandleMethod` takes a request to one of a few actions: an error page, a
script, a file, the header of a file, an index. What it looks up in the file
system is in `Files`; how scripts and posted data are handled is in `Cgi` and
`Post`.

What is opened for an address with a leading slash that does not climb lies below
the root, with one exception: the default file for a root that cannot be listed is
looked for beside it (`opened_below_root`). Without the slash the address leads to
directories beside the root (`opened_beside_root`).

A name in the address that a slash follows is a directory. For an address with a
leading slash, `GET` never opens a file in a directory `cgi-bin`
(`handleMethod_script`), which is where the scripts are; `HEAD` does, as it does
not search the address. From the characters on the connection to the bytes of the
answer, a `GET` of a plain file gets the header and the file
(`get_answers_file`).
-/

namespace LinuxNet.Httpd

/-- `CGI_MATCH_STRING`. -/
def cgiMatchString : CStr := "/cgi-bin/".toList

/-- `POST_BUFFER_SIZE`. -/
def postBufferSize : Nat := maxPathLen + maxQueryStringLen

/-- The internal error types that are answered with a page. -/
inductive HttpError where
  | inputLineTooLong
  | unhandledMethod
  | notFound
  | forbidden
  | bufferOverflow
  | lengthRequired
  deriving DecidableEq, Repr

/-- What the server does about a request. -/
inductive Action where
  /-- `DHTTPD_HandleErrors`, with the path for the page. -/
  | error (err : HttpError) (path : CStr)
  /-- `cgiHandler`. -/
  | cgi
  /-- The data of a `POST` are read, and `cgiHandler` is called with them. -/
  | post (contentLength : Nat)
  /-- `dumpFile`. -/
  | file (filePath mimeType : CStr)
  /-- `dumpHeader`. -/
  | header (filePath mimeType : CStr)
  /-- `generateIndex` has answered. -/
  | index (dirPath : CStr)
  deriving DecidableEq, Repr

/-- What the server finds in the file system. -/
structure Files where
  /-- `S_IFDIR` is set in the mode `stat` gives, or, for a path without a file, in what was in the
  structure before. -/
  isDir : CStr → Bool
  /-- `stat` finds the file, or may not look. -/
  indexExists : CStr → Bool
  /-- `opendir` succeeds. -/
  canOpenDir : CStr → Bool

/-- The parameters of the server. -/
structure Server where
  homePath : CStr
  defaultFileName : CStr
  mimeArray : List MimeData

/-- `generateIndex`: `none` when it has answered itself, else the path it leaves. A directory that
cannot be opened has lost its slash by then. `indexFilePath` has room for `MAX_PATH_LEN`
characters. -/
def generateIndex (S : Server) (fs : Files) (dirPath : CStr) : Except Fault (Option CStr) :=
  if maxPathLen < (dirPath ++ S.defaultFileName).length then .error .outOfBounds
  else if fs.indexExists (dirPath ++ S.defaultFileName) then .ok (some dirPath)
  else if fs.canOpenDir dirPath.dropLast then .ok none
  else .ok (some dirPath.dropLast)

/-- The branch of `DHTTPD_HandleMethod` for `GET`. -/
def handleGet (S : Server) (fs : Files) (documentAddress : CStr) : Except Fault Action :=
  if strncmp0 documentAddress cgiMatchString cgiMatchString.length then .ok .cgi
  else if (strstr cgiMatchString documentAddress).isSome then
    .ok (.error .forbidden documentAddress)
  else
    let completeFilePath := S.homePath ++ documentAddress
    if fs.isDir completeFilePath then
      if completeFilePath.getLast? ≠ some '/' then .ok (.error .notFound documentAddress)
      else
        match generateIndex S fs completeFilePath with
        | .error e => .error e
        | .ok none => .ok (.index completeFilePath)
        | .ok (some path) =>
          (analyzeExtension S.mimeArray (path ++ S.defaultFileName)).map
            (.file (path ++ S.defaultFileName))
    else (analyzeExtension S.mimeArray completeFilePath).map (.file completeFilePath)

/-- The branch for `HEAD`: scripts are not searched for. -/
def handleHead (S : Server) (fs : Files) (documentAddress : CStr) : Except Fault Action :=
  if strncmp0 documentAddress cgiMatchString cgiMatchString.length then .ok .cgi
  else
    let completeFilePath := S.homePath ++ documentAddress
    if fs.isDir completeFilePath then
      if completeFilePath.getLast? ≠ some '/' then .ok (.error .notFound documentAddress)
      else
        (analyzeExtension S.mimeArray (completeFilePath ++ S.defaultFileName)).map
          (.header (completeFilePath ++ S.defaultFileName))
    else (analyzeExtension S.mimeArray completeFilePath).map (.header completeFilePath)

/-- The branch for `POST`. -/
def handlePost (req : Request) : Action :=
  if !strncmp0 req.documentAddress cgiMatchString cgiMatchString.length then
    .error .unhandledMethod []
  else if req.contentLength < 0 then .error .lengthRequired []
  else if req.contentLength ≥ postBufferSize then .error .bufferOverflow []
  else .post req.contentLength.toNat

/-- `DHTTPD_HandleMethod`. -/
def handleMethod (S : Server) (fs : Files) (req : Request) : Except Fault Action :=
  if outOfRoot req.documentAddress then .ok (.error .forbidden req.documentAddress)
  else if req.method = "GET".toList then handleGet S fs req.documentAddress
  else if req.method = "HEAD".toList then handleHead S fs req.documentAddress
  else if req.method = "POST".toList then .ok (handlePost req)
  else .ok (.error .unhandledMethod req.documentAddress)

/-- A child, from what `fgetc` gives to what it does, in order; `none` while it is still reading.
`behind` is what the buffer holds behind the characters read. A header that fills the buffer is
answered, and handled then as far as it was read; so is one the client broke off. -/
def child (S : Server) (fs : Files) (stale : Stale) (before : Request) (behind : List Char)
    (reads : List Fgetc) : Option (Except Fault (List Action)) :=
  let h := readHeader [] 0 reads
  match h.ended with
  | none => none
  | some e =>
    let first := if e = .tooLong then [Action.error .inputLineTooLong []] else []
    -- a complete header is given its NUL; the last place of the buffer is given one in any case
    let buff := if e = .complete then h.buff ++ [nul] else (h.buff ++ behind).take bufferSize
    if h.buff = [] then some (.ok first)
    else if h.buff.getLast? ≠ some '\n' ∧ "POST\x00".toList <+: buff then
      some (.ok (first ++ [.error .inputLineTooLong []]))
    else
      some (match parseRequest stale before (cstr buff) with
        | .error e => .error e
        | .ok req => (handleMethod S fs req).map fun a => first ++ [a])

/-! ## What is opened -/

/-- The path is the address in the root, with the default name behind a directory. -/
def OpenedAt (S : Server) (doc path : CStr) : Prop :=
  path = S.homePath ++ doc ∨
    ∃ dir, S.homePath ++ doc = dir ++ ['/'] ∧ path = dir ++ '/' :: S.defaultFileName

/-- The default name is behind a directory that cannot be opened and has lost its slash. -/
def OpenedGlued (S : Server) (fs : Files) (doc path : CStr) : Prop :=
  ∃ dir, S.homePath ++ doc = dir ++ ['/'] ∧ fs.canOpenDir dir = false ∧
    path = dir ++ S.defaultFileName

/-- What `generateIndex` leaves of a directory it does not answer for. -/
theorem generateIndex_some {S : Server} {fs : Files} {dirPath path : CStr}
    (h : generateIndex S fs dirPath = .ok (some path)) :
    path = dirPath ∨ fs.canOpenDir dirPath.dropLast = false ∧ path = dirPath.dropLast := by
  rw [generateIndex] at h
  split at h
  next => cases h
  next =>
    split at h
    next =>
      cases h
      exact .inl rfl
    next =>
      split at h
      next => cases h
      next hopen =>
        cases h
        exact .inr ⟨Bool.not_eq_true _ ▸ hopen, rfl⟩

/-- A path that ends in a slash, and the default name behind it. -/
theorem openedAt_dir {S : Server} {doc : CStr} (h : (S.homePath ++ doc).getLast? = some '/') :
    OpenedAt S doc (S.homePath ++ doc ++ S.defaultFileName) := by
  refine .inr ⟨_, (List.dropLast_append_getLast? '/' h).symm, ?_⟩
  conv_lhs => rw [← List.dropLast_append_getLast? '/' h]
  rw [List.append_assoc]
  rfl

/-- A file is only served for an address without `/cgi-bin/` in it. -/
theorem handleGet_file {S : Server} {fs : Files} {doc path type : CStr}
    (h : handleGet S fs doc = .ok (.file path type)) :
    ¬ cgiMatchString <:+: doc ∧ (OpenedAt S doc path ∨ OpenedGlued S fs doc path) := by
  rw [handleGet] at h
  split at h
  next => cases h
  next =>
    split at h
    next => cases h
    next hno =>
      have hstr : strstr cgiMatchString doc = none := by
        cases hs : strstr cgiMatchString doc with
        | none => rfl
        | some p => exact absurd (by rw [hs]; rfl) hno
      refine ⟨strstr_eq_none_iff.mp hstr, ?_⟩
      simp only at h
      split at h
      next =>
        split at h
        next => cases h
        next hslash =>
          have hend := not_not.mp hslash
          split at h
          next => cases h
          next => cases h
          next p hp =>
            obtain ⟨type', -, ht⟩ := map_eq_ok.mp h
            cases ht
            rcases generateIndex_some hp with rfl | ⟨hopen, rfl⟩
            · exact .inl (openedAt_dir hend)
            · exact .inr ⟨_, (List.dropLast_append_getLast? '/' hend).symm, hopen, rfl⟩
      next =>
        obtain ⟨type', -, ht⟩ := map_eq_ok.mp h
        cases ht
        exact .inl (.inl rfl)

/-- `GET` does not print headers alone. -/
theorem handleGet_header {S : Server} {fs : Files} {doc path type : CStr} :
    handleGet S fs doc ≠ .ok (.header path type) := by
  intro h
  rw [handleGet] at h
  split at h
  next => cases h
  next =>
    split at h
    next => cases h
    next =>
      simp only at h
      split at h
      next =>
        split at h
        next => cases h
        next =>
          split at h
          next => cases h
          next => cases h
          next =>
            obtain ⟨_, -, ht⟩ := map_eq_ok.mp h
            cases ht
      next =>
        obtain ⟨_, -, ht⟩ := map_eq_ok.mp h
        cases ht

/-- `HEAD` opens files for their headers alone. -/
theorem handleHead_opens {S : Server} {fs : Files} {doc path type : CStr} :
    handleHead S fs doc ≠ .ok (.file path type) ∧
      (handleHead S fs doc = .ok (.header path type) → OpenedAt S doc path) := by
  rw [handleHead]
  split
  next => exact ⟨fun h => (by cases h), fun h => (by cases h)⟩
  next =>
    simp only
    split
    next =>
      split
      next => exact ⟨fun h => (by cases h), fun h => (by cases h)⟩
      next hslash =>
        refine ⟨fun h => ?_, fun h => ?_⟩
        · obtain ⟨_, -, ht⟩ := map_eq_ok.mp h
          cases ht
        · obtain ⟨_, -, ht⟩ := map_eq_ok.mp h
          cases ht
          exact openedAt_dir (not_not.mp hslash)
    next =>
      refine ⟨fun h => ?_, fun h => ?_⟩
      · obtain ⟨_, -, ht⟩ := map_eq_ok.mp h
        cases ht
      · obtain ⟨_, -, ht⟩ := map_eq_ok.mp h
        cases ht
        exact .inl rfl

/-- `POST` opens no file. -/
theorem handlePost_opens {req : Request} {path type : CStr} :
    handlePost req ≠ .file path type ∧ handlePost req ≠ .header path type := by
  rw [handlePost]
  split
  next => exact ⟨fun h => (by cases h), fun h => (by cases h)⟩
  next =>
    split
    next => exact ⟨fun h => (by cases h), fun h => (by cases h)⟩
    next => split <;> exact ⟨fun h => (by cases h), fun h => (by cases h)⟩

/-- The branch that has decided to open a file. -/
theorem handleMethod_file {S : Server} {fs : Files} {req : Request} {path type : CStr}
    (h : handleMethod S fs req = .ok (.file path type)) :
    req.method = "GET".toList ∧ handleGet S fs req.documentAddress = .ok (.file path type) := by
  rw [handleMethod] at h
  split at h
  next => cases h
  next =>
    split at h
    next hget => exact ⟨hget, h⟩
    next =>
      split at h
      next => exact absurd h handleHead_opens.1
      next =>
        split at h
        next => exact absurd (Except.ok.inj h) handlePost_opens.1
        next => cases h

theorem handleMethod_header {S : Server} {fs : Files} {req : Request} {path type : CStr}
    (h : handleMethod S fs req = .ok (.header path type)) :
    OpenedAt S req.documentAddress path := by
  rw [handleMethod] at h
  split at h
  next => cases h
  next =>
    split at h
    next => exact absurd h handleGet_header
    next =>
      split at h
      next => exact handleHead_opens.2 h
      next =>
        split at h
        next => exact absurd (Except.ok.inj h) handlePost_opens.2
        next => cases h

/-- A plain file at an address that is none of a script. -/
theorem handleGet_plain {S : Server} {fs : Files} {doc type : CStr}
    (hscript : ¬ cgiMatchString <:+: doc) (hplain : fs.isDir (S.homePath ++ doc) = false)
    (htype : analyzeExtension S.mimeArray (S.homePath ++ doc) = .ok type) :
    handleGet S fs doc = .ok (.file (S.homePath ++ doc) type) := by
  have hprefix : strncmp0 doc cgiMatchString cgiMatchString.length = false :=
    strncmp0_neg fun h => hscript h.isInfix
  have hstr : strstr cgiMatchString doc = none := strstr_eq_none_iff.mpr hscript
  rw [handleGet, hprefix, if_neg Bool.false_ne_true, hstr]
  simp only [Option.isSome_none, Bool.false_eq_true, if_false, hplain, htype]
  rfl

/-- What the server opens for a request: a file, or one for its header. -/
def Opens (S : Server) (fs : Files) (req : Request) (path : CStr) : Prop :=
  ∃ type, handleMethod S fs req = .ok (.file path type) ∨
    handleMethod S fs req = .ok (.header path type)

theorem Opens.openedAt {S : Server} {fs : Files} {req : Request} {path : CStr}
    (h : Opens S fs req path) : OpenedAt S req.documentAddress path ∨
      req.method = "GET".toList ∧ OpenedGlued S fs req.documentAddress path := by
  obtain ⟨type, h | h⟩ := h
  · obtain ⟨hget, h⟩ := handleMethod_file h
    exact (handleGet_file h).2.imp_right fun hglued => ⟨hget, hglued⟩
  · exact .inl (handleMethod_header h)

/-! ## Below the root -/

section BelowRoot

variable {S : Server} {fs : Files} {dir : List CStr} {rest path : CStr}

/-- The default file of a directory that an address leads to, or the file whose name goes on with
it, lies below the root too. -/
theorem below_of_name (hhome : resolve [] (names S.homePath) = some dir)
    (hdefault : '/' ∉ S.defaultFileName ∧ ∃ c ∈ S.defaultFileName, c ≠ '.')
    (hstay : ¬ Climbs (names rest)) :
    ∃ t, resolve [] (names (S.homePath ++ '/' :: (rest ++ S.defaultFileName)))
      = some (t ++ dir) := by
  obtain ⟨dirs, last, hrest, hname⟩ := names_append_name rest hdefault.1
  rw [names_append, resolve_append, hhome, hname]
  rw [hrest] at hstay
  refine resolve_below (not_climbs_concat (not_climbs_left hstay) ?_) dir
  rw [descent_append hdefault.2]
  decide

theorem openedAt_below (hhome : resolve [] (names S.homePath) = some dir)
    (hdefault : '/' ∉ S.defaultFileName ∧ ∃ c ∈ S.defaultFileName, c ≠ '.')
    (hstay : ¬ Climbs (names rest)) (h : OpenedAt S ('/' :: rest) path) :
    ∃ t, resolve [] (names path) = some (t ++ dir) := by
  rcases h with rfl | ⟨d, hd, rfl⟩
  · rw [names_append, resolve_append, hhome]
    exact resolve_below hstay dir
  · have hpath : d ++ '/' :: S.defaultFileName
        = S.homePath ++ '/' :: (rest ++ S.defaultFileName) := by
      rw [← List.singleton_append, ← List.append_assoc, ← hd, List.append_assoc, List.cons_append]
    rw [hpath]
    exact below_of_name hhome hdefault hstay

/-- A directory that has lost its slash is the root, or one below it. -/
theorem openedGlued_below (hhome : resolve [] (names S.homePath) = some dir)
    (hdefault : '/' ∉ S.defaultFileName ∧ ∃ c ∈ S.defaultFileName, c ≠ '.')
    (hstay : ¬ Climbs (names rest)) (h : OpenedGlued S fs ('/' :: rest) path) :
    (∃ t, resolve [] (names path) = some (t ++ dir)) ∨
      rest = [] ∧ fs.canOpenDir S.homePath = false ∧ path = S.homePath ++ S.defaultFileName := by
  obtain ⟨d, hd, hopen, rfl⟩ := h
  rcases List.eq_nil_or_concat rest with rfl | ⟨front, c, hrest⟩
  · obtain rfl : S.homePath = d := (List.append_inj' hd rfl).1
    exact .inr ⟨rfl, hopen, rfl⟩
  · rw [List.concat_eq_append] at hrest
    subst hrest
    rw [← List.cons_append, ← List.append_assoc] at hd
    obtain ⟨hfront, hc⟩ := List.append_inj' hd rfl
    cases hc
    rw [names_append] at hstay
    rw [← hfront, List.append_assoc, List.cons_append]
    exact .inl (below_of_name hhome hdefault (not_climbs_left hstay))

end BelowRoot

/-- A server without a table of types, and files that are all plain. -/
def sampleServer : Server := ⟨"/srv".toList, "index.html".toList, []⟩

def plainFiles : Files := ⟨fun _ => false, fun _ => false, fun _ => false⟩

/-- A root that cannot be listed. -/
def closedRoot : Files := ⟨fun path => path = "/srv/".toList, fun _ => false, fun _ => false⟩

/-- The request of a client that wants an address. -/
def getOf (doc : CStr) : Request :=
  { emptyRequest with method := "GET".toList, documentAddress := doc }

/-- The default file of a root that cannot be listed is looked for beside it. -/
example : handleMethod sampleServer closedRoot (getOf "/".toList)
    = .ok (.file "/srvindex.html".toList (lookupType [] "html".toList)) := rfl

/-! ## Beside the root -/

/-- A plain file below a directory whose name goes on from the root's name is opened: its address,
given without a leading slash, leads there, unless what it goes on with is one character and then
one dot or two. -/
theorem opened_beside_root {S : Server} {fs : Files} {base last : CStr} {dir : List CStr} {c : Char}
    {cs rest type : CStr} (hhome : S.homePath = base ++ '/' :: last)
    (hbase : resolve [] (names base) = some dir) (hlast : '/' ∉ last) (hcs : '/' ∉ c :: cs)
    (hdots : cs ≠ ['.'] ∧ cs ≠ ['.', '.']) (hname : descent (last ++ c :: cs) = 1)
    (hstay : ¬ Climbs (names rest)) {req : Request} (hget : req.method = "GET".toList)
    (hdoc : req.documentAddress = c :: (cs ++ '/' :: rest))
    (hscript : ¬ cgiMatchString <:+: req.documentAddress)
    (hplain : fs.isDir (S.homePath ++ req.documentAddress) = false)
    (htype : analyzeExtension S.mimeArray (S.homePath ++ req.documentAddress) = .ok type) :
    handleMethod S fs req = .ok (.file (S.homePath ++ req.documentAddress) type) ∧
      ∃ t, resolve [] (names (S.homePath ++ req.documentAddress))
        = some (t ++ (last ++ c :: cs) :: dir) := by
  obtain ⟨hin, hthere⟩ := outOfRoot_sibling hbase hlast hcs hdots hname hstay
  refine ⟨?_, by rw [hhome, hdoc]; exact hthere⟩
  rw [handleMethod, hdoc, hin, if_neg Bool.false_ne_true, if_pos hget, ← hdoc]
  exact handleGet_plain hscript hplain htype

theorem opened_beside_root_at :
    handleMethod ⟨"/srv/www".toList, "index.html".toList, []⟩ plainFiles (getOf "-old/a".toList)
        = .ok (.file "/srv/www-old/a".toList mimeTypeDefault) ∧
      ∃ t, resolve [] (names "/srv/www-old/a".toList)
        = some (t ++ "www-old".toList :: ["srv".toList]) :=
  @opened_beside_root ⟨"/srv/www".toList, "index.html".toList, []⟩ plainFiles "/srv".toList
    "www".toList ["srv".toList] '-' "old".toList "a".toList mimeTypeDefault rfl (by decide)
    (by decide) (by decide) (by decide) (by decide)
    (not_climbs_singleton (by decide) : ¬ Climbs ["a".toList]) (getOf "-old/a".toList) rfl rfl
    (by rw [← strstr_eq_none_iff]; decide) rfl rfl

/-! ## Scripts -/

/-- A directory on the way is seen by a search for its name between slashes. -/
theorem name_within (name : CStr) (before : List CStr) : ∀ {after : List CStr}, after ≠ [] →
    '/' :: (name ++ ['/']) <:+: '/' :: ['/'].intercalate (before ++ name :: after) := by
  induction before with
  | nil =>
    intro after hne
    refine ⟨[], ['/'].intercalate after, ?_⟩
    rw [List.nil_append, List.nil_append, List.intercalate_cons_of_ne_nil hne]
    simp
  | cons x before ih =>
    intro after hne
    have hne' : before ++ name :: after ≠ [] :=
      List.append_ne_nil_of_right_ne_nil _ (List.cons_ne_nil _ _)
    rw [List.cons_append, List.intercalate_cons_of_ne_nil hne', List.append_assoc,
      List.singleton_append]
    exact (ih hne).trans (List.suffix_append ('/' :: x) _).isInfix

/-- A search for `/cgi-bin/` finds it in every address with a leading slash in which `cgi-bin` is
the name of a directory. -/
theorem cgi_within {rest : CStr} (h : "cgi-bin".toList ∈ (names rest).dropLast) :
    cgiMatchString <:+: '/' :: rest := by
  have hne := names_ne_nil rest
  obtain ⟨before, after, hsplit⟩ := List.append_of_mem h
  have hnames : names rest
      = before ++ "cgi-bin".toList :: (after ++ [(names rest).getLast hne]) := by
    rw [← List.cons_append, ← List.append_assoc, ← hsplit, List.dropLast_append_getLast]
  have hrest : ['/'].intercalate (names rest) = rest := List.intercalate_splitOn '/'
  have := name_within "cgi-bin".toList before
    (List.append_ne_nil_of_right_ne_nil after (List.cons_ne_nil ((names rest).getLast hne) []))
  rw [← hnames, hrest] at this
  exact this

theorem dirs_append_names (a rest : CStr) :
    (names (a ++ '/' :: rest)).dropLast = names a ++ (names rest).dropLast := by
  rw [names_append, List.dropLast_append_of_ne_nil (names_ne_nil rest)]

/-- No script is served as a file: on the way from the root of the documents to a file that is
opened for an address with a leading slash, no directory is called `cgi-bin`. (When the root
itself cannot be opened, the file is one beside it.) -/
theorem handleMethod_script {S : Server} {fs : Files} {req : Request} {path type rest : CStr}
    (hdefault : '/' ∉ S.defaultFileName) (hdoc : req.documentAddress = '/' :: rest)
    (h : handleMethod S fs req = .ok (.file path type)) :
    ∃ dirs, "cgi-bin".toList ∉ dirs ∧
      ((names path).dropLast = names S.homePath ++ dirs ∨
        (names path).dropLast = (names S.homePath).dropLast) := by
  obtain ⟨hno, hpath⟩ := handleGet_file (hdoc ▸ (handleMethod_file h).2)
  have hdirs : "cgi-bin".toList ∉ (names rest).dropLast := fun hm => hno (cgi_within hm)
  rcases hpath with (rfl | ⟨dir, hdir, rfl⟩) | ⟨dir, hdir, -, rfl⟩
  · exact ⟨_, hdirs, .inl (dirs_append_names _ _)⟩
  · refine ⟨_, hdirs, .inl ?_⟩
    rw [← List.singleton_append, ← List.append_assoc, ← hdir, names_dropLast_append _ hdefault,
      dirs_append_names]
  · rcases List.eq_nil_or_concat rest with hnil | ⟨front, c, hrest⟩
    · -- the root itself has lost its slash
      rw [hnil] at hdir
      have hroot : S.homePath = dir := (List.append_inj' hdir rfl).1
      refine ⟨[], List.not_mem_nil, .inr ?_⟩
      rw [names_dropLast_append _ hdefault, hroot]
    · rw [List.concat_eq_append] at hrest
      rw [hrest, ← List.cons_append, ← List.append_assoc] at hdir
      obtain ⟨hfront, hc⟩ := List.append_inj' hdir rfl
      cases hc
      have hlonger : (names rest).dropLast = names front := by
        rw [hrest, names_append]
        exact List.dropLast_concat
      refine ⟨(names front).dropLast, fun hm => hdirs ?_, .inl ?_⟩
      · rw [hlonger]
        exact List.mem_of_mem_dropLast hm
      · rw [names_dropLast_append _ hdefault, ← hfront, dirs_append_names]

theorem handleMethod_script_at : ∃ dirs, "cgi-bin".toList ∉ dirs ∧
    ((names ("/srv".toList ++ "/a b.txt".toList)).dropLast
        = names sampleServer.homePath ++ dirs ∨
      (names ("/srv".toList ++ "/a b.txt".toList)).dropLast
        = (names sampleServer.homePath).dropLast) :=
  handleMethod_script (S := sampleServer) (by decide)
    (show (sampleRequest.received emptyRequest).documentAddress = '/' :: "a b.txt".toList from rfl)
    (show handleMethod sampleServer plainFiles (sampleRequest.received emptyRequest)
      = .ok (.file ("/srv".toList ++ "/a b.txt".toList) (lookupType [] "txt".toList)) from rfl)

/-- A script that `GET` does not serve is served by `HEAD`, its header at least. -/
example : handleHead sampleServer plainFiles "/a/../cgi-bin/b".toList
    = .ok (.header "/srv/a/../cgi-bin/b".toList mimeTypeDefault) := rfl

/-! ## A file -/

/-- What a child does with a complete header. -/
theorem child_complete (S : Server) (fs : Files) (stale : Stale) (before : Request)
    (behind : List Char) {reads : List Fgetc} {req : Request}
    (hended : (readHeader [] 0 reads).ended = some .complete)
    (hlast : (readHeader [] 0 reads).buff.getLast? = some '\n')
    (hparse : parseRequest stale before (cstr ((readHeader [] 0 reads).buff ++ [nul])) = .ok req) :
    child S fs stale before behind reads
      = some ((handleMethod S fs req).map fun a => [a]) := by
  have hne : (readHeader [] 0 reads).buff ≠ [] := by
    intro h
    rw [h] at hlast
    cases hlast
  rw [child]
  simp only [hended, if_true, hlast, ne_eq, not_true_eq_false, false_and, if_false, hne, hparse]
  rfl

/-- From the characters on the connection to the bytes of the answer: a `GET` of a plain file, at
an address that does not climb above the root and is none of a script, is answered with a header
and the file, wherever reads time out less than three times in all, whatever `send` takes at a
time, and whatever memory held before, as long as the empty line behind the request overwrites
nothing. -/
theorem get_answers_file (r : ClientRequest) {rest type : CStr} (S : Server) (fs : Files)
    (hget : r.method = "GET".toList) (hdoc : r.path = '/' :: rest) (hstay : ¬ Climbs (names rest))
    (hescape : ¬ tok <:+: r.path) (hscript : ¬ cgiMatchString <:+: r.path)
    (hplain : fs.isDir (S.homePath ++ r.path) = false)
    (htype : analyzeExtension S.mimeArray (S.homePath ++ r.path) = .ok type)
    {stale : Stale} (hsafe : EndsSafely stale r) (before : Request) (behind : List Char)
    (body : CStr) {reads : List Fgetc}
    (hfits : r.header.length < bufferSize) (hreads : chars reads = r.header ++ body)
    (hlive : .failed ∉ reads) (htimeouts : reads.count .again < maxStuckCounter)
    (front : Byte) (clock modified : CStr) (file : List Byte) {sends : Sends}
    (hfails : ∀ e, .fails e ∉ sends)
    (hprog : (genMimeHead clock 200 type (some ⟨file.length, modified⟩) r.protocol .full).length
      + file.length ≤ progress sends) :
    child S fs stale before behind reads
        = some (.ok [.file (S.homePath ++ r.path) type]) ∧
      ∃ left, dumpFile front
          (genMimeHead clock 200 type (some ⟨file.length, modified⟩) r.protocol .full) file sends
        = some ⟨.eof, bytesOf
            (genMimeHead clock 200 type (some ⟨file.length, modified⟩) r.protocol .full) ++ file,
            left⟩ := by
  refine ⟨?_, dumpFile_complete front _ file hfails hprog⟩
  obtain ⟨hbuff, hended, -⟩ := readHeader_header r hfits body hreads hlive htimeouts
  have hlast : r.header.getLast? = some '\n' := List.getLast?_append_of_ne_nil _ (by decide)
  have hparse : parseRequest stale before (cstr ((readHeader [] 0 reads).buff ++ [nul]))
      = .ok (r.received before) := by
    rw [hbuff, cstr_append (nul_notMem_header r), parseRequest_header r stale before hescape,
      if_pos hsafe]
  rw [child_complete S fs stale before behind hended (hbuff ▸ hlast) hparse, handleMethod]
  show some ((if outOfRoot r.path then _ else if r.method = "GET".toList then
    handleGet S fs r.path else _ : Except Fault Action).map _) = _
  rw [hdoc, not_outOfRoot hstay, if_neg Bool.false_ne_true, ← hdoc, if_pos hget,
    handleGet_plain hscript hplain htype]
  rfl

/-- The header in front of a file of two bytes. -/
def sampleHead : CStr :=
  genMimeHead [] 200 mimeTypeDefault (some ⟨[104#8, 105#8].length, []⟩) "HTTP/1.0".toList .full

set_option maxRecDepth 4000 in
theorem get_answers_file_at :
    child sampleServer plainFiles emptyStale emptyRequest [] sampleReads
        = some (.ok [.file ("/srv".toList ++ "/a b.txt".toList) mimeTypeDefault]) ∧
      ∃ left, dumpFile 0#8 sampleHead [104#8, 105#8] (List.replicate 200 (.takes 1))
        = some ⟨.eof, bytesOf sampleHead ++ [104#8, 105#8], left⟩ :=
  get_answers_file sampleRequest sampleServer plainFiles (by decide) rfl
    (not_climbs_singleton (by decide) : ¬ Climbs ["a b.txt".toList])
    (by rw [← strstr_eq_none_iff]; decide) (by rw [← strstr_eq_none_iff]; decide) rfl rfl
    (.inl rfl) emptyRequest [] [] (by decide) (by rw [List.append_nil]; decide) (by decide)
    (by decide) 0#8 [] [] [104#8, 105#8]
    (fun e he => by cases List.eq_of_mem_replicate he) (by decide)

end LinuxNet.Httpd
