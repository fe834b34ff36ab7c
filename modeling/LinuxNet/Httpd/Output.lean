import LinuxNet.Httpd.Send
import LinuxNet.Httpd.Percent
import LinuxNet.Lib.Scanf

/-!
# The answer to a request for a file

`DHTTPD_GenMimeHead` writes the header of an answer and `dumpFile` the file
behind it, read in pieces of 1440 bytes. A header that cannot be sent is
reported and not acted upon; a piece that cannot be sent ends the answer.

Without errors that `sendChunk` does not know, what is on the connection is a
beginning of the file at every time, and the file when the loop has come to its
end (`dumpLoop_wire`); a client that goes on taking gets to that end
(`dumpLoop_progress`).

The time of day and the time of the file are printed by `strftime` and are
parameters here, and so is the byte in front of a buffer. Reading a file is
taken not to fail.
-/

namespace LinuxNet.Httpd

/-- `OUT_SOCK_BUFF_SIZE`. -/
def outSockBuffSize : Nat := 1440

/-- What `stat` says of a file: its size, and the time it was last modified as `strftime`
prints it. -/
structure Stat where
  size : Nat
  modified : CStr
  deriving DecidableEq, Repr

/-- `FULL_HEADER` and `CGI_ONLY_HEADER`. -/
inductive HeadKind where
  | full
  | cgiOnly
  deriving DecidableEq, Repr

/-- The words for a status. -/
def description (statusCode : Nat) : CStr :=
  match statusCode with
  | 200 => "OK".toList
  | 403 => "Forbidden".toList
  | 404 => "Not Found".toList
  | 500 => "Server Error".toList
  | 501 => "Not Implemeted".toList
  | _ => "no description".toList

/-- What `DHTTPD_GenMimeHead` sends; `clock` is the time of day. Without statistics, what was
printed last is appended once more: the type. -/
def genMimeHead (clock : CStr) (statusCode : Nat) (contentType : CStr) (statistics : Option Stat)
    (sentProtocol : CStr) (kind : HeadKind) : CStr :=
  -- no header for 0.9
  if sentProtocol = "HTTP/0.9".toList then []
  else
    let status := "HTTP/1.0 ".toList ++ Nat.toDigits 10 statusCode ++ [' '] ++
      description statusCode ++ ['\n']
    let outBuff := status ++ "Connection: close\n".toList ++ "Date: ".toList ++ clock ++ ['\n'] ++
      "Server: pServ/1.0\n".toList
    let typeLine := "Content-Type: ".toList ++ contentType ++ ['\n']
    match kind with
    | .cgiOnly => outBuff
    | .full =>
      match statistics with
      | some s =>
        let lengthLine := if 0 < s.size then
          "Content-length: ".toList ++ Nat.toDigits 10 s.size ++ ['\n'] else []
        outBuff ++ typeLine ++ lengthLine ++ "Last-Modified: ".toList ++ s.modified ++ ['\n', '\n']
      | none => outBuff ++ typeLine ++ typeLine ++ ['\n']

/-- A buffer with `bytes` in it, and `front` in front of it. -/
def bufferOf (front : Byte) (bytes : List Byte) : Int → Byte := fun i =>
  if i < 0 then front else bytes.getD i.toNat 0

/-- Send bytes from a buffer of their own. -/
def sendBytes (front : Byte) (bytes : List Byte) (sends : Sends) : SendRun :=
  sendChunk (bufferOf front bytes) bytes.length sends

/-- How an answer ended. -/
inductive DumpEnd where
  /-- At the end of the file. -/
  | eof
  /-- At a piece that could not be sent. -/
  | fatal
  /-- Not yet: `send` has not returned. -/
  | sending
  deriving DecidableEq, Repr

/-- What comes of an answer. -/
structure Dumped where
  ended : DumpEnd
  wire : List Byte
  sends : Sends
  deriving DecidableEq, Repr

/-- The loop of `dumpFile`, on what is left of the file; `turns` bounds it. -/
def dumpLoop (front : Byte) : Nat → List Byte → Sends → Option Dumped
  | 0, _, _ => none
  | turns + 1, file, sends =>
    let outBuff := file.take outSockBuffSize
    -- `fread` notices the end of the file when it gets less than it asked for
    let feof := file.length < outSockBuffSize
    if outBuff = [] then some ⟨.eof, [], sends⟩
    else
      let run := sendBytes front outBuff sends
      match run.ret with
      | none => some ⟨.sending, run.wire, run.sends⟩
      | some ret =>
        if ret < 0 then some ⟨.fatal, run.wire, run.sends⟩
        else if feof then some ⟨.eof, run.wire, run.sends⟩
        else
          (dumpLoop front turns (file.drop outSockBuffSize) run.sends).map fun d =>
            { d with wire := run.wire ++ d.wire }

/-- `dumpFile` on a file that can be opened: the header `head`, and the file. -/
def dumpFile (front : Byte) (head : CStr) (file : List Byte) (sends : Sends) : Option Dumped :=
  if head = [] then dumpLoop front (file.length + 1) file sends
  else
    let run := sendBytes front (bytesOf head) sends
    match run.ret with
    | none => some ⟨.sending, run.wire, run.sends⟩
    | some _ =>
      (dumpLoop front (file.length + 1) file run.sends).map fun d =>
        { d with wire := run.wire ++ d.wire }

/-! ## One piece -/

theorem span_bufferOf (front : Byte) (bytes : List Byte) :
    span (bufferOf front bytes) 0 bytes.length = bytes := by
  apply List.ext_getElem
  · exact length_span _ _ _
  · intro i h₁ h₂
    simp only [span, List.getElem_map, List.getElem_range, bufferOf, Int.zero_add]
    rw [if_neg (by omega), Int.toNat_natCast, List.getD_eq_getElem?_getD, List.getElem?_eq_getElem h₂]
    rfl

/-- What goes out for a piece: the piece, or the byte in front of it and the piece, if a call of
`send` fails with an error that `sendChunk` does not know. -/
def SentAs (front : Byte) (sends : Sends) (piece out : List Byte) : Prop :=
  out = piece ∨ .fails .other ∈ sends ∧ out = front :: piece

theorem span_front (front : Byte) (bytes : List Byte) :
    span (bufferOf front bytes) (-1) (bytes.length + 1) = front :: bytes := by
  have hrest : span (bufferOf front bytes) (-1 + 1) bytes.length = bytes :=
    span_bufferOf front bytes
  have hdrop := drop_span (bufferOf front bytes) (-1) (bytes.length + 1) 1
  rw [Nat.add_sub_cancel, Nat.cast_one, hrest] at hdrop
  rw [span, List.range_succ_eq_map, List.map_cons]
  rw [span, List.range_succ_eq_map, List.map_cons, List.drop_one, List.tail_cons] at hdrop
  rw [hdrop]
  rfl

/-- **One piece.** It is handed over by some of the answers. -/
theorem sendBytes_drain {bytes : List Byte} (front : Byte) (hne : bytes ≠ []) (sends : Sends) :
    ∃ as out, as ⊆ sends ∧ SentAs front sends bytes out ∧
      sendBytes front bytes sends = SendRun.ofDrained bytes.length (drain as out) := by
  refine ⟨counting sends, toSend (bufferOf front bytes) bytes.length sends, ?_, ?_,
    sendChunk_eq_drain _ (List.length_pos_iff.mpr hne) sends⟩
  · rw [counting]
    split
    next => exact List.tail_subset sends
    next => exact List.Subset.refl sends
  · rw [toSend]
    split
    next hhead => exact .inr ⟨List.mem_of_head? hhead, span_front front bytes⟩
    next => exact .inl (span_bufferOf front bytes)

/-- No call of `send` fails with an error that `sendChunk` does not know. -/
def Known (sends : Sends) : Prop := .fails .other ∉ sends

theorem sendBytes_eq {bytes : List Byte} (front : Byte) (hne : bytes ≠ []) {sends : Sends}
    (hknown : Known sends) :
    sendBytes front bytes sends = SendRun.ofDrained bytes.length (drain sends bytes) := by
  have hhead : sends.head? ≠ some (.fails .other) := fun h => hknown (List.mem_of_head? h)
  rw [sendBytes, sendChunk_eq_drain _ (List.length_pos_iff.mpr hne), toSend, counting,
    if_neg hhead, if_neg hhead, span_bufferOf]

/-- The answers that are left are some of those there were. -/
theorem drain_answers {β ε : Type} (as : List (Answer ε)) : ∀ todo : List β,
    (drain as todo).answers <:+ as := by
  induction as with
  | nil => intro todo; cases todo <;> exact List.suffix_rfl
  | cons a as ih =>
    intro todo
    cases todo with
    | nil => rw [drain_nil]
    | cons x xs =>
      cases a with
      | takes n => exact (ih _).trans (List.suffix_cons _ _)
      | again => exact (ih _).trans (List.suffix_cons _ _)
      | fails e => exact List.suffix_cons _ _

theorem SentAs.length_le {front : Byte} {sends : Sends} {piece out : List Byte}
    (h : SentAs front sends piece out) : piece.length ≤ out.length := by
  obtain rfl | ⟨-, rfl⟩ := h
  · exact Nat.le_refl _
  · exact Nat.le_succ _

theorem SentAs.of_subset {front : Byte} {sends sends' : Sends} {piece out : List Byte}
    (h : SentAs front sends piece out) (hsub : sends ⊆ sends') : SentAs front sends' piece out :=
  h.imp_right fun ⟨hmem, hout⟩ => ⟨hsub hmem, hout⟩

theorem Known.left {sends : Sends} (h : Known sends) (todo : List Byte) :
    Known (drain sends todo).answers := fun hm => h ((drain_answers sends todo).subset hm)

/-! ## The file -/

theorem take_ne_nil {file : List Byte} (h : file ≠ []) : file.take outSockBuffSize ≠ [] := by
  cases file with
  | nil => exact absurd rfl h
  | cons b bs => exact List.cons_ne_nil _ _

/-- Enough turns are as many as the file has bytes, and one. What goes out is a beginning of the
file, and the file itself when the loop comes to the file's end. -/
theorem dumpLoop_wire (front : Byte) (turns : Nat) : ∀ (file : List Byte) {sends : Sends},
    Known sends → file.length < turns →
    ∃ d, dumpLoop front turns file sends = some d ∧ d.wire <+: file ∧
      (d.ended = .eof → d.wire = file) := by
  induction turns with
  | zero => intro file sends _ h; exact absurd h (Nat.not_lt_zero _)
  | succ turns ih =>
    intro file sends hknown hturns
    rw [dumpLoop]
    by_cases hnil : file = []
    · subst hnil
      exact ⟨_, rfl, List.prefix_rfl, fun _ => rfl⟩
    · have hne := take_ne_nil hnil
      have hcons := drain_conserves sends (file.take outSockBuffSize)
      simp only [if_neg hne]
      rw [sendBytes_eq front hne hknown]
      by_cases hleft : (drain sends (file.take outSockBuffSize)).left = []
      · -- the piece has gone out
        rw [hleft, List.append_nil] at hcons
        simp only [SendRun.ofDrained, if_pos hleft, hcons]
        rw [if_neg (by omega)]
        split
        next hfeof =>
          refine ⟨_, rfl, List.take_prefix _ _, fun _ => List.take_of_length_le ?_⟩
          exact Nat.le_of_lt hfeof
        next hfeof =>
          obtain ⟨d, hd, hpre, heof⟩ := ih (file.drop outSockBuffSize)
            (hknown.left (file.take outSockBuffSize))
            (by rw [List.length_drop]; unfold outSockBuffSize at hfeof ⊢; omega)
          rw [hd]
          refine ⟨_, rfl, ?_, fun he => ?_⟩
          · have := (List.prefix_append_right_inj (file.take outSockBuffSize)).mpr hpre
            rwa [List.take_append_drop] at this
          · show file.take outSockBuffSize ++ d.wire = file
            rw [heof he, List.take_append_drop]
      · have hpre : (drain sends (file.take outSockBuffSize)).moved <+: file := by
          have : (drain sends (file.take outSockBuffSize)).moved <+: file.take outSockBuffSize :=
            ⟨_, hcons⟩
          exact this.trans (List.take_prefix _ _)
        simp only [SendRun.ofDrained, if_neg hleft]
        cases (drain sends (file.take outSockBuffSize)).failure with
        | none => exact ⟨_, rfl, hpre, fun h => by cases h⟩
        | some e => exact ⟨_, rfl, hpre, fun h => by cases h⟩

/-- A client that goes on taking gets to the end of the file. -/
theorem dumpLoop_progress (front : Byte) (turns : Nat) : ∀ (file : List Byte) {sends : Sends},
    (∀ e, .fails e ∉ sends) → file.length ≤ progress sends → file.length < turns →
    ∃ d, dumpLoop front turns file sends = some d ∧ d.ended = .eof := by
  induction turns with
  | zero => intro file sends _ _ h; exact absurd h (Nat.not_lt_zero _)
  | succ turns ih =>
    intro file sends hfails hprog hturns
    rw [dumpLoop]
    by_cases hnil : file = []
    · subst hnil
      exact ⟨_, rfl, rfl⟩
    · have hne := take_ne_nil hnil
      have hlen : (file.take outSockBuffSize).length = min outSockBuffSize file.length :=
        List.length_take
      obtain ⟨hleft, hcost, hrest⟩ := drain_progress sends (file.take outSockBuffSize) hfails
        (by rw [hlen]; omega)
      simp only [if_neg hne]
      rw [sendBytes_eq front hne (hfails .other)]
      simp only [SendRun.ofDrained, if_pos hleft]
      rw [if_neg (by omega)]
      split
      next => exact ⟨_, rfl, rfl⟩
      next hfeof =>
        have hdrop : (file.drop outSockBuffSize).length = file.length - outSockBuffSize :=
          List.length_drop
        have hsize : 0 < outSockBuffSize := by decide
        obtain ⟨d, hd, heof⟩ := ih (file.drop outSockBuffSize) hrest
          (by rw [hdrop]; rw [hlen] at hcost; omega) (by rw [hdrop]; omega)
        rw [hd]
        exact ⟨_, rfl, heof⟩

/-- The header and the file go out, whatever `send` takes at a time and however often it times
out, as long as it does not fail and takes something often enough. -/
theorem dumpFile_complete (front : Byte) (head : CStr) (file : List Byte) {sends : Sends}
    (hfails : ∀ e, .fails e ∉ sends) (hprog : head.length + file.length ≤ progress sends) :
    ∃ rest, dumpFile front head file sends = some ⟨.eof, bytesOf head ++ file, rest⟩ := by
  have hfile : ∀ {s : Sends}, (∀ e, .fails e ∉ s) → file.length ≤ progress s →
      ∃ rest, dumpLoop front (file.length + 1) file s = some ⟨.eof, file, rest⟩ := by
    intro s hs hp
    obtain ⟨d, hd, heof⟩ := dumpLoop_progress front (file.length + 1) file hs hp (Nat.lt_succ_self _)
    obtain ⟨d', hd', -, hwire⟩ := dumpLoop_wire front (file.length + 1) file (hs .other)
      (Nat.lt_succ_self _)
    cases hd.symm.trans hd'
    refine ⟨d.sends, ?_⟩
    rw [hd, ← heof]
    congr 1
    have := hwire heof
    cases d
    simp only at this ⊢
    rw [this]
  rw [dumpFile]
  split
  next hnil =>
    rw [hnil]
    exact hfile hfails (by omega)
  next hne =>
    have hbytes : bytesOf head ≠ [] := fun h => hne (List.map_eq_nil_iff.mp h)
    have hlen : (bytesOf head).length = head.length := List.length_map _
    obtain ⟨hleft, hcost, hrest⟩ := drain_progress sends (bytesOf head) hfails (by omega)
    have hcons := drain_conserves sends (bytesOf head)
    rw [hleft, List.append_nil] at hcons
    obtain ⟨rest, hd⟩ := hfile hrest (by omega)
    rw [sendBytes_eq front hbytes (hfails .other)]
    simp only [SendRun.ofDrained, if_pos hleft, hcons, hd]
    exact ⟨rest, rfl⟩

end LinuxNet.Httpd
