import LinuxNet.Httpd.Handlers

/-!
# Scripts

`cgiHandler` runs the script that the address names below `cgiroot`. A query
string without `=` is cut at its plus signs into the arguments of the script; the
search for `=` does not look at the first character. The arguments are stored in
17 strings of 256 characters, of which the first is the script's name and the
last must be left for the NULL at the end.

What the script prints goes to the client as it comes, piece by piece, behind a
header without a type.
-/

namespace LinuxNet.Httpd

/-- The number of strings in `newArgv`: `MAX_ARGV_LEN + 1`. -/
def argvLen : Nat := 17

/-- `relativePath`: the address from the last slash of `CGI_MATCH_STRING` on. -/
def relativePath (documentAddress : CStr) : CStr :=
  documentAddress.drop (cgiMatchString.length - 1)

/-- The search for `=`, back from place `j` and not as far as the first character. -/
def searchEquals (queryString : CStr) : Nat → Bool
  | 0 => false
  | j + 1 => if queryString[j + 1]? = some '=' then true else searchEquals queryString j

/-- The loop over the query string: the arguments that are complete, and the one that is being
stored. The last argument has its NUL only if there is a place left in its string. -/
def splitArgs : CStr → List CStr → CStr → Except Fault (List CStr)
  | [], argv, cur =>
    if cur.length < maxPathLen then .ok (argv ++ [cur]) else .error .outOfBounds
  | c :: cs, argv, cur =>
    if argv.length < argvLen ∧ cur.length < maxPathLen then
      if c = '+' then splitArgs cs (argv ++ [cur]) []
      else splitArgs cs argv (cur ++ [c])
    else .error .outOfBounds

/-- `newArgv` as the script gets it. -/
def newArgv (documentAddress queryString : CStr) : Except Fault (List CStr) :=
  let progname := (relativePath documentAddress).drop 1
  if queryString = [] ∨ searchEquals queryString queryString.length then .ok [progname]
  else
    match splitArgs queryString [progname] [] with
    | .error e => .error e
    | .ok argv => if argv.length < argvLen then .ok argv else .error .outOfBounds

/-- The search finds an `=` anywhere but in front. -/
theorem searchEquals_iff (q : CStr) (j : Nat) :
    searchEquals q j = true ↔ ∃ i, 0 < i ∧ i ≤ j ∧ q[i]? = some '=' := by
  induction j with
  | zero =>
    refine iff_of_false Bool.false_ne_true ?_
    rintro ⟨i, hi, hj, -⟩
    omega
  | succ j ih =>
    rw [searchEquals]
    split
    next h => exact iff_of_true rfl ⟨j + 1, Nat.succ_pos j, Nat.le_refl _, h⟩
    next h =>
      rw [ih]
      constructor
      · rintro ⟨i, hi, hj, hq⟩
        exact ⟨i, hi, by omega, hq⟩
      · rintro ⟨i, hi, hj, hq⟩
        rcases Nat.lt_or_ge j i with hlt | hge
        · exact absurd (show i = j + 1 by omega ▸ hq) h
        · exact ⟨i, hi, hge, hq⟩

/-! ## The arguments -/

theorem splitOn_plus {cur : CStr} (hcur : '+' ∉ cur) : cur.splitOn '+' = [cur] :=
  List.splitOn_eq_singleton hcur

theorem splitOn_plus_cons {cur : CStr} (hcur : '+' ∉ cur) (cs : CStr) :
    (cur ++ '+' :: cs).splitOn '+' = cur :: cs.splitOn '+' :=
  List.splitOn_append_cons_self_of_not_mem hcur cs

/-- A character that is no plus sign goes to the argument that is being stored. -/
theorem plus_notMem {cur : CStr} {c : Char} (hcur : '+' ∉ cur) (hc : c ≠ '+') :
    '+' ∉ cur ++ [c] := by
  rw [List.mem_append, List.mem_singleton]
  exact fun h => h.elim hcur fun he => hc he.symm

/-- What the loop stores, when it gets through, is the query string cut at its plus signs. -/
theorem splitArgs_ok (q : CStr) : ∀ {argv out : List CStr} {cur : CStr}, '+' ∉ cur →
    splitArgs q argv cur = .ok out →
    out = argv ++ (cur ++ q).splitOn '+' ∧ ∀ s ∈ (cur ++ q).splitOn '+', s.length < maxPathLen := by
  induction q with
  | nil =>
    intro argv out cur hcur h
    rw [splitArgs] at h
    split at h
    next hlen =>
      cases h
      rw [List.append_nil, splitOn_plus hcur]
      refine ⟨rfl, fun s hs => ?_⟩
      rw [List.mem_singleton.mp hs]
      exact hlen
    next => cases h
  | cons c cs ih =>
    intro argv out cur hcur h
    rw [splitArgs] at h
    split at h
    next hroom =>
      split at h
      next hc =>
        subst hc
        obtain ⟨hout, hall⟩ := ih List.not_mem_nil h
        rw [List.nil_append] at hout hall
        rw [splitOn_plus_cons hcur]
        refine ⟨by rw [hout, List.append_assoc, List.singleton_append], fun s hs => ?_⟩
        rcases List.mem_cons.mp hs with rfl | hs
        · exact hroom.2
        · exact hall s hs
      next hc =>
        obtain ⟨hout, hall⟩ := ih (plus_notMem hcur hc) h
        rw [List.append_assoc, List.singleton_append] at hout hall
        exact ⟨hout, hall⟩
    next => cases h

/-- What has been stored of an argument is not longer than the argument. -/
theorem splitOn_head_length (cur : CStr) (hcur : '+' ∉ cur) (cs : CStr) :
    ∃ s ∈ (cur ++ cs).splitOn '+', cur.length ≤ s.length := by
  by_cases h : '+' ∈ cs
  · obtain ⟨a, b, hcs, ha⟩ := List.eq_append_cons_of_mem h
    have hmem : '+' ∉ cur ++ a := by
      rw [List.mem_append]
      exact fun hm => hm.elim hcur ha
    rw [hcs, ← List.append_assoc, splitOn_plus_cons hmem]
    refine ⟨cur ++ a, List.mem_cons_self, ?_⟩
    rw [List.length_append]
    omega
  · have hmem : '+' ∉ cur ++ cs := by
      rw [List.mem_append]
      exact fun hm => hm.elim hcur h
    rw [splitOn_plus hmem]
    refine ⟨cur ++ cs, List.mem_singleton_self _, ?_⟩
    rw [List.length_append]
    omega

/-- The loop gets through if the arguments fit. -/
theorem splitArgs_fits (q : CStr) : ∀ (argv : List CStr) (cur : CStr), '+' ∉ cur →
    (∀ s ∈ (cur ++ q).splitOn '+', s.length < maxPathLen) →
    argv.length + ((cur ++ q).splitOn '+').length ≤ argvLen →
    ∃ out, splitArgs q argv cur = .ok out := by
  induction q with
  | nil =>
    intro argv cur hcur hall _
    rw [List.append_nil, splitOn_plus hcur] at hall
    exact ⟨_, if_pos (hall cur (List.mem_singleton_self cur))⟩
  | cons c cs ih =>
    intro argv cur hcur hall hroom
    rw [splitArgs]
    by_cases hc : c = '+'
    · subst hc
      rw [splitOn_plus_cons hcur] at hall hroom
      rw [List.length_cons] at hroom
      have hcurlen := hall cur List.mem_cons_self
      rw [if_pos ⟨by omega, hcurlen⟩, if_pos rfl]
      refine ih _ [] List.not_mem_nil (fun s hs => hall s (List.mem_cons_of_mem _ hs)) ?_
      rw [List.length_append, List.length_singleton, List.nil_append]
      omega
    · have hshape : cur ++ c :: cs = (cur ++ [c]) ++ cs := by
        rw [List.append_assoc, List.singleton_append]
      rw [hshape] at hall hroom
      have hne : ((cur ++ [c]) ++ cs).splitOn '+' ≠ [] := List.splitOn_ne_nil _ _
      have hpos := List.length_pos_iff.mpr hne
      -- the argument that is being stored is a part of the first one cut out
      have hcurlen : cur.length < maxPathLen := by
        obtain ⟨s, hs, hle⟩ := splitOn_head_length (cur ++ [c]) (plus_notMem hcur hc) cs
        have := hall s hs
        rw [List.length_append, List.length_singleton] at hle
        omega
      rw [if_pos ⟨by omega, hcurlen⟩, if_neg hc]
      exact ih argv _ (plus_notMem hcur hc) hall hroom

/-- The loop faults in one way only. -/
theorem splitArgs_error (q : CStr) : ∀ {argv : List CStr} {cur : CStr} {e : Fault},
    splitArgs q argv cur = .error e → e = .outOfBounds := by
  induction q with
  | nil =>
    intro argv cur e h
    rw [splitArgs] at h
    split at h <;> cases h
    rfl
  | cons c cs ih =>
    intro argv cur e h
    rw [splitArgs] at h
    split at h
    next =>
      split at h
      next => exact ih h
      next => exact ih h
    next =>
      cases h
      rfl

/-- A script gets its name, and the pieces between the plus signs of the query string, one after
the other, if there is no `=` behind the first character and each piece has less than 256
characters, of which there may be 15. More or longer ones are stored past the end of the arrays.
Without a query string, or with an `=` in it, a script gets its name alone. -/
theorem newArgv_exact (documentAddress q : CStr) :
    newArgv documentAddress q
      = if q = [] ∨ '=' ∈ q.tail then .ok [(relativePath documentAddress).drop 1]
        else if (∀ s ∈ q.splitOn '+', s.length < maxPathLen) ∧
            (q.splitOn '+').length + 1 < argvLen then
          .ok ((relativePath documentAddress).drop 1 :: q.splitOn '+')
        else .error .outOfBounds := by
  have hequals : searchEquals q q.length = true ↔ '=' ∈ q.tail := by
    rw [searchEquals_iff]
    constructor
    · rintro ⟨i, hi, -, hq⟩
      obtain ⟨n, rfl⟩ : ∃ n, i = n + 1 := ⟨i - 1, by omega⟩
      rw [← List.getElem?_tail] at hq
      exact List.mem_of_getElem? hq
    · intro h
      obtain ⟨n, hn⟩ := List.getElem?_of_mem h
      rw [List.getElem?_tail] at hn
      have hlt := (List.getElem?_eq_some_iff.mp hn).1
      exact ⟨n + 1, Nat.succ_pos n, Nat.le_of_lt hlt, hn⟩
  rw [newArgv]
  by_cases hplain : q = [] ∨ '=' ∈ q.tail
  · rw [if_pos (hplain.imp_right hequals.mpr), if_pos hplain]
  · rw [if_neg fun h => hplain (h.imp_right hequals.mp), if_neg hplain]
    have hnil : ([] : CStr) ++ q = q := rfl
    cases hs : splitArgs q [(relativePath documentAddress).drop 1] [] with
    | error e =>
      rw [splitArgs_error q hs]
      rw [if_neg]
      rintro ⟨hall, hroom⟩
      obtain ⟨out, hout⟩ := splitArgs_fits q [(relativePath documentAddress).drop 1] []
        List.not_mem_nil hall (by rw [List.length_singleton, hnil]; omega)
      rw [hs] at hout
      cases hout
    | ok out =>
      obtain ⟨hout, hall⟩ := splitArgs_ok q List.not_mem_nil hs
      rw [hnil] at hout hall
      have hlen : out.length = (q.splitOn '+').length + 1 := by
        rw [hout, List.length_append, List.length_singleton, Nat.add_comm]
      show (if out.length < argvLen then Except.ok out else .error Fault.outOfBounds) = _
      rw [hlen]
      by_cases hroom : (q.splitOn '+').length + 1 < argvLen
      · rw [if_pos hroom, if_pos ⟨hall, hroom⟩, hout]
        rfl
      · rw [if_neg hroom, if_neg fun h => hroom h.2]

/-! ## What the script prints -/

/-- What comes of the loop over the pipe. -/
structure Relayed where
  ended : DumpEnd
  wire : List Byte
  totalSentFromPipe : Nat
  deriving DecidableEq, Repr

/-- The loop that reads what the script prints, piece by piece, and sends it. -/
def relayPipe (front : Byte) : List (List Byte) → Nat → Sends → Relayed
  | [], total, _ => ⟨.eof, [], total⟩
  | piece :: pieces, total, sends =>
    let run := sendBytes front piece sends
    match run.ret with
    | none => ⟨.sending, run.wire, total⟩
    | some ret =>
      if ret < 0 then ⟨.fatal, run.wire, total⟩
      else
        let next := relayPipe front pieces (total + piece.length) run.sends
        { next with wire := run.wire ++ next.wire }

/-- Whatever pieces the script's output comes in and whatever `send` takes at a time, the client
gets a beginning of the output, in which the byte in front of the buffer may stand before a piece
when `send` has failed with an unknown error; all of it when the loop comes to the end of the pipe,
and the number that is logged then is the length of the output. It is never more than was sent. -/
theorem relayPipe_wire (front : Byte) (pieces : List (List Byte)) :
    ∀ {sends : Sends} {total : Nat}, (∀ p ∈ pieces, p ≠ []) →
    ∃ outs, List.Forall₂ (SentAs front sends) pieces outs ∧
      (relayPipe front pieces total sends).wire <+: outs.flatten ∧
      (relayPipe front pieces total sends).totalSentFromPipe
        ≤ total + (relayPipe front pieces total sends).wire.length ∧
      ((relayPipe front pieces total sends).ended = .eof →
        (relayPipe front pieces total sends).wire = outs.flatten ∧
        (relayPipe front pieces total sends).totalSentFromPipe
          = total + pieces.flatten.length) := by
  induction pieces with
  | nil =>
    intro sends total _
    exact ⟨[], .nil, List.prefix_rfl, Nat.le_refl _, fun _ => ⟨rfl, rfl⟩⟩
  | cons piece pieces ih =>
    intro sends total hne
    obtain ⟨as, out, has, hout, hrun⟩ := sendBytes_drain front (hne piece List.mem_cons_self) sends
    have hcons := drain_conserves as out
    have hlen : piece.length ≤ out.length := hout.length_le
    rw [relayPipe, hrun]
    simp only [SendRun.ofDrained]
    by_cases hleft : (drain as out).left = []
    · -- the piece has gone out
      rw [hleft, List.append_nil] at hcons
      rw [if_pos hleft]
      obtain ⟨outs, houts, hpre, hle, heof⟩ := @ih (drain as out).answers (total + piece.length)
        fun p hp => hne p (List.mem_cons_of_mem piece hp)
      have hfrom := List.Subset.trans (drain_answers as out).subset has
      refine ⟨out :: outs, .cons hout (houts.imp fun _ _ h => h.of_subset hfrom), ?_⟩
      simp only [hcons]
      rw [if_neg (by omega)]
      refine ⟨(List.prefix_append_right_inj out).mpr hpre, ?_, fun he => ?_⟩
      · show (relayPipe front pieces (total + piece.length) _).totalSentFromPipe ≤ _
        rw [List.length_append]
        omega
      · obtain ⟨hw, ht⟩ := heof he
        rw [List.flatten_cons, List.flatten_cons, List.length_append]
        exact ⟨by rw [hw], by rw [ht]; omega⟩
    · -- the loop ends at this piece
      have hpre : (drain as out).moved <+: (out :: pieces).flatten := by
        have h : (drain as out).moved <+: out := ⟨_, hcons⟩
        exact h.trans (List.prefix_append out pieces.flatten)
      refine ⟨out :: pieces, .cons hout (List.forall₂_same.mpr fun p _ => .inl rfl), ?_⟩
      rw [if_neg hleft]
      cases (drain as out).failure with
      | none => exact ⟨hpre, Nat.le_add_right _ _, fun h => by cases h⟩
      | some e => exact ⟨hpre, Nat.le_add_right _ _, fun h => by cases h⟩

/-- An unknown error, after which the byte in front of the first piece goes out. -/
theorem relayPipe_wire_at :
    ∃ outs, List.Forall₂ (SentAs 0#8 [.fails .other, .takes 1, .again, .takes 9, .takes 1])
        [[1#8, 2#8], [3#8]] outs ∧
      (relayPipe 0#8 [[1#8, 2#8], [3#8]] 0
        [.fails .other, .takes 1, .again, .takes 9, .takes 1]).wire <+: outs.flatten ∧
      (relayPipe 0#8 [[1#8, 2#8], [3#8]] 0
        [.fails .other, .takes 1, .again, .takes 9, .takes 1]).totalSentFromPipe
        ≤ 0 + (relayPipe 0#8 [[1#8, 2#8], [3#8]] 0
          [.fails .other, .takes 1, .again, .takes 9, .takes 1]).wire.length ∧
      ((relayPipe 0#8 [[1#8, 2#8], [3#8]] 0
          [.fails .other, .takes 1, .again, .takes 9, .takes 1]).ended = .eof →
        (relayPipe 0#8 [[1#8, 2#8], [3#8]] 0
          [.fails .other, .takes 1, .again, .takes 9, .takes 1]).wire = outs.flatten ∧
        (relayPipe 0#8 [[1#8, 2#8], [3#8]] 0
          [.fails .other, .takes 1, .again, .takes 9, .takes 1]).totalSentFromPipe
          = 0 + [[1#8, 2#8], [3#8]].flatten.length) :=
  relayPipe_wire 0#8 [[1#8, 2#8], [3#8]] (by decide)

end LinuxNet.Httpd
