import LinuxNet.Lib.Run
import LinuxNet.Sip.Recvfrom

/-!
# What becomes of a stream

A run of a stream socket: buffers come in, `rcvevent` and the flags change, and `recvfrom` is
called. The run keeps what has been returned and which bytes have come (`ReadRun`), and the
stream is whole if what the calls that do not peek have reported, with what is still to be
read behind it, is what has come.

`recvfrom` loses bytes in two ways. `netconn_recv` does not count `rcvevent` down, so a call
that waits for more than there is comes to the end of the queue and returns 0, whatever it has
read by then (`reads_lose`); and `off` has 16 bits. A third slip is with a peek, which leaves
a buffer in `lastdata`, where a later call finds it before it looks at `rcvevent`. `Fitting` is
a call that meets none of the three, and `streamReads` says that with such calls the stream is
whole in every state, and that a call that peeks changes nothing that later calls return.
-/

namespace LinuxNet.Sip

variable {β : Type}

/-- What happens to a socket: a buffer comes in, `rcvevent` or the flags are set, or there is a
call of `recvfrom`. -/
inductive ReadEvent (β : Type) where
  | arrive (buf : β)
  | event (rcvevent : BitVec 16)
  | setFlags (flags : BitVec 16)
  | call (c : RecvCall)

/-- A run: the socket, the calls with the value returned and the memory behind them, and the
bytes that have come. -/
structure ReadRun (β : Type) where
  sock : ReadSock β
  results : List (RecvCall × Int × Mem)
  arrived : List Byte
  /-- The calls since a peek took a buffer off the queue have all been peeks. -/
  peeked : Bool

namespace ReadRun

/-- The run begins with a socket on which nothing has been called. -/
def start (N : Netbufs β) (s : ReadSock β) : ReadRun β := ⟨s, [], s.unread N, false⟩

/-- What has happened, with the socket as the call leaves it and what it returns. -/
def returned (r : ReadRun β) (c : RecvCall) (res : ReadSock β × Int × Mem) : ReadRun β where
  sock := res.1
  results := r.results ++ [(c, res.2)]
  arrived := r.arrived
  peeked := decide (Peeks c.flags) &&
    (r.peeked || (r.sock.lastdata.isNone && res.1.lastdata.isSome))

/-- A step of a run. -/
def step (N : Netbufs β) (r : ReadRun β) : ReadEvent β → Except Fault (ReadRun β)
  | .arrive buf => .ok { r with
      sock := { r.sock with skbRecv := r.sock.skbRecv ++ [buf] }
      arrived := r.arrived ++ N.bytes buf }
  | .event rcvevent => .ok { r with sock := { r.sock with rcvevent := rcvevent } }
  | .setFlags flags => .ok { r with sock := { r.sock with flags := flags } }
  | .call c => (recvfrom N r.sock c).map (r.returned c)

/-- What the calls have reported that do not peek. -/
def reported (results : List (RecvCall × Int × Mem)) : List Byte :=
  results.flatMap fun res => if Peeks res.1.flags then [] else received res.2.2 res.2.1.toNat

/-- No byte is lost, repeated or out of order. -/
def Whole (N : Netbufs β) (r : ReadRun β) : Prop :=
  reported r.results ++ r.sock.unread N = r.arrived

/-- With and without a call, what comes `late` gives the same results. -/
def SameLater (N : Netbufs β) (s : ReadSock β) (early : List (ReadEvent β)) (c : RecvCall)
    (late : List (ReadEvent β)) : Prop :=
  ∃ r t t' res rest, run (step N) (start N s) early = .ok r ∧
    run (step N) (start N s) (early ++ .call c :: late) = .ok t ∧
    run (step N) (start N s) (early ++ late) = .ok t' ∧
    t.results = r.results ++ (c, res) :: rest ∧ t'.results = r.results ++ rest

/-- A call that reads, where more than one buffer may be read, ends before the queue does and
within 16 bits; and none that is not to wait finds what a peek has taken, with `rcvevent` at
0. -/
def Fitting (N : Netbufs β) (r : ReadRun β) : ReadEvent β → Prop
  | .call c => (r.peeked = true → ¬r.sock.Unready c.flags) ∧
      (¬Peeks c.flags → r.sock.rcvevent ≠ 0#16 →
        Enough (r.sock.pieces N) c.len.toNat 0 ∧ InReach (r.sock.pieces N) c.len.toNat 0)
  | _ => True

end ReadRun

open ReadRun

section Run

variable {N : Netbufs β} {r r' t t' : ReadRun β} {s s1 : ReadSock β}

/-- **A step** that fits keeps the stream whole. -/
theorem whole_step (hN : N.Assumed) {e : ReadEvent β} (hr : r.sock.Sound N ∧ Whole N r)
    (hfit : Fitting N r e) (hlen : ∀ c, e = .call c → 0 ≤ c.len) :
    ∃ r', step N r e = .ok r' ∧ r'.sock.Sound N ∧ Whole N r' := by
  obtain ⟨hs, hw⟩ := hr
  cases e with
  | arrive buf =>
    refine ⟨_, rfl, ⟨hs.tcp, hs.fresh, hs.within⟩, ?_⟩
    rw [Whole] at hw ⊢
    dsimp only
    rw [← hw, List.append_assoc]
    congr 1
    simp [ReadSock.unread, ReadSock.pieces]
  | event rcvevent => exact ⟨_, rfl, ⟨hs.tcp, hs.fresh, hs.within⟩, hw⟩
  | setFlags flags => exact ⟨_, rfl, ⟨hs.tcp, hs.fresh, hs.within⟩, hw⟩
  | call c =>
    rw [step]
    by_cases hpeek : Peeks c.flags
    · obtain ⟨res, hres⟩ := recvfrom_returns N r.sock c
      obtain ⟨hs', hpieces, -⟩ := ReadSock.sound_of_takes hs (recvfrom_peek hpeek hres)
      refine ⟨_, by rw [hres]; rfl, hs', ?_⟩
      rw [Whole] at hw ⊢
      simp only [returned, reported, List.flatMap_append, List.flatMap_singleton, if_pos hpeek,
        List.append_nil, ReadSock.unread, hpieces]
      exact hw
    · obtain ⟨s', ret, mem', hres, hs', hbytes⟩ :=
        recvfrom_read hN hs hpeek (hlen c rfl) (hfit.2 hpeek)
      refine ⟨_, by rw [hres]; rfl, hs', ?_⟩
      rw [Whole] at hw ⊢
      simp only [returned, reported, List.flatMap_append, List.flatMap_singleton, if_neg hpeek,
        List.append_assoc, hbytes]
      exact hw

/-- Two runs behind a peek that only one of them has made: the same has been returned since,
and the sockets are the same but for the buffer that the peek has taken. -/
def Behind (res res' : List (RecvCall × Int × Mem)) (t t' : ReadRun β) : Prop :=
  (∃ rest, t.results = res ++ rest ∧ t'.results = res' ++ rest) ∧
    (t.sock = t'.sock ∨ t.sock.Took t'.sock ∧ t.peeked = true)

/-- A change of the sockets that keeps a buffer taken keeps the runs behind. -/
theorem Behind.changed {res res' : List (RecvCall × Int × Mem)} (h : Behind res res' t t')
    (f : ReadSock β → ReadSock β) (came came' : List Byte)
    (hf : ∀ s1 s, s1.Took s → (f s1).Took (f s)) :
    Behind res res' { t with sock := f t.sock, arrived := came }
      { t' with sock := f t'.sock, arrived := came' } := by
  refine ⟨h.1, ?_⟩
  rcases h.2 with hsock | ⟨htook, hpeeked⟩
  · exact Or.inl (congrArg f hsock)
  · exact Or.inr ⟨hf _ _ htook, hpeeked⟩

/-- **A step** that fits does the same in the two runs. -/
theorem behind_step {res res' : List (RecvCall × Int × Mem)} {e : ReadEvent β}
    (h : Behind res res' t t') (hfit : Fitting N t e) (hstep : step N t e = .ok r) :
    ∃ r', step N t' e = .ok r' ∧ Behind res res' r r' := by
  cases e with
  | arrive buf =>
    cases hstep
    refine ⟨_, rfl, h.changed (fun s => { s with skbRecv := s.skbRecv ++ [buf] }) _ _ fun s1 s htook => ?_⟩
    obtain ⟨hlast, b, rest, hq, rfl⟩ := htook
    exact ⟨hlast, b, rest ++ [buf], by rw [hq]; rfl, rfl⟩
  | event rcvevent =>
    cases hstep
    refine ⟨_, rfl, h.changed (fun s => { s with rcvevent := rcvevent }) _ _ fun s1 s htook => ?_⟩
    obtain ⟨hlast, b, rest, hq, rfl⟩ := htook
    exact ⟨hlast, b, rest, hq, rfl⟩
  | setFlags flags =>
    cases hstep
    refine ⟨_, rfl, h.changed (fun s => { s with flags := flags }) _ _ fun s1 s htook => ?_⟩
    obtain ⟨hlast, b, rest, hq, rfl⟩ := htook
    exact ⟨hlast, b, rest, hq, rfl⟩
  | call c =>
    obtain ⟨⟨rest, hrest, hrest'⟩, hsock⟩ := h
    have hsame : recvfrom N t.sock c = recvfrom N t'.sock c := by
      rcases hsock with hsock | ⟨htook, hpeeked⟩
      · rw [hsock]
      · refine recvfrom_ahead htook fun hu => hfit.1 hpeeked ?_
        obtain ⟨-, _, _, -, htook⟩ := htook
        rw [htook]
        exact hu
    rw [step, hsame] at hstep
    obtain ⟨p, hp, rfl⟩ := map_eq_ok.mp hstep
    refine ⟨t'.returned c p, by rw [step, hp]; rfl, ⟨rest ++ [(c, p.2)], ?_, ?_⟩, Or.inl rfl⟩
    · rw [returned, hrest, List.append_assoc]
    · rw [returned, hrest', List.append_assoc]

/-- A peek leaves the run behind, if anything. -/
theorem behind_peek {c : RecvCall} {p : ReadSock β × Int × Mem} (hpeek : Peeks c.flags)
    (h : recvfrom N r.sock c = .ok p) :
    Behind (r.results ++ [(c, p.2)]) r.results (r.returned c p) r := by
  refine ⟨⟨[], (List.append_nil _).symm, (List.append_nil _).symm⟩, ?_⟩
  rcases recvfrom_peek hpeek h with hsame | htook
  · exact Or.inl hsame
  · refine Or.inr ⟨htook, ?_⟩
    obtain ⟨hlast, b, rest, -, hp⟩ := htook
    rw [returned, hp, hlast, decide_eq_true hpeek]
    exact Bool.or_true _

/-- **A peek changes nothing** that later calls return, where all calls fit. -/
theorem sameLater {early late : List (ReadEvent β)} {c : RecvCall} {res : ReadRun β}
    (hfit : Along (step N) (Fitting N) (start N s) (early ++ .call c :: late))
    (hrun : run (step N) (start N s) (early ++ .call c :: late) = .ok res)
    (hpeek : Peeks c.flags) : SameLater N s early c late := by
  obtain ⟨r, hearly, hrest⟩ := run_append_cases hrun
  obtain ⟨r1, hcall, hlate⟩ := run_cons_cases hrest
  have hguard := (along_append early _ hearly hfit).2 r1 hcall
  obtain ⟨p, hp, rfl⟩ := map_eq_ok.mp hcall
  obtain ⟨t', ht', ⟨rest, h1, h2⟩, -⟩ :=
    run_relates (fun _ _ _ _ => behind_step) late (behind_peek hpeek hp) hguard hlate
  refine ⟨r, res, t', p.2, rest, hearly, hrun, (run_append early late hearly).trans ht', ?_, h2⟩
  rw [h1, List.append_assoc]
  rfl

end Run

/-- **A stream is whole** in every state of a run whose calls fit, and a call that peeks
changes nothing that later calls return. -/
theorem streamReads {N : Netbufs β} (hN : N.Assumed) {s : ReadSock β} (hs : s.Sound N)
    (es : List (ReadEvent β)) (hlen : ∀ c, ReadEvent.call c ∈ es → 0 ≤ c.len)
    (hfit : Along (step N) (Fitting N) (start N s) es) :
    (∃ t, run (step N) (start N s) es = .ok t) ∧ Always (step N) (Whole N) (start N s) es ∧
      ∀ early c late, es = early ++ .call c :: late → Peeks c.flags →
        SameLater N s early c late := by
  have hlens : Along (step N) (fun _ e => ∀ c, e = .call c → 0 ≤ c.len) (start N s) es :=
    along_of_forall (by intro e he _ c hc; subst hc; exact hlen c he) _
  have hstart : (start N s).sock.Sound N ∧ Whole N (start N s) := ⟨hs, rfl⟩
  have hstep : ∀ (r : ReadRun β) e, r.sock.Sound N ∧ Whole N r →
      (Fitting N r e ∧ ∀ c, e = .call c → 0 ≤ c.len) →
        True ∧ ∃ r', step N r e = .ok r' ∧ r'.sock.Sound N ∧ Whole N r' :=
    fun _ _ hr hg => ⟨trivial, whole_step hN hr hg.1 hg.2⟩
  obtain ⟨⟨t, ht⟩, -, hwhole⟩ := run_guarded (fun _ h => h.2) hstep es hstart
    ((along_and es _).mpr ⟨hfit, hlens⟩)
  refine ⟨⟨t, ht⟩, hwhole, fun early c late he hpeek => ?_⟩
  subst he
  exact sameLater hfit ht hpeek

/-! ## Buffers that are lists of bytes -/

/-- A buffer is its bytes, which `netbuf_len` counts in 16 bits, and a flag. -/
structure PlainBuf where
  bytes : List Byte
  push : Bool
  fits : bytes.length < 65536

/-- lwIP for such buffers. -/
def plainBufs : Netbufs PlainBuf where
  bytes := PlainBuf.bytes
  push := PlainBuf.push
  netbufLen b := BitVec.ofNat 16 b.bytes.length
  netbufCopyPartial b n o := (b.bytes.drop o.toNat).take n.toNat

theorem plainBufs_assumed : plainBufs.Assumed where
  len b := by
    rw [plainBufs, BitVec.toNat_ofNat]
    exact Nat.mod_eq_of_lt b.fits
  copy _ _ _ _ := rfl

/-- A stream socket as `socket` makes it. -/
def freshSock : ReadSock PlainBuf := ⟨.tcp, [], none, 0#16, 0#16, 0#16⟩

theorem freshSock_sound : freshSock.Sound plainBufs :=
  ⟨rfl, fun _ => rfl, by intro b hb; cases hb⟩

/-- Three bytes. -/
def threeBytes : PlainBuf := ⟨[1#8, 2#8, 3#8], false, by decide⟩

/-- Two of the three bytes are looked at, then read. -/
def peekAndRead : List (ReadEvent PlainBuf) :=
  [.arrive threeBytes, .event 1#16, .call ⟨Mem.zero, 2, msgPeek⟩, .call ⟨Mem.zero, 2, 0#32⟩]

theorem streamReads_threeBytes :
    Always (step plainBufs) (Whole plainBufs) (start plainBufs freshSock) peekAndRead ∧
      SameLater plainBufs freshSock [.arrive threeBytes, .event 1#16] ⟨Mem.zero, 2, msgPeek⟩
        [.call ⟨Mem.zero, 2, 0#32⟩] := by
  have h := streamReads plainBufs_assumed freshSock_sound peekAndRead
    (by simp [peekAndRead]) (by
      refine ⟨trivial, fun r h => ?_⟩
      cases h
      refine ⟨trivial, fun r h => ?_⟩
      cases h
      refine ⟨⟨(by intro h; cases h), fun hpeek => absurd (by decide) hpeek⟩, fun r h => ?_⟩
      cases h
      refine ⟨⟨fun _ => by decide, fun _ _ => ⟨?_, ?_⟩⟩, fun r h => trivial⟩
      · exact Or.inr (Or.inl (by decide))
      · exact Or.inl (by decide))
  exact ⟨h.2.1, h.2.2 [.arrive threeBytes, .event 1#16] ⟨Mem.zero, 2, msgPeek⟩
    [.call ⟨Mem.zero, 2, 0#32⟩] rfl (by decide)⟩

/-- A call that waits for ten bytes when three have come returns 0, and they are lost. -/
theorem reads_lose : ¬∀ (s : ReadSock PlainBuf) (es : List (ReadEvent PlainBuf)),
    s.Sound plainBufs → (∀ c, ReadEvent.call c ∈ es → 0 ≤ c.len) →
      Always (step plainBufs) (Whole plainBufs) (start plainBufs s) es := by
  intro h
  have h := h freshSock [.arrive threeBytes, .event 1#16, .call ⟨Mem.zero, 10, 0#32⟩]
    freshSock_sound (by simp)
  have hlost := (((h.2 _ rfl).2 _ rfl).2 _ rfl).head
  exact absurd (congrArg List.length hlost) (by decide)

end LinuxNet.Sip
