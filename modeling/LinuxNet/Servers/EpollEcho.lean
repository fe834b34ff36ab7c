import LinuxNet.Lib.Descriptors
import LinuxNet.Lib.Run
import LinuxNet.Lib.Scanf

/-!
# The echo server over `epoll`

A turn of the `while` loop of `echo_server.cpp` takes what `epoll_wait` reports and goes through
it: the listening socket, the standard input, and the clients, whose bytes it sends back. What
the calls of a turn meet comes from outside (`EpollEvent`). A connection has a number, its place in
the order of `accept`; descriptors are taken lowest first, so they come back for other connections.

* `events_owner` — in a turn, the descriptor of an event still belongs to the connection it was
  reported for;
* `echo_exact` — what a client gets back is what it has sent so far, in order, without what `send`
  did not take, and nothing of another client;
* `echo_line_safe` — a line on the standard input is printed before it is terminated, from a buffer
  that all share; as long as no `recv` fills it, that stays inside.

The listening and the epoll descriptor are below `base`, and so is all else that was open before.
-/

namespace LinuxNet.Servers

/-- `BUF_SIZE`. -/
def bufSize : Nat := 2048

/-- How `send` goes: it takes bytes, it fails, or it ends the process with `SIGPIPE`. -/
inductive SendResult where
  | took (n : Nat)
  | failed
  | killed
  deriving DecidableEq, Repr

/-- An event, with how the calls that are made for it go: `accept`, `epoll_ctl`, `read`, `recv`
(as many bytes at most), and `send`. -/
structure EpollEvent where
  fd : Nat
  accept : Bool
  add : Bool
  read : List Byte
  recv : Option Nat
  send : SendResult

/-- How `epoll_wait` goes. -/
inductive WaitResult where
  | failed
  | ready (events : List EpollEvent)

/-- A connection: how much of its bytes has been read, what has been sent back, and whether every
`send` has taken all. -/
structure EchoConn where
  taken : Nat
  sent : List Byte
  whole : Bool
  deriving DecidableEq, Repr

/-- The server, and the connections it has accepted. -/
structure EchoServer where
  opened : Finset Nat
  owner : Nat → Nat
  accepted : Nat
  conns : Nat → EchoConn
  buf : List Byte
  stop : Bool

/-- Before the loop, with what `malloc` has returned. -/
def EchoServer.initial (buf : List Byte) : EchoServer :=
  ⟨∅, fun _ => 0, 0, fun _ => ⟨0, [], true⟩, buf, false⟩

/-- `"exit\n"`. -/
def exitLine : List Byte := bytesOf "exit\n".toList

/-- What a read puts to the front of the buffer. -/
def fill (bytes buf : List Byte) : List Byte := bytes ++ buf.drop bytes.length

section Loop

variable (server base : Nat) (input : Nat → List Byte)

/-- A client that is ready to be accepted. -/
def acceptEvent (s : EchoServer) (ev : EpollEvent) : EchoServer :=
  if ev.accept = true then
    let client := lowestFree s.opened base
    { s with
      opened := insert client s.opened, owner := Function.update s.owner client s.accepted
      accepted := s.accepted + 1, stop := !ev.add }
  else { s with stop := true }

/-- A line on the standard input, or its end. -/
def stdinEvent (s : EchoServer) (ev : EpollEvent) : Except Fault EchoServer :=
  let line := ev.read.take (bufSize - 1)
  if line = [] then .ok s
  else
    let buf := fill line s.buf
    -- `%s` reads to a NUL, and the one for the line is not there yet
    if 0#8 ∈ buf then
      let buf := buf.set line.length 0#8
      .ok { s with buf, stop := strcmp0 buf (exitLine ++ [0#8]) }
    else .error .outOfBounds

/-- What `recv` returns of the bytes of a connection. -/
def received (s : EchoServer) (ev : EpollEvent) : List Byte :=
  let c := s.owner ev.fd
  ((input c).drop (s.conns c).taken).take (min (ev.recv.getD 0) bufSize)

/-- The connection after a `send` of bytes it has been read. -/
def EchoConn.echo (conn : EchoConn) (bytes : List Byte) : SendResult → EchoConn
  | .took n => ⟨conn.taken + bytes.length, conn.sent ++ bytes.take n,
      conn.whole && decide (bytes.length ≤ n)⟩
  | _ => ⟨conn.taken + bytes.length, conn.sent, false⟩

/-- A client that has sent something, or has gone. -/
def clientEvent (s : EchoServer) (ev : EpollEvent) : EchoServer :=
  let bytes := received input s ev
  if bytes = [] then { s with opened := s.opened.erase ev.fd }
  else
    let c := s.owner ev.fd
    { s with
      conns := Function.update s.conns c ((s.conns c).echo bytes ev.send)
      buf := fill bytes s.buf, stop := decide (ev.send = .killed) }

/-- The body of the `for` loop; behind a `break` nothing is done. -/
def handleEvent (s : EchoServer) (ev : EpollEvent) : Except Fault EchoServer :=
  if s.stop = true then .ok s
  else if ev.fd = server then .ok (acceptEvent base s ev)
  else if ev.fd = 0 then stdinEvent s ev
  else .ok (clientEvent input s ev)

/-- A turn of the `while` loop. -/
def echoTurn (s : EchoServer) : WaitResult → Except Fault EchoServer
  | .failed => .ok { s with stop := true }
  | .ready events => run (handleEvent server base input) s events

end Loop

/-- What `epoll_wait` can report: descriptors that are watched, each once. -/
def Reported (server : Nat) (s : EchoServer) : WaitResult → Prop
  | .failed => True
  | .ready events => (events.map EpollEvent.fd).Nodup ∧
      ∀ ev ∈ events, ev.fd = server ∨ ev.fd = 0 ∨ ev.fd ∈ s.opened

/-! ## One connection -/

/-- What the client has got back of what it sends: nothing else, in order, and all of what has been
read exactly if every `send` took all. -/
structure Echoed (bytes : List Byte) (conn : EchoConn) : Prop where
  taken : conn.taken ≤ bytes.length
  sent : conn.sent.Sublist (bytes.take conn.taken)
  whole : conn.whole = true ↔ conn.sent = bytes.take conn.taken

theorem echoed_fresh (bytes : List Byte) : Echoed bytes ⟨0, [], true⟩ :=
  ⟨Nat.zero_le _, List.nil_sublist _, iff_of_true rfl rfl⟩

section Conn

variable {bytes piece : List Byte} {conn : EchoConn}

/-- **One `send`.** -/
theorem Echoed.echo (h : Echoed bytes conn) (hpiece : piece <+: bytes.drop conn.taken)
    (hne : piece ≠ []) (send : SendResult) : Echoed bytes (conn.echo piece send) := by
  have hpos : 0 < piece.length := List.length_pos_iff.mpr hne
  have hle : conn.taken + piece.length ≤ bytes.length := by
    have hlen := hpiece.length_le
    rw [List.length_drop] at hlen
    have := h.taken
    omega
  have htake : bytes.take (conn.taken + piece.length) = bytes.take conn.taken ++ piece := by
    rw [List.take_add, ← List.prefix_iff_eq_take.mp hpiece]
  have hsent : conn.sent.length ≤ conn.taken :=
    Nat.le_trans h.sent.length_le (List.length_take_le _ _)
  -- without a `send` that has gone through, something is missing
  have hlost : Echoed bytes ⟨conn.taken + piece.length, conn.sent, false⟩ := by
    refine ⟨hle, ?_, iff_of_false Bool.false_ne_true fun heq => ?_⟩
    · show conn.sent.Sublist (bytes.take (conn.taken + piece.length))
      rw [htake]
      exact h.sent.trans (List.sublist_append_left _ _)
    · have hlen := congrArg List.length heq
      dsimp only at hlen
      rw [List.length_take, Nat.min_eq_left hle] at hlen
      omega
  cases send with
  | failed => exact hlost
  | killed => exact hlost
  | took n =>
    refine ⟨hle, ?_, ?_⟩
    · show (conn.sent ++ piece.take n).Sublist (bytes.take (conn.taken + piece.length))
      rw [htake]
      exact h.sent.append (List.take_sublist _ _)
    · show (conn.whole && decide (piece.length ≤ n)) = true ↔
        conn.sent ++ piece.take n = bytes.take (conn.taken + piece.length)
      rw [htake, Bool.and_eq_true, decide_eq_true_eq, h.whole]
      constructor
      · intro heq
        rw [heq.1, List.take_of_length_le heq.2]
      · intro heq
        have hlen := congrArg List.length heq
        rw [List.length_append, List.length_append, List.length_take, List.length_take,
          Nat.min_eq_left h.taken] at hlen
        obtain ⟨h1, h2⟩ := List.append_inj heq (by
          rw [List.length_take, Nat.min_eq_left h.taken]
          omega)
        exact ⟨h1, by omega⟩

end Conn

/-! ## One event -/

section Event

variable {server base : Nat} {input : Nat → List Byte} {s s' : EchoServer} {ev : EpollEvent}

/-- What the server keeps: what it sends back, and a connection of its own for each descriptor. -/
structure EchoInv (input : Nat → List Byte) (s : EchoServer) : Prop where
  echoed : ∀ c, Echoed (input c) (s.conns c)
  fresh : ∀ c, s.accepted ≤ c → s.conns c = ⟨0, [], true⟩
  owner : ∀ fd ∈ s.opened, s.owner fd < s.accepted
  apart : ∀ fd ∈ s.opened, ∀ fd' ∈ s.opened, s.owner fd = s.owner fd' → fd = fd'

theorem initial_inv (input : Nat → List Byte) (buf : List Byte) :
    EchoInv input (.initial buf) where
  echoed c := echoed_fresh (input c)
  fresh _ _ := rfl
  owner fd h := absurd h (Finset.notMem_empty fd)
  apart fd h := absurd h (Finset.notMem_empty fd)

/-- What becomes of a line. -/
theorem stdinEvent_cases (hs : stdinEvent s ev = .ok s') :
    s' = s ∨ ∃ line stop, line.length ≤ bufSize - 1 ∧
      s' = { s with buf := (fill line s.buf).set line.length 0#8, stop := stop } := by
  unfold stdinEvent at hs
  dsimp only at hs
  split at hs
  next => exact .inl (Except.ok.inj hs).symm
  next =>
    split at hs
    next => exact .inr ⟨_, _, List.length_take_le _ _, (Except.ok.inj hs).symm⟩
    next => cases hs

/-- What an event can do. -/
theorem handleEvent_cases (hs : handleEvent server base input s ev = .ok s') :
    s' = s ∨ s' = acceptEvent base s ev ∨
      (∃ line stop, line.length ≤ bufSize - 1 ∧
        s' = { s with buf := (fill line s.buf).set line.length 0#8, stop := stop }) ∨
      (ev.fd ≠ server ∧ ev.fd ≠ 0 ∧ s' = clientEvent input s ev) := by
  unfold handleEvent at hs
  split at hs
  next => exact .inl (Except.ok.inj hs).symm
  next =>
    split at hs
    next => exact .inr (.inl (Except.ok.inj hs).symm)
    next hserver =>
      split at hs
      next =>
        rcases stdinEvent_cases hs with h | h
        · exact .inl h
        · exact .inr (.inr (.inl h))
      next hzero => exact .inr (.inr (.inr ⟨hserver, hzero, (Except.ok.inj hs).symm⟩))

/-- The lowest free descriptor is not one that is open. -/
theorem lowestFree_ne {opened : Finset Nat} {fd : Nat} (h : fd ∈ opened) :
    fd ≠ lowestFree opened base := by
  intro heq
  rw [heq] at h
  exact (lowestFree_spec opened base).1 h

theorem acceptEvent_inv (h : EchoInv input s) : EchoInv input (acceptEvent base s ev) := by
  unfold acceptEvent
  split
  next =>
    have hold : ∀ fd ∈ s.opened,
        Function.update s.owner (lowestFree s.opened base) s.accepted fd = s.owner fd :=
      fun fd hfd => Function.update_of_ne (lowestFree_ne hfd) _ _
    refine ⟨h.echoed, fun c hc => h.fresh c (Nat.le_of_succ_le hc), fun fd hfd => ?_,
      fun fd hfd fd' hfd' heq => ?_⟩
    · show Function.update s.owner (lowestFree s.opened base) s.accepted fd < s.accepted + 1
      rcases Finset.mem_insert.mp hfd with hfd | hfd
      · rw [hfd, Function.update_self]
        exact Nat.lt_succ_self _
      · rw [hold fd hfd]
        exact Nat.lt_succ_of_lt (h.owner fd hfd)
    · replace heq : Function.update s.owner (lowestFree s.opened base) s.accepted fd
          = Function.update s.owner (lowestFree s.opened base) s.accepted fd' := heq
      rcases Finset.mem_insert.mp hfd with hfd | hfd
      · rcases Finset.mem_insert.mp hfd' with hfd' | hfd'
        · exact hfd.trans hfd'.symm
        · rw [hfd, Function.update_self, hold fd' hfd'] at heq
          exact absurd heq.symm (Nat.ne_of_lt (h.owner fd' hfd'))
      · rcases Finset.mem_insert.mp hfd' with hfd' | hfd'
        · rw [hfd', Function.update_self, hold fd hfd] at heq
          exact absurd heq (Nat.ne_of_lt (h.owner fd hfd))
        · rw [hold fd hfd, hold fd' hfd'] at heq
          exact h.apart fd hfd fd' hfd' heq
  next => exact ⟨h.echoed, h.fresh, h.owner, h.apart⟩

theorem clientEvent_inv (h : EchoInv input s) (hfd : ev.fd ∈ s.opened) :
    EchoInv input (clientEvent input s ev) := by
  unfold clientEvent
  dsimp only
  split
  next =>
    refine ⟨h.echoed, h.fresh, fun fd hmem => h.owner fd (Finset.mem_of_mem_erase hmem), ?_⟩
    exact fun fd hmem fd' hmem' =>
      h.apart fd (Finset.mem_of_mem_erase hmem) fd' (Finset.mem_of_mem_erase hmem')
  next hne =>
    refine ⟨fun c => ?_, fun c hc => ?_, h.owner, h.apart⟩
    · show Echoed (input c) (Function.update s.conns (s.owner ev.fd) _ c)
      by_cases hc : c = s.owner ev.fd
      · subst hc
        rw [Function.update_self]
        exact (h.echoed _).echo (List.take_prefix _ _) hne ev.send
      · rw [Function.update_of_ne hc]
        exact h.echoed c
    · have hlt : s.owner ev.fd < s.accepted := h.owner _ hfd
      show Function.update s.conns (s.owner ev.fd) _ c = _
      rw [Function.update_of_ne (by
        have hle : s.accepted ≤ c := hc
        omega)]
      exact h.fresh c hc

/-- The descriptor of an event of a client is open. -/
def ClientOpen (server : Nat) (s : EchoServer) (ev : EpollEvent) : Prop :=
  ev.fd = server ∨ ev.fd = 0 ∨ ev.fd ∈ s.opened

/-- **One event** keeps the invariant. -/
theorem handleEvent_inv (h : EchoInv input s) (hopen : ClientOpen server s ev)
    (hs : handleEvent server base input s ev = .ok s') : EchoInv input s' := by
  rcases handleEvent_cases hs with rfl | rfl | ⟨line, stop, -, rfl⟩ | ⟨hserver, hzero, rfl⟩
  · exact h
  · exact acceptEvent_inv h
  · exact ⟨h.echoed, h.fresh, h.owner, h.apart⟩
  · exact clientEvent_inv h ((hopen.resolve_left hserver).resolve_left hzero)

/-- **One event** leaves the other clients where they are. -/
theorem handleEvent_others (hs : handleEvent server base input s ev = .ok s') {fd : Nat}
    (hne : fd ≠ ev.fd) (hfd : fd ∈ s.opened) : fd ∈ s'.opened ∧ s'.owner fd = s.owner fd := by
  rcases handleEvent_cases hs with rfl | rfl | ⟨line, stop, -, rfl⟩ | ⟨-, -, rfl⟩
  · exact ⟨hfd, rfl⟩
  · unfold acceptEvent
    split
    next =>
      exact ⟨Finset.mem_insert_of_mem hfd, Function.update_of_ne (lowestFree_ne hfd) _ _⟩
    next => exact ⟨hfd, rfl⟩
  · exact ⟨hfd, rfl⟩
  · unfold clientEvent
    dsimp only
    split
    next => exact ⟨Finset.mem_erase_of_ne_of_mem hne hfd, rfl⟩
    next => exact ⟨hfd, rfl⟩

end Event

/-! ## A turn -/

section Turn

variable {server base : Nat} {input : Nat → List Byte} {s t : EchoServer} {events : List EpollEvent}

/-- **A batch of events**: nobody's descriptor has been closed and taken again by the time its
event comes up. -/
theorem events_owner (hnodup : (events.map EpollEvent.fd).Nodup)
    (hopen : ∀ ev ∈ events, ClientOpen server t ev)
    (howner : ∀ ev ∈ events, ev.fd ∈ s.opened → ev.fd ∈ t.opened ∧ t.owner ev.fd = s.owner ev.fd) :
    Along (handleEvent server base input)
      (fun t ev => ClientOpen server t ev ∧
        (ev.fd ∈ s.opened → ev.fd ∈ t.opened ∧ t.owner ev.fd = s.owner ev.fd)) t events := by
  induction events generalizing t with
  | nil => exact trivial
  | cons ev events ih =>
    rw [List.map_cons, List.nodup_cons] at hnodup
    refine ⟨⟨hopen ev (List.mem_cons_self ..), howner ev (List.mem_cons_self ..)⟩,
      fun t' ht => ih hnodup.2 (fun later hlater => ?_) (fun later hlater hfd => ?_)⟩
    all_goals have hne : later.fd ≠ ev.fd := fun heq =>
      hnodup.1 (List.mem_map.mpr ⟨later, hlater, heq⟩)
    · rcases hopen later (List.mem_cons_of_mem _ hlater) with h | h | h
      · exact .inl h
      · exact .inr (.inl h)
      · exact .inr (.inr (handleEvent_others ht hne h).1)
    · obtain ⟨hmem, heq⟩ := howner later (List.mem_cons_of_mem _ hlater) hfd
      obtain ⟨hmem', heq'⟩ := handleEvent_others ht hne hmem
      exact ⟨hmem', heq'.trans heq⟩

/-- The same from the state that the batch was reported in. -/
theorem reported_owner (hrep : Reported server s (.ready events)) :
    Along (handleEvent server base input)
      (fun t ev => ClientOpen server t ev ∧
        (ev.fd ∈ s.opened → ev.fd ∈ t.opened ∧ t.owner ev.fd = s.owner ev.fd)) s events :=
  events_owner hrep.1 hrep.2 fun _ _ hfd => ⟨hfd, rfl⟩

/-- **A turn** keeps the invariant. -/
theorem echoTurn_inv {w : WaitResult} (h : EchoInv input s) (hrep : Reported server s w)
    (hs : echoTurn server base input s w = .ok t) : EchoInv input t := by
  cases w with
  | failed =>
    cases hs
    exact ⟨h.echoed, h.fresh, h.owner, h.apart⟩
  | ready events =>
    have hopen : Along (handleEvent server base input) (ClientOpen server) s events :=
      along_mono (fun _ _ hg => hg.1) events s (reported_owner hrep)
    exact run_keeps (fun _ _ _ h hopen hs => handleEvent_inv h hopen hs) events h hopen hs

variable {buf : List Byte} {rounds : List WaitResult}

/-- **What a client gets back**: whatever the server is told by the calls it makes, each client has
got back what has been read of its own bytes, in order, without what a `send` did not take, and all
of it exactly if every `send` took all; two descriptors are two connections; and an event finds at
its descriptor the connection it was reported for, however many others are closed and accepted
before it. -/
theorem echo_exact
    (hrep : Along (echoTurn server base input) (Reported server) (.initial buf) rounds)
    (hs : run (echoTurn server base input) (.initial buf) rounds = .ok s) :
    (∀ c, (s.conns c).sent.Sublist ((input c).take (s.conns c).taken) ∧
      ((s.conns c).whole = true ↔ (s.conns c).sent = (input c).take (s.conns c).taken)) ∧
    (∀ fd ∈ s.opened, ∀ fd' ∈ s.opened, s.owner fd = s.owner fd' → fd = fd') ∧
    ∀ events, Reported server s (.ready events) → Along (handleEvent server base input)
      (fun t ev => ev.fd ∈ s.opened → ev.fd ∈ t.opened ∧ t.owner ev.fd = s.owner ev.fd)
      s events := by
  have h : EchoInv input s :=
    run_keeps (fun _ _ _ h hrep hs => echoTurn_inv h hrep hs) rounds (initial_inv input buf) hrep hs
  exact ⟨fun c => ⟨(h.echoed c).sent, (h.echoed c).whole⟩, h.apart,
    fun events hrep => along_mono (fun _ _ hg => hg.2) events s (reported_owner hrep)⟩

/-- A client is accepted, sends two bytes and gets one of them back. -/
theorem echo_exact_partial :
    ∃ s, run (echoTurn 3 5 fun _ => [72#8, 105#8]) (.initial [])
        [.ready [⟨3, true, true, [], none, .failed⟩],
          .ready [⟨5, true, true, [], some 2, .took 1⟩]] = .ok s ∧
      (s.conns 0).sent = [72#8] ∧
      (s.conns 0).sent.Sublist ([72#8, 105#8].take (s.conns 0).taken) := by
  have hrep : Along (echoTurn 3 5 fun _ => [72#8, 105#8]) (Reported 3) (.initial [])
      [.ready [⟨3, true, true, [], none, .failed⟩],
        .ready [⟨5, true, true, [], some 2, .took 1⟩]] := by
    refine ⟨⟨List.nodup_singleton _, fun ev hev => .inl ?_⟩, fun s' h =>
      ⟨⟨List.nodup_singleton _, fun ev hev => ?_⟩, fun _ _ => trivial⟩⟩
    · rw [List.mem_singleton.mp hev]
    · cases h
      rw [List.mem_singleton.mp hev]
      exact .inr (.inr (Finset.mem_insert_self ..))
  exact ⟨_, rfl, rfl, ((echo_exact hrep rfl).1 0).1⟩

end Turn

/-! ## The line that is printed -/

section Buffer

variable {server base : Nat} {input : Nat → List Byte} {s s' : EchoServer} {ev : EpollEvent}

theorem fill_length {bytes buf : List Byte} (h : bytes.length ≤ buf.length) :
    (fill bytes buf).length = buf.length := by
  rw [fill, List.length_append, List.length_drop]
  omega

/-- What is behind the bytes stays. -/
theorem fill_last {bytes buf : List Byte} {n : Nat} (h : bytes.length ≤ n) :
    (fill bytes buf)[n]? = buf[n]? := by
  rw [fill, List.getElem?_append_right h, List.getElem?_drop, Nat.add_sub_cancel' h]

theorem received_length (input : Nat → List Byte) (s : EchoServer) (ev : EpollEvent) :
    (received input s ev).length ≤ min (ev.recv.getD 0) bufSize :=
  List.length_take_le _ _

/-- What an event does to the buffer. -/
theorem handleEvent_buf (hs : handleEvent server base input s ev = .ok s') :
    s'.buf = s.buf ∨ s'.buf = fill (received input s ev) s.buf ∨
      ∃ line : List Byte, line.length ≤ bufSize - 1 ∧
        s'.buf = (fill line s.buf).set line.length 0#8 := by
  rcases handleEvent_cases hs with rfl | rfl | ⟨line, stop, hline, rfl⟩ | ⟨-, -, rfl⟩
  · exact .inl rfl
  · unfold acceptEvent
    split <;> exact .inl rfl
  · exact .inr (.inr ⟨line, hline, rfl⟩)
  · unfold clientEvent
    dsimp only
    split
    next => exact .inl rfl
    next => exact .inr (.inl rfl)

/-- The buffer keeps its size. -/
theorem handleEvent_length (h : s.buf.length = bufSize)
    (hs : handleEvent server base input s ev = .ok s') : s'.buf.length = bufSize := by
  rcases handleEvent_buf hs with heq | heq | ⟨line, hline, heq⟩
  · rw [heq, h]
  · have hle := Nat.le_trans (received_length input s ev) (Nat.min_le_right _ _)
    rw [heq, fill_length (h ▸ hle), h]
  · have hle : line.length ≤ bufSize := Nat.le_trans hline (Nat.sub_le _ _)
    rw [heq, List.length_set, fill_length (h ▸ hle), h]

/-- A buffer that ends in a NUL. -/
structure Terminated (buf : List Byte) : Prop where
  length : buf.length = bufSize
  last : buf[bufSize - 1]? = some 0#8

theorem Terminated.mem {buf : List Byte} (h : Terminated buf) : 0#8 ∈ buf :=
  List.mem_of_getElem? h.last

/-- Neither a line nor a `recv` that leaves room gets to the last byte. -/
theorem Terminated.fill {buf bytes : List Byte} (h : Terminated buf)
    (hle : bytes.length ≤ bufSize - 1) : Terminated (fill bytes buf) where
  length := by
    rw [fill_length (h.length ▸ Nat.le_trans hle (Nat.sub_le _ _)), h.length]
  last := (fill_last hle).trans h.last

theorem Terminated.set {buf : List Byte} (h : Terminated buf) (n : Nat) :
    Terminated (buf.set n 0#8) where
  length := List.length_set.trans h.length
  last := by
    rw [List.getElem?_set, h.last, h.length]
    split
    next heq => rw [heq, if_pos (by decide)]
    next => rfl

/-- An event gets through as long as there is a NUL behind the line. -/
theorem handleEvent_ok (h : Terminated s.buf) :
    ∃ s', handleEvent server base input s ev = .ok s' := by
  have hline : Terminated (fill (ev.read.take (bufSize - 1)) s.buf) :=
    h.fill (List.length_take_le _ _)
  unfold handleEvent
  split
  next => exact ⟨_, rfl⟩
  next =>
    split
    next => exact ⟨_, rfl⟩
    next =>
      split
      next =>
        unfold stdinEvent
        dsimp only
        split
        next => exact ⟨_, rfl⟩
        next => exact ⟨_, if_pos hline.mem⟩
      next => exact ⟨_, rfl⟩

/-- **One event** whose `recv` does not fill the buffer leaves the NUL at its end. -/
theorem handleEvent_terminated (h : Terminated s.buf) (hshort : ev.recv.getD 0 < bufSize)
    (hs : handleEvent server base input s ev = .ok s') : Terminated s'.buf := by
  rcases handleEvent_buf hs with heq | heq | ⟨line, hle, heq⟩
  · rw [heq]
    exact h
  · have hle : (received input s ev).length ≤ bufSize - 1 :=
      Nat.le_trans (received_length input s ev) (Nat.le_trans (Nat.min_le_left _ _)
        (Nat.le_sub_one_of_lt hshort))
    rw [heq]
    exact h.fill hle
  · rw [heq]
    exact (h.fill hle).set _

/-- No `recv` of the turn fills the buffer. -/
def ShortReads : WaitResult → Prop
  | .failed => True
  | .ready events => ∀ ev ∈ events, ev.recv.getD 0 < bufSize

/-- **A turn** without a `recv` that fills the buffer. -/
theorem echoTurn_line {w : WaitResult} (h : Terminated s.buf) (hshort : ShortReads w) :
    ∃ s', echoTurn server base input s w = .ok s' ∧ Terminated s'.buf := by
  cases w with
  | failed => exact ⟨_, rfl, h⟩
  | ready events =>
    replace hshort : ∀ ev ∈ events, ev.recv.getD 0 < bufSize := hshort
    show ∃ s', run (handleEvent server base input) s events = .ok s' ∧ Terminated s'.buf
    induction events generalizing s with
    | nil => exact ⟨s, rfl, h⟩
    | cons ev events ih =>
      obtain ⟨s', hs⟩ : ∃ s', handleEvent server base input s ev = .ok s' := handleEvent_ok h
      have h' := handleEvent_terminated h (hshort ev (List.mem_cons_self ..)) hs
      rw [run_cons_ok hs]
      exact ih h' fun later hlater => hshort later (List.mem_cons_of_mem _ hlater)

/-! ### When it goes wrong -/

/-- A client whose bytes fill the buffer, and a line behind it, and no NUL in either. -/
structure Overlong (server : Nat) (input : Nat → List Byte) (s : EchoServer)
    (client line : EpollEvent) : Prop where
  other : client.fd ≠ server ∧ client.fd ≠ 0
  full : (received input s client).length = bufSize
  bytes : 0#8 ∉ received input s client
  send : client.send ≠ .killed
  stdin : line.fd ≠ server ∧ line.fd = 0
  read : line.read ≠ [] ∧ 0#8 ∉ line.read

/-- The line is printed from a buffer that has no NUL. -/
theorem Overlong.fault {client line : EpollEvent} (h : Overlong server input s client line)
    (hlen : s.buf.length = bufSize) (hstop : s.stop = false) :
    echoTurn server base input s (.ready [client, line]) = .error .outOfBounds := by
  have hne : received input s client ≠ [] := by
    intro heq
    have hfull := h.full
    rw [heq] at hfull
    exact absurd hfull (by decide)
  have hbuf : (clientEvent input s client).buf = received input s client := by
    unfold clientEvent
    dsimp only
    rw [if_neg hne]
    show received input s client ++ s.buf.drop (received input s client).length = _
    rw [h.full, ← hlen, List.drop_length, List.append_nil]
  have hon : (clientEvent input s client).stop = false := by
    unfold clientEvent
    dsimp only
    rw [if_neg hne]
    exact decide_eq_false h.send
  have hfirst : handleEvent server base input s client = .ok (clientEvent input s client) := by
    unfold handleEvent
    rw [if_neg (by rw [hstop]; exact Bool.false_ne_true), if_neg h.other.1, if_neg h.other.2]
  -- what is left of the client behind the line has no NUL either
  have hnul : 0#8 ∉ fill (line.read.take (bufSize - 1)) (clientEvent input s client).buf := by
    rw [hbuf, fill, List.mem_append]
    rintro (hmem | hmem)
    · exact h.read.2 (List.mem_of_mem_take hmem)
    · exact h.bytes (List.mem_of_mem_drop hmem)
  have hline : line.read.take (bufSize - 1) ≠ [] := by
    rw [Ne, List.take_eq_nil_iff, not_or]
    exact ⟨by decide, h.read.1⟩
  have hsecond : handleEvent server base input (clientEvent input s client) line =
      .error .outOfBounds := by
    unfold handleEvent
    rw [if_neg (by rw [hon]; exact Bool.false_ne_true), if_neg h.stdin.1, if_pos h.stdin.2]
    unfold stdinEvent
    dsimp only
    rw [if_neg hline, if_neg hnul]
  show run (handleEvent server base input) s [client, line] = _
  rw [run_cons_ok hfirst, run, hsecond]

/-- **A turn** keeps the size of the buffer. -/
theorem echoTurn_length {w : WaitResult} (h : s.buf.length = bufSize)
    (hs : echoTurn server base input s w = .ok s') : s'.buf.length = bufSize := by
  cases w with
  | failed =>
    cases hs
    exact h
  | ready events =>
    have halong : Along (handleEvent server base input) (fun _ _ => True) s events :=
      along_of_forall (fun _ _ _ => trivial) s
    exact run_keeps (fun _ _ _ h _ hs => handleEvent_length h hs) events h halong hs

variable {buf : List Byte}

/-- **The line on the standard input** is printed before a NUL is put behind it. From a buffer that
ends in a NUL, no run faults in which no `recv` fills the buffer, whatever else happens; but behind
any run that goes on, a client that fills it once and a line, in one turn, are a read behind its
end. -/
theorem echo_line_safe (hlen : buf.length = bufSize) (hlast : buf[bufSize - 1]? = some 0#8) :
    (∀ rounds, (∀ w ∈ rounds, ShortReads w) →
      ∃ s, run (echoTurn server base input) (.initial buf) rounds = .ok s) ∧
    ∀ rounds s, run (echoTurn server base input) (.initial buf) rounds = .ok s → s.stop = false →
      ∀ client line, Overlong server input s client line →
        echoTurn server base input s (.ready [client, line]) = .error .outOfBounds := by
  constructor
  · intro rounds hshort
    have halong : Along (echoTurn server base input) (fun _ w => ShortReads w) (.initial buf)
        rounds := along_of_forall (fun w hw _ => hshort w hw) _
    have hstep : ∀ s w, Terminated s.buf → ShortReads w →
        True ∧ ∃ s', echoTurn server base input s w = .ok s' ∧ Terminated s'.buf :=
      fun s w h hshort => ⟨trivial, echoTurn_line h hshort⟩
    have hP : ∀ s : EchoServer, Terminated s.buf → Terminated s.buf := fun _ h => h
    exact (run_guarded hP hstep rounds ⟨hlen, hlast⟩ halong).1
  · intro rounds s hs hstop client line h
    have halong : Along (echoTurn server base input) (fun _ _ => True) (.initial buf) rounds :=
      along_of_forall (fun _ _ _ => trivial) _
    have hsize : s.buf.length = bufSize :=
      run_keeps (fun _ _ _ h _ hs => echoTurn_length h hs) rounds hlen halong hs
    exact h.fault hsize hstop

/-- A client that is accepted sends 2048 bytes, and a line is typed. -/
theorem echo_line_safe_overlong :
    run (echoTurn 3 5 fun _ => List.replicate bufSize 65#8)
      (.initial (List.replicate bufSize 0#8))
      [.ready [⟨3, true, true, [], none, .failed⟩],
        .ready [⟨5, true, true, [], some bufSize, .took bufSize⟩,
          ⟨0, true, true, [104#8, 10#8], none, .failed⟩]] = .error .outOfBounds := by
  have hlast : (List.replicate bufSize (0#8 : Byte))[bufSize - 1]? = some 0#8 :=
    List.getElem?_replicate_of_lt (by decide)
  have h := (@echo_line_safe 3 5 (fun _ => List.replicate bufSize 65#8) _
    List.length_replicate hlast).2 [.ready [⟨3, true, true, [], none, .failed⟩]] _ rfl rfl
    ⟨5, true, true, [], some bufSize, .took bufSize⟩ ⟨0, true, true, [104#8, 10#8], none, .failed⟩
  have hbytes : received (fun _ => List.replicate bufSize 65#8)
      (acceptEvent 5 (.initial (List.replicate bufSize 0#8)) ⟨3, true, true, [], none, .failed⟩)
      ⟨5, true, true, [], some bufSize, .took bufSize⟩ = List.replicate bufSize 65#8 :=
    List.take_of_length_le
      (Nat.le_trans (List.drop_sublist _ _).length_le (Nat.le_of_eq List.length_replicate))
  rw [run_cons_ok rfl, run, h]
  refine ⟨by decide, ?_, ?_, by simp, by decide, by decide⟩
  · exact (congrArg List.length hbytes).trans List.length_replicate
  · intro hmem
    exact absurd (List.eq_of_mem_replicate (hbytes ▸ hmem)) (by decide)

end Buffer

end LinuxNet.Servers
