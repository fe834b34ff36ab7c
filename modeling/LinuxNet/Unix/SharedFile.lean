import LinuxNet.Lib.Memory
import LinuxNet.Lib.Run

/-!
# A file that is passed around

`file_unix_server.c` opens a file for its clients and passes them the descriptor. All
that the descriptors share is the open file description, with its offset: a client
writes, and asks the server to go back to the start. The server has one `shared_file`,
which the `close` of any client closes.

A client of `file_unix_client.c` has one request under way at most, so what waits in
the socket of the server is a slot in each client, and what it answers is another. A
run is any order of what the clients do, what the server handles and what the clients
receive; the server may take the requests in any order. After sending `close` a client
still writes through its descriptor before it drops it, and the server may be faster
(`drop` is a step of its own). A client that exits does not wait for an answer.

`seeks_iff` says when the `ok` of the server is true: the server has handled no `close`
since it passed the client its descriptor, or the offset was 0 already.
-/

namespace LinuxNet.Unix

/-- `OPEN`, `SEEK_START` and `CLOSE`. -/
inductive Request where
  | open
  | seekStart
  | close
  deriving DecidableEq, Repr

/-- A message of the server: a descriptor for an open file description, or `ok`. -/
inductive Reply where
  | fd (ofd : Nat)
  | ok
  deriving DecidableEq, Repr

/-- Where a client is in its loop: at the prompt, in `recv_fd`, between sending `close`
and dropping the descriptor, waiting for `ok`, or gone. -/
inductive Phase where
  | prompt
  | recvFd
  | closing
  | waitOk
  | gone
  deriving DecidableEq, Repr

/-- A client: what `shared_fd` refers to, and the messages from and to it. -/
structure Client where
  phase : Phase
  sharedFd : Option Nat
  request : Option Request
  reply : Option Reply
  deriving DecidableEq, Repr

/-- The open file descriptions by their offsets, the one of `shared_file`, and the clients. -/
structure Net where
  sharedFile : Option Nat
  offset : Nat → Nat
  /-- The next open file description. -/
  next : Nat
  client : Nat → Client

/-- The commands of a client. -/
inductive Command where
  | open
  | seekStart
  | close
  | write (count : Nat)
  | exit
  deriving DecidableEq, Repr

/-- `"write after server closed"`. -/
def lastWords : Nat := 25

namespace Net

/-- Write through a descriptor. -/
def write (n : Net) (fd : Option Nat) (count : Nat) : Net :=
  match fd with
  | none => n
  | some o => { n with offset := Function.update n.offset o (n.offset o + count) }

def setClient (n : Net) (c : Nat) (cl : Client) : Net :=
  { n with client := Function.update n.client c cl }

/-- A client at the prompt takes a command. -/
def command (n : Net) (c : Nat) (cmd : Command) : Net :=
  let cl := n.client c
  if cl.phase = .prompt then
    match cmd with
    | .open => n.setClient c { cl with phase := .recvFd, request := some .open }
    | .seekStart =>
      if cl.sharedFd = none then n
      else n.setClient c { cl with phase := .waitOk, request := some .seekStart }
    | .close =>
      if cl.sharedFd = none then n
      else n.setClient c { cl with phase := .closing, request := some .close }
    | .write count => n.write cl.sharedFd count
    | .exit =>
      if cl.sharedFd = none then n.setClient c { cl with phase := .gone }
      else n.setClient c { cl with phase := .gone, request := some .close, sharedFd := none }
  else n

/-- A client that has sent `close` writes once more and drops its descriptor. -/
def drop (n : Net) (c : Nat) : Net :=
  let cl := n.client c
  if cl.phase = .closing then
    (n.write cl.sharedFd lastWords).setClient c { cl with phase := .waitOk, sharedFd := none }
  else n

/-- What the server does with a request, and what it answers. -/
def serve (n : Net) : Request → Net × Reply
  | .open =>
    match n.sharedFile with
    | some o => (n, .fd o)
    | none => ({ n with
        sharedFile := some n.next
        offset := Function.update n.offset n.next 0
        next := n.next + 1 }, .fd n.next)
  | .seekStart =>
    match n.sharedFile with
    | some o => ({ n with offset := Function.update n.offset o 0 }, .ok)
    | none => (n, .ok)
  | .close => ({ n with sharedFile := none }, .ok)

/-- A turn of the loop of the server, with the request of a client. -/
def handle (n : Net) (c : Nat) : Net :=
  match (n.client c).request with
  | none => n
  | some r =>
    let s := n.serve r
    s.1.setClient c { n.client c with request := none, reply := some s.2 }

/-- A client receives what it waits for. -/
def receive (n : Net) (c : Nat) : Net :=
  let cl := n.client c
  match cl.reply with
  | some (.fd o) =>
    if cl.phase = .recvFd then
      n.setClient c { cl with phase := .prompt, sharedFd := some o, reply := none }
    else n
  | some .ok =>
    if cl.phase = .waitOk then n.setClient c { cl with phase := .prompt, reply := none } else n
  | none => n

end Net

/-! ## What is to hold -/

inductive Event where
  | command (c : Nat) (cmd : Command)
  | drop (c : Nat)
  | handle (c : Nat)
  | receive (c : Nat)

/-- The system, and for each client whether the server has handled no `close` since it
last passed it a descriptor. -/
structure World where
  net : Net
  unclosed : Nat → Bool

/-- No file is open, and every client is at the prompt. -/
def World.initial : World where
  net := ⟨none, fun _ => 0, 0, fun _ => ⟨.prompt, none, none, none⟩⟩
  unclosed := fun _ => false

/-- What handling a request makes of the record. -/
def recordOf (unclosed : Nat → Bool) (c : Nat) : Option Request → Nat → Bool
  | some .open => Function.update unclosed c true
  | some .close => fun _ => false
  | some .seekStart => unclosed
  | none => unclosed

def step (w : World) : Event → Except Fault World
  | .command c cmd => .ok { w with net := w.net.command c cmd }
  | .drop c => .ok { w with net := w.net.drop c }
  | .handle c => .ok ⟨w.net.handle c, recordOf w.unclosed c (w.net.client c).request⟩
  | .receive c => .ok { w with net := w.net.receive c }

/-- When the server says `ok` to a `seek_start`, the offset of what the client's descriptor
refers to is 0. -/
def SeeksToStart (w : World) (e : Event) : Prop :=
  ∀ c, e = .handle c → (w.net.client c).request = some .seekStart →
    ∃ o, (w.net.client c).sharedFd = some o ∧ (w.net.handle c).offset o = 0

/-- The server has handled no `close` since it passed the client its descriptor, or the
offset is 0 already. -/
def SeekReaches (w : World) (e : Event) : Prop :=
  ∀ c, e = .handle c → (w.net.client c).request = some .seekStart →
    w.unclosed c = true ∨ ∀ o, (w.net.client c).sharedFd = some o → w.net.offset o = 0

/-! ## The invariant -/

/-- What a client has a descriptor of, or is about to receive. -/
def Client.holds (cl : Client) : Option Nat :=
  match cl.reply with
  | some (.fd o) => some o
  | _ => cl.sharedFd

/-- A client has one message under way at most, and none at the prompt. It has kept its
descriptor if it has sent `seek_start`. -/
structure Client.Sane (cl : Client) : Prop where
  prompt : cl.phase = .prompt → cl.request = none ∧ cl.reply = none
  pending : cl.request ≠ none → cl.reply = none
  seek : cl.request = some .seekStart → cl.phase = .waitOk ∧ cl.sharedFd ≠ none

/-- The description of a client is the one of `shared_file` exactly if the server has
handled no `close` since; a new one is another one. -/
structure Linked (w : World) : Prop where
  sane : ∀ c, (w.net.client c).Sane
  shared : ∀ c o, (w.net.client c).holds = some o →
    (w.unclosed c = true ↔ w.net.sharedFile = some o)
  old : ∀ c o, (w.net.client c).holds = some o → o < w.net.next
  live : ∀ o, w.net.sharedFile = some o → o < w.net.next

theorem initial_linked : Linked .initial where
  sane _ := ⟨fun _ => ⟨rfl, rfl⟩, fun _ => rfl, nofun⟩
  shared _ _ h := nomatch h
  old _ _ h := nomatch h
  live _ h := nomatch h

section Steps

variable {w : World} {c o : Nat} {cl : Client}

/-- Only a message with a descriptor is held before it is received. -/
theorem holds_of_reply (h : ∀ o, cl.reply ≠ some (.fd o)) : cl.holds = cl.sharedFd := by
  unfold Client.holds
  split
  next o ho => exact absurd ho (h o)
  next => rfl

/-- A step changes one client, to a sane one; what this and the others hold is linked to
the `shared_file` there is then. -/
theorem Linked.set (hl : Linked w) {n : Net} {unclosed : Nat → Bool}
    (hclient : n.client = Function.update w.net.client c cl) (hsane : cl.Sane)
    (hself : ∀ o, cl.holds = some o →
      (unclosed c = true ↔ n.sharedFile = some o) ∧ o < n.next)
    (hother : ∀ d, d ≠ c → ∀ o, (w.net.client d).holds = some o →
      (unclosed d = true ↔ n.sharedFile = some o))
    (hnext : w.net.next ≤ n.next) (hlive : ∀ o, n.sharedFile = some o → o < n.next) :
    Linked ⟨n, unclosed⟩ := by
  have hc : n.client c = cl := by rw [hclient, Function.update_self]
  have hd : ∀ {d}, d ≠ c → n.client d = w.net.client d := fun h => by
    rw [hclient, Function.update_of_ne h]
  refine ⟨fun d => ?_, fun d o h => ?_, fun d o h => ?_, hlive⟩
  · show (n.client d).Sane
    by_cases hdc : d = c
    · rwa [hdc, hc]
    · rw [hd hdc]
      exact hl.sane d
  · by_cases hdc : d = c
    · subst hdc
      exact (hself o (hc ▸ h)).1
    · exact hother d hdc o (hd hdc ▸ h)
  · by_cases hdc : d = c
    · subst hdc
      exact (hself o (hc ▸ h)).2
    · exact Nat.lt_of_lt_of_le (hl.old d o (hd hdc ▸ h)) hnext

/-- **Frame**: a step of a client that keeps `shared_file` and gives it nothing new. -/
theorem Linked.client (hl : Linked w) {n : Net} (hshared : n.sharedFile = w.net.sharedFile)
    (hnext : n.next = w.net.next) (hclient : n.client = Function.update w.net.client c cl)
    (hsane : cl.Sane) (hholds : ∀ o, cl.holds = some o → (w.net.client c).holds = some o) :
    Linked { w with net := n } := by
  refine hl.set hclient hsane (fun o h => ?_) (fun d _ o h => ?_) (Nat.le_of_eq hnext.symm) ?_
  · rw [hshared, hnext]
    exact ⟨hl.shared c o (hholds o h), hl.old c o (hholds o h)⟩
  · rw [hshared]
    exact hl.shared d o h
  · rw [hshared, hnext]
    exact hl.live

theorem write_keeps (n : Net) (fd : Option Nat) (count : Nat) :
    (n.write fd count).sharedFile = n.sharedFile ∧ (n.write fd count).next = n.next ∧
      (n.write fd count).client = n.client := by
  cases fd <;> exact ⟨rfl, rfl, rfl⟩

theorem Linked.command (hl : Linked w) (c : Nat) (cmd : Command) :
    Linked { w with net := w.net.command c cmd } := by
  unfold Net.command
  by_cases hp : (w.net.client c).phase = .prompt
  · obtain ⟨-, hreply⟩ := (hl.sane c).prompt hp
    have hholds : ∀ {cl : Client}, cl.reply = (w.net.client c).reply →
        (∀ o, cl.sharedFd = some o → (w.net.client c).sharedFd = some o) →
        ∀ o, cl.holds = some o → (w.net.client c).holds = some o := by
      intro cl hr hfd o h
      rw [holds_of_reply (by rw [hr, hreply]; exact nofun)] at h
      rw [holds_of_reply (by rw [hreply]; exact nofun)]
      exact hfd o h
    simp only [if_pos hp]
    cases cmd with
    | «open» =>
      exact hl.client rfl rfl rfl ⟨nofun, fun _ => hreply, nofun⟩ (hholds rfl fun _ => id)
    | seekStart =>
      dsimp only
      by_cases hfd : (w.net.client c).sharedFd = none
      · rw [if_pos hfd]
        exact hl
      · rw [if_neg hfd]
        exact hl.client rfl rfl rfl ⟨nofun, fun _ => hreply, fun _ => ⟨rfl, hfd⟩⟩
          (hholds rfl fun _ => id)
    | close =>
      dsimp only
      by_cases hfd : (w.net.client c).sharedFd = none
      · rw [if_pos hfd]
        exact hl
      · rw [if_neg hfd]
        exact hl.client rfl rfl rfl ⟨nofun, fun _ => hreply, nofun⟩ (hholds rfl fun _ => id)
    | write count =>
      obtain ⟨hshared, hnext, hclient⟩ := write_keeps w.net (w.net.client c).sharedFd count
      exact hl.client hshared hnext
        (hclient.trans (Function.update_eq_self c w.net.client).symm) (hl.sane c) fun _ => id
    | exit =>
      dsimp only
      by_cases hfd : (w.net.client c).sharedFd = none
      · rw [if_pos hfd]
        refine hl.client rfl rfl rfl ⟨nofun, fun _ => hreply, fun h => ?_⟩ (hholds rfl fun _ => id)
        rw [((hl.sane c).prompt hp).1] at h
        cases h
      · rw [if_neg hfd]
        exact hl.client rfl rfl rfl ⟨nofun, fun _ => hreply, nofun⟩ (hholds rfl nofun)
  · simp only [if_neg hp]
    exact hl

theorem Linked.drop (hl : Linked w) (c : Nat) : Linked { w with net := w.net.drop c } := by
  unfold Net.drop
  by_cases hp : (w.net.client c).phase = .closing
  · simp only [if_pos hp]
    obtain ⟨hshared, hnext, hclient⟩ := write_keeps w.net (w.net.client c).sharedFd lastWords
    refine hl.client hshared hnext (congrArg (Function.update · c _) hclient)
      ⟨nofun, (hl.sane c).pending, fun h => ?_⟩ fun o h => ?_
    · have hwait := ((hl.sane c).seek h).1
      rw [hp] at hwait
      cases hwait
    · unfold Client.holds at h ⊢
      split at h
      next o' ho' =>
        have hreply : (w.net.client c).reply = some (.fd o') := ho'
        rw [hreply]
        exact h
      next => cases h
  · simp only [if_neg hp]
    exact hl

theorem Linked.receive (hl : Linked w) (c : Nat) : Linked { w with net := w.net.receive c } := by
  have hidle : (w.net.client c).reply ≠ none → (w.net.client c).request = none := by
    intro hreply
    by_contra hreq
    exact hreply ((hl.sane c).pending hreq)
  unfold Net.receive
  cases hr : (w.net.client c).reply with
  | none =>
    simp only [hr]
    exact hl
  | some r =>
    have hnone := hidle (by rw [hr]; exact nofun)
    have hsane : ∀ {fd : Option Nat},
        Client.Sane { w.net.client c with phase := .prompt, sharedFd := fd, reply := none } := by
      intro fd
      refine ⟨fun _ => ⟨hnone, rfl⟩, fun _ => rfl, fun h => ?_⟩
      have hseek : (w.net.client c).request = some .seekStart := h
      rw [hnone] at hseek
      cases hseek
    cases r with
    | fd o =>
      simp only [hr]
      by_cases hp : (w.net.client c).phase = .recvFd
      · rw [if_pos hp]
        refine hl.client rfl rfl rfl hsane fun o' h => ?_
        unfold Client.holds
        rw [hr]
        exact h
      · rw [if_neg hp]
        exact hl
    | ok =>
      simp only [hr]
      by_cases hp : (w.net.client c).phase = .waitOk
      · rw [if_pos hp]
        refine hl.client rfl rfl rfl hsane fun o' h => ?_
        rw [holds_of_reply (by rw [hr]; exact nofun)]
        exact h
      · rw [if_neg hp]
        exact hl

theorem serve_open_some {n : Net} (h : n.sharedFile = some o) : n.serve .open = (n, .fd o) := by
  rw [Net.serve, h]

theorem serve_open_none {n : Net} (h : n.sharedFile = none) :
    n.serve .open = ({ n with
      sharedFile := some n.next
      offset := Function.update n.offset n.next 0
      next := n.next + 1 }, .fd n.next) := by
  rw [Net.serve, h]

/-- `seek_start` moves the offset of `shared_file`, if there is one. -/
theorem serve_seekStart (n : Net) :
    (n.serve .seekStart).2 = .ok ∧ (n.serve .seekStart).1.sharedFile = n.sharedFile ∧
      (n.serve .seekStart).1.next = n.next ∧ (n.serve .seekStart).1.client = n.client ∧
      ∀ o, (n.serve .seekStart).1.offset o = if n.sharedFile = some o then 0 else n.offset o := by
  rw [Net.serve]
  cases h : n.sharedFile with
  | none => exact ⟨rfl, h, rfl, rfl, fun o => (if_neg nofun).symm⟩
  | some o' =>
    refine ⟨rfl, rfl, rfl, rfl, fun o => ?_⟩
    show Function.update n.offset o' 0 o = _
    by_cases ho : o = o'
    · rw [ho, Function.update_self, if_pos rfl]
    · rw [Function.update_of_ne ho, if_neg fun he => ho (Option.some.inj he).symm]

/-- The server's turn. -/
theorem Linked.handle (hl : Linked w) (c : Nat) :
    Linked ⟨w.net.handle c, recordOf w.unclosed c (w.net.client c).request⟩ := by
  unfold Net.handle
  cases hr : (w.net.client c).request with
  | none => exact hl
  | some r =>
    have hreq : (w.net.client c).request ≠ none := by
      rw [hr]
      exact nofun
    have hreply := (hl.sane c).pending hreq
    have hsane : ∀ {rep : Option Reply},
        Client.Sane { w.net.client c with request := none, reply := rep } := fun {rep} =>
      ⟨fun hp => absurd ((hl.sane c).prompt hp).1 hreq, fun h => absurd rfl h, nofun⟩
    have hholds : (w.net.client c).holds = (w.net.client c).sharedFd :=
      holds_of_reply (by rw [hreply]; exact nofun)
    cases r with
    | «open» =>
      have hrec : ∀ d, d ≠ c → recordOf w.unclosed c (some .open) d = w.unclosed d := fun d hd =>
        Function.update_of_ne hd ..
      have htrue : recordOf w.unclosed c (some .open) c = true := Function.update_self ..
      cases hs : w.net.sharedFile with
      | some o =>
        dsimp only
        rw [serve_open_some hs]
        refine hl.set rfl hsane (fun o' h => ?_) (fun d hd o' h => ?_) (Nat.le_refl _) hl.live
        · cases h
          exact ⟨iff_of_true htrue hs, hl.live o hs⟩
        · rw [hrec d hd]
          exact hl.shared d o' h
      | none =>
        dsimp only
        rw [serve_open_none hs]
        refine hl.set rfl hsane (fun o' h => ?_) (fun d hd o' h => ?_) (Nat.le_succ _)
          fun o' h => ?_
        · cases h
          exact ⟨iff_of_true htrue rfl, Nat.lt_succ_self _⟩
        · -- the description is a new one, which nobody else has
          rw [hrec d hd, hl.shared d o' h, hs]
          refine iff_of_false nofun fun he => ?_
          have hlt := hl.old d o' h
          rw [← Option.some.inj he] at hlt
          exact Nat.lt_irrefl _ hlt
        · cases h
          exact Nat.lt_succ_self _
    | seekStart =>
      obtain ⟨hrep, hshared, hnext, hclient, -⟩ := serve_seekStart w.net
      dsimp only
      rw [hrep]
      refine hl.client hshared hnext (congrArg (Function.update · c _) hclient) hsane fun o h => ?_
      rw [hholds]
      exact h
    | close =>
      refine hl.set rfl hsane (fun o h => ?_) (fun d _ o _ => iff_of_false nofun nofun)
        (Nat.le_refl _) nofun
      exact ⟨iff_of_false nofun nofun, hl.old c o (hholds.trans h)⟩

end Steps

/-- One step. -/
theorem Linked.step {w w' : World} (hl : Linked w) {e : Event} (h : step w e = .ok w') :
    Linked w' := by
  cases e with
  | command c cmd => exact Except.ok.inj h ▸ hl.command c cmd
  | drop c => exact Except.ok.inj h ▸ hl.drop c
  | handle c => exact Except.ok.inj h ▸ hl.handle c
  | receive c => exact Except.ok.inj h ▸ hl.receive c

/-- A `seek_start` moves what the client has exactly if the server still has it open. -/
theorem Linked.seek_reaches {w : World} (hl : Linked w) (e : Event) :
    SeeksToStart w e ↔ SeekReaches w e := by
  unfold SeeksToStart SeekReaches
  refine forall₃_congr fun c he hr => ?_
  have hreply := (hl.sane c).pending (by rw [hr]; exact nofun)
  obtain ⟨o, ho⟩ := Option.ne_none_iff_exists'.mp ((hl.sane c).seek hr).2
  have hholds : (w.net.client c).holds = some o :=
    (holds_of_reply (by rw [hreply]; exact nofun)).trans ho
  have hoffset : (w.net.handle c).offset o =
      if w.net.sharedFile = some o then 0 else w.net.offset o := by
    rw [← (serve_seekStart w.net).2.2.2.2 o, Net.handle, hr]
    rfl
  rw [hl.shared c o hholds, ho]
  simp only [Option.some.injEq, exists_eq_left', forall_eq', hoffset]
  by_cases hs : w.net.sharedFile = some o
  · rw [if_pos hs]
    exact iff_of_true rfl (Or.inl hs)
  · rw [if_neg hs, or_iff_right hs]

/-- **When `ok` means that the client is at the start.** In a run of any clients, every
`seek_start` the server answers has taken the client to offset 0 exactly if each of them
comes when no `close` has been handled since the client was passed its descriptor, or
finds the offset at 0. -/
theorem seeks_iff (es : List Event) :
    Along step SeeksToStart .initial es ↔ Along step SeekReaches .initial es :=
  along_congr_of_inv Linked (fun _ _ _ hl h => hl.step h) (fun _ e hl => hl.seek_reaches e) es
    initial_linked

/-- Two clients open the file, the second one closes it, and the first one, which has
written, asks for the start. -/
theorem seek_after_close :
    ¬ Along step SeeksToStart .initial
      [.command 0 .open, .handle 0, .receive 0, .command 1 .open, .handle 1, .receive 1,
        .command 0 (.write 5), .command 1 .close, .handle 1, .command 0 .seekStart, .handle 0] := by
  intro h
  have hopen := (((h.2 _ rfl).2 _ rfl).2 _ rfl).2 _ rfl
  have hlast := ((((((hopen.2 _ rfl).2 _ rfl).2 _ rfl).2 _ rfl).2 _ rfl).2 _ rfl).1
  obtain ⟨o, ho, h0⟩ := hlast 0 rfl rfl
  cases ho
  exact absurd h0 (by decide)

end LinuxNet.Unix
