import LinuxNet.Lib.Except
import LinuxNet.Sip.UdpTable

/-!
# The receive queue of a UDP socket

`SIP_UDPInput` hangs a buffer at the end of the list `conn->skb_recv`, and
`netconn_recv` takes the first one off. The buffers live in cells with a `next`
pointer. The loop that is to look for the end of the list moves the wrong
pointer: it asks for `recvl->next` and goes on to `upcb->next`, so it either has
nothing to do or never ends well.

What the queue is for is `Fifo`: a list of datagrams per socket. `Queues` relates the
two; the simulation (`Queues.step_room`) carries on as long as no datagram arrives at a
socket with two unread ones, and `Queues.step_stuck` is that it ends there.
`lossless_iff` puts them together for whole runs.

The control blocks do not change during a run. A `Listener` is a port that is bound
to a block whose `conn` is set.
-/

namespace LinuxNet.Sip

variable {δ : Type}

/-- `struct skbuff`, as the receive queue sees it. -/
structure RecvSkb (δ : Type) where
  datagram : δ
  next : Option Nat
  deriving DecidableEq, Repr

/-- The buffers, and `skb_recv` of every `struct sock`. -/
structure SockState (δ : Type) where
  skb : Nat → Option (RecvSkb δ)
  skbRecv : Nat → Option Nat
  /-- The next address `malloc` returns. -/
  brk : Nat
  /-- What the calls of `netconn_recv` have returned so far, each with its `conn`. -/
  reads : List (Nat × Option δ)

/-- No buffers, and nothing to read. -/
def SockState.initial : SockState δ := ⟨fun _ => none, fun _ => none, 0, []⟩

namespace SockState

/-- The `next` pointers. -/
def link (st : SockState δ) (s : Nat) : Option (Option Nat) := (st.skb s).map (·.next)

/-- What the buffers hold. -/
def datagram (st : SockState δ) (s : Nat) : Option δ := (st.skb s).map (·.datagram)

/-- `s->next`. -/
def next (st : SockState δ) (s : Nat) : Except Fault (Option Nat) :=
  match st.skb s with
  | some c => .ok c.next
  | none => .error .useAfterFree

/-- `s->next = n`. -/
def setNext (st : SockState δ) (s : Nat) (n : Option Nat) : Except Fault (SockState δ) :=
  match st.skb s with
  | some c => .ok { st with skb := Function.update st.skb s (some { c with next := n }) }
  | none => .error .useAfterFree

/-- A new buffer with a datagram in it; it is at the old `brk`. -/
def alloc (st : SockState δ) (d : δ) : SockState δ :=
  { st with skb := Function.update st.skb st.brk (some ⟨d, none⟩), brk := st.brk + 1 }

/-- `for(; recvl->next != NULL; upcb = upcb->next)`: nothing in it changes `recvl`, whose
`next` is given. -/
def tailLoop (udp : UdpState) (next : Option Nat) : Nat → Option Nat → Except Fault Unit
  | 0, _ => .error .diverges
  | turns + 1, upcb =>
    if next = none then .ok ()
    else do
      let c ← udp.deref upcb
      tailLoop udp next turns c.next

/-- `SIP_UDPInput` with a buffer and the destination port in its header. It runs off its
end without a `return` when it has queued the buffer. -/
def udpInput (udp : UdpState) (st : SockState δ) (s : Nat) (port : BitVec 16) :
    Except Fault (SockState δ × Option Int) := do
  match ← udp.udpLookup port with
  | none => return (st, some 0)
  | some upcb => do
    let c ← udp.deref (some upcb)
    match c.conn with
    | none => return (st, some 1)
    | some conn =>
      match st.skbRecv conn with
      | none => do
        let st := { st with skbRecv := Function.update st.skbRecv conn (some s) }
        let st ← st.setNext s none
        return (st, none)
      | some recvl => do
        let next ← st.next recvl
        tailLoop udp next (udp.fuel + 1) (some upcb)
        let st ← st.setNext recvl (some s)
        let st ← st.setNext s none
        return (st, none)

/-- `netconn_recv`. -/
def netconnRecv (st : SockState δ) (conn : Nat) : Except Fault (SockState δ × Option Nat) :=
  match st.skbRecv conn with
  | none => .ok (st, none)
  | some s => do
    let next ← st.next s
    let st := { st with skbRecv := Function.update st.skbRecv conn next }
    let st ← st.setNext s none
    return (st, some s)

end SockState

/-! ## Runs -/

/-- A port that is bound to a block whose `conn` is set. -/
structure Listener (udp : UdpState) where
  port : BitVec 16
  pcb : Nat
  block : UdpPcb
  conn : Nat
  found : udp.udpLookup port = .ok (some pcb)
  live : udp.pcb pcb = some block
  connSet : block.conn = some conn

/-- What happens to the queues. -/
inductive SockEv (udp : UdpState) (δ : Type) where
  | arrive (l : Listener udp) (d : δ)
  | recv (conn : Nat)

variable {udp : UdpState}

/-- A datagram arrives in a new buffer, or a socket is read. -/
def sockStep (udp : UdpState) (st : SockState δ) : SockEv udp δ → Except Fault (SockState δ)
  | .arrive l d => (SockState.udpInput udp (st.alloc d) st.brk l.port).map (·.1)
  | .recv conn => do
    let (st, s) ← st.netconnRecv conn
    return { st with reads := st.reads ++ [(conn, s.bind st.datagram)] }

/-! ## What the queue is for -/

/-- A queue of datagrams for every socket, and what has been read. -/
structure Fifo (δ : Type) where
  queue : Nat → List δ
  reads : List (Nat × Option δ)

/-- Nothing to read. -/
def Fifo.empty : Fifo δ := ⟨fun _ => [], []⟩

/-- A datagram goes to the end of the queue, and is read from the front. -/
def Fifo.step (q : Fifo δ) : SockEv udp δ → Fifo δ
  | .arrive l d => { q with queue := Function.update q.queue l.conn (q.queue l.conn ++ [d]) }
  | .recv conn =>
    ⟨Function.update q.queue conn (q.queue conn).tail, q.reads ++ [(conn, (q.queue conn).head?)]⟩

@[simp] theorem Fifo.queue_arrive (q : Fifo δ) (l : Listener udp) (d : δ) :
    (q.step (.arrive l d)).queue l.conn = q.queue l.conn ++ [d] := Function.update_self ..

theorem Fifo.queue_arrive_ne {k : Nat} (q : Fifo δ) (l : Listener udp) (d : δ) (h : k ≠ l.conn) :
    (q.step (.arrive l d)).queue k = q.queue k := Function.update_of_ne h ..

@[simp] theorem Fifo.queue_recv (q : Fifo δ) (conn : Nat) :
    (q.step (.recv conn : SockEv udp δ)).queue conn = (q.queue conn).tail := Function.update_self ..

theorem Fifo.queue_recv_ne {k conn : Nat} (q : Fifo δ) (h : k ≠ conn) :
    (q.step (.recv conn : SockEv udp δ)).queue k = q.queue k := Function.update_of_ne h ..

/-- The run terminates, and the reads return what they return on a FIFO. -/
def Lossless (udp : UdpState) (evs : List (SockEv udp δ)) : Prop :=
  ∃ st, run (sockStep udp) .initial evs = .ok st ∧ st.reads = (evs.foldl Fifo.step .empty).reads

/-! ## The two functions, on a listener -/

namespace SockState

variable {st : SockState δ} {s r : Nat} {c b : RecvSkb δ}

/-- The state in which a buffer has been written. -/
def write (st : SockState δ) (s : Nat) (c : RecvSkb δ) : SockState δ :=
  { st with skb := Function.update st.skb s (some c) }

/-- The state in which `skb_recv` has been written. -/
def setRecv (st : SockState δ) (conn : Nat) (s : Option Nat) : SockState δ :=
  { st with skbRecv := Function.update st.skbRecv conn s }

@[simp] theorem skb_write_self (st : SockState δ) (s : Nat) (c : RecvSkb δ) :
    (st.write s c).skb s = some c := Function.update_self ..

theorem skb_write_ne (h : s ≠ r) (st : SockState δ) (c : RecvSkb δ) :
    (st.write r c).skb s = st.skb s := Function.update_of_ne h ..

@[simp] theorem setRecv_self (st : SockState δ) (conn : Nat) (h : Option Nat) :
    (st.setRecv conn h).skbRecv conn = h := Function.update_self ..

theorem setRecv_ne {j conn : Nat} (hj : j ≠ conn) (st : SockState δ) (h : Option Nat) :
    (st.setRecv conn h).skbRecv j = st.skbRecv j := Function.update_of_ne hj ..

theorem skb_alloc_self (st : SockState δ) (d : δ) : (st.alloc d).skb st.brk = some ⟨d, none⟩ :=
  Function.update_self ..

theorem skb_alloc_ne (h : s ≠ st.brk) (d : δ) : (st.alloc d).skb s = st.skb s :=
  Function.update_of_ne h ..

theorem link_eq (h : st.skb s = some c) : st.link s = some c.next := by
  rw [link, h]
  rfl

theorem datagram_eq (h : st.skb s = some c) : st.datagram s = some c.datagram := by
  rw [datagram, h]
  rfl

theorem next_eq (h : st.skb s = some c) : st.next s = .ok c.next := by
  rw [next, h]

theorem setNext_eq (h : st.skb s = some c) (n : Option Nat) :
    st.setNext s n = .ok (st.write s { c with next := n }) := by
  rw [setNext, h]
  rfl

/-- The loop that looks for the end has nothing to do, or does not end well. -/
theorem tailLoop_ne_ok {n : Option Nat} (hn : n ≠ none) (turns : Nat) :
    ∀ (upcb : Option Nat) (u : Unit), tailLoop udp n turns upcb ≠ .ok u := by
  induction turns with
  | zero =>
    intro upcb u h
    cases h
  | succ turns ih =>
    intro upcb u
    rw [tailLoop, if_neg hn]
    cases udp.deref upcb with
    | error f =>
      intro h
      cases h
    | ok c => exact ih c.next u

/-- The first datagram of an empty queue. -/
theorem udpInput_first (l : Listener udp) (hrecv : st.skbRecv l.conn = none)
    (hs : st.skb s = some c) :
    udpInput udp st s l.port =
      .ok ((st.setRecv l.conn (some s)).write s { c with next := none }, none) := by
  unfold udpInput
  simp only [l.found, UdpState.deref_eq l.live, l.connSet, hrecv, setNext, hs, bind, Except.bind]
  rfl

/-- A datagram behind the only one. -/
theorem udpInput_second (l : Listener udp) (hrecv : st.skbRecv l.conn = some r)
    (hr : st.skb r = some b) (hb : b.next = none) (hs : st.skb s = some c) (hne : s ≠ r) :
    udpInput udp st s l.port =
      .ok ((st.write r { b with next := some s }).write s { c with next := none }, none) := by
  have hs' : (st.write r { b with next := some s }).skb s = some c := by
    rw [skb_write_ne hne, hs]
  unfold udpInput
  simp only [l.found, UdpState.deref_eq l.live, l.connSet, hrecv, next_eq hr, hb, tailLoop,
    if_true, setNext_eq hr, setNext_eq hs', bind, Except.bind]
  rfl

/-- No datagram gets behind two. -/
theorem udpInput_stuck (l : Listener udp) (hrecv : st.skbRecv l.conn = some r)
    (hr : st.skb r = some b) (hb : b.next ≠ none) : ∀ x, udpInput udp st s l.port ≠ .ok x := by
  intro x
  unfold udpInput
  simp only [l.found, UdpState.deref_eq l.live, l.connSet, hrecv, next_eq hr, bind, Except.bind]
  cases h : tailLoop udp b.next (udp.fuel + 1) (some l.pcb) with
  | error f => exact nofun
  | ok u => exact absurd h (tailLoop_ne_ok hb _ _ u)

theorem netconnRecv_none {conn : Nat} (hrecv : st.skbRecv conn = none) :
    st.netconnRecv conn = .ok (st, none) := by
  rw [netconnRecv, hrecv]

theorem netconnRecv_some {conn : Nat} (hrecv : st.skbRecv conn = some s) (hs : st.skb s = some c) :
    st.netconnRecv conn =
      .ok ((st.setRecv conn c.next).write s { c with next := none }, some s) := by
  unfold netconnRecv
  simp only [hrecv, next_eq hs, setNext, hs, bind, Except.bind]
  rfl

theorem setNext_brk {st st' : SockState δ} {s : Nat} {n : Option Nat}
    (h : st.setNext s n = .ok st') : st'.brk = st.brk := by
  unfold setNext at h
  split at h
  next =>
    cases h
    rfl
  next => cases h

theorem deref_live {udp : UdpState} {p : Nat} {c : UdpPcb} (h : udp.deref (some p) = .ok c) :
    udp.pcb p = some c := by
  unfold UdpState.deref at h
  dsimp only at h
  split at h
  next hc =>
    cases h
    exact hc
  next => cases h

/-- `SIP_UDPInput` allocates nothing, and without a listener for the port it does nothing. -/
theorem udpInput_ok {st st' : SockState δ} {s : Nat} {port : BitVec 16} {r : Option Int}
    (h : udpInput udp st s port = .ok (st', r)) :
    st'.brk = st.brk ∧
      ((∃ l : Listener udp, l.port = port) ∨ st' = st ∧ ∀ l : Listener udp, l.port ≠ port) := by
  obtain ⟨found, hfound, h⟩ := bind_eq_ok.mp h
  cases found with
  | none =>
    cases h
    refine ⟨rfl, .inr ⟨rfl, fun l hl => ?_⟩⟩
    -- a listener for the port would have been found
    have hl' := l.found
    rw [hl, hfound] at hl'
    cases hl'
  | some upcb =>
    obtain ⟨c, hc, h⟩ := bind_eq_ok.mp h
    have hlive := deref_live hc
    cases hconn : c.conn with
    | none =>
      rw [hconn] at h
      cases h
      refine ⟨rfl, .inr ⟨rfl, fun l hl => ?_⟩⟩
      have hl' := l.found
      rw [hl, hfound] at hl'
      cases hl'
      have hset := l.connSet
      rw [Option.some.inj (l.live.symm.trans hlive), hconn] at hset
      cases hset
    | some conn =>
      rw [hconn] at h
      dsimp only at h
      refine ⟨?_, .inl ⟨⟨port, upcb, c, conn, hfound, hlive, hconn⟩, rfl⟩⟩
      split at h
      next =>
        obtain ⟨st1, h1, h⟩ := bind_eq_ok.mp h
        cases h
        exact @setNext_brk _ (st.setRecv conn (some s)) _ _ _ h1
      next =>
        obtain ⟨_, -, h⟩ := bind_eq_ok.mp h
        obtain ⟨_, -, h⟩ := bind_eq_ok.mp h
        obtain ⟨st1, h1, h⟩ := bind_eq_ok.mp h
        obtain ⟨st2, h2, h⟩ := bind_eq_ok.mp h
        cases h
        exact (setNext_brk h2).trans (setNext_brk h1)

end SockState

/-! ## The simulation -/

/-- There is at most one unread datagram where one arrives. -/
def Room (q : Fifo δ) : SockEv udp δ → Prop
  | .arrive l _ => (q.queue l.conn).length < 2
  | .recv _ => True

/-- The list of every socket holds the datagrams of its queue, and no two lists share a
buffer. -/
structure Queues (st : SockState δ) (q : Fifo δ) (L : Nat → List Nat) : Prop where
  linked : ∀ k, Linked st.link (st.skbRecv k) (L k)
  data : ∀ k, (L k).map st.datagram = (q.queue k).map some
  apart : ∀ j k s, s ∈ L j → s ∈ L k → j = k
  fresh : ∀ s, st.brk ≤ s → st.skb s = none
  reads : st.reads = q.reads

theorem initial_queues : Queues (.initial : SockState δ) .empty fun _ => [] where
  linked _ := rfl
  data _ := rfl
  apart _ _ _ h := nomatch h
  fresh _ _ := rfl
  reads := rfl

namespace Queues

open SockState

variable {st st' : SockState δ} {q q' : Fifo δ} {L : Nat → List Nat} {k s : Nat}

theorem live (hq : Queues st q L) (h : s ∈ L k) : ∃ c, st.skb s = some c := by
  obtain ⟨next, hn⟩ := (hq.linked k).live s h
  obtain ⟨c, hc, _⟩ := Option.map_eq_some_iff.mp hn
  exact ⟨c, hc⟩

theorem length_eq (hq : Queues st q L) (k : Nat) : (L k).length = (q.queue k).length := by
  have := congrArg List.length (hq.data k)
  rwa [List.length_map, List.length_map] at this

/-- **Frame**: a change of one list. Its new buffers are its old ones or unused before, and
no other buffer is written. -/
theorem changed (hq : Queues st q L) {l' : List Nat} (hlinked : Linked st'.link (st'.skbRecv k) l')
    (hdata : l'.map st'.datagram = (q'.queue k).map some)
    (hown : ∀ s ∈ l', s ∈ L k ∨ st.skb s = none)
    (hskb : ∀ s, s ∉ L k → st.skb s ≠ none → st'.skb s = st.skb s)
    (hrecv : ∀ j, j ≠ k → st'.skbRecv j = st.skbRecv j)
    (hqueue : ∀ j, j ≠ k → q'.queue j = q.queue j)
    (hfresh : ∀ s, st'.brk ≤ s → st'.skb s = none) (hreads : st'.reads = q'.reads) :
    Queues st' q' (Function.update L k l') := by
  -- no other list has a buffer of the one that changes
  have hkeep : ∀ j, j ≠ k → ∀ s ∈ L j, st'.skb s = st.skb s := fun j hj s hs => by
    obtain ⟨c, hc⟩ := hq.live hs
    exact hskb s (fun hs' => hj (hq.apart j k s hs hs')) (by rw [hc]; nofun)
  have hforeign : ∀ j, j ≠ k → ∀ s ∈ L j, s ∉ l' := fun j hj s hs hs' => by
    obtain ⟨c, hc⟩ := hq.live hs
    rcases hown s hs' with h | h
    · exact hj (hq.apart j k s hs h)
    · rw [hc] at h
      exact nomatch h
  refine ⟨fun j => ?_, fun j => ?_, fun i j s hi hj => ?_, hfresh, hreads⟩
  · by_cases hj : j = k
    · subst hj
      rw [Function.update_self]
      exact hlinked
    · rw [Function.update_of_ne hj, hrecv j hj]
      exact (hq.linked j).congr fun s hs => by rw [link, link, hkeep j hj s hs]
  · by_cases hj : j = k
    · subst hj
      rw [Function.update_self]
      exact hdata
    · rw [Function.update_of_ne hj, hqueue j hj, ← hq.data j]
      exact List.map_congr_left fun s hs => by rw [datagram, datagram, hkeep j hj s hs]
  · by_cases hik : i = k
    · by_cases hjk : j = k
      · rw [hik, hjk]
      · rw [hik, Function.update_self] at hi
        rw [Function.update_of_ne hjk] at hj
        exact absurd hi (hforeign j hjk s hj)
    · rw [Function.update_of_ne hik] at hi
      by_cases hjk : j = k
      · rw [hjk, Function.update_self] at hj
        exact absurd hj (hforeign i hik s hi)
      · rw [Function.update_of_ne hjk] at hj
        exact hq.apart i j s hi hj

/-- The next buffer is in no list. -/
theorem brk_not_mem (hq : Queues st q L) (k : Nat) : st.brk ∉ L k := fun hm => by
  obtain ⟨c, hc⟩ := hq.live hm
  rw [hq.fresh _ (Nat.le_refl _)] at hc
  exact nomatch hc

/-- A datagram for an empty queue. -/
theorem arrive_first (hq : Queues st q L) (l : Listener udp) (d : δ) (hL : L l.conn = []) :
    ∃ st', sockStep udp st (.arrive l d) = .ok st' ∧
      Queues st' (q.step (.arrive l d)) (Function.update L l.conn [st.brk]) := by
  have hrecv : (st.alloc d).skbRecv l.conn = none := by
    have := hq.linked l.conn
    rwa [hL] at this
  have hempty : q.queue l.conn = [] := by
    rw [← List.length_eq_zero_iff, ← hq.length_eq, hL, List.length_nil]
  rw [sockStep, udpInput_first l hrecv (skb_alloc_self st d)]
  have hold : ∀ s, s ≠ st.brk →
      (((st.alloc d).setRecv l.conn (some st.brk)).write st.brk ⟨d, none⟩).skb s = st.skb s :=
    fun s hs => (skb_write_ne hs ..).trans (skb_alloc_ne hs d)
  refine ⟨_, rfl, hq.changed ?_ ?_ (fun s hs => Or.inr ?_) (fun s _ hs => hold s ?_)
    (fun j hj => setRecv_ne hj ..) (fun j hj => q.queue_arrive_ne l d hj) (fun s hs => ?_) hq.reads⟩
  · exact ⟨setRecv_self .., none, link_eq (skb_write_self ..), rfl⟩
  · rw [Fifo.queue_arrive, hempty, List.map_singleton, datagram_eq (skb_write_self ..)]
    rfl
  · rw [List.mem_singleton.mp hs]
    exact hq.fresh _ (Nat.le_refl _)
  · intro he
    subst he
    exact hs (hq.fresh _ (Nat.le_refl _))
  · rw [hold s (Nat.ne_of_gt hs)]
    exact hq.fresh s (Nat.le_of_succ_le hs)

/-- A datagram behind the only unread one. -/
theorem arrive_second (hq : Queues st q L) (l : Listener udp) (d : δ) {r : Nat}
    (hL : L l.conn = [r]) :
    ∃ st', sockStep udp st (.arrive l d) = .ok st' ∧
      Queues st' (q.step (.arrive l d)) (Function.update L l.conn [r, st.brk]) := by
  obtain ⟨hrecv, n, hn, hnone⟩ : Linked st.link (st.skbRecv l.conn) [r] := hL ▸ hq.linked l.conn
  obtain ⟨b, hb, rfl⟩ := Option.map_eq_some_iff.mp hn
  have hr : r ≠ st.brk := fun he => hq.brk_not_mem l.conn (by rw [hL, he]; exact .head _)
  have hone : (q.queue l.conn).map some = [some b.datagram] := by
    rw [← hq.data, hL, List.map_singleton, datagram_eq hb]
  have hback : ((st.alloc d).write r { b with next := some st.brk }).skb r =
      some { b with next := some st.brk } := skb_write_self ..
  rw [sockStep, udpInput_second l (show (st.alloc d).skbRecv l.conn = some r from hrecv)
    ((skb_alloc_ne hr d).trans hb) hnone
    (skb_alloc_self st d) (Ne.symm hr)]
  have hold : ∀ s, s ≠ st.brk → s ≠ r →
      (((st.alloc d).write r { b with next := some st.brk }).write st.brk ⟨d, none⟩).skb s =
        st.skb s :=
    fun s hs hsr => (skb_write_ne hs ..).trans ((skb_write_ne hsr ..).trans (skb_alloc_ne hs d))
  have hfirst :
      (((st.alloc d).write r { b with next := some st.brk }).write st.brk ⟨d, none⟩).skb r =
      some { b with next := some st.brk } := (skb_write_ne hr ..).trans hback
  refine ⟨_, rfl, hq.changed ?_ ?_ (fun s hs => ?_) (fun s hs hlive => hold s ?_ ?_)
    (fun _ _ => rfl) (fun j hj => q.queue_arrive_ne l d hj) (fun s hs => ?_) hq.reads⟩
  · exact ⟨hrecv, _, link_eq hfirst, rfl, _, link_eq (skb_write_self ..), rfl⟩
  -- the list holds the old datagram and then the new one
  · rw [Fifo.queue_arrive, List.map_append, hone, List.map_cons, List.map_singleton,
      datagram_eq hfirst, datagram_eq (skb_write_self ..)]
    rfl
  · rcases List.mem_cons.mp hs with rfl | hs
    · exact Or.inl (hL ▸ .head _)
    · rw [List.mem_singleton.mp hs]
      exact Or.inr (hq.fresh _ (Nat.le_refl _))
  · intro he
    subst he
    exact hlive (hq.fresh _ (Nat.le_refl _))
  · intro he
    subst he
    exact hs (hL ▸ .head _)
  · have hsr : s ≠ r := fun he => by
      rw [he] at hs
      have := hq.fresh r (Nat.le_of_succ_le hs)
      rw [hb] at this
      exact nomatch this
    rw [hold s (Nat.ne_of_gt hs) hsr]
    exact hq.fresh s (Nat.le_of_succ_le hs)

/-- A read takes the first buffer off. -/
theorem read (hq : Queues st q L) (conn : Nat) :
    ∃ st', sockStep udp st (.recv conn) = .ok st' ∧
      Queues st' (q.step (.recv conn : SockEv udp δ)) (Function.update L conn (L conn).tail) := by
  have hdata := hq.data conn
  have hlinked := hq.linked conn
  rw [sockStep]
  cases hL : L conn with
  | nil =>
    rw [hL] at hdata hlinked
    have hempty : q.queue conn = [] := List.map_eq_nil_iff.mp hdata.symm
    rw [netconnRecv_none hlinked]
    refine ⟨_, rfl, hq.changed hlinked ?_ nofun (fun _ _ _ => rfl) (fun _ _ => rfl)
      (fun j hj => q.queue_recv_ne hj) hq.fresh ?_⟩
    · rw [Fifo.queue_recv, hempty]
      rfl
    · rw [Fifo.step, hempty, hq.reads]
      rfl
  | cons s l =>
    rw [hL] at hdata hlinked
    have hnot := (List.nodup_cons.mp hlinked.nodup).1
    obtain ⟨hrecv, n, hn, hrest⟩ := hlinked
    obtain ⟨c, hc, rfl⟩ := Option.map_eq_some_iff.mp hn
    cases hqueue : q.queue conn with
    | nil =>
      rw [hqueue] at hdata
      exact nomatch hdata
    | cons d ds =>
      rw [hqueue, List.map_cons, List.map_cons, datagram_eq hc, List.cons.injEq] at hdata
      rw [netconnRecv_some hrecv hc]
      -- only the first buffer is written, and the list begins behind it
      have hold : ∀ r, r ≠ s →
          ((st.setRecv conn c.next).write s { c with next := none }).skb r = st.skb r :=
        fun r hr => skb_write_ne hr ..
      have hne : ∀ r ∈ l, r ≠ s := fun r hr he => hnot (he ▸ hr)
      refine ⟨_, rfl, hq.changed ?_ ?_ (fun r hr => Or.inl (hL ▸ .tail _ hr)) (fun r hr _ => ?_)
        (fun j hj => setRecv_ne hj ..) (fun j hj => q.queue_recv_ne hj) (fun r hr => ?_) ?_⟩
      · rw [show (setRecv st conn c.next |>.write s _).skbRecv conn = c.next from setRecv_self ..]
        exact hrest.congr fun r hr => by rw [link, link, hold r (hne r hr)]
      · rw [Fifo.queue_recv, hqueue]
        refine (List.map_congr_left fun r hr => ?_).trans hdata.2
        rw [datagram, datagram, ← hold r (hne r hr)]
      · exact hold r fun he => hr (he ▸ hL ▸ .head _)
      · have hrs : r ≠ s := fun he => by
          have := hq.fresh r hr
          rw [he, hc] at this
          exact nomatch this
        rw [← hq.fresh r hr]
        exact hold r hrs
      · have hback :
            ((st.setRecv conn c.next).write s { c with next := none }).datagram s = some d :=
          (datagram_eq (skb_write_self ..)).trans hdata.1
        rw [Fifo.step, hqueue, List.head?_cons, ← hback, ← hq.reads]
        rfl

/-- What one event does when there is room. -/
theorem step_room (hq : Queues st q L) (e : SockEv udp δ) (hroom : Room q e) :
    ∃ st' L', sockStep udp st e = .ok st' ∧ Queues st' (q.step e) L' := by
  cases e with
  | recv conn =>
    obtain ⟨st', h⟩ := hq.read conn
    exact ⟨st', _, h⟩
  | arrive l d =>
    have hlen : (L l.conn).length < 2 := hq.length_eq l.conn ▸ hroom
    match hL : L l.conn, hlen with
    | [], _ =>
      obtain ⟨st', h⟩ := hq.arrive_first l d hL
      exact ⟨st', _, h⟩
    | [r], _ =>
      obtain ⟨st', h⟩ := hq.arrive_second l d hL
      exact ⟨st', _, h⟩

/-- A datagram behind two is where the run ends. -/
theorem step_stuck (hq : Queues st q L) (e : SockEv udp δ) (hroom : ¬ Room q e) :
    sockStep udp st e ≠ .ok st' := by
  cases e with
  | recv conn => exact absurd trivial hroom
  | arrive l d =>
    have hlen : ¬ (L l.conn).length < 2 := hq.length_eq l.conn ▸ hroom
    match hL : L l.conn, hlen with
    | [], hlen => exact absurd Nat.zero_lt_two hlen
    | [_], hlen => exact absurd Nat.one_lt_two hlen
    | r :: r' :: rest, _ =>
      obtain ⟨hrecv, n, hn, hr', _⟩ : Linked st.link (st.skbRecv l.conn) (r :: r' :: rest) :=
        hL ▸ hq.linked l.conn
      obtain ⟨b, hb, rfl⟩ := Option.map_eq_some_iff.mp hn
      have hr : r ≠ st.brk := fun he => hq.brk_not_mem l.conn (by rw [hL, he]; exact .head _)
      -- the first of the two has a `next`, and the loop does not get past it
      have hstuck := udpInput_stuck (s := st.brk) l
        (show (st.alloc d).skbRecv l.conn = some r from hrecv)
        ((skb_alloc_ne hr d).trans hb) (by rw [hr']; nofun)
      rw [sockStep]
      cases h : udpInput udp (st.alloc d) st.brk l.port with
      | error f => exact nofun
      | ok x => exact absurd h (hstuck x)

end Queues

/-- **When the receive queues are lossless.** A run terminates and its reads return
what they return on FIFOs exactly if no datagram arrives at a socket with two
unread ones. -/
theorem lossless_iff (udp : UdpState) (evs : List (SockEv udp δ)) :
    Lossless udp evs ↔
      Along (fun q e => (.ok (Fifo.step q e) : Except Fault (Fifo δ))) Room .empty evs := by
  have hstep : ∀ (st : SockState δ) (q : Fifo δ) (e : SockEv udp δ), (∃ L, Queues st q L) →
      Room q e → ∃ st', sockStep udp st e = .ok st' ∧ ∃ L, Queues st' (q.step e) L := by
    intro st q e h hroom
    obtain ⟨L, hq⟩ := h
    obtain ⟨st', L', h, hq'⟩ := hq.step_room e hroom
    exact ⟨st', h, L', hq'⟩
  constructor
  · intro h
    obtain ⟨st, hrun, _⟩ := h
    exact along_of_run hstep (fun _ _ e _ ⟨_, hq⟩ hroom => hq.step_stuck e hroom) evs
      ⟨_, initial_queues⟩ hrun
  · intro ha
    obtain ⟨st, hrun, L, hq⟩ := run_simulates hstep evs ⟨_, initial_queues⟩ ha
    exact ⟨st, hrun, hq.reads⟩

/-- One block, bound to port 5, of socket 0. -/
def oneSocket : UdpState where
  pcb := Function.update (fun _ => none) 0
    (some ⟨0#32, 0#32, 255#8, none, 0#8, 5#16, 0#16, some 0⟩)
  table := Function.update (fun _ => none) 5 (some 0)
  index := 0#32
  brk := 1

/-- Its port. -/
def oneListener : Listener oneSocket := ⟨5#16, 0, _, 0, rfl, rfl, rfl⟩

/-- The third datagram follows NULL: `upcb` is at the end of its list before `recvl` has
moved. -/
theorem third_datagram_stuck :
    ¬ Lossless oneSocket
      [.arrive oneListener 'a', .arrive oneListener 'b', .arrive oneListener 'c'] := by
  intro h
  obtain ⟨st, hrun, _⟩ := h
  have hfault : run (sockStep oneSocket) .initial
      [.arrive oneListener 'a', .arrive oneListener 'b', .arrive oneListener 'c'] =
        .error .nullDeref := rfl
  rw [hfault] at hrun
  exact nomatch hrun

end LinuxNet.Sip
