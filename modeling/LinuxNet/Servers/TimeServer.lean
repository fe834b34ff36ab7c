import LinuxNet.Lib.Descriptors
import LinuxNet.Lib.Memory
import LinuxNet.Lib.Run

/-!
# The time server with two threads

One thread of `14.4.2/server.c` accepts connections and puts them into `connect_host`,
the other one waits for them with `select`, answers and takes them out; `connect_number`
is to be the number of entries that are not -1. A run is any order of their steps: a
connection that is accepted and stored, the filling of `scanfd` with its `select`, and one
turn of the loop behind it, which may serve a connection. What the kernel answers is part
of the step. On its side stand the open descriptors, those of them that `accept` has
returned, and which have been served and closed. A step is taken as a whole: what becomes
of one variable when both threads write it at once is left out.

Two slips meet here. `main` fills `connect_host` with a `memset` of `CLIENTNUM` bytes,
which is a quarter of it, and `handle_request` clears an entry before it closes what the
entry holds. `never_accounted` is what comes of them, and `mirrors_iff` what the two
counts still do: they keep the distance they have at the start, for as long as no failed
`accept` is stored.
-/

namespace LinuxNet.TimeServer

/-- `CLIENTNUM`. -/
def clientNum : Nat := 1024

/-- The shared variables, where `handle_request` is (before `select`, or in the loop at
an index, with `scanfd`), and the kernel's side. -/
structure State where
  connectHost : Fin clientNum → Int
  connectNumber : Int
  scan : Option (Nat × Finset Int)
  /-- The open descriptors. -/
  opened : Finset Nat
  /-- Those of them that `accept` has returned. -/
  clients : Finset Nat
  /-- What has been received from, what has been told the time, and what has been closed. -/
  served : List Int
  told : List Int
  closed : List Int

/-- A step: `handle_connect` accepts, if `accept` succeeds, or `handle_request` goes on,
where `select` may say what is ready and `recv` may get a message. -/
inductive Ev where
  | connect (accepted : Bool)
  | request (ready : Option (Int → Bool)) (msg : Option (List Byte))

/-- `memset(p, c, n)`. -/
def memset (c : Byte) (n : Nat) (m : Mem) : Mem := fun o => if o < n then c else m o

/-- An entry of an array of integers. -/
def intAt (m : Mem) (i : Nat) : Int := (m.u32 (4 * i)).toInt

namespace State

/-- What `main` sets up in a process with some open descriptors, one more being the
listening one; `connect_host` is static. -/
def main (opened : Finset Nat) : State where
  connectHost i := intAt (memset (-1) clientNum Mem.zero) i
  connectNumber := 0
  scan := none
  opened := insert (lowestFree opened 0) opened
  clients := ∅
  served := []
  told := []
  closed := []

/-- `close`: a descriptor that is not open is an error. -/
def close (st : State) (fd : Int) : State :=
  if 0 ≤ fd ∧ fd.toNat ∈ st.opened then
    { st with
      opened := st.opened.erase fd.toNat, clients := st.clients.erase fd.toNat
      closed := fd :: st.closed }
  else st

/-- The first entry that is free. -/
def firstFree (st : State) : Option (Fin clientNum) :=
  (List.finRange clientNum).find? fun i => st.connectHost i = -1

/-- `connect_host[i] = s_c; connect_number++`, at the first free entry if there is one. -/
def store (st : State) (s_c : Int) : State :=
  st.firstFree.elim st fun i =>
    { st with
      connectHost := Function.update st.connectHost i s_c
      connectNumber := st.connectNumber + 1 }

/-- A turn of the loop of `handle_connect`; the result of `accept` is not looked at. -/
def handleConnect (st : State) (accepted : Bool) : State :=
  if accepted = true then
    let fd := lowestFree st.opened 0
    { st with opened := insert fd st.opened, clients := insert fd st.clients }.store fd
  else st.store (-1)

/-- The filling of `scanfd` and `select`; the loop behind it is gone into if something is
ready and there are connections. -/
def select (st : State) (ready : Option (Int → Bool)) : State :=
  ready.elim st fun fds =>
    let scanfd := ((Finset.univ.image st.connectHost).erase (-1)).filter fun fd => fds fd = true
    if scanfd = ∅ ∨ st.connectNumber ≤ 0 then st else { st with scan := some (0, scanfd) }

/-- `n > 0 && !strncmp(buff, "TIME", 4)`. -/
def asksTime (msg : Option (List Byte)) : Bool :=
  msg.any fun bytes => bytes.take 4 == [0x54, 0x49, 0x4D, 0x45]

/-- The body of the loop for an entry that is ready. -/
def serve (st : State) (i : Fin clientNum) (msg : Option (List Byte)) : State :=
  let fd := st.connectHost i
  let st := { st with
    served := fd :: st.served
    told := if asksTime msg = true then fd :: st.told else st.told }
  let st := { st with
    connectHost := Function.update st.connectHost i (-1)
    connectNumber := st.connectNumber - 1 }
  st.close (st.connectHost i)

/-- A step of `handle_request`. -/
def handleRequest (st : State) (ready : Option (Int → Bool)) (msg : Option (List Byte)) : State :=
  st.scan.elim (st.select ready) fun pos =>
    if h : pos.1 < clientNum then
      let next := { st with scan := some (pos.1 + 1, pos.2) }
      if st.connectHost ⟨pos.1, h⟩ ≠ -1 ∧ st.connectHost ⟨pos.1, h⟩ ∈ pos.2 then
        next.serve ⟨pos.1, h⟩ msg
      else next
    else { st with scan := none }

end State

/-- A step of one of the threads. -/
def step (st : State) : Ev → Except Fault State
  | .connect accepted => .ok (st.handleConnect accepted)
  | .request ready msg => .ok (st.handleRequest ready msg)

/-! ## What is to hold -/

/-- The number of entries different from -1. -/
def State.entries (st : State) : Nat := (Finset.univ.filter fun i => st.connectHost i ≠ -1).card

/-- The entries are connections that are open, `connect_number` is their number, and what
has been served has been closed once. -/
structure Accounted (st : State) : Prop where
  number : st.connectNumber = st.entries
  client : ∀ i, st.connectHost i ≠ -1 → ∃ fd ∈ st.clients, st.connectHost i = fd
  closed : ∀ fd, st.closed.count fd = st.served.count fd

/-- The connections are accounted for in every state of a run. -/
def Accounts (opened : Finset Nat) (evs : List Ev) : Prop :=
  Always step Accounted (.main opened) evs

/-- A failed `accept` is stored. -/
def StoresFailure (st : State) : Ev → Prop
  | .connect accepted => accepted = false ∧ ∃ i, st.connectHost i = -1
  | .request _ _ => False

/-! ## What the functions do -/

variable {st : State}

/-- What `memset` writes to a whole entry, and an entry that it does not get to. -/
theorem intAt_memset {c : Byte} {n i : Nat} (m : Mem) (h : 4 * i + 4 ≤ n) :
    intAt (memset c n m) i = (le32 c c c c).toInt := by
  have hset : ∀ k < 4, memset c n m (4 * i + k) = c := fun k hk => if_pos (by omega)
  have h0 := hset 0 (by decide)
  rw [Nat.add_zero] at h0
  rw [intAt, Mem.u32, h0, hset 1 (by decide), hset 2 (by decide), hset 3 (by decide)]

theorem intAt_memset_apart {c : Byte} {n i : Nat} (m : Mem) (h : n ≤ 4 * i) :
    intAt (memset c n m) i = intAt m i := by
  have hset : ∀ k, memset c n m (4 * i + k) = m (4 * i + k) := fun k => if_neg (by omega)
  have h0 := hset 0
  rw [Nat.add_zero] at h0
  rw [intAt, Mem.u32, h0, hset, hset, hset]
  rfl

/-- Only the first quarter of `connect_host` is -1 at the start. -/
theorem connectHost_main (opened : Finset Nat) (i : Fin clientNum) :
    (State.main opened).connectHost i = if i.val < 256 then -1 else 0 := by
  change intAt (memset (-1) clientNum Mem.zero) i = _
  have hnum : clientNum = 1024 := rfl
  by_cases hi : i.val < 256
  · rw [if_pos hi, intAt_memset _ (by omega)]
    decide
  · rw [if_neg hi, intAt_memset_apart _ (by omega)]
    rfl

/-- An entry that is set to a value counts as that value does, and no longer as before. -/
theorem entries_update (i : Fin clientNum) (v : Int) {st' : State}
    (h : st'.connectHost = Function.update st.connectHost i v) :
    st'.entries + (if st.connectHost i ≠ -1 then 1 else 0) =
      st.entries + if v ≠ -1 then 1 else 0 := by
  have hrest : ∑ j ∈ Finset.univ.erase i, (if st'.connectHost j ≠ -1 then 1 else 0) =
      ∑ j ∈ Finset.univ.erase i, if st.connectHost j ≠ -1 then 1 else 0 :=
    Finset.sum_congr rfl fun j hj => by
      rw [h, Function.update_of_ne (Finset.ne_of_mem_erase hj)]
  rw [State.entries, State.entries, Finset.card_filter, Finset.card_filter,
    ← Finset.add_sum_erase _ _ (Finset.mem_univ i), hrest,
    ← Finset.add_sum_erase (f := fun j => if st.connectHost j ≠ -1 then 1 else 0) _
      (Finset.mem_univ i), h, Function.update_self]
  omega

/-- What is at the first free entry, and when there is none. -/
theorem firstFree_some {i : Fin clientNum} (h : st.firstFree = some i) :
    st.connectHost i = -1 := by
  rw [State.firstFree] at h
  have hi := List.find?_some h
  exact of_decide_eq_true hi

theorem firstFree_none (h : st.firstFree = none) (i : Fin clientNum) : st.connectHost i ≠ -1 := by
  rw [State.firstFree, List.find?_eq_none] at h
  exact fun hi => h i (List.mem_finRange i) (decide_eq_true hi)

/-- Serving takes the entry out, and closes nothing: the entry is -1 by then. -/
theorem serve_eq (i : Fin clientNum) (msg : Option (List Byte)) :
    st.serve i msg = { st with
      served := st.connectHost i :: st.served
      told := if State.asksTime msg = true then st.connectHost i :: st.told else st.told
      connectHost := Function.update st.connectHost i (-1)
      connectNumber := st.connectNumber - 1 } := by
  unfold State.serve
  dsimp only
  rw [Function.update_self]
  exact if_neg fun h => absurd h.1 (by decide)

/-- Storing takes the first free entry, or does nothing. -/
theorem store_cases (st : State) (s_c : Int) :
    (∀ i, st.connectHost i ≠ -1) ∧ st.store s_c = st ∨
      ∃ i, st.connectHost i = -1 ∧ st.store s_c = { st with
        connectHost := Function.update st.connectHost i s_c
        connectNumber := st.connectNumber + 1 } := by
  rw [State.store]
  cases h : st.firstFree with
  | none => exact Or.inl ⟨firstFree_none h, rfl⟩
  | some i => exact Or.inr ⟨i, firstFree_some h, rfl⟩

/-- An `accept` that succeeds opens a descriptor. -/
theorem handleConnect_true (st : State) :
    st.handleConnect true = State.store { st with
      opened := insert (lowestFree st.opened 0) st.opened
      clients := insert (lowestFree st.opened 0) st.clients } (lowestFree st.opened 0) := rfl

theorem handleConnect_false (st : State) : st.handleConnect false = st.store (-1) := rfl

/-- A step of `handle_request` moves on in its loop, and may serve an entry. -/
theorem handleRequest_cases (st : State) (ready : Option (Int → Bool))
    (msg : Option (List Byte)) :
    (∃ scan, st.handleRequest ready msg = { st with scan }) ∨
      ∃ i scan told, st.connectHost i ≠ -1 ∧ st.handleRequest ready msg = { st with
        scan, told, served := st.connectHost i :: st.served
        connectHost := Function.update st.connectHost i (-1)
        connectNumber := st.connectNumber - 1 } := by
  rw [State.handleRequest]
  cases st.scan with
  | none =>
    refine Or.inl ?_
    change ∃ scan, st.select ready = _
    rw [State.select]
    cases ready with
    | none => exact ⟨_, rfl⟩
    | some fds =>
      dsimp only [Option.elim]
      split
      next => exact ⟨_, rfl⟩
      next => exact ⟨_, rfl⟩
  | some pos =>
    dsimp only [Option.elim]
    by_cases h : pos.1 < clientNum
    · rw [dif_pos h]
      by_cases hready : st.connectHost ⟨pos.1, h⟩ ≠ -1 ∧ st.connectHost ⟨pos.1, h⟩ ∈ pos.2
      · rw [if_pos hready, serve_eq]
        exact Or.inr ⟨⟨pos.1, h⟩, _, _, hready.1, rfl⟩
      · rw [if_neg hready]
        exact Or.inl ⟨_, rfl⟩
    · rw [dif_neg h]
      exact Or.inl ⟨_, rfl⟩

/-! ## The two counts -/

/-- Storing keeps the distance of the number of entries to `connect_number`, unless there is
an entry left for a -1, by which it shrinks. -/
theorem store_distance (st : State) (s_c : Int) :
    (¬ (s_c = -1 ∧ ∃ i, st.connectHost i = -1) →
      (st.store s_c).entries - (st.store s_c).connectNumber = st.entries - st.connectNumber) ∧
    ((s_c = -1 ∧ ∃ i, st.connectHost i = -1) →
      (st.store s_c).entries - (st.store s_c).connectNumber =
        st.entries - st.connectNumber - 1) := by
  rcases store_cases st s_c with ⟨hfull, heq⟩ | ⟨i, hi, heq⟩
  · rw [heq]
    refine ⟨fun _ => rfl, fun h => ?_⟩
    obtain ⟨-, i, hi⟩ := h
    exact absurd hi (hfull i)
  · have hcount := @entries_update st i s_c (st.store s_c) (by rw [heq])
    have hnumber : (st.store s_c).connectNumber = st.connectNumber + 1 := by rw [heq]
    rw [if_neg (not_not.mpr hi)] at hcount
    constructor
    · intro h
      rw [if_pos fun hneg => h ⟨hneg, i, hi⟩] at hcount
      omega
    · intro h
      rw [if_neg (not_not.mpr h.1)] at hcount
      omega

/-- A step keeps the distance, unless it stores a failed `accept`. -/
theorem step_distance {st' : State} {e : Ev} (h : step st e = .ok st') :
    (¬ StoresFailure st e → st'.entries - st'.connectNumber = st.entries - st.connectNumber) ∧
      (StoresFailure st e →
        st'.entries - st'.connectNumber = st.entries - st.connectNumber - 1) := by
  cases e with
  | connect accepted =>
    obtain rfl := Except.ok.inj h
    cases accepted with
    | true =>
      -- a descriptor is not -1
      refine ⟨fun _ => ?_, fun h => absurd h.1 (by decide)⟩
      rw [handleConnect_true]
      exact (store_distance _ _).1 fun h => absurd h.1 (by omega)
    | false =>
      have hdist := store_distance st (-1)
      exact ⟨fun h => hdist.1 fun hs => h ⟨rfl, hs.2⟩, fun h => hdist.2 ⟨rfl, h.2⟩⟩
  | request ready msg =>
    obtain rfl := Except.ok.inj h
    refine ⟨fun _ => ?_, False.elim⟩
    rcases handleRequest_cases st ready msg with ⟨scan, heq⟩ | ⟨i, scan, told, hi, heq⟩
    · rw [heq]
      rfl
    · have hcount := @entries_update st i (-1) (st.handleRequest ready msg) (by rw [heq])
      have hnumber : (st.handleRequest ready msg).connectNumber = st.connectNumber - 1 := by
        rw [heq]
      rw [if_pos hi, if_neg (not_not.mpr rfl)] at hcount
      omega

/-- Three quarters of `connect_host` are counted as connections at the start. -/
theorem entries_main (opened : Finset Nat) : (State.main opened).entries = 768 := by
  have hfill : (Finset.univ.filter fun i => (State.main opened).connectHost i ≠ -1) =
      Finset.univ.filter fun i : Fin clientNum => ¬ i.val < 256 := by
    refine Finset.filter_congr fun i _ => ?_
    rw [connectHost_main]
    by_cases hi : i.val < 256
    · rw [if_pos hi]
      exact iff_of_false (not_not.mpr rfl) (not_not.mpr hi)
    · rw [if_neg hi]
      exact iff_of_true (by decide) hi
  have hall := Finset.card_filter_add_card_filter_not (s := (Finset.univ : Finset (Fin clientNum)))
    fun i => i.val < 256
  rw [Fin.card_filter_val_lt, Finset.card_univ, Fintype.card_fin] at hall
  rw [State.entries, hfill]
  have hnum : clientNum = 1024 := rfl
  omega

/-- **What the counts do**: there are always 768 entries more than `connect_number` says,
in exactly the runs that store no failed `accept`. -/
theorem mirrors_iff (opened : Finset Nat) (evs : List Ev) :
    Always step (fun st => st.entries = st.connectNumber + 768) (.main opened) evs ↔
      Along step (fun st e => ¬ StoresFailure st e) (.main opened) evs := by
  refine always_iff_along (fun _ => True) (fun _ _ _ _ _ => trivial)
    (fun st e st' _ hp h => ?_) (fun st e _ _ _ h => ?_) evs trivial ?_
  · obtain ⟨hkeep, hshrink⟩ := step_distance h
    constructor
    · intro hp' hf
      have hdist := hshrink hf
      omega
    · intro hf
      have hdist := hkeep hf
      omega
  · cases e <;> exact nomatch h
  · rw [entries_main]
    rfl

/-! ## What is never closed -/

/-- The last entry of `connect_host`. -/
def lastEntry : Fin clientNum := ⟨1023, by decide⟩

/-- Nothing has been closed, 0 is not one of the connections, and until something has been
served the last entry holds the 0 of the start. -/
structure Unclosed (st : State) : Prop where
  zero : 0 ∈ st.opened
  client : 0 ∉ st.clients
  closed : st.closed = []
  last : st.served = [] → st.connectHost lastEntry = 0

/-- Such a state is not accounted for: a descriptor that was served is missing among the
closed ones, or else 0 is among the entries. -/
theorem Unclosed.not_accounted (hu : Unclosed st) : ¬ Accounted st := by
  intro ha
  cases hserved : st.served with
  | nil =>
    have hlast := hu.last hserved
    obtain ⟨fd, hfd, heq⟩ := ha.client lastEntry (by rw [hlast]; decide)
    rw [hlast] at heq
    exact hu.client (Int.ofNat_inj.mp heq ▸ hfd)
  | cons fd rest =>
    have hcount := ha.closed fd
    rw [hu.closed, hserved, List.count_nil, List.count_cons_self] at hcount
    exact absurd hcount (Nat.succ_ne_zero _).symm

theorem unclosed_main (opened : Finset Nat) : Unclosed (.main opened) where
  zero := by
    obtain ⟨-, -, hbelow⟩ := lowestFree_spec opened 0
    change 0 ∈ insert (lowestFree opened 0) opened
    rcases Nat.eq_zero_or_pos (lowestFree opened 0) with hzero | hpos
    · rw [hzero]
      exact Finset.mem_insert_self ..
    · exact Finset.mem_insert_of_mem (hbelow 0 (Nat.le_refl _) hpos)
  client := Finset.notMem_empty _
  closed := rfl
  last _ := connectHost_main opened lastEntry

/-- Storing leaves the last entry alone as long as it holds the 0. -/
theorem Unclosed.store (hu : Unclosed st) (s_c : Int) : Unclosed (st.store s_c) := by
  rcases store_cases st s_c with ⟨-, heq⟩ | ⟨i, hi, heq⟩
  · rw [heq]
    exact hu
  · rw [heq]
    refine ⟨hu.zero, hu.client, hu.closed, fun hserved => ?_⟩
    have hne : lastEntry ≠ i := by
      rintro rfl
      rw [hu.last hserved] at hi
      exact absurd hi (by decide)
    exact (Function.update_of_ne hne ..).trans (hu.last hserved)

theorem Unclosed.step (hu : Unclosed st) (e : Ev) :
    ∃ st', TimeServer.step st e = .ok st' ∧ Unclosed st' := by
  cases e with
  | connect accepted =>
    refine ⟨_, rfl, ?_⟩
    cases accepted with
    | true =>
      obtain ⟨hfree, -, -⟩ := lowestFree_spec st.opened 0
      have hu' : Unclosed { st with
          opened := insert (lowestFree st.opened 0) st.opened
          clients := insert (lowestFree st.opened 0) st.clients } := by
        refine ⟨Finset.mem_insert_of_mem hu.zero, fun h => ?_, hu.closed, hu.last⟩
        rcases Finset.mem_insert.mp h with heq | h
        · exact hfree (heq ▸ hu.zero)
        · exact hu.client h
      rw [handleConnect_true]
      exact hu'.store _
    | false =>
      rw [handleConnect_false]
      exact hu.store _
  | request ready msg =>
    refine ⟨_, rfl, ?_⟩
    rcases handleRequest_cases st ready msg with ⟨scan, heq⟩ | ⟨i, scan, told, -, heq⟩
    · rw [heq]
      exact ⟨hu.zero, hu.client, hu.closed, hu.last⟩
    · rw [heq]
      exact ⟨hu.zero, hu.client, hu.closed, nofun⟩

/-- **The accounting**: no run accounts for its connections. It does not come right later
either, in none of the states of the run, and nothing is ever closed. -/
theorem never_accounted (opened : Finset Nat) (evs : List Ev) :
    ¬ Accounts opened evs ∧
      Always step (fun st => ¬ Accounted st ∧ st.closed = []) (.main opened) evs := by
  have halways : Always step (fun st => ¬ Accounted st ∧ st.closed = []) (.main opened) evs :=
    (run_works (fun _ hu => ⟨hu.not_accounted, hu.closed⟩) (fun _ e hu => ⟨trivial, hu.step e⟩)
      evs (unclosed_main opened)).2.2
  exact ⟨fun h => halways.head.1 h.head, halways⟩

/-- Before the first step there are 768 entries, and `connect_number` is 0. -/
theorem start_not_accounted : ¬ Accounts {0, 1, 2} [] := by
  intro h
  have hnumber := h.head.number
  rw [entries_main] at hnumber
  exact absurd hnumber (by decide)

end LinuxNet.TimeServer
