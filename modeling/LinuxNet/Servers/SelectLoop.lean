import LinuxNet.Lib.Descriptors
import LinuxNet.Lib.Memory
import LinuxNet.Lib.Run

/-!
# The `select` loop of `server_reuse`

A turn of the `while` loop builds the set of descriptors to watch from `isconnect`,
lets `select` reduce it to those that are ready, and goes through it from the listening
descriptor up to `maxfd`, counting `change` down. What comes from outside in a turn is a
`Round`: which descriptors are ready, whether `accept` succeeds, and how a read of a
descriptor goes and the answer to it. The kernel's side is the set of open connections;
`accept` takes the lowest free descriptor above the listening one, and one that is
refused is closed in the same step.

The descriptors `read` is called on are recorded. `isconnect` is indexed without a check
on the way, so an index that is not below `BACKLOG` is a fault.

The loop adds a connection that it accepts to the set it is going through. `serves_iff`
says that this is all that can go wrong, and when it does: `fdLoop_spec` is what the loop
keeps whatever happens, `fdLoop_reads` when it gets to a descriptor that nobody counted.
-/

namespace LinuxNet.Servers

/-- `BACKLOG`. -/
def backlog : Nat := 5

/-- How `write` goes. -/
inductive WriteResult where
  | ok
  | epipe
  | failed
  deriving DecidableEq, Repr

/-- How `read` goes, and the answer to it: a message, which may be `exit`, the end of the
stream, a reset, or another error. -/
inductive ReadResult where
  | message (exit : Bool) (reply : WriteResult)
  | eof
  | reset
  | failed (reply : WriteResult)
  deriving DecidableEq, Repr

/-- How `select` goes: it returns what is ready, it is interrupted, or it fails. -/
inductive SelectResult where
  | ready (fds : Nat → Bool)
  | interrupted
  | failed

/-- What a turn of the loop meets. -/
structure Round where
  select : SelectResult
  accept : Bool
  read : Nat → ReadResult

/-- The variables of `main`, and the open connections. -/
structure ServerState where
  isconnect : Fin backlog → Bool
  maxfd : Nat
  exitflag : Bool
  opened : Finset Nat

/-- Before the loop; `server` is the listening descriptor. -/
def ServerState.initial (server : Nat) : ServerState := ⟨fun _ => false, server, false, ∅⟩

/-- The variables of the `for` loop, and the descriptors `read` has been called on. -/
structure Scan where
  isconnect : Fin backlog → Bool
  opened : Finset Nat
  readfds : Finset Nat
  change : Nat
  reads : List Nat

/-- The descriptor that `accept` returns. -/
def acceptFd (server : Nat) (opened : Finset Nat) : Nat := lowestFree opened (server + 1)

/-- `isconnect[i] = v`. -/
def setConnect (isconnect : Fin backlog → Bool) (i : Nat) (v : Bool) :
    Except Fault (Fin backlog → Bool) :=
  if h : i < backlog then .ok (Function.update isconnect ⟨i, h⟩ v) else .error .outOfBounds

/-- A new connection, if it is accepted and there is an entry left for it. -/
def acceptClient (server : Nat) (accepted : Bool) (sc : Scan) : Except Fault Scan :=
  if accepted = true then
    let client := acceptFd server sc.opened
    if backlog ≤ client - (server + 1) then .ok sc
    else (setConnect sc.isconnect (client - (server + 1)) true).map fun isconnect =>
      { sc with
        isconnect, opened := insert client sc.opened, readfds := insert client sc.readfds }
  else .ok sc

/-- `isconnect[fd - client_start] = 0; FD_CLR(fd, &readfds); close(fd)`. -/
def closeClient (server fd : Nat) (sc : Scan) : Except Fault Scan :=
  (setConnect sc.isconnect (fd - (server + 1)) false).map fun isconnect =>
    { sc with isconnect, readfds := sc.readfds.erase fd, opened := sc.opened.erase fd }

/-- Whether a read ends in closing the descriptor. -/
def ReadResult.closes : ReadResult → Bool
  | .message exit .ok => exit
  | .message _ .epipe => true
  | .message _ .failed => false
  | .eof => true
  | .reset => true
  | .failed .ok => false
  | .failed .epipe => true
  | .failed .failed => true

/-- Whether the `for` loop is left behind a read. -/
def ReadResult.breaks : ReadResult → Bool
  | .message exit .ok => exit
  | _ => false

/-- The body of the `for` loop for a connection. -/
def serveClient (server fd : Nat) (r : ReadResult) (sc : Scan) : Except Fault Scan :=
  if r.closes = true then closeClient server fd { sc with reads := fd :: sc.reads }
  else .ok { sc with reads := fd :: sc.reads }

/-- The `for` loop, with that many descriptors to go. -/
def fdLoop (server : Nat) (round : Round) : Nat → Nat → Scan → Except Fault Scan
  | 0, _, sc => .ok sc
  | left + 1, fd, sc =>
    if sc.change = 0 then .ok sc
    else if fd ∈ sc.readfds then
      let sc := { sc with change := sc.change - 1 }
      if fd = server then do
        let sc ← acceptClient server round.accept sc
        fdLoop server round left (fd + 1) sc
      else do
        let sc ← serveClient server fd (round.read fd) sc
        if (round.read fd).breaks = true then .ok sc else fdLoop server round left (fd + 1) sc
    else fdLoop server round left (fd + 1) sc

namespace ServerState

/-- The connections `isconnect` knows of. -/
def connected (server : Nat) (st : ServerState) : Finset Nat :=
  (Finset.univ.filter fun i => st.isconnect i = true).image fun i => server + 1 + i.val

/-- `maxfd` as the `for` loop over `isconnect` leaves it. -/
def maxfdNext (server : Nat) (st : ServerState) : Nat :=
  (List.finRange backlog).foldl
    (fun m i => if st.isconnect i = true ∧ m < server + 1 + i.val then server + 1 + i.val else m)
    st.maxfd

/-- The descriptors that `select` reports. -/
def reported (server : Nat) (st : ServerState) (round : Round) : Finset Nat :=
  match round.select with
  | .ready fds => (insert server (st.connected server)).filter fun fd => fds fd = true
  | .interrupted => ∅
  | .failed => ∅

end ServerState

/-- A turn of the `while` loop, and the descriptors it has read. -/
def iterate (server : Nat) (st : ServerState) (round : Round) :
    Except Fault (ServerState × List Nat) :=
  if st.exitflag = true then .ok (st, [])
  else
    let maxfd := st.maxfdNext server
    match round.select with
    | .interrupted => .ok ({
        isconnect := fun _ => false, maxfd, exitflag := true,
        opened := st.opened \ st.connected server }, [])
    | .failed => .ok ({ st with maxfd }, [])
    | .ready _ =>
      let readfds := st.reported server round
      (fdLoop server round (maxfd + 1 - server) server
        ⟨st.isconnect, st.opened, readfds, readfds.card, []⟩).map fun sc =>
          ({ st with isconnect := sc.isconnect, opened := sc.opened, maxfd }, sc.reads)

/-- A turn as a step. -/
def loopStep (server : Nat) (st : ServerState) (round : Round) : Except Fault ServerState :=
  (iterate server st round).map (·.1)

/-! ## What is to hold -/

/-- The entries that are set are those of the open connections, and all of these have one. -/
structure Marked (server : Nat) (isconnect : Fin backlog → Bool) (opened : Finset Nat) :
    Prop where
  iff : ∀ i, isconnect i = true ↔ server + 1 + i.val ∈ opened
  index : ∀ fd ∈ opened, ∃ i : Fin backlog, fd = server + 1 + i.val

/-- `isconnect` marks the open connections. -/
def Marks (server : Nat) (st : ServerState) : Prop := Marked server st.isconnect st.opened

/-- A turn uses no index outside `isconnect`, and reads only what `select` reported in it. -/
def ReadsReported (server : Nat) (st : ServerState) (round : Round) : Prop :=
  ∃ r, iterate server st round = .ok r ∧ ∀ fd ∈ r.2, fd ∈ st.reported server round

/-- A run of turns: as `select` says, and as the marks say. -/
def Serves (server : Nat) (rounds : List Round) : Prop :=
  Along (loopStep server) (ReadsReported server) (.initial server) rounds ∧
    Always (loopStep server) (Marks server) (.initial server) rounds

/-- The loop gets from `fd` to a descriptor `s` that `select` has not counted: there is one
above it to go for, and none below it makes the loop end with an `exit`. -/
def Reached (round : Round) (readfds : Finset Nat) (fd s : Nat) : Prop :=
  (∃ x ∈ readfds, s < x) ∧ ∀ x ∈ readfds, fd ≤ x → x < s → (round.read x).breaks = false

/-- A connection is accepted, and the loop gets to it in the same turn. -/
def Overtakes (server : Nat) (st : ServerState) (round : Round) : Prop :=
  st.exitflag = false ∧ server ∈ st.reported server round ∧ round.accept = true ∧
    Reached round (st.reported server round) (server + 1) (acceptFd server st.opened)

/-! ## The kernel's side -/

variable {server fd : Nat} {isconnect : Fin backlog → Bool} {opened : Finset Nat}

/-- A new connection gets a descriptor above the listening one that is not open. -/
theorem acceptFd_spec (server : Nat) (opened : Finset Nat) :
    acceptFd server opened ∉ opened ∧ server < acceptFd server opened := by
  obtain ⟨hfree, hle, -⟩ := lowestFree_spec opened (server + 1)
  exact ⟨hfree, hle⟩

/-! ## The marks -/

theorem setConnect_eq (i : Fin backlog) (v : Bool) :
    setConnect isconnect i v = .ok (Function.update isconnect i v) := dif_pos i.isLt

theorem sub_client_start (server : Nat) (i : Fin backlog) :
    server + 1 + i.val - (server + 1) = i.val := Nat.add_sub_cancel_left ..

theorem Marked.insert (hm : Marked server isconnect opened) (i : Fin backlog) :
    Marked server (Function.update isconnect i true) (insert (server + 1 + i.val) opened) := by
  refine ⟨fun j => ?_, fun fd hfd => ?_⟩
  · by_cases hji : j = i
    · rw [hji, Function.update_self]
      exact iff_of_true rfl (Finset.mem_insert_self ..)
    · have hne : server + 1 + j.val ≠ server + 1 + i.val := fun h => hji (Fin.ext (by omega))
      rw [Function.update_of_ne hji, Finset.mem_insert, or_iff_right hne]
      exact hm.iff j
  · rcases Finset.mem_insert.mp hfd with rfl | hfd
    · exact ⟨i, rfl⟩
    · exact hm.index fd hfd

theorem Marked.erase (hm : Marked server isconnect opened) (i : Fin backlog) :
    Marked server (Function.update isconnect i false) (opened.erase (server + 1 + i.val)) := by
  refine ⟨fun j => ?_, fun fd hfd => hm.index fd (Finset.mem_of_mem_erase hfd)⟩
  by_cases hji : j = i
  · rw [hji, Function.update_self]
    exact iff_of_false nofun (Finset.notMem_erase _ _)
  · have hne : server + 1 + j.val ≠ server + 1 + i.val := fun h => hji (Fin.ext (by omega))
    rw [Function.update_of_ne hji, Finset.mem_erase, and_iff_right hne]
    exact hm.iff j

/-- The descriptors of a set behind the listening one have an entry in `isconnect`. -/
def Indexed (server : Nat) (readfds : Finset Nat) : Prop :=
  ∀ x ∈ readfds, server < x → ∃ i : Fin backlog, x = server + 1 + i.val

theorem Indexed.mono {readfds readfds' : Finset Nat} (h : Indexed server readfds)
    (hsub : readfds' ⊆ readfds) : Indexed server readfds' := fun x hx => h x (hsub hx)

theorem Indexed.insert {readfds : Finset Nat} (h : Indexed server readfds) (i : Fin backlog) :
    Indexed server (insert (server + 1 + i.val) readfds) := by
  intro x hx hlt
  rcases Finset.mem_insert.mp hx with rfl | hx
  · exact ⟨i, rfl⟩
  · exact h x hx hlt

theorem Marked.indexed {readfds : Finset Nat} (hm : Marked server isconnect opened)
    (hsub : readfds ⊆ Insert.insert server opened) : Indexed server readfds := by
  intro x hx hlt
  exact hm.index x ((Finset.mem_insert.mp (hsub hx)).resolve_left (Nat.ne_of_gt hlt))

/-- Serving a connection reads it, closes it at most, and keeps the marks. -/
theorem serveClient_spec {sc : Scan} (hm : Marked server sc.isconnect sc.opened)
    (i : Fin backlog) (r : ReadResult) :
    ∃ sc', serveClient server (server + 1 + i.val) r sc = .ok sc' ∧
      Marked server sc'.isconnect sc'.opened ∧ sc'.change = sc.change ∧
      sc'.reads = (server + 1 + i.val) :: sc.reads ∧ sc'.readfds ⊆ sc.readfds ∧
      ∀ x, x ≠ server + 1 + i.val → x ∈ sc.readfds → x ∈ sc'.readfds := by
  unfold serveClient closeClient
  by_cases hcloses : r.closes = true
  · rw [if_pos hcloses, sub_client_start, setConnect_eq]
    exact ⟨_, rfl, hm.erase i, rfl, rfl, Finset.erase_subset .., fun x hx hmem =>
      Finset.mem_erase.mpr ⟨hx, hmem⟩⟩
  · rw [if_neg hcloses]
    exact ⟨_, rfl, hm, rfl, rfl, Finset.Subset.refl _, fun _ _ => id⟩

/-! ## The loop -/

/-- Nothing is left to do when all that `select` counted has been found. -/
theorem fdLoop_done (round : Round) (left fd : Nat) {sc : Scan} (h : sc.change = 0) :
    fdLoop server round left fd sc = .ok sc := by
  cases left with
  | zero => rfl
  | succ left => exact if_pos h

/-- A descriptor that is not in the set is passed over. -/
theorem fdLoop_skip (round : Round) (left : Nat) {sc : Scan} (h : fd ∉ sc.readfds) :
    fdLoop server round (left + 1) fd sc = fdLoop server round left (fd + 1) sc := by
  rw [fdLoop]
  by_cases hchange : sc.change = 0
  · rw [if_pos hchange, fdLoop_done round left (fd + 1) hchange]
  · rw [if_neg hchange, if_neg h]

/-- A connection in the set is read, and the loop goes on unless it is made to end. -/
theorem fdLoop_client (round : Round) (left : Nat) {sc : Scan} (hfd : server < fd)
    (hm : Marked server sc.isconnect sc.opened)
    (hindex : ∃ i : Fin backlog, fd = server + 1 + i.val)
    (hchange : sc.change ≠ 0) (hmem : fd ∈ sc.readfds) :
    ∃ sc', fdLoop server round (left + 1) fd sc =
        (if (round.read fd).breaks = true then .ok sc'
          else fdLoop server round left (fd + 1) sc') ∧
      Marked server sc'.isconnect sc'.opened ∧ sc'.change = sc.change - 1 ∧
      sc'.reads = fd :: sc.reads ∧ sc'.readfds ⊆ sc.readfds ∧
      ∀ x, x ≠ fd → x ∈ sc.readfds → x ∈ sc'.readfds := by
  obtain ⟨i, hi⟩ := hindex
  obtain ⟨sc', h1, hrest⟩ :=
    @serveClient_spec server { sc with change := sc.change - 1 } hm i (round.read fd)
  rw [← hi] at h1 hrest
  refine ⟨sc', ?_, hrest⟩
  rw [fdLoop, if_neg hchange, if_pos hmem]
  dsimp only
  rw [if_neg (Nat.ne_of_gt hfd), h1]
  rfl

/-- Behind the listening descriptor the loop keeps the marks, and reads what is in the
set. -/
theorem fdLoop_spec (round : Round) (left : Nat) : ∀ {fd : Nat} {sc : Scan}, server < fd →
    Marked server sc.isconnect sc.opened → Indexed server sc.readfds →
      ∃ sc', fdLoop server round left fd sc = .ok sc' ∧
        Marked server sc'.isconnect sc'.opened ∧
        (∀ x ∈ sc'.reads, x ∈ sc.reads ∨ x ∈ sc.readfds ∧ fd ≤ x) ∧
        ∀ x ∈ sc.reads, x ∈ sc'.reads := by
  induction left with
  | zero =>
    intro fd sc _ hm _
    exact ⟨sc, rfl, hm, fun _ => Or.inl, fun _ => id⟩
  | succ left ih =>
    intro fd sc hfd hm hindex
    by_cases hchange : sc.change = 0
    · exact ⟨sc, fdLoop_done round _ fd hchange, hm, fun _ => Or.inl, fun _ => id⟩
    · by_cases hmem : fd ∈ sc.readfds
      · obtain ⟨sc1, h1, hm1, -, hreads, hsub, -⟩ :=
          fdLoop_client round left hfd hm (hindex fd hmem hfd) hchange hmem
        rw [h1]
        have hfirst : ∀ x ∈ sc1.reads, x ∈ sc.reads ∨ x ∈ sc.readfds ∧ fd ≤ x := by
          intro x hx
          rw [hreads] at hx
          rcases List.mem_cons.mp hx with rfl | hx
          · exact Or.inr ⟨hmem, Nat.le_refl _⟩
          · exact Or.inl hx
        have hmore : ∀ x ∈ sc.reads, x ∈ sc1.reads := fun x hx => by
          rw [hreads]
          exact List.mem_cons_of_mem _ hx
        by_cases hbreak : (round.read fd).breaks = true
        · exact ⟨sc1, if_pos hbreak, hm1, hfirst, hmore⟩
        · obtain ⟨sc2, h2, hm2, hreads2, hmore2⟩ :=
            ih (Nat.lt_succ_of_lt hfd) hm1 (hindex.mono hsub)
          refine ⟨sc2, (if_neg hbreak).trans h2, hm2, fun x hx => ?_, fun x hx =>
            hmore2 x (hmore x hx)⟩
          rcases hreads2 x hx with hx | ⟨hx, hle⟩
          · exact hfirst x hx
          · exact Or.inr ⟨hsub hx, Nat.le_of_succ_le hle⟩
      · rw [fdLoop_skip round left hmem]
        obtain ⟨sc', h, hm', hreads, hmore⟩ := ih (Nat.lt_succ_of_lt hfd) hm hindex
        refine ⟨sc', h, hm', fun x hx => ?_, hmore⟩
        rcases hreads x hx with hx | ⟨hx, hle⟩
        · exact Or.inl hx
        · exact Or.inr ⟨hx, Nat.le_of_succ_le hle⟩

/-- `Reached` behind a descriptor that does not make the loop end. -/
theorem reached_succ {round : Round} {readfds readfds' : Finset Nat} {s : Nat}
    (hsub : readfds' ⊆ readfds) (hkeep : ∀ x, x ≠ fd → x ∈ readfds → x ∈ readfds') (hlt : fd < s)
    (hfd : fd ∈ readfds → (round.read fd).breaks = false) :
    Reached round readfds' (fd + 1) s ↔ Reached round readfds fd s := by
  refine and_congr ⟨fun h => ?_, fun h => ?_⟩ ⟨fun h x hx hle hxs => ?_, fun h x hx hle => ?_⟩
  · obtain ⟨x, hx, hsx⟩ := h
    exact ⟨x, hsub hx, hsx⟩
  · obtain ⟨x, hx, hsx⟩ := h
    exact ⟨x, hkeep x (Nat.ne_of_gt (Nat.lt_trans hlt hsx)) hx, hsx⟩
  · rcases Nat.eq_or_lt_of_le hle with rfl | hfdx
    · exact hfd hx
    · exact h x (hkeep x (Nat.ne_of_gt hfdx) hx) hfdx hxs
  · exact h x (hsub hx) (Nat.le_of_succ_le hle)

/-- What is reached has one above it, which is left to count. -/
theorem Reached.pos {round : Round} {readfds : Finset Nat} {s : Nat}
    (h : Reached round readfds fd s) (hfds : fd ≤ s) :
    0 < ((readfds.erase s).filter fun x => fd ≤ x).card := by
  obtain ⟨⟨x, hx, hsx⟩, -⟩ := h
  exact Finset.card_pos.mpr ⟨x, Finset.mem_filter.mpr
    ⟨Finset.mem_erase.mpr ⟨Nat.ne_of_gt hsx, hx⟩, Nat.le_trans hfds (Nat.le_of_lt hsx)⟩⟩

/-- A descriptor is reached where the loop stands, if another one is left to count. -/
theorem reached_self {round : Round} {readfds : Finset Nat}
    (h : 0 < ((readfds.erase fd).filter fun x => fd ≤ x).card) : Reached round readfds fd fd := by
  obtain ⟨x, hx⟩ := Finset.card_pos.mp h
  obtain ⟨hx, hle⟩ := Finset.mem_filter.mp hx
  have habove : fd < x := Nat.lt_of_le_of_ne hle (Finset.ne_of_mem_erase hx).symm
  exact ⟨⟨x, Finset.mem_of_mem_erase hx, habove⟩,
    fun x _ hle hlt => absurd hle (Nat.not_le.mpr hlt)⟩

/-- The descriptor itself makes no difference to whether it is reached. -/
theorem reached_insert {round : Round} {readfds : Finset Nat} {s : Nat} :
    Reached round (insert s readfds) fd s ↔ Reached round readfds fd s := by
  simp only [Reached, Finset.mem_insert, or_and_right, exists_or, or_imp, forall_and,
    exists_eq_left, lt_irrefl, false_or, forall_eq, IsEmpty.forall_iff, imp_true_iff, true_and]

/-- Behind a descriptor of the set there is one less to count, whatever becomes of it. -/
theorem card_behind {readfds readfds' : Finset Nat} {s : Nat} (hsub : readfds' ⊆ readfds)
    (hkeep : ∀ x, x ≠ fd → x ∈ readfds → x ∈ readfds') (hne : fd ≠ s) (hmem : fd ∈ readfds) :
    ((readfds.erase s).filter fun x => fd ≤ x).card =
      ((readfds'.erase s).filter fun x => fd + 1 ≤ x).card + 1 := by
  have hsame : (readfds'.erase s).filter (fun x => fd + 1 ≤ x) =
      (readfds.erase s).filter fun x => fd + 1 ≤ x := by
    ext x
    simp only [Finset.mem_filter, Finset.mem_erase]
    exact ⟨fun h => ⟨⟨h.1.1, hsub h.1.2⟩, h.2⟩, fun h =>
      ⟨⟨h.1.1, hkeep x (Nat.ne_of_gt h.2) h.1.2⟩, h.2⟩⟩
  rw [hsame]
  exact card_from_mem (Finset.mem_erase.mpr ⟨hne, hmem⟩)

/-- Whether a descriptor that `select` has not counted is read: exactly if one above it
is in the set, and none below it makes the loop end. -/
theorem fdLoop_reads (round : Round) {s : Nat} (left : Nat) : ∀ {fd : Nat} {sc : Scan},
    server < fd → Marked server sc.isconnect sc.opened → Indexed server sc.readfds →
    fd ≤ s → s ∈ sc.readfds → s ∉ sc.reads → (∀ x ∈ sc.readfds, x ≠ s → x < fd + left) →
    sc.change = ((sc.readfds.erase s).filter fun x => fd ≤ x).card →
      ∃ sc', fdLoop server round left fd sc = .ok sc' ∧
        (s ∈ sc'.reads ↔ Reached round sc.readfds fd s) := by
  induction left with
  | zero =>
    intro fd sc _ _ _ hfds _ hs hend _
    refine ⟨sc, rfl, iff_of_false hs fun h => ?_⟩
    obtain ⟨⟨x, hx, hsx⟩, -⟩ := h
    have hlt := hend x hx (Nat.ne_of_gt hsx)
    omega
  | succ left ih =>
    intro fd sc hfd hm hindex hfds hmems hs hend hcount
    by_cases hchange : sc.change = 0
    · -- all that are left to count are below
      refine ⟨sc, fdLoop_done round _ fd hchange, iff_of_false hs fun h => ?_⟩
      have hpos := h.pos hfds
      omega
    · by_cases hmem : fd ∈ sc.readfds
      · obtain ⟨sc1, h1, hm1, hchange1, hreads, hsub, hkeep⟩ :=
          fdLoop_client round left hfd hm (hindex fd hmem hfd) hchange hmem
        rw [h1]
        have hindex1 : Indexed server sc1.readfds := hindex.mono hsub
        rcases Nat.eq_or_lt_of_le hfds with rfl | hlt
        · -- it is read here
          have hread : fd ∈ sc1.reads := by
            rw [hreads]
            exact List.mem_cons_self ..
          have hright : Reached round sc.readfds fd fd := reached_self (by omega)
          by_cases hbreak : (round.read fd).breaks = true
          · exact ⟨sc1, if_pos hbreak, iff_of_true hread hright⟩
          · obtain ⟨sc2, h2, -, -, hmore⟩ :=
              fdLoop_spec round left (Nat.lt_succ_of_lt hfd) hm1 hindex1
            exact ⟨sc2, (if_neg hbreak).trans h2, iff_of_true (hmore fd hread) hright⟩
        · -- one below it is read
          have hs1 : s ∉ sc1.reads := by
            rw [hreads, List.mem_cons, not_or]
            exact ⟨Nat.ne_of_gt hlt, hs⟩
          by_cases hbreak : (round.read fd).breaks = true
          · refine ⟨sc1, if_pos hbreak, iff_of_false hs1 fun h => ?_⟩
            rw [h.2 fd hmem (Nat.le_refl _) hlt] at hbreak
            exact nomatch hbreak
          · have hcount1 : sc1.change =
                ((sc1.readfds.erase s).filter fun x => fd + 1 ≤ x).card := by
              rw [hchange1, hcount, card_behind hsub hkeep (Nat.ne_of_lt hlt) hmem]
              rfl
            obtain ⟨sc2, h2, hiff⟩ := ih (Nat.lt_succ_of_lt hfd) hm1 hindex1 hlt
              (hkeep s (Nat.ne_of_gt hlt) hmems) hs1
              (fun x hx hne => by have := hend x (hsub hx) hne; omega) hcount1
            exact ⟨sc2, (if_neg hbreak).trans h2, hiff.trans (reached_succ hsub hkeep hlt
              fun _ => Bool.eq_false_of_not_eq_true hbreak)⟩
      · -- nothing happens at a descriptor that is not in the set
        rw [fdLoop_skip round left hmem]
        have hlt : fd < s := Nat.lt_of_le_of_ne hfds fun heq => hmem (heq ▸ hmems)
        have hcount1 : sc.change = ((sc.readfds.erase s).filter fun x => fd + 1 ≤ x).card :=
          hcount.trans (card_from_notMem fun h => hmem (Finset.mem_of_mem_erase h))
        obtain ⟨sc2, h2, hiff⟩ := ih (Nat.lt_succ_of_lt hfd) hm hindex hlt hmems hs
          (fun x hx hne => by have := hend x hx hne; omega) hcount1
        exact ⟨sc2, h2, hiff.trans (reached_succ (Finset.Subset.refl _) (fun _ _ => id) hlt
          fun h => absurd h hmem)⟩

/-- When the listening descriptor has been dealt with, what is left to count is what is
ready behind it, the new connection not among it. -/
theorem card_sub_one {readfds : Finset Nat} {client : Nat} (hm : Marked server isconnect opened)
    (hsub : readfds ⊆ insert server opened) (hserver : server ∈ readfds)
    (hclient : client ∉ readfds) : readfds.card - 1 =
      (((insert client readfds).erase client).filter fun x => server + 1 ≤ x).card := by
  have hall : (readfds.filter fun x => server ≤ x) = readfds := by
    refine Finset.filter_true_of_mem fun x hx => ?_
    rcases Finset.mem_insert.mp (hsub hx) with rfl | hx
    · exact Nat.le_refl _
    · obtain ⟨j, rfl⟩ := hm.index x hx
      omega
  have hcard := card_from_mem hserver
  rw [hall] at hcard
  rw [Finset.erase_insert hclient]
  exact Nat.sub_eq_of_eq_add hcard

/-- Behind an accepted connection the loop reads another descriptor than those that are
ready exactly if it gets to that connection. -/
theorem fdLoop_accepted (round : Round) (left : Nat) {readfds : Finset Nat} {client : Nat}
    {i : Fin backlog} (hm : Marked server isconnect opened)
    (hsub : readfds ⊆ insert server opened) (hend : ∀ x ∈ readfds, x < server + 1 + left)
    (hserver : server ∈ readfds) (hi : client = server + 1 + i.val) (hfree : client ∉ opened) :
    ∃ sc, fdLoop server round left (server + 1)
        ⟨Function.update isconnect i true, insert client opened, insert client readfds,
          readfds.card - 1, []⟩ = .ok sc ∧
      Marked server sc.isconnect sc.opened ∧
      ((∀ x ∈ sc.reads, x ∈ readfds) ↔ ¬ Reached round readfds (server + 1) client) := by
  have habove : server < client := by omega
  have hnot : client ∉ readfds := fun h =>
    hfree ((Finset.mem_insert.mp (hsub h)).resolve_left (Nat.ne_of_gt habove))
  have hm1 := hi ▸ hm.insert i
  have hindex : Indexed server (insert client readfds) := hi ▸ (hm.indexed hsub).insert i
  obtain ⟨sc, h, hm', hreads, -⟩ := @fdLoop_spec server round left (server + 1)
    ⟨Function.update isconnect i true, insert client opened, insert client readfds,
      readfds.card - 1, []⟩ (Nat.lt_succ_self _) hm1 hindex
  obtain ⟨sc2, h2, hiff⟩ := @fdLoop_reads server round client left (server + 1)
    ⟨Function.update isconnect i true, insert client opened, insert client readfds,
      readfds.card - 1, []⟩ (Nat.lt_succ_self _) hm1 hindex habove
    (Finset.mem_insert_self ..) (List.not_mem_nil)
    (fun x hx hne => hend x ((Finset.mem_insert.mp hx).resolve_left hne))
    (card_sub_one hm hsub hserver hnot)
  obtain rfl := Except.ok.inj (h.symm.trans h2)
  refine ⟨sc, h, hm', ?_⟩
  rw [← reached_insert, ← hiff]
  -- the new connection is the only one that can be read without having been reported
  refine ⟨fun h hread => hnot (h client hread), fun h x hx => ?_⟩
  obtain ⟨hx', -⟩ := (hreads x hx).resolve_left (List.not_mem_nil)
  exact (Finset.mem_insert.mp hx').resolve_left fun heq => h (heq ▸ hx)

/-- **The `for` loop**: over the descriptors that are ready it keeps the marks, and reads
another one exactly if a connection is accepted and the loop gets to it. -/
theorem fdLoop_turn (round : Round) (left : Nat) {readfds : Finset Nat}
    (hm : Marked server isconnect opened) (hsub : readfds ⊆ insert server opened)
    (hend : ∀ x ∈ readfds, x < server + 1 + left) :
    ∃ sc, fdLoop server round (left + 1) server
        ⟨isconnect, opened, readfds, readfds.card, []⟩ = .ok sc ∧
      Marked server sc.isconnect sc.opened ∧
      ((∀ x ∈ sc.reads, x ∈ readfds) ↔ ¬ (server ∈ readfds ∧ round.accept = true ∧
        Reached round readfds (server + 1) (acceptFd server opened))) := by
  have hindex := hm.indexed hsub
  -- where no connection is added, what is read was ready
  have hspec := fun change => @fdLoop_spec server round left (server + 1)
    ⟨isconnect, opened, readfds, change, []⟩ (Nat.lt_succ_self _) hm hindex
  have hreported : ∀ {sc : Scan},
      (∀ x ∈ sc.reads, x ∈ [] ∨ x ∈ readfds ∧ server + 1 ≤ x) → ∀ x ∈ sc.reads, x ∈ readfds :=
    fun h x hx => ((h x hx).resolve_left (List.not_mem_nil)).1
  by_cases hserver : server ∈ readfds
  · rw [fdLoop, if_neg (Finset.card_ne_zero_of_mem hserver), if_pos hserver]
    dsimp only
    rw [if_pos rfl, acceptClient]
    by_cases haccept : round.accept = true
    · rw [if_pos haccept]
      dsimp only
      obtain ⟨hfree, habove⟩ := acceptFd_spec server opened
      by_cases hfull : backlog ≤ acceptFd server opened - (server + 1)
      · -- refused: all connections are below the new one
        rw [if_pos hfull]
        obtain ⟨sc, h, hm', hreads, -⟩ := hspec (readfds.card - 1)
        refine ⟨sc, h, hm', iff_of_true (hreported hreads) fun h => ?_⟩
        obtain ⟨-, -, ⟨x, hx, hlt⟩, -⟩ := h
        obtain ⟨i, rfl⟩ := hindex x hx (Nat.lt_trans habove hlt)
        have hi := i.isLt
        omega
      · rw [if_neg hfull]
        obtain ⟨i, hi⟩ : ∃ i : Fin backlog, acceptFd server opened = server + 1 + i.val :=
          ⟨⟨_, Nat.not_le.mp hfull⟩, (Nat.add_sub_cancel' habove).symm⟩
        obtain ⟨sc, h, hm', hiff⟩ := fdLoop_accepted round left hm hsub hend hserver hi hfree
        rw [hi, sub_client_start, setConnect_eq, ← hi]
        refine ⟨sc, h, hm', ?_⟩
        rwa [and_iff_right hserver, and_iff_right haccept]
    · rw [if_neg haccept]
      obtain ⟨sc, h, hm', hreads, -⟩ := hspec (readfds.card - 1)
      exact ⟨sc, h, hm', iff_of_true (hreported hreads) fun h => haccept h.2.1⟩
  · rw [fdLoop_skip round left hserver]
    obtain ⟨sc, h, hm', hreads, -⟩ := hspec readfds.card
    exact ⟨sc, h, hm', iff_of_true (hreported hreads) fun h => hserver h.1⟩

/-! ## A turn, and a run -/

/-- What is marked as connected is what is open. -/
theorem connected_eq {st : ServerState} (hm : Marks server st) :
    st.connected server = st.opened := by
  ext fd
  simp only [ServerState.connected, Finset.mem_image, Finset.mem_filter, Finset.mem_univ, true_and]
  constructor
  · intro h
    obtain ⟨i, hi, rfl⟩ := h
    exact (hm.iff i).mp hi
  · intro h
    obtain ⟨i, rfl⟩ := hm.index fd h
    exact ⟨i, (hm.iff i).mpr h, rfl⟩

/-- A loop for the largest of some numbers does not fall below any of them. -/
theorem le_foldl_max {α : Type} {p : α → Prop} [DecidablePred p] {g : α → Nat} (l : List α) :
    ∀ m : Nat, m ≤ l.foldl (fun m i => if p i ∧ m < g i then g i else m) m ∧
      ∀ i ∈ l, p i → g i ≤ l.foldl (fun m i => if p i ∧ m < g i then g i else m) m := by
  induction l with
  | nil => exact fun m => ⟨Nat.le_refl _, fun i hi => nomatch hi⟩
  | cons a l ih =>
    intro m
    obtain ⟨hle, hall⟩ := ih (if p a ∧ m < g a then g a else m)
    rw [List.foldl_cons]
    refine ⟨Nat.le_trans ?_ hle, fun i hi hp => ?_⟩
    · split
      next h => exact Nat.le_of_lt h.2
      next => exact Nat.le_refl _
    · rcases List.mem_cons.mp hi with rfl | hi
      · refine Nat.le_trans ?_ hle
        split
        next => exact Nat.le_refl _
        next h => exact Nat.not_lt.mp fun hlt => h ⟨hp, hlt⟩
      · exact hall i hi hp

/-- What `select` reports is the listening descriptor or an open connection, and all
of it is below the `maxfd` of the turn. -/
theorem reported_subset {st : ServerState} (hm : Marks server st) (round : Round) :
    st.reported server round ⊆ insert server st.opened := by
  rw [← connected_eq hm, ServerState.reported]
  cases round.select with
  | ready fds => exact Finset.filter_subset ..
  | interrupted => exact Finset.empty_subset _
  | failed => exact Finset.empty_subset _

/-- What every turn keeps. -/
structure Kept (server : Nat) (st : ServerState) : Prop where
  marks : Marks server st
  maxfd : server ≤ st.maxfd

theorem le_maxfdNext {st : ServerState} (hk : Kept server st) :
    ∀ fd ∈ insert server st.opened, fd ≤ st.maxfdNext server := by
  obtain ⟨hle, hall⟩ := le_foldl_max (p := fun i => st.isconnect i = true)
    (g := fun i : Fin backlog => server + 1 + i.val) (List.finRange backlog) st.maxfd
  intro fd hfd
  rcases Finset.mem_insert.mp hfd with rfl | hfd
  · exact Nat.le_trans hk.maxfd hle
  · obtain ⟨i, rfl⟩ := hk.marks.index fd hfd
    exact hall i (List.mem_finRange i) ((hk.marks.iff i).mpr hfd)

/-- **A turn of the loop** gets through, keeps the marks, and reads only what `select`
reported exactly if no new connection is overtaken. -/
theorem iterate_spec {st : ServerState} (hk : Kept server st) (round : Round) :
    ∃ r, iterate server st round = .ok r ∧ Kept server r.1 ∧
      ((∀ fd ∈ r.2, fd ∈ st.reported server round) ↔ ¬ Overtakes server st round) := by
  have hnext := le_maxfdNext hk
  have hnext' := hnext server (Finset.mem_insert_self ..)
  unfold iterate Overtakes
  by_cases hexit : st.exitflag = true
  · rw [if_pos hexit]
    refine ⟨_, rfl, hk, iff_of_true (fun fd hfd => nomatch hfd) fun h => ?_⟩
    exact Bool.noConfusion (hexit.symm.trans h.1)
  · rw [if_neg hexit, and_iff_right (Bool.eq_false_of_not_eq_true hexit)]
    have hsub := reported_subset hk.marks round
    cases hselect : round.select with
    | interrupted =>
      -- all that is open is marked, and closed
      have hempty : st.reported server round = ∅ := by rw [ServerState.reported, hselect]
      rw [hempty]
      refine ⟨_, rfl, ⟨?_, hnext'⟩, iff_of_true nofun fun h => Finset.notMem_empty _ h.1⟩
      rw [connected_eq hk.marks, sdiff_self]
      exact ⟨fun i => iff_of_false nofun (Finset.notMem_empty _), fun _ h =>
        absurd h (Finset.notMem_empty _)⟩
    | failed =>
      have hempty : st.reported server round = ∅ := by rw [ServerState.reported, hselect]
      rw [hempty]
      exact ⟨_, rfl, ⟨hk.marks, hnext'⟩, iff_of_true nofun fun h => Finset.notMem_empty _ h.1⟩
    | ready fds =>
      obtain ⟨sc, h, hm, hiff⟩ := fdLoop_turn round (st.maxfdNext server - server) hk.marks hsub
        fun x hx => by have := hnext x (hsub hx); omega
      have hleft : st.maxfdNext server + 1 - server = st.maxfdNext server - server + 1 := by omega
      dsimp only
      rw [hleft, h]
      exact ⟨_, rfl, ⟨hm, hnext'⟩, hiff⟩

/-- The marks are right before the loop. -/
theorem kept_initial (server : Nat) : Kept server (.initial server) where
  marks := ⟨fun _ => iff_of_false nofun (Finset.notMem_empty _), fun _ h =>
    absurd h (Finset.notMem_empty _)⟩
  maxfd := Nat.le_refl _

/-- A turn as a step gets through and keeps the marks. -/
theorem loopStep_spec {st : ServerState} (hk : Kept server st) (round : Round) :
    (ReadsReported server st round ↔ ¬ Overtakes server st round) ∧
      ∃ st', loopStep server st round = .ok st' ∧ Kept server st' := by
  obtain ⟨r, h, hk', hiff⟩ := iterate_spec hk round
  rw [ReadsReported, loopStep, h, ← hiff]
  refine ⟨⟨fun hr => ?_, fun hr => ⟨r, rfl, hr⟩⟩, r.1, rfl, hk'⟩
  obtain ⟨r', hr', hreads⟩ := hr
  exact Except.ok.inj hr' ▸ hreads

/-- **The `select` loop**: in every run of it the marks are right in every turn. It reads
only what was reported exactly if in none of the turns it gets to a connection that it has
accepted in the same turn. -/
theorem serves_iff (server : Nat) (rounds : List Round) :
    Serves server rounds ↔
      Along (loopStep server) (fun st round => ¬ Overtakes server st round) (.initial server)
        rounds := by
  have halways : Always (loopStep server) (Marks server) (.initial server) rounds :=
    (run_works (fun _ hk => hk.marks) (fun st round hk => ⟨trivial, (loopStep_spec hk round).2⟩)
      rounds (kept_initial server)).2.2
  rw [Serves, and_iff_left halways]
  refine along_congr_of_inv (Kept server) (fun st round st' hk h1 => ?_)
    (fun st round hk => (loopStep_spec hk round).1) rounds (kept_initial server)
  obtain ⟨st2, h2, hk2⟩ := (loopStep_spec hk round).2
  exact Except.ok.inj (h2.symm.trans h1) ▸ hk2

/-- Two clients connect, the first one leaves; then a third one connects in a turn in
which the second has sent something. -/
def overtakingRounds : List Round := [
  ⟨.ready fun fd => fd == 3, true, fun _ => .eof⟩,
  ⟨.ready fun fd => fd == 3, true, fun _ => .eof⟩,
  ⟨.ready fun fd => fd == 4, true, fun _ => .eof⟩,
  ⟨.ready fun fd => fd == 3 || fd == 5, true, fun _ => .message false .ok⟩]

/-- The third client gets the descriptor of the first, and is read without having been
reported. -/
theorem unreported_read : ¬ Serves 3 overtakingRounds := by
  intro h
  obtain ⟨⟨-, h1⟩, -⟩ := h
  obtain ⟨-, h2⟩ := h1 _ rfl
  obtain ⟨-, h3⟩ := h2 _ rfl
  obtain ⟨⟨r, hr, hreads⟩, -⟩ := h3 _ rfl
  have hread : 4 ∈ r.2 := by
    rw [← Except.ok.inj hr]
    decide
  exact absurd (hreads 4 hread) (by decide)

end LinuxNet.Servers
