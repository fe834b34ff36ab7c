import LinuxNet.Lib.Except
import LinuxNet.Lib.Memory
import LinuxNet.Lib.Run

/-!
# Socket descriptors

`socket` and `close` of `sip_api.c` on the table `sockets`, with `get_socket`,
`alloc_socket` and the two functions that make and delete a `struct sock`. A `struct
sock` lives at an address, as `malloc` gives it: any one that is not in use, so a
call of `socket` comes with the address it is to be (`SockTable.malloc`).

Between the two calls the rest of the interface uses an open descriptor. All it does to
the table is to write the six fields besides `conn`; `use` writes anything there.

A run keeps a record of which `struct sock` was made for which descriptor and not
closed since. `sockets_refine` says that the table is that map.

Left out: the fields of `struct sock` for mailboxes and time limits, the semaphore
around `close`, and `netbuf_delete`.
-/

namespace LinuxNet.Sip

/-- `NUM_SOCKETS`. -/
def numSockets : Nat := 4

/-- `SOCK_STREAM`. -/
def sockStream : Int := 1

/-- `SOCK_DGRAM`. -/
def sockDgram : Int := 2

/-- `enum netconn_type`. -/
inductive NetconnType where
  | invalid
  | tcp
  | udp
  | udplite
  | udpnochksum
  | raw
  deriving DecidableEq, Repr

/-- `enum netconn_state`. -/
inductive NetconnState where
  | none
  | write
  | listen
  | connect
  | close
  deriving DecidableEq, Repr

/-- `struct sock`. -/
structure Sock where
  type : NetconnType
  state : NetconnState
  pcb : Option Nat
  err : BitVec 32
  socket : Int
  deriving DecidableEq, Repr

/-- `struct lwip_socket`. -/
structure LwipSocket where
  conn : Option Nat
  lastdata : Option Nat
  lastoffset : BitVec 16
  rcvevent : BitVec 16
  sendevent : BitVec 16
  flags : BitVec 16
  err : BitVec 32
  deriving DecidableEq, Repr

/-- `sockets`, and the `struct sock`s there are. -/
structure SockTable where
  sockets : Fin numSockets → LwipSocket
  sock : Nat → Option Sock
  /-- Nothing has been allocated from here on. -/
  brk : Nat

/-- The static table, and no `struct sock`. -/
def SockTable.initial : SockTable := ⟨fun _ => ⟨none, none, 0, 0, 0, 0, 0⟩, fun _ => none, 0⟩

namespace SockTable

/-- `malloc`: the address asked for if it is free, and one behind all others if not. -/
def malloc (st : SockTable) (a : Nat) : Nat := if (st.sock a).isSome = true then st.brk else a

/-- `get_socket`. -/
def getSocket (st : SockTable) (s : Int) : Option (Fin numSockets) :=
  if h : s < 0 ∨ (numSockets : Int) ≤ s then none
  else
    let i : Fin numSockets := ⟨s.toNat, by omega⟩
    if (st.sockets i).conn = none then none else some i

/-- `alloc_socket`: the new table and the index, if there is one left. -/
def allocSocket (st : SockTable) (newconn : Nat) : SockTable × Option (Fin numSockets) :=
  match (List.finRange numSockets).find? fun i => (st.sockets i).conn = none with
  | some i => ({ st with
      sockets := Function.update st.sockets i
        { conn := some newconn, lastdata := none, lastoffset := 0#16, rcvevent := 0#16,
          sendevent := 1#16, flags := 0#16, err := 0#32 } }, some i)
  | none => (st, none)

/-- `netconn_new`, with `netconn_alloc`. -/
def netconnNew (st : SockTable) (t : NetconnType) (a : Nat) : SockTable :=
  { st with
    sock := Function.update st.sock (st.malloc a)
      (some { type := t, state := .none, pcb := none, err := 0#32, socket := -1 })
    brk := max st.brk (st.malloc a + 1) }

/-- `netconn_delete`. -/
def netconnDelete (st : SockTable) : Option Nat → Except Fault (SockTable × Int)
  | none => .ok (st, -1)
  | some conn =>
    match st.sock conn with
    | none => .error .useAfterFree
    | some _ => .ok ({ st with sock := Function.update st.sock conn none }, 0)

/-- `conn->socket = i`. -/
def setSocket (st : SockTable) (conn : Nat) (i : Int) : Except Fault SockTable :=
  match st.sock conn with
  | none => .error .useAfterFree
  | some c => .ok { st with sock := Function.update st.sock conn (some { c with socket := i }) }

/-- What `socket` makes of its `type`. -/
def netconnType (type : Int) : Option NetconnType :=
  if type = sockDgram then some .udp else if type = sockStream then some .tcp else none

/-- `socket`, which looks at its second argument only. -/
def socket (st : SockTable) (type : Int) (a : Nat) : Except Fault (SockTable × Int) :=
  match netconnType type with
  | none => .ok (st, -1)
  | some t =>
    let conn := st.malloc a
    let r := (st.netconnNew t a).allocSocket conn
    match r.2 with
    | none => (r.1.netconnDelete (some conn)).map fun r => (r.1, -1)
    | some i => (r.1.setSocket conn i).map fun st => (st, (i : Int))

/-- `close`. -/
def close (st : SockTable) (s : Int) : Except Fault (SockTable × Int) :=
  match st.getSocket s with
  | none => .ok (st, -1)
  | some i => do
    let r ← st.netconnDelete (st.sockets i).conn
    return ({ r.1 with
      sockets := Function.update r.1.sockets i
        { r.1.sockets i with lastdata := none, lastoffset := 0#16, conn := none } }, 0)

/-- What the other calls may do to an open descriptor. -/
def use (st : SockTable) (s : Int) (d : LwipSocket) : SockTable :=
  match st.getSocket s with
  | none => st
  | some i => { st with
      sockets := Function.update st.sockets i { d with conn := (st.sockets i).conn } }

end SockTable

open SockTable

/-! ## What is to hold -/

/-- A call of `socket`, with the address for its `struct sock`, of `close`, or of another
function on a descriptor. -/
inductive SockOp where
  | socket (type : Int) (a : Nat)
  | close (s : Int)
  | use (s : Int) (d : LwipSocket)

/-- The table, and the `struct sock` that was made by the call that returned a descriptor
last, if that has not been closed since. -/
structure Descriptors where
  st : SockTable
  made : Int → Option Nat

def Descriptors.initial : Descriptors := ⟨.initial, fun _ => none⟩

/-- A call, and the record of it. -/
def sockOpStep (w : Descriptors) : SockOp → Except Fault Descriptors
  | .socket type a => (w.st.socket type a).map fun r =>
    ⟨r.1, if r.2 = -1 then w.made else Function.update w.made r.2 (some (w.st.malloc a))⟩
  | .close s => (w.st.close s).map fun r => ⟨r.1, Function.update w.made s none⟩
  | .use s d => .ok { w with st := w.st.use s d }

/-- The descriptors that are open. -/
def Descriptors.opened (w : Descriptors) : Set Int := {s | (w.made s).isSome = true}

/-- The table is the map from the open descriptors to what was made for them. -/
structure Refines (w : Descriptors) : Prop where
  range : ∀ s ∈ w.opened, 0 ≤ s ∧ s < numSockets
  distinct : ∀ s s' a, w.made s = some a → w.made s' = some a → s = s'
  get : ∀ s, (w.st.getSocket s).map (fun i => ((i.val : Int), (w.st.sockets i).conn)) =
    (w.made s).map fun a => (s, some a)

/-- A call of `socket` fails exactly if the type is not supported or all descriptors are
open, and then leaves the table; else it returns one that is not open, as good as new. -/
def Opens (w : Descriptors) (op : SockOp) : Prop :=
  ∀ type a, op = .socket type a → ∃ r, w.st.socket type a = .ok r ∧
    (r.2 = -1 ↔ type ≠ sockDgram ∧ type ≠ sockStream ∨ w.opened.ncard = numSockets) ∧
    (r.2 = -1 → r.1.sockets = w.st.sockets) ∧
    (r.2 ≠ -1 → r.2 ∉ w.opened ∧ ∃ i, r.1.getSocket r.2 = some i ∧
      r.1.sockets i = ⟨some (w.st.malloc a), none, 0#16, 0#16, 1#16, 0#16, 0#32⟩)

/-- No call fails on the way, each call of `socket` does what it should, and the table
is right after each call. -/
def Works (ops : List SockOp) : Prop :=
  (∃ w, run sockOpStep .initial ops = .ok w) ∧ Along sockOpStep Opens .initial ops ∧
    Always sockOpStep Refines .initial ops

/-! ## The functions of the source -/

namespace SockTable

variable {st : SockTable} {i : Fin numSockets} {s : Int} {a : Nat}

/-- An entry with a `conn` is found under its number. -/
theorem getSocket_some_iff :
    st.getSocket s = some i ↔ s = i.val ∧ (st.sockets i).conn ≠ none := by
  unfold getSocket
  split
  next h =>
    have hi := i.isLt
    refine iff_of_false nofun fun hn => ?_
    omega
  next h =>
    dsimp only
    by_cases hi : i = ⟨s.toNat, by omega⟩
    · have hs : s = i.val := by
        rw [hi]
        dsimp only
        omega
      rw [← hi]
      split
      next hc => exact iff_of_false nofun fun hn => hn.2 hc
      next hc => exact iff_of_true rfl ⟨hs, hc⟩
    · refine iff_of_false (fun hn => hi ?_) fun hn => hi (Fin.ext ?_)
      · split at hn
        · cases hn
        · exact (Option.some.inj hn).symm
      · dsimp only
        omega

/-- The address for a `struct sock` is not in use. -/
theorem malloc_free (hfresh : ∀ a, st.brk ≤ a → st.sock a = none) (a : Nat) :
    st.sock (st.malloc a) = none := by
  unfold malloc
  by_cases ha : (st.sock a).isSome = true
  · rw [if_pos ha]
    exact hfresh _ (Nat.le_refl _)
  · rw [if_neg ha]
    exact Option.not_isSome_iff_eq_none.mp ha

theorem socket_unsupported {type : Int} (h : type ≠ sockDgram ∧ type ≠ sockStream) (a : Nat) :
    st.socket type a = .ok (st, -1) := by
  rw [socket, netconnType, if_neg h.1, if_neg h.2]

theorem netconnType_some {type : Int} (h : ¬ (type ≠ sockDgram ∧ type ≠ sockStream)) :
    ∃ t, netconnType type = some t := by
  unfold netconnType
  by_cases hd : type = sockDgram
  · exact ⟨_, if_pos hd⟩
  · rw [if_neg hd]
    by_cases hs : type = sockStream
    · exact ⟨_, if_pos hs⟩
    · exact absurd ⟨hd, hs⟩ h

/-- `conn` is allocated and deleted again where there is no entry for it. -/
theorem socket_full {type : Int} {t : NetconnType} (ht : netconnType type = some t)
    (hfresh : ∀ a, st.brk ≤ a → st.sock a = none) (hfull : ∀ i, (st.sockets i).conn ≠ none)
    (a : Nat) :
    st.socket type a = .ok ({ st with brk := max st.brk (st.malloc a + 1) }, -1) := by
  have hfind : ((List.finRange numSockets).find? fun i =>
      ((st.netconnNew t a).sockets i).conn = none) = none :=
    List.find?_eq_none.mpr fun i _ hi => hfull i (of_decide_eq_true hi)
  have hself : (st.netconnNew t a).sock (st.malloc a) = some ⟨t, .none, none, 0#32, -1⟩ :=
    Function.update_self ..
  have hback : Function.update (st.netconnNew t a).sock (st.malloc a) none = st.sock := by
    rw [netconnNew, Function.update_idem]
    exact Function.update_eq_self_iff.mpr (malloc_free hfresh a).symm
  rw [socket, ht]
  dsimp only
  rw [allocSocket, hfind]
  dsimp only
  rw [netconnDelete, hself]
  dsimp only
  rw [hback]
  rfl

/-- The first free entry is filled. -/
theorem socket_found {type : Int} {t : NetconnType} (ht : netconnType type = some t)
    (hi : (List.finRange numSockets).find? (fun i => (st.sockets i).conn = none) = some i)
    (a : Nat) :
    st.socket type a = .ok ({
      sockets := Function.update st.sockets i
        ⟨some (st.malloc a), none, 0#16, 0#16, 1#16, 0#16, 0#32⟩
      sock := Function.update st.sock (st.malloc a) (some ⟨t, .none, none, 0#32, i⟩)
      brk := max st.brk (st.malloc a + 1) }, i) := by
  have hself : (st.netconnNew t a).sock (st.malloc a) = some ⟨t, .none, none, 0#32, -1⟩ :=
    Function.update_self ..
  have hfind : ((List.finRange numSockets).find? fun i =>
      ((st.netconnNew t a).sockets i).conn = none) = some i := hi
  rw [socket, ht]
  dsimp only
  rw [allocSocket, hfind]
  dsimp only
  rw [setSocket, hself]
  dsimp only
  rw [netconnNew, Function.update_idem]
  rfl

theorem close_none (h : st.getSocket s = none) : st.close s = .ok (st, -1) := by
  rw [close, h]

/-- What is closed is gone, and its entry free. -/
theorem close_some (h : st.getSocket s = some i) {c : Sock} (hconn : (st.sockets i).conn = some a)
    (hlive : st.sock a = some c) : st.close s = .ok ({ st with
      sock := Function.update st.sock a none
      sockets := Function.update st.sockets i
        { st.sockets i with lastdata := none, lastoffset := 0#16, conn := none } }, 0) := by
  rw [close, h]
  dsimp only
  rw [hconn, netconnDelete, hlive]
  rfl

/-- Using a descriptor keeps what it stands for. -/
theorem use_keeps (st : SockTable) (s : Int) (d : LwipSocket) :
    (∀ i, ((st.use s d).sockets i).conn = (st.sockets i).conn) ∧ (st.use s d).sock = st.sock ∧
      (st.use s d).brk = st.brk := by
  unfold use
  cases st.getSocket s with
  | none => exact ⟨fun _ => rfl, rfl, rfl⟩
  | some j =>
    refine ⟨fun i => ?_, rfl, rfl⟩
    show (Function.update st.sockets j { d with conn := (st.sockets j).conn } i).conn = _
    by_cases hij : i = j
    · subst hij
      rw [Function.update_self]
    · rw [Function.update_of_ne hij]

end SockTable

/-! ## The invariant -/

/-- An entry has what was made for its number, which knows its number. -/
structure Backed (w : Descriptors) : Prop where
  range : ∀ s ∈ w.opened, 0 ≤ s ∧ s < numSockets
  conn : ∀ i : Fin numSockets, (w.st.sockets i).conn = w.made i.val
  live : ∀ s a, w.made s = some a → ∃ c, w.st.sock a = some c ∧ c.socket = s
  fresh : ∀ a, w.st.brk ≤ a → w.st.sock a = none

theorem mem_opened {w : Descriptors} {s : Int} : s ∈ w.opened ↔ (w.made s).isSome = true := Iff.rfl

theorem initial_backed : Backed .initial where
  range _ h := nomatch h
  conn _ := rfl
  live _ _ h := nomatch h
  fresh _ _ := rfl

namespace Backed

variable {w w' : Descriptors} {i : Fin numSockets} {s s' : Int} {a : Nat}

theorem distinct (ho : Backed w) (h : w.made s = some a) (h' : w.made s' = some a) : s = s' := by
  obtain ⟨c, hc, rfl⟩ := ho.live s a h
  obtain ⟨c', hc', rfl⟩ := ho.live s' a h'
  rw [Option.some.inj (hc.symm.trans hc')]

/-- An open descriptor is the number of an entry. -/
theorem index (ho : Backed w) (h : w.made s = some a) : ∃ i : Fin numSockets, s = i.val := by
  obtain ⟨h0, hlt⟩ := ho.range s (mem_opened.mpr (by rw [h]; rfl))
  exact ⟨⟨s.toNat, by omega⟩, by simp only; omega⟩

/-- **The invariant is enough.** -/
theorem refines (ho : Backed w) : Refines w where
  range := ho.range
  distinct _ _ _ h h' := ho.distinct h h'
  get s := by
    cases hs : w.made s with
    | none =>
      cases hget : w.st.getSocket s with
      | none => rfl
      | some i =>
        obtain ⟨rfl, hconn⟩ := getSocket_some_iff.mp hget
        rw [ho.conn i] at hconn
        exact absurd hs hconn
    | some a =>
      obtain ⟨i, rfl⟩ := ho.index hs
      have hconn : (w.st.sockets i).conn = some a := (ho.conn i).trans hs
      have hget : w.st.getSocket i.val = some i :=
        getSocket_some_iff.mpr ⟨rfl, by rw [hconn]; exact nofun⟩
      rw [hget]
      simp only [Option.map_some, hconn]

/-- All descriptors are open exactly if no entry is free. -/
theorem ncard_iff (ho : Backed w) :
    w.opened.ncard = numSockets ↔ ∀ i, (w.st.sockets i).conn ≠ none := by
  have hsub : w.opened ⊆ Set.range fun i : Fin numSockets => (i.val : Int) := by
    intro s hs
    obtain ⟨h0, hlt⟩ := ho.range s hs
    exact ⟨⟨s.toNat, by omega⟩, by simp only; omega⟩
  have hcard : (Set.range fun i : Fin numSockets => (i.val : Int)).ncard = numSockets := by
    have hinj : Function.Injective fun i : Fin numSockets => (i.val : Int) := fun i j h =>
      Fin.ext (Int.ofNat.inj h)
    rw [Set.ncard_range_of_injective hinj, Nat.card_fin]
  have hmem : ∀ i : Fin numSockets, (i.val : Int) ∈ w.opened ↔ (w.st.sockets i).conn ≠ none := by
    intro i
    rw [ho.conn i, mem_opened, Option.isSome_iff_ne_none]
  constructor
  · intro h i
    rw [← hmem, Set.eq_of_subset_of_ncard_le hsub (by rw [h, hcard]) (Set.finite_range _)]
    exact ⟨i, rfl⟩
  · intro h
    rw [← hcard]
    congr 1
    refine Set.Subset.antisymm hsub ?_
    rintro s ⟨i, rfl⟩
    exact (hmem i).mpr (h i)

/-- Writing one entry, and one `struct sock` that no other descriptor has. -/
theorem entry (ho : Backed w) {e : LwipSocket} {p : Nat} {o : Option Sock}
    (hsockets : w'.st.sockets = Function.update w.st.sockets i e)
    (hmade : w'.made = Function.update w.made i.val e.conn)
    (hsock : w'.st.sock = Function.update w.st.sock p o)
    (hconn : ∀ a, e.conn = some a → a = p ∧ ∃ c, o = some c ∧ c.socket = i.val)
    (hother : ∀ s : Int, s ≠ i.val → w.made s ≠ some p)
    (hbrk : w.st.brk ≤ w'.st.brk) (hp : o ≠ none → p < w'.st.brk) : Backed w' := by
  refine ⟨fun s hs => ?_, fun j => ?_, fun s a ha => ?_, fun a ha => ?_⟩
  · by_cases hsi : s = i.val
    · have hlt := i.isLt
      omega
    · rw [mem_opened, hmade, Function.update_of_ne hsi] at hs
      exact ho.range s hs
  · rw [hsockets, hmade]
    by_cases hji : j = i
    · rw [hji, Function.update_self, Function.update_self]
    · have hval : (j.val : Int) ≠ i.val := fun h => hji (Fin.ext (Int.ofNat.inj h))
      rw [Function.update_of_ne hji, Function.update_of_ne hval]
      exact ho.conn j
  · rw [hmade] at ha
    rw [hsock]
    by_cases hsi : s = i.val
    · rw [hsi, Function.update_self] at ha
      obtain ⟨rfl, c, hc, hci⟩ := hconn a ha
      rw [Function.update_self]
      exact ⟨c, hc, hci.trans hsi.symm⟩
    · rw [Function.update_of_ne hsi] at ha
      have hap : a ≠ p := fun h => hother s hsi (h ▸ ha)
      rw [Function.update_of_ne hap]
      exact ho.live s a ha
  · rw [hsock]
    by_cases hap : a = p
    · subst hap
      rw [Function.update_self]
      by_contra hne
      have hlt := hp hne
      omega
    · rw [Function.update_of_ne hap]
      exact ho.fresh a (Nat.le_trans hbrk ha)

/-- What is free was made for nobody. -/
theorem made_ne (ho : Backed w) (h : w.st.sock a = none) (s : Int) : w.made s ≠ some a := by
  intro hs
  obtain ⟨c, hc, -⟩ := ho.live s a hs
  rw [h] at hc
  cases hc

/-- A call of `socket` on a table in order does what it should, and keeps it so. -/
theorem socket (ho : Backed w) (type : Int) (a : Nat) :
    Opens w (.socket type a) ∧ ∃ w', sockOpStep w (.socket type a) = .ok w' ∧ Backed w' := by
  suffices h : ∃ r, w.st.socket type a = .ok r ∧
      (r.2 = -1 ↔ type ≠ sockDgram ∧ type ≠ sockStream ∨ w.opened.ncard = numSockets) ∧
      (r.2 = -1 → r.1.sockets = w.st.sockets) ∧
      (r.2 ≠ -1 → r.2 ∉ w.opened ∧ ∃ i, r.1.getSocket r.2 = some i ∧
        r.1.sockets i = ⟨some (w.st.malloc a), none, 0#16, 0#16, 1#16, 0#16, 0#32⟩) ∧
      Backed ⟨r.1, if r.2 = -1 then w.made
        else Function.update w.made r.2 (some (w.st.malloc a))⟩ by
    obtain ⟨r, hr, hfail, hsame, hnew, ho'⟩ := h
    refine ⟨fun type' a' he => ?_, _, ?_, ho'⟩
    · cases he
      exact ⟨r, hr, hfail, hsame, hnew⟩
    · rw [sockOpStep, hr]
      rfl
  by_cases htype : type ≠ sockDgram ∧ type ≠ sockStream
  · refine ⟨_, socket_unsupported htype a, iff_of_true rfl (Or.inl htype), fun _ => rfl,
      fun h => absurd rfl h, ?_⟩
    rw [if_pos rfl]
    exact ho
  obtain ⟨t, ht⟩ := netconnType_some htype
  cases hfind : (List.finRange numSockets).find? (fun i => (w.st.sockets i).conn = none) with
  | none =>
    have hfull : ∀ i, (w.st.sockets i).conn ≠ none := fun i hi =>
      List.find?_eq_none.mp hfind i (List.mem_finRange i) (decide_eq_true hi)
    refine ⟨_, socket_full ht ho.fresh hfull a, iff_of_true rfl (Or.inr (ho.ncard_iff.mpr hfull)),
      fun _ => rfl, fun h => absurd rfl h, ?_⟩
    rw [if_pos rfl]
    exact ⟨ho.range, ho.conn, ho.live, fun b hb =>
      ho.fresh b (Nat.le_trans (Nat.le_max_left ..) hb)⟩
  | some i =>
    have hfree : (w.st.sockets i).conn = none := by
      have hi := List.find?_some hfind
      exact of_decide_eq_true hi
    have hclosed : w.made i.val = none := (ho.conn i).symm.trans hfree
    have hne : (i.val : Int) ≠ -1 := by omega
    have hself : ∀ e : LwipSocket, Function.update w.st.sockets i e i = e := fun e =>
      Function.update_self ..
    refine ⟨_, socket_found ht hfind a, iff_of_false hne ?_, fun h => absurd h hne,
      fun _ => ⟨?_, i, getSocket_some_iff.mpr ⟨rfl, ?_⟩, hself _⟩, ?_⟩
    · rintro (h | h)
      · exact htype h
      · exact ho.ncard_iff.mp h i hfree
    · rw [mem_opened, hclosed]
      exact nofun
    · exact (congrArg LwipSocket.conn (hself _)).trans_ne nofun
    · rw [if_neg hne]
      refine ho.entry rfl rfl rfl (fun b hb => ⟨(Option.some.inj hb).symm, _, rfl, rfl⟩)
        (fun s _ => ho.made_ne (malloc_free ho.fresh a) s) (Nat.le_max_left ..) fun _ => ?_
      exact Nat.lt_of_lt_of_le (Nat.lt_succ_self _) (Nat.le_max_right ..)

/-- A call of `close` keeps it. -/
theorem close (ho : Backed w) (s : Int) :
    ∃ w', sockOpStep w (.close s) = .ok w' ∧ Backed w' := by
  rw [sockOpStep]
  cases hget : w.st.getSocket s with
  | none =>
    rw [close_none hget]
    have hs : w.made s = none := by
      have h := ho.refines.get s
      rw [hget] at h
      cases hm : w.made s with
      | none => rfl
      | some a =>
        rw [hm] at h
        cases h
    refine ⟨_, rfl, ?_⟩
    rw [Function.update_eq_self_iff.mpr hs.symm]
    exact ho
  | some i =>
    obtain ⟨rfl, hne⟩ := getSocket_some_iff.mp hget
    obtain ⟨a, ha⟩ := Option.ne_none_iff_exists'.mp hne
    have hmade : w.made i.val = some a := (ho.conn i).symm.trans ha
    obtain ⟨c, hc, -⟩ := ho.live _ _ hmade
    rw [close_some hget ha hc]
    -- what is freed was made for no other descriptor
    exact ⟨_, rfl, ho.entry rfl rfl rfl nofun (fun s hs h => hs (ho.distinct h hmade))
      (Nat.le_refl _) fun h => absurd rfl h⟩

/-- The other calls keep it. -/
theorem use (ho : Backed w) (s : Int) (d : LwipSocket) :
    Backed { w with st := w.st.use s d } := by
  obtain ⟨hconn, hsock, hbrk⟩ := use_keeps w.st s d
  refine ⟨ho.range, fun i => (hconn i).trans (ho.conn i), ?_, ?_⟩
  · show ∀ s' a, w.made s' = some a → ∃ c, (w.st.use s d).sock a = some c ∧ c.socket = s'
    rw [hsock]
    exact ho.live
  · show ∀ a, (w.st.use s d).brk ≤ a → (w.st.use s d).sock a = none
    rw [hsock, hbrk]
    exact ho.fresh

end Backed

/-- **The table is the map** from the open descriptors to what was made for them, over
every run of the calls. -/
theorem sockets_refine (ops : List SockOp) : Works ops := by
  refine run_works (fun _ ho => ho.refines) ?_ ops initial_backed
  intro w op ho
  cases op with
  | socket type a => exact ho.socket type a
  | close s => exact ⟨nofun, ho.close s⟩
  | use s d => exact ⟨nofun, _, rfl, ho.use s d⟩

end LinuxNet.Sip
