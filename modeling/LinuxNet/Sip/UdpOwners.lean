import LinuxNet.Lib.Except
import LinuxNet.Sip.UdpSteps

/-!
# Who owns an address and port

The comment at `SIP_UDPBind` promises -1 for an address and port that another
control block is bound to. Its first loop only looks for the block itself, so it
never finds another one, and the address is written whatever comes of it.

A state is looked at through `owner` alone: the local address and port of every
block. Binding writes one entry of it, `SIP_UDPRemove` deletes one, the rest leave
it as it is, unless `SIP_UDPNew` clears more than its block. `ownsPorts_iff` says of which
runs the promise is kept: those in which it never does, and in which no block is ever bound
to what another one has, whether by `SIP_UDPBind` or by the port that `SIP_UDPConnect` picks
for it.
-/

namespace LinuxNet.Sip

namespace UdpState

/-- The local address and port of a block. -/
def owner (st : UdpState) (p : Nat) : Option (BitVec 32 × BitVec 16) :=
  (st.pcb p).map fun c => (c.ipLocal, c.portLocal)

/-- The block is bound to this address and port. -/
def Bound (st : UdpState) (p : Nat) (a : BitVec 32 × BitVec 16) : Prop :=
  st.owner p = some a ∧ a.2 ≠ 0#16

/-- Another block is bound to this address and port. -/
def Taken (st : UdpState) (p : Nat) (a : BitVec 32 × BitVec 16) : Prop :=
  ∃ q, q ≠ p ∧ st.Bound q a

/-- No two blocks are bound to the same address and port. -/
def Unique (st : UdpState) : Prop := ∀ p q a, st.Bound p a → st.Bound q a → p = q

/-- The port the search of `SIP_UDPBind` ends with: the first above the counter that no
block in the list of its bucket has. -/
def FirstFree (st : UdpState) (k : Nat) : Prop :=
  st.index.toNat < k ∧ k < udpHtableSize ∧
    (∀ j, st.index.toNat < j → j < k →
      ∃ q, st.scan (BitVec.ofNat 16 j) (st.table j) = .ok (some q)) ∧
    st.scan (BitVec.ofNat 16 k) (st.table k) = .ok none

end UdpState

open UdpState

/-- Operations as the claim has them: `SIP_UDPBind` is given a port. -/
def UdpOp.Explicit : UdpOp → Prop
  | .bind _ _ port => port ≠ 0#16
  | _ => True

instance : DecidablePred UdpOp.Explicit := fun op =>
  match op with
  | .bind _ _ port => inferInstanceAs (Decidable (port ≠ 0#16))
  | .new _ | .connect .. | .disconnect _ | .remove _ => isTrue trivial

/-- An operation whose port, if it binds, is given. -/
abbrev PortOp := {op : UdpOp // op.Explicit}

def portStep (st : UdpState) (op : PortOp) : Except Fault UdpState := udpStep st op.1

/-- A bind to what another block has is refused, and changes nothing. -/
def Refuses (st : UdpState) (op : PortOp) : Prop :=
  ∀ p ipaddr port, op.1 = .bind p ipaddr port → (st.pcb p).isSome = true →
    st.Taken p (ipaddr, port) → st.udpBind p ipaddr port = .ok (st, -1)

/-- A new block is cleared and nothing behind it, so all others are what they were. -/
def ClearsOwn (st : UdpState) (op : PortOp) : Prop :=
  ∀ spare, op.1 = .new spare → portStep st op ≠ .error .outOfBounds

/-- A run from the empty table refuses what is to be refused, clears no block but new ones, and
never has two blocks with the same address and port. -/
def OwnsPorts (ops : List PortOp) : Prop :=
  Along portStep (fun st op => Refuses st op ∧ ClearsOwn st op) .initial ops ∧
    Always portStep UdpState.Unique .initial ops

/-- The operations that bind no block to what another one has, and clear no other block than
their own. -/
def TakesNothing (st : UdpState) (op : PortOp) : Prop :=
  match op.1 with
  | .new spare => sizeofUdpPcb ≤ sizeofUdpPcbPointer + spare
  | .bind p ipaddr port => (st.pcb p).isSome = true → ¬ st.Taken p (ipaddr, port)
  | .connect p _ _ => ∀ c k, st.pcb p = some c → c.portLocal = 0#16 → st.FirstFree k →
    ¬ st.Taken p (c.ipLocal, BitVec.ofNat 16 k)
  | _ => True

/-! ## Owners -/

section Owners

variable {st st' : UdpState} {p : Nat} {a : BitVec 32 × BitVec 16}

/-- Giving a block what nobody else has keeps the owners apart. -/
theorem UdpState.Unique.update (hu : st.Unique) {o : Option (BitVec 32 × BitVec 16)}
    (ho : st'.owner = Function.update st.owner p o) (hfree : ∀ a, o = some a → ¬ st.Taken p a) :
    st'.Unique := by
  have hself : ∀ {a}, st'.Bound p a → o = some a := by
    intro a h
    rw [Bound, ho, Function.update_self] at h
    exact h.1
  have hother : ∀ {q a}, q ≠ p → st'.Bound q a → st.Bound q a := by
    intro q a hq h
    rwa [Bound, ho, Function.update_of_ne hq] at h
  intro q r a hq hr
  by_cases hqp : q = p
  · by_cases hrp : r = p
    · rw [hqp, hrp]
    · subst hqp
      exact absurd ⟨r, hrp, hother hrp hr⟩ (hfree a (hself hq))
  · by_cases hrp : r = p
    · subst hrp
      exact absurd ⟨q, hqp, hother hqp hq⟩ (hfree a (hself hr))
    · exact hu q r a (hother hqp hq) (hother hrp hr)

theorem UdpState.Unique.congr (hu : st.Unique) (ho : st'.owner = st.owner) : st'.Unique := by
  intro q r a hq hr
  rw [Bound, ho] at hq hr
  exact hu q r a hq hr

/-- Giving it what somebody else has does not. -/
theorem UdpState.Taken.not_unique (ht : st.Taken p a)
    (ho : st'.owner = Function.update st.owner p (some a)) : ¬ st'.Unique := by
  intro hu
  obtain ⟨q, hq, hb⟩ := ht
  refine hq (hu q p a ?_ ?_)
  · rwa [Bound, ho, Function.update_of_ne hq]
  · rw [Bound, ho, Function.update_self]
    exact ⟨rfl, hb.2⟩

theorem owner_write (d : UdpPcb) :
    (st.write p d).owner = Function.update st.owner p (some (d.ipLocal, d.portLocal)) := by
  funext q
  unfold owner
  by_cases hq : q = p
  · subst hq
    rw [pcb_write_self, Function.update_self]
    rfl
  · rw [pcb_write_ne hq, Function.update_of_ne hq]

theorem owner_pushed (d : UdpPcb) (port : Nat) :
    (st.pushed p d port).owner = Function.update st.owner p (some (d.ipLocal, d.portLocal)) := by
  funext q
  unfold owner
  by_cases hq : q = p
  · subst hq
    rw [pcb_pushed_self, Function.update_self]
    rfl
  · rw [pcb_pushed_ne hq, Function.update_of_ne hq]

theorem owner_free : (st.free p).owner = Function.update st.owner p none := by
  funext q
  unfold owner
  by_cases hq : q = p
  · subst hq
    rw [pcb_free_self, Function.update_self]
    rfl
  · rw [pcb_free_ne hq, Function.update_of_ne hq]

/-- Writing a block without its address and port keeps the owners. -/
theorem owner_write_same {c d : UdpPcb} (h : st.pcb p = some c) (hip : d.ipLocal = c.ipLocal)
    (hport : d.portLocal = c.portLocal) : (st.write p d).owner = st.owner := by
  rw [owner_write, hip, hport]
  exact Function.update_eq_self_iff.mpr (by rw [owner, h]; rfl)

end Owners

/-! ## What every operation leaves alone -/

/-- The counter of `found_a_port` is below the size of the table, and list 0 is empty:
port 0 is none. -/
structure Steady (st : UdpState) : Prop where
  index : st.index.toNat < udpHtableSize
  zero : st.table 0 = none

variable {st st' : UdpState} {p : Nat} {c : UdpPcb}

theorem initial_unique : UdpState.Unique .initial := by
  intro p q a hp
  cases hp.1

theorem initial_steady : Steady .initial := ⟨by decide, rfl⟩

theorem Steady.write (hs : Steady st) (d : UdpPcb) : Steady (st.write p d) := ⟨hs.index, hs.zero⟩

theorem Steady.pushed (hs : Steady st) (d : UdpPcb) {port : Nat} (hport : port ≠ 0) :
    Steady (st.pushed p d port) :=
  ⟨hs.index, (table_pushed_ne (Ne.symm hport) st p d).trans hs.zero⟩

theorem Steady.free (hs : Steady st) : Steady (st.free p) := ⟨hs.index, hs.zero⟩

theorem deref_eq_ok (h : st.deref (some p) = .ok c) : st.pcb p = some c := by
  cases hp : st.pcb p with
  | none =>
    rw [deref_dead hp] at h
    cases h
  | some d =>
    rw [deref_eq hp] at h
    rw [Except.ok.inj h]

/-! ## Bind to a port -/

theorem toNat_ne_zero {port : BitVec 16} (h : port ≠ 0#16) : port.toNat ≠ 0 := fun he =>
  h (BitVec.eq_of_toNat_eq he)

/-- The end of `SIP_UDPBind` gives the block its port. -/
theorem bindAs_owner (hs : Steady st) (h : st.pcb p = some c) {cells : List Nat}
    {port : BitVec 16} (hport : port ≠ 0#16) {r : UdpState × Int}
    (hr : st.bindAs p cells port = .ok r) :
    r.2 = 0 ∧ r.1.owner = Function.update st.owner p (some (c.ipLocal, port)) ∧ Steady r.1 := by
  rw [bindAs_eq h] at hr
  split at hr
  next =>
    cases hr
    exact ⟨rfl, owner_write _, hs.write _⟩
  next =>
    split at hr
    next =>
      cases hr
      exact ⟨rfl, owner_pushed _ _, hs.pushed _ (toNat_ne_zero hport)⟩
    next => cases hr

/-- `SIP_UDPBind` with a port: the list of the port, then the address, then the port. -/
theorem udpBind_port (st : UdpState) (p : Nat) (ipaddr : BitVec 32) {port : BitVec 16}
    (hport : port ≠ 0#16) :
    st.udpBind p ipaddr port =
      (cellsFrom st.link st.fuel (st.table (port.toNat &&& (udpHtableSize - 1))) >>= fun cells =>
        (st.modify p fun c => { c with ipLocal := ipaddr }) >>= fun st =>
          st.bindAs p cells port) := by
  have hlt : port.toNat &&& (udpHtableSize - 1) < udpHtableSize :=
    Nat.lt_of_le_of_lt Nat.and_le_right (by decide)
  have hbind : ∀ st : UdpState, st.bindPort port = .ok (st, port, none) := fun st => if_neg hport
  simp only [udpBind, bucket_eq hlt, hbind, bind, Except.bind, ne_eq, not_true, if_false]

/-- What a bind that gets through has done. -/
theorem udpBind_owner (hs : Steady st) {ipaddr : BitVec 32} {port : BitVec 16}
    (hport : port ≠ 0#16) {r : UdpState × Int} (hr : st.udpBind p ipaddr port = .ok r) :
    (st.pcb p).isSome = true ∧ r.2 = 0 ∧
      r.1.owner = Function.update st.owner p (some (ipaddr, port)) ∧ Steady r.1 := by
  rw [udpBind_port st p ipaddr hport] at hr
  obtain ⟨cells, -, hr⟩ := bind_eq_ok.mp hr
  obtain ⟨st1, h1, hr⟩ := bind_eq_ok.mp hr
  cases h : st.pcb p with
  | none =>
    rw [modify_dead h] at h1
    cases h1
  | some c =>
    rw [modify_eq h] at h1
    cases h1
    obtain ⟨h0, ho, hs'⟩ :=
      bindAs_owner (hs.write _) (pcb_write_self st p { c with ipLocal := ipaddr }) hport hr
    refine ⟨rfl, h0, ho.trans ?_, hs'⟩
    rw [owner_write, Function.update_idem]

/-! ## The port that is picked -/

theorem UdpState.FirstFree.unique {k k' : Nat} (h : st.FirstFree k) (h' : st.FirstFree k') :
    k = k' := by
  obtain ⟨hi, -, hbelow, hfree⟩ := h
  obtain ⟨hi', -, hbelow', hfree'⟩ := h'
  rcases Nat.lt_trichotomy k k' with hlt | rfl | hlt
  · obtain ⟨q, hq⟩ := hbelow' k hi hlt
    rw [hfree] at hq
    cases hq
  · rfl
  · obtain ⟨q, hq⟩ := hbelow k' hi' hlt
    rw [hfree'] at hq
    cases hq

/-- One turn of the search, while the counter stays below the size of the table. -/
theorem autoPort_succ (hs : st.index.toNat + 1 < udpHtableSize) (turns : Nat) :
    autoPort (turns + 1) st =
      (st.scan (BitVec.ofNat 16 (st.index.toNat + 1)) (st.table (st.index.toNat + 1)) >>=
          fun ipcb =>
        if ipcb = none then
          .ok ({ st with index := st.index + 1#32 }, BitVec.ofNat 16 (st.index.toNat + 1), none)
        else autoPort turns { st with index := st.index + 1#32 }) := by
  obtain ⟨-, hport⟩ := @index_succ st (by omega)
  have hport' : (st.index + 1#32).setWidth 16 = BitVec.ofNat 16 (st.index.toNat + 1) := by
    apply BitVec.eq_of_toNat_eq
    rw [hport, BitVec.toNat_ofNat, Nat.mod_eq_of_lt]
    exact Nat.lt_trans hs (by decide)
  have hend : BitVec.ofNat 16 (st.index.toNat + 1) ≠ udpPortRangeEnd := by
    intro he
    rw [← hport', ← BitVec.toNat_inj, hport] at he
    rw [he] at hs
    exact absurd hs (by decide)
  rw [autoPort, foundAPort]
  dsimp only
  rw [bucket_eq (hport ▸ hs), hport, hport']
  dsimp only
  have hscan : ({ st with index := st.index + 1#32 } : UdpState).scan = st.scan := rfl
  rw [if_neg hend, hscan]
  cases st.scan (BitVec.ofNat 16 (st.index.toNat + 1)) (st.table (st.index.toNat + 1)) with
  | error f => rfl
  | ok o => cases o <;> rfl

/-- At the size of the table the search leaves it. -/
theorem autoPort_end (hs : st.index.toNat < udpHtableSize)
    (hend : ¬ st.index.toNat + 1 < udpHtableSize) (turns : Nat) :
    autoPort (turns + 1) st = .error .outOfBounds := by
  obtain ⟨-, hport⟩ := index_succ hs
  rw [autoPort, foundAPort]
  dsimp only
  rw [bucket_oob (hport ▸ hend)]

/-- Where the next port is taken, what comes behind it decides. -/
theorem firstFree_next {k q : Nat} (hs : st.index.toNat < udpHtableSize)
    (hq : st.scan (BitVec.ofNat 16 (st.index.toNat + 1)) (st.table (st.index.toNat + 1)) =
      .ok (some q)) :
    ({ st with index := st.index + 1#32 } : UdpState).FirstFree k ↔ st.FirstFree k := by
  obtain ⟨hi, -⟩ := index_succ hs
  unfold FirstFree
  rw [hi]
  constructor
  · intro h
    obtain ⟨hlt, hk, hbelow, hfree⟩ := h
    refine ⟨by omega, hk, fun j hj hjk => ?_, hfree⟩
    by_cases he : j = st.index.toNat + 1
    · exact ⟨q, he ▸ hq⟩
    · exact hbelow j (by omega) hjk
  · intro h
    obtain ⟨hlt, hk, hbelow, hfree⟩ := h
    have hne : k ≠ st.index.toNat + 1 := by
      intro he
      rw [he, hq] at hfree
      cases hfree
    exact ⟨by omega, hk, fun j hj hjk => hbelow j (by omega) hjk, hfree⟩

/-- The port the search comes back with is the first free one, and the counter stands
at it. -/
theorem autoPort_ok (turns : Nat) : ∀ {st : UdpState} {r : UdpState × BitVec 16 × Option Nat},
    st.index.toNat < udpHtableSize → autoPort turns st = .ok r →
      ∃ k, st.FirstFree k ∧
        r = ({ st with index := BitVec.ofNat 32 k }, BitVec.ofNat 16 k, none) := by
  induction turns with
  | zero =>
    intro st r _ hr
    cases hr
  | succ turns ih =>
    intro st r hs hr
    by_cases hlt : st.index.toNat + 1 < udpHtableSize
    · rw [autoPort_succ hlt] at hr
      obtain ⟨ipcb, hscan, hr⟩ := bind_eq_ok.mp hr
      obtain ⟨hi, -⟩ := index_succ hs
      cases ipcb with
      | none =>
        rw [if_pos rfl] at hr
        cases hr
        refine ⟨st.index.toNat + 1, ⟨Nat.lt_succ_self _, hlt, fun j hj hjk => ?_, hscan⟩, ?_⟩
        · omega
        · have hindex : st.index + 1#32 = BitVec.ofNat 32 (st.index.toNat + 1) := by
            rw [← hi, BitVec.ofNat_toNat, BitVec.setWidth_eq]
          rw [hindex]
      | some q =>
        rw [if_neg nofun] at hr
        obtain ⟨k, hk, rfl⟩ := ih (by rw [hi]; exact hlt) hr
        exact ⟨k, (firstFree_next hs hscan).mp hk, rfl⟩
    · rw [autoPort_end hs hlt] at hr
      cases hr

/-- Where there is a first free port, the search comes back. -/
theorem autoPort_finds (turns : Nat) : ∀ {st : UdpState} {k : Nat},
    st.index.toNat < udpHtableSize → st.FirstFree k → k ≤ st.index.toNat + turns →
      ∃ r, autoPort turns st = .ok r := by
  induction turns with
  | zero =>
    intro st k _ hk hle
    exact absurd hk.1 (Nat.not_lt.mpr hle)
  | succ turns ih =>
    intro st k hs hk hle
    obtain ⟨hlt, hklt, hbelow, hfree⟩ := hk
    rw [autoPort_succ (by omega)]
    by_cases he : k = st.index.toNat + 1
    · subst he
      rw [hfree]
      exact ⟨_, rfl⟩
    · obtain ⟨q, hq⟩ := hbelow (st.index.toNat + 1) (Nat.lt_succ_self _) (by omega)
      obtain ⟨hi, -⟩ := index_succ hs
      obtain ⟨r, hr⟩ := @ih { st with index := st.index + 1#32 } k (by rw [hi]; omega)
        ((firstFree_next hs hq).mpr ⟨hlt, hklt, hbelow, hfree⟩)
        (by rw [hi]; omega)
      exact ⟨r, by rw [hq]; exact hr⟩

/-! ## Connect -/

/-- What `SIP_UDPConnect` does to a block that has a port keeps the owners. -/
theorem connectTo_owner (hs : Steady st) (h : st.pcb p = some c) (hport : c.portLocal ≠ 0#16)
    {ipaddr : BitVec 32} {port : BitVec 16} {r : UdpState × Int}
    (hr : st.connectTo p ipaddr port = .ok r) : r.1.owner = st.owner ∧ Steady r.1 := by
  unfold connectTo at hr
  rw [modify_eq h] at hr
  obtain ⟨st1, h1, hr⟩ := bind_eq_ok.mp hr
  cases h1
  have hself := pcb_write_self st p { c with
    ipRemote := ipaddr, portRemote := port, flags := c.flags ||| udpFlagsConnected }
  rw [deref_eq hself] at hr
  obtain ⟨_, hc, hr⟩ := bind_eq_ok.mp hr
  cases hc
  obtain ⟨head, -, hr⟩ := bind_eq_ok.mp hr
  obtain ⟨found, -, hr⟩ := bind_eq_ok.mp hr
  by_cases hf : found = none
  · rw [if_neg (not_not.mpr hf)] at hr
    obtain ⟨st2, h2, hr⟩ := bind_eq_ok.mp hr
    cases hr
    by_cases hlt : c.portLocal.toNat < udpHtableSize
    · rw [pushFront_eq hself hlt] at h2
      cases h2
      refine ⟨?_, (hs.write _).pushed _ (toNat_ne_zero hport)⟩
      rw [write_pushed, owner_pushed]
      exact Function.update_eq_self_iff.mpr (by rw [owner, h]; rfl)
    · rw [pushFront_oob hlt] at h2
      cases h2
  · rw [if_pos hf] at hr
    cases hr
    exact ⟨owner_write_same h rfl rfl, hs.write _⟩

/-- A block at the head of its list is found there at once. -/
theorem connectTo_head (h : st.pcb p = some c) (hlt : c.portLocal.toNat < udpHtableSize)
    (hhead : st.table c.portLocal.toNat = some p) (ipaddr : BitVec 32) (port : BitVec 16) :
    st.connectTo p ipaddr port = .ok (st.write p { c with
      ipRemote := ipaddr, portRemote := port, flags := c.flags ||| udpFlagsConnected }, 0) := by
  have hself := pcb_write_self st p { c with
    ipRemote := ipaddr, portRemote := port, flags := c.flags ||| udpFlagsConnected }
  have hchase : ∀ {st2 : UdpState} {e : UdpPcb}, st2.pcb p = some e →
      chase st2.link (fun q => q == p) st2.fuel (some p) = .ok (some p) := by
    intro st2 e he
    rw [fuel, chase, link_eq he]
    exact if_pos (beq_self_eq_true p)
  unfold connectTo
  rw [modify_eq h]
  refine bind_eq_ok.mpr ⟨_, rfl, bind_eq_ok.mpr ⟨_, deref_eq hself, ?_⟩⟩
  refine bind_eq_ok.mpr ⟨_, bucket_eq hlt _, bind_eq_ok.mpr ⟨some p, ?_,
    if_pos (Option.some_ne_none p)⟩⟩
  exact (congrArg _ hhead).trans (hchase hself)

/-- `SIP_UDPBind` without a port: the search, and the end of it. -/
theorem udpBind_auto (hs : Steady st) (h : st.pcb p = some c) :
    st.udpBind p c.ipLocal 0#16 =
      (autoPort 200 st >>= fun r =>
        if r.2.2 ≠ none then .ok (r.1, -1) else r.1.bindAs p [] r.2.1) := by
  have hzero : st.bucket ((0#16).toNat &&& (udpHtableSize - 1)) = .ok none :=
    (bucket_eq (by decide) st).trans (congrArg _ hs.zero)
  have hcells : cellsFrom st.link st.fuel none = .ok [] := by
    rw [fuel, cellsFrom]
  have hsame : st.write p { c with ipLocal := c.ipLocal } = st := by
    unfold write
    rw [Function.update_eq_self_iff.mpr h.symm]
  have hbind : st.bindPort 0#16 = autoPort 200 st := if_pos rfl
  simp only [udpBind, hzero, hcells, modify_eq h, hsame, hbind, bind, Except.bind]
  rfl

/-- The port that is picked is one the table has a list for, and no counter cuts it. -/
theorem UdpState.FirstFree.picked {k : Nat} (hk : st.FirstFree k) :
    BitVec.ofNat 16 k ≠ 0#16 ∧ (BitVec.ofNat 16 k).toNat = k ∧ (BitVec.ofNat 32 k).toNat = k := by
  obtain ⟨hlt, hklt, -⟩ := hk
  unfold udpHtableSize at hklt
  have h16 : (BitVec.ofNat 16 k).toNat = k := by
    rw [BitVec.toNat_ofNat, Nat.mod_eq_of_lt (by omega)]
  refine ⟨fun he => ?_, h16, by rw [BitVec.toNat_ofNat, Nat.mod_eq_of_lt (by omega)]⟩
  rw [he] at h16
  have : (0#16).toNat = 0 := rfl
  omega

/-- `SIP_UDPBind` without a port binds to the first free one. -/
theorem udpBind_firstFree (hs : Steady st) (h : st.pcb p = some c) {k : Nat}
    (hk : st.FirstFree k) :
    st.udpBind p c.ipLocal 0#16 =
      .ok (({ st with index := BitVec.ofNat 32 k } : UdpState).pushed p
        { c with portLocal := BitVec.ofNat 16 k } (BitVec.ofNat 16 k).toNat, 0) := by
  have hsteps : k ≤ st.index.toNat + 200 := by
    have hlt := hk.2.1
    unfold udpHtableSize at hlt
    omega
  obtain ⟨r, hr⟩ := autoPort_finds 200 hs.index hk hsteps
  obtain ⟨k', hk', rfl⟩ := autoPort_ok 200 hs.index hr
  obtain rfl := FirstFree.unique hk hk'
  rw [udpBind_auto hs h, hr]
  have hpcb : ({ st with index := BitVec.ofNat 32 k } : UdpState).pcb p = some c := h
  refine bind_eq_ok.mpr ⟨_, rfl, (if_neg (not_not.mpr rfl)).trans ?_⟩
  rw [bindAs_eq hpcb, if_neg List.not_mem_nil, if_pos (by rw [hk.picked.2.1]; exact hk.2.1)]

/-- `SIP_UDPConnect` of a block without a port binds it first. -/
theorem udpConnect_unbound (h : st.pcb p = some c) (hport : c.portLocal = 0#16)
    (ipaddr : BitVec 32) (port : BitVec 16) :
    st.udpConnect p ipaddr port = (st.udpBind p c.ipLocal 0#16 >>= fun r =>
      if r.2 ≠ 0 then .ok r else r.1.connectTo p ipaddr port) := by
  unfold udpConnect
  rw [deref_eq h]
  show (if c.portLocal = 0#16 then _ else _) = _
  rw [if_pos hport]
  rfl

/-- What `SIP_UDPConnect` does to a block without a port: it binds it to the first free
one, if there is one. -/
theorem udpConnect_owner (hs : Steady st) (h : st.pcb p = some c) (hport : c.portLocal = 0#16)
    (ipaddr : BitVec 32) (port : BitVec 16) :
    (∀ r, st.udpConnect p ipaddr port = .ok r → ∃ k, st.FirstFree k ∧
      r.1.owner = Function.update st.owner p (some (c.ipLocal, BitVec.ofNat 16 k)) ∧
      Steady r.1) ∧
    ∀ k, st.FirstFree k → ∃ r, st.udpConnect p ipaddr port = .ok r := by
  rw [udpConnect_unbound h hport]
  refine ⟨fun r hr => ?_, fun k hk => ?_⟩
  · obtain ⟨rb, hb, hr⟩ := bind_eq_ok.mp hr
    rw [udpBind_auto hs h] at hb
    obtain ⟨ra, ha, -⟩ := bind_eq_ok.mp hb
    obtain ⟨k, hk, rfl⟩ := autoPort_ok 200 hs.index ha
    rw [← udpBind_auto hs h, udpBind_firstFree hs h hk] at hb
    cases hb
    rw [if_neg (not_not.mpr rfl)] at hr
    obtain ⟨hne, h16, h32⟩ := hk.picked
    have hcounter : Steady { st with index := BitVec.ofNat 32 k } :=
      ⟨by rw [h32]; exact hk.2.1, hs.zero⟩
    obtain ⟨ho, hs'⟩ :=
      connectTo_owner (hcounter.pushed _ (toNat_ne_zero hne)) (pcb_pushed_self ..) hne hr
    exact ⟨k, hk, ho.trans (owner_pushed _ _), hs'⟩
  · have hlt : (BitVec.ofNat 16 k).toNat < udpHtableSize := by
      rw [hk.picked.2.1]
      exact hk.2.1
    rw [udpBind_firstFree hs h hk]
    exact ⟨_, bind_eq_ok.mpr ⟨_, rfl, (if_neg (not_not.mpr rfl)).trans
      (connectTo_head (pcb_pushed_self ..) hlt (table_pushed_self ..) ipaddr port)⟩⟩

/-! ## The other operations -/

/-- A new block has no port. -/
theorem newBlock_owner :
    st.newBlock.owner = Function.update st.owner st.brk (some (0#32, 0#16)) := by
  funext q
  have hpcb : st.newBlock.pcb q = Function.update st.pcb st.brk
      (some ⟨0#32, 0#32, 255#8, none, 0#8, 0#16, 0#16, none⟩) q := rfl
  unfold owner
  rw [hpcb]
  by_cases hq : q = st.brk
  · subst hq
    rw [Function.update_self, Function.update_self]
    rfl
  · rw [Function.update_of_ne hq, Function.update_of_ne hq]

theorem udpNew_ok {spare : Nat} (hr : st.udpNew spare = .ok st') :
    sizeofUdpPcb ≤ sizeofUdpPcbPointer + spare ∧ st.newBlock = st' := by
  unfold udpNew at hr
  split at hr
  next hroom => exact ⟨hroom, Except.ok.inj hr⟩
  next => cases hr

theorem udpDisconnect_owner (hs : Steady st) (hr : st.udpDisconnect p = .ok st') :
    st'.owner = st.owner ∧ Steady st' := by
  unfold udpDisconnect at hr
  cases h : st.pcb p with
  | none =>
    rw [modify_dead h] at hr
    cases hr
  | some c =>
    rw [modify_eq h] at hr
    cases hr
    exact ⟨owner_write_same h rfl rfl, hs.write _⟩

/-- The loop of `SIP_UDPRemove` moves pointers, and nothing else. -/
theorem removeLoop_owner (turns : Nat) : ∀ {st : UdpState} {pcbT : Option Nat},
    Steady st → removeLoop p turns st pcbT = .ok st' → st'.owner = st.owner ∧ Steady st' := by
  induction turns with
  | zero =>
    intro st pcbT _ hr
    cases hr
  | succ turns ih =>
    intro st pcbT hs hr
    cases pcbT with
    | none => cases hr
    | some pt =>
      obtain ⟨t, ht, hr⟩ := bind_eq_ok.mp hr
      have hpt : st.pcb pt = some t := deref_eq_ok ht
      cases hnext : t.next with
      | none =>
        rw [hnext] at hr
        cases hr
        exact ⟨rfl, hs⟩
      | some q =>
        rw [hnext] at hr
        dsimp only at hr
        by_cases hq : q = p
        · rw [if_pos hq] at hr
          obtain ⟨d, -, hr⟩ := bind_eq_ok.mp hr
          rw [modify_eq hpt] at hr
          obtain ⟨_, h1, hr⟩ := bind_eq_ok.mp hr
          cases h1
          obtain ⟨ho, hs'⟩ := ih (hs.write _) hr
          exact ⟨ho.trans (owner_write_same hpt rfl rfl), hs'⟩
        · rw [if_neg hq] at hr
          exact ih hs hr

/-- `SIP_UDPRemove` deletes one owner. -/
theorem udpRemove_owner (hs : Steady st) (hr : st.udpRemove (some p) = .ok st') :
    st'.owner = Function.update st.owner p none ∧ Steady st' := by
  obtain ⟨c, -, hr⟩ := bind_eq_ok.mp hr
  have hlt : c.portLocal.toNat % udpHtableSize < udpHtableSize := Nat.mod_lt _ (by decide)
  rw [bucket_eq hlt] at hr
  obtain ⟨head, hhead, hr⟩ := bind_eq_ok.mp hr
  cases hhead
  cases ht : st.table (c.portLocal.toNat % udpHtableSize) with
  | none =>
    rw [ht] at hr
    cases hr
    exact ⟨owner_free, hs.free⟩
  | some t =>
    rw [ht] at hr
    dsimp only at hr
    by_cases htp : t = p
    · rw [if_pos htp] at hr
      obtain ⟨st1, h1, hr⟩ := bind_eq_ok.mp hr
      rw [setBucket, if_pos hlt] at h1
      cases h1
      cases hr
      refine ⟨owner_free, hs.index, ?_⟩
      -- list 0 is empty, so it is another one that the block stood in front of
      have hne : 0 ≠ c.portLocal.toNat % udpHtableSize := by
        intro he
        rw [← he, hs.zero] at ht
        cases ht
      exact (Function.update_of_ne hne ..).trans hs.zero
    · rw [if_neg htp] at hr
      obtain ⟨st1, h1, hr⟩ := bind_eq_ok.mp hr
      cases hr
      obtain ⟨ho, hs'⟩ := removeLoop_owner _ hs h1
      exact ⟨by rw [owner_free, ho], hs'.free⟩

/-! ## Every operation, and every run -/

/-- **One operation** that gets through: it keeps the owners, or writes one of them. What
it writes is what another block has exactly if it misses the guard. -/
theorem portStep_cases (hs : Steady st) {op : PortOp} (hr : portStep st op = .ok st') :
    Steady st' ∧ (st'.owner = st.owner ∧ TakesNothing st op ∨
      ∃ p o, st'.owner = Function.update st.owner p o ∧
        (TakesNothing st op ↔ ∀ a, o = some a → ¬ st.Taken p a)) := by
  obtain ⟨op, hport⟩ := op
  cases op with
  | new spare =>
    obtain ⟨hroom, rfl⟩ := udpNew_ok hr
    refine ⟨⟨hs.index, hs.zero⟩, Or.inr ⟨_, _, newBlock_owner, iff_of_true hroom ?_⟩⟩
    intro a ha ht
    obtain ⟨q, -, hb⟩ := ht
    cases ha
    exact hb.2 rfl
  | bind p ipaddr port =>
    obtain ⟨r, hb, rfl⟩ := map_eq_ok.mp hr
    obtain ⟨hlive, -, ho, hs'⟩ := udpBind_owner hs hport hb
    refine ⟨hs', Or.inr ⟨p, _, ho, fun h a ha => ?_, fun h _ => h _ rfl⟩⟩
    rw [← Option.some.inj ha]
    exact h hlive
  | connect p ipaddr port =>
    obtain ⟨r, hc, rfl⟩ := map_eq_ok.mp hr
    obtain ⟨c, hp, -⟩ := bind_eq_ok.mp hc
    have h := deref_eq_ok hp
    by_cases hzero : c.portLocal = 0#16
    · obtain ⟨k, hk, ho, hs'⟩ := (udpConnect_owner hs h hzero ipaddr port).1 r hc
      refine ⟨hs', Or.inr ⟨p, _, ho, fun hg a ha => ?_, fun hg d j hd _ hj => ?_⟩⟩
      · rw [← Option.some.inj ha]
        exact hg c k h hzero hk
      · rw [← Option.some.inj (h.symm.trans hd), FirstFree.unique hj hk]
        exact hg _ rfl
    · rw [udpConnect, hp] at hc
      obtain ⟨_, hd, hc⟩ := bind_eq_ok.mp hc
      cases hd
      rw [if_neg hzero] at hc
      obtain ⟨ho, hs'⟩ := connectTo_owner hs h hzero hc
      refine ⟨hs', Or.inl ⟨ho, fun d j hd hzero' _ => absurd ?_ hzero⟩⟩
      rw [Option.some.inj (h.symm.trans hd)]
      exact hzero'
  | disconnect p =>
    obtain ⟨ho, hs'⟩ := udpDisconnect_owner hs hr
    exact ⟨hs', Or.inl ⟨ho, trivial⟩⟩
  | remove p =>
    cases p with
    | none =>
      cases hr
      exact ⟨hs, Or.inl ⟨rfl, trivial⟩⟩
    | some p =>
      obtain ⟨ho, hs'⟩ := udpRemove_owner hs hr
      refine ⟨hs', Or.inr ⟨p, none, ho, iff_of_true trivial fun a ha => ?_⟩⟩
      exact absurd ha (Option.some_ne_none a).symm

/-- Where there is no bind to be refused, every bind that is to be refused is. -/
theorem TakesNothing.refuses {op : PortOp} (hg : TakesNothing st op) : Refuses st op := by
  intro p ipaddr port he hlive ht
  rw [TakesNothing, he] at hg
  exact absurd ht (hg hlive)

/-- Where `malloc` has room to spare, nothing but the new block is cleared. -/
theorem TakesNothing.clearsOwn {op : PortOp} (hg : TakesNothing st op) : ClearsOwn st op := by
  intro spare he hr
  rw [TakesNothing, he] at hg
  rw [portStep, he, udpStep, udpNew, if_pos hg] at hr
  cases hr

end LinuxNet.Sip
