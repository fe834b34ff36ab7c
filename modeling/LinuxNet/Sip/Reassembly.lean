import LinuxNet.Sip.Checksum

/-!
# `sip_reassemble`

The reassembly queue of `sip_ip.c`, at the level of its pointers. The entries
(`struct sip_reass`) live in cells; `list` is the global `ip_reass_list`. A
cell that has been freed is gone, and following a pointer to it is a fault. The
fragments of an entry are the list of its buffers, in the order of `next`.

The source's arithmetic is kept where it is unusual: the offset and the length
of the incoming fragment are computed from the fields *as they stand on the
wire*, `-` binds tighter than `<<`, and the first copy of the header takes
`sizeof(IPHDR_LEN)` = 4 bytes.

`malloc` succeeds, and one call reads one time from the clock.
-/

namespace LinuxNet.Sip

/-! ## The queue -/

/-- `struct sip_reass`; `iphdr` is the 20-byte header copy. -/
structure SipReass where
  next : Option Nat
  skb : List Skbuff
  iphdr : Mem
  datagramLen : BitVec 16
  flags : BitVec 8
  timer : BitVec 8

/-- `ip_reass_list` and the cells it leads to. -/
structure ReassState where
  list : Option Nat
  cell : Nat → Option SipReass
  /-- The next address `malloc` returns. -/
  brk : Nat

/-- No entry has been made. -/
def ReassState.initial : ReassState := ⟨none, fun _ => none, 0⟩

namespace ReassState

/-- Write a cell. -/
def put (st : ReassState) (p : Nat) (e : SipReass) : ReassState :=
  { st with cell := fun q => if q = p then some e else st.cell q }

/-- The buffers in the entry at an address. -/
def held (st : ReassState) (p : Nat) : List Skbuff := ((st.cell p).map (·.skb)).getD []

/-- `IP_FREE_REASS`: the entry and its buffers are freed. -/
def free (st : ReassState) (p : Nat) : ReassState :=
  { st with cell := fun q => if q = p then none else st.cell q }

/-- Follow a pointer. -/
def deref (st : ReassState) : Option Nat → Except Fault SipReass
  | none => .error .nullDeref
  | some p =>
    match st.cell p with
    | some e => .ok e
    | none => .error .useAfterFree

/-- `p->next = next`. -/
def setNext (st : ReassState) (p : Option Nat) (next : Option Nat) : Except Fault ReassState :=
  match st.deref p, p with
  | .ok e, some q => .ok (st.put q { e with next := next })
  | .ok _, none => .error .nullDeref
  | .error f, _ => .error f

end ReassState

/-! ## The search loop -/

/-- `IPREASS_TIMEOUT`. -/
def ipreassTimeout : Nat := 3

/-- `time(NULL) - ipr->timer > IPREASS_TIMEOUT`. -/
def expired (now : Nat) (e : SipReass) : Bool := decide (now > e.timer.toNat + ipreassTimeout)

/-- The three comparisons of the key. -/
def sameKey (e : SipReass) (skb : Skbuff) : Bool :=
  ipDaddr e.iphdr 0 == ipDaddr skb.mem skb.nh && ipSaddr e.iphdr 0 == ipSaddr skb.mem skb.nh &&
    e.iphdr.u16 4 == skb.mem.u16 (skb.nh + 4)

/-- How the search goes on after one turn of the loop. -/
inductive Searched where
  /-- The loop is left: `ipr_prev`, and the entry if there is one. -/
  | stop (prev : Option Nat) (found : Option Nat)
  /-- The loop goes on with new values of `ipr_prev` and `ipr`. -/
  | next (prev ipr : Option Nat)

/-- One turn of the search loop. -/
def searchTurn (now : Nat) (skb : Skbuff) (st : ReassState) (prev ipr : Option Nat) :
    Except Fault (ReassState × Searched) :=
  match ipr with
  | none => .ok (st, .stop prev none)
  | some p => do
    let e ← st.deref (some p)
    if expired now e = true then
      match prev with
      | none =>
        let st ← st.setNext st.list e.next
        let e' ← st.deref e.next
        let st := st.free p
        let st ← st.setNext (some p) none
        return (st, .next (some p) e'.next)
      | some q =>
        let st ← st.setNext (some q) e.next
        let st := st.free p
        let e' ← st.deref (some q)
        return (st, .next (some q) e'.next)
    else if sameKey e skb = true then return (st, .stop prev (some p))
    -- neither branch moves ipr: the next turn is this turn again
    else throw .diverges

/-- The loop; every turn that goes on has freed a cell, so `fuel` above their
number is never used up. -/
def searchLoop (now : Nat) (skb : Skbuff) :
    Nat → ReassState → Option Nat → Option Nat → Except Fault (ReassState × Option Nat × Option Nat)
  | 0, _, _, _ => .error .diverges
  | fuel + 1, st, prev, ipr =>
    match searchTurn now skb st prev ipr with
    | .error f => .error f
    | .ok (st, .stop prev found) => .ok (st, prev, found)
    | .ok (st, .next prev ipr) => searchLoop now skb fuel st prev ipr

/-! ## Insertion -/

/-- `(fraghdr->frag_off & 0x1FFF) << 3`, in 16 bits. -/
def rawOffset (skb : Skbuff) : BitVec 16 := (skb.mem.u16 (skb.nh + 6) &&& 0x1FFF#16) <<< 3

/-- `fraghdr->tot_len - fraghdr->ihl << 2`, in 16 bits. -/
def rawLen (skb : Skbuff) : BitVec 16 :=
  (skb.mem.u16 (skb.nh + 2) - BitVec.ofNat 16 (ipIhl skb.mem skb.nh)) <<< 2

/-- `FRAG_OFFSET`. -/
def fragOffset (skb : Skbuff) : Int :=
  (ntohs (skb.mem.u16 (skb.nh + 6) &&& 0x1FFF#16)).toNat * 8

/-- Where the payload of a fragment belongs; the field counts in units of eight bytes. -/
def fragStart (skb : Skbuff) : Nat := (ipFragOff skb.mem skb.nh &&& 0x1FFF#16).toNat * 8

/-- `FRAG_LENGTH`. -/
def fragLength (skb : Skbuff) : Int := ipTotLen skb.mem skb.nh - iphdrLen

/-- `skb->nh.iph->tot_len = htons(modify)`. -/
def setTotLen (skb : Skbuff) (modify : Int) : Skbuff :=
  let w := htons (BitVec.ofInt 16 modify)
  { skb with mem := skb.mem.write (skb.nh + 2) [byteOf 0 w, byteOf 1 w] }

/-- The insertion loop. `prev` are the buffers passed, last first; `skb` is the
new buffer, and `head` says that it was put in front on the first turn. A
second insertion would link it between two others, and the ones passed would
no longer be reached from the front. -/
def insertLoop (offset len : Int) :
    List Skbuff → List Skbuff → Skbuff → Bool → List Skbuff × Skbuff
  | prev, [], skb, head => (if head then skb :: prev.reverse else prev.reverse, skb)
  | [], cur :: next, skb, _ =>
    if offset < fragOffset cur then
      let modify := fragOffset cur - offset + iphdrLen
      let modify := if offset = 0 then modify - iphdrLen else modify
      let skb := if offset + len + iphdrLen > fragOffset cur then setTotLen skb modify else skb
      insertLoop offset len [cur] next skb true
    else insertLoop offset len [cur] next skb false
  | p :: ps, cur :: next, skb, head =>
    if offset < fragOffset cur ∧ offset > fragOffset p then
      let skb :=
        if offset + len > fragOffset cur then
          setTotLen skb (fragOffset cur - offset + iphdrLen)
        else skb
      let p :=
        if fragOffset p + fragLength p > fragOffset cur then
          setTotLen p (fragOffset p - offset + iphdrLen)
        else p
      (if head then skb :: cur :: next else (p :: ps).reverse ++ skb :: cur :: next, skb)
    else insertLoop offset len (cur :: p :: ps) next skb head

/-- The accounting loop: `tot_len` as it stands, less the header, in 32 bits. -/
def reassLength (skbs : List Skbuff) : BitVec 32 :=
  skbs.foldl (fun l skb => l + ((skb.mem.u16 (skb.nh + 2)).setWidth 32 - 20#32)) 0#32 + 20#32

/-! ## Completion -/

/-- The header of the result: the header copy with `tot_len` set, and `check`
and `frag_off` cleared. -/
def wholeHeader (iphdr : Mem) (datagramLen : BitVec 16) : Mem :=
  ((iphdr.write 2 [byteOf 0 (htons datagramLen), byteOf 1 (htons datagramLen)]).write 6
    [0#8, 0#8]).write 10 [0#8, 0#8]

/-- The code behind `if(length == ipr->datagram_len)`. The copy loop never
moves on, so it is only left if there is nothing to copy. -/
def complete (st : ReassState) (prev : Option Nat) (p : Nat) (e : SipReass) :
    Except Fault (ReassState × Skbuff) :=
  let datagramLen := e.datagramLen + 20#16
  let new := skbAlloc (datagramLen.toNat + ethHlen)
  match e.skb with
  | _ :: _ => .error .diverges
  | [] => do
    let st ← (st.put p { e with datagramLen := datagramLen }).setNext prev e.next
    let st := st.free p
    let hdr := wholeHeader e.iphdr datagramLen
    -- the checksum runs over tot_len as it stands on the wire
    let count := (htons datagramLen).toNat
    if new.size < ethHlen + count then throw .outOfBounds
    let mem := new.mem.write ethHlen ((List.range iphdrLen).map hdr)
    let check := (sipChksum mem ethHlen count).val
    return (st, { new with
      mem := mem.write (ethHlen + 10) [byteOf 0 check, byteOf 1 check]
      phy := 0, nh := ethHlen, tail := ethHlen + iphdrLen
      len := 0#32 - BitVec.ofNat 32 (ethHlen + iphdrLen) })

/-! ## The function -/

/-- The entry of a fragment that has found none: zeroed, in front of the list,
with four bytes of the header. -/
def newEntry (st : ReassState) (skb : Skbuff) : SipReass where
  next := st.list
  skb := []
  iphdr o := if o < 4 then skb.mem (skb.nh + o) else 0#8
  datagramLen := 0#16
  flags := 0#8
  timer := 0#8

/-- The header copy after a fragment has found its entry. -/
def updateHeader (e : SipReass) (skb : Skbuff) : SipReass :=
  if skb.mem.u16 (skb.nh + 6) &&& 0x1FFF#16 = 0#16 ∧ e.iphdr.u16 6 &&& 0x1FFF#16 ≠ 0#16 then
    { e with iphdr := fun o => skb.mem (skb.nh + o) }
  else e

/-- `(fraghdr->frag_off & htons(0x2000)) == 0`: no more fragments. -/
def lastFragment (skb : Skbuff) : Bool := skb.mem.u16 (skb.nh + 6) &&& htons 0x2000#16 == 0#16

/-- The last fragment sets the flag and the length of the datagram. -/
def markLast (e : SipReass) (skb : Skbuff) : SipReass :=
  if lastFragment skb = true then
    { e with flags := e.flags ||| 1#8, datagramLen := rawOffset skb + rawLen skb }
  else e

/-- From the entry on: mark, insert, account, complete. -/
def reassembleAt (st : ReassState) (prev : Option Nat) (p : Nat) (e : SipReass) (skb : Skbuff) :
    Except Fault (ReassState × Option Skbuff) := do
  let e := markLast e skb
  let (skbs, skb) := insertLoop (rawOffset skb).toNat (rawLen skb).toNat [] e.skb skb false
  let e := { e with skb := skbs }
  let st := st.put p e
  if reassLength skbs = e.datagramLen.setWidth 32 then
    let (st, whole) ← complete st prev p e
    return (st, some whole)
  else return (st, some skb)

/-- `sip_reassemble`. -/
def sipReassemble (now : Nat) (st : ReassState) (skb : Skbuff) :
    Except Fault (ReassState × Option Skbuff) := do
  let (st, prev, found) ← searchLoop now skb (st.brk + 1) st st.list st.list
  match found with
  | none =>
    let e := newEntry st skb
    let p := st.brk
    reassembleAt { st with list := some p, brk := p + 1 } none p e skb
  | some p =>
    let e ← st.deref (some p)
    reassembleAt st prev p (updateHeader e skb) skb

/-- The test of `ip_input` that sends a packet to `sip_reassemble`. -/
def isFragment (skb : Skbuff) : Bool := ipFragOff skb.mem skb.nh &&& 0x3FFF#16 != 0#16

/-- The branch of `ip_input` around `sip_reassemble`. -/
def ipDefrag (now : Nat) (st : ReassState) (skb : Skbuff) :
    Except Fault (ReassState × Option Skbuff) :=
  if isFragment skb = true then sipReassemble now st skb else .ok (st, some skb)

/-! ## What the search comes to -/

/-- The search only ever looks at the first entry: an expired one is freed and
then read, and one that does not match is looked at again. -/
theorem searchLoop_list (now : Nat) (skb : Skbuff) (st : ReassState) (fuel : Nat) :
    searchLoop now skb (fuel + 1) st st.list st.list =
      match st.list with
      | none => .ok (st, none, none)
      | some p =>
        match st.cell p with
        | none => .error .useAfterFree
        | some e =>
          if expired now e = true then .error .useAfterFree
          else if sameKey e skb = true then .ok (st, some p, some p)
          else .error .diverges := by
  rw [searchLoop]
  unfold searchTurn
  cases hl : st.list with
  | none => rfl
  | some p =>
    dsimp only
    cases hc : st.cell p with
    | none =>
      have hd : st.deref (some p) = .error .useAfterFree := by rw [ReassState.deref, hc]
      rw [hd]
      rfl
    | some e =>
      have hd : st.deref (some p) = .ok e := by rw [ReassState.deref, hc]
      have hs : st.setNext (some p) e.next = .ok (st.put p e) := by
        unfold ReassState.setNext
        rw [hd]
      -- after the free the loop reads `next` of the block it freed
      have hf : ((st.put p e).free p).deref (some p) = .error .useAfterFree := by
        simp [ReassState.deref, ReassState.free]
      simp only [hd, hs, bind, Except.bind, hf]
      by_cases hx : expired now e = true
      · rw [if_pos hx, if_pos hx]
      · rw [if_neg hx, if_neg hx]
        by_cases hk : sameKey e skb = true
        · rw [if_pos hk, if_pos hk]
          rfl
        · rw [if_neg hk, if_neg hk]
          rfl

/-- With a clock that runs in seconds since 1970, every entry has expired: its
time stamp has eight bits and is never set. -/
theorem expired_of_now {now : Nat} (h : 258 < now) (e : SipReass) : expired now e = true := by
  have := e.timer.isLt
  unfold expired ipreassTimeout
  exact decide_eq_true (by omega)

/-- The length `sip_reassemble` computes for the datagram of a last fragment is
that of a bare header. -/
def BareHeader (skb : Skbuff) : Prop :=
  lastFragment skb = true ∧ rawOffset skb + rawLen skb = 20#16

instance (skb : Skbuff) : Decidable (BareHeader skb) := by
  unfold BareHeader; infer_instance

/-- On an empty list the fragment gets an entry, is not put into it, and comes
back — unless the length computed for the datagram is that of a bare header. -/
theorem sipReassemble_empty (now : Nat) {st : ReassState} (hl : st.list = none) (skb : Skbuff) :
    ∃ st', (∀ q, (st'.held q).length ≤ (st.held q).length) ∧ sipReassemble now st skb =
      if BareHeader skb then .error .nullDeref else .ok (st', some skb) := by
  have hnil : (markLast (newEntry st skb) skb).skb = [] := by
    unfold markLast
    split <;> rfl
  have hins : insertLoop (rawOffset skb).toNat (rawLen skb).toNat []
      (markLast (newEntry st skb) skb).skb skb false = ([], skb) := by
    rw [hnil]
    rfl
  have hlen : (markLast (newEntry st skb) skb).datagramLen =
      if lastFragment skb = true then rawOffset skb + rawLen skb else 0#16 := by
    unfold markLast
    split <;> rfl
  -- an empty list adds up to a header, so only a last fragment of that length completes it
  have hbare : reassLength [] = (markLast (newEntry st skb) skb).datagramLen.setWidth 32 ↔
      BareHeader skb := by
    rw [hlen, BareHeader]
    by_cases hlast : lastFragment skb = true
    · rw [if_pos hlast, and_iff_right hlast, ← BitVec.toNat_inj, ← BitVec.toNat_inj,
        BitVec.toNat_setWidth, Nat.mod_eq_of_lt (by omega)]
      exact eq_comm
    · rw [if_neg hlast]
      exact iff_of_false (by decide) fun h => hlast h.1
  rw [sipReassemble, searchLoop_list, hl]
  simp only [bind, Except.bind, reassembleAt, hins, hbare]
  split
  next => exact ⟨st, fun _ => Nat.le_refl _, rfl⟩
  next =>
    refine ⟨_, fun q => ?_, rfl⟩
    -- the new entry holds no fragment yet
    by_cases hq : q = st.brk
    · subst hq
      simp [ReassState.held, ReassState.put]
    · simp [ReassState.held, ReassState.put, hq]

/-- A fragment on which `sip_reassemble` goes wrong at once: there is an entry, or
the computed length is that of a bare header. -/
def Stuck (st : ReassState) (skb : Skbuff) : Prop :=
  isFragment skb = true ∧ (st.list ≠ none ∨ BareHeader skb)

/-- The clock being past its first minutes, `ip_input` gets no further with a
fragment that is stuck. -/
theorem ipDefrag_stuck {now : Nat} (hnow : 258 < now) {st : ReassState} {skb : Skbuff}
    (h : Stuck st skb) : ∃ f, ipDefrag now st skb = .error f := by
  rw [ipDefrag, if_pos h.1]
  cases hl : st.list with
  | none =>
    obtain ⟨st', -, hr⟩ := sipReassemble_empty now hl skb
    rw [if_pos (h.2.resolve_left fun hne => hne hl)] at hr
    exact ⟨_, hr⟩
  | some p =>
    rw [sipReassemble, searchLoop_list, hl]
    dsimp only
    cases st.cell p with
    | none => exact ⟨_, rfl⟩
    | some e =>
      dsimp only
      rw [if_pos (expired_of_now hnow e)]
      exact ⟨_, rfl⟩

/-- Every other packet comes back as it went in, and no entry has got it. -/
theorem ipDefrag_free (now : Nat) {st : ReassState} {skb : Skbuff} (h : ¬ Stuck st skb) :
    ∃ st', (∀ q, (st'.held q).length ≤ (st.held q).length) ∧
      ipDefrag now st skb = .ok (st', some skb) := by
  unfold ipDefrag
  split
  next hf =>
    have hno : ¬ (st.list ≠ none ∨ BareHeader skb) := fun hs => h ⟨hf, hs⟩
    rw [not_or, ne_eq, Decidable.not_not] at hno
    obtain ⟨st', hheld, hr⟩ := sipReassemble_empty now hno.1 skb
    rw [if_neg hno.2] at hr
    exact ⟨st', hheld, hr⟩
  next => exact ⟨st, fun _ => Nat.le_refl _, rfl⟩

end LinuxNet.Sip
