import LinuxNet.Sip.Udp

/-!
# The hash table of UDP control blocks

`TableOk` is what every state should be like: the buckets are finite lists, and
a block with a local port is in the bucket of the port, once, and in no other,
so that an arriving datagram finds it. The other thing to hold is that
`udp_pcbs` is never indexed outside.

`Good` is the invariant that carries both: it names the bucket lists and says
that they hold exactly the blocks with a port. Each operation keeps it in the
cases the code is written for. The others are binding a block to a port that
is not below the size of the table, or to a port of another bucket than the one
it is in, connecting it after that, and clearing a new block that `malloc` has
made no larger than it was asked to: `udpTable_iff` says that a run is
free of them exactly if it keeps the table in order.
-/

namespace LinuxNet.Sip

/-! ## What is to hold -/

/-- The bucket of a block with a local port. -/
def InBucket (c : UdpPcb) (b : Nat) : Prop :=
  c.portLocal ≠ 0#16 ∧ c.portLocal.toNat % udpHtableSize = b

/-- The table is in order. -/
structure TableOk (st : UdpState) : Prop where
  lists : ∀ b < udpHtableSize, ∃ l, Linked st.link (st.table b) l
  once : ∀ p c, st.pcb p = some c → c.portLocal ≠ 0#16 → ∀ b < udpHtableSize,
    ∀ l, Linked st.link (st.table b) l →
      l.count p = if c.portLocal.toNat % udpHtableSize = b then 1 else 0
  found : ∀ p c, st.pcb p = some c → c.portLocal ≠ 0#16 →
    (∀ q d, st.pcb q = some d → d.portLocal = c.portLocal → q = p) →
      st.udpLookup c.portLocal = .ok (some p)

/-- A run of operations on the empty table never indexes `udp_pcbs` outside, never writes behind
a new block, and keeps the table in order. -/
def KeepsTable (ops : List UdpOp) : Prop :=
  Along udpStep (fun st op => udpStep st op ≠ .error .outOfBounds) .initial ops ∧
    Always udpStep TableOk .initial ops

/-! ## When it holds -/

/-- No block has this local port. -/
def PortFree (st : UdpState) (k : Nat) : Prop :=
  ∀ p c, st.pcb p = some c → c.portLocal.toNat ≠ k

/-- `found_a_port` comes to a free port before it comes to the size of the table. -/
def AutoFits (st : UdpState) : Prop :=
  ∃ k, st.index.toNat < k ∧ k < udpHtableSize ∧ PortFree st k

/-- The operations that keep the table in order. -/
def Fits (st : UdpState) : UdpOp → Prop
  | .bind p _ port => ∀ c, st.pcb p = some c →
    if port = 0#16 then c.portLocal = 0#16 ∧ AutoFits st
    else if c.portLocal = 0#16 then port.toNat < udpHtableSize
    else c.portLocal.toNat % udpHtableSize = port.toNat % udpHtableSize
  | .connect p _ _ => ∀ c, st.pcb p = some c →
    if c.portLocal = 0#16 then AutoFits st else c.portLocal.toNat < udpHtableSize
  | .new spare => sizeofUdpPcb ≤ sizeofUdpPcbPointer + spare
  | .disconnect _ | .remove _ => True

/-! ## The invariant -/

/-- The bucket lists `L` hold exactly the blocks with a port; cells beyond `brk` are
unused, and the counter has not come to the size of the table. -/
structure Good (st : UdpState) (L : Nat → List Nat) : Prop where
  linked : ∀ b < udpHtableSize, Linked st.link (st.table b) (L b)
  mem : ∀ b < udpHtableSize, ∀ p, p ∈ L b ↔ ∃ c, st.pcb p = some c ∧ InBucket c b
  fresh : ∀ p, st.brk ≤ p → st.pcb p = none
  index : st.index.toNat < udpHtableSize

theorem initial_good : Good .initial fun _ => [] where
  linked _ _ := rfl
  mem _ _ _ := iff_of_false nofun fun ⟨_, h, _⟩ => nomatch h
  fresh _ _ := rfl
  index := by decide

namespace UdpState

variable {st : UdpState} {p : Nat} {c : UdpPcb}

theorem link_eq (h : st.pcb p = some c) : st.link p = some c.next := by
  rw [link, h]
  rfl

/-- The state in which a block has been written. -/
def write (st : UdpState) (p : Nat) (c : UdpPcb) : UdpState :=
  { st with pcb := Function.update st.pcb p (some c) }

theorem modify_eq (h : st.pcb p = some c) (f : UdpPcb → UdpPcb) :
    st.modify p f = .ok (st.write p (f c)) := by
  rw [modify, h]
  rfl

theorem modify_dead (h : st.pcb p = none) (f : UdpPcb → UdpPcb) :
    st.modify p f = .error .useAfterFree := by
  rw [modify, h]

theorem deref_eq (h : st.pcb p = some c) : st.deref (some p) = .ok c := by
  rw [deref, h]

theorem deref_dead (h : st.pcb p = none) : st.deref (some p) = .error .useAfterFree := by
  rw [deref, h]

theorem bucket_eq {b : Nat} (h : b < udpHtableSize) (st : UdpState) :
    st.bucket b = .ok (st.table b) := if_pos h

theorem bucket_oob {b : Nat} (h : ¬ b < udpHtableSize) (st : UdpState) :
    st.bucket b = .error .outOfBounds := if_neg h

/-- The state in which a block has been written and put in front of a bucket. -/
def pushed (st : UdpState) (p : Nat) (c : UdpPcb) (port : Nat) : UdpState :=
  { st with
    pcb := Function.update st.pcb p (some { c with next := st.table port })
    table := Function.update st.table port (some p) }

theorem pushFront_eq (h : st.pcb p = some c) {port : Nat} (hport : port < udpHtableSize) :
    st.pushFront p port = .ok (st.pushed p c port) := by
  simp only [pushFront, bucket_eq hport, bind, Except.bind, modify_eq h, setBucket, if_pos hport]
  rfl

theorem pushFront_oob {port : Nat} (hport : ¬ port < udpHtableSize) :
    st.pushFront p port = .error .outOfBounds := by
  simp only [pushFront, bucket_oob hport, bind, Except.bind]

@[simp] theorem pcb_write_self (st : UdpState) (p : Nat) (c : UdpPcb) :
    (st.write p c).pcb p = some c := Function.update_self ..

theorem pcb_write_ne {q : Nat} (h : q ≠ p) (st : UdpState) (c : UdpPcb) :
    (st.write p c).pcb q = st.pcb q := Function.update_of_ne h ..

@[simp] theorem write_pushed (st : UdpState) (p : Nat) (c d : UdpPcb) (port : Nat) :
    (st.write p c).pushed p d port = st.pushed p d port := by
  simp [write, pushed]

@[simp] theorem pcb_pushed_self (st : UdpState) (p : Nat) (c : UdpPcb) (port : Nat) :
    (st.pushed p c port).pcb p = some { c with next := st.table port } := Function.update_self ..

theorem pcb_pushed_ne {q : Nat} (h : q ≠ p) (st : UdpState) (c : UdpPcb) (port : Nat) :
    (st.pushed p c port).pcb q = st.pcb q := Function.update_of_ne h ..

@[simp] theorem table_pushed_self (st : UdpState) (p : Nat) (c : UdpPcb) (port : Nat) :
    (st.pushed p c port).table port = some p := Function.update_self ..

theorem table_pushed_ne {b port : Nat} (h : b ≠ port) (st : UdpState) (p : Nat) (c : UdpPcb) :
    (st.pushed p c port).table b = st.table b := Function.update_of_ne h ..

theorem link_pushed_ne {q : Nat} (h : q ≠ p) (st : UdpState) (c : UdpPcb) (port : Nat) :
    (st.pushed p c port).link q = st.link q := by
  rw [link, link, pcb_pushed_ne h]

theorem pcb_free_self (st : UdpState) (p : Nat) : (st.free p).pcb p = none :=
  Function.update_self ..

theorem pcb_free_ne {q : Nat} (h : q ≠ p) (st : UdpState) : (st.free p).pcb q = st.pcb q :=
  Function.update_of_ne h ..

theorem link_free_ne {q : Nat} (h : q ≠ p) (st : UdpState) : (st.free p).link q = st.link q := by
  rw [link, link, pcb_free_ne h]

/-- Writing a block without its `next` pointer keeps all pointers. -/
theorem link_write (h : st.pcb p = some c) {d : UdpPcb} (hnext : d.next = c.next) :
    (st.write p d).link = st.link := by
  funext q
  by_cases hq : q = p
  · subst hq
    rw [link_eq h, link_eq (pcb_write_self st q d), hnext]
  · unfold link
    rw [pcb_write_ne hq]

end UdpState

namespace Good

open UdpState

variable {st : UdpState} {L : Nat → List Nat} {p b : Nat} {c : UdpPcb}

theorem live (hg : Good st L) (hb : b < udpHtableSize) (h : p ∈ L b) :
    ∃ c, st.pcb p = some c ∧ InBucket c b := (hg.mem b hb p).mp h

theorem lt_brk (hg : Good st L) (h : st.pcb p = some c) : p < st.brk := by
  by_contra hlt
  rw [hg.fresh p (Nat.le_of_not_lt hlt)] at h
  exact nomatch h

/-- The fuel is enough for every bucket. -/
theorem length_lt (hg : Good st L) (hb : b < udpHtableSize) : (L b).length < st.fuel :=
  Nat.lt_succ_of_le ((hg.linked b hb).length_le fun _ hp => by
    obtain ⟨c, hc, _⟩ := hg.live hb hp
    exact hg.lt_brk hc)

theorem cells (hg : Good st L) (hb : b < udpHtableSize) :
    cellsFrom st.link st.fuel (st.table b) = .ok (L b) :=
  (hg.linked b hb).cellsFrom_eq (hg.length_lt hb)

theorem scan_eq (hg : Good st L) (hb : b < udpHtableSize) (port : BitVec 16) :
    st.scan port (st.table b) = .ok ((L b).find? (st.hasPort port)) :=
  (hg.linked b hb).chase_eq (hg.length_lt hb)

/-- A block with a port is in the list of its bucket, and nowhere else. -/
theorem mem_iff (hg : Good st L) (h : st.pcb p = some c) (hb : b < udpHtableSize) :
    p ∈ L b ↔ InBucket c b := by
  rw [hg.mem b hb p]
  constructor
  · intro h
    obtain ⟨d, hd, hin⟩ := h
    rw [h, Option.some.injEq] at hd
    exact hd ▸ hin
  · exact fun hin => ⟨c, h, hin⟩

/-- **The invariant is enough.** -/
theorem tableOk (hg : Good st L) : TableOk st where
  lists b hb := ⟨L b, hg.linked b hb⟩
  once p c h hport b hb l hl := by
    have hin : p ∈ L b ↔ c.portLocal.toNat % udpHtableSize = b :=
      (hg.mem_iff h hb).trans (and_iff_right hport)
    rw [hl.unique (hg.linked b hb)]
    by_cases hm : p ∈ L b
    · rw [if_pos (hin.mp hm), List.count_eq_one_of_mem (hg.linked b hb).nodup hm]
    · rw [if_neg (mt hin.mpr hm), List.count_eq_zero_of_not_mem hm]
  found p c h hport huniq := by
    have hb : c.portLocal.toNat % udpHtableSize < udpHtableSize := Nat.mod_lt _ (by decide)
    have hmem : p ∈ L (c.portLocal.toNat % udpHtableSize) := (hg.mem_iff h hb).mpr ⟨hport, rfl⟩
    have hhas : st.hasPort c.portLocal p = true := by simp [hasPort, h]
    unfold udpLookup
    simp only [bucket_eq hb, bind, Except.bind, hg.scan_eq hb]
    -- the block itself has the port, so the scan ends at some block
    cases hf : (L (c.portLocal.toNat % udpHtableSize)).find? (st.hasPort c.portLocal) with
    | none => exact absurd hhas (List.find?_eq_none.mp hf p hmem)
    | some q =>
      obtain ⟨d, hd, _⟩ := hg.live hb (List.mem_of_find?_eq_some hf)
      have hq := List.find?_some hf
      rw [hasPort, hd] at hq
      rw [huniq q d hd (by simpa using hq)]

/-- Writing a block without its pointer and its bucket keeps the invariant. -/
theorem write (hg : Good st L) (h : st.pcb p = some c) {d : UdpPcb} (hnext : d.next = c.next)
    (hbucket : ∀ b < udpHtableSize, InBucket d b ↔ InBucket c b) : Good (st.write p d) L where
  linked b hb := by
    rw [link_write h hnext]
    exact hg.linked b hb
  mem b hb q := by
    by_cases hq : q = p
    · subst hq
      rw [hg.mem_iff h hb, pcb_write_self, ← hbucket b hb]
      simp
    · rw [hg.mem b hb q, pcb_write_ne hq]
  fresh q hq := by
    have hne : q ≠ p := Nat.ne_of_gt (Nat.lt_of_lt_of_le (hg.lt_brk h) hq)
    rw [pcb_write_ne hne]
    exact hg.fresh q hq
  index := hg.index

/-- Putting a block without a port into the bucket of its new one. -/
theorem push (hg : Good st L) (h : st.pcb p = some c) (hunbound : c.portLocal = 0#16)
    {d : UdpPcb} (hport : d.portLocal ≠ 0#16) (hlt : d.portLocal.toNat < udpHtableSize) :
    Good (st.pushed p d d.portLocal.toNat)
      (Function.update L d.portLocal.toNat (p :: L d.portLocal.toNat)) := by
  have hnot : ∀ b < udpHtableSize, p ∉ L b := fun b hb hm =>
    ((hg.mem_iff h hb).mp hm).1 hunbound
  have hne : ∀ {b}, b < udpHtableSize → ∀ q ∈ L b, q ≠ p := fun hb q hq he =>
    hnot _ hb (he ▸ hq)
  have hold : ∀ b < udpHtableSize,
      Linked (st.pushed p d d.portLocal.toNat).link (st.table b) (L b) :=
    fun b hb => (hg.linked b hb).congr fun q hq => link_pushed_ne (hne hb q hq) ..
  refine ⟨fun b hb => ?_, fun b hb q => ?_, fun q hq => ?_, hg.index⟩
  · by_cases hbp : b = d.portLocal.toNat
    · subst hbp
      rw [Function.update_self, table_pushed_self]
      exact .cons (link_eq (pcb_pushed_self ..)) (hold _ hb)
    · rw [Function.update_of_ne hbp, table_pushed_ne hbp]
      exact hold b hb
  · have hin :
        InBucket { d with next := st.table d.portLocal.toNat } b ↔ d.portLocal.toNat = b := by
      unfold InBucket
      rw [Nat.mod_eq_of_lt hlt]
      exact and_iff_right hport
    by_cases hq : q = p
    · subst hq
      simp only [pcb_pushed_self, Option.some.injEq, exists_eq_left', hin]
      by_cases hbp : b = d.portLocal.toNat
      · subst hbp
        rw [Function.update_self]
        exact iff_of_true (List.mem_cons_self ..) rfl
      · rw [Function.update_of_ne hbp]
        exact iff_of_false (hnot b hb) fun he => hbp he.symm
    · rw [pcb_pushed_ne hq, ← hg.mem b hb q]
      by_cases hbp : b = d.portLocal.toNat
      · subst hbp
        rw [Function.update_self, List.mem_cons, or_iff_right hq]
      · rw [Function.update_of_ne hbp]
  · rw [pcb_pushed_ne (Nat.ne_of_gt (Nat.lt_of_lt_of_le (hg.lt_brk h) hq))]
    exact hg.fresh q hq

/-- A new block. -/
theorem new (hg : Good st L) : Good st.newBlock L := by
  have hold : ∀ q, q ≠ st.brk → st.newBlock.pcb q = st.pcb q := fun q hq =>
    Function.update_of_ne hq ..
  have hself : st.newBlock.pcb st.brk = some ⟨0#32, 0#32, 255#8, none, 0#8, 0#16, 0#16, none⟩ :=
    Function.update_self ..
  have hnot : ∀ b < udpHtableSize, st.brk ∉ L b := fun b hb hm => by
    obtain ⟨c, hc, _⟩ := hg.live hb hm
    exact absurd (hg.lt_brk hc) (Nat.lt_irrefl _)
  refine ⟨fun b hb => (hg.linked b hb).congr fun q hq => ?_, fun b hb q => ?_, fun q hq => ?_,
    hg.index⟩
  · rw [link, link, hold q fun he => hnot b hb (he ▸ hq)]
  -- a new block has port 0 and belongs to no bucket
  · by_cases hq : q = st.brk
    · subst hq
      rw [hself]
      refine iff_of_false (hnot b hb) ?_
      intro h
      obtain ⟨c, hc, hin⟩ := h
      exact hin.1 (by rw [← Option.some.inj hc])
    · rw [hold q hq]
      exact hg.mem b hb q
  · rw [hold q (Nat.ne_of_gt hq)]
    exact hg.fresh q (Nat.le_of_succ_le hq)

/-- Only the local ports decide which blocks belong to a bucket. -/
theorem inBucket_congr {st' : UdpState} {q : Nat}
    (h : (st'.pcb q).map (·.portLocal) = (st.pcb q).map (·.portLocal)) (b : Nat) :
    (∃ c, st'.pcb q = some c ∧ InBucket c b) ↔ ∃ c, st.pcb q = some c ∧ InBucket c b := by
  unfold InBucket
  cases h1 : st.pcb q <;> cases h2 : st'.pcb q <;> simp_all

/-- A block that is gone, and taken out of the list of its bucket. -/
theorem removed (hg : Good st L) (l' : List Nat) (h : st.pcb p = some c)
    (hb : c.portLocal.toNat % udpHtableSize = b) {st' : UdpState}
    (hbrk : st'.brk = st.brk) (hindex : st'.index = st.index) (hgone : st'.pcb p = none)
    (hports : ∀ q, q ≠ p → (st'.pcb q).map (·.portLocal) = (st.pcb q).map (·.portLocal))
    (hlinked : Linked st'.link (st'.table b) l') (hmem : ∀ q, q ∈ l' ↔ q ≠ p ∧ q ∈ L b)
    (htable : ∀ k, k ≠ b → st'.table k = st.table k)
    (hlink : ∀ q, q ≠ p → q ∉ L b → st'.link q = st.link q) :
    Good st' (Function.update L b l') := by
  have hlt : b < udpHtableSize := hb ▸ Nat.mod_lt _ (by decide)
  -- a block is in the list of one bucket only
  have hone : ∀ k < udpHtableSize, k ≠ b → ∀ q ∈ L k, q ∉ L b := fun k hk hne q hq hq' => by
    obtain ⟨d, hd, hin⟩ := hg.live hk hq
    exact hne (hin.2.symm.trans ((hg.mem_iff hd hlt).mp hq').2)
  have hnot : ∀ k < udpHtableSize, k ≠ b → p ∉ L k := fun k hk hne hm =>
    hne (((hg.mem_iff h hk).mp hm).2.symm.trans hb)
  refine ⟨fun k hk => ?_, fun k hk q => ?_, fun q hq => ?_, hindex ▸ hg.index⟩
  · by_cases hkb : k = b
    · subst hkb
      rw [Function.update_self]
      exact hlinked
    · rw [Function.update_of_ne hkb, htable k hkb]
      exact (hg.linked k hk).congr fun q hq =>
        hlink q (fun he => hnot k hk hkb (he ▸ hq)) (hone k hk hkb q hq)
  · by_cases hq : q = p
    · subst hq
      rw [hgone]
      refine iff_of_false (fun hm => ?_) nofun
      by_cases hkb : k = b
      · subst hkb
        rw [Function.update_self] at hm
        exact ((hmem q).mp hm).1 rfl
      · rw [Function.update_of_ne hkb] at hm
        exact hnot k hk hkb hm
    · rw [inBucket_congr (hports q hq) k, ← hg.mem k hk q]
      by_cases hkb : k = b
      · subst hkb
        rw [Function.update_self, hmem q, and_iff_right hq]
      · rw [Function.update_of_ne hkb]
  · have hqp : q ≠ p := Nat.ne_of_gt (Nat.lt_of_lt_of_le (hg.lt_brk h) (hbrk ▸ hq))
    have := hports q hqp
    rw [hg.fresh q (hbrk ▸ hq)] at this
    simpa using this

/-! ## What breaks the table -/

/-- A pushed block is still reached wherever it was reached before. -/
theorem reaches_pushed (hg : Good st L) (hb : b < udpHtableSize) (hmem : p ∈ L b) {d : UdpPcb}
    {port : Nat} {l : List Nat} (hl : Linked (st.pushed p d port).link (st.table b) l) : p ∈ l := by
  obtain ⟨pre, post, hsplit⟩ := List.append_of_mem hmem
  have hlinked := hsplit ▸ hg.linked b hb
  have hpre : ∀ q ∈ pre, q ≠ p := fun q hq he =>
    List.disjoint_of_nodup_append hlinked.nodup (he ▸ hq) (List.mem_cons_self ..)
  obtain ⟨post', rfl⟩ := hlinked.reaches (fun q hq => link_pushed_ne (hpre q hq) ..) hl
  exact List.mem_append_right _ (List.mem_cons_self ..)

/-- A block that has a port and is put into a bucket is then in two lists, or its list
has no end. -/
theorem push_bound (hg : Good st L) (h : st.pcb p = some c) (hbound : c.portLocal ≠ 0#16)
    {d : UdpPcb} (hport : d.portLocal ≠ 0#16) (hlt : d.portLocal.toNat < udpHtableSize) :
    ¬ TableOk (st.pushed p d d.portLocal.toNat) := by
  intro hok
  have hold : c.portLocal.toNat % udpHtableSize < udpHtableSize := Nat.mod_lt _ (by decide)
  have hmem : p ∈ L (c.portLocal.toNat % udpHtableSize) := (hg.mem_iff h hold).mpr ⟨hbound, rfl⟩
  obtain ⟨l, hl⟩ := hok.lists _ hold
  by_cases hne : c.portLocal.toNat % udpHtableSize = d.portLocal.toNat
  · -- the block is its own successor, in one or more steps
    rw [hne] at hl hmem
    rw [table_pushed_self] at hl
    match l, hl with
    | q :: l, ⟨hq, next, hn, hl'⟩ =>
      have hqp : p = q := Option.some.inj hq
      subst hqp
      have hnext : st.table d.portLocal.toNat = next :=
        Option.some.inj ((link_eq (pcb_pushed_self ..)).symm.trans hn)
      exact (List.nodup_cons.mp (Linked.nodup (h := some p) ⟨rfl, next, hn, hl'⟩)).1
        (hg.reaches_pushed hlt hmem (hnext ▸ hl'))
  · have hcount := hok.once p _ (pcb_pushed_self ..) hport _ hold l hl
    rw [show ({ d with next := st.table d.portLocal.toNat } : UdpPcb).portLocal = d.portLocal
      from rfl, Nat.mod_eq_of_lt hlt, if_neg (Ne.symm hne)] at hcount
    rw [table_pushed_ne hne] at hl
    exact List.count_eq_zero.mp hcount (hg.reaches_pushed hold hmem hl)

/-- A block whose port is changed where it stands is in the wrong bucket, unless the new
port belongs to the same. -/
theorem write_bound (hg : Good st L) (h : st.pcb p = some c) {d : UdpPcb} (hnext : d.next = c.next)
    (hport : d.portLocal ≠ 0#16) (hb : b < udpHtableSize) (hmem : p ∈ L b)
    (hne : d.portLocal.toNat % udpHtableSize ≠ b) : ¬ TableOk (st.write p d) := by
  intro hok
  have hl : Linked (st.write p d).link ((st.write p d).table b) (L b) := by
    rw [link_write h hnext]
    exact hg.linked b hb
  have hcount := hok.once p d (pcb_write_self ..) hport b hb _ hl
  rw [if_neg hne] at hcount
  exact List.count_eq_zero.mp hcount hmem

end Good

end LinuxNet.Sip
