import LinuxNet.Sip.UdpTable

/-!
# The operations on the UDP table

What one operation does to a table in order: `Outcome` has four cases, and
`step_outcome` finds the one for every operation. The table stays in order; or
it does not; or `udp_pcbs` is indexed outside; or the program stops at a pointer,
which is what `SIP_UDPRemove` does with the last block of a list of two or more.
The second and the third case are exactly the operations that miss `Fits`.
-/

namespace LinuxNet.Sip

open UdpState

variable {st : UdpState} {L : Nat → List Nat} {p b : Nat} {c : UdpPcb}

/-! ## The search for a free port -/

/-- Whether a port is free is read off the list of its bucket. -/
theorem Good.portFree_iff (hg : Good st L) {port : BitVec 16} (hport : port ≠ 0#16)
    (hlt : port.toNat < udpHtableSize) :
    PortFree st port.toNat ↔ (L port.toNat).find? (st.hasPort port) = none := by
  rw [List.find?_eq_none]
  constructor
  · intro hfree q hq hhas
    obtain ⟨d, hd, _⟩ := hg.live hlt hq
    rw [hasPort, hd] at hhas
    exact hfree q d hd (by rw [show d.portLocal = port by simpa using hhas])
  · intro hnone q d hd he
    have hd' : d.portLocal = port := BitVec.eq_of_toNat_eq he
    have hin : InBucket d port.toNat := ⟨hd' ▸ hport, by rw [hd', Nat.mod_eq_of_lt hlt]⟩
    exact hnone q ((hg.mem_iff hd hlt).mpr hin) (by simp [hasPort, hd, hd'])

/-- The counter of `found_a_port` does not matter for the lists. -/
theorem Good.counter (hg : Good st L) {i : BitVec 32} (hi : i.toNat < udpHtableSize) :
    Good { st with index := i } L := ⟨hg.linked, hg.mem, hg.fresh, hi⟩

/-- The counter is small, so neither the increment nor the cast to 16 bits wraps. -/
theorem index_succ (hindex : st.index.toNat < udpHtableSize) :
    (st.index + 1#32).toNat = st.index.toNat + 1 ∧
      ((st.index + 1#32).setWidth 16).toNat = st.index.toNat + 1 := by
  unfold udpHtableSize at hindex
  have hi : (st.index + 1#32).toNat = st.index.toNat + 1 := by
    rw [BitVec.toNat_add, BitVec.toNat_ofNat]
    omega
  refine ⟨hi, ?_⟩
  rw [BitVec.toNat_setWidth, hi]
  omega

theorem Good.index_succ (hg : Good st L) :
    (st.index + 1#32).toNat = st.index.toNat + 1 ∧
      ((st.index + 1#32).setWidth 16).toNat = st.index.toNat + 1 :=
  Sip.index_succ hg.index

/-- Where the port after the counter is taken, the next turn has the same ports to find. -/
theorem Good.autoFits_next (hg : Good st L) (hused : ¬ PortFree st (st.index.toNat + 1)) :
    AutoFits { st with index := st.index + 1#32 } ↔ AutoFits st := by
  have hi := hg.index_succ.1
  constructor
  · intro h
    obtain ⟨k, hk, hrest⟩ := h
    exact ⟨k, by rw [hi] at hk; omega, hrest⟩
  · intro h
    obtain ⟨k, hk, hklt, hkfree⟩ := h
    have hne : k ≠ st.index.toNat + 1 := fun he => hused (he ▸ hkfree)
    exact ⟨k, by rw [hi]; omega, hklt, hkfree⟩

/-- The search finds the first free port after the counter, or runs into the size of the
table. -/
theorem Good.autoPort_cases (turns : Nat) : ∀ {st : UdpState}, Good st L →
    udpHtableSize ≤ st.index.toNat + turns →
      (¬ AutoFits st ∧ autoPort turns st = .error .outOfBounds) ∨
      (AutoFits st ∧ ∃ (i : BitVec 32) (port : BitVec 16), i.toNat < udpHtableSize ∧
        port ≠ 0#16 ∧ port.toNat < udpHtableSize ∧
        autoPort turns st = .ok ({ st with index := i }, port, none)) := by
  induction turns with
  | zero =>
    intro st hg hle
    exact absurd hg.index (Nat.not_lt.mpr hle)
  | succ turns ih =>
    intro st hg hle
    obtain ⟨hi, hport⟩ := hg.index_succ
    rw [autoPort, foundAPort]
    dsimp only
    by_cases hlt : st.index.toNat + 1 < udpHtableSize
    · have hlt' : ((st.index + 1#32).setWidth 16).toNat < udpHtableSize := hport ▸ hlt
      have hzero : (st.index + 1#32).setWidth 16 ≠ 0#16 := fun he => by
        rw [he, BitVec.toNat_ofNat] at hport
        omega
      have hend : (st.index + 1#32).setWidth 16 ≠ udpPortRangeEnd := fun he => by
        rw [he] at hlt'
        exact absurd hlt' (by decide)
      have hg' := hg.counter (hi ▸ hlt)
      have hfree := hg'.portFree_iff hzero hlt'
      rw [bucket_eq hlt']
      dsimp only
      rw [if_neg hend, hg'.scan_eq hlt']
      cases hf : (L ((st.index + 1#32).setWidth 16).toNat).find?
          (hasPort { st with index := st.index + 1#32 } ((st.index + 1#32).setWidth 16)) with
      | none =>
        have hnext : PortFree st (st.index.toNat + 1) := hport ▸ hfree.mpr hf
        -- nobody holds the port, the loop ends with it
        exact Or.inr ⟨⟨_, Nat.lt_succ_self _, hlt, hnext⟩, _, _, hi ▸ hlt, hzero, hlt', rfl⟩
      | some q =>
        have hused : ¬ PortFree st (st.index.toNat + 1) := fun h => by
          have := hfree.mp (hport ▸ h)
          rw [hf] at this
          cases this
        -- the port is taken, so the next turn starts from the counter moved by one
        have hfits := hg.autoFits_next hused
        rcases ih hg' (by rw [hi]; omega) with ⟨hn, h⟩ | ⟨hy, i, port, h⟩
        · exact Or.inl ⟨mt hfits.mpr hn, h⟩
        · exact Or.inr ⟨hfits.mp hy, i, port, h⟩
    · -- the bucket of the port is looked up before anything else is tested
      rw [bucket_oob (hport ▸ hlt)]
      refine Or.inl ⟨?_, rfl⟩
      intro h
      obtain ⟨k, hk, hklt, _⟩ := h
      omega

/-! ## What one operation does -/

/-- The four things an operation can do to a table in order; `fits` is the condition on
the operation. -/
inductive Outcome (fits : Prop) : Except Fault UdpState → Prop
  | keeps {st : UdpState} {L : Nat → List Nat} (hfits : fits) (hg : Good st L) :
    Outcome fits (.ok st)
  | breaks {st : UdpState} (hfits : ¬ fits) (hbad : ¬ TableOk st) : Outcome fits (.ok st)
  | overruns (hfits : ¬ fits) : Outcome fits (.error .outOfBounds)
  | stops {f : Fault} (hfits : fits) (hf : f ≠ .outOfBounds) : Outcome fits (.error f)

theorem Outcome.congr {fits fits' : Prop} {r : Except Fault UdpState} (h : fits ↔ fits')
    (ho : Outcome fits r) : Outcome fits' r := by
  cases ho with
  | keeps hf hg => exact .keeps (h.mp hf) hg
  | breaks hf hbad => exact .breaks (mt h.mpr hf) hbad
  | overruns hf => exact .overruns (mt h.mpr hf)
  | stops hf hne => exact .stops (h.mp hf) hne

/-! ### Bind -/

theorem bindAs_eq (h : st.pcb p = some c) (cells : List Nat) (port : BitVec 16) :
    st.bindAs p cells port =
      if p ∈ cells then .ok (st.write p { c with portLocal := port }, 0)
      else if port.toNat < udpHtableSize then
        .ok (st.pushed p { c with portLocal := port } port.toNat, 0)
      else .error .outOfBounds := by
  unfold bindAs
  simp only [modify_eq h, bind, Except.bind]
  by_cases hm : p ∈ cells
  · rw [if_pos hm, if_pos hm]
    rfl
  · rw [if_neg hm, if_neg hm]
    by_cases hlt : port.toNat < udpHtableSize
    · rw [if_pos hlt, pushFront_eq (pcb_write_self ..) hlt, write_pushed]
      rfl
    · rw [if_neg hlt, pushFront_oob hlt]

/-- The end of `SIP_UDPBind`, given whether the block is in the bucket `b` that the
first loop went through. -/
theorem Good.bindAs_outcome (hg : Good st L) (h : st.pcb p = some c) (hb : b < udpHtableSize)
    {port : BitVec 16} (hport : port ≠ 0#16) :
    Outcome (if c.portLocal = 0#16 then port.toNat < udpHtableSize
        else p ∈ L b ∧ port.toNat % udpHtableSize = b)
      ((st.bindAs p (L b) port).map (·.1)) := by
  rw [bindAs_eq h]
  by_cases hm : p ∈ L b
  · have hin := (hg.mem_iff h hb).mp hm
    rw [if_pos hm, if_neg hin.1]
    by_cases hsame : port.toNat % udpHtableSize = b
    · refine .keeps ⟨hm, hsame⟩ (hg.write h (d := { c with portLocal := port }) rfl fun k _ => ?_)
      exact ⟨fun ⟨_, hk⟩ => ⟨hin.1, hin.2.trans (hsame.symm.trans hk)⟩,
        fun ⟨_, hk⟩ => ⟨hport, hsame.trans (hin.2.symm.trans hk)⟩⟩
    · -- it stays in the list of `b` with a port of another bucket
      exact .breaks (fun hf => hsame hf.2)
        (hg.write_bound h (d := { c with portLocal := port }) rfl hport hb hm hsame)
  · rw [if_neg hm]
    -- not in the list searched, so the block is put in front of the list of the port
    by_cases hbound : c.portLocal = 0#16
    · rw [if_pos hbound]
      by_cases hlt : port.toNat < udpHtableSize
      · rw [if_pos hlt]
        exact .keeps hlt (hg.push h hbound (d := { c with portLocal := port }) hport hlt)
      · rw [if_neg hlt]
        exact .overruns hlt
    · rw [if_neg hbound]
      by_cases hlt : port.toNat < udpHtableSize
      · -- it is put into a second list
        rw [if_pos hlt]
        exact .breaks (fun hf => hm hf.1)
          (hg.push_bound h hbound (d := { c with portLocal := port }) hport hlt)
      · rw [if_neg hlt]
        exact .overruns fun hf => hm hf.1

/-- Of the three ways to compute a bucket, `&` with the mask and `%` agree. -/
theorem and_mask_eq_mod (port : Nat) : port &&& (udpHtableSize - 1) = port % udpHtableSize :=
  Nat.and_two_pow_sub_one_eq_mod port 7

/-- `SIP_UDPBind` of a block that is there. -/
theorem udpBind_eq (hg : Good st L) (h : st.pcb p = some c) (ipaddr : BitVec 32)
    (port : BitVec 16) :
    st.udpBind p ipaddr port =
      match (st.write p { c with ipLocal := ipaddr }).bindPort port with
      | .error f => .error f
      | .ok (st, port', ipcb) =>
        if ipcb ≠ none then .ok (st, -1)
        else st.bindAs p (L (port.toNat % udpHtableSize)) port' := by
  have hlt : port.toNat % udpHtableSize < udpHtableSize := Nat.mod_lt _ (by decide)
  unfold udpBind
  rw [and_mask_eq_mod]
  simp only [bucket_eq hlt, hg.cells hlt, modify_eq h, bind, Except.bind]
  cases (st.write p { c with ipLocal := ipaddr }).bindPort port <;> rfl

theorem Good.udpBind_dead (hg : Good st L) (h : st.pcb p = none) (ipaddr : BitVec 32)
    (port : BitVec 16) : st.udpBind p ipaddr port = .error .useAfterFree := by
  have hlt : port.toNat % udpHtableSize < udpHtableSize := Nat.mod_lt _ (by decide)
  unfold udpBind
  rw [and_mask_eq_mod]
  simp only [bucket_eq hlt, hg.cells hlt, modify_dead h, bind, Except.bind]

/-- `SIP_UDPBind` without a port: the search for one, and then the end of the function. -/
theorem Good.udpBind_zero (hg : Good st L) (h : st.pcb p = some c) (ipaddr : BitVec 32) :
    (¬ AutoFits st ∧ st.udpBind p ipaddr 0#16 = .error .outOfBounds) ∨
    (AutoFits st ∧ ∃ (st' : UdpState) (port : BitVec 16), Good st' L ∧
      st'.pcb p = some { c with ipLocal := ipaddr } ∧ port ≠ 0#16 ∧ port.toNat < udpHtableSize ∧
      st.udpBind p ipaddr 0#16 = st'.bindAs p (L 0) port) := by
  have hg' : Good (st.write p { c with ipLocal := ipaddr }) L :=
    hg.write h (d := { c with ipLocal := ipaddr }) rfl fun _ _ => Iff.rfl
  -- the address written first does not change which ports are free
  have hfree : ∀ k, PortFree (st.write p { c with ipLocal := ipaddr }) k ↔ PortFree st k := by
    intro k
    refine ⟨fun hk q d hd => ?_, fun hk q d hd => ?_⟩
    · by_cases hq : q = p
      · subst hq
        rw [h, Option.some.injEq] at hd
        have hport := hk q _ (pcb_write_self st q { c with ipLocal := ipaddr })
        exact hd ▸ hport
      · exact hk q d (by rw [pcb_write_ne hq, hd])
    · by_cases hq : q = p
      · subst hq
        rw [pcb_write_self, Option.some.injEq] at hd
        exact hd ▸ hk q c h
      · rw [pcb_write_ne hq] at hd
        exact hk q d hd
  have hfits : AutoFits (st.write p { c with ipLocal := ipaddr }) ↔ AutoFits st := by
    unfold AutoFits
    simp only [hfree]
    rfl
  have hbind : (st.write p { c with ipLocal := ipaddr }).bindPort 0#16 =
      autoPort 200 (st.write p { c with ipLocal := ipaddr }) := if_pos rfl
  rw [udpBind_eq hg h, hbind]
  rcases Good.autoPort_cases 200 hg' (Nat.le_add_left_of_le (by decide)) with
    ⟨hn, he⟩ | ⟨hy, i, port, hi, hne, hlt, he⟩
  · exact Or.inl ⟨mt hfits.mpr hn, by rw [he]⟩
  · refine Or.inr ⟨hfits.mp hy, _, port, hg'.counter hi, pcb_write_self .., hne, hlt, ?_⟩
    rw [he]
    rfl

theorem Good.bind_outcome (hg : Good st L) (h : st.pcb p = some c) (ipaddr : BitVec 32)
    (port : BitVec 16) :
    Outcome (if port = 0#16 then c.portLocal = 0#16 ∧ AutoFits st
        else if c.portLocal = 0#16 then port.toNat < udpHtableSize
        else c.portLocal.toNat % udpHtableSize = port.toNat % udpHtableSize)
      ((st.udpBind p ipaddr port).map (·.1)) := by
  by_cases hz : port = 0#16
  · subst hz
    rw [if_pos rfl]
    rcases hg.udpBind_zero h ipaddr with ⟨hn, he⟩ | ⟨hy, st', port, hg', h', hne, hlt, he⟩
    · rw [he]
      exact .overruns fun hf => hn hf.2
    · rw [he]
      refine (hg'.bindAs_outcome h' (by decide) hne).congr ?_
      -- the first loop has gone through bucket 0, where the new port does not belong
      dsimp only
      by_cases hbound : c.portLocal = 0#16
      · rw [if_pos hbound]
        exact iff_of_true hlt ⟨hbound, hy⟩
      · rw [if_neg hbound, Nat.mod_eq_of_lt hlt]
        exact iff_of_false (fun hf => hne (BitVec.eq_of_toNat_eq hf.2)) fun hf => hbound hf.1
  · have hb : port.toNat % udpHtableSize < udpHtableSize := Nat.mod_lt _ (by decide)
    have hg' : Good (st.write p { c with ipLocal := ipaddr }) L :=
      hg.write h (d := { c with ipLocal := ipaddr }) rfl fun _ _ => Iff.rfl
    have hbind : (st.write p { c with ipLocal := ipaddr }).bindPort port =
        .ok (st.write p { c with ipLocal := ipaddr }, port, none) := if_neg hz
    rw [if_neg hz, udpBind_eq hg h, hbind]
    refine (hg'.bindAs_outcome (pcb_write_self ..) hb hz).congr ?_
    dsimp only
    by_cases hbound : c.portLocal = 0#16
    · rw [if_pos hbound, if_pos hbound]
    · rw [if_neg hbound, if_neg hbound, and_iff_left rfl]
      exact (hg.mem_iff h hb).trans (and_iff_right hbound)

/-! ### Connect -/

/-- `SIP_UDPConnect` of a block that has a port looks for it in the bucket with the number
of the port. -/
theorem Good.connectTo_outcome (hg : Good st L) (h : st.pcb p = some c) (hport : c.portLocal ≠ 0#16)
    (ipaddr : BitVec 32) (port : BitVec 16) :
    Outcome (c.portLocal.toNat < udpHtableSize) ((st.connectTo p ipaddr port).map (·.1)) := by
  have hg' := hg.write h (d := { c with
    ipRemote := ipaddr, portRemote := port, flags := c.flags ||| udpFlagsConnected }) rfl
    fun _ _ => Iff.rfl
  unfold connectTo
  simp only [modify_eq h, deref_eq (pcb_write_self ..), bind, Except.bind]
  by_cases hlt : c.portLocal.toNat < udpHtableSize
  · have hmem : p ∈ L c.portLocal.toNat :=
      (hg.mem_iff h hlt).mpr ⟨hport, Nat.mod_eq_of_lt hlt⟩
    have hfound : ((L c.portLocal.toNat).find? fun q => q == p) ≠ none := fun he =>
      List.find?_eq_none.mp he p hmem (beq_self_eq_true p)
    rw [bucket_eq hlt]
    dsimp only
    rw [(hg'.linked _ hlt).chase_eq (hg'.length_lt hlt)]
    dsimp only
    rw [if_pos hfound]
    exact .keeps hlt hg'
  · rw [bucket_oob hlt]
    exact .overruns hlt

theorem Good.connect_outcome (hg : Good st L) (h : st.pcb p = some c) (ipaddr : BitVec 32)
    (port : BitVec 16) :
    Outcome (if c.portLocal = 0#16 then AutoFits st else c.portLocal.toNat < udpHtableSize)
      ((st.udpConnect p ipaddr port).map (·.1)) := by
  unfold udpConnect
  simp only [deref_eq h, bind, Except.bind]
  by_cases hbound : c.portLocal = 0#16
  · rw [if_pos hbound, if_pos hbound]
    rcases hg.udpBind_zero h c.ipLocal with ⟨hn, he⟩ | ⟨hy, st', port', hg', h', hne, hlt, he⟩
    · rw [he]
      exact .overruns hn
    · have hnot : p ∉ L 0 := fun hm => ((hg.mem_iff h (by decide)).mp hm).1 hbound
      rw [he, bindAs_eq h', if_neg hnot, if_pos hlt]
      refine ((hg'.push h' hbound (d := { c with portLocal := port' }) hne hlt).connectTo_outcome
        (pcb_pushed_self ..) hne ipaddr port).congr ?_
      exact iff_of_true hlt hy
  · rw [if_neg hbound, if_neg hbound]
    exact hg.connectTo_outcome h hbound ipaddr port

/-! ### Remove -/

theorem link_cases {next : Option Nat} (h : st.link p = some next) :
    ∃ c, st.pcb p = some c ∧ c.next = next := Option.map_eq_some_iff.mp h

/-- The loop of `SIP_UDPRemove` leaves a list alone that does not have the block behind
its head. -/
theorem removeLoop_absent (fuel : Nat) : ∀ {l : List Nat} {t : Nat},
    Linked st.link (some t) (t :: l) → p ∉ l → l.length < fuel →
      removeLoop p fuel st (some t) = .ok st := by
  induction fuel with
  | zero =>
    intro l t _ _ hlt
    exact absurd hlt (Nat.not_lt_zero _)
  | succ fuel ih =>
    intro l t hl hp hlt
    obtain ⟨_, next, hn, hl⟩ := hl
    obtain ⟨d, hd, rfl⟩ := link_cases hn
    rw [removeLoop]
    simp only [deref_eq hd, bind, Except.bind]
    cases l with
    | nil =>
      rw [show d.next = none from hl]
      rfl
    | cons q l =>
      -- no block of the list is `p`, so the loop only walks on
      have hqp : q ≠ p := fun he => hp (he ▸ List.mem_cons_self ..)
      rw [hl.1]
      dsimp only
      rw [if_neg hqp]
      exact ih ⟨rfl, hl.2⟩ (fun hm => hp (List.mem_cons_of_mem _ hm)) (Nat.lt_of_succ_lt_succ hlt)

/-- The loop stands at the block in front. It takes `p` out and goes on from its
successor, where it follows NULL if there is none. -/
theorem removeLoop_front (hp : st.pcb p = some c) {q : Nat} {d : UdpPcb} {post : List Nat}
    {fuel : Nat} (hl : Linked st.link (some q) (q :: p :: post)) (hd : st.pcb q = some d)
    (hlt : post.length + 2 ≤ fuel) :
    removeLoop p fuel st (some q) =
      if post = [] then .error .nullDeref else .ok (st.write q { d with next := c.next }) := by
  have hnodup := hl.nodup
  have hqpost : q ∉ post := fun hm =>
    (List.nodup_cons.mp hnodup).1 (List.mem_cons_of_mem _ hm)
  have hppost : p ∉ post := (List.nodup_cons.mp (List.nodup_cons.mp hnodup).2).1
  obtain ⟨_, next, hn, hq, next', hn', hpost⟩ := hl
  have hdn : d.next = some p := Option.some.inj ((link_eq hd).symm.trans (hn.trans (hq ▸ rfl)))
  have hcn : next' = c.next := Option.some.inj (hn'.symm.trans (link_eq hp))
  subst hcn
  obtain ⟨fuel, rfl⟩ : ∃ n, fuel = n + 2 := ⟨fuel - 2, by omega⟩
  rw [removeLoop]
  simp only [deref_eq hd, hdn, deref_eq hp, modify_eq hd, bind, Except.bind, if_true]
  cases post with
  -- the loop steps to the successor of `p` without a test for NULL
  | nil =>
    rw [if_pos rfl, removeLoop, show c.next = none from hpost]
    rfl
  | cons r post =>
    -- the rest of the list does not see the write
    have hrest : Linked (st.write q { d with next := c.next }).link c.next (r :: post) :=
      hpost.congr fun s hs => by
        rw [link, link, pcb_write_ne fun he : s = q => hqpost (he ▸ hs)]
    rw [if_neg (List.cons_ne_nil r post), hpost.1]
    rw [hpost.1] at hrest
    rw [List.length_cons] at hlt
    exact removeLoop_absent _ hrest (fun hm => hppost (List.mem_cons_of_mem _ hm)) (by omega)

/-- The loop goes on to the block in front of `p`. -/
theorem removeLoop_eq (hp : st.pcb p = some c) {q : Nat} {d : UdpPcb} {post : List Nat}
    (hd : st.pcb q = some d) {pre : List Nat} : ∀ {t fuel : Nat},
    Linked st.link (some t) (pre ++ q :: p :: post) → (pre ++ q :: p :: post).length ≤ fuel →
      removeLoop p fuel st (some t) =
        if post = [] then .error .nullDeref else .ok (st.write q { d with next := c.next }) := by
  induction pre with
  | nil =>
    intro t fuel hl hlt
    have htq : t = q := Option.some.inj hl.1
    subst htq
    exact removeLoop_front hp hl hd hlt
  | cons s pre ih =>
    intro t fuel hl hlt
    have hnodup := (List.nodup_cons.mp hl.nodup).2
    obtain ⟨ht, next, hn, hrest⟩ := hl
    have hts : t = s := Option.some.inj ht
    subst hts
    obtain ⟨e, he, rfl⟩ := link_cases hn
    -- the next block is not yet `p`, which comes behind `q`
    have hsucc : ∃ u, e.next = some u ∧ u ≠ p := by
      cases pre with
      | nil => exact ⟨q, hrest.1, fun he => (List.nodup_cons.mp hnodup).1 (by simp [he])⟩
      | cons u pre => exact ⟨u, hrest.1, fun he => (List.nodup_cons.mp hnodup).1 (by simp [he])⟩
    obtain ⟨u, hu, hup⟩ := hsucc
    cases fuel with
    | zero => exact absurd hlt (Nat.not_succ_le_zero _)
    | succ fuel =>
      rw [removeLoop]
      simp only [deref_eq he, hu, bind, Except.bind]
      rw [if_neg hup]
      exact ih (hu ▸ hrest) (Nat.le_of_succ_le_succ hlt)

/-- **`SIP_UDPRemove`** of a block that is there, by where the block is in the list of its
bucket: not in it, at its head, or behind some `q`. -/
theorem udpRemove_cases (h : st.pcb p = some c) {l : List Nat}
    (hl : Linked st.link (st.table (c.portLocal.toNat % udpHtableSize)) l)
    (hlen : l.length < st.fuel) :
    (p ∉ l ∧ st.udpRemove (some p) = .ok (st.free p)) ∨
    (∃ rest, l = p :: rest ∧ Linked st.link c.next rest ∧
      st.udpRemove (some p) =
        .ok (({ st with
          table := Function.update st.table (c.portLocal.toNat % udpHtableSize) c.next } :
            UdpState).free p)) ∨
    ∃ pre q d post, l = pre ++ q :: p :: post ∧ st.pcb q = some d ∧
      st.udpRemove (some p) = if post = [] then .error .nullDeref else
        .ok ((st.write q { d with next := c.next }).free p) := by
  have hb : c.portLocal.toNat % udpHtableSize < udpHtableSize := Nat.mod_lt _ (by decide)
  unfold udpRemove
  simp only [deref_eq h, bucket_eq hb, bind, Except.bind]
  cases l with
  | nil =>
    rw [show st.table (c.portLocal.toNat % udpHtableSize) = none from hl]
    exact .inl ⟨List.not_mem_nil, rfl⟩
  | cons t rest =>
    rw [hl.1]
    dsimp only
    by_cases ht : t = p
    · subst ht
      obtain ⟨_, next, hn, hrest⟩ := hl
      have hcn : next = c.next := Option.some.inj (hn.symm.trans (link_eq h))
      subst hcn
      rw [if_pos rfl, setBucket, if_pos hb]
      exact .inr (.inl ⟨rest, rfl, hrest, rfl⟩)
    · rw [if_neg ht]
      by_cases hp : p ∈ rest
      · -- the block stands behind some `q`
        obtain ⟨pre0, post, rfl⟩ := List.append_of_mem hp
        obtain ⟨pre, q, hpq⟩ : ∃ pre q, t :: pre0 = pre ++ [q] :=
          ⟨_, _, (List.dropLast_append_getLast (List.cons_ne_nil t pre0)).symm⟩
        have hsplit : t :: (pre0 ++ p :: post) = pre ++ q :: p :: post := by
          rw [← List.cons_append, hpq, List.append_assoc]
          rfl
        rw [hsplit] at hlen
        rw [hl.1, hsplit] at hl
        obtain ⟨next, hq⟩ := hl.live q (List.mem_append_right pre (List.mem_cons_self ..))
        obtain ⟨d, hd, -⟩ := link_cases hq
        rw [removeLoop_eq h hd hl (Nat.le_of_lt hlen)]
        refine .inr (.inr ⟨pre, q, d, post, hsplit, hd, ?_⟩)
        by_cases hpost : post = []
        · rw [if_pos hpost, if_pos hpost]
        · rw [if_neg hpost, if_neg hpost]
          rfl
      · rw [removeLoop_absent _ (hl.1 ▸ hl) hp (Nat.lt_of_succ_lt hlen)]
        exact .inl ⟨fun hm => (List.mem_cons.mp hm).elim (fun he => ht he.symm) hp, rfl⟩

/-- A block that was in no list is just gone. -/
theorem Good.free_absent (hg : Good st L) (h : st.pcb p = some c)
    (hnot : p ∉ L (c.portLocal.toNat % udpHtableSize)) :
    Good (st.free p) (Function.update L (c.portLocal.toNat % udpHtableSize)
      (L (c.portLocal.toNat % udpHtableSize))) := by
  have hb : c.portLocal.toNat % udpHtableSize < udpHtableSize := Nat.mod_lt _ (by decide)
  have hne : ∀ q ∈ L (c.portLocal.toNat % udpHtableSize), q ≠ p := fun q hq he => hnot (he ▸ hq)
  refine hg.removed _ h rfl rfl rfl (pcb_free_self ..) (fun q hq => by rw [pcb_free_ne hq])
    ((hg.linked _ hb).congr fun q hq => link_free_ne (hne q hq) ..)
    (fun q => ⟨fun hq => ⟨hne q hq, hq⟩, And.right⟩) (fun _ _ => rfl)
    fun q hq _ => link_free_ne hq ..

/-- A block that stood behind `q` is gone, and `q` points where it pointed. -/
theorem Good.free_behind (hg : Good st L) (h : st.pcb p = some c) {pre post : List Nat} {q : Nat}
    {d : UdpPcb} (hL : L (c.portLocal.toNat % udpHtableSize) = pre ++ q :: p :: post)
    (hd : st.pcb q = some d) :
    Good ((st.write q { d with next := c.next }).free p)
      (Function.update L (c.portLocal.toNat % udpHtableSize) (pre ++ q :: post)) := by
  have hb : c.portLocal.toNat % udpHtableSize < udpHtableSize := Nat.mod_lt _ (by decide)
  have hlinked := hL ▸ hg.linked _ hb
  have hnodup := hlinked.nodup
  have hbehind := (List.nodup_append.mp hnodup).2.1
  have hpq : q ≠ p := fun he => (List.nodup_cons.mp hbehind).1 (he ▸ List.mem_cons_self ..)
  have hpre : p ∉ pre := fun hm =>
    List.disjoint_of_nodup_append hnodup hm (List.mem_cons_of_mem _ (List.mem_cons_self ..))
  have hpost : p ∉ post := (List.nodup_cons.mp (List.nodup_cons.mp hbehind).2).1
  have hlink : ∀ r, r ≠ q → r ≠ p →
      ((st.write q { d with next := c.next }).free p).link r = st.link r := fun r hrq hrp => by
    rw [link_free_ne hrp, link, link, pcb_write_ne hrq]
  -- only the pointer of `q` has changed, and `p` is gone
  refine hg.removed _ h rfl rfl rfl (pcb_free_self ..) (fun r hr => ?_) (hlinked.unlink ?_ hlink)
    (fun r => ?_) (fun _ _ => rfl) fun r hr hm => hlink r (fun he => hm ?_) hr
  · rw [pcb_free_ne hr]
    by_cases hrq : r = q
    · subst hrq
      rw [pcb_write_self, hd]
      rfl
    · rw [pcb_write_ne hrq]
  · rw [link_free_ne hpq, link_eq (pcb_write_self ..), link_eq h]
  · rw [hL]
    simp only [List.mem_append, List.mem_cons]
    constructor
    · intro h
      rcases h with hm | rfl | hm
      · exact ⟨fun he => hpre (he ▸ hm), Or.inl hm⟩
      · exact ⟨hpq, Or.inr (Or.inl rfl)⟩
      · exact ⟨fun he => hpost (he ▸ hm), Or.inr (Or.inr (Or.inr hm))⟩
    · intro h
      rcases h with ⟨hr, hm | hm | hm | hm⟩
      · exact Or.inl hm
      · exact Or.inr (Or.inl hm)
      · exact absurd hm hr
      · exact Or.inr (Or.inr hm)
  · rw [he, hL]
    exact List.mem_append_right pre (List.mem_cons_self ..)

/-- `SIP_UDPRemove` of a block that is there. -/
theorem Good.remove_outcome (hg : Good st L) (h : st.pcb p = some c) :
    Outcome True (st.udpRemove (some p)) := by
  have hb : c.portLocal.toNat % udpHtableSize < udpHtableSize := Nat.mod_lt _ (by decide)
  rcases udpRemove_cases h (hg.linked _ hb) (hg.length_lt hb) with
    ⟨hnot, he⟩ | ⟨rest, hL, hrest, he⟩ | ⟨pre, q, d, post, hL, hd, he⟩
  · rw [he]
    exact .keeps trivial (hg.free_absent h hnot)
  · have hnodup := hL ▸ (hg.linked _ hb).nodup
    have hne : ∀ q ∈ rest, q ≠ p := fun q hq he => (List.nodup_cons.mp hnodup).1 (he ▸ hq)
    rw [he]
    refine .keeps trivial (hg.removed rest h rfl rfl rfl (pcb_free_self ..)
      (fun q hq => by rw [pcb_free_ne hq]) ?_ (fun q => ?_)
      (fun k hk => Function.update_of_ne hk ..) fun q hq _ => link_free_ne hq ..)
    · change Linked _ (Function.update st.table (c.portLocal.toNat % udpHtableSize) c.next
        (c.portLocal.toNat % udpHtableSize)) rest
      rw [Function.update_self]
      exact hrest.congr fun q hq => link_free_ne (hne q hq) ..
    · rw [hL, List.mem_cons]
      exact ⟨fun hq => ⟨hne q hq, Or.inr hq⟩, fun hq => hq.2.resolve_left hq.1⟩
  · rw [he]
    split
    next => exact .stops trivial (by decide)
    next => exact .keeps trivial (hg.free_behind h hL hd)

/-! ## Every operation, and every run -/

theorem Good.disconnect_outcome (hg : Good st L) (h : st.pcb p = some c) :
    Outcome True (st.udpDisconnect p) := by
  rw [udpDisconnect, modify_eq h]
  exact .keeps trivial (hg.write h rfl fun _ _ => Iff.rfl)

/-- **One operation** on a table in order. -/
theorem Good.step_outcome (hg : Good st L) (op : UdpOp) :
    Outcome (Fits st op) (udpStep st op) := by
  cases op with
  | new spare =>
    rw [udpStep, udpNew]
    split
    next hroom => exact .keeps hroom hg.new
    next hroom => exact .overruns hroom
  | remove p =>
    match p with
    | none => exact .keeps trivial hg
    | some p =>
      cases h : st.pcb p with
      | some c => exact hg.remove_outcome h
      | none =>
        rw [udpStep, udpRemove, deref_dead h]
        -- no such block: a fault, but not an access outside the table
        exact .stops trivial nofun
  | disconnect p =>
    cases h : st.pcb p with
    | some c => exact hg.disconnect_outcome h
    | none =>
      rw [udpStep, udpDisconnect, modify_dead h]
      exact .stops trivial nofun
  | connect p ipaddr port =>
    cases h : st.pcb p with
    | some c =>
      refine (hg.connect_outcome h ipaddr port).congr ?_
      simp only [Fits, h, Option.some.injEq, forall_eq']
    | none =>
      rw [udpStep, udpConnect, deref_dead h]
      exact .stops (fun c hc => by rw [h] at hc; exact nomatch hc) nofun
  | bind p ipaddr port =>
    cases h : st.pcb p with
    | some c =>
      refine (hg.bind_outcome h ipaddr port).congr ?_
      simp only [Fits, h, Option.some.injEq, forall_eq']
    | none =>
      rw [udpStep, hg.udpBind_dead h]
      exact .stops (fun c hc => by rw [h] at hc; exact nomatch hc) nofun

/-- **When the table stays in order.** A run of operations keeps the buckets disjoint
lists in which every block is found, and never indexes `udp_pcbs` outside or writes behind a
new block, exactly if no operation of it binds a block to a port the table has no bucket for,
moves it to another bucket, or connects one whose port is not below the size of the table, and
`malloc` has room to spare for every new one. -/
theorem udpTable_iff (ops : List UdpOp) :
    KeepsTable ops ↔ Along udpStep Fits .initial ops := by
  refine ok_always_iff_along (fun st => ∃ L, Good st L) _
    (fun _ ⟨_, hg⟩ => hg.tableOk) ?_ ?_ ?_ ?_ ops ⟨_, initial_good⟩
  · intro st op st' h hfits hstep
    obtain ⟨L, hg⟩ := h
    have ho := hstep ▸ hg.step_outcome op
    -- only a step that does not fit breaks the table or indexes outside it
    cases ho with
    | keeps _ hg' => exact ⟨_, hg'⟩
    | breaks hn _ => exact absurd hfits hn
  · intro st op st' h hn hstep
    obtain ⟨L, hg⟩ := h
    have ho := hstep ▸ hg.step_outcome op
    cases ho with
    | keeps hfits _ => exact absurd hfits hn
    | breaks _ hbad => exact hbad
  · intro st op st' _ _ hstep
    rw [hstep]
    exact nofun
  · intro st op f h hstep
    obtain ⟨L, hg⟩ := h
    have ho := hstep ▸ hg.step_outcome op
    rw [hstep]
    cases ho with
    | overruns hn => exact iff_of_false (fun h => h rfl) hn
    | stops hfits hne => exact iff_of_true (fun h => hne (Except.error.inj h)) hfits

/-- A port beyond the table, a block moved from the bucket of port 5 to the one of port 6,
and a new block that has only sixteen bytes more than were asked for. -/
theorem bind_breaks_table :
    ¬ KeepsTable [.new 56, .bind 0 0#32 5000#16] ∧
      ¬ KeepsTable [.new 56, .bind 0 0#32 5#16, .bind 0 0#32 6#16] ∧
        ¬ KeepsTable [.new 16] := by
  refine ⟨fun h => (h.1.2 _ rfl).1 rfl, fun h => ?_, fun h => h.1.1 rfl⟩
  have hok : TableOk _ := ((h.2.2 _ rfl).2 _ rfl).2 _ rfl
  have hcount := hok.once 0 _ rfl (by decide) 5 (by decide) [0] ⟨rfl, _, rfl, rfl⟩
  exact absurd hcount (by decide)

end LinuxNet.Sip
