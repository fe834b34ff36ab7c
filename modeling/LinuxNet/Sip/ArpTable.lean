import LinuxNet.Sip.Arp

/-!
# The ARP cache over whole runs

`arp_find_entry` expires entries while it looks for one, and it stops where it
finds one. So what a call does to the table depends on what the scan has passed,
and `arp_add_entry` takes the first empty slot only after a scan that has seen
every slot.

`Scanned` says once what a scan leaves, `arpStep_cases` what a call then writes.
From the two follows, for any clock, that no address has two slots, and that only
one kind of call writes over the slot of another address: an `arp_add_entry` of an
address that is not found, if the first slot its scan leaves empty is one the scan
has just emptied.
-/

namespace LinuxNet.Sip

/-- `ARP_TABLE_SIZE`. -/
def arpTableSize : Nat := 10

/-- `init_arp_entry`. -/
def initArpEntry : ArpTable := List.replicate arpTableSize ⟨0#32, List.replicate 6 0#8, 0, .empty⟩

/-- What a call does; `arp_add_entry` is called with `ARP_ESTABLISHED` everywhere. -/
inductive ArpOp where
  | find
  | update (ethaddr : List Byte)
  | add (ethaddr : List Byte)
  deriving DecidableEq, Repr

/-- A call for an address, and the time it reads from the clock. -/
structure ArpCall where
  now : Nat
  ip : BitVec 32
  op : ArpOp
  deriving DecidableEq, Repr

/-- The hardware address `arp_find_entry` answers with. -/
def arpLookup (now : Nat) (ip : BitVec 32) (t : ArpTable) : Option (List Byte) :=
  let r := arpFindEntry now ip t
  r.2.bind fun i => (r.1[i]?).map (·.ethaddr)

/-- The table after a call. -/
def arpStep (t : ArpTable) (c : ArpCall) : ArpTable :=
  match c.op with
  | .find => (arpFindEntry c.now c.ip t).1
  | .update ethaddr => (updateArpEntry c.now t c.ip (return ethaddr)).val.1
  | .add ethaddr => (arpAddEntry c.now t c.ip (return ethaddr) .established).val

/-- The table after the calls, from the empty one. -/
def arpRun (cs : List ArpCall) : ArpTable := cs.foldl arpStep initArpEntry

/-- The slot is established for the address. -/
def Holds (t : ArpTable) (i : Nat) (ip : BitVec 32) : Prop :=
  ∃ e : ArptArp, t[i]? = some e ∧ e.status = .established ∧ e.ipaddr = ip

/-- Each address has one slot at most. -/
def Unique (t : ArpTable) : Prop := ∀ ip i j, Holds t i ip → Holds t j ip → i = j

/-- The call leaves the addresses in every slot that is established for another. -/
def Undisturbed (t : ArpTable) (c : ArpCall) : Prop :=
  ∀ (i : Nat) (e : ArptArp), t[i]? = some e → e.status = .established → e.ipaddr ≠ c.ip →
    ∃ e' : ArptArp, (arpStep t c)[i]? = some e' ∧ e'.ipaddr = e.ipaddr ∧ e'.ethaddr = e.ethaddr

/-- The call adds an address it has not found, and the slot is the first one its scan has left
empty. -/
def TakenOver (t : ArpTable) (c : ArpCall) (i : Nat) : Prop :=
  (∃ ethaddr, c.op = .add ethaddr) ∧ arpLookup c.now c.ip t = none ∧
    (arpFindEntry c.now c.ip t).1.findIdx? (·.status = .empty) = some i

/-- The call leaves the addresses in every slot that is established for another, unless it adds
an address to a slot its own scan has emptied. -/
def UndisturbedUnlessTaken (t : ArpTable) (c : ArpCall) : Prop :=
  ∀ (i : Nat) (e : ArptArp), t[i]? = some e → e.status = .established → e.ipaddr ≠ c.ip →
    ¬ TakenOver t c i →
    ∃ e' : ArptArp, (arpStep t c)[i]? = some e' ∧ e'.ipaddr = e.ipaddr ∧ e'.ethaddr = e.ethaddr

/-! ## One scan -/

/-- What `arp_find_entry` leaves of the table, and what it answers: the addresses in every slot,
and the whole entry if it is not past its time; nothing is established on the way, and without
an answer no slot is established for the address. -/
structure Scanned (now : Nat) (ip : BitVec 32) (t : ArpTable) (r : ArpTable × Option Nat) :
    Prop where
  length : r.1.length = t.length
  stays : ∀ (i : Nat) (e : ArptArp), t[i]? = some e → e.ctime ≤ now + arpLiveTime → r.1[i]? = some e
  addresses : ∀ (i : Nat) (e : ArptArp), t[i]? = some e →
    ∃ e' : ArptArp, r.1[i]? = some e' ∧ e'.ipaddr = e.ipaddr ∧ e'.ethaddr = e.ethaddr
  holds : ∀ i a, Holds r.1 i a → Holds t i a
  found : ∀ i, r.2 = some i → Holds r.1 i ip
  absent : r.2 = none → ∀ i, ¬ Holds r.1 i ip

theorem holds_cons_zero {e : ArptArp} {t : ArpTable} {ip : BitVec 32} :
    Holds (e :: t) 0 ip ↔ e.status = .established ∧ e.ipaddr = ip := by
  constructor
  · intro h
    obtain ⟨e', he, hs, ha⟩ := h
    rw [List.getElem?_cons_zero, Option.some.injEq] at he
    exact he ▸ ⟨hs, ha⟩
  · intro h
    exact ⟨e, rfl, h.1, h.2⟩

theorem holds_cons_succ {e : ArptArp} {t : ArpTable} {i : Nat} {ip : BitVec 32} :
    Holds (e :: t) (i + 1) ip ↔ Holds t i ip := by
  unfold Holds
  rw [List.getElem?_cons_succ]

/-- A scan that goes on behind an entry that is not the one it looks for, after
leaving it as it is or emptying it. -/
theorem Scanned.cons {now : Nat} {ip : BitVec 32} {t : ArpTable} {r : ArpTable × Option Nat}
    {e e' : ArptArp} (hr : Scanned now ip t r)
    (hkeep : e.ctime ≤ now + arpLiveTime → e' = e)
    (haddr : e'.ipaddr = e.ipaddr ∧ e'.ethaddr = e.ethaddr)
    (hest : e'.status = .established → e' = e)
    (hother : e'.status = .established → e'.ipaddr ≠ ip) :
    Scanned now ip (e :: t) (e' :: r.1, r.2.map (· + 1)) where
  length := congrArg (· + 1) hr.length
  stays := by
    intro i x hx hnow
    cases i with
    -- slot 0 is the entry the turn has looked at, the rest of the scan saw the tail
    | zero =>
      rw [List.getElem?_cons_zero, Option.some.injEq] at hx
      subst hx
      rw [hkeep hnow]
      rfl
    | succ i => exact hr.stays i x hx hnow
  addresses := by
    intro i x hx
    cases i with
    | zero =>
      rw [List.getElem?_cons_zero, Option.some.injEq] at hx
      subst hx
      exact ⟨e', rfl, haddr⟩
    | succ i => exact hr.addresses i x hx
  holds := by
    intro i a h
    cases i with
    | zero =>
      rw [holds_cons_zero] at h ⊢
      exact hest h.1 ▸ h
    | succ i =>
      rw [holds_cons_succ] at h ⊢
      exact hr.holds i a h
  found := by
    intro i h
    obtain ⟨j, hj, rfl⟩ := Option.map_eq_some_iff.mp h
    rw [holds_cons_succ]
    exact hr.found j hj
  absent := by
    intro h i hi
    have hn : r.2 = none := Option.map_eq_none_iff.mp h
    cases i with
    | zero =>
      rw [holds_cons_zero] at hi
      exact hother hi.1 hi.2
    | succ i =>
      rw [holds_cons_succ] at hi
      exact hr.absent hn i hi

/-- **One scan**, whatever the clock says. -/
theorem arpFindEntry_scanned (now : Nat) (ip : BitVec 32) (t : ArpTable) :
    Scanned now ip t (arpFindEntry now ip t) := by
  induction t with
  | nil =>
    refine ⟨rfl, fun _ _ h _ => h, fun _ e h => ⟨e, h, rfl, rfl⟩, fun _ _ h => h, fun i h => ?_,
      fun _ i h => ?_⟩
    · cases h
    · obtain ⟨e, he, -⟩ := h
      cases he
  | cons e t ih =>
    rw [arpFindEntry]
    split
    next hpast =>
      -- past its time, as the code has it: the entry is emptied
      apply ih.cons
      · intro h
        omega
      · exact ⟨rfl, rfl⟩
      · intro h
        cases h
      · intro h
        cases h
    next hpast =>
      split
      next hit =>
        -- the scan stops: what is behind the entry stays as it is
        refine ⟨rfl, fun _ _ h _ => h, fun _ e h => ⟨e, h, rfl, rfl⟩, fun _ _ h => h,
          fun i hi => ?_, fun h => ?_⟩
        · obtain rfl : 0 = i := Option.some.inj hi
          exact holds_cons_zero.mpr ⟨hit.2, hit.1⟩
        · cases h
      next hmiss =>
        -- passed over: it is for another address, or not established
        apply ih.cons
        · intro _
          rfl
        · exact ⟨rfl, rfl⟩
        · intro _
          rfl
        · intro hs hip
          exact hmiss ⟨hip, hs⟩

/-- The lookup fails exactly if the scan does. -/
theorem arpLookup_eq_none {now : Nat} {ip : BitVec 32} {t : ArpTable} :
    arpLookup now ip t = none ↔ (arpFindEntry now ip t).2 = none := by
  unfold arpLookup
  dsimp only
  cases hr : (arpFindEntry now ip t).2 with
  | none => exact iff_of_true rfl rfl
  | some i =>
    obtain ⟨e, he, -⟩ := (arpFindEntry_scanned now ip t).found i hr
    rw [Option.bind_some, he]
    refine iff_of_false (fun h => ?_) fun h => ?_
    · cases h
    · cases h

/-- An address that was not found is not found again, whatever the clock says. -/
theorem arpLookup_again {now now' : Nat} {ip : BitVec 32} {t : ArpTable}
    (h : arpLookup now ip t = none) : arpLookup now' ip (arpFindEntry now ip t).1 = none := by
  have hr := arpFindEntry_scanned now ip t
  have hr' := arpFindEntry_scanned now' ip (arpFindEntry now ip t).1
  rw [arpLookup_eq_none] at h ⊢
  cases hr2 : (arpFindEntry now' ip (arpFindEntry now ip t).1).2 with
  | none => rfl
  | some i => exact absurd (hr'.holds i ip (hr'.found i hr2)) (hr.absent h i)

/-! ## One call -/

/-- The slot a call writes after the scan, and the hardware address it writes there. -/
def arpTarget (r : ArpTable × Option Nat) : ArpOp → Option (Nat × List Byte)
  | .find => none
  | .update ethaddr => r.2.map (·, ethaddr)
  | .add ethaddr => (arpSlot r).map (·, ethaddr)

/-- The entry that was found already has the address. -/
theorem Holds.modify_eq {t : ArpTable} {i now : Nat} {ip : BitVec 32} {bytes : List Byte}
    (h : Holds t i ip) :
    t.modify i (fun e => { e with ethaddr := bytes, status := .established, ctime := now }) =
      t.set i ⟨ip, bytes, now, .established⟩ := by
  obtain ⟨e, he, -, rfl⟩ := h
  rw [List.modify_eq_set_getElem?, he]
  rfl

/-- Writing a whole entry. -/
theorem modify_entry (t : ArpTable) (i : Nat) (e : ArptArp) :
    t.modify i (fun _ => e) = t.set i e := by
  rw [List.modify_eq_set_getElem?]
  cases h : t[i]? with
  | none => exact (List.set_eq_of_length_le (List.getElem?_eq_none_iff.mp h)).symm
  | some _ => rfl

/-- Every call scans the table and then writes one whole entry, or none. -/
theorem arpStep_eq (t : ArpTable) (c : ArpCall) :
    arpStep t c =
      ((arpTarget (arpFindEntry c.now c.ip t) c.op).map fun p =>
        (arpFindEntry c.now c.ip t).1.set p.1 ⟨c.ip, p.2, c.now, .established⟩).getD
      (arpFindEntry c.now c.ip t).1 := by
  have hfound := (arpFindEntry_scanned c.now c.ip t).found
  unfold arpStep
  cases c.op with
  | find => rfl
  | update ethaddr =>
    unfold updateArpEntry
    dsimp only
    cases hr : (arpFindEntry c.now c.ip t).2 with
    | none =>
      rw [arpTarget, hr]
      rfl
    | some i =>
      rw [arpTarget, hr]
      exact (hfound i hr).modify_eq
  | add ethaddr =>
    unfold arpAddEntry updateArpEntry
    dsimp only
    cases hr : (arpFindEntry c.now c.ip t).2 with
    | none =>
      have hslot : arpSlot (arpFindEntry c.now c.ip t) =
          arpSlot ((arpFindEntry c.now c.ip t).1, none) := by rw [← hr]
      rw [arpTarget, hslot]
      simp only [Traced.val_bind, Traced.val_pure]
      -- not found: an empty slot is written, or none
      cases arpSlot ((arpFindEntry c.now c.ip t).1, none) with
      | none => rfl
      | some i => exact modify_entry _ i _
    | some i =>
      have hslot : arpSlot (arpFindEntry c.now c.ip t) = some i := by rw [arpSlot, hr]; rfl
      rw [arpTarget, hslot]
      -- found: `update_arp_entry` writes the slot, and `arp_add_entry` once more
      show List.modify (List.modify _ i _) i _ = _
      rw [List.modify_modify_eq]
      exact modify_entry _ i _

/-- What a call writes over: a slot established for its own address, or, if the scan
has found none, an empty one. -/
theorem arpTarget_cases {now : Nat} {ip : BitVec 32} {t : ArpTable} {op : ArpOp}
    {r : ArpTable × Option Nat} (hr : Scanned now ip t r) :
    arpTarget r op = none ∨ ∃ i ethaddr, arpTarget r op = some (i, ethaddr) ∧
      (Holds r.1 i ip ∨
        r.2 = none ∧ ∃ e : ArptArp, r.1[i]? = some e ∧ e.status = .empty) := by
  cases h : arpTarget r op with
  | none => exact .inl rfl
  | some p =>
    refine .inr ⟨p.1, p.2, rfl, ?_⟩
    cases op with
    | find => cases h
    | update ethaddr =>
      obtain ⟨i, hi, rfl⟩ := Option.map_eq_some_iff.mp h
      exact .inl (hr.found i hi)
    | add ethaddr =>
      obtain ⟨i, hi, rfl⟩ := Option.map_eq_some_iff.mp h
      -- the slot that was found comes first, then an empty one
      unfold arpSlot at hi
      cases h2 : r.2 with
      | some j =>
        rw [h2] at hi
        obtain rfl : j = i := Option.some.inj hi
        exact .inl (hr.found j h2)
      | none =>
        rw [h2, Option.none_or] at hi
        obtain ⟨hlt, he, -⟩ := List.findIdx?_eq_some_iff_getElem.mp hi
        exact .inr ⟨rfl, _, List.getElem?_eq_getElem hlt, of_decide_eq_true he⟩

/-- **One call**, whatever the clock says: behind the scan the table stays as it is, or
one entry for the address of the call is written over its own slot or an empty one. -/
theorem arpStep_cases (t : ArpTable) (c : ArpCall) :
    ∃ r, Scanned c.now c.ip t r ∧
      (arpStep t c = r.1 ∨ ∃ i ethaddr,
        arpStep t c = r.1.set i ⟨c.ip, ethaddr, c.now, .established⟩ ∧
        (Holds r.1 i c.ip ∨
          r.2 = none ∧ ∃ e : ArptArp, r.1[i]? = some e ∧ e.status = .empty)) := by
  have hr := arpFindEntry_scanned c.now c.ip t
  refine ⟨_, hr, ?_⟩
  rw [arpStep_eq]
  rcases @arpTarget_cases _ _ _ c.op _ hr with h | ⟨i, ethaddr, h, hi⟩
  · rw [h]
    exact .inl rfl
  · rw [h]
    exact .inr ⟨i, ethaddr, rfl, hi⟩

/-! ## Uniqueness -/

theorem holds_set_self {t : ArpTable} {i : Nat} {e : ArptArp} {ip : BitVec 32} :
    Holds (t.set i e) i ip ↔ i < t.length ∧ e.status = .established ∧ e.ipaddr = ip := by
  unfold Holds
  rw [List.getElem?_set_self']
  by_cases hi : i < t.length
  · rw [List.getElem?_eq_getElem hi]
    constructor
    · intro h
      obtain ⟨x, hx, hs, ha⟩ := h
      cases hx
      exact ⟨hi, hs, ha⟩
    · intro h
      exact ⟨e, rfl, h.2⟩
  · rw [List.getElem?_eq_none (Nat.le_of_not_lt hi)]
    refine iff_of_false (fun h => ?_) fun h => hi h.1
    obtain ⟨x, hx, -⟩ := h
    cases hx

theorem holds_set_ne {t : ArpTable} {i j : Nat} {e : ArptArp} {ip : BitVec 32} (h : j ≠ i) :
    Holds (t.set i e) j ip ↔ Holds t j ip := by
  unfold Holds
  rw [List.getElem?_set_ne fun he => h he.symm]

theorem unique_init : Unique initArpEntry := by
  intro ip i j h _
  obtain ⟨e, he, hs, -⟩ := h
  rw [List.eq_of_mem_replicate (List.mem_of_getElem? he)] at hs
  cases hs

/-- One call keeps the addresses apart: the entry it writes is for an address that has
that slot already, or none. -/
theorem unique_step {t : ArpTable} (c : ArpCall) (h : Unique t) : Unique (arpStep t c) := by
  obtain ⟨r, hr, hstep⟩ := arpStep_cases t c
  have hu : Unique r.1 := fun ip i j hi hj => h ip i j (hr.holds i ip hi) (hr.holds j ip hj)
  rcases hstep with hstep | ⟨i, ethaddr, hstep, htarget⟩
  · rw [hstep]
    exact hu
  · -- no other slot holds the address of the call
    have honly : ∀ j, Holds r.1 j c.ip → j = i := by
      intro j hj
      rcases htarget with hi | ⟨hn, -⟩
      · exact hu c.ip j i hj hi
      · exact absurd hj (hr.absent hn j)
    rw [hstep]
    intro ip j k hj hk
    by_cases hji : j = i
    · subst hji
      obtain ⟨-, -, rfl⟩ := holds_set_self.mp hj
      by_cases hkj : k = j
      · exact hkj.symm
      · exact absurd (honly k ((holds_set_ne hkj).mp hk)) hkj
    · rw [holds_set_ne hji] at hj
      by_cases hki : k = i
      · subst hki
        obtain ⟨-, -, rfl⟩ := holds_set_self.mp hk
        exact honly j hj
      · rw [holds_set_ne hki] at hk
        exact hu ip j k hj hk

/-- A call that writes a slot of another address is one that takes it over. -/
theorem takenOver_of_target {t : ArpTable} {c : ArpCall} {i : Nat} {ethaddr : List Byte}
    (h : arpTarget (arpFindEntry c.now c.ip t) c.op = some (i, ethaddr))
    (hi : ¬ Holds (arpFindEntry c.now c.ip t).1 i c.ip) : TakenOver t c i := by
  have hfound := (arpFindEntry_scanned c.now c.ip t).found
  cases hop : c.op with
  | find =>
    rw [hop] at h
    cases h
  | update ethaddr' =>
    rw [hop] at h
    obtain ⟨j, hj, hp⟩ := Option.map_eq_some_iff.mp h
    cases hp
    exact absurd (hfound i hj) hi
  | add ethaddr' =>
    rw [hop] at h
    obtain ⟨j, hj, hp⟩ := Option.map_eq_some_iff.mp h
    cases hp
    -- what was found is the slot of the address itself
    cases hr : (arpFindEntry c.now c.ip t).2 with
    | some j =>
      rw [arpSlot, hr] at hj
      obtain rfl : j = i := Option.some.inj hj
      exact absurd (hfound j hr) hi
    | none =>
      rw [arpSlot, hr, Option.none_or] at hj
      exact ⟨⟨_, hop⟩, arpLookup_eq_none.mpr hr, hj⟩

/-- **One call** leaves the addresses of the others, unless it takes a slot over. -/
theorem undisturbed_unlessTaken (t : ArpTable) (c : ArpCall) : UndisturbedUnlessTaken t c := by
  have hr := arpFindEntry_scanned c.now c.ip t
  intro i e he _ hip hnot
  obtain ⟨e', he', haddr⟩ := hr.addresses i e he
  rw [arpStep_eq]
  cases h : arpTarget (arpFindEntry c.now c.ip t) c.op with
  | none => exact ⟨e', he', haddr⟩
  | some p =>
    have hij : p.1 ≠ i := by
      intro hpi
      refine hnot (@takenOver_of_target t c i p.2 (hpi ▸ h) fun hheld => ?_)
      obtain ⟨x, hx, -, hxip⟩ := hheld
      rw [he', Option.some.injEq] at hx
      exact hip (haddr.1 ▸ hx ▸ hxip)
    refine ⟨e', ?_, haddr⟩
    rw [Option.map_some, Option.getD_some, List.getElem?_set_ne hij]
    exact he'

/-- **Uniqueness**: after any calls, under any clock, each address has one slot at most,
and a call leaves the addresses in the slot of another, unless it adds an address it has not
found where its own scan has emptied that slot. -/
theorem arp_unique (cs : List ArpCall) :
    Unique (arpRun cs) ∧ ∀ c, UndisturbedUnlessTaken (arpRun cs) c :=
  ⟨List.foldlRecOn cs arpStep unique_init fun _ h c _ => unique_step c h,
    fun c => undisturbed_unlessTaken _ c⟩

/-- The hardware address of a host. -/
def hostHw (n : Byte) : List Byte := [2#8, 0#8, 0#8, 0#8, 0#8, n]

/-- An address learned at 100. With the clock back at 50 its slot is taken for expired,
and another address is written over it. -/
theorem clock_back_overwrites :
    ¬ ∀ cs, Unique (arpRun cs) ∧ ∀ c, Undisturbed (arpRun cs) c := by
  intro h
  have hstep :
      (arpStep (arpRun [⟨100, 1#32, .add (hostHw 1#8)⟩]) ⟨50, 2#32, .add (hostHw 2#8)⟩)[0]? =
      some ⟨2#32, hostHw 2#8, 50, .established⟩ := rfl
  obtain ⟨e', he', hip, -⟩ := (h [⟨100, 1#32, .add (hostHw 1#8)⟩]).2 ⟨50, 2#32, .add (hostHw 2#8)⟩ 0
    ⟨1#32, hostHw 1#8, 100, .established⟩ rfl rfl (by decide)
  rw [hstep, Option.some.injEq] at he'
  rw [← he'] at hip
  exact absurd hip (by decide)

end LinuxNet.Sip
