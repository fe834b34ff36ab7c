import LinuxNet.Lib.TimedMap
import LinuxNet.Sip.ArpTable

/-!
# The ARP cache as a map whose entries live for a while

What the cache is for: `arp_add_entry` learns an address, `update_arp_entry`
refreshes one that is known, `arp_find_entry` answers with what was learned at
most `ARP_LIVE_TIME` ago. That map, `learned`, is compared with the table, for
calls at times that do not decrease.

`arp_find_entry` calls an entry expired when its time is *ahead* of the clock, so
on a clock that goes forward no entry ever expires. The table keeps the first ten
addresses that were added, for good: they are found however old they are, and no
other ever is.
-/

namespace LinuxNet.Sip

/-- What a call means. -/
def learnStep (m : TimedMap (BitVec 32) (List Byte)) (c : ArpCall) :
    TimedMap (BitVec 32) (List Byte) :=
  match c.op with
  | .find => m
  | .update ethaddr => m.refresh arpLiveTime c.now c.ip ethaddr
  | .add ethaddr => m.learn c.now c.ip ethaddr

/-- What is learned by the calls. -/
def learned (cs : List ArpCall) : TimedMap (BitVec 32) (List Byte) :=
  cs.foldl learnStep TimedMap.empty

/-- The address a call may learn. -/
def ArpCall.teaches (c : ArpCall) : Option (BitVec 32) :=
  match c.op with
  | .find => none
  | _ => some c.ip

/-- At most ten addresses are learned in `ARP_LIVE_TIME` seconds. -/
def Sparse (cs : List ArpCall) : Prop :=
  ∀ τ, ((cs.filter fun c => τ ≤ c.now ∧ c.now ≤ τ + arpLiveTime).filterMap
    ArpCall.teaches).toFinset.card ≤ arpTableSize

/-- The address a call adds. -/
def ArpCall.adds (c : ArpCall) : Option (BitVec 32) :=
  match c.op with
  | .add _ => some c.ip
  | _ => none

/-- The first ten addresses that are added. -/
def firstAdded (cs : List ArpCall) : List (BitVec 32) :=
  (cs.filterMap ArpCall.adds).eraseDups.take arpTableSize

/-! ## The first ten -/

theorem firstAdded_skip {cs : List ArpCall} {c : ArpCall} (h : c.adds = none) :
    firstAdded (cs ++ [c]) = firstAdded cs := by
  rw [firstAdded, List.filterMap_append, List.filterMap_cons_none h]
  rw [List.filterMap_nil, List.append_nil]
  rfl

/-- An address already among the first ten, or one that comes when there are ten. -/
theorem firstAdded_known {cs : List ArpCall} {c : ArpCall} (h : c.adds = some c.ip)
    (hk : c.ip ∈ firstAdded cs ∨ arpTableSize ≤ (firstAdded cs).length) :
    firstAdded (cs ++ [c]) = firstAdded cs := by
  unfold firstAdded at hk ⊢
  rw [List.filterMap_append, List.filterMap_cons_some h, List.filterMap_nil,
    List.eraseDups_append]
  rcases hk with hk | hk
  · have hmem : c.ip ∈ cs.filterMap ArpCall.adds := List.mem_eraseDups.mp (List.mem_of_mem_take hk)
    have hnil : [c.ip].removeAll (cs.filterMap ArpCall.adds) = [] := by
      rw [List.removeAll, List.filter_cons_of_neg (by simpa using hmem), List.filter_nil]
    rw [hnil, List.eraseDups_nil, List.append_nil]
  · rw [List.length_take] at hk
    exact List.take_append_of_le_length (by omega)

/-- A new address, as long as there are not ten. -/
theorem firstAdded_new {cs : List ArpCall} {c : ArpCall} (h : c.adds = some c.ip)
    (hnew : c.ip ∉ firstAdded cs) (hroom : (firstAdded cs).length < arpTableSize) :
    firstAdded (cs ++ [c]) = firstAdded cs ++ [c.ip] := by
  unfold firstAdded at hnew hroom ⊢
  rw [List.length_take] at hroom
  have hlen : (cs.filterMap ArpCall.adds).eraseDups.length < arpTableSize := by omega
  rw [List.take_of_length_le hlen.le] at hnew ⊢
  have hmem : c.ip ∉ cs.filterMap ArpCall.adds := fun hm => hnew (List.mem_eraseDups.mpr hm)
  rw [List.filterMap_append, List.filterMap_cons_some h, List.filterMap_nil,
    List.eraseDups_append, List.removeAll, List.filter_cons_of_pos (by simpa using hmem),
    List.filter_nil]
  exact List.take_of_length_le (by rw [List.length_append]; exact hlen)

/-! ## The table follows the map -/

/-- Up to `now` the table holds these addresses, in this order and nothing behind them;
none of its times is ahead of the clock, and where the map still has a value for an
address, the table has the same. -/
structure Tracks (as : List (BitVec 32)) (m : TimedMap (BitVec 32) (List Byte)) (now : Nat)
    (t : ArpTable) : Prop where
  nodup : as.Nodup
  length : t.length = arpTableSize
  past : ∀ (i : Nat) (e : ArptArp), t[i]? = some e → e.ctime ≤ now
  slots : ∀ i a, Holds t i a ↔ as[i]? = some a
  free : ∀ (i : Nat) (e : ArptArp), t[i]? = some e → as.length ≤ i → e.status = .empty
  good : ∀ (i : Nat) (e : ArptArp), t[i]? = some e → e.status = .established →
    ∀ v, m.find arpLiveTime now e.ipaddr = some v → v = e.ethaddr

namespace Tracks

variable {as as' : List (BitVec 32)} {m m' : TimedMap (BitVec 32) (List Byte)} {now now' : Nat}
  {t : ArpTable} {ip : BitVec 32}

theorem init : Tracks [] TimedMap.empty 0 initArpEntry where
  nodup := List.nodup_nil
  length := List.length_replicate
  past := by
    intro i e he
    rw [List.eq_of_mem_replicate (List.mem_of_getElem? he)]
  slots := by
    intro i a
    refine iff_of_false (fun h => ?_) fun h => ?_
    · obtain ⟨e, he, hs, -⟩ := h
      rw [List.eq_of_mem_replicate (List.mem_of_getElem? he)] at hs
      cases hs
    · cases h
  free := by
    intro i e he _
    rw [List.eq_of_mem_replicate (List.mem_of_getElem? he)]
  good := by
    intro i e _ _ v hv
    cases hv

/-- On a clock that goes forward a scan changes nothing, and it finds the addresses the
table holds. -/
theorem scan (h : Tracks as m now t) (hnow : now ≤ now') : (arpFindEntry now' ip t).1 = t := by
  have hr := arpFindEntry_scanned now' ip t
  apply List.ext_getElem?
  intro i
  cases hi : t[i]? with
  | none => rw [List.getElem?_eq_none_iff, hr.length, ← List.getElem?_eq_none_iff, hi]
  | some e => exact hr.stays i e hi (by have := h.past i e hi; omega)

theorem found (h : Tracks as m now t) (hnow : now ≤ now') {i : Nat}
    (hi : (arpFindEntry now' ip t).2 = some i) : as[i]? = some ip := by
  have hh := (arpFindEntry_scanned now' ip t).found i hi
  rw [h.scan hnow] at hh
  exact (h.slots i ip).mp hh

theorem absent (h : Tracks as m now t) (hnow : now ≤ now')
    (hn : (arpFindEntry now' ip t).2 = none) : ip ∉ as := by
  intro hmem
  obtain ⟨i, hi⟩ := List.mem_iff_getElem?.mp hmem
  have hh := (arpFindEntry_scanned now' ip t).absent hn i
  rw [h.scan hnow] at hh
  exact hh ((h.slots i ip).mpr hi)

/-- The map may learn about addresses the table does not hold. -/
theorem ignore (h : Tracks as m now t) (hnow : now ≤ now')
    (hsame : ∀ a ∈ as, m'.find arpLiveTime now' a = m.find arpLiveTime now' a) :
    Tracks as m' now' t where
  nodup := h.nodup
  length := h.length
  past := fun i e he => (h.past i e he).trans hnow
  slots := h.slots
  free := h.free
  good := by
    intro i e he hs v hv
    rw [hsame _ (List.mem_of_getElem? ((h.slots i e.ipaddr).mp ⟨e, he, hs, rfl⟩))] at hv
    exact h.good i e he hs v (TimedMap.find_of_later hnow hv)

/-- An entry written for an address: over its own slot, or behind the others. -/
theorem write (h : Tracks as m now t) (hnow : now ≤ now') {i : Nat} {ethaddr : List Byte}
    (hi : as'[i]? = some ip) (hne : ∀ j, j ≠ i → as'[j]? = as[j]?) (hlen : as.length ≤ as'.length)
    (hnodup : as'.Nodup) (hsize : i < arpTableSize)
    (hself : ∀ v, m'.find arpLiveTime now' ip = some v → v = ethaddr)
    (hother : ∀ a, a ≠ ip → m'.find arpLiveTime now' a = m.find arpLiveTime now' a) :
    Tracks as' m' now' (t.set i ⟨ip, ethaddr, now', .established⟩) := by
  have hit : i < t.length := h.length ▸ hsize
  -- the slot that is written, and every other
  have hset : ∀ (j : Nat) (e : ArptArp), (t.set i ⟨ip, ethaddr, now', .established⟩)[j]? = some e →
      (j = i ∧ e = ⟨ip, ethaddr, now', .established⟩) ∨ (j ≠ i ∧ t[j]? = some e) := by
    intro j e he
    by_cases hj : j = i
    · subst hj
      rw [List.getElem?_set_self hit, Option.some.injEq] at he
      exact .inl ⟨rfl, he.symm⟩
    · rw [List.getElem?_set_ne fun hc => hj hc.symm] at he
      exact .inr ⟨hj, he⟩
  refine ⟨hnodup, (List.length_set ..).trans h.length, fun j e he => ?_, fun j a => ?_,
    fun j e he hj => ?_,
    fun j e he hs v hv => ?_⟩
  · rcases hset j e he with ⟨-, rfl⟩ | ⟨-, he⟩
    · exact Nat.le_refl _
    · exact (h.past j e he).trans hnow
  · by_cases hj : j = i
    · subst hj
      rw [holds_set_self, hi, Option.some.injEq]
      exact ⟨fun hh => hh.2.2, fun hh => ⟨hit, rfl, hh⟩⟩
    · rw [holds_set_ne hj, hne j hj]
      exact h.slots j a
  · rcases hset j e he with ⟨rfl, -⟩ | ⟨-, he⟩
    · have := (List.getElem?_eq_some_iff.mp hi).1
      omega
    · exact h.free j e he (hlen.trans hj)
  · rcases hset j e he with ⟨-, rfl⟩ | ⟨hj, he⟩
    · exact hself v hv
    · -- another slot has another address
      have hslot := (h.slots j e.ipaddr).mp ⟨e, he, hs, rfl⟩
      have ha : e.ipaddr ≠ ip := by
        intro hc
        rw [← hne j hj, hc, ← hi] at hslot
        have hlt := (List.getElem?_eq_some_iff.mp hi).1
        exact hj ((List.getElem?_inj hlt hnodup).mp hslot.symm).symm
      rw [hother _ ha] at hv
      exact h.good j e he hs v (TimedMap.find_of_later hnow hv)

/-- An entry written over the slot its address has. -/
theorem rewrite (h : Tracks as m now t) (hnow : now ≤ now') {i : Nat} {ethaddr : List Byte}
    (hi : as[i]? = some ip)
    (hself : ∀ v, m'.find arpLiveTime now' ip = some v → v = ethaddr)
    (hother : ∀ a, a ≠ ip → m'.find arpLiveTime now' a = m.find arpLiveTime now' a) :
    Tracks as m' now' (t.set i ⟨ip, ethaddr, now', .established⟩) := by
  obtain ⟨e, he, -⟩ := (h.slots i ip).mpr hi
  have hit : i < t.length := (List.getElem?_eq_some_iff.mp he).1
  exact h.write hnow hi (fun _ _ => rfl) (Nat.le_refl _) h.nodup (h.length ▸ hit) hself hother

/-- The first empty slot is the one behind the addresses the table holds. -/
theorem emptySlot (h : Tracks as m now t) :
    t.findIdx? (·.status = .empty) = if as.length < arpTableSize then some as.length else none := by
  -- the slots in front are established, so they are not empty
  have hused : ∀ (j : Nat) (e : ArptArp), t[j]? = some e → j < as.length → e.status ≠ .empty := by
    intro j e he hj hempty
    obtain ⟨e', he', hs, -⟩ := (h.slots j as[j]).mpr (List.getElem?_eq_getElem hj)
    rw [he, Option.some.injEq] at he'
    rw [← he', hempty] at hs
    cases hs
  split
  next hroom =>
    have hlt : as.length < t.length := h.length ▸ hroom
    refine List.findIdx?_eq_some_iff_getElem.mpr ⟨hlt, ?_, fun j hj => ?_⟩
    · exact decide_eq_true (h.free _ _ (List.getElem?_eq_getElem hlt) (Nat.le_refl _))
    · have := hused j _ (List.getElem?_eq_getElem (hj.trans hlt)) hj
      simpa using this
  next hroom =>
    refine List.findIdx?_eq_none_iff.mpr fun e he => ?_
    obtain ⟨j, hj⟩ := List.mem_iff_getElem?.mp he
    have hlt := (List.getElem?_eq_some_iff.mp hj).1
    have := hused j e hj (by have := h.length; omega)
    simpa using this

/-- A new address takes the first empty slot. -/
theorem append (h : Tracks as m now t) (hnow : now ≤ now') {ethaddr : List Byte}
    (hip : ip ∉ as) (hroom : as.length < arpTableSize)
    (hself : ∀ v, m'.find arpLiveTime now' ip = some v → v = ethaddr)
    (hother : ∀ a, a ≠ ip → m'.find arpLiveTime now' a = m.find arpLiveTime now' a) :
    Tracks (as ++ [ip]) m' now' (t.set as.length ⟨ip, ethaddr, now', .established⟩) := by
  apply h.write hnow _ _ _ _ hroom hself hother
  · rw [List.getElem?_append_right (Nat.le_refl _), Nat.sub_self]
    rfl
  · intro j hj
    rcases Nat.lt_or_gt_of_ne hj with hlt | hgt
    · exact List.getElem?_append_left hlt
    · rw [List.getElem?_eq_none (by rw [List.length_append]; exact hgt),
        List.getElem?_eq_none hgt.le]
  · rw [List.length_append]
    exact Nat.le_add_right _ _
  · rw [List.nodup_append]
    refine ⟨h.nodup, List.nodup_singleton ip, fun a ha b hb hc => ?_⟩
    exact hip (List.mem_singleton.mp hb ▸ hc ▸ ha)

end Tracks

/-! ## Whole runs -/

/-- **One call** at a time that is not before the last one's. -/
theorem arpStep_tracks {cs : List ArpCall} {c : ArpCall} {now : Nat} {t : ArpTable}
    (h : Tracks (firstAdded cs) (learned cs) now t) (hnow : now ≤ c.now) :
    Tracks (firstAdded (cs ++ [c])) (learned (cs ++ [c])) c.now (arpStep t c) := by
  have hlearn : learned (cs ++ [c]) = learnStep (learned cs) c := List.foldl_append ..
  rw [hlearn, arpStep_eq, h.scan hnow]
  cases hop : c.op with
  | find =>
    rw [firstAdded_skip (by rw [ArpCall.adds, hop]), learnStep, hop]
    exact h.ignore hnow fun _ _ => rfl
  | update ethaddr =>
    rw [firstAdded_skip (by rw [ArpCall.adds, hop]), learnStep, hop]
    show Tracks _ ((learned cs).refresh arpLiveTime c.now c.ip ethaddr) _ _
    unfold arpTarget
    cases hr : (arpFindEntry c.now c.ip t).2 with
    | none =>
      -- the map may still know the address, but the table does not hold it
      refine h.ignore hnow fun a ha => TimedMap.find_refresh_ne fun hc => ?_
      exact h.absent hnow hr (hc ▸ ha)
    | some i =>
      exact h.rewrite hnow (h.found hnow hr) (fun v hv => TimedMap.find_refresh_self hv)
        fun a ha => TimedMap.find_refresh_ne ha
  | add ethaddr =>
    have hadds : c.adds = some c.ip := by rw [ArpCall.adds, hop]
    have hself : ∀ v, ((learned cs).learn c.now c.ip ethaddr).find arpLiveTime c.now c.ip = some v →
        v = ethaddr := by
      intro v hv
      rw [TimedMap.find_learn_self] at hv
      exact (Option.some.inj hv).symm
    rw [learnStep, hop]
    show Tracks _ ((learned cs).learn c.now c.ip ethaddr) _ _
    rw [arpTarget, arpSlot, h.scan hnow]
    cases hr : (arpFindEntry c.now c.ip t).2 with
    | some i =>
      have hi := h.found hnow hr
      rw [firstAdded_known hadds (.inl (List.mem_of_getElem? hi))]
      exact h.rewrite hnow hi hself fun a ha => TimedMap.find_learn_ne ha
    | none =>
      have hip := h.absent hnow hr
      rw [Option.none_or, h.emptySlot]
      split
      next hroom =>
        -- a new address, and an empty slot for it
        rw [firstAdded_new hadds hip hroom]
        exact h.append hnow hip hroom hself fun a ha => TimedMap.find_learn_ne ha
      next hfull =>
        -- the table is full, and the address is dropped
        rw [firstAdded_known hadds (.inr (Nat.le_of_not_lt hfull))]
        refine h.ignore hnow fun a ha => TimedMap.find_learn_ne fun hc => ?_
        exact hip (hc ▸ ha)

/-- The calls, made at times that do not decrease, up to `now`. -/
theorem arpRun_tracks (cs : List ArpCall) : ∀ now,
    (cs.map ArpCall.now ++ [now]).Pairwise (· ≤ ·) →
      Tracks (firstAdded cs) (learned cs) now (arpRun cs) := by
  -- from the back: the last call meets the table of the others
  induction cs using List.reverseRecOn with
  | nil =>
    intro now _
    exact Tracks.init.ignore (Nat.zero_le now) fun _ ha => absurd ha List.not_mem_nil
  | append_singleton cs c ih =>
    intro now hmono
    rw [List.map_append] at hmono
    obtain ⟨hpast, -, hlast⟩ := List.pairwise_append.mp hmono
    have hstep := arpStep_tracks (ih c.now hpast) (Nat.le_refl _)
    have hrun : arpRun (cs ++ [c]) = arpStep (arpRun cs) c := List.foldl_append ..
    rw [hrun]
    refine hstep.ignore (hlast c.now ?_ now (List.mem_singleton.mpr rfl)) fun _ _ => rfl
    exact List.mem_append_right _ (List.mem_singleton.mpr rfl)

/-- What a lookup answers: the hardware address in the slot of one of the first ten
addresses. -/
theorem Tracks.lookup {as : List (BitVec 32)} {m : TimedMap (BitVec 32) (List Byte)} {now : Nat}
    {t : ArpTable} (h : Tracks as m now t) (ip : BitVec 32) :
    (ip ∉ as ∧ arpLookup now ip t = none) ∨
      (ip ∈ as ∧ ∃ ethaddr, arpLookup now ip t = some ethaddr ∧
        ∀ v, m.find arpLiveTime now ip = some v → v = ethaddr) := by
  have hle := Nat.le_refl now
  unfold arpLookup
  dsimp only
  rw [h.scan hle]
  cases hr : (arpFindEntry now ip t).2 with
  | none => exact .inl ⟨h.absent hle hr, rfl⟩
  | some i =>
    have hi := h.found hle hr
    obtain ⟨e, he, hs, rfl⟩ := (h.slots i ip).mpr hi
    refine .inr ⟨List.mem_of_getElem? hi, e.ethaddr, ?_, h.good i e he hs⟩
    rw [Option.bind_some, he]
    rfl

/-- **The cache as a time-bounded map**: for calls and a lookup at times that do not
decrease, the lookup answers as the map does exactly if the address is one of the
first ten that were added just when it was learned at most `ARP_LIVE_TIME` ago. -/
theorem arpLookup_eq_find_iff {cs : List ArpCall} {ip : BitVec 32} {now : Nat}
    (hmono : (cs.map ArpCall.now ++ [now]).Pairwise (· ≤ ·)) :
    arpLookup now ip (arpRun cs) = (learned cs).find arpLiveTime now ip ↔
      ((learned cs).Fresh arpLiveTime now ip ↔ ip ∈ firstAdded cs) := by
  rcases (arpRun_tracks cs now hmono).lookup ip with ⟨hip, hl⟩ | ⟨hip, ethaddr, hl, hgood⟩
  · rw [hl, eq_comm, TimedMap.find_eq_none]
    exact (iff_false_right hip).symm
  · rw [hl, iff_true_right hip, TimedMap.fresh_iff]
    constructor
    · intro h
      exact ⟨ethaddr, h.symm⟩
    · intro h
      obtain ⟨v, hv⟩ := h
      rw [hv, hgood v hv]

/-- Learned at 0 and refreshed at 10, an address is found at 30. -/
theorem refreshed_found :
    let cs : List ArpCall := [⟨0, 1#32, .add (hostHw 1#8)⟩, ⟨5, 2#32, .add (hostHw 2#8)⟩,
      ⟨10, 1#32, .update (hostHw 3#8)⟩]
    arpLookup 30 1#32 (arpRun cs) = (learned cs).find arpLiveTime 30 1#32 :=
  (arpLookup_eq_find_iff (by decide)).mpr
    (iff_of_true ⟨(hostHw 3#8, 10), rfl, by decide⟩ (by decide))

/-- Ten addresses at time 0. -/
def crowd : List ArpCall :=
  (List.range 10).map fun i => ⟨0, BitVec.ofNat 32 (i + 1), .add (hostHw (BitVec.ofNat 8 (i + 1)))⟩

/-- A few calls that are made in time. -/
theorem sparse_of_length {cs : List ArpCall}
    (h : ∀ τ, (cs.filter fun c => τ ≤ c.now ∧ c.now ≤ τ + arpLiveTime).length ≤ arpTableSize) :
    Sparse cs := fun τ =>
  (List.toFinset_card_le _).trans ((List.length_filterMap_le ..).trans (h τ))

/-- An address learned at 0 is still found at 21. And behind ten addresses learned at 0
an eleventh, learned at 21, is not found. -/
theorem entry_never_expires :
    let one : List ArpCall := [⟨0, 1#32, .add (hostHw 1#8)⟩]
    let eleven := crowd ++ [⟨21, 11#32, .add (hostHw 11#8)⟩]
    (Sparse one ∧ arpLookup 21 1#32 (arpRun one) = some (hostHw 1#8) ∧
        (learned one).find arpLiveTime 21 1#32 = none) ∧
      (Sparse eleven ∧ arpLookup 21 11#32 (arpRun eleven) = none ∧
        (learned eleven).find arpLiveTime 21 11#32 = some (hostHw 11#8)) ∧
      ¬ ∀ cs ip now, (cs.map ArpCall.now ++ [now]).Pairwise (· ≤ ·) → Sparse cs →
        arpLookup now ip (arpRun cs) = (learned cs).find arpLiveTime now ip := by
  -- one call at most is ever counted in a list of one
  have hone : Sparse [⟨0, 1#32, .add (hostHw 1#8)⟩] :=
    sparse_of_length fun τ => (List.length_filter_le ..).trans (by decide)
  refine ⟨⟨hone, rfl, rfl⟩, ⟨sparse_of_length fun τ => ?_, rfl, rfl⟩, fun h => ?_⟩
  · rw [List.filter_append, List.length_append]
    by_cases hτ : τ = 0
    · -- the eleventh comes too late to count
      subst hτ
      exact Nat.add_le_add (List.length_filter_le _ crowd) (Nat.le_refl 0)
    · have hcrowd : crowd.filter (fun c => τ ≤ c.now ∧ c.now ≤ τ + arpLiveTime) = [] := by
        rw [List.filter_eq_nil_iff]
        intro c hc
        obtain ⟨i, -, rfl⟩ := List.mem_map.mp hc
        simp only [decide_eq_true_eq]
        omega
      rw [hcrowd, List.length_nil, Nat.zero_add]
      exact (List.length_filter_le ..).trans (show 1 ≤ 10 by decide)
  · have := h _ 1#32 21 (by decide) hone
    exact absurd this (by decide)

end LinuxNet.Sip
