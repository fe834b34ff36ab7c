import LinuxNet.Sip.UdpSteps

/-!
# Taking a control block out of its bucket

`SIP_UDPRemove` looks for the block behind the others of its bucket and frees it. The
loop does not stop where it has found it: it goes on through the link it has just
written, which is NULL if the block was the last one, and its test reads through that.
Nor does it look into another bucket, which may lead to the block as well, and then leads to
one that has been freed. `udpRemove_iff` says that these are the only cases in which the block is
not taken out as it should be. The list of the bucket may be any list, and the table need not be
in order otherwise.
-/

namespace LinuxNet.Sip

open UdpState

/-- What a block holds besides its place in a list. -/
def UdpPcb.unlinked (c : UdpPcb) : UdpPcb := { c with next := none }

/-- The block is taken out of the list `l` of the bucket `b` and freed; the rest of the
list is in its order, what the others hold is as it was, and so are the other buckets. -/
structure TakenOut (st st' : UdpState) (p b : Nat) (l : List Nat) : Prop where
  bucket : Linked st'.link (st'.table b) (l.erase p)
  freed : st'.pcb p = none
  heads : ∀ k, k ≠ b → st'.table k = st.table k
  lists : ∀ k < udpHtableSize, k ≠ b → ∀ l', Linked st.link (st.table k) l' →
    Linked st'.link (st'.table k) l'
  cells : ∀ q, q ≠ p → q ∉ l → st'.pcb q = st.pcb q
  held : ∀ q, q ≠ p → (st'.pcb q).map UdpPcb.unlinked = (st.pcb q).map UdpPcb.unlinked

/-- No bucket but `b` leads to the block. -/
def OnlyIn (st : UdpState) (p b : Nat) : Prop :=
  ∀ k < udpHtableSize, k ≠ b → ∀ l', Linked st.link (st.table k) l' → p ∉ l'

section Remove

variable {st st' : UdpState} {p b : Nat} {c : UdpPcb} {l : List Nat}

/-- The other buckets lead neither to the block nor to the one in front of it. -/
theorem TakenOut.mk' (honly : OnlyIn st p b) (bucket : Linked st'.link (st'.table b) (l.erase p))
    (freed : st'.pcb p = none) (heads : ∀ k, k ≠ b → st'.table k = st.table k)
    (links : ∀ q, q ≠ p → st.link q ≠ some (some p) → st'.link q = st.link q)
    (cells : ∀ q, q ≠ p → q ∉ l → st'.pcb q = st.pcb q)
    (held : ∀ q, q ≠ p → (st'.pcb q).map UdpPcb.unlinked = (st.pcb q).map UdpPcb.unlinked) :
    TakenOut st st' p b l where
  bucket := bucket
  freed := freed
  heads := heads
  lists k hlt hk l' hl' := by
    have hp := honly k hlt hk l' hl'
    rw [heads k hk]
    refine hl'.congr fun q hq => links q (fun he => hp (he ▸ hq)) fun hn => ?_
    exact hp (hl'.next_mem hq hn)
  cells := cells
  held := held

/-- A block that another bucket leads to is not taken out of it. -/
theorem TakenOut.onlyIn (h : TakenOut st st' p b l) : OnlyIn st p b := by
  intro k hlt hk l' hl' hp
  obtain ⟨next, hn⟩ := (h.lists k hlt hk l' hl').live p hp
  rw [link, h.freed] at hn
  cases hn

/-- A block that is not in the list. -/
theorem takenOut_absent (honly : OnlyIn st p b) (hl : Linked st.link (st.table b) l) (hp : p ∉ l) :
    TakenOut st (st.free p) p b l := by
  have hne : ∀ q ∈ l, q ≠ p := fun q hq he => hp (he ▸ hq)
  refine .mk' honly ?_ (pcb_free_self ..) (fun _ _ => rfl) (fun q hq _ => link_free_ne hq st)
    (fun q hq _ => pcb_free_ne hq st) fun q hq => by rw [pcb_free_ne hq]
  rw [List.erase_of_not_mem hp]
  exact hl.congr fun q hq => link_free_ne (hne q hq) st

/-- The block at the head. -/
theorem takenOut_head (honly : OnlyIn st p b) {rest : List Nat} (hnot : p ∉ rest)
    (hrest : Linked st.link c.next rest) :
    TakenOut st (({ st with table := Function.update st.table b c.next } : UdpState).free p)
      p b (p :: rest) := by
  have hne : ∀ q ∈ rest, q ≠ p := fun q hq he => hnot (he ▸ hq)
  refine .mk' honly ?_ (pcb_free_self ..) (fun k hk => Function.update_of_ne hk ..)
    (fun q hq _ => link_free_ne hq _) (fun q hq _ => pcb_free_ne hq _)
    fun q hq => by rw [pcb_free_ne hq]
  rw [List.erase_cons_head]
  show Linked _ (Function.update st.table b c.next b) rest
  rw [Function.update_self]
  exact hrest.congr fun q hq => link_free_ne (hne q hq) _

/-- The block behind another. -/
theorem takenOut_behind (honly : OnlyIn st p b) (h : st.pcb p = some c) {pre post : List Nat}
    {q : Nat} {d : UdpPcb}
    (hl : Linked st.link (st.table b) (pre ++ q :: p :: post)) (hd : st.pcb q = some d) :
    TakenOut st ((st.write q { d with next := c.next }).free p) p b (pre ++ q :: p :: post) := by
  have hnodup := hl.nodup
  have hbehind := (List.nodup_append.mp hnodup).2.1
  have hpq : q ≠ p := fun he => (List.nodup_cons.mp hbehind).1 (he ▸ List.mem_cons_self ..)
  have hpre : p ∉ pre := fun hm =>
    List.disjoint_of_nodup_append hnodup hm (List.mem_cons_of_mem _ (List.mem_cons_self ..))
  have herase : (pre ++ q :: p :: post).erase p = pre ++ q :: post := by
    rw [List.erase_append_right _ hpre, List.erase_cons_tail (by simpa using hpq),
      List.erase_cons_head]
  have hother : ∀ r, r ≠ q → r ≠ p →
      ((st.write q { d with next := c.next }).free p).pcb r = st.pcb r := fun r hrq hrp => by
    rw [pcb_free_ne hrp, pcb_write_ne hrq]
  have hfront : st.link q = some (some p) := by
    obtain ⟨-, next, hn, hnext⟩ := hl.suffix
    rw [hn, hnext.1]
  refine .mk' honly ?_ (pcb_free_self ..) (fun _ _ => rfl)
    (fun r hrp hr => by rw [link, link, hother r (fun he => hr (he ▸ hfront)) hrp])
    (fun r hrp hr => hother r (fun he => hr (he ▸ by simp)) hrp) fun r hrp => ?_
  · rw [herase]
    refine hl.unlink ?_ fun r hrq hrp => by rw [link, link, hother r hrq hrp]
    rw [link_free_ne hpq, link_eq (pcb_write_self ..), link_eq h]
  · by_cases hrq : r = q
    · subst hrq
      rw [pcb_free_ne hrp, pcb_write_self, hd]
      rfl
    · rw [hother r hrq hrp]

/-- A list of blocks that are there is shorter than the fuel. -/
theorem length_lt_fuel (hfresh : ∀ q, st.brk ≤ q → st.pcb q = none) {h : Option Nat}
    (hl : Linked st.link h l) : l.length < st.fuel := by
  refine Nat.lt_succ_of_le (hl.length_le fun q hq => ?_)
  by_contra hlt
  obtain ⟨next, hn⟩ := hl.live q hq
  obtain ⟨d, hd, -⟩ := link_cases hn
  rw [hfresh q (Nat.le_of_not_lt hlt)] at hd
  cases hd

/-- **`SIP_UDPRemove`** takes a block out of its bucket exactly if it is not the last of a
list of two or more, and no other bucket leads to it. -/
theorem udpRemove_iff (hfresh : ∀ q, st.brk ≤ q → st.pcb q = none) (h : st.pcb p = some c)
    (hl : Linked st.link (st.table (c.portLocal.toNat % udpHtableSize)) l) :
    (∃ st', st.udpRemove (some p) = .ok st' ∧
        TakenOut st st' p (c.portLocal.toNat % udpHtableSize) l) ↔
      (l.getLast? = some p → l = [p]) ∧ OnlyIn st p (c.portLocal.toNat % udpHtableSize) := by
  by_cases honly : OnlyIn st p (c.portLocal.toNat % udpHtableSize)
  case neg => exact iff_of_false (fun ⟨_, _, hout⟩ => honly hout.onlyIn) fun h => honly h.2
  rw [and_iff_left honly]
  rcases udpRemove_cases h hl (length_lt_fuel hfresh hl) with
    ⟨hnot, he⟩ | ⟨rest, rfl, hrest, he⟩ | ⟨pre, q, d, post, rfl, hd, he⟩
  · refine iff_of_true ⟨_, he, takenOut_absent honly hl hnot⟩ fun hlast => ?_
    exact absurd (List.mem_of_getLast? hlast) hnot
  · have hnot := (List.nodup_cons.mp hl.nodup).1
    refine iff_of_true ⟨_, he, takenOut_head honly hnot hrest⟩ fun hlast => ?_
    cases rest with
    | nil => rfl
    | cons r rest =>
      rw [List.getLast?_cons_cons] at hlast
      exact absurd (List.mem_of_getLast? hlast) hnot
  · rw [he]
    by_cases hpost : post = []
    · subst hpost
      rw [if_pos rfl]
      refine iff_of_false (fun hok => ?_) fun hsingle => ?_
      · obtain ⟨st', hok, -⟩ := hok
        cases hok
      · have hlen := congrArg List.length (hsingle (by simp))
        simp at hlen
    · rw [if_neg hpost]
      refine iff_of_true ⟨_, rfl, takenOut_behind honly h hl hd⟩ fun hlast => ?_
      have hbehind := (List.nodup_append.mp hl.nodup).2.1
      have hnot := (List.nodup_cons.mp (List.nodup_cons.mp hbehind).2).1
      obtain ⟨r, post, rfl⟩ := List.exists_cons_of_ne_nil hpost
      rw [List.getLast?_append_cons, List.getLast?_cons_cons, List.getLast?_cons_cons] at hlast
      exact absurd (List.mem_of_getLast? hlast) hnot

/-- Two blocks bound to port 5, the second in front of the first. -/
def twoBound : UdpState where
  pcb := Function.update
    (Function.update (fun _ => none) 0 (some ⟨0#32, 0#32, 255#8, none, 0#8, 5#16, 0#16, none⟩))
    1 (some ⟨0#32, 0#32, 255#8, some 0, 0#8, 5#16, 0#16, none⟩)
  table := Function.update (fun _ => none) 5 (some 1)
  index := 0#32
  brk := 2

theorem twoBound_fresh : ∀ q, twoBound.brk ≤ q → twoBound.pcb q = none := by
  intro q hq
  have h1 : q ≠ 1 := Nat.ne_of_gt (Nat.lt_of_lt_of_le (by decide) hq)
  have h0 : q ≠ 0 := Nat.ne_of_gt (Nat.lt_of_lt_of_le (by decide) hq)
  exact (Function.update_of_ne h1 ..).trans (Function.update_of_ne h0 ..)

theorem twoBound_linked : Linked twoBound.link (twoBound.table 5) [1, 0] :=
  ⟨rfl, some 0, rfl, rfl, none, rfl, rfl⟩

/-- No other bucket leads anywhere. -/
theorem twoBound_only (p : Nat) : OnlyIn twoBound p 5 := by
  intro k _ hk l' hl'
  have hhead : twoBound.table k = none :=
    show Function.update (fun _ => none) 5 (some 1) k = none from Function.update_of_ne hk ..
  rw [hhead] at hl'
  cases l' with
  | nil => exact List.not_mem_nil
  | cons q l' => cases hl'.1

/-- The one in front can be removed. -/
theorem udpRemove_iff_front : ∃ st', twoBound.udpRemove (some 1) = .ok st' ∧
    TakenOut twoBound st' 1 5 [1, 0] :=
  (udpRemove_iff (p := 1) twoBound_fresh rfl twoBound_linked).mpr ⟨by decide, twoBound_only 1⟩

/-- The one behind it cannot. -/
theorem udpRemove_last : ¬∀ (st : UdpState) (p : Nat) (c : UdpPcb) (l : List Nat),
    (∀ q, st.brk ≤ q → st.pcb q = none) → st.pcb p = some c →
    Linked st.link (st.table (c.portLocal.toNat % udpHtableSize)) l →
      ∃ st', st.udpRemove (some p) = .ok st' ∧
        TakenOut st st' p (c.portLocal.toNat % udpHtableSize) l := by
  intro h
  obtain ⟨st', hok, -⟩ := h twoBound 0 _ _ twoBound_fresh rfl twoBound_linked
  have he : twoBound.udpRemove (some 0) = .error .nullDeref := rfl
  rw [he] at hok
  cases hok

end Remove

end LinuxNet.Sip
