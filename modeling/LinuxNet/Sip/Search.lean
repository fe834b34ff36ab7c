import LinuxNet.Lib.Linked
import LinuxNet.Sip.Reassembly

/-!
# The search of `sip_reassemble`

The search owes its caller a swept list: of the entries in front of the one it
finds, those that have expired are freed, and all others are kept, in their
order (`SearchedWell`). It does this on an empty list, and on a list whose first
entry is the one to be found (`searchesWell_iff`). An expired entry at the
front is read after it has been freed, and an entry at the front that is not
the one is looked at for ever, since only the branch that frees moves on.
-/

namespace LinuxNet.Sip

namespace ReassState

/-- The pointer in the cell at `p`. -/
def link (st : ReassState) (p : Nat) : Option (Option Nat) := (st.cell p).map (·.next)

/-- The entry at `p` is older than `IPREASS_TIMEOUT`. -/
def isExpired (st : ReassState) (now : Nat) (p : Nat) : Bool :=
  ((st.cell p).map (expired now)).getD false

/-- The entry at `p` has not expired and has the key of the fragment. -/
def isMatch (st : ReassState) (now : Nat) (skb : Skbuff) (p : Nat) : Bool :=
  ((st.cell p).map fun e => !expired now e && sameKey e skb).getD false

/-- The entries in front of the one that is looked for. -/
def passed (st : ReassState) (now : Nat) (skb : Skbuff) (l : List Nat) : List Nat :=
  l.takeWhile fun p => !st.isMatch now skb p

/-- The list without the expired entries that were passed. -/
def swept (st : ReassState) (now : Nat) (skb : Skbuff) (l : List Nat) : List Nat :=
  (st.passed now skb l).filter (fun p => !st.isExpired now p) ++
    l.dropWhile fun p => !st.isMatch now skb p

end ReassState

/-- What the search owes: the entry that is looked for, the swept list, and no other entry
touched but for its pointer. -/
structure SearchedWell (now : Nat) (skb : Skbuff) (st : ReassState) (l : List Nat)
    (st' : ReassState) (found : Option Nat) : Prop where
  found : found = l.find? (st.isMatch now skb)
  list : Linked st'.link st'.list (st.swept now skb l)
  freed : ∀ p ∈ st.passed now skb l, st.isExpired now p = true → st'.cell p = none
  kept : ∀ p, ¬ (p ∈ st.passed now skb l ∧ st.isExpired now p = true) →
    ∃ next : Option Nat, st'.cell p = (st.cell p).map fun e => { e with next := next }

/-- The search comes to an end, and has done what it owes. -/
def SearchesWell (now : Nat) (skb : Skbuff) (st : ReassState) (l : List Nat) : Prop :=
  ∃ fuel st' prev found, searchLoop now skb fuel st st.list st.list = .ok (st', prev, found) ∧
    SearchedWell now skb st l st' found

/-- The first entry is there, has not expired and has the key of the fragment. -/
def FirstMatches (now : Nat) (skb : Skbuff) (st : ReassState) : Prop :=
  ∃ p e, st.list = some p ∧ st.cell p = some e ∧ expired now e = false ∧ sameKey e skb = true

section Search

variable {now : Nat} {skb : Skbuff} {st : ReassState} {l : List Nat}

/-- The search gets through only if there is nothing to search, or nothing in front of the entry
that is looked for; it then leaves everything as it is. -/
theorem searchLoop_ok {fuel : Nat} {st' : ReassState} {prev found : Option Nat}
    (h : searchLoop now skb fuel st st.list st.list = .ok (st', prev, found)) :
    (st.list = none ∨ FirstMatches now skb st) ∧ st' = st ∧ found = st.list := by
  cases fuel with
  | zero => cases h
  | succ fuel =>
    rw [searchLoop_list] at h
    cases hl : st.list with
    | none =>
      rw [hl] at h
      cases h
      exact ⟨.inl rfl, rfl, rfl⟩
    | some p =>
      rw [hl] at h
      dsimp only at h
      cases hc : st.cell p with
      | none =>
        rw [hc] at h
        cases h
      | some e =>
        rw [hc] at h
        dsimp only at h
        split at h
        next => cases h
        next hx =>
          split at h
          next hk =>
            cases h
            exact ⟨.inr ⟨p, e, hl, hc, Bool.eq_false_iff.mpr hx, hk⟩, rfl, rfl⟩
          next => cases h

/-- A cell that has not been touched. -/
theorem same_next (st : ReassState) (p : Nat) :
    ∃ next : Option Nat, st.cell p = (st.cell p).map fun e => { e with next := next } := by
  cases h : st.cell p with
  | none => exact ⟨none, rfl⟩
  | some e => exact ⟨e.next, rfl⟩

/-- A list whose first entry matches is left as it is. -/
theorem searchedWell_first (hl : Linked st.link st.list l) (h : FirstMatches now skb st) :
    SearchedWell now skb st l st st.list := by
  obtain ⟨p, e, hlist, hcell, hx, hk⟩ := h
  cases l with
  | nil => exact absurd (hl.symm.trans hlist) (Option.some_ne_none p).symm
  | cons q l =>
    have hq : q = p := Option.some.inj (hl.1.symm.trans hlist)
    subst hq
    have hmatch : st.isMatch now skb q = true := by
      simp [ReassState.isMatch, hcell, hx, hk]
    have hpassed : st.passed now skb (q :: l) = [] := by
      rw [ReassState.passed, List.takeWhile_cons_of_neg (by simp [hmatch])]
    refine ⟨?_, ?_, fun p hp => ?_, fun p _ => same_next st p⟩
    · rw [List.find?_cons_of_pos hmatch, hlist]
    · rw [ReassState.swept, hpassed, List.dropWhile_cons_of_neg (by simp [hmatch])]
      exact hl
    · rw [hpassed] at hp
      cases hp

/-- **When the search does what it owes**: for every finite list, clock and fragment. -/
theorem searchesWell_iff (hl : Linked st.link st.list l) :
    SearchesWell now skb st l ↔ l = [] ∨ FirstMatches now skb st := by
  constructor
  · rintro ⟨fuel, st', prev, found, hrun, -⟩
    obtain ⟨hcond, -, -⟩ := searchLoop_ok hrun
    refine hcond.imp_left fun hnil => ?_
    cases l with
    | nil => rfl
    | cons p l => exact absurd (hl.1.symm.trans hnil) (Option.some_ne_none p)
  · rintro (rfl | h)
    · have hnone : st.list = none := hl
      have hrun := searchLoop_list now skb st 0
      rw [hnone] at hrun
      refine ⟨1, st, none, none, ?_, rfl, hl, fun p hp => ?_, fun p _ => same_next st p⟩
      · rw [hnone]
        exact hrun
      · cases hp
    · have hwell := searchedWell_first hl h
      obtain ⟨p, e, hlist, hcell, hx, hk⟩ := h
      have hrun := searchLoop_list now skb st 0
      rw [hlist] at hrun
      dsimp only at hrun
      rw [hcell] at hrun
      dsimp only at hrun
      rw [hx, if_neg Bool.false_ne_true, if_pos hk] at hrun
      refine ⟨1, st, some p, some p, ?_, hlist ▸ hwell⟩
      rw [hlist]
      exact hrun

end Search

/-- A queue of two: the address in the header of the first is 1.0.0.0, in that of the second
0.0.0.0. -/
def twoEntries : ReassState where
  list := some 0
  cell p :=
    if p = 0 then some ⟨some 1, [], Mem.zero.write 12 [1#8], 0#16, 0#8, 0#8⟩
    else if p = 1 then some ⟨none, [], Mem.zero, 0#16, 0#8, 0#8⟩
    else none
  brk := 2

/-- A fragment with this in the first octet of its source address. -/
def fragmentFrom (b : Byte) : Skbuff := { skbAlloc 20 with mem := Mem.zero.write 12 [b] }

theorem twoEntries_linked : Linked twoEntries.link twoEntries.list [0, 1] :=
  ⟨rfl, some 1, rfl, rfl, none, rfl, rfl⟩

theorem twoEntries_first :
    Linked twoEntries.link twoEntries.list [0, 1] ∧
      SearchesWell 2 (fragmentFrom 1#8) twoEntries [0, 1] :=
  ⟨twoEntries_linked,
    (searchesWell_iff twoEntries_linked).mpr (.inr ⟨0, _, rfl, rfl, by decide, by decide⟩)⟩

/-- The entry of this fragment is the second, and the search does not get there. -/
theorem twoEntries_second :
    Linked twoEntries.link twoEntries.list [0, 1] ∧
      ¬ SearchesWell 2 (fragmentFrom 0#8) twoEntries [0, 1] := by
  refine ⟨twoEntries_linked, ?_⟩
  rintro ⟨fuel, st', prev, found, hrun, -⟩
  cases fuel with
  | zero => cases hrun
  | succ fuel =>
    have hdiverges : searchLoop 2 (fragmentFrom 0#8) (fuel + 1) twoEntries (some 0) (some 0) =
        .error .diverges := rfl
    have herror := hdiverges.symm.trans hrun
    cases herror

end LinuxNet.Sip
