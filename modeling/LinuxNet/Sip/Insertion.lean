import LinuxNet.Lib.Extents
import LinuxNet.Sip.Reassembly

/-!
# Putting a fragment into its entry

The list of an entry is meant to be ordered: each fragment has its extent of the
payload, and behind it comes a fragment that starts later and does not overlap it.
To insert a fragment into such a list is to make an ordered list that covers its
extent too (`InsertedWell`).

What the insertion loop does is decided by comparisons of offsets it computes:
`offset` from the field as it stands on the wire, `FRAG_OFFSET` with the flags in
it. It puts the fragment in front if `offset` is below the first `FRAG_OFFSET`, and
between the first two fragments whose `FRAG_OFFSET`s it lies between; if both, all
fragments up to that place are lost (`insertLoop_eq`). Nothing is ever put behind
the last fragment or into an empty list.

`InsertFits` says when that makes an ordered list with the right cover, for any list
and any fragment. It is a condition on the extents of the fragments and on the
fields of their headers: where the comparisons of the fields put the fragment, its
extent has to lie there, and the total length that the fields give it has to end it
where the extents want it to.
-/

namespace LinuxNet.Sip

open Extent

/-! ## Extents -/

/-- The part of the payload a fragment carries. -/
def fragExtent (skb : Skbuff) : Extent Nat where
  start := fragStart skb
  stop := fragStart skb + (ipTotLen skb.mem skb.nh - 4 * ipIhl skb.mem skb.nh)
  start_le := Nat.le_add_right ..

/-- The extent of a fragment with another total length in its header. -/
def extentWith (skb : Skbuff) (tot : Nat) : Extent Nat where
  start := fragStart skb
  stop := fragStart skb + (tot - 4 * ipIhl skb.mem skb.nh)
  start_le := Nat.le_add_right ..

/-- The list of an entry after the insertion step. -/
def inserted (skbs : List Skbuff) (skb : Skbuff) : List Skbuff :=
  (insertLoop (rawOffset skb).toNat (rawLen skb).toNat [] skbs skb false).1

/-- `new` is ordered, and covers what `old` does and the fragment. -/
def ListedWell (old new : List Skbuff) (skb : Skbuff) : Prop :=
  Ordered (new.map fragExtent) ∧
    ∀ x, Covers (new.map fragExtent) x ↔ Covers (old.map fragExtent) x ∨ (fragExtent skb).Has x

/-- The list is ordered after the insertion, and covers what it did and the fragment. -/
def InsertedWell (skbs : List Skbuff) (skb : Skbuff) : Prop :=
  ListedWell skbs (inserted skbs skb) skb

/-! ## When it fits -/

/-- Where a total length, of which the header holds 16 bits, ends the extent of a fragment. -/
def stopWith (skb : Skbuff) (tot : Int) : Nat :=
  (extentWith skb (BitVec.ofInt 16 tot).toNat).stop

/-- The fragment ends there, with a new total length if it has to be cut, or as it is. -/
def EndsAt (skb : Skbuff) (stop : Nat) (cut : Prop) (tot : Int) : Prop :=
  (cut → stopWith skb tot = stop) ∧ (¬ cut → (fragExtent skb).stop = stop)

/-- All that the fragment has is stored. -/
def Stored (skb : Skbuff) (skbs : List Skbuff) : Prop :=
  ∀ x, (fragExtent skb).Has x → Covers (skbs.map fragExtent) x

/-- What the fragment has from the start of `cur` on is stored from there on. -/
def RestStored (skb cur : Skbuff) (post : List Skbuff) : Prop :=
  ∀ x, fragStart cur ≤ x → (fragExtent skb).Has x → Covers ((cur :: post).map fragExtent) x

/-- The fragment and the lost ones have together all from its start to `stop` and nothing else in
front of `cur`. -/
def Spans (skb : Skbuff) (lost : List Skbuff) (cur : Skbuff) (stop : Nat) : Prop :=
  (fragStart skb < fragStart cur ∧ stop ≤ fragStart cur) ∧
    ∀ x, x < fragStart cur →
      ((fragStart skb ≤ x ∧ x < stop) ↔ Covers (lost.map fragExtent) x ∨ (fragExtent skb).Has x)

section Fields

variable (offset len : Int)

/-- The offset lies between those of two neighbours. -/
def Between (prev cur : Skbuff) : Prop := fragOffset prev < offset ∧ offset < fragOffset cur

/-- It lies between those of no two neighbours. -/
def NoGap (skbs : List Skbuff) : Prop := skbs.IsChain fun prev cur => ¬ Between offset prev cur

/-- It lies below that of the first fragment. -/
def BelowFirst (skbs : List Skbuff) : Prop := ∃ cur ∈ skbs.head?, offset < fragOffset cur

/-- The total length of a fragment in front of `cur`, the first one. -/
def frontTot (cur : Skbuff) : Int := fragOffset cur - offset + if offset = 0 then 0 else iphdrLen

/-- The fragment belongs in front of `cur`, and ends at its own end or at the start of `cur`. -/
def FrontFits (skb cur : Skbuff) (post : List Skbuff) : Prop :=
  fragStart skb < fragStart cur ∧
    EndsAt skb (min (fragExtent skb).stop (fragStart cur))
      (fragOffset cur < offset + len + iphdrLen) (frontTot offset cur) ∧
    RestStored skb cur post

/-- The fragment belongs between the two, the one in front of it ends where it did or where the
fragment starts, and the fragment makes up for what that lost. -/
def BetweenFits (skb prev cur : Skbuff) (post : List Skbuff) : Prop :=
  (fragStart prev < fragStart skb ∧ fragStart skb < fragStart cur) ∧
    EndsAt prev (min (fragExtent prev).stop (fragStart skb))
      (fragOffset cur < fragOffset prev + fragLength prev)
      (fragOffset prev - offset + iphdrLen) ∧
    EndsAt skb (min (max (fragExtent skb).stop (fragExtent prev).stop) (fragStart cur))
      (fragOffset cur < offset + len) (fragOffset cur - offset + iphdrLen) ∧
    RestStored skb cur post

/-- The fragment belongs in front of `cur`, and makes up for all that is lost in front of it. -/
def TwiceFits (skb first : Skbuff) (lost : List Skbuff) (cur : Skbuff) (post : List Skbuff) : Prop :=
  (∃ stop, Spans skb lost cur stop ∧
    (fragOffset cur < offset + len →
      stopWith skb (fragOffset cur - offset + iphdrLen) = stop) ∧
    (¬ fragOffset cur < offset + len → EndsAt skb stop
      (fragOffset first < offset + len + iphdrLen) (frontTot offset first))) ∧
  RestStored skb cur post

/-- When the insertion keeps a list ordered and adds what the fragment has. -/
structure InsertFits (skb : Skbuff) (skbs : List Skbuff) : Prop where
  nowhere : NoGap offset skbs → ¬ BelowFirst offset skbs → Stored skb skbs
  front : ∀ cur post, skbs = cur :: post → NoGap offset skbs → offset < fragOffset cur →
    FrontFits offset len skb cur post
  between : ∀ pre prev cur post, skbs = pre ++ prev :: cur :: post →
    NoGap offset (pre ++ [prev]) → Between offset prev cur → ¬ BelowFirst offset skbs →
      BetweenFits offset len skb prev cur post
  twice : ∀ pre prev cur post, skbs = pre ++ prev :: cur :: post →
    NoGap offset (pre ++ [prev]) → Between offset prev cur →
      ∀ first ∈ skbs.head?, offset < fragOffset first →
        TwiceFits offset len skb first (pre ++ [prev]) cur post

end Fields

/-! ## The places -/

/-- Two neighbours of a list, with what is in front of them and behind. -/
structure Gap where
  pre : List Skbuff
  prev : Skbuff
  cur : Skbuff
  post : List Skbuff

/-- The first two neighbours that an offset lies between, by `FRAG_OFFSET`. -/
def findGap (offset : Int) : List Skbuff → Option Gap
  | [] => none
  | [_] => none
  | prev :: cur :: post =>
    if offset < fragOffset cur ∧ offset > fragOffset prev then some ⟨[], prev, cur, post⟩
    else (findGap offset (cur :: post)).map fun g => { g with pre := prev :: g.pre }

theorem findGap_eq {offset : Int} {skbs : List Skbuff} :
    ∀ {g : Gap}, findGap offset skbs = some g → skbs = g.pre ++ g.prev :: g.cur :: g.post := by
  induction skbs with
  | nil =>
    intro g h
    cases h
  | cons prev skbs ih =>
    intro g h
    cases skbs with
    | nil => cases h
    | cons cur post =>
      rw [findGap] at h
      split at h
      next =>
        cases h
        rfl
      next =>
        obtain ⟨g', hg', rfl⟩ := Option.map_eq_some_iff.mp h
        rw [ih hg']
        rfl

/-- The neighbours that are found are the first the offset lies between. -/
theorem findGap_spec {offset : Int} {skbs : List Skbuff} :
    ∀ {g : Gap}, findGap offset skbs = some g →
      NoGap offset (g.pre ++ [g.prev]) ∧ Between offset g.prev g.cur := by
  induction skbs with
  | nil =>
    intro g h
    cases h
  | cons prev skbs ih =>
    intro g h
    cases skbs with
    | nil => cases h
    | cons cur post =>
      rw [findGap] at h
      split at h
      next hgap =>
        cases h
        exact ⟨List.isChain_singleton _, hgap.symm⟩
      next hgap =>
        obtain ⟨g', hg', rfl⟩ := Option.map_eq_some_iff.mp h
        obtain ⟨hno, hbetween⟩ := ih hg'
        refine ⟨?_, hbetween⟩
        -- `cur` is the first of what the rest of the search has passed
        have hcur : ∃ rest, g'.pre ++ [g'.prev] = cur :: rest := by
          have hlist := findGap_eq hg'
          cases hpre : g'.pre with
          | nil =>
            rw [hpre] at hlist
            cases hlist
            exact ⟨[], rfl⟩
          | cons c rest =>
            rw [hpre] at hlist
            cases hlist
            exact ⟨_, rfl⟩
        obtain ⟨rest, hrest⟩ := hcur
        show NoGap offset (prev :: (g'.pre ++ [g'.prev]))
        rw [hrest] at hno ⊢
        exact List.isChain_cons_cons.mpr ⟨fun hb => hgap hb.symm, hno⟩

theorem findGap_eq_none {offset : Int} {skbs : List Skbuff} :
    findGap offset skbs = none ↔ NoGap offset skbs := by
  induction skbs with
  | nil => exact iff_of_true rfl List.isChain_nil
  | cons prev skbs ih =>
    cases skbs with
    | nil => exact iff_of_true rfl (List.isChain_singleton _)
    | cons cur post =>
      rw [findGap, NoGap, List.isChain_cons_cons, ← NoGap, ← ih]
      split
      next hgap => exact iff_of_false (by simp) fun h => h.1 hgap.symm
      next hgap =>
        rw [Option.map_eq_none_iff, and_iff_right fun hb => hgap hb.symm]

/-- There are no others. -/
theorem findGap_eq_some {offset : Int} {prev cur : Skbuff} {post : List Skbuff} :
    ∀ {pre : List Skbuff}, NoGap offset (pre ++ [prev]) → Between offset prev cur →
      findGap offset (pre ++ prev :: cur :: post) = some ⟨pre, prev, cur, post⟩ := by
  intro pre
  induction pre with
  | nil =>
    intro _ hbetween
    rw [List.nil_append, findGap, if_pos hbetween.symm]
  | cons p pre ih =>
    intro hno hbetween
    obtain ⟨c, rest, hrest⟩ : ∃ c rest, pre ++ prev :: cur :: post = c :: rest := by
      cases pre with
      | nil => exact ⟨_, _, rfl⟩
      | cons c rest => exact ⟨_, _, rfl⟩
    have hchain : NoGap offset (pre ++ [prev]) ∧ ¬ Between offset p c := by
      cases pre with
      | nil =>
        cases hrest
        exact ⟨List.isChain_singleton _, (List.isChain_cons_cons.mp hno).1⟩
      | cons c' pre =>
        cases hrest
        exact ⟨(List.isChain_cons_cons.mp hno).2, (List.isChain_cons_cons.mp hno).1⟩
    have hfind := ih hchain.1 hbetween
    rw [List.cons_append, hrest, findGap, if_neg fun hb => hchain.2 hb.symm, ← hrest, hfind]
    rfl

/-! ## The lengths that are written -/

section Lengths

variable (offset len : Int)

/-- `modify` where a fragment is put in front of `cur`. -/
def frontModify (cur : Skbuff) : Int :=
  if offset = 0 then fragOffset cur - offset + iphdrLen - iphdrLen else
    fragOffset cur - offset + iphdrLen

theorem frontModify_eq (cur : Skbuff) : frontModify offset cur = frontTot offset cur := by
  unfold frontModify frontTot
  split <;> omega

/-- The total length of a fragment that is put in front of `cur`. -/
def frontLen (skb cur : Skbuff) : Nat :=
  if offset + len + iphdrLen > fragOffset cur then
    (BitVec.ofInt 16 (frontModify offset cur)).toNat
  else ipTotLen skb.mem skb.nh

/-- The total length of a fragment that is put between two, where it had `tot`. -/
def betweenLen (tot : Nat) (cur : Skbuff) : Nat :=
  if offset + len > fragOffset cur then
    (BitVec.ofInt 16 (fragOffset cur - offset + iphdrLen)).toNat
  else tot

/-- The total length of the fragment in front of the place. -/
def prevLen (prev cur : Skbuff) : Nat :=
  if fragOffset prev + fragLength prev > fragOffset cur then
    (BitVec.ofInt 16 (fragOffset prev - offset + iphdrLen)).toNat
  else ipTotLen prev.mem prev.nh

end Lengths

theorem setTotLen_nh (skb : Skbuff) (modify : Int) : (setTotLen skb modify).nh = skb.nh := rfl

/-- Setting the total length changes that, and nothing else of the extent. -/
theorem extentWith_setTotLen (skb : Skbuff) (modify : Int) (tot : Nat) :
    extentWith (setTotLen skb modify) tot = extentWith skb tot ∧
      ipTotLen (setTotLen skb modify).mem (setTotLen skb modify).nh =
        (BitVec.ofInt 16 modify).toNat := by
  have hoff : (setTotLen skb modify).mem.u16 (skb.nh + 6) = skb.mem.u16 (skb.nh + 6) :=
    Mem.u16_write_apart (.inr (by simp))
  have hihl : (setTotLen skb modify).mem skb.nh = skb.mem skb.nh :=
    Mem.write_apart (.inl (by omega))
  have htot : (setTotLen skb modify).mem.u16 (skb.nh + 2) = htons (BitVec.ofInt 16 modify) :=
    Mem.u16_write_self
  constructor
  · unfold extentWith fragStart ipFragOff ipIhl
    simp only [setTotLen_nh, hoff, hihl]
  · rw [ipTotLen, setTotLen_nh, htot]
    exact congrArg BitVec.toNat (htons_htons _)

/-! ## What the loop does -/

section Loop

variable (offset len : Int)

/-- The fragment as it is put in front of `cur`. -/
def frontTrim (skb cur : Skbuff) : Skbuff :=
  if offset + len + iphdrLen > fragOffset cur then setTotLen skb (frontModify offset cur) else skb

/-- The fragment as it is put in front of `cur`, behind another. -/
def betweenTrim (skb cur : Skbuff) : Skbuff :=
  if offset + len > fragOffset cur then setTotLen skb (fragOffset cur - offset + iphdrLen) else skb

/-- The fragment in front of the place. -/
def prevTrim (prev cur : Skbuff) : Skbuff :=
  if fragOffset prev + fragLength prev > fragOffset cur then
    setTotLen prev (fragOffset prev - offset + iphdrLen)
  else prev

/-- The turns behind the first: the rest of the list as it is, or a fragment put in at the first
place for it, where a fragment that was put in front already takes all in front of the place
off the list. -/
theorem insertLoop_rest (l : List Skbuff) : ∀ (prev : Skbuff) (ps : List Skbuff) (skb : Skbuff)
    (head : Bool),
    (insertLoop offset len (prev :: ps) l skb head).1 =
      (findGap offset (prev :: l)).elim
        (if head then skb :: (ps.reverse ++ prev :: l) else ps.reverse ++ prev :: l) fun g =>
          if head then betweenTrim offset len skb g.cur :: g.cur :: g.post
          else ps.reverse ++ (g.pre ++ prevTrim offset g.prev g.cur ::
            betweenTrim offset len skb g.cur :: g.cur :: g.post) := by
  induction l with
  | nil =>
    intro prev ps skb head
    rw [insertLoop, findGap, List.reverse_cons]
    rfl
  | cons cur l ih =>
    intro prev ps skb head
    rw [insertLoop, findGap]
    split
    next hgap =>
      cases head with
      | true => rfl
      | false =>
        show (prevTrim offset prev cur :: ps).reverse ++ _ = _
        rw [List.reverse_cons, List.append_assoc]
        rfl
    next =>
      -- the place, if there is one, is further on
      rw [ih]
      cases findGap offset (cur :: l) with
      | none => simp
      | some g => simp

/-- **The insertion loop** on a list with a first fragment. -/
theorem insertLoop_eq (cur : Skbuff) (next : List Skbuff) (skb : Skbuff) :
    (insertLoop offset len [] (cur :: next) skb false).1 =
      (findGap offset (cur :: next)).elim
        (if offset < fragOffset cur then frontTrim offset len skb cur :: cur :: next
          else cur :: next) fun g =>
        if offset < fragOffset cur then
          betweenTrim offset len (frontTrim offset len skb cur) g.cur :: g.cur :: g.post
        else g.pre ++ prevTrim offset g.prev g.cur ::
          betweenTrim offset len skb g.cur :: g.cur :: g.post := by
  rw [insertLoop]
  by_cases hfront : offset < fragOffset cur
  · simp only [if_pos hfront]
    rw [insertLoop_rest]
    rfl
  · simp only [if_neg hfront]
    rw [insertLoop_rest]
    rfl

end Loop

section Extents

variable (offset len : Int) (skb cur : Skbuff) (tot : Nat)

theorem extentWith_self : extentWith skb (ipTotLen skb.mem skb.nh) = fragExtent skb := rfl

theorem fragExtent_setTotLen (modify : Int) :
    fragExtent (setTotLen skb modify) = extentWith skb (BitVec.ofInt 16 modify).toNat := by
  obtain ⟨hext, htot⟩ := extentWith_setTotLen skb modify (BitVec.ofInt 16 modify).toNat
  rw [← hext, ← extentWith_self, htot]

theorem fragExtent_frontTrim :
    fragExtent (frontTrim offset len skb cur) = extentWith skb (frontLen offset len skb cur) := by
  unfold frontTrim frontLen
  split
  next => exact fragExtent_setTotLen _ _
  next => rfl

theorem fragExtent_prevTrim :
    fragExtent (prevTrim offset skb cur) = extentWith skb (prevLen offset skb cur) := by
  unfold prevTrim prevLen
  split
  next => exact fragExtent_setTotLen _ _
  next => rfl

theorem fragExtent_betweenTrim :
    fragExtent (betweenTrim offset len skb cur) =
      extentWith skb (betweenLen offset len (ipTotLen skb.mem skb.nh) cur) := by
  unfold betweenTrim betweenLen
  split
  next => exact fragExtent_setTotLen _ _
  next => rfl

/-- A fragment that is trimmed twice. -/
theorem fragExtent_trimTwice (first : Skbuff) :
    fragExtent (betweenTrim offset len (frontTrim offset len skb first) cur) =
      extentWith skb (betweenLen offset len (frontLen offset len skb first) cur) := by
  rw [fragExtent_betweenTrim]
  unfold frontTrim frontLen
  split
  next => rw [(extentWith_setTotLen skb _ _).1, (extentWith_setTotLen skb _ 0).2]
  next => rfl

end Extents

/-! ## The cases -/

section Ends

variable {offset len : Int} {skb cur : Skbuff} {stop tot : Nat} {lost : List Skbuff}

theorem endsAt_iff {cut : Prop} [Decidable cut] {n : Int} :
    EndsAt skb stop cut n ↔ (if cut then stopWith skb n else (fragExtent skb).stop) = stop := by
  unfold EndsAt
  by_cases h : cut <;> simp [h]

theorem stop_frontLen : (extentWith skb (frontLen offset len skb cur)).stop =
    if fragOffset cur < offset + len + iphdrLen then stopWith skb (frontTot offset cur)
    else (fragExtent skb).stop := by
  rw [frontLen, frontModify_eq]
  split <;> rfl

theorem stop_betweenLen : (extentWith skb (betweenLen offset len tot cur)).stop =
    if fragOffset cur < offset + len then stopWith skb (fragOffset cur - offset + iphdrLen)
    else (extentWith skb tot).stop := by
  rw [betweenLen]
  split <;> rfl

theorem stop_prevLen : (extentWith skb (prevLen offset skb cur)).stop =
    if fragOffset cur < fragOffset skb + fragLength skb then
      stopWith skb (fragOffset skb - offset + iphdrLen)
    else (fragExtent skb).stop := by
  rw [prevLen]
  split <;> rfl

/-- An extent that spans what is lost. -/
theorem spans_extentWith : Spans skb lost cur (extentWith skb tot).stop ↔
    (extentWith skb tot).Before (fragExtent cur) ∧ ∀ x, x < fragStart cur →
      ((extentWith skb tot).Has x ↔ Covers (lost.map fragExtent) x ∨ (fragExtent skb).Has x) :=
  Iff.rfl

/-- The end of a fragment that is cut twice is the one the second cut leaves. -/
theorem twiceFits_iff {first : Skbuff} {post : List Skbuff} :
    TwiceFits offset len skb first lost cur post ↔
      Spans skb lost cur
        (extentWith skb (betweenLen offset len (frontLen offset len skb first) cur)).stop ∧
      RestStored skb cur post := by
  have hstop : ∀ stop, ((fragOffset cur < offset + len →
        stopWith skb (fragOffset cur - offset + iphdrLen) = stop) ∧
      (¬ fragOffset cur < offset + len → EndsAt skb stop
        (fragOffset first < offset + len + iphdrLen) (frontTot offset first))) ↔
      (extentWith skb (betweenLen offset len (frontLen offset len skb first) cur)).stop = stop := by
    intro stop
    rw [stop_betweenLen, endsAt_iff, stop_frontLen]
    by_cases h : fragOffset cur < offset + len <;> simp [h]
  unfold TwiceFits
  simp only [hstop, exists_eq_right']

end Ends

section Fits

variable {offset len : Int} {skb prev cur : Skbuff} {pre post skbs : List Skbuff}

theorem not_noGap (hbetween : Between offset prev cur) :
    ¬ NoGap offset (pre ++ prev :: cur :: post) := fun h =>
  (List.isChain_append_cons_cons.mp h).2.1 hbetween

/-- The first neighbours the offset lies between are determined. -/
theorem gap_unique (hno : NoGap offset (pre ++ [prev])) (hbetween : Between offset prev cur)
    {pre' : List Skbuff} {prev' cur' : Skbuff} {post' : List Skbuff}
    (h : pre ++ prev :: cur :: post = pre' ++ prev' :: cur' :: post')
    (hno' : NoGap offset (pre' ++ [prev'])) (hbetween' : Between offset prev' cur') :
    pre' = pre ∧ prev' = prev ∧ cur' = cur ∧ post' = post := by
  have hg : findGap offset (pre' ++ prev' :: cur' :: post') = some ⟨pre', prev', cur', post'⟩ :=
    findGap_eq_some hno' hbetween'
  rw [← h, findGap_eq_some hno hbetween] at hg
  cases hg
  exact ⟨rfl, rfl, rfl, rfl⟩

theorem insertFits_nowhere (hno : NoGap offset skbs) (hfirst : ¬ BelowFirst offset skbs) :
    InsertFits offset len skb skbs ↔ Stored skb skbs := by
  refine ⟨fun h => h.nowhere hno hfirst, fun h => ⟨fun _ _ => h, ?_, ?_, ?_⟩⟩
  · rintro cur post rfl - hfront
    exact absurd ⟨cur, rfl, hfront⟩ hfirst
  · rintro pre prev cur post rfl - hbetween -
    exact absurd hno (not_noGap hbetween)
  · rintro pre prev cur post rfl - hbetween
    exact absurd hno (not_noGap hbetween)

theorem insertFits_front (hno : NoGap offset (cur :: post)) (hfront : offset < fragOffset cur) :
    InsertFits offset len skb (cur :: post) ↔ FrontFits offset len skb cur post := by
  refine ⟨fun h => h.front cur post rfl hno hfront, fun h => ⟨fun _ hfirst => ?_, ?_, ?_, ?_⟩⟩
  · exact absurd ⟨cur, rfl, hfront⟩ hfirst
  · rintro cur' post' heq - -
    cases heq
    exact h
  · intro pre prev cur' post' heq _ hbetween
    exact absurd (heq ▸ hno) (not_noGap hbetween)
  · intro pre prev cur' post' heq _ hbetween
    exact absurd (heq ▸ hno) (not_noGap hbetween)

theorem insertFits_between (hno : NoGap offset (pre ++ [prev]))
    (hbetween : Between offset prev cur)
    (hfirst : ¬ BelowFirst offset (pre ++ prev :: cur :: post)) :
    InsertFits offset len skb (pre ++ prev :: cur :: post) ↔
      BetweenFits offset len skb prev cur post := by
  refine ⟨fun h => h.between pre prev cur post rfl hno hbetween hfirst,
    fun h => ⟨fun hn => absurd hn (not_noGap hbetween), ?_, ?_, ?_⟩⟩
  · intro cur' post' _ hn
    exact absurd hn (not_noGap hbetween)
  · intro pre' prev' cur' post' heq hno' hbetween' _
    obtain ⟨-, rfl, rfl, rfl⟩ := gap_unique hno hbetween heq hno' hbetween'
    exact h
  · intro _ _ _ _ _ _ _ first hf hfront
    exact absurd ⟨first, hf, hfront⟩ hfirst

theorem insertFits_twice (hno : NoGap offset (pre ++ [prev])) (hbetween : Between offset prev cur)
    {first : Skbuff} (hf : first ∈ (pre ++ prev :: cur :: post).head?)
    (hfront : offset < fragOffset first) :
    InsertFits offset len skb (pre ++ prev :: cur :: post) ↔
      TwiceFits offset len skb first (pre ++ [prev]) cur post := by
  refine ⟨fun h => h.twice pre prev cur post rfl hno hbetween first hf hfront,
    fun h => ⟨fun hn => absurd hn (not_noGap hbetween), ?_, ?_, ?_⟩⟩
  · intro cur' post' _ hn
    exact absurd hn (not_noGap hbetween)
  · intro _ _ _ _ _ _ _ hfirst
    exact absurd ⟨first, hf, hfront⟩ hfirst
  · intro pre' prev' cur' post' heq hno' hbetween' first' hf' _
    obtain ⟨rfl, rfl, rfl, rfl⟩ := gap_unique hno hbetween heq hno' hbetween'
    obtain rfl : first = first' := Option.some.inj (hf.symm.trans hf')
    exact h

end Fits

section Cases

variable {offset len : Int} {skb cur : Skbuff} {next : List Skbuff} {g : Gap}

/-- A fragment that is not put in. -/
theorem listedWell_same (h : Ordered (next.map fragExtent)) :
    ListedWell next next skb ↔ Stored skb next := by
  rw [ListedWell, and_iff_right h]
  exact forall_congr' fun x => ⟨fun hx hn => hx.mpr (.inr hn), fun hx =>
    ⟨.inl, fun hor => hor.elim id hx⟩⟩

theorem listedWell_front {s : Skbuff} (h : Ordered ((cur :: next).map fragExtent))
    (hs : fragExtent s = extentWith skb (frontLen offset len skb cur)) :
    ListedWell (cur :: next) (s :: cur :: next) skb ↔ FrontFits offset len skb cur next := by
  unfold ListedWell FrontFits
  rw [endsAt_iff, ← stop_frontLen]
  rw [List.map_cons] at h
  rw [List.map_cons, List.map_cons, hs]
  generalize frontLen offset len skb cur = tot
  have hput := @put_front_iff Nat _ (fragExtent skb) (extentWith skb tot) (fragExtent cur) []
    (next.map fragExtent) h
  rw [List.nil_append] at hput
  rw [hput]
  have hfront := @has_front_iff Nat _ (fragExtent skb) (extentWith skb tot) (fragExtent cur) rfl
  constructor
  · rintro ⟨hb, hcov, hrest⟩
    exact ⟨hb.1, (hfront hb).mp hcov, hrest⟩
  · rintro ⟨hlt, hstop, hrest⟩
    have hb : (extentWith skb tot).Before (fragExtent cur) :=
      ⟨hlt, hstop.trans_le (min_le_right ..)⟩
    exact ⟨hb, (hfront hb).mpr hstop, hrest⟩

theorem map_gap : (g.pre ++ g.prev :: g.cur :: g.post).map fragExtent =
    g.pre.map fragExtent ++ fragExtent g.prev :: fragExtent g.cur :: g.post.map fragExtent := by
  simp

theorem listedWell_between {p s : Skbuff}
    (h : Ordered ((g.pre ++ g.prev :: g.cur :: g.post).map fragExtent))
    (hp : fragExtent p = extentWith g.prev (prevLen offset g.prev g.cur))
    (hs : fragExtent s =
      extentWith skb (betweenLen offset len (ipTotLen skb.mem skb.nh) g.cur)) :
    ListedWell (g.pre ++ g.prev :: g.cur :: g.post) (g.pre ++ p :: s :: g.cur :: g.post) skb ↔
      BetweenFits offset len skb g.prev g.cur g.post := by
  unfold ListedWell BetweenFits
  rw [endsAt_iff, ← stop_prevLen, endsAt_iff, ← extentWith_self skb, ← stop_betweenLen]
  have hnew : (g.pre ++ p :: s :: g.cur :: g.post).map fragExtent = g.pre.map fragExtent ++
      extentWith g.prev (prevLen offset g.prev g.cur) ::
        extentWith skb (betweenLen offset len (ipTotLen skb.mem skb.nh) g.cur) ::
          fragExtent g.cur :: g.post.map fragExtent := by
    simp [hp, hs]
  rw [map_gap] at h
  rw [hnew, map_gap]
  exact put_between_iff h rfl rfl

theorem listedWell_twice {s first : Skbuff}
    (h : Ordered ((g.pre ++ g.prev :: g.cur :: g.post).map fragExtent))
    (hs : fragExtent s =
      extentWith skb (betweenLen offset len (frontLen offset len skb first) g.cur)) :
    ListedWell (g.pre ++ g.prev :: g.cur :: g.post) (s :: g.cur :: g.post) skb ↔
      TwiceFits offset len skb first (g.pre ++ [g.prev]) g.cur g.post := by
  rw [twiceFits_iff, spans_extentWith, and_assoc, ListedWell]
  have hold : (g.pre ++ g.prev :: g.cur :: g.post).map fragExtent =
      (g.pre ++ [g.prev]).map fragExtent ++ fragExtent g.cur :: g.post.map fragExtent := by
    simp
  rw [hold] at h
  rw [hold, List.map_cons, List.map_cons, hs]
  exact put_front_iff h

end Cases

/-- **The insertion.** For an ordered list of fragments and any fragment, the list is ordered after
the insertion and covers what it did and the fragment if and only if the extent of the fragment
lies where the fields of the headers put it, and they end it there. -/
theorem insertedWell_iff {skbs : List Skbuff} {skb : Skbuff} (h : Ordered (skbs.map fragExtent)) :
    InsertedWell skbs skb ↔
      InsertFits (rawOffset skb).toNat (rawLen skb).toNat skb skbs := by
  cases skbs with
  | nil =>
    rw [insertFits_nowhere List.isChain_nil fun hb => by obtain ⟨_, hb, -⟩ := hb; cases hb]
    exact listedWell_same h
  | cons cur next =>
    have hfirst : BelowFirst (rawOffset skb).toNat (cur :: next) ↔
        ((rawOffset skb).toNat : Int) < fragOffset cur := by simp [BelowFirst]
    rw [InsertedWell, inserted, insertLoop_eq]
    cases hgap : findGap (rawOffset skb).toNat (cur :: next) with
    | none =>
      have hno := findGap_eq_none.mp hgap
      rw [Option.elim_none]
      split
      next hfront =>
        rw [insertFits_front hno hfront]
        exact listedWell_front h (fragExtent_frontTrim ..)
      next hfront =>
        rw [insertFits_nowhere hno (mt hfirst.mp hfront)]
        exact listedWell_same h
    | some g =>
      have hlist := findGap_eq hgap
      obtain ⟨hno, hbetween⟩ := findGap_spec hgap
      have hhead : (cur :: next).head? = some cur := rfl
      rw [hlist] at h hfirst hhead
      rw [Option.elim_some]
      split
      next hfront =>
        rw [hlist, insertFits_twice hno hbetween hhead hfront]
        exact listedWell_twice h (fragExtent_trimTwice ..)
      next hfront =>
        rw [hlist, insertFits_between hno hbetween (mt hfirst.mp hfront)]
        exact listedWell_between h (fragExtent_prevTrim ..) (fragExtent_betweenTrim ..)

/-- A fragment with eight bytes of payload and more to come, at `units` times eight bytes. -/
def eightBytes (units : BitVec 8) : Skbuff where
  mem o := (List.replicate ethHlen 0#8 ++
    [0x45#8, 0#8, 0#8, 28#8, 0#8, 1#8, 0x20#8, units, 64#8, 17#8]).getD o 0#8
  size := 44
  phy := 0
  nh := ethHlen
  th := 0
  tail := ethHlen + iphdrLen
  totLen := 42#32
  len := 8#32
  ipSummed := .hw

/-- The fragment for the first eight bytes finds its place in front of the one behind it. -/
theorem insertedWell_front : InsertedWell [eightBytes 1] (eightBytes 0) := by
  refine (@insertedWell_iff [eightBytes 1] (eightBytes 0) (List.pairwise_singleton ..)).mpr ?_
  have hraw : ((rawOffset (eightBytes 0)).toNat : Int) < fragOffset (eightBytes 1) := by decide
  have hstop : (fragExtent (eightBytes 0)).stop = fragStart (eightBytes 1) := by decide
  rw [insertFits_front (List.isChain_singleton _) hraw]
  refine ⟨by decide, ⟨fun hcut => absurd hcut (by decide), fun _ => by decide⟩, fun x hx hn => ?_⟩
  exact absurd hn.2 (not_lt_of_ge (hstop.trans_le hx))

/-- The first fragment of an entry is never put into its list. -/
theorem not_insertedWell_first :
    Ordered (([] : List Skbuff).map fragExtent) ∧ ¬ InsertedWell [] (eightBytes 0) := by
  refine ⟨List.Pairwise.nil, fun h => ?_⟩
  have hhas : (fragExtent (eightBytes 0)).Has 0 := ⟨by decide, by decide⟩
  exact not_covers_nil ((h.2 0).mpr (.inr hhas))

end LinuxNet.Sip
