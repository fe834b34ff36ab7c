import Mathlib

/-!
# Ordered lists of extents

An extent is a half-open range over a linear order, possibly empty. In an
ordered list each extent starts behind the start of the one in front of it and
not before its end, so what such a list covers below the start of one of its
members is covered by the members in front of it (`covers_append_below`), and
what it covers from there on by that member and those behind it
(`covers_append_above`).

With these two the question whether a list in which something has been put is
still ordered, and covers that too, is one about a few ends. There are two ways
to put an extent in: in front of a member, with everything before it dropped
(`put_front_iff`), and between two members, the first of which may be cut
(`put_between_iff`).
-/

namespace LinuxNet

variable {α : Type} [LinearOrder α]

/-- A half-open range. -/
structure Extent (α : Type) [LinearOrder α] where
  start : α
  stop : α
  start_le : start ≤ stop

namespace Extent

/-- The extent has the point in it. -/
def Has (e : Extent α) (x : α) : Prop := e.start ≤ x ∧ x < e.stop

/-- The extent is in front of another. -/
def Before (a b : Extent α) : Prop := a.start < b.start ∧ a.stop ≤ b.start

/-- Strictly increasing starts, and no overlap. -/
def Ordered (es : List (Extent α)) : Prop := es.Pairwise Before

/-- Some extent of the list has the point in it. -/
def Covers (es : List (Extent α)) (x : α) : Prop := ∃ e ∈ es, e.Has x

theorem Before.trans {a b c : Extent α} (h : Before a b) (h' : Before b c) : Before a c :=
  ⟨h.1.trans h'.1, h.2.trans h'.1.le⟩

section

variable {e : Extent α} {es es' : List (Extent α)} {x : α}

@[simp] theorem not_covers_nil : ¬ Covers ([] : List (Extent α)) x := by
  rintro ⟨e, he, -⟩
  cases he

@[simp] theorem covers_cons : Covers (e :: es) x ↔ e.Has x ∨ Covers es x := by
  simp [Covers]

@[simp] theorem covers_append : Covers (es ++ es') x ↔ Covers es x ∨ Covers es' x := by
  simp only [Covers, List.mem_append, or_and_right, exists_or]

theorem ordered_cons_cons {a b : Extent α} :
    Ordered (a :: b :: es) ↔ Before a b ∧ Ordered (b :: es) := by
  unfold Ordered
  rw [List.pairwise_cons]
  refine and_congr_left fun h => ⟨fun hall => hall b List.mem_cons_self, fun hab c hc => ?_⟩
  rcases List.mem_cons.mp hc with rfl | hc
  · exact hab
  · exact hab.trans (List.rel_of_pairwise_cons h hc)

/-- An ordered list taken apart at a member. -/
theorem ordered_append_cons :
    Ordered (es ++ e :: es') ↔ Ordered es ∧ Ordered (e :: es') ∧ ∀ a ∈ es, Before a e := by
  unfold Ordered
  rw [List.pairwise_append]
  refine and_congr_right fun _ => and_congr_right fun h => ?_
  refine ⟨fun hall a ha => hall a ha e List.mem_cons_self, fun hall a ha b hb => ?_⟩
  rcases List.mem_cons.mp hb with rfl | hb
  · exact hall a ha
  · exact (hall a ha).trans (List.rel_of_pairwise_cons h hb)

/-- Nothing in front of its first member is covered by an ordered list. -/
theorem not_covers_below (h : Ordered (e :: es)) (hx : x < e.start) : ¬ Covers (e :: es) x := by
  rintro ⟨a, ha, hax⟩
  rcases List.mem_cons.mp ha with rfl | ha
  · exact absurd hax.1 (not_le_of_gt hx)
  · exact absurd (hax.1.trans_lt hx) (not_lt_of_gt (List.rel_of_pairwise_cons h ha).1)

theorem covers_append_below (h : Ordered (e :: es')) (hx : x < e.start) :
    Covers (es ++ e :: es') x ↔ Covers es x := by
  rw [covers_append, or_iff_left (not_covers_below h hx)]

theorem covers_append_above (h : ∀ a ∈ es, Before a e) (hx : e.start ≤ x) :
    Covers (es ++ e :: es') x ↔ Covers (e :: es') x := by
  rw [covers_append, or_iff_right]
  rintro ⟨a, ha, hax⟩
  exact absurd (hax.2.trans_le (h a ha).2) (not_lt_of_ge hx)

end

/-! ## In front -/

/-- Two extents that agree up to a bound end together, as far as the bound. -/
theorem stop_eq_min_iff {a b : Extent α} {top : α} (hstart : a.start = b.start)
    (ha : a.stop ≤ top) :
    (∀ x, b.start ≤ x → x < top → (x < a.stop ↔ x < b.stop)) ↔ a.stop = min b.stop top := by
  have hale := a.start_le
  rw [hstart] at hale
  constructor
  · intro h
    refine le_antisymm (le_min ?_ ha) ?_
    · by_contra hlt
      rw [not_le] at hlt
      exact absurd ((h b.stop b.start_le (hlt.trans_le ha)).mp hlt) (lt_irrefl _)
    · by_contra hlt
      rw [not_le] at hlt
      obtain ⟨hlt1, hlt2⟩ := lt_min_iff.mp hlt
      exact absurd ((h a.stop hale hlt2).mpr hlt1) (lt_irrefl _)
  · intro h x _ hx
    rw [h, lt_min_iff, and_iff_left hx]

section Put

variable {n s c : Extent α} {pre post : List (Extent α)}

/-- Putting `s` for `n` in front of `c`, and dropping what was in front of it: `s` must be in front
of `c` and have in it what was dropped and what `n` has there, and the rest of `n` must have
been covered. -/
theorem put_front_iff (h : Ordered (pre ++ c :: post)) :
    (Ordered (s :: c :: post) ∧
        ∀ x, Covers (s :: c :: post) x ↔ Covers (pre ++ c :: post) x ∨ n.Has x) ↔
      Before s c ∧ (∀ x, x < c.start → (s.Has x ↔ Covers pre x ∨ n.Has x)) ∧
        ∀ x, c.start ≤ x → n.Has x → Covers (c :: post) x := by
  obtain ⟨-, hpost, hpre⟩ := ordered_append_cons.mp h
  rw [ordered_cons_cons, and_iff_left hpost]
  refine and_congr_right fun hs => ?_
  have hnew := fun x => @covers_append_below α _ c [s] post x hpost
  have hnew' := fun x => @covers_append_above α _ c [s] post x fun a ha => by
    rwa [List.mem_singleton.mp ha]
  constructor
  · intro hcov
    refine ⟨fun x hx => ?_, fun x hx hn => ?_⟩
    · rw [← covers_append_below hpost hx, ← hcov x, ← List.singleton_append, hnew x hx]
      simp
    · exact (hnew' x hx).mp ((hcov x).mpr (.inr hn))
  · rintro ⟨hbelow, habove⟩ x
    rcases lt_or_ge x c.start with hx | hx
    · rw [covers_append_below hpost hx, ← hbelow x hx, ← List.singleton_append, hnew x hx]
      simp
    · rw [covers_append_above hpre hx, ← List.singleton_append, hnew' x hx]
      exact ⟨.inl, fun hor => hor.elim id (habove x hx)⟩

/-- What `s` must have in it if nothing is dropped and it starts where `n` does. -/
theorem has_front_iff (hstart : s.start = n.start) (hs : Before s c) :
    (∀ x, x < c.start → (s.Has x ↔ Covers [] x ∨ n.Has x)) ↔ s.stop = min n.stop c.start := by
  rw [← stop_eq_min_iff hstart hs.2]
  simp only [not_covers_nil, false_or, Has, hstart]
  constructor
  · intro h x hx hxc
    have := h x hxc
    rwa [and_iff_right hx, and_iff_right hx] at this
  · intro h x hxc
    exact and_congr_right fun hx => h x hx hxc

/-! ## In between -/

variable {p q : Extent α}

/-- The cover before and after, from the start of `p` to that of `n`, from there to that of `c`,
and from there on. -/
theorem covers_between_iff (h : Ordered (pre ++ p :: c :: post)) (hq : q.start = p.start)
    (hs : s.start = n.start) (hqs : Before q s) (hsc : Before s c) :
    (∀ x, Covers (pre ++ q :: s :: c :: post) x ↔ Covers (pre ++ p :: c :: post) x ∨ n.Has x) ↔
      (∀ x, p.start ≤ x → x < n.start → (x < q.stop ↔ x < p.stop)) ∧
        (∀ x, n.start ≤ x → x < c.start → (x < s.stop ↔ x < max n.stop p.stop)) ∧
        ∀ x, c.start ≤ x → n.Has x → Covers (c :: post) x := by
  obtain ⟨hpre, hpc, hprep⟩ := ordered_append_cons.mp h
  obtain ⟨hbefore, hpost⟩ := ordered_cons_cons.mp hpc
  have hfront : ∀ x, p.start ≤ x → ¬ Covers pre x := by
    rintro x hx ⟨a, ha, hax⟩
    exact absurd (hax.2.trans_le (hprep a ha).2) (not_lt_of_ge hx)
  have hback : ∀ x, x < c.start → ¬ Covers (c :: post) x := fun x hx => not_covers_below hpost hx
  have hpn : p.start < n.start := hq ▸ hs ▸ hqs.1
  have hnc : n.start < c.start := hs ▸ hsc.1
  have hqn : q.stop ≤ n.start := hs ▸ hqs.2
  have hsc' : s.stop ≤ c.start := hsc.2
  have hpc' : p.stop ≤ c.start := hbefore.2
  have hnew : ∀ x, Covers (pre ++ q :: s :: c :: post) x ↔
      Covers pre x ∨ (p.start ≤ x ∧ x < q.stop) ∨ (n.start ≤ x ∧ x < s.stop) ∨
        Covers (c :: post) x := fun x => by
    rw [covers_append, covers_cons, covers_cons (e := s), Has, Has, hq, hs]
  have hold : ∀ x, Covers (pre ++ p :: c :: post) x ↔
      Covers pre x ∨ (p.start ≤ x ∧ x < p.stop) ∨ Covers (c :: post) x := fun x => by
    rw [covers_append, covers_cons, Has]
  simp only [hnew, hold, Has, lt_max_iff]
  constructor
  · intro hcov
    refine ⟨fun x hx hxn => ?_, fun x hx hxc => ?_, fun x hx hn => ?_⟩
    · have := hcov x
      have := hfront x hx
      have := hback x (hxn.trans hnc)
      grind
    · have := hcov x
      have := hfront x (hpn.le.trans hx)
      have := hback x hxc
      grind
    · have := hcov x
      have := hfront x (hpn.le.trans (hnc.le.trans hx))
      grind
  · rintro ⟨h1, h2, h3⟩ x
    rcases lt_or_ge x p.start with hx | hx
    · have := hback x (hx.trans (hpn.trans hnc))
      grind
    have := hfront x hx
    rcases lt_or_ge x n.start with hxn | hxn
    · have := h1 x hx hxn
      grind
    rcases lt_or_ge x c.start with hxc | hxc
    · have := h2 x hxn hxc
      have := hback x hxc
      grind
    · have := h3 x hxc
      grind

/-- Putting `s` for `n` between `p` and `c`, where `p` may be cut to `q`: `n` must start between
them, `q` end where `p` does or `n` starts, `s` fill up what `n` and `p` have up to `c`, and
the rest of `n` must have been covered. -/
theorem put_between_iff (h : Ordered (pre ++ p :: c :: post)) (hq : q.start = p.start)
    (hs : s.start = n.start) :
    (Ordered (pre ++ q :: s :: c :: post) ∧
        ∀ x, Covers (pre ++ q :: s :: c :: post) x ↔
          Covers (pre ++ p :: c :: post) x ∨ n.Has x) ↔
      (p.start < n.start ∧ n.start < c.start) ∧ q.stop = min p.stop n.start ∧
        s.stop = min (max n.stop p.stop) c.start ∧
        ∀ x, c.start ≤ x → n.Has x → Covers (c :: post) x := by
  obtain ⟨hpre, hpc, hprep⟩ := ordered_append_cons.mp h
  obtain ⟨-, hpost⟩ := ordered_cons_cons.mp hpc
  have hpreq : ∀ a ∈ pre, Before a q := fun a ha =>
    ⟨hq ▸ (hprep a ha).1, hq ▸ (hprep a ha).2⟩
  have hord : Ordered (pre ++ q :: s :: c :: post) ↔ Before q s ∧ Before s c := by
    rw [ordered_append_cons, ordered_cons_cons, ordered_cons_cons]
    tauto
  -- `n` and `p` together, from the start of `n` on
  have hcut := @stop_eq_min_iff α _ s
    ⟨n.start, max n.stop p.stop, n.start_le.trans (le_max_left ..)⟩ c.start hs
  have hcut' := @stop_eq_min_iff α _ q p n.start hq
  rw [hord]
  constructor
  · rintro ⟨⟨hqs, hsc⟩, hcov⟩
    obtain ⟨h1, h2, h3⟩ := (covers_between_iff h hq hs hqs hsc).mp hcov
    exact ⟨⟨hq ▸ hs ▸ hqs.1, hs ▸ hsc.1⟩, (hcut' (hs ▸ hqs.2)).mp h1, (hcut hsc.2).mp h2, h3⟩
  · rintro ⟨⟨hpn, hnc⟩, hqstop, hsstop, h3⟩
    have hqs : Before q s := ⟨by rwa [hq, hs], by rw [hqstop, hs]; exact min_le_right ..⟩
    have hsc : Before s c := ⟨by rwa [hs], hsstop ▸ min_le_right ..⟩
    exact ⟨⟨hqs, hsc⟩, (covers_between_iff h hq hs hqs hsc).mpr
      ⟨(hcut' (hs ▸ hqs.2)).mpr hqstop, (hcut hsc.2).mpr hsstop, h3⟩⟩

end Put

end Extent

end LinuxNet
