import Mathlib.Data.BitVec
import Mathlib.Tactic.IntervalCases
import LinuxNet.Lib.Calendar
import LinuxNet.Lib.Except
import LinuxNet.Lib.Memory

/-!
# The time stamp of the log

`SIPFW_Localtime` of `sipfw_k_common.c`: the date and the time of day in UTC+8,
for the years from 2007 to 2012, by three tables. `unsigned int` is `BitVec 32`,
a read outside a table is a fault, and `time` is any number of seconds: whatever
the width of `unsigned long`, only 32 bits of the sum reach `sec`.

Both searches stop at the first entry that is not below the number they look
for (`below`). The entries are the numbers of *first* days, so a number equal
to an entry belongs behind it, but is taken to belong in front. That makes every
date the one of the day before (`localtime_day_before`), and leaves no place for the
first day of the tables and for the days of the last year: `localtime_iff` says exactly
at which readings of the clock the function stays inside its tables.
-/

namespace LinuxNet.Sipfw

/-! ## The function -/

/-- `struct tm`. -/
structure Tm where
  year : Nat
  mon : Nat
  mday : Nat
  hour : Nat
  min : Nat
  sec : Nat
  deriving DecidableEq, Repr

def daysSinceEpoch : List (BitVec 16) :=
  [13514#16, 13879#16, 14245#16, 14610#16, 14975#16, 15340#16]

def daysSinceYear : List (BitVec 16) :=
  [0#16, 31#16, 59#16, 90#16, 120#16, 151#16, 181#16, 212#16, 243#16, 273#16, 304#16, 334#16]

def daysSinceLeapyear : List (BitVec 16) :=
  [0#16, 31#16, 60#16, 91#16, 121#16, 152#16, 182#16, 213#16, 244#16, 274#16, 305#16, 335#16]

/-- The loop that looks for the year; it has no bound of its own. -/
def yearLoop (days : BitVec 32) :
    List (BitVec 16) → BitVec 32 → BitVec 32 → Except Fault (BitVec 32 × BitVec 32)
  | [], _, _ => .error .outOfBounds
  | d :: table, i, year =>
    if d.setWidth 32 < days then yearLoop days table (i + 1) (year + 1) else .ok (i, year)

/-- The loop that looks for the month; it stops at `i = 12`. -/
def monthLoop (days : BitVec 32) : List (BitVec 16) → BitVec 32 → BitVec 32
  | [], i => i
  | d :: table, i => if d.setWidth 32 < days then monthLoop days table (i + 1) else i

/-- `table[i]`. -/
def entry (table : List (BitVec 16)) (i : BitVec 32) : Except Fault (BitVec 32) :=
  match table[i.toNat]? with
  | some d => .ok (d.setWidth 32)
  | none => .error .outOfBounds

/-- The table of the months of a year. -/
def ydayOf (year : BitVec 32) : List (BitVec 16) :=
  if year % 4#32 = 0#32 ∧ (year % 100#32 ≠ 0#32 ∨ year % 400#32 = 0#32) then daysSinceLeapyear
  else daysSinceYear

/-- `SIPFW_Localtime`. -/
def sipfwLocaltime (time : Nat) : Except Fault Tm := do
  let sec := BitVec.ofNat 32 (time + 3600 * 8)
  let days := sec / 86400#32
  let sec := sec % 86400#32
  let hour := sec / 3600#32
  let sec := sec % 3600#32
  let (i, year) ← yearLoop days daysSinceEpoch 0#32 2007#32
  let year := year - 1#32
  let i := i - 1#32
  let since ← entry daysSinceEpoch i
  let days := days - since
  let yday := ydayOf year
  let i := monthLoop days yday 0#32
  let first ← entry yday (i - 1#32)
  return ⟨year.toNat, i.toNat, (days - first).toNat, hour.toNat, (sec / 60#32).toNat,
    (sec % 60#32).toNat⟩

/-- The result, from what the searches and the tables give. -/
theorem sipfwLocaltime_ok {time : Nat} {i year since first : BitVec 32}
    (hyear : yearLoop (BitVec.ofNat 32 (time + 3600 * 8) / 86400#32) daysSinceEpoch 0#32 2007#32 =
      .ok (i, year))
    (hsince : entry daysSinceEpoch (i - 1#32) = .ok since)
    (hfirst : entry (ydayOf (year - 1#32))
      (monthLoop (BitVec.ofNat 32 (time + 3600 * 8) / 86400#32 - since) (ydayOf (year - 1#32))
        0#32 - 1#32) = .ok first) :
    sipfwLocaltime time =
      .ok ⟨(year - 1#32).toNat,
        (monthLoop (BitVec.ofNat 32 (time + 3600 * 8) / 86400#32 - since) (ydayOf (year - 1#32))
          0#32).toNat,
        (BitVec.ofNat 32 (time + 3600 * 8) / 86400#32 - since - first).toNat,
        (BitVec.ofNat 32 (time + 3600 * 8) % 86400#32 / 3600#32).toNat,
        (BitVec.ofNat 32 (time + 3600 * 8) % 86400#32 % 3600#32 / 60#32).toNat,
        (BitVec.ofNat 32 (time + 3600 * 8) % 86400#32 % 3600#32 % 60#32).toNat⟩ := by
  rw [sipfwLocaltime]
  refine bind_eq_ok.mpr ⟨(i, year), hyear, ?_⟩
  refine bind_eq_ok.mpr ⟨since, hsince, ?_⟩
  exact bind_eq_ok.mpr ⟨first, hfirst, rfl⟩

/-! ## The searches -/

/-- How many entries of a table stand in front of the first that is not below a number. -/
def below (days : BitVec 32) (table : List (BitVec 16)) : Nat :=
  (table.takeWhile fun d => d.setWidth 32 < days).length

theorem yearLoop_eq (days : BitVec 32) (table : List (BitVec 16)) : ∀ i year : BitVec 32,
    yearLoop days table i year =
      if below days table < table.length then
        .ok (i + BitVec.ofNat 32 (below days table), year + BitVec.ofNat 32 (below days table))
      else .error .outOfBounds := by
  induction table with
  | nil =>
    intro i year
    rfl
  | cons d table ih =>
    intro i year
    rw [yearLoop, below, List.takeWhile_cons]
    by_cases h : d.setWidth 32 < days
    · rw [if_pos h, ih, decide_eq_true h, if_pos rfl, List.length_cons, List.length_cons]
      have hadd : ∀ x : BitVec 32, x + 1 + BitVec.ofNat 32 (below days table) =
          x + BitVec.ofNat 32 (below days table + 1) := fun x => by
        rw [BitVec.add_assoc, BitVec.add_comm 1, BitVec.ofNat_add]
        rfl
      simp only [hadd, Nat.succ_lt_succ_iff]
      rfl
    · rw [if_neg h, decide_eq_false h]
      simp

theorem monthLoop_eq (days : BitVec 32) (table : List (BitVec 16)) : ∀ i : BitVec 32,
    monthLoop days table i = i + BitVec.ofNat 32 (below days table) := by
  induction table with
  | nil =>
    intro i
    simp [monthLoop, below]
  | cons d table ih =>
    intro i
    rw [monthLoop, below, List.takeWhile_cons]
    by_cases h : d.setWidth 32 < days
    · rw [if_pos h, ih, decide_eq_true h, if_pos rfl, List.length_cons, BitVec.add_assoc,
        BitVec.add_comm 1, BitVec.ofNat_add]
      rfl
    · rw [if_neg h, decide_eq_false h]
      simp

/-- What the search has seen: an entry it passed is below the number, and the one it stopped
at is not. -/
theorem below_spec (days : BitVec 32) (table : List (BitVec 16)) :
    below days table ≤ table.length ∧
      (∀ k, k < below days table → ∀ d ∈ table[k]?, d.toNat < days.toNat) ∧
      ∀ d ∈ table[below days table]?, days.toNat ≤ d.toNat := by
  induction table with
  | nil => simp [below]
  | cons e table ih =>
    have hlt : e.setWidth 32 < days ↔ e.toNat < days.toNat := by
      rw [BitVec.lt_def, BitVec.toNat_setWidth, Nat.mod_eq_of_lt (by omega)]
    rw [below, List.takeWhile_cons]
    by_cases h : e.setWidth 32 < days
    · rw [decide_eq_true h, if_pos rfl, List.length_cons]
      refine ⟨Nat.succ_le_succ ih.1, fun k hk => ?_, ih.2.2⟩
      cases k with
      | zero =>
        intro d hd
        cases hd
        exact hlt.mp h
      | succ k => exact ih.2.1 k (Nat.lt_of_succ_lt_succ hk)
    · rw [decide_eq_false h]
      refine ⟨Nat.zero_le _, fun k hk => absurd hk (Nat.not_lt_zero k), fun d hd => ?_⟩
      cases hd
      exact Nat.not_lt.mp fun hd => h (hlt.mpr hd)

/-! ## The tables -/

/-- The day the count of the seconds begins on. -/
def unixEpoch : Date := ⟨1970, 1, 1, by decide, by decide, by decide, by decide⟩

theorem dayNumber_unixEpoch : unixEpoch.dayNumber = 719528 := by
  rw [Date.dayNumber, daysBeforeYear_eq (by decide)]
  rfl

/-- The entries of the first table are the first days of the years. -/
theorem daysSinceEpoch_get {k : Nat} (hk : k < 6) :
    ∃ d ∈ daysSinceEpoch[k]?, d.toNat + unixEpoch.dayNumber = daysBeforeYear (2007 + k) := by
  rw [dayNumber_unixEpoch, daysBeforeYear_eq (by omega)]
  interval_cases k
  all_goals exact ⟨_, rfl, rfl⟩

/-- The test on the year is that for leap years. -/
theorem ydayOf_eq (year : BitVec 32) :
    ydayOf year = if LeapYear year.toNat then daysSinceLeapyear else daysSinceYear := by
  have hmod : ∀ m : Nat, m < 4294967296 →
      (year % BitVec.ofNat 32 m = 0#32 ↔ year.toNat % m = 0) := by
    intro m hm
    rw [← BitVec.toNat_inj, BitVec.toNat_umod, BitVec.toNat_ofNat, Nat.mod_eq_of_lt hm]
    rfl
  unfold ydayOf LeapYear
  simp only [ne_eq, hmod 4 (by decide), hmod 100 (by decide), hmod 400 (by decide)]

/-- The entries of the other tables are the days in front of the months. -/
theorem ydayOf_get (year : BitVec 32) {k : Nat} (hk : k < 12) :
    ∃ d ∈ (ydayOf year)[k]?, d.toNat = daysBeforeMonth year.toNat (k + 1) := by
  rw [ydayOf_eq]
  by_cases h : LeapYear year.toNat
  · rw [if_pos h]
    interval_cases k
    all_goals exact ⟨_, rfl, by simp [daysBeforeMonth, daysInMonth, h]⟩
  · rw [if_neg h]
    interval_cases k
    all_goals exact ⟨_, rfl, by simp [daysBeforeMonth, daysInMonth, h]⟩

theorem entry_of_get {table : List (BitVec 16)} {k : Nat} {i : BitVec 32} {d : BitVec 16}
    (hi : i = BitVec.ofNat 32 k) (hk : k < 4294967296) (hd : d ∈ table[k]?) :
    entry table i = .ok (d.setWidth 32) := by
  rw [entry, hi, BitVec.toNat_ofNat, Nat.mod_eq_of_lt hk, hd]

/-- A day of the year, counted from 1, is in the month the search finds, and the entry in front
is the days of the year in front of that month. -/
theorem month_of_day {year n : BitVec 32} (h1 : 1 ≤ n.toNat)
    (h2 : n.toNat ≤ daysInYear year.toNat) :
    ∃ m : Nat, ∃ d ∈ (ydayOf year)[m - 1]?, below n (ydayOf year) = m ∧ 1 ≤ m ∧ m ≤ 12 ∧
      d.toNat = daysBeforeMonth year.toNat m ∧ daysBeforeMonth year.toNat m < n.toNat ∧
      n.toNat ≤ daysBeforeMonth year.toNat (m + 1) := by
  obtain ⟨hle, hpassed, hstop⟩ := below_spec n (ydayOf year)
  have hlength : (ydayOf year).length = 12 := by
    rw [ydayOf]
    split <;> rfl
  rw [hlength] at hle
  have hget := fun k => @ydayOf_get year k
  generalize below n (ydayOf year) = m at *
  -- the first entry is 0 and is passed
  have hm : 1 ≤ m := by
    by_contra h0
    obtain ⟨d, hd, hval⟩ := hget 0 (by decide)
    rw [show m = 0 by omega] at hstop
    have := hstop d hd
    rw [hval, daysBeforeMonth] at this
    omega
  obtain ⟨d, hd, hval⟩ := hget (m - 1) (by omega)
  rw [Nat.sub_add_cancel hm] at hval
  refine ⟨m, d, hd, rfl, hm, hle, hval, hval ▸ hpassed (m - 1) (by omega) d hd, ?_⟩
  rcases Nat.eq_or_lt_of_le hle with rfl | hlt
  · rwa [daysBeforeMonth_thirteen]
  · obtain ⟨d', hd', hval'⟩ := hget m hlt
    exact hval' ▸ hstop d' hd'

/-- The search for the year stops behind the years whose first day is in front of the day. -/
theorem year_of_day (days : BitVec 32) :
    below days daysSinceEpoch ≤ 6 ∧
      (∀ k, k < below days daysSinceEpoch →
        daysBeforeYear (2007 + k) < unixEpoch.dayNumber + days.toNat) ∧
      (below days daysSinceEpoch < 6 →
        unixEpoch.dayNumber + days.toNat ≤ daysBeforeYear (2007 + below days daysSinceEpoch)) := by
  obtain ⟨hle, hpassed, hstop⟩ := below_spec days daysSinceEpoch
  have hle6 : below days daysSinceEpoch ≤ 6 := hle
  refine ⟨hle6, fun k hk => ?_, fun hk => ?_⟩
  · obtain ⟨d, hd, hval⟩ := daysSinceEpoch_get (Nat.lt_of_lt_of_le hk hle6)
    have := hpassed k hk d hd
    omega
  · obtain ⟨d, hd, hval⟩ := daysSinceEpoch_get hk
    have := hstop d hd
    omega

/-- A day that is behind the first of January 2007, and not behind that of 2012, is found to be in
one of the five years. -/
theorem year_found {days : BitVec 32}
    (h1 : daysBeforeYear 2007 < unixEpoch.dayNumber + days.toNat)
    (h2 : unixEpoch.dayNumber + days.toNat ≤ daysBeforeYear 2012) :
    1 ≤ below days daysSinceEpoch ∧ below days daysSinceEpoch ≤ 5 ∧
      daysBeforeYear (2007 + (below days daysSinceEpoch - 1)) <
        unixEpoch.dayNumber + days.toNat ∧
      unixEpoch.dayNumber + days.toNat ≤ daysBeforeYear (2007 + below days daysSinceEpoch) := by
  obtain ⟨-, hpassed, hstop⟩ := year_of_day days
  generalize below days daysSinceEpoch = k at *
  have hk1 : 1 ≤ k := by
    by_contra hk
    have := (hstop (by omega)).trans (daysBeforeYear_mono (by omega : 2007 + k ≤ 2007))
    omega
  have hk5 : k ≤ 5 := by
    by_contra hk
    have := (hpassed 5 (by omega)).trans_le h2
    exact absurd this (Nat.lt_irrefl _)
  exact ⟨hk1, hk5, hpassed (k - 1) (by omega), hstop (by omega)⟩

/-- Days less an entry of a table. -/
theorem sub_entry_toNat {n : BitVec 32} {d : BitVec 16} (h : d.toNat ≤ n.toNat) :
    (n - d.setWidth 32).toNat = n.toNat - d.toNat := by
  have hd : (d.setWidth 32).toNat = d.toNat := by
    rw [BitVec.toNat_setWidth, Nat.mod_eq_of_lt (by omega)]
  rw [BitVec.toNat_sub_of_le (by rwa [BitVec.le_def, hd]), hd]

/-! ## What is printed -/

/-- The number of the day at an instant in UTC+8. -/
def localDayNumber (time : Nat) : Nat := unixEpoch.dayNumber + (time + 3600 * 8) / 86400

/-- The date of a `struct tm`. -/
def Tm.OnDate (tm : Tm) (d : Date) : Prop :=
  tm.year = d.year ∧ tm.mon = d.month ∧ tm.mday = d.day

/-- The time of day of a `struct tm`, of a number of seconds. -/
def Tm.AtClock (tm : Tm) (sec : Nat) : Prop :=
  tm.hour = sec % 86400 / 3600 ∧ tm.min = sec % 86400 % 3600 / 60 ∧
    tm.sec = sec % 86400 % 3600 % 60

/-- What `sec` holds at first: the seconds in UTC+8, as far as 32 bits do. -/
def localSec (time : Nat) : Nat := (time + 3600 * 8) % 4294967296

/-- The clock reads a time inside the tables: its day is one from the second of January 2007 to
the first of January 2012. -/
def InTables (time : Nat) : Prop :=
  13514 < localSec time / 86400 ∧ localSec time / 86400 ≤ 15340

instance (time : Nat) : Decidable (InTables time) :=
  inferInstanceAs (Decidable (_ ∧ _))

section

variable {time : Nat}

/-- The days, as they are taken from the seconds. -/
theorem days_toNat (time : Nat) :
    (BitVec.ofNat 32 (time + 3600 * 8) / 86400#32).toNat = localSec time / 86400 := by
  rw [BitVec.toNat_udiv, BitVec.toNat_ofNat]
  rfl

/-- The time of day, as it is taken from the rest. -/
theorem clock_toNat (time : Nat) :
    (BitVec.ofNat 32 (time + 3600 * 8) % 86400#32 / 3600#32).toNat =
        localSec time % 86400 / 3600 ∧
      (BitVec.ofNat 32 (time + 3600 * 8) % 86400#32 % 3600#32 / 60#32).toNat =
        localSec time % 86400 % 3600 / 60 ∧
      (BitVec.ofNat 32 (time + 3600 * 8) % 86400#32 % 3600#32 % 60#32).toNat =
        localSec time % 86400 % 3600 % 60 := by
  simp [localSec]

/-- The bounds of the tables are first days of a year. -/
theorem inTables_iff (time : Nat) :
    InTables time ↔ daysBeforeYear 2007 < unixEpoch.dayNumber + localSec time / 86400 ∧
      unixEpoch.dayNumber + localSec time / 86400 ≤ daysBeforeYear 2012 := by
  rw [InTables, dayNumber_unixEpoch, daysBeforeYear_eq (by decide), daysBeforeYear_eq (by decide)]
  omega

/-- **No place in the tables**: on the first of January 2007 the index of the first table wraps
around, and from the second of January 2012 on the search runs off its end. -/
theorem localtime_fault (h : ¬ InTables time) : sipfwLocaltime time = .error .outOfBounds := by
  have hdays := days_toNat time
  rw [inTables_iff, Classical.not_and_iff_not_or_not, Nat.not_lt, Nat.not_le] at h
  obtain ⟨hle, hpassed, hstop⟩ := year_of_day (BitVec.ofNat 32 (time + 3600 * 8) / 86400#32)
  rw [hdays] at hpassed hstop
  rw [sipfwLocaltime, yearLoop_eq]
  generalize below _ daysSinceEpoch = k at *
  rcases h with h | h
  · -- the search stops at once
    have hk : k = 0 := by
      by_contra hk
      have := hpassed 0 (by omega)
      rw [Nat.add_zero] at this
      omega
    subst hk
    rfl
  · have hk : k = 6 := by
      by_contra hk
      have := (hstop (by omega)).trans (daysBeforeYear_mono (by omega : 2007 + k ≤ 2012))
      omega
    subst hk
    rfl

/-- Inside the tables what is printed is the date of the day before, with the right time of day. -/
theorem localtime_inTables (h : InTables time) :
    ∃ tm d, sipfwLocaltime time = .ok tm ∧ tm.OnDate d ∧ tm.AtClock (localSec time) ∧
      d.dayNumber + 1 = unixEpoch.dayNumber + localSec time / 86400 := by
  have hdays := days_toNat time
  have hclock := clock_toNat time
  obtain ⟨h1, h2⟩ := (inTables_iff time).mp h
  have hloop := yearLoop_eq (BitVec.ofNat 32 (time + 3600 * 8) / 86400#32) daysSinceEpoch 0#32
    2007#32
  rw [← hdays] at h1 h2 ⊢
  obtain ⟨hk1, hk5, hlow, hhigh⟩ := year_found h1 h2
  generalize below _ daysSinceEpoch = k at *
  rw [if_pos (show k < daysSinceEpoch.length from Nat.lt_succ_of_le hk5), BitVec.zero_add] at hloop
  -- the year, and the day in it
  obtain ⟨since, hsince, hfirst⟩ := daysSinceEpoch_get (by omega : k - 1 < 6)
  have hrun := fun first => @sipfwLocaltime_ok time _ _ _ first hloop
    (entry_of_get (by bv_omega : BitVec.ofNat 32 k - 1#32 = BitVec.ofNat 32 (k - 1)) (by omega)
      hsince)
  have hyear : (2007#32 + BitVec.ofNat 32 k - 1#32).toNat = 2007 + (k - 1) := by bv_omega
  rw [show 2007 + k = 2007 + (k - 1) + 1 by omega, daysBeforeYear] at hhigh
  generalize BitVec.ofNat 32 (time + 3600 * 8) / 86400#32 = days at *
  have hn : (days - since.setWidth 32).toNat = days.toNat - since.toNat :=
    sub_entry_toNat (by omega)
  generalize 2007#32 + BitVec.ofNat 32 k - 1#32 = year at hrun hyear
  generalize days - since.setWidth 32 = n at hrun hn
  generalize 2007 + (k - 1) = y at hyear hlow hhigh hfirst
  subst hyear
  -- the month, and the day in it
  obtain ⟨m, before, hbefore, hm, hm1, hm12, hval, hmlow, hmhigh⟩ :=
    @month_of_day year n (by omega) (by omega)
  rw [daysBeforeMonth_succ hm1] at hmhigh
  have hmday : (n - before.setWidth 32).toNat = n.toNat - before.toNat :=
    sub_entry_toNat (by omega)
  rw [monthLoop_eq, hm, BitVec.zero_add] at hrun
  refine ⟨_, ⟨year.toNat, m, n.toNat - before.toNat, hm1, hm12, by omega, by omega⟩,
    hrun _ (entry_of_get (by bv_omega) (by omega) hbefore), ⟨rfl, ?_, hmday⟩, ?_, ?_⟩
  · show (BitVec.ofNat 32 m).toNat = m
    rw [BitVec.toNat_ofNat, Nat.mod_eq_of_lt (by omega)]
  · exact hclock
  · show daysBeforeYear year.toNat + daysBeforeMonth year.toNat m +
      (n.toNat - before.toNat - 1) + 1 = _
    omega

/-- **Inside the tables**: the function returns exactly at the readings of the clock that are in
its tables. -/
theorem localtime_iff (time : Nat) : (∃ tm, sipfwLocaltime time = .ok tm) ↔ InTables time := by
  by_cases h : InTables time
  · obtain ⟨tm, -, htm, -⟩ := localtime_inTables h
    exact iff_of_true ⟨tm, htm⟩ h
  · refine iff_of_false (fun hok => ?_) h
    obtain ⟨tm, htm⟩ := hok
    rw [localtime_fault h] at htm
    cases htm

/-- **The date of the day before**: wherever the function returns, at an instant whose seconds
32 bits hold, what it gives is the date of the day before, with the right time of day. -/
theorem localtime_day_before (hsec : time + 3600 * 8 < 4294967296) {tm : Tm}
    (h : sipfwLocaltime time = .ok tm) :
    ∃ d, tm.OnDate d ∧ tm.AtClock (time + 3600 * 8) ∧ d.dayNumber + 1 = localDayNumber time := by
  obtain ⟨tm', d, htm, hdate, hclock, hbefore⟩ :=
    localtime_inTables ((localtime_iff time).mp ⟨tm, h⟩)
  rw [h] at htm
  cases htm
  rw [localSec, Nat.mod_eq_of_lt hsec] at hclock hbefore
  exact ⟨d, hdate, hclock, hbefore⟩

/-- `SIPFW_Localtime` reads inside its tables and gives the date and the time of an instant. -/
def LocaltimeRight (time : Nat) (d : Date) : Prop :=
  ∃ tm, sipfwLocaltime time = .ok tm ∧ tm.OnDate d ∧ tm.AtClock (time + 3600 * 8)

/-- **No time stamp has the right date**, at any instant whose date in UTC+8 is in the years the
function is for. -/
theorem not_localtimeRight {d : Date} (hd : d.dayNumber = localDayNumber time)
    (h2007 : 2007 ≤ d.year) (h2012 : d.year ≤ 2012) : ¬ LocaltimeRight time d := by
  obtain ⟨hlow, hhigh⟩ := Date.dayNumber_mem_years h2007 h2012
  have hsec : time + 3600 * 8 < 4294967296 := by
    rw [hd, localDayNumber, dayNumber_unixEpoch, daysBeforeYear_eq (by decide)] at hhigh
    omega
  rintro ⟨tm, htm, ⟨hyear, hmon, hmday⟩, -⟩
  obtain ⟨d', ⟨hyear', hmon', hmday'⟩, -, hbefore⟩ := localtime_day_before hsec htm
  -- one date has one number
  have hsame : d'.dayNumber = d.dayNumber := by
    unfold Date.dayNumber
    rw [← hyear', ← hmon', ← hmday', hyear, hmon, hmday]
  omega

end

/-- The fifteenth of June 2010. -/
def june15 : Date := ⟨2010, 6, 15, by decide, by decide, by decide, by decide⟩

theorem dayNumber_june15 : june15.dayNumber = localDayNumber 1276560000 := by
  rw [localDayNumber, dayNumber_unixEpoch, Date.dayNumber, daysBeforeYear_eq (by decide)]
  rfl

theorem not_localtimeRight_june15 :
    june15.dayNumber = localDayNumber 1276560000 ∧ 2007 ≤ june15.year ∧ june15.year ≤ 2012 ∧
      ¬ LocaltimeRight 1276560000 june15 :=
  ⟨dayNumber_june15, by decide, by decide,
    not_localtimeRight dayNumber_june15 (by decide) (by decide)⟩

/-- On the fifteenth of June the log says the fourteenth. -/
theorem localtime_june14 :
    june15.dayNumber = localDayNumber 1276560000 ∧ ¬ LocaltimeRight 1276560000 june15 := by
  refine ⟨dayNumber_june15, ?_⟩
  rintro ⟨tm, htm, ⟨-, -, hmday⟩, -⟩
  have hrun : sipfwLocaltime 1276560000 = .ok ⟨2010, 6, 14, 8, 0, 0⟩ := by decide
  rw [hrun] at htm
  cases htm
  exact absurd hmday (by decide)

end LinuxNet.Sipfw
