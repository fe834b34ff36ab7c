import LinuxNet.Lib.CStr
import Mathlib.Algebra.BigOperators.Group.List.Basic
import Mathlib.Data.List.Basic

/-!
# Paths, read by their names alone

A path is cut at its slashes into names. Read one after the other, an empty name
and `.` stay where they are, `..` goes up, and every other name goes down
(`resolve`); to go up from the top is to leave the tree the walk started in.

Whether a walk leaves the tree can be told from the depths it passes through
(`resolve_isSome_iff`), not from the depth it ends at.
-/

namespace LinuxNet

/-- A name that stays where it is. -/
def staysPut (name : CStr) : Bool := name = [] || name = ['.']

/-- The name of the directory above. -/
def parent : CStr := ['.', '.']

/-- The names of a path. -/
noncomputable def names (path : CStr) : List CStr := path.splitOn '/'

theorem names_ne_nil (path : CStr) : names path ≠ [] := List.splitOn_ne_nil _ _

theorem names_append (a b : CStr) : names (a ++ '/' :: b) = names a ++ names b :=
  List.splitOn_append_cons_self a b

/-- Where a name leads from a directory, given by the names from the root to it, the last one
first; `none` when it leads out of the tree. -/
def enter (dir : List CStr) (name : CStr) : Option (List CStr) :=
  if staysPut name then some dir
  else if name = parent then dir.tail?
  else some (name :: dir)

/-- Where a walk leads from a directory. -/
def resolve (dir : List CStr) (walk : List CStr) : Option (List CStr) := walk.foldlM enter dir

/-- How far a name goes down. -/
def descent (name : CStr) : Int := if staysPut name then 0 else if name = parent then -1 else 1

/-- How far a walk goes down in all. -/
def depth (walk : List CStr) : Int := (walk.map descent).sum

/-- The walk is at some point above where it started. -/
def Climbs (walk : List CStr) : Prop := ∃ k, depth (walk.take k) < 0

@[simp] theorem depth_nil : depth [] = 0 := rfl

@[simp] theorem depth_cons (name : CStr) (walk : List CStr) :
    depth (name :: walk) = descent name + depth walk := rfl

/-! ## Where a walk leads -/

theorem resolve_cons (dir : List CStr) (name : CStr) (walk : List CStr) :
    resolve dir (name :: walk) = (enter dir name).bind fun dir' => resolve dir' walk := rfl

/-- A walk is taken part by part. -/
theorem resolve_append (dir walk walk' : List CStr) :
    resolve dir (walk ++ walk') = (resolve dir walk).bind fun t => resolve t walk' :=
  List.foldlM_append

/-- A name leads out of the tree if it goes further up than the directory is deep. -/
theorem enter_none {dir : List CStr} {name : CStr} (h : enter dir name = none) :
    (dir.length : Int) + descent name < 0 := by
  rw [enter] at h
  split at h
  next => cases h
  next hs =>
    split at h
    next hp =>
      rw [descent, if_neg hs, if_pos hp]
      cases dir with
      | nil => decide
      | cons d up => cases h
    next => cases h

theorem enter_some {dir dir' : List CStr} {name : CStr} (h : enter dir name = some dir') :
    (dir'.length : Int) = dir.length + descent name := by
  rw [enter] at h
  split at h
  next hs =>
    cases h
    rw [descent, if_pos hs, Int.add_zero]
  next hs =>
    split at h
    next hp =>
      rw [descent, if_neg hs, if_pos hp]
      cases dir with
      | nil => cases h
      | cons d up =>
        cases h
        rw [List.length_cons]
        omega
    next hp =>
      cases h
      rw [descent, if_neg hs, if_neg hp, List.length_cons]
      omega

/-- What lies above a directory does not matter to a name that stays below. -/
theorem enter_append_dir {dir t : List CStr} {name : CStr} (above : List CStr)
    (h : enter dir name = some t) : enter (dir ++ above) name = some (t ++ above) := by
  rw [enter] at h ⊢
  split at h
  next hs =>
    cases h
    rw [if_pos hs]
  next hs =>
    rw [if_neg hs]
    split at h
    next hp =>
      rw [if_pos hp]
      cases dir with
      | nil => cases h
      | cons d up =>
        cases h
        rfl
    next hp =>
      cases h
      rw [if_neg hp, List.cons_append]

/-- A walk from a directory stays in the tree if and only if it never goes up further than the
directory is deep. -/
theorem resolve_isSome_iff (walk : List CStr) : ∀ dir : List CStr,
    (resolve dir walk).isSome = true ↔ ∀ k, 0 ≤ (dir.length : Int) + depth (walk.take k) := by
  induction walk with
  | nil =>
    intro dir
    refine iff_of_true rfl fun k => ?_
    rw [List.take_nil, depth_nil]
    omega
  | cons name walk ih =>
    intro dir
    rw [resolve_cons]
    cases he : enter dir name with
    | none =>
      refine iff_of_false Bool.false_ne_true fun h => ?_
      have hone := h 1
      rw [List.take_succ_cons, List.take_zero, depth_cons, depth_nil] at hone
      have := enter_none he
      omega
    | some dir' =>
      -- the rest of the walk starts where the name leads
      have hlen := enter_some he
      rw [Option.bind_some, ih]
      constructor
      · intro h k
        cases k with
        | zero =>
          rw [List.take_zero, depth_nil]
          omega
        | succ k =>
          rw [List.take_succ_cons, depth_cons]
          have := h k
          omega
      · intro h k
        have := h (k + 1)
        rw [List.take_succ_cons, depth_cons] at this
        omega

/-- What lies above a directory does not matter to a walk that stays below. -/
theorem resolve_append_dir (walk : List CStr) : ∀ {dir t : List CStr} (above : List CStr),
    resolve dir walk = some t → resolve (dir ++ above) walk = some (t ++ above) := by
  induction walk with
  | nil =>
    intro dir t above h
    cases h
    rfl
  | cons name walk ih =>
    intro dir t above h
    rw [resolve_cons] at h ⊢
    obtain ⟨dir', he, h⟩ := Option.bind_eq_some_iff.mp h
    rw [enter_append_dir above he]
    exact ih above h

/-- A walk that never climbs above its start ends below it. -/
theorem resolve_below {walk : List CStr} (h : ¬ Climbs walk) (dir : List CStr) :
    ∃ t, resolve dir walk = some (t ++ dir) := by
  have hsome : (resolve [] walk).isSome = true := by
    rw [resolve_isSome_iff]
    intro k
    rw [List.length_nil]
    rcases Int.lt_or_le (depth (walk.take k)) 0 with hk | hk
    · exact absurd ⟨k, hk⟩ h
    · omega
  obtain ⟨t, ht⟩ := Option.isSome_iff_exists.mp hsome
  exact ⟨t, resolve_append_dir walk dir ht⟩

/-- A beginning of a walk that does not climb does not either. -/
theorem not_climbs_left {walk walk' : List CStr} (h : ¬ Climbs (walk ++ walk')) : ¬ Climbs walk := by
  rintro ⟨k, hk⟩
  refine h ⟨min k walk.length, ?_⟩
  rwa [List.take_append_of_le_length (Nat.min_le_right ..), List.take_eq_take_min.symm]

/-- A walk that goes on with a name that does not lead up does not climb. -/
theorem not_climbs_concat {walk : List CStr} {name : CStr} (h : ¬ Climbs walk)
    (hname : 0 ≤ descent name) : ¬ Climbs (walk ++ [name]) := by
  rintro ⟨k, hk⟩
  rcases Nat.lt_or_ge walk.length k with hlt | hle
  · -- the whole walk, and the name
    have hall : ¬ depth walk < 0 := fun hd => h ⟨walk.length, by rwa [List.take_length]⟩
    rw [List.take_of_length_le (by simpa using hlt), depth, List.map_append, List.sum_append] at hk
    simp only [List.map_cons, List.map_nil, List.sum_cons, List.sum_nil, Int.add_zero] at hk
    unfold depth at hall
    omega
  · rw [List.take_append_of_le_length hle] at hk
    exact h ⟨k, hk⟩

/-- A walk to a place in the directory itself does not climb. -/
theorem not_climbs_singleton {name : CStr} (h : 0 ≤ descent name) : ¬ Climbs [name] :=
  @not_climbs_concat [] name (fun hc => by
    obtain ⟨k, hk⟩ := hc
    rw [List.take_nil] at hk
    exact absurd hk (by decide)) h

/-! ## Names that go on -/

/-- What has no slash and is put behind a path goes to its last name. -/
theorem names_append_name (a : CStr) {b : CStr} (hb : '/' ∉ b) :
    ∃ dirs last, names a = dirs ++ [last] ∧ names (a ++ b) = dirs ++ [last ++ b] := by
  induction a with
  | nil => exact ⟨[], [], rfl, List.splitOn_eq_singleton hb⟩
  | cons c a ih =>
    obtain ⟨dirs, last, ha, hab⟩ := ih
    have hcons : ∀ s : CStr, names (c :: s)
        = if c == '/' then [] :: names s else (names s).modifyHead (List.cons c) :=
      fun s => List.splitOn_cons_eq_if_modifyHead c s
    by_cases hc : (c == '/') = true
    · refine ⟨[] :: dirs, last, ?_, ?_⟩
      · rw [hcons, if_pos hc, ha]
        rfl
      · rw [List.cons_append, hcons, if_pos hc, hab]
        rfl
    · rw [hcons, if_neg hc, ha, List.cons_append, hcons, if_neg hc, hab]
      cases dirs with
      | nil => exact ⟨[], c :: last, rfl, rfl⟩
      | cons d dirs => exact ⟨(c :: d) :: dirs, last, rfl, rfl⟩

/-- What has no slash and is appended to the last name of a path does not change its directories. -/
theorem names_dropLast_append (a : CStr) {b : CStr} (hb : '/' ∉ b) :
    (names (a ++ b)).dropLast = (names a).dropLast := by
  obtain ⟨dirs, last, ha, hab⟩ := names_append_name a hb
  rw [ha, hab, List.dropLast_concat, List.dropLast_concat]

/-- A file name that is not made of dots alone leads down, whatever is in front of it. -/
theorem descent_append {a b : CStr} (hb : ∃ c ∈ b, c ≠ '.') : descent (a ++ b) = 1 := by
  obtain ⟨c, hc, hne⟩ := hb
  have hmem : c ∈ a ++ b := List.mem_append.mpr (.inr hc)
  have hput : staysPut (a ++ b) = false := by
    rw [staysPut, Bool.or_eq_false_iff, decide_eq_false_iff_not, decide_eq_false_iff_not]
    constructor
    · intro h
      rw [h] at hmem
      cases hmem
    · intro h
      rw [h] at hmem
      exact hne (List.mem_singleton.mp hmem)
  have hpar : a ++ b ≠ parent := by
    intro h
    rw [h] at hmem
    exact hne (by simpa [parent] using hmem)
  rw [descent, hput, if_neg Bool.false_ne_true, if_neg hpar]

end LinuxNet
