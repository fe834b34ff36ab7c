import LinuxNet.Lib.Path

/-!
# The test of the path in `DHTTPD_HandleMethod`

Before anything else the server looks whether the address of the document leads
out of its root. It refuses an address that begins with `/../`, and counts: a
name in front of a slash is one down, `..` one up, and what comes out must not
be negative. Only the *final* count is looked at, and the name behind the last
slash is not counted.

The file that is opened is the address appended to `homePath`. An address that
begins with a slash and never climbs above its start is let through
(`not_outOfRoot`); one that climbs is refused only in the two cases above
(`outOfRoot_slash`). An address that does not begin with a slash is glued to the
last name of `homePath`, and the test lets it through to the directories beside it
(`outOfRoot_sibling`).
-/

namespace LinuxNet.Httpd

/-- A slash behind the name `dirName`, `prev` being the character in front of it. -/
def depthTurn (prev : Char) (dirName : CStr) (depthCount : Int) : Int :=
  if dirName ≠ ['.', '.'] then
    -- ignore ./
    if dirName ≠ ['.'] then
      -- count only the first of multiple separators
      if prev ≠ '/' then depthCount + 1 else depthCount
    else depthCount
  else depthCount - 1

/-- The loop over the address. -/
def depthLoop (prev : Char) (dirName : CStr) (depthCount : Int) : CStr → Int
  | [] => depthCount
  | c :: cs =>
    if c = '/' then depthLoop c [] (depthTurn prev dirName depthCount) cs
    else depthLoop c (dirName ++ [c]) depthCount cs

/-- `documentAddress` tries to get out of the root. -/
def outOfRoot (documentAddress : CStr) : Bool :=
  match documentAddress with
  | [] => false
  | c :: cs =>
    (3 < documentAddress.length && ['.', '.', '/'].isPrefixOf cs) || depthLoop c [] 0 cs < 0

/-! ## What the loop counts -/

theorem depthTurn_eq {prev : Char} {dirName : CStr} (h : dirName = [] ↔ prev = '/') (d : Int) :
    depthTurn prev dirName d = d + descent dirName := by
  rw [depthTurn, descent, staysPut, parent]
  by_cases hpar : dirName = ['.', '.']
  · subst hpar
    rfl
  · rw [if_pos hpar]
    by_cases hdot : dirName = ['.']
    · subst hdot
      simp
    · rw [if_pos hdot]
      by_cases hnil : dirName = []
      · subst hnil
        rw [if_neg (not_not.mpr (h.mp rfl))]
        simp
      · rw [if_pos (fun hp => hnil (h.mpr hp))]
        simp [hnil, hdot, hpar]

/-- From inside a name on, the loop adds up the names that a slash follows. -/
theorem depthLoop_eq (cs : CStr) : ∀ {prev : Char} {dirName : CStr} (d : Int),
    '/' ∉ dirName → (dirName = [] ↔ prev = '/') →
    depthLoop prev dirName d cs = d + depth (names (dirName ++ cs)).dropLast := by
  induction cs with
  | nil =>
    intro prev dirName d hname _
    rw [depthLoop, List.append_nil, names, List.splitOn_eq_singleton hname]
    exact (Int.add_zero d).symm
  | cons c cs ih =>
    intro prev dirName d hname hprev
    rw [depthLoop]
    split
    next hc =>
      subst hc
      rw [ih _ (List.not_mem_nil) (iff_of_true rfl rfl), depthTurn_eq hprev, List.nil_append,
        names, names, List.splitOn_append_cons_self_of_not_mem hname,
        List.dropLast_cons_of_ne_nil (List.splitOn_ne_nil _ _), depth_cons, Int.add_assoc]
    next hc =>
      have hname' : '/' ∉ dirName ++ [c] := by
        rw [List.mem_append, List.mem_singleton]
        exact fun h => h.elim hname fun he => hc he.symm
      have hprev' : dirName ++ [c] = [] ↔ c = '/' :=
        iff_of_false (List.append_ne_nil_of_right_ne_nil _ (List.cons_ne_nil c [])) hc
      rw [ih d hname' hprev', List.append_assoc, List.singleton_append]

/-- A name is taken in one go, up to the slash behind it. -/
theorem depthLoop_name {name : CStr} (hname : '/' ∉ name) (rest : CStr) :
    ∀ (prev : Char) (dirName : CStr) (d : Int), depthLoop prev dirName d (name ++ '/' :: rest)
      = depthLoop '/' [] (depthTurn (name.getLast?.getD prev) (dirName ++ name) d) rest := by
  induction name with
  | nil =>
    intro prev dirName d
    rw [List.nil_append, depthLoop, if_pos rfl, List.append_nil]
    rfl
  | cons x xs ih =>
    intro prev dirName d
    have hx : x ≠ '/' := fun h => hname (h ▸ List.mem_cons_self)
    rw [List.cons_append, depthLoop, if_neg hx, ih fun h => hname (List.mem_cons_of_mem x h),
      List.getLast?_cons, List.append_assoc, List.singleton_append]
    rfl

/-- An address with a leading slash is refused when it begins with `/../`, or when the names that
a slash follows lead up in all. -/
theorem outOfRoot_slash (rest : CStr) : outOfRoot ('/' :: rest) = true ↔
    ['.', '.', '/'] <+: rest ∨ depth (names rest).dropLast < 0 := by
  have hloop : depthLoop '/' [] 0 rest = depth (names rest).dropLast := by
    rw [depthLoop_eq rest 0 List.not_mem_nil (iff_of_true rfl rfl), List.nil_append, Int.zero_add]
  rw [outOfRoot, hloop, Bool.or_eq_true, Bool.and_eq_true, decide_eq_true_iff,
    List.isPrefixOf_iff_prefix, decide_eq_true_iff]
  constructor
  · exact Or.imp_left And.right
  · refine Or.imp_left fun h => ⟨?_, h⟩
    have := h.length_le
    rw [List.length_cons]
    simpa [Nat.lt_succ_iff] using this

/-- What is refused climbs above its start. -/
theorem climbs_of_outOfRoot {rest : CStr} (h : outOfRoot ('/' :: rest) = true) :
    Climbs (names rest) := by
  rcases (outOfRoot_slash rest).mp h with ⟨b, rfl⟩ | hd
  · refine ⟨1, ?_⟩
    show depth ((names (['.', '.'] ++ '/' :: b)).take 1) < 0
    rw [names, List.splitOn_append_cons_self_of_not_mem (by decide), List.take_succ_cons,
      List.take_zero]
    decide
  · exact ⟨(names rest).length - 1, by rwa [← List.dropLast_eq_take]⟩

/-- An address that begins with a slash and does not climb above its start at any point is let
through. -/
theorem not_outOfRoot {rest : CStr} (h : ¬ Climbs (names rest)) :
    outOfRoot ('/' :: rest) = false := by
  rw [← Bool.not_eq_true]
  exact fun hout => h (climbs_of_outOfRoot hout)

/-- `/a/../../b/c` is let through, and leads out of the root. -/
example : outOfRoot "/a/../../b/c".toList = false := by decide

/-! ## Without a leading slash -/

/-- Beside a root `base/last`, every directory whose name goes on from `last` is open: the address
of a file in it, given without a leading slash, is let through and leads there. -/
theorem outOfRoot_sibling {base last : CStr} {dir : List CStr} {c : Char} {cs rest : CStr}
    (hbase : resolve [] (names base) = some dir) (hlast : '/' ∉ last) (hcs : '/' ∉ c :: cs)
    (hdots : cs ≠ ['.'] ∧ cs ≠ ['.', '.']) (hname : descent (last ++ c :: cs) = 1)
    (hstay : ¬ Climbs (names rest)) :
    outOfRoot (c :: (cs ++ '/' :: rest)) = false ∧
      ∃ t, resolve [] (names (base ++ '/' :: last ++ c :: (cs ++ '/' :: rest)))
        = some (t ++ (last ++ c :: cs) :: dir) := by
  have hc : '/' ≠ c := fun h => hcs (h ▸ List.mem_cons_self)
  have hcs' : '/' ∉ cs := fun h => hcs (List.mem_cons_of_mem c h)
  constructor
  · -- the first name counts one down, and the others do not lead below that
    have hlastChar : cs.getLast?.getD c ≠ '/' := by
      cases hl : cs.getLast? with
      | none => exact fun h => hc h.symm
      | some x => exact fun h => hcs' (h ▸ List.mem_of_getLast? hl)
    have hturn : depthTurn (cs.getLast?.getD c) cs 0 = 1 := by
      rw [depthTurn, if_pos hdots.2, if_pos hdots.1, if_pos hlastChar, Int.zero_add]
    have hcount : depthLoop c [] 0 (cs ++ '/' :: rest) = 1 + depth (names rest).dropLast := by
      rw [depthLoop_name hcs', List.nil_append, hturn,
        depthLoop_eq rest 1 List.not_mem_nil (iff_of_true rfl rfl), List.nil_append]
    have hfirst : ¬ ['.', '.', '/'] <+: cs ++ '/' :: rest := by
      rintro ⟨b, hb⟩
      have h₁ : names (cs ++ '/' :: rest) = cs :: names rest :=
        List.splitOn_append_cons_self_of_not_mem hcs' rest
      have h₂ : names (['.', '.'] ++ '/' :: b) = ['.', '.'] :: names b :=
        List.splitOn_append_cons_self_of_not_mem (by decide) b
      rw [← hb] at h₁
      exact hdots.2 (List.cons.inj (h₁.symm.trans h₂)).1
    have hpos : 0 ≤ depth (names rest).dropLast := by
      rw [List.dropLast_eq_take]
      exact Int.not_lt.mp fun h => hstay ⟨_, h⟩
    rw [outOfRoot, hcount, Bool.or_eq_false_iff, Bool.and_eq_false_iff]
    refine ⟨Or.inr ?_, decide_eq_false (by omega)⟩
    rw [← Bool.not_eq_true, List.isPrefixOf_iff_prefix]
    exact hfirst
  · have hsplit : names (base ++ '/' :: last ++ c :: (cs ++ '/' :: rest))
        = names base ++ (last ++ c :: cs) :: names rest := by
      have hmem : '/' ∉ last ++ c :: cs := by
        rw [List.mem_append]
        exact fun h => h.elim hlast hcs
      rw [List.append_assoc, List.cons_append, names_append]
      congr 1
      rw [← List.cons_append, ← List.append_assoc, names,
        List.splitOn_append_cons_self_of_not_mem hmem]
      rfl
    have henter : enter dir (last ++ c :: cs) = some ((last ++ c :: cs) :: dir) := by
      rw [enter]
      rw [descent] at hname
      split at hname
      next => cases hname
      next hs =>
        split at hname
        next => cases hname
        next hp => rw [if_neg hs, if_neg hp]
    rw [hsplit, resolve_append, hbase, Option.bind_some, resolve_cons, henter]
    exact resolve_below hstay _

end LinuxNet.Httpd
