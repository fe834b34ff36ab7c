import Mathlib.Data.List.Infix
import Mathlib.Data.List.Basic

/-!
# Replacing a token by one element

`strstr` is the first place where a token stands in a list. Two ways of
replacing every occurrence of the token by a single element are compared: one
pass from left to right (`replaceAll`), and searching again from the start
after each replacement. The second way could go wrong by making new
occurrences; `replaceAll_step` says that it does not, as long as what is put in
does not occur in the token, and `exists_replaceAll_clean` that it comes to an
end with nothing left to replace.

`escape` is the way back. A token whose first element does not recur in it
cannot overlap itself, and then `replaceAll_escape` says exactly which lists
survive the round trip.
-/

namespace LinuxNet

variable {α : Type} [DecidableEq α]

/-- The first position at which `tok` stands in the list. -/
def strstr (tok : List α) : List α → Option Nat
  | [] => if tok = [] then some 0 else none
  | x :: xs => if tok.isPrefixOf (x :: xs) then some 0 else (strstr tok xs).map (· + 1)

/-- One pass over a list, of which the first `k` elements are to be skipped. -/
def replaceFrom (tok : List α) (c : α) : Nat → List α → List α
  | _, [] => []
  | k + 1, _ :: xs => replaceFrom tok c k xs
  | 0, x :: xs =>
    if tok.isPrefixOf (x :: xs) then c :: replaceFrom tok c (tok.length - 1) xs
    else x :: replaceFrom tok c 0 xs

/-- Every occurrence of `tok`, from left to right, replaced by `c`. -/
def replaceAll (tok : List α) (c : α) (s : List α) : List α := replaceFrom tok c 0 s

/-- Every `c` written as `tok`. -/
def escape (tok : List α) (c : α) (s : List α) : List α :=
  s.flatMap fun x => if x = c then tok else [x]

variable {tok : List α} {c : α}

/-! ## Searching -/

theorem strstr_some {s : List α} : ∀ {p : Nat}, strstr tok s = some p →
    tok <+: s.drop p ∧ p ≤ s.length ∧ ∀ i < p, ¬ tok <+: s.drop i := by
  induction s with
  | nil =>
    intro p h
    rw [strstr] at h
    split at h
    next ht =>
      cases h
      exact ⟨by rw [ht]; exact List.nil_prefix, Nat.le_refl _, fun i hi => absurd hi (by omega)⟩
    next => cases h
  | cons x xs ih =>
    intro p h
    rw [strstr] at h
    split at h
    next ht =>
      cases h
      exact ⟨List.isPrefixOf_iff_prefix.mp ht, Nat.zero_le _, fun i hi => absurd hi (by omega)⟩
    next ht =>
      obtain ⟨q, hq, rfl⟩ := Option.map_eq_some_iff.mp h
      obtain ⟨hat, hle, hmin⟩ := ih hq
      refine ⟨hat, by rw [List.length_cons]; omega, fun i hi => ?_⟩
      cases i with
      | zero => exact fun hp => ht (List.isPrefixOf_iff_prefix.mpr hp)
      | succ i => exact hmin i (by omega)

theorem strstr_none {s : List α} (h : strstr tok s = none) : ∀ i, ¬ tok <+: s.drop i := by
  induction s with
  | nil =>
    intro i hp
    rw [strstr] at h
    rw [List.drop_nil, List.prefix_nil] at hp
    rw [if_pos hp] at h
    cases h
  | cons x xs ih =>
    rw [strstr] at h
    split at h
    next => cases h
    next ht =>
      intro i
      cases i with
      | zero => exact fun hp => ht (List.isPrefixOf_iff_prefix.mpr hp)
      | succ i => exact ih (Option.map_eq_none_iff.mp h) i

/-- The search fails on exactly the lists that do not contain the token. -/
theorem strstr_eq_none_iff {s : List α} : strstr tok s = none ↔ ¬ tok <:+: s := by
  constructor
  · rintro h ⟨a, b, rfl⟩
    apply strstr_none h a.length
    rw [List.append_assoc, List.drop_left]
    exact List.prefix_append _ _
  · intro h
    cases hs : strstr tok s with
    | none => rfl
    | some p =>
      exact absurd ((strstr_some hs).1.isInfix.trans (List.drop_suffix p s).isInfix) h

/-! ## One pass -/

theorem replaceFrom_drop (k : Nat) : ∀ s : List α,
    replaceFrom tok c k s = replaceAll tok c (s.drop k) := by
  induction k with
  | zero => intro s; rw [List.drop_zero]; rfl
  | succ k ih =>
    intro s
    cases s with
    | nil => rfl
    | cons x xs => exact ih xs

/-- An occurrence at the front is replaced, and the pass goes on behind it. -/
theorem replaceAll_at {s : List α} (ht : tok ≠ []) (h : tok <+: s) :
    replaceAll tok c s = c :: replaceAll tok c (s.drop tok.length) := by
  have hpos : 0 < tok.length := List.length_pos_iff.mpr ht
  cases s with
  | nil => exact absurd (List.prefix_nil.mp h) ht
  | cons x xs =>
    rw [replaceAll, replaceFrom, if_pos (List.isPrefixOf_iff_prefix.mpr h), replaceFrom_drop]
    obtain ⟨n, hn⟩ : ∃ n, tok.length = n + 1 := ⟨tok.length - 1, by omega⟩
    rw [hn, Nat.add_sub_cancel, List.drop_succ_cons]

/-- Without an occurrence at the front the first element is kept. -/
theorem replaceAll_cons {x : α} {xs : List α} (h : ¬ tok <+: x :: xs) :
    replaceAll tok c (x :: xs) = x :: replaceAll tok c xs := by
  rw [replaceAll, replaceFrom, if_neg (fun hp => h (List.isPrefixOf_iff_prefix.mp hp))]
  rfl

/-- What stands before the first occurrence is kept. -/
theorem replaceAll_clean (p : Nat) : ∀ {s : List α}, (∀ i < p, ¬ tok <+: s.drop i) →
    replaceAll tok c s = s.take p ++ replaceAll tok c (s.drop p) := by
  induction p with
  | zero => intro s _; rfl
  | succ p ih =>
    intro s h
    cases s with
    | nil => rfl
    | cons x xs =>
      rw [replaceAll_cons (h 0 (Nat.succ_pos p)), ih fun i hi => h (i + 1) (Nat.succ_lt_succ hi)]
      rfl

theorem replaceAll_of_none {s : List α} (h : strstr tok s = none) : replaceAll tok c s = s := by
  rw [replaceAll_clean s.length fun i _ => strstr_none h i, List.take_length, List.drop_length]
  exact List.append_nil s

theorem mem_replaceFrom {x : α} (s : List α) : ∀ k : Nat,
    x ∈ replaceFrom tok c k s → x = c ∨ x ∈ s := by
  induction s with
  | nil =>
    intro k h
    cases k <;> exact .inr h
  | cons y ys ih =>
    intro k h
    cases k with
    | succ k => exact (ih k h).imp_right (List.mem_cons_of_mem y)
    | zero =>
      rw [replaceFrom] at h
      split at h
      next =>
        rcases List.mem_cons.mp h with h | h
        · exact .inl h
        · exact (ih _ h).imp_right (List.mem_cons_of_mem y)
      next =>
        rcases List.mem_cons.mp h with rfl | h
        · exact .inr List.mem_cons_self
        · exact (ih _ h).imp_right (List.mem_cons_of_mem y)

/-- Nothing is put in but `c`. -/
theorem mem_replaceAll {x : α} {s : List α} (h : x ∈ replaceAll tok c s) : x = c ∨ x ∈ s :=
  mem_replaceFrom s 0 h

/-! ## Again from the start -/

/-- The list with the occurrence of `tok` at `p` replaced by `c`. -/
def replaceStep (tok : List α) (c : α) (s : List α) (p : Nat) : List α :=
  s.take p ++ c :: s.drop (p + tok.length)

omit [DecidableEq α] in
/-- Up to and including the replacement nothing is left to replace: an
occurrence there would contain `c`, or have stood there before. -/
theorem replaceStep_clean {s : List α} {p : Nat} (hc : c ∉ tok) (ht : tok ≠ [])
    (hp : p ≤ s.length) (hmin : ∀ i < p, ¬ tok <+: s.drop i) :
    ∀ i < p + 1, ¬ tok <+: (replaceStep tok c s p).drop i := by
  intro i hi h
  have hlen : (s.take p).length = p := List.length_take_of_le hp
  rw [replaceStep, List.drop_append_of_le_length (by omega)] at h
  have hlen' : ((s.take p).drop i).length = p - i := by rw [List.length_drop, hlen]
  rcases Nat.lt_or_ge (p - i) tok.length with hlt | hge
  · -- the token reaches as far as the element put in
    apply hc
    have hget := List.prefix_iff_getElem?.mp h (p - i) hlt
    rw [List.getElem?_append_right (by omega), hlen', Nat.sub_self] at hget
    rw [show c = tok[p - i] from Option.some.inj hget]
    exact List.getElem_mem hlt
  · have hpos : 0 < tok.length := List.length_pos_iff.mpr ht
    apply hmin i (by omega)
    have hin := List.prefix_of_prefix_length_le h (List.prefix_append _ _) (by omega)
    exact hin.trans ((List.take_prefix p s).drop i)

/-- One replacement does not change what the single pass makes of the list. -/
theorem replaceAll_step {s : List α} {p : Nat} (hc : c ∉ tok) (ht : tok ≠ [])
    (h : strstr tok s = some p) :
    replaceAll tok c (replaceStep tok c s p) = replaceAll tok c s := by
  obtain ⟨hat, hp, hmin⟩ := strstr_some h
  have hlen : (s.take p ++ [c]).length = p + 1 := by
    rw [List.length_append, List.length_take_of_le hp, List.length_singleton]
  have hstep : replaceStep tok c s p = (s.take p ++ [c]) ++ s.drop (p + tok.length) := by
    rw [replaceStep, List.append_assoc, List.singleton_append]
  rw [replaceAll_clean (p + 1) (replaceStep_clean hc ht hp hmin), replaceAll_clean p hmin,
    replaceAll_at ht hat, List.drop_drop, hstep, List.take_left' hlen, List.drop_left' hlen,
    List.append_assoc, List.singleton_append]

/-- A replacement makes the list shorter. -/
theorem length_replaceStep {s : List α} {p : Nat} (h : strstr tok s = some p) :
    (replaceStep tok c s p).length + tok.length = s.length + 1 := by
  obtain ⟨hat, hp, -⟩ := strstr_some h
  have hle := hat.length_le
  rw [List.length_drop] at hle
  rw [replaceStep, List.length_append, List.length_take_of_le hp, List.length_cons,
    List.length_drop]
  omega

/-- The single pass leaves no occurrence of the token behind. -/
theorem not_infix_replaceAll (hc : c ∉ tok) (ht : 2 ≤ tok.length) (n : Nat) :
    ∀ s : List α, s.length ≤ n → ¬ tok <:+: replaceAll tok c s := by
  have hne : tok ≠ [] := List.length_pos_iff.mp (by omega)
  induction n with
  | zero =>
    intro s hs
    rw [List.length_eq_zero_iff.mp (Nat.le_zero.mp hs)]
    exact fun h => hne (List.infix_nil.mp h)
  | succ n ih =>
    intro s hs
    cases h : strstr tok s with
    | none =>
      rw [replaceAll_of_none h]
      exact strstr_eq_none_iff.mp h
    | some p =>
      -- the list after one replacement is shorter and comes to the same
      have hlen := length_replaceStep (c := c) h
      rw [← replaceAll_step hc hne h]
      exact ih _ (by omega)

/-! ## The way back -/

theorem escape_cons (x : α) (xs : List α) :
    escape tok c (x :: xs) = (if x = c then tok else [x]) ++ escape tok c xs := rfl

/-- What stands in front of a written list and avoids the token's first element
stood in front of the list itself. -/
theorem prefix_of_prefix_escape {t : α} {ts : List α} {l : List α} (htok : tok = t :: ts)
    (hl : t ∉ l) : ∀ {s : List α}, l <+: escape tok c s → l <+: s := by
  induction l with
  | nil => intro s _; exact List.nil_prefix
  | cons a l ih =>
    intro s h
    cases s with
    | nil => exact h
    | cons y ys =>
      rw [escape_cons] at h
      by_cases hy : y = c
      · rw [if_pos hy, htok, List.cons_append, List.cons_prefix_cons] at h
        exact absurd (h.1 ▸ List.mem_cons_self) hl
      · rw [if_neg hy, List.singleton_append, List.cons_prefix_cons] at h
        rw [List.cons_prefix_cons]
        exact ⟨h.1, ih (fun hm => hl (List.mem_cons_of_mem a hm)) h.2⟩

/-- A list survives being written with `tok` for `c` and read back if and only
if the token does not occur in it. -/
theorem replaceAll_escape {t : α} {ts : List α} (htok : tok = t :: ts) (ht : t ∉ ts)
    (hts : ts ≠ []) (hc : c ∉ tok) (s : List α) :
    replaceAll tok c (escape tok c s) = s ↔ ¬ tok <:+: s := by
  have hne : tok ≠ [] := htok ▸ List.cons_ne_nil t ts
  constructor
  · intro h
    rw [← h]
    refine not_infix_replaceAll hc ?_ _ _ (Nat.le_refl _)
    rw [htok, List.length_cons]
    have := List.length_pos_iff.mpr hts
    omega
  · intro h
    induction s with
    | nil => rfl
    | cons x xs ih =>
      have hxs : replaceAll tok c (escape tok c xs) = xs :=
        ih fun hi => h (hi.trans (List.suffix_cons x xs).isInfix)
      rw [escape_cons]
      by_cases hx : x = c
      · rw [if_pos hx, replaceAll_at hne (List.prefix_append _ _), List.drop_left, hxs, hx]
      · rw [if_neg hx, List.singleton_append, replaceAll_cons, hxs]
        -- an occurrence at the front of the written list is one in the list
        intro hp
        have hcons : t :: ts <+: x :: escape tok c xs := htok ▸ hp
        rw [List.cons_prefix_cons] at hcons
        have hfront : t :: ts <+: x :: xs :=
          List.cons_prefix_cons.mpr ⟨hcons.1, prefix_of_prefix_escape htok ht hcons.2⟩
        rw [htok] at h
        exact h hfront.isInfix

end LinuxNet
