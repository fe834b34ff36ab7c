import LinuxNet.Lib.Memory

/-!
# Singly linked lists

Cells at addresses, each with a pointer to the next one: `link p` is the pointer
in the cell at `p`, and `none` if there is no cell. `Linked link h l` says that
the pointer `h` leads through exactly the cells `l` to NULL; the list is then
the only one (`Linked.unique`) and repeats no cell (`Linked.nodup`).

The frame rules are what a proof about a program with lists needs: writing a
cell that is not on the way changes nothing (`Linked.congr`), and a cell can be
taken out by its predecessor (`Linked.unlink`). A pointer that leads to a cell
still leads there after the cell itself has been rewritten (`Linked.reaches`),
which is how one cell gets into two lists.

`cellsFrom` and `chase` are the two loops over a list, through to its end and up
to the first cell that passes a test. They are given fuel; on a linked list they
come to an end with one more than the number of cells.
-/

namespace LinuxNet

variable {α : Type}

/-- The pointer leads through the cells `l`, in this order, to NULL. -/
def Linked (link : α → Option (Option α)) : Option α → List α → Prop
  | h, [] => h = none
  | h, p :: l => h = some p ∧ ∃ next, link p = some next ∧ Linked link next l

namespace Linked

variable {link link' : α → Option (Option α)}

/-- A pointer leads through one list only. -/
theorem unique {l : List α} :
    ∀ {h : Option α} {l' : List α}, Linked link h l → Linked link h l' → l = l' := by
  induction l with
  | nil =>
    intro h l' h1 h2
    cases l' with
    | nil => rfl
    | cons p' l' => cases h1.symm.trans h2.1
  | cons p l ih =>
    intro h l' h1 h2
    cases l' with
    | nil => cases h2.symm.trans h1.1
    | cons p' l' =>
      obtain ⟨hh, n, hn, hl⟩ := h1
      obtain ⟨hh', n', hn', hl'⟩ := h2
      have hp : p = p' := Option.some.inj (hh.symm.trans hh')
      subst hp
      have hnn : n = n' := Option.some.inj (hn.symm.trans hn')
      subst hnn
      rw [ih hl hl']

/-- From a cell on the way the rest of the list is linked. -/
theorem suffix {pre : List α} {p : α} {post : List α} :
    ∀ {h : Option α}, Linked link h (pre ++ p :: post) → Linked link (some p) (p :: post) := by
  induction pre with
  | nil =>
    intro h hl
    exact ⟨rfl, hl.2⟩
  | cons q pre ih =>
    intro h hl
    obtain ⟨_, _, _, hrest⟩ := hl
    exact ih hrest

/-- A list that ends in NULL repeats no cell. -/
theorem nodup {l : List α} : ∀ {h : Option α}, Linked link h l → l.Nodup := by
  induction l with
  | nil =>
    intro h _
    exact List.nodup_nil
  | cons p l ih =>
    intro h hl
    obtain ⟨h1, next, hn, hrest⟩ := hl
    refine List.nodup_cons.mpr ⟨fun hmem => ?_, ih hrest⟩
    -- the list from the second occurrence on would be the list from the first
    obtain ⟨pre, post, rfl⟩ := List.append_of_mem hmem
    have hfirst : Linked link (some p) (p :: (pre ++ p :: post)) := ⟨rfl, next, hn, hrest⟩
    have hlen := congrArg List.length (unique hfirst (suffix hrest))
    simp only [List.length_cons, List.length_append] at hlen
    omega

/-- Every cell on the way is there. -/
theorem live {l : List α} :
    ∀ {h : Option α}, Linked link h l → ∀ p ∈ l, ∃ next, link p = some next := by
  induction l with
  | nil =>
    intro h _ p hp
    cases hp
  | cons p l ih =>
    intro h hl q hq
    obtain ⟨_, next, hn, hrest⟩ := hl
    rcases List.mem_cons.mp hq with rfl | hq
    · exact ⟨next, hn⟩
    · exact ih hrest q hq

/-- What comes behind a cell of the list is in it too. -/
theorem next_mem {p q : α} {l : List α} :
    ∀ {h : Option α}, Linked link h l → q ∈ l → link q = some (some p) → p ∈ l := by
  induction l with
  | nil =>
    intro h _ hq
    cases hq
  | cons r l ih =>
    intro h hl hq hn
    obtain ⟨-, next, hr, hl'⟩ := hl
    rcases List.mem_cons.mp hq with rfl | hq
    · obtain rfl : next = some p := Option.some.inj (hr.symm.trans hn)
      cases l with
      | nil => cases hl'
      | cons s l =>
        obtain rfl : p = s := Option.some.inj hl'.1
        exact List.mem_cons_of_mem _ (List.mem_cons_self ..)
    · exact List.mem_cons_of_mem _ (ih hl' hq hn)

/-- **Frame**: only the cells on the way matter. -/
theorem congr {l : List α} (heq : ∀ p ∈ l, link' p = link p) :
    ∀ {h : Option α}, Linked link h l → Linked link' h l := by
  induction l with
  | nil =>
    intro h hl
    exact hl
  | cons p l ih =>
    intro h hl
    obtain ⟨h1, next, hn, hrest⟩ := hl
    exact ⟨h1, next, (heq p (List.mem_cons_self ..)).trans hn,
      ih (fun q hq => heq q (List.mem_cons_of_mem _ hq)) hrest⟩

/-- A cell in front. -/
theorem cons {p : α} {next : Option α} {l : List α} (hp : link p = some next)
    (hl : Linked link next l) :
    Linked link (some p) (p :: l) := ⟨rfl, next, hp, hl⟩

/-- A cell that has been rewritten is still reached from where it was reached. -/
theorem reaches {pre : List α} {p : α} {post : List α} (heq : ∀ q ∈ pre, link' q = link q) :
    ∀ {h : Option α} {l' : List α}, Linked link h (pre ++ p :: post) → Linked link' h l' →
      ∃ post', l' = pre ++ p :: post' := by
  induction pre with
  | nil =>
    intro h l' hl hl'
    cases l' with
    | nil => cases hl'.symm.trans hl.1
    | cons p' l' =>
      have hp : p = p' := Option.some.inj (hl.1.symm.trans hl'.1)
      exact ⟨l', by rw [hp]; rfl⟩
  | cons q pre ih =>
    intro h l' hl hl'
    cases l' with
    | nil => cases hl'.symm.trans hl.1
    | cons q' l' =>
      obtain ⟨h1, n, hn, hl⟩ := hl
      obtain ⟨h1', n', hn', hl'⟩ := hl'
      have hq : q = q' := Option.some.inj (h1.symm.trans h1')
      subst hq
      have hlink : link q = some n' := (heq q (List.mem_cons_self ..)).symm.trans hn'
      have hnn : n = n' := Option.some.inj (hn.symm.trans hlink)
      subst hnn
      -- the two lists have the same first block and the same link from it
      obtain ⟨post', rfl⟩ := ih (fun r hr => heq r (List.mem_cons_of_mem _ hr)) hl hl'
      exact ⟨post', rfl⟩

/-- The cell behind `q` is taken out: `q` points where it pointed. -/
theorem unlink {pre : List α} {q p : α} {post : List α} (hq : link' q = link p)
    (heq : ∀ r, r ≠ q → r ≠ p → link' r = link r) : ∀ {h : Option α},
      Linked link h (pre ++ q :: p :: post) → Linked link' h (pre ++ q :: post) := by
  induction pre with
  | nil =>
    intro h hl
    have hnodup := hl.nodup
    obtain ⟨h1, _, _, _, next, hn, hpost⟩ := hl
    -- behind `p` neither of the two cells comes again
    have hqpost : q ∉ post := fun hm =>
      (List.nodup_cons.mp hnodup).1 (List.mem_cons_of_mem _ hm)
    have hppost : p ∉ post := (List.nodup_cons.mp (List.nodup_cons.mp hnodup).2).1
    exact ⟨h1, next, hq.trans hn, hpost.congr fun r hr =>
      heq r (fun he => hqpost (he ▸ hr)) (fun he => hppost (he ▸ hr))⟩
  | cons r pre ih =>
    intro h hl
    have hnotin := (List.nodup_cons.mp hl.nodup).1
    obtain ⟨h1, next, hn, hrest⟩ := hl
    have hrq : r ≠ q := fun he => hnotin (by simp [he])
    have hrp : r ≠ p := fun he => hnotin (by simp [he])
    exact ⟨h1, next, (heq r hrq hrp).trans hn, ih hrest⟩

end Linked

/-! ## The two loops over a list -/

/-- All cells from a pointer on, for a loop that goes through to the end. -/
def cellsFrom (link : α → Option (Option α)) : Nat → Option α → Except Fault (List α)
  | 0, _ => .error .diverges
  | _ + 1, none => .ok []
  | fuel + 1, some p =>
    match link p with
    | none => .error .useAfterFree
    | some next => (cellsFrom link fuel next).map (p :: ·)

/-- The first cell that passes a test, for a loop that stops there. -/
def chase (link : α → Option (Option α)) (test : α → Bool) :
    Nat → Option α → Except Fault (Option α)
  | 0, _ => .error .diverges
  | _ + 1, none => .ok none
  | fuel + 1, some p =>
    match link p with
    | none => .error .useAfterFree
    | some next => if test p = true then .ok (some p) else chase link test fuel next

variable {link : α → Option (Option α)}

theorem Linked.cellsFrom_eq {l : List α} : ∀ {h : Option α} {fuel : Nat}, Linked link h l →
    l.length < fuel → cellsFrom link fuel h = .ok l := by
  induction l with
  | nil =>
    intro h fuel hl hlt
    cases fuel with
    | zero => exact absurd hlt (Nat.not_lt_zero _)
    | succ fuel =>
      rw [show h = none from hl]
      rfl
  | cons p l ih =>
    intro h fuel hl hlt
    cases fuel with
    | zero => exact absurd hlt (Nat.not_lt_zero _)
    | succ fuel =>
      obtain ⟨h1, next, hn, hrest⟩ := hl
      rw [h1, cellsFrom, hn]
      dsimp only
      rw [ih hrest (Nat.lt_of_succ_lt_succ hlt)]
      rfl

theorem Linked.chase_eq {test : α → Bool} {l : List α} : ∀ {h : Option α} {fuel : Nat},
    Linked link h l → l.length < fuel → chase link test fuel h = .ok (l.find? test) := by
  induction l with
  | nil =>
    intro h fuel hl hlt
    cases fuel with
    | zero => exact absurd hlt (Nat.not_lt_zero _)
    | succ fuel =>
      rw [show h = none from hl]
      rfl
  | cons p l ih =>
    intro h fuel hl hlt
    cases fuel with
    | zero => exact absurd hlt (Nat.not_lt_zero _)
    | succ fuel =>
      obtain ⟨h1, next, hn, hrest⟩ := hl
      rw [h1, chase, hn]
      dsimp only
      by_cases ht : test p = true
      · rw [if_pos ht, List.find?_cons_of_pos ht]
      · rw [if_neg ht, List.find?_cons_of_neg ht, ih hrest (Nat.lt_of_succ_lt_succ hlt)]

/-- A list of cells below an address has no more cells than there are addresses. -/
theorem Linked.length_le {link : Nat → Option (Option Nat)} {h : Option Nat} {l : List Nat}
    {brk : Nat} (hl : Linked link h l) (hlt : ∀ p ∈ l, p < brk) : l.length ≤ brk := by
  have hsub : l ⊆ List.range brk := fun p hp => List.mem_range.mpr (hlt p hp)
  have hle := (List.subperm_of_subset hl.nodup hsub).length_le
  rwa [List.length_range] at hle

end LinuxNet
