import LinuxNet.Sipfw.Effects

/-!
# Conservation of rule cells

Every command takes one fresh cell, and each handler has to settle it: link it
into a chain or give it back. A command conserves the cells if those linked
before and the fresh one are, as a multiset, those linked after and those
freed; where the cells before are distinct, none is then lost, freed twice, or
freed and still linked.

INSERT in the middle drops the rule it unlinks, DELETE and REPLACE forget their
own cell where nothing is found, an unknown command always does, and the loops
of FLUSH and `SIPFW_ListDestroy` free a rule when they have passed it, so that
the last rule of all is never freed. `conserved_iff` has the exact conditions.
-/

namespace LinuxNet.Sipfw

/-- The cells linked into some of the chains. -/
def linked (cs : List Chain) (t : SipfwTables) : List Nat :=
  cs.flatMap fun c => (t c).rule.map (·.cell)

/-- The three chains, in the order of `sipfw_tables`. -/
def allChains : List Chain := [.input, .output, .forward]

/-- `SIPFW_ListDestroy`: the loops of FLUSH over all three chains. -/
def listDestroy (t : SipfwTables) : SipfwTables × List Nat := flushChains none allChains t

/-- The cells before are the cells after and the cells freed. -/
def Conserved (before after : SipfwTables) (fresh freed : List Nat) : Prop :=
  (linked allChains before ++ fresh).Perm (linked allChains after ++ freed)

/-- A command gets through and conserves the cells. -/
def CommandConserves (t : SipfwTables) (req : Request) : Prop :=
  ∃ out, doAction req.mem req.pid req.opts t = .ok out ∧
    Conserved t out.tables [req.mem.cell] out.freed

/-- `SIPFW_ListDestroy`, with no fresh cell. -/
def DestroyConserves (t : SipfwTables) : Prop :=
  Conserved t (listDestroy t).1 [] (listDestroy t).2

/-- When an editing handler settles every cell. -/
def Settles (cmd : Cmd) (rule : SipfwRules) (number : Int) (l : SipfwList) : Prop :=
  match cmd with
  | .insert => number = 1 ∨ l.rule ≠ [] ∧ l.number < number
  | .delete => ¬ (number = -1 ∧ -1 ≤ l.number ∧ ¬ ∃ cur ∈ l.rule, sameRule cur rule = true)
  | .replace => Position number l.rule ∨ number = -1 ∧ l.number < -1
  | .append | .list | .flush => True

/-- When a command settles every cell. -/
def Request.Settles (req : Request) (t : SipfwTables) : Prop :=
  match req.cmd with
  | none => False
  | some .list => ∃ cs, chainsFrom req.rule.chain = .ok cs
  | some .flush => ∃ cs, chainsFrom req.rule.chain = .ok cs ∧ ∀ c ∈ cs, (t c).rule = []
  | some cmd => ∃ c, req.chain = some c ∧ Sipfw.Settles cmd req.rule req.number (t c)

/-! ## One chain -/

/-- A handler gets through and conserves the cells of its chain. -/
def HandlerConserves (rule : SipfwRules) (l : SipfwList) (h : Except Fault Handled) : Prop :=
  match h with
  | .ok hd => (l.rule.map (·.cell) ++ [rule.cell]).Perm (hd.list.rule.map (·.cell) ++ hd.freed)
  | .error _ => False

section Handlers

variable {rule : SipfwRules} {number : Int} {l : SipfwList}

/-- What is not of the same number is not conserved. -/
theorem not_conserved {hd : Handled}
    (h : hd.list.rule.length + hd.freed.length ≠ l.rule.length + 1) :
    ¬ HandlerConserves rule l (.ok hd) := by
  intro hp
  have := List.Perm.length_eq hp
  simp only [List.length_append, List.length_map, List.length_singleton] at this
  omega

/-- An unlinked rule that is freed, together with the fresh cell. -/
theorem unlinked_conserved {prev next : List SipfwRules} {cur : SipfwRules} {n : Int}
    (hl : l.rule = prev ++ cur :: next) :
    HandlerConserves rule l (.ok ⟨⟨prev ++ next, n⟩, [cur.cell, rule.cell], 0⟩) := by
  refine List.perm_iff_count.mpr fun a => ?_
  simp only [hl, List.map_append, List.map_cons, List.count_append, List.count_cons, List.count_nil]
  omega

/-- A rule that takes the place of a freed one. -/
theorem replaced_conserved {prev next : List SipfwRules} {cur : SipfwRules} {n : Int}
    (hl : l.rule = prev ++ cur :: next) :
    HandlerConserves rule l (.ok ⟨⟨prev ++ rule :: next, n⟩, [cur.cell], 0⟩) := by
  refine List.perm_iff_count.mpr fun a => ?_
  simp only [hl, List.map_append, List.map_cons, List.count_append, List.count_cons, List.count_nil]
  omega

/-- Nothing linked, and the fresh cell freed. -/
theorem untouched_conserved : HandlerConserves rule l (.ok ⟨l, [rule.cell], 0⟩) := List.Perm.refl _

theorem ruleDelete_conserves :
    HandlerConserves rule l (ruleDelete rule number l) ↔ Settles .delete rule number l := by
  by_cases h1 : number = -1
  · subst h1
    by_cases hn : -1 ≤ l.number
    · by_cases hs : ∃ cur ∈ l.rule, sameRule cur rule = true
      · obtain ⟨prev, cur, next, hl, -, hr⟩ := ruleDelete_same hn hs
        rw [hr]
        exact iff_of_true (unlinked_conserved hl) fun h => h.2.2 hs
      · rw [ruleDelete_different hn hs]
        -- no rule is equal, and the cell made for the request is not freed
        exact iff_of_false (not_conserved (by simp)) fun h => h ⟨rfl, hn, hs⟩
    · rw [ruleDelete_off (.inl (by omega))]
      exact iff_of_true untouched_conserved fun h => hn h.2.1
  · have hset : Settles .delete rule number l := fun h => h1 h.1
    by_cases hn : l.number < number
    · rw [ruleDelete_off (.inl hn)]
      exact iff_of_true untouched_conserved hset
    · by_cases hp : Position number l.rule
      · obtain ⟨prev, cur, next, hl, -, hr⟩ := @ruleDelete_position rule _ _ (by omega) hp
        rw [hr]
        exact iff_of_true (unlinked_conserved hl) hset
      · rw [ruleDelete_off (.inr ⟨h1, hp⟩)]
        exact iff_of_true untouched_conserved hset

theorem ruleReplace_conserves :
    HandlerConserves rule l (ruleReplace rule number l) ↔ Settles .replace rule number l := by
  by_cases hp : Position number l.rule
  · obtain ⟨prev, cur, next, hl, -, hr⟩ := @ruleReplace_position rule _ _ hp
    rw [hr]
    exact iff_of_true (replaced_conserved hl) (.inl hp)
  · rw [ruleReplace_off hp]
    by_cases h : number = -1 ∧ l.number < -1
    · rw [if_pos h]
      exact iff_of_true untouched_conserved (.inr h)
    · rw [if_neg h]
      exact iff_of_false (not_conserved (by simp)) fun hs => hs.elim hp h

theorem ruleInsert_conserves :
    HandlerConserves rule l (ruleInsert rule number l) ↔ Settles .insert rule number l := by
  by_cases h1 : number = 1
  · subst h1
    rw [ruleInsert_first]
    refine iff_of_true (List.perm_iff_count.mpr fun a => ?_) (.inl rfl)
    simp only [List.map_cons, List.count_append, List.count_cons, List.count_nil]
    omega
  · by_cases hn : l.number < number
    · by_cases hl : l.rule = []
      · rw [ruleInsert_empty h1 hn hl]
        -- NULL is written through, there is no state to speak of
        exact iff_of_false id fun h => h.elim h1 fun h => h.1 hl
      · rw [ruleInsert_last h1 hn hl]
        refine iff_of_true ?_ (.inr ⟨hl, hn⟩)
        simp only [HandlerConserves, List.map_append, List.map_cons, List.map_nil, List.append_nil,
          List.Perm.refl]
    · have hno : ¬ Settles .insert rule number l := fun h => h.elim h1 fun h => hn h.2
      by_cases hm : number = -1
      · subst hm
        rw [ruleInsert_none (by omega)]
        exact iff_of_false (not_conserved (by simp)) hno
      · by_cases hp : Position number l.rule
        · -- the rule at the position is neither linked nor freed
          have := hp.1
          obtain ⟨prev, cur, next, hl, hr⟩ :=
            @ruleInsert_middle rule _ _ (by omega) (by omega) hp
          rw [hr]
          refine iff_of_false (not_conserved ?_) hno
          simp only [hl, List.length_append, List.length_cons, List.length_nil]
          omega
        · rw [ruleInsert_off hm (by omega) hp h1]
          exact iff_of_false id hno

end Handlers

theorem editHandler_conserves {cmd : Cmd} {rule : SipfwRules} {number : Int} {l : SipfwList}
    {f : SipfwList → Except Fault Handled} (hf : editHandler cmd rule number = some f) :
    HandlerConserves rule l (f l) ↔ Settles cmd rule number l := by
  cases cmd with
  | insert => cases hf; exact ruleInsert_conserves
  | delete => cases hf; exact ruleDelete_conserves
  | replace => cases hf; exact ruleReplace_conserves
  | append =>
    cases hf
    rw [ruleAddpend_eq]
    refine iff_of_true ?_ trivial
    simp only [HandlerConserves, List.map_append, List.map_cons, List.map_nil, List.append_nil,
      List.Perm.refl]
  | list => cases hf
  | flush => cases hf

/-! ## All chains -/

/-- An edit of one chain conserves the cells if it conserves those of the chain. -/
theorem conserved_set {t : SipfwTables} {c : Chain} {l : SipfwList} {fresh freed : List Nat} :
    Conserved t (t.set c l) fresh freed ↔
      ((t c).rule.map (·.cell) ++ fresh).Perm (l.rule.map (·.cell) ++ freed) := by
  rw [Conserved, List.perm_iff_count, List.perm_iff_count]
  refine forall_congr' fun a => ?_
  cases c <;>
    simp only [linked, allChains, List.flatMap_cons, List.flatMap_nil, List.count_append,
      List.append_nil, SipfwTables.set_same, ne_eq, reduceCtorEq, not_false_eq_true,
      SipfwTables.set_other] <;>
    omega

/-- The inner loop of FLUSH frees all but the rule it passed last. -/
theorem flushWalk_freed (l : List SipfwRules) : ∀ (prev : Option Nat),
    (flushWalk prev l).1 ++ (flushWalk prev l).2.toList = prev.toList ++ l.map (·.cell) := by
  induction l with
  | nil =>
    intro prev
    rw [flushWalk, List.nil_append, List.map_nil, List.append_nil]
  | cons cur next ih =>
    intro prev
    rw [flushWalk, List.append_assoc, ih, List.map_cons]
    rfl

/-- The loop frees something only if it leaves a rule in `prev`. -/
theorem flushWalk_none {l : List SipfwRules} : ∀ {prev : Option Nat},
    (flushWalk prev l).2 = none → (flushWalk prev l).1 = [] ∧ prev = none := by
  induction l with
  | nil =>
    intro prev h
    exact ⟨rfl, h⟩
  | cons cur next ih =>
    intro prev h
    have := (@ih (some cur.cell) h).2
    cases this

/-- So the loops together free all but the last rule of the chains they go
through. -/
theorem flushChains_freed (cs : List Chain) : cs.Nodup → ∀ (prev : Option Nat) (t : SipfwTables),
    (flushChains prev cs t).2 = (prev.toList ++ linked cs t).dropLast := by
  induction cs with
  | nil =>
    intro _ prev t
    cases prev <;> rfl
  | cons c cs ih =>
    intro hnd prev t
    obtain ⟨hc, hnd⟩ := List.nodup_cons.mp hnd
    have hrest : linked cs (t.set c ⟨[], 0⟩) = linked cs t := by
      refine List.flatMap_congr fun c' hm => ?_
      have hne : c' ≠ c := fun he => hc (he ▸ hm)
      rw [SipfwTables.set_other t hne]
    have hall : prev.toList ++ linked (c :: cs) t =
        (flushWalk prev (t c).rule).1 ++ ((flushWalk prev (t c).rule).2.toList ++ linked cs t) := by
      rw [← List.append_assoc, flushWalk_freed, List.append_assoc]
      rfl
    rw [hall, flushChains]
    dsimp only
    rw [ih hnd, hrest]
    cases hw : (flushWalk prev (t c).rule).2 with
    -- the chain is empty and so was every one before it
    | none => rw [(flushWalk_none hw).1, List.nil_append, List.nil_append]
    | some p => exact (List.dropLast_append_of_ne_nil (by simp)).symm

/-- The chains of a FLUSH are all three or one. -/
theorem chainsFrom_cases {chain : BitVec 32} {cs : List Chain} (h : chainsFrom chain = .ok cs) :
    cs = allChains ∨ ∃ c, cs = [c] := by
  unfold chainsFrom at h
  split at h
  next => cases h; exact .inl rfl
  next =>
    split at h
    next c _ => cases h; exact .inr ⟨c, rfl⟩
    next => cases h

/-- Emptied chains hand their cells over to whoever frees them. -/
theorem conserved_flush {t : SipfwTables} {cs : List Chain} (h : cs = allChains ∨ ∃ c, cs = [c])
    {fresh freed : List Nat} :
    Conserved t (flushChains none cs t).1 fresh freed ↔ (linked cs t ++ fresh).Perm freed := by
  rcases h with rfl | ⟨c, rfl⟩
  · have hnil : linked allChains (flushChains none allChains t).1 = [] := by
      refine List.flatMap_eq_nil_iff.mpr fun c hc => ?_
      rcases flushChains_table allChains none t c with ⟨h, -⟩ | ⟨-, hn⟩
      · rw [h]
        rfl
      · exact absurd hc hn
    rw [Conserved, hnil, List.nil_append]
  · have hlinked : linked [c] t = (t c).rule.map (·.cell) := List.flatMap_singleton ..
    rw [hlinked]
    exact conserved_set

/-- A flush conserves the cells only where there is nothing to flush: the last
rule is never freed. -/
theorem flush_conserves {t : SipfwTables} {cs : List Chain} (h : cs = allChains ∨ ∃ c, cs = [c])
    (fresh : List Nat) :
    Conserved t (flushChains none cs t).1 fresh ((flushChains none cs t).2 ++ fresh) ↔
      ∀ c ∈ cs, (t c).rule = [] := by
  have hnd : cs.Nodup := by
    rcases h with rfl | ⟨c, rfl⟩
    · decide
    · exact List.nodup_singleton c
  rw [conserved_flush h, flushChains_freed cs hnd]
  change (linked cs t ++ fresh).Perm ((linked cs t).dropLast ++ fresh) ↔ _
  have hnil : linked cs t = [] ↔ ∀ c ∈ cs, (t c).rule = [] := by
    simp only [linked, List.flatMap_eq_nil_iff, List.map_eq_nil_iff]
  rw [← hnil]
  constructor
  · intro hp
    have := hp.length_eq
    rw [List.length_append, List.length_append, List.length_dropLast] at this
    exact List.eq_nil_of_length_eq_zero (by omega)
  · intro he
    rw [he]
    exact List.Perm.refl _

/-! ## Commands -/

section Commands

variable {t : SipfwTables} {req : Request} {cmd : Cmd}

/-- A command that got through is judged by what it left. -/
theorem commandConserves_iff {out : Outcome}
    (h : doAction req.mem req.pid req.opts t = .ok out) :
    CommandConserves t req ↔ Conserved t out.tables [req.mem.cell] out.freed := by
  simp only [CommandConserves, h, Except.ok.injEq, exists_eq_left']

theorem not_commandConserves {e : Fault} (h : doAction req.mem req.pid req.opts t = .error e) :
    ¬ CommandConserves t req := by
  intro hc
  obtain ⟨out, ho, -⟩ := hc
  rw [h] at ho
  cases ho

/-- An editing command conserves the cells if its handler does. -/
theorem edit_conserves {f : SipfwList → Except Fault Handled} (hc : req.cmd = some cmd)
    (hf : editHandler cmd req.rule req.number = some f) :
    CommandConserves t req ↔
      ∃ c, req.chain = some c ∧ Sipfw.Settles cmd req.rule req.number (t c) := by
  have hdo := doAction_edit hc hf t
  cases hch : req.chain with
  | none =>
    rw [onChain, show Chain.ofInt req.rule.chain = none from hch] at hdo
    refine iff_of_false (not_commandConserves hdo) fun h => ?_
    obtain ⟨c, hcc, -⟩ := h
    cases hcc
  | some c =>
    simp only [Option.some.injEq, exists_eq_left']
    rw [← editHandler_conserves hf]
    have hcode := Chain.ofInt_eq_some.mp hch
    cases hh : f (t c) with
    | error e =>
      rw [onChain, hcode, Chain.ofInt_code] at hdo
      dsimp only at hdo
      rw [hh] at hdo
      exact iff_of_false (not_commandConserves hdo) id
    | ok hd =>
      rw [onChain_ok hcode hh] at hdo
      rw [commandConserves_iff hdo, conserved_set]
      rfl

theorem list_conserves (hc : req.cmd = some .list) :
    CommandConserves t req ↔ ∃ cs, chainsFrom req.rule.chain = .ok cs := by
  have hdo := doAction_list hc t
  rw [ruleList] at hdo
  cases hcs : chainsFrom req.rule.chain with
  | error e =>
    rw [hcs] at hdo
    refine iff_of_false (not_commandConserves hdo) fun h => ?_
    obtain ⟨cs, hcc⟩ := h
    cases hcc
  | ok cs =>
    rw [hcs] at hdo
    exact iff_of_true ((commandConserves_iff hdo).mpr (List.Perm.refl _)) ⟨cs, rfl⟩

theorem flushCommand_conserves (hc : req.cmd = some .flush) :
    CommandConserves t req ↔
      ∃ cs, chainsFrom req.rule.chain = .ok cs ∧ ∀ c ∈ cs, (t c).rule = [] := by
  have hdo := doAction_flush hc t
  rw [ruleFlush] at hdo
  cases hcs : chainsFrom req.rule.chain with
  | error e =>
    rw [hcs] at hdo
    refine iff_of_false (not_commandConserves hdo) fun h => ?_
    obtain ⟨cs, hcc, -⟩ := h
    cases hcc
  | ok cs =>
    rw [hcs] at hdo
    simp only [Except.ok.injEq, exists_eq_left']
    rw [commandConserves_iff hdo]
    exact flush_conserves (chainsFrom_cases hcs) [req.mem.cell]

theorem none_conserves (hc : req.cmd = none) : ¬ CommandConserves t req := by
  rw [commandConserves_iff (doAction_none hc t)]
  intro h
  have := h.length_eq
  simp only [List.length_append, List.length_singleton, List.length_nil] at this
  omega

/-- **Conservation, exactly**: which commands settle every cell, and that
`SIPFW_ListDestroy` does so only for empty chains. -/
theorem conserved_iff (t : SipfwTables) (req : Request) :
    (CommandConserves t req ↔ req.Settles t) ∧ (DestroyConserves t ↔ ∀ c, (t c).rule = []) := by
  constructor
  · unfold Request.Settles
    cases hc : req.cmd with
    | none => exact iff_of_false (none_conserves hc) id
    | some cmd =>
      cases cmd with
      | list => exact list_conserves hc
      | flush => exact flushCommand_conserves hc
      | insert => exact edit_conserves hc rfl
      | delete => exact edit_conserves hc rfl
      | append => exact edit_conserves hc rfl
      | replace => exact edit_conserves hc rfl
  · have h := flush_conserves (t := t) (.inl rfl) []
    rw [List.append_nil] at h
    refine h.trans (forall_congr' fun c => ?_)
    cases c <;> simp only [allChains, List.mem_cons, reduceCtorEq, or_true, true_or,
      false_or, forall_true_left]

end Commands

/-! ## The last rule of a chain -/

/-- `FLUSH` of INPUT. -/
def flushInput : Request where
  mem := ⟨7, 0, 0, 0, 0, 0, 0, 0, 0⟩
  pid := 0#32
  opts := ⟨.ofUint Cmd.flush.code, .ofUint 0#32, .ofUint 0#32, .ofUint 0#32, .ofUint 0#32,
    .ofUint 0#32, .ofUint Chain.input.code, .ofUint 0#32, .ofUint 0#32, 0#32, .ofUint 0#32⟩

/-- One rule in INPUT, in cell 3: FLUSH unlinks it and frees only its own cell, and
`SIPFW_ListDestroy` unlinks it and frees nothing. -/
theorem flush_loses_last :
    let t := SipfwTables.empty.set .input ⟨[⟨3, 0, 0, 0, 0, 0, 0, 0, 0⟩], 1⟩
    linked allChains t = [3] ∧
      (∃ out, doAction flushInput.mem flushInput.pid flushInput.opts t = .ok out ∧
        linked allChains out.tables = [] ∧ out.freed = [7]) ∧
      ¬ CommandConserves t flushInput ∧
      linked allChains (listDestroy t).1 = [] ∧ (listDestroy t).2 = [] ∧ ¬ DestroyConserves t := by
  refine ⟨rfl, ⟨_, rfl, rfl, rfl⟩, fun h => ?_, rfl, rfl, fun h => ?_⟩
  · obtain ⟨out, ho, h⟩ := h
    cases ho
    exact absurd h.length_eq (by decide)
  · exact absurd h.length_eq (by decide)

end LinuxNet.Sipfw
