import LinuxNet.Sipfw.Effects

/-!
# What a reply is worth

An editing command and FLUSH are answered with SUCCESS or FAILURE. The reply is
honest if SUCCESS is sent exactly when the requested edit took place and FAILURE
only over unchanged tables. Every handler returns 0 on every path, so FAILURE is
never sent, and the reply is honest exactly when the edit is done.

`Edited` is what the administrator asked for, chain before and chain after;
`Performs` is when the handler does it.
-/

namespace LinuxNet.Sipfw

/-! ## The request -/

/-- The requested edit of one chain: a rule added at the position, or behind the
last rule if the chain is shorter; the addressed rule removed, or an equal one
where no number is given; the addressed rule replaced; the chain emptied. -/
def Edited (cmd : Cmd) (rule : SipfwRules) (number : Int) (l l' : List SipfwRules) : Prop :=
  match cmd with
  | .insert => ∃ prev next, l = prev ++ next ∧ l' = prev ++ rule :: next ∧
      ((prev.length : Int) + 1 = number ∨ next = [] ∧ (prev.length : Int) + 1 ≤ number)
  | .delete => ∃ prev cur next, l = prev ++ cur :: next ∧ l' = prev ++ next ∧
      if number = -1 then sameRule cur rule = true else (prev.length : Int) + 1 = number
  | .replace => ∃ prev cur next, l = prev ++ cur :: next ∧ l' = prev ++ rule :: next ∧
      (prev.length : Int) + 1 = number
  | .append => l' = l ++ [rule]
  | .flush => l' = []
  | .list => l' = l

/-- The chains an editing command or FLUSH is about; `none` for another command
and for a number the handler has no chain for. -/
def Request.target (req : Request) : Option (List Chain) :=
  match req.cmd with
  | none | some .list => none
  | some .flush => (chainsFrom req.rule.chain).toOption
  | some _ => req.chain.map fun c => [c]

/-- The requested edit took place, and nothing else did. -/
def TookPlace (t : SipfwTables) (req : Request) (t' : SipfwTables) : Prop :=
  ∃ cmd cs, req.cmd = some cmd ∧ req.target = some cs ∧
    (∀ c ∈ cs, Edited cmd req.rule req.number (t c).rule (t' c).rule) ∧ ∀ c, c ∉ cs → t' c = t c

/-- The command is answered once: with SUCCESS if and only if the edit took
place, with FAILURE only if the tables are as before. -/
def HonestReply (t : SipfwTables) (req : Request) : Prop :=
  ∃ out m, doAction req.mem req.pid req.opts t = .ok out ∧ out.sent = [m] ∧
    (m.type = .success ↔ TookPlace t req out.tables) ∧ (m.type = .failure → out.tables = t)

/-- `kmalloc` returns a cell that is not in use. -/
def Request.Fresh (req : Request) (t : SipfwTables) : Prop :=
  ∀ c, ∀ r ∈ (t c).rule, r.cell ≠ req.mem.cell

/-- When the handler does what it is asked for. INSERT looks at the counter, not
at the chain, to tell whether a position is behind the last rule, and it has no
last rule to link to in an empty chain. -/
def Performs (cmd : Cmd) (rule : SipfwRules) (number : Int) (l : SipfwList) : Prop :=
  match cmd with
  | .insert =>
    number = 1 ∨ l.rule ≠ [] ∧ l.number < number ∧ (l.rule.length : Int) < number
  | .delete =>
    number ≤ l.number ∧
      (Position number l.rule ∨ number = -1 ∧ ∃ cur ∈ l.rule, sameRule cur rule = true)
  | .replace => Position number l.rule
  | .append | .flush | .list => True

/-! ## One handler -/

section Handlers

variable {rule : SipfwRules} {number : Int} {l : SipfwList}

/-- A handler returns 0 and has edited exactly where it performs, or faults where
it does not. -/
def Exact (cmd : Cmd) (rule : SipfwRules) (number : Int) (l : SipfwList)
    (h : Except Fault Handled) : Prop :=
  match h with
  | .ok hd =>
    hd.retval = 0 ∧ (Edited cmd rule number l.rule hd.list.rule ↔ Performs cmd rule number l)
  | .error _ => ¬ Performs cmd rule number l

theorem edited_position {cmd : Cmd} {l l' : List SipfwRules} (h : Edited cmd rule number l l')
    (hc : cmd = .replace ∨ cmd = .delete ∧ number ≠ -1) : Position number l := by
  rcases hc with rfl | ⟨rfl, hne⟩
  · obtain ⟨prev, cur, next, rfl, -, hlen⟩ := h
    rw [Position, List.length_append, List.length_cons]
    omega
  · obtain ⟨prev, cur, next, rfl, -, hlen⟩ := h
    rw [if_neg hne] at hlen
    rw [Position, List.length_append, List.length_cons]
    omega

/-- Nothing done is no edit. -/
theorem not_inserted (l : List SipfwRules) : ¬ Edited .insert rule number l l := by
  intro h
  obtain ⟨prev, next, rfl, hl, -⟩ := h
  have := congrArg List.length hl
  simp only [List.length_append, List.length_cons] at this
  omega

theorem not_deleted (l : List SipfwRules) : ¬ Edited .delete rule number l l := by
  intro h
  obtain ⟨prev, cur, next, rfl, hl, -⟩ := h
  have := congrArg List.length hl
  simp only [List.length_append, List.length_cons] at this
  omega

theorem ruleDelete_exact : Exact .delete rule number l (ruleDelete rule number l) := by
  by_cases hn : l.number < number
  · rw [ruleDelete_off (.inl hn)]
    exact ⟨rfl, iff_of_false (not_deleted _) fun h => by have := h.1; omega⟩
  · by_cases hp : Position number l.rule
    · obtain ⟨prev, cur, next, hl, hlen, hr⟩ := @ruleDelete_position rule _ _ (by omega) hp
      rw [hr]
      have := hp.1
      exact ⟨rfl, iff_of_true ⟨prev, cur, next, hl, rfl, by rwa [if_neg (by omega)]⟩
        ⟨by omega, .inl hp⟩⟩
    · by_cases h1 : number = -1
      · subst h1
        by_cases hs : ∃ cur ∈ l.rule, sameRule cur rule = true
        · obtain ⟨prev, cur, next, hl, hcur, hr⟩ := ruleDelete_same (by omega) hs
          rw [hr]
          exact ⟨rfl, iff_of_true ⟨prev, cur, next, hl, rfl, by rwa [if_pos rfl]⟩
            ⟨by omega, .inr ⟨rfl, hs⟩⟩⟩
        · rw [ruleDelete_different (by omega) hs]
          exact ⟨rfl, iff_of_false (not_deleted _) fun h =>
            h.2.elim hp fun h => hs h.2⟩
      · rw [ruleDelete_off (.inr ⟨h1, hp⟩)]
        exact ⟨rfl, iff_of_false (not_deleted _) fun h => h.2.elim hp fun h => h1 h.1⟩

theorem ruleReplace_exact : Exact .replace rule number l (ruleReplace rule number l) := by
  by_cases hp : Position number l.rule
  · obtain ⟨prev, cur, next, hl, hlen, hr⟩ := @ruleReplace_position rule _ _ hp
    rw [hr]
    exact ⟨rfl, iff_of_true ⟨prev, cur, next, hl, rfl, hlen⟩ hp⟩
  · rw [ruleReplace_off hp]
    exact ⟨rfl, iff_of_false (fun h => hp (edited_position h (.inl rfl))) hp⟩

/-- A rule linked behind the last one stands at a position only if that is where
the chain ends. -/
theorem inserted_last {l : List SipfwRules} (hf : ∀ r ∈ l, r.cell ≠ rule.cell) :
    Edited .insert rule number l (l ++ [rule]) ↔ (l.length : Int) < number := by
  constructor
  · intro h
    obtain ⟨prev, next, rfl, hl, hlen⟩ := h
    cases next with
    | nil =>
      rw [List.append_nil]
      rcases hlen with hlen | ⟨-, hlen⟩ <;> omega
    | cons cur next =>
      -- the rule at the position would be the new one
      rw [List.append_assoc, List.append_cancel_left_eq, List.cons_append] at hl
      exact absurd (congrArg (·.cell) (List.cons.inj hl).1) (hf cur (by simp))
  · intro h
    exact ⟨l, [], (List.append_nil l).symm, rfl, .inr ⟨rfl, by omega⟩⟩

theorem ruleInsert_exact (hf : ∀ r ∈ l.rule, r.cell ≠ rule.cell) :
    Exact .insert rule number l (ruleInsert rule number l) := by
  by_cases h1 : number = 1
  · subst h1
    rw [ruleInsert_first]
    exact ⟨rfl, iff_of_true ⟨[], l.rule, rfl, rfl, .inl rfl⟩ (.inl rfl)⟩
  · by_cases hn : l.number < number
    · by_cases hl : l.rule = []
      · rw [ruleInsert_empty h1 hn hl]
        exact fun h => h.elim h1 fun h => h.1 hl
      · rw [ruleInsert_last h1 hn hl]
        refine ⟨rfl, (inserted_last hf).trans ⟨fun h => .inr ⟨hl, hn, h⟩, fun h => ?_⟩⟩
        exact (h.resolve_left h1).2.2
    · have hno : ¬ Performs .insert rule number l := fun h => h.elim h1 fun h => hn h.2.1
      by_cases hm : number = -1
      · subst hm
        rw [ruleInsert_none (by omega)]
        exact ⟨rfl, iff_of_false (not_inserted _) hno⟩
      · by_cases hp : Position number l.rule
        · have := hp.1
          obtain ⟨prev, cur, next, hl, hr⟩ :=
            @ruleInsert_middle rule _ _ (by omega) (by omega) hp
          rw [hr]
          refine ⟨rfl, iff_of_false (fun h => ?_) hno⟩
          -- a rule was replaced: the chain is as long as before
          obtain ⟨p, n, hl', hr', -⟩ := h
          have h1 := congrArg List.length (hl.symm.trans hl')
          have h2 := congrArg List.length hr'
          simp only [List.length_append, List.length_cons] at h1 h2
          omega
        · rw [ruleInsert_off hm (by omega) hp h1]
          exact hno

end Handlers

theorem editHandler_exact {cmd : Cmd} {rule : SipfwRules} {number : Int} {l : SipfwList}
    {f : SipfwList → Except Fault Handled} (hf : editHandler cmd rule number = some f)
    (hfresh : ∀ r ∈ l.rule, r.cell ≠ rule.cell) : Exact cmd rule number l (f l) := by
  cases cmd with
  | insert => cases hf; exact ruleInsert_exact hfresh
  | delete => cases hf; exact ruleDelete_exact
  | replace => cases hf; exact ruleReplace_exact
  | append =>
    cases hf
    rw [ruleAddpend_eq]
    exact ⟨rfl, iff_of_true rfl trivial⟩
  | list => cases hf
  | flush => cases hf

/-! ## One command -/

section Commands

variable {t : SipfwTables} {req : Request} {cmd : Cmd} {cs : List Chain}

/-- The reply of a command that was carried out is `SUCCESS`. -/
theorem honestReply_iff {tables : SipfwTables} {freed : List Nat}
    (h : doAction req.mem req.pid req.opts t = .ok ⟨tables, freed, [reply req.pid 0]⟩) :
    HonestReply t req ↔ TookPlace t req tables := by
  constructor
  · intro hh
    obtain ⟨out, m, ho, hm, hs, -⟩ := hh
    rw [h] at ho
    cases ho
    cases hm
    exact hs.mp rfl
  · intro hh
    exact ⟨_, _, h, rfl, iff_of_true rfl hh, fun hf => by cases hf⟩

theorem not_honestReply {e : Fault} (h : doAction req.mem req.pid req.opts t = .error e) :
    ¬ HonestReply t req := by
  intro hh
  obtain ⟨out, m, ho, -⟩ := hh
  rw [h] at ho
  cases ho

/-- What took place, once command and chains are known. -/
theorem tookPlace_iff {t' : SipfwTables} (hc : req.cmd = some cmd) (ht : req.target = some cs) :
    TookPlace t req t' ↔
      (∀ c ∈ cs, Edited cmd req.rule req.number (t c).rule (t' c).rule) ∧
        ∀ c, c ∉ cs → t' c = t c := by
  simp only [TookPlace, hc, ht, Option.some.injEq, exists_and_left, exists_eq_left']

/-- An editing command is honest exactly where its handler performs. -/
theorem edit_honestReply {c : Chain} {f : SipfwList → Except Fault Handled}
    (hc : req.cmd = some cmd) (hf : editHandler cmd req.rule req.number = some f)
    (hch : req.chain = some c) (ht : req.target = some [c]) (hfresh : req.Fresh t) :
    HonestReply t req ↔ Performs cmd req.rule req.number (t c) := by
  have hex := editHandler_exact (l := t c) hf (hfresh c)
  have hcode := Chain.ofInt_eq_some.mp hch
  have hdo := doAction_edit hc hf t
  cases hh : f (t c) with
  | error e =>
    rw [hh] at hex
    rw [onChain, hcode, Chain.ofInt_code] at hdo
    dsimp only at hdo
    rw [hh] at hdo
    exact iff_of_false (not_honestReply hdo) hex
  | ok hd =>
    rw [hh] at hex
    rw [onChain_ok hcode hh, hex.1] at hdo
    rw [honestReply_iff hdo, tookPlace_iff hc ht, ← hex.2]
    simp only [List.mem_singleton, forall_eq, SipfwTables.set_same]
    exact and_iff_left fun c' hne => SipfwTables.set_other t hne _

/-- FLUSH always does what it says: the chains it is asked for are empty. -/
theorem flush_honestReply (hc : req.cmd = some .flush) (ht : req.target = some cs) :
    HonestReply t req := by
  have htarget := ht
  rw [Request.target, hc] at ht
  cases hcs : chainsFrom req.rule.chain with
  | error e =>
    rw [hcs] at ht
    cases ht
  | ok cs' =>
    rw [hcs] at ht
    cases ht
    have hdo := doAction_flush hc t
    rw [ruleFlush, hcs] at hdo
    refine (honestReply_iff hdo).mpr ((tookPlace_iff hc htarget).mpr ⟨fun c hm => ?_, ?_⟩)
    · rcases flushChains_table cs none t c with ⟨h, -⟩ | ⟨-, hn⟩
      · exact congrArg (·.rule) h
      · exact absurd hm hn
    · intro c hn
      rcases flushChains_table cs none t c with ⟨-, hm⟩ | ⟨h, -⟩
      · exact absurd hm hn
      · exact h

/-- An editing command is about the chain of its number. -/
theorem target_edit {f : SipfwList → Except Fault Handled} (hc : req.cmd = some cmd)
    (hf : editHandler cmd req.rule req.number = some f) (ht : req.target = some cs) :
    ∃ c, req.chain = some c ∧ cs = [c] := by
  rw [Request.target, hc] at ht
  cases cmd <;> cases hf <;>
    (obtain ⟨c, hch, hcs⟩ := Option.map_eq_some_iff.mp ht
     exact ⟨c, hch, hcs.symm⟩)

/-- **Honest replies, exactly**: an INSERT, DELETE, REPLACE, APPEND or FLUSH over
accepted chains is answered honestly if and only if the handler performs on each
of them. -/
theorem honest_reply_iff (hcs : req.target = some cs) (hfresh : req.Fresh t) :
    HonestReply t req ↔
      ∀ cmd, req.cmd = some cmd → ∀ c ∈ cs, Performs cmd req.rule req.number (t c) := by
  cases hc : req.cmd with
  | none =>
    rw [Request.target, hc] at hcs
    cases hcs
  | some cmd =>
    simp only [Option.some.injEq, forall_eq']
    cases hf : editHandler cmd req.rule req.number with
    | some f =>
      obtain ⟨c, hch, rfl⟩ := target_edit hc hf hcs
      rw [edit_honestReply hc hf hch hcs hfresh]
      simp only [List.mem_singleton, forall_eq]
    | none =>
      cases cmd with
      | flush => exact iff_of_true (flush_honestReply hc hcs) fun _ _ => trivial
      | list => rw [Request.target, hc] at hcs; cases hcs
      | insert => cases hf
      | delete => cases hf
      | append => cases hf
      | replace => cases hf

end Commands

/-! ## A DELETE that deletes nothing -/

/-- `DELETE` of the rule at position 1 of INPUT. -/
def deleteFirst : Request where
  mem := ⟨7, 0, 0, 0, 0, 0, 0, 0, 0⟩
  pid := 0#32
  opts := ⟨.ofUint Cmd.delete.code, .ofUint 0#32, .ofUint 0#32, .ofUint 0#32, .ofUint 0#32,
    .ofUint 0#32, .ofUint Chain.input.code, .ofUint 0#32, .ofUint 0#32, 0#32, .ofUint 1#32⟩

/-- One rule in INPUT, and the request to delete it. -/
theorem deleteFirst_honest :
    HonestReply (SipfwTables.empty.set .input ⟨[⟨3, 0, 0, 0, 0, 0, 0, 0, 0⟩], 1⟩) deleteFirst :=
  (@honest_reply_iff _ deleteFirst [.input] rfl (by
    intro c r hr
    cases c with
    | input => rw [List.mem_singleton.mp hr]; decide
    | output => cases hr
    | forward => cases hr)).mpr (by
    intro cmd hc c hm
    cases hc
    rw [List.mem_singleton.mp hm]
    exact ⟨by decide, .inl ⟨by decide, by decide⟩⟩)

/-- DELETE on the empty tables: nothing is deleted, and the reply is SUCCESS. -/
theorem delete_nothing_success :
    deleteFirst.target = some [.input] ∧ deleteFirst.Fresh .empty ∧
      ∃ out, doAction deleteFirst.mem deleteFirst.pid deleteFirst.opts .empty = .ok out ∧
        (out.tables .input).rule = [] ∧ out.sent.map (·.type) = [.success] ∧
        ¬ HonestReply .empty deleteFirst := by
  refine ⟨rfl, ?_, _, rfl, rfl, rfl, fun h => ?_⟩
  · intro c r hr
    cases hr
  obtain ⟨out, m, ho, hm, hs, -⟩ := h
  cases ho
  cases hm
  obtain ⟨cmd, cs, hc, ht, he, -⟩ := hs.mp rfl
  cases hc
  cases ht
  exact not_deleted [] (he .input (List.mem_singleton_self _))

end LinuxNet.Sipfw
