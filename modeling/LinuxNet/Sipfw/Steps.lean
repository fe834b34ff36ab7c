import LinuxNet.Lib.Run
import LinuxNet.Sipfw.Handlers

/-!
# What one command can do to the tables

Every invariant of the rule tables is a statement about what a command may
change, so this file says that once. The four editing commands rewrite one
chain, each in the few ways its handler's specification lists; LIST and an
unknown command change nothing; FLUSH empties chains. `step_cases` is the
only place where `doAction` is taken apart.
-/

namespace LinuxNet.Sipfw

/-! ## The editing handlers, by what they leave -/

/-- A rule at a position is unlinked. -/
def Unlinked (l l' : List SipfwRules) : Prop :=
  ∃ prev cur next, l = prev ++ cur :: next ∧ l' = prev ++ next

/-- A rule takes the place of the one at a position. -/
def Replaced (rule : SipfwRules) (l l' : List SipfwRules) : Prop :=
  ∃ prev cur next, l = prev ++ cur :: next ∧ l' = prev ++ rule :: next

theorem Unlinked.length {l l' : List SipfwRules} (h : Unlinked l l') :
    l.length = l'.length + 1 := by
  obtain ⟨prev, cur, next, rfl, rfl⟩ := h
  simp only [List.length_append, List.length_cons]
  omega

theorem Replaced.length {rule : SipfwRules} {l l' : List SipfwRules} (h : Replaced rule l l') :
    l'.length = l.length := by
  obtain ⟨prev, cur, next, rfl, rfl⟩ := h
  simp only [List.length_append, List.length_cons]

/-- A walk that stops in front of a rule splits the chain there. -/
theorem walk_split {go : Int → SipfwRules → Bool} {l prev next : List SipfwRules}
    {cur : SipfwRules} (h : walk go 1 [] l = (prev, cur :: next)) :
    l = prev.reverse ++ cur :: next := by
  have ha := walk_append go l 1 []
  rw [h] at ha
  exact ha.symm

theorem ruleDelete_cases {rule : SipfwRules} {number : Int} {l : SipfwList} {h : Handled}
    (hh : ruleDelete rule number l = .ok h) :
    h.list = l ∨ Unlinked l.rule h.list.rule ∧ h.list.number = intWrap (l.number - 1) := by
  unfold ruleDelete at hh
  split at hh
  next => cases hh; exact .inl rfl
  next =>
    split at hh
    next =>
      split at hh
      next => cases hh; exact .inl rfl
      next hw => cases hh; exact .inr ⟨⟨_, _, _, walk_split hw, rfl⟩, rfl⟩
    next =>
      split at hh
      next => cases hh; exact .inl rfl
      next hw => cases hh; exact .inr ⟨⟨_, _, _, walk_split hw, rfl⟩, rfl⟩

theorem ruleReplace_cases {rule : SipfwRules} {number : Int} {l : SipfwList} {h : Handled}
    (hh : ruleReplace rule number l = .ok h) :
    h.list = l ∨ Replaced rule l.rule h.list.rule ∧ h.list.number = l.number := by
  unfold ruleReplace at hh
  split at hh
  next =>
    split at hh
    next => cases hh; exact .inl rfl
    next hw => cases hh; exact .inr ⟨⟨_, _, _, walk_split hw, rfl⟩, rfl⟩
  next =>
    split at hh
    next => cases hh; exact .inl rfl
    next => cases hh; exact .inl rfl

/-- A walk that counts to `number` stops at or behind it, and has gone on only
from positions before it. -/
theorem walk_lt_stop {number : Int} {l : List SipfwRules} : ∀ {i : Int}
    {prev prev' next : List SipfwRules} {cur : SipfwRules},
    walk (fun i _ => decide (i < number)) i prev l = (prev', cur :: next) →
      number ≤ i + l.length - 1 ∧ (prev' = prev ∨ i < number) := by
  induction l with
  | nil =>
    intro i prev prev' next cur h
    cases h
  | cons cur l ih =>
    intro i prev prev' next cur' h
    rw [walk] at h
    rw [List.length_cons, Int.natCast_add, Int.natCast_one]
    by_cases hi : i < number
    · rw [if_pos (decide_eq_true hi)] at h
      have := (ih h).1
      exact ⟨by omega, .inr hi⟩
    · rw [if_neg (by rwa [decide_eq_true_eq])] at h
      exact ⟨by omega, .inl (Prod.mk.inj h).1.symm⟩

/-- INSERT at position 1, behind the last rule, or *in place of* the rule at the
position; the counter stays as it is every time. -/
theorem ruleInsert_cases {rule : SipfwRules} {number : Int} {l : SipfwList} {h : Handled}
    (hh : ruleInsert rule number l = .ok h) :
    h.list.number = l.number ∧
      (number = 1 ∧ h.list.rule = rule :: l.rule ∨
       number ≠ 1 ∧ l.number < number ∧ l.rule ≠ [] ∧ h.list.rule = l.rule ++ [rule] ∨
       number ≠ 1 ∧ number ≤ l.number ∧
        (number = -1 ∧ h.list.rule = l.rule ∨
          2 ≤ number ∧ number ≤ l.rule.length ∧ Replaced rule l.rule h.list.rule)) := by
  unfold ruleInsert at hh
  split at hh
  next h1 => cases hh; exact ⟨rfl, .inl ⟨h1, rfl⟩⟩
  next h1 =>
    split at hh
    next h2 =>
      rw [walk_true, List.append_nil] at hh
      split at hh
      next => exact nomatch hh
      next prev passed _ hw =>
        cases hh
        -- the walk went to the end, so it passed the whole list
        have hr : (prev :: passed).reverse = l.rule := by
          rw [← (Prod.mk.inj hw).1, List.reverse_reverse]
        refine ⟨rfl, .inr (.inl ⟨h1, h2, ?_, by rw [hr]⟩)⟩
        rw [← hr]
        simp
    next h2 =>
      split at hh
      next =>
        split at hh
        next => exact nomatch hh
        next => exact nomatch hh
        next hw =>
          cases hh
          obtain ⟨hle, hlt⟩ := walk_lt_stop hw
          have hlt := hlt.resolve_left (List.cons_ne_nil _ _)
          exact ⟨rfl, .inr (.inr ⟨h1, by omega, .inr ⟨by omega, by omega, _, _, _, walk_split hw,
            rfl⟩⟩)⟩
      next h3 => cases hh; exact ⟨rfl, .inr (.inr ⟨h1, by omega, .inl ⟨by omega, rfl⟩⟩)⟩

/-! ## A command as a step -/

/-- One message as the kernel handles it: the fresh cell, the sender, the options. -/
structure Request where
  mem : SipfwRules
  pid : BitVec 32
  opts : SipfwCmdOpts

namespace Request

/-- The rule the command builds. -/
def rule (req : Request) : SipfwRules := buildRule req.mem req.opts

/-- The position argument. -/
def number (req : Request) : Int := req.opts.number.vInt

def cmd (req : Request) : Option Cmd := Cmd.ofInt req.opts.command.vUint

/-- The chain the command is about, if its number is that of a table. -/
def chain (req : Request) : Option Chain := Chain.ofInt req.rule.chain

end Request

/-- The tables after a command. -/
def step (t : SipfwTables) (req : Request) : Except Fault SipfwTables :=
  (doAction req.mem req.pid req.opts t).map (·.tables)

/-- The handler of an editing command. -/
def editHandler (cmd : Cmd) (rule : SipfwRules) (number : Int) :
    Option (SipfwList → Except Fault Handled) :=
  match cmd with
  | .insert => some (ruleInsert rule number)
  | .delete => some (ruleDelete rule number)
  | .replace => some (ruleReplace rule number)
  | .append => some (ruleAddpend rule)
  | .list | .flush => none

/-- FLUSH leaves every chain empty or as it was. -/
theorem flushChains_table (cs : List Chain) :
    ∀ (prev : Option Nat) (t : SipfwTables) (c : Chain),
      (flushChains prev cs t).1 c = ⟨[], 0⟩ ∧ c ∈ cs ∨
        (flushChains prev cs t).1 c = t c ∧ c ∉ cs := by
  induction cs with
  | nil => exact fun prev t c => .inr ⟨rfl, List.not_mem_nil⟩
  | cons c' cs ih =>
    intro prev t c
    rcases ih (flushWalk prev (t c').rule).2 (t.set c' ⟨[], 0⟩) c with ⟨h, hc⟩ | ⟨h, hc⟩
    · exact .inl ⟨h, List.mem_cons_of_mem _ hc⟩
    · by_cases hcc : c = c'
      · subst hcc
        rw [SipfwTables.set_same] at h
        exact .inl ⟨h, List.mem_cons_self ..⟩
      · rw [SipfwTables.set_other t hcc] at h
        exact .inr ⟨h, fun hm => (List.mem_cons.mp hm).elim hcc hc⟩

/-! ## The kinds of commands -/

section Kinds

variable {req : Request} {cmd : Cmd} {f : SipfwList → Except Fault Handled}

theorem doAction_none (hc : req.cmd = none) (t : SipfwTables) :
    doAction req.mem req.pid req.opts t = .ok ⟨t, [], []⟩ := by
  rw [doAction, show Cmd.ofInt req.opts.command.vUint = none from hc]

/-- An unknown command does nothing. -/
theorem step_none (hc : req.cmd = none) (t : SipfwTables) : step t req = .ok t := by
  rw [step, doAction_none hc]
  rfl

theorem doAction_edit (hc : req.cmd = some cmd)
    (hf : editHandler cmd req.rule req.number = some f) (t : SipfwTables) :
    doAction req.mem req.pid req.opts t = onChain req.pid req.rule.chain t f := by
  rw [doAction, show Cmd.ofInt req.opts.command.vUint = some cmd from hc]
  cases cmd <;> cases hf <;> rfl

/-- An editing command runs its handler on the chain the request names. -/
theorem step_edit (hc : req.cmd = some cmd) (hf : editHandler cmd req.rule req.number = some f)
    (t : SipfwTables) : step t req = (onChain req.pid req.rule.chain t f).map (·.tables) := by
  rw [step, doAction_edit hc hf]

theorem doAction_list (hc : req.cmd = some .list) (t : SipfwTables) :
    doAction req.mem req.pid req.opts t = ruleList req.pid req.rule t := by
  rw [doAction, show Cmd.ofInt req.opts.command.vUint = some .list from hc]
  rfl

/-- LIST changes nothing where its chains exist. -/
theorem step_list (hc : req.cmd = some .list) (t : SipfwTables) :
    step t req = (chainsFrom req.rule.chain).map fun _ => t := by
  rw [step, doAction_list hc, ruleList]
  cases chainsFrom req.rule.chain <;> rfl

theorem doAction_flush (hc : req.cmd = some .flush) (t : SipfwTables) :
    doAction req.mem req.pid req.opts t = ruleFlush req.pid req.rule t := by
  rw [doAction, show Cmd.ofInt req.opts.command.vUint = some .flush from hc]
  rfl

/-- FLUSH goes through its chains. -/
theorem step_flush (hc : req.cmd = some .flush) (t : SipfwTables) :
    step t req = (chainsFrom req.rule.chain).map fun cs => (flushChains none cs t).1 := by
  rw [step, doAction_flush hc, ruleFlush]
  cases chainsFrom req.rule.chain <;> rfl

/-- A handler that gets through has worked on one of the three chains, and only there. -/
theorem onChain_tables {t t' : SipfwTables}
    (h : (onChain req.pid req.rule.chain t f).map (·.tables) = .ok t') :
    ∃ c hd, req.chain = some c ∧ f (t c) = .ok hd ∧ t' = t.set c hd.list := by
  unfold onChain at h
  split at h
  next => exact nomatch h
  next c hch =>
    split at h
    next => exact nomatch h
    next hd hh =>
      cases h
      exact ⟨c, hd, hch, hh, rfl⟩

end Kinds

/-- **Inversion of a command**: an editing command rewrites its chain, FLUSH
empties chains, everything else leaves the tables alone. -/
theorem step_cases {t t' : SipfwTables} {req : Request} (h : step t req = .ok t') :
    (∃ cmd f c hd, req.cmd = some cmd ∧ editHandler cmd req.rule req.number = some f ∧
      req.chain = some c ∧ f (t c) = .ok hd ∧ t' = t.set c hd.list) ∨
    (req.cmd = some .flush ∧ ∀ c, t' c = ⟨[], 0⟩ ∨ t' c = t c) ∨
    ((req.cmd = some .list ∨ req.cmd = none) ∧ t' = t) := by
  cases hc : req.cmd with
  | none =>
    rw [step_none hc] at h
    cases h
    exact .inr (.inr ⟨.inr rfl, rfl⟩)
  | some cmd =>
    cases hf : editHandler cmd req.rule req.number with
    | some f =>
      rw [step_edit hc hf] at h
      obtain ⟨c, hd, hch, hh, ht⟩ := onChain_tables h
      exact .inl ⟨cmd, f, c, hd, rfl, hf, hch, hh, ht⟩
    | none =>
      -- only LIST and FLUSH have no handler of one chain
      cases cmd with
      | insert => cases hf
      | delete => cases hf
      | replace => cases hf
      | append => cases hf
      | list =>
        rw [step_list hc] at h
        cases hcs : chainsFrom req.rule.chain with
        | error e => rw [hcs] at h; cases h
        | ok cs =>
          rw [hcs] at h
          cases h
          exact .inr (.inr ⟨.inl rfl, rfl⟩)
      | flush =>
        rw [step_flush hc] at h
        cases hcs : chainsFrom req.rule.chain with
        | error e => rw [hcs] at h; cases h
        | ok cs =>
          rw [hcs] at h
          cases h
          exact .inr (.inl ⟨rfl, fun c => (flushChains_table cs none t c).imp And.left And.left⟩)

end LinuxNet.Sipfw
