import LinuxNet.Sipfw.Hooks

/-!
# Isolation of the chains

A chain is isolated if two firewall states with the same configuration and the
same rules *in that chain* give a packet the same final verdict on the chain's
path, whatever the other two chains hold. It is a statement about pairs of
runs, and it holds on the OUTPUT path only: three of the five hooks filter by
the OUTPUT table, so its rules decide about packets for the host and about
forwarded ones, and the FORWARD table decides about nothing at all.

A fault counts as an outcome here. So a chain is also isolated where all states
fault alike: when the log is on and the clock is outside its tables, a packet
that INPUT hits ends in the fault whether OUTPUT hits it first or not.
-/

namespace LinuxNet.Sipfw

/-- The rules `l` of chain `c` determine the verdict on the path of `c`. -/
def Isolated (env : LogEnv) (cf : SipfwConf) (skb : SkBuff) (c : Chain)
    (l : List SipfwRules) : Prop :=
  ∀ t t' : SipfwTables, (t c).rule = l → (t' c).rule = l →
    pathVerdict env t cf skb c = pathVerdict env t' cf skb c

/-- Hooks that do the same in both states give the same verdict. -/
theorem runHooks_congr {env : LogEnv} {t t' : SipfwTables} {skb : SkBuff} {hs : List Hook}
    (heq : ∀ h ∈ hs, ∀ cf, h env t cf skb = h env t' cf skb) :
    ∀ {cf : SipfwConf}, runHooks env t skb hs cf = runHooks env t' skb hs cf := by
  induction hs with
  | nil =>
    intro cf
    rfl
  | cons h hs ih =>
    intro cf
    rw [runHooks, runHooks, heq h (List.mem_cons_self ..) cf]
    cases h env t' cf skb with
    | error e => rfl
    | ok fired =>
      dsimp only
      rw [ih fun h' hm => heq h' (List.mem_cons_of_mem _ hm)]

/-- The OUTPUT path is the one whose hooks all look at their own table. -/
theorem output_isolated (env : LogEnv) (cf : SipfwConf) (skb : SkBuff) (l : List SipfwRules) :
    Isolated env cf skb .output l := fun t t' ht ht' =>
  runHooks_congr fun h hm cf => by
    simp only [hooksOf, List.mem_cons, List.not_mem_nil, or_false] at hm
    rcases hm with rfl | rfl
    · exact hookOn_congr (ht.trans ht'.symm) env cf skb
    · exact hookOn_congr (ht.trans ht'.symm) env cf skb

/-- Where every table lets the packet meet the same verdict, all paths do. -/
theorem hooks_same {env : LogEnv} {cf : SipfwConf} {skb : SkBuff} {v : BitVec 32}
    (h : ∀ c t, hookOn c env t cf skb = .ok ⟨v, cf, [], []⟩) (c : Chain) (t t' : SipfwTables) :
    pathVerdict env t cf skb c = pathVerdict env t' cf skb c := by
  cases c <;>
    simp only [pathVerdict, hooksOf, runHooks, hookPreRouting, hookLocalIn, hookLocaOut,
      hookPostRouting, hookForward, h]

/-- A rule without criteria. -/
def wildRule (action : BitVec 32) : SipfwRules := ⟨0, 0, 0, 0, 0, 0, 0, action, 0⟩

theorem wildRule_matches {skb : SkBuff} (h : matchable (iphProtocol skb.data))
    (action : BitVec 32) : ruleMatches skb (wildRule action) = true := by
  have hip : (isIPMatch skb.data (wildRule action)).val = true :=
    (isIPMatch_val _ _).mpr ⟨.inr rfl, .inr rfl, .inr rfl⟩
  have hports : (portsMatch skb.data (iphHdrLen skb.data) (wildRule action)).val = true :=
    (portsMatch_val _ _ _).mpr ⟨.inr rfl, .inr rfl⟩
  rw [ruleMatches, hip, Bool.true_and]
  rcases h with h | h | h
  · exact (isAddtionMatch_tcp _ _ h).mpr ⟨hports, .inl rfl⟩
  · rw [isAddtionMatch_udp _ _ h, hports]
  · have h9 : skb.data 9 = 1#8 ∨ skb.data 9 = 2#8 := h
    rcases h9 with h9 | h9 <;> simp [isAddtionMatch, h9, wildRule]

/-- A state with given rules in chain `c` and one rule without criteria in OUTPUT. -/
def withOutput (c : Chain) (l : List SipfwRules) (action : BitVec 32) : SipfwTables :=
  (SipfwTables.empty.set .output ⟨[wildRule action], 1⟩).set c ⟨l, l.length⟩

theorem withOutput_same (c : Chain) (l : List SipfwRules) (action : BitVec 32) :
    (withOutput c l action c).rule = l := by
  rw [withOutput, SipfwTables.set_same]

/-- The log is on, and the clock is outside the tables its date is made from. -/
def Unstamped (env : LogEnv) (cf : SipfwConf) : Prop := ¬ LogOff env cf ∧ ¬ InTables env.now

/-- The path ends in a fault of the log, whatever OUTPUT holds: what OUTPUT lets pass is hit in
INPUT. -/
def FaultsAnyway (env : LogEnv) (cf : SipfwConf) (skb : SkBuff) (c : Chain)
    (l : List SipfwRules) : Prop :=
  c = .input ∧ Unstamped env cf ∧ cf.defaultAction = nfAccept ∧ ∃ r ∈ l, ruleMatches skb r = true

section Paths

variable {env : LogEnv} {cf : SipfwConf} {skb : SkBuff} {c : Chain} {t : SipfwTables}
  {action : BitVec 32}

/-- The other two paths start in PRE_ROUTING. -/
theorem hooksOf_preRouting (hc : c ≠ .output) : ∃ hs, hooksOf c = hookPreRouting :: hs := by
  cases c
  · exact ⟨_, rfl⟩
  · exact absurd rfl hc
  · exact ⟨_, rfl⟩

/-- The rule in OUTPUT is hit in PRE_ROUTING. -/
theorem isMatch_withOutput (hc : c ≠ .output) (hm : matchable (iphProtocol skb.data))
    (l : List SipfwRules) (action : BitVec 32) :
    (isMatch skb (withOutput c l action .output).rule).val = some (wildRule action) := by
  have hout : (withOutput c l action .output).rule = [wildRule action] := by
    rw [withOutput, SipfwTables.set_other _ (Ne.symm hc), SipfwTables.set_same]
  rw [isMatch_val, hout, List.find?_cons_of_pos (wildRule_matches hm action)]

/-- On a path that starts in PRE_ROUTING the OUTPUT rule has the last word. -/
theorem verdict_withOutput (hc : c ≠ .output) (hi : cf.invalid = 0#32)
    (hm : matchable (iphProtocol skb.data)) (l : List SipfwRules)
    (hlog : LogOff env cf ∨ InTables env.now) (ha : action.toNat < sipfwActionName.length)
    (hne : action ≠ nfAccept) :
    pathVerdict env (withOutput c l action) cf skb c = .ok action := by
  obtain ⟨fired, hf, hv⟩ := hookOn_found hi (isMatch_withOutput hc hm l action)
    (hlog.imp_right fun h => ⟨h, ha⟩)
  have hpre : hookPreRouting env (withOutput c l action) cf skb = .ok fired := hf
  obtain ⟨hs, hpath⟩ := hooksOf_preRouting hc
  rw [pathVerdict, hpath, runHooks, hpre]
  dsimp only
  rw [hv, if_neg (show (wildRule action).action ≠ nfAccept from hne)]
  rfl

/-- Or the path ends with it, where the log has no date. -/
theorem fault_withOutput (hc : c ≠ .output) (hi : cf.invalid = 0#32)
    (hm : matchable (iphProtocol skb.data)) (l : List SipfwRules) (hu : Unstamped env cf) :
    pathVerdict env (withOutput c l action) cf skb c = .error .outOfBounds := by
  have hpre : hookPreRouting env (withOutput c l action) cf skb = .error .outOfBounds :=
    hookOn_unstamped hi (isMatch_withOutput hc hm l action) hu.1 hu.2
  obtain ⟨hs, hpath⟩ := hooksOf_preRouting hc
  rw [pathVerdict, hpath, runHooks, hpre]

/-- An empty OUTPUT chain leaves the decision to the default, then to INPUT. -/
theorem preRouting_empty (hi : cf.invalid = 0#32) (ht : (t .output).rule = []) :
    hookPreRouting env t cf skb = .ok ⟨cf.defaultAction, cf, [], []⟩ :=
  hookOn_default hi (by rw [isMatch_val, ht]; rfl)

/-- With an empty OUTPUT chain a path comes to a verdict, unless INPUT is hit. -/
theorem verdict_empty (hc : c ≠ .output) (hi : cf.invalid = 0#32) {l : List SipfwRules}
    (ht : (t .output).rule = []) (htc : (t c).rule = l) (hu : Unstamped env cf)
    (hn : ¬ FaultsAnyway env cf skb c l) : ∃ v, pathVerdict env t cf skb c = .ok v := by
  have hpre := @preRouting_empty env cf skb t hi ht
  cases c with
  | output => exact absurd rfl hc
  | forward =>
    simp only [pathVerdict, hooksOf, runHooks, hpre, hookForward]
    split
    next => exact ⟨_, rfl⟩
    next => exact ⟨_, rfl⟩
  | input =>
    simp only [pathVerdict, hooksOf, runHooks, hpre]
    split
    next hd =>
      -- the packet passes, and INPUT does not hit it
      have hnone : (isMatch skb (t .input).rule).val = none := by
        rw [isMatch_val, List.find?_eq_none, htc]
        exact fun r hr hmr => hn ⟨rfl, hu, hd, r, hr, hmr⟩
      have hin : hookLocalIn env t cf skb = .ok ⟨cf.defaultAction, cf, [], []⟩ :=
        hookOn_default hi hnone
      rw [hin]
      dsimp only
      split
      next => exact ⟨_, rfl⟩
      next => exact ⟨_, rfl⟩
    next => exact ⟨_, rfl⟩

/-- Every state ends in the fault. -/
theorem faultsAnyway_verdict (hi : cf.invalid = 0#32) {l : List SipfwRules}
    (h : FaultsAnyway env cf skb c l) (ht : (t c).rule = l) :
    pathVerdict env t cf skb c = .error .outOfBounds := by
  obtain ⟨rfl, ⟨hoff, hnow⟩, hd, r, hr, hmr⟩ := h
  -- a hit in either hook faults
  have hhit : ∀ c', (isMatch skb (t c').rule).val.isSome = true →
      hookOn c' env t cf skb = .error .outOfBounds := fun c' hs => by
    obtain ⟨r', hr'⟩ := Option.isSome_iff_exists.mp hs
    exact hookOn_unstamped hi hr' hoff hnow
  have hin : hookLocalIn env t cf skb = .error .outOfBounds := by
    refine hhit .input ?_
    rw [isMatch_val, List.find?_isSome, ht]
    exact ⟨r, hr, hmr⟩
  cases hout : (isMatch skb (t .output).rule).val with
  | some r' =>
    have hpre : hookPreRouting env t cf skb = .error .outOfBounds :=
      hhit .output (by rw [hout]; rfl)
    rw [pathVerdict, hooksOf, runHooks, hpre]
  | none =>
    have hpre : hookPreRouting env t cf skb = .ok ⟨cf.defaultAction, cf, [], []⟩ :=
      hookOn_default hi hout
    rw [pathVerdict, hooksOf, runHooks, hpre]
    dsimp only
    rw [if_pos hd, runHooks, hin]

end Paths

/-- **Isolation, exactly**: the rules of a chain determine what its path ends in
for the OUTPUT chain, for a firewall that is switched off, for packets no rule can
match, and where the path ends in a fault of the log anyway. -/
theorem isolated_iff_output (env : LogEnv) (cf : SipfwConf) (skb : SkBuff) (c : Chain)
    (l : List SipfwRules) :
    Isolated env cf skb c l ↔
      c = .output ∨ cf.invalid ≠ 0#32 ∨ ¬ matchable (iphProtocol skb.data) ∨
        FaultsAnyway env cf skb c l := by
  constructor
  · intro h
    by_contra hne
    rw [not_or, not_or, not_or, not_not, not_not] at hne
    obtain ⟨hc, hi, hm, hn⟩ := hne
    by_cases hlog : LogOff env cf ∨ InTables env.now
    · -- two rules in OUTPUT, two verdicts
      have hsame := h (withOutput c l nfDrop) (withOutput c l nfQueue)
        (withOutput_same c l nfDrop) (withOutput_same c l nfQueue)
      rw [verdict_withOutput hc hi hm l hlog (by decide) (by decide),
        verdict_withOutput hc hi hm l hlog (by decide) (by decide)] at hsame
      exact absurd (Except.ok.inj hsame) (by decide)
    · -- a rule in OUTPUT and none, a fault and a verdict
      have hu : Unstamped env cf := not_or.mp hlog
      obtain ⟨v, hv⟩ := @verdict_empty env cf skb c (SipfwTables.empty.set c ⟨l, l.length⟩) hc hi l
        (by rw [SipfwTables.set_other _ (Ne.symm hc)]; rfl) (by rw [SipfwTables.set_same]) hu hn
      have hsame := h (withOutput c l nfDrop) (SipfwTables.empty.set c ⟨l, l.length⟩)
        (withOutput_same c l nfDrop) (by rw [SipfwTables.set_same])
      rw [fault_withOutput hc hi hm l hu, hv] at hsame
      cases hsame
  · intro h
    by_cases hi : cf.invalid = 0#32
    · rcases h with rfl | h | hm | h
      · exact output_isolated env cf skb l
      · exact absurd hi h
      · exact fun t t' _ _ => hooks_same (fun c t => hookOn_unmatchable hm c env t hi) c t t'
      · exact fun t t' ht ht' =>
          (faultsAnyway_verdict hi h ht).trans (faultsAnyway_verdict hi h ht').symm
    · exact fun t t' _ _ => hooks_same (fun c t => hookOn_invalid hi c env t skb) c t t'

/-- The rules of the FORWARD chain decide about no forwarded packet. -/
theorem forward_ignored (env : LogEnv) (cf : SipfwConf) (skb : SkBuff) (t : SipfwTables)
    (l : SipfwList) :
    pathVerdict env (t.set .forward l) cf skb .forward = pathVerdict env t cf skb .forward := by
  have hout : (t.set .forward l .output).rule = (t .output).rule := by
    rw [SipfwTables.set_other t (by decide)]
  refine runHooks_congr fun h hm cf => ?_
  simp only [hooksOf, List.mem_cons, List.not_mem_nil, or_false] at hm
  rcases hm with h | h | h <;> subst h
  · exact hookOn_congr hout env cf skb
  · rfl
  · exact hookOn_congr hout env cf skb

/-- No forwarded packet is ever accepted. -/
theorem forward_not_accepted (env : LogEnv) (cf : SipfwConf) (skb : SkBuff) (t : SipfwTables) :
    pathVerdict env t cf skb .forward ≠ .ok nfAccept := by
  simp only [pathVerdict, hooksOf, runHooks, hookForward]
  cases hookPreRouting env t cf skb with
  | error e => exact nofun
  | ok fired =>
    dsimp only
    split
    next => exact fun h => absurd (Except.ok.inj h) (by decide)
    next hv => exact fun h => hv (Except.ok.inj h)

/-- An ICMP packet of 28 bytes. -/
def icmpPacket : SkBuff :=
  ⟨fun o => if o = 0 then 0x45#8 else if o = 9 then 1#8 else 0#8, 28, fun _ => 0#8⟩

/-- A log file that does not open, on the second of January 2010 in UTC+8. -/
def noLog : LogEnv := ⟨fun _ => false, 1262361600⟩

/-- A log file that opens, on the same day. -/
def openLog : LogEnv := ⟨fun _ => true, 1262361600⟩

end LinuxNet.Sipfw
