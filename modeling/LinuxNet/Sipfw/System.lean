import LinuxNet.Lib.Except
import LinuxNet.Lib.Interleave
import LinuxNet.Sipfw.Counts
import LinuxNet.Sipfw.Isolation
import LinuxNet.Sipfw.Proc

/-!
# The firewall as a whole

The loaded module: its tables, its settings and its log, under any interleaving of messages,
writes to the control files and packets (`firewallStep`). Messages change the tables alone
(`tables_project`), writes the settings (`settings_project`), and packets the hit counter
and the log.

A hit is a rule that decides about a packet at a hook. The counter counts hits and not packets:
the hooks of a path ask the table OUTPUT twice, so a packet that is sent and accepted by a rule
counts twice, and so does one for the host that rules of both tables let pass and match
(`audit_exact`). `information_exact` is what the file `information` then shows.

A write to the log goes through where the log has opened.
-/

namespace LinuxNet.Sipfw

/-! ## The module -/

/-- What a packet meets on a path, with everything the hooks leave behind. -/
def passHooks (env : LogEnv) (t : SipfwTables) (skb : SkBuff) :
    List Hook → SipfwConf → Except Fault Fired
  | [], cf => .ok ⟨nfAccept, cf, [], []⟩
  | h :: hs, cf => do
    let fired ← h env t cf skb
    if fired.verdict = nfAccept then
      let rest ← passHooks env t skb hs fired.cf
      return ⟨rest.verdict, rest.cf, fired.logged ++ rest.logged, fired.xmitted ++ rest.xmitted⟩
    else return fired

/-- The module, and what is in its log file. -/
structure Firewall where
  tables : SipfwTables
  proc : ProcState
  log : CStr

/-- `SIPFW_Init`, with what `SIPFW_HandleConf` has read. -/
def Firewall.loaded (cf : SipfwConf) (log : CStr) : Firewall := ⟨.empty, procInit cf, log⟩

/-- What can come next. -/
inductive FirewallEvent where
  | message (req : Request)
  | write (w : ProcWrite)
  | packet (env : LogEnv) (path : Chain) (skb : SkBuff)

section Step

variable (conv : Int → BitVec 32)

def firewallStep (fw : Firewall) : FirewallEvent → Except Fault Firewall
  | .message req => (step fw.tables req).map fun t => { fw with tables := t }
  | .write w => (procWrite conv fw.proc w).map fun p => { fw with proc := p }
  | .packet env path skb =>
    (passHooks env fw.tables skb (hooksOf path) fw.proc.cf).map fun fired =>
      { fw with proc := { fw.proc with cf := fired.cf }, log := fw.log ++ fired.logged.flatten }

end Step

/-- What `SIPFW_ProcInfoRead` prints. -/
def infoText (action : Option CStr) (rulesFile logFile : CStr) (rules hits : Int)
    (invalid : Bool) : List Byte :=
  bytesOf ("DefaultAction:".toList ++ shown action ++ "\nRulesFile:".toList ++ rulesFile ++
      "\nLogFile:".toList ++ logFile ++ "\nRulesNumber:".toList) ++ printInt rules ++
    bytesOf "HitNumber:".toList ++ printInt hits ++
    bytesOf ("FireWall:".toList ++ (if invalid = true then "INVALID" else "VALID").toList ++ ['\n'])

/-- `SIPFW_ProcInfoRead`, from the beginning. -/
def procInfoRead (ruleFilePath : CStr) (cf : SipfwConf) (t : SipfwTables) :
    Except Fault (List Byte) :=
  (actionEntry cf.defaultAction).map fun v =>
    infoText v.ptr ruleFilePath cf.logFilePath (intWrap (total t)) cf.hitNumber.toInt
      (cf.invalid ≠ 0#32)

/-! ## Hits -/

/-- The tables on a path, in the order they are asked. -/
def tablesOn : Chain → List Chain
  | .input => [.output, .input]
  | .output => [.output, .output]
  | .forward => [.output]

/-- The first rule of a chain for a packet. -/
def decides (t : SipfwTables) (c : Chain) (skb : SkBuff) : Option SipfwRules :=
  (isMatch skb (t c).rule).val

/-- The rules that decide about a packet, as long as it is let pass. -/
def hitsIn (t : SipfwTables) (default : BitVec 32) (skb : SkBuff) : List Chain → List SipfwRules
  | [] => []
  | c :: cs =>
    match decides t c skb with
    | some r => r :: if r.action = nfAccept then hitsIn t default skb cs else []
    | none => if default = nfAccept then hitsIn t default skb cs else []

/-- The name of an action. -/
def actionName (action : BitVec 32) : Option CStr :=
  (sipfwActionName[action.toNat]?).bind (·.ptr)

/-- A rule that has decided about a packet, with the settings and the time it was. -/
structure Hit where
  env : LogEnv
  cf : SipfwConf
  skb : SkBuff
  rule : SipfwRules

/-- The line of a hit; there is none while the log is paused or does not open, and no hit is
logged on a date that is not in the tables. -/
def Hit.line (h : Hit) : CStr :=
  if h.cf.logPause = 0#32 ∧ h.env.opens h.cf.logFilePath = true then
    match sipfwLocaltime h.env.now with
    | .ok cur =>
      logLine cur h.skb.data ((protoEntry (iphProtocol h.skb.data)).bind (·.ptr))
        (actionName h.rule.action)
    | .error _ => []
  else []

/-- The hits of a step. -/
def hitsOf (fw : Firewall) : FirewallEvent → List Hit
  | .packet env path skb =>
    if fw.proc.cf.invalid = 0#32 then
      (hitsIn fw.tables fw.proc.cf.defaultAction skb (tablesOn path)).map fun r =>
        ⟨env, fw.proc.cf, skb, r⟩
    else []
  | _ => []

/-- A packet that a rule decides about. -/
def metRule (fw : Firewall) : FirewallEvent → Bool
  | .packet _ path skb =>
    fw.proc.cf.invalid == 0#32 &&
      match path with
      | .input => (decides fw.tables .output skb).isSome ||
          (fw.proc.cf.defaultAction == nfAccept && (decides fw.tables .input skb).isSome)
      | _ => (decides fw.tables .output skb).isSome
  | _ => false

/-- A packet that counts twice. -/
def metTwice (fw : Firewall) : FirewallEvent → Bool
  | .packet _ path skb =>
    fw.proc.cf.invalid == 0#32 &&
      (decides fw.tables .output skb).any (fun r => r.action == nfAccept) &&
      match path with
      | .output => true
      | .input => (decides fw.tables .input skb).isSome
      | .forward => false
  | _ => false

/-! ## On the way of a packet -/

section Packet

variable {env : LogEnv} {t : SipfwTables} {skb : SkBuff} {cf : SipfwConf}

/-- `cf` after so many hits. -/
def SipfwConf.afterHits (cf : SipfwConf) (n : Nat) : SipfwConf :=
  { cf with hitNumber := cf.hitNumber + BitVec.ofNat 32 n }

theorem SipfwConf.afterHits_add (cf : SipfwConf) (m n : Nat) :
    (cf.afterHits m).afterHits n = cf.afterHits (m + n) := by
  unfold afterHits
  dsimp only
  rw [BitVec.add_assoc, ← BitVec.ofNat_add]

theorem actionEntry_ok {action : BitVec 32} {v : Vec} (h : actionEntry action = .ok v) :
    sipfwActionName[action.toNat]? = some v := by
  unfold actionEntry at h
  split at h
  next => cases h
  next =>
    split at h
    next hv =>
      cases h
      exact hv
    next => cases h

/-- The line that is logged. -/
theorem logAppend_line {r : SipfwRules} {line : Option CStr}
    (h : logAppend env cf skb r = .ok line) : line.toList.flatten = Hit.line ⟨env, cf, skb, r⟩ := by
  unfold Hit.line
  dsimp only
  by_cases hoff : LogOff env cf
  · rw [logAppend_off hoff] at h
    cases h
    rw [if_neg fun hon => hoff.elim (fun hp => hp hon.1)
      fun ho => Bool.false_ne_true (ho.symm.trans hon.2)]
    rfl
  · rw [logAppend_on hoff] at h
    obtain ⟨hp, ho⟩ := not_or.mp hoff
    rw [if_pos ⟨not_not.mp hp, Bool.not_eq_false _ ▸ ho⟩]
    obtain ⟨cur, hcur, h⟩ := bind_eq_ok.mp h
    obtain ⟨v, hv, rfl⟩ := map_eq_ok.mp h
    rw [hcur, actionName, actionEntry_ok hv]
    exact List.append_nil _

/-- **A hook that filters** counts and logs a rule that decides. -/
theorem hookOn_hits {c : Chain} {fired : Fired} (hi : cf.invalid = 0#32)
    (h : hookOn c env t cf skb = .ok fired) :
    (decides t c skb = none ∧ fired = ⟨cf.defaultAction, cf, [], []⟩) ∨
      ∃ r, decides t c skb = some r ∧ fired.verdict = r.action ∧ fired.cf = cf.afterHits 1 ∧
        fired.logged.flatten = Hit.line ⟨env, cf, skb, r⟩ := by
  unfold hookOn at h
  rw [if_neg (not_not.mpr hi)] at h
  unfold decides
  cases hm : (isMatch skb (t c).rule).val with
  | none =>
    rw [hm] at h
    cases h
    exact .inl ⟨rfl, rfl⟩
  | some r =>
    rw [hm] at h
    dsimp only at h
    cases hl : logAppend env cf skb r with
    | error e =>
      rw [hl] at h
      cases h
    | ok line =>
      rw [hl] at h
      cases h
      exact .inr ⟨r, rfl, rfl, rfl, logAppend_line hl⟩

/-- A hook behind one that filters is asked if the packet is let pass. -/
theorem passHooks_cons {h : Hook} {hs : List Hook} {fired : Fired}
    (hp : passHooks env t skb (h :: hs) cf = .ok fired) :
    ∃ first, h env t cf skb = .ok first ∧
      ((first.verdict ≠ nfAccept ∧ fired = first) ∨
        (first.verdict = nfAccept ∧ ∃ rest, passHooks env t skb hs first.cf = .ok rest ∧
          fired.cf = rest.cf ∧ fired.logged = first.logged ++ rest.logged)) := by
  rw [passHooks] at hp
  cases hh : h env t cf skb with
  | error e =>
    rw [hh] at hp
    cases hp
  | ok first =>
    rw [hh] at hp
    change (if _ then _ else _) = _ at hp
    refine ⟨first, rfl, ?_⟩
    by_cases hv : first.verdict = nfAccept
    · rw [if_pos hv] at hp
      cases hr : passHooks env t skb hs first.cf with
      | error e =>
        rw [hr] at hp
        cases hp
      | ok rest =>
        rw [hr] at hp
        cases hp
        exact .inr ⟨hv, rest, rfl, rfl, rfl⟩
    · rw [if_neg hv] at hp
      cases hp
      exact .inl ⟨hv, rfl⟩

/-- Hooks that neither count nor log. -/
def Silent (env : LogEnv) (t : SipfwTables) (skb : SkBuff) (hs : List Hook) : Prop :=
  ∀ cf fired, passHooks env t skb hs cf = .ok fired → fired.cf = cf ∧ fired.logged = []

theorem silent_nil : Silent env t skb [] := by
  intro cf fired h
  cases h
  exact ⟨rfl, rfl⟩

/-- Nothing comes behind the FORWARD hook. -/
theorem silent_forward (hs : List Hook) : Silent env t skb (hookForward :: hs) := by
  intro cf fired h
  cases h
  exact ⟨rfl, rfl⟩

/-- **A path** counts and logs the rules that decide, one for each table. -/
theorem passTables_hits {hs : List Hook} (hsilent : Silent env t skb hs) (cs : List Chain) :
    ∀ {cf : SipfwConf} {fired : Fired}, cf.invalid = 0#32 →
      passHooks env t skb (cs.map hookOn ++ hs) cf = .ok fired →
        fired.cf = cf.afterHits (hitsIn t cf.defaultAction skb cs).length ∧
          fired.logged.flatten =
            (hitsIn t cf.defaultAction skb cs).flatMap fun r => Hit.line ⟨env, cf, skb, r⟩ := by
  induction cs with
  | nil =>
    intro cf fired _ h
    obtain ⟨h1, h2⟩ := hsilent cf fired h
    rw [h1, h2]
    exact ⟨by rw [hitsIn, SipfwConf.afterHits, List.length_nil, BitVec.add_zero], rfl⟩
  | cons c cs ih =>
    intro cf fired hi h
    obtain ⟨first, h1, hrest⟩ := passHooks_cons h
    rcases hookOn_hits hi h1 with ⟨hd, rfl⟩ | ⟨r, hd, hv, hcf, hlog⟩
    · rw [hitsIn, hd]
      dsimp only
      rcases hrest with ⟨hne, rfl⟩ | ⟨heq, rest, h2, hcf', hlog'⟩
      · rw [if_neg hne]
        exact ⟨by rw [SipfwConf.afterHits, List.length_nil, BitVec.add_zero], rfl⟩
      · rw [if_pos heq, hcf', hlog']
        exact ih hi h2
    · rw [hitsIn, hd]
      dsimp only
      rcases hrest with ⟨hne, rfl⟩ | ⟨heq, rest, h2, hcf', hlog'⟩
      · rw [if_neg fun he => hne (hv.trans he), hcf, hlog]
        exact ⟨rfl, (List.append_nil _).symm⟩
      · obtain ⟨h3, h4⟩ := ih (show first.cf.invalid = 0#32 from hcf ▸ hi) h2
        rw [if_pos (hv ▸ heq), hcf', hlog', h3, List.flatten_append, h4, hlog, hcf,
          SipfwConf.afterHits_add, Nat.add_comm]
        exact ⟨rfl, rfl⟩

/-- Switched off, the hooks that filter leave nothing behind. -/
theorem passTables_invalid {hs : List Hook} (hsilent : Silent env t skb hs) (cs : List Chain)
    (hi : cf.invalid ≠ 0#32) : ∀ {fired : Fired},
      passHooks env t skb (cs.map hookOn ++ hs) cf = .ok fired →
        fired.cf = cf ∧ fired.logged = [] := by
  induction cs with
  | nil => exact fun h => hsilent cf _ h
  | cons c cs ih =>
    intro fired h
    obtain ⟨first, h1, hrest⟩ := passHooks_cons h
    rw [hookOn_invalid hi] at h1
    cases h1
    rcases hrest with ⟨hne, rfl⟩ | ⟨-, rest, h2, hcf, hlog⟩
    · exact ⟨rfl, rfl⟩
    · rw [hcf, hlog]
      exact ih h2

/-- A path is its tables, and then nothing that counts or logs. -/
theorem hooksOf_tables (path : Chain) :
    ∃ hs, hooksOf path = (tablesOn path).map hookOn ++ hs ∧ Silent env t skb hs := by
  cases path with
  | input => exact ⟨[], rfl, silent_nil⟩
  | output => exact ⟨[], rfl, silent_nil⟩
  | forward => exact ⟨_, rfl, silent_forward [hookPostRouting]⟩

end Packet

/-! ## Step by step -/

/-- The settings, with another counter. -/
def ProcState.withHits (s : ProcState) (n : BitVec 32) : ProcState :=
  { s with cf := { s.cf with hitNumber := n } }

theorem procIntWrite_hits {conv : Int → BitVec 32} (file : ProcFile) {s s' : ProcState}
    {text : List Byte} {fits : text.length ≤ pageSize}
    (h : procIntWrite conv file.set s text fits = .ok s') (n : BitVec 32) :
    s'.cf.hitNumber = s.cf.hitNumber ∧
      procIntWrite conv file.set (s.withHits n) text fits = .ok (s'.withHits n) := by
  unfold procIntWrite at h ⊢
  dsimp only [ProcState.withHits] at h ⊢
  cases hscan : sscanfInt (s.cookiePot.copy text fits).bytes with
  | error e =>
    rw [hscan] at h
    cases h
  | ok read =>
    rw [hscan] at h
    cases read with
    | none =>
      cases h
      exact ⟨rfl, rfl⟩
    | some m =>
      cases h
      cases file <;> exact ⟨rfl, rfl⟩

/-- **A write** neither changes the counter nor looks at it. -/
theorem procWrite_hits {conv : Int → BitVec 32} {s s' : ProcState} {w : ProcWrite}
    (h : procWrite conv s w = .ok s') (n : BitVec 32) :
    s'.cf.hitNumber = s.cf.hitNumber ∧ procWrite conv (s.withHits n) w = .ok (s'.withHits n) := by
  unfold procWrite at h ⊢
  cases hfile : w.file with
  | action =>
    rw [hfile] at h
    dsimp only at h ⊢
    rw [procActionWrite_eq] at h ⊢
    cases h
    exact ⟨rfl, rfl⟩
  | log =>
    rw [hfile] at h
    exact procIntWrite_hits .log h n
  | invalid =>
    rw [hfile] at h
    exact procIntWrite_hits .invalid h n

section Run

variable {conv : Int → BitVec 32} {fw fw' : Firewall} {e : FirewallEvent}

/-- **One step** counts its hits and logs them. -/
theorem firewallStep_hits (h : firewallStep conv fw e = .ok fw') :
    fw'.proc.cf.hitNumber = fw.proc.cf.hitNumber + BitVec.ofNat 32 (hitsOf fw e).length ∧
      fw'.log = fw.log ++ (hitsOf fw e).flatMap Hit.line := by
  cases e with
  | message req =>
    obtain ⟨t, -, rfl⟩ := map_eq_ok.mp h
    exact ⟨(BitVec.add_zero _).symm, (List.append_nil _).symm⟩
  | write w =>
    obtain ⟨p, hp, rfl⟩ := map_eq_ok.mp h
    refine ⟨?_, (List.append_nil _).symm⟩
    show p.cf.hitNumber = fw.proc.cf.hitNumber + 0#32
    rw [BitVec.add_zero, (procWrite_hits hp 0#32).1]
  | packet env path skb =>
    obtain ⟨fired, hf, rfl⟩ := map_eq_ok.mp h
    obtain ⟨hs, hpath, hsilent⟩ := @hooksOf_tables env fw.tables skb path
    rw [hpath] at hf
    rw [hitsOf]
    by_cases hi : fw.proc.cf.invalid = 0#32
    · obtain ⟨hcf, hlog⟩ := passTables_hits hsilent (tablesOn path) hi hf
      rw [if_pos hi, List.length_map, List.flatMap_map]
      dsimp only
      rw [hcf, hlog]
      exact ⟨rfl, rfl⟩
    · obtain ⟨hcf, hlog⟩ := passTables_invalid hsilent (tablesOn path) hi hf
      rw [if_neg hi]
      dsimp only
      rw [hcf, hlog]
      exact ⟨(BitVec.add_zero _).symm, rfl⟩

section Hits

variable {t : SipfwTables} {default : BitVec 32} {skb : SkBuff}

/-- The last table on a path. -/
theorem hitsIn_last (c : Chain) :
    (hitsIn t default skb [c]).length = (decides t c skb).isSome.toNat := by
  rw [hitsIn]
  cases decides t c skb with
  | none => exact (congrArg List.length (ite_self [])).trans rfl
  | some r => exact (congrArg (fun l => (r :: l).length) (ite_self [])).trans rfl

/-- A table that is not the last one. -/
theorem hitsIn_first (c c' : Chain) :
    (hitsIn t default skb [c, c']).length =
      ((decides t c skb).isSome ||
          (default == nfAccept && (decides t c' skb).isSome)).toNat +
        ((decides t c skb).any (fun r => r.action == nfAccept) &&
          (decides t c' skb).isSome).toNat := by
  rw [hitsIn]
  cases decides t c skb with
  | none =>
    show (if default = nfAccept then _ else []).length = _
    by_cases hd : default = nfAccept
    · rw [if_pos hd, hitsIn_last, hd]
      rfl
    · rw [if_neg hd, beq_false_of_ne hd]
      rfl
  | some r =>
    show (r :: if r.action = nfAccept then _ else []).length = 1 + _
    by_cases hr : r.action = nfAccept
    · rw [if_pos hr, List.length_cons, hitsIn_last, Option.any_some, hr, Nat.add_comm]
      rfl
    · rw [if_neg hr, Option.any_some, beq_false_of_ne hr]
      rfl

end Hits

/-- A packet has as many hits as it counts for. -/
theorem hitsOf_length (fw : Firewall) (e : FirewallEvent) :
    (hitsOf fw e).length = (metRule fw e).toNat + (metTwice fw e).toNat := by
  cases e with
  | message req => rfl
  | write w => rfl
  | packet env path skb =>
    unfold hitsOf metRule metTwice
    dsimp only
    by_cases hi : fw.proc.cf.invalid = 0#32
    · rw [if_pos hi, List.length_map, hi, beq_self_eq_true, Bool.true_and, Bool.true_and]
      cases path with
      | input => exact hitsIn_first .output .input
      | output =>
        rw [show tablesOn .output = [.output, .output] from rfl, hitsIn_first]
        cases decides fw.tables .output skb with
        | none => exact congrArg (fun b => b.toNat + 0) (Bool.and_false _)
        | some r => rfl
      | forward =>
        rw [show tablesOn .forward = [.output] from rfl, hitsIn_last, Bool.and_false]
        rfl
    · rw [if_neg hi, beq_false_of_ne hi, Bool.false_and, Bool.false_and, Bool.false_and]
      rfl

/-- What a run adds to the counter. -/
theorem run_hitNumber {es : List FirewallEvent} (h : run (firewallStep conv) fw es = .ok fw') :
    fw'.proc.cf.hitNumber = fw.proc.cf.hitNumber + BitVec.ofNat 32
      (stepCount (firewallStep conv) metRule fw es +
        stepCount (firewallStep conv) metTwice fw es) := by
  rw [← outputs_length hitsOf_length]
  refine @run_outputs _ _ _ _ _ _ hitsOf (fun fw => fw.proc.cf.hitNumber)
    (fun n hs => n + BitVec.ofNat 32 hs.length) ?_ ?_ ?_ es _ _ h
  · intro n
    exact BitVec.add_zero n
  · intro n l m
    rw [List.length_append, BitVec.ofNat_add, BitVec.add_assoc]
  · exact fun _ _ _ h1 => (firewallStep_hits h1).1

/-- **The audit of a run**: the counter has counted the packets a rule has decided about, and
those once more that count twice; the log has a line for each of the hits. -/
theorem audit_exact {es : List FirewallEvent} (h : run (firewallStep conv) fw es = .ok fw') :
    fw'.proc.cf.hitNumber = fw.proc.cf.hitNumber + BitVec.ofNat 32
        (stepCount (firewallStep conv) metRule fw es +
          stepCount (firewallStep conv) metTwice fw es) ∧
      fw'.log = fw.log ++ (outputs (firewallStep conv) hitsOf fw es).flatMap Hit.line := by
  refine ⟨run_hitNumber h, ?_⟩
  refine @run_outputs _ _ _ _ _ _ hitsOf Firewall.log (fun log hs => log ++ hs.flatMap Hit.line)
    ?_ ?_ ?_ es _ _ h
  · exact List.append_nil
  · intro log l m
    rw [List.flatMap_append, List.append_assoc]
  · exact fun _ _ _ h1 => (firewallStep_hits h1).2

/-- APPEND to OUTPUT of a rule that accepts every packet. -/
def appendOutput : Request where
  mem := ⟨7, 0, 0, 0, 0, 0, 0, 0, 0⟩
  pid := 0#32
  opts := { (listAll ⟨0, 0, 0, 0, 0, 0, 0, 0, 0⟩).opts with
    command := .ofUint Cmd.append.code, chain := .ofUint Chain.output.code,
    action := .ofUint nfAccept }

/-- The rule, and a packet that is sent. -/
def sentOne : List FirewallEvent := [.message appendOutput, .packet openLog .output icmpPacket]

/-- The packet counts twice, and has two lines. -/
theorem audit_exact_sent :
    ∃ fw, run (firewallStep keep32) (.loaded .initial []) sentOne = .ok fw ∧
      fw.proc.cf.hitNumber = 2#32 ∧
      fw.log =
        let line := logLine ⟨2010, 1, 1, 0, 0, 0⟩ icmpPacket.data (some "icmp".toList)
          (some "ACCEPT".toList)
        line ++ line := by
  have h : run (firewallStep keep32) (.loaded .initial []) sentOne = .ok _ := rfl
  obtain ⟨hcount, hlog⟩ := audit_exact h
  exact ⟨_, h, hcount.trans rfl, hlog.trans rfl⟩

/-! ## The parts -/

/-- The message of an event. -/
def FirewallEvent.request : FirewallEvent → Option Request
  | .message req => some req
  | _ => none

/-- The write of an event. -/
def FirewallEvent.written : FirewallEvent → Option ProcWrite
  | .write w => some w
  | _ => none

/-- **The tables** are what the messages have made of them. -/
theorem tables_project {es : List FirewallEvent} (h : run (firewallStep conv) fw es = .ok fw') :
    run step fw.tables (es.filterMap FirewallEvent.request) = .ok fw'.tables := by
  refine @run_project _ _ _ _ _ _ _ step Firewall.tables FirewallEvent.request ?_ ?_ es _ _ h
  · intro fw e fw' req h he
    cases e with
    | message req' =>
      cases he
      obtain ⟨t, ht, rfl⟩ := map_eq_ok.mp h
      exact ht
    | write w => cases he
    | packet env path skb => cases he
  · intro fw e fw' h he
    cases e with
    | message req' => cases he
    | write w =>
      obtain ⟨p, -, rfl⟩ := map_eq_ok.mp h
      rfl
    | packet env path skb =>
      obtain ⟨fired, -, rfl⟩ := map_eq_ok.mp h
      rfl

/-- **The settings**, the counter apart, are what the writes have made of them. -/
theorem settings_project {es : List FirewallEvent} (h : run (firewallStep conv) fw es = .ok fw') :
    run (procWrite conv) (fw.proc.withHits 0#32) (es.filterMap FirewallEvent.written) =
      .ok (fw'.proc.withHits 0#32) := by
  refine @run_project _ _ _ _ _ _ _ (procWrite conv) (fun fw => fw.proc.withHits 0#32)
    FirewallEvent.written ?_ ?_ es _ _ h
  · intro fw e fw' w h he
    cases e with
    | message req => cases he
    | write w' =>
      cases he
      obtain ⟨p, hp, rfl⟩ := map_eq_ok.mp h
      exact (procWrite_hits hp 0#32).2
    | packet env path skb => cases he
  · intro fw e fw' h he
    cases e with
    | message req =>
      obtain ⟨t, -, rfl⟩ := map_eq_ok.mp h
      rfl
    | write w => cases he
    | packet env path skb =>
      obtain ⟨fired, hf, rfl⟩ := map_eq_ok.mp h
      obtain ⟨hs, hpath, hsilent⟩ := @hooksOf_tables env fw.tables skb path
      rw [hpath] at hf
      unfold ProcState.withHits
      dsimp only
      by_cases hi : fw.proc.cf.invalid = 0#32
      · rw [(passTables_hits hsilent (tablesOn path) hi hf).1]
        rfl
      · rw [(passTables_invalid hsilent (tablesOn path) hi hf).1]

/-! ## The file `information` -/

/-- What no write changes, and what the default action can be. -/
structure Settings (logFile : CStr) (s : ProcState) : Prop where
  logFile : s.cf.logFilePath = logFile
  action : s.cf.defaultAction = nfAccept ∨ s.cf.defaultAction = nfDrop

theorem procWrite_settings {logFile : CStr} {s s' : ProcState} {w : ProcWrite}
    (hs : Settings logFile s) (h : procWrite conv s w = .ok s') : Settings logFile s' := by
  have hint : ∀ {file : ProcFile} {text : List Byte} {fits : text.length ≤ pageSize},
      file ≠ .action → procIntWrite conv file.set s text fits = .ok s' → Settings logFile s' := by
    intro file text fits hfile h
    unfold procIntWrite at h
    dsimp only at h
    split at h
    next => cases h
    next =>
      cases h
      exact ⟨hs.logFile, hs.action⟩
    next =>
      cases h
      cases file with
      | action => exact absurd rfl hfile
      | log => exact ⟨hs.logFile, hs.action⟩
      | invalid => exact ⟨hs.logFile, hs.action⟩
  unfold procWrite at h
  cases hfile : w.file with
  | action =>
    rw [hfile] at h
    dsimp only at h
    rw [procActionWrite_eq] at h
    cases h
    refine ⟨hs.logFile, ?_⟩
    show chosen _ _ _ = _ ∨ chosen _ _ _ = _
    unfold chosen
    split
    next => exact .inl rfl
    next =>
      split
      next => exact .inr rfl
      next => exact hs.action
  | log =>
    rw [hfile] at h
    exact @hint .log _ _ (by decide) h
  | invalid =>
    rw [hfile] at h
    exact @hint .invalid _ _ (by decide) h

/-- The rules that are linked. -/
def ruleCount (t : SipfwTables) : Nat :=
  (t .input).rule.length + (t .output).rule.length + (t .forward).rule.length

/-- The counter is right if every message has counted its rule. -/
theorem total_counted {es : List FirewallEvent} {cf : SipfwConf} {log : CStr}
    (h : run (firewallStep conv) (.loaded cf log) es = .ok fw')
    (hcounted : Along step (fun t req => ¬ Uncounted t req) .empty
      (es.filterMap FirewallEvent.request)) : total fw'.tables = ruleCount fw'.tables := by
  have hsound : Sound fw'.tables :=
    run_keeps (fun _ _ _ ht hu h1 => step_sound ht hu h1) _
      (show Sound (Firewall.loaded cf log).tables from empty_sound) hcounted (tables_project h)
  have hc : Counted fw'.tables := hsound.honest.1
  rw [total, ruleCount, hc, hc, hc, Int.natCast_add, Int.natCast_add]

/-- **`/proc/net/sipfw/information` after any run**: the default action and the switch are what
the writes alone have made of them; the number of rules is right if every message has counted its
rule, and the number of hits, each as long as it is an `int`. -/
theorem information_exact {cf : SipfwConf} {log : CStr} {es : List FirewallEvent}
    (ruleFilePath : CStr) (h : run (firewallStep conv) (.loaded cf log) es = .ok fw')
    (hzero : cf.hitNumber = 0#32)
    (haction : cf.defaultAction = nfAccept ∨ cf.defaultAction = nfDrop) :
    ∃ s rules hits,
      run (procWrite conv) (procInit cf) (es.filterMap FirewallEvent.written) = .ok s ∧
      procInfoRead ruleFilePath fw'.proc.cf fw'.tables =
        .ok (infoText (actionName s.cf.defaultAction) ruleFilePath cf.logFilePath rules hits
          (s.cf.invalid ≠ 0#32)) ∧
      (Along step (fun t req => ¬ Uncounted t req) .empty (es.filterMap FirewallEvent.request) →
        ruleCount fw'.tables < 2147483648 → rules = ruleCount fw'.tables) ∧
      (stepCount (firewallStep conv) metRule (.loaded cf log) es +
          stepCount (firewallStep conv) metTwice (.loaded cf log) es < 2147483648 →
        hits = (stepCount (firewallStep conv) metRule (.loaded cf log) es +
          stepCount (firewallStep conv) metTwice (.loaded cf log) es : Nat)) := by
  have hwrites := settings_project h
  rw [show (Firewall.loaded cf log).proc.withHits 0#32 = procInit cf by rw [← hzero]; rfl]
    at hwrites
  have hall : Along (procWrite conv) (fun _ _ => True) (procInit cf)
      (es.filterMap FirewallEvent.written) := along_of_forall (fun _ _ _ => trivial) _
  have hsettings : Settings cf.logFilePath (fw'.proc.withHits 0#32) :=
    run_keeps (fun _ _ _ hs _ h1 => procWrite_settings hs h1) _
      (show Settings cf.logFilePath (procInit cf) from ⟨rfl, haction⟩) hall hwrites
  refine ⟨_, intWrap (total fw'.tables), fw'.proc.cf.hitNumber.toInt, hwrites, ?_, ?_, ?_⟩
  · unfold procInfoRead
    rw [show fw'.proc.cf.logFilePath = cf.logFilePath from hsettings.logFile]
    rcases hsettings.action with ha | ha
    · rw [show fw'.proc.cf.defaultAction = nfAccept from ha, ha]
      rfl
    · rw [show fw'.proc.cf.defaultAction = nfDrop from ha, ha]
      rfl
  · intro hcounted hrules
    rw [total_counted h hcounted]
    exact intWrap_of_lt (by omega) (by omega)
  · intro hhits
    rw [run_hitNumber h, show (Firewall.loaded cf log).proc.cf.hitNumber = 0#32 from hzero,
      BitVec.zero_add, BitVec.toInt_eq_toNat_of_lt (by rw [BitVec.toNat_ofNat]; omega),
      BitVec.toNat_ofNat, Nat.mod_eq_of_lt (by omega)]

/-- Then `DROP` to the file `defaultaction`. -/
theorem information_exact_sent :
    ∃ fw s, run (firewallStep keep32) (.loaded .initial [])
        (sentOne ++ [.write ⟨.action, dropName ++ [0#8], by decide⟩]) = .ok fw ∧
      procWrite keep32 (procInit .initial) ⟨.action, dropName ++ [0#8], by decide⟩ = .ok s ∧
      procInfoRead [] fw.proc.cf fw.tables =
        .ok (infoText (actionName s.cf.defaultAction) [] SipfwConf.initial.logFilePath 1 2
          (s.cf.invalid ≠ 0#32)) := by
  have h : run (firewallStep keep32) (.loaded .initial [])
      (sentOne ++ [.write ⟨.action, dropName ++ [0#8], by decide⟩]) = .ok _ := rfl
  have hcounted : ¬ Uncounted .empty appendOutput := by
    rw [@uncounted_iff .empty appendOutput .append .output rfl rfl]
    decide
  obtain ⟨s, rules, hits, hs, hinfo, hrules, hhits⟩ := information_exact [] h rfl (.inl rfl)
  obtain rfl := hrules ⟨hcounted, fun _ _ => trivial⟩ (show 1 < 2147483648 by decide)
  obtain rfl := hhits (show 2 < 2147483648 by decide)
  obtain ⟨s', hw, hs'⟩ := run_cons_cases hs
  cases hs'
  exact ⟨_, s, h, hw, hinfo⟩

end Run

end LinuxNet.Sipfw
