import LinuxNet.Lib.CStr

/-!
# `getopt_long`

`getopt_long` called until it returns `-1` delivers a list of events: the
option character and `optarg`, with `?` for an option that is unknown,
ambiguous, lacks its argument or has one it should not have. `getoptLong`
computes that list from the arguments (without `argv[0]`), with the GNU
conventions the tool is written for:

- arguments that are not options are skipped, wherever they stand, and `--`
  ends the options;
- short options may be bundled, and a required argument is the rest of the
  argument or the next one, whatever it looks like;
- a long name may be abbreviated as long as it is unambiguous, and takes its
  argument after `=` or, when required, from the next argument.

The recursion is over the argument list: an option still waiting for its
argument is carried to the next one, so no lookahead is needed.
-/

namespace LinuxNet

/-- Whether an option takes an argument. -/
inductive HasArg where
  | no
  | required
  | optional
  deriving DecidableEq, Repr

/-- `struct option`: a long name and the short character it stands for. -/
structure LongOption where
  name : CStr
  hasArg : HasArg
  val : Char
  deriving DecidableEq, Repr

/-- What one call of `getopt_long` returns: the character and `optarg`. -/
structure OptEvent where
  c : Char
  optarg : Option CStr
  deriving DecidableEq, Repr

/-- What `getopt_long` returns for an argument it cannot use. -/
def OptEvent.unknown : OptEvent := ⟨'?', none⟩

/-- The short options bundled in one argument, and the option that still waits
for its argument when the bundle ends. -/
def shortOptions (short : List (Char × HasArg)) : CStr → List OptEvent × Option Char
  | [] => ([], none)
  | c :: cs =>
    match short.lookup c with
    | none => let r := shortOptions short cs; (.unknown :: r.1, r.2)
    | some .no => let r := shortOptions short cs; (⟨c, none⟩ :: r.1, r.2)
    | some .required => if cs = [] then ([], some c) else ([⟨c, some cs⟩], none)
    | some .optional => ([⟨c, if cs = [] then none else some cs⟩], none)

/-- The long option an argument names: the exact name, else the only name it
abbreviates. -/
def findLong (long : List LongOption) (name : CStr) : Option LongOption :=
  match long.find? (·.name = name) with
  | some o => some o
  | none =>
    match long.filter (name.isPrefixOf ·.name) with
    | [o] => some o
    | _ => none

/-- An argument `--body`. -/
def longOption (long : List LongOption) (body : CStr) : List OptEvent × Option Char :=
  let value := if '=' ∈ body then some ((body.dropWhile (· ≠ '=')).tail) else none
  match findLong long (body.takeWhile (· ≠ '=')) with
  | none => ([.unknown], none)
  | some o =>
    match value, o.hasArg with
    | some _, .no => ([.unknown], none)
    | some v, _ => ([⟨o.val, some v⟩], none)
    | none, .required => ([], some o.val)
    | none, _ => ([⟨o.val, none⟩], none)

/-- All that `getopt_long` returns before `-1`. The first argument is the
option still waiting for its argument, if any. -/
def getoptLong (short : List (Char × HasArg)) (long : List LongOption) :
    Option Char → List CStr → List OptEvent
  | some _, [] => [.unknown]
  | some c, a :: as => ⟨c, some a⟩ :: getoptLong short long none as
  | none, [] => []
  | none, a :: as =>
    match a with
    | ['-', '-'] => []
    | '-' :: '-' :: body =>
      let r := longOption long body
      r.1 ++ getoptLong short long r.2 as
    | '-' :: c :: cs =>
      let r := shortOptions short (c :: cs)
      r.1 ++ getoptLong short long r.2 as
    | _ => getoptLong short long none as

/-! ## Options handled one after the other -/

/-- The last value an event of the list yields. -/
def lastOf {β : Type} (f : OptEvent → Option β) : List OptEvent → Option β
  | [] => none
  | ev :: evs => (lastOf f evs).or (f ev)

theorem lastOf_map {β γ : Type} (f : OptEvent → Option β) (g : β → γ) (evs : List OptEvent) :
    lastOf (fun ev => (f ev).map g) evs = (lastOf f evs).map g := by
  induction evs with
  | nil => rfl
  | cons ev evs ih =>
    rw [lastOf, lastOf, ih]
    cases lastOf f evs <;> rfl

/-- The last value comes from one of the events. -/
theorem lastOf_eq_some {β : Type} {f : OptEvent → Option β} {b : β} {evs : List OptEvent}
    (h : lastOf f evs = some b) : ∃ ev ∈ evs, f ev = some b := by
  induction evs with
  | nil => cases h
  | cons ev evs ih =>
    rw [lastOf] at h
    cases hl : lastOf f evs with
    | some b' =>
      rw [hl, Option.some_or] at h
      obtain ⟨ev', hmem, hf⟩ := ih (hl.trans h)
      exact ⟨ev', List.mem_cons_of_mem _ hmem, hf⟩
    | none =>
      rw [hl, Option.none_or] at h
      exact ⟨ev, List.mem_cons_self .., h⟩

/-- **Last write wins**: where handling an event overwrites a part `g` of the
state with the value the event yields, and leaves it alone otherwise, the part
ends up with the last value, or as it was. -/
theorem foldl_lastOf {σ β : Type} {step : σ → OptEvent → σ} {g : σ → β}
    {f : OptEvent → Option β} (h : ∀ s ev, g (step s ev) = (f ev).getD (g s))
    (evs : List OptEvent) : ∀ s : σ, g (evs.foldl step s) = (lastOf f evs).getD (g s) := by
  induction evs with
  | nil =>
    intro s
    rfl
  | cons ev evs ih =>
    intro s
    rw [List.foldl_cons, ih, lastOf, h]
    cases lastOf f evs <;> rfl

end LinuxNet
