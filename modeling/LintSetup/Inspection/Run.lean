import LintSetup.Candidate.Reduction
import LintSetup.Inspection.Schedule
import LintSetup.Options.Setting

/-!
# Inspecting a set of files

An inspection starts from a base configuration and patterns of files.  It asks the linter for its
rules, for what the base amounts to and for the files; it runs all files against the pool of
candidates; and it replaces the rules of the base by what is left of the pool.  One file that cannot
be read makes the whole inspection fail, but only after all other files have been inspected too.

* `Options` --- how many files at a time, how many settings a rule, and whether to show progress;
* `InspectError` --- what can go wrong;
* `Outcome` --- the result, and `Outcome.summary`, its one line for the user;
* `survey` --- the run of all files, with what the linter said before it;
* `inspectFiles` --- the inspection.
-/

namespace LintSetup.Inspection

/-- How to inspect. -/
structure Settings where
  concurrency : Nat := 8
  limit : Nat := Options.standardLimit
  progress : Bool := true
  deriving DecidableEq, Repr

/-- Where progress is shown. -/
inductive Display where
  | custom
  | bar
  | hidden
  deriving DecidableEq, Repr

/-- A display of one's own takes precedence over the choice whether to show the bar. -/
def Settings.display (s : Settings) (own : Bool) : Display :=
  if own then .custom else if s.progress then .bar else .hidden

/-- What showing the start of the progress prints.  The bar is drawn on a line of its own, and what
it draws is only seen on a terminal. -/
def Display.opening : Display → String
  | bar => "\n"
  | custom | hidden => ""

/-- What makes an inspection fail. -/
inductive InspectError where
  | catalog (failure : Failure)
  | config (failure : Failure)
  | listFiles (patterns : List String) (failure : Failure)
  | unreadable (failures : List ReadFailure)
  deriving DecidableEq, Repr

/-- The wording of a failed inspection. -/
def InspectError.message : InspectError → String
  | catalog f => s!"failed to load the rule catalog: {f.chain}"
  | config f => s!"failed to normalize the base config: {f.chain}"
  | listFiles patterns f => s!"failed to list files for {Text.quotedList patterns}: {f.chain}"
  | unreadable failures =>
    let paths := ", ".intercalate (failures.map (·.path))
    s!"{failures.length} file(s) could not be read: {paths}"

/-- The failure behind a failed inspection, if it is not about single files. -/
def InspectError.failure? : InspectError → Option Failure
  | catalog f | config f | listFiles _ f => some f
  | unreadable _ => none

/-- The result of an inspection.  `total` counts the rules that were enabled and those that were
kept off. -/
structure Outcome where
  config : Config
  enabled : Nat
  total : Nat
  patterns : List String
  files : List FileReport

/-- The result in one line. -/
def Outcome.summary (i : Outcome) : String :=
  let sources := ", ".intercalate i.patterns
  s!"Enabled {i.enabled} out of {i.total} rules based on {sources}."

/-- The failures among outcomes. -/
def failures (outcomes : List (Except ReadFailure FileReport)) : List ReadFailure :=
  outcomes.filterMap fun
    | .error f => some f
    | .ok _ => none

/-- The reports among outcomes. -/
def reports (outcomes : List (Except ReadFailure FileReport)) : List FileReport :=
  outcomes.filterMap fun
    | .error _ => none
    | .ok r => some r

/-- Warns about every file that could not be read. -/
def warnAll : List ReadFailure → Session Unit
  | [] => pure ()
  | f :: rest => do
    let _ ← ask (.warn f.message)
    warnAll rest

/-- Inspects listed files, at most `limit` at a time. -/
def runFiles (limit : Nat) (config : Config) (files : List String) (pool : Pool) :
    Session Floor := do
  let _ ← ask (.started files.length)
  let floor ← runAll limit config ⟨[], files, pool, []⟩
  let _ ← ask .finished
  return floor

/-- The result for a base configuration when all files could be read. -/
def Outcome.ofPool (base config : Config) (catalog : List Rule) (patterns : List String)
    (floor : Floor) : Outcome :=
  let r := Reduction.ofPool floor.pool config catalog
  { config := base.withRules r.rules
    enabled := r.enabled
    total := r.enabled + r.disabled
    patterns
    files := reports floor.outcomes }

/-- What the files of an inspection have shown: the floor that they left, beside the rules of the
linter and what the base configuration amounts to. -/
structure Survey where
  catalog : List Rule
  config : Config
  floor : Floor

/-- Asks for the rules, for what the base amounts to and for the files, and runs all files against
the candidates of the rules. -/
def survey (settings : Settings) (base : Config) (patterns : List String) :
    Session (Except InspectError Survey) := do
  match ← ask .rules with
  | .error f => return .error (.catalog f)
  | .ok catalog =>
    match ← ask (.effectiveConfig base) with
    | .error f => return .error (.config f)
    | .ok config =>
      match ← ask (.listFiles patterns) with
      | .error f => return .error (.listFiles patterns f)
      | .ok files =>
        let pool := Pool.ofList (Options.candidates catalog settings.limit)
        let floor ← runFiles (max settings.concurrency 1) config files pool
        return .ok ⟨catalog, config, floor⟩

/-- Infers the rules of a base configuration from the files that patterns select. -/
def inspectFiles (settings : Settings) (base : Config) (patterns : List String) :
    Session (Except InspectError Outcome) := do
  match ← survey settings base patterns with
  | .error e => return .error e
  | .ok v =>
    let failed := failures v.floor.outcomes
    let _ ← warnAll failed
    if failed.isEmpty then return .ok (Outcome.ofPool base v.config v.catalog patterns v.floor)
    else return .error (.unreadable failed)

end LintSetup.Inspection
