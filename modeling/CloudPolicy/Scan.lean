import CloudPolicy.Glob
import CloudPolicy.Registry
import CloudPolicy.Result

/-!
A scan: what a configuration selects from a registry is evaluated against a state, accepted risks
are marked, and the results are put in canonical order and counted. A configuration that names
unknown rules or unreadable globs is refused before any rule runs.
-/

set_option autoImplicit false
set_option relaxedAutoImplicit false

namespace CloudPolicy

structure EvaluationOptions where
  /-- Whether the cancellation flag is looked at. -/
  watchesCancellation : Bool := false
  suppressor : Option Suppressor := none

/-- The results of the rules that ran and the long ids of those that did not. -/
structure Evaluation where
  results : List Result
  notRun : List String
  deriving DecidableEq, Repr

namespace Evaluation

def isComplete (e : Evaluation) : Bool := e.notRun.isEmpty

/-- What became of the rule at one position. -/
inductive Block where
  | ran (results : List Result)
  | skipped (id : String)
  deriving DecidableEq, Repr

def Block.results : Block → List Result
  | .ran rs => rs
  | .skipped _ => []

def Block.skippedId : Block → Option String
  | .ran _ => none
  | .skipped id => some id

def resultsOf (options : EvaluationOptions) (state : State) (rule : Rule) : List Result :=
  Result.classify rule.definition (rule.check state).outcome options.suppressor

/-- The blocks of rules in order, and the cancellation flag after the last one. -/
def blocks (options : EvaluationOptions) (state : State) : Bool → List Rule → List Block × Bool
  | cancelled, [] => ([], cancelled)
  | cancelled, rule :: rules =>
    if options.watchesCancellation && cancelled then
      let (bs, cancelled) := blocks options state cancelled rules
      (.skipped rule.longId :: bs, cancelled)
    else
      let raised := cancelled || (rule.check state).cancels
      let (bs, cancelled) := blocks options state raised rules
      (.ran (resultsOf options state rule) :: bs, cancelled)

def ofBlocks (bs : List Block) : Evaluation :=
  ⟨bs.flatMap Block.results, bs.filterMap Block.skippedId⟩

/-- Evaluates rules from a given cancellation flag; gives the flag afterwards too. -/
def run (options : EvaluationOptions) (state : State) (cancelled : Bool) (rules : List Rule) :
    Evaluation × Bool :=
  let (bs, cancelled) := blocks options state cancelled rules
  (ofBlocks bs, cancelled)

end Evaluation

/-- An accepted risk as it is configured. -/
structure IgnorePolicy where
  /-- A glob over long ids. -/
  rule : String
  /-- A glob over the file of the flagged value. -/
  path : Option String := none
  /-- The reference of the flagged value or of a node around it. -/
  reference : Option String := none
  deriving DecidableEq, Repr

structure IgnoreEntry where
  rule : Glob
  path : Option Glob
  reference : Option String
  deriving DecidableEq, Repr

namespace IgnoreEntry

def compile (p : IgnorePolicy) : Except GlobError IgnoreEntry := do
  let rule ← Glob.compile p.rule
  match p.path with
  | none => return ⟨rule, none, p.reference⟩
  | some path => return ⟨rule, some (← Glob.compile path), p.reference⟩

/-- Whether the entry accepts a finding of the rule with this long id. -/
def accepts (e : IgnoreEntry) (ruleId : String) (f : Finding) : Bool :=
  e.rule.accepts ruleId &&
    e.path.all (fun g => g.accepts f.location.range.file.text) &&
    e.reference.all fun r => f.location.breadcrumbs.any fun m => m.reference == r

end IgnoreEntry

structure IgnoreList where
  entries : List IgnoreEntry
  deriving DecidableEq, Repr

namespace IgnoreList

def size (l : IgnoreList) : Nat := l.entries.length

def isEmpty (l : IgnoreList) : Bool := l.entries.isEmpty

/-- Compiles entries in order; the first pattern that cannot be read is the error. -/
def compile (ps : List IgnorePolicy) : Except GlobError IgnoreList :=
  return ⟨← ps.mapM IgnoreEntry.compile⟩

def suppresses (l : IgnoreList) (rule : Definition) (f : Finding) : Bool :=
  l.entries.any fun e => e.accepts rule.longId f

/-- The list as a suppressor; a list without entries is none. -/
def suppressor? (l : IgnoreList) : Option Suppressor :=
  if l.isEmpty then none else some l.suppresses

end IgnoreList

/-- What a scan goes by. -/
structure EffectiveConfig where
  profile : String := "strict"
  minSeverity : Severity := .low
  /-- Whether rules may be evaluated at the same time. -/
  parallel : Bool := true
  /-- For each configured long id whether it is switched on or off, or neither. -/
  rules : Keyed (Option Bool) := .empty
  ignores : List IgnorePolicy := []

namespace EffectiveConfig

private def idsSet (c : EffectiveConfig) (on : Bool) : List String :=
  (c.rules.entries.filter fun e => e.2 == some on).map (·.1)

def ruleFilter (c : EffectiveConfig) : RuleFilter :=
  { minSeverity := some c.minSeverity, enabled := c.idsSet true, disabled := c.idsSet false }

end EffectiveConfig

inductive ScanError where
  | unknownRule (id : String)
  | invalidIgnorePattern (error : GlobError)
  deriving DecidableEq, Repr

def ScanError.message : ScanError → String
  | .unknownRule id => "configuration names an unknown rule: " ++ id
  | .invalidIgnorePattern e => "invalid ignore pattern '" ++ e.pattern ++ "': " ++ e.message

structure DomainReport where
  profile : String
  results : List Result
  counts : StatusCounts
  failedBySeverity : SeverityCounts
  /-- Long ids of the rules that cancellation kept from running. -/
  notRun : List String
  rulesEvaluated : UInt32
  resourcesScanned : UInt32
  deriving DecidableEq, Repr

namespace DomainReport

/-- A report about results, with their own counts. -/
def ofResults (profile : String) (results : List Result) (notRun : List String)
    (rulesEvaluated resourcesScanned : UInt32) : DomainReport :=
  ⟨profile, results, Results.counts results, Results.failedBySeverity results,
    notRun, rulesEvaluated, resourcesScanned⟩

def hasFailures (r : DomainReport) : Bool := 0 < r.counts.failed

end DomainReport

namespace Scan

/-- The smallest configured id that no rule has. -/
def unknownRule? (registry : Registry) (config : EffectiveConfig) : Option String :=
  config.rules.keys.find? fun id => !registry.contains id

/-- The compiled ignores of a configuration that a registry accepts. -/
def check (registry : Registry) (config : EffectiveConfig) : Except ScanError IgnoreList :=
  match unknownRule? registry config with
  | some id => .error (.unknownRule id)
  | none => (IgnoreList.compile config.ignores).mapError .invalidIgnorePattern

def report (config : EffectiveConfig) (state : State) (selected : List Rule) (e : Evaluation) :
    DomainReport :=
  .ofResults config.profile (Results.sortCanonical e.results) e.notRun
    (UInt32.ofNat (selected.length - e.notRun.length)) (UInt32.ofNat state.resourceCount)

/-- Scans a state. The cancellation flag is the one given, or none if there is nothing to watch; the
flag afterwards comes with the report. -/
def run (registry : Registry) (state : State) (config : EffectiveConfig)
    (watchesCancellation cancelled : Bool) : Except ScanError (DomainReport × Bool) :=
  match check registry config with
  | .error e => .error e
  | .ok ignores =>
    let selected := registry.select config.ruleFilter
    let (e, cancelled) := Evaluation.run ⟨watchesCancellation, ignores.suppressor?⟩ state cancelled
      selected
    .ok (report config state selected e, cancelled)

end Scan

end CloudPolicy
