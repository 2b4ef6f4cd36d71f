import CloudPolicy.Json
import CloudPolicy.Scan
import CloudPolicy.Time

/-!
Reports as they are kept in files: an envelope with schema, tool and times, a summary and a record
for each result. A mask takes away what differs from run to run.
-/

set_option autoImplicit false
set_option relaxedAutoImplicit false

namespace CloudPolicy

structure Tool where
  name : String
  version : String
  deriving DecidableEq, Repr

def Tool.current : Tool := ⟨"infraguard", "0.1.0"⟩

structure Summary where
  profile : String
  rulesEvaluated : UInt32
  resourcesScanned : UInt32
  passed : UInt32
  failed : UInt32
  ignored : UInt32
  failedBySeverity : SeverityCounts
  notRun : List String
  deriving DecidableEq, Repr

structure Record where
  ruleId : String
  provider : Provider
  service : String
  severity : Severity
  status : Status
  description : String
  location : Option Location
  reference : Option String
  fingerprint : String
  resolution : Option String
  links : List String
  deriving DecidableEq, Repr

structure Report where
  schema : String
  tool : Tool
  startedAt : Timestamp
  finishedAt : Timestamp
  summary : Summary
  results : List Record
  deriving DecidableEq, Repr

def Record.ofResult (r : Result) : Record :=
  { ruleId := r.ruleId
    provider := r.rule.provider
    service := r.rule.service
    severity := r.rule.severity
    status := r.status
    description := r.description
    location := r.range
    reference := (r.location.map (·.effectiveReference)).filter (· != "")
    fingerprint := r.fingerprint
    resolution := if r.status == .failed then some r.rule.resolution else none
    links := r.rule.links }

namespace Report

def schemaId : String := "infraguard.report.v1"

def ofDomain (d : DomainReport) (startedAt finishedAt : Timestamp) : Report :=
  { schema := schemaId
    tool := .current
    startedAt := startedAt
    finishedAt := finishedAt
    summary :=
      { profile := d.profile
        rulesEvaluated := d.rulesEvaluated
        resourcesScanned := d.resourcesScanned
        passed := d.counts.passed
        failed := d.counts.failed
        ignored := d.counts.ignored
        failedBySeverity := d.failedBySeverity
        notRun := d.notRun }
    results := d.results.map Record.ofResult }

/-- The exit code: two as soon as there is a failure. -/
def exitCode (r : Report) : Nat := if 0 < r.summary.failed then 2 else 0

end Report

namespace Mask

def timeKeys : List String := ["started_at", "finished_at"]

/-- The keys by which a report's envelope is known. -/
def envelopeKeys : List String := ["schema", "tool", "summary", "results"]

def timeMask : Json := .string "__TIMESTAMP__"

def versionMask : Json := .string "__VERSION__"

mutual

/-- Masks times at any depth. -/
def times : Json → Json
  | .array items => .array (timesOfItems items)
  | .object members => .object (timesOfMembers members)
  | v => v

def timesOfItems : List Json → List Json
  | [] => []
  | v :: vs => times v :: timesOfItems vs

def timesOfMembers : List (String × Json) → List (String × Json)
  | [] => []
  | (k, v) :: ms => (k, if timeKeys.contains k then timeMask else times v) :: timesOfMembers ms

end

def toolVersion : Json → Json
  | .object members =>
    .object (members.map fun m => if m.1 == "version" then (m.1, versionMask) else m)
  | v => v

/-- Masks the version if the document is an envelope. -/
def version : Json → Json
  | .object members =>
    if envelopeKeys.all fun k => members.any (·.1 == k) then
      .object (members.map fun m => if m.1 == "tool" then (m.1, toolVersion m.2) else m)
    else .object members
  | v => v

/-- The document without what differs from run to run. -/
def mask (v : Json) : Json := times (version v)

end Mask

end CloudPolicy
