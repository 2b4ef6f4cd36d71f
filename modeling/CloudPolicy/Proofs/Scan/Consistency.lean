import CloudPolicy.Proofs.Fingerprint
import CloudPolicy.Proofs.Scan.Selection
import CloudPolicy.Report

/-!
Reports agree with themselves: the numbers are those of the results, every selected rule is
accounted for once, and the fingerprint of a record is found again from the fields that it shows.
-/

set_option autoImplicit false
set_option relaxedAutoImplicit false

namespace CloudPolicy

structure Entry where
  ruleId : String
  severity : Severity
  status : Status
  deriving DecidableEq, Repr

def Entry.ofResult (r : Result) : Entry := ⟨r.ruleId, r.rule.severity, r.status⟩

def Entry.ofRecord (r : Record) : Entry := ⟨r.ruleId, r.severity, r.status⟩

def DomainReport.summary (d : DomainReport) : Summary :=
  ⟨d.profile, d.rulesEvaluated, d.resourcesScanned, d.counts.passed,
    d.counts.failed, d.counts.ignored, d.failedBySeverity, d.notRun⟩

/-- The numbers and the skipped ids fit the entries and the rules that were selected. -/
structure Consistent (selected : List Rule) (s : Summary) (entries : List Entry) : Prop where
  passed : s.passed.toNat = entries.countP (·.status == .passed)
  failed : s.failed.toNat = entries.countP (·.status == .failed)
  ignored : s.ignored.toNat = entries.countP (·.status == .ignored)
  total : s.passed.toNat + s.failed.toNat + s.ignored.toNat = entries.length
  severities : ∀ v, (s.failedBySeverity.get v).toNat =
    entries.countP fun e => e.severity == v && e.status == .failed
  severities_total : (Severity.all.map fun v => (s.failedBySeverity.get v).toNat).sum =
    s.failed.toNat ∧ s.failedBySeverity.total = s.failed
  /-- A selected rule is skipped once and has no entry, or is not skipped and has one. -/
  settled : ∀ rule ∈ selected,
    (s.notRun.count rule.longId = 1 ∧ ∀ e ∈ entries, e.ruleId ≠ rule.longId) ∨
    (rule.longId ∉ s.notRun ∧ ∃ e ∈ entries, e.ruleId = rule.longId)
  selected_entries : ∀ e ∈ entries,
    ∃ rule ∈ selected, e.ruleId = rule.longId ∧ e.severity = rule.definition.severity
  selected_notRun : ∀ id ∈ s.notRun, ∃ rule ∈ selected, id = rule.longId
  pass_alone : ∀ e ∈ entries, e.status = .passed → entries.filter (·.ruleId == e.ruleId) = [e]
  evaluated : s.notRun.length ≤ selected.length ∧
    s.rulesEvaluated.toNat + s.notRun.length = selected.length
  distinct : s.rulesEvaluated.toNat = (entries.map (·.ruleId)).dedup.length

namespace Scan

/-- How a report comes from the rules that ran and those that were skipped. -/
structure Divides (selected : List Rule) (suppressor : Option Suppressor) (state : State)
    (d : DomainReport) (ran skipped : List Rule) : Prop where
  rules : (ran ++ skipped).Perm selected
  results : d.results.Perm (ran.flatMap (Evaluation.alone suppressor state))
  notRun : d.notRun = skipped.map Rule.longId
  counts : d.counts = Results.counts d.results
  severities : d.failedBySeverity = Results.failedBySeverity d.results
  evaluated : d.rulesEvaluated = UInt32.ofNat (selected.length - skipped.length)

theorem Reported.divides_of_check {registry : Registry} {state : State} {config : EffectiveConfig}
    {d : DomainReport} {ignores : IgnoreList} (reported : Reported registry state config d)
    (accepted : check registry config = .ok ignores) :
    ∃ ran skipped,
      Divides (registry.select config.ruleFilter) ignores.suppressor? state d ran skipped := by
  obtain ⟨ignores', watches, cancelled, events, e, accepted', outcome, rfl⟩ := reported
  obtain rfl : ignores = ignores' := Except.ok.inj (accepted.symm.trans accepted')
  obtain ⟨skips, account⟩ := outcome.account
  obtain ⟨ran, skipped, rules, divided⟩ :=
    Evaluation.marked_divides ignores.suppressor? state account.length
  have collected : e = ⟨ran.flatMap (Evaluation.alone ignores.suppressor? state),
      skipped.map Rule.longId⟩ := account.collected.trans divided
  subst collected
  refine ⟨ran, skipped, rules, List.mergeSort_perm _ _, rfl, rfl, rfl, ?_⟩
  simp [report, DomainReport.ofResults]

theorem Reported.accepted {registry : Registry} {state : State} {config : EffectiveConfig}
    {d : DomainReport} (reported : Reported registry state config d) :
    ∃ ignores, check registry config = .ok ignores := by
  obtain ⟨ignores, _, _, _, _, accepted, _⟩ := reported
  exact ⟨ignores, accepted⟩

theorem Reported.divides {registry : Registry} {state : State} {config : EffectiveConfig}
    {d : DomainReport} (reported : Reported registry state config d) :
    ∃ suppressor ran skipped,
      Divides (registry.select config.ruleFilter) suppressor state d ran skipped := by
  obtain ⟨ignores, accepted⟩ := reported.accepted
  exact ⟨ignores.suppressor?, reported.divides_of_check accepted⟩

namespace Divides

variable {selected : List Rule} {suppressor : Option Suppressor} {state : State} {d : DomainReport}
  {ran skipped : List Rule}

theorem lengths (parts : Divides selected suppressor state d ran skipped) :
    ran.length + skipped.length = selected.length := by
  rw [← List.length_append, parts.rules.length_eq]

theorem nodup (parts : Divides selected suppressor state d ran skipped)
    (distinct : (selected.map Rule.longId).Nodup) :
    (ran.map Rule.longId).Nodup ∧ (skipped.map Rule.longId).Nodup ∧
      ∀ rule ∈ ran, ∀ other ∈ skipped, rule.longId ≠ other.longId := by
  have both := (parts.rules.map Rule.longId).nodup_iff.mpr distinct
  rw [List.map_append, List.nodup_append] at both
  exact ⟨both.1, both.2.1, fun rule here other there =>
    both.2.2 _ (List.mem_map_of_mem here) _ (List.mem_map_of_mem there)⟩

theorem rulesEvaluated (parts : Divides selected suppressor state d ran skipped)
    (few : d.results.length < UInt32.size) : d.rulesEvaluated.toNat = ran.length := by
  have fits := Evaluation.length_ran_le suppressor state ran
  rw [← parts.results.length_eq] at fits
  rw [parts.evaluated, ← parts.lengths, Nat.add_sub_cancel]
  exact UInt32.toNat_ofNat_of_lt' (Nat.lt_of_le_of_lt fits few)

theorem forRule (parts : Divides selected suppressor state d ran skipped)
    (distinct : (selected.map Rule.longId).Nodup) {rule : Rule} (here : rule ∈ ran) :
    (Results.forRule d.results rule.longId).Perm (Evaluation.alone suppressor state rule) := by
  rw [← Evaluation.forRule_ran (parts.nodup distinct).1 here]
  exact parts.results.filter _

theorem exists_ran (parts : Divides selected suppressor state d ran skipped) {r : Result}
    (member : r ∈ d.results) :
    ∃ rule ∈ ran, r ∈ Evaluation.alone suppressor state rule ∧ r.rule = rule.definition :=
  Evaluation.exists_of_mem_ran (parts.results.mem_iff.mp member)

theorem settled (parts : Divides selected suppressor state d ran skipped)
    (distinct : (selected.map Rule.longId).Nodup) {rule : Rule} (member : rule ∈ selected) :
    (d.notRun.count rule.longId = 1 ∧ ∀ r ∈ d.results, r.ruleId ≠ rule.longId) ∨
    (rule.longId ∉ d.notRun ∧ ∃ r ∈ d.results, r.ruleId = rule.longId) := by
  obtain ⟨-, skippedNodup, apart⟩ := parts.nodup distinct
  rw [parts.notRun]
  rcases List.mem_append.mp (parts.rules.mem_iff.mpr member) with here | there
  · right
    constructor
    · intro skip
      obtain ⟨other, there, same⟩ := List.mem_map.mp skip
      exact apart rule here other there same.symm
    · obtain ⟨r, block⟩ :=
        List.exists_mem_of_ne_nil _ (Evaluation.alone_ne_nil suppressor state rule)
      exact ⟨r, parts.results.mem_iff.mpr (List.mem_flatMap.mpr ⟨rule, here, block⟩),
        Evaluation.ruleId_of_mem_alone block⟩
  · left
    refine ⟨List.count_eq_one_of_mem skippedNodup (List.mem_map_of_mem there),
      fun r result same => ?_⟩
    obtain ⟨other, here, block, _⟩ := parts.exists_ran result
    exact apart other here rule there ((Evaluation.ruleId_of_mem_alone block).symm.trans same)

private theorem pass_alone (parts : Divides selected suppressor state d ran skipped)
    (distinct : (selected.map Rule.longId).Nodup) {r : Result} (member : r ∈ d.results)
    (passed : r.status = .passed) : Results.forRule d.results r.ruleId = [r] := by
  obtain ⟨rule, here, block, _⟩ := parts.exists_ran member
  have only := parts.forRule distinct here
  rw [Evaluation.alone_of_passed block passed] at only
  rw [Evaluation.ruleId_of_mem_alone block]
  exact List.perm_singleton.mp only

private theorem distinct_ids (parts : Divides selected suppressor state d ran skipped)
    (distinct : (selected.map Rule.longId).Nodup) :
    (d.results.map Result.ruleId).dedup.length = ran.length := by
  rw [(parts.results.map Result.ruleId).dedup.length_eq]
  exact Evaluation.length_dedup_ids (parts.nodup distinct).1

private theorem consistent (parts : Divides selected suppressor state d ran skipped)
    (distinct : (selected.map Rule.longId).Nodup) (few : d.results.length < UInt32.size) :
    Consistent selected d.summary (d.results.map Entry.ofResult) := by
  have byStatus : ∀ s, (d.counts.get s).toNat =
      (d.results.map Entry.ofResult).countP (·.status == s) := fun s => by
    rw [parts.counts, Results.toNat_counts_get few, List.countP_map]
    rfl
  have bySeverity : ∀ v, (d.failedBySeverity.get v).toNat =
      (d.results.map Entry.ofResult).countP fun e => e.severity == v && e.status == .failed :=
        fun v => by
    rw [parts.severities, Results.toNat_failedBySeverity_get few, List.countP_map]
    rfl
  constructor
  case passed => exact byStatus .passed
  case failed => exact byStatus .failed
  case ignored => exact byStatus .ignored
  case total =>
    have share := Results.sum_countP_status d.results
    simp only [← Results.toNat_counts_get few, ← parts.counts] at share
    simpa [DomainReport.summary, Status.all, StatusCounts.get, Nat.add_assoc] using share
  case severities => exact bySeverity
  case severities_total =>
    constructor
    · have share := Results.sum_countP_severity d.results
      simp only [← Results.toNat_counts_get few, ← Results.toNat_failedBySeverity_get few,
        ← parts.counts, ← parts.severities] at share
      exact share
    · rw [DomainReport.summary, parts.severities, parts.counts]
      exact Results.total_failedBySeverity d.results
  case settled =>
    intro rule member
    simpa [DomainReport.summary, Entry.ofResult] using parts.settled distinct member
  case selected_entries =>
    intro e member
    obtain ⟨r, result, rfl⟩ := List.mem_map.mp member
    obtain ⟨rule, here, _, same⟩ := parts.exists_ran result
    refine ⟨rule, parts.rules.mem_iff.mp (List.mem_append_left _ here), ?_, ?_⟩
    · exact congrArg Definition.longId same
    · exact congrArg Definition.severity same
  case selected_notRun =>
    intro id member
    rw [DomainReport.summary, parts.notRun] at member
    obtain ⟨rule, there, rfl⟩ := List.mem_map.mp member
    exact ⟨rule, parts.rules.mem_iff.mp (List.mem_append_right _ there), rfl⟩
  case pass_alone =>
    intro e member passed
    obtain ⟨r, result, rfl⟩ := List.mem_map.mp member
    rw [List.filter_map]
    exact congrArg (List.map Entry.ofResult) (parts.pass_alone distinct result passed)
  case evaluated =>
    have lengths := parts.lengths
    have ran_length := parts.rulesEvaluated few
    simp only [DomainReport.summary, parts.notRun, List.length_map]
    omega
  case distinct =>
    rw [List.map_map]
    exact (parts.rulesEvaluated few).trans (parts.distinct_ids distinct).symm

private theorem failed_of_isFault (parts : Divides selected suppressor state d ran skipped)
    {r : Result} (member : r ∈ d.results) (fault : r.isFault = true) : r.status = .failed := by
  obtain ⟨rule, _, block, _⟩ := parts.exists_ran member
  exact (Evaluation.alone_of_isFault block fault).1

end Divides

private theorem failed_pos_iff {selected : List Rule} {s : Summary} {entries : List Entry}
    (consistent : Consistent selected s entries) :
    0 < s.failed ↔ ∃ e ∈ entries, e.status = .failed := by
  rw [UInt32.lt_iff_toNat_lt, consistent.failed, UInt32.toNat_zero, List.countP_pos_iff]
  simp

/-- Every accepted configuration has a report for every pattern of cancellation, and each of its
reports is consistent, as it is returned and as it is kept in a file. Exit code and failures say the
same. -/
theorem reports_consistent {registry : Registry} (built : registry.Built) (state : State)
    (config : EffectiveConfig) :
    (∀ ignores, check registry config = .ok ignores → ∀ watches cancelled,
      ∃ d flag, run registry state config watches cancelled = .ok (d, flag) ∧
        Reported registry state config d) ∧
    ∀ d, Reported registry state config d → d.results.length < UInt32.size →
      Consistent (registry.select config.ruleFilter) d.summary (d.results.map .ofResult) ∧
      (d.hasFailures = true ↔ ∃ r ∈ d.results, r.status = .failed) ∧
      (∀ r ∈ d.results, r.isFault = true → r.status = .failed) ∧
      ∀ startedAt finishedAt,
        Consistent (registry.select config.ruleFilter)
          (Report.ofDomain d startedAt finishedAt).summary
          ((Report.ofDomain d startedAt finishedAt).results.map .ofRecord) ∧
        ((Report.ofDomain d startedAt finishedAt).exitCode = 2 ↔
          ∃ r ∈ (Report.ofDomain d startedAt finishedAt).results, r.status = .failed) := by
  refine ⟨fun ignores accepted => exists_run_reported accepted state, fun d reported few => ?_⟩
  obtain ⟨suppressor, ran, skipped, parts⟩ := reported.divides
  have consistent := parts.consistent (select_nodup built _) few
  refine ⟨consistent, ?_, fun r => parts.failed_of_isFault, fun startedAt finishedAt => ?_⟩
  · rw [DomainReport.hasFailures, decide_eq_true_iff]
    exact (failed_pos_iff consistent).trans (by simp [Entry.ofResult])
  · have records : (Report.ofDomain d startedAt finishedAt).results.map Entry.ofRecord =
        d.results.map Entry.ofResult := by
      rw [Report.ofDomain, List.map_map]
      rfl
    have kept : Consistent (registry.select config.ruleFilter)
        (Report.ofDomain d startedAt finishedAt).summary
        ((Report.ofDomain d startedAt finishedAt).results.map .ofRecord) := records ▸ consistent
    refine ⟨kept, ?_⟩
    have code : (Report.ofDomain d startedAt finishedAt).exitCode = 2 ↔
        0 < (Report.ofDomain d startedAt finishedAt).summary.failed := by
      unfold Report.exitCode
      split <;> simp_all
    rw [code, failed_pos_iff kept]
    simp [Entry.ofRecord]

/-- Two rules. The first one fails and asks for cancellation, the second one would pass. -/
def stoppingRules : List Rule :=
  [⟨⟨.aws, "s3", "a", "-", "-", "-", "-", [], .high⟩, fun _ =>
    ⟨.findings [⟨"open", .unmanaged⟩], true⟩⟩,
    ⟨⟨.aws, "s3", "b", "-", "-", "-", "-", [], .high⟩, fun _ => ⟨.findings [], false⟩⟩]

/-- With the cancellation watched, the second rule is skipped. -/
theorem reports_consistent_stopping : ∃ d, Reported ⟨stoppingRules⟩ {} {} d ∧ d.results.length = 1 ∧
    d.notRun = ["aws-s3-b"] ∧ Consistent stoppingRules d.summary (d.results.map .ofResult) := by
  have built : Registry.Built ⟨stoppingRules⟩ :=
    .register (.register .empty (Registry.register_eq_ok_iff.mpr ⟨by decide, by decide, rfl⟩))
      (Registry.register_eq_ok_iff.mpr ⟨by decide, by decide, rfl⟩)
  obtain ⟨exists_report, each⟩ := reports_consistent built {} {}
  obtain ⟨d, flag, ran, reported⟩ := exists_report ⟨[]⟩ rfl true false
  have same : d = report {} {} stoppingRules
      ⟨Evaluation.alone none {} stoppingRules[0], ["aws-s3-b"]⟩ :=
    congrArg Prod.fst (Except.ok.inj (ran.symm.trans rfl))
  have length : d.results.length = 1 := by
    rw [same]
    exact List.length_mergeSort _
  exact ⟨d, reported, length, by rw [same]; rfl, (each d reported (by rw [length]; decide)).1⟩

end Scan

namespace Record

/-- The identity as the record shows it, with empty fields for what it leaves out. -/
def identity (r : Record) : Identity where
  ruleId := r.ruleId
  status := r.status.name
  file := (r.location.map (·.file.text)).getD ""
  line := (r.location.map (·.startLine.toNat)).getD 0
  reference := r.reference.getD ""
  description := r.description

/-- The record has the fields that go with its status; a failure has a place unless it is a
fault. -/
def Shaped (isFault : Bool) (r : Record) : Prop :=
  match r.status with
  | .passed => r.location = none ∧ r.reference = none ∧ r.resolution = none
  | .ignored => r.location.isSome ∧ r.resolution = none
  | .failed => r.resolution.isSome ∧ (r.location.isSome ↔ isFault = false)

/-- The record can be checked without the result that it was made of. -/
structure Evident (isFault : Bool) (r : Record) : Prop where
  fingerprint : r.fingerprint = r.identity.fingerprint
  shaped : r.Shaped isFault
  reference : r.reference ≠ some ""

private theorem getD_filter_nonempty (text : String) :
    ((some text).filter (· != "")).getD "" = text := by
  by_cases empty : text = "" <;> simp [Option.filter, empty]

private theorem identity_ofResult (r : Result) : (ofResult r).identity = r.identity := by
  rcases placed : r.location with _ | m
  · simp [identity, ofResult, Result.identity, Result.range, placed]
  · simp only [identity, ofResult, Result.identity, Result.range, placed, Option.map_some,
      Option.getD_some, getD_filter_nonempty]

private theorem reference_ofResult_ne (r : Result) : (ofResult r).reference ≠ some "" := by
  intro shown
  have given := (Option.filter_eq_some_iff.mp shown).2
  contradiction

private theorem evident_of_shaped {r : Result} (shaped : (ofResult r).Shaped r.isFault) :
    (ofResult r).Evident r.isFault where
  fingerprint := congrArg Identity.fingerprint (identity_ofResult r).symm
  shaped := shaped
  reference := reference_ofResult_ne r

section Classified

variable {rule : Definition} {outcome : Outcome} {suppressor : Option Suppressor} {r : Result}
  (member : r ∈ Result.classify rule outcome suppressor)
include member

private theorem shaped_of_mem_classify : (ofResult r).Shaped r.isFault := by
  rcases Result.mem_classify member with ⟨-, rfl⟩ | ⟨f, rfl⟩ | ⟨text, rfl⟩
  · exact ⟨rfl, rfl, rfl⟩
  · unfold Result.ofFinding
    cases suppressor.any fun s => s rule f with
    | true => exact ⟨rfl, rfl⟩
    | false => exact ⟨rfl, by simp [ofResult, Result.range]⟩
  · exact ⟨rfl, by simp [ofResult, Result.range]⟩

/-- Whatever a rule's outcome amounts to has a record that can be checked from itself. -/
theorem classified_evident : (ofResult r).Evident r.isFault :=
  evident_of_shaped (shaped_of_mem_classify member)

end Classified

/-- A flag inside of a bucket, without a reference of its own. -/
def flagInBucket : Metadata :=
  ⟨⟨.ofLines (.ofText "./main.tf") 4 4, "", true⟩,
    [⟨.ofLines (.ofText "main.tf") 1 9, "aws_s3_bucket.logs", true⟩]⟩

/-- An accepted finding whose reference is that of the bucket around it. -/
theorem classified_evident_inside :
    let r : Result := ⟨.ignored, Identity.sampleRule, "open", some flagInBucket, false⟩
    r ∈ Result.classify Identity.sampleRule (.findings [⟨"open", flagInBucket⟩])
        (some fun _ _ => true) ∧
      (ofResult r).fingerprint =
        Identity.fingerprint ⟨"aws-s3-a", "ignored", "main.tf", 4, "aws_s3_bucket.logs", "open"⟩ ∧
      (ofResult r).location.isSome ∧ (ofResult r).resolution = none := by
  intro r
  have member : r ∈ Result.classify Identity.sampleRule (.findings [⟨"open", flagInBucket⟩])
      (some fun _ _ => true) := List.mem_singleton.mpr rfl
  have evident := classified_evident member
  have shown : (ofResult r).identity =
      ⟨"aws-s3-a", "ignored", "main.tf", 4, "aws_s3_bucket.logs", "open"⟩ := by
    decide
  exact ⟨member, shown ▸ evident.fingerprint, evident.shaped⟩

end Record

private theorem Scan.Reported.evident {registry : Registry} {state : State}
    {config : EffectiveConfig} {d : DomainReport} (reported : Reported registry state config d)
    (startedAt finishedAt : Timestamp) :
    ∀ record ∈ (Report.ofDomain d startedAt finishedAt).results,
      ∃ r ∈ d.results, record = .ofResult r ∧ record.Evident r.isFault := by
  intro record shown
  obtain ⟨r, member, rfl⟩ := List.mem_map.mp shown
  obtain ⟨suppressor, ran, skipped, parts⟩ := reported.divides
  obtain ⟨rule, -, block, -⟩ := parts.exists_ran member
  rw [Evaluation.alone_eq_classify] at block
  exact ⟨r, member, rfl, Record.evident_of_shaped (Record.shaped_of_mem_classify block)⟩

end CloudPolicy
