import CloudPolicy.Proofs.Catalog.Builtin
import CloudPolicy.Proofs.Scan.Selection
import CloudPolicy.Report

/-!
The order of resources leaves no trace in a report but among results that tie. Each built-in rule
meets the same places in another order, so that a report counts the same and holds the same records;
and where the canonical order leaves nothing open, the records stand in the same places.
-/

set_option autoImplicit false
set_option relaxedAutoImplicit false

namespace CloudPolicy

/-- The same resources, listed in another order. A block inside a bucket moves with it. -/
structure State.Reordered (s s' : State) : Prop where
  buckets : s.storage.buckets.Perm s'.storage.buckets
  accessBlocks : s.storage.accessBlocks.Perm s'.storage.accessBlocks
  trails : s.trails.Perm s'.trails

private theorem State.Reordered.resourceCount_eq {s s' : State} (same : s.Reordered s') :
    s.resourceCount = s'.resourceCount := by
  have inline := (same.buckets.filter (·.accessBlock.isSome)).length_eq
  rw [State.resourceCount, State.resourceCount, Storage.resourceCount, Storage.resourceCount,
    same.buckets.length_eq, same.accessBlocks.length_eq, same.trails.length_eq, inline]

private theorem Result.classify_perm (rule : Definition) (suppressor : Option Suppressor)
    {found found' : List Finding} (same : found.Perm found') :
    (classify rule (.findings found) suppressor).Perm
    (classify rule (.findings found') suppressor) := by
  cases found with
  | nil => rw [same.nil_eq]
  | cons f fs =>
    cases found' with
    | nil => exact absurd same.eq_nil (List.cons_ne_nil f fs)
    | cons f' fs' => exact same.map _

namespace Catalog

variable {s s' : State} (same : s.Reordered s')
include same

private theorem Concern.sites_perm (c : Concern) : (c.sites s).Perm (c.sites s') := by
  cases c with
  | bucket flag setting => exact same.buckets.map _
  | trail flag => exact same.trails.map _
  | block flag => exact (same.accessBlocks.map _).append (same.buckets.flatMap_right _)

private theorem Builtin.alone_perm (suppressor : Option Suppressor) (b : Builtin) :
    (Evaluation.alone suppressor s b.rule).Perm (Evaluation.alone suppressor s' b.rule) := by
  have offenders : (b.concern.offenders s).Perm (b.concern.offenders s') :=
    (b.concern.sites_perm same).filter _
  rw [Evaluation.alone_eq_classify, Evaluation.alone_eq_classify, b.reportsOffenders s,
    b.reportsOffenders s']
  exact Result.classify_perm _ _ (offenders.map _)

end Catalog

private theorem Results.sortCanonical_perm {rs rs' : List Result} (same : rs.Perm rs') :
    (sortCanonical rs).Perm (sortCanonical rs') :=
  (List.mergeSort_perm rs notAfter).trans (same.trans (List.mergeSort_perm rs' notAfter).symm)

private theorem Catalog.Builtin.alone_of_unlocated {suppressor : Option Suppressor} {s : State}
    {b : Builtin} {r : Result} (member : r ∈ Evaluation.alone suppressor s b.rule)
    (unlocated : r.location = none) : Evaluation.alone suppressor s b.rule = [r] := by
  rw [Evaluation.alone_eq_classify, b.reportsOffenders s] at member ⊢
  cases found : (b.concern.offenders s).map (Site.finding b.wording) with
  | nil =>
    rw [found] at member
    rw [List.mem_singleton.mp member]
    rfl
  | cons f fs =>
    rw [found] at member
    obtain ⟨g, -, rfl⟩ := List.mem_map.mp member
    contradiction

namespace Scan

variable {s s' : State} {config : EffectiveConfig} {ignores : IgnoreList} {d d' : DomainReport}

theorem exists_builtin_of_selected {rule : Rule} {f : RuleFilter}
    (selected : rule ∈ Catalog.registry.select f) : ∃ b : Catalog.Builtin, b.rule = rule := by
  have registered := List.mem_of_mem_filter selected
  rw [Catalog.registry_eq] at registered
  obtain ⟨b, -, named⟩ := List.mem_map.mp registered
  exact ⟨b, named⟩

private theorem Undisturbed.eq_of_unlocated (scan : Undisturbed Catalog.registry s config d)
    (accepted : check Catalog.registry config = .ok ignores) {r r' : Result} (hr : r ∈ d.results)
    (hr' : r' ∈ d.results) (same : r.ruleId = r'.ruleId) (unlocated : r.location = none) :
    r' = r := by
  obtain ⟨rule, selected, block⟩ := (scan.mem_results_iff accepted).mp hr
  obtain ⟨rule', selected', block'⟩ := (scan.mem_results_iff accepted).mp hr'
  have ids : rule'.longId = rule.longId := by
    rw [← Evaluation.ruleId_of_mem_alone block, ← Evaluation.ruleId_of_mem_alone block', same]
  obtain rfl : rule' = rule :=
    List.inj_on_of_nodup_map (select_nodup Catalog.registry_built _) selected' selected ids
  obtain ⟨b, rfl⟩ := exists_builtin_of_selected selected
  rw [b.alone_of_unlocated block unlocated] at block'
  exact List.mem_singleton.mp block'

private theorem Undisturbed.results_perm (scan : Undisturbed Catalog.registry s config d)
    (scan' : Undisturbed Catalog.registry s' config d')
    (accepted : check Catalog.registry config = .ok ignores) (same : s.Reordered s') :
    d.results.Perm d'.results := by
  have blocks : ∀ rule ∈ Catalog.registry.select config.ruleFilter,
      (Evaluation.alone ignores.suppressor? s rule).Perm
      (Evaluation.alone ignores.suppressor? s' rule) := by
    intro rule selected
    obtain ⟨b, rfl⟩ := exists_builtin_of_selected selected
    exact b.alone_perm same _
  have sorted := Results.sortCanonical_perm (List.Perm.flatMap_left _ blocks)
  rw [scan.eq accepted, scan'.eq accepted]
  simpa only [report, DomainReport.ofResults] using sorted

private theorem Undisturbed.summary_eq (scan : Undisturbed Catalog.registry s config d)
    (scan' : Undisturbed Catalog.registry s' config d')
    (accepted : check Catalog.registry config = .ok ignores) (same : s.Reordered s')
    (started finished : Timestamp) :
    (Report.ofDomain d started finished).summary =
      (Report.ofDomain d' started finished).summary := by
  have results := scan.results_perm scan' accepted same
  have resources := same.resourceCount_eq
  rw [scan.eq accepted, scan'.eq accepted] at results ⊢
  have counts := Results.counts_perm results
  have severities := Results.failedBySeverity_perm results
  simp only [report, DomainReport.ofResults] at counts severities
  simp only [Report.ofDomain, report, DomainReport.ofResults, counts, severities, resources]

end Scan

namespace Record

/-- What the record's result is ordered by. -/
def sortKey (x : Record) : Results.SortKey :=
  match x.location with
  | some l => ⟨x.ruleId, l.file.text, l.startLine.toNat, x.description⟩
  | none => ⟨x.ruleId, "~", UInt32.size - 1, x.description⟩

private theorem sortKey_ofResult (r : Result) : (ofResult r).sortKey = Results.sortKey r := rfl

/-- No two different records of one rule stand at one place and say the same. -/
def Unambiguous (records : List Record) : Prop :=
  ∀ x ∈ records, ∀ y ∈ records, x.ruleId = y.ruleId →
    x.location.map (·.file.text) = y.location.map (·.file.text) →
    x.location.map (·.startLine) = y.location.map (·.startLine) →
    x.description = y.description → x = y

end Record

namespace Scan

variable {s s' : State} {config : EffectiveConfig} {ignores : IgnoreList} {d d' : DomainReport}

theorem Undisturbed.sorted {registry : Registry} {s : State}
    (scan : Undisturbed registry s config d) :
    d.results.Pairwise fun r r' => Results.notAfter r r' = true := by
  obtain ⟨ignores, accepted⟩ := scan.accepted
  rw [scan.eq accepted]
  exact Results.sorted_sortCanonical _

/-- Results that tie have one record if the records leave nothing open. -/
private theorem Undisturbed.record_eq_of_tie (scan : Undisturbed Catalog.registry s config d)
    (accepted : check Catalog.registry config = .ok ignores)
    (clear : Record.Unambiguous (d.results.map .ofResult)) {r r' : Result} (hr : r ∈ d.results)
    (hr' : r' ∈ d.results) (tie : Results.sortKey r = Results.sortKey r') :
    Record.ofResult r = Record.ofResult r' := by
  have sameRule : r.ruleId = r'.ruleId := by
    rw [← Results.ruleId_sortKey, tie, Results.ruleId_sortKey]
  cases hl : r.location with
  | none => rw [scan.eq_of_unlocated accepted hr hr' sameRule hl]
  | some m =>
    cases hl' : r'.location with
    | none => rw [scan.eq_of_unlocated accepted hr' hr sameRule.symm hl']
    | some m' =>
      simp only [Results.sortKey, Result.range, hl, hl', Option.map_some, Results.SortKey.mk.injEq,
        UInt32.toNat_inj] at tie
      obtain ⟨-, file, line, description⟩ := tie
      apply clear _ (List.mem_map_of_mem hr) _ (List.mem_map_of_mem hr') sameRule
      · simp [Record.ofResult, Result.range, hl, hl', file]
      · simp [Record.ofResult, Result.range, hl, hl', line]
      · exact description

/-- Listing resources in another order changes neither the summary nor which records there are, and
where no two different records tie it does not change their order. -/
theorem resource_order_immaterial (accepted : check Catalog.registry config = .ok ignores)
    (same : s.Reordered s') :
    (∃ d flag, run Catalog.registry s config false false = .ok (d, flag) ∧
      Undisturbed Catalog.registry s config d) ∧
    (∃ d flag, run Catalog.registry s' config false false = .ok (d, flag) ∧
      Undisturbed Catalog.registry s' config d) ∧
    ∀ d d', Undisturbed Catalog.registry s config d → Undisturbed Catalog.registry s' config d' →
      ∀ started finished,
        (Report.ofDomain d started finished).summary =
          (Report.ofDomain d' started finished).summary ∧
        (Report.ofDomain d started finished).results.Perm
        (Report.ofDomain d' started finished).results ∧
        (Record.Unambiguous (Report.ofDomain d started finished).results →
          (Report.ofDomain d started finished).results =
            (Report.ofDomain d' started finished).results) := by
  refine ⟨exists_run_undisturbed accepted s, exists_run_undisturbed accepted s', ?_⟩
  intro d d' scan scan' started finished
  have perm := scan.results_perm scan' accepted same
  refine ⟨scan.summary_eq scan' accepted same started finished, perm.map _, fun clear => ?_⟩
  have ordered : ∀ {s : State} {d : DomainReport}, Undisturbed Catalog.registry s config d →
      (d.results.map Record.ofResult).Pairwise fun x y =>
      (x.sortKey.order y.sortKey).isLE = true := by
    intro s d scan
    simp only [List.pairwise_map, Record.sortKey_ofResult]
    exact scan.sorted.imp Results.notAfter_iff.mp
  apply List.Perm.eq_of_pairwise ?_ (ordered scan) (ordered scan') (perm.map _)
  intro x y hx hy first second
  obtain ⟨r, hr, rfl⟩ := List.mem_map.mp hx
  obtain ⟨r', hr', rfl⟩ := List.mem_map.mp hy
  rw [Record.sortKey_ofResult, Record.sortKey_ofResult] at first second
  have tie := Results.notAfter_antisymm (Results.notAfter_iff.mpr first)
    (Results.notAfter_iff.mpr second)
  exact scan.record_eq_of_tie accepted clear hr (perm.mem_iff.mpr hr') tie

def openBlock (line : UInt32) : AccessBlock :=
  let place : Metadata := .declared (.ofLines (.ofText "a.tf") line line) ""
  { metadata := place, blockPublicAcls := .explicit false place }

def openBucket (line : UInt32) : Bucket :=
  { metadata := .declared (.ofLines (.ofText "a.tf") line line) ""
    accessBlock := some (openBlock (line + 1)) }

def openBuckets (lines : List UInt32) : State :=
  { storage := ⟨lines.map openBucket, [openBlock 9]⟩ }

def aclsOnly : EffectiveConfig :=
  { minSeverity := .critical, rules := .ofList [("aws-s3-block-public-acls", some true)] }

theorem resource_order_immaterial_swapped :
    (openBuckets [1, 5]).Reordered (openBuckets [5, 1]) ∧ openBuckets [1, 5] ≠ openBuckets [5, 1] ∧
    ∃ d d', Undisturbed Catalog.registry (openBuckets [1, 5]) aclsOnly d ∧
      Undisturbed Catalog.registry (openBuckets [5, 1]) aclsOnly d' ∧ d.results.length = 3 ∧
      d.results.map Record.ofResult = d'.results.map Record.ofResult := by
  have same : (openBuckets [1, 5]).Reordered (openBuckets [5, 1]) :=
    ⟨(List.Perm.swap 5 1 []).map openBucket, .refl _, .refl _⟩
  have accepted : check Catalog.registry aclsOnly = .ok ⟨[]⟩ := by
    rw [Catalog.registry_eq]
    rfl
  have selected : Catalog.registry.select aclsOnly.ruleFilter = [Catalog.blockPublicAcls] := by
    rw [Catalog.registry_eq]
    rfl
  obtain ⟨⟨d, _, _, scan⟩, ⟨d', _, _, scan'⟩, agree⟩ := resource_order_immaterial accepted same
  have apart : ∀ r ∈ Evaluation.alone none (openBuckets [1, 5]) Catalog.blockPublicAcls,
      ∀ r' ∈ Evaluation.alone none (openBuckets [1, 5]) Catalog.blockPublicAcls,
        r.range.map (·.startLine) = r'.range.map (·.startLine) → r = r' := by decide +kernel
  have results : ∀ r ∈ d.results,
      r ∈ Evaluation.alone none (openBuckets [1, 5]) Catalog.blockPublicAcls := by
    intro r hr
    obtain ⟨rule, hrule, block⟩ := (scan.mem_results_iff accepted).mp hr
    rw [selected, List.mem_singleton] at hrule
    exact hrule ▸ block
  have clear : Record.Unambiguous (d.results.map .ofResult) := by
    intro x hx y hy _ _ line _
    obtain ⟨r, hr, rfl⟩ := List.mem_map.mp hx
    obtain ⟨r', hr', rfl⟩ := List.mem_map.mp hy
    rw [apart r (results r hr) r' (results r' hr') line]
  refine ⟨same, by decide, d, d', scan, scan', ?_, (agree d d' scan scan' .epoch .epoch).2.2 clear⟩
  rw [scan.eq accepted, selected]
  exact (List.length_mergeSort _).trans (by decide +kernel)

end Scan

end CloudPolicy
