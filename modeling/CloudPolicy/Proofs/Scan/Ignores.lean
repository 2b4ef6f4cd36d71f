import CloudPolicy.Proofs.Catalog.Resources
import CloudPolicy.Proofs.Scan.Consistency
import CloudPolicy.Proofs.Scan.ResourceOrder
import Mathlib.Data.List.Forall2

/-!
What ignores do to a report: more of them soften it, and an entry covers a finding exactly if the
chain of the node that the finding points at leads to its reference.
-/

set_option autoImplicit false
set_option relaxedAutoImplicit false

namespace CloudPolicy

/-- The result `r'` is `r`, or the failure `r` as an ignored one. -/
structure Result.Softens (r' r : Result) : Prop where
  rule : r'.rule = r.rule
  description : r'.description = r.description
  location : r'.location = r.location
  isFault : r'.isFault = r.isFault
  status : r'.status = r.status ∨ r.status = .failed ∧ r'.status = .ignored
  kept : r.status = .passed ∨ r.isFault = true → r' = r

namespace Result

private theorem acceptedBy_mono {s s' : Option Suppressor}
    (more : ∀ rule f, (s.any fun a => a rule f) = true → (s'.any fun a => a rule f) = true)
    {r : Result}
    (accepted : r.acceptedBy s = true) : r.acceptedBy s' = true := by
  rw [acceptedBy, Bool.and_eq_true, Option.any_eq_true] at accepted ⊢
  obtain ⟨failed, m, place, accepts⟩ := accepted
  exact ⟨failed, m, place, more _ _ accepts⟩

private theorem suppress_softens {s s' : Option Suppressor}
    (more : ∀ rule f, (s.any fun a => a rule f) = true → (s'.any fun a => a rule f) = true)
    {r : Result}
    (faults : r.isFault = true → r.location = none) : Softens (r.suppress s') (r.suppress s) := by
  unfold suppress
  by_cases accepted : r.acceptedBy s = true
  · rw [if_pos accepted, if_pos (acceptedBy_mono more accepted)]
    exact ⟨rfl, rfl, rfl, rfl, .inl rfl, fun _ => rfl⟩
  rw [if_neg accepted]
  split
  · next accepted' =>
    rw [acceptedBy, Bool.and_eq_true, beq_iff_eq] at accepted'
    refine ⟨rfl, rfl, rfl, rfl, .inr ⟨accepted'.1, rfl⟩, ?_⟩
    rintro (passed | fault)
    · simp [passed] at accepted'
    · simp [faults fault] at accepted'
  · exact ⟨rfl, rfl, rfl, rfl, .inl rfl, fun _ => rfl⟩

end Result

namespace Results

private theorem countP_of_softens {rs' rs : List Result}
    (soft : List.Forall₂ Result.Softens rs' rs) :
    rs'.countP (·.status == .passed) = rs.countP (·.status == .passed) ∧
    rs'.countP (·.status == .failed) + rs'.countP (·.status == .ignored) =
      rs.countP (·.status == .failed) + rs.countP (·.status == .ignored) ∧
    rs'.countP (·.status == .failed) ≤ rs.countP (·.status == .failed) := by
  induction soft with
  | nil => exact ⟨rfl, rfl, Nat.le_refl _⟩
  | @cons r' r rs' rs here _ ih =>
    obtain ⟨passed, rest, failed⟩ := ih
    simp only [List.countP_cons]
    rcases here.status with same | ⟨was, is⟩
    · rw [same]
      refine ⟨?_, ?_, ?_⟩ <;> omega
    · rw [was, is]
      refine ⟨?_, ?_, ?_⟩ <;> simp <;> omega

end Results

/-- The report `d'` has the results of `d`, softened, and numbers to match. Counters compare like
the numbers that they stand for as long as the failures fit into one. -/
structure DomainReport.Softens (d' d : DomainReport) : Prop where
  results : List.Forall₂ Result.Softens d'.results d.results
  number_passed : d'.results.countP (·.status == .passed) = d.results.countP (·.status == .passed)
  number_rest : d'.results.countP (·.status == .failed) + d'.results.countP (·.status == .ignored) =
    d.results.countP (·.status == .failed) + d.results.countP (·.status == .ignored)
  number_failed : d'.results.countP (·.status == .failed) ≤ d.results.countP (·.status == .failed)
  passed : d'.counts.passed = d.counts.passed
  rest : d'.counts.failed + d'.counts.ignored = d.counts.failed + d.counts.ignored
  failed : d.results.countP (·.status == .failed) < UInt32.size → d'.counts.failed ≤ d.counts.failed
  exitCode : d.results.countP (·.status == .failed) < UInt32.size → ∀ startedAt finishedAt,
    (Report.ofDomain d startedAt finishedAt).exitCode = 0 →
    (Report.ofDomain d' startedAt finishedAt).exitCode = 0

private theorem DomainReport.softens_of_results {d' d : DomainReport}
    (own : d.counts = Results.counts d.results) (own' : d'.counts = Results.counts d'.results)
    (soft : List.Forall₂ Result.Softens d'.results d.results) : d'.Softens d := by
  obtain ⟨number_passed, number_rest, number_failed⟩ := Results.countP_of_softens soft
  have passed : d'.counts.passed = d.counts.passed := by
    rw [own, own']
    exact congrArg UInt32.ofNat number_passed
  have rest : d'.counts.failed + d'.counts.ignored = d.counts.failed + d.counts.ignored := by
    have same := congrArg UInt32.ofNat number_rest
    rw [UInt32.ofNat_add, UInt32.ofNat_add] at same
    rw [own, own']
    exact same
  have failed : d.results.countP (·.status == .failed) < UInt32.size →
      d'.counts.failed ≤ d.counts.failed := by
    intro few
    rw [own, own', UInt32.le_iff_toNat_le]
    have now := UInt32.toNat_ofNat_of_lt' (Nat.lt_of_le_of_lt number_failed few)
    have before := UInt32.toNat_ofNat_of_lt' few
    exact now.trans_le (number_failed.trans_eq before.symm)
  refine ⟨soft, number_passed, number_rest, number_failed, passed, rest, failed, ?_⟩
  intro few startedAt finishedAt clean
  have none : ¬ 0 < d.counts.failed := fun some => by
    simp [Report.exitCode, Report.ofDomain, some] at clean
  have none' : ¬ 0 < d'.counts.failed := fun some => none (UInt32.lt_of_lt_of_le some (failed few))
  exact if_neg none'

namespace Scan

private theorem location_of_isFault {registry : Registry} {state : State} {config : EffectiveConfig}
    {r : Result} (member : r ∈ unsuppressed registry state config) (fault : r.isFault = true) :
    r.location = none := by
  obtain ⟨rule, _, block⟩ := List.mem_flatMap.mp (List.mem_mergeSort.mp member)
  exact (Evaluation.alone_of_isFault block fault).2

/-- Of two scans without cancellation that differ in their ignores only, the one whose ignores
dominate gives the same results but for failures that it ignores. Lists that dominate each other
give the same report, and a list without entries is no suppressor. -/
theorem ignores_monotone {registry : Registry} {config : EffectiveConfig} {qs : List IgnorePolicy}
    {l l' : IgnoreList} (accepted : check registry config = .ok l)
    (accepted' : check registry { config with ignores := qs } = .ok l')
    (dominate : IgnorePolicy.Dominate qs config.ignores) (state : State) :
    (∃ d d' flag flag', run registry state config false false = .ok (d, flag) ∧
      run registry state { config with ignores := qs } false false = .ok (d', flag') ∧
      Undisturbed registry state config d ∧
      Undisturbed registry state { config with ignores := qs } d') ∧
    ∀ d d', Undisturbed registry state config d →
      Undisturbed registry state { config with ignores := qs } d' →
      d'.Softens d ∧ (IgnorePolicy.Dominate config.ignores qs → d' = d) ∧
      (config.ignores = [] → ∀ s, s = none ∨ s = some (IgnoreList.suppresses ⟨[]⟩) →
        d.results = Results.sortCanonical
          (Evaluation.run ⟨false, s⟩ state false
            (registry.select config.ruleFilter)).1.results) := by
  have compiled := (check_eq_ok_iff.mp accepted).2
  have compiled' := (check_eq_ok_iff.mp accepted').2
  have more := IgnoreList.suppressor?_of_dominate compiled compiled' dominate
  refine ⟨?_, fun d d' scan scan' => ⟨?_, fun dominated => ?_, fun nothing s listless => ?_⟩⟩
  · obtain ⟨d, flag, ran, scan⟩ := exists_run_undisturbed accepted state
    obtain ⟨d', flag', ran', scan'⟩ := exists_run_undisturbed accepted' state
    exact ⟨d, d', flag, flag', ran, ran', scan, scan'⟩
  · refine DomainReport.softens_of_results ?_ ?_ ?_
    · rw [scan.eq accepted]
      rfl
    · rw [scan'.eq accepted']
      rfl
    · rw [scan.results_eq accepted, scan'.results_eq accepted', List.forall₂_map_left_iff,
        List.forall₂_map_right_iff]
      exact List.forall₂_same.mpr fun r member =>
        Result.suppress_softens more (location_of_isFault member)
  · have back := IgnoreList.suppressor?_of_dominate compiled' compiled dominated
    have same : Evaluation.alone l'.suppressor? = Evaluation.alone l.suppressor? :=
      Evaluation.alone_congr fun rule f => Bool.eq_iff_iff.mpr ⟨back rule f, more rule f⟩
    rw [scan.eq accepted, scan'.eq accepted', same]
    rfl
  · rw [nothing] at compiled
    obtain rfl : ⟨[]⟩ = l := Except.ok.inj compiled
    have same : Evaluation.alone s = Evaluation.alone none := by
      refine Evaluation.alone_congr fun rule f => ?_
      rcases listless with rfl | rfl <;> rfl
    rw [scan.eq accepted, Evaluation.run_undisturbed _ _ _ _ (.inl rfl), same]
    rfl

/-- A rule with two findings that differ in the reference. -/
def openRule : Rule :=
  ⟨⟨.aws, "s3", "a", "-", "-", "-", "-", [], .high⟩,
    fun _ => ⟨.findings [⟨"open", .declared .nowhere "x"⟩, ⟨"open", .declared .nowhere "y"⟩],
      false⟩⟩

/-- Without its reference an entry ignores the second finding too. -/
theorem ignores_monotone_dropped : ∃ d d',
    Undisturbed ⟨[openRule]⟩ {} { ignores := [⟨"*", none, some "x"⟩] } d ∧
    Undisturbed ⟨[openRule]⟩ {} { ignores := [⟨"*", none, none⟩] } d' ∧ d'.Softens d ∧
    d.results.countP (·.status == .failed) = 1 ∧ d'.results.countP (·.status == .failed) = 0 := by
  have accepted : check ⟨[openRule]⟩ { ignores := [⟨"*", none, some "x"⟩] } =
      .ok ⟨[⟨⟨"*", .seq .anyRun .empty⟩, none, some "x"⟩]⟩ := rfl
  have accepted' : check ⟨[openRule]⟩ { ignores := [⟨"*", none, none⟩] } =
      .ok ⟨[⟨⟨"*", .seq .anyRun .empty⟩, none, none⟩]⟩ := rfl
  have dominate : IgnorePolicy.Dominate [⟨"*", none, none⟩] [⟨"*", none, some "x"⟩] := by
    intro p member
    rw [List.mem_singleton.mp member]
    exact ⟨_, List.mem_singleton_self _, rfl, .inl rfl, .inr rfl⟩
  obtain ⟨⟨d, d', _, _, _, _, scan, scan'⟩, each⟩ := ignores_monotone accepted accepted' dominate {}
  refine ⟨d, d', scan, scan', (each d d' scan scan').1, ?_, ?_⟩
  · rw [scan.eq accepted]
    exact (List.mergeSort_perm _ _).countP_eq _ |>.trans (by decide)
  · rw [scan'.eq accepted']
    exact (List.mergeSort_perm _ _).countP_eq _ |>.trans (by decide)

end Scan

private theorem Results.forRule_cover {id other : String} (apart : other ≠ id) (ref : String)
    (rs : List Result) : forRule (rs.map (Result.cover id ref)) other = forRule rs other := by
  have named : (fun r : Result => r.ruleId == other) ∘ Result.cover id ref = fun r =>
      r.ruleId == other :=
    funext fun r => congrArg (· == other) (Result.ruleId_cover id ref r)
  rw [forRule, forRule, List.filter_map, named]
  refine (List.map_congr_left fun r member => ?_).trans (List.map_id' _)
  have known : r.ruleId = other := beq_iff_eq.mp (List.mem_filter.mp member).2
  exact Result.cover_of_ne (known.trans_ne apart)

namespace Scan

variable {registry : Registry} {state : State} {config : EffectiveConfig} {d : DomainReport}

private theorem Undisturbed.valid_of_mem (scan : Undisturbed registry state config d)
    (built : registry.Built) {r : Result} (member : r ∈ d.results) : r.rule.fault? = none := by
  obtain ⟨ignores, accepted⟩ := scan.accepted
  obtain ⟨rule, selected, block⟩ := (scan.mem_results_iff accepted).mp member
  rw [Evaluation.rule_of_mem_alone block]
  exact built.valid (List.mem_of_mem_filter selected)

/-- The rule id and the reference of a failure that a report shows make an ignore, with which the
scan succeeds. It ignores that failure and the others of the rule at nodes that have the reference
or are inside of one, and leaves everything else as it was. -/
theorem pasted_ignore (built : registry.Built) (scan : Undisturbed registry state config d)
    {startedAt finishedAt : Timestamp} {i : Nat} {record : Record} {ref : String}
    (shown : (Report.ofDomain d startedAt finishedAt).results[i]? = some record)
    (failed : record.status = .failed) (reference : record.reference = some ref)
    {qs : List IgnorePolicy}
    (pasted : qs.Perm (⟨record.ruleId, none, some ref⟩ :: config.ignores)) :
    (∃ d' flag, run registry state { config with ignores := qs } false false = .ok (d', flag) ∧
      Undisturbed registry state { config with ignores := qs } d') ∧
    ∀ d', Undisturbed registry state { config with ignores := qs } d' →
      d'.results = d.results.map (Result.cover record.ruleId ref) ∧
      (∃ r, d.results[i]? = some r ∧ d'.results[i]? = some { r with status := .ignored }) ∧
      ∀ id, id ≠ record.ruleId → Results.forRule d'.results id = Results.forRule d.results id := by
  obtain ⟨r, here, rfl⟩ : ∃ r, d.results[i]? = some r ∧ Record.ofResult r = record := by
    rwa [Report.ofDomain, List.getElem?_map, Option.map_eq_some_iff] at shown
  obtain ⟨l, accepted⟩ := scan.accepted
  obtain ⟨known, compiled⟩ := check_eq_ok_iff.mp accepted
  obtain ⟨e, entry, accepts⟩ :=
    IgnoreEntry.compile_longId (scan.valid_of_mem built (List.mem_of_getElem? here)) ref
  obtain ⟨l', compiled', suppresses⟩ := IgnoreList.compile_perm_cons compiled entry pasted
  have accepted' : check registry { config with ignores := qs } = .ok l' :=
    check_eq_ok_iff.mpr ⟨known, compiled'⟩
  have more : ∀ rule f, (l'.suppressor?.any fun s => s rule f) = true ↔
      (l.suppressor?.any fun s => s rule f) = true ∨ rule.longId = r.ruleId ∧
      f.location.Names ref :=
    fun rule f => by
      rw [l'.suppressor?_accepts, l.suppressor?_accepts, suppresses, Bool.or_eq_true, accepts]
      rfl
  refine ⟨exists_run_undisturbed accepted' state, fun d' scan' => ?_⟩
  have results : d'.results = d.results.map (Result.cover r.ruleId ref) := by
    rw [scan'.results_eq accepted', scan.results_eq accepted, List.map_map]
    exact List.map_congr_left fun r _ => Result.suppress_eq_cover more r
  have covered : r.Covered r.ruleId ref := ⟨rfl, failed, Record.names_of_reference reference⟩
  refine ⟨results, ⟨r, here, ?_⟩, fun id other => ?_⟩
  · rw [results, List.getElem?_map, here, Option.map_some, Result.cover, if_pos covered]
  · rw [results]
    exact Results.forRule_cover other ref d.results

/-- A rule that finds a bucket, a block inside of it that has no reference of its own, and another
bucket. -/
def nestingRule : Rule :=
  .ofFindings ⟨.aws, "s3", "a", "-", "-", "-", "-", [], .high⟩ fun _ =>
    [⟨"open", .declared .nowhere "logs"⟩,
      ⟨"open", (Metadata.declared .nowhere "").withParent (.declared .nowhere "logs")⟩,
      ⟨"open", .declared .nowhere "archive"⟩]

/-- The record of the block shows the bucket around it, and as an ignore it covers both. -/
theorem pasted_ignore_nested : ∃ d d', Undisturbed ⟨[nestingRule]⟩ {} {} d ∧
    Undisturbed ⟨[nestingRule]⟩ {} { ignores := [⟨"aws-s3-a", none, some "logs"⟩] } d' ∧
    d'.results = d.results.map (Result.cover "aws-s3-a" "logs") ∧
    d.results.countP (·.status == .failed) = 3 ∧ d'.results.countP (·.status == .ignored) = 2 := by
  have built : Registry.Built ⟨[nestingRule]⟩ := Registry.built_of_valid (by decide) (by decide)
  have accepted : check ⟨[nestingRule]⟩ {} = .ok ⟨[]⟩ := rfl
  obtain ⟨d, _, _, scan⟩ := exists_run_undisturbed accepted {}
  let block : Result := ⟨.failed, nestingRule.definition, "open",
    some ((Metadata.declared .nowhere "").withParent (.declared .nowhere "logs")), false⟩
  have member : block ∈ d.results :=
    (scan.mem_results_iff accepted).mpr ⟨nestingRule, List.mem_singleton_self _, by decide⟩
  obtain ⟨i, here⟩ := List.getElem?_of_mem member
  have shown : (Report.ofDomain d .epoch .epoch).results[i]? = some (Record.ofResult block) := by
    rw [Report.ofDomain, List.getElem?_map, here]
    rfl
  have named : (Record.ofResult block).ruleId = "aws-s3-a" := by decide
  have reference : (Record.ofResult block).reference = some "logs" := by decide
  have pasted : [(⟨"aws-s3-a", none, some "logs"⟩ : IgnorePolicy)].Perm
      [⟨(Record.ofResult block).ruleId, none, some "logs"⟩] := .of_eq (by rw [named])
  obtain ⟨⟨d', _, _, scan'⟩, each⟩ := pasted_ignore built scan shown rfl reference pasted
  obtain ⟨results, -, -⟩ := each d' scan'
  rw [named] at results
  refine ⟨d, d', scan, scan', results, ?_, ?_⟩
  · rw [scan.eq accepted]
    exact (List.mergeSort_perm _ _).countP_eq _ |>.trans (by decide)
  · rw [results, List.countP_map, scan.eq accepted]
    exact (List.mergeSort_perm _ _).countP_eq _ |>.trans (by decide)

end Scan

def Glob.Matches (pattern text : String) : Prop :=
  ∃ g, compile pattern = .ok g ∧ g.accepts text = true

/-- The entry compiles and accepts the finding of a rule. -/
def IgnorePolicy.Accepts (p : IgnorePolicy) (ruleId : String) (f : Finding) : Prop :=
  ∃ e, IgnoreEntry.compile p = .ok e ∧ e.accepts ruleId f = true

private theorem IgnorePolicy.accepts_iff_names {p : IgnorePolicy} {ref id : String}
    (pathless : p.path = none) (reference : p.reference = some ref)
    (matched : Glob.Matches p.rule id) (f : Finding) : p.Accepts id f ↔ f.location.Names ref := by
  obtain ⟨rule, path, reference'⟩ := p
  obtain rfl : path = none := pathless
  obtain rfl : reference' = some ref := reference
  obtain ⟨g, read, accepts⟩ := matched
  rw [Accepts, IgnoreEntry.compile_pathless read, ← Metadata.any_breadcrumbs_iff]
  simp [IgnoreEntry.accepts, accepts]

namespace Result

private theorem ofFinding_mem_classify (rule : Definition) (suppressor : Option Suppressor)
    {f : Finding} {found : List Finding} (member : f ∈ found) :
    ofFinding rule suppressor f ∈ classify rule (.findings found) suppressor := by
  cases found with
  | nil => contradiction
  | cons g found => exact List.mem_map_of_mem member

private theorem ofFinding_of_located {rule : Definition} {outcome : Outcome}
    {suppressor : Option Suppressor} {r : Result} {m : Metadata}
    (member : r ∈ classify rule outcome suppressor) (located : r.location = some m) :
    r = ofFinding rule suppressor ⟨r.description, m⟩ := by
  rcases mem_classify member with ⟨-, rfl⟩ | ⟨f, rfl⟩ | ⟨text, rfl⟩
  · contradiction
  · obtain rfl : f.location = m := Option.some.inj located
    rfl
  · contradiction

end Result

namespace Scan

variable {registry : Registry} {s : State} {config : EffectiveConfig} {d : DomainReport}

theorem Reported.ignored_iff (reported : Reported registry s config d) {r : Result}
    (member : r ∈ d.results) {m : Metadata} (located : r.location = some m) :
    (r.status = .ignored ↔ ∃ p ∈ config.ignores, p.Accepts r.ruleId ⟨r.description, m⟩) ∧
      (r.status = .ignored ∨ r.status = .failed) := by
  obtain ⟨ignores, accepted⟩ := reported.accepted
  obtain ⟨ran, skipped, parts⟩ := reported.divides_of_check accepted
  obtain ⟨rule, -, block, -⟩ := parts.exists_ran member
  rw [Evaluation.alone_eq_classify] at block
  have found := Result.ofFinding_of_located block located
  have status : r.status = if ignores.suppresses r.rule ⟨r.description, m⟩ then
      .ignored else .failed := by
    rw [← ignores.suppressor?_accepts, Result.rule_of_mem_classify block]
    exact congrArg Result.status found
  simp only [IgnorePolicy.Accepts, Result.ruleId, ← IgnoreList.suppresses_iff
    (check_eq_ok_iff.mp accepted).2, status]
  cases ignores.suppresses r.rule ⟨r.description, m⟩ <;> simp

end Scan

namespace Catalog

def Site.location (site : Site) : Metadata := locate site.flag.metadata site.enclosing

/-- `Concerns b site r`: the result is that of the rule about the place. -/
structure Concerns (b : Builtin) (site : Site) (r : Result) : Prop where
  rule : r.rule = b.rule.definition
  described : r.description = b.wording.1 ++ site.name ++ b.wording.2
  located : r.location = some site.location

end Catalog

namespace Scan

variable {s : State} {config : EffectiveConfig} {d : DomainReport} {b : Catalog.Builtin}
  {site : Catalog.Site}

theorem Reported.exists_concerns {registry : Registry} (reported : Reported registry s config d)
    (selected : b.rule ∈ registry.select config.ruleFilter) (evaluated : b.rule.longId ∉ d.notRun)
    (broken : site ∈ b.offenders s) : ∃ r ∈ d.results, Catalog.Concerns b site r := by
  obtain ⟨suppressor, ran, skipped, parts⟩ := reported.divides
  have here : b.rule ∈ ran := by
    rcases List.mem_append.mp (parts.rules.mem_iff.mpr selected) with here | there
    · exact here
    · exact absurd (parts.notRun ▸ List.mem_map_of_mem there) evaluated
  have block : Result.ofFinding b.rule.definition suppressor (site.finding b.wording) ∈
      Evaluation.alone suppressor s b.rule := by
    rw [Evaluation.alone_eq_classify, b.reportsOffenders s]
    exact Result.ofFinding_mem_classify _ _ (List.mem_map_of_mem broken)
  exact ⟨_, parts.results.mem_iff.mpr (List.mem_flatMap.mpr ⟨b.rule, here, block⟩), rfl, rfl, rfl⟩

theorem exists_run_concerns {registry : Registry}
    (accepted : ∃ ignores, check registry config = .ok ignores)
    (selected : b.rule ∈ registry.select config.ruleFilter) (broken : site ∈ b.offenders s) :
    ∃ d flag, run registry s config false false = .ok (d, flag) ∧ Reported registry s config d ∧
      ∃ r ∈ d.results, Catalog.Concerns b site r := by
  obtain ⟨ignores, accepted⟩ := accepted
  obtain ⟨d, flag, ran, scan⟩ := exists_run_undisturbed accepted s
  have evaluated : b.rule.longId ∉ d.notRun := by
    rw [scan.eq accepted]
    exact List.not_mem_nil
  exact ⟨d, flag, ran, scan.reported, scan.reported.exists_concerns selected evaluated broken⟩

/-- An entry for a rule and the reference of a resource covers the finding about a place in the
resource if the node that the finding points at has the reference or is inside of one that has, and
only then, unless another entry accepts the finding. -/
theorem named_ignore_covers (reported : Reported Catalog.registry s config d) {x : Resource}
    (listed : x.ListedIn s) (given : x.metadata.reference ≠ "") {p : IgnorePolicy}
    (entry : p ∈ config.ignores)
    (matched : Glob.Matches p.rule b.rule.longId) (pathless : p.path = none)
    (reference : p.reference = some x.metadata.reference) (broken : site ∈ b.offenders x.only) :
    (site.name = x.metadata.reference ∨
      ∃ block ∈ x.inlineBlock?, site.name = block.metadata.effectiveReference) ∧
    (b.rule ∈ Catalog.registry.select config.ruleFilter → b.rule.longId ∉ d.notRun →
      ∃ r ∈ d.results, Catalog.Concerns b site r) ∧
    ∀ r ∈ d.results, Catalog.Concerns b site r →
      (r.status = .ignored ∨ r.status = .failed) ∧
      (r.status = .ignored ↔ site.location.Names x.metadata.reference ∨
        ∃ q ∈ config.ignores, q ≠ p ∧ q.Accepts b.rule.longId (site.finding b.wording)) ∧
      (x.metadata.origin ∈ site.location.origin :: site.location.ancestors →
        r.status = .ignored) := by
  have covers : p.Accepts b.rule.longId (site.finding b.wording) ↔
      site.location.Names x.metadata.reference :=
    p.accepts_iff_names pathless reference matched _
  have listed_broken : site ∈ b.offenders s :=
    (b.concern.offenders_sublist (Resource.only_partOf listed)).subset broken
  refine ⟨Catalog.Concern.name_of_referenced (List.mem_of_mem_filter broken) given,
    fun selected evaluated => reported.exists_concerns selected evaluated listed_broken, ?_⟩
  intro r member concerns
  obtain ⟨ignored_iff, settled⟩ := reported.ignored_iff member concerns.located
  have accepted_iff : r.status = .ignored ↔
      ∃ q ∈ config.ignores, q.Accepts b.rule.longId (site.finding b.wording) := by
    rwa [Result.ruleId, concerns.rule, concerns.described] at ignored_iff
  refine ⟨settled, ?_, fun inside => ?_⟩
  · rw [accepted_iff, ← covers]
    constructor
    · rintro ⟨q, member, accepts⟩
      by_cases same : q = p
      · exact .inl (same ▸ accepts)
      · exact .inr ⟨q, member, same, accepts⟩
    · rintro (accepts | ⟨q, member, -, accepts⟩)
      · exact ⟨p, entry, accepts⟩
      · exact ⟨q, member, accepts⟩
  · exact accepted_iff.mpr ⟨p, entry, covers.mpr ⟨_, inside, rfl⟩⟩

def unversioned (place : Metadata) : Resource :=
  .bucket
    { metadata := .declared (.ofLines (.ofText "main.tf") 1 9) "aws_s3_bucket.logs"
      versioning := { enabled := .explicit false place } }

def versioningSite (place : Metadata) : Catalog.Site :=
  ⟨.explicit false place, [.unmanaged, (unversioned place).metadata], ["aws_s3_bucket.logs", ""]⟩

def flagLine : Metadata := .declared (.ofLines (.ofText "main.tf") 4 4) ""

def flagInside : Metadata := flagLine.withParent (unversioned flagLine).metadata

/-- An ignore for all rules that names the bucket. -/
def ignoredLogs : IgnorePolicy := ⟨"*", none, some "aws_s3_bucket.logs"⟩

def logsIgnored : EffectiveConfig :=
  { minSeverity := .critical, rules := .ofList [("aws-s3-enable-versioning", some true)],
    ignores := [ignoredLogs] }

theorem logsIgnored_selects :
    Catalog.enableVersioning ∈ Catalog.registry.select logsIgnored.ruleFilter := by
  rw [Catalog.registry_eq]
  exact List.mem_singleton_self _

private theorem ignoredLogs_matches :
    Glob.Matches ignoredLogs.rule Catalog.Builtin.enableVersioning.rule.longId :=
  ⟨_, rfl, by decide +kernel⟩

private theorem versioningSite_broken (place : Metadata) :
    versioningSite place ∈ Catalog.Builtin.enableVersioning.offenders (unversioned place).only :=
  List.mem_filter.mpr ⟨List.mem_singleton_self _, rfl⟩

private theorem exists_run_of_logs (place : Metadata) :
    ∃ d flag,
      run Catalog.registry (unversioned place).only logsIgnored false false = .ok (d, flag) ∧
      Reported Catalog.registry (unversioned place).only logsIgnored d ∧
      ∃ r ∈ d.results, Catalog.Concerns .enableVersioning (versioningSite place) r := by
  have accepted : ∃ l, check Catalog.registry logsIgnored = .ok l := by
    rw [Catalog.registry_eq]
    exact ⟨_, rfl⟩
  exact exists_run_concerns accepted logsIgnored_selects (versioningSite_broken place)

/-- A flag that is declared inside of the bucket. -/
theorem named_ignore_covers_inside :
    ∃ d, Reported Catalog.registry (unversioned flagInside).only logsIgnored d ∧ ∃ r ∈ d.results,
      r.description = "Resource 'aws_s3_bucket.logs' does not have versioning enabled" ∧
      r.status = .ignored := by
  obtain ⟨d, _, -, reported, r, member, concerns⟩ := exists_run_of_logs flagInside
  have listed : (unversioned flagInside).ListedIn (unversioned flagInside).only :=
    List.mem_singleton_self _
  obtain ⟨-, -, each⟩ := named_ignore_covers reported listed (by decide)
    (List.mem_singleton_self ignoredLogs) ignoredLogs_matches rfl rfl
    (versioningSite_broken flagInside)
  obtain ⟨-, -, inside⟩ := each r member concerns
  exact ⟨d, reported, r, member, concerns.described.trans rfl, inside (by decide)⟩

/-- A flag on a line of its own: the ignore that names the bucket misses the finding about the
bucket. -/
theorem named_ignore_misses :
    (unversioned flagLine).metadata.reference = "aws_s3_bucket.logs" ∧
    (unversioned flagLine).ListedIn (unversioned flagLine).only ∧
    ignoredLogs ∈ logsIgnored.ignores ∧
    Glob.Matches ignoredLogs.rule Catalog.enableVersioning.longId ∧
    ignoredLogs.path = none ∧ ignoredLogs.reference = some "aws_s3_bucket.logs" ∧
    ∃ d flag,
      run Catalog.registry (unversioned flagLine).only logsIgnored false false = .ok (d, flag) ∧
      ∃ r ∈ d.results, r.rule = Catalog.enableVersioning.definition ∧
        r.description = "Resource 'aws_s3_bucket.logs' does not have versioning enabled" ∧
        r.status = .failed := by
  obtain ⟨d, flag, ran, reported, r, member, concerns⟩ := exists_run_of_logs flagLine
  obtain ⟨ignored_iff, settled⟩ := reported.ignored_iff member concerns.located
  have apart : ¬ Metadata.Names flagLine "aws_s3_bucket.logs" := by decide
  have missed : r.status ≠ .ignored := by
    rw [Ne, ignored_iff]
    rintro ⟨p, entry, accepts⟩
    obtain rfl : p = ignoredLogs := List.mem_singleton.mp entry
    rw [Result.ruleId, concerns.rule] at accepts
    exact apart ((ignoredLogs.accepts_iff_names rfl rfl ignoredLogs_matches _).mp accepts)
  exact ⟨rfl, List.mem_singleton_self _, List.mem_singleton_self _, ignoredLogs_matches, rfl, rfl,
    d, flag, ran, r, member, concerns.rule, concerns.described.trans rfl,
    settled.resolve_left missed⟩

end Scan

end CloudPolicy
