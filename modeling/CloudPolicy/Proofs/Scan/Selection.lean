import CloudPolicy.Proofs.Evaluation.Isolation
import CloudPolicy.Proofs.Registry
import CloudPolicy.Proofs.Result

/-!
What scans report on. An accepted configuration that nothing cancels has one report only, which
follows neither the rules that are selected besides nor the order of registration.
-/

set_option autoImplicit false
set_option relaxedAutoImplicit false

namespace CloudPolicy

namespace Scan

variable {registry : Registry} {state : State} {config : EffectiveConfig} {ignores : IgnoreList}

theorem check_eq_ok_iff : check registry config = .ok ignores ↔
    unknownRule? registry config = none ∧ IgnoreList.compile config.ignores = .ok ignores := by
  unfold check
  cases unknownRule? registry config with
  | some id => simp
  | none => cases IgnoreList.compile config.ignores <;> simp [Except.mapError]

private theorem run_eq_ok_iff {watches cancelled flag : Bool} {d : DomainReport} :
    run registry state config watches cancelled = .ok (d, flag) ↔
      ∃ ignores, check registry config = .ok ignores ∧
        d = report config state (registry.select config.ruleFilter)
          (Evaluation.run ⟨watches, ignores.suppressor?⟩ state cancelled
            (registry.select config.ruleFilter)).1 ∧
        flag = (Evaluation.run ⟨watches, ignores.suppressor?⟩ state cancelled
          (registry.select config.ruleFilter)).2 := by
  unfold run
  cases check registry config with
  | error e => simp
  | ok ignores => simp [eq_comm]

theorem select_nodup {registry : Registry} (built : registry.Built) (f : RuleFilter) :
    ((registry.select f).map Rule.longId).Nodup :=
  built.ids_nodup.sublist (List.filter_sublist.map _)

def plan (registry : Registry) (state : State) (config : EffectiveConfig) (ignores : IgnoreList)
    (watches : Bool) : Evaluation.Plan :=
  ⟨⟨watches, ignores.suppressor?⟩, config.parallel, state, registry.select config.ruleFilter⟩

/-- The reports of a configuration, over all schedules of its evaluation and with or without a
cancellation that is watched. -/
def Reported (registry : Registry) (state : State) (config : EffectiveConfig)
    (d : DomainReport) : Prop :=
  ∃ ignores watches cancelled events e, check registry config = .ok ignores ∧
    Evaluation.Outcome (plan registry state config ignores watches) cancelled events e ∧
    d = report config state (registry.select config.ruleFilter) e

private theorem exists_outcome_of_run (accepted : check registry config = .ok ignores)
    (state : State) (watches cancelled : Bool) :
    ∃ d flag events e, run registry state config watches cancelled = .ok (d, flag) ∧
      Evaluation.Outcome (plan registry state config ignores watches) cancelled events e ∧
      d = report config state (registry.select config.ruleFilter) e := by
  obtain ⟨events, outcome⟩ :=
    Evaluation.outcome_of_run (plan registry state config ignores watches) cancelled
  exact ⟨_, _, events, _, run_eq_ok_iff.mpr ⟨ignores, accepted, rfl, rfl⟩, outcome, rfl⟩

theorem exists_run_reported (accepted : check registry config = .ok ignores) (state : State)
    (watches cancelled : Bool) :
    ∃ d flag, run registry state config watches cancelled = .ok (d, flag) ∧
      Reported registry state config d := by
  obtain ⟨d, flag, events, e, ran, outcome, same⟩ :=
    exists_outcome_of_run accepted state watches cancelled
  exact ⟨d, flag, ran, ignores, watches, cancelled, events, e, accepted, outcome, same⟩

end Scan

namespace Scan

/-- The reports of a configuration over all schedules in which nothing is cancelled. -/
def Undisturbed (registry : Registry) (state : State) (config : EffectiveConfig)
    (d : DomainReport) : Prop :=
  ∃ ignores watches cancelled events e, check registry config = .ok ignores ∧
    Evaluation.Outcome (plan registry state config ignores watches) cancelled events e ∧
    (watches = false ∨ cancelled = false ∧ .cancel ∉ events) ∧
    d = report config state (registry.select config.ruleFilter) e

/-- The results of a selection that is evaluated to its end without a suppressor, in canonical
order. -/
def unsuppressed (registry : Registry) (state : State) (config : EffectiveConfig) : List Result :=
  Results.sortCanonical ((registry.select config.ruleFilter).flatMap (Evaluation.alone none state))

variable {registry : Registry} {config : EffectiveConfig} {ignores : IgnoreList} {d : DomainReport}

theorem Undisturbed.accepted {state : State} (scan : Undisturbed registry state config d) :
    ∃ ignores, check registry config = .ok ignores := by
  obtain ⟨ignores, _, _, _, _, accepted, _⟩ := scan
  exact ⟨ignores, accepted⟩

theorem Undisturbed.reported {state : State} (scan : Undisturbed registry state config d) :
    Reported registry state config d := by
  obtain ⟨ignores, watches, cancelled, events, e, accepted, outcome, -, same⟩ := scan
  exact ⟨ignores, watches, cancelled, events, e, accepted, outcome, same⟩

theorem exists_run_undisturbed (accepted : check registry config = .ok ignores) (state : State) :
    ∃ d flag, run registry state config false false = .ok (d, flag) ∧
      Undisturbed registry state config d := by
  obtain ⟨d, flag, events, e, ran, outcome, same⟩ :=
    exists_outcome_of_run accepted state false false
  exact ⟨d, flag, ran, ignores, false, false, events, e, accepted, outcome, .inl rfl, same⟩

theorem Undisturbed.eq {state : State} (scan : Undisturbed registry state config d)
    (accepted : check registry config = .ok ignores) :
    d = report config state (registry.select config.ruleFilter)
      ⟨(registry.select config.ruleFilter).flatMap (Evaluation.alone ignores.suppressor? state),
        []⟩ := by
  obtain ⟨ignores', watches, cancelled, events, e, accepted', outcome, calm, rfl⟩ := scan
  obtain rfl : ignores = ignores' := Except.ok.inj (accepted.symm.trans accepted')
  obtain ⟨skips, account⟩ := outcome.account
  rw [(account.undisturbed calm).1]
  rfl

/-- An accepted configuration has one report that nothing cancels. -/
theorem undisturbed_iff {state : State} (accepted : check registry config = .ok ignores) :
    Undisturbed registry state config d ↔
    d = report config state (registry.select config.ruleFilter)
      ⟨(registry.select config.ruleFilter).flatMap (Evaluation.alone ignores.suppressor? state),
        []⟩ := by
  refine ⟨fun scan => scan.eq accepted, fun same => ?_⟩
  obtain ⟨d', _, _, scan⟩ := exists_run_undisturbed accepted state
  rwa [same, ← scan.eq accepted]

theorem Undisturbed.results_eq {state : State} (scan : Undisturbed registry state config d)
    (accepted : check registry config = .ok ignores) :
    d.results = (unsuppressed registry state config).map (Result.suppress ignores.suppressor?) := by
  rw [scan.eq accepted, unsuppressed, ← Results.sortCanonical_map, ← Evaluation.flatMap_alone]
  rfl

theorem Undisturbed.mem_results_iff {state : State} (scan : Undisturbed registry state config d)
    (accepted : check registry config = .ok ignores) {r : Result} :
    r ∈ d.results ↔
      ∃ rule ∈ registry.select config.ruleFilter,
        r ∈ Evaluation.alone ignores.suppressor? state rule := by
  rw [scan.eq accepted]
  exact List.mem_mergeSort.trans List.mem_flatMap

end Scan

namespace EffectiveConfig

/-- The rule is switched on, or it is not switched off and severe enough. -/
def Selects (c : EffectiveConfig) (d : Definition) : Prop :=
  c.rules.find? d.longId = some (some true) ∨
    c.rules.find? d.longId ≠ some (some false) ∧ c.minSeverity.rank ≤ d.severity.rank

instance decidableSelects (c : EffectiveConfig) : DecidablePred c.Selects := fun d =>
  inferInstanceAs (Decidable (c.rules.find? d.longId = some (some true) ∨
    c.rules.find? d.longId ≠ some (some false) ∧ c.minSeverity.rank ≤ d.severity.rank))

private theorem mem_ids_set (c : EffectiveConfig) (on : Bool) (id : String) :
    id ∈ (c.rules.entries.filter fun e => e.2 == some on).map (·.1) ↔
      c.rules.find? id = some (some on) := by
  rw [Keyed.find?_eq_some_iff]
  simp

private theorem accepts_ruleFilter (c : EffectiveConfig) (d : Definition) :
    c.ruleFilter.accepts d = true ↔ c.Selects d := by
  have enabled : d.longId ∈ c.ruleFilter.enabled ↔ c.rules.find? d.longId = some (some true) :=
    mem_ids_set c true d.longId
  have disabled : d.longId ∈ c.ruleFilter.disabled ↔ c.rules.find? d.longId = some (some false) :=
    mem_ids_set c false d.longId
  have accepts : c.ruleFilter.accepts d = true ↔ d.longId ∉ c.ruleFilter.disabled ∧
      (d.longId ∈ c.ruleFilter.enabled ∨ c.minSeverity.rank ≤ d.severity.rank) := by
    simp [RuleFilter.accepts, ruleFilter]
  rw [accepts, enabled, disabled, Selects, and_or_left]
  refine or_congr_left ⟨And.right, fun on => ⟨?_, on⟩⟩
  rw [on]
  simp

end EffectiveConfig

private theorem Evaluation.filter_flatMap_alone (p : Definition → Bool)
    (suppressor : Option Suppressor) (state : State) (rules : List Rule) :
    (rules.flatMap (alone suppressor state)).filter (p ·.rule) =
      (rules.filter (p ·.definition)).flatMap (alone suppressor state) := by
  induction rules with
  | nil => rfl
  | cons rule rules ih =>
    rw [List.flatMap_cons, List.filter_append, ih, List.filter_cons]
    cases kept : p rule.definition with
    | true =>
      have whole : (alone suppressor state rule).filter (p ·.rule) = alone suppressor state rule :=
        List.filter_eq_self.mpr fun r member => by rw [rule_of_mem_alone member, kept]
      rw [whole, if_pos rfl, List.flatMap_cons]
    | false =>
      have nothing : (alone suppressor state rule).filter (p ·.rule) = [] :=
        List.filter_eq_nil_iff.mpr fun r member => by simp [rule_of_mem_alone member, kept]
      rw [nothing, List.nil_append, if_neg Bool.false_ne_true]

namespace Scan

variable {registry : Registry} {state : State} {config : EffectiveConfig} {ignores : IgnoreList}
  {d : DomainReport}

private theorem mem_select_iff {rule : Rule} :
    rule ∈ registry.select config.ruleFilter ↔
    rule ∈ registry.rules ∧ config.Selects rule.definition := by
  rw [Registry.select, List.mem_filter, config.accepts_ruleFilter]

/-- A selected rule has the results that it gives alone, in canonical order. -/
private theorem Undisturbed.forRule_selected (scan : Undisturbed registry state config d)
    (accepted : check registry config = .ok ignores) (built : registry.Built) {rule : Rule}
    (selected : rule ∈ registry.select config.ruleFilter) :
    Results.forRule d.results rule.longId =
      Results.sortCanonical (Evaluation.alone ignores.suppressor? state rule) := by
  rw [← Evaluation.forRule_ran (select_nodup built config.ruleFilter) selected, scan.eq accepted]
  exact Results.filter_sortCanonical _ _

private theorem Undisturbed.exists_result_iff (scan : Undisturbed registry state config d)
    (accepted : check registry config = .ok ignores) (built : registry.Built) {rule : Rule}
    (member : rule ∈ registry.rules) :
    (∃ r ∈ d.results, r.ruleId = rule.longId) ↔ config.Selects rule.definition := by
  have selected_iff : config.Selects rule.definition ↔
      rule ∈ registry.select config.ruleFilter := by
    rw [mem_select_iff, and_iff_right member]
  rw [selected_iff]
  constructor
  · rintro ⟨r, result, named⟩
    obtain ⟨other, selected, block⟩ := (scan.mem_results_iff accepted).mp result
    have registered := (mem_select_iff.mp selected).1
    obtain rfl : other = rule := List.inj_on_of_nodup_map built.ids_nodup registered member
      ((Evaluation.ruleId_of_mem_alone block).symm.trans named)
    exact selected
  · intro selected
    obtain ⟨r, block⟩ :=
      List.exists_mem_of_ne_nil _ (Evaluation.alone_ne_nil ignores.suppressor? state rule)
    exact ⟨r, (scan.mem_results_iff accepted).mpr ⟨rule, selected, block⟩,
      Evaluation.ruleId_of_mem_alone block⟩

private theorem selects_of_le {config config' : EffectiveConfig}
    (policies : config'.rules = config.rules)
    (least : config.minSeverity.rank ≤ config'.minSeverity.rank) {d : Definition}
    (selects : config'.Selects d) : config.Selects d := by
  rw [EffectiveConfig.Selects, ← policies]
  exact selects.imp_right fun ⟨allowed, severe⟩ => ⟨allowed, Nat.le_trans least severe⟩

private theorem select_of_le {config config' : EffectiveConfig}
    (policies : config'.rules = config.rules)
    (least : config.minSeverity.rank ≤ config'.minSeverity.rank) :
    registry.select config'.ruleFilter =
      (registry.select config.ruleFilter).filter fun rule => config'.Selects rule.definition := by
  rw [Registry.select, Registry.select, List.filter_filter]
  refine List.filter_congr fun rule _ => ?_
  rw [Bool.eq_iff_iff, Bool.and_eq_true, decide_eq_true_iff, config.accepts_ruleFilter,
    config'.accepts_ruleFilter]
  exact (and_iff_left_of_imp (selects_of_le policies least)).symm

private theorem Undisturbed.check_eq {config' : EffectiveConfig} {d' : DomainReport}
    (scan : Undisturbed registry state config' d') (accepted : check registry config = .ok ignores)
    (same : config'.ignores = config.ignores) : check registry config' = .ok ignores := by
  obtain ⟨ignores', accepted'⟩ := scan.accepted
  obtain ⟨_, compiled⟩ := check_eq_ok_iff.mp accepted
  obtain ⟨_, compiled'⟩ := check_eq_ok_iff.mp accepted'
  rw [same] at compiled'
  rw [accepted', Except.ok.inj (compiled.symm.trans compiled')]

/-- A rule has results exactly if its own policy and severity select it. Configurations with the
same ignores agree on all results of the rules that both select, and a higher least severity leaves
out the results of the rules that it no longer selects, and nothing else. -/
theorem selection_exact (built : registry.Built) (accepted : check registry config = .ok ignores)
    (state : State) :
    (∃ d flag, run registry state config false false = .ok (d, flag) ∧ Undisturbed
      registry state config d) ∧
    ∀ d, Undisturbed registry state config d →
      (∀ rule ∈ registry.rules,
        (∃ r ∈ d.results, r.ruleId = rule.longId) ↔ config.Selects rule.definition) ∧
      ∀ config' d', config'.ignores = config.ignores → Undisturbed registry state config' d' →
        (∀ rule ∈ registry.rules, config.Selects rule.definition → config'.Selects rule.definition →
          Results.forRule d'.results rule.longId = Results.forRule d.results rule.longId) ∧
        (config'.rules = config.rules → config.minSeverity.rank ≤ config'.minSeverity.rank →
          d'.results = d.results.filter fun r => config'.Selects r.rule) := by
  refine ⟨exists_run_undisturbed accepted state, fun d scan => ⟨fun rule member =>
    scan.exists_result_iff accepted built member, fun config' d' same scan' => ?_⟩⟩
  have accepted' := scan'.check_eq accepted same
  constructor
  · intro rule member selects selects'
    rw [scan.forRule_selected accepted built (mem_select_iff.mpr ⟨member, selects⟩),
      scan'.forRule_selected accepted' built (mem_select_iff.mpr ⟨member, selects'⟩)]
  · intro policies least
    rw [scan.eq accepted, scan'.eq accepted', select_of_le policies least]
    refine Eq.trans ?_ (Results.filter_sortCanonical _ _).symm
    rw [Evaluation.filter_flatMap_alone fun definition => decide (config'.Selects definition)]
    rfl

/-- A mild rule that fails twice in one place and a severe one that passes. -/
def unequalRules : List Rule :=
  [.ofFindings ⟨.aws, "s3", "a", "-", "-", "-", "-", [], .low⟩
      fun _ => [⟨"open", .unmanaged⟩, ⟨"open", .declared .nowhere "x"⟩],
    .ofFindings ⟨.aws, "s3", "b", "-", "-", "-", "-", [], .high⟩ fun _ => []]

/-- With a higher least severity the severe rule keeps its pass and the mild one has no results. -/
theorem selection_exact_raised : ∃ d d', Undisturbed ⟨unequalRules⟩ {} {} d ∧
    Undisturbed ⟨unequalRules⟩ {} { minSeverity := .high } d' ∧ d.results.length = 3 ∧
    d'.results = (d.results.filter fun r =>
      ({ minSeverity := .high } : EffectiveConfig).Selects r.rule) ∧
    d'.results.length = 1 := by
  have built : Registry.Built ⟨unequalRules⟩ := Registry.built_of_valid (by decide) (by decide)
  have accepted : check ⟨unequalRules⟩ {} = .ok ⟨[]⟩ := rfl
  have accepted' : check ⟨unequalRules⟩ { minSeverity := .high } = .ok ⟨[]⟩ := rfl
  obtain ⟨⟨d, _, _, scan⟩, each⟩ := selection_exact built accepted {}
  obtain ⟨d', _, _, scan'⟩ := exists_run_undisturbed accepted' {}
  have left := ((each d scan).2 { minSeverity := .high } d' rfl scan').2 rfl (by decide)
  refine ⟨d, d', scan, scan', ?_, left, ?_⟩
  · rw [scan.eq accepted]
    exact (List.length_mergeSort _).trans (by decide)
  · rw [scan'.eq accepted']
    exact (List.length_mergeSort _).trans (by decide)

end Scan

private theorem Evaluation.forRule_perm (suppressor : Option Suppressor) (state : State)
    {rules rules' : List Rule} (same : rules.Perm rules') (nodup : (rules.map Rule.longId).Nodup)
    (id : String) : Results.forRule (rules.flatMap (alone suppressor state)) id =
      Results.forRule (rules'.flatMap (alone suppressor state)) id := by
  by_cases known : ∃ rule ∈ rules, rule.longId = id
  · obtain ⟨rule, member, rfl⟩ := known
    have nodup' := ((same.map Rule.longId).nodup_iff).mp nodup
    rw [forRule_ran nodup member, forRule_ran nodup' (same.mem_iff.mp member)]
  · have stranger : ∀ rule ∈ rules, rule.longId ≠ id :=
      fun rule member named => known ⟨rule, member, named⟩
    rw [forRule_eq_nil stranger, forRule_eq_nil fun rule member =>
      stranger rule (same.mem_iff.mpr member)]

namespace Scan

variable {registry registry' : Registry}

private theorem check_perm (same : registry.rules.Perm registry'.rules) (config : EffectiveConfig) :
    check registry config = check registry' config := by
  have known : registry.contains = registry'.contains := funext fun id => by
    rw [Bool.eq_iff_iff, Registry.contains, Registry.contains, List.contains_iff_mem,
      List.contains_iff_mem]
    exact (same.map Rule.longId).mem_iff
  have unknown : unknownRule? registry config = unknownRule? registry' config := by
    rw [unknownRule?, unknownRule?, known]
  rw [check, check, unknown]

private theorem report_perm (built : registry.Built) (same : registry.rules.Perm registry'.rules)
    (state : State) (config : EffectiveConfig) (suppressor : Option Suppressor) :
    report config state (registry.select config.ruleFilter)
      ⟨(registry.select config.ruleFilter).flatMap (Evaluation.alone suppressor state), []⟩ =
    report config state (registry'.select config.ruleFilter)
      ⟨(registry'.select config.ruleFilter).flatMap (Evaluation.alone suppressor state), []⟩ := by
  have selected : (registry.select config.ruleFilter).Perm (registry'.select config.ruleFilter) :=
    same.filter _
  have results := Results.sortCanonical_congr
    (Evaluation.forRule_perm suppressor state selected (select_nodup built _))
  simp only [report, results, selected.length_eq]

private theorem run_of_check_error {config : EffectiveConfig} {error : ScanError}
    (refused : check registry config = .error error) (state : State) (watches cancelled : Bool) :
    run registry state config watches cancelled = .error error := by
  rw [run, refused]

/-- Two registries that were filled with the same rules in different orders refuse a configuration
with the same error, or both have the same one report, whatever the schedule. -/
theorem registration_order_immaterial {rules rules' : List Rule} {r r' : IndexedRegistry}
    (whole : IndexedRegistry.empty.registerAll rules = (r, none))
    (whole' : IndexedRegistry.empty.registerAll rules' = (r', none)) (same : rules.Perm rules')
    (state : State) (config : EffectiveConfig) :
    (∃ error, ∀ watches cancelled, run r.toRegistry state config watches cancelled = .error error ∧
      run r'.toRegistry state config watches cancelled = .error error) ∨
    ∃ d, (∃ flag, run r.toRegistry state config false false = .ok (d, flag)) ∧
      (∃ flag, run r'.toRegistry state config false false = .ok (d, flag)) ∧
      (∀ d', Undisturbed r.toRegistry state config d' ↔ d' = d) ∧
      ∀ d', Undisturbed r'.toRegistry state config d' ↔ d' = d := by
  obtain ⟨built, filled⟩ := IndexedRegistry.registerAll_empty whole
  obtain ⟨-, filled'⟩ := IndexedRegistry.registerAll_empty whole'
  have perm : r.rules.Perm r'.rules := by rwa [filled, filled']
  have checked := check_perm perm config
  cases verdict : check r.toRegistry config with
  | error error =>
    left
    exact ⟨error, fun watches cancelled => ⟨run_of_check_error verdict state watches cancelled,
      run_of_check_error (checked.symm.trans verdict) state watches cancelled⟩⟩
  | ok ignores =>
    right
    have verdict' := checked.symm.trans verdict
    obtain ⟨d, flag, ran, scan⟩ := exists_run_undisturbed verdict state
    obtain ⟨d', flag', ran', scan'⟩ := exists_run_undisturbed verdict' state
    have reports := report_perm built perm state config ignores.suppressor?
    rw [← scan.eq verdict, ← scan'.eq verdict'] at reports
    subst reports
    refine ⟨d, ⟨flag, ran⟩, ⟨flag', ran'⟩, fun d' => ?_, fun d' => ?_⟩
    · rw [undisturbed_iff verdict, scan.eq verdict]
    · rw [undisturbed_iff verdict', scan'.eq verdict']

/-- Two rules that fail in one place, one of them twice. -/
def crowdedRules : List Rule :=
  [.ofFindings ⟨.aws, "s3", "b", "-", "-", "-", "-", [], .low⟩
      fun _ => [⟨"open", .unmanaged⟩, ⟨"open", .declared .nowhere "x"⟩],
    .ofFindings ⟨.aws, "s3", "a", "-", "-", "-", "-", [], .high⟩ fun _ => [⟨"open", .unmanaged⟩]]

theorem registration_order_immaterial_reversed : ∃ r r' : IndexedRegistry,
    IndexedRegistry.empty.registerAll crowdedRules = (r, none) ∧
    IndexedRegistry.empty.registerAll crowdedRules.reverse = (r', none) ∧ r.ids ≠ r'.ids ∧
    ∃ d, (∀ d', Undisturbed r.toRegistry {} {} d' ↔ d' = d) ∧
      (∀ d', Undisturbed r'.toRegistry {} {} d' ↔ d' = d) ∧ d.results.length = 3 := by
  have whole : IndexedRegistry.empty.registerAll crowdedRules = (.ofRules crowdedRules, none) :=
    Prod.ext rfl (by decide)
  have whole' : IndexedRegistry.empty.registerAll crowdedRules.reverse =
      (.ofRules crowdedRules.reverse, none) := Prod.ext rfl (by decide)
  have accepted : check (IndexedRegistry.ofRules crowdedRules).toRegistry {} = .ok ⟨[]⟩ := rfl
  refine ⟨_, _, whole, whole', by decide, ?_⟩
  rcases registration_order_immaterial whole whole' (List.reverse_perm _).symm {} {} with
    ⟨error, refused⟩ | ⟨d, -, -, only, only'⟩
  · obtain ⟨_, _, ran, _⟩ := exists_run_undisturbed accepted {}
    rw [(refused false false).1] at ran
    cases ran
  · refine ⟨d, only, only', ?_⟩
    rw [((only d).mpr rfl).eq accepted]
    exact (List.length_mergeSort _).trans (by decide)

end Scan

end CloudPolicy
