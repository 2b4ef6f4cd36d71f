import CloudPolicy.Proofs.Catalog.Builtin
import CloudPolicy.Proofs.Codec.Report
import CloudPolicy.Proofs.Scan.Selection
import CloudPolicy.Proofs.Settings.Resolution
import CloudPolicy.ScanRun

/-!
Scans that are refused, and scans that are repeated. Neither the clock nor whether rules are
evaluated at the same time reaches any part of a report that masking keeps.
-/

set_option autoImplicit false
set_option relaxedAutoImplicit false

namespace CloudPolicy

def EffectiveConfig.patterns (c : EffectiveConfig) : List String :=
  c.ignores.flatMap IgnorePolicy.patterns

namespace Scan

/-- A configured id that no rule has, whether it is switched on, switched off or neither. -/
def Unknown (registry : Registry) (config : EffectiveConfig) (id : String) : Prop :=
  id ∈ config.rules.keys ∧ ∀ rule ∈ registry.rules, rule.longId ≠ id

/-- Why a registry refuses a configuration. -/
inductive Refuses (registry : Registry) (config : EffectiveConfig) : ScanError → Prop where
  | unknownRule {id : String} (unknown : Unknown registry config id)
      (smallest : ∀ id', Unknown registry config id' → Text.utf8 id ≤ Text.utf8 id') :
      Refuses registry config (.unknownRule id)
  | invalidIgnorePattern {e : GlobError} (known : ∀ id, ¬ Unknown registry config id)
      (fault : Glob.FirstFault config.patterns e) :
      Refuses registry config (.invalidIgnorePattern e)

section

variable {registry : Registry} {state : State} {config : EffectiveConfig} {ignores : IgnoreList}
  {id : String} {e : ScanError}

private theorem not_contains_iff :
    (!registry.contains id) = true ↔ ∀ rule ∈ registry.rules, rule.longId ≠ id := by
  simp [Registry.contains, Registry.ids]

private theorem unknownRule?_eq_none_iff :
    unknownRule? registry config = none ↔ ∀ id, ¬ Unknown registry config id := by
  simp only [unknownRule?, List.find?_eq_none, not_contains_iff, Unknown, not_and]

private theorem exists_unknownRule?_of_unknown (unknown : Unknown registry config id) :
    ∃ id', unknownRule? registry config = some id' := by
  rw [← Option.ne_none_iff_exists']
  exact fun none => unknownRule?_eq_none_iff.mp none id unknown

/-- The keys stand in byte order, so that the first unknown one is the smallest. -/
private theorem smallest_of_unknownRule? (found : unknownRule? registry config = some id) :
    Unknown registry config id ∧ ∀ id', Unknown registry config id' → id ≤ id' := by
  have ordered : config.rules.keys.Pairwise (· < ·) := config.rules.ordered
  obtain ⟨unregistered, before, after, split, registered⟩ := List.find?_eq_some_iff_append.mp found
  have unknown : Unknown registry config id := by
    rw [Unknown, split]
    exact ⟨by simp, not_contains_iff.mp unregistered⟩
  rw [split] at ordered
  have later := (List.pairwise_cons.mp (List.pairwise_append.mp ordered).2.1).1
  refine ⟨unknown, fun id' unknown' => ?_⟩
  have member := unknown'.1
  rw [split, List.mem_append, List.mem_cons] at member
  rcases member with passed | rfl | follows
  · have known := registered id' passed
    rw [not_contains_iff.mpr unknown'.2] at known
    contradiction
  · exact String.le_refl _
  · exact String.not_lt.mp (String.lt_asymm (later id' follows))

private theorem unknownRule?_eq_some_iff : unknownRule? registry config = some id ↔
    Unknown registry config id ∧
      ∀ id', Unknown registry config id' → Text.utf8 id ≤ Text.utf8 id' := by
  simp only [Text.utf8_le_iff]
  refine ⟨smallest_of_unknownRule?, fun ⟨unknown, smallest⟩ => ?_⟩
  obtain ⟨id', found⟩ := exists_unknownRule?_of_unknown unknown
  obtain ⟨unknown', smallest'⟩ := smallest_of_unknownRule? found
  rw [found, String.le_antisymm (smallest' id unknown) (smallest id' unknown')]

private theorem exists_unknownRule_iff :
    (∃ id, Refuses registry config (.unknownRule id)) ↔ ∃ id, Unknown registry config id := by
  constructor
  · rintro ⟨id, refuses⟩
    cases refuses with
    | unknownRule unknown => exact ⟨id, unknown⟩
  · rintro ⟨id, unknown⟩
    obtain ⟨id', found⟩ := exists_unknownRule?_of_unknown unknown
    obtain ⟨unknown', smallest'⟩ := unknownRule?_eq_some_iff.mp found
    exact ⟨id', .unknownRule unknown' smallest'⟩

private theorem exists_invalidIgnorePattern_iff :
    (∃ e, Refuses registry config (.invalidIgnorePattern e)) ↔
      (∀ id, ¬ Unknown registry config id) ∧ ∃ q ∈ config.patterns, ¬ Glob.Readable q := by
  rw [← Glob.exists_firstFault_iff]
  constructor
  · rintro ⟨e, refuses⟩
    cases refuses with
    | invalidIgnorePattern known fault => exact ⟨known, e, fault⟩
  · rintro ⟨known, e, fault⟩
    exact ⟨e, .invalidIgnorePattern known fault⟩

private theorem check_eq_error_iff :
    check registry config = .error e ↔ Refuses registry config e := by
  have reads := IgnoreList.checks_compile config.ignores
  unfold check
  constructor
  · intro refused
    cases found : unknownRule? registry config with
    | some id =>
      rw [found] at refused
      cases refused
      obtain ⟨unknown, smallest⟩ := unknownRule?_eq_some_iff.mp found
      exact .unknownRule unknown smallest
    | none =>
      rw [found] at refused
      cases compiled : IgnoreList.compile config.ignores with
      | ok ignores => simp [compiled, Except.mapError] at refused
      | error fault =>
        rw [compiled] at refused
        cases refused
        exact .invalidIgnorePattern (unknownRule?_eq_none_iff.mp found) ((reads fault).mp compiled)
  · intro refuses
    cases refuses with
    | unknownRule unknown smallest => rw [unknownRule?_eq_some_iff.mpr ⟨unknown, smallest⟩]
    | invalidIgnorePattern known fault =>
      rw [unknownRule?_eq_none_iff.mpr known, (reads _).mpr fault]
      rfl

private theorem exists_unknownRule_of_refuses (readable : ∀ q ∈ config.patterns, Glob.Readable q)
    (refuses : Refuses registry config e) : ∃ id, e = .unknownRule id := by
  cases refuses with
  | unknownRule => exact ⟨_, rfl⟩
  | invalidIgnorePattern known fault =>
    obtain ⟨q, member, unreadable⟩ := Glob.exists_firstFault_iff.mp ⟨_, fault⟩
    exact absurd (readable q member) unreadable

theorem exists_check_ok_iff : (∃ ignores, check registry config = .ok ignores) ↔
    (∀ id, ¬ Unknown registry config id) ∧ ∀ q ∈ config.patterns, Glob.Readable q := by
  simp only [check_eq_ok_iff, exists_and_left, unknownRule?_eq_none_iff,
    (IgnoreList.checks_compile config.ignores).exists_ok_iff, EffectiveConfig.patterns]

variable {watches cancelled : Bool}

private theorem run_eq_error_iff :
    run registry state config watches cancelled = .error e ↔ Refuses registry config e := by
  rw [← check_eq_error_iff, run]
  cases check registry config <;> simp

private theorem exists_run_ok_iff : (∃ out, run registry state config watches cancelled = .ok out) ↔
    (∀ id, ¬ Unknown registry config id) ∧ ∀ q ∈ config.patterns, Glob.Readable q := by
  rw [← exists_check_ok_iff, run]
  cases check registry config <;> simp

private theorem exists_reported_iff :
    (∃ d, Reported registry state config d) ↔ ∃ ignores, check registry config = .ok ignores := by
  constructor
  · rintro ⟨d, ignores, -, -, -, -, accepted, -⟩
    exact ⟨ignores, accepted⟩
  · rintro ⟨ignores, accepted⟩
    obtain ⟨d, flag, -, reported⟩ := exists_run_reported accepted state false false
    exact ⟨d, reported⟩

private theorem refuses_congr {registry' : Registry}
    (same : registry'.rules.map Rule.definition = registry.rules.map Rule.definition) :
    Refuses registry' config e ↔ Refuses registry config e := by
  have ids : registry'.ids = registry.ids := by
    have mapped := congrArg (List.map Definition.longId) same
    rwa [List.map_map, List.map_map] at mapped
  have found : unknownRule? registry' config = unknownRule? registry config := by
    simp only [unknownRule?, Registry.contains, ids]
  rw [← check_eq_error_iff, ← check_eq_error_iff, check, check, found]

end

end Scan

namespace ScanRun

variable {registry : Registry} {state : State} {text : String} {overrides : Settings.Overrides}
  {config : EffectiveConfig}

theorem readable_of_resolve (resolved : resolve text overrides = .ok config) :
    ∀ q ∈ config.patterns, Glob.Readable q := by
  unfold resolve at resolved
  cases file : settings? text with
  | none => simp [file] at resolved
  | some m =>
    cases inner : Settings.resolve m overrides with
    | error e => simp [file, inner, Except.mapError] at resolved
    | ok c =>
      obtain rfl : c = config := by simpa [file, inner, Except.mapError] using resolved
      exact Settings.readable_of_resolve inner

private theorem run_eq_error_iff {watches cancelled : Bool} {s f : Timestamp} {e : ScanRunError}
    (resolved : resolve text overrides = .ok config) :
    run registry state text overrides watches cancelled s f = .error e ↔
      ∃ id, e = .evaluate (.unknownRule id) ∧ Scan.Refuses registry config (.unknownRule id) := by
  have outcome : run registry state text overrides watches cancelled s f = .error e ↔
      ∃ e', e = .evaluate e' ∧ Scan.run registry state config watches cancelled = .error e' := by
    rw [run, resolved]
    simp only [bind, Except.bind]
    cases Scan.run registry state config watches cancelled <;> simp [eq_comm]
  simp only [outcome, Scan.run_eq_error_iff]
  constructor
  · rintro ⟨e', rfl, refuses⟩
    obtain ⟨id, rfl⟩ := Scan.exists_unknownRule_of_refuses (readable_of_resolve resolved) refuses
    exact ⟨id, rfl, refuses⟩
  · rintro ⟨id, rfl, refuses⟩
    exact ⟨_, rfl, refuses⟩

end ScanRun

namespace Scan

/-- A scan is refused exactly for its smallest unknown rule or else for its first glob that cannot
be read; otherwise it succeeds, along any schedule. Of the rules only their definitions count for
that, and of the settings that resolve only the rules that they name. -/
theorem refusals_exact (registry : Registry) (config : EffectiveConfig) :
    (∀ state watches cancelled,
      (∀ e, run registry state config watches cancelled = .error e ↔ Refuses registry config e) ∧
      ((∃ id, run registry state config watches cancelled = .error (.unknownRule id)) ↔
        ∃ id, Unknown registry config id) ∧
      ((∃ e, run registry state config watches cancelled = .error (.invalidIgnorePattern e)) ↔
        (∀ id, ¬ Unknown registry config id) ∧ ∃ q ∈ config.patterns, ¬ Glob.Readable q) ∧
      ((∃ out, run registry state config watches cancelled = .ok out) ↔
        (∀ id, ¬ Unknown registry config id) ∧ ∀ q ∈ config.patterns, Glob.Readable q) ∧
      ((∃ d, Reported registry state config d) ↔
        (∀ id, ¬ Unknown registry config id) ∧ ∀ q ∈ config.patterns, Glob.Readable q)) ∧
    (∀ registry', registry'.rules.map Rule.definition = registry.rules.map Rule.definition →
      ∀ state state' watches watches' cancelled cancelled' e,
        run registry' state' config watches' cancelled' = .error e ↔
          run registry state config watches cancelled = .error e) ∧
    ∀ text overrides, ScanRun.resolve text overrides = .ok config →
      (∀ q ∈ config.patterns, Glob.Readable q) ∧
      ∀ state watches cancelled s f e,
        ScanRun.run registry state text overrides watches cancelled s f = .error e ↔
          ∃ id, e = .evaluate (.unknownRule id) ∧ Refuses registry config (.unknownRule id) := by
  refine ⟨fun state watches cancelled => ⟨fun e => run_eq_error_iff, ?_, ?_, exists_run_ok_iff, ?_⟩,
    ?_, ?_⟩
  · simp only [run_eq_error_iff, exists_unknownRule_iff]
  · simp only [run_eq_error_iff, exists_invalidIgnorePattern_iff]
  · rw [← exists_check_ok_iff, exists_reported_iff]
  · intro registry' same state state' watches watches' cancelled cancelled' e
    rw [run_eq_error_iff, run_eq_error_iff, refuses_congr same]
  · intro text overrides resolved
    exact ⟨ScanRun.readable_of_resolve resolved, fun state watches cancelled s f e =>
      ScanRun.run_eq_error_iff resolved⟩

/-- Two unknown rules, a path that is no glob and a rule that is none. -/
def wrongThroughout : EffectiveConfig :=
  { rules := .ofList [("zzz", none), ("aws-s3-nope", some false)]
    ignores := [⟨"aws-*", some "a[", none⟩, ⟨"\x7b", none, none⟩] }

theorem refusals_exact_wrongThroughout :
    Refuses Catalog.registry wrongThroughout (.unknownRule "aws-s3-nope") ∧
      Refuses Catalog.registry { wrongThroughout with rules := .empty }
        (.invalidIgnorePattern ⟨"a[", .unclosedClass⟩) ∧
      ScanRun.run Catalog.registry {} "[rules.zzz]" {} false false .epoch .epoch =
        .error (.evaluate (.unknownRule "zzz")) := by
  have resolved : ScanRun.resolve "[rules.zzz]" {} = .ok { rules := .ofList [("zzz", none)] } := by
    have file : ScanRun.settings? "[rules.zzz]" = some { rules := .ofList [("zzz", ⟨none⟩)] } := by
      decide +kernel
    rw [ScanRun.resolve, file]
    rfl
  have rule := (refusals_exact Catalog.registry wrongThroughout).1 {} false false
  have glob := (refusals_exact Catalog.registry { wrongThroughout with rules := .empty }).1 {}
    false false
  obtain ⟨every, -, settings⟩ :=
    refusals_exact Catalog.registry { rules := .ofList [("zzz", none)] }
  have zzz := every {} false false
  refine ⟨(rule.1 _).mp ?_, (glob.1 _).mp ?_,
    ((settings _ _ resolved).2 {} false false _ _ _).mpr ⟨"zzz", rfl, (zzz.1 _).mp ?_⟩⟩
  all_goals
    rw [Catalog.registry_eq]
    rfl

end Scan

open Json

theorem Mask.mask_toJson (r : Report) : mask r.toJson =
    .object [("schema", .string r.schema),
      ("tool", .object [("name", .string r.tool.name), ("version", versionMask)]),
      ("started_at", timeMask), ("finished_at", timeMask), ("summary", times r.summary.toJson),
      ("results", .array (timesOfItems (r.results.map Record.toJson)))] := by
  rfl

namespace Report

/-- The document in a report's file, without what differs from run to run. -/
def normalized? (r : Report) : Option Json := do
  let text ← r.serialize?
  let v ← (Json.parse? text).bind (plain? nestingLimit)
  return Mask.mask v

private theorem normalized?_eq {r : Report} (started : r.startedAt.isWritable = true)
    (finished : r.finishedAt.isWritable = true) : r.normalized? = some (Mask.mask r.toJson) := by
  simp only [normalized?, serialize?_eq started finished, r.plain?_write, Option.bind_eq_bind,
    Option.bind_some, Option.pure_def]

end Report

theorem Scan.Undisturbed.parallel {registry : Registry} {state : State} {config : EffectiveConfig}
    {d : DomainReport} (scan : Undisturbed registry state config d) (b : Bool) :
    Undisturbed registry state { config with parallel := b } d := by
  obtain ⟨ignores, accepted⟩ := scan.accepted
  have accepted' : check registry { config with parallel := b } = .ok ignores := accepted
  rw [undisturbed_iff accepted']
  exact scan.eq accepted

namespace ScanRun

/-- The reports of a scan between two moments that nothing cancels, over all schedules. -/
def Reports (registry : Registry) (state : State) (settingsText : String)
    (overrides : Settings.Overrides) (startedAt finishedAt : Timestamp) (r : Report) : Prop :=
  ∃ config d, resolve settingsText overrides = .ok config ∧
    Scan.Undisturbed registry state config d ∧ r = .ofDomain d startedAt finishedAt

/-- Settings and overrides that say the same but for whether rules may be evaluated at the same
time. -/
structure AgreeButParallel (text : String) (overrides : Settings.Overrides) (text' : String)
    (overrides' : Settings.Overrides) : Prop where
  file : ∃ m p, settings? text = some m ∧ settings? text' = some { m with parallel := p }
  caller : ∃ q, overrides' = { overrides with parallel := q }

variable {registry : Registry} {state : State} {text text' : String}
  {overrides overrides' : Settings.Overrides} {config : EffectiveConfig}

theorem AgreeButParallel.resolve (agree : AgreeButParallel text overrides text' overrides')
    (resolved : resolve text overrides = .ok config) :
    ∃ b, ScanRun.resolve text' overrides' = .ok { config with parallel := b } := by
  obtain ⟨m, p, file, file'⟩ := agree.file
  obtain ⟨q, rfl⟩ := agree.caller
  simp only [ScanRun.resolve, file] at resolved
  cases inner : Settings.resolve m overrides with
  | error e => simp [inner, Except.mapError] at resolved
  | ok c =>
    obtain rfl : c = config := by simpa [inner, Except.mapError] using resolved
    refine ⟨(q <|> p).getD true, ?_⟩
    simp only [ScanRun.resolve, file', Settings.resolve_parallel, inner]
    rfl

theorem run_of_ok {watches cancelled flag : Bool} {d : DomainReport} (s f : Timestamp)
    (resolved : ScanRun.resolve text overrides = .ok config)
    (scanned : Scan.run registry state config watches cancelled = .ok (d, flag)) :
    run registry state text overrides watches cancelled s f = .ok ⟨.ofDomain d s f, config⟩ := by
  rw [run, resolved]
  simp only [bind, Except.bind, scanned]

theorem accepted_of_run {watches cancelled : Bool} {s f : Timestamp} {out : ScanRun}
    (ran : run registry state text overrides watches cancelled s f = .ok out) :
    ∃ config ignores, ScanRun.resolve text overrides = .ok config ∧
      Scan.check registry config = .ok ignores := by
  rw [run] at ran
  cases resolved : ScanRun.resolve text overrides with
  | error e => simp [resolved, bind, Except.bind] at ran
  | ok config =>
    cases checked : Scan.check registry config with
    | error e => simp [resolved, bind, Except.bind, Scan.run, checked] at ran
    | ok ignores => exact ⟨config, ignores, rfl, checked⟩

private theorem Reports.same_domain {text₁ text₂ : String}
    {overrides₁ overrides₂ : Settings.Overrides}
    (resolved : ScanRun.resolve text overrides = .ok config)
    (agree₁ : AgreeButParallel text overrides text₁ overrides₁)
    (agree₂ : AgreeButParallel text overrides text₂ overrides₂) {s₁ f₁ s₂ f₂ : Timestamp}
    {r₁ r₂ : Report} (first : Reports registry state text₁ overrides₁ s₁ f₁ r₁)
    (second : Reports registry state text₂ overrides₂ s₂ f₂ r₂) :
    ∃ d, r₁ = .ofDomain d s₁ f₁ ∧ r₂ = .ofDomain d s₂ f₂ := by
  obtain ⟨config₁, d₁, resolved₁, scan₁, rfl⟩ := first
  obtain ⟨config₂, d₂, resolved₂, scan₂, rfl⟩ := second
  obtain ⟨b₁, same₁⟩ := agree₁.resolve resolved
  obtain ⟨b₂, same₂⟩ := agree₂.resolve resolved
  obtain rfl := Except.ok.inj (same₁.symm.trans resolved₁)
  obtain rfl := Except.ok.inj (same₂.symm.trans resolved₂)
  obtain ⟨ignores, accepted⟩ := scan₁.accepted
  have moved := scan₂.parallel b₁
  refine ⟨d₁, rfl, ?_⟩
  rw [scan₁.eq accepted, moved.eq accepted]

/-- A scan that succeeds can be repeated, by any settings that agree on all but evaluating rules at
the same time. Any two repetitions have one normalised report, whatever their schedules are and
whatever the clock shows. -/
theorem runs_reproducible {watches cancelled : Bool} {s₀ f₀ : Timestamp} {out : ScanRun}
    (ran : run registry state text overrides watches cancelled s₀ f₀ = .ok out) :
    (∀ text₁ overrides₁, AgreeButParallel text overrides text₁ overrides₁ → ∀ s f,
      ∃ out₁, run registry state text₁ overrides₁ false false s f = .ok out₁ ∧
        Reports registry state text₁ overrides₁ s f out₁.report) ∧
    ∀ text₁ overrides₁ text₂ overrides₂, AgreeButParallel text overrides text₁ overrides₁ →
      AgreeButParallel text overrides text₂ overrides₂ → ∀ s₁ f₁ s₂ f₂ r₁ r₂,
      Reports registry state text₁ overrides₁ s₁ f₁ r₁ →
      Reports registry state text₂ overrides₂ s₂ f₂ r₂ →
      Mask.mask r₁.toJson = Mask.mask r₂.toJson ∧
      ((∀ t ∈ [s₁, f₁, s₂, f₂], t.isWritable = true) →
        ∃ v, r₁.normalized? = some v ∧ r₂.normalized? = some v) := by
  obtain ⟨config, ignores, resolved, accepted⟩ := accepted_of_run ran
  constructor
  · intro text₁ overrides₁ agree s f
    obtain ⟨b, resolved₁⟩ := agree.resolve resolved
    have accepted₁ : Scan.check registry { config with parallel := b } = .ok ignores := accepted
    obtain ⟨d, flag, scanned, scan⟩ := Scan.exists_run_undisturbed accepted₁ state
    exact ⟨_, run_of_ok s f resolved₁ scanned, _, d, resolved₁, scan, rfl⟩
  · intro text₁ overrides₁ text₂ overrides₂ agree₁ agree₂ s₁ f₁ s₂ f₂ r₁ r₂ first second
    obtain ⟨d, rfl, rfl⟩ := Reports.same_domain resolved agree₁ agree₂ first second
    have masked : Mask.mask (Report.ofDomain d s₁ f₁).toJson =
        Mask.mask (Report.ofDomain d s₂ f₂).toJson := by
      rw [Mask.mask_toJson, Mask.mask_toJson]
      rfl
    refine ⟨masked, fun writable => ⟨Mask.mask (Report.ofDomain d s₂ f₂).toJson, ?_, ?_⟩⟩
    · rw [Report.normalized?_eq (writable s₁ (by simp)) (writable f₁ (by simp)), masked]
    · rw [Report.normalized?_eq (writable s₂ (by simp)) (writable f₂ (by simp))]

/-- The bundled rules one after another, by the file, and together, by the caller: the times tell
the reports apart, and masking hides that. -/
theorem runs_reproducible_sequential : ∃ r₁ r₂ v,
    Reports Catalog.registry {} "parallel = false" {} .epoch .epoch r₁ ∧
      Reports Catalog.registry {} "" { parallel := some true } .epoch Report.lastMoment r₂ ∧
      r₁ ≠ r₂ ∧ r₁.normalized? = some v ∧ r₂.normalized? = some v := by
  have resolved : ScanRun.resolve "" {} = .ok {} := rfl
  have accepted : Scan.check Catalog.registry {} = .ok ⟨[]⟩ := rfl
  have byFile : AgreeButParallel "" {} "parallel = false" {} :=
    ⟨⟨{}, some false, rfl, by decide +kernel⟩, none, rfl⟩
  have byCaller : AgreeButParallel "" {} "" { parallel := some true } :=
    ⟨⟨{}, none, rfl, rfl⟩, some true, rfl⟩
  obtain ⟨d, flag, scanned, -⟩ := Scan.exists_run_undisturbed accepted {}
  obtain ⟨again, same⟩ := runs_reproducible (run_of_ok .epoch .epoch resolved scanned)
  obtain ⟨out₁, -, first⟩ := again _ _ byFile .epoch .epoch
  obtain ⟨out₂, -, second⟩ := again _ _ byCaller .epoch Report.lastMoment
  obtain ⟨-, written⟩ := same _ _ _ _ byFile byCaller _ _ _ _ _ _ first second
  obtain ⟨v, norm₁, norm₂⟩ := written (by decide)
  refine ⟨_, _, v, first, second, fun equal => ?_, norm₁, norm₂⟩
  obtain ⟨_, _, -, -, shape₁⟩ := first
  obtain ⟨_, _, -, -, shape₂⟩ := second
  rw [shape₁, shape₂] at equal
  have moments : Timestamp.epoch = Report.lastMoment := congrArg Report.finishedAt equal
  exact absurd moments (by decide)

end ScanRun

end CloudPolicy
