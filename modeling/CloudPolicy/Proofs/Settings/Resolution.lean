import CloudPolicy.Proofs.Codec.Record
import CloudPolicy.Proofs.Ignore
import CloudPolicy.Settings

/-!
What settings resolve to, and why they do not. Overrides stand in for what they replace, which is
not looked at any more; the first check that fails is the error.
-/

set_option autoImplicit false
set_option relaxedAutoImplicit false

namespace CloudPolicy

namespace Settings

def checkSchema : Option String → Except ResolveError Unit
  | some schema => if schema != schemaId then .error (.unsupportedSchema schema) else .ok ()
  | none => .ok ()

def presetOf (profile : String) : Except ResolveError Severity :=
  match presets.lookup profile with
  | some preset => .ok preset
  | none => .error (.unknownProfile profile)

def leastSeverity (given : Option String) (preset : Severity) : Except ResolveError Severity :=
  match given with
  | some text => severityOf text
  | none => .ok preset

variable {m : Model} {o : Overrides}

private theorem resolve_of_refused {e : ResolveError} (refused : checkSchema m.schema = .error e) :
    resolve m o = .error e := by
  unfold checkSchema at refused
  rcases named : m.schema with _ | schema
  · simp [named] at refused
  · cases unknown : schema != schemaId with
    | false => simp [named, unknown] at refused
    | true =>
      simp only [named, unknown, if_true, Except.error.injEq] at refused
      simp only [resolve, named, unknown, if_true, ← refused]
      rfl

private theorem resolve_of_known (known : checkSchema m.schema = .ok ()) :
    resolve m o = resolve { m with schema := none } o := by
  unfold checkSchema at known
  rcases named : m.schema with _ | schema
  · simp only [resolve, named]
  · cases unknown : schema != schemaId with
    | false => simp only [resolve, named, unknown, Bool.false_eq_true, if_false]
    | true => simp [named, unknown] at known

/-- Schema, profile, severity and ignores are checked in this order, and the first failure is the
result. -/
private theorem resolve_eq (m : Model) (o : Overrides) : resolve m o =
    (checkSchema m.schema).bind fun _ =>
      (presetOf ((o.profile <|> m.profile).getD defaultProfile)).bind fun preset =>
        (leastSeverity (o.minSeverity <|> m.minSeverity) preset).bind fun least =>
          (checkIgnores 0 m.ignores).map fun ignores =>
            { profile := (o.profile <|> m.profile).getD defaultProfile
              minSeverity := least
              parallel := (o.parallel <|> m.parallel).getD true
              rules := m.rules.map (·.enabled)
              ignores := ignores } := by
  cases checked : checkSchema m.schema with
  | error e => rw [resolve_of_refused checked]; rfl
  | ok =>
    rw [resolve_of_known checked]
    simp only [resolve, presetOf, leastSeverity]
    cases presets.lookup ((o.profile <|> m.profile).getD defaultProfile) with
    | none => rfl
    | some preset =>
      cases o.minSeverity <|> m.minSeverity with
      | none => cases checkIgnores 0 m.ignores <;> rfl
      | some text =>
        dsimp only
        cases severityOf text with
        | error => rfl
        | ok => cases checkIgnores 0 m.ignores <;> rfl

/-- Settings that differ for evaluating rules at the same time resolve to the same but for that. -/
theorem resolve_parallel (m : Model) (o : Overrides) (p q : Option Bool) :
    resolve { m with parallel := p } { o with parallel := q } =
      (resolve m o).map fun c => { c with parallel := (q <|> p).getD true } := by
  rw [resolve_eq, resolve_eq]
  dsimp only
  cases checkSchema m.schema with
  | error => rfl
  | ok =>
    cases presetOf ((o.profile <|> m.profile).getD defaultProfile) with
    | error => rfl
    | ok preset =>
      dsimp only [Except.bind]
      cases leastSeverity (o.minSeverity <|> m.minSeverity) preset with
      | error => rfl
      | ok => cases checkIgnores 0 m.ignores <;> rfl

end Settings

namespace Settings

/-- The ignore as a scan takes it. -/
def IgnoreSettings.policy (i : IgnoreSettings) : IgnorePolicy := ⟨i.rule, i.path, i.reference⟩

private theorem checkIgnore_eq_ok_iff {index : Nat} {i : IgnoreSettings} {p : IgnorePolicy} :
    checkIgnore index i = .ok p ↔ p = i.policy ∧ ∀ q ∈ i.policy.patterns, Glob.Readable q := by
  have patterns : i.policy.patterns = i.rule :: i.path.toList := rfl
  rw [patterns, List.forall_mem_cons, checkIgnore, IgnoreSettings.policy, Glob.Readable]
  cases rule : Glob.compile i.rule with
  | error e => simp
  | ok g =>
    cases i.path with
    | none => simp [eq_comm]
    | some path =>
      cases read : Glob.compile path with
      | error e => simp [Glob.Readable, read]
      | ok g' => simp [Glob.Readable, read, eq_comm]

private theorem checkIgnores_eq_ok_iff {index : Nat} {is : List IgnoreSettings}
    {ps : List IgnorePolicy} : checkIgnores index is = .ok ps ↔
      ps = is.map IgnoreSettings.policy ∧ ∀ i ∈ is, ∀ q ∈ i.policy.patterns, Glob.Readable q := by
  induction is generalizing index ps with
  | nil => simp [checkIgnores, eq_comm]
  | cons i is ih =>
    have steps : checkIgnores index (i :: is) = .ok ps ↔ ∃ p, checkIgnore index i = .ok p ∧
        ∃ ps', checkIgnores (index + 1) is = .ok ps' ∧ p :: ps' = ps := by
      rw [checkIgnores]
      cases checkIgnore index i with
      | error e => simp [bind, Except.bind]
      | ok p => cases checkIgnores (index + 1) is <;> simp [bind, Except.bind, pure, Except.pure]
    simp only [steps, checkIgnore_eq_ok_iff, ih, List.map_cons, List.forall_mem_cons]
    constructor
    · rintro ⟨p, ⟨rfl, here⟩, ps', ⟨rfl, later⟩, rfl⟩
      exact ⟨rfl, here, later⟩
    · rintro ⟨rfl, here, later⟩
      exact ⟨_, ⟨rfl, here⟩, _, ⟨rfl, later⟩, rfl⟩

private theorem resolve_eq_ok {m : Model} {o : Overrides} {config : EffectiveConfig}
    (resolved : resolve m o = .ok config) :
    checkSchema m.schema = .ok () ∧ config.profile = (o.profile <|> m.profile).getD defaultProfile ∧
      (∃ preset, presetOf config.profile = .ok preset ∧
        leastSeverity (o.minSeverity <|> m.minSeverity) preset = .ok config.minSeverity) ∧
      config.parallel = (o.parallel <|> m.parallel).getD true ∧
      config.rules = m.rules.map (·.enabled) ∧ checkIgnores 0 m.ignores = .ok config.ignores := by
  rw [resolve_eq] at resolved
  obtain ⟨_, schema, resolved⟩ := bind_eq_ok_iff.mp resolved
  obtain ⟨preset, profile, resolved⟩ := bind_eq_ok_iff.mp resolved
  obtain ⟨least, severity, resolved⟩ := bind_eq_ok_iff.mp resolved
  cases checked : checkIgnores 0 m.ignores with
  | error e => simp [checked, Except.map] at resolved
  | ok ignores =>
    simp only [checked, Except.map, Except.ok.injEq] at resolved
    subst resolved
    exact ⟨schema, rfl, ⟨preset, profile, severity⟩, rfl, rfl, rfl⟩

theorem readable_of_resolve {m : Model} {o : Overrides} {config : EffectiveConfig}
    (resolved : resolve m o = .ok config) :
    ∀ q ∈ config.ignores.flatMap IgnorePolicy.patterns, Glob.Readable q := by
  obtain ⟨-, -, -, -, -, checked⟩ := resolve_eq_ok resolved
  obtain ⟨taken, readable⟩ := checkIgnores_eq_ok_iff.mp checked
  intro q member
  simp only [taken, List.mem_flatMap, List.mem_map] at member
  obtain ⟨p, ⟨i, given, rfl⟩, named⟩ := member
  exact readable i given q named

end Settings

namespace Severity

private theorem ofName?_eq_some_iff {name : String} {s : Severity} :
    ofName? name = some s ↔ s.name = name := by
  constructor
  · intro found
    unfold ofName? at found
    simpa using List.find?_some found
  · rintro rfl
    cases s <;> rfl

/-- The severities and their names. -/
inductive Named : String → Severity → Prop where
  | low : Named "low" .low
  | medium : Named "medium" .medium
  | high : Named "high" .high
  | critical : Named "critical" .critical

private theorem named_iff {word : String} {s : Severity} : Named word s ↔ s.name = word := by
  constructor
  · intro named
    cases named <;> rfl
  · rintro rfl
    cases s with
    | low => exact .low
    | medium => exact .medium
    | high => exact .high
    | critical => exact .critical

/-- The text is a name of the severity up to blanks around it and the case of letters. -/
def WrittenAs (s : Severity) (text : String) : Prop := ∃ word, Named word s ∧ Text.Spells text word

private theorem parse?_eq_some_iff {text : String} {s : Severity} :
    parse? text = some s ↔ s.WrittenAs text := by
  have solid : ∀ c ∈ s.name.toList, Text.isBlank c = false := by
    cases s <;> simp [name, Text.isBlank]
  have small : Text.lower s.name = s.name := by cases s <;> decide
  rw [parse?, ofName?_eq_some_iff, eq_comm, Text.lower_trim_eq_iff solid small]
  simp [WrittenAs, named_iff]

end Severity

namespace Keyed

variable {α β : Type}

theorem find?_map (f : α → β) (t : Keyed α) (key : String) :
    (t.map f).find? key = (t.find? key).map f := by
  ext value
  simp only [find?_eq_some_iff, Option.map_eq_some_iff]
  simp [map, and_comm]

theorem ext_find? {s t : Keyed α} (same : ∀ key, s.find? key = t.find? key) : s = t := by
  have members : ∀ e, e ∈ s.entries ↔ e ∈ t.entries := fun ⟨key, value⟩ => by
    rw [← find?_eq_some_iff, ← find?_eq_some_iff, same]
  have sorted : ∀ t : Keyed α, t.entries.Pairwise (·.1 < ·.1) :=
    fun t => List.pairwise_map.mp t.ordered
  have nodup : ∀ t : Keyed α, t.entries.Nodup := fun t =>
    (sorted t).imp fun less => fun equal => String.lt_irrefl _ (equal ▸ less)
  have entries : s.entries = t.entries :=
    ((List.perm_ext_iff_of_nodup (nodup s) (nodup t)).mpr members).eq_of_pairwise
      (fun _ _ _ _ less more => absurd more (String.lt_asymm less)) (sorted s) (sorted t)
  cases s
  cases t
  simpa using entries

end Keyed

namespace Settings

/-- The three profiles, each with the least severity that it presets. -/
inductive Presets : String → Severity → Prop where
  | strict : Presets "strict" .low
  | balanced : Presets "balanced" .medium
  | critical : Presets "critical" .critical

namespace Model

/-- The settings with what overrides set in place of their own. -/
def overriddenBy (m : Model) (o : Overrides) : Model :=
  { m with
    profile := o.profile <|> m.profile
    minSeverity := o.minSeverity <|> m.minSeverity
    parallel := o.parallel <|> m.parallel }

def profileName (m : Model) : String := m.profile.getD "strict"

def KnowsSchema (m : Model) : Prop := ∀ schema ∈ m.schema, schema = "infraguard.config.v1"

def KnowsProfile (m : Model) : Prop := ∃ least, Presets m.profileName least

def KnowsSeverity (m : Model) : Prop := ∀ text ∈ m.minSeverity, ∃ s : Severity, s.WrittenAs text

/-- Nothing is wrong with the settings. -/
structure Acceptable (m : Model) : Prop where
  schema : m.KnowsSchema
  profile : m.KnowsProfile
  severity : m.KnowsSeverity
  globs : ∀ i ∈ m.ignores, ∀ q ∈ i.policy.patterns, Glob.Readable q

/-- The configuration says what the settings say, and what their profile presets where they say
nothing. -/
structure Determines (m : Model) (c : EffectiveConfig) : Prop where
  profile : c.profile = m.profileName
  given : ∀ text ∈ m.minSeverity, c.minSeverity.WrittenAs text
  preset : m.minSeverity = none → Presets m.profileName c.minSeverity
  parallel : c.parallel = m.parallel.getD true
  rules : ∀ id, c.rules.find? id = (m.rules.find? id).map (·.enabled)
  ignores : c.ignores = m.ignores.map IgnoreSettings.policy

end Model

/-- `e` is what is wrong with the first unreadable glob of the ignore. -/
inductive IgnoreSettings.Faulty (i : IgnoreSettings) : GlobField → GlobError → Prop where
  | rule {e : GlobError} (fault : Glob.compile i.rule = .error e) : Faulty i .rule e
  | path {path : String} {e : GlobError} (readable : Glob.Readable i.rule)
      (given : i.path = some path) (fault : Glob.compile path = .error e) : Faulty i .path e

/-- Why settings do not resolve: the first of the checks that they fail. -/
inductive Model.Refused (m : Model) : ResolveError → Prop where
  | schema {given : String} (stated : m.schema = some given)
      (foreign : given ≠ "infraguard.config.v1") : Refused m (.unsupportedSchema given)
  | profile (schema : m.KnowsSchema) (unknown : ¬ m.KnowsProfile) :
      Refused m (.unknownProfile m.profileName)
  | severity {text : String} (schema : m.KnowsSchema) (profile : m.KnowsProfile)
      (stated : m.minSeverity = some text)
      (unknown : ¬ m.KnowsSeverity) : Refused m (.unknownSeverity text)
  | glob {before after : List IgnoreSettings} {i : IgnoreSettings}
      {field : GlobField} {e : GlobError}
      (schema : m.KnowsSchema) (profile : m.KnowsProfile) (severity : m.KnowsSeverity)
      (split : m.ignores = before ++ i :: after)
      (readable : ∀ j ∈ before, ∀ q ∈ j.policy.patterns, Glob.Readable q)
      (fault : i.Faulty field e) : Refused m (.invalidGlob field before.length e)

private theorem resolve_overriddenBy (m : Model) (o : Overrides) :
    resolve m o = resolve (m.overriddenBy o) {} := by
  rw [resolve_eq, resolve_eq]
  rfl

section Steps

variable {m : Model} {o : Option String} {name : String} {preset s : Severity} {e : ResolveError}

private theorem checkSchema_eq_ok_iff : checkSchema m.schema = .ok () ↔ m.KnowsSchema := by
  unfold checkSchema Model.KnowsSchema schemaId
  cases m.schema with
  | none => simp
  | some given => by_cases known : given = "infraguard.config.v1" <;> simp [known]

private theorem checkSchema_eq_error_iff : checkSchema m.schema = .error e ↔
    ∃ given, m.schema = some given ∧ given ≠ "infraguard.config.v1" ∧
      e = .unsupportedSchema given := by
  unfold checkSchema schemaId
  cases m.schema with
  | none => simp
  | some given =>
    by_cases known : given = "infraguard.config.v1"
    · simp [known]
    · simpa [known] using eq_comm

private theorem mem_presets_iff : (name, preset) ∈ presets ↔ Presets name preset := by
  simp only [presets, List.mem_cons, Prod.mk.injEq, List.not_mem_nil, or_false]
  constructor
  · rintro (⟨rfl, rfl⟩ | ⟨rfl, rfl⟩ | ⟨rfl, rfl⟩)
    · exact .strict
    · exact .balanced
    · exact .critical
  · intro known
    cases known <;> simp

private theorem presetOf_eq_ok_iff : presetOf name = .ok preset ↔ Presets name preset := by
  rw [presetOf, ← mem_presets_iff, ← lookup_eq_some_iff_mem (by decide)]
  cases presets.lookup name <;> simp

private theorem exists_presetOf_iff :
    (∃ preset, presetOf m.profileName = .ok preset) ↔ m.KnowsProfile := by
  simp [presetOf_eq_ok_iff, Model.KnowsProfile]

private theorem presetOf_eq_error_iff : presetOf m.profileName = .error e ↔
    ¬ m.KnowsProfile ∧ e = .unknownProfile m.profileName := by
  rw [← exists_presetOf_iff, presetOf]
  cases presets.lookup m.profileName <;> simp [eq_comm]

private theorem leastSeverity_eq_ok_iff : leastSeverity o preset = .ok s ↔
    (∀ text ∈ o, s.WrittenAs text) ∧ (o = none → preset = s) := by
  cases o with
  | none => simp [leastSeverity]
  | some text =>
    simp only [← Severity.parse?_eq_some_iff, leastSeverity, severityOf]
    cases parsed : Severity.parse? text <;> simp [parsed]

private theorem leastSeverity_eq_error_iff : leastSeverity o preset = .error e ↔
    ∃ text, o = some text ∧ (¬ ∃ s : Severity, s.WrittenAs text) ∧ e = .unknownSeverity text := by
  cases o with
  | none => simp [leastSeverity]
  | some text =>
    simp only [← Severity.parse?_eq_some_iff, leastSeverity, severityOf]
    cases parsed : Severity.parse? text <;> simp [parsed, eq_comm]

private theorem exists_leastSeverity_iff :
    (∃ s, leastSeverity m.minSeverity preset = .ok s) ↔ m.KnowsSeverity := by
  unfold Model.KnowsSeverity
  cases m.minSeverity <;> simp [leastSeverity_eq_ok_iff]

end Steps

section Ignores

variable {index : Nat} {i : IgnoreSettings} {is : List IgnoreSettings} {e : ResolveError}

private theorem checkIgnore_eq_error_iff : checkIgnore index i = .error e ↔
    ∃ field fault, i.Faulty field fault ∧ e = .invalidGlob field index fault := by
  rw [checkIgnore]
  constructor
  · intro refused
    split at refused
    · next _ fault read => exact ⟨.rule, fault, .rule read, (Except.error.inj refused).symm⟩
    · next g fault read given =>
      obtain ⟨path, named, read'⟩ := Option.map_eq_some_iff.mp given
      exact ⟨.path, fault, .path ⟨g, read⟩ named read', (Except.error.inj refused).symm⟩
    · contradiction
  · rintro ⟨field, fault, faulty, rfl⟩
    cases faulty with
    | rule read => simp only [read]
    | path readable given read =>
      obtain ⟨g, read'⟩ := readable
      simp only [read', given, Option.map_some, read]

/-- The first ignore with an unreadable glob is the one that is reported, under its place in the
list. -/
private theorem checkIgnores_eq_error_iff : checkIgnores index is = .error e ↔
    ∃ before i after field fault, is = before ++ i :: after ∧
      (∀ j ∈ before, ∀ q ∈ j.policy.patterns, Glob.Readable q) ∧ i.Faulty field fault ∧
      e = .invalidGlob field (index + before.length) fault := by
  induction is generalizing index with
  | nil => simp [checkIgnores]
  | cons i is ih =>
    have steps : checkIgnores index (i :: is) = .error e ↔ checkIgnore index i = .error e ∨
        ∃ p, checkIgnore index i = .ok p ∧ checkIgnores (index + 1) is = .error e := by
      rw [checkIgnores, bind_eq_error_iff]
      simp only [bind_eq_error_iff, pure, Except.pure, reduceCtorEq, and_false,
        exists_false, or_false]
    simp only [steps, checkIgnore_eq_error_iff, checkIgnore_eq_ok_iff, ih]
    constructor
    · rintro (⟨field, fault, faulty, rfl⟩ | ⟨p, ⟨rfl, here⟩, before, j, after, field, fault, rfl,
        earlier, faulty, rfl⟩)
      · exact ⟨[], i, is, field, fault, rfl, by simp, faulty, rfl⟩
      · refine ⟨i :: before, j, after, field, fault, rfl, List.forall_mem_cons.mpr
          ⟨here, earlier⟩, faulty, ?_⟩
        rw [List.length_cons, Nat.add_right_comm, Nat.add_assoc]
    · rintro ⟨before, j, after, field, fault, split, earlier, faulty, rfl⟩
      rcases before with _ | ⟨b, before⟩
      · obtain ⟨rfl, rfl⟩ := List.cons.inj split
        exact .inl ⟨field, fault, faulty, rfl⟩
      · obtain ⟨rfl, rfl⟩ := List.cons.inj split
        obtain ⟨here, earlier⟩ := List.forall_mem_cons.mp earlier
        refine .inr ⟨_, ⟨rfl, here⟩, before, j, after, field, fault, rfl, earlier, faulty, ?_⟩
        rw [List.length_cons, Nat.add_right_comm, Nat.add_assoc]

end Ignores

private theorem resolve_steps (m : Model) : resolve m {} =
    (do
      let _ ← checkSchema m.schema
      let preset ← presetOf m.profileName
      let least ← leastSeverity m.minSeverity preset
      let ignores ← checkIgnores 0 m.ignores
      .ok ⟨m.profileName, least, m.parallel.getD true, m.rules.map (·.enabled), ignores⟩) := by
  rw [resolve_eq]
  rfl

section Resolve

variable {m : Model} {c : EffectiveConfig} {e : ResolveError}

private theorem resolve_eq_ok_iff : resolve m {} = .ok c ↔ m.Acceptable ∧ m.Determines c := by
  simp only [resolve_steps, bind_eq_ok_iff, leastSeverity_eq_ok_iff,
    checkIgnores_eq_ok_iff, Except.ok.injEq]
  constructor
  · rintro ⟨_, schema, preset, profile, least, ⟨given, preset_eq⟩, ignores, ⟨rfl, globs⟩, rfl⟩
    refine ⟨⟨checkSchema_eq_ok_iff.mp schema, exists_presetOf_iff.mp ⟨preset, profile⟩,
      fun text stated => ⟨least, given text stated⟩, globs⟩, rfl, given, fun unstated => ?_, rfl,
      Keyed.find?_map _ _, rfl⟩
    exact preset_eq unstated ▸ presetOf_eq_ok_iff.mp profile
  · rintro ⟨acceptable, determines⟩
    obtain ⟨preset, profile⟩ := exists_presetOf_iff.mpr acceptable.profile
    refine ⟨(), checkSchema_eq_ok_iff.mpr acceptable.schema, preset, profile, c.minSeverity,
      ⟨determines.given, fun unstated => ?_⟩, _, ⟨rfl, acceptable.globs⟩, ?_⟩
    · have same := presetOf_eq_ok_iff.mpr (determines.preset unstated)
      exact Except.ok.inj (profile.symm.trans same)
    · have rules : m.rules.map (·.enabled) = c.rules :=
        Keyed.ext_find? fun id => (Keyed.find?_map _ _ id).trans (determines.rules id).symm
      rw [← determines.profile, ← determines.parallel, ← determines.ignores, rules]

private theorem resolve_eq_error_iff : resolve m {} = .error e ↔ m.Refused e := by
  rw [resolve_steps]
  constructor
  · intro refused
    rcases bind_eq_error_iff.mp refused with schema | ⟨_, schema, refused⟩
    · obtain ⟨given, stated, foreign, rfl⟩ := checkSchema_eq_error_iff.mp schema
      exact .schema stated foreign
    have schema := checkSchema_eq_ok_iff.mp schema
    rcases bind_eq_error_iff.mp refused with profile | ⟨preset, profile, refused⟩
    · obtain ⟨unknown, rfl⟩ := presetOf_eq_error_iff.mp profile
      exact .profile schema unknown
    have profile := exists_presetOf_iff.mp ⟨preset, profile⟩
    rcases bind_eq_error_iff.mp refused with severity | ⟨least, severity, refused⟩
    · obtain ⟨text, stated, unknown, rfl⟩ := leastSeverity_eq_error_iff.mp severity
      exact .severity schema profile stated fun known => unknown (known text stated)
    have severity := exists_leastSeverity_iff.mp ⟨least, severity⟩
    rcases bind_eq_error_iff.mp refused with globs | ⟨_, _, refused⟩
    · obtain ⟨before, i, after, field, fault, split, readable, faulty, rfl⟩ :=
        checkIgnores_eq_error_iff.mp globs
      rw [Nat.zero_add]
      exact .glob schema profile severity split readable faulty
    · contradiction
  · intro refused
    cases refused with
    | schema stated foreign =>
      exact bind_eq_error_iff.mpr (.inl (checkSchema_eq_error_iff.mpr ⟨_, stated, foreign, rfl⟩))
    | profile schema unknown =>
      refine bind_eq_error_iff.mpr (.inr ⟨(), checkSchema_eq_ok_iff.mpr schema, ?_⟩)
      exact bind_eq_error_iff.mpr (.inl (presetOf_eq_error_iff.mpr ⟨unknown, rfl⟩))
    | severity schema profile stated unknown =>
      obtain ⟨preset, profile⟩ := exists_presetOf_iff.mpr profile
      refine bind_eq_error_iff.mpr (.inr ⟨(), checkSchema_eq_ok_iff.mpr schema, ?_⟩)
      refine bind_eq_error_iff.mpr (.inr ⟨preset, profile, ?_⟩)
      refine bind_eq_error_iff.mpr (.inl (leastSeverity_eq_error_iff.mpr ⟨_, stated, ?_, rfl⟩))
      simpa [Model.KnowsSeverity, stated] using unknown
    | glob schema profile severity split readable faulty =>
      obtain ⟨preset, profile⟩ := exists_presetOf_iff.mpr profile
      have chosen : ∃ least, leastSeverity _ preset = .ok least :=
        exists_leastSeverity_iff.mpr severity
      obtain ⟨least, severity⟩ := chosen
      refine bind_eq_error_iff.mpr (.inr ⟨(), checkSchema_eq_ok_iff.mpr schema, ?_⟩)
      refine bind_eq_error_iff.mpr (.inr ⟨preset, profile, ?_⟩)
      refine bind_eq_error_iff.mpr (.inr ⟨least, severity, ?_⟩)
      refine bind_eq_error_iff.mpr (.inl (checkIgnores_eq_error_iff.mpr ?_))
      exact ⟨_, _, _, _, _, split, readable, faulty, by rw [Nat.zero_add]⟩

private theorem Model.Refused.not_acceptable (refused : m.Refused e) : ¬ m.Acceptable := by
  intro acceptable
  cases refused with
  | schema stated foreign => exact foreign (acceptable.schema _ stated)
  | profile _ unknown => exact unknown acceptable.profile
  | severity _ _ _ unknown => exact unknown acceptable.severity
  | @glob before after i field e _ _ _ split _ faulty =>
    have globs := acceptable.globs i (split ▸ List.mem_append_right _ List.mem_cons_self)
    cases faulty with
    | rule fault => exact Glob.not_readable_of_error fault (globs _ List.mem_cons_self)
    | path _ given fault =>
      refine Glob.not_readable_of_error fault (globs _ (List.mem_cons_of_mem _ ?_))
      exact Option.mem_toList.mpr given

private theorem exists_resolve_iff : (∃ c, resolve m {} = .ok c) ↔ m.Acceptable := by
  constructor
  · rintro ⟨c, resolved⟩
    exact (resolve_eq_ok_iff.mp resolved).1
  · intro acceptable
    cases resolved : resolve m {} with
    | ok c => exact ⟨c, rfl⟩
    | error e => exact absurd acceptable (resolve_eq_error_iff.mp resolved).not_acceptable

/-- Overrides act as settings in the place of others. Settings resolve exactly if they pass every
check, and then to what they say; otherwise the first check that they fail is the error. -/
theorem resolution_exact (m : Model) (o : Overrides) :
    resolve m o = resolve (m.overriddenBy o) {} ∧
    ((∃ c, resolve m o = .ok c) ↔ (m.overriddenBy o).Acceptable) ∧
    (∀ c, resolve m o = .ok c ↔ (m.overriddenBy o).Acceptable ∧ (m.overriddenBy o).Determines c) ∧
    ∀ e, resolve m o = .error e ↔ (m.overriddenBy o).Refused e := by
  have overridden := resolve_overriddenBy m o
  refine ⟨overridden, ?_⟩
  rw [overridden]
  exact ⟨exists_resolve_iff, fun _ => resolve_eq_ok_iff, fun _ => resolve_eq_error_iff⟩

end Resolve

end Settings

end CloudPolicy
