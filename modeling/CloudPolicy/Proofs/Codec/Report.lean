import CloudPolicy.Proofs.Codec.Record
import CloudPolicy.Proofs.Time

/-!
Report files are read back. What a record leaves out is read as left out, its path is made from its
text again, and whatever a file gave can be written to a file that gives it once more.
-/

set_option autoImplicit false
set_option relaxedAutoImplicit false

namespace CloudPolicy

open Json

theorem Timestamp.readsAs {t : Timestamp} (proper : t.Proper) (writable : t.isWritable = true) :
    t.toJson.ReadsAs decode t := by
  refine ⟨.string _, fun depth _ => ?_⟩
  rw [decode, toJson, Decoder.string, Option.bind_some, parse?_render proper writable]

private theorem Timestamp.proper_of_decode {t : Timestamp} {depth : Nat} {v : Json}
    (read : decode depth v = some t) : t.Proper ∧ t.isWritable = true := by
  obtain ⟨s, -, parsed⟩ := Option.bind_eq_some_iff.mp read
  exact proper_of_parse? parsed

theorem Tool.readsAs (t : Tool) : t.toJson.ReadsAs decode t := by
  have name := ReadsAs.string t.name
  have version := ReadsAs.string t.version
  apply ReadsAs.record
  · decide
  · exact List.Sublist.refl _
  · simp [name.portable, version.portable]
  · intro depth fits
    rw [name.required fits rfl, version.required fits rfl]
    rfl

section Texts

def someTexts (texts : List String) : Option (List String) :=
  if texts.isEmpty then none else some texts

theorem textsMember_eq (key : String) (texts : List String) :
    textsMember key texts =
      optionalMember key (fun ts => .array (ts.map .string)) (someTexts texts) :=
  listMember_eq key (fun ts => .array (ts.map .string)) texts

private theorem getD_someTexts (texts : List String) : ((someTexts texts).map id).getD [] = texts :=
  getD_nonempty? texts

private theorem texts_readsAs (texts : List String) :
    ReadsAs (.array (texts.map .string)) (Decoder.list Decoder.string) (id texts) := by
  have each : ReadsAs (.array (texts.map .string)) (Decoder.list Decoder.string) (texts.map id) :=
    ReadsAs.list fun s _ => .string s
  rwa [List.map_id] at each

end Texts

theorem Summary.readsAs (s : Summary) : s.toJson.ReadsAs decode s := by
  have profile := ReadsAs.string s.profile
  have rulesEvaluated := ReadsAs.word32 s.rulesEvaluated
  have resourcesScanned := ReadsAs.word32 s.resourcesScanned
  have passed := ReadsAs.word32 s.passed
  have failed := ReadsAs.word32 s.failed
  have ignored := ReadsAs.word32 s.ignored
  have failedBySeverity := s.failedBySeverity.readsAs
  have notRun := fun ts (_ : ts ∈ someTexts s.notRun) => texts_readsAs ts
  rw [toJson, textsMember_eq]
  apply ReadsAs.record
  · decide
  · rw [List.map_append]
    exact (List.Sublist.refl ["profile", "rules_evaluated", "resources_scanned", "passed", "failed",
      "ignored", "failed_by_severity"]).append (keys_optionalMember _)
  · have last := forall_optionalMember "not_run" fun ts hts => (notRun ts hts).portable
    simpa [or_imp, forall_and, wordJson, profile.portable, rulesEvaluated.portable,
      resourcesScanned.portable, passed.portable, failed.portable, ignored.portable,
      failedBySeverity.portable] using last
  · intro depth fits
    rw [profile.required fits rfl, rulesEvaluated.required fits rfl,
      resourcesScanned.required fits rfl, passed.required fits rfl, failed.required fits rfl,
      ignored.required fits rfl, failedBySeverity.required fits rfl,
      withDefault_of_lookup_map notRun fits (by simp [List.lookup_cons]) [],
      getD_someTexts]
    rfl

def Record.reread (r : Record) : Record := { r with location := r.location.map Location.reread }

theorem Record.readsAs (r : Record) : r.toJson.ReadsAs decode r.reread := by
  have ruleId := ReadsAs.string r.ruleId
  have provider := r.provider.readsAs
  have service := ReadsAs.string r.service
  have severity := r.severity.readsAs
  have status := r.status.readsAs
  have description := ReadsAs.string r.description
  have location := fun l (_ : l ∈ r.location) => l.readsAs
  have reference : ∀ s ∈ r.reference, ReadsAs (.string s) Decoder.string (id s) :=
    fun s _ => .string s
  have fingerprint := ReadsAs.string r.fingerprint
  have resolution : ∀ s ∈ r.resolution, ReadsAs (.string s) Decoder.string (id s) :=
    fun s _ => .string s
  have links := fun ts (_ : ts ∈ someTexts r.links) => texts_readsAs ts
  rw [toJson, textsMember_eq]
  apply ReadsAs.record
  · decide
  · simp only [List.map_append]
    exact (((((List.Sublist.refl ["rule_id", "provider", "service", "severity", "status",
      "description"]).append (keys_optionalMember _)).append (keys_optionalMember _)).append
      (List.Sublist.refl ["fingerprint"])).append (keys_optionalMember _)).append
      (keys_optionalMember _)
  · have locations := forall_optionalMember "location" fun l hl => (location l hl).portable
    have references := forall_optionalMember "reference" fun s hs => (reference s hs).portable
    have resolutions := forall_optionalMember "resolution"
      fun s hs => (resolution s hs).portable
    have last := forall_optionalMember "links" fun ts hts => (links ts hts).portable
    simp only [List.mem_append, or_imp, forall_and]
    refine ⟨⟨⟨⟨⟨?_, locations⟩, references⟩, ?_⟩, resolutions⟩, last⟩
    · simp [ruleId.portable, provider.portable, service.portable, severity.portable,
        status.portable, description.portable]
    · simp [fingerprint.portable]
  · intro depth fits
    rw [ruleId.required fits rfl, provider.required fits rfl, service.required fits rfl,
      severity.required fits rfl, status.required fits rfl, description.required fits rfl,
      optional_of_lookup_map location (by simp [Location.toJson]) fits
        (by simp [List.lookup_cons, List.lookup_append]),
      optional_of_lookup_map reference (by simp) fits
        (by simp [List.lookup_cons, List.lookup_append]),
      fingerprint.required fits (by simp [List.lookup_cons, List.lookup_append]),
      optional_of_lookup_map resolution (by simp) fits
        (by simp [List.lookup_cons, List.lookup_append]),
      withDefault_of_lookup_map links fits
        (by simp [List.lookup_cons, List.lookup_append]) [],
      getD_someTexts]
    simp [reread]

section Nesting

private theorem nesting_string_le (s : String) (n : Nat) : (string s).nesting ≤ n := Nat.zero_le n

private theorem nesting_texts (texts : List String) :
    (Json.array (texts.map .string)).nesting ≤ 1 := by
  rw [nesting_array_le]
  intro v hv
  obtain ⟨s, -, rfl⟩ := List.mem_map.mp hv
  exact Nat.le_refl 0

theorem Location.nesting_toJson (l : Location) : l.toJson.nesting ≤ 1 := by
  have source := forall_optionalMember "source_prefix" (p := (nesting · ≤ 0))
    fun s (_ : s ∈ l.source) => nesting_string_le s 0
  rw [toJson, nesting_object_le]
  simpa [or_imp, forall_and, SourcePath.toJson, nesting] using source

theorem Summary.nesting_toJson (s : Summary) : s.toJson.nesting ≤ 2 := by
  have notRun := forall_optionalMember "not_run" (p := (nesting · ≤ 1))
    fun texts (_ : texts ∈ someTexts s.notRun) => nesting_texts texts
  rw [toJson, textsMember_eq, nesting_object_le]
  simpa [or_imp, forall_and, wordJson, SeverityCounts.toJson, nesting,
    nestingOfMembers] using notRun

theorem Record.nesting_toJson (r : Record) : r.toJson.nesting ≤ 2 := by
  have location := forall_optionalMember "location" (p := (nesting · ≤ 1))
    fun l (_ : l ∈ r.location) => l.nesting_toJson
  have reference := forall_optionalMember "reference" (p := (nesting · ≤ 1))
    fun s (_ : s ∈ r.reference) => nesting_string_le s 1
  have resolution := forall_optionalMember "resolution" (p := (nesting · ≤ 1))
    fun s (_ : s ∈ r.resolution) => nesting_string_le s 1
  have links := forall_optionalMember "links" (p := (nesting · ≤ 1))
    fun texts (_ : texts ∈ someTexts r.links) => nesting_texts texts
  rw [toJson, textsMember_eq, nesting_object_le]
  simp only [List.mem_append, or_imp, forall_and]
  refine ⟨⟨⟨⟨⟨?_, location⟩, reference⟩, ?_⟩, resolution⟩, links⟩
  · simp [Provider.toJson, Severity.toJson, Status.toJson, nesting]
  · simp [nesting]

end Nesting

namespace Report

/-- The report with the paths of all locations made again. -/
def reread (r : Report) : Report := { r with results := r.results.map Record.reread }

/-- The times of the report are real, and the notation has room for them. -/
structure Timed (r : Report) : Prop where
  started : r.startedAt.Proper ∧ r.startedAt.isWritable = true
  finished : r.finishedAt.Proper ∧ r.finishedAt.isWritable = true

theorem portable (r : Report) : r.toJson.Portable := by
  have tool := r.tool.readsAs
  have summary := r.summary.readsAs
  have results := ReadsAs.list fun x (_ : x ∈ r.results) => x.readsAs
  have text := Portable.string
  apply Portable.object
  · simp
  · simp [Timestamp.toJson, text, tool.portable, summary.portable, results.portable]

theorem readsAs {r : Report} (timed : r.Timed) : r.toJson.ReadsAs decode r.reread := by
  have schema := ReadsAs.string r.schema
  have tool := r.tool.readsAs
  have startedAt := Timestamp.readsAs timed.started.1 timed.started.2
  have finishedAt := Timestamp.readsAs timed.finished.1 timed.finished.2
  have summary := r.summary.readsAs
  have results := ReadsAs.list fun x (_ : x ∈ r.results) => x.readsAs
  apply ReadsAs.record
  · decide
  · exact List.Sublist.refl _
  · simp [schema.portable, tool.portable, startedAt.portable, finishedAt.portable, summary.portable,
      results.portable]
  · intro depth fits
    rw [schema.required fits rfl, tool.required fits rfl, startedAt.required fits rfl,
      finishedAt.required fits rfl, summary.required fits rfl, results.required fits rfl]
    rfl

theorem nesting_toJson (r : Report) : r.toJson.nesting ≤ 4 := by
  have tool : r.tool.toJson.nesting ≤ 1 := by simp [Tool.toJson, nesting, nestingOfMembers]
  have summary := r.summary.nesting_toJson
  have records : (array (r.results.map Record.toJson)).nesting ≤ 3 := by
    rw [nesting_array_le]
    intro v hv
    obtain ⟨x, -, rfl⟩ := List.mem_map.mp hv
    exact x.nesting_toJson
  rw [toJson, nesting_object_le]
  simp only [List.forall_mem_cons]
  refine ⟨nesting_string_le _ _, by omega, nesting_string_le _ _, nesting_string_le _ _, by omega,
    records, ?_⟩
  simp

theorem serialize?_eq {r : Report} (started : r.startedAt.isWritable = true)
    (finished : r.finishedAt.isWritable = true) : r.serialize? = some r.write := by
  rw [serialize?, started, finished]
  rfl

theorem plain?_write (r : Report) :
    (Json.parse? r.write).bind (plain? nestingLimit) = some r.toJson := by
  have nests : r.toJson.nesting ≤ nestingLimit := Nat.le_trans r.nesting_toJson (by decide)
  rw [write, r.portable.parse?_pretty, Option.bind_some, r.portable.plain?_eq nests]

private theorem decoded_object {depth : Nat} {v : Json} {r : Report}
    (decoded : decode depth v = some r) (named : namedSchema v = schemaId) :
    r.schema = schemaId ∧ r.Timed := by
  cases depth with
  | zero => contradiction
  | succ depth =>
    cases v with
    | object ms =>
      obtain ⟨fs, fields, built⟩ := Option.bind_eq_some_iff.mp decoded
      simp only [Option.bind_eq_bind, Option.bind_eq_some_iff, Fields.required] at built
      obtain ⟨schema, ⟨v, there, isText⟩, _, -, started, ⟨_, -, startedAt⟩, finished,
        ⟨_, -, finishedAt⟩, _, -, _, -, whole⟩ := built
      cases whole
      refine ⟨?_, Timestamp.proper_of_decode startedAt, Timestamp.proper_of_decode finishedAt⟩
      simp only [Decoder.fields?] at fields
      split at fields
      · cases fields
        rw [lookup_filter (by decide), eq_string_of_decode isText] at there
        simpa [namedSchema, Json.member?, there, Json.text?] using named
      · contradiction
    | array items => exact absurd named (by simp [namedSchema, Json.member?, schemaId])
    | _ => contradiction

/-- What is read from a file names the schema of reports, and its times are real. -/
private theorem timed_of_read {text : String} {r : Report} (given : read text = .ok r) :
    r.schema = schemaId ∧ r.Timed := by
  unfold read at given
  split at given
  · contradiction
  · split at given
    · contradiction
    · rename_i v _ named
      split at given
      · rename_i r' decoded
        cases given
        exact decoded_object decoded (by simpa using named)
      · contradiction

/-- The report can be written, and its text gives it back, up to the paths of its locations and with
the same exit code. -/
def ReadsBack (r : Report) : Prop :=
  ∃ text, r.serialize? = some text ∧ read text = .ok r.reread ∧ r.reread.exitCode = r.exitCode

private theorem readsBack {r : Report} (schema : r.schema = schemaId) (timed : r.Timed) :
    r.ReadsBack := by
  have reads := readsAs timed
  have nests : r.toJson.nesting ≤ nestingLimit := Nat.le_trans r.nesting_toJson (by decide)
  have named : namedSchema r.toJson = schemaId := schema
  refine ⟨r.write, serialize?_eq timed.started.2 timed.finished.2, ?_, rfl⟩
  rw [read, r.plain?_write]
  simp only [named, bne_self_eq_false, Bool.false_eq_true, if_false, reads.decoded _ nests]

/-- Every report of a scan between two readings of a clock is read back from its file, and so is
every report that a file gave. -/
theorem file_reads_back :
    (∀ (d : DomainReport) (started finished : Timestamp), started.UtcReading → finished.UtcReading →
      (ofDomain d started finished).ReadsBack) ∧
    ∀ (text : String) (r : Report), read text = .ok r → r.ReadsBack := by
  constructor
  · intro d started finished hs hf
    exact readsBack rfl ⟨⟨hs.proper, hs.writable⟩, hf.proper, hf.writable⟩
  · intro text r given
    obtain ⟨schema, timed⟩ := timed_of_read given
    exact readsBack schema timed

/-- One failure, in a file with a blank left over at the front of its path. -/
def leftOver : DomainReport :=
  let rule : Definition :=
    ⟨.aws, "s3", "enable-versioning", "Versioning", "Loss", "Turn it on", "", ["https://a"], .high⟩
  let place : Metadata := .declared (.ofLines (.ofText "./ a.tf") 3 9) "aws_s3_bucket.a"
  .ofResults "strict" [⟨.failed, rule, "off", some place, false⟩] [] 1 1

def lastMoment : Timestamp := ⟨9999, 12, 31, 23, 59, 59, 999999999, 0⟩

theorem utcReading_lastMoment : lastMoment.UtcReading :=
  ⟨⟨by decide, by decide, by decide, by decide, by decide⟩, rfl, by decide⟩

theorem file_reads_back_left_over :
    (Timestamp.epoch.UtcReading ∧ lastMoment.UtcReading) ∧
      (ofDomain leftOver .epoch lastMoment).ReadsBack ∧
      (ofDomain leftOver .epoch lastMoment).reread.ReadsBack ∧
      (ofDomain leftOver .epoch lastMoment).results.map (·.location.map (·.file.text)) =
        [some " a.tf"] ∧
      (ofDomain leftOver .epoch lastMoment).reread.results.map (·.location.map (·.file.text)) =
        [some "a.tf"] := by
  have started := Timestamp.utcReading_epoch
  have finished := utcReading_lastMoment
  have fresh := file_reads_back.1 leftOver .epoch lastMoment started finished
  obtain ⟨text, -, given, -⟩ := id fresh
  have again := file_reads_back.2 text _ given
  exact ⟨⟨started, finished⟩, fresh, again, rfl, rfl⟩

end Report

end CloudPolicy
