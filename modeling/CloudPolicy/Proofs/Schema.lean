import CloudPolicy.Proofs.Codec.Report
import CloudPolicy.Proofs.Scan.Selection
import CloudPolicy.Schema

/-!
What a written schema asks of a document, and that every report fits the schema that is published
for reports.
-/

set_option autoImplicit false
set_option relaxedAutoImplicit false

namespace CloudPolicy

namespace Json

inductive OfType : String → Json → Prop where
  | null : OfType "null" .null
  | boolean (b : Bool) : OfType "boolean" (.bool b)
  | integer (n : Int) : OfType "integer" (.integer n)
  | string (s : String) : OfType "string" (.string s)
  | array (items : List Json) : OfType "array" (.array items)
  | object (members : List (String × Json)) : OfType "object" (.object members)

def definition? (root : Json) (name : String) : Option Json :=
  (root.member? "$defs").bind (·.member? name)

/-- The keywords that tell something about a schema and ask for nothing. -/
def remarks : List String := ["$schema", "$defs", "title", "description", "default", "format"]

mutual

/-- `Validates root schema v`: `v` meets all keywords of a schema that stands in the schema document
`root`. -/
inductive Validates (root : Json) : Json → Json → Prop where
  | object {keywords : List (String × Json)} {v : Json}
      (each : ∀ k ∈ keywords, Meets root keywords k.1 k.2 v) : Validates root (.object keywords) v

/-- `Meets root beside key argument v`: `v` meets a keyword that stands beside others. A keyword
that is about arrays, objects or numbers asks nothing of the rest. -/
inductive Meets (root : Json) : List (String × Json) → String → Json → Json → Prop where
  | type {beside : List (String × Json)} {name : String} {v : Json} (fits : OfType name v) :
      Meets root beside "type" (.string name) v
  | types {beside : List (String × Json)} {names : List String} {name : String} {v : Json}
      (member : name ∈ names)
      (fits : OfType name v) : Meets root beside "type" (.array (names.map .string)) v
  | enum {beside : List (String × Json)} {options : List Json} {v : Json} (member : v ∈ options) :
      Meets root beside "enum" (.array options) v
  | minimum {beside : List (String × Json)} {bound : Int} {v : Json}
      (least : ∀ n, v = .integer n → bound ≤ n)
      (whole : ∀ negative digits exponent, v ≠ .decimal negative digits exponent) :
      Meets root beside "minimum" (.integer bound) v
  | items {beside : List (String × Json)} {schema v : Json}
      (each : ∀ vs, v = .array vs → ∀ w ∈ vs, Validates root schema w) :
      Meets root beside "items" schema v
  | properties {beside : List (String × Json)} {fields : List (String × Json)} {v : Json}
      (each : ∀ ms, v = .object ms → ∀ m ∈ ms, ∀ schema, fields.lookup m.1 = some schema →
        Validates root schema m.2) : Meets root beside "properties" (.object fields) v
  | required {beside : List (String × Json)} {keys : List String} {v : Json}
      (present : ∀ ms, v = .object ms → ∀ key ∈ keys, key ∈ ms.map (·.1)) :
      Meets root beside "required" (.array (keys.map .string)) v
  | additionalProperties {beside : List (String × Json)} {schema v : Json}
      (each : ∀ ms, v = .object ms → ∀ m ∈ ms,
        (∀ fields, ("properties", .object fields) ∈ beside → m.1 ∉ fields.map (·.1)) →
        Validates root schema m.2) :
      Meets root beside "additionalProperties" schema v
  | anyOf {beside : List (String × Json)} {options : List Json} {schema v : Json}
      (member : schema ∈ options)
      (fits : Validates root schema v) : Meets root beside "anyOf" (.array options) v
  | reference {beside : List (String × Json)} {name : String} {schema v : Json}
      (plain : name.toList.all Char.isAlphanum = true)
      (defined : definition? root name = some schema)
      (fits : Validates root schema v) : Meets root beside "$ref" (.string ("#/$defs/" ++ name)) v
  | remark {beside : List (String × Json)} {key : String} {argument v : Json}
      (known : key ∈ remarks) : Meets root beside key argument v

end

section

variable {root v argument : Json} {beside beside' : List (String × Json)} {key : String}

private theorem Meets.mono (meets : Meets root beside key argument v) (more : beside ⊆ beside') :
    Meets root beside' key argument v := by
  cases meets with
  | type fits => exact .type fits
  | types member fits => exact .types member fits
  | enum member => exact .enum member
  | minimum least whole => exact .minimum least whole
  | items each => exact .items each
  | properties each => exact .properties each
  | required present => exact .required present
  | additionalProperties each =>
    exact .additionalProperties fun ms same m member fresh =>
      each ms same m member fun fields listed => fresh fields (more listed)
  | anyOf member fits => exact .anyOf member fits
  | reference plain defined fits => exact .reference plain defined fits
  | remark known => exact .remark known

theorem Validates.each {keywords : List (String × Json)}
    (valid : Validates root (.object keywords) v) :
    ∀ k ∈ keywords, Meets root keywords k.1 k.2 v := by
  cases valid with
  | object each => exact each

private theorem Validates.remarked (valid : Validates root (.object beside) v)
    (more : beside ⊆ beside') (rest : ∀ k ∈ beside', k ∈ beside ∨ k.1 ∈ remarks) :
    Validates root (.object beside') v := by
  refine .object fun k member => ?_
  rcases rest k member with listed | known
  · exact (valid.each k listed).mono more
  · exact .remark known

end

end Json

namespace Schema

open Json

private theorem fieldMembers_eq (fields : List (String × Schema)) :
    fieldMembers fields = fields.map fun f => (f.1, .object f.2.members) := by
  induction fields with
  | nil => rfl
  | cons f fields ih => rw [fieldMembers, ih, List.map_cons]

private theorem fieldsAccept_iff {fields : List (String × Schema)} {ms : List (String × Json)} :
    fieldsAccept fields ms = true ↔ ∀ f ∈ fields, ∀ m ∈ ms, m.1 = f.1 → f.2.accepts m.2 = true := by
  induction fields with
  | nil => simp [fieldsAccept]
  | cons f fields ih =>
    obtain ⟨key, schema⟩ := f
    simp only [fieldsAccept, Bool.and_eq_true, ih, List.forall_mem_cons, List.all_eq_true,
      Bool.or_eq_true, bne_iff_ne, Decidable.imp_iff_not_or, ne_eq]

private theorem accepts_record_iff {fields : List (String × Schema)} {required : List String}
    {ms : List (String × Json)} : (record fields required).accepts (.object ms) = true ↔
      (∀ key ∈ required, key ∈ ms.map (·.1)) ∧
        ∀ f ∈ fields, ∀ m ∈ ms, m.1 = f.1 → f.2.accepts m.2 = true := by
  simp only [accepts, Bool.and_eq_true, fieldsAccept_iff, List.all_eq_true, List.any_eq_true,
    beq_iff_eq, List.mem_map]

mutual

/-- Whether all references of a schema lead to what they carry. -/
def Closed (root : Json) : Schema → Prop
  | .list item => item.Closed root
  | .record fields _ => FieldsClosed root fields
  | .dictionary value => value.Closed root
  | .reference name target | .referenceOrNull name target =>
    name.toList.all Char.isAlphanum = true ∧ definition? root name = some (.object target.members) ∧
      target.Closed root
  | .described _ schema => schema.Closed root
  | _ => True

def FieldsClosed (root : Json) : List (String × Schema) → Prop
  | [] => True
  | (_, schema) :: rest => schema.Closed root ∧ FieldsClosed root rest

end

section

variable {root : Json}

private theorem validates_typed {name : String} {v : Json} (fits : OfType name v) :
    Validates root (.object (typed name)) v := by
  refine .object ?_
  simp only [typed, List.forall_mem_singleton]
  exact .type fits

private theorem validates_typedOrNull {name : String} {v : Json}
    (fits : OfType name v ∨ v = .null) : Validates root (.object (typedOrNull name)) v := by
  refine .object ?_
  simp only [typedOrNull, List.forall_mem_singleton]
  have names : Json.array [.string name, .string "null"] = .array ([name, "null"].map .string) :=
    rfl
  rw [names]
  rcases fits with fits | rfl
  · exact .types List.mem_cons_self fits
  · exact .types (by simp) .null

private theorem validates_word {n : Int} (least : 0 ≤ n) :
    Validates root (.object word.members) (.integer n) := by
  refine .object ?_
  simp only [members, typed, unsigned, fromZero, List.cons_append, List.nil_append,
    List.forall_mem_cons]
  refine ⟨.type (.integer n), .remark (by simp [remarks]), .minimum ?_ (by simp), by simp⟩
  rintro m ⟨⟩
  exact least

private theorem validates_record {fields : List (String × Schema)} {required : List String}
    {ms : List (String × Json)} (present : ∀ key ∈ required, key ∈ ms.map (·.1))
    (each : ∀ f ∈ fields, ∀ m ∈ ms, m.1 = f.1 → Validates root (.object f.2.members) m.2) :
    Validates root (.object (record fields required).members) (.object ms) := by
  refine .object ?_
  simp only [members, typed, List.cons_append, List.nil_append, List.forall_mem_cons]
  refine ⟨.type (.object ms), .properties ?_, ?_⟩
  · rintro ms' ⟨⟩ m member schema named
    rw [fieldMembers_eq] at named
    obtain ⟨before, after, split, -⟩ := List.lookup_eq_some_iff.mp named
    have listed : (m.1, schema) ∈ fields.map fun f => (f.1, object f.2.members) := by
      rw [split]
      simp
    obtain ⟨f, field, same⟩ := List.mem_map.mp listed
    obtain ⟨key, rfl⟩ := Prod.mk.inj same
    exact each f field m member key.symm
  · cases required with
    | nil => simp
    | cons key keys =>
      simp only [List.isEmpty_cons, Bool.false_eq_true, if_false, List.forall_mem_singleton, names]
      refine .required ?_
      rintro ms' ⟨⟩
      exact present

private theorem validates_target {name : String} {schema v : Json}
    (plain : name.toList.all Char.isAlphanum = true) (defined : definition? root name = some schema)
    (fits : Validates root schema v) : Validates root (.object (target name)) v := by
  refine .object ?_
  simp only [target, List.forall_mem_singleton]
  exact .reference plain defined fits

mutual

/-- What a schema accepts meets the keywords of its text. -/
private theorem validates_of_accepts (s : Schema) (v : Json) (closed : s.Closed root)
    (accepted : s.accepts v = true) : Validates root (.object s.members) v := by
  match s with
  | .text =>
    cases v with
    | string t => exact validates_typed (.string t)
    | _ => simp [accepts] at accepted
  | .textOrNull =>
    cases v with
    | string t => exact validates_typedOrNull (.inl (.string t))
    | null => exact validates_typedOrNull (.inr rfl)
    | _ => simp [accepts] at accepted
  | .truthOrNull =>
    cases v with
    | bool b => exact validates_typedOrNull (.inl (.boolean b))
    | null => exact validates_typedOrNull (.inr rfl)
    | _ => simp [accepts] at accepted
  | .word =>
    cases v with
    | integer n => exact validates_word (by simpa [accepts] using accepted)
    | _ => simp [accepts] at accepted
  | .wordFromZero =>
    cases v with
    | integer n =>
      have fits : Validates root (.object word.members) (.integer n) :=
        validates_word (by simpa [accepts] using accepted)
      exact fits.remarked (by simp [members, fromZero])
        (by simp [members, typed, unsigned, fromZero, remarks])
    | _ => simp [accepts] at accepted
  | .oneOf options =>
    cases v with
    | string t =>
      have member : t ∈ options := by simpa [accepts] using accepted
      refine .object ?_
      simp only [members, typed, names, List.cons_append, List.nil_append, List.forall_mem_cons]
      exact ⟨.type (.string t), .enum (List.mem_map_of_mem member), by simp⟩
    | _ => simp [accepts] at accepted
  | .list item =>
    cases v with
    | array vs =>
      have each : ∀ w ∈ vs, item.accepts w = true := by simpa [accepts] using accepted
      refine .object ?_
      simp only [members, typed, List.cons_append, List.nil_append, List.forall_mem_cons]
      refine ⟨.type (.array vs), .items ?_, by simp⟩
      rintro ws ⟨⟩ w member
      exact validates_of_accepts item w closed (each w member)
    | _ => simp [accepts] at accepted
  | .record fields required =>
    cases v with
    | object ms =>
      obtain ⟨present, each⟩ := accepts_record_iff.mp accepted
      exact validates_record present fun f field m member key =>
        validates_of_fields fields closed f field m.2 (each f field m member key)
    | _ => simp [accepts] at accepted
  | .dictionary value =>
    cases v with
    | object ms =>
      have each : ∀ m ∈ ms, value.accepts m.2 = true := by simpa [accepts] using accepted
      refine .object ?_
      simp only [members, typed, List.cons_append, List.nil_append, List.forall_mem_cons]
      refine ⟨.type (.object ms), .additionalProperties ?_, .remark (by simp [remarks]), by simp⟩
      rintro ms' ⟨⟩ m member -
      exact validates_of_accepts value m.2 closed (each m member)
    | _ => simp [accepts] at accepted
  | .reference name target =>
    obtain ⟨plain, defined, inner⟩ := closed
    have fits := validates_of_accepts target v inner (by simpa [accepts] using accepted)
    exact validates_target plain defined fits
  | .referenceOrNull name target =>
    obtain ⟨plain, defined, inner⟩ := closed
    refine .object ?_
    simp only [members, List.forall_mem_singleton]
    by_cases none : v = .null
    · exact .anyOf (List.mem_cons_of_mem _ List.mem_cons_self) (none ▸ validates_typed .null)
    · have accepted' : target.accepts v = true := by
        cases v with
        | null => contradiction
        | _ => simpa [accepts] using accepted
      have fits := validates_of_accepts target v inner accepted'
      exact .anyOf List.mem_cons_self (validates_target plain defined fits)
  | .described description schema =>
    have inner := validates_of_accepts schema v closed (by simpa [accepts] using accepted)
    exact inner.remarked (List.subset_cons_self _ _)
      (List.forall_mem_cons.mpr ⟨.inr (by simp [remarks]), fun _ listed => .inl listed⟩)

private theorem validates_of_fields (fields : List (String × Schema))
    (closed : FieldsClosed root fields) :
    ∀ f ∈ fields, ∀ v, f.2.accepts v = true → Validates root (.object f.2.members) v := by
  match fields with
  | [] => simp
  | (key, s) :: rest =>
    obtain ⟨here, later⟩ := closed
    rw [List.forall_mem_cons]
    exact ⟨fun v accepted => validates_of_accepts s v here accepted, validates_of_fields rest later⟩

end

end

end Schema

/-- A schema document asks no more than its schema. -/
private theorem SchemaDocument.validates {d : SchemaDocument} {v : Json}
    (closed : d.schema.Closed d.toJson) (accepted : d.schema.accepts v = true) :
    Json.Validates d.toJson d.toJson v := by
  refine (Schema.validates_of_accepts d.schema v closed accepted).remarked ?_ ?_
  · intro k listed
    simp [listed]
  · intro k listed
    simp only [List.mem_append, List.mem_cons, List.not_mem_nil, or_false] at listed
    rcases listed with ((rfl | rfl) | listed) | rfl
    · exact .inr (by simp [Json.remarks])
    · exact .inr (by simp [Json.remarks])
    · exact .inl listed
    · exact .inr (by simp [Json.remarks])

open Json

namespace Schema

/-- The key of a member is declared, with a type that the member's value has. -/
def Declares (fields : List (String × Schema)) (m : String × Json) : Prop :=
  ∃ s, fields.lookup m.1 = some s ∧ s.accepts m.2 = true

section

variable {fields : List (String × Schema)}

private theorem accepts_record {required : List String} {ms : List (String × Json)}
    (nodup : (fields.map (·.1)).Nodup) (present : ∀ key ∈ required, key ∈ ms.map (·.1))
    (each : ∀ m ∈ ms, Declares fields m) :
    (record fields required).accepts (.object ms) = true := by
  refine accepts_record_iff.mpr ⟨present, fun f field m member key => ?_⟩
  obtain ⟨s, found, fits⟩ := each m member
  obtain ⟨before, after, split, -⟩ := List.lookup_eq_some_iff.mp found
  have listed : (m.1, s) ∈ fields := by
    rw [split]
    simp
  rw [List.inj_on_of_nodup_map nodup field listed key.symm]
  exact fits

private theorem declares_optionalMember {α : Type} {encode : α → Json} {o : Option α} {key : String}
    {s : Schema} (found : fields.lookup key = some s)
    (each : ∀ a ∈ o, s.accepts (encode a) = true) :
    ∀ m ∈ optionalMember key encode o, Declares fields m := by
  cases o with
  | none => simp [optionalMember]
  | some a => simpa [optionalMember] using ⟨s, found, each a rfl⟩

end

private theorem accepts_texts (texts : List String) :
    (list text).accepts (.array (texts.map .string)) = true := by
  simp [accepts]

private theorem accepts_wordJson (n : UInt32) : word.accepts (wordJson n) = true := by
  simp [accepts, wordJson]

private theorem declares_textsMember {fields : List (String × Schema)} {key : String}
    {texts : List String} {s : Schema} (found : fields.lookup key = some s)
    (fits : ∀ ts : List String, s.accepts (.array (ts.map .string)) = true) :
    ∀ m ∈ textsMember key texts, Declares fields m := by
  rw [textsMember_eq]
  exact declares_optionalMember found fun ts _ => fits ts

namespace Report

private theorem accepts_severity (s : CloudPolicy.Severity) : severity.accepts s.toJson = true := by
  cases s <;> decide

private theorem accepts_status (s : CloudPolicy.Status) : status.accepts s.toJson = true := by
  cases s <;> decide

private theorem accepts_provider (p : CloudPolicy.Provider) : provider.accepts p.toJson = true := by
  cases p
  decide

private theorem accepts_range (l : Location) : range.accepts l.toJson = true := by
  have startLine := accepts_wordJson l.startLine
  have endLine := accepts_wordJson l.endLine
  refine accepts_record (by decide) (by simp) (List.forall_mem_append.mpr ⟨?_, ?_⟩)
  · simp only [List.forall_mem_cons]
    exact ⟨⟨_, rfl, rfl⟩, ⟨_, rfl, startLine⟩, ⟨_, rfl, endLine⟩, by simp⟩
  · exact declares_optionalMember rfl fun _ _ => rfl

private theorem accepts_severityCounts (c : SeverityCounts) :
    severityCounts.accepts c.toJson = true := by
  refine accepts_record (by decide) (by simp) ?_
  simp only [List.forall_mem_cons]
  exact ⟨⟨_, rfl, accepts_wordJson _⟩, ⟨_, rfl, accepts_wordJson _⟩, ⟨_, rfl, accepts_wordJson _⟩,
    ⟨_, rfl, accepts_wordJson _⟩, by simp⟩

private theorem accepts_tool (t : Tool) : tool.accepts t.toJson = true := by
  refine accepts_record (by decide) (by simp) ?_
  simp only [List.forall_mem_cons]
  exact ⟨⟨_, rfl, rfl⟩, ⟨_, rfl, rfl⟩, by simp⟩

private theorem accepts_summary (s : Summary) : summary.accepts s.toJson = true := by
  have counts := accepts_severityCounts s.failedBySeverity
  refine accepts_record (by decide) (by simp) (List.forall_mem_append.mpr ⟨?_, ?_⟩)
  · simp only [List.forall_mem_cons]
    exact ⟨⟨_, rfl, rfl⟩, ⟨_, rfl, accepts_wordJson _⟩, ⟨_, rfl, accepts_wordJson _⟩,
      ⟨_, rfl, accepts_wordJson _⟩, ⟨_, rfl, accepts_wordJson _⟩, ⟨_, rfl, accepts_wordJson _⟩,
      ⟨_, rfl, counts⟩, by simp⟩
  · exact declares_textsMember rfl accepts_texts

private theorem accepts_resultRecord (r : Record) : record.accepts r.toJson = true := by
  refine accepts_record (by decide) (by simp) ?_
  simp only [List.forall_mem_append]
  refine ⟨⟨⟨⟨⟨?_, ?_⟩, ?_⟩, ?_⟩, ?_⟩, ?_⟩
  · simp only [List.forall_mem_cons]
    exact ⟨⟨_, rfl, rfl⟩, ⟨_, rfl, accepts_provider r.provider⟩, ⟨_, rfl, rfl⟩,
      ⟨_, rfl, accepts_severity r.severity⟩, ⟨_, rfl, accepts_status r.status⟩,
      ⟨_, rfl, rfl⟩, by simp⟩
  · exact declares_optionalMember rfl fun l _ => accepts_range l
  · exact declares_optionalMember rfl fun _ _ => rfl
  · exact List.forall_mem_singleton.mpr ⟨_, rfl, rfl⟩
  · exact declares_optionalMember rfl fun _ _ => rfl
  · exact declares_textsMember rfl accepts_texts

theorem accepts_report (r : CloudPolicy.Report) : report.accepts r.toJson = true := by
  have results : (list (reference "ResultRecord" record)).accepts
      (.array (r.results.map Record.toJson)) = true := by
    simp only [accepts, List.all_map, List.all_eq_true, Function.comp_apply]
    exact fun x _ => accepts_resultRecord x
  refine accepts_record (by decide) (by simp) ?_
  simp only [List.forall_mem_cons]
  exact ⟨⟨_, rfl, rfl⟩, ⟨_, rfl, accepts_tool _⟩, ⟨_, rfl, rfl⟩, ⟨_, rfl, rfl⟩,
    ⟨_, rfl, accepts_summary _⟩, ⟨_, rfl, results⟩, by simp⟩

/-! ### The text of the schema -/

private theorem defined : ∀ e ∈ document.definitions, e.1.toList.all Char.isAlphanum = true ∧
    document.toJson.definition? e.1 = some (.object e.2.members) := by
  simp only [document, List.forall_mem_cons]
  exact ⟨⟨rfl, rfl⟩, ⟨rfl, rfl⟩, ⟨rfl, rfl⟩, ⟨rfl, rfl⟩, ⟨rfl, rfl⟩, ⟨rfl, rfl⟩, ⟨rfl, rfl⟩,
    ⟨rfl, rfl⟩, ⟨rfl, rfl⟩, by simp⟩

private theorem closed_reference {name : String} {s : Schema}
    (listed : (name, s) ∈ document.definitions) (inner : s.Closed document.toJson) :
    (reference name s).Closed document.toJson := by
  obtain ⟨plain, there⟩ := defined _ listed
  exact ⟨plain, there, inner⟩

private theorem closed_range : range.Closed document.toJson :=
  ⟨trivial, closed_reference (by simp [document]) trivial, trivial, trivial, trivial⟩

private theorem closed_resultRecord : record.Closed document.toJson :=
  ⟨trivial, trivial, trivial, closed_reference (by simp [document]) closed_range,
    closed_reference (by simp [document]) trivial, trivial, trivial, trivial, trivial,
    closed_reference (by simp [document]) trivial, closed_reference (by simp [document]) trivial,
    trivial⟩

private theorem closed_severityCounts : severityCounts.Closed document.toJson :=
  ⟨trivial, trivial, trivial, trivial, trivial⟩

private theorem closed_summary : summary.Closed document.toJson :=
  ⟨trivial, closed_reference (by simp [document]) closed_severityCounts, trivial,
    trivial, trivial, trivial, trivial, trivial, trivial⟩

private theorem closed_report : report.Closed document.toJson :=
  ⟨trivial, closed_reference (by simp [document]) closed_resultRecord, trivial, trivial,
    closed_reference (by simp [document]) closed_summary,
    closed_reference (by simp [document]) ⟨trivial, trivial, trivial⟩, trivial⟩

private theorem parse?_write : Json.parse? document.write = some document.toJson := by
  have portable : document.toJson.Portable := portable_of_isPortable _ (by decide +kernel)
  refine portable.parse?_pretty_append "\n" ?_ ?_
  · intro c hc
    obtain rfl : c = '\n' := by simpa using hc
    rfl
  · simp [EndsNumber, Text.NoDigit]

end Report

end Schema

namespace Report

/-- Every report of a scan between two readings of a clock fits: its file can be written, and what
stands in it meets every keyword of the published schema. -/
theorem reports_fit_schema (d : DomainReport) {s f : Timestamp} (started : s.UtcReading)
    (finished : f.UtcReading) :
    ∃ text v schema, (ofDomain d s f).serialize? = some text ∧ Json.parse? text = some v ∧
      Json.parse? Schema.Report.document.write = some schema ∧ Json.Validates schema schema v ∧
      Schema.Report.report.accepts v = true := by
  have fits := Schema.Report.accepts_report (ofDomain d s f)
  refine ⟨_, _, _, ?_, (ofDomain d s f).portable.parse?_pretty, Schema.Report.parse?_write,
    SchemaDocument.validates Schema.Report.closed_report fits, fits⟩
  have writable : ((ofDomain d s f).startedAt.isWritable &&
    (ofDomain d s f).finishedAt.isWritable) = true := by
    rw [Bool.and_eq_true]
    exact ⟨started.writable, finished.writable⟩
  rw [serialize?, if_pos writable]
  rfl

/-- A pass, a finding that is ignored, a fault that asks for cancellation, and a rule that is left
out. -/
def mixedRegistry : Registry :=
  let place : Metadata := .declared (.ofLines (.ofText "a.tf") 1 1) ""
  let last : Rule := Evaluation.fixedRule "last" (.findings [])
  ⟨[Evaluation.fixedRule "pass" (.findings []), Evaluation.fixedRule "find"
    (.findings [⟨"known", place⟩]),
    { last with check := fun _ => ⟨.fault (.text "gone"), true⟩ }, last]⟩

theorem reports_fit_schema_mixed :
    ∃ d flag,
      Scan.run mixedRegistry {} { ignores := [⟨"*", none, none⟩] } true false = .ok (d, flag) ∧
      d.notRun = ["aws-demo-last"] ∧ (∀ s : Status, ∃ r ∈ d.results, r.status = s) ∧
      ∃ text v schema, (ofDomain d .epoch lastMoment).serialize? = some text ∧
        Json.parse? text = some v ∧
        Json.parse? Schema.Report.document.write = some schema ∧
        Json.Validates schema schema v := by
  have unsorted : ∀ rs : List Result, (∀ s : Status, ∃ r ∈ rs, r.status = s) →
      ∀ s : Status, ∃ r ∈ Results.sortCanonical rs, r.status = s := by
    intro rs each s
    obtain ⟨r, member, same⟩ := each s
    exact ⟨r, List.mem_mergeSort.mpr member, same⟩
  refine ⟨_, _, rfl, rfl, unsorted _ ?_, ?_⟩
  · intro s
    cases s <;> decide +kernel
  · obtain ⟨text, v, schema, written, read, published, valid, -⟩ :=
      reports_fit_schema _ Timestamp.utcReading_epoch utcReading_lastMoment
    exact ⟨text, v, schema, written, read, published, valid⟩

end Report

end CloudPolicy
