import CloudPolicy.Json

/-!
Published schemas of documents: what a schema accepts and how it is written. A reference carries the
schema that it names, so that acceptance needs no look-up.
-/

set_option autoImplicit false
set_option relaxedAutoImplicit false

namespace CloudPolicy

inductive Schema where
  | text
  | textOrNull
  | truthOrNull
  /-- A number that is not negative. -/
  | word
  /-- The same, with zero for what is left out. -/
  | wordFromZero
  /-- One of some names. -/
  | oneOf (names : List String)
  | list (item : Schema)
  /-- A record, of whose fields some have to be present. -/
  | record (fields : List (String × Schema)) (required : List String)
  /-- An object with any keys; empty if it is left out. -/
  | dictionary (value : Schema)
  | reference (name : String) (target : Schema)
  | referenceOrNull (name : String) (target : Schema)
  | described (description : String) (schema : Schema)

/-- A schema with the title of its documents and the schemas that it refers to by name. -/
structure SchemaDocument where
  title : String
  schema : Schema
  definitions : List (String × Schema)

namespace Schema

def typed (name : String) : List (String × Json) := [("type", .string name)]

def typedOrNull (name : String) : List (String × Json) :=
  [("type", .array [.string name, .string "null"])]

def names (items : List String) : Json := .array (items.map .string)

def target (name : String) : List (String × Json) := [("$ref", .string ("#/$defs/" ++ name))]

def unsigned : List (String × Json) := [("format", .string "uint32")]

def fromZero : List (String × Json) := [("minimum", .integer 0)]

mutual

def members : Schema → List (String × Json)
  | .text => typed "string"
  | .textOrNull => typedOrNull "string"
  | .truthOrNull => typedOrNull "boolean"
  | .word => typed "integer" ++ unsigned ++ fromZero
  | .wordFromZero => typed "integer" ++ unsigned ++ [("default", .integer 0)] ++ fromZero
  | .oneOf options => typed "string" ++ [("enum", names options)]
  | .list item => typed "array" ++ [("items", .object item.members)]
  | .record fields required =>
    typed "object" ++ [("properties", .object (fieldMembers fields))]
      ++ if required.isEmpty then [] else [("required", names required)]
  | .dictionary value =>
    typed "object" ++ [("additionalProperties", .object value.members), ("default", .object [])]
  | .reference name _ => target name
  | .referenceOrNull name _ =>
    [("anyOf", .array [.object (target name), .object (typed "null")])]
  | .described description schema => ("description", .string description) :: schema.members

def fieldMembers : List (String × Schema) → List (String × Json)
  | [] => []
  | (key, s) :: rest => (key, .object s.members) :: fieldMembers rest

end

mutual

def accepts : Schema → Json → Bool
  | .text, .string _ => true
  | .textOrNull, .string _ => true
  | .textOrNull, .null => true
  | .truthOrNull, .bool _ => true
  | .truthOrNull, .null => true
  | .word, .integer n => 0 ≤ n
  | .wordFromZero, .integer n => 0 ≤ n
  | .oneOf options, .string s => options.contains s
  | .list item, .array items => items.all fun v => item.accepts v
  | .record fields required, .object ms =>
    (required.all fun key => ms.any (·.1 == key)) && fieldsAccept fields ms
  | .dictionary value, .object ms => ms.all fun m => value.accepts m.2
  | .reference _ target, v => target.accepts v
  | .referenceOrNull _ _, .null => true
  | .referenceOrNull _ target, v => target.accepts v
  | .described _ schema, v => schema.accepts v
  | _, _ => false

/-- Whether whatever members have the fields' keys fit the fields. -/
def fieldsAccept : List (String × Schema) → List (String × Json) → Bool
  | [], _ => true
  | (key, s) :: rest, ms =>
    (ms.all fun m => m.1 != key || s.accepts m.2) && fieldsAccept rest ms

end

end Schema

namespace SchemaDocument

def toJson (d : SchemaDocument) : Json :=
  .object ([("$schema", .string "https://json-schema.org/draft/2020-12/schema"),
    ("title", .string d.title)] ++ d.schema.members
    ++ [("$defs", .object (d.definitions.map fun e => (e.1, .object e.2.members)))])

def write (d : SchemaDocument) : String := d.toJson.pretty ++ "\n"

end SchemaDocument

namespace Schema.Report

def provider : Schema :=
  .described "Cloud provider a rule and a state subtree belong to." (.oneOf ["aws"])

def path : Schema :=
  .described ("Canonical path of the source file a value was declared in.\n\n" ++
    "Normalization is deterministic so that locations compare and sort the same way " ++
    "on every host:\n- always forward slashes (`/`)\n- no leading `./`\n" ++
    "- never empty (`.` stands for \"no file\")")
    .text

def range : Schema :=
  .described ("A line range inside one source file.\n\n" ++
    "Lines are 1-based and inclusive. A zero `start_line` means the producer had no line\n" ++
    "information for the value (for example, an implicit default).")
    (.record [("end_line", .wordFromZero),
      ("filename", .reference "SourcePath" path),
      ("source_prefix", .described
        ("Where the file came from when it is not part of the scanned tree " ++
        "(module source, registry).") .textOrNull),
      ("start_line", .wordFromZero)] ["filename"])

def severity : Schema :=
  .described ("Importance of a rule, independent of whether it passed.\n\n" ++
    "Declaration order is the severity order: `Low < Medium < High < Critical`.")
    (.oneOf ["low", "medium", "high", "critical"])

def severityCounts : Schema :=
  .described "Failed-result counts per severity."
    (.record [("critical", .word), ("high", .word), ("low", .word), ("medium", .word)]
      ["low", "medium", "high", "critical"])

def status : Schema :=
  .described "Terminal status of one evaluation result." (.oneOf ["passed", "failed", "ignored"])

def record : Schema :=
  .described "One evaluation result as it appears in a serialized report."
    (.record [("description", .text),
      ("fingerprint", .described "Stable identifier intended for dedup and trending." .text),
      ("links", .list .text),
      ("location", .referenceOrNull "Range" range),
      ("provider", .reference "Provider" provider),
      ("reference", .described "Logical reference of the flagged value (e.g. `aws_s3_bucket.logs`)."
        .textOrNull),
      ("resolution", .textOrNull),
      ("rule_id", .text),
      ("service", .text),
      ("severity", .reference "Severity" severity),
      ("status", .reference "Status" status)]
      ["rule_id", "provider", "service", "severity", "status", "description", "fingerprint"])

def summary : Schema :=
  .described "Scan-level summary payload."
    (.record [("failed", .word),
      ("failed_by_severity", .described "Failed results broken down by rule severity."
        (.reference "SeverityCounts" severityCounts)),
      ("ignored", .word),
      ("not_run", .described "Long ids of rules skipped because the scan was cancelled."
        (.list .text)),
      ("passed", .word),
      ("profile", .text),
      ("resources_scanned", .word),
      ("rules_evaluated", .word)]
      ["profile", "rules_evaluated", "resources_scanned", "passed", "failed", "ignored",
        "failed_by_severity"])

def tool : Schema :=
  .record [("name", .text), ("version", .text)] ["name", "version"]

def report : Schema :=
  .described "The serialized outcome of one scan."
    (.record [("finished_at", .text),
      ("results", .list (.reference "ResultRecord" record)),
      ("schema", .described "Versioned schema identifier for the envelope shape." .text),
      ("started_at", .text),
      ("summary", .reference "ScanSummary" summary),
      ("tool", .reference "ToolMeta" tool)]
      ["schema", "tool", "started_at", "finished_at", "summary", "results"])

def document : SchemaDocument :=
  { title := "ScanReport"
    schema := report
    definitions := [("Provider", provider), ("Range", range), ("ResultRecord", record),
      ("ScanSummary", summary), ("Severity", severity), ("SeverityCounts", severityCounts),
      ("SourcePath", path), ("Status", status), ("ToolMeta", tool)] }

end Schema.Report

namespace Schema.Settings

def ignore : Schema :=
  .record [("path", .described "Glob over the source file of the flagged value." .textOrNull),
    ("reference", .described
      "Logical reference of the flagged resource, e.g. `aws_s3_bucket.archive`." .textOrNull),
    ("rule", .described "Glob over rule long ids, e.g. `aws-s3-*`." .text)] ["rule"]

def rule : Schema :=
  .record [("enabled", .described
    "`true` runs the rule even below `min_severity`; `false` never runs it." .truthOrNull)] []

def settings : Schema :=
  .described ("`infraguard.toml` schema v1.\n\n" ++
    "Everything is optional; an empty file resolves to the `strict` profile.")
    (.record [("ignore", .described "Accepted risks. Matching failures are reported as ignored."
        (.list (.reference "IgnoreConfig" ignore))),
      ("min_severity", .described
        "Rules below this severity are not evaluated: `low`, `medium`, `high`, `critical`."
        .textOrNull),
      ("parallel", .described "Evaluate rules on a worker pool." .truthOrNull),
      ("profile", .described "`strict` (default), `balanced`, or `critical`." .textOrNull),
      ("rules", .described "Map of rule long id -> config."
        (.dictionary (.reference "RuleConfig" rule))),
      ("schema", .described "Optional schema string for tooling (`infraguard.config.v1`)."
        .textOrNull)] [])

def document : SchemaDocument :=
  { title := "InfraguardConfigV1"
    schema := settings
    definitions := [("IgnoreConfig", ignore), ("RuleConfig", rule)] }

end Schema.Settings

end CloudPolicy
