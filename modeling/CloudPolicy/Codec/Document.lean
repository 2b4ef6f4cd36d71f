import CloudPolicy.Report

/-!
States and reports as JSON. Paths are normalised again whenever they are read. A report file is read
as plain data first, so that the last of repeated keys counts; then its schema is looked at, and
only then its shape.
-/

set_option autoImplicit false
set_option relaxedAutoImplicit false

namespace CloudPolicy

open Json

def Json.optionalMember {α : Type} (key : String) (encode : α → Json) :
    Option α → List (String × Json)
  | none => []
  | some a => [(key, encode a)]

def SourcePath.toJson (p : SourcePath) : Json := .string p.text

def SourcePath.decode : Decoder SourcePath := fun depth v =>
  (Decoder.string depth v).map SourcePath.ofText

def Location.toJson (l : Location) : Json :=
  .object ([("filename", l.file.toJson), ("start_line", .integer l.startLine.toNat),
    ("end_line", .integer l.endLine.toNat)] ++ optionalMember "source_prefix" .string l.source)

/-- Only the file has to be given. -/
def Location.decode : Decoder Location :=
  Decoder.record ["filename", "start_line", "end_line", "source_prefix"] fun depth fs => do
    let file ← fs.required "filename" (SourcePath.decode depth)
    let startLine ← fs.withDefault "start_line" 0 (Decoder.word32 depth)
    let endLine ← fs.withDefault "end_line" 0 (Decoder.word32 depth)
    let source ← fs.optional "source_prefix" (Decoder.string depth)
    return ⟨file, startLine, endLine, source⟩

def Severity.toJson (s : Severity) : Json := .string s.name

def Severity.decode : Decoder Severity := Decoder.named Severity.ofName?

def Status.toJson (s : Status) : Json := .string s.name

def Status.decode : Decoder Status := Decoder.named Status.ofName?

def Provider.toJson (p : Provider) : Json := .string p.name

def Provider.decode : Decoder Provider := Decoder.named Provider.ofName?

def SeverityCounts.toJson (c : SeverityCounts) : Json :=
  .object [("low", .integer c.low.toNat), ("medium", .integer c.medium.toNat),
    ("high", .integer c.high.toNat), ("critical", .integer c.critical.toNat)]

def SeverityCounts.decode : Decoder SeverityCounts :=
  Decoder.record ["low", "medium", "high", "critical"] fun depth fs => do
    let low ← fs.required "low" (Decoder.word32 depth)
    let medium ← fs.required "medium" (Decoder.word32 depth)
    let high ← fs.required "high" (Decoder.word32 depth)
    let critical ← fs.required "critical" (Decoder.word32 depth)
    return ⟨low, medium, high, critical⟩

namespace Metadata

/-- An origin with its enclosing ones, each under `parent` of the one it encloses. -/
def chainToJson (o : Origin) : List Origin → Json
  | [] => .object [("range", o.range.toJson), ("reference", .string o.reference),
      ("managed", .bool o.managed)]
  | p :: ps => .object [("range", o.range.toJson), ("reference", .string o.reference),
      ("managed", .bool o.managed), ("parent", chainToJson p ps)]

def toJson (m : Metadata) : Json := chainToJson m.origin m.ancestors

/-- Metadata that is given counts as declared unless it says otherwise. -/
def decode : Decoder Metadata
  | depth + 1, v => do
    let fs ← Decoder.fields? ["range", "reference", "managed", "parent"] v
    let range ← fs.withDefault "range" .nowhere (Location.decode depth)
    let reference ← fs.withDefault "reference" "" (Decoder.string depth)
    let managed ← fs.withDefault "managed" true (Decoder.bool depth)
    let parent ← fs.optional "parent" (decode depth)
    let m : Metadata := ⟨⟨range, reference, managed⟩, []⟩
    return match parent with
      | none => m
      | some p => m.withParent p
  | 0, _ => none

end Metadata

def Provenance.toJson (p : Provenance) : Json := .string p.name

def Provenance.decode : Decoder Provenance := Decoder.named Provenance.ofName?

namespace Managed

variable {α : Type}

def toJson (encode : α → Json) (m : Managed α) : Json :=
  .object [("value", encode m.value), ("metadata", m.metadata.toJson),
    ("provenance", m.provenance.toJson)]

def decodeRecord (d : Decoder α) : Decoder (Managed α) := fun depth v =>
  match v with
  | .object _ =>
    Decoder.record ["value", "metadata", "provenance"] (fun depth fs => do
      let value ← fs.required "value" (d depth)
      let metadata ← fs.withDefault "metadata" .unmanaged (Metadata.decode depth)
      let provenance ← fs.withDefault "provenance" .explicit (Provenance.decode depth)
      return ⟨value, metadata, provenance⟩) depth v
  | _ => none

/-- Either form of a managed scalar; a bare one is stated by the source and has no metadata. -/
def decode (d : Decoder α) : Decoder (Managed α) := fun depth v =>
  if v.readable depth then
    match decodeRecord d depth v with
    | some m => some m
    | none => (d depth v).map (.explicit · .unmanaged)
  else none

end Managed

def flagJson (b : Managed Bool) : Json := b.toJson .bool

def textJson (s : Managed String) : Json := s.toJson .string

def flagField (fs : Fields) (name : String) (depth : Nat) : Option (Managed Bool) :=
  fs.withDefault name (.absent false) (Managed.decode Decoder.bool depth)

def textField (fs : Fields) (name : String) (depth : Nat) : Option (Managed String) :=
  fs.withDefault name (.absent "") (Managed.decode Decoder.string depth)

def metadataField (fs : Fields) (depth : Nat) : Option Metadata :=
  fs.withDefault "metadata" .unmanaged (Metadata.decode depth)

def Versioning.toJson (v : Versioning) : Json :=
  .object [("metadata", v.metadata.toJson), ("enabled", flagJson v.enabled),
    ("mfa_delete", flagJson v.mfaDelete)]

def Versioning.decode : Decoder Versioning :=
  Decoder.record ["metadata", "enabled", "mfa_delete"] fun depth fs => do
    let metadata ← metadataField fs depth
    let enabled ← flagField fs "enabled" depth
    let mfaDelete ← flagField fs "mfa_delete" depth
    return ⟨metadata, enabled, mfaDelete⟩

def Encryption.toJson (e : Encryption) : Json :=
  .object [("metadata", e.metadata.toJson), ("enabled", flagJson e.enabled),
    ("algorithm", textJson e.algorithm), ("kms_key_id", textJson e.kmsKeyId)]

def Encryption.decode : Decoder Encryption :=
  Decoder.record ["metadata", "enabled", "algorithm", "kms_key_id"] fun depth fs => do
    let metadata ← metadataField fs depth
    let enabled ← flagField fs "enabled" depth
    let algorithm ← textField fs "algorithm" depth
    let kmsKeyId ← textField fs "kms_key_id" depth
    return ⟨metadata, enabled, algorithm, kmsKeyId⟩

def Logging.toJson (l : Logging) : Json :=
  .object [("metadata", l.metadata.toJson), ("enabled", flagJson l.enabled),
    ("target_bucket", textJson l.targetBucket)]

def Logging.decode : Decoder Logging :=
  Decoder.record ["metadata", "enabled", "target_bucket"] fun depth fs => do
    let metadata ← metadataField fs depth
    let enabled ← flagField fs "enabled" depth
    let targetBucket ← textField fs "target_bucket" depth
    return ⟨metadata, enabled, targetBucket⟩

def AccessBlock.toJson (b : AccessBlock) : Json :=
  .object [("metadata", b.metadata.toJson), ("bucket", textJson b.bucket),
    ("block_public_acls", flagJson b.blockPublicAcls),
    ("block_public_policy", flagJson b.blockPublicPolicy),
    ("ignore_public_acls", flagJson b.ignorePublicAcls),
    ("restrict_public_buckets", flagJson b.restrictPublicBuckets)]

def AccessBlock.decode : Decoder AccessBlock :=
  Decoder.record ["metadata", "bucket", "block_public_acls", "block_public_policy",
    "ignore_public_acls", "restrict_public_buckets"] fun depth fs => do
    let metadata ← metadataField fs depth
    let bucket ← textField fs "bucket" depth
    let blockPublicAcls ← flagField fs "block_public_acls" depth
    let blockPublicPolicy ← flagField fs "block_public_policy" depth
    let ignorePublicAcls ← flagField fs "ignore_public_acls" depth
    let restrictPublicBuckets ← flagField fs "restrict_public_buckets" depth
    return ⟨metadata, bucket, blockPublicAcls, blockPublicPolicy, ignorePublicAcls,
      restrictPublicBuckets⟩

/-- A bucket without a block of its own says so. -/
def Bucket.toJson (b : Bucket) : Json :=
  .object [("metadata", b.metadata.toJson), ("name", textJson b.name), ("acl", textJson b.acl),
    ("versioning", b.versioning.toJson), ("encryption", b.encryption.toJson),
    ("logging", b.logging.toJson),
    ("public_access_block", (b.accessBlock.map AccessBlock.toJson).getD .null)]

def Bucket.decode : Decoder Bucket :=
  Decoder.record ["metadata", "name", "acl", "versioning", "encryption", "logging",
    "public_access_block"] fun depth fs => do
    let metadata ← metadataField fs depth
    let name ← textField fs "name" depth
    let acl ← textField fs "acl" depth
    let versioning ← fs.withDefault "versioning" {} (Versioning.decode depth)
    let encryption ← fs.withDefault "encryption" {} (Encryption.decode depth)
    let logging ← fs.withDefault "logging" {} (Logging.decode depth)
    let accessBlock ← fs.optional "public_access_block" (AccessBlock.decode depth)
    return ⟨metadata, name, acl, versioning, encryption, logging, accessBlock⟩

def Trail.toJson (t : Trail) : Json :=
  .object [("metadata", t.metadata.toJson), ("name", textJson t.name),
    ("is_multi_region", flagJson t.isMultiRegion),
    ("enable_log_file_validation", flagJson t.logFileValidation),
    ("kms_key_id", textJson t.kmsKeyId), ("is_logging", flagJson t.isLogging)]

def Trail.decode : Decoder Trail :=
  Decoder.record ["metadata", "name", "is_multi_region", "enable_log_file_validation",
    "kms_key_id", "is_logging"] fun depth fs => do
    let metadata ← metadataField fs depth
    let name ← textField fs "name" depth
    let isMultiRegion ← flagField fs "is_multi_region" depth
    let logFileValidation ← flagField fs "enable_log_file_validation" depth
    let kmsKeyId ← textField fs "kms_key_id" depth
    let isLogging ← flagField fs "is_logging" depth
    return ⟨metadata, name, isMultiRegion, logFileValidation, kmsKeyId, isLogging⟩

def Storage.toJson (s : Storage) : Json :=
  .object [("buckets", .array (s.buckets.map Bucket.toJson)),
    ("public_access_blocks", .array (s.accessBlocks.map AccessBlock.toJson))]

def Storage.decode : Decoder Storage :=
  Decoder.record ["buckets", "public_access_blocks"] fun depth fs => do
    let buckets ← fs.withDefault "buckets" [] (Decoder.list Bucket.decode depth)
    let accessBlocks ← fs.withDefault "public_access_blocks" []
      (Decoder.list AccessBlock.decode depth)
    return ⟨buckets, accessBlocks⟩

def trailsToJson (ts : List Trail) : Json :=
  .object [("trails", .array (ts.map Trail.toJson))]

def trailsDecode : Decoder (List Trail) :=
  Decoder.record ["trails"] fun depth fs =>
    fs.withDefault "trails" [] (Decoder.list Trail.decode depth)

namespace State

/-- The resources of each service stand under the name of the provider. -/
def toJson (s : State) : Json :=
  .object [("aws", .object [("s3", s.storage.toJson), ("cloudtrail", trailsToJson s.trails)])]

def decodeProvider : Decoder State :=
  Decoder.record ["s3", "cloudtrail"] fun depth fs => do
    let storage ← fs.withDefault "s3" {} (Storage.decode depth)
    let trails ← fs.withDefault "cloudtrail" [] (trailsDecode depth)
    return ⟨storage, trails⟩

def decode : Decoder State :=
  Decoder.record ["aws"] fun depth fs => fs.withDefault "aws" {} (decodeProvider depth)

def ofDocument? (text : String) : Option State := do
  let v ← Json.parse? text
  decode nestingLimit v

end State

def Timestamp.toJson (t : Timestamp) : Json := .string t.render

def Timestamp.decode : Decoder Timestamp := fun depth v =>
  (Decoder.string depth v).bind Timestamp.parse?

def Tool.toJson (t : Tool) : Json :=
  .object [("name", .string t.name), ("version", .string t.version)]

def Tool.decode : Decoder Tool :=
  Decoder.record ["name", "version"] fun depth fs => do
    let name ← fs.required "name" (Decoder.string depth)
    let version ← fs.required "version" (Decoder.string depth)
    return ⟨name, version⟩

def wordJson (n : UInt32) : Json := .integer n.toNat

def textsMember (key : String) (texts : List String) : List (String × Json) :=
  if texts.isEmpty then [] else [(key, .array (texts.map .string))]

def Summary.toJson (s : Summary) : Json :=
  .object ([("profile", .string s.profile), ("rules_evaluated", wordJson s.rulesEvaluated),
    ("resources_scanned", wordJson s.resourcesScanned), ("passed", wordJson s.passed),
    ("failed", wordJson s.failed), ("ignored", wordJson s.ignored),
    ("failed_by_severity", s.failedBySeverity.toJson)] ++ textsMember "not_run" s.notRun)

def Summary.decode : Decoder Summary :=
  Decoder.record ["profile", "rules_evaluated", "resources_scanned", "passed", "failed", "ignored",
    "failed_by_severity", "not_run"] fun depth fs => do
    let profile ← fs.required "profile" (Decoder.string depth)
    let rulesEvaluated ← fs.required "rules_evaluated" (Decoder.word32 depth)
    let resourcesScanned ← fs.required "resources_scanned" (Decoder.word32 depth)
    let passed ← fs.required "passed" (Decoder.word32 depth)
    let failed ← fs.required "failed" (Decoder.word32 depth)
    let ignored ← fs.required "ignored" (Decoder.word32 depth)
    let failedBySeverity ← fs.required "failed_by_severity" (SeverityCounts.decode depth)
    let notRun ← fs.withDefault "not_run" [] (Decoder.list Decoder.string depth)
    return ⟨profile, rulesEvaluated, resourcesScanned, passed, failed, ignored, failedBySeverity,
      notRun⟩

def Record.toJson (r : Record) : Json :=
  .object ([("rule_id", .string r.ruleId), ("provider", r.provider.toJson),
    ("service", .string r.service), ("severity", r.severity.toJson), ("status", r.status.toJson),
    ("description", .string r.description)] ++ optionalMember "location" Location.toJson r.location
    ++ optionalMember "reference" .string r.reference ++ [("fingerprint", .string r.fingerprint)]
    ++ optionalMember "resolution" .string r.resolution ++ textsMember "links" r.links)

def Record.decode : Decoder Record :=
  Decoder.record ["rule_id", "provider", "service", "severity", "status", "description", "location",
    "reference", "fingerprint", "resolution", "links"] fun depth fs => do
    let ruleId ← fs.required "rule_id" (Decoder.string depth)
    let provider ← fs.required "provider" (Provider.decode depth)
    let service ← fs.required "service" (Decoder.string depth)
    let severity ← fs.required "severity" (Severity.decode depth)
    let status ← fs.required "status" (Status.decode depth)
    let description ← fs.required "description" (Decoder.string depth)
    let location ← fs.optional "location" (Location.decode depth)
    let reference ← fs.optional "reference" (Decoder.string depth)
    let fingerprint ← fs.required "fingerprint" (Decoder.string depth)
    let resolution ← fs.optional "resolution" (Decoder.string depth)
    let links ← fs.withDefault "links" [] (Decoder.list Decoder.string depth)
    return ⟨ruleId, provider, service, severity, status, description, location, reference,
      fingerprint, resolution, links⟩

/-- Why a report file is refused. -/
inductive ReportError where
  | notJson
  | unknownSchema (given : String)
  | wrongShape
  deriving DecidableEq, Repr

def ReportError.message : ReportError → String
  | .notJson => "parse report json"
  | .unknownSchema given => "unknown report schema: " ++ given
  | .wrongShape => "parse infraguard v1 report"

namespace Report

def toJson (r : Report) : Json :=
  .object [("schema", .string r.schema), ("tool", r.tool.toJson),
    ("started_at", r.startedAt.toJson), ("finished_at", r.finishedAt.toJson),
    ("summary", r.summary.toJson), ("results", .array (r.results.map Record.toJson))]

def decode : Decoder Report :=
  Decoder.record ["schema", "tool", "started_at", "finished_at", "summary", "results"]
    fun depth fs => do
    let schema ← fs.required "schema" (Decoder.string depth)
    let tool ← fs.required "tool" (Tool.decode depth)
    let startedAt ← fs.required "started_at" (Timestamp.decode depth)
    let finishedAt ← fs.required "finished_at" (Timestamp.decode depth)
    let summary ← fs.required "summary" (Summary.decode depth)
    let results ← fs.required "results" (Decoder.list Record.decode depth)
    return ⟨schema, tool, startedAt, finishedAt, summary, results⟩

def write (r : Report) : String := r.toJson.pretty

/-- The file text of a report whose times can be written. -/
def serialize? (r : Report) : Option String :=
  if r.startedAt.isWritable && r.finishedAt.isWritable then some r.write else none

/-- The schema that plain data names; empty unless it is a text. -/
def namedSchema (v : Json) : String := ((v.member? "schema").bind Json.text?).getD ""

def read (text : String) : Except ReportError Report :=
  match (Json.parse? text).bind (plain? nestingLimit) with
  | none => .error .notJson
  | some v =>
    if namedSchema v != schemaId then .error (.unknownSchema (namedSchema v))
    else match decode nestingLimit v with
      | some r => .ok r
      | none => .error .wrongShape

end Report

end CloudPolicy
