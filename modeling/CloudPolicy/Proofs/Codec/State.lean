import CloudPolicy.Proofs.Codec.Record

/-!
States are read back from what is written of them. Nothing changes on the way but the paths of
files, which are made from their texts again.
-/

set_option autoImplicit false
set_option relaxedAutoImplicit false

namespace CloudPolicy

open Json

section MapRanges

variable (f : Location → Location)

def Origin.mapRange (o : Origin) : Origin := { o with range := f o.range }

def Metadata.mapRanges (m : Metadata) : Metadata :=
  ⟨m.origin.mapRange f, m.ancestors.map (·.mapRange f)⟩

def Managed.mapRanges {α : Type} (m : Managed α) : Managed α :=
  { m with metadata := m.metadata.mapRanges f }

def Versioning.mapRanges (v : Versioning) : Versioning :=
  ⟨v.metadata.mapRanges f, v.enabled.mapRanges f, v.mfaDelete.mapRanges f⟩

def Encryption.mapRanges (e : Encryption) : Encryption :=
  ⟨e.metadata.mapRanges f, e.enabled.mapRanges f, e.algorithm.mapRanges f, e.kmsKeyId.mapRanges f⟩

def Logging.mapRanges (l : Logging) : Logging :=
  ⟨l.metadata.mapRanges f, l.enabled.mapRanges f, l.targetBucket.mapRanges f⟩

def AccessBlock.mapRanges (b : AccessBlock) : AccessBlock :=
  ⟨b.metadata.mapRanges f, b.bucket.mapRanges f, b.blockPublicAcls.mapRanges f,
    b.blockPublicPolicy.mapRanges f, b.ignorePublicAcls.mapRanges f,
    b.restrictPublicBuckets.mapRanges f⟩

def Bucket.mapRanges (b : Bucket) : Bucket :=
  ⟨b.metadata.mapRanges f, b.name.mapRanges f, b.acl.mapRanges f, b.versioning.mapRanges f,
    b.encryption.mapRanges f, b.logging.mapRanges f, b.accessBlock.map (·.mapRanges f)⟩

def Trail.mapRanges (t : Trail) : Trail :=
  ⟨t.metadata.mapRanges f, t.name.mapRanges f, t.isMultiRegion.mapRanges f,
    t.logFileValidation.mapRanges f, t.kmsKeyId.mapRanges f, t.isLogging.mapRanges f⟩

/-- The state with `f` applied to every range in it, and to nothing else. -/
def State.mapRanges (s : State) : State :=
  ⟨⟨s.storage.buckets.map (·.mapRanges f), s.storage.accessBlocks.map (·.mapRanges f)⟩,
    s.trails.map (·.mapRanges f)⟩

end MapRanges

namespace Metadata

theorem decode_eq_record : decode = Decoder.record ["range", "reference", "managed", "parent"]
    fun depth fs => do
      let range ← fs.withDefault "range" .nowhere (Location.decode depth)
      let reference ← fs.withDefault "reference" "" (Decoder.string depth)
      let managed ← fs.withDefault "managed" true (Decoder.bool depth)
      let parent ← fs.optional "parent" (decode depth)
      let m : Metadata := ⟨⟨range, reference, managed⟩, []⟩
      return match parent with
        | none => m
        | some p => m.withParent p := by
  funext depth v
  cases depth <;> rfl

private theorem chain_readsAs (o : Origin) (os : List Origin) :
    (chainToJson o os).ReadsAs decode ((⟨o, os⟩ : Metadata).mapRanges Location.reread) := by
  have range := o.range.readsAs
  have reference := ReadsAs.string o.reference
  have managed := ReadsAs.bool o.managed
  induction os generalizing o with
  | nil =>
    rw [decode_eq_record]
    apply ReadsAs.record
    · decide
    · exact (List.Sublist.refl ["range", "reference", "managed"]).append
        (List.nil_sublist ["parent"])
    · simp [range.portable, reference.portable, managed.portable]
    · intro depth fits
      rw [range.withDefault fits rfl, reference.withDefault fits rfl, managed.withDefault fits rfl]
      rfl
  | cons p ps ih =>
    have parent := ih p p.range.readsAs (.string p.reference) (.bool p.managed)
    have given : chainToJson p ps ≠ .null := by cases ps <;> simp [chainToJson]
    rw [decode_eq_record]
    apply ReadsAs.record
    · decide
    · exact List.Sublist.refl _
    · simp [range.portable, reference.portable, managed.portable, parent.portable]
    · intro depth fits
      rw [range.withDefault fits rfl, reference.withDefault fits rfl, managed.withDefault fits rfl,
        parent.optional given fits rfl]
      rfl

theorem readsAs (m : Metadata) : m.toJson.ReadsAs decode (m.mapRanges Location.reread) :=
  chain_readsAs m.origin m.ancestors

end Metadata

theorem Provenance.readsAs (p : Provenance) : p.toJson.ReadsAs decode p := by
  apply ReadsAs.named
  cases p <;> decide

namespace Managed

theorem readsAs {α : Type} {encode : α → Json} {d : Decoder α} (plain : ∀ a, (encode a).ReadsAs d a)
    (m : Managed α) : (m.toJson encode).ReadsAs (decode d) (m.mapRanges Location.reread) := by
  have value := plain m.value
  have metadata := m.metadata.readsAs
  have provenance := m.provenance.readsAs
  have asRecord : (m.toJson encode).ReadsAs
      (Decoder.record ["value", "metadata", "provenance"] fun depth fs => do
        let value ← fs.required "value" (d depth)
        let metadata ← fs.withDefault "metadata" .unmanaged (Metadata.decode depth)
        let provenance ← fs.withDefault "provenance" .explicit (Provenance.decode depth)
        return ⟨value, metadata, provenance⟩) (m.mapRanges Location.reread) := by
    apply ReadsAs.record
    · decide
    · exact List.Sublist.refl _
    · simp [value.portable, metadata.portable, provenance.portable]
    · intro depth fits
      rw [value.required fits rfl, metadata.withDefault fits rfl, provenance.withDefault fits rfl]
      rfl
  refine ⟨asRecord.portable, fun depth fits => ?_⟩
  have first : decodeRecord d depth (m.toJson encode) = some (m.mapRanges Location.reread) :=
    asRecord.decoded depth fits
  rw [decode, if_pos (asRecord.portable.readable fits), first]

end Managed

private theorem flag_readsAs (b : Managed Bool) :
    (flagJson b).ReadsAs (Managed.decode Decoder.bool) (b.mapRanges Location.reread) :=
  Managed.readsAs ReadsAs.bool b

private theorem text_readsAs (s : Managed String) :
    (textJson s).ReadsAs (Managed.decode Decoder.string) (s.mapRanges Location.reread) :=
  Managed.readsAs ReadsAs.string s

theorem Versioning.readsAs (v : Versioning) :
    v.toJson.ReadsAs decode (v.mapRanges Location.reread) := by
  have metadata := v.metadata.readsAs
  have enabled := flag_readsAs v.enabled
  have mfaDelete := flag_readsAs v.mfaDelete
  apply ReadsAs.record
  · decide
  · exact List.Sublist.refl _
  · simp [metadata.portable, enabled.portable, mfaDelete.portable]
  · intro depth fits
    rw [metadataField, metadata.withDefault fits rfl, flagField, enabled.withDefault fits rfl,
      flagField, mfaDelete.withDefault fits rfl]
    rfl

theorem Encryption.readsAs (e : Encryption) :
    e.toJson.ReadsAs decode (e.mapRanges Location.reread) := by
  have metadata := e.metadata.readsAs
  have enabled := flag_readsAs e.enabled
  have algorithm := text_readsAs e.algorithm
  have kmsKeyId := text_readsAs e.kmsKeyId
  apply ReadsAs.record
  · decide
  · exact List.Sublist.refl _
  · simp [metadata.portable, enabled.portable, algorithm.portable, kmsKeyId.portable]
  · intro depth fits
    rw [metadataField, metadata.withDefault fits rfl, flagField, enabled.withDefault fits rfl,
      textField, algorithm.withDefault fits rfl, textField, kmsKeyId.withDefault fits rfl]
    rfl

theorem Logging.readsAs (l : Logging) : l.toJson.ReadsAs decode (l.mapRanges Location.reread) := by
  have metadata := l.metadata.readsAs
  have enabled := flag_readsAs l.enabled
  have targetBucket := text_readsAs l.targetBucket
  apply ReadsAs.record
  · decide
  · exact List.Sublist.refl _
  · simp [metadata.portable, enabled.portable, targetBucket.portable]
  · intro depth fits
    rw [metadataField, metadata.withDefault fits rfl, flagField, enabled.withDefault fits rfl,
      textField, targetBucket.withDefault fits rfl]
    rfl

theorem AccessBlock.readsAs (b : AccessBlock) :
    b.toJson.ReadsAs decode (b.mapRanges Location.reread) := by
  have metadata := b.metadata.readsAs
  have bucket := text_readsAs b.bucket
  have blockPublicAcls := flag_readsAs b.blockPublicAcls
  have blockPublicPolicy := flag_readsAs b.blockPublicPolicy
  have ignorePublicAcls := flag_readsAs b.ignorePublicAcls
  have restrictPublicBuckets := flag_readsAs b.restrictPublicBuckets
  apply ReadsAs.record
  · decide
  · exact List.Sublist.refl _
  · simp [metadata.portable, bucket.portable, blockPublicAcls.portable, blockPublicPolicy.portable,
      ignorePublicAcls.portable, restrictPublicBuckets.portable]
  · intro depth fits
    rw [metadataField, metadata.withDefault fits rfl, textField, bucket.withDefault fits rfl,
      flagField, blockPublicAcls.withDefault fits rfl, flagField,
      blockPublicPolicy.withDefault fits rfl,
      flagField, ignorePublicAcls.withDefault fits rfl, flagField,
      restrictPublicBuckets.withDefault fits rfl]
    rfl

theorem Bucket.readsAs (b : Bucket) : b.toJson.ReadsAs decode (b.mapRanges Location.reread) := by
  have metadata := b.metadata.readsAs
  have name := text_readsAs b.name
  have acl := text_readsAs b.acl
  have versioning := b.versioning.readsAs
  have encryption := b.encryption.readsAs
  have logging := b.logging.readsAs
  have accessBlock : ((b.accessBlock.map AccessBlock.toJson).getD .null).Portable := by
    cases b.accessBlock with
    | none => exact .null
    | some p => exact p.readsAs.portable
  apply ReadsAs.record
  · decide
  · exact List.Sublist.refl _
  · simp [metadata.portable, name.portable, acl.portable, versioning.portable, encryption.portable,
      logging.portable, accessBlock]
  · intro depth fits
    rw [metadataField, metadata.withDefault fits rfl, textField, name.withDefault fits rfl,
      textField, acl.withDefault fits rfl, versioning.withDefault fits rfl,
      encryption.withDefault fits rfl, logging.withDefault fits rfl]
    rcases b with ⟨_, _, _, _, _, _, _ | p⟩
    · rfl
    · have given : p.toJson ≠ .null := by simp [AccessBlock.toJson]
      rw [p.readsAs.optional given fits rfl]
      rfl

theorem Trail.readsAs (t : Trail) : t.toJson.ReadsAs decode (t.mapRanges Location.reread) := by
  have metadata := t.metadata.readsAs
  have name := text_readsAs t.name
  have isMultiRegion := flag_readsAs t.isMultiRegion
  have logFileValidation := flag_readsAs t.logFileValidation
  have kmsKeyId := text_readsAs t.kmsKeyId
  have isLogging := flag_readsAs t.isLogging
  apply ReadsAs.record
  · decide
  · exact List.Sublist.refl _
  · simp [metadata.portable, name.portable, isMultiRegion.portable, logFileValidation.portable,
      kmsKeyId.portable, isLogging.portable]
  · intro depth fits
    rw [metadataField, metadata.withDefault fits rfl, textField, name.withDefault fits rfl,
      flagField, isMultiRegion.withDefault fits rfl, flagField,
      logFileValidation.withDefault fits rfl,
      textField, kmsKeyId.withDefault fits rfl, flagField, isLogging.withDefault fits rfl]
    rfl

theorem Storage.readsAs (s : Storage) : s.toJson.ReadsAs decode
    ⟨s.buckets.map (·.mapRanges Location.reread),
      s.accessBlocks.map (·.mapRanges Location.reread)⟩ := by
  have buckets := ReadsAs.list fun b (_ : b ∈ s.buckets) => b.readsAs
  have accessBlocks := ReadsAs.list fun b (_ : b ∈ s.accessBlocks) => b.readsAs
  apply ReadsAs.record
  · decide
  · exact List.Sublist.refl _
  · simp [buckets.portable, accessBlocks.portable]
  · intro depth fits
    rw [buckets.withDefault fits rfl, accessBlocks.withDefault fits rfl]
    rfl

private theorem trails_readsAs (ts : List Trail) :
    (trailsToJson ts).ReadsAs trailsDecode (ts.map (·.mapRanges Location.reread)) := by
  have trails := ReadsAs.list fun t (_ : t ∈ ts) => t.readsAs
  apply ReadsAs.record
  · decide
  · exact List.Sublist.refl _
  · simp [trails.portable]
  · intro depth fits
    exact trails.withDefault fits rfl _

namespace State

theorem readsAs (s : State) : s.toJson.ReadsAs decode (s.mapRanges Location.reread) := by
  have storage := s.storage.readsAs
  have trails := trails_readsAs s.trails
  have provider : (Json.object [("s3", s.storage.toJson),
    ("cloudtrail", trailsToJson s.trails)]).ReadsAs
      decodeProvider (s.mapRanges Location.reread) := by
    apply ReadsAs.record
    · decide
    · exact List.Sublist.refl _
    · simp [storage.portable, trails.portable]
    · intro depth fits
      rw [storage.withDefault fits rfl, trails.withDefault fits rfl]
      rfl
  apply ReadsAs.record
  · decide
  · exact List.Sublist.refl _
  · simp [provider.portable]
  · intro depth fits
    exact provider.withDefault fits rfl _

/-- A state is read back from its document, in whatever text that stands, up to the paths of its
ranges. -/
theorem document_reads_back (s : State) (nests : s.toJson.nesting ≤ nestingLimit) :
    ofDocument? s.toJson.pretty = some (s.mapRanges Location.reread) ∧
      ∀ text, Json.parse? text = some s.toJson →
        ofDocument? text = some (s.mapRanges Location.reread) := by
  have reads := s.readsAs
  have denoted : ∀ text, Json.parse? text = some s.toJson →
      ofDocument? text = some (s.mapRanges Location.reread) := by
    intro text denotes
    rw [ofDocument?, denotes, Option.bind_eq_bind, Option.bind_some]
    exact reads.decoded nestingLimit nests
  exact ⟨denoted _ reads.portable.parse?_pretty, denoted⟩

/-- A bucket with a block of its own, whose flag stands inside of both. The bucket's range ends
before it starts, and a blank is left over at the front of its path. -/
def nested : State :=
  let bucket : Origin := ⟨⟨.ofText "./ a.tf", 9, 3, some "module"⟩, "aws_s3_bucket.a", true⟩
  let block : Origin := ⟨⟨.ofText "b.tf", 4294967295, 0, none⟩, "", false⟩
  ⟨⟨[{ metadata := ⟨bucket, []⟩
       accessBlock := some
         { metadata := ⟨block, [bucket]⟩
           blockPublicAcls := ⟨true, ⟨block, [block, bucket]⟩, .explicit⟩ } }], []⟩, []⟩

theorem document_reads_back_nested :
    nested.toJson.nesting ≤ nestingLimit ∧
      ofDocument? nested.toJson.pretty = some (nested.mapRanges Location.reread) ∧
      (nested.mapRanges Location.reread).storage.buckets.map (·.metadata.range) =
        [⟨⟨"a.tf"⟩, 9, 3, some "module"⟩] := by
  have nests : nested.toJson.nesting ≤ nestingLimit := by decide
  exact ⟨nests, (document_reads_back nested nests).1, by decide⟩

end State

end CloudPolicy
