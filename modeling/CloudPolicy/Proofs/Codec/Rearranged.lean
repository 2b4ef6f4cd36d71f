import CloudPolicy.Proofs.Codec.State
import Mathlib.Logic.Relation

/-!
State documents are read whatever the order of members is and whatever else records hold. A reading
that suits a shape is the same after any edit, and refuses a record that has a field twice.
-/

set_option autoImplicit false
set_option relaxedAutoImplicit false

namespace CloudPolicy

open Json

section

variable {α β : Type} {s : Shape} {n : Nat}

/-- The reading `d` of documents that stand for `s` and may nest `n` arrays and objects. -/
structure Suits (s : Shape) (n : Nat) (d : Json → Option α) : Prop where
  edited : ∀ {v v'}, Edit s n v v' → d v' = d v
  doubled : ∀ {v}, Doubled s v → d v = none

/-- The reading `f` of the fields of `s`, which looks at the values of some keys. -/
structure SuitsFields (s : Shape) (n : Nat) (keys : List String)
    (f : Fields → Option α) : Prop where
  moved : ∀ {fs fs'}, Moved s n fs fs' → f fs' = f fs
  doubled : ∀ {fs key v}, key ∈ keys → fs.lookup key = some v → Doubled
    (s.field key) v → f fs = none

namespace Suits

theorem scalar {d : Json → Option α} (objects : ∀ ms, d (.object ms) = none)
    (arrays : ∀ items, d (.array items) = none) : Suits s n d := by
  constructor
  · intro v v' edit
    cases edit with
    | permute | insert | member => rw [objects, objects]
    | item => rw [arrays, arrays]
  · intro v doubled
    cases doubled with
    | here | member => exact objects _
    | item => exact arrays _

private theorem of_none {d : Json → Option α} (refused : ∀ v, d v = none) : Suits s n d :=
  scalar (fun _ => refused _) fun _ => refused _

theorem map {d : Json → Option α} (suits : Suits s n d) (f : α → β) :
    Suits s n fun v => (d v).map f :=
  ⟨fun edit => by rw [suits.edited edit],
    fun doubled => by rw [suits.doubled doubled, Option.map_none]⟩

theorem nullable {d : Decoder α} (suits : Suits s n (d n)) : Suits s n (Decoder.nullable d n) := by
  have given : ∀ {v}, v ≠ .null → Decoder.nullable d n v = (d n v).map some := by
    intro v given
    cases v <;> first | rfl | contradiction
  constructor
  · intro v v' edit
    obtain ⟨before, after⟩ := edit.ne_null
    rw [given before, given after, suits.edited edit]
  · intro v doubled
    have refused := suits.doubled doubled
    cases doubled <;> rw [given (by simp), refused, Option.map_none]

theorem string : Suits s n (Decoder.string n) := scalar (fun _ => rfl) fun _ => rfl

theorem bool : Suits s n (Decoder.bool n) := scalar (fun _ => rfl) fun _ => rfl

theorem word32 : Suits s n (Decoder.word32 n) := scalar (fun _ => rfl) fun _ => rfl

private theorem named_object {ofName? : String → Option α} {ms : Fields}
    (other : ∀ key, ms ≠ [(key, .null)]) : Decoder.named ofName? n (.object ms) = none := by
  unfold Decoder.named
  split
  · contradiction
  · rename_i same
    exact absurd (Json.object.inj same) (other _)
  · rfl

theorem named (ofName? : String → Option α) : Suits .plain n (Decoder.named ofName? n) := by
  refine ⟨fun {v v'} edit => ?_, fun {v} doubled => absurd doubled (not_doubled_plain v)⟩
  cases edit with
  | @permute _ _ ms ms' same =>
    by_cases alone : ∃ key, ms = [(key, .null)]
    · obtain ⟨key, rfl⟩ := alone
      rw [List.singleton_perm.mp same]
    · have other := not_exists.mp alone
      have other' : ∀ key, ms' ≠ [(key, .null)] := fun key is =>
        other key (List.perm_singleton.mp (is ▸ same))
      rw [named_object other, named_object other']
  | insert before after isRecord => exact absurd rfl isRecord
  | @member _ _ before after key w w' inside =>
    have held : ∀ {w : Json}, w ≠ .null → ∀ k, before ++ (key, w) :: after ≠ [(k, .null)] := by
      intro w given k same
      have member : (key, w) ∈ [(k, Json.null)] := same ▸ by simp
      exact given (Prod.ext_iff.mp (List.mem_singleton.mp member)).2
    obtain ⟨given, given'⟩ := inside.ne_null
    rw [named_object (held given), named_object (held given')]
  | item => cases n <;> rfl

theorem list {d : Decoder α} (each : ∀ n, Suits s n (d n)) :
    Suits (.list s) n (Decoder.list d n) := by
  cases n with
  | zero => exact of_none fun v => by cases v <;> rfl
  | succ n =>
    constructor
    · intro v v' edit
      cases edit with
      | permute | member => rfl
      | insert before after isRecord => exact absurd rfl isRecord
      | item before after inside =>
        have same := (each n).edited inside
        simp only [Decoder.list, List.mapM_append, List.mapM_cons, same]
    · intro v doubled
      cases doubled with
      | here known => exact absurd known List.not_mem_nil
      | member known => exact absurd known List.not_mem_nil
      | @item _ items i w listed inside =>
        obtain ⟨before, after, rfl⟩ := List.append_of_mem (List.mem_of_getElem? listed)
        have refused := (each n).doubled inside
        simp [Decoder.list, refused]

end Suits

namespace SuitsFields

variable {key : String} {keys : List String} {fs fs' : Fields}

theorem pure (a : α) : SuitsFields s n [] fun _ => some a :=
  ⟨fun _ => rfl, fun member => absurd member List.not_mem_nil⟩

theorem cons {f : Fields → Option α} {g : α → Fields → Option β} (first : SuitsFields s n [key] f)
    (rest : ∀ a, SuitsFields s n keys (g a)) :
    SuitsFields s n (key :: keys) fun fs => f fs >>= fun a => g a fs := by
  constructor
  · intro fs fs' moved
    rw [first.moved moved]
    exact congrArg (f fs >>= ·) (funext fun a => (rest a).moved moved)
  · intro fs k v member found doubled
    rcases List.mem_cons.mp member with rfl | later
    · rw [first.doubled List.mem_cons_self found doubled]
      rfl
    · have refused : (fun a => g a fs) = fun _ => none :=
        funext fun a => (rest a).doubled later found doubled
      rw [refused]
      cases f fs <;> rfl

theorem of_lookup {f : Fields → Option α} (read : Option Json → Option α)
    (reads : ∀ fs, f fs = read (fs.lookup key))
    (suits : Suits (s.field key) n fun v => read (some v)) : SuitsFields s n [key] f := by
  constructor
  · intro fs fs' moved
    rw [reads, reads]
    rcases moved key with same | ⟨v, v', found, found', edit⟩
    · rw [same]
    · rw [found, found']
      exact suits.edited edit
  · intro fs k v member found doubled
    obtain rfl := List.mem_singleton.mp member
    rw [reads, found]
    exact suits.doubled doubled

variable {d : Json → Option α} (suits : Suits (s.field key) n d)
include suits

theorem required : SuitsFields s n [key] fun fs => fs.required key d :=
  of_lookup (fun o => o.bind d) (fun _ => rfl) suits

theorem withDefault {default : α} : SuitsFields s n [key] fun fs => fs.withDefault key default d :=
  of_lookup (fun o => o.elim (some default) d) (fun fs => withDefault_eq fs key default d) suits

theorem optional : SuitsFields s n [key] fun fs => fs.optional key d :=
  of_lookup (fun o => o.elim (some none) (Decoder.nullable (fun _ => d) n))
  (fun fs => optional_eq n fs key d)
    (Suits.nullable (d := fun _ => d) suits)

end SuitsFields

section

variable {build : Nat → Fields → Option α} (declared : s.names.Nodup)
include declared

theorem Suits.record_succ (fields : SuitsFields s n s.names (build n)) :
    Suits s (n + 1) (Decoder.record s.names build (n + 1)) := by
  constructor
  · intro v v' edit
    rw [Decoder.record, Decoder.record]
    rcases edit.sameFields with ⟨without, without'⟩ | ⟨fs, fs', found, found', moved⟩
    · rw [without, without']
    · rw [found, found', Option.bind_some, Option.bind_some, fields.moved moved]
  · intro v doubled
    rw [Decoder.record]
    rcases doubled.fields? declared with without | ⟨fs, key, w, found, known, there, inside⟩
    · rw [without, Option.bind_none]
    · rw [found, Option.bind_some, fields.doubled known there inside]

theorem Suits.record (fields : ∀ n, SuitsFields s n s.names (build n)) :
    Suits s n (Decoder.record s.names build n) := by
  cases n with
  | zero => exact of_none fun _ => rfl
  | succ n => exact record_succ declared (fields n)

end

end

namespace Shape

def versioning : Shape :=
  .record [("metadata", .metadata), ("enabled", .managed), ("mfa_delete", .managed)]

def encryption : Shape :=
  .record [("metadata", .metadata), ("enabled", .managed), ("algorithm", .managed),
    ("kms_key_id", .managed)]

def logging : Shape :=
  .record [("metadata", .metadata), ("enabled", .managed), ("target_bucket", .managed)]

def accessBlock : Shape :=
  .record [("metadata", .metadata), ("bucket", .managed), ("block_public_acls", .managed),
    ("block_public_policy", .managed), ("ignore_public_acls", .managed),
    ("restrict_public_buckets", .managed)]

def bucket : Shape :=
  .record [("metadata", .metadata), ("name", .managed), ("acl", .managed),
    ("versioning", versioning),
    ("encryption", encryption), ("logging", logging), ("public_access_block", accessBlock)]

def trail : Shape :=
  .record [("metadata", .metadata), ("name", .managed), ("is_multi_region", .managed),
    ("enable_log_file_validation", .managed), ("kms_key_id", .managed), ("is_logging", .managed)]

def storage : Shape :=
  .record [("buckets", .list bucket), ("public_access_blocks", .list accessBlock)]

def trails : Shape := .record [("trails", .list trail)]

def provider : Shape := .record [("s3", storage), ("cloudtrail", trails)]

def state : Shape := .record [("aws", provider)]

end Shape

variable {n : Nat}

private theorem Location.suits : Suits .location n (decode n) := by
  refine Suits.record (s := .location) (by decide) fun n => ?_
  exact .cons (.required (.map .string _)) fun _ => .cons (.withDefault .word32) fun _ =>
    .cons (.withDefault .word32) fun _ => .cons (.optional .string) fun _ => .pure _

private theorem Metadata.suits : Suits .metadata n (decode n) := by
  -- by induction on the nesting that is allowed: what encloses a value stands inside of its record
  induction n with
  | zero => exact .of_none fun _ => rfl
  | succ n ih =>
    rw [decode_eq_record]
    refine Suits.record_succ (s := .metadata) (by decide) ?_
    refine .cons (.withDefault ?range) fun _ => .cons (.withDefault ?reference) fun _ =>
      .cons (.withDefault ?managed) fun _ => .cons (.optional ?parent) fun _ => .pure _
    exacts [Location.suits, .string, .bool, ih]

section Managed

variable {α : Type} {d : Decoder α} (scalar : ∀ n s, Suits s n (d n))
include scalar

private theorem Managed.suits_record : Suits .managed n (decodeRecord d n) := by
  have whole : Suits .managed n (Decoder.record Shape.managed.names (fun depth fs => do
      let value ← fs.required "value" (d depth)
      let metadata ← fs.withDefault "metadata" .unmanaged (Metadata.decode depth)
      let provenance ← fs.withDefault "provenance" .explicit (Provenance.decode depth)
      return (⟨value, metadata, provenance⟩ : Managed α)) n) := by
    refine Suits.record (by decide) fun n => ?_
    refine .cons (.required ?value) fun _ => .cons (.withDefault ?metadata) fun _ =>
      .cons (.withDefault ?provenance) fun _ => .pure _
    exacts [scalar n _, Metadata.suits, .named Provenance.ofName?]
  constructor
  · intro v v' edit
    have same := whole.edited edit
    cases edit with
    | item => rfl
    | _ => exact same
  · intro v doubled
    have refused := whole.doubled doubled
    cases doubled with
    | item => rfl
    | _ => exact refused

private theorem Managed.suits : Suits .managed n (decode d n) := by
  have record := Managed.suits_record (n := n) scalar
  have bare := scalar n .managed
  constructor
  · intro v v' edit
    rw [decode, decode, edit.readable, record.edited edit, bare.edited edit]
  · intro v doubled
    rw [decode, record.doubled doubled, bare.doubled doubled]
    split <;> rfl

end Managed

private theorem flag_suits :
    Suits .managed n (Managed.decode Decoder.bool n) := Managed.suits fun _ _ => .bool

private theorem text_suits :
    Suits .managed n (Managed.decode Decoder.string n) := Managed.suits fun _ _ => .string

private theorem Versioning.suits : Suits .versioning n (decode n) := by
  refine Suits.record (s := .versioning) (by decide) fun n => ?_
  refine .cons (.withDefault ?metadata) fun _ => .cons (.withDefault ?enabled) fun _ =>
    .cons (.withDefault ?mfaDelete) fun _ => .pure _
  exacts [Metadata.suits, flag_suits, flag_suits]

private theorem Encryption.suits : Suits .encryption n (decode n) := by
  refine Suits.record (s := .encryption) (by decide) fun n => ?_
  refine .cons (.withDefault ?metadata) fun _ => .cons (.withDefault ?enabled) fun _ =>
    .cons (.withDefault ?algorithm) fun _ => .cons (.withDefault ?kmsKeyId) fun _ => .pure _
  exacts [Metadata.suits, flag_suits, text_suits, text_suits]

private theorem Logging.suits : Suits .logging n (decode n) := by
  refine Suits.record (s := .logging) (by decide) fun n => ?_
  refine .cons (.withDefault ?metadata) fun _ => .cons (.withDefault ?enabled) fun _ =>
    .cons (.withDefault ?targetBucket) fun _ => .pure _
  exacts [Metadata.suits, flag_suits, text_suits]

private theorem AccessBlock.suits : Suits .accessBlock n (decode n) := by
  refine Suits.record (s := .accessBlock) (by decide) fun n => ?_
  refine .cons (.withDefault ?metadata) fun _ => .cons (.withDefault ?bucket) fun _ =>
    .cons (.withDefault ?blockPublicAcls) fun _ => .cons (.withDefault ?blockPublicPolicy) fun _ =>
    .cons (.withDefault ?ignorePublicAcls) fun _ =>
    .cons (.withDefault ?restrictPublicBuckets) fun _ => .pure _
  exacts [Metadata.suits, text_suits, flag_suits, flag_suits, flag_suits, flag_suits]

private theorem Bucket.suits : Suits .bucket n (decode n) := by
  refine Suits.record (s := .bucket) (by decide) fun n => ?_
  refine .cons (.withDefault ?metadata) fun _ => .cons (.withDefault ?name) fun _ =>
    .cons (.withDefault ?acl) fun _ => .cons (.withDefault ?versioning) fun _ =>
    .cons (.withDefault ?encryption) fun _ => .cons (.withDefault ?logging) fun _ =>
    .cons (.optional ?accessBlock) fun _ => .pure _
  exacts [Metadata.suits, text_suits, text_suits, Versioning.suits, Encryption.suits, Logging.suits,
    AccessBlock.suits]

private theorem Trail.suits : Suits .trail n (decode n) := by
  refine Suits.record (s := .trail) (by decide) fun n => ?_
  refine .cons (.withDefault ?metadata) fun _ => .cons (.withDefault ?name) fun _ =>
    .cons (.withDefault ?isMultiRegion) fun _ => .cons (.withDefault ?logFileValidation) fun _ =>
    .cons (.withDefault ?kmsKeyId) fun _ => .cons (.withDefault ?isLogging) fun _ => .pure _
  exacts [Metadata.suits, text_suits, flag_suits, flag_suits, text_suits, flag_suits]

private theorem Storage.suits : Suits .storage n (decode n) := by
  refine Suits.record (s := .storage) (by decide) fun n => ?_
  refine .cons (.withDefault ?buckets) fun _ => .cons (.withDefault ?accessBlocks) fun _ => .pure _
  exacts [.list fun _ => Bucket.suits, .list fun _ => AccessBlock.suits]

private theorem trails_suits : Suits .trails n (trailsDecode n) := by
  refine Suits.record (s := .trails) (by decide) fun n => ?_
  refine SuitsFields.withDefault ?_
  exact .list fun _ => Trail.suits

namespace State

private theorem suits_provider : Suits .provider n (decodeProvider n) := by
  refine Suits.record (s := .provider) (by decide) fun n => ?_
  refine .cons (.withDefault ?storage) fun _ => .cons (.withDefault ?trails) fun _ => .pure _
  exacts [Storage.suits, trails_suits]

private theorem suits : Suits .state n (decode n) := by
  refine Suits.record (s := .state) (by decide) fun n => ?_
  refine SuitsFields.withDefault ?_
  exact suits_provider

/-- Edits anywhere in a document leave its state as it is, if it has one; and there is none, before
and after them, if a record has a field twice. -/
theorem edited_documents_agree {text text' : String} {v v' : Json}
    (parsed : Json.parse? text = some v) (parsed' : Json.parse? text' = some v')
    (edited : Relation.ReflTransGen (Edit .state nestingLimit) v v') :
    ofDocument? text' = ofDocument? text ∧
      (Doubled .state v → ofDocument? text = none ∧ ofDocument? text' = none) := by
  have agree : decode nestingLimit v' = decode nestingLimit v := by
    clear parsed'
    induction edited with
    | refl => rfl
    | tail _ edit ih => exact (suits.edited edit).trans ih
  have same : ofDocument? text' = ofDocument? text := by
    simp only [ofDocument?, parsed, parsed', Option.bind_eq_bind, Option.bind_some, agree]
  refine ⟨same, fun doubled => ?_⟩
  have refused : ofDocument? text = none := by
    simp only [ofDocument?, parsed, Option.bind_eq_bind, Option.bind_some, suits.doubled doubled]
  exact ⟨refused, same.trans refused⟩

def bucketDocument (bucket : List (String × Json)) : Json :=
  .object [("aws", .object [("s3", .object [("buckets", .array [.object bucket])])])]

private theorem edit_bucketDocument {ms ms' : List (String × Json)}
    (edit : Edit .bucket (nestingLimit - 4) (.object ms) (.object ms')) :
    Edit .state nestingLimit (bucketDocument ms) (bucketDocument ms') :=
  .member [] [] (.member [] [] (.member [] [] (.item [] [] edit)))

def namedBucket : List (String × Json) :=
  [("metadata", .object [("parent", .object [("reference", .string "module")])]),
    ("name", .object [("value", .string "logs"), ("provenance", .string "default")])]

/-- The bucket and its name in another order, with notes on the name and on the module. -/
def notedBucket : List (String × Json) :=
  [("name", .object [("provenance", .string "default"), ("value", .string "logs"),
    ("note", .array [.null])]),
    ("metadata", .object
      [("parent", .object [("note", .bool true), ("reference", .string "module")])])]

private theorem namedBucket_edited :
    Relation.ReflTransGen (Edit .state nestingLimit) (bucketDocument namedBucket)
      (bucketDocument notedBucket) := by
  have swapped : Edit .bucket (nestingLimit - 4) (.object namedBucket)
      (.object namedBucket.reverse) :=
    .permute (List.reverse_perm _).symm
  have named : Edit .managed (nestingLimit - 5)
      (.object [("value", .string "logs"), ("provenance", .string "default")])
      (.object [("provenance", .string "default"), ("value", .string "logs")]) :=
        .permute (.swap _ _ _)
  have noted : Edit .managed (nestingLimit - 5)
      (.object [("provenance", .string "default"), ("value", .string "logs")])
      (.object [("provenance", .string "default"), ("value", .string "logs"),
        ("note", .array [.null])]) :=
    .insert [_, _] [] (List.cons_ne_nil _ _) (by decide) rfl
  have module : Edit .metadata (nestingLimit - 5)
    (.object [("parent", .object [("reference", .string "module")])])
      (.object [("parent", .object [("note", .bool true), ("reference", .string "module")])]) :=
    .member [] [] (.insert [] [_] (List.cons_ne_nil _ _) (by decide) rfl)
  exact .tail (.tail (.tail (.single (edit_bucketDocument swapped))
    (edit_bucketDocument (.member [] [_] named)))
    (edit_bucketDocument (.member [] [_] noted)))
    (edit_bucketDocument (.member [_] [] module))

def keys? : Json → Option (List String)
  | .object ms => some (ms.map (·.1))
  | _ => none

private theorem doubled_of_keys? {s : Shape} {v : Json} {keys : List String} {key : String}
    (written : keys? v = some keys) (known : key ∈ s.names) (twice : 2 ≤ keys.count key) :
    Doubled s v := by
  cases v with
  | object ms => exact .here known (Option.some.inj written ▸ twice)
  | _ => cases written

theorem edited_documents_agree_noted :
    ∃ s, ofDocument? (bucketDocument namedBucket).pretty = some s ∧
      ofDocument? (bucketDocument notedBucket).pretty = some s ∧
      s.storage.buckets.map (·.name.value) = ["logs"] ∧
      ofDocument? "\x7b\"aws\":\x7b\x7d,\"aws\":\x7b\x7d\x7d" = none := by
  have parsed : Json.parse? (bucketDocument namedBucket).pretty =
      some (bucketDocument namedBucket) :=
    (portable_of_isPortable _ (by decide +kernel)).parse?_pretty
  have parsed' : Json.parse? (bucketDocument notedBucket).pretty =
      some (bucketDocument notedBucket) :=
    (portable_of_isPortable _ (by decide +kernel)).parse?_pretty
  obtain ⟨agree, -⟩ := edited_documents_agree parsed parsed' namedBucket_edited
  have read : ∃ s, decode nestingLimit (bucketDocument namedBucket) = some s ∧
      s.storage.buckets.map (·.name.value) = ["logs"] := ⟨_, rfl, rfl⟩
  obtain ⟨s, decoded, names⟩ := read
  have given : ofDocument? (bucketDocument namedBucket).pretty = some s := by
    rw [ofDocument?, parsed, Option.bind_eq_bind, Option.bind_some, decoded]
  refine ⟨s, given, agree.trans given, names, ?_⟩
  have twice : (Json.parse? "\x7b\"aws\":\x7b\x7d,\"aws\":\x7b\x7d\x7d").bind keys? =
      some ["aws", "aws"] := by
    decide +kernel
  obtain ⟨v, read, keys⟩ := Option.bind_eq_some_iff.mp twice
  have doubled : Doubled .state v := doubled_of_keys? keys List.mem_cons_self (by decide)
  obtain ⟨-, refused⟩ := edited_documents_agree read read .refl
  exact (refused doubled).1

end State

end CloudPolicy
