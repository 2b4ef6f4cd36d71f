import CloudPolicy.Proofs.Codec.Record

/-!
The two forms of a managed scalar. A document stands for one if it is the bare scalar, or an object
that has the scalar under one key and metadata and provenance under others, at most once each.
-/

set_option autoImplicit false
set_option relaxedAutoImplicit false

namespace CloudPolicy

open Json

namespace Json

/-- The values of an object under a key. -/
def valuesAt (key : String) (ms : List (String × Json)) : List Json :=
  (ms.filter (·.1 == key)).map (·.2)

section ValuesAt

variable {key : String} {ms : Fields} {names : List String} {v : Json}

private theorem mem_valuesAt : v ∈ valuesAt key ms ↔ (key, v) ∈ ms := by
  simp [valuesAt]

private theorem head?_valuesAt (key : String) (ms : Fields) :
    (valuesAt key ms).head? = ms.lookup key := by
  induction ms with
  | nil => rfl
  | cons m ms ih =>
    obtain ⟨k, v⟩ := m
    by_cases same : k = key
    · subst same
      simp [valuesAt]
    · have other : (key == k) = false := by simpa using Ne.symm same
      rw [List.lookup_cons, other, ← ih]
      simp [valuesAt, same]

private theorem length_valuesAt (key : String) (ms : Fields) :
    (valuesAt key ms).length = (ms.map (·.1)).count key := by
  rw [valuesAt, List.length_map, List.count_eq_length_filter, List.filter_map, List.length_map]
  rfl

private theorem valuesAt_of_nodup (nodup : (ms.map (·.1)).Nodup) (key : String) :
    valuesAt key ms = (ms.lookup key).toList := by
  have single : (valuesAt key ms).length ≤ 1 := by
    rw [length_valuesAt]
    exact List.nodup_iff_count_le_one.mp nodup key
  rw [← head?_valuesAt]
  generalize valuesAt key ms = vs at single
  rcases vs with _ | ⟨v, _ | ⟨w, vs⟩⟩
  · rfl
  · rfl
  · simp at single

private theorem nodup_known_iff : ((ms.filter fun m => names.contains m.1).map (·.1)).Nodup ↔
    ∀ key ∈ names, (valuesAt key ms).length ≤ 1 := by
  have known : (ms.filter fun m => names.contains m.1).map (·.1) =
      (ms.map (·.1)).filter names.contains := by
    rw [List.filter_map]
    rfl
  simp only [known, List.nodup_iff_count_le_one, length_valuesAt]
  refine forall_congr' fun key => ?_
  by_cases listed : key ∈ names
  · simp [List.count_filter, listed]
  · have absent : key ∉ (ms.map (·.1)).filter names.contains := fun member => by
      simp [listed] at member
    simp [List.count_eq_zero.mpr absent, listed]

private theorem valuesAt_known (listed : key ∈ names) (ms : Fields) :
    valuesAt key (ms.filter fun m => names.contains m.1) = valuesAt key ms := by
  have kept : ∀ m : String × Json, (m.1 == key && names.contains m.1) = (m.1 == key) := by
    intro m
    by_cases same : m.1 = key
    · simpa [same] using listed
    · simp [same]
  simp only [valuesAt, List.filter_filter, kept]

end ValuesAt

/-- `GivenOr default d vs a`: the values of a field are none, and it stands for the default, or one
that is read. -/
inductive GivenOr {α : Type} (default : α) (d : Json → Option α) : List Json → α → Prop
  | absent : GivenOr default d [] default
  | given {v : Json} {a : α} (read : d v = some a) : GivenOr default d [v] a

theorem GivenOr.length_le {α : Type} {default a : α} {d : Json → Option α} {vs : List Json}
    (given : GivenOr default d vs a) : vs.length ≤ 1 := by
  cases given <;> simp

theorem GivenOr.read {α : Type} {default a : α} {d : Json → Option α} {vs : List Json}
    (given : GivenOr default d vs a) {v : Json} (member : v ∈ vs) : d v = some a := by
  cases given with
  | absent => contradiction
  | given read => exact List.mem_singleton.mp member ▸ read

section Fields

variable {α : Type} {fs : Fields} {key : String} {d : Json → Option α} {default a : α}

private theorem required_eq_some_iff :
    fs.required key d = some a ↔ ∃ v, (fs.lookup key).toList = [v] ∧ d v = some a := by
  rw [Fields.required]
  cases fs.lookup key <;> simp

theorem withDefault_eq_some_iff :
    fs.withDefault key default d = some a ↔ GivenOr default d (fs.lookup key).toList a := by
  rw [withDefault_eq]
  cases fs.lookup key with
  | none =>
    constructor
    · intro same
      obtain rfl : default = a := Option.some.inj same
      exact .absent
    · rintro ⟨⟩
      rfl
  | some v =>
    constructor
    · exact .given
    · rintro (_ | read)
      exact read

end Fields

end Json

/-- What a document gives for a field of a record. -/
def Shape.valuesOf (s : Shape) (key : String) : Json → List Json
  | .object ms => valuesAt key ms
  | .array items => valuesAt key (s.names.zip items)
  | _ => []

theorem toList_lookup_of_fields? {s : Shape} {v : Json} {fs : Fields} (declared : s.names.Nodup)
    (fields : Decoder.fields? s.names v = some fs) {key : String} (known : key ∈ s.names) :
    (fs.lookup key).toList = s.valuesOf key v := by
  cases v with
  | object ms =>
    obtain ⟨nodup, same⟩ := Option.ite_none_right_eq_some.mp fields
    obtain rfl := Option.some.inj same
    rw [← valuesAt_of_nodup nodup, valuesAt_known known]
    rfl
  | array items =>
    obtain ⟨-, same⟩ := Option.ite_none_right_eq_some.mp fields
    obtain rfl := Option.some.inj same
    exact (valuesAt_of_nodup ((keys_zip _ _).nodup declared) key).symm
  | _ => contradiction

namespace Json

/-- Every part of the document has a value. -/
inductive Valued : Json → Prop
  | null : Valued .null
  | bool (b : Bool) : Valued (.bool b)
  | integer (n : Int) : Valued (.integer n)
  | decimal (negative : Bool) (digits : Nat) (exponent : Int) :
      Valued (.decimal negative digits exponent)
  | string (s : String) : Valued (.string s)
  | array {items : List Json} (inside : ∀ v ∈ items, Valued v) : Valued (.array items)
  | object {members : List (String × Json)} (inside : ∀ m ∈ members, Valued m.2) :
      Valued (.object members)

private theorem not_valued_unreadable : ¬ Valued .unreadable := by
  intro valued
  cases valued

private theorem readable_iff {n : Nat} {v : Json} :
    v.readable n = true ↔ v.Valued ∧ v.nesting ≤ n := by
  induction n generalizing v with
  | zero =>
    cases v with
    | array items => exact iff_of_false Bool.false_ne_true fun both =>
      not_nesting_array_le_zero items both.2
    | object members => exact iff_of_false Bool.false_ne_true fun both =>
      not_nesting_object_le_zero members both.2
    | unreadable => simp [readable, not_valued_unreadable]
    | _ => exact iff_of_true rfl ⟨by constructor, Nat.le_refl 0⟩
  | succ n ih =>
    cases v with
    | array items =>
      rw [readable, List.all_eq_true, nesting_array_le]
      constructor
      · intro each
        exact ⟨.array fun v member => (ih.mp (each v member)).1, fun v member =>
          (ih.mp (each v member)).2⟩
      · rintro ⟨valued, nests⟩ v member
        cases valued with
        | array inside => exact ih.mpr ⟨inside v member, nests v member⟩
    | object members =>
      rw [readable, List.all_eq_true, nesting_object_le]
      constructor
      · intro each
        exact ⟨.object fun m member => (ih.mp (each m member)).1, fun m member =>
          (ih.mp (each m member)).2⟩
      · rintro ⟨valued, nests⟩ m member
        cases valued with
        | object inside => exact ih.mpr ⟨inside m member, nests m member⟩
    | unreadable => simp [readable, not_valued_unreadable]
    | _ => exact iff_of_true rfl ⟨by constructor, Nat.zero_le _⟩

end Json

inductive ScalarKind where
  | bool
  | text
  | integer
  deriving DecidableEq, Repr

namespace ScalarKind

abbrev Value : ScalarKind → Type
  | bool => Bool
  | text => String
  | integer => Int64

def decoder : (k : ScalarKind) → Decoder k.Value
  | bool => Decoder.bool
  | text => Decoder.string
  | integer => Decoder.int64

def toJson : (k : ScalarKind) → k.Value → Json
  | bool, b => .bool b
  | text, s => .string s
  | integer, i => .integer i.toInt

private theorem decoder_eq_some_iff {k : ScalarKind} {n : Nat} {v : Json} {a : k.Value} :
    k.decoder n v = some a ↔ v = k.toJson a := by
  cases k with
  | bool => cases v <;> simp [decoder, toJson, Decoder.bool]
  | text => cases v <;> simp [decoder, toJson, Decoder.string]
  | integer =>
    cases v with
    | integer i =>
      have range : Int64.minValue.toInt = -2 ^ 63 ∧ Int64.maxValue.toInt = 2 ^ 63 - 1 := by decide
      simp only [decoder, toJson, Decoder.int64, range, Json.integer.injEq]
      constructor
      · intro read
        split at read
        · next bounds =>
          rw [← Option.some.inj read, Int64.toInt_ofInt_of_le bounds.1 (by omega)]
        · contradiction
      · rintro rfl
        have low := Int64.le_toInt a
        have high := Int64.toInt_lt a
        rw [if_pos ⟨low, by omega⟩, Int64.ofInt_toInt]
    | _ => simp [decoder, toJson, Decoder.int64]

private theorem toJson_ne_object (k : ScalarKind) (a : k.Value) (ms : List (String × Json)) :
    k.toJson a ≠ .object ms := by
  cases k <;> nofun

private theorem decoder_object (k : ScalarKind) (n : Nat) (ms : List (String × Json)) :
    k.decoder n (.object ms) = none := by
  cases k <;> rfl

end ScalarKind

namespace Managed

/-- `Denotes k n v m`: the document `v`, which may nest `n` arrays and objects, stands for the
managed scalar `m`. -/
inductive Denotes (k : ScalarKind) : Nat → Json → Managed k.Value → Prop
  | bare {n : Nat} (a : k.Value) : Denotes k n (k.toJson a) (.explicit a .unmanaged)
  | record {n : Nat} {ms : List (String × Json)} {m : Managed k.Value}
      (value : valuesAt "value" ms = [k.toJson m.value])
      (metadata : GivenOr .unmanaged (Metadata.decode n) (valuesAt "metadata" ms) m.metadata)
      (provenance : GivenOr .explicit (Provenance.decode n)
        (valuesAt "provenance" ms) m.provenance) :
      Denotes k (n + 1) (.object ms) m

variable {k : ScalarKind} {n : Nat} {ms : List (String × Json)} {v : Json} {m : Managed k.Value}

private theorem denotes_object_iff :
    Denotes k (n + 1) (.object ms) m ↔ valuesAt "value" ms = [k.toJson m.value] ∧
    GivenOr .unmanaged (Metadata.decode n) (valuesAt "metadata" ms) m.metadata ∧
    GivenOr .explicit (Provenance.decode n) (valuesAt "provenance" ms) m.provenance := by
  constructor
  · intro denotes
    generalize is : Json.object ms = v at denotes
    cases denotes with
    | bare a => exact absurd is.symm (k.toJson_ne_object a ms)
    | record value metadata provenance =>
      obtain rfl := Json.object.inj is
      exact ⟨value, metadata, provenance⟩
  · rintro ⟨value, metadata, provenance⟩
    exact .record value metadata provenance

private theorem denotes_bare_iff (other : ∀ ms, v ≠ .object ms) :
    Denotes k n v m ↔ ∃ a, v = k.toJson a ∧ m = .explicit a .unmanaged := by
  constructor
  · intro denotes
    cases denotes with
    | bare a => exact ⟨a, rfl, rfl⟩
    | record => exact absurd rfl (other _)
  · rintro ⟨a, rfl, rfl⟩
    exact .bare a

private theorem decodeRecord_eq_some_iff : decodeRecord k.decoder (n + 1) (.object ms) = some m ↔
    Denotes k (n + 1) (.object ms) m := by
  have found : ∀ {fs}, Decoder.fields? Shape.managed.names (.object ms) = some fs →
      ∀ key ∈ Shape.managed.names, (fs.lookup key).toList = valuesAt key ms :=
    fun fields key known => toList_lookup_of_fields? (s := .managed) (by decide) fields known
  rw [denotes_object_iff]
  simp only [decodeRecord, Decoder.record, Option.bind_eq_some_iff, Option.bind_eq_bind,
    Option.pure_def, Option.some.injEq, required_eq_some_iff, withDefault_eq_some_iff]
  constructor
  · rintro ⟨fs, fields, a, ⟨w, value, scalar⟩, md, metadata, p, provenance, rfl⟩
    rw [found fields _ (by decide)] at value metadata provenance
    rw [ScalarKind.decoder_eq_some_iff] at scalar
    exact ⟨scalar ▸ value, metadata, provenance⟩
  · rintro ⟨value, metadata, provenance⟩
    have single : ∀ key ∈ Shape.managed.names, (valuesAt key ms).length ≤ 1 := by
      simp [Shape.names, Shape.fields, value, metadata.length_le, provenance.length_le]
    have fields : Decoder.fields? Shape.managed.names (.object ms) =
        some (Shape.managed.known ms) :=
      if_pos (nodup_known_iff.mpr single)
    have there := found fields
    refine ⟨_, fields, m.value, ⟨_, (there _ (by decide)).trans value, k.decoder_eq_some_iff.mpr
      rfl⟩, m.metadata, ?_, m.provenance, ?_, rfl⟩
    · rwa [there _ (by decide)]
    · rwa [there _ (by decide)]

private theorem decode_bare (other : ∀ ms, v ≠ .object ms) : decode k.decoder n v =
    if v.readable n then (k.decoder n v).map (.explicit · .unmanaged) else none := by
  cases v with
  | object ms => exact absurd rfl (other ms)
  | _ => rfl

private theorem decode_object : decode k.decoder n (.object ms) =
    if (Json.object ms).readable n then decodeRecord k.decoder n (.object ms) else none := by
  rw [decode]
  split
  · cases decodeRecord k.decoder n (.object ms) with
    | some m => rfl
    | none => rw [k.decoder_object]; rfl
  · rfl

theorem decode_eq_some_iff :
    decode k.decoder n v = some m ↔ (v.Valued ∧ v.nesting ≤ n) ∧ Denotes k n v m := by
  rw [← readable_iff]
  by_cases isObject : ∃ ms, v = .object ms
  · obtain ⟨ms, rfl⟩ := isObject
    rw [decode_object, Option.ite_none_right_eq_some]
    cases n with
    | zero => simp [readable]
    | succ n => rw [decodeRecord_eq_some_iff]
  · have other := not_exists.mp isObject
    rw [decode_bare other, denotes_bare_iff other, Option.ite_none_right_eq_some,
      Option.map_eq_some_iff]
    simp only [k.decoder_eq_some_iff, eq_comm]

private theorem decode_of_malformed (malformed : ("metadata", v) ∈ ms ∧ Metadata.decode n v = none ∨
    ("provenance", v) ∈ ms ∧ Provenance.decode n v = none) :
    decode k.decoder (n + 1) (.object ms) = none := by
  rw [Option.eq_none_iff_forall_ne_some]
  intro m decoded
  obtain ⟨-, metadata, provenance⟩ := denotes_object_iff.mp (decode_eq_some_iff.mp decoded).2
  rcases malformed with ⟨listed, unread⟩ | ⟨listed, unread⟩
  · rw [metadata.read (mem_valuesAt.mpr listed)] at unread
    contradiction
  · rw [provenance.read (mem_valuesAt.mpr listed)] at unread
    contradiction

/-- Only a document that says so stands for a default. -/
private theorem provenance_eq_default_iff (decoded : decode k.decoder n v = some m) :
    m.provenance = .default ↔
    ∃ ms w, v = .object ms ∧ ("provenance", w) ∈ ms ∧
      Provenance.decode (n - 1) w = some .default := by
  cases (decode_eq_some_iff.mp decoded).2 with
  | bare a =>
    constructor
    · nofun
    · rintro ⟨ms, w, is, -⟩
      exact absurd is (k.toJson_ne_object a ms)
  | @record n ms m value metadata provenance =>
    constructor
    · intro default
      generalize values : valuesAt "provenance" ms = vs at provenance
      rw [default] at provenance
      cases provenance with
      | @given w _ read => exact ⟨ms, w, rfl, mem_valuesAt.mp (by simp [values]), read⟩
    · rintro ⟨_, w, is, listed, read⟩
      obtain rfl := Json.object.inj is
      exact Option.some.inj ((provenance.read (mem_valuesAt.mpr listed)).symm.trans read)

private theorem flag_eq_unset_iff {b : Managed Bool} :
    b.flag = .unset ↔ b.provenance = .default := by
  obtain ⟨value, metadata, provenance⟩ := b
  cases provenance <;> cases value <;> simp [flag]

private theorem exists_flagField_unset_iff {fs : Fields} {name : String} :
    (∃ b, flagField fs name n = some b ∧ b.flag = .unset) ↔ fs.lookup name = none ∨
      ∃ b ms w, fs.lookup name = some (.object ms) ∧ decode Decoder.bool n (.object ms) = some b ∧
        ("provenance", w) ∈ ms ∧ Provenance.decode (n - 1) w = some .default := by
  unfold flagField Fields.withDefault
  cases fs.lookup name with
  | none => simp [flag, absent, defaulted]
  | some v =>
    simp only [flag_eq_unset_iff]
    constructor
    · rintro ⟨b, decoded, default⟩
      obtain ⟨ms, w, rfl, listed, read⟩ :=
        (provenance_eq_default_iff (k := .bool) decoded).mp default
      exact .inr ⟨b, ms, w, rfl, decoded, listed, read⟩
    · rintro (_ | ⟨b, ms, w, is, decoded, listed, read⟩)
      · contradiction
      · obtain rfl := Option.some.inj is
        exact ⟨b, decoded, (provenance_eq_default_iff (k := .bool) decoded).mpr
          ⟨ms, w, rfl, listed, read⟩⟩

private theorem decode_toJson (a : k.Value) :
    decode k.decoder n (k.toJson a) = some (.explicit a .unmanaged) := by
  refine decode_eq_some_iff.mpr ⟨⟨?_, ?_⟩, .bare a⟩
  · cases k <;> constructor
  · cases k <;> exact Nat.zero_le n

private theorem decode_value (a : k.Value) :
    decode k.decoder (n + 1) (.object [("value", k.toJson a)]) = some (.explicit a .unmanaged) := by
  obtain ⟨⟨valued, nests⟩, -⟩ := decode_eq_some_iff.mp (decode_toJson (n := n) a)
  refine decode_eq_some_iff.mpr ⟨⟨?_, ?_⟩, ?_⟩
  · exact .object (by simpa using valued)
  · exact nesting_object_le.mpr (by simpa using nests)
  · exact denotes_object_iff.mpr ⟨rfl, .absent, .absent⟩

/-- A document is read exactly if it stands for a managed scalar in one of the two forms, which
agree where only the value is given; what is given but malformed is refused, and only a default
leaves a flag unset. -/
theorem forms_exact :
    (∀ (k : ScalarKind) n v m, decode k.decoder n v = some m ↔ (v.Valued ∧ v.nesting ≤ n) ∧
      Denotes k n v m) ∧
    (∀ (k : ScalarKind) n a, decode k.decoder (n + 1) (k.toJson a) = some (.explicit a .unmanaged) ∧
      decode k.decoder (n + 1) (.object [("value", k.toJson a)]) = some (.explicit a .unmanaged)) ∧
    (∀ (k : ScalarKind) n ms v, ("metadata", v) ∈ ms ∧ Metadata.decode n v = none ∨
        ("provenance", v) ∈ ms ∧ Provenance.decode n v = none →
      decode k.decoder (n + 1) (.object ms) = none) ∧
    (∀ n fs name, (∃ b, flagField fs name n = some b ∧ b.flag = .unset) ↔ fs.lookup name = none ∨
      ∃ b ms w, fs.lookup name = some (.object ms) ∧ decode Decoder.bool n (.object ms) = some b ∧
        ("provenance", w) ∈ ms ∧ Provenance.decode (n - 1) w = some .default) ∧
    ∀ n b, (decode Decoder.bool n (.bool b)).map flag = some (if b then .on else .off) := by
  refine ⟨fun _ _ _ _ => decode_eq_some_iff, fun _ _ a => ⟨decode_toJson a, decode_value a⟩,
    fun _ _ _ _ => decode_of_malformed, fun _ _ _ => exists_flagField_unset_iff, fun n b => ?_⟩
  rw [show decode Decoder.bool n (.bool b) = some (.explicit b .unmanaged) from
    decode_toJson (k := .bool) b]
  cases b <;> rfl

theorem forms_exact_malformed : Metadata.decode 126 (.string "main.tf") = none ∧
    decode Decoder.bool 127 (.object [("value", .bool true), ("metadata", .string "main.tf")]) =
      none := by
  have unread : Metadata.decode 126 (.string "main.tf") = none := rfl
  exact ⟨unread, forms_exact.2.2.1 .bool 126 _ _ (.inl ⟨by simp, unread⟩)⟩

end Managed

end CloudPolicy
