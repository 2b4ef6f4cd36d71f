import CloudPolicy.Proofs.Codec.Managed
import CloudPolicy.Proofs.Codec.Rearranged

/-!
The ranges of a state document. A reading keeps the ranges of a shape if what it reads has those
that stand in the document at the places of the shape, and no others but the one for no place; a
record does so if each of its fields does.
-/

set_option autoImplicit false
set_option relaxedAutoImplicit false

namespace CloudPolicy

open Json

/-! ### The nodes of a state and their ranges -/

def Versioning.nodes (v : Versioning) : List Metadata :=
  [v.metadata, v.enabled.metadata, v.mfaDelete.metadata]

def Encryption.nodes (e : Encryption) : List Metadata :=
  [e.metadata, e.enabled.metadata, e.algorithm.metadata, e.kmsKeyId.metadata]

def Logging.nodes (l : Logging) : List Metadata :=
  [l.metadata, l.enabled.metadata, l.targetBucket.metadata]

def AccessBlock.nodes (p : AccessBlock) : List Metadata :=
  [p.metadata, p.bucket.metadata, p.blockPublicAcls.metadata, p.blockPublicPolicy.metadata,
    p.ignorePublicAcls.metadata, p.restrictPublicBuckets.metadata]

def Bucket.nodes (b : Bucket) : List Metadata :=
  [b.metadata, b.name.metadata, b.acl.metadata] ++ b.versioning.nodes ++
    b.encryption.nodes ++ b.logging.nodes ++ b.accessBlock.toList.flatMap AccessBlock.nodes

def Trail.nodes (t : Trail) : List Metadata :=
  [t.metadata, t.name.metadata, t.isMultiRegion.metadata, t.logFileValidation.metadata,
    t.kmsKeyId.metadata, t.isLogging.metadata]

def Storage.nodes (s : Storage) : List Metadata :=
  s.buckets.flatMap Bucket.nodes ++ s.accessBlocks.flatMap AccessBlock.nodes

def State.nodes (s : State) : List Metadata := s.storage.nodes ++ s.trails.flatMap Trail.nodes

/-- The ranges of a node and of those around it. -/
def Metadata.ranges (m : Metadata) : List Location := (m.origin :: m.ancestors).map (·.range)

def rangesOf (nodes : List Metadata) : List Location := nodes.flatMap Metadata.ranges

/-- Every range in the state, those of enclosing nodes included. -/
def State.ranges (s : State) : List Location := rangesOf s.nodes

/-- `Gives l s v`: at some place of the document `v`, which stands for `s`, there is the range
`l`. -/
inductive Gives (l : Location) : Shape → Json → Prop
  | here {n : Nat} {v : Json} (read : Location.decode n v = some l) : Gives l .location v
  | field {s : Shape} {key : String} {v w : Json} (known : key ∈ s.names)
      (listed : w ∈ s.valuesOf key v) (inside : Gives l (s.field key) w) : Gives l s v
  | item {s : Shape} {items : List Json} {w : Json} (listed : w ∈ items) (inside : Gives l s w) :
      Gives l (.list s) (.array items)

variable {α β : Type} {s : Shape} {n : Nat} {l : Location} {v : Json}

/-- The ranges of what is read are those that the document gives. -/
def Keeps (s : Shape) (ranges : α → List Location) (d : Json → Option α) : Prop :=
  ∀ v a, d v = some a → ∀ l, l ≠ .nowhere → (l ∈ ranges a ↔ Gives l s v)

/-- The fields at `keys` add their ranges to those of the fields before them. -/
def KeepsFields (s : Shape) (keys : List String) (before : List Location)
    (ranges : α → List Location) (f : Fields → Option α) : Prop :=
  ∀ fs a, f fs = some a → ∀ l, l ≠ .nowhere →
    (l ∈ ranges a ↔ l ∈ before ∨ ∃ key ∈ keys, ∃ w ∈ (fs.lookup key).toList,
      Gives l (s.field key) w)

private theorem not_gives_plain (v : Json) : ¬ Gives l .plain v := by
  intro gives
  cases gives with
  | field known => exact absurd known List.not_mem_nil

private theorem gives_iff_of_fields? (declared : s.names.Nodup)
    (other : s.names ≠ Shape.location.names) {fs : Fields}
    (fields : Decoder.fields? s.names v = some fs) :
    Gives l s v ↔ ∃ key ∈ s.names, ∃ w ∈ (fs.lookup key).toList, Gives l (s.field key) w := by
  constructor
  · intro gives
    cases gives with
    | here => exact absurd rfl other
    | field known listed inside =>
      exact ⟨_, known, _, toList_lookup_of_fields? declared fields known ▸ listed, inside⟩
    | @item _ items w listed =>
      obtain ⟨short, -⟩ := Option.ite_none_right_eq_some.mp fields
      rw [List.length_eq_zero_iff.mp (Nat.le_zero.mp short)] at listed
      contradiction
  · rintro ⟨key, known, w, listed, inside⟩
    exact .field known (toList_lookup_of_fields? declared fields known ▸ listed) inside

private theorem not_gives_null : ¬ Gives l s .null := by
  intro gives
  cases gives with
  | @here n _ read => cases n <;> contradiction
  | field _ listed => contradiction

namespace Keeps

variable {ranges : α → List Location}

theorem plain {d : Json → Option α} : Keeps .plain (fun _ => []) d := by
  intro v a _ l _
  simp [not_gives_plain]

theorem nullable {d : Decoder α} (keeps : Keeps s ranges (d n)) :
    Keeps s (fun o => o.toList.flatMap ranges) (Decoder.nullable d n) := by
  intro v o read l given
  by_cases null : v = .null
  · subst null
    obtain rfl := Option.some.inj read
    simp [not_gives_null]
  · have present : (d n v).map some = some o := by
      cases v <;> first | exact read | contradiction
    obtain ⟨a, read_some, rfl⟩ := Option.map_eq_some_iff.mp present
    simpa using keeps v a read_some l given

theorem mapM {d : Json → Option α} (keeps : Keeps s ranges d) {items : List Json} {as : List α}
    (read : items.mapM d = some as) (given : l ≠ .nowhere) :
    l ∈ as.flatMap ranges ↔ ∃ w ∈ items, Gives l s w := by
  -- by induction on the items, as they are read one after the other
  induction items generalizing as with
  | nil =>
    obtain rfl := Option.some.inj read
    simp
  | cons w items ih =>
    simp only [List.mapM_cons, Option.bind_eq_bind, Option.pure_def, Option.bind_eq_some_iff,
      Option.some.injEq] at read
    obtain ⟨a, read_first, rest, read_rest, rfl⟩ := read
    rw [List.flatMap_cons, List.mem_append, keeps w a read_first l given, ih read_rest]
    simp

theorem list {d : Decoder α} (each : ∀ n, Keeps s ranges (d n)) :
    Keeps (.list s) (fun as => as.flatMap ranges) (Decoder.list d n) := by
  intro v as read l given
  cases n with
  | zero => cases v <;> contradiction
  | succ n =>
    cases v with
    | array items =>
      rw [(each n).mapM read given]
      constructor
      · rintro ⟨w, listed, inside⟩
        exact .item listed inside
      · intro gives
        cases gives with
        | field known => exact absurd known List.not_mem_nil
        | item listed inside => exact ⟨_, listed, inside⟩
    | _ => contradiction

end Keeps

namespace KeepsFields

variable {keys : List String} {key : String} {before : List Location} {ranges : α → List Location}
  {ranges' : β → List Location} {d : Json → Option α}

theorem pure {a : α} (complete : ranges a = before) :
    KeepsFields s [] before ranges fun _ => some a := by
  intro fs a' same l given
  obtain rfl := Option.some.inj same
  simp [complete]

theorem cons {f : Fields → Option α} {g : α → Fields → Option β}
    (first : KeepsFields s [key] [] ranges f)
    (rest : ∀ a, KeepsFields s keys (before ++ ranges a) ranges' (g a)) :
    KeepsFields s (key :: keys) before ranges' fun fs => f fs >>= fun a => g a fs := by
  intro fs b read l given
  obtain ⟨a, read_first, read_rest⟩ := Option.bind_eq_some_iff.mp read
  rw [rest a fs b read_rest l given, List.mem_append, first fs a read_first l given]
  simp [or_assoc]

theorem of_lookup {f : Fields → Option α} (read : Option Json → Option α)
    (reads : ∀ fs, f fs = read (fs.lookup key))
    (blank : ∀ a, read none = some a → ∀ l ∈ ranges a, l = .nowhere)
    (keeps : Keeps (s.field key) ranges fun v => read (some v)) :
    KeepsFields s [key] [] ranges f := by
  intro fs a found l given
  rw [reads] at found
  cases there : fs.lookup key with
  | none =>
    rw [there] at found
    simpa [there] using fun member => given (blank a found l member)
  | some w =>
    rw [there] at found
    simpa [there] using keeps w a found l given

variable {t : Shape} (keeps : Keeps t ranges d) (stands : s.field key = t)
include keeps stands

theorem withDefault {default : α} (blank : ∀ l ∈ ranges default, l = .nowhere) :
    KeepsFields s [key] [] ranges fun fs => fs.withDefault key default d := by
  subst stands
  refine of_lookup (fun o => o.elim (some default) d) (fun fs => withDefault_eq fs key default d) ?_
    keeps
  intro a same
  exact Option.some.inj same ▸ blank

theorem optional :
    KeepsFields s [key] [] (fun o => o.toList.flatMap ranges) fun fs => fs.optional key d := by
  subst stands
  refine of_lookup (fun o => o.elim (some none) (Decoder.nullable (fun _ => d) 0))
    (fun fs => optional_eq 0 fs key d) ?_ (Keeps.nullable (d := fun _ => d) keeps)
  intro o same
  obtain rfl := Option.some.inj same
  simp

end KeepsFields

section

variable {ranges : α → List Location} {build : Nat → Fields → Option α} (declared : s.names.Nodup)
  (other : s.names ≠ Shape.location.names)
include declared other

theorem Keeps.record_succ (fields : KeepsFields s s.names [] ranges (build n)) :
    Keeps s ranges (Decoder.record s.names build (n + 1)) := by
  intro v a read l given
  obtain ⟨fs, there, built⟩ := Option.bind_eq_some_iff.mp read
  rw [fields fs a built l given, gives_iff_of_fields? declared other there]
  simp

theorem Keeps.record (fields : ∀ n, KeepsFields s s.names [] ranges (build n)) :
    Keeps s ranges (Decoder.record s.names build n) := by
  cases n with
  | zero => exact fun _ _ read => nomatch read
  | succ n => exact record_succ declared other (fields n)

end

/-! ### The parts of a state -/

private theorem Location.decode_succ (n : Nat) : decode (n + 1) = decode 1 := by
  have string : Decoder.string n = Decoder.string 0 := by
    funext v
    cases v <;> rfl
  have word32 : Decoder.word32 n = Decoder.word32 0 := by
    funext v
    cases v <;> rfl
  have path : SourcePath.decode n = SourcePath.decode 0 := by
    funext v
    rw [SourcePath.decode, SourcePath.decode, string]
  funext v
  simp only [decode, Decoder.record, string, word32, path]

/-- The lines of a range are those that its document gives, whichever comes first, and zero where it
gives none. -/
theorem Location.lines_of_decode (read : decode n v = some l) :
    GivenOr 0 (Decoder.word32 0) (Shape.location.valuesOf "start_line" v) l.startLine ∧
      GivenOr 0 (Decoder.word32 0) (Shape.location.valuesOf "end_line" v) l.endLine := by
  cases n with
  | zero => contradiction
  | succ n =>
    rw [decode_succ] at read
    obtain ⟨fs, fields, built⟩ := Option.bind_eq_some_iff.mp read
    have there : ∀ key ∈ Shape.location.names, (fs.lookup key).toList =
        Shape.location.valuesOf key v :=
      fun key known => toList_lookup_of_fields? (s := .location) (by decide) fields known
    simp only [Option.bind_eq_bind, Option.bind_eq_some_iff, Option.pure_def, Option.some.injEq,
      withDefault_eq_some_iff] at built
    obtain ⟨file, -, startLine, start, endLine, finish, source, -, rfl⟩ := built
    rw [there _ (by decide)] at start finish
    exact ⟨start, finish⟩

private theorem Location.eq_of_decode {m : Nat} {a : Location} (read : decode n v = some a)
    (again : decode m v = some l) : l = a := by
  cases n with
  | zero => contradiction
  | succ n =>
    cases m with
    | zero => contradiction
    | succ m =>
      rw [decode_succ] at read again
      exact Option.some.inj (again.symm.trans read)

theorem Location.keeps : Keeps .location ([·]) (decode n) := by
  have scalars : ∀ key ∈ Shape.location.names, Shape.location.field key = .plain := by
    intro key known
    simp only [Shape.names, Shape.location, Shape.fields, List.map_cons, List.map_nil,
      List.mem_cons, List.not_mem_nil, or_false] at known
    rcases known with rfl | rfl | rfl | rfl <;> rfl
  intro v a read l given
  constructor
  · intro member
    obtain rfl := List.mem_singleton.mp member
    exact .here read
  · intro gives
    generalize is : Shape.location = s at gives
    cases gives with
    | here again => exact List.mem_singleton.mpr (eq_of_decode read again)
    | field known listed inside =>
      subst is
      rw [scalars _ known] at inside
      exact absurd inside (not_gives_plain _)
    | item => contradiction

theorem Metadata.keeps : Keeps .metadata ranges (decode n) := by
  -- by induction on the nesting that is allowed, as enclosing nodes stand inside of the record
  induction n with
  | zero => exact fun _ _ read => nomatch read
  | succ n ih =>
    rw [decode_eq_record]
    refine Keeps.record_succ (s := .metadata) (by decide) (by decide) ?_
    refine .cons (.withDefault Location.keeps (by rfl) (by simp)) fun _ =>
      .cons (.withDefault .plain (by rfl) (by simp)) fun _ =>
      .cons (.withDefault .plain (by rfl) (by simp)) fun _ =>
      .cons (.optional ih (by rfl)) fun parent => .pure ?_
    cases parent <;> simp [ranges, withParent]

private theorem gives_managed_object_iff {ms : Fields} :
    Gives l .managed (.object ms) ↔ ∃ w ∈ valuesAt "metadata" ms, Gives l .metadata w := by
  constructor
  · intro gives
    cases gives with
    | @field _ key _ w known listed inside =>
      simp only [Shape.names, Shape.fields, List.map_cons, List.map_nil, List.mem_cons,
        List.not_mem_nil, or_false] at known
      rcases known with rfl | rfl | rfl
      · exact absurd inside (not_gives_plain _)
      · exact ⟨w, listed, inside⟩
      · exact absurd inside (not_gives_plain _)
  · rintro ⟨w, listed, inside⟩
    have known : "metadata" ∈ Shape.managed.names := by decide
    exact .field known listed inside

private theorem not_gives_bare {k : ScalarKind} (a : k.Value) :
    ¬ Gives l .managed (k.toJson a) := by
  intro gives
  generalize is : k.toJson a = v at gives
  cases gives with
  | field known listed => cases k <;> subst is <;> contradiction

theorem Managed.keeps {k : ScalarKind} :
    Keeps .managed (·.metadata.ranges) (decode k.decoder n) := by
  intro v m read l given
  obtain ⟨-, denotes⟩ := decode_eq_some_iff.mp read
  cases denotes with
  | bare a => simpa [explicit, Metadata.unmanaged, Metadata.ranges, not_gives_bare] using given
  | @record n ms m _ metadata _ =>
    rw [gives_managed_object_iff]
    dsimp only
    generalize valuesAt "metadata" ms = vs at metadata
    generalize m.metadata = md at metadata
    cases metadata with
    | absent => simpa [Metadata.unmanaged, Metadata.ranges] using given
    | @given w _ inside => simpa using Metadata.keeps w md inside l given

private theorem metadataField_keeps (stands : s.field "metadata" = .metadata) :
    KeepsFields s ["metadata"] [] Metadata.ranges fun fs => metadataField fs n :=
  .withDefault Metadata.keeps stands (by decide)

private theorem flagField_keeps {name : String} (stands : s.field name = .managed) :
    KeepsFields s [name] [] (·.metadata.ranges) fun fs => flagField fs name n :=
  .withDefault (Managed.keeps (k := .bool)) stands (by decide)

private theorem textField_keeps {name : String} (stands : s.field name = .managed) :
    KeepsFields s [name] [] (·.metadata.ranges) fun fs => textField fs name n :=
  .withDefault (Managed.keeps (k := .text)) stands (by decide)

theorem Versioning.keeps : Keeps .versioning (rangesOf ·.nodes) (decode n) :=
  Keeps.record (s := .versioning) (by decide) (by decide) fun _ =>
    .cons (metadataField_keeps (by rfl)) fun _ => .cons (flagField_keeps (by rfl)) fun _ =>
    .cons (flagField_keeps (by rfl)) fun _ => .pure (by simp [nodes, rangesOf])

theorem Encryption.keeps : Keeps .encryption (rangesOf ·.nodes) (decode n) :=
  Keeps.record (s := .encryption) (by decide) (by decide) fun _ =>
    .cons (metadataField_keeps (by rfl)) fun _ => .cons (flagField_keeps (by rfl)) fun _ =>
    .cons (textField_keeps (by rfl)) fun _ => .cons (textField_keeps (by rfl)) fun _ =>
    .pure (by simp [nodes, rangesOf])

theorem Logging.keeps : Keeps .logging (rangesOf ·.nodes) (decode n) :=
  Keeps.record (s := .logging) (by decide) (by decide) fun _ =>
    .cons (metadataField_keeps (by rfl)) fun _ => .cons (flagField_keeps (by rfl)) fun _ =>
    .cons (textField_keeps (by rfl)) fun _ => .pure (by simp [nodes, rangesOf])

theorem AccessBlock.keeps : Keeps .accessBlock (rangesOf ·.nodes) (decode n) :=
  Keeps.record (s := .accessBlock) (by decide) (by decide) fun _ =>
    .cons (metadataField_keeps (by rfl)) fun _ => .cons (textField_keeps (by rfl)) fun _ =>
    .cons (flagField_keeps (by rfl)) fun _ => .cons (flagField_keeps (by rfl)) fun _ =>
    .cons (flagField_keeps (by rfl)) fun _ => .cons (flagField_keeps (by rfl)) fun _ =>
    .pure (by simp [nodes, rangesOf])

theorem Bucket.keeps : Keeps .bucket (rangesOf ·.nodes) (decode n) :=
  Keeps.record (s := .bucket) (by decide) (by decide) fun _ =>
    .cons (metadataField_keeps (by rfl)) fun _ => .cons (textField_keeps (by rfl)) fun _ =>
    .cons (textField_keeps (by rfl)) fun _ =>
    .cons (.withDefault Versioning.keeps (by rfl) (by decide)) fun _ =>
    .cons (.withDefault Encryption.keeps (by rfl) (by decide)) fun _ =>
    .cons (.withDefault Logging.keeps (by rfl) (by decide)) fun _ =>
    .cons (.optional AccessBlock.keeps (by rfl)) fun _ =>
    .pure (by simp [nodes, Versioning.nodes, Encryption.nodes, Logging.nodes, rangesOf,
      List.flatMap_assoc])

theorem Trail.keeps : Keeps .trail (rangesOf ·.nodes) (decode n) :=
  Keeps.record (s := .trail) (by decide) (by decide) fun _ =>
    .cons (metadataField_keeps (by rfl)) fun _ => .cons (textField_keeps (by rfl)) fun _ =>
    .cons (flagField_keeps (by rfl)) fun _ => .cons (flagField_keeps (by rfl)) fun _ =>
    .cons (textField_keeps (by rfl)) fun _ => .cons (flagField_keeps (by rfl)) fun _ =>
    .pure (by simp [nodes, rangesOf])

theorem Storage.keeps : Keeps .storage (rangesOf ·.nodes) (decode n) :=
  Keeps.record (s := .storage) (by decide) (by decide) fun _ =>
    .cons (.withDefault (.list fun _ => Bucket.keeps) (by rfl) nofun) fun _ =>
    .cons (.withDefault (.list fun _ => AccessBlock.keeps) (by rfl) nofun) fun _ =>
    .pure (by simp [nodes, rangesOf, List.flatMap_assoc])

private theorem trails_keeps :
    Keeps .trails (·.flatMap fun t => rangesOf t.nodes) (trailsDecode n) :=
  Keeps.record (s := .trails) (by decide) (by decide) fun _ =>
    .withDefault (.list fun _ => Trail.keeps) (by rfl) nofun

namespace State

private theorem keeps_provider : Keeps .provider ranges (decodeProvider n) :=
  Keeps.record (s := .provider) (by decide) (by decide) fun _ =>
    .cons (.withDefault Storage.keeps (by rfl) nofun) fun _ =>
    .cons (.withDefault trails_keeps (by rfl) nofun) fun _ =>
    .pure (by simp [ranges, nodes, rangesOf, List.flatMap_assoc])

theorem keeps : Keeps .state ranges (decode n) :=
  Keeps.record (s := .state) (by decide) (by decide) fun _ =>
    .withDefault keeps_provider (by rfl) nofun

end State

end CloudPolicy
