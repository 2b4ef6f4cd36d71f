import CloudPolicy.Codec.Document
import CloudPolicy.Proofs.Json.ReadBack
import Mathlib.Data.List.Nodup

/-!
Decoders of records. A record is read field by field from what its encoder writes. A shape tells
which objects of a document stand for records; an edit lets members change places, or adds one that
is no field.
-/

set_option autoImplicit false
set_option relaxedAutoImplicit false

namespace CloudPolicy

open Json

namespace Json

variable {α β : Type}

/-- The document `v` loses nothing as text, and a decoder that allows for its nesting reads `a` from
it. -/
structure ReadsAs (v : Json) (d : Decoder α) (a : α) : Prop where
  portable : v.Portable
  decoded : ∀ depth, v.nesting ≤ depth → d depth v = some a

namespace ReadsAs

variable {v : Json} {d : Decoder α} {a : α}

theorem bool (b : Bool) : ReadsAs (.bool b) Decoder.bool b := ⟨.bool b, fun _ _ => rfl⟩

theorem string (s : String) : ReadsAs (.string s) Decoder.string s := ⟨.string s, fun _ _ => rfl⟩

theorem word32 (n : UInt32) : ReadsAs (.integer n.toNat) Decoder.word32 n := by
  have small : n.toNat < UInt32.size := n.toNat_lt_size
  have sizes : UInt32.size < UInt64.size := by decide
  constructor
  · apply Portable.integer
    omega
  · intro depth _
    have bounds : 0 ≤ (n.toNat : Int) ∧ (n.toNat : Int) < UInt32.size := by omega
    rw [Decoder.word32, if_pos bounds]
    simp

theorem named {ofName? : String → Option α} {name : String} (known : ofName? name = some a) :
    ReadsAs (.string name) (Decoder.named ofName?) a :=
  ⟨.string name, fun _ _ => known⟩

theorem map {f : α → β} (reads : ReadsAs v d a) :
    ReadsAs v (fun depth v => (d depth v).map f) (f a) := by
  refine ⟨reads.portable, fun depth fits => ?_⟩
  rw [reads.decoded depth fits, Option.map_some]

theorem list {γ : Type} {encode : γ → Json} {reread : γ → α} {xs : List γ}
    (each : ∀ x ∈ xs, ReadsAs (encode x) d (reread x)) :
    ReadsAs (.array (xs.map encode)) (Decoder.list d) (xs.map reread) := by
  constructor
  · apply Portable.array
    intro v hv
    obtain ⟨x, hx, rfl⟩ := List.mem_map.mp hv
    exact (each x hx).portable
  · intro depth fits
    cases depth with
    | zero => exact absurd fits (not_nesting_array_le_zero _)
    | succ depth =>
      have inner := nesting_array_le.mp fits
      rw [Decoder.list, List.mapM_map]
      apply mapM_eq_map
      intro x hx
      exact (each x hx).decoded depth (inner _ (List.mem_map_of_mem hx))

theorem dictionary {γ : Type} {encode : γ → Json} {reread : γ → α} {es : List (String × γ)}
    (nodup : (es.map (·.1)).Nodup) (each : ∀ e ∈ es, ReadsAs (encode e.2) d (reread e.2)) :
    ReadsAs (.object (es.map fun e => (e.1, encode e.2))) (Decoder.dictionary d)
      (es.map fun e => (e.1, reread e.2)) := by
  constructor
  · apply Portable.object
    · rwa [List.map_map]
    · intro m hm
      obtain ⟨e, he, rfl⟩ := List.mem_map.mp hm
      exact (each e he).portable
  · intro depth fits
    cases depth with
    | zero => exact absurd fits (not_nesting_object_le_zero _)
    | succ depth =>
      have inner := nesting_object_le.mp fits
      have read : (es.map fun e => (e.1, encode e.2)).mapM (fun m => (d depth m.2).map (m.1, ·)) =
          some (es.map fun e => (e.1, reread e.2)) := by
        rw [List.mapM_map]
        apply mapM_eq_map
        intro e he
        rw [Function.comp_apply, (each e he).decoded depth (inner _ (List.mem_map_of_mem he)),
          Option.map_some]
      rw [Decoder.dictionary, read, Option.map_some, lastWins_of_nodup (by rwa [List.map_map])]

theorem record {names : List String} {build : Nat → Fields → Option α} {fs : Fields}
    (declared : names.Nodup) (keys : (fs.map (·.1)).Sublist names)
    (portable : ∀ m ∈ fs, m.2.Portable)
    (built : ∀ depth, (∀ m ∈ fs, m.2.nesting ≤ depth) → build depth fs = some a) :
    ReadsAs (.object fs) (Decoder.record names build) a := by
  have nodup := keys.nodup declared
  refine ⟨.object nodup portable, fun depth fits => ?_⟩
  cases depth with
  | zero => exact absurd fits (not_nesting_object_le_zero fs)
  | succ depth =>
    have known : (fs.filter fun m => names.contains m.1) = fs := by
      rw [List.filter_eq_self]
      intro m hm
      simpa using keys.subset (List.mem_map_of_mem hm)
    have fields : Decoder.fields? names (.object fs) = some fs := by
      rw [Decoder.fields?, known, if_pos nodup]
    rw [Decoder.record, fields, Option.bind_some]
    exact built depth (nesting_object_le.mp fits)

section Fields

variable {fs : Fields} {name : String} {depth : Nat}

private theorem decoded_lookup (reads : ReadsAs v d a) (fits : ∀ m ∈ fs, m.2.nesting ≤ depth)
    (there : fs.lookup name = some v) : d depth v = some a := by
  obtain ⟨before, after, rfl, -⟩ := List.lookup_eq_some_iff.mp there
  exact reads.decoded depth (fits (name, v) (by simp))

theorem required (reads : ReadsAs v d a) (fits : ∀ m ∈ fs, m.2.nesting ≤ depth)
    (there : fs.lookup name = some v) : fs.required name (d depth) = some a := by
  rw [Fields.required, there, Option.bind_some, reads.decoded_lookup fits there]

theorem withDefault (reads : ReadsAs v d a) (fits : ∀ m ∈ fs, m.2.nesting ≤ depth)
    (there : fs.lookup name = some v) (default : α) :
    fs.withDefault name default (d depth) = some a := by
  rw [Fields.withDefault, there]
  exact reads.decoded_lookup fits there

theorem optional (reads : ReadsAs v d a) (given : v ≠ .null)
    (fits : ∀ m ∈ fs, m.2.nesting ≤ depth) (there : fs.lookup name = some v) :
    fs.optional name (d depth) = some (some a) := by
  have read := reads.decoded_lookup fits there
  rw [Fields.optional, there]
  cases v with
  | null => contradiction
  | _ => simp [read]

end Fields

end ReadsAs

theorem eq_string_of_decode {depth : Nat} {v : Json} {s : String}
    (read : Decoder.string depth v = some s) : v = .string s := by
  cases v <;> simp [Decoder.string] at read
  rw [read]

theorem lookup_filter {names : List String} {key : String} (declared : names.contains key = true)
    (ms : Fields) : (ms.filter fun m => names.contains m.1).lookup key = ms.lookup key := by
  induction ms with
  | nil => rfl
  | cons m ms ih =>
    obtain ⟨k, v⟩ := m
    by_cases same : key = k
    · subst same
      rw [List.filter_cons, if_pos declared, List.lookup_cons_self, List.lookup_cons_self]
    · have other : (key == k) = false := by simpa using same
      by_cases known : names.contains k = true
      · rw [List.filter_cons, if_pos known, List.lookup_cons, List.lookup_cons, other, ih]
      · rw [List.filter_cons, if_neg known, List.lookup_cons, other, ih]

theorem withDefault_eq (fs : Fields) (key : String) (default : α) (d : Json → Option α) :
    fs.withDefault key default d = (fs.lookup key).elim (some default) d := by
  rw [Fields.withDefault]
  cases fs.lookup key <;> rfl

theorem optional_eq (depth : Nat) (fs : Fields) (key : String) (d : Json → Option α) :
    fs.optional key d = (fs.lookup key).elim (some none) (Decoder.nullable (fun _ => d) depth) := by
  rw [Fields.optional]
  cases fs.lookup key with
  | none => rfl
  | some v => cases v <;> rfl

variable {γ : Type} {encode : γ → Json} {d : Decoder α} {reread : γ → α} {key : String}

@[simp] theorem lookup_optionalMember (j : String) (o : Option γ) :
    (optionalMember key encode o).lookup j = if j == key then o.map encode else none := by
  cases o with
  | none => simp [optionalMember]
  | some a => cases h : j == key <;> simp [optionalMember, List.lookup_cons, h]

theorem keys_optionalMember (o : Option γ) :
    ((optionalMember key encode o).map (·.1)).Sublist [key] := by
  cases o with
  | none => simp [optionalMember]
  | some a => exact List.Sublist.refl _

theorem forall_optionalMember (key : String) {p : Json → Prop} {o : Option γ}
    (each : ∀ a ∈ o, p (encode a)) : ∀ m ∈ optionalMember key encode o, p m.2 := by
  cases o with
  | none => simp [optionalMember]
  | some a => simpa [optionalMember] using each

def nonempty? (xs : List γ) : Option (List γ) :=
  if xs.isEmpty then none else some xs

theorem listMember_eq (key : String) (encode : List γ → Json) (xs : List γ) :
    (if xs.isEmpty then [] else [(key, encode xs)]) = optionalMember key encode (nonempty? xs) := by
  cases xs <;> rfl

theorem getD_nonempty? (xs : List γ) : ((nonempty? xs).map id).getD [] = xs := by
  cases xs <;> rfl

theorem optional_of_lookup_map {fs : Fields} {name : String} {depth : Nat} {o : Option γ}
    (each : ∀ a ∈ o, ReadsAs (encode a) d (reread a)) (given : ∀ a ∈ o, encode a ≠ .null)
    (fits : ∀ m ∈ fs, m.2.nesting ≤ depth) (there : fs.lookup name = o.map encode) :
    fs.optional name (d depth) = some (o.map reread) := by
  cases o with
  | none => rw [Fields.optional, there]; rfl
  | some a => exact (each a rfl).optional (given a rfl) fits there

theorem withDefault_of_lookup_map {fs : Fields} {name : String} {depth : Nat} {o : Option γ}
    (each : ∀ a ∈ o, ReadsAs (encode a) d (reread a)) (fits : ∀ m ∈ fs, m.2.nesting ≤ depth)
    (there : fs.lookup name = o.map encode) (default : α) :
    fs.withDefault name default (d depth) = some ((o.map reread).getD default) := by
  cases o with
  | none => rw [Fields.withDefault, there]; rfl
  | some a => exact (each a rfl).withDefault fits there default

end Json

/-- The location with its path made again. -/
def Location.reread (l : Location) : Location := { l with file := SourcePath.ofText l.file.text }

theorem Location.readsAs (l : Location) : l.toJson.ReadsAs decode l.reread := by
  have file : l.file.toJson.ReadsAs SourcePath.decode (SourcePath.ofText l.file.text) :=
    (ReadsAs.string l.file.text).map
  have startLine := ReadsAs.word32 l.startLine
  have endLine := ReadsAs.word32 l.endLine
  have source : ∀ s ∈ l.source, ReadsAs (.string s) Decoder.string (id s) := fun s _ => .string s
  apply ReadsAs.record
  · decide
  · rw [List.map_append]
    exact (List.Sublist.refl ["filename", "start_line", "end_line"]).append (keys_optionalMember _)
  · have last := forall_optionalMember "source_prefix" fun s hs => (source s hs).portable
    simpa [or_imp, forall_and, file.portable, startLine.portable, endLine.portable] using last
  · intro depth fits
    rw [file.required fits rfl, startLine.withDefault fits rfl, endLine.withDefault fits rfl,
      optional_of_lookup_map source (by simp) fits (by simp [List.lookup_cons])]
    simp [Location.reread]

theorem Severity.readsAs (s : Severity) : s.toJson.ReadsAs decode s := by
  apply ReadsAs.named
  cases s <;> decide

theorem Status.readsAs (s : Status) : s.toJson.ReadsAs decode s := by
  apply ReadsAs.named
  cases s <;> decide

theorem Provider.readsAs (p : Provider) : p.toJson.ReadsAs decode p := by
  apply ReadsAs.named
  cases p
  decide

theorem SeverityCounts.readsAs (c : SeverityCounts) : c.toJson.ReadsAs decode c := by
  have low := ReadsAs.word32 c.low
  have medium := ReadsAs.word32 c.medium
  have high := ReadsAs.word32 c.high
  have critical := ReadsAs.word32 c.critical
  apply ReadsAs.record
  · decide
  · exact List.Sublist.refl _
  · simp [low.portable, medium.portable, high.portable, critical.portable]
  · intro depth fits
    rw [low.required fits rfl, medium.required fits rfl, high.required fits rfl,
      critical.required fits rfl]
    rfl

/-- What a document stands for. -/
inductive Shape where
  /-- Nothing with fields. -/
  | plain
  | record (fields : List (String × Shape))
  /-- Where a value comes from, inside of what encloses it. -/
  | metadata
  | managed
  | list (item : Shape)

namespace Shape

def location : Shape :=
  .record [("filename", .plain), ("start_line", .plain), ("end_line", .plain),
    ("source_prefix", .plain)]

def fields : Shape → List (String × Shape)
  | .plain | .list _ => []
  | .record fs => fs
  | .metadata =>
    [("range", location), ("reference", .plain), ("managed", .plain), ("parent", .metadata)]
  | .managed => [("value", .plain), ("metadata", .metadata), ("provenance", .plain)]

def names (s : Shape) : List String := s.fields.map (·.1)

def field (s : Shape) (key : String) : Shape := (s.fields.lookup key).getD .plain

/-- What an item of an array stands for; arrays that stand for records list the fields. -/
def item : Shape → Nat → Shape
  | .list s, _ => s
  | s, i => (s.fields[i]?.map (·.2)).getD .plain

private theorem item_of_fields {s : Shape} {i : Nat} {f : String × Shape}
    (there : s.fields[i]? = some f) : s.item i = f.2 := by
  cases s with
  | list => simp [fields] at there
  | _ => simp [item, there]

end Shape

/-- `Edit s n v v'`: one edit makes `v'` of `v`, which stands for `s` and may nest `n` arrays and
objects. -/
inductive Edit : Shape → Nat → Json → Json → Prop where
  | permute {s : Shape} {n : Nat} {ms ms' : List (String × Json)} (same : ms.Perm ms') :
      Edit s n (.object ms) (.object ms')
  | insert {s : Shape} {n : Nat} (before after : List (String × Json)) {key : String} {v : Json}
      (isRecord : s.fields ≠ []) (unknown : key ∉ s.names) (readable : v.readable n = true) :
      Edit s (n + 1) (.object (before ++ after)) (.object (before ++ (key, v) :: after))
  | member {s : Shape} {n : Nat} (before after : List (String × Json)) {key : String} {v v' : Json}
      (inside : Edit (s.field key) (n - 1) v v') :
      Edit s n (.object (before ++ (key, v) :: after)) (.object (before ++ (key, v') :: after))
  | item {s : Shape} {n : Nat} (before after : List Json) {v v' : Json}
      (inside : Edit (s.item before.length) (n - 1) v v') :
      Edit s n (.array (before ++ v :: after)) (.array (before ++ v' :: after))

/-- A record in the document has a field twice. -/
inductive Doubled : Shape → Json → Prop where
  | here {s : Shape} {ms : List (String × Json)} {key : String} (known : key ∈ s.names)
      (twice : 2 ≤ (ms.map (·.1)).count key) : Doubled s (.object ms)
  | member {s : Shape} {ms : List (String × Json)} {key : String} {v : Json} (known : key ∈ s.names)
      (listed : (key, v) ∈ ms) (inside : Doubled (s.field key) v) : Doubled s (.object ms)
  | item {s : Shape} {items : List Json} {i : Nat} {v : Json} (listed : items[i]? = some v)
      (inside : Doubled (s.item i) v) : Doubled s (.array items)

variable {s : Shape} {n : Nat} {v v' : Json}

theorem Edit.ne_null (edit : Edit s n v v') : v ≠ .null ∧ v' ≠ .null := by
  cases edit <;> simp

theorem Edit.readable (edit : Edit s n v v') : v'.readable n = v.readable n := by
  induction edit with
  | @permute s n ms ms' same =>
    cases n with
    | zero => rfl
    | succ n => simp only [Json.readable, same.all_eq]
  | insert before after isRecord unknown readable => simp [Json.readable, readable]
  | @member s n before after key v v' inside ih =>
    cases n with
    | zero => rfl
    | succ n =>
      rw [Nat.add_sub_cancel] at ih
      simp [Json.readable, ih]
  | @item s n before after v v' inside ih =>
    cases n with
    | zero => rfl
    | succ n =>
      rw [Nat.add_sub_cancel] at ih
      simp [Json.readable, ih]

theorem not_doubled_plain (v : Json) : ¬ Doubled .plain v := by
  intro doubled
  generalize same : Shape.plain = s at doubled
  induction doubled with
  | here known => simp [← same, Shape.names, Shape.fields] at known
  | member known => simp [← same, Shape.names, Shape.fields] at known
  | item _ _ ih => exact ih (by simp [← same, Shape.item, Shape.fields])

/-! ### What an edit does to the fields of a record -/

theorem lookup_eq_some_iff_mem {α : Type} {ms : List (String × α)} (nodup : (ms.map (·.1)).Nodup)
    {key : String} {a : α} : ms.lookup key = some a ↔ (key, a) ∈ ms := by
  constructor
  · intro found
    obtain ⟨before, after, rfl, -⟩ := List.lookup_eq_some_iff.mp found
    simp
  · intro listed
    obtain ⟨before, after, rfl⟩ := List.append_of_mem listed
    rw [List.map_append, List.map_cons] at nodup
    have fresh : ∀ m ∈ before, key ≠ m.1 := fun m member same =>
      List.disjoint_of_nodup_append nodup (List.mem_map_of_mem member) (same ▸ List.mem_cons_self)
    exact List.lookup_eq_some_iff.mpr ⟨before, after, rfl,
      fun m member => by simpa using fresh m member⟩

private theorem lookup_perm {ms ms' : Fields} (nodup : (ms.map (·.1)).Nodup) (same : ms.Perm ms')
    (key : String) : ms'.lookup key = ms.lookup key := by
  have nodup' : (ms'.map (·.1)).Nodup := (same.map _).nodup_iff.mp nodup
  ext v
  rw [lookup_eq_some_iff_mem nodup', lookup_eq_some_iff_mem nodup, same.mem_iff]

/-- The fields are the same, up to an edit of the value under a key. -/
def Moved (s : Shape) (n : Nat) (fs fs' : Fields) : Prop :=
  ∀ key, fs'.lookup key = fs.lookup key ∨
    ∃ v v', fs.lookup key = some v ∧ fs'.lookup key = some v' ∧ Edit (s.field key) n v v'

private theorem moved_of_eq (fs : Fields) : Moved s n fs fs := fun _ => .inl rfl

private theorem moved_member (before after : Fields) {key : String}
    (inside : Edit (s.field key) n v v') :
    Moved s n (before ++ (key, v) :: after) (before ++ (key, v') :: after) := by
  intro k
  rw [List.lookup_append, List.lookup_append]
  cases earlier : before.lookup k with
  | some w => exact .inl rfl
  | none =>
    by_cases same : k = key
    · subst same
      exact .inr ⟨v, v', by simp, by simp, inside⟩
    · have other : (k == key) = false := by simpa using same
      exact .inl (by simp [List.lookup_cons, other])

private theorem lookup_zip_edit {fields : List (String × Shape)} (before after : List Json)
    (inside : ∀ f, fields[before.length]? = some f → Edit f.2 n v v') (key : String) :
    ((fields.map (·.1)).zip (before ++ v' :: after)).lookup key =
        ((fields.map (·.1)).zip (before ++ v :: after)).lookup key ∨
      ∃ shape, fields.lookup key = some shape ∧
        ((fields.map (·.1)).zip (before ++ v :: after)).lookup key = some v ∧
        ((fields.map (·.1)).zip (before ++ v' :: after)).lookup key = some v' ∧
        Edit shape n v v' := by
  induction before generalizing fields with
  | nil =>
    cases fields with
    | nil => exact .inl rfl
    | cons f fields =>
      obtain ⟨name, shape⟩ := f
      by_cases same : key = name
      · subst same
        exact .inr ⟨shape, by simp, by simp, by simp, inside _ rfl⟩
      · have other : (key == name) = false := by simpa using same
        exact .inl (by simp [List.lookup_cons, other])
  | cons w before ih =>
    cases fields with
    | nil => exact .inl rfl
    | cons f fields =>
      obtain ⟨name, shape⟩ := f
      by_cases same : key = name
      · subst same
        exact .inl (by simp)
      · have other : (key == name) = false := by simpa using same
        simpa [List.lookup_cons, other] using ih inside

private theorem moved_item (before after : List Json)
    (inside : Edit (s.item before.length) n v v') :
    Moved s n (s.names.zip (before ++ v :: after)) (s.names.zip (before ++ v' :: after)) := by
  intro key
  have there : ∀ f, s.fields[before.length]? = some f → Edit f.2 n v v' := fun f found =>
    Shape.item_of_fields found ▸ inside
  rcases lookup_zip_edit before after there key with same | ⟨shape, listed, found, found', edit⟩
  · exact .inl same
  · refine .inr ⟨v, v', found, found', ?_⟩
    rwa [Shape.field, listed]

def Shape.known (s : Shape) (ms : Fields) : Fields := ms.filter fun m => s.names.contains m.1

private theorem fields?_object (s : Shape) (ms : Fields) : Decoder.fields? s.names (.object ms) =
    if ((s.known ms).map (·.1)).Nodup then some (s.known ms) else none := rfl

/-- Two documents leave a record without fields, or with the same ones up to an edit of a value. -/
def SameFields (s : Shape) (n : Nat) (v v' : Json) : Prop :=
  (Decoder.fields? s.names v = none ∧ Decoder.fields? s.names v' = none) ∨
    ∃ fs fs', Decoder.fields? s.names v = some fs ∧ Decoder.fields? s.names v' = some fs' ∧
      Moved s n fs fs'

private theorem sameFields_object {ms ms' : Fields}
    (keys : ((s.known ms').map (·.1)).Nodup ↔ ((s.known ms).map (·.1)).Nodup)
    (moved : ((s.known ms).map (·.1)).Nodup → Moved s n (s.known ms) (s.known ms')) :
    SameFields s n (.object ms) (.object ms') := by
  by_cases nodup : ((s.known ms).map (·.1)).Nodup
  · exact .inr ⟨_, _, by rw [fields?_object, if_pos nodup], by
      rw [fields?_object, if_pos (keys.mpr nodup)], moved nodup⟩
  · have nodup' := mt keys.mp nodup
    exact .inl ⟨by rw [fields?_object, if_neg nodup], by rw [fields?_object, if_neg nodup']⟩

private theorem known_member (before after : Fields) (key : String) (v : Json) :
    s.known (before ++ (key, v) :: after) =
      s.known before ++ (if s.names.contains key then (key, v) :: s.known after else
        s.known after) := by
  rw [Shape.known, List.filter_append, List.filter_cons]
  rfl

theorem Edit.sameFields (edit : Edit s (n + 1) v v') : SameFields s n v v' := by
  cases edit with
  | @permute _ _ ms ms' same =>
    have known : (s.known ms).Perm (s.known ms') := same.filter _
    exact sameFields_object (known.map (·.1)).nodup_iff.symm
      fun nodup key => .inl (lookup_perm nodup known key)
  | @insert _ _ before after key v isRecord unknown readable =>
    have known : s.known (before ++ (key, v) :: after) = s.known (before ++ after) := by
      simp [Shape.known, unknown]
    exact sameFields_object (by rw [known]) fun _ => known ▸ moved_of_eq _
  | @member _ _ before after key v v' inside =>
    apply sameFields_object
    · rw [known_member, known_member]
      split <;> simp
    · intro _
      rw [known_member, known_member]
      split
      · exact moved_member _ _ inside
      · exact moved_of_eq _
  | @item _ _ before after v v' inside =>
    have lengths : (before ++ v' :: after).length = (before ++ v :: after).length := by simp
    by_cases fits : (before ++ v :: after).length ≤ s.names.length
    · exact .inr ⟨_, _, if_pos fits, if_pos (lengths ▸ fits), moved_item before after inside⟩
    · exact .inl ⟨if_neg fits, if_neg (lengths ▸ fits)⟩

theorem keys_zip (names : List String) (items : List Json) :
    ((names.zip items).map (·.1)).Sublist names := by
  induction names generalizing items with
  | nil => exact List.nil_sublist _
  | cons name names ih =>
    cases items with
    | nil => exact List.nil_sublist _
    | cons w items => exact (ih items).cons_cons name

/-- A record with a field twice has no fields, or one of its fields holds a record with a field
twice. -/
theorem Doubled.fields? (declared : s.names.Nodup) (doubled : Doubled s v) :
    Decoder.fields? s.names v = none ∨
    ∃ fs key w, Decoder.fields? s.names v = some fs ∧ key ∈ s.names ∧
      fs.lookup key = some w ∧ Doubled (s.field key) w := by
  cases doubled with
  | @here _ ms key known twice =>
    refine .inl ?_
    rw [fields?_object, if_neg]
    intro nodup
    have kept : ((s.known ms).map (·.1)).count key = (ms.map (·.1)).count key := by
      have filtered : (s.known ms).map (·.1) = (ms.map (·.1)).filter s.names.contains := by
        rw [List.filter_map]
        rfl
      rw [filtered, List.count_filter (by simpa using known)]
    have once := List.nodup_iff_count_le_one.mp nodup key
    omega
  | @member _ ms key w known listed inside =>
    rw [fields?_object]
    split
    · rename_i nodup
      refine .inr ⟨_, key, w, rfl, known, (lookup_eq_some_iff_mem nodup).mpr ?_, inside⟩
      exact List.mem_filter.mpr ⟨listed, by simpa using known⟩
    · exact .inl rfl
  | @item _ items i w listed inside =>
    by_cases fits : items.length ≤ s.names.length
    · have within : i < s.fields.length := by
        have there := (List.getElem?_eq_some_iff.mp listed).1
        rw [Shape.names, List.length_map] at fits
        omega
      have field : s.fields[i]? = some s.fields[i] := List.getElem?_eq_getElem within
      have name : s.names[i]? = some s.fields[i].1 := by
        rw [Shape.names, List.getElem?_map, field]; rfl
      have shape : s.field s.fields[i].1 = s.item i := by
        have found : s.fields.lookup s.fields[i].1 = some s.fields[i].2 :=
          (lookup_eq_some_iff_mem declared).mpr (List.getElem_mem within)
        rw [Shape.field, found, Shape.item_of_fields field]
        rfl
      refine .inr ⟨_, s.fields[i].1, w, if_pos fits, ?_, ?_, shape ▸ inside⟩
      · exact List.mem_of_getElem? name
      · rw [lookup_eq_some_iff_mem ((keys_zip _ _).nodup declared)]
        exact List.mem_of_getElem? (List.getElem?_zip_eq_some.mpr ⟨name, listed⟩)
    · exact .inl (if_neg fits)

end CloudPolicy
