import CloudPolicy.Codec.Settings
import CloudPolicy.Proofs.Settings.Resolution

/-!
Settings are read back from what is written of them. What is not set is left out and read as not
set; a rule whose table sets nothing is written all the same, and is named again by the settings
that are read.
-/

set_option autoImplicit false
set_option relaxedAutoImplicit false

namespace CloudPolicy

open Json

namespace Keyed

variable {α : Type}

private theorem find?_ofList (pairs : List (String × α)) (key : String) :
    (ofList pairs).find? key = pairs.reverse.lookup key := by
  have filled : ∀ t : Keyed α, (pairs.foldl (fun t p => t.insert p.1 p.2) t).find? key =
      (pairs.reverse.lookup key).or (t.find? key) := by
    induction pairs with
    | nil => exact fun _ => rfl
    | cons p pairs ih =>
      obtain ⟨k, value⟩ := p
      intro t
      rw [List.foldl_cons, ih, find?_insert, List.reverse_cons, List.lookup_append, Option.or_assoc]
      by_cases here : key = k
      · simp [here]
      · simp [List.lookup_cons, here, beq_false_of_ne here]
  rw [ofList, filled, find?_empty, Option.or_none]

theorem keys_nodup (t : Keyed α) : (t.entries.map (·.1)).Nodup :=
  t.ordered.imp String.ne_of_lt

private theorem ofList_entries (t : Keyed α) : ofList t.entries = t := by
  have nodup : (t.entries.reverse.map (·.1)).Nodup := by
    rw [List.map_reverse, List.nodup_reverse]
    exact t.keys_nodup
  apply ext_find?
  intro key
  ext value
  rw [find?_ofList, lookup_eq_some_iff_mem nodup, List.mem_reverse, find?_eq_some_iff]

end Keyed

namespace Settings

theorem RuleSettings.readsAs (r : RuleSettings) : r.toJson.ReadsAs decode r := by
  have enabled : ∀ b ∈ r.enabled, ReadsAs (.bool b) Decoder.bool (id b) := fun b _ => .bool b
  apply ReadsAs.record
  · decide
  · exact keys_optionalMember _
  · exact forall_optionalMember "enabled" fun b hb => (enabled b hb).portable
  · intro depth fits
    rw [optional_of_lookup_map enabled (by simp) fits (by simp), Option.map_id_fun]
    rfl

theorem IgnoreSettings.readsAs (i : IgnoreSettings) : i.toJson.ReadsAs decode i := by
  have rule := ReadsAs.string i.rule
  have path : ∀ s ∈ i.path, ReadsAs (.string s) Decoder.string (id s) := fun s _ => .string s
  have reference : ∀ s ∈ i.reference, ReadsAs (.string s) Decoder.string (id s) :=
    fun s _ => .string s
  apply ReadsAs.record
  · decide
  · simp only [List.map_append]
    exact ((List.Sublist.refl ["rule"]).append (keys_optionalMember _)).append
      (keys_optionalMember _)
  · have paths := forall_optionalMember "path" fun s hs => (path s hs).portable
    have references := forall_optionalMember "reference" fun s hs => (reference s hs).portable
    simp only [List.mem_append, or_imp, forall_and]
    exact ⟨⟨by simp [rule.portable], paths⟩, references⟩
  · intro depth fits
    rw [rule.required fits rfl,
      optional_of_lookup_map path (by simp) fits (by simp [List.lookup_cons, List.lookup_append]),
      optional_of_lookup_map reference (by simp) fits
        (by simp [List.lookup_cons, List.lookup_append])]
    simp

private theorem rules_readsAs (rules : Keyed RuleSettings) :
    (Json.object (rules.map RuleSettings.toJson).entries).ReadsAs
    (Decoder.dictionary RuleSettings.decode)
      rules.entries := by
  have each : (Json.object (rules.map RuleSettings.toJson).entries).ReadsAs
      (Decoder.dictionary RuleSettings.decode) (rules.entries.map fun e => (e.1, id e.2)) :=
    .dictionary rules.keys_nodup fun e _ => e.2.readsAs
  simpa using each

private theorem ignores_readsAs (ignores : List IgnoreSettings) :
    (Json.array (ignores.map IgnoreSettings.toJson)).ReadsAs (Decoder.list IgnoreSettings.decode)
      (id ignores) := by
  have each : (Json.array (ignores.map IgnoreSettings.toJson)).ReadsAs
    (Decoder.list IgnoreSettings.decode)
      (ignores.map id) := .list fun i _ => i.readsAs
  rwa [List.map_id] at each

section Nesting

private theorem nesting_optionalMember {γ : Type} {encode : γ → Json}
    (scalar : ∀ a, (encode a).nesting = 0) (key : String) (o : Option γ) (n : Nat) :
    ∀ m ∈ optionalMember key encode o, m.2.nesting ≤ n :=
  forall_optionalMember key (p := (nesting · ≤ n)) fun a _ => (scalar a).trans_le (Nat.zero_le n)

theorem RuleSettings.nesting_toJson (r : RuleSettings) : r.toJson.nesting ≤ 1 := by
  rw [toJson, nesting_object_le]
  exact nesting_optionalMember (fun _ => rfl) "enabled" r.enabled 0

theorem IgnoreSettings.nesting_toJson (i : IgnoreSettings) : i.toJson.nesting ≤ 1 := by
  rw [toJson, nesting_object_le]
  simp only [List.mem_append, or_imp, forall_and]
  exact ⟨⟨by simp [nesting], nesting_optionalMember (fun _ => rfl) "path" i.path 0⟩,
    nesting_optionalMember (fun _ => rfl) "reference" i.reference 0⟩

end Nesting

namespace Model

theorem readsAs (m : Model) : m.toJson.ReadsAs decode m := by
  have schema : ∀ s ∈ m.schema, ReadsAs (.string s) Decoder.string (id s) := fun s _ => .string s
  have profile : ∀ s ∈ m.profile, ReadsAs (.string s) Decoder.string (id s) := fun s _ => .string s
  have minSeverity : ∀ s ∈ m.minSeverity, ReadsAs (.string s) Decoder.string (id s) :=
    fun s _ => .string s
  have parallel : ∀ b ∈ m.parallel, ReadsAs (.bool b) Decoder.bool (id b) := fun b _ => .bool b
  have rules := rules_readsAs m.rules
  have ignores := fun is (_ : is ∈ nonempty? m.ignores) => ignores_readsAs is
  rw [toJson, listMember_eq "ignore" (fun is => .array (is.map IgnoreSettings.toJson))]
  apply ReadsAs.record
  · decide
  · simp only [List.map_append]
    exact (((((keys_optionalMember _).append (keys_optionalMember _)).append
      (keys_optionalMember _)).append (keys_optionalMember _)).append
      (List.Sublist.refl ["rules"])).append (keys_optionalMember _)
  · have schemas := forall_optionalMember "schema" fun s hs => (schema s hs).portable
    have profiles := forall_optionalMember "profile" fun s hs => (profile s hs).portable
    have severities := forall_optionalMember "min_severity" fun s hs => (minSeverity s hs).portable
    have parallels := forall_optionalMember "parallel" fun b hb => (parallel b hb).portable
    have last := forall_optionalMember "ignore" fun is his => (ignores is his).portable
    simp only [List.mem_append, or_imp, forall_and]
    exact ⟨⟨⟨⟨⟨schemas, profiles⟩, severities⟩, parallels⟩, by simp [rules.portable]⟩, last⟩
  · intro depth fits
    rw [optional_of_lookup_map schema (by simp) fits
        (by simp [List.lookup_append, List.lookup_cons]),
      optional_of_lookup_map profile (by simp) fits
        (by simp [List.lookup_append, List.lookup_cons]),
      optional_of_lookup_map minSeverity (by simp) fits
        (by simp [List.lookup_append, List.lookup_cons]),
      optional_of_lookup_map parallel (by simp) fits
        (by simp [List.lookup_append, List.lookup_cons]),
      rules.withDefault fits (by simp [List.lookup_append]),
      withDefault_of_lookup_map ignores fits (by simp [List.lookup_append, List.lookup_cons]) [],
      getD_nonempty?]
    simp [Keyed.ofList_entries]

/-- Settings nest three arrays and objects at most, down to what is said about one rule or one
accepted risk. -/
theorem nesting_toJson (m : Model) : m.toJson.nesting ≤ 3 := by
  have rules : (Json.object (m.rules.map RuleSettings.toJson).entries).nesting ≤ 2 := by
    rw [nesting_object_le]
    intro member there
    obtain ⟨e, -, rfl⟩ := List.mem_map.mp there
    exact e.2.nesting_toJson
  have ignores : (Json.array (m.ignores.map IgnoreSettings.toJson)).nesting ≤ 2 := by
    rw [nesting_array_le]
    intro v there
    obtain ⟨i, -, rfl⟩ := List.mem_map.mp there
    exact i.nesting_toJson
  rw [toJson, nesting_object_le]
  simp only [List.mem_append, or_imp, forall_and]
  refine ⟨⟨⟨⟨⟨nesting_optionalMember (fun _ => rfl) "schema" m.schema 2,
    nesting_optionalMember (fun _ => rfl) "profile" m.profile 2⟩,
    nesting_optionalMember (fun _ => rfl) "min_severity" m.minSeverity 2⟩,
    nesting_optionalMember (fun _ => rfl) "parallel" m.parallel 2⟩, ?_⟩, ?_⟩
  · simpa using rules
  · split
    · simp
    · simpa using ignores

/-- Settings are read back from their document, in whatever text that stands, and then resolve as
they did. -/
theorem settings_read_back (m : Model) :
    ofDocument? m.toJson.pretty = some m ∧
    ∀ text, Json.parse? text = some m.toJson → ofDocument? text = some m ∧
      ∀ o, (ofDocument? text).map (resolve · o) = some (resolve m o) := by
  have reads := m.readsAs
  have nests : m.toJson.nesting ≤ nestingLimit := Nat.le_trans m.nesting_toJson (by decide)
  have denoted : ∀ text, Json.parse? text = some m.toJson → ofDocument? text = some m := by
    intro text denotes
    rw [ofDocument?, denotes, Option.bind_eq_bind, Option.bind_some]
    exact reads.decoded nestingLimit nests
  refine ⟨denoted _ reads.portable.parse?_pretty, fun text denotes =>
    ⟨denoted text denotes, fun o => ?_⟩⟩
  rw [denoted text denotes, Option.map_some]

/-- Settings that name a rule without saying anything about it, and accept risks with and without a
path. -/
def mixed : Model :=
  { profile := some ""
    parallel := some false
    rules := .ofList [("b", ⟨some false⟩), ("a", ⟨none⟩)]
    ignores := [⟨"b", none, none⟩, ⟨"*", some "x/**", some "r"⟩] }

theorem settings_read_back_mixed :
    Json.parse? mixed.toJson.pretty = some mixed.toJson ∧
    ofDocument? mixed.toJson.pretty = some mixed ∧
      (∀ o, (ofDocument? mixed.toJson.pretty).map (resolve · o) = some (resolve mixed o)) ∧
      mixed.toJson.member? "rules" =
        some (.object [("a", .object []), ("b", .object [("enabled", .bool false)])]) := by
  have denotes := mixed.readsAs.portable.parse?_pretty
  obtain ⟨read, resolved⟩ := (settings_read_back mixed).2 _ denotes
  exact ⟨denotes, read, resolved, rfl⟩

end Model

end Settings

end CloudPolicy
