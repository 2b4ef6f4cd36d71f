import CloudPolicy.Codec.Document
import CloudPolicy.Settings
import CloudPolicy.Toml

/-!
Settings as JSON and in TOML files. In a file, records may be tables or arrays of their fields in
the declared order, and keys that no field has are skipped.
-/

set_option autoImplicit false
set_option relaxedAutoImplicit false

namespace CloudPolicy.Settings

section

open Json

def RuleSettings.toJson (r : RuleSettings) : Json :=
  .object (optionalMember "enabled" .bool r.enabled)

def RuleSettings.decode : Decoder RuleSettings :=
  Decoder.record ["enabled"] fun depth fs => do
    let enabled ← fs.optional "enabled" (Decoder.bool depth)
    return ⟨enabled⟩

def IgnoreSettings.toJson (i : IgnoreSettings) : Json :=
  .object ([("rule", .string i.rule)] ++ optionalMember "path" .string i.path
    ++ optionalMember "reference" .string i.reference)

def IgnoreSettings.decode : Decoder IgnoreSettings :=
  Decoder.record ["rule", "path", "reference"] fun depth fs => do
    let rule ← fs.required "rule" (Decoder.string depth)
    let path ← fs.optional "path" (Decoder.string depth)
    let reference ← fs.optional "reference" (Decoder.string depth)
    return ⟨rule, path, reference⟩

namespace Model

def toJson (m : Model) : Json :=
  .object (optionalMember "schema" .string m.schema ++ optionalMember "profile" .string m.profile
    ++ optionalMember "min_severity" .string m.minSeverity
    ++ optionalMember "parallel" .bool m.parallel
    ++ [("rules", .object (m.rules.map RuleSettings.toJson).entries)]
    ++ if m.ignores.isEmpty then [] else [("ignore", .array (m.ignores.map IgnoreSettings.toJson))])

def decode : Decoder Model :=
  Decoder.record ["schema", "profile", "min_severity", "parallel", "rules", "ignore"]
    fun depth fs => do
    let schema ← fs.optional "schema" (Decoder.string depth)
    let profile ← fs.optional "profile" (Decoder.string depth)
    let minSeverity ← fs.optional "min_severity" (Decoder.string depth)
    let parallel ← fs.optional "parallel" (Decoder.bool depth)
    let rules ← fs.withDefault "rules" [] (Decoder.dictionary RuleSettings.decode depth)
    let ignores ← fs.withDefault "ignore" [] (Decoder.list IgnoreSettings.decode depth)
    return ⟨schema, profile, minSeverity, parallel, Keyed.ofList rules, ignores⟩

def ofDocument? (text : String) : Option Model := do
  let v ← Json.parse? text
  decode nestingLimit v

end Model

end

open Toml (fits)

/-- The members that a value gives for the fields of a record. Items of an array beyond the fields
are not looked at. -/
private def fields? (names : List String) : Toml → Option (List (String × Toml))
  | .table entries =>
    if entries.all fun e => names.contains e.1 || e.2.fits then some entries else none
  | .array items => some (names.zip items)
  | .datetime _ => some []
  | _ => none

private def text? : Toml → Option String
  | .string s => some s
  | _ => none

private def truth? : Toml → Option Bool
  | .boolean b => some b
  | _ => none

private def optionalField {α : Type} (fs : List (String × Toml)) (name : String)
    (read : Toml → Option α) : Option (Option α) :=
  match fs.lookup name with
  | none => some none
  | some v => (read v).map some

def RuleSettings.ofToml? (v : Toml) : Option RuleSettings := do
  let fs ← fields? ["enabled"] v
  return ⟨← optionalField fs "enabled" truth?⟩

def IgnoreSettings.ofToml? (v : Toml) : Option IgnoreSettings := do
  let fs ← fields? ["rule", "path", "reference"] v
  let rule ← (fs.lookup "rule").bind text?
  let path ← optionalField fs "path" text?
  let reference ← optionalField fs "reference" text?
  return ⟨rule, path, reference⟩

private def rules? : Toml → Option (List (String × RuleSettings))
  | .table entries => entries.mapM fun e => (RuleSettings.ofToml? e.2).map (e.1, ·)
  | _ => none

private def ignores? : Toml → Option (List IgnoreSettings)
  | .array items => items.mapM IgnoreSettings.ofToml?
  | _ => none

namespace Model

def ofToml? (v : Toml) : Option Model := do
  let fs ← fields? ["schema", "profile", "min_severity", "parallel", "rules", "ignore"] v
  let schema ← optionalField fs "schema" text?
  let profile ← optionalField fs "profile" text?
  let minSeverity ← optionalField fs "min_severity" text?
  let parallel ← optionalField fs "parallel" truth?
  let rules ← optionalField fs "rules" rules?
  let ignores ← optionalField fs "ignore" ignores?
  return ⟨schema, profile, minSeverity, parallel, Keyed.ofList (rules.getD []), ignores.getD []⟩

def ofFile? (text : String) : Option Model := (Toml.parse? text).bind ofToml?

end Model

end CloudPolicy.Settings
