import CloudPolicy.Scan

/-!
Settings as a file states them, and what they resolve to: a profile presets the least severity, the
file refines it and overrides go before the file.
-/

set_option autoImplicit false
set_option relaxedAutoImplicit false

namespace CloudPolicy.Settings

/-- What a file says about one rule; a rule may be named without saying anything. -/
structure RuleSettings where
  enabled : Option Bool := none
  deriving DecidableEq, Repr

structure IgnoreSettings where
  rule : String
  path : Option String := none
  reference : Option String := none
  deriving DecidableEq, Repr

structure Model where
  schema : Option String := none
  profile : Option String := none
  minSeverity : Option String := none
  parallel : Option Bool := none
  rules : Keyed RuleSettings := .empty
  ignores : List IgnoreSettings := []
  deriving DecidableEq

/-- What a caller sets over the file. -/
structure Overrides where
  profile : Option String := none
  minSeverity : Option String := none
  parallel : Option Bool := none
  deriving DecidableEq, Repr

def schemaId : String := "infraguard.config.v1"

inductive GlobField where
  | rule
  | path
  deriving DecidableEq, Repr

def GlobField.name : GlobField → String
  | .rule => "rule"
  | .path => "path"

inductive ResolveError where
  | unsupportedSchema (given : String)
  | unknownProfile (given : String)
  | unknownSeverity (given : String)
  | invalidGlob (field : GlobField) (index : Nat) (error : GlobError)
  deriving DecidableEq, Repr

/-- The error in words, the widest context first. -/
def ResolveError.chain : ResolveError → List String
  | .unsupportedSchema given =>
    ["unsupported config schema: " ++ given ++ " (expected " ++ schemaId ++ ")"]
  | .unknownProfile given =>
    ["unknown profile: " ++ given ++ " (expected strict|balanced|critical)"]
  | .unknownSeverity given =>
    ["unknown severity: " ++ given ++ " (expected low|medium|high|critical)"]
  | .invalidGlob field index e =>
    ["invalid " ++ field.name ++ " glob in ignore #" ++ toString index,
      "invalid glob: " ++ e.pattern, e.message]

/-- The profiles with the least severity that each presets. -/
def presets : List (String × Severity) :=
  [("strict", .low), ("balanced", .medium), ("critical", .critical)]

def defaultProfile : String := "strict"

/-- The globs of an accepted risk have to be readable, the rule's before the path's. -/
def checkIgnore (index : Nat) (i : IgnoreSettings) : Except ResolveError IgnorePolicy :=
  match Glob.compile i.rule, i.path.map Glob.compile with
  | .error e, _ => .error (.invalidGlob .rule index e)
  | .ok _, some (.error e) => .error (.invalidGlob .path index e)
  | .ok _, _ => .ok ⟨i.rule, i.path, i.reference⟩

def checkIgnores (index : Nat) : List IgnoreSettings → Except ResolveError (List IgnorePolicy)
  | [] => .ok []
  | i :: is => do
    let p ← checkIgnore index i
    let ps ← checkIgnores (index + 1) is
    return p :: ps

def severityOf (text : String) : Except ResolveError Severity :=
  match Severity.parse? text with
  | some s => .ok s
  | none => .error (.unknownSeverity text)

/-- What a scan goes by under these settings and overrides. -/
def resolve (m : Model) (o : Overrides) : Except ResolveError EffectiveConfig := do
  match m.schema with
  | some schema => if schema != schemaId then throw (.unsupportedSchema schema)
  | none => pure ()
  let profile := (o.profile <|> m.profile).getD defaultProfile
  let some preset := presets.lookup profile | throw (.unknownProfile profile)
  let minSeverity ← match o.minSeverity <|> m.minSeverity with
    | some text => severityOf text
    | none => pure preset
  let ignores ← checkIgnores 0 m.ignores
  return {
    profile := profile
    minSeverity := minSeverity
    parallel := (o.parallel <|> m.parallel).getD true
    rules := m.rules.map (·.enabled)
    ignores := ignores }

end CloudPolicy.Settings
