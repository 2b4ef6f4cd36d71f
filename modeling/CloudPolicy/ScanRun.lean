import CloudPolicy.Codec.Settings
import CloudPolicy.FileTree

/-!
A scan from the texts that a user has: settings are read and resolved, the state is scanned, and the
report carries the times at which that began and ended. Blank settings stand for none.
-/

set_option autoImplicit false
set_option relaxedAutoImplicit false

namespace CloudPolicy

inductive ScanRunError where
  | parseSettings
  | resolveSettings (error : Settings.ResolveError)
  | evaluate (error : ScanError)
  deriving DecidableEq, Repr

/-- The error in words, the widest context first. -/
def ScanRunError.chain : ScanRunError → List String
  | .parseSettings => ["parse config"]
  | .resolveSettings e => "resolve config" :: e.chain
  | .evaluate e => ["evaluate rules", e.message]

structure ScanRun where
  report : Report
  config : EffectiveConfig

namespace ScanRun

/-- The settings in a text, which may be blank. -/
def settings? (text : String) : Option Settings.Model :=
  if Text.isBlankText text then some {} else Settings.Model.ofFile? text

def resolve (settingsText : String) (overrides : Settings.Overrides) :
    Except ScanRunError EffectiveConfig :=
  match settings? settingsText with
  | none => .error .parseSettings
  | some m => (Settings.resolve m overrides).mapError .resolveSettings

/-- Scans a state between two moments. -/
def run (registry : Registry) (state : State) (settingsText : String)
    (overrides : Settings.Overrides) (watchesCancellation cancelled : Bool)
    (startedAt finishedAt : Timestamp) : Except ScanRunError ScanRun := do
  let config ← resolve settingsText overrides
  match Scan.run registry state config watchesCancellation cancelled with
  | .error e => .error (.evaluate e)
  | .ok (d, _) => .ok ⟨.ofDomain d startedAt finishedAt, config⟩

end ScanRun

inductive LoadError where
  | unreadable (path : String) (error : FileError)
  | malformed (path : String)
  deriving DecidableEq, Repr

def LoadError.chain : LoadError → List String
  | .unreadable path e => ["read " ++ path, e.message]
  | .malformed path => ["load state from " ++ path, "parse state json"]

namespace FileTree

def loadState (t : FileTree) (path : String) : Except LoadError State :=
  match t.read path with
  | .error e => .error (.unreadable path e)
  | .ok text =>
    match State.ofDocument? text with
    | some s => .ok s
    | none => .error (.malformed path)

/-- Writes a report to a file, after the directories on the way to it. The failure is the step that
went wrong; what was made before it stays. -/
def writeReport (t : FileTree) (path : String) (r : Report) : FileTree × Option String :=
  let parent := FilePath.parent path
  match t.makeDirectories parent with
  | (t, some _) => (t, some ("create " ++ parent))
  | (t, none) =>
    match r.serialize? with
    | none => (t, some "serialize report")
    | some text =>
      match t.write path text with
      | .error _ => (t, some ("write " ++ path))
      | .ok t => (t, none)

end FileTree

end CloudPolicy
