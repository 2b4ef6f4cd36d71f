import CloudPolicy.Catalog
import CloudPolicy.ScanRun
import CloudPolicy.Schema

/-!
The maintenance command: publishing schemas, checking that they are up to date, judging fixtures and
checking the rule catalog. A command reads and changes a tree of files and says what it prints and
how it exits.
-/

set_option autoImplicit false
set_option relaxedAutoImplicit false

namespace CloudPolicy

namespace Conformance

/-- A path inside the scanned tree: neither empty nor from the root, with forward slashes and
without steps back. -/
def isCleanPath (path : String) : Bool :=
  path != "" && path.toList.head? != some '/' && !path.toList.contains '\\' &&
    !(Text.splitAt '/' path.toList).contains ['.', '.']

def isMalformed (name : String) : Bool := Text.beginsWith "malformed_" name

/-- The report document of one scan as it is read back, or the chain of what went wrong. Nothing is
said about a text that cannot be read back. -/
def scan (state : State) (settingsText : String) (startedAt finishedAt : Timestamp) :
    Except (List String) Json :=
  match ScanRun.run Catalog.registry state settingsText {} false false startedAt finishedAt with
  | .error e => .error e.chain
  | .ok out =>
    match out.report.serialize? with
    | none => .error ["serialize report"]
    | some text =>
      match (Json.parse? text).bind (Json.plain? Json.nestingLimit) with
      | none => .error []
      | some report => .ok report

def files (report : Json) : List String :=
  match report.member? "results" with
  | some (.array results) =>
    results.filterMap fun r => ((r.member? "location").bind (·.member? "filename")).bind Json.text?
  | _ => []

def schemaFaults (name : String) (report : Json) : List String :=
  if Schema.Report.report.accepts report then [] else
    [name ++ ": schema violation: the report does not fit"]

/-- What is wrong with documents that differ in more than what differs from run to run. -/
def repeatFaults (name : String) (first second : Json) : List String :=
  if (Mask.mask first).pretty == (Mask.mask second).pretty then [] else
    [name ++ ": report differs between runs"]

def pathFaults (name : String) (report : Json) : List String :=
  (files report).filterMap fun f =>
    if isCleanPath f then none else some (name ++ ": unclean location path '" ++ f ++ "'")

structure Tally where
  checked : Nat := 0
  errors : List String := []
  /-- How often the clock has been read. -/
  readings : Nat := 0
  deriving DecidableEq, Repr

def oneLine (chain : List String) : String := String.intercalate ": " chain

/-- Scans a fixture twice and judges the reports. A scan reads the clock when it begins and when it
ends; one that fails ends everything. -/
def judgeReports (name : String) (state : State) (settingsText : String) (clock : Nat → Timestamp)
    (tally : Tally) : Except (List String) Tally :=
  match scan state settingsText (clock tally.readings) (clock (tally.readings + 1)) with
  | .error chain => .error (("scan fixture " ++ name) :: chain)
  | .ok first =>
    match scan state settingsText (clock (tally.readings + 2)) (clock (tally.readings + 3)) with
    | .error chain => .error (("rescan fixture " ++ name) :: chain)
    | .ok second =>
      .ok ⟨tally.checked + 1,
        tally.errors ++ (schemaFaults name first ++ repeatFaults name first second ++
          pathFaults name first),
        tally.readings + 4⟩

def statePath (root name : String) : String := FilePath.join (FilePath.join root name) "state.json"

def settingsPath (root name : String) : String :=
  FilePath.join (FilePath.join root name) "infraguard.toml"

/-- What the settings of a fixture say; nothing if they cannot be read. -/
def settingsText (files : FileTree) (root name : String) : String :=
  (files.read (settingsPath root name)).toOption.getD ""

/-- Judges the fixture in a directory. One whose state should have been refused counts as checked,
one whose state is refused though it should not have been does not. A state is loaded from a path
that is a text; a name that is none ends everything. -/
def judge (files : FileTree) (root : String) (clock : Nat → Timestamp) (tally : Tally) :
    Bytes → Except (List String) Tally
  | .foreign b invalid =>
    .error ["non-UTF-8 fixture path: " ++ statePath root (Bytes.foreign b invalid).display]
  | .text name =>
    match isMalformed name, files.loadState (statePath root name) with
    | true, .ok _ =>
      .ok { tally with checked := tally.checked + 1
                       errors := tally.errors ++ [name ++ ": expected state to be rejected"] }
    | true, .error _ => .ok { tally with checked := tally.checked + 1 }
    | false, .error e =>
      .ok { tally with errors := tally.errors ++ [name ++ ": " ++ oneLine e.chain] }
    | false, .ok state => judgeReports name state (settingsText files root name) clock tally

def judgeAll (files : FileTree) (root : String) (clock : Nat → Timestamp) (tally : Tally) :
    List Bytes → Except (List String) Tally
  | [] => .ok tally
  | name :: names =>
    match judge files root clock tally name with
    | .error e => .error e
    | .ok tally => judgeAll files root clock tally names

/-- The fixtures in a directory: the directories that hold a state, in byte order. -/
def fixtures (files : FileTree) (root : String) : List Bytes :=
  match files.place root with
  | .error _ => []
  | .ok p => (files.inside p.names).filter fun name =>
    (files.inside (p.names ++ [name])).contains "state.json"

def run (files : FileTree) (root : String) (clock : Nat → Timestamp) : Except (List String) Tally :=
  match files.get root with
  | .error e =>
    .error ["walk fixtures", "IO error for operation on " ++ root ++ ": " ++ e.message, e.message]
  | .ok _ => judgeAll files root clock {} (fixtures files root)

end Conformance

namespace Maintenance

structure Outcome where
  exitCode : Nat
  out : String
  err : String
  files : FileTree
  deriving DecidableEq

namespace Outcome

def success (files : FileTree) (out err : String) : Outcome := ⟨0, out, err, files⟩

private def indented (spaces : String) (text : String) : String :=
  String.intercalate ("\n" ++ spaces) ((Text.splitAt '\n' text.toList).map String.ofList)

private def renderCauses : List String → String
  | [] => ""
  | [cause] => "\n\nCaused by:\n    " ++ indented "    " cause
  | causes => "\n\nCaused by:" ++ String.join (causes.zipIdx.map fun (cause, n) =>
      "\n" ++ String.ofList (List.replicate (5 - (toString n).length) ' ') ++ toString n ++ ": "
        ++ indented "       " cause)

def renderError : List String → String
  | [] => "Error: \n"
  | context :: causes => "Error: " ++ context ++ renderCauses causes ++ "\n"

def failure (files : FileTree) (out err : String) (chain : List String) : Outcome :=
  ⟨1, out, err ++ renderError chain, files⟩

def failed (files : FileTree) (out err : String) (chain : List String) : Outcome :=
  failure files out err ("xtask failed" :: chain)

end Outcome

def schemas : List (String × SchemaDocument) :=
  [("infraguard.report.v1.json", Schema.Report.document),
    ("infraguard.config.v1.json", Schema.Settings.document)]

private def listed (lead : String) (items : List String) : String :=
  String.join (items.map fun i => "  " ++ lead ++ i ++ "\n")

/-- Writes the schemas that are left, after what has been printed. -/
private def emitFrom (dir : String) (files : FileTree) (out : String) :
    List (String × SchemaDocument) → Outcome
  | [] => .success files (out ++ "\nSchemas emitted successfully.\n") ""
  | (name, schema) :: rest =>
    let path := FilePath.join dir name
    match files.write path schema.write with
    | .error e => .failed files out "" ["Failed to write schema to " ++ path, e.message]
    | .ok files => emitFrom dir files (out ++ "Wrote " ++ path ++ "\n") rest

def emitSchemas (dir : String) (files : FileTree) : Outcome :=
  match files.makeDirectories dir with
  | (files, some e) => .failed files "" "" ["Failed to create schemas directory", e.message]
  | (files, none) => emitFrom dir files "" schemas

structure Staleness where
  missing : List String := []
  outdated : List String := []
  deriving DecidableEq, Repr

private def staleFrom (dir : String) (files : FileTree) (s : Staleness) :
    List (String × SchemaDocument) → Except (List String) Staleness
  | [] => .ok s
  | (name, schema) :: rest =>
    let path := FilePath.join dir name
    if !files.has path then staleFrom dir files { s with missing := s.missing ++ [name] } rest
    else match files.read path with
      | .error e => .error ["Failed to read " ++ path, e.message]
      | .ok text =>
        if text == schema.write then staleFrom dir files s rest
        else staleFrom dir files { s with outdated := s.outdated ++ [name] } rest

def validateSchemas (dir : String) (files : FileTree) : Outcome :=
  match staleFrom dir files {} schemas with
  | .error chain => .failed files "" "" chain
  | .ok s =>
    if s.missing.isEmpty && s.outdated.isEmpty then .success files
      "All schemas are up to date.\n" ""
    else .failed files "" (listed "missing: " s.missing ++ listed "out of date: " s.outdated)
      ["schemas are stale; run `cargo run -p xtask -- emit-schemas`"]

def conform (dir : String) (clock : Nat → Timestamp) (files : FileTree) : Outcome :=
  match Conformance.run files dir clock with
  | .error chain => .failed files "" "" chain
  | .ok tally =>
    if tally.checked == 0 then .failed files "" "" ["no fixtures found under " ++ dir]
    else if tally.errors.isEmpty then
      .success files ("✓ " ++ toString tally.checked ++ " fixtures conform\n") ""
    else .failed files "" (listed "- " tally.errors)
      ["conformance failed with " ++ toString tally.errors.length ++ " errors"]

/-- What is wrong with a catalog: rules whose id is not known, rules without explanation or links,
known ids without rule. -/
def catalogFaults (registry : Registry) (known : List String) : List String :=
  let ofRule (r : Rule) : List String :=
    let lead := "Rule '" ++ r.longId ++ "' has "
    (if known.contains r.longId then [] else [lead ++ "no id constant"])
      ++ (if Text.isBlankText r.definition.explanation then [lead ++ "empty explanation"] else [])
      ++ (if r.definition.links.isEmpty then [lead ++ "no reference links"] else [])
  registry.rules.flatMap ofRule
    ++ (known.filter fun id => !registry.contains id).map fun id =>
      "Id constant '" ++ id ++ "' has no registered rule"

def ruleCoverage (files : FileTree) : Outcome :=
  let errors := catalogFaults Catalog.registry Catalog.knownIds
  if errors.isEmpty then
    .success files ("✓ " ++ toString Catalog.registry.size ++ " rules registered and documented\n")
    ""
  else .failed files "" (listed "- " errors)
    ["rule coverage failed with " ++ toString errors.length ++ " errors"]

def help : String :=
  "xtask commands:\n" ++
  "  emit-schemas      Generate JSON schemas into schemas/\n" ++
  "  validate-schemas  Check if schemas/ matches generated output (for CI)\n" ++
  "  conform           Scan every fixture and validate the reports\n" ++
  "  rule-coverage     Check the builtin rule catalog is complete and documented\n" ++
  "  print-schema-ids  List generated schema ids\n" ++
  "  help              Show this message\n"

def schemaIds : List String := schemas.map fun s => String.ofList (s.1.toList.take (s.1.length - 5))

/-- The project that a package directory belongs to: the one around it if it is the package of this
command, else the directory itself. -/
def projectDirectory (packageDir : String) : String :=
  if FilePath.lastName? packageDir == some "xtask" then FilePath.parent packageDir else packageDir

def schemasDirectory (project : String) : String := FilePath.join project "schemas"

def fixturesDirectory (project : String) : String :=
  FilePath.join (FilePath.join project "tests") "fixtures"

/-- Runs a command line; only the first argument counts. -/
def run (args : List String) (packageDir : String) (clock : Nat → Timestamp) (files : FileTree) :
    Outcome :=
  let project := projectDirectory packageDir
  match args.headD "help" with
  | "help" => .success files "" help
  | "--help" => .success files "" help
  | "-h" => .success files "" help
  | "emit-schemas" => emitSchemas (schemasDirectory project) files
  | "validate-schemas" => validateSchemas (schemasDirectory project) files
  | "conform" => conform (fixturesDirectory project) clock files
  | "rule-coverage" => ruleCoverage files
  | "print-schema-ids" => .success files (String.join (schemaIds.map (· ++ "\n"))) ""
  | other => .failure files "" ""
    ["unknown xtask command: " ++ other ++ "\n\nRun `cargo run -p xtask -- help` for usage."]

end Maintenance

end CloudPolicy
