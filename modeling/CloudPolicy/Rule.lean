import CloudPolicy.State

/-!
Rules: a definition, which is valid when its names are kebab tokens, its texts say something and its
links are secure, and a check of the state. A check yields findings or breaks off with a fault;
while it runs it may also ask for the evaluation to be cancelled.
-/

set_option autoImplicit false
set_option relaxedAutoImplicit false

namespace CloudPolicy

/-- How much a rule matters, whether or not it passed. -/
inductive Severity where
  | low
  | medium
  | high
  | critical
  deriving DecidableEq, Repr

namespace Severity

def all : List Severity := [.low, .medium, .high, .critical]

def rank : Severity → Nat
  | .low => 0
  | .medium => 1
  | .high => 2
  | .critical => 3

def name : Severity → String
  | .low => "low"
  | .medium => "medium"
  | .high => "high"
  | .critical => "critical"

/-- The name with a capital, as diagnostics show it. -/
def title : Severity → String
  | .low => "Low"
  | .medium => "Medium"
  | .high => "High"
  | .critical => "Critical"

def ofName? (s : String) : Option Severity := all.find? (·.name == s)

/-- The severity that a user names, up to blanks around it and the case of letters. -/
def parse? (s : String) : Option Severity := ofName? (Text.lower (Text.trim s))

end Severity

inductive Status where
  | passed
  | failed
  | ignored
  deriving DecidableEq, Repr

namespace Status

def all : List Status := [.passed, .failed, .ignored]

def name : Status → String
  | .passed => "passed"
  | .failed => "failed"
  | .ignored => "ignored"

def ofName? (s : String) : Option Status := all.find? (·.name == s)

end Status

inductive Provider where
  | aws
  deriving DecidableEq, Repr

namespace Provider

def all : List Provider := [.aws]

def name : Provider → String
  | .aws => "aws"

def ofName? (s : String) : Option Provider := all.find? (·.name == s)

def parse? (s : String) : Option Provider := ofName? (Text.lower (Text.trim s))

end Provider

structure SeverityCounts where
  low : UInt32 := 0
  medium : UInt32 := 0
  high : UInt32 := 0
  critical : UInt32 := 0
  deriving DecidableEq, Repr

namespace SeverityCounts

def get (c : SeverityCounts) : Severity → UInt32
  | .low => c.low
  | .medium => c.medium
  | .high => c.high
  | .critical => c.critical

def bump (c : SeverityCounts) : Severity → SeverityCounts
  | .low => { c with low := c.low + 1 }
  | .medium => { c with medium := c.medium + 1 }
  | .high => { c with high := c.high + 1 }
  | .critical => { c with critical := c.critical + 1 }

def total (c : SeverityCounts) : UInt32 := c.low + c.medium + c.high + c.critical

end SeverityCounts

namespace Kebab

def isLetter (c : Char) : Bool := 'a' ≤ c && c ≤ 'z'

def isDigit (c : Char) : Bool := '0' ≤ c && c ≤ '9'

def hasDoubleDash : List Char → Bool
  | '-' :: '-' :: _ => true
  | _ :: cs => hasDoubleDash cs
  | [] => false

/-- A token starts with a letter, holds letters, digits and dashes, has no two dashes together and
does not end with one. -/
def isToken (s : String) : Bool :=
  match s.toList with
  | [] => false
  | c :: cs =>
    isLetter c && cs.all (fun d => isLetter d || isDigit d || d == '-') &&
      !hasDoubleDash (c :: cs) && (c :: cs).getLast? != some '-'

end Kebab

structure Definition where
  provider : Provider
  service : String
  shortCode : String
  /-- One line that states what should hold. -/
  summary : String
  /-- What goes wrong when it does not hold. -/
  impact : String
  resolution : String
  explanation : String
  links : List String
  severity : Severity
  deriving DecidableEq, Repr

inductive DefinitionFault where
  | service (given : String)
  | shortCode (given : String)
  | blank (field : String)
  | insecureLink (given : String)
  deriving DecidableEq, Repr

def DefinitionFault.message : DefinitionFault → String
  | .service given => "service must be a lowercase kebab-case token, got '" ++ given ++ "'"
  | .shortCode given => "short code must be a lowercase kebab-case token, got '" ++ given ++ "'"
  | .blank field => field ++ " must not be empty"
  | .insecureLink given => "link must be an https URL, got '" ++ given ++ "'"

namespace Definition

/-- The long id names provider, service and short code. -/
def longId (d : Definition) : String :=
  d.provider.name ++ "-" ++ d.service ++ "-" ++ d.shortCode

def isSecure (link : String) : Bool := Text.beginsWith "https://" link

/-- The first fault of a definition. -/
def fault? (d : Definition) : Option DefinitionFault :=
  if !Kebab.isToken d.service then some (.service d.service)
  else if !Kebab.isToken d.shortCode then some (.shortCode d.shortCode)
  else if Text.isBlankText d.summary then some (.blank "summary")
  else if Text.isBlankText d.impact then some (.blank "impact")
  else if Text.isBlankText d.resolution then some (.blank "resolution")
  else (d.links.find? fun link => !isSecure link).map .insecureLink

end Definition

/-- One violation: what is wrong and where. -/
structure Finding where
  description : String
  location : Metadata
  deriving DecidableEq, Repr

/-- What a check that breaks off leaves behind. -/
inductive Fault where
  | text (message : String)
  /-- Something that is no text. -/
  | other
  deriving DecidableEq, Repr

def Fault.message : Fault → String
  | .text message => message
  | .other => "non-string panic payload"

inductive Outcome where
  | findings (found : List Finding)
  | fault (fault : Fault)
  deriving DecidableEq, Repr

structure Attempt where
  outcome : Outcome
  /-- Whether the check asked for cancellation while it ran. -/
  cancels : Bool := false
  deriving DecidableEq, Repr

structure Rule where
  definition : Definition
  check : State → Attempt

namespace Rule

def ofFindings (definition : Definition) (find : State → List Finding) : Rule :=
  ⟨definition, fun s => { outcome := .findings (find s) }⟩

def longId (r : Rule) : String := r.definition.longId

/-- The rule in one line, as diagnostics show it. -/
def describe (r : Rule) : String :=
  "Rule \x7b id: \"" ++ r.longId ++ "\", severity: " ++ r.definition.severity.title ++ ", .. \x7d"

end Rule

end CloudPolicy
