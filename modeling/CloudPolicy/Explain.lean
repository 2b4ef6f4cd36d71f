import CloudPolicy.Registry

/-!
Rule documentation for the terminal.
-/

set_option autoImplicit false
set_option relaxedAutoImplicit false

namespace CloudPolicy

/-- What is known about a rule that a user asks for. -/
inductive Explanation where
  | found (definition : Definition)
  /-- No such rule; the ids that there are. -/
  | unknown (identifier : String) (available : List String)
  deriving DecidableEq, Repr

namespace Explanation

/-- Looks a rule up by its long id, up to blanks around it. -/
def lookup (registry : Registry) (identifier : String) : Explanation :=
  match registry.find? (Text.trim identifier) with
  | some rule => .found rule.definition
  | none => .unknown identifier registry.ids

private def bullets (items : List String) : String :=
  String.join (items.map fun i => "  - " ++ i ++ "\n")

/-- The documentation of a rule, under its id and severity with a line below as long as they are in
bytes. -/
def renderDefinition (d : Definition) : String :=
  let title := d.longId ++ " (" ++ d.severity.name ++ ")"
  let underline := String.ofList (List.replicate (Text.utf8 title).length '=')
  let explanation := if d.explanation == "" then "" else d.explanation ++ "\n\n"
  let links := if d.links.isEmpty then "" else "\nLinks\n-----\n" ++ bullets d.links
  title ++ "\n" ++ underline ++ "\n\n" ++ d.summary ++ "\n\n" ++ explanation
    ++ "Impact\n------\n" ++ d.impact ++ "\n\n"
    ++ "Resolution\n----------\n" ++ d.resolution ++ "\n" ++ links

def renderUnknown (identifier : String) (available : List String) : String :=
  "Unknown rule id: " ++ identifier ++ "\n\nAvailable rules:\n" ++ bullets available

def render : Explanation → String
  | .found d => renderDefinition d
  | .unknown identifier available => renderUnknown identifier available

end Explanation

end CloudPolicy
