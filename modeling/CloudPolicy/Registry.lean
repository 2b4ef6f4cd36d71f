import CloudPolicy.Keyed
import CloudPolicy.Rule

/-!
The registry of rules. Registration keeps call order, refuses invalid definitions and refuses a long
id that is taken; a refused rule changes nothing. As it is kept, the registry also has the place of
each long id and the identities that are taken.
-/

set_option autoImplicit false
set_option relaxedAutoImplicit false

namespace CloudPolicy

inductive RegistryError where
  | duplicate (id : String)
  | invalidMetadata (id : String) (reason : DefinitionFault)
  | notFound (id : String)
  deriving DecidableEq, Repr

def RegistryError.message : RegistryError → String
  | .duplicate id => "rule " ++ id ++ " is already registered"
  | .invalidMetadata id reason => "rule " ++ id ++ " has invalid metadata: " ++ reason.message
  | .notFound id => "no rule registered with id " ++ id

/-- Registered rules, the first one first. -/
structure Registry where
  rules : List Rule

structure RuleFilter where
  provider : Option Provider := none
  service : Option String := none
  minSeverity : Option Severity := none
  /-- Long ids that are selected at any severity. -/
  enabled : List String := []
  /-- Long ids that are never selected. -/
  disabled : List String := []
  deriving DecidableEq, Repr

/-- Disabling beats enabling, and enabling beats the least severity. -/
def RuleFilter.accepts (f : RuleFilter) (d : Definition) : Bool :=
  f.provider.all (· == d.provider) && f.service.all (· == d.service) &&
    !f.disabled.contains d.longId &&
    (f.enabled.contains d.longId || f.minSeverity.all (·.rank ≤ d.severity.rank))

namespace Registry

def empty : Registry := ⟨[]⟩

def size (r : Registry) : Nat := r.rules.length

def isEmpty (r : Registry) : Bool := r.rules.isEmpty

def ids (r : Registry) : List String := r.rules.map Rule.longId

def contains (r : Registry) (id : String) : Bool := r.ids.contains id

def find? (r : Registry) (id : String) : Option Rule := r.rules.find? (·.longId == id)

def get (r : Registry) (id : String) : Except RegistryError Rule :=
  match r.find? id with
  | some rule => .ok rule
  | none => .error (.notFound id)

def register (r : Registry) (rule : Rule) : Except RegistryError Registry :=
  match rule.definition.fault? with
  | some reason => .error (.invalidMetadata rule.longId reason)
  | none =>
    if r.contains rule.longId then .error (.duplicate rule.longId)
    else .ok ⟨r.rules ++ [rule]⟩

/-- Adds rules up to the first one that is refused; gives the registry so far and the refusal. -/
def registerAll (r : Registry) : List Rule → Registry × Option RegistryError
  | [] => (r, none)
  | rule :: rules =>
    match r.register rule with
    | .ok r => r.registerAll rules
    | .error e => (r, some e)

def select (r : Registry) (f : RuleFilter) : List Rule :=
  r.rules.filter fun rule => f.accepts rule.definition

end Registry

/-- What a rule is called, part by part. Different identities may be joined to the same long id. -/
structure RuleIdentity where
  provider : Provider
  service : String
  shortCode : String
  deriving DecidableEq, Repr

def Definition.identity (d : Definition) : RuleIdentity := ⟨d.provider, d.service, d.shortCode⟩

/-- Registered rules with what is kept to find them. -/
structure IndexedRegistry extends Registry where
  /-- The place of each long id among the rules. -/
  places : Keyed Nat
  identities : List RuleIdentity

namespace IndexedRegistry

def empty : IndexedRegistry := ⟨.empty, .empty, []⟩

def contains (r : IndexedRegistry) (id : String) : Bool := (r.places.find? id).isSome

def find? (r : IndexedRegistry) (id : String) : Option Rule :=
  (r.places.find? id).bind fun i => r.rules[i]?

def get (r : IndexedRegistry) (id : String) : Except RegistryError Rule :=
  match r.find? id with
  | some rule => .ok rule
  | none => .error (.notFound id)

/-- Takes the identity of a rule, notes its place and puts it at the end. -/
def add (r : IndexedRegistry) (rule : Rule) : IndexedRegistry :=
  let r := { r with identities := r.identities.insert rule.definition.identity }
  let r := { r with places := r.places.insert rule.longId r.rules.length }
  { r with rules := r.rules ++ [rule] }

/-- Registers a rule; gives the registry afterwards, and the refusal if there is one. -/
def register (r : IndexedRegistry) (rule : Rule) : IndexedRegistry × Option RegistryError :=
  match rule.definition.fault? with
  | some reason => (r, some (.invalidMetadata rule.longId reason))
  | none =>
    if r.identities.contains rule.definition.identity || r.contains rule.longId then
      (r, some (.duplicate rule.longId))
    else (r.add rule, none)

def registerAll (r : IndexedRegistry) : List Rule → IndexedRegistry × Option RegistryError
  | [] => (r, none)
  | rule :: rules =>
    match r.register rule with
    | (r, none) => r.registerAll rules
    | (r, some e) => (r, some e)

/-- The registry of a list of rules, up to the first one that is refused. -/
def ofRules (rules : List Rule) : IndexedRegistry := (empty.registerAll rules).1

end IndexedRegistry

end CloudPolicy
