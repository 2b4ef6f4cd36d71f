import CloudPolicy.Text

/-!
The declared infrastructure that rules look at: storage buckets with their nested settings, public
access blocks and audit trails. Each value knows where it was declared, as a chain of nodes from the
inside out, and each scalar whether its source wrote it. Whatever a document leaves out has the
absent value of its field.
-/

set_option autoImplicit false
set_option relaxedAutoImplicit false

namespace CloudPolicy

structure SourcePath where
  text : String
  deriving DecidableEq, Repr

namespace SourcePath

def forwardSlashes (cs : List Char) : List Char :=
  cs.map fun c => if c = '\\' then '/' else c

def dropCurrent : List Char → List Char
  | '.' :: '/' :: cs => dropCurrent cs
  | cs => cs

/-- The path as characters; nothing left stands for the unknown path. -/
def normalChars (cs : List Char) : List Char :=
  match dropCurrent (forwardSlashes (Text.trimChars cs)) with
  | [] => ['.']
  | c :: rest => c :: rest

def ofText (s : String) : SourcePath :=
  ⟨String.ofList (normalChars s.toList)⟩

def unknown : SourcePath := ⟨"."⟩

def isUnknown (p : SourcePath) : Bool := p.text == "."

def le (p q : SourcePath) : Bool := !decide (q.text < p.text)

/-- Paths in byte order, equal ones in the order given. -/
def sort (paths : List SourcePath) : List SourcePath :=
  paths.mergeSort le

end SourcePath

/-- Lines count from one and both ends belong to the range; line zero means that no line is
known. -/
structure Location where
  file : SourcePath
  startLine : UInt32
  endLine : UInt32
  /-- Where the file came from when it is not part of the scanned tree. -/
  source : Option String
  deriving DecidableEq, Repr

namespace Location

/-- The range from `startLine` to `endLine`, or one line when the end would precede the start. -/
def ofLines (file : SourcePath) (startLine endLine : UInt32) : Location :=
  ⟨file, startLine, if endLine < startLine then startLine else endLine, none⟩

/-- The place of values without any declaration. -/
def nowhere : Location := ⟨.unknown, 0, 0, none⟩

def isMultiLine (l : Location) : Bool := decide (l.startLine < l.endLine)

/-- Written `file:start`, with `-end` for several lines and the origin of the file in front. -/
def render (l : Location) : String :=
  let origin := match l.source with
    | some s => s ++ ":"
    | none => ""
  let tail := if l.isMultiLine then "-" ++ toString l.endLine.toNat else ""
  origin ++ l.file.text ++ ":" ++ toString l.startLine.toNat ++ tail

end Location

structure Origin where
  range : Location
  /-- The logical name, such as `aws_s3_bucket.logs`; empty when the node has none. -/
  reference : String
  /-- False for nodes that were filled in without a declaration. -/
  managed : Bool
  deriving DecidableEq, Repr

/-- A value's origin, followed by those of its enclosing nodes. -/
structure Metadata where
  origin : Origin
  ancestors : List Origin
  deriving DecidableEq, Repr

namespace Metadata

def declared (range : Location) (reference : String) : Metadata :=
  ⟨⟨range, reference, true⟩, []⟩

def unmanaged : Metadata := ⟨⟨.nowhere, "", false⟩, []⟩

/-- Fixed metadata for states made by hand. -/
def sample : Metadata := declared (.ofLines (.ofText "test.tf") 123 123) "test"

/-- The same node inside `parent`, whatever enclosed it before. -/
def withParent (m parent : Metadata) : Metadata :=
  ⟨m.origin, parent.origin :: parent.ancestors⟩

def range (m : Metadata) : Location := m.origin.range

def reference (m : Metadata) : String := m.origin.reference

def isManaged (m : Metadata) : Bool := m.origin.managed

def parent? (m : Metadata) : Option Metadata :=
  match m.ancestors with
  | [] => none
  | o :: os => some ⟨o, os⟩

/-- The node at the end of the walk from `o` through `os`. -/
private def outermost (o : Origin) : List Origin → Metadata
  | [] => ⟨o, []⟩
  | p :: ps => outermost p ps

/-- The outermost enclosing node, which is the node itself when nothing encloses it. -/
def root (m : Metadata) : Metadata := outermost m.origin m.ancestors

private def crumbsFrom (o : Origin) : List Origin → List Metadata
  | [] => [⟨o, []⟩]
  | p :: ps => ⟨o, p :: ps⟩ :: crumbsFrom p ps

/-- The node and then each enclosing one, innermost first. -/
def breadcrumbs (m : Metadata) : List Metadata := crumbsFrom m.origin m.ancestors

/-- The nearest reference that is not empty, walking outwards; empty if there is none. -/
def effectiveReference (m : Metadata) : String :=
  ((m.breadcrumbs.map reference).find? (· != "")).getD ""

end Metadata

/-- Whether a value was written in the source or filled in as a default. -/
inductive Provenance where
  | explicit
  | default
  deriving DecidableEq, Repr

def Provenance.name : Provenance → String
  | .explicit => "explicit"
  | .default => "default"

def Provenance.ofName? (s : String) : Option Provenance :=
  [Provenance.explicit, .default].find? (·.name == s)

structure Managed (α : Type) where
  value : α
  metadata : Metadata
  provenance : Provenance
  deriving DecidableEq, Repr

namespace Managed

def explicit {α : Type} (value : α) (metadata : Metadata) : Managed α :=
  ⟨value, metadata, .explicit⟩

def defaulted {α : Type} (value : α) (metadata : Metadata) : Managed α :=
  ⟨value, metadata, .default⟩

def absent {α : Type} (value : α) : Managed α := defaulted value .unmanaged

def isExplicit {α : Type} (m : Managed α) : Bool := m.provenance == .explicit

def isDefault {α : Type} (m : Managed α) : Bool := m.provenance == .default

/-- Equality of values, whatever the metadata. -/
def sameValue {α : Type} [BEq α] (a b : Managed α) : Bool := a.value == b.value

def order {α : Type} [Ord α] (a b : Managed α) : Ordering := compare a.value b.value

/-- The one with the greater value, the second when the values agree. -/
def max {α : Type} [Ord α] (a b : Managed α) : Managed α :=
  match order a b with
  | .gt => a
  | _ => b

end Managed

inductive Flag where
  | on
  | off
  | unset
  deriving DecidableEq, Repr

namespace Managed

/-- A default leaves the flag unset, whatever value it carries. -/
def flag (b : Managed Bool) : Flag :=
  match b.provenance, b.value with
  | .default, _ => .unset
  | .explicit, true => .on
  | .explicit, false => .off

def isExplicitlyTrue (b : Managed Bool) : Bool := b.flag == .on

def isExplicitlyFalse (b : Managed Bool) : Bool := b.flag == .off

def isUnset (b : Managed Bool) : Bool := b.flag == .unset

end Managed

structure Versioning where
  metadata : Metadata := .unmanaged
  enabled : Managed Bool := .absent false
  mfaDelete : Managed Bool := .absent false
  deriving DecidableEq, Repr

structure Encryption where
  metadata : Metadata := .unmanaged
  enabled : Managed Bool := .absent false
  algorithm : Managed String := .absent ""
  kmsKeyId : Managed String := .absent ""
  deriving DecidableEq, Repr

structure Logging where
  metadata : Metadata := .unmanaged
  enabled : Managed Bool := .absent false
  targetBucket : Managed String := .absent ""
  deriving DecidableEq, Repr

structure AccessBlock where
  metadata : Metadata := .unmanaged
  /-- The bucket that a standalone block applies to. -/
  bucket : Managed String := .absent ""
  blockPublicAcls : Managed Bool := .absent false
  blockPublicPolicy : Managed Bool := .absent false
  ignorePublicAcls : Managed Bool := .absent false
  restrictPublicBuckets : Managed Bool := .absent false
  deriving DecidableEq, Repr

structure Bucket where
  metadata : Metadata := .unmanaged
  name : Managed String := .absent ""
  acl : Managed String := .absent ""
  versioning : Versioning := {}
  encryption : Encryption := {}
  logging : Logging := {}
  /-- A block declared inside the bucket. -/
  accessBlock : Option AccessBlock := none
  deriving DecidableEq, Repr

structure Trail where
  metadata : Metadata := .unmanaged
  name : Managed String := .absent ""
  isMultiRegion : Managed Bool := .absent false
  logFileValidation : Managed Bool := .absent false
  kmsKeyId : Managed String := .absent ""
  isLogging : Managed Bool := .absent false
  deriving DecidableEq, Repr

/-- Object storage. Blocks declared inside a bucket are not repeated among the standalone ones. -/
structure Storage where
  buckets : List Bucket := []
  accessBlocks : List AccessBlock := []
  deriving DecidableEq, Repr

structure State where
  storage : Storage := {}
  trails : List Trail := []
  deriving DecidableEq, Repr

/-- Buckets, blocks inside buckets and standalone blocks. -/
def Storage.resourceCount (s : Storage) : Nat :=
  s.buckets.length + (s.buckets.filter (·.accessBlock.isSome)).length + s.accessBlocks.length

namespace State

def resourceCount (s : State) : Nat := s.storage.resourceCount + s.trails.length

def isEmpty (s : State) : Bool := s.resourceCount == 0

/-- Every access block with the bucket that it is declared in, the standalone ones first. -/
def accessBlocks (s : State) : List (AccessBlock × Option Bucket) :=
  s.storage.accessBlocks.map (·, none) ++
    s.storage.buckets.filterMap fun b => b.accessBlock.map (·, some b)

end State

end CloudPolicy
