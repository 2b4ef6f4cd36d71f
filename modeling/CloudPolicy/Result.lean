import CloudPolicy.Rule

/-!
Results: what the outcome of one rule amounts to, how many there are of each status, their canonical
order and the fingerprints that identify them across scans.
-/

set_option autoImplicit false
set_option relaxedAutoImplicit false

namespace CloudPolicy

namespace Sha256

structure Words where
  a : UInt32
  b : UInt32
  c : UInt32
  d : UInt32
  e : UInt32
  f : UInt32
  g : UInt32
  h : UInt32
  deriving DecidableEq, Repr

namespace Words

def add (x y : Words) : Words :=
  ⟨x.a + y.a, x.b + y.b, x.c + y.c, x.d + y.d, x.e + y.e, x.f + y.f, x.g + y.g, x.h + y.h⟩

def toList (x : Words) : List UInt32 := [x.a, x.b, x.c, x.d, x.e, x.f, x.g, x.h]

end Words

/-- Fractional parts of the square roots of the first eight primes. -/
def start : Words :=
  ⟨0x6a09e667, 0xbb67ae85, 0x3c6ef372, 0xa54ff53a, 0x510e527f, 0x9b05688c, 0x1f83d9ab, 0x5be0cd19⟩

/-- Fractional parts of the cube roots of the first sixty-four primes. -/
def roundConstants : List UInt32 :=
  [0x428a2f98, 0x71374491, 0xb5c0fbcf, 0xe9b5dba5, 0x3956c25b, 0x59f111f1, 0x923f82a4, 0xab1c5ed5,
   0xd807aa98, 0x12835b01, 0x243185be, 0x550c7dc3, 0x72be5d74, 0x80deb1fe, 0x9bdc06a7, 0xc19bf174,
   0xe49b69c1, 0xefbe4786, 0x0fc19dc6, 0x240ca1cc, 0x2de92c6f, 0x4a7484aa, 0x5cb0a9dc, 0x76f988da,
   0x983e5152, 0xa831c66d, 0xb00327c8, 0xbf597fc7, 0xc6e00bf3, 0xd5a79147, 0x06ca6351, 0x14292967,
   0x27b70a85, 0x2e1b2138, 0x4d2c6dfc, 0x53380d13, 0x650a7354, 0x766a0abb, 0x81c2c92e, 0x92722c85,
   0xa2bfe8a1, 0xa81a664b, 0xc24b8b70, 0xc76c51a3, 0xd192e819, 0xd6990624, 0xf40e3585, 0x106aa070,
   0x19a4c116, 0x1e376c08, 0x2748774c, 0x34b0bcb5, 0x391c0cb3, 0x4ed8aa4a, 0x5b9cca4f, 0x682e6ff3,
   0x748f82ee, 0x78a5636f, 0x84c87814, 0x8cc70208, 0x90befffa, 0xa4506ceb, 0xbef9a3f7, 0xc67178f2]

def rotate (x : UInt32) (n : UInt32) : UInt32 := (x >>> n) ||| (x <<< (32 - n))

def smallSigma0 (x : UInt32) : UInt32 := rotate x 7 ^^^ rotate x 18 ^^^ (x >>> 3)

def smallSigma1 (x : UInt32) : UInt32 := rotate x 17 ^^^ rotate x 19 ^^^ (x >>> 10)

def bigSigma0 (x : UInt32) : UInt32 := rotate x 2 ^^^ rotate x 13 ^^^ rotate x 22

def bigSigma1 (x : UInt32) : UInt32 := rotate x 6 ^^^ rotate x 11 ^^^ rotate x 25

def round (s : Words) (constant word : UInt32) : Words :=
  let choice := (s.e &&& s.f) ^^^ (~~~s.e &&& s.g)
  let majority := (s.a &&& s.b) ^^^ (s.a &&& s.c) ^^^ (s.b &&& s.c)
  let t := s.h + bigSigma1 s.e + choice + constant + word
  ⟨t + bigSigma0 s.a + majority, s.a, s.b, s.c, s.d + t, s.e, s.f, s.g⟩

/-- The window after one round: the first word leaves and the next word of the schedule enters. -/
def advance (window : List UInt32) : List UInt32 :=
  let next := smallSigma1 (window.getD 14 0) + window.getD 9 0
    + smallSigma0 (window.getD 1 0) + window.getD 0 0
  window.drop 1 ++ [next]

def rounds : List UInt32 → List UInt32 → Words → Words
  | [], _, s => s
  | k :: ks, window, s => rounds ks (advance window) (round s k (window.getD 0 0))

/-- Words of four bytes, the most significant byte first. -/
def words : List UInt8 → List UInt32
  | a :: b :: c :: d :: rest =>
    (a.toUInt32 <<< 24 ||| b.toUInt32 <<< 16 ||| c.toUInt32 <<< 8 ||| d.toUInt32) :: words rest
  | _ => []

def compress (s : Words) (block : List UInt8) : Words :=
  s.add (rounds roundConstants (words block) s)

/-- The message, one set bit, zeros and the length in bits as eight bytes: a whole number of
blocks. -/
def padded (message : List UInt8) : List UInt8 :=
  let zeros := (119 - message.length % 64) % 64
  let bits := 8 * message.length
  message ++ 0x80 :: List.replicate zeros 0 ++
    [56, 48, 40, 32, 24, 16, 8, 0].map fun shift => UInt8.ofNat (bits / Nat.pow 2 shift)

/-- Feeds blocks to the state, as many as `count`. -/
def absorb : Nat → Words → List UInt8 → Words
  | 0, s, _ => s
  | count + 1, s, bytes => absorb count (compress s (bytes.take 64)) (bytes.drop 64)

def digest (message : List UInt8) : Words :=
  let bytes := padded message
  absorb (bytes.length / 64) start bytes

def wordHex (w : UInt32) : List Char :=
  [28, 24, 20, 16, 12, 8, 4, 0].map fun shift => Text.hexDigit (w.toNat / Nat.pow 2 shift % 16)

def hex (message : List UInt8) : String :=
  String.ofList ((digest message).toList.flatMap wordHex)

end Sha256

structure Identity where
  ruleId : String
  status : String
  file : String
  line : Nat
  reference : String
  description : String
  deriving DecidableEq, Repr

namespace Identity

def joined (i : Identity) : String :=
  i.ruleId ++ "|" ++ i.status ++ "|" ++ i.file ++ "|" ++ toString i.line ++
    "|" ++ i.reference ++ "|" ++ i.description

def fingerprint (i : Identity) : String := Sha256.hex (Text.utf8 i.joined)

end Identity

/-- Decides which findings are accepted risks. -/
abbrev Suppressor : Type := Definition → Finding → Bool

structure Result where
  status : Status
  rule : Definition
  description : String
  /-- The metadata of the flagged value; passes and faults have none. -/
  location : Option Metadata
  /-- Whether the check broke off. -/
  isFault : Bool
  deriving DecidableEq, Repr

namespace Result

def ruleId (r : Result) : String := r.rule.longId

def range (r : Result) : Option Location := r.location.map (·.range)

def identity (r : Result) : Identity :=
  match r.location with
  | some m =>
    ⟨r.ruleId, r.status.name, m.range.file.text, m.range.startLine.toNat, m.effectiveReference,
      r.description⟩
  | none => ⟨r.ruleId, r.status.name, "", 0, "", r.description⟩

def fingerprint (r : Result) : String := r.identity.fingerprint

/-- A finding as a result, ignored if the suppressor accepts it. -/
def ofFinding (rule : Definition) (suppressor : Option Suppressor) (f : Finding) : Result :=
  let suppressed := suppressor.any fun s => s rule f
  ⟨if suppressed then .ignored else .failed, rule, f.description, some f.location, false⟩

def classify (rule : Definition) (outcome : Outcome) (suppressor : Option Suppressor) :
    List Result :=
  match outcome with
  | .findings [] => [⟨.passed, rule, rule.summary, none, false⟩]
  | .findings found => found.map (ofFinding rule suppressor)
  | .fault fault =>
    [⟨.failed, rule,
      "rule '" ++ rule.longId ++ "' faulted during evaluation: " ++ fault.message, none, true⟩]

end Result

structure StatusCounts where
  passed : UInt32
  failed : UInt32
  ignored : UInt32
  deriving DecidableEq, Repr

namespace Results

def withStatus (rs : List Result) (s : Status) : List Result := rs.filter (·.status == s)

def forRule (rs : List Result) (id : String) : List Result := rs.filter (·.ruleId == id)

private def countOf (rs : List Result) (p : Result → Bool) : UInt32 := UInt32.ofNat (rs.countP p)

def counts (rs : List Result) : StatusCounts :=
  ⟨countOf rs (·.status == .passed), countOf rs (·.status == .failed),
    countOf rs (·.status == .ignored)⟩

def failedBySeverity (rs : List Result) : SeverityCounts :=
  (withStatus rs .failed).foldl (fun c r => c.bump r.rule.severity) {}

/-- What results are ordered by. A result without location counts as standing in file `~` on the
last line. -/
structure SortKey where
  ruleId : String
  file : String
  line : Nat
  description : String
  deriving DecidableEq, Repr

/-- Rule, file, line and description, in this order; texts by their bytes. -/
def SortKey.order (a b : SortKey) : Ordering :=
  (compare a.ruleId b.ruleId).then <| (compare a.file b.file).then <|
    (compare a.line b.line).then (compare a.description b.description)

def sortKey (r : Result) : SortKey :=
  match r.range with
  | some l => ⟨r.ruleId, l.file.text, l.startLine.toNat, r.description⟩
  | none => ⟨r.ruleId, "~", UInt32.size - 1, r.description⟩

def notAfter (a b : Result) : Bool := (sortKey a).order (sortKey b) != .gt

/-- The canonical order; results that agree on all keys keep their order. -/
def sortCanonical (rs : List Result) : List Result := rs.mergeSort notAfter

end Results

end CloudPolicy
