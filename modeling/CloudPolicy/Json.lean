import CloudPolicy.Text

/-!
JSON documents, read from text, written and decoded. Documents keep the order of members, repeated
keys and whether a number was written as an integer; a part that is well-formed but has no value (a
number beyond every double, a string with half of a surrogate pair) is `unreadable`, which may be
skipped but never read.
-/

set_option autoImplicit false
set_option relaxedAutoImplicit false

namespace CloudPolicy

namespace Double

/-- A natural number rounded to 53 binary digits, ties to the even neighbour. -/
def round (n : Nat) : Nat :=
  if n < Nat.pow 2 53 then n
  else
    let unit := Nat.pow 2 (Nat.log2 n - 52)
    let down := n / unit
    let rest := n % unit
    let up := unit < 2 * rest || (unit == 2 * rest && down % 2 == 1)
    (if up then down + 1 else down) * unit

/-- Half a unit above the largest double: from here on numbers round to infinity. -/
def infinity : Nat := Nat.pow 2 1024 - Nat.pow 2 970

end Double

inductive Json where
  | null
  | bool (value : Bool)
  /-- A number written without fraction and exponent, other than `-0`. -/
  | integer (value : Int)
  /-- Any other number: the sign, the digits and the power of ten they are scaled by. -/
  | decimal (negative : Bool) (digits : Nat) (exponent : Int)
  | string (text : String)
  | array (items : List Json)
  | object (members : List (String × Json))
  /-- Well-formed text without a value. -/
  | unreadable
  deriving Inhabited

namespace Json

/-- How many arrays and objects a document that is read as a whole may nest. -/
def nestingLimit : Nat := 127

/-- Whether the whole document has a value and nests at most `limit` arrays and objects. -/
def readable : Nat → Json → Bool
  | _, .unreadable => false
  | limit + 1, .array items => items.all (readable limit)
  | limit + 1, .object members => members.all fun m => readable limit m.2
  | 0, .array _ => false
  | 0, .object _ => false
  | _, _ => true

def lastWins {α : Type} : List (String × α) → List (String × α)
  | [] => []
  | m :: ms => if ms.any (·.1 == m.1) then lastWins ms else m :: lastWins ms

/-- The document as plain data: the last of repeated keys counts. Nothing if a part has no value or
the nesting exceeds `limit`. -/
def plain? : Nat → Json → Option Json
  | _, .unreadable => none
  | limit + 1, .array items => (items.mapM (plain? limit)).map .array
  | limit + 1, .object members =>
    (members.mapM fun m => (plain? limit m.2).map (m.1, ·)).map fun ms => .object (lastWins ms)
  | 0, .array _ => none
  | 0, .object _ => none
  | _, v => some v

def member? (v : Json) (key : String) : Option Json :=
  match v with
  | .object members => members.lookup key
  | _ => none

def text? : Json → Option String
  | .string s => some s
  | _ => none

end Json

namespace Json

/-- A number literal: integer digits, fraction digits and exponent, each as written. -/
structure Literal where
  negative : Bool
  whole : List Char
  fraction : List Char
  /-- The exponent, if one is written. -/
  exponent : Option Int
  deriving DecidableEq, Repr

namespace Literal

/-- Takes digits into a 64-bit number as long as they fit; gives the number and the digits left
over. -/
def takeDigits (n : Nat) : List Char → Nat × List Char
  | [] => (n, [])
  | c :: cs =>
    let next := 10 * n + Text.digitValue c
    if next < UInt64.size then takeDigits next cs else (n, c :: cs)

def overflows (l : Literal) : Bool :=
  let (n, wholeLeft) := takeDigits 0 l.whole
  let (n, fractionLeft) := takeDigits n l.fraction
  let scale : Int := wholeLeft.length - (l.fraction.length - fractionLeft.length : Nat)
    + l.exponent.getD 0
  n != 0 && (308 < scale ||
    (0 ≤ scale && Double.infinity ≤ Double.round n * Double.round (Nat.pow 10 scale.toNat)))

/-- The value of the literal; minus zero is no integer. -/
def value (l : Literal) : Json :=
  if l.overflows then .unreadable
  else
    let n := Text.decimal (l.whole ++ l.fraction)
    if l.fraction.isEmpty && l.exponent.isNone && !(l.negative && n == 0) then
      .integer (if l.negative then -(n : Int) else n)
    else .decimal l.negative n (l.exponent.getD 0 - l.fraction.length)

end Literal

def digits? (cs : List Char) : Option (List Char × List Char) :=
  match cs.takeWhile Char.isDigit with
  | [] => none
  | ds => some (ds, cs.dropWhile Char.isDigit)

def fraction? : List Char → Option (List Char × List Char)
  | '.' :: cs => digits? cs
  | cs => some ([], cs)

def signed? : List Char → Option (Int × List Char)
  | '-' :: cs => (digits? cs).map fun (ds, r) => (-(Text.decimal ds : Int), r)
  | '+' :: cs => (digits? cs).map fun (ds, r) => ((Text.decimal ds : Int), r)
  | cs => (digits? cs).map fun (ds, r) => ((Text.decimal ds : Int), r)

def exponent? : List Char → Option (Option Int × List Char)
  | 'e' :: cs => (signed? cs).map fun (n, r) => (some n, r)
  | 'E' :: cs => (signed? cs).map fun (n, r) => (some n, r)
  | cs => some (none, cs)

/-- A number literal at the front of the text; zero is the only one that starts with the digit
zero. -/
def Literal.read? (cs : List Char) : Option (Literal × List Char) := do
  let (negative, cs) := match cs with
    | '-' :: r => (true, r)
    | r => (false, r)
  let (whole, cs) ← digits? cs
  if whole.head? == some '0' && whole.length != 1 then none
  let (fraction, cs) ← fraction? cs
  let (exponent, cs) ← exponent? cs
  return (⟨negative, whole, fraction, exponent⟩, cs)

inductive Token where
  | beginArray
  | endArray
  | beginObject
  | endObject
  | comma
  | colon
  /-- A string; `none` stands for one that denotes no text. -/
  | text (value : Option String)
  /-- Any other value that is written in one piece. -/
  | scalar (value : Json)

namespace Token

def isSpace (c : Char) : Bool := c == ' ' || c == '\t' || c == '\n' || c == '\r'

def hexUnit? (a b c d : Char) : Option Nat := do
  let a ← Text.hexValue? a
  let b ← Text.hexValue? b
  let c ← Text.hexValue? c
  let d ← Text.hexValue? d
  return ((a * 16 + b) * 16 + c) * 16 + d

def shortEscape? : Char → Option Char
  | '"' => some '"'
  | '\\' => some '\\'
  | '/' => some '/'
  | 'b' => some '\x08'
  | 'f' => some '\x0c'
  | 'n' => some '\n'
  | 'r' => some '\r'
  | 't' => some '\t'
  | _ => none

/-- The code units of a string up to its closing quote, and what follows the quote. An unescaped
character counts as one unit whatever its size; control characters have to be escaped. -/
def units? : List Char → Option (List Nat × List Char)
  | [] => none
  | '"' :: cs => some ([], cs)
  | '\\' :: 'u' :: a :: b :: c :: d :: cs =>
    match hexUnit? a b c d, units? cs with
    | some n, some (ns, r) => some (n :: ns, r)
    | _, _ => none
  | '\\' :: e :: cs =>
    match shortEscape? e, units? cs with
    | some c, some (ns, r) => some (c.toNat :: ns, r)
    | _, _ => none
  | c :: cs =>
    if c == '\\' || c.toNat < 0x20 then none
    else (units? cs).map fun (ns, r) => (c.toNat :: ns, r)

/-- The characters of code units: a high surrogate joins the low one after it, and no other
surrogate stands for anything. -/
def chars? : List Nat → Option (List Char)
  | [] => some []
  | n :: ns =>
    if 0xD800 ≤ n ∧ n < 0xDC00 then
      match ns with
      | [] => none
      | m :: ms =>
        if 0xDC00 ≤ m ∧ m < 0xE000 then
          (chars? ms).map (Char.ofNat (0x10000 + (n - 0xD800) * 0x400 + (m - 0xDC00)) :: ·)
        else none
    else if 0xDC00 ≤ n ∧ n < 0xE000 then none
    else (chars? ns).map (Char.ofNat n :: ·)

/-- The token at the front of a text that starts with `c`, and what follows it. -/
def next? (c : Char) (cs : List Char) : Option (Token × List Char) :=
  match c, cs with
  | '[', _ => some (.beginArray, cs)
  | ']', _ => some (.endArray, cs)
  | '{', _ => some (.beginObject, cs)
  | '}', _ => some (.endObject, cs)
  | ',', _ => some (.comma, cs)
  | ':', _ => some (.colon, cs)
  | '"', _ => (units? cs).map fun (ns, r) => (.text ((chars? ns).map String.ofList), r)
  | 'n', 'u' :: 'l' :: 'l' :: r => some (.scalar .null, r)
  | 't', 'r' :: 'u' :: 'e' :: r => some (.scalar (.bool true), r)
  | 'f', 'a' :: 'l' :: 's' :: 'e' :: r => some (.scalar (.bool false), r)
  | _, _ => (Literal.read? (c :: cs)).map fun (l, r) => (.scalar l.value, r)

def scanFrom : Nat → List Token → List Char → Option (List Token)
  | _, done, [] => some done.reverse
  | 0, _, _ :: _ => none
  | fuel + 1, done, c :: cs =>
    if isSpace c then scanFrom fuel done cs
    else match next? c cs with
      | none => none
      | some (t, rest) => scanFrom fuel (t :: done) rest

/-- The tokens of a text; nothing if a part of it is no token. Every step takes a character at
least, so that the length of the text bounds the steps. -/
def scan (cs : List Char) : Option (List Token) := scanFrom cs.length [] cs

end Token

/-- An open array or object, with what it holds so far, the last part first. -/
inductive Frame where
  | array (done : List Json)
  /-- An object that waits for the value under `key`. -/
  | member (done : List (Option String × Json)) (key : Option String)

inductive Expects where
  | value
  /-- The first item of an array, or its end. -/
  | firstItem
  /-- The first key of an object, or its end. -/
  | firstKey
  /-- A further key, after the members in `done`. -/
  | key (done : List (Option String × Json))
  /-- The colon after a key. -/
  | colon (done : List (Option String × Json)) (key : Option String)
  /-- Whatever may follow the complete value `v`. -/
  | afterValue (v : Json)

def ofText : Option String → Json
  | some s => .string s
  | none => .unreadable

/-- An object of members; one key without text leaves the whole object without value. -/
def ofMembers (members : List (Option String × Json)) : Json :=
  match members.mapM fun m => m.1.map (·, m.2) with
  | some ms => .object ms
  | none => .unreadable

def beginValue (stack : List Frame) : Token → Option (Expects × List Frame)
  | .beginArray => some (.firstItem, stack)
  | .beginObject => some (.firstKey, stack)
  | .text s => some (.afterValue (ofText s), stack)
  | .scalar v => some (.afterValue v, stack)
  | _ => none

def step : Expects → List Frame → Token → Option (Expects × List Frame)
  | .value, stack, t => beginValue stack t
  | .firstItem, stack, .endArray => some (.afterValue (.array []), stack)
  | .firstItem, stack, t => beginValue (.array [] :: stack) t
  | .firstKey, stack, .endObject => some (.afterValue (.object []), stack)
  | .firstKey, stack, .text k => some (.colon [] k, stack)
  | .key done, stack, .text k => some (.colon done k, stack)
  | .colon done k, stack, .colon => some (.value, .member done k :: stack)
  | .afterValue v, .array done :: stack, .comma => some (.value, .array (v :: done) :: stack)
  | .afterValue v, .array done :: stack, .endArray =>
    some (.afterValue (.array (v :: done).reverse), stack)
  | .afterValue v, .member done k :: stack, .comma => some (.key ((k, v) :: done), stack)
  | .afterValue v, .member done k :: stack, .endObject =>
    some (.afterValue (ofMembers ((k, v) :: done).reverse), stack)
  | _, _, _ => none

/-- Runs the machine; at the end of the tokens one complete value has to stand alone. -/
def run : Expects → List Frame → List Token → Option Json
  | .afterValue v, [], [] => some v
  | _, _, [] => none
  | e, stack, t :: ts =>
    match step e stack t with
    | some (e, stack) => run e stack ts
    | none => none

/-- The document that a text holds; nothing if the text is not well-formed. -/
def parse? (text : String) : Option Json := do
  let tokens ← Token.scan text.toList
  run .value [] tokens

def escapeChar (c : Char) : List Char :=
  match c with
  | '"' => ['\\', '"']
  | '\\' => ['\\', '\\']
  | '\x08' => ['\\', 'b']
  | '\x0c' => ['\\', 'f']
  | '\n' => ['\\', 'n']
  | '\r' => ['\\', 'r']
  | '\t' => ['\\', 't']
  | c =>
    if c.toNat < 0x20 then
      ['\\', 'u', '0', '0', Text.hexDigit (c.toNat / 16), Text.hexDigit (c.toNat % 16)]
    else [c]

def quote (s : String) : String :=
  "\"" ++ String.ofList (s.toList.flatMap escapeChar) ++ "\""

def newLine (level : Nat) : String :=
  "\n" ++ String.ofList (List.replicate (2 * level) ' ')

mutual

def writeAt (level : Nat) : Json → String
  | .null => "null"
  | .bool true => "true"
  | .bool false => "false"
  | .integer n => toString n
  | .decimal negative digits exponent =>
    (if negative then "-" else "") ++ toString digits ++ "e" ++ toString exponent
  | .string s => quote s
  | .array [] => "[]"
  | .array (v :: vs) =>
    "[" ++ newLine (level + 1) ++ writeAt (level + 1) v ++ writeItems (level + 1) vs
      ++ newLine level ++ "]"
  | .object [] => "\x7b\x7d"
  | .object ((k, v) :: ms) =>
    "\x7b" ++ newLine (level + 1) ++ quote k ++ ": " ++ writeAt (level + 1) v
      ++ writeMembers (level + 1) ms ++ newLine level ++ "\x7d"
  | .unreadable => "null"

def writeItems (level : Nat) : List Json → String
  | [] => ""
  | v :: vs => "," ++ newLine level ++ writeAt level v ++ writeItems level vs

def writeMembers (level : Nat) : List (String × Json) → String
  | [] => ""
  | (k, v) :: ms =>
    "," ++ newLine level ++ quote k ++ ": " ++ writeAt level v ++ writeMembers level ms

end

def pretty (v : Json) : String := writeAt 0 v

/-- Reads a value that may nest a given number of arrays and objects. -/
abbrev Decoder (α : Type) : Type := Nat → Json → Option α

/-- The members that a record's text gives for the record's fields. -/
abbrev Fields : Type := List (String × Json)

namespace Decoder

variable {α : Type}

def bool : Decoder Bool
  | _, .bool b => some b
  | _, _ => none

def string : Decoder String
  | _, .string s => some s
  | _, _ => none

def word32 : Decoder UInt32
  | _, .integer n => if 0 ≤ n ∧ n < UInt32.size then some (UInt32.ofNat n.toNat) else none
  | _, _ => none

def int64 : Decoder Int64
  | _, .integer n => if Int64.minValue.toInt ≤ n ∧
      n ≤ Int64.maxValue.toInt then some (Int64.ofInt n) else none
  | _, _ => none

def nullable (d : Decoder α) : Decoder (Option α)
  | _, .null => some none
  | depth, v => (d depth v).map some

def list (d : Decoder α) : Decoder (List α)
  | depth + 1, .array items => items.mapM (d depth)
  | _, _ => none

/-- An object of values under any keys; the last value of a repeated key counts, but all must be
values. -/
def dictionary (d : Decoder α) : Decoder (List (String × α))
  | depth + 1, .object members =>
    (members.mapM fun m => (d depth m.2).map (m.1, ·)).map lastWins
  | _, _ => none

/-- A name out of a fixed vocabulary, alone or as the only key of an object, over null. -/
def named (ofName? : String → Option α) : Decoder α
  | _, .string s => ofName? s
  | _ + 1, .object [(s, .null)] => ofName? s
  | _, _ => none

/-- The fields of a record that are present. No field may be given twice, and an array may not have
more items than the record has fields. -/
def fields? (names : List String) : Json → Option Fields
  | .object members =>
    let known := members.filter fun m => names.contains m.1
    if (known.map (·.1)).Nodup then some known else none
  | .array items => if items.length ≤ names.length then some (names.zip items) else none
  | _ => none

/-- A record with these fields, made by `build` from those that are present. -/
def record (names : List String) (build : Nat → Fields → Option α) : Decoder α
  | depth + 1, v => (fields? names v).bind (build depth)
  | 0, _ => none

end Decoder

namespace Fields

variable {α : Type}

def required (fs : Fields) (name : String) (d : Json → Option α) : Option α :=
  (fs.lookup name).bind d

def withDefault (fs : Fields) (name : String) (default : α) (d : Json → Option α) : Option α :=
  match fs.lookup name with
  | none => some default
  | some v => d v

def optional (fs : Fields) (name : String) (d : Json → Option α) : Option (Option α) :=
  match fs.lookup name with
  | none => some none
  | some .null => some none
  | some v => (d v).map some

end Fields

end Json

end CloudPolicy
