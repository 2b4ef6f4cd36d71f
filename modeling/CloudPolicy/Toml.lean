import CloudPolicy.Json
import CloudPolicy.Time

/-!
TOML files: strings in their four forms, values without quotes, statements and the document that
they define. A number is kept as it is written, however large. A key is defined once; a table may be
opened by one header, or grow by dotted keys, but not both.
-/

set_option autoImplicit false
set_option relaxedAutoImplicit false

namespace CloudPolicy

inductive Toml where
  | string (text : String)
  | integer (value : Int)
  /-- A text that looks like an integer, but whose digits do not make a number. -/
  | malformedInteger (text : String)
  /-- A finite number with a fraction or an exponent: its sign, its digits and the power of ten they
  are scaled by. -/
  | decimal (negative : Bool) (digits : Nat) (exponent : Int)
  /-- An infinity or no number at all. -/
  | nonFinite
  | boolean (value : Bool)
  /-- A date, a time or both, as written. -/
  | datetime (text : String)
  | array (items : List Toml)
  | table (entries : List (String × Toml))
  deriving Inhabited

namespace Toml

/-- Whether a decimal rounds to a finite double. The number of digits settles all but the closest
cases. -/
def isFinite (digits : Nat) (exponent : Int) : Bool :=
  let places : Int := (Nat.toDigits 10 digits).length + exponent
  digits == 0 || places ≤ 308 ||
    (places ≤ 310 &&
      digits * Nat.pow 10 exponent.toNat < Double.infinity * Nat.pow 10 (-exponent).toNat)

mutual

/-- Whether every number inside can be taken: integers of 128 bits, finite decimals. -/
def fits : Toml → Bool
  | .malformedInteger _ => false
  | .integer n => -(Nat.pow 2 127 : Int) ≤ n && n < (Nat.pow 2 128 : Int)
  | .decimal _ digits exponent => isFinite digits exponent
  | .array items => allFit items
  | .table entries => entriesFit entries
  | _ => true

private def allFit : List Toml → Bool
  | [] => true
  | v :: vs => v.fits && allFit vs

private def entriesFit : List (String × Toml) → Bool
  | [] => true
  | (_, v) :: es => v.fits && entriesFit es

end

end Toml

namespace Toml

/-- Characters that strings and comments may hold as they are: a tab and all but the control
characters. -/
def isPrintable (c : Char) : Bool := c == '\t' || (0x20 ≤ c.toNat && c.toNat != 0x7F)

def isSpace (c : Char) : Bool := c == ' ' || c == '\t'

namespace Quoted

def scalar? (n : Nat) : Option Char :=
  if n < 0xD800 || (0xDFFF < n && n < 0x110000) then some (Char.ofNat n) else none

private def hexEscape? (width : Nat) (cs : List Char) : Option (Char × List Char) := do
  let ds := cs.take width
  if ds.length != width then none
  let n ← ds.foldlM (fun n c => (Text.hexValue? c).map (16 * n + ·)) 0
  let c ← scalar? n
  return (c, cs.drop width)

def escape? : List Char → Option (Char × List Char)
  | 'b' :: r => some ('\x08', r)
  | 't' :: r => some ('\t', r)
  | 'n' :: r => some ('\n', r)
  | 'f' :: r => some ('\x0c', r)
  | 'r' :: r => some ('\r', r)
  | 'e' :: r => some ('\x1b', r)
  | '"' :: r => some ('"', r)
  | '\\' :: r => some ('\\', r)
  | 'x' :: r => hexEscape? 2 r
  | 'u' :: r => hexEscape? 4 r
  | 'U' :: r => hexEscape? 8 r
  | _ => none

/-- Whether only blanks are left on the line, so that a backslash joins it to the next text. -/
private def restIsBlank (cs : List Char) : Bool :=
  match cs.dropWhile isSpace with
  | '\n' :: _ => true
  | '\r' :: '\n' :: _ => true
  | _ => false

private def dropBreaks : List Char → List Char
  | '\r' :: '\n' :: cs => dropBreaks cs
  | '\n' :: cs => dropBreaks cs
  | ' ' :: cs => dropBreaks cs
  | '\t' :: cs => dropBreaks cs
  | cs => cs

private def dropBreak : List Char → List Char
  | '\r' :: '\n' :: cs => cs
  | '\n' :: cs => cs
  | cs => cs

/-- The rest of a string on one line, up to its closing quote; `done` holds what has been read, the
last character first. -/
private def lineFrom (quote : Char) (escapes : Bool) :
    Nat → List Char → List Char → Option (String × List Char)
  | 0, _, _ => none
  | _, _, [] => none
  | fuel + 1, done, c :: cs =>
    if c == quote then some (String.ofList done.reverse, cs)
    else if escapes && c == '\\' then
      match escape? cs with
      | some (e, r) => lineFrom quote escapes fuel (e :: done) r
      | none => none
    else if isPrintable c then lineFrom quote escapes fuel (c :: done) cs
    else none

/-- The rest of a string on several lines, up to its three closing quotes; one or two more quotes
right in front of them belong to the string. -/
private def blockFrom (quote : Char) (escapes : Bool) :
    Nat → List Char → List Char → Option (String × List Char)
  | 0, _, _ => none
  | _, _, [] => none
  | fuel + 1, done, c :: cs =>
    if c == quote then
      let run := (cs.takeWhile (· == quote)).length + 1
      if 3 ≤ run then
        let kept := min run 5 - 3
        some (String.ofList (List.replicate kept quote ++ done).reverse, cs.drop (kept + 2))
      else blockFrom quote escapes fuel (c :: done) cs
    else if escapes && c == '\\' then
      if restIsBlank cs then blockFrom quote escapes fuel done (dropBreaks cs)
      else match escape? cs with
        | some (e, r) => blockFrom quote escapes fuel (e :: done) r
        | none => none
    else if c == '\n' then blockFrom quote escapes fuel ('\n' :: done) cs
    else if c == '\r' then
      match cs with
      | '\n' :: r => blockFrom quote escapes fuel ('\n' :: '\r' :: done) r
      | _ => none
    else if isPrintable c then blockFrom quote escapes fuel (c :: done) cs
    else none

def line? (bound : Nat) (quote : Char) (cs : List Char) : Option (String × List Char) :=
  lineFrom quote (quote == '"') (bound + 1) [] cs

def block? (bound : Nat) (quote : Char) (cs : List Char) : Option (String × List Char) :=
  blockFrom quote (quote == '"') (bound + 1) [] (dropBreak cs)

end Quoted

end Toml

namespace Toml.Scalar

/-! ### Numbers -/

private def unsigned : List Char → Bool × List Char
  | '-' :: cs => (true, cs)
  | '+' :: cs => (false, cs)
  | cs => (false, cs)

private def withSign (negative : Bool) (n : Nat) : Int := if negative then -(n : Int) else n

private def withoutUnderscores (cs : List Char) : List Char := cs.filter (· != '_')

private def isHexDigit (c : Char) : Bool := (Text.hexValue? c).isSome

/-- Whether every underscore stands between digits. -/
private def underscoresFit (isDigit : Char → Bool) (cs : List Char) : Bool :=
  let pieces := Text.splitAt '_' cs
  (pieces.drop 1).all (·.head?.any isDigit) && pieces.dropLast.all (·.getLast?.any isDigit)

private def ofBase? (base : Nat) (text : List Char) : Option Toml :=
  let body := text.drop 2
  let ds := withoutUnderscores body
  let isDigit := fun c => (Text.hexValue? c).any (decide <| · < base)
  if !ds.all isDigit || !underscoresFit isHexDigit body then none
  else if ds.isEmpty then some (.malformedInteger (String.ofList text))
  else some (.integer (ds.foldl (fun n c => base * n + (Text.hexValue? c).getD 0) 0))

private def plainInteger? (text : List Char) : Option Toml :=
  let (negative, ds) := unsigned text
  if ds.isEmpty || (ds.head? == some '0' && ds.length != 1) then none
  else some (.integer (withSign negative (Text.decimal ds)))

private def groupedInteger? (text : List Char) : Option Toml :=
  let (negative, body) := unsigned text
  let ds := withoutUnderscores body
  if body.head? == some '0' || !underscoresFit isHexDigit text then none
  else if ds.all Char.isDigit then some (.integer (withSign negative (Text.decimal ds)))
  else some (.malformedInteger (String.ofList text))

private def digitRun? (cs : List Char) : Option (List Char × List Char) :=
  let isPart := fun c => Char.isDigit c || c == '_'
  let ds := withoutUnderscores (cs.takeWhile isPart)
  if ds.isEmpty then none else some (ds, cs.dropWhile isPart)

private def fraction? : List Char → Option (List Char × List Char)
  | '.' :: cs => digitRun? cs
  | cs => some ([], cs)

private def exponent? : List Char → Option Int
  | [] => some 0
  | mark :: cs => do
    let (negative, cs) := unsigned cs
    let (ds, rest) ← digitRun? cs
    if (mark != 'e' && mark != 'E') || !rest.isEmpty then none
    return withSign negative (Text.decimal ds)

private def decimal? (text : List Char) : Option Toml := do
  let (negative, body) := unsigned text
  let (whole, rest) ← digitRun? body
  let (fraction, rest) ← fraction? rest
  let exponent ← exponent? rest
  if (body.head? == some '0' && whole.length != 1) || !underscoresFit Char.isDigit text then none
  return .decimal negative (Text.decimal (whole ++ fraction)) (exponent - fraction.length)

/-! ### Dates and times -/

/-- A number of two digits that is at most `limit`. -/
private def pair? (limit : Nat) : List Char → Option (List Char)
  | a :: b :: cs =>
    if a.isDigit && b.isDigit && Text.decimal [a, b] ≤ limit then some cs else none
  | _ => none

private def date? : List Char → Option (List Char)
  | a :: b :: c :: d :: '-' :: e :: f :: '-' :: g :: h :: cs =>
    if [a, b, c, d, e, f, g, h].all Char.isDigit &&
        Calendar.isDate (Text.decimal [a, b, c, d]) (Text.decimal [e, f]) (Text.decimal [g, h])
    then some cs else none
  | _ => none

private def secondFraction? : List Char → Option (List Char)
  | '.' :: c :: cs => if c.isDigit then some (cs.dropWhile Char.isDigit) else none
  | '.' :: [] => none
  | cs => some cs

/-- A time at the front of the text; seconds may be left out, and there may be a sixtieth. -/
private def time? (cs : List Char) : Option (List Char) := do
  let cs ← pair? 23 cs
  let ':' :: cs := cs | none
  let cs ← pair? 59 cs
  match cs with
  | ':' :: cs => do
    let cs ← pair? 60 cs
    secondFraction? cs
  | cs => some cs

private def isOffset : List Char → Bool
  | [] => true
  | ['Z'] => true
  | ['z'] => true
  | sign :: cs =>
    (sign == '+' || sign == '-') &&
      match pair? 23 cs with
      | some (':' :: cs) => pair? 59 cs == some []
      | _ => false

/-- Whether the text is a time, a date, or a date with a time that may have an offset. -/
def isDatetime (cs : List Char) : Bool :=
  time? cs == some [] ||
    match date? cs with
    | none => false
    | some [] => true
    | some (c :: cs) => (c == 'T' || c == 't' || c == ' ') && (time? cs).any isOffset

/-! ### Values -/

/-- A text that begins with digits, perhaps after a sign. What follows the digits says what it has
to be. -/
private def ofDigits? (text : List Char) : Option Toml :=
  match (unsigned text).2.dropWhile Char.isDigit with
  | [] => plainInteger? text
  | c :: cs =>
    if c == '-' || c == ':' then
      if isDatetime text then some (.datetime (String.ofList text)) else none
    else if (c :: cs).contains ' ' then none
    else if (c :: cs).any fun c => c == '.' || c == 'e' || c == 'E' then decimal? text
    else if c == '_' then groupedInteger? text
    else none

def ofChars? (text : List Char) : Option Toml :=
  if text == "true".toList then some (.boolean true)
  else if text == "false".toList then some (.boolean false)
  else if (unsigned text).2 == "inf".toList || (unsigned text).2 ==
    "nan".toList then some .nonFinite
  else match text with
    | '0' :: 'x' :: _ => ofBase? 16 text
    | '0' :: 'o' :: _ => ofBase? 8 text
    | '0' :: 'b' :: _ => ofBase? 2 text
    | _ => ofDigits? text

/-- Whether a character ends a word: blanks, line breaks and the marks of keys, arrays and
tables. -/
private def endsWord (c : Char) : Bool := isSpace c || "\n\r.=,[]\x7b\x7d#".toList.contains c

/-- Whether a character begins a word; a quote begins a string instead. -/
private def beginsWord (c : Char) : Bool := !endsWord c && c != '"' && c != '\''

private def goesOn (cs : List Char) : Bool :=
  (cs.dropWhile isSpace).head?.any fun c => c == '.' || beginsWord c

/-- The text without quotes at the front, after what has been read of it, the last character first:
words with dots and blanks between them. `inWord` says whether the character in front is one of a
word, which quotes do not end. -/
private def textFrom : Bool → List Char → List Char → List Char × List Char
  | _, done, [] => (done.reverse, [])
  | inWord, done, c :: cs =>
    if c == '.' || (isSpace c && goesOn cs) then textFrom false (c :: done) cs
    else if (if inWord then !endsWord c else beginsWord c) then textFrom true (c :: done) cs
    else (done.reverse, c :: cs)

def read? (cs : List Char) : Option (Toml × List Char) := do
  let (text, rest) := textFrom false [] cs
  let v ← ofChars? text
  return (v, rest)

end Toml.Scalar

namespace Toml

inductive Expr where
  | scalar (value : Toml)
  | array (items : List Expr)
  /-- A table in braces: dotted keys with their values. -/
  | inlineTable (entries : List (List String × Expr))

/-- A statement. Dotted keys are never empty. -/
inductive Statement where
  /-- Opens a table. -/
  | header (key : List String)
  /-- Opens a further table of a list of tables. -/
  | listHeader (key : List String)
  | assign (key : List String) (value : Expr)

namespace Statement

/-- How deep arrays and tables in braces may nest. -/
def nestingLimit : Nat := 80

def keyLimit : Nat := 80

private def skipSpaces (cs : List Char) : List Char := cs.dropWhile isSpace

/-- Drops the comment at the front, if there is one; the line break stays. -/
private def skipComment? : List Char → Option (List Char)
  | '#' :: cs =>
    match cs.dropWhile isPrintable with
    | [] => some []
    | '\n' :: r => some ('\n' :: r)
    | '\r' :: '\n' :: r => some ('\n' :: r)
    | _ => none
  | cs => some cs

/-- Drops spaces, line breaks and comments; `inComment` says whether a comment is open. -/
private def skipFrom : Bool → List Char → Option (List Char)
  | _, [] => some []
  | _, '\n' :: cs => skipFrom false cs
  | _, '\r' :: '\n' :: cs => skipFrom false cs
  | false, '#' :: cs => skipFrom true cs
  | false, c :: cs => if isSpace c then skipFrom false cs else some (c :: cs)
  | true, c :: cs => if isPrintable c then skipFrom true cs else none

private def skip? (cs : List Char) : Option (List Char) := skipFrom false cs

private def endLine? (cs : List Char) : Option (List Char) := do
  match ← skipComment? (skipSpaces cs) with
  | [] => some []
  | '\n' :: r => some r
  | '\r' :: '\n' :: r => some r
  | _ => none

private def isBareKeyChar (c : Char) : Bool := c.isAlphanum || c == '_' || c == '-'

private def simpleKey? (bound : Nat) (cs : List Char) : Option (String × List Char) :=
  match cs with
  | '"' :: r => Quoted.line? bound '"' r
  | '\'' :: r => Quoted.line? bound '\'' r
  | _ =>
    match cs.takeWhile isBareKeyChar with
    | [] => none
    | word => some (String.ofList word, cs.dropWhile isBareKeyChar)

private def keyFrom (bound : Nat) : Nat → List Char → Option (List String × List Char)
  | 0, _ => none
  | fuel + 1, cs => do
    let (part, cs) ← simpleKey? bound (skipSpaces cs)
    match skipSpaces cs with
    | '.' :: cs => do
      let (parts, cs) ← keyFrom bound fuel cs
      return (part :: parts, cs)
    | cs => return ([part], cs)

/-- A dotted key and what follows it and the spaces after it. -/
private def key? (bound : Nat) (cs : List Char) : Option (List String × List Char) :=
  keyFrom bound keyLimit cs

mutual

private def valueFrom (bound : Nat) : Nat → Nat → List Char → Option (Expr × List Char)
  | 0, _, _ => none
  | fuel + 1, depth, cs =>
    match cs with
    | '"' :: '"' :: '"' :: r => quoted (Quoted.block? bound '"' r)
    | '"' :: r => quoted (Quoted.line? bound '"' r)
    | '\'' :: '\'' :: '\'' :: r => quoted (Quoted.block? bound '\'' r)
    | '\'' :: r => quoted (Quoted.line? bound '\'' r)
    | '[' :: r =>
      match depth with
      | 0 => none
      | depth + 1 => itemsFrom bound fuel depth [] r
    | '{' :: r =>
      match depth with
      | 0 => none
      | depth + 1 => entriesFrom bound fuel depth [] r
    | cs => (Scalar.read? cs).map fun (v, r) => (.scalar v, r)
where
  quoted (s : Option (String × List Char)) : Option (Expr × List Char) :=
    s.map fun (s, r) => (.scalar (.string s), r)

/-- The items of an array after its bracket or a comma; `done` holds those in front, the last one
first. -/
private def itemsFrom (bound : Nat) : Nat → Nat → List Expr → List Char → Option (Expr × List Char)
  | 0, _, _, _ => none
  | fuel + 1, depth, done, cs =>
    match skip? cs with
    | none => none
    | some (']' :: r) => some (.array done.reverse, r)
    | some cs =>
      match valueFrom bound fuel depth cs with
      | none => none
      | some (v, cs) =>
        match skip? cs with
        | some (',' :: r) => itemsFrom bound fuel depth (v :: done) r
        | some (']' :: r) => some (.array (v :: done).reverse, r)
        | _ => none

/-- The entries of a table in braces after its brace or a comma. Lines may break anywhere but inside
a key. -/
private def entriesFrom (bound : Nat) :
    Nat → Nat → List (List String × Expr) → List Char → Option (Expr × List Char)
  | 0, _, _, _ => none
  | fuel + 1, depth, done, cs =>
    match skip? cs with
    | none => none
    | some ('}' :: r) => some (.inlineTable done.reverse, r)
    | some cs =>
      match key? bound cs with
      | none => none
      | some (key, cs) =>
        match skip? cs with
        | some ('=' :: cs) =>
          match skip? cs with
          | none => none
          | some cs =>
            match valueFrom bound fuel depth cs with
            | none => none
            | some (v, cs) =>
              match skip? cs with
              | some (',' :: r) => entriesFrom bound fuel depth ((key, v) :: done) r
              | some ('}' :: r) => some (.inlineTable ((key, v) :: done).reverse, r)
              | _ => none
        | _ => none

end

/-- A value at the front of the text; at most two steps go by for each character. -/
private def value? (bound : Nat) (cs : List Char) : Option (Expr × List Char) :=
  valueFrom bound (2 * bound + 2) nestingLimit cs

private def one? (bound : Nat) (cs : List Char) : Option (Statement × List Char) :=
  match cs with
  | '[' :: '[' :: r =>
    match key? bound r with
    | some (key, ']' :: ']' :: r) => (endLine? r).map (.listHeader key, ·)
    | _ => none
  | '[' :: r =>
    match key? bound r with
    | some (key, ']' :: r) => (endLine? r).map (.header key, ·)
    | _ => none
  | cs =>
    match key? bound cs with
    | some (key, '=' :: r) =>
      match value? bound (skipSpaces r) with
      | some (v, r) => (endLine? r).map (.assign key v, ·)
      | none => none
    | _ => none

private def allFrom (bound : Nat) : Nat → List Statement → List Char → Option (List Statement)
  | 0, _, _ => none
  | fuel + 1, done, cs =>
    match skip? cs with
    | none => none
    | some [] => some done.reverse
    | some cs =>
      match one? bound cs with
      | none => none
      | some (s, r) => allFrom bound fuel (s :: done) r

/-- A byte order mark at the front of a file does not count. -/
private def dropMark : List Char → List Char
  | c :: cs => if c.toNat == 0xFEFF then cs else c :: cs
  | [] => []

def read? (text : String) : Option (List Statement) :=
  let cs := dropMark text.toList
  allFrom cs.length (cs.length + 1) [] cs

end Statement

inductive TableKind where
  /-- By a header of its own. -/
  | opened
  /-- By headers of tables inside it. -/
  | implied
  /-- By dotted keys. -/
  | dotted
  deriving DecidableEq, Repr

/-- A node of a document that may still grow. -/
inductive Node where
  | value (v : Toml)
  | table (kind : TableKind) (entries : List (String × Node))
  /-- A list of tables, each opened by a header, the last one first. -/
  | tables (elements : List (List (String × Node)))

abbrev Entries : Type := List (String × Node)

namespace Entries

def put (key : String) (n : Node) : Entries → Entries
  | [] => [(key, n)]
  | e :: es => if e.1 == key then (key, n) :: es else e :: put key n es

/-- The kind of a table after a path has led through it, where the path would make missing tables
with kind `made`. Dotted keys do not reach into opened tables and make the others their own; headers
change nothing. -/
private def passed? (made kind : TableKind) : Option TableKind :=
  if made != .dotted then some kind
  else if kind == .opened then none
  else some .dotted

/-- Changes the entries at the end of a path. Tables that are missing on the way come about with
kind `made`. Nothing reaches into complete values. -/
def change (made : TableKind) (f : TableKind → Entries → Option Entries) :
    List String → TableKind → Entries → Option Entries
  | [], kind, es => f kind es
  | k :: ks, _, es =>
    match es.lookup k with
    | none => (change made f ks made []).map fun sub => es ++ [(k, .table made sub)]
    | some (.table kind sub) => do
      let kind ← passed? made kind
      let sub ← change made f ks kind sub
      return put k (.table kind sub) es
    | some (.tables (last :: before)) =>
      (change made f ks .opened last).map fun last => put k (.tables (last :: before)) es
    | some _ => none

/-- Defines a key of a table. With a dotted key the table has to be one that dotted keys make. -/
private def define (isDotted : Bool) (key : String) (v : Toml) (kind : TableKind) (es : Entries) :
    Option Entries :=
  if isDotted && kind != .dotted then none
  else if (es.lookup key).isSome then none
  else some (es ++ [(key, .value v)])

def assign (key : List String) (v : Toml) (kind : TableKind) (es : Entries) : Option Entries :=
  match key.getLast? with
  | none => none
  | some last =>
    let path := key.dropLast
    change .dotted (define (!path.isEmpty) last v) path kind es

private def openTable (key : String) (_ : TableKind) (es : Entries) : Option Entries :=
  match es.lookup key with
  | none => some (es ++ [(key, .table .opened [])])
  | some (.table .implied sub) => some (put key (.table .opened sub) es)
  | some _ => none

private def openElement (key : String) (_ : TableKind) (es : Entries) : Option Entries :=
  match es.lookup key with
  | none => some (es ++ [(key, .tables [[]])])
  | some (.tables elements) => some (put key (.tables ([] :: elements)) es)
  | some _ => none

def openAt (isList : Bool) (key : List String) (es : Entries) : Option Entries :=
  match key.getLast? with
  | none => none
  | some last =>
    change .implied (if isList then openElement last else openTable last) key.dropLast .opened es

end Entries

mutual

def Node.toValue : Node → Toml
  | .value v => v
  | .table _ es => .table (Node.entryValues es)
  | .tables elements => .array (Node.elementValues elements).reverse

private def Node.entryValues : List (String × Node) → List (String × Toml)
  | [] => []
  | (k, n) :: es => (k, n.toValue) :: Node.entryValues es

private def Node.elementValues : List (List (String × Node)) → List Toml
  | [] => []
  | es :: rest => .table (Node.entryValues es) :: Node.elementValues rest

end

mutual

/-- The value that is written; nothing if a table in braces defines a key twice. -/
def Expr.value? : Expr → Option Toml
  | .scalar v => some v
  | .array items => (Expr.values? items).map .array
  | .inlineTable entries =>
    (Expr.define? [] entries).map fun es => (Node.table .opened es).toValue

private def Expr.values? : List Expr → Option (List Toml)
  | [] => some []
  | e :: es => do
    let v ← e.value?
    let vs ← Expr.values? es
    return v :: vs

private def Expr.define? (done : Entries) : List (List String × Expr) → Option Entries
  | [] => some done
  | (key, e) :: rest => do
    let v ← e.value?
    let done ← Entries.assign key v .opened done
    Expr.define? done rest

end

namespace Statement

/-- What a file defines up to a statement: the table that is open and all entries. -/
structure Defined where
  current : List String := []
  entries : Entries := []

def define? (d : Defined) : Statement → Option Defined
  | .header key => (Entries.openAt false key d.entries).map (⟨key, ·⟩)
  | .listHeader key => (Entries.openAt true key d.entries).map (⟨key, ·⟩)
  | .assign key e => do
    let v ← e.value?
    let entries ← Entries.change .implied (Entries.assign key v) d.current .opened d.entries
    return ⟨d.current, entries⟩

end Statement

/-- The table that a file defines; nothing if the file is malformed. -/
def parse? (text : String) : Option Toml := do
  let statements ← Statement.read? text
  let d ← statements.foldlM Statement.define? {}
  return (Node.table .opened d.entries).toValue

end Toml

end CloudPolicy
