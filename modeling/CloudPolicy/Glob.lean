import CloudPolicy.Text

/-!
Globs over rule ids and paths. A pattern is read from left to right by a machine that remembers the
character before, the open alternatives and, inside brackets, the class so far; it is matched
against whole texts, byte by byte.
-/

set_option autoImplicit false
set_option relaxedAutoImplicit false

namespace CloudPolicy

namespace Glob

inductive Token where
  | literal (c : Char)
  /-- One byte. -/
  | any
  /-- Any bytes. -/
  | anyRun
  /-- Any leading directories. -/
  | leadingDirs
  /-- Everything below a directory. -/
  | everythingBelow
  /-- One separator, or two with anything between. -/
  | innerDirs
  /-- A class of characters, each range with both ends. -/
  | oneOf (negated : Bool) (ranges : List (Char × Char))
  | group (alternatives : List (List Token))

inductive PatternFault where
  | unclosedClass
  | invalidRange (first last : Char)
  | unopenedGroup
  | unclosedGroup
  | danglingEscape
  deriving DecidableEq, Repr

def PatternFault.message : PatternFault → String
  | .unclosedClass => "unclosed character class; missing ']'"
  | .invalidRange first last =>
    "invalid range; '" ++ String.singleton first ++ "' > '" ++ String.singleton last ++ "'"
  | .unopenedGroup =>
    "unopened alternate group; missing '\x7b' (maybe escape '\x7d' with '[\x7d]'?)"
  | .unclosedGroup =>
    "unclosed alternate group; missing '\x7d' (maybe escape '\x7b' with '[\x7b]'?)"
  | .danglingEscape => "dangling '\\'"

/-- An open group: its finished alternatives and the tokens in front of it, both the last one
first. -/
structure OpenGroup where
  done : List (List Token)
  before : List Token

/-- The tokens of the alternative that is being read, the last one first, and the open groups, the
innermost first. -/
structure Progress where
  current : List Token := []
  groups : List OpenGroup := []

namespace Progress

def push (p : Progress) (t : Token) : Progress := { p with current := t :: p.current }

def openGroup (p : Progress) : Progress := ⟨[], ⟨[], p.current⟩ :: p.groups⟩

/-- A comma parts alternatives inside a group and is itself elsewhere. -/
def comma (p : Progress) : Progress :=
  match p.groups with
  | [] => p.push (.literal ',')
  | g :: gs => ⟨[], ⟨p.current.reverse :: g.done, g.before⟩ :: gs⟩

def closeGroup (p : Progress) : Except PatternFault Progress :=
  match p.groups with
  | [] => .error .unopenedGroup
  | g :: gs => .ok ⟨.group (p.current.reverse :: g.done).reverse :: g.before, gs⟩

/-- Puts a run of directories in place of the separator in front of it; two such runs in a row are
one. -/
def replaceLast (p : Progress) (t : Token) : Progress :=
  match p.current with
  | .leadingDirs :: _ => p
  | .everythingBelow :: _ => p
  | _ :: ts => { p with current := t :: ts }
  | [] => { p with current := [t] }

/-- A double star between the character `prev` and the character `peek`; also whether the latter, a
separator, belongs to it. A double star that no separators bound is two single ones. -/
def doubleStar (p : Progress) (prev peek : Option Char) : Progress × Bool :=
  let plain := (p.push .anyRun).push .anyRun
  if p.current.isEmpty then
    match peek with
    | none => (p.push .leadingDirs, false)
    | some '/' => (p.push .leadingDirs, true)
    | some _ => (plain, false)
  else if prev != some '/' && (p.groups.isEmpty || (prev != some ',' && prev != some '{')) then
    (plain, false)
  else
    match peek with
    | none => (p.replaceLast .everythingBelow, false)
    | some '/' => (p.replaceLast .innerDirs, true)
    | some c =>
      if !p.groups.isEmpty && (c == ',' || c == '}') then (p.replaceLast .everythingBelow, false)
      else (plain, false)

end Progress

/-- A class that is being read, its ranges the last one first. -/
structure OpenClass where
  negated : Bool := false
  ranges : List (Char × Char) := []
  /-- Whether a dash has been read that may still start a range. -/
  inRange : Bool := false

inductive Mode where
  | plain
  /-- After a backslash. -/
  | escape
  /-- After an opening bracket. -/
  | classStart
  | inClass (c : OpenClass)

namespace OpenClass

/-- The class as a token; a dash at its end stands for itself. -/
def close (k : OpenClass) : Token :=
  let ranges := if k.inRange then ('-', '-') :: k.ranges else k.ranges
  .oneOf k.negated ranges.reverse

def add (k : OpenClass) (c : Char) : Except PatternFault OpenClass :=
  match k.inRange, k.ranges with
  | true, (first, _) :: rest =>
    if c < first then .error (.invalidRange first c)
    else .ok { k with ranges := (first, c) :: rest, inRange := false }
  | _, _ => .ok { k with ranges := (c, c) :: k.ranges, inRange := false }

/-- The next character of a class: nothing when it closes the class. A closing bracket or a dash
that comes first stands for itself. -/
def step (k : OpenClass) (c : Char) : Except PatternFault (Option OpenClass) :=
  if k.ranges.isEmpty then (k.add c).map some
  else if c == ']' then .ok none
  else if c == '-' && !k.inRange then .ok (some { k with inRange := true })
  else (k.add c).map some

end OpenClass

def readFrom (mode : Mode) (prev : Option Char) (p : Progress) :
    List Char → Except PatternFault (List Token)
  | [] =>
    match mode with
    | .plain => if p.groups.isEmpty then .ok p.current.reverse else .error .unclosedGroup
    | .escape => .error .danglingEscape
    | .classStart => .error .unclosedClass
    | .inClass _ => .error .unclosedClass
  | c :: cs =>
    let classStep (k : OpenClass) : Except PatternFault (List Token) :=
      match k.step c with
      | .error e => .error e
      | .ok none => readFrom .plain (some c) (p.push k.close) cs
      | .ok (some k) => readFrom (.inClass k) (some c) p cs
    match mode with
    | .escape => readFrom .plain (some c) (p.push (.literal c)) cs
    | .classStart =>
      if c == '!' || c == '^' then readFrom (.inClass { negated := true }) (some c) p cs
      else classStep {}
    | .inClass k => classStep k
    | .plain =>
      match c with
      | '?' => readFrom .plain (some c) (p.push .any) cs
      | '[' => readFrom .classStart (some c) p cs
      | '{' => readFrom .plain (some c) p.openGroup cs
      | ',' => readFrom .plain (some c) p.comma cs
      | '\\' => readFrom .escape (some c) p cs
      | '}' =>
        match p.closeGroup with
        | .error e => .error e
        | .ok p => readFrom .plain (some c) p cs
      | '*' =>
        match cs with
        | '*' :: '/' :: rest =>
          match p.doubleStar prev (some '/') with
          | (p, true) => readFrom .plain (some '/') p rest
          | (p, false) => readFrom .plain (some '*') p ('/' :: rest)
        | '*' :: rest => readFrom .plain (some '*') (p.doubleStar prev rest.head?).1 rest
        | rest => readFrom .plain (some '*') (p.push .anyRun) rest
      | c => readFrom .plain (some c) (p.push (.literal c)) cs

def read (pattern : String) : Except PatternFault (List Token) :=
  readFrom .plain none {} pattern.toList

/-- A set of bytes, by ranges with both ends or by everything outside them. -/
structure ByteSet where
  negated : Bool
  ranges : List (UInt8 × UInt8)
  deriving DecidableEq, Repr

def ByteSet.contains (s : ByteSet) (b : UInt8) : Bool :=
  (s.ranges.any fun r => r.1 ≤ b && b ≤ r.2) != s.negated

inductive Pattern where
  /-- The empty text. -/
  | empty
  /-- One byte of a set. -/
  | byte (set : ByteSet)
  /-- Any bytes. -/
  | anyRun
  | seq (first second : Pattern)
  | alt (first second : Pattern)
  deriving DecidableEq, Repr

namespace Pattern

def one (b : UInt8) : Pattern := .byte ⟨false, [(b, b)]⟩

def bytes (bs : List UInt8) : Pattern := bs.foldr (fun b p => .seq (one b) p) .empty

def slash : Pattern := one 0x2F

/-- The places at which the pattern can end in a text when it begins at one of the given places. A
place is the number of bytes in front of it. -/
def ends (text : Array UInt8) : Pattern → List Nat → List Nat
  | .empty, places => places
  | .byte set, places =>
    places.filterMap fun i => if text[i]?.any set.contains then some (i + 1) else none
  | .anyRun, places =>
    match places.min? with
    | none => []
    | some i => List.range' i (text.size + 1 - i)
  | .seq p q, places => ends text q (ends text p places)
  | .alt p q, places =>
    ((ends text p places).merge (ends text q places) fun i j => decide (i ≤ j)).eraseReps

def matchesBytes (p : Pattern) (text : List UInt8) : Bool :=
  (ends text.toArray p [0]).contains text.length

/-- The byte ranges that a range of characters stands for in a class: the bytes of both ends, with a
range between the last byte of the first end and the first byte of the last end. -/
def byteRanges (first last : Char) : List (UInt8 × UInt8) :=
  let fs := String.utf8EncodeChar first
  let ls := String.utf8EncodeChar last
  let alone := fun (b : UInt8) => (b, b)
  if first == last then fs.map alone
  else fs.dropLast.map alone ++ [(fs.getLastD 0, ls.headD 0)] ++ (ls.drop 1).map alone

def choice : List Pattern → Pattern
  | [] => .empty
  | [p] => p
  | p :: ps => .alt p (choice ps)

end Pattern

mutual

/-- Whether a token contributes nothing: a group none of whose alternatives contributes. -/
def Token.isSilent : Token → Bool
  | .group alternatives => Token.allSilent alternatives
  | _ => false

private def Token.allSilentTokens : List Token → Bool
  | [] => true
  | t :: ts => t.isSilent && Token.allSilentTokens ts

private def Token.allSilent : List (List Token) → Bool
  | [] => true
  | ts :: tss => Token.allSilentTokens ts && Token.allSilent tss

end

mutual

def Token.pattern : Token → Pattern
  | .literal c => .bytes (String.utf8EncodeChar c)
  | .any => .byte ⟨true, []⟩
  | .anyRun => .anyRun
  | .leadingDirs => .alt .empty (.alt .slash (.seq .anyRun .slash))
  | .everythingBelow => .seq .slash .anyRun
  | .innerDirs => .alt .slash (.seq .slash (.seq .anyRun .slash))
  | .oneOf negated ranges => .byte ⟨negated, ranges.flatMap fun r => Pattern.byteRanges r.1 r.2⟩
  | .group alternatives => Pattern.choice (Token.choices alternatives)

def Token.sequence : List Token → Pattern
  | [] => .empty
  | t :: ts => .seq t.pattern (Token.sequence ts)

private def Token.choices : List (List Token) → List Pattern
  | [] => []
  | ts :: tss =>
    if Token.allSilentTokens ts then Token.choices tss else Token.sequence ts :: Token.choices tss

end

/-- The pattern of a whole glob; a double star that stands alone matches everything. -/
def patternOf : List Token → Pattern
  | [.leadingDirs] => .anyRun
  | ts => Token.sequence ts

end Glob

structure Glob where
  source : String
  pattern : Glob.Pattern
  deriving DecidableEq, Repr

structure GlobError where
  pattern : String
  fault : Glob.PatternFault
  deriving DecidableEq, Repr

def GlobError.message (e : GlobError) : String :=
  "error parsing glob '" ++ e.pattern ++ "': " ++ e.fault.message

namespace Glob

def compile (pattern : String) : Except GlobError Glob :=
  match read pattern with
  | .ok ts => .ok ⟨pattern, patternOf ts⟩
  | .error fault => .error ⟨pattern, fault⟩

def accepts (g : Glob) (text : String) : Bool := g.pattern.matchesBytes (Text.utf8 text)

end Glob

end CloudPolicy
