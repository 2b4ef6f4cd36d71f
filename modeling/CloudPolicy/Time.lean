import CloudPolicy.Text

/-!
Timestamps in the notation of RFC 3339: a civil date, a time of day to the nanosecond and an offset
from UTC. A leap second is read as the last nanosecond before it, and only at the end of a month in
UTC.
-/

set_option autoImplicit false
set_option relaxedAutoImplicit false

namespace CloudPolicy

namespace Calendar

def isLeapYear (year : Nat) : Bool := year % 4 == 0 && (year % 100 != 0 || year % 400 == 0)

/-- The number of days of a month that is given from 1 to 12; zero for any other number. -/
def daysInMonth (year month : Nat) : Nat :=
  match month with
  | 1 | 3 | 5 | 7 | 8 | 10 | 12 => 31
  | 4 | 6 | 9 | 11 => 30
  | 2 => if isLeapYear year then 29 else 28
  | _ => 0

def isDate (year month day : Nat) : Bool := 1 ≤ day && day ≤ daysInMonth year month

end Calendar

/-- A moment, as a clock with the given offset shows it. -/
structure Timestamp where
  year : Nat
  month : Nat
  day : Nat
  hour : Nat
  minute : Nat
  second : Nat
  nano : Nat
  /-- Minutes ahead of UTC. -/
  offset : Int
  deriving DecidableEq, Repr

namespace Timestamp

def epoch : Timestamp := ⟨1970, 1, 1, 0, 0, 0, 0, 0⟩

def padded (width n : Nat) : String :=
  let ds := Nat.toDigits 10 n
  String.ofList (List.replicate (width - ds.length) '0' ++ ds)

/-- A fraction of a second without zeros at its end; none for a whole second. -/
def renderFraction (nano : Nat) : String :=
  if nano == 0 then ""
  else "." ++ String.ofList ((padded 9 nano).toList.reverse.dropWhile (· == '0')).reverse

/-- An offset, as hours and minutes; `Z` stands for none. -/
def renderOffset (offset : Int) : String :=
  if offset == 0 then "Z"
  else
    (if offset < 0 then "-" else "+") ++ padded 2 (offset.natAbs / 60) ++ ":"
      ++ padded 2 (offset.natAbs % 60)

def render (t : Timestamp) : String :=
  padded 4 t.year ++ "-" ++ padded 2 t.month ++ "-" ++ padded 2 t.day ++ "T"
    ++ padded 2 t.hour ++ ":" ++ padded 2 t.minute ++ ":" ++ padded 2 t.second
    ++ renderFraction t.nano ++ renderOffset t.offset

/-- Whether the notation has room for the timestamp: four digits for the year and less than a day of
offset. -/
def isWritable (t : Timestamp) : Bool := t.year < 10000 && t.offset.natAbs < 1440

def number? (width : Nat) (cs : List Char) : Option (Nat × List Char) :=
  let ds := cs.take width
  if ds.length == width && ds.all Char.isDigit then some (Text.decimal ds, cs.drop width) else none

def expect? (c : Char) : List Char → Option (List Char)
  | [] => none
  | d :: cs => if d == c then some cs else none

def separator? : List Char → Option (List Char)
  | [] => none
  | c :: cs => if c.toNat < 0x80 then some cs else none

/-- Nanoseconds after a point: the first nine digits count. -/
def fraction? : List Char → Option (Nat × List Char)
  | '.' :: cs =>
    let ds := cs.takeWhile Char.isDigit
    if ds.isEmpty then none
    else
      let kept := ds.take 9
      some (Text.decimal (kept ++ List.replicate (9 - kept.length) '0'), cs.dropWhile Char.isDigit)
  | cs => some (0, cs)

def offset? : List Char → Option Int
  | ['Z'] => some 0
  | ['z'] => some 0
  | sign :: cs => do
    let negative ← if sign == '-' then some true else if sign == '+' then some false else none
    let (hours, cs) ← number? 2 cs
    let cs ← expect? ':' cs
    let (minutes, cs) ← number? 2 cs
    if 23 < hours || 59 < minutes || !cs.isEmpty then none
    let total : Int := 60 * hours + minutes
    return if negative then -total else total
  | [] => none

/-- Whether the minute is the last one of a month in UTC. -/
def endsMonth (t : Timestamp) : Bool :=
  let inUtc : Int := 60 * t.hour + t.minute - t.offset
  (inUtc == 1439 && t.day == Calendar.daysInMonth t.year t.month) || (inUtc == -1 && t.day == 1)

def parse? (s : String) : Option Timestamp := do
  let (year, cs) ← number? 4 s.toList
  let cs ← expect? '-' cs
  let (month, cs) ← number? 2 cs
  let cs ← expect? '-' cs
  let (day, cs) ← number? 2 cs
  let cs ← separator? cs
  let (hour, cs) ← number? 2 cs
  let cs ← expect? ':' cs
  let (minute, cs) ← number? 2 cs
  let cs ← expect? ':' cs
  let (second, cs) ← number? 2 cs
  let (nano, cs) ← fraction? cs
  let offset ← offset? cs
  if !Calendar.isDate year month day || 23 < hour || 59 < minute || 60 < second then none
  if second == 60 then
    let t : Timestamp := ⟨year, month, day, hour, minute, 59, 999999999, offset⟩
    if t.endsMonth then return t else none
  else return ⟨year, month, day, hour, minute, second, nano, offset⟩

end Timestamp

end CloudPolicy
