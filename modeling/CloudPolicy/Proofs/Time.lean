import CloudPolicy.Proofs.Text
import CloudPolicy.Time
import Mathlib.Data.List.DropRight

/-!
The written form of timestamps. Each part takes its own characters off the front and leaves the
rest, so a timestamp that shows a real date and time, in the room that the notation has, is read
back from its written form; and no other timestamp is ever read.
-/

set_option autoImplicit false
set_option relaxedAutoImplicit false

namespace CloudPolicy.Timestamp

/-- The timestamp shows a day that there is, and a time of day. -/
structure Proper (t : Timestamp) : Prop where
  date : Calendar.isDate t.year t.month t.day = true
  hour : t.hour < 24
  minute : t.minute < 60
  second : t.second < 60
  nano : t.nano < 10 ^ 9

/-- What a clock in UTC can show in the years 0 to 9999. -/
structure UtcReading (t : Timestamp) : Prop where
  proper : t.Proper
  utc : t.offset = 0
  year : t.year ≤ 9999

theorem utcReading_epoch : epoch.UtcReading :=
  ⟨⟨by decide, by decide, by decide, by decide, by decide⟩, rfl, by decide⟩

theorem UtcReading.writable {t : Timestamp} (reading : t.UtcReading) : t.isWritable = true := by
  have year := reading.year
  have offset : t.offset.natAbs = 0 := by rw [reading.utc]; rfl
  simp only [isWritable, Bool.and_eq_true, decide_eq_true_eq]
  omega

section Number

variable {width n : Nat}

private theorem padded_isDigit {c : Char} (hc : c ∈ (padded width n).toList) :
    c.isDigit = true := by
  rw [padded, String.toList_ofList, List.mem_append] at hc
  rcases hc with hc | hc
  · rw [List.eq_of_mem_replicate hc]
    rfl
  · exact Text.isDigit_of_mem_toDigits hc

private theorem decimal_padded (width n : Nat) : Text.decimal (padded width n).toList = n := by
  rw [padded, String.toList_ofList, Text.decimal_zeros, Text.decimal_toDigits]

private theorem length_padded (hw : 0 < width) (hn : n < 10 ^ width) :
    (padded width n).toList.length = width := by
  have short := Text.length_toDigits_le hw hn
  rw [padded, String.toList_ofList, List.length_append, List.length_replicate]
  omega

private theorem number?_padded (hw : 0 < width) (hn : n < 10 ^ width) (rest : List Char) :
    number? width ((padded width n).toList ++ rest) = some (n, rest) := by
  have length := length_padded hw hn
  have front : ((padded width n).toList ++ rest).take width = (padded width n).toList :=
    List.take_left' length
  have back : ((padded width n).toList ++ rest).drop width = rest := List.drop_left' length
  have digits : (padded width n).toList.all Char.isDigit = true :=
    List.all_eq_true.mpr fun c hc => padded_isDigit hc
  simp only [number?, front, back, length, digits, decimal_padded, beq_self_eq_true, Bool.and_self,
    if_true]

private theorem number?_pair (hn : n < 100) (rest : List Char) :
    number? 2 ((padded 2 n).toList ++ rest) = some (n, rest) :=
  number?_padded (by decide) hn rest

private theorem number?_lt {cs rest : List Char} (read : number? width cs = some (n, rest)) :
    n < 10 ^ width := by
  simp only [number?] at read
  split at read
  · rename_i shape
    rw [Bool.and_eq_true, beq_iff_eq, List.all_eq_true] at shape
    obtain ⟨length, digits⟩ := shape
    cases read
    have bound := Text.decimal_lt digits
    rwa [length] at bound
  · contradiction

end Number

section Fraction

variable {nano : Nat} {rest : List Char}

private theorem fraction?_digits {ds : List Char} (digits : ∀ c ∈ ds, c.isDigit = true)
    (some_digit : ds ≠ []) (short : ds.length ≤ 9) (after : Text.NoDigit rest) :
    fraction? ('.' :: (ds ++ rest)) =
      some (Text.decimal (ds ++ List.replicate (9 - ds.length) '0'), rest) := by
  have empty : ds.isEmpty = false := by simpa using some_digit
  rw [fraction?]
  simp only [Text.takeWhile_isDigit digits after, Text.dropWhile_isDigit digits after, empty,
    List.take_of_length_le short, Bool.false_eq_true, if_false]

private theorem fraction?_render (hn : nano < 10 ^ 9) (after : Text.NoDigit rest)
    (stops : ∀ c ∈ rest.head?, c ≠ '.') :
    fraction? ((renderFraction nano).toList ++ rest) = some (nano, rest) := by
  by_cases whole : nano = 0
  · subst whole
    cases rest with
    | nil => rfl
    | cons c cs =>
      have other := stops c (by simp)
      simp [renderFraction, fraction?, other]
  · -- the nine digits without the zeros at their end, which reading puts back
    let all := (padded 9 nano).toList
    let ds := all.rdropWhile (· == '0')
    have spelled : (renderFraction nano).toList ++ rest = '.' :: (ds ++ rest) := by
      simp [renderFraction, whole, ds, all, List.rdropWhile]
    have zeros : all.rtakeWhile (· == '0') =
        List.replicate (all.rtakeWhile (· == '0')).length '0' :=
      List.eq_replicate_of_mem fun c hc => by simpa using List.mem_rtakeWhile_imp hc
    have parts : ds ++ all.rtakeWhile (· == '0') = all := List.rdropWhile_append_rtakeWhile
    have length : ds.length + (all.rtakeWhile (· == '0')).length = 9 := by
      rw [← List.length_append, parts]
      exact length_padded (by decide) hn
    have digits : ∀ c ∈ ds, c.isDigit = true := by
      intro c hc
      have front := (List.rdropWhile_prefix (· == '0') all).subset hc
      exact padded_isDigit front
    have refilled : ds ++ List.replicate (9 - ds.length) '0' = all := by
      have missing : 9 - ds.length = (all.rtakeWhile (· == '0')).length := by omega
      rw [missing, ← zeros, parts]
    have some_digit : ds ≠ [] := by
      intro none
      have spells := decimal_padded 9 nano
      have only := Text.decimal_zeros (9 - ds.length) []
      rw [none, List.nil_append] at refilled
      rw [List.append_nil, none, refilled] at only
      exact whole (spells.symm.trans only)
    rw [spelled, fraction?_digits digits some_digit (by omega) after, refilled]
    exact congrArg (fun n => some (n, rest)) (decimal_padded 9 nano)

private theorem decimal_filled_lt {ds : List Char} (digits : ∀ c ∈ ds, c.isDigit = true)
    (short : ds.length ≤ 9) :
    Text.decimal (ds ++ List.replicate (9 - ds.length) '0') < 10 ^ 9 := by
  have length : (ds ++ List.replicate (9 - ds.length) '0').length = 9 := by
    rw [List.length_append, List.length_replicate]
    omega
  have filled : ∀ c ∈ ds ++ List.replicate (9 - ds.length) '0', c.isDigit = true := by
    intro c hc
    rcases List.mem_append.mp hc with hc | hc
    · exact digits c hc
    · rw [List.eq_of_mem_replicate hc]
      rfl
  have bound := Text.decimal_lt filled
  rwa [length] at bound

private theorem fraction?_lt {cs : List Char} (read : fraction? cs = some (nano, rest)) :
    nano < 10 ^ 9 := by
  unfold fraction? at read
  split at read
  · simp only at read
    split at read
    · contradiction
    · cases read
      apply decimal_filled_lt
      · exact fun c hc => List.mem_takeWhile_imp (List.mem_of_mem_take hc)
      · exact List.length_take_le _ _
  · cases read
    decide

end Fraction

section Offset

variable {offset : Int}

private theorem renderOffset_head (offset : Int) :
    ∀ c ∈ (renderOffset offset).toList.head?, c = 'Z' ∨ c = '-' ∨ c = '+' := by
  unfold renderOffset
  split
  · simp
  · split <;> simp

private theorem offset?_signed (negative : Bool) {hours minutes : Nat} (hh : hours < 24)
    (hm : minutes < 60) : offset? ((if negative then '-' else '+') ::
        ((padded 2 hours).toList ++ ':' :: (padded 2 minutes).toList)) =
      some (if negative then -(60 * hours + minutes : Int) else 60 * hours + minutes) := by
  have first : hours < 100 := by omega
  have second : minutes < 100 := by omega
  have last := number?_pair second []
  have room : ¬(23 < hours) ∧ ¬(59 < minutes) := by omega
  rw [List.append_nil] at last
  cases negative <;> simp [offset?, number?_pair first, expect?, last, room]

private theorem offset?_render (small : offset.natAbs < 1440) :
    offset? (renderOffset offset).toList = some offset := by
  by_cases none : offset = 0
  · subst none
    rfl
  · have spelled : (renderOffset offset).toList = (if decide (offset < 0) then '-' else '+') ::
        ((padded 2 (offset.natAbs / 60)).toList ++ ':' ::
          (padded 2 (offset.natAbs % 60)).toList) := by
      by_cases behind : offset < 0 <;> simp [renderOffset, none, behind]
    rw [spelled, offset?_signed _ (by omega) (by omega)]
    congr 1
    by_cases behind : offset < 0
    · rw [if_pos (by simpa using behind)]
      omega
    · rw [if_neg (by simpa using behind)]
      omega

private theorem offset?_small {cs : List Char} (read : offset? cs = some offset) :
    offset.natAbs < 1440 := by
  unfold offset? at read
  split at read
  · cases read
    decide
  · cases read
    decide
  · -- either sign takes the same hours and minutes
    split at read
    rotate_left
    split at read
    rotate_left
    · contradiction
    all_goals
      simp only [Option.bind_eq_bind, Option.bind_some, Option.bind_eq_some_iff,
        Prod.exists] at read
      obtain ⟨hours, _, -, _, -, minutes, _, -, read⟩ := read
      split at read
      · contradiction
      · rename_i room
        simp only [Bool.or_eq_true, decide_eq_true_eq, not_or] at room
        cases read
        omega
  · contradiction

end Offset

private theorem isDate_lt {year month day : Nat} (date : Calendar.isDate year month day = true) :
    month < 100 ∧ day < 100 := by
  simp only [Calendar.isDate, Bool.and_eq_true, decide_eq_true_eq] at date
  obtain ⟨first, last⟩ := date
  unfold Calendar.daysInMonth at last
  split at last <;> (try split at last) <;> omega

private theorem bind_of_eq_some {α β : Type} {x : Option α} {a : α} (given : x = some a)
    {f : α → Option β} : (x >>= f) = f a := by
  rw [given]
  rfl

private theorem separator?_t (cs : List Char) : separator? ('T' :: cs) = some cs := rfl

private theorem expect?_self (c : Char) (cs : List Char) : expect? c (c :: cs) = some cs := by
  rw [expect?, beq_self_eq_true, if_pos rfl]

variable {t : Timestamp}

private theorem toList_render (t : Timestamp) : t.render.toList =
    (padded 4 t.year).toList ++
    '-' :: ((padded 2 t.month).toList ++ '-' :: ((padded 2 t.day).toList ++
      'T' :: ((padded 2 t.hour).toList ++ ':' :: ((padded 2 t.minute).toList ++
        ':' :: ((padded 2 t.second).toList ++
          ((renderFraction t.nano).toList ++ (renderOffset t.offset).toList)))))) := by
  simp [render]

/-- The notation loses nothing of what it has room for. -/
theorem parse?_render (proper : t.Proper) (writable : t.isWritable = true) :
    parse? t.render = some t := by
  obtain ⟨date, hh, hm, hs, hn⟩ := proper
  obtain ⟨hy, ho⟩ : t.year < 10 ^ 4 ∧ t.offset.natAbs < 1440 := by simpa [isWritable] using writable
  obtain ⟨hmonth, hday⟩ := isDate_lt date
  have noDigit : Text.NoDigit (renderOffset t.offset).toList := by
    intro c hc
    rcases renderOffset_head t.offset c hc with rfl | rfl | rfl <;> rfl
  have stops : ∀ c ∈ (renderOffset t.offset).toList.head?, c ≠ '.' := by
    intro c hc
    rcases renderOffset_head t.offset c hc with rfl | rfl | rfl <;> decide
  have years := number?_padded (by decide) hy
  have hours : t.hour < 100 := by omega
  have minutes : t.minute < 100 := by omega
  have seconds : t.second < 100 := by omega
  have inTime : (!Calendar.isDate t.year t.month t.day || decide (23 < t.hour) ||
      decide (59 < t.minute) || decide (60 < t.second)) = false := by
    simp [date]
    omega
  have noLeap : (t.second == 60) = false := by
    rw [beq_eq_false_iff_ne]
    omega
  rw [parse?, toList_render]
  refine (bind_of_eq_some (years _)).trans ?_
  refine (bind_of_eq_some (expect?_self _ _)).trans ?_
  refine (bind_of_eq_some (number?_pair hmonth _)).trans ?_
  refine (bind_of_eq_some (expect?_self _ _)).trans ?_
  refine (bind_of_eq_some (number?_pair hday _)).trans ?_
  refine (bind_of_eq_some (separator?_t _)).trans ?_
  refine (bind_of_eq_some (number?_pair hours _)).trans ?_
  refine (bind_of_eq_some (expect?_self _ _)).trans ?_
  refine (bind_of_eq_some (number?_pair minutes _)).trans ?_
  refine (bind_of_eq_some (expect?_self _ _)).trans ?_
  refine (bind_of_eq_some (number?_pair seconds _)).trans ?_
  refine (bind_of_eq_some (fraction?_render hn noDigit stops)).trans ?_
  refine (bind_of_eq_some (offset?_render ho)).trans ?_
  simp only [inTime, noLeap, Bool.false_eq_true, if_false]
  rfl

/-- Only proper timestamps that can be written are read. -/
theorem proper_of_parse? {s : String} (read : parse? s = some t) :
    t.Proper ∧ t.isWritable = true := by
  obtain ⟨⟨year, cs⟩, hy, read⟩ := Option.bind_eq_some_iff.mp read
  obtain ⟨cs, -, read⟩ := Option.bind_eq_some_iff.mp read
  obtain ⟨⟨month, cs⟩, -, read⟩ := Option.bind_eq_some_iff.mp read
  obtain ⟨cs, -, read⟩ := Option.bind_eq_some_iff.mp read
  obtain ⟨⟨day, cs⟩, -, read⟩ := Option.bind_eq_some_iff.mp read
  obtain ⟨cs, -, read⟩ := Option.bind_eq_some_iff.mp read
  obtain ⟨⟨hour, cs⟩, -, read⟩ := Option.bind_eq_some_iff.mp read
  obtain ⟨cs, -, read⟩ := Option.bind_eq_some_iff.mp read
  obtain ⟨⟨minute, cs⟩, -, read⟩ := Option.bind_eq_some_iff.mp read
  obtain ⟨cs, -, read⟩ := Option.bind_eq_some_iff.mp read
  obtain ⟨⟨second, cs⟩, -, read⟩ := Option.bind_eq_some_iff.mp read
  obtain ⟨⟨nano, cs⟩, hn, read⟩ := Option.bind_eq_some_iff.mp read
  obtain ⟨offset, ho, read⟩ := Option.bind_eq_some_iff.mp read
  have years : year < 10 ^ 4 := number?_lt hy
  have nanos := fraction?_lt hn
  have offsets := offset?_small ho
  dsimp only at read
  split at read
  · contradiction
  rename_i inTime
  simp only [Bool.or_eq_true, Bool.not_eq_true', decide_eq_true_eq, not_or,
    Bool.not_eq_false] at inTime
  obtain ⟨⟨⟨date, hh⟩, hm⟩, hs⟩ := inTime
  have hours : hour < 24 := by omega
  have minutes : minute < 60 := by omega
  split at read
  · -- a leap second is read as the last nanosecond before it
    split at read
    · cases read
      exact ⟨⟨date, hours, minutes, by simp, by simp⟩, by simp [isWritable, offsets]; omega⟩
    · contradiction
  · rename_i notLeap
    have seconds : second < 60 := by
      have other : second ≠ 60 := by simpa using notLeap
      omega
    cases read
    exact ⟨⟨date, hours, minutes, seconds, nanos⟩, by simp [isWritable, offsets]; omega⟩

end CloudPolicy.Timestamp
