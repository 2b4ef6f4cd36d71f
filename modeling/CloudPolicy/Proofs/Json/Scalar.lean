import CloudPolicy.Json
import CloudPolicy.Proofs.Text

/-!
Integers of 64 bits and strings in JSON text are read as they are written, whatever follows them.
-/

set_option autoImplicit false
set_option relaxedAutoImplicit false

namespace CloudPolicy

namespace Double

private theorem round_le (n : Nat) : round n ≤ 2 * n := by
  unfold round
  split
  · omega
  · next large =>
    have positive : n ≠ 0 := by
      intro zero
      simp [zero] at large
    have unit_le : Nat.pow 2 (Nat.log2 n - 52) ≤ n :=
      (Nat.pow_le_pow_right (by decide) (Nat.sub_le _ _)).trans (Nat.log2_self_le positive)
    have down := Nat.div_mul_le_self n (Nat.pow 2 (Nat.log2 n - 52))
    dsimp only
    split
    · rw [Nat.add_mul]
      omega
    · omega

private theorem infinity_gt : UInt64.size * 4 < infinity := by
  decide +kernel

end Double

namespace Json

def BeginsNumber (c : Char) : Prop := c = '-' ∨ c.isDigit = true

theorem BeginsNumber.not_mem {c : Char} (begins : BeginsNumber c) {cs : List Char}
    (others : (cs.all fun d => d != '-' && !d.isDigit) = true) : c ∉ cs := by
  intro here
  have other := List.all_eq_true.mp others c here
  rcases begins with rfl | digit
  · contradiction
  · simp [digit] at other

/-- What cannot carry on a numeral. -/
def EndsNumber (rest : List Char) : Prop :=
  Text.NoDigit rest ∧ ∀ c ∈ rest.head?, c ≠ '.' ∧ c ≠ 'e' ∧ c ≠ 'E'

private theorem digits?_append {ds rest : List Char} (some_digit : ds ≠ [])
    (digits : ∀ c ∈ ds, c.isDigit = true) (after : Text.NoDigit rest) :
    digits? (ds ++ rest) = some (ds, rest) := by
  unfold digits?
  rw [Text.takeWhile_isDigit digits after, Text.dropWhile_isDigit digits after]
  cases ds with
  | nil => contradiction
  | cons d ds => rfl

private theorem digits?_toDigits (n : Nat) {rest : List Char} (after : Text.NoDigit rest) :
    digits? (Nat.toDigits 10 n ++ rest) = some (Nat.toDigits 10 n, rest) :=
  digits?_append Nat.toDigits_ne_nil (fun _ hc => Text.isDigit_of_mem_toDigits hc) after

private theorem fraction?_of_ends {rest : List Char} (after : EndsNumber rest) :
    fraction? rest = some ([], rest) := by
  cases rest with
  | nil => rfl
  | cons c cs =>
    have h := (after.2 c (by simp)).1
    unfold fraction?
    split <;> simp_all

private theorem exponent?_of_ends {rest : List Char} (after : EndsNumber rest) :
    exponent? rest = some (none, rest) := by
  cases rest with
  | nil => rfl
  | cons c cs =>
    have h := (after.2 c (by simp)).2
    unfold exponent?
    split <;> simp_all

namespace Literal

def ofInt (n : Int) : Literal := ⟨decide (n < 0), Nat.toDigits 10 n.natAbs, [], none⟩

private theorem head?_zero (n : Nat) :
    (Nat.toDigits 10 n).head? = some '0' → (Nat.toDigits 10 n).length = 1 := by
  by_cases hn : n = 0
  · simp [hn]
  · simp [Text.head?_toDigits hn]

private theorem toList_toString_ofNat (m : Nat) :
    (toString (Int.ofNat m)).toList = Nat.toDigits 10 m := by
  show (toString m).toList = _
  rw [Nat.toString_eq_ofList_toDigits, String.toList_ofList]

private theorem toList_toString_negSucc (m : Nat) :
    (toString (Int.negSucc m)).toList = '-' :: Nat.toDigits 10 (m + 1) := by
  show ("-" ++ toString (m + 1)).toList = _
  simp

theorem toString_eq_cons (n : Int) :
    ∃ c cs, (toString n).toList = c :: cs ∧ BeginsNumber c := by
  cases n with
  | ofNat m =>
    rw [toList_toString_ofNat]
    cases hd : Nat.toDigits 10 m with
    | nil => exact absurd hd Nat.toDigits_ne_nil
    | cons d ds => exact ⟨d, ds, rfl, .inr (Text.isDigit_of_mem_toDigits (n := m) (by simp [hd]))⟩
  | negSucc m =>
    rw [toList_toString_negSucc]
    exact ⟨'-', _, rfl, .inl rfl⟩

theorem read?_toString (n : Int) {rest : List Char} (after : EndsNumber rest) :
    read? ((toString n).toList ++ rest) = some (ofInt n, rest) := by
  cases n with
  | ofNat m =>
    rw [toList_toString_ofNat]
    have whole := digits?_toDigits m after.1
    have zero := head?_zero m
    cases hd : Nat.toDigits 10 m with
    | nil => exact absurd hd Nat.toDigits_ne_nil
    | cons d ds =>
      have digit := Text.isDigit_of_mem_toDigits (n := m) (c := d) (by simp [hd])
      have unsigned : d ≠ '-' := by
        rintro rfl
        simp at digit
      simp only [hd, List.cons_append] at whole zero ⊢
      simpa [read?, unsigned, whole, fraction?_of_ends after, exponent?_of_ends after, ofInt, hd]
        using zero
  | negSucc m =>
    rw [toList_toString_negSucc]
    have whole := digits?_toDigits (m + 1) after.1
    simpa [read?, whole, fraction?_of_ends after, exponent?_of_ends after, ofInt]
      using head?_zero (m + 1)

private theorem takeDigits_eq {m : Nat} {ds : List Char}
    (fits : Nat.ofDigitChars 10 ds m < UInt64.size) :
    takeDigits m ds = (Nat.ofDigitChars 10 ds m, []) := by
  induction ds generalizing m with
  | nil => rfl
  | cons d ds ih =>
    rw [Nat.ofDigitChars_cons] at fits ⊢
    have next : 10 * m + Text.digitValue d < UInt64.size := by
      rw [Nat.ofDigitChars_eq_ofDigitChars_zero] at fits
      have grows : 1 ≤ 10 ^ ds.length := Nat.one_le_pow _ _ (by decide)
      have := Nat.mul_le_mul_right (10 * m + Text.digitValue d) grows
      unfold Text.digitValue at this ⊢
      omega
    rw [takeDigits, if_pos next]
    exact ih fits

private theorem overflows_ofInt {n : Int} (fits : n.natAbs < UInt64.size) :
    (ofInt n).overflows = false := by
  have spelled : Nat.ofDigitChars 10 (Nat.toDigits 10 n.natAbs) 0 = n.natAbs :=
    Nat.ofDigitChars_ten_toDigits
  have taken : takeDigits 0 (Nat.toDigits 10 n.natAbs) = (n.natAbs, []) := by
    rw [takeDigits_eq (by rwa [spelled]), spelled]
  have small : Double.round n.natAbs * Double.round 1 < Double.infinity := by
    have rounded := Double.round_le n.natAbs
    have large := Double.infinity_gt
    have one : Double.round 1 = 1 := rfl
    rw [one]
    omega
  have scaled : (ofInt n).overflows =
      (n.natAbs != 0 && decide (Double.infinity ≤ Double.round n.natAbs * Double.round 1)) := by
    simp [overflows, ofInt, taken, takeDigits]
  rw [scaled, decide_eq_false (Nat.not_le.mpr small), Bool.and_false]

theorem value_ofInt {n : Int} (fits : n.natAbs < UInt64.size) : (ofInt n).value = .integer n := by
  have spelled : Text.decimal ((ofInt n).whole ++ (ofInt n).fraction) = n.natAbs := by
    rw [ofInt, List.append_nil, Text.decimal_toDigits]
  have whole : ((ofInt n).fraction.isEmpty && (ofInt n).exponent.isNone &&
      !((ofInt n).negative && n.natAbs == 0)) = true := by
    by_cases zero : n = 0
    · subst zero
      rfl
    · have nonzero : n.natAbs ≠ 0 := by omega
      simp [ofInt, nonzero]
  have signed : (if (ofInt n).negative = true then -(n.natAbs : Int) else n.natAbs) = n := by
    by_cases negative : n < 0
    · rw [ofInt, if_pos (decide_eq_true negative)]
      omega
    · rw [ofInt, if_neg (by simpa using negative)]
      omega
  simp only [value, overflows_ofInt fits, Bool.false_eq_true, if_false, spelled,
    whole, if_true, signed]

end Literal

end Json

namespace Json

private theorem hexValue?_hexDigit : ∀ d < 16, Text.hexValue? (Text.hexDigit d) = some d := by
  decide

namespace Token

private theorem hexUnit?_control {n : Nat} (control : n < 0x20) :
    hexUnit? '0' '0' (Text.hexDigit (n / 16)) (Text.hexDigit (n % 16)) = some n := by
  have zero : Text.hexValue? '0' = some 0 := rfl
  have high := hexValue?_hexDigit (n / 16) (by omega)
  have low := hexValue?_hexDigit (n % 16) (by omega)
  simp only [hexUnit?, zero, high, low, Option.bind_eq_bind, Option.bind_some, Option.pure_def,
    Option.some.injEq]
  omega

private theorem units?_short {e c : Char} (letter : shortEscape? e = some c) (rest : List Char) :
    units? ('\\' :: e :: rest) = (units? rest).map fun p => (c.toNat :: p.1, p.2) := by
  have named : e ≠ 'u' := by
    rintro rfl
    simp [shortEscape?] at letter
  rw [units?]
  · rw [letter]
    cases units? rest <;> rfl
  · intro a b c d r same
    exact absurd same named

private theorem units?_long {n : Nat} (control : n < 0x20) (rest : List Char) :
    units? (['\\', 'u', '0', '0', Text.hexDigit (n / 16), Text.hexDigit (n % 16)] ++ rest) =
      (units? rest).map fun p => (n :: p.1, p.2) := by
  simp only [List.cons_append, List.nil_append]
  rw [units?, hexUnit?_control control]
  cases units? rest <;> rfl

private theorem units?_plain {c : Char} (quote : c ≠ '"') (backslash : c ≠ '\\')
    (printable : ¬c.toNat < 0x20) (rest : List Char) :
    units? (c :: rest) = (units? rest).map fun p => (c.toNat :: p.1, p.2) := by
  have stays : (c == '\\' || decide (c.toNat < 0x20)) = false := by simp [backslash, printable]
  rw [units?]
  · rw [stays]
    rfl
  all_goals simp_all

private theorem units?_escapeChar (c : Char) (rest : List Char) :
    units? (escapeChar c ++ rest) = (units? rest).map fun p => (c.toNat :: p.1, p.2) := by
  unfold escapeChar
  split
  case h_8 _ quote backslash _ _ _ _ _ =>
    split
    · next control => exact units?_long control rest
    · next printable => exact units?_plain quote backslash printable rest
  all_goals exact units?_short rfl rest

private theorem units?_escaped (cs rest : List Char) :
    units? (cs.flatMap escapeChar ++ '"' :: rest) = some (cs.map Char.toNat, rest) := by
  induction cs with
  | nil => rfl
  | cons c cs ih =>
    rw [List.flatMap_cons, List.append_assoc, units?_escapeChar, ih]
    rfl

/-- The number of a character is no half of a surrogate pair. -/
private theorem chars?_toNat (cs : List Char) : chars? (cs.map Char.toNat) = some cs := by
  induction cs with
  | nil => rfl
  | cons c cs ih =>
    have valid : c.toNat < 0xD800 ∨ 0xDFFF < c.toNat := by
      have := c.valid
      unfold UInt32.isValidChar Nat.isValidChar at this
      unfold Char.toNat
      omega
    have high : ¬(0xD800 ≤ c.toNat ∧ c.toNat < 0xDC00) := by omega
    have low : ¬(0xDC00 ≤ c.toNat ∧ c.toNat < 0xE000) := by omega
    rw [List.map_cons, chars?.eq_def]
    simp [high, low, ih]

theorem next?_quoted (s : String) (rest : List Char) :
    next? '"' (s.toList.flatMap escapeChar ++ '"' :: rest) = some (.text (some s), rest) := by
  have text : (chars? (s.toList.map Char.toNat)).map String.ofList = some s := by
    simp [chars?_toNat]
  simp [next?, units?_escaped, text]

end Token

end Json

end CloudPolicy
