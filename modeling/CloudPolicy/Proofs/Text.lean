import CloudPolicy.Text
import Mathlib.Algebra.Group.Nat.Defs
import Mathlib.Data.List.Basic
import Mathlib.Data.List.DropRight
import Mathlib.Data.List.Induction
import Mathlib.Data.List.TakeWhile
import Mathlib.Data.String.Basic

/-!
Texts by their bytes, decimal numerals, the pieces that a separator cuts a text into, and trimming.
-/

set_option autoImplicit false
set_option relaxedAutoImplicit false

namespace CloudPolicy.Text

theorem utf8_injective : Function.Injective utf8 := by
  intro s t same
  have bytes : s.toList.utf8Encode = t.toList.utf8Encode :=
    congrArg List.toByteArray same
  rwa [String.utf8Encode_toList, String.utf8Encode_toList, String.toByteArray_inj] at bytes

private theorem bytes_lt_iff {x y : Nat} {bs cs : List UInt8} (hx : x < 256) (hy : y < 256) :
    UInt8.ofNat x :: bs < UInt8.ofNat y :: cs ↔ x < y ∨ x = y ∧ bs < cs := by
  rw [List.cons_lt_cons_iff, UInt8.lt_iff_toNat_lt, ← UInt8.toNat_inj, UInt8.toNat_ofNat_of_lt' hx,
    UInt8.toNat_ofNat_of_lt' hy]

/-- The smaller of two numbers has the smaller leading digits, or the same ones and the smaller last
digit. -/
private theorem digits_lt {v w : Nat} (less : v < w) :
    v / 64 < w / 64 ∨ v / 64 = w / 64 ∧ v % 64 < w % 64 := by
  omega

private theorem utf8EncodeChar_append_lt {c d : Char} (less : c < d) (bs cs : List UInt8) :
    String.utf8EncodeChar c ++ bs < String.utf8EncodeChar d ++ cs := by
  have bound : d.val.toNat < 0x110000 := by
    have valid := d.valid
    unfold UInt32.isValidChar Nat.isValidChar at valid
    omega
  have apart : c.val.toNat < d.val.toNat := less
  simp only [String.utf8EncodeChar]
  generalize c.val.toNat = v at apart
  generalize d.val.toNat = w at apart bound
  have last := digits_lt apart
  have middle := @digits_lt (v / 64) (w / 64)
  have first := @digits_lt (v / 4096) (w / 4096)
  rw [Nat.div_div_eq_div_mul, Nat.div_div_eq_div_mul] at middle first
  have top : v / 262144 % 8 = v / 262144 := Nat.mod_eq_of_lt (by omega)
  have top' : w / 262144 % 8 = w / 262144 := Nat.mod_eq_of_lt (by omega)
  -- one case for each pair of lengths: different ones show in the first byte, equal ones later
  split_ifs <;> simp (disch := omega) only [List.cons_append, List.nil_append, bytes_lt_iff] <;>
  omega

private theorem utf8_lt {a b : String} (less : a < b) : utf8 a < utf8 b := by
  rw [String.lt_iff_toList_lt, ← List.lex_lt] at less
  unfold utf8
  generalize a.toList = cs at less
  generalize b.toList = ds at less
  induction less with
  | @nil d ds =>
    rw [List.flatMap_nil, List.flatMap_cons]
    cases spelled : String.utf8EncodeChar d with
    | nil => exact absurd spelled String.utf8EncodeChar_ne_nil
    | cons b bs => exact List.nil_lt_cons b _
  | rel here =>
    rw [List.flatMap_cons, List.flatMap_cons]
    exact utf8EncodeChar_append_lt here _ _
  | cons _ ih =>
    rw [List.flatMap_cons, List.flatMap_cons]
    exact List.append_left_lt ih

theorem utf8_lt_iff {a b : String} : utf8 a < utf8 b ↔ a < b := by
  refine ⟨fun less => ?_, utf8_lt⟩
  rcases lt_trichotomy a b with before | rfl | after
  · exact before
  · exact absurd less (List.lt_irrefl _)
  · exact absurd (utf8_lt after) (List.lt_asymm less)

theorem utf8_le_iff {a b : String} : utf8 a ≤ utf8 b ↔ a ≤ b := by
  rw [← String.not_lt, ← utf8_lt_iff]
  rfl

private theorem decimal_eq_ofDigitChars (ds : List Char) : decimal ds = Nat.ofDigitChars 10 ds 0 :=
  Nat.ofDigitChars_eq_foldl.symm

theorem decimal_toDigits (n : Nat) : decimal (Nat.toDigits 10 n) = n := by
  rw [decimal_eq_ofDigitChars, Nat.ofDigitChars_ten_toDigits]

theorem decimal_zeros (k : Nat) (ds : List Char) :
    decimal (List.replicate k '0' ++ ds) = decimal ds := by
  simp only [decimal_eq_ofDigitChars, Nat.ofDigitChars_append, Nat.ofDigitChars_replicate_zero,
    Nat.mul_zero]

private theorem decimal_concat (ds : List Char) (c : Char) :
    decimal (ds ++ [c]) = 10 * decimal ds + digitValue c := by
  simp [decimal]

private theorem digitValue_lt {c : Char} (hc : c.isDigit = true) : digitValue c < 10 := by
  have bounds : '0'.val ≤ c.val ∧ c.val ≤ '9'.val := by simpa [Char.isDigit] using hc
  have upper : c.val.toNat ≤ '9'.val.toNat := bounds.2
  have nine : '9'.val.toNat = 57 := rfl
  have zero : '0'.toNat = 48 := rfl
  have same : c.toNat = c.val.toNat := rfl
  rw [digitValue]
  omega

theorem decimal_lt {ds : List Char} (digits : ∀ c ∈ ds, c.isDigit = true) :
    decimal ds < 10 ^ ds.length := by
  induction ds using List.reverseRecOn with
  | nil => decide
  | append_singleton ds c ih =>
    have front := ih fun d hd => digits d (by simp [hd])
    have last := digitValue_lt (digits c (by simp))
    rw [decimal_concat, List.length_append, List.length_singleton, Nat.pow_succ]
    omega

theorem isDigit_of_mem_toDigits {n : Nat} {c : Char} (hc : c ∈ Nat.toDigits 10 n) :
    c.isDigit = true :=
  Nat.isDigit_of_mem_toDigits (by decide) (by decide) hc

theorem length_toDigits_le {n k : Nat} (hk : 0 < k) (hn : n < 10 ^ k) :
    (Nat.toDigits 10 n).length ≤ k :=
  (Nat.length_toDigits_le_iff (by decide) hk).mpr hn

theorem head?_toDigits {n : Nat} (hn : n ≠ 0) : (Nat.toDigits 10 n).head? ≠ some '0' := by
  induction n using Nat.strong_induction_on with
  | _ n ih =>
    by_cases small : n < 10
    · have digit : ∀ m < 10, m ≠ 0 → m.digitChar ≠ '0' := by decide
      rw [Nat.toDigits_of_lt_base small]
      simpa using digit n small hn
    · have shorter := ih (n / 10) (by omega) (by omega)
      rw [Nat.toDigits_eq_if (by decide), if_neg small]
      cases hd : Nat.toDigits 10 (n / 10) with
      | nil => exact absurd hd Nat.toDigits_ne_nil
      | cons d ds =>
        rw [hd] at shorter
        simpa using shorter

def NoDigit (cs : List Char) : Prop := ∀ c ∈ cs.head?, c.isDigit = false

section Run

variable {ds rest : List Char} (digits : ∀ c ∈ ds, c.isDigit = true) (after : NoDigit rest)
include digits after

theorem takeWhile_isDigit : (ds ++ rest).takeWhile Char.isDigit = ds := by
  rw [List.takeWhile_append_of_pos digits]
  cases rest with
  | nil => simp
  | cons c cs => simp [after c (by simp)]

theorem dropWhile_isDigit : (ds ++ rest).dropWhile Char.isDigit = rest := by
  rw [List.dropWhile_append_of_pos digits]
  cases rest with
  | nil => simp
  | cons c cs => simp [after c (by simp)]

end Run

theorem beginsWith_iff {lead s : String} : beginsWith lead s = true ↔ ∃ rest, s = lead ++ rest := by
  rw [beginsWith, List.isPrefixOf_iff_prefix]
  constructor
  · rintro ⟨rest, same⟩
    exact ⟨String.ofList rest, String.toList_inj.mp (by simp [← same])⟩
  · rintro ⟨rest, rfl⟩
    rw [String.toList_append]
    exact List.prefix_append _ _

section Pieces

variable {sep : Char} {cs piece : List Char}

end Pieces

variable {cs : List Char}

private theorem trimChars_eq (cs : List Char) :
    trimChars cs = (cs.dropWhile isBlank).rdropWhile isBlank := rfl

theorem getLast?_trimChars {c : Char} (last : c ∈ (trimChars cs).getLast?) : isBlank c = false := by
  obtain ⟨ne, rfl⟩ := List.mem_getLast?_eq_getLast last
  simpa [trimChars_eq] using List.rdropWhile_last_not isBlank (cs.dropWhile isBlank) ne

theorem trimChars_eq_self (first : ∀ c ∈ cs.head?, isBlank c = false)
    (last : ∀ c ∈ cs.getLast?, isBlank c = false) : trimChars cs = cs := by
  have front : cs.dropWhile isBlank = cs := by
    cases cs with
    | nil => rfl
    | cons c cs => exact List.dropWhile_cons_of_neg (by simp [first c rfl])
  have back : cs.rdropWhile isBlank = cs :=
    List.rdropWhile_eq_self_iff.mpr fun ne => by
      simp [last _ (List.getLast?_eq_some_getLast ne)]
  rw [trimChars_eq, front, back]

theorem length_trimChars_le (cs : List Char) : (trimChars cs).length ≤ cs.length :=
  (List.rdropWhile_prefix isBlank _).length_le.trans (List.dropWhile_sublist isBlank).length_le

section Blanks

variable {blanks : List Char} (blank : ∀ c ∈ blanks, isBlank c = true)
include blank

private theorem trimChars_blanks_append (cs : List Char) :
    trimChars (blanks ++ cs) = trimChars cs := by
  rw [trimChars_eq, trimChars_eq, List.dropWhile_append_of_pos blank]

private theorem rdropWhile_append_blanks (cs : List Char) :
    (cs ++ blanks).rdropWhile isBlank = cs.rdropWhile isBlank := by
  rw [List.rdropWhile, List.rdropWhile, List.reverse_append,
    List.dropWhile_append_of_pos fun c member => blank c (List.mem_reverse.mp member)]

private theorem trimChars_append_blanks (cs : List Char) :
    trimChars (cs ++ blanks) = trimChars cs := by
  rw [trimChars_eq, trimChars_eq, List.dropWhile_append]
  split
  · next gone =>
    rw [List.isEmpty_iff.mp gone, List.dropWhile_eq_nil_iff.mpr blank]
  · exact rdropWhile_append_blanks blank _

end Blanks

theorem trimChars_cons_of_blank {c : Char} (blank : isBlank c = true) (cs : List Char) :
    trimChars (c :: cs) = trimChars cs := by
  have single : ∀ d ∈ [c], isBlank d = true := by simpa using blank
  exact trimChars_blanks_append single cs

private theorem exists_append_trimChars (cs : List Char) :
    ∃ before after, cs = before ++ trimChars cs ++ after ∧
    (∀ c ∈ before, isBlank c = true) ∧ ∀ c ∈ after, isBlank c = true := by
  refine ⟨cs.takeWhile isBlank, (cs.dropWhile isBlank).rtakeWhile isBlank, ?_,
    fun c member => List.mem_takeWhile_imp member, fun c member => List.mem_rtakeWhile_imp member⟩
  rw [trimChars_eq, List.append_assoc, List.rdropWhile_append_rtakeWhile,
    List.takeWhile_append_dropWhile]

/-- Trimming goes together with replacing characters, as long as blanks stay blanks and nothing
becomes one. -/
theorem trimChars_map {f : Char → Char} (same : ∀ c, isBlank (f c) = isBlank c) (cs : List Char) :
    trimChars (cs.map f) = (trimChars cs).map f := by
  have kept : isBlank ∘ f = isBlank := funext same
  rw [trimChars, trimChars, List.dropWhile_map, kept, ← List.map_reverse, List.dropWhile_map, kept,
    List.map_reverse]

theorem isBlankText_iff {s : String} : isBlankText s = true ↔ trim s = "" := by
  rw [isBlankText, List.all_eq_true, ← String.toList_inj, trim, String.toList_ofList,
    String.toList_empty]
  constructor
  · intro blank
    rw [trimChars_eq, List.dropWhile_eq_nil_iff.mpr blank]
    rfl
  · intro gone c member
    obtain ⟨before, after, split, blank, blank'⟩ := exists_append_trimChars s.toList
    rw [gone, List.append_nil] at split
    rcases List.mem_append.mp (split ▸ member) with front | back
    · exact blank c front
    · exact blank' c back

theorem isBlank_of_visible {c : Char} (low : 0x20 < c.toNat) (high : c.toNat < 0x7F) :
    isBlank c = false := by
  simp only [isBlank, Bool.or_eq_false_iff, Bool.and_eq_false_iff, decide_eq_false_iff_not,
    beq_eq_false_iff_ne]
  omega

private theorem toNat_toLower (c : Char) :
    c.toLower.toNat = if 65 ≤ c.toNat ∧ c.toNat ≤ 90 then c.toNat + 32 else c.toNat := by
  have capital_iff : (c.val ≥ 'A'.val ∧ c.val ≤ 'Z'.val) ↔ 65 ≤ c.toNat ∧ c.toNat ≤ 90 := by
    rw [ge_iff_le, UInt32.le_iff_toNat_le, UInt32.le_iff_toNat_le]
    exact Iff.rfl
  unfold Char.toLower
  by_cases capital : 65 ≤ c.toNat ∧ c.toNat ≤ 90
  · rw [dif_pos (capital_iff.mpr capital), if_pos capital]
    have small : c.val.toNat + 32 < 2 ^ 32 := by
      have bound : c.val.toNat ≤ 90 := capital.2
      omega
    exact (UInt32.toNat_add c.val 32).trans (Nat.mod_eq_of_lt small)
  · rw [dif_neg (mt capital_iff.mp capital), if_neg capital]

private theorem isBlank_toLower (c : Char) : isBlank c.toLower = isBlank c := by
  have lowered := toNat_toLower c
  by_cases capital : 65 ≤ c.toNat ∧ c.toNat ≤ 90
  · rw [if_pos capital] at lowered
    rw [isBlank_of_visible (by omega) (by omega), isBlank_of_visible (by omega) (by omega)]
  · rw [if_neg capital] at lowered
    rw [isBlank, isBlank, lowered]

/-- The text is the name, up to blanks around it and the case of letters. -/
def Spells (s name : String) : Prop :=
  ∃ before core after, s = before ++ core ++ after ∧ isBlankText before = true ∧
    isBlankText after = true ∧ sameIgnoringCase core name = true

theorem lower_trim_eq_iff {s name : String} (solid : ∀ c ∈ name.toList, isBlank c = false)
    (small : lower name = name) : lower (trim s) = name ↔ Spells s name := by
  have smallChars : name.toList.map Char.toLower = name.toList := by
    simpa [lower] using congrArg String.toList small
  rw [← String.toList_inj, lower, trim, String.toList_ofList, String.toList_ofList]
  constructor
  · intro named
    obtain ⟨before, after, split, blank, blank'⟩ := exists_append_trimChars s.toList
    refine ⟨.ofList before, .ofList (trimChars s.toList), .ofList after, ?_, ?_, ?_, ?_⟩
    · rw [← String.toList_inj]
      simpa using split
    · simpa [isBlankText] using blank
    · simpa [isBlankText] using blank'
    · simp [sameIgnoringCase, named, smallChars]
  · rintro ⟨before, core, after, rfl, blank, blank', same⟩
    simp only [isBlankText, List.all_eq_true] at blank blank'
    simp only [sameIgnoringCase, beq_iff_eq, smallChars] at same
    have inside : ∀ c ∈ core.toList, isBlank c = false := by
      intro c member
      rw [← isBlank_toLower]
      exact solid _ (same ▸ List.mem_map_of_mem member)
    rw [String.toList_append, String.toList_append, trimChars_append_blanks blank',
      trimChars_blanks_append blank,
      trimChars_eq_self (fun c first => inside c (List.mem_of_mem_head? first))
        fun c last => inside c (List.mem_of_getLast? last),
      same]

end CloudPolicy.Text
