import CloudPolicy.Glob
import CloudPolicy.Proofs.Text
import CloudPolicy.Rule
import Mathlib.Data.List.Basic

/-!
Valid definitions and the grammar of kebab tokens. A glob without metacharacters accepts the text
that is written like it and nothing else, as do the long ids of valid definitions.
-/

set_option autoImplicit false
set_option relaxedAutoImplicit false

namespace CloudPolicy

namespace Kebab

def isTokenChar (c : Char) : Bool := isLetter c || isDigit c || c == '-'

private theorem all_of_isToken {s : String} (token : isToken s = true) :
    s.toList.all isTokenChar = true := by
  unfold isToken at token
  split at token
  · contradiction
  · next c cs chars =>
    simp only [Bool.and_eq_true] at token
    obtain ⟨⟨⟨letter, later⟩, _⟩, _⟩ := token
    rw [chars, List.all_cons, isTokenChar, letter]
    exact later

end Kebab

namespace Definition

variable {d : Definition}

private theorem ite_eq_none_iff {p : Prop} [Decidable p] {fault : DefinitionFault}
    {rest : Option DefinitionFault} :
    (if p then some fault else rest) = none ↔ ¬p ∧ rest = none := by
  split <;> simp [*]

theorem fault?_eq_none_iff : d.fault? = none ↔
    Kebab.isToken d.service = true ∧ Kebab.isToken d.shortCode = true ∧
    Text.isBlankText d.summary = false ∧
      Text.isBlankText d.impact = false ∧ Text.isBlankText d.resolution = false ∧
      ∀ link ∈ d.links, isSecure link = true := by
  simp [fault?, ite_eq_none_iff]

theorem longId_chars (valid : d.fault? = none) : d.longId.toList.all Kebab.isTokenChar = true := by
  obtain ⟨service, shortCode, _⟩ := fault?_eq_none_iff.mp valid
  have provider : d.provider.name.toList.all Kebab.isTokenChar = true := by
    cases d.provider
    decide
  have dash : "-".toList.all Kebab.isTokenChar = true := by decide
  simp only [longId, String.toList_append, List.all_append, provider, dash,
    Kebab.all_of_isToken service, Kebab.all_of_isToken shortCode, Bool.and_true]

end Definition

namespace Glob

def metacharacters : List Char := ['?', '[', '{', ',', '\\', '}', '*']

section Reading

variable {prev : Option Char} {p : Progress} {c : Char} {cs : List Char}

private theorem readFrom_cons (plain : c ∉ metacharacters) :
    readFrom .plain prev p (c :: cs) = readFrom .plain (some c) (p.push (.literal c)) cs := by
  simp only [metacharacters, List.mem_cons, List.not_mem_nil, or_false, not_or] at plain
  obtain ⟨any, opens, group, comma, escape, ends, star⟩ := plain
  -- the last of the equations, after those for the metacharacters
  rw [readFrom] <;> assumption

private theorem readFrom_literals (plain : ∀ c ∈ cs, c ∉ metacharacters) (closed : p.groups = []) :
    readFrom .plain prev p cs = .ok (p.current.reverse ++ cs.map .literal) := by
  induction cs generalizing prev p with
  | nil => simp [readFrom, closed]
  | cons c cs ih =>
    obtain ⟨here, later⟩ := List.forall_mem_cons.mp plain
    rw [readFrom_cons here, ih later (show (p.push (.literal c)).groups = [] from closed)]
    simp [Progress.push]

end Reading

namespace Pattern

/-- From each place the pattern goes over these bytes and ends behind them. -/
def Spells (p : Pattern) (bs : List UInt8) : Prop := ∀ (text : Array UInt8) places,
  ends text p places = places.filterMap fun i =>
    if bs <+: text.toList.drop i then some (i + bs.length) else none

private theorem spells_empty : Spells .empty [] := fun text places => by simp [ends]

private theorem spells_one (b : UInt8) : Spells (one b) [b] := by
  intro text places
  refine List.filterMap_congr fun i _ => ?_
  have here : [b] <+: text.toList.drop i ↔ text[i]? = some b := by
    rw [← Array.getElem?_toList, ← List.head?_drop]
    cases text.toList.drop i <;> simp [eq_comm]
  have single : ∀ x, ByteSet.contains ⟨false, [(b, b)]⟩ x = (x == b) := fun x => by
    rw [Bool.eq_iff_iff]
    simp [ByteSet.contains, UInt8.le_antisymm_iff, and_comm]
  simp only [here]
  cases text[i]? <;> simp [single]

private theorem append_prefix_iff {α : Type} {as bs l : List α} :
    as ++ bs <+: l ↔ as <+: l ∧ bs <+: l.drop as.length := by
  constructor
  · rintro ⟨rest, rfl⟩
    simp
  · rintro ⟨⟨rest, rfl⟩, back⟩
    simpa using back

theorem Spells.seq {p q : Pattern} {as bs : List UInt8} (first : Spells p as)
    (second : Spells q bs) : Spells (.seq p q) (as ++ bs) := by
  intro text places
  rw [ends, first, second, List.filterMap_filterMap]
  refine List.filterMap_congr fun i _ => ?_
  simp only [append_prefix_iff, List.drop_drop]
  by_cases here : as <+: text.toList.drop i
  · simp [here, Nat.add_assoc]
  · simp [here]

private theorem spells_bytes (bs : List UInt8) : Spells (bytes bs) bs := by
  induction bs with
  | nil => exact spells_empty
  | cons b bs ih => exact (spells_one b).seq ih

private theorem spells_sequence (cs : List Char) :
    Spells (Token.sequence (cs.map .literal)) (cs.flatMap String.utf8EncodeChar) := by
  induction cs with
  | nil => exact spells_empty
  | cons c cs ih => exact (spells_bytes (String.utf8EncodeChar c)).seq ih

private theorem Spells.matchesBytes_iff {p : Pattern} {bs text : List UInt8}
    (spells : Spells p bs) : p.matchesBytes text = true ↔ text = bs := by
  rw [matchesBytes, spells]
  constructor
  · intro ends
    by_cases lead : bs <+: text
    · have whole : text.length = bs.length := by simpa [lead] using ends
      exact (lead.eq_of_length whole.symm).symm
    · simp [lead] at ends
  · rintro rfl
    simp

end Pattern

end Glob

/-- A pattern without metacharacters compiles and accepts exactly the text that it is. -/
private theorem Glob.compile_literal {pattern : String}
    (plain : ∀ c ∈ pattern.toList, c ∉ metacharacters) :
    ∃ g, compile pattern = .ok g ∧ ∀ text, g.accepts text = true ↔ text = pattern := by
  have tokens : read pattern = .ok (pattern.toList.map .literal) := readFrom_literals plain rfl
  have shape : patternOf (pattern.toList.map .literal) =
      Token.sequence (pattern.toList.map .literal) := by
    rcases pattern.toList with _ | ⟨c, _ | _⟩ <;> rfl
  refine ⟨⟨pattern, Token.sequence (pattern.toList.map .literal)⟩, ?_, fun text => ?_⟩
  · rw [compile, tokens, ← shape]
  · exact (Pattern.spells_sequence pattern.toList).matchesBytes_iff.trans Text.utf8_injective.eq_iff

private theorem Kebab.not_metacharacter {c : Char} (plain : isTokenChar c = true) :
    c ∉ Glob.metacharacters := by
  have apart : (Glob.metacharacters.all fun c => !isTokenChar c) = true := by decide
  intro special
  have excluded := List.all_eq_true.mp apart c special
  simp [plain] at excluded

theorem Definition.compile_longId {d : Definition} (valid : d.fault? = none) :
    ∃ g, Glob.compile d.longId = .ok g ∧ ∀ text, g.accepts text = true ↔ text = d.longId :=
  Glob.compile_literal fun c member =>
    Kebab.not_metacharacter (List.all_eq_true.mp (longId_chars valid) c member)

namespace Kebab

def WordChar (c : Char) : Prop := 'a' ≤ c ∧ c ≤ 'z' ∨ '0' ≤ c ∧ c ≤ '9'

/-- Any number of groups, each of which is a dash with at least one letter or digit behind it. -/
inductive Groups : List Char → Prop
  | none : Groups []
  | group {word rest : List Char} (filled : word ≠ []) (chars : ∀ c ∈ word, WordChar c)
      (more : Groups rest) : Groups ('-' :: (word ++ rest))

/-- A letter, then letters and digits, then groups. -/
inductive Spelled : List Char → Prop
  | token {first : Char} {word groups : List Char} (letter : 'a' ≤ first ∧ first ≤ 'z')
      (chars : ∀ c ∈ word, WordChar c) (more : Groups groups) : Spelled (first :: (word ++ groups))

/-- What the check of a token asks of the characters behind the first one. -/
structure Tidy (cs : List Char) : Prop where
  chars : ∀ c ∈ cs, isTokenChar c = true
  single : hasDoubleDash cs = false
  last : cs.getLast? ≠ some '-'

private theorem isTokenChar_iff {c : Char} : isTokenChar c = true ↔ WordChar c ∨ c = '-' := by
  simp [isTokenChar, isLetter, isDigit, WordChar]

private theorem WordChar.ne_dash {c : Char} (char : WordChar c) : c ≠ '-' := by
  rintro rfl
  exact absurd char (by unfold WordChar; decide)

private theorem hasDoubleDash_cons {c : Char} (other : c ≠ '-') (cs : List Char) :
    hasDoubleDash (c :: cs) = hasDoubleDash cs := by
  rw [hasDoubleDash]
  intro rest same
  exact absurd same other

private theorem hasDoubleDash_dash {c : Char} (other : c ≠ '-') (cs : List Char) :
    hasDoubleDash ('-' :: c :: cs) = hasDoubleDash (c :: cs) := by
  rw [hasDoubleDash]
  intro rest same behind
  exact absurd (List.cons.inj behind).1 other

section Tidy

variable {c : Char} {cs word : List Char}

private theorem tidy_nil : Tidy [] := ⟨by simp, rfl, by simp⟩

private theorem tidy_cons_iff (char : WordChar c) : Tidy (c :: cs) ↔ Tidy cs := by
  have plain : isTokenChar c = true := isTokenChar_iff.mpr (.inl char)
  have last : (c :: cs).getLast? = some '-' ↔ cs.getLast? = some '-' := by
    cases cs with
    | nil => simp [char.ne_dash]
    | cons d cs => rw [List.getLast?_cons_cons]
  constructor
  · rintro ⟨chars, single, ends⟩
    rw [hasDoubleDash_cons char.ne_dash] at single
    exact ⟨(List.forall_mem_cons.mp chars).2, single, mt last.mpr ends⟩
  · rintro ⟨chars, single, ends⟩
    refine ⟨List.forall_mem_cons.mpr ⟨plain, chars⟩, ?_, mt last.mp ends⟩
    rwa [hasDoubleDash_cons char.ne_dash]

private theorem tidy_dash_iff :
    Tidy ('-' :: cs) ↔ (∃ d rest, cs = d :: rest ∧ WordChar d) ∧ Tidy cs := by
  constructor
  · rintro ⟨chars, single, ends⟩
    cases cs with
    | nil => exact absurd rfl ends
    | cons d cs =>
      have later := (List.forall_mem_cons.mp chars).2
      have other : d ≠ '-' := by
        rintro rfl
        contradiction
      have char : WordChar d :=
        (isTokenChar_iff.mp (later d List.mem_cons_self)).resolve_right other
      rw [hasDoubleDash_dash other] at single
      rw [List.getLast?_cons_cons] at ends
      exact ⟨⟨d, cs, rfl, char⟩, later, single, ends⟩
  · rintro ⟨⟨d, rest, rfl, char⟩, chars, single, ends⟩
    refine ⟨List.forall_mem_cons.mpr ⟨by decide, chars⟩, ?_, ?_⟩
    · rwa [hasDoubleDash_dash char.ne_dash]
    · rwa [List.getLast?_cons_cons]

private theorem tidy_append_iff (chars : ∀ c ∈ word, WordChar c) : Tidy (word ++ cs) ↔ Tidy cs := by
  induction word with
  | nil => exact Iff.rfl
  | cons c word ih =>
    obtain ⟨here, later⟩ := List.forall_mem_cons.mp chars
    rw [List.cons_append, tidy_cons_iff here, ih later]

private theorem Tidy.exists_groups (tidy : Tidy cs) :
    ∃ word groups, (∀ c ∈ word, WordChar c) ∧ Groups groups ∧ cs = word ++ groups := by
  induction cs with
  | nil => exact ⟨[], [], by simp, .none, rfl⟩
  | cons c cs ih =>
    rcases isTokenChar_iff.mp (tidy.chars c List.mem_cons_self) with char | rfl
    · obtain ⟨word, groups, chars, more, rfl⟩ := ih ((tidy_cons_iff char).mp tidy)
      exact ⟨c :: word, groups, List.forall_mem_cons.mpr ⟨char, chars⟩, more, rfl⟩
    · -- the dash opens a group, whose word is the one in front of the groups behind it
      obtain ⟨⟨d, rest, front, char⟩, behind⟩ := tidy_dash_iff.mp tidy
      obtain ⟨word, groups, chars, more, rfl⟩ := ih behind
      have filled : word ≠ [] := by
        rintro rfl
        cases more with
        | none => contradiction
        | group => exact char.ne_dash (List.cons.inj front).1.symm
      exact ⟨[], _, by simp, .group filled chars more, rfl⟩

private theorem Groups.tidy {groups : List Char} (more : Groups groups) : Tidy groups := by
  induction more with
  | none => exact tidy_nil
  | @group word rest filled chars more ih =>
    obtain ⟨d, word, rfl⟩ := List.exists_cons_of_ne_nil filled
    refine tidy_dash_iff.mpr ⟨⟨d, word ++ rest, rfl, chars d List.mem_cons_self⟩, ?_⟩
    exact (tidy_append_iff chars).mpr ih

end Tidy

private theorem isToken_eq_true_iff {s : String} :
    isToken s = true ↔ ∃ c cs, s.toList = c :: cs ∧ isLetter c = true ∧ Tidy (c :: cs) := by
  unfold isToken
  cases s.toList with
  | nil => simp
  | cons c cs =>
    constructor
    · intro token
      simp only [Bool.and_eq_true, Bool.not_eq_true', bne_iff_ne, List.all_eq_true] at token
      obtain ⟨⟨⟨letter, chars⟩, single⟩, last⟩ := token
      refine ⟨c, cs, rfl, letter, List.forall_mem_cons.mpr ⟨?_, chars⟩, single, last⟩
      rw [isTokenChar, letter]
      rfl
    · rintro ⟨_, _, same, letter, chars, single, last⟩
      obtain ⟨rfl, rfl⟩ := List.cons.inj same
      simp only [Bool.and_eq_true, Bool.not_eq_true', bne_iff_ne, List.all_eq_true]
      exact ⟨⟨⟨letter, (List.forall_mem_cons.mp chars).2⟩, single⟩, last⟩

private theorem isToken_iff_spelled (s : String) : isToken s = true ↔ Spelled s.toList := by
  rw [isToken_eq_true_iff]
  constructor
  · rintro ⟨c, cs, same, letter, tidy⟩
    have bounds : 'a' ≤ c ∧ c ≤ 'z' := by simpa [isLetter] using letter
    obtain ⟨word, groups, chars, more, rfl⟩ := ((tidy_cons_iff (.inl bounds)).mp tidy).exists_groups
    rw [same]
    exact .token bounds chars more
  · intro spelled
    generalize s.toList = cs at spelled
    cases spelled with
    | token letter chars more =>
      refine ⟨_, _, rfl, by simpa [isLetter] using letter, ?_⟩
      exact (tidy_cons_iff (.inl letter)).mpr ((tidy_append_iff chars).mpr more.tidy)

theorem Groups.append {cs ds : List Char} (front : Groups cs) (back : Groups ds) :
    Groups (cs ++ ds) := by
  induction front with
  | none => exact back
  | @group word rest filled chars more ih =>
    rw [List.cons_append, List.append_assoc]
    exact .group filled chars ih

theorem Spelled.join {cs ds : List Char} (front : Spelled cs) (back : Spelled ds) :
    Spelled (cs ++ '-' :: ds) := by
  cases front with
  | @token first word groups letter chars more =>
    cases back with
    | @token first' word' groups' letter' chars' more' =>
      have group : Groups ('-' :: (first' :: word' ++ groups')) :=
        .group (List.cons_ne_nil _ _) (List.forall_mem_cons.mpr ⟨.inl letter', chars'⟩) more'
      rw [List.cons_append, List.append_assoc]
      exact .token letter chars (more.append group)

private theorem isBlank_of_isTokenChar {c : Char} (plain : isTokenChar c = true) :
    Text.isBlank c = false := by
  have visible : 0x20 < c.toNat ∧ c.toNat < 0x7F := by
    rcases isTokenChar_iff.mp plain with (⟨low, high⟩ | ⟨low, high⟩) | rfl
    · have above : 'a'.toNat ≤ c.toNat := low
      have below : c.toNat ≤ 'z'.toNat := high
      exact ⟨Nat.lt_of_lt_of_le (by decide) above, Nat.lt_of_le_of_lt below (by decide)⟩
    · have above : '0'.toNat ≤ c.toNat := low
      have below : c.toNat ≤ '9'.toNat := high
      exact ⟨Nat.lt_of_lt_of_le (by decide) above, Nat.lt_of_le_of_lt below (by decide)⟩
    · decide
  exact Text.isBlank_of_visible visible.1 visible.2

end Kebab

namespace Definition

/-- The long id of a valid definition is a token itself. -/
private theorem spelled_longId {d : Definition} (valid : d.fault? = none) :
    Kebab.Spelled d.longId.toList := by
  obtain ⟨service, shortCode, _⟩ := fault?_eq_none_iff.mp valid
  have provider : Kebab.Spelled d.provider.name.toList := by
    cases d.provider
    exact (Kebab.isToken_iff_spelled "aws").mp (by decide)
  have joined := (provider.join ((Kebab.isToken_iff_spelled _).mp service)).join
    ((Kebab.isToken_iff_spelled _).mp shortCode)
  simpa [longId] using joined

/-- Tokens are what their grammar spells, a definition is valid if its names are tokens, its texts
say something and its links are secure, and then its long id is a token too. -/
theorem definitions_exact :
    (∀ s, Kebab.isToken s = true ↔ Kebab.Spelled s.toList) ∧
    ∀ d : Definition,
      (d.fault? = none ↔ Kebab.Spelled d.service.toList ∧ Kebab.Spelled d.shortCode.toList ∧
        (∀ text ∈ [d.summary, d.impact, d.resolution], Text.trim text ≠ "") ∧
        ∀ link ∈ d.links, ∃ rest, link = "https://" ++ rest) ∧
      (d.fault? = none → Kebab.Spelled d.longId.toList ∧
        ∀ c ∈ d.longId.toList, Text.isBlank c = false ∧ c ≠ '|' ∧ c ∉ Glob.metacharacters) := by
  refine ⟨Kebab.isToken_iff_spelled, fun d =>
    ⟨?_, fun valid => ⟨spelled_longId valid, fun c member => ?_⟩⟩⟩
  · rw [fault?_eq_none_iff]
    simp only [Kebab.isToken_iff_spelled, isSecure, Text.beginsWith_iff, List.forall_mem_cons,
      List.not_mem_nil, false_implies, implies_true, and_true, Ne, ← Text.isBlankText_iff,
      Bool.not_eq_true, and_assoc]
  · have plain := List.all_eq_true.mp (longId_chars valid) c member
    refine ⟨Kebab.isBlank_of_isTokenChar plain, ?_, Kebab.not_metacharacter plain⟩
    rintro rfl
    contradiction

theorem definitions_exact_versioning :
    let d : Definition :=
      { provider := .aws
        service := "s3"
        shortCode := "enable-versioning"
        summary := "Versions are kept."
        impact := "Objects are lost."
        resolution := "Keep versions."
        explanation := ""
        links := ["https://example.com/versions"]
        severity := .medium }
    Kebab.Spelled "aws-s3-enable-versioning".toList ∧ ¬ Kebab.Spelled "enable--versioning".toList ∧
      d.fault? = none ∧ Kebab.Spelled d.longId.toList := by
  intro d
  have valid : d.fault? = none := by decide
  refine ⟨(definitions_exact.1 _).mp (by decide), ?_, valid, ((definitions_exact.2 d).2 valid).1⟩
  intro spelled
  exact absurd ((definitions_exact.1 "enable--versioning").mpr spelled) (by decide)

end Definition

end CloudPolicy
