import CloudPolicy.Proofs.Codec.Record
import Mathlib.Data.List.Forall2

/-!
The form that paths are kept in, and paths that are made from their own text again. Blanks are
trimmed before the leading `./` go, so that a blank right behind these comes to light too late.
-/

set_option autoImplicit false
set_option relaxedAutoImplicit false

namespace CloudPolicy

namespace SourcePath

def currents (n : Nat) : List Char := (List.replicate n ['.', '/']).flatten

private theorem exists_currents_append (cs : List Char) :
    ∃ n, cs = currents n ++ dropCurrent cs := by
  fun_induction dropCurrent cs with
  | case1 cs ih =>
    obtain ⟨n, split⟩ := ih
    exact ⟨n + 1, congrArg ('.' :: '/' :: ·) split⟩
  | case2 cs _ => exact ⟨0, rfl⟩

private theorem dropCurrent_append (n : Nat) (cs : List Char) :
    dropCurrent (currents n ++ cs) = dropCurrent cs := by
  induction n with
  | zero => rfl
  | succ n ih => exact ih

private theorem dropCurrent_dropCurrent (cs : List Char) :
    dropCurrent (dropCurrent cs) = dropCurrent cs := by
  obtain ⟨n, split⟩ := exists_currents_append cs
  have dropped := dropCurrent_append n (dropCurrent cs)
  rw [← split] at dropped
  exact dropped.symm

private theorem forwardSlashes_of_notMem {cs : List Char} (none : '\\' ∉ cs) :
    forwardSlashes cs = cs := by
  refine (List.map_congr_left fun c member => if_neg ?_).trans (List.map_id' cs)
  rintro rfl
  exact none member

private theorem backslash_notMem_forwardSlashes (cs : List Char) : '\\' ∉ forwardSlashes cs := by
  intro member
  obtain ⟨c, -, turned⟩ := List.mem_map.mp member
  split at turned
  · contradiction
  · next other => exact other turned

private theorem ext_toList {p q : SourcePath} (same : p.text.toList = q.text.toList) : p = q :=
  congrArg SourcePath.mk (String.toList_inj.mp same)

/-- What is left of a text without its blanks at the ends and the `./` at its front. -/
def remainder (s : String) : List Char := dropCurrent (forwardSlashes (Text.trimChars s.toList))

/-- A blank stands right behind the `./` that the text begins with. -/
def HidesBlank (s : String) : Prop :=
  ∃ n blank rest, Text.isBlank blank = true ∧
    forwardSlashes (Text.trimChars s.toList) = currents n ++ blank :: rest

section Remainder

variable (s : String)

private theorem toList_ofText :
    (ofText s).text.toList = if remainder s = [] then ['.'] else remainder s := by
  rw [ofText, String.toList_ofList, normalChars, ← remainder]
  cases remainder s <;> simp

private theorem remainder_suffix : remainder s <:+ forwardSlashes (Text.trimChars s.toList) := by
  obtain ⟨n, split⟩ := exists_currents_append (forwardSlashes (Text.trimChars s.toList))
  exact ⟨currents n, split.symm⟩

private theorem forwardSlashes_remainder : forwardSlashes (remainder s) = remainder s :=
  forwardSlashes_of_notMem fun member =>
    backslash_notMem_forwardSlashes _ ((remainder_suffix s).subset member)

private theorem getLast?_remainder {c : Char} (last : c ∈ (remainder s).getLast?) :
    Text.isBlank c = false := by
  obtain ⟨front, split⟩ := remainder_suffix s
  have whole : c ∈ (forwardSlashes (Text.trimChars s.toList)).getLast? := by
    rw [← split]
    exact List.mem_getLast?_append_of_mem_getLast? last
  rw [forwardSlashes, List.getLast?_map] at whole
  obtain ⟨d, last', turned⟩ := Option.map_eq_some_iff.mp whole
  rw [← turned]
  split
  · decide
  · exact Text.getLast?_trimChars last'

private theorem hidesBlank_iff :
    HidesBlank s ↔ ∃ c ∈ (remainder s).head?, Text.isBlank c = true := by
  constructor
  · rintro ⟨n, blank, rest, isBlank, split⟩
    refine ⟨blank, ?_, isBlank⟩
    have other : blank ≠ '.' := by
      rintro rfl
      contradiction
    rw [remainder, split, dropCurrent_append]
    simp [dropCurrent, other]
  · rintro ⟨blank, first, isBlank⟩
    obtain ⟨n, split⟩ := exists_currents_append (forwardSlashes (Text.trimChars s.toList))
    obtain ⟨rest, here⟩ := List.head?_eq_some_iff.mp first
    exact ⟨n, blank, rest, isBlank, by rw [split, ← here, remainder]⟩

private theorem length_remainder_le : (remainder s).length ≤ (Text.trimChars s.toList).length := by
  refine (remainder_suffix s).length_le.trans ?_
  rw [forwardSlashes, List.length_map]

private theorem ofText_ofText (first : ∀ c ∈ (remainder s).head?, Text.isBlank c = false) :
    ofText (ofText s).text = ofText s := by
  have text := toList_ofText s
  by_cases empty : remainder s = []
  · have unnamed : ofText s = unknown := ext_toList (by rw [text, if_pos empty]; rfl)
    rw [unnamed]
    decide
  · rw [if_neg empty] at text
    have same : remainder (ofText s).text = remainder s := by
      rw [remainder, text, Text.trimChars_eq_self first fun c last => getLast?_remainder s last,
        forwardSlashes_remainder]
      exact dropCurrent_dropCurrent _
    exact ext_toList (by rw [toList_ofText, same, if_neg empty, text])

private theorem ofText_ofText_ne {blank : Char} {rest : List Char}
    (white : Text.isBlank blank = true) (begins : remainder s = blank :: rest) :
    ofText (ofText s).text ≠ ofText s := by
  intro same
  have text : (ofText s).text.toList = blank :: rest := by
    rw [toList_ofText, begins, if_neg (List.cons_ne_nil blank rest)]
  have shorter : (remainder (ofText s).text).length ≤ rest.length := by
    have trimmed := length_remainder_le (ofText s).text
    rw [text, Text.trimChars_cons_of_blank white] at trimmed
    exact trimmed.trans (Text.length_trimChars_le rest)
  have text' := toList_ofText (ofText s).text
  rw [same, text] at text'
  by_cases empty : remainder (ofText s).text = []
  · rw [if_pos empty] at text'
    have dot : blank = '.' := (List.cons.inj text').1
    rw [dot] at white
    exact absurd white (by decide)
  · rw [if_neg empty] at text'
    rw [← text', List.length_cons] at shorter
    omega

end Remainder

/-- A path is made again from its own text, and read again from a document, exactly if the text that
it was made from hides no blank. -/
theorem reread_eq_iff (s : String) :
    (ofText (ofText s).text = ofText s ↔ ¬ HidesBlank s) ∧
    ∀ depth, decode depth (ofText s).toJson = some (ofText s) ↔ ¬ HidesBlank s := by
  have again : ofText (ofText s).text = ofText s ↔ ¬ HidesBlank s := by
    rw [hidesBlank_iff]
    constructor
    · rintro same ⟨blank, first, white⟩
      obtain ⟨rest, begins⟩ := List.head?_eq_some_iff.mp first
      exact ofText_ofText_ne s white begins same
    · intro clear
      exact ofText_ofText s fun c here => Bool.eq_false_iff.mpr fun white => clear ⟨c, here, white⟩
  exact ⟨again, fun depth => (Option.some_inj (α := SourcePath)).trans again⟩

/-- A blank behind `./` is kept by the first reading and dropped by the second. -/
theorem reread_ne : ofText "./ main.tf" = ⟨" main.tf"⟩ ∧ ofText " main.tf" = ⟨"main.tf"⟩ ∧
    ¬ ∀ s, ofText (ofText s).text = ofText s := by
  have first : ofText "./ main.tf" = ⟨" main.tf"⟩ := by decide
  have second : ofText " main.tf" = ⟨"main.tf"⟩ := by decide
  refine ⟨first, second, fun settled => ?_⟩
  have same := settled "./ main.tf"
  rw [first, second] at same
  exact absurd same (by decide)

end SourcePath

namespace SourcePath

/-- One round of stripping: what follows the `./` at the front, if there is one. -/
def strip? : List Char → Option (List Char)
  | '.' :: '/' :: cs => some cs
  | _ => none

/-- `Strips n cs rest`: stripping takes `n` rounds from `cs` on and leaves `rest`. -/
inductive Strips : Nat → List Char → List Char → Prop
  | done {cs : List Char} : strip? cs = none → Strips 0 cs cs
  | round {n : Nat} {cs next rest : List Char} : strip? cs = some next → Strips n next rest →
      Strips (n + 1) cs rest

private theorem strip?_eq_some_iff {cs next : List Char} :
    strip? cs = some next ↔ cs = '.' :: '/' :: next := by
  constructor
  · intro stripped
    unfold strip? at stripped
    split at stripped
    · rw [Option.some.inj stripped]
    · contradiction
  · rintro rfl
    rfl

private theorem strip?_eq_none_iff {cs : List Char} : strip? cs = none ↔ ¬ ['.', '/'] <+: cs := by
  rw [Option.eq_none_iff_forall_ne_some]
  constructor
  · rintro stuck ⟨next, rfl⟩
    exact stuck next rfl
  · intro other next stripped
    exact other ⟨next, (strip?_eq_some_iff.mp stripped).symm⟩

private theorem strip?_dropCurrent (cs : List Char) : strip? (dropCurrent cs) = none := by
  fun_induction dropCurrent cs with
  | case1 cs ih => exact ih
  | case2 cs other =>
    rw [strip?_eq_none_iff]
    rintro ⟨next, rfl⟩
    exact other next rfl

private theorem length_currents (n : Nat) : (currents n).length = 2 * n := by
  simp [currents, Nat.mul_comm]

private theorem exists_strips (cs : List Char) : ∃ n, Strips n cs (dropCurrent cs) := by
  fun_induction dropCurrent cs with
  | case1 cs ih =>
    obtain ⟨n, rounds⟩ := ih
    exact ⟨n + 1, .round rfl rounds⟩
  | case2 cs other =>
    refine ⟨0, .done (strip?_eq_none_iff.mpr ?_)⟩
    rintro ⟨next, rfl⟩
    exact other next rfl

private theorem dropCurrent_of_stuck {cs : List Char} (stuck : strip? cs = none) :
    dropCurrent cs = cs := by
  fun_cases dropCurrent cs with
  | case1 cs => contradiction
  | case2 cs _ => rfl

theorem Strips.split {n : Nat} {cs rest : List Char} (rounds : Strips n cs rest) :
    rest = dropCurrent cs ∧ cs = currents n ++ rest := by
  induction rounds with
  | done stuck => exact ⟨(dropCurrent_of_stuck stuck).symm, rfl⟩
  | round stripped _ ih =>
    obtain rfl := strip?_eq_some_iff.mp stripped
    exact ⟨ih.1, congrArg ('.' :: '/' :: ·) ih.2⟩

/-- There is one run of the loop from each text, with at most half as many rounds as the text has
characters. -/
private theorem exists_rounds (cs : List Char) :
    ∃ n, 2 * n ≤ cs.length ∧ ∀ k rest, Strips k cs rest ↔ k = n ∧ rest = dropCurrent cs := by
  obtain ⟨n, run⟩ := exists_strips cs
  have length : ∀ {k rest}, Strips k cs rest → cs.length = 2 * k + (dropCurrent cs).length := by
    intro k rest rounds
    obtain ⟨rfl, split⟩ := rounds.split
    conv_lhs => rw [split, List.length_append, length_currents]
  refine ⟨n, ?_, fun k rest => ⟨fun rounds => ⟨?_, rounds.split.1⟩, ?_⟩⟩
  · have := length run
    omega
  · have := length run
    have := length rounds
    omega
  · rintro ⟨rfl, rfl⟩
    exact run

/-- What documentation promises of every path. -/
structure Canonical (p : SourcePath) : Prop where
  named : p.text ≠ ""
  forward : '\\' ∉ p.text.toList
  plain : ¬ ['.', '/'] <+: p.text.toList

/-- The path is what the loop makes of the trimmed text with forward slashes; nothing left is the
unknown path. -/
def MadeFrom (p : SourcePath) (s : String) : Prop :=
  ∃ n rest, Strips n (forwardSlashes (Text.trimChars s.toList)) rest ∧
    p.text.toList = if rest = [] then ['.'] else rest

/-- The text is a number of `./`, with nothing or a single `.` behind them. -/
def NamesNothing (s : String) : Prop :=
  ∃ n, forwardSlashes (Text.trimChars s.toList) = currents n ∨
    forwardSlashes (Text.trimChars s.toList) = currents n ++ ['.']

def IsSeparator (c : Char) : Prop := c = '/' ∨ c = '\\'

/-- The texts are the same but for the separators that stand in some places. -/
def SeparatorsApart (s t : String) : Prop :=
  List.Forall₂ (fun c d => c = d ∨ IsSeparator c ∧ IsSeparator d) s.toList t.toList

private theorem forwardSlashes_trimChars (cs : List Char) :
    forwardSlashes (Text.trimChars cs) = Text.trimChars (forwardSlashes cs) := by
  refine (Text.trimChars_map (fun c => ?_) cs).symm
  split
  · next here => rw [here]; decide
  · rfl

private theorem SeparatorsApart.forwardSlashes_eq {s t : String} (apart : SeparatorsApart s t) :
    forwardSlashes s.toList = forwardSlashes t.toList := by
  unfold SeparatorsApart at apart
  unfold forwardSlashes
  generalize s.toList = cs at apart
  generalize t.toList = ds at apart
  induction apart with
  | nil => rfl
  | cons here _ ih =>
    rw [List.map_cons, List.map_cons, ih]
    rcases here with rfl | ⟨rfl | rfl, rfl | rfl⟩ <;> rfl

private theorem ofText_congr {s t : String}
    (same : forwardSlashes s.toList = forwardSlashes t.toList) : ofText t = ofText s := by
  have remainders : remainder t = remainder s := by
    rw [remainder, remainder, forwardSlashes_trimChars, forwardSlashes_trimChars, same]
  exact ext_toList (by rw [toList_ofText, toList_ofText, remainders])

section OfText

variable (s : String)

private theorem ofText_canonical : (ofText s).Canonical := by
  have text := toList_ofText s
  constructor
  · intro empty
    rw [empty] at text
    split at text
    · contradiction
    · next other => exact other text.symm
  · rw [text]
    split
    · decide
    · exact fun member => backslash_notMem_forwardSlashes _ ((remainder_suffix s).subset member)
  · rw [text, ← strip?_eq_none_iff]
    split
    · rfl
    · exact strip?_dropCurrent _

private theorem ofText_eq_iff (p : SourcePath) : ofText s = p ↔ p.MadeFrom s := by
  have text := toList_ofText s
  constructor
  · rintro rfl
    obtain ⟨n, rounds⟩ := exists_strips (forwardSlashes (Text.trimChars s.toList))
    exact ⟨n, remainder s, rounds, text⟩
  · rintro ⟨n, rest, rounds, text'⟩
    obtain ⟨rfl, -⟩ := rounds.split
    exact ext_toList (text.trans text'.symm)

private theorem isUnknown_ofText_iff : (ofText s).isUnknown = true ↔ NamesNothing s := by
  have text := toList_ofText s
  have left : (ofText s).isUnknown = true ↔ remainder s = [] ∨ remainder s = ['.'] := by
    rw [isUnknown, beq_iff_eq, ← String.toList_inj, text]
    by_cases empty : remainder s = []
    · simp [empty]
    · simp [empty]
  rw [left]
  constructor
  · obtain ⟨n, split⟩ := exists_currents_append (forwardSlashes (Text.trimChars s.toList))
    rw [← remainder] at split
    rintro (empty | dot)
    · exact ⟨n, .inl (by rw [split, empty, List.append_nil])⟩
    · exact ⟨n, .inr (by rw [split, dot])⟩
  · rintro ⟨n, bare | dot⟩
    · left
      have dropped := dropCurrent_append n []
      rw [List.append_nil] at dropped
      rw [remainder, bare, dropped]
      rfl
    · right
      rw [remainder, dot, dropCurrent_append]
      rfl

end OfText

theorem decode_eq_some_iff {depth : Nat} {v : Json} {p : SourcePath} :
    decode depth v = some p ↔ ∃ s, v = .string s ∧ ofText s = p := by
  rw [decode, Option.map_eq_some_iff]
  constructor
  · rintro ⟨s, read, made⟩
    exact ⟨s, Json.eq_string_of_decode read, made⟩
  · rintro ⟨s, rfl, made⟩
    exact ⟨s, rfl, made⟩

/-- Every path that is made from a text or read from a document is in canonical form. It is what
stripping leaves, the unknown path exactly if that names nothing, and the same path for all
separators of the text. Stripping ends. -/
theorem paths_canonical :
    (∀ s, (ofText s).Canonical ∧ (∀ p, ofText s = p ↔ p.MadeFrom s) ∧
      ((ofText s).isUnknown = true ↔ NamesNothing s) ∧
      ∀ t, SeparatorsApart s t → ofText t = ofText s) ∧
    (∀ depth v p, decode depth v = some p ↔ ∃ s, v = .string s ∧ ofText s = p) ∧
    ∀ cs, ∃ n, 2 * n ≤ cs.length ∧ ∀ k rest, Strips k cs rest ↔ k = n ∧ rest = dropCurrent cs := by
  refine ⟨fun s => ⟨ofText_canonical s, ofText_eq_iff s, isUnknown_ofText_iff s, fun t apart => ?_⟩,
    fun _ _ _ => decode_eq_some_iff, exists_rounds⟩
  exact ofText_congr apart.forwardSlashes_eq

theorem paths_canonical_mixed :
    SeparatorsApart " .\\./a\\b" " ./.\\a/b" ∧ ofText " ./.\\a/b" = ofText " .\\./a\\b" ∧
      (ofText " .\\./a\\b").Canonical ∧ ofText " .\\./a\\b" = ⟨"a/b"⟩ := by
  have apart : SeparatorsApart " .\\./a\\b" " ./.\\a/b" := by simp [SeparatorsApart, IsSeparator]
  obtain ⟨canonical, -, -, hostless⟩ := paths_canonical.1 " .\\./a\\b"
  exact ⟨apart, hostless _ apart, canonical, by decide⟩

end SourcePath

end CloudPolicy
