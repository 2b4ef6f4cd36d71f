import CloudPolicy.Proofs.Rule
import CloudPolicy.Result

/-!
What fingerprints tell apart. The hashed text joins six fields with bars and leaves bars in the
fields as they are. Rule ids, statuses and lines hold none. Of the three texts that a document is
free to choose, one may hold bars for the fields of two identities to be found again; and an
identity stands alone among all others exactly if bars are in its file only and enclose no line
number there.
-/

set_option autoImplicit false
set_option relaxedAutoImplicit false

namespace CloudPolicy

def Sha256.Collision (a b : List UInt8) : Prop := a ≠ b ∧ hex a = hex b

namespace Identity

theorem ext {i j : Identity} (rules : i.ruleId = j.ruleId) (statuses : i.status = j.status)
    (files : i.file = j.file) (lines : i.line = j.line) (references : i.reference = j.reference)
    (descriptions : i.description = j.description) : i = j := by
  cases i
  cases j
  simp_all

/-- The rule is a valid one, the status one of the three, and the line a word. -/
structure Genuine (i : Identity) : Prop where
  rule : ∃ d : Definition, d.fault? = none ∧ i.ruleId = d.longId
  status : ∃ s : Status, i.status = s.name
  line : i.line < UInt32.size

/-- The fields that a document may fill with any text. -/
inductive FreeText where
  | file
  | reference
  | description
  deriving DecidableEq, Repr

def FreeText.of (i : Identity) : FreeText → String
  | file => i.file
  | reference => i.reference
  | description => i.description

/-- No free text holds a bar, except for the one given. -/
def BarsOnlyIn (k : FreeText) (i : Identity) : Prop :=
  ∀ other, other ≠ k → '|' ∉ (other.of i).toList

/-- Behind a bar of the text, a line number reaches to the next bar or to the end. -/
def HoldsLine (text : String) : Prop :=
  ∃ before n after, n < UInt32.size ∧
    text.toList ++ ['|'] = before ++ '|' :: ((toString n).toList ++ '|' :: after)

/-- Bars are in the file only, and what follows one there is no line number. -/
structure Legible (i : Identity) : Prop where
  file : ¬ HoldsLine i.file
  reference : '|' ∉ i.reference.toList
  description : '|' ∉ i.description.toList

section Bars

variable {xs ys xs' ys' : List Char}

private theorem exists_cut (left : '|' ∉ xs) (same : xs ++ '|' :: ys = xs' ++ '|' :: ys') :
    ∃ after, xs' ++ ['|'] = xs ++ '|' :: after := by
  induction xs generalizing xs' with
  | nil =>
    cases xs' with
    | nil => exact ⟨[], rfl⟩
    | cons x' xs' => exact ⟨xs' ++ ['|'], by rw [← (List.cons.inj same).1]; rfl⟩
  | cons x xs ih =>
    cases xs' with
    | nil => exact absurd (List.cons.inj same).1.symm (List.ne_of_not_mem_cons left)
    | cons x' xs' =>
      obtain ⟨rfl, rest⟩ := List.cons.inj same
      obtain ⟨after, cut⟩ := ih (List.not_mem_of_not_mem_cons left) rest
      exact ⟨after, congrArg (x :: ·) cut⟩

private theorem cut_at_first (left : '|' ∉ xs) (left' : '|' ∉ xs')
    (same : xs ++ '|' :: ys = xs' ++ '|' :: ys') : xs = xs' ∧ ys = ys' := by
  induction xs generalizing xs' with
  | nil =>
    cases xs' with
    | nil => exact ⟨rfl, (List.cons.inj same).2⟩
    | cons x' xs' => exact absurd (List.cons.inj same).1 (List.ne_of_not_mem_cons left')
  | cons x xs ih =>
    cases xs' with
    | nil => exact absurd (List.cons.inj same).1.symm (List.ne_of_not_mem_cons left)
    | cons x' xs' =>
      obtain ⟨rfl, rest⟩ := List.cons.inj same
      obtain ⟨rfl, tails⟩ :=
        ih (List.not_mem_of_not_mem_cons left) (List.not_mem_of_not_mem_cons left') rest
      exact ⟨rfl, tails⟩

private theorem cut_at_last (right : '|' ∉ ys) (right' : '|' ∉ ys')
    (same : xs ++ '|' :: ys = xs' ++ '|' :: ys') : xs = xs' ∧ ys = ys' := by
  have reversed : ys.reverse ++ '|' :: xs.reverse = ys'.reverse ++ '|' :: xs'.reverse := by
    simpa using congrArg List.reverse same
  obtain ⟨tails, fronts⟩ := cut_at_first (by simpa using right) (by simpa using right') reversed
  exact ⟨List.reverse_inj.mp fronts, List.reverse_inj.mp tails⟩

end Bars

/-- The characters behind rule id and status. -/
def place (i : Identity) : List Char :=
  i.file.toList ++ '|' :: ((toString i.line).toList ++ '|' ::
    (i.reference.toList ++ '|' :: i.description.toList))

private theorem toList_joined (i : Identity) :
    i.joined.toList = i.ruleId.toList ++ '|' :: (i.status.toList ++ '|' :: i.place) := by
  simp [joined, place]

private theorem bar_notMem_line (n : Nat) : '|' ∉ (toString n).toList := by
  intro bar
  have digit : '|'.isDigit = true := Text.isDigit_of_mem_toDigits (n := n) (by simpa using bar)
  contradiction

variable {i j : Identity}

private theorem bar_notMem_ruleId (genuine : i.Genuine) : '|' ∉ i.ruleId.toList := by
  obtain ⟨d, valid, named⟩ := genuine.rule
  intro bar
  have plain := List.all_eq_true.mp (Definition.longId_chars valid) '|' (named ▸ bar)
  exact absurd plain (by decide)

private theorem bar_notMem_status (genuine : i.Genuine) : '|' ∉ i.status.toList := by
  obtain ⟨s, named⟩ := genuine.status
  rw [named]
  cases s <;> decide

private theorem line_inj {m n : Nat} (same : (toString m).toList = (toString n).toList) :
    m = n := by
  have digits : ∀ k : Nat, Text.decimal (toString k).toList = k := fun k => by
    simpa using Text.decimal_toDigits k
  rw [← digits m, same, digits n]

theorem joined_eq_iff (genuine : i.Genuine) (genuine' : j.Genuine) :
    i.joined = j.joined ↔ i.ruleId = j.ruleId ∧ i.status = j.status ∧ i.place = j.place := by
  constructor
  · intro same
    have chars := congrArg String.toList same
    rw [toList_joined, toList_joined] at chars
    obtain ⟨rules, rest⟩ :=
      cut_at_first (bar_notMem_ruleId genuine) (bar_notMem_ruleId genuine') chars
    obtain ⟨statuses, places⟩ :=
      cut_at_first (bar_notMem_status genuine) (bar_notMem_status genuine') rest
    exact ⟨String.toList_inj.mp rules, String.toList_inj.mp statuses, places⟩
  · rintro ⟨rules, statuses, places⟩
    rw [← String.toList_inj, toList_joined, toList_joined, rules, statuses, places]

/-- The fields of a place are found again if only one of its texts may hold bars. -/
private theorem place_inj {k : FreeText} (bars : i.BarsOnlyIn k) (bars' : j.BarsOnlyIn k)
    (same : i.place = j.place) :
    i.file = j.file ∧ i.line = j.line ∧ i.reference = j.reference ∧
    i.description = j.description := by
  have line := bar_notMem_line i.line
  have line' := bar_notMem_line j.line
  suffices chars : i.file.toList = j.file.toList ∧
    (toString i.line).toList = (toString j.line).toList ∧
      i.reference.toList = j.reference.toList ∧ i.description.toList = j.description.toList by
    obtain ⟨files, lines, references, descriptions⟩ := chars
    exact ⟨String.toList_inj.mp files, line_inj lines, String.toList_inj.mp references,
      String.toList_inj.mp descriptions⟩
  -- the text that may hold bars is left when all others are cut off, from the front and the back
  cases k with
  | file =>
    have backwards : ∀ x : Identity, x.place =
        ((x.file.toList ++ '|' :: (toString x.line).toList) ++ '|' :: x.reference.toList) ++ '|' ::
        x.description.toList := fun x => by simp [place]
    rw [backwards i, backwards j] at same
    obtain ⟨same, descriptions⟩ :=
      cut_at_last (bars .description (by decide)) (bars' .description (by decide)) same
    obtain ⟨same, references⟩ :=
      cut_at_last (bars .reference (by decide)) (bars' .reference (by decide)) same
    obtain ⟨files, lines⟩ := cut_at_last line line' same
    exact ⟨files, lines, references, descriptions⟩
  | reference =>
    obtain ⟨files, same⟩ := cut_at_first (bars .file (by decide)) (bars' .file (by decide)) same
    obtain ⟨lines, same⟩ := cut_at_first line line' same
    obtain ⟨references, descriptions⟩ :=
      cut_at_last (bars .description (by decide)) (bars' .description (by decide)) same
    exact ⟨files, lines, references, descriptions⟩
  | description =>
    obtain ⟨files, same⟩ := cut_at_first (bars .file (by decide)) (bars' .file (by decide)) same
    obtain ⟨lines, same⟩ := cut_at_first line line' same
    obtain ⟨references, descriptions⟩ :=
      cut_at_first (bars .reference (by decide)) (bars' .reference (by decide)) same
    exact ⟨files, lines, references, descriptions⟩

private theorem Legible.file_eq (legible : i.Legible) (genuine : j.Genuine)
    (same : j.place = i.place) : j.file = i.file := by
  unfold place at same
  rw [← String.toList_inj]
  rcases List.append_eq_append_iff.mp same with ⟨more, files, rest⟩ | ⟨more, files, rest⟩
  · cases more with
    | nil => simpa using files.symm
    | cons c more =>
      rw [List.cons_append, List.cons.injEq] at rest
      obtain ⟨rfl, behind⟩ := rest
      obtain ⟨after, cut⟩ := exists_cut (bar_notMem_line j.line) behind
      refine absurd ⟨j.file.toList, j.line, after, genuine.line, ?_⟩ legible.file
      rw [files, List.append_assoc, List.cons_append, cut]
  · cases more with
    | nil => simpa using files
    | cons c more =>
      -- a longer file would leave too few bars for the fields behind it
      rw [List.cons_append, List.cons.injEq] at rest
      obtain ⟨rfl, behind⟩ := rest
      have counts := congrArg (List.count '|') behind
      simp only [List.count_append, List.count_cons_self, List.count_eq_zero.mpr legible.reference,
        List.count_eq_zero.mpr legible.description,
        List.count_eq_zero.mpr (bar_notMem_line i.line)] at counts
      omega

private theorem Legible.eq_of_place (legible : i.Legible) (genuine : j.Genuine)
    (same : j.place = i.place) :
    j.file = i.file ∧ j.line = i.line ∧ j.reference = i.reference ∧
    j.description = i.description := by
  have files := legible.file_eq genuine same
  rw [place, place, files, List.append_cancel_left_eq, List.cons.injEq] at same
  obtain ⟨lines, same⟩ := cut_at_first (bar_notMem_line j.line) (bar_notMem_line i.line) same.2
  have counts := congrArg (List.count '|') same
  simp only [List.count_append, List.count_cons_self, List.count_eq_zero.mpr legible.reference,
    List.count_eq_zero.mpr legible.description] at counts
  have reference : '|' ∉ j.reference.toList := List.count_eq_zero.mp (by omega)
  obtain ⟨references, descriptions⟩ := cut_at_first reference legible.reference same
  exact ⟨files, line_inj lines, String.toList_inj.mp references, String.toList_inj.mp descriptions⟩

/-- An identity that is not legible can be cut up in another way. -/
private theorem exists_place_eq (genuine : i.Genuine) (illegible : ¬ i.Legible) :
    ∃ j : Identity, j.Genuine ∧ j ≠ i ∧ j.ruleId = i.ruleId ∧ j.status = i.status ∧
      j.place = i.place := by
  by_cases inReference : '|' ∈ i.reference.toList
  · obtain ⟨front, back, split⟩ := List.append_of_mem inReference
    refine ⟨{ i with
        reference := String.ofList front
        description := String.ofList back ++ "|" ++ i.description },
      ⟨genuine.rule, genuine.status, genuine.line⟩, fun same => ?_, rfl, rfl, ?_⟩
    · have shorter := congrArg (fun x : Identity => x.reference.toList.length) same
      simp [split] at shorter
    · simp [place, split]
  by_cases inDescription : '|' ∈ i.description.toList
  · obtain ⟨front, back, split⟩ := List.append_of_mem inDescription
    refine ⟨{ i with
        reference := i.reference ++ "|" ++ String.ofList front
        description := String.ofList back },
      ⟨genuine.rule, genuine.status, genuine.line⟩, fun same => ?_, rfl, rfl, ?_⟩
    · have shorter := congrArg (fun x : Identity => x.description.toList.length) same
      simp [split] at shorter
      omega
    · simp [place, split]
  obtain ⟨before, n, after, bound, split⟩ : HoldsLine i.file :=
    not_not.mp fun plain => illegible ⟨plain, inReference, inDescription⟩
  refine ⟨{ i with
      file := String.ofList before
      line := n
      reference := String.ofList after ++ toString i.line
      description := i.reference ++ "|" ++ i.description },
    ⟨genuine.rule, genuine.status, bound⟩, fun same => ?_, rfl, rfl, ?_⟩
  · have shorter := congrArg (fun x : Identity => x.file.toList.length) same
    have lengths := congrArg List.length split
    simp at shorter lengths
    omega
  · have shifted := congrArg (· ++ ((toString i.line).toList ++
      '|' :: (i.reference.toList ++ '|' :: i.description.toList))) split
    simpa [place] using shifted.symm

/-- An identity is hashed from other bytes than any other exactly if it is legible. Two identities
are if only one kind of free text may hold bars; if such two have one fingerprint, they are a
collision of the digest. -/
theorem fingerprints_apart (genuine : i.Genuine) :
    ((∀ j : Identity, j.Genuine → j ≠ i → Text.utf8 j.joined ≠ Text.utf8 i.joined) ↔ i.Legible) ∧
    ∀ j : Identity, j.Genuine → j ≠ i → (∃ k, j.BarsOnlyIn k ∧ i.BarsOnlyIn k) →
      Text.utf8 j.joined ≠ Text.utf8 i.joined ∧
      (j.fingerprint = i.fingerprint →
        Sha256.Collision (Text.utf8 j.joined) (Text.utf8 i.joined)) := by
  have hashed_iff {j : Identity} (genuine' : j.Genuine) : Text.utf8 j.joined = Text.utf8 i.joined ↔
      j.ruleId = i.ruleId ∧ j.status = i.status ∧ j.place = i.place :=
    Text.utf8_injective.eq_iff.trans (joined_eq_iff genuine' genuine)
  refine ⟨⟨fun alone => ?_, fun legible j genuine' apart same => ?_⟩, ?_⟩
  · by_contra illegible
    obtain ⟨j, genuine', apart, shared⟩ := exists_place_eq genuine illegible
    exact alone j genuine' apart ((hashed_iff genuine').mpr shared)
  · obtain ⟨rules, statuses, places⟩ := (hashed_iff genuine').mp same
    obtain ⟨files, lines, references, descriptions⟩ := legible.eq_of_place genuine' places
    exact apart (ext rules statuses files lines references descriptions)
  · rintro j genuine' apart ⟨k, bars', bars⟩
    have hashed : Text.utf8 j.joined ≠ Text.utf8 i.joined := by
      intro same
      obtain ⟨rules, statuses, places⟩ := (hashed_iff genuine').mp same
      obtain ⟨files, lines, references, descriptions⟩ := place_inj bars' bars places
      exact apart (ext rules statuses files lines references descriptions)
    exact ⟨hashed, fun same => ⟨hashed, same⟩⟩

def sampleRule : Definition := ⟨.aws, "s3", "a", "-", "-", "-", "-", [], .high⟩

private theorem genuine_sample (file : String) {line : Nat} (bound : line < UInt32.size)
    (reference description : String) :
    Genuine ⟨"aws-s3-a", "failed", file, line, reference, description⟩ where
  rule := ⟨sampleRule, by decide, rfl⟩
  status := ⟨.failed, rfl⟩
  line := bound

/-- Descriptions may hold bars, and lines tell results apart. -/
theorem fingerprints_apart_lines :
    Text.utf8 (joined ⟨"aws-s3-a", "failed", "main.tf", 4, "logs", "open | public"⟩) ≠
      Text.utf8 (joined ⟨"aws-s3-a", "failed", "main.tf", 5, "logs", "open | public"⟩) := by
  have plain (line : Nat) :
      BarsOnlyIn .description ⟨"aws-s3-a", "failed", "main.tf", line, "logs", "open | public"⟩ := by
    intro other free
    cases other with
    | file => exact (by decide : '|' ∉ "main.tf".toList)
    | reference => exact (by decide : '|' ∉ "logs".toList)
    | description => contradiction
  exact ((fingerprints_apart (genuine_sample _ (by decide) _ _)).2 _
    (genuine_sample _ (by decide) _ _) (by decide) ⟨.description, plain 4, plain 5⟩).1

end Identity

namespace Result

theorem genuine_identity {r : Result} (valid : r.rule.fault? = none) : r.identity.Genuine := by
  unfold identity
  split
  · exact ⟨⟨r.rule, valid, rfl⟩, ⟨r.status, rfl⟩, UInt32.toNat_lt _⟩
  · exact ⟨⟨r.rule, valid, rfl⟩, ⟨r.status, rfl⟩, (by decide : 0 < UInt32.size)⟩

def failureAt (file : String) (line : UInt32) (reference : String) : Result :=
  ofFinding Identity.sampleRule none
  ⟨"open", .declared (.ofLines (.ofText file) line line) reference⟩

/-- Failures of one rule in different files and on different lines that have one fingerprint. -/
theorem fingerprint_shared : (failureAt "a.tf" 4 "7|logs").identity.Genuine ∧
    (failureAt "a.tf|4" 7 "logs").identity.Genuine ∧
    (failureAt "a.tf" 4 "7|logs").identity ≠ (failureAt "a.tf|4" 7 "logs").identity ∧
    (failureAt "a.tf" 4 "7|logs").range ≠ (failureAt "a.tf|4" 7 "logs").range ∧
    (failureAt "a.tf" 4 "7|logs").identity.joined = (failureAt "a.tf|4" 7 "logs").identity.joined ∧
    (failureAt "a.tf" 4 "7|logs").fingerprint = (failureAt "a.tf|4" 7 "logs").fingerprint := by
  have joined : (failureAt "a.tf" 4 "7|logs").identity.joined =
      (failureAt "a.tf|4" 7 "logs").identity.joined := by
    decide
  refine ⟨genuine_identity (by decide), genuine_identity (by decide), by
    decide, by decide, joined, ?_⟩
  rw [fingerprint, fingerprint, Identity.fingerprint, Identity.fingerprint, joined]

end Result

end CloudPolicy
