import CloudPolicy.Proofs.Text
import CloudPolicy.Result
import Mathlib.Algebra.BigOperators.Group.List.Basic
import Mathlib.Algebra.GroupWithZero.Nat
import Mathlib.Data.List.Sort
import Mathlib.Data.String.Basic

/-!
The canonical order of results, where it puts results without location, and what the counters count.
-/

set_option autoImplicit false
set_option relaxedAutoImplicit false

namespace CloudPolicy

namespace Results

instance SortKey.transCmp_order : Std.TransCmp SortKey.order :=
  inferInstanceAs (Std.TransCmp (compareLex (compareOn SortKey.ruleId)
    (compareLex (compareOn SortKey.file)
    (compareLex (compareOn SortKey.line) (compareOn SortKey.description)))))

private theorem SortKey.eq_of_order_eq {a b : SortKey} (same : a.order b = .eq) : a = b := by
  simp only [order, Ordering.then_eq_eq, Std.LawfulEqCmp.compare_eq_iff_eq] at same
  obtain ⟨ruleId, file, line, description⟩ := same
  cases a
  cases b
  simp_all

theorem notAfter_iff {a b : Result} :
    notAfter a b = true ↔ ((sortKey a).order (sortKey b)).isLE = true := by
  rw [notAfter, bne_iff_ne, Ordering.isLE_iff_ne_gt]

private theorem notAfter_of_sortKey_eq {a b : Result} (same : sortKey a = sortKey b) :
    notAfter a b = true := by
  have equal : (sortKey b).order (sortKey b) = .eq := Std.ReflCmp.compare_self
  rw [notAfter_iff, same, equal]
  rfl

private theorem notAfter_trans (a b c : Result) (first : notAfter a b = true)
    (second : notAfter b c = true) : notAfter a c = true := by
  rw [notAfter_iff] at first second ⊢
  exact Std.TransCmp.isLE_trans first second

private theorem notAfter_total (a b : Result) : (notAfter a b || notAfter b a) = true := by
  have swapped : (sortKey b).order (sortKey a) = ((sortKey a).order (sortKey b)).swap :=
    Std.OrientedCmp.eq_swap
  rw [Bool.or_eq_true, notAfter_iff, notAfter_iff, swapped]
  cases (sortKey a).order (sortKey b) <;> simp

theorem notAfter_antisymm {a b : Result} (first : notAfter a b = true)
    (second : notAfter b a = true) : sortKey a = sortKey b := by
  rw [notAfter_iff] at first second
  exact SortKey.eq_of_order_eq (Std.OrientedCmp.isLE_antisymm first second)

theorem ruleId_sortKey (r : Result) : (sortKey r).ruleId = r.ruleId := by
  unfold sortKey
  split <;> rfl

def withKey (k : SortKey) (rs : List Result) : List Result := rs.filter (sortKey · == k)

private theorem withKey_cons_self (r : Result) (rs : List Result) :
    withKey (sortKey r) (r :: rs) = r :: withKey (sortKey r) rs := by
  simp [withKey]

private theorem mem_withKey {k : SortKey} {rs : List Result} {r : Result} :
    r ∈ withKey k rs ↔ r ∈ rs ∧ sortKey r = k := by
  simp [withKey]

theorem sorted_sortCanonical (rs : List Result) :
    (sortCanonical rs).Pairwise fun a b => notAfter a b = true :=
  List.pairwise_mergeSort notAfter_trans notAfter_total rs

private theorem withKey_sortCanonical (k : SortKey) (rs : List Result) :
    withKey k (sortCanonical rs) = withKey k rs := by
  have tied : (withKey k rs).Pairwise fun a b => notAfter a b = true :=
    List.pairwise_of_forall_mem_list fun a ha b hb =>
      notAfter_of_sortKey_eq ((mem_withKey.mp ha).2.trans (mem_withKey.mp hb).2.symm)
  have kept : (withKey k rs).Sublist (sortCanonical rs) :=
    List.sublist_mergeSort notAfter_trans notAfter_total tied List.filter_sublist
  have all : (withKey k rs).Sublist (withKey k (sortCanonical rs)) := by
    simpa [withKey] using kept.filter (sortKey · == k)
  exact (all.eq_of_length ((List.mergeSort_perm rs notAfter).filter _).length_eq.symm).symm

/-- Sorted lists that hold the same under each key are equal. -/
private theorem eq_of_withKey_eq {rs rs' : List Result}
    (sorted : rs.Pairwise fun a b => notAfter a b = true)
    (sorted' : rs'.Pairwise fun a b => notAfter a b = true)
    (same : ∀ k, withKey k rs = withKey k rs') : rs = rs' := by
  induction rs generalizing rs' with
  | nil =>
    cases rs' with
    | nil => rfl
    | cons r' rs' => simpa [withKey] using same (sortKey r')
  | cons r rs ih =>
    cases rs' with
    | nil => simpa [withKey] using same (sortKey r)
    | cons r' rs' =>
      obtain ⟨first, rest⟩ := List.pairwise_cons.mp sorted
      obtain ⟨first', rest'⟩ := List.pairwise_cons.mp sorted'
      -- each head occurs in the other list, so neither comes after the other
      have here : r ∈ r' :: rs' :=
        (mem_withKey.mp (same (sortKey r) ▸ mem_withKey.mpr ⟨List.mem_cons_self, rfl⟩)).1
      have here' : r' ∈ r :: rs :=
        (mem_withKey.mp ((same (sortKey r')).symm ▸ mem_withKey.mpr ⟨List.mem_cons_self, rfl⟩)).1
      have tied : sortKey r = sortKey r' := by
        rcases List.mem_cons.mp here with rfl | later
        · rfl
        rcases List.mem_cons.mp here' with rfl | later'
        · rfl
        exact notAfter_antisymm (first r' later') (first' r later)
      have heads := same (sortKey r)
      rw [withKey_cons_self, tied, withKey_cons_self] at heads
      obtain ⟨rfl, -⟩ := List.cons.inj heads
      refine congrArg (List.cons r) (ih rest rest' fun k => ?_)
      have both := same k
      simp only [withKey, List.filter_cons] at both
      split at both
      · exact (List.cons.inj both).2
      · exact both

private theorem sortCanonical_eq_iff {rs rs' : List Result} :
    sortCanonical rs = sortCanonical rs' ↔ ∀ k, withKey k rs = withKey k rs' := by
  constructor
  · intro same k
    rw [← withKey_sortCanonical, same, withKey_sortCanonical]
  · intro same
    refine eq_of_withKey_eq (sorted_sortCanonical rs) (sorted_sortCanonical rs') fun k => ?_
    rw [withKey_sortCanonical, withKey_sortCanonical, same]

theorem sortCanonical_congr {rs rs' : List Result} (same : ∀ id, forRule rs id = forRule rs' id) :
    sortCanonical rs = sortCanonical rs' := by
  have within : ∀ (k : SortKey) (xs : List Result), withKey k xs =
      withKey k (forRule xs k.ruleId) := by
    intro k xs
    rw [withKey, withKey, forRule, List.filter_filter]
    refine List.filter_congr fun r _ => ?_
    by_cases keyed : sortKey r = k
    · simp [← keyed, ruleId_sortKey]
    · simp [keyed]
  refine sortCanonical_eq_iff.mpr fun k => ?_
  rw [within, same, ← within]

theorem filter_sortCanonical (p : Result → Bool) (rs : List Result) :
    (sortCanonical rs).filter p = sortCanonical (rs.filter p) := by
  have commute : ∀ (k : SortKey) (xs : List Result), withKey k (xs.filter p) =
      (withKey k xs).filter p :=
    fun k xs => List.filter_comm _ _ _
  refine eq_of_withKey_eq ((sorted_sortCanonical rs).filter p) (sorted_sortCanonical _) fun k => ?_
  rw [withKey_sortCanonical, commute, commute, withKey_sortCanonical]

/-- `a` stands somewhere in front of `b`. -/
def Precedes (rs : List Result) (a b : Result) : Prop := [a, b].Sublist rs

private theorem SortKey.order_eq_lt_iff {a b : SortKey} : a.order b = .lt ↔
    a.ruleId < b.ruleId ∨ a.ruleId = b.ruleId ∧ (a.file < b.file ∨ a.file = b.file ∧
      (a.line < b.line ∨ a.line = b.line ∧ a.description < b.description)) := by
  simp only [order, Ordering.then_eq_lt, compare_lt_iff_lt, compare_eq_iff_eq]

private theorem precedes_or {rs : List Result} {a b : Result} (ha : a ∈ rs) (hb : b ∈ rs)
    (apart : a ≠ b) : Precedes rs a b ∨ Precedes rs b a := by
  obtain ⟨front, back, rfl⟩ := List.append_of_mem ha
  rcases List.mem_append.mp hb with earlier | later
  · right
    exact (List.singleton_sublist.mpr earlier).append
      (List.singleton_sublist.mpr List.mem_cons_self)
  · left
    have behind : b ∈ back := (List.mem_cons.mp later).resolve_left apart.symm
    exact ((List.singleton_sublist.mpr behind).cons_cons a).trans (List.sublist_append_right _ _)

private theorem precedes_iff_withKey {rs : List Result} {a b : Result}
    (tie : sortKey a = sortKey b) : Precedes rs a b ↔ Precedes (withKey (sortKey a) rs) a b := by
  have pair : withKey (sortKey a) [a, b] = [a, b] := by simp [withKey, tie]
  constructor
  · intro before
    have kept := before.filter (sortKey · == sortKey a)
    rwa [← withKey, ← withKey, pair] at kept
  · exact fun before => before.trans List.filter_sublist

/-- A result precedes another one after sorting if its key is smaller, or if the keys agree and it
preceded it before. -/
private theorem precedes_sortCanonical_iff {rs : List Result} {a b : Result} :
    Precedes (sortCanonical rs) a b ↔
      a ∈ rs ∧ b ∈ rs ∧ (sortKey a).order (sortKey b) = .lt ∨ sortKey a = sortKey b ∧
      Precedes rs a b := by
  by_cases tie : sortKey a = sortKey b
  · rw [precedes_iff_withKey tie, withKey_sortCanonical, ← precedes_iff_withKey tie]
    constructor
    · exact fun before => .inr ⟨tie, before⟩
    · rintro (⟨-, -, less⟩ | ⟨-, before⟩)
      · rw [tie, show (sortKey b).order (sortKey b) = .eq from Std.ReflCmp.compare_self] at less
        contradiction
      · exact before
  · have members : ∀ x, x ∈ sortCanonical rs ↔ x ∈ rs := fun x => List.mem_mergeSort
    constructor
    · intro before
      left
      have ordered := List.pairwise_pair.mp ((sorted_sortCanonical rs).sublist before)
      refine ⟨(members a).mp (before.subset (by simp)),
        (members b).mp (before.subset (by simp)), ?_⟩
      rw [notAfter_iff] at ordered
      cases compared : (sortKey a).order (sortKey b) with
      | lt => rfl
      | eq => exact absurd (SortKey.eq_of_order_eq compared) tie
      | gt => simp [compared] at ordered
    · rintro (⟨ha, hb, less⟩ | ⟨same, -⟩)
      · have apart : a ≠ b := fun same => tie (congrArg sortKey same)
        rcases precedes_or ((members a).mpr ha) ((members b).mpr hb) apart with before | behind
        · exact before
        · have ordered := List.pairwise_pair.mp ((sorted_sortCanonical rs).sublist behind)
          have forward : notAfter a b = true := notAfter_iff.mpr (by simp [less])
          exact absurd (notAfter_antisymm forward ordered) tie
      · exact absurd same tie

private theorem mem_of_precedes_sortCanonical {rs : List Result} {a b : Result}
    (before : Precedes (sortCanonical rs) a b) : a ∈ rs ∧ b ∈ rs :=
  ⟨List.mem_mergeSort.mp (before.subset (by simp)), List.mem_mergeSort.mp (before.subset (by simp))⟩

def lastLine : Nat := UInt32.size - 1

/-- The location sorts in front of the last line of the file `~`, where results without location are
put. -/
def InFront (l : Location) : Prop :=
  l.file.text < "~" ∨ l.file.text = "~" ∧ l.startLine.toNat < lastLine

/-- The location is just where results without location are put. -/
def OnTop (l : Location) : Prop := l.file.text = "~" ∧ l.startLine.toNat = lastLine

private theorem sortKey_unlocated {u : Result} (unlocated : u.location = none) :
    sortKey u = ⟨u.ruleId, "~", lastLine, u.description⟩ := by
  rw [sortKey, Result.range, unlocated]
  rfl

private theorem sortKey_located {r : Result} {l : Location} (located : r.range = some l) :
    sortKey r = ⟨r.ruleId, l.file.text, l.startLine.toNat, r.description⟩ := by
  rw [sortKey, located]

section Pair

variable {rs : List Result} {u r : Result} {l : Location} (unlocated : u.location = none)
  (located : r.range = some l) (same : u.ruleId = r.ruleId)
include unlocated located same

private theorem sortKey_unlocated_lt_iff : (sortKey u).order (sortKey r) = .lt ↔
    "~" < l.file.text ∨ OnTop l ∧ u.description < r.description := by
  have bound : l.startLine.toNat ≤ lastLine := Nat.le_pred_of_lt l.startLine.toNat_lt
  rw [SortKey.order_eq_lt_iff, sortKey_unlocated unlocated, sortKey_located located, same]
  simp only [lt_self_iff_false, false_or, true_and, Nat.not_lt.mpr bound, OnTop, and_assoc,
    @eq_comm _ "~", @eq_comm _ lastLine]

private theorem sortKey_unlocated_eq_iff :
    sortKey u = sortKey r ↔ OnTop l ∧ u.description = r.description := by
  rw [sortKey_unlocated unlocated, sortKey_located located, same, SortKey.mk.injEq]
  simp only [true_and, OnTop, and_assoc, @eq_comm _ "~", @eq_comm _ lastLine]

/-- A located result does not come after a result of its rule without location if it lies in front,
or if it ties in its place and wins by its description or by the order before. -/
private theorem not_precedes_unlocated_iff (hu : u ∈ rs) (hr : r ∈ rs) :
    ¬ Precedes (sortCanonical rs) u r ↔ InFront l ∨ OnTop l ∧
      (r.description < u.description ∨ u.description = r.description ∧ ¬ Precedes rs u r) := by
  have bound : l.startLine.toNat ≤ lastLine := Nat.le_pred_of_lt l.startLine.toNat_lt
  rw [precedes_sortCanonical_iff, sortKey_unlocated_lt_iff unlocated located same,
    sortKey_unlocated_eq_iff unlocated located same]
  rcases lt_trichotomy l.file.text "~" with before | here | behind
  · simp [InFront, OnTop, before, before.ne, before.not_gt]
  · rcases bound.lt_or_eq with earlier | last
    · simp [InFront, OnTop, here, earlier, earlier.ne]
    · rcases lt_trichotomy u.description r.description with less | equal | more
      · simp [InFront, OnTop, here, last, hu, hr, less, less.ne, less.not_gt]
      · simp [InFront, OnTop, here, last, equal]
      · simp [InFront, OnTop, here, last, more, more.ne', more.not_gt]
  · simp [InFront, OnTop, behind, behind.ne', behind.not_gt, hu, hr]

end Pair

/-- The results of each rule without location come last within it exactly if all located results
that share a rule with one of them lie in front of the place they are sorted at, or tie in it and
win. -/
theorem unlocated_last_iff (rs : List Result) :
    (∀ u r, u.location = none → r.location.isSome → u.ruleId = r.ruleId →
      ¬ Precedes (sortCanonical rs) u r) ↔
    ∀ u ∈ rs, ∀ r ∈ rs, ∀ l, u.location = none → r.range = some l → u.ruleId = r.ruleId →
      InFront l ∨ OnTop l ∧
        (r.description < u.description ∨ u.description = r.description ∧ ¬ Precedes rs u r) := by
  constructor
  · intro law u hu r hr l unlocated located same
    obtain ⟨m, place, -⟩ := Option.map_eq_some_iff.mp located
    exact (not_precedes_unlocated_iff unlocated located same hu hr).mp
      (law u r unlocated (by simp [place]) same)
  · intro each u r unlocated located same before
    obtain ⟨m, place⟩ := Option.isSome_iff_exists.mp located
    have range : r.range = some m.range := by rw [Result.range, place, Option.map_some]
    obtain ⟨hu, hr⟩ := mem_of_precedes_sortCanonical before
    exact (not_precedes_unlocated_iff unlocated range same hu hr).mpr
      (each u hu r hr m.range unlocated range same) before

/-- A finding in the home folder and a fault of the same rule. -/
def homeResults : List Result :=
  let rule : Definition := ⟨.aws, "s3", "a", "-", "-", "-", "-", [], .high⟩
  Result.classify rule
      (.findings [⟨"open", .declared (.ofLines (.ofText "~/main.tf") 4 4) "logs"⟩]) none ++
    Result.classify rule (.fault (.text "boom")) none

/-- The fault is sorted in front of the finding, since `~/main.tf` sorts after `~`. -/
theorem unlocated_first : ∃ u ∈ homeResults, ∃ r ∈ homeResults, u.location = none ∧
    r.location.isSome ∧ u.ruleId = r.ruleId ∧ Precedes (sortCanonical homeResults) u r := by
  refine ⟨homeResults[1], by decide, homeResults[0], by decide, by decide, by decide, by decide, ?_⟩
  exact precedes_sortCanonical_iff.mpr (.inl ⟨by decide, by decide, by decide⟩)

def fileKey (r : Result) : String :=
  match r.location with
  | some m => m.range.file.text
  | none => "~"

def lineKey (r : Result) : Nat :=
  match r.location with
  | some m => m.range.startLine.toNat
  | none => lastLine

/-- The results agree on everything that they are sorted by. -/
structure Tied (a b : Result) : Prop where
  rule : a.ruleId = b.ruleId
  file : fileKey a = fileKey b
  line : lineKey a = lineKey b
  description : a.description = b.description

open Text in
/-- `a` goes before `b`: by rule, then file, then line, then description. -/
inductive Ahead (a b : Result) : Prop where
  | rule : utf8 a.ruleId < utf8 b.ruleId → Ahead a b
  | file : a.ruleId = b.ruleId → utf8 (fileKey a) < utf8 (fileKey b) → Ahead a b
  | line : a.ruleId = b.ruleId → fileKey a = fileKey b → lineKey a < lineKey b → Ahead a b
  | description : a.ruleId = b.ruleId → fileKey a = fileKey b → lineKey a = lineKey b →
      utf8 a.description < utf8 b.description → Ahead a b

/-- A comparison by which every two results are in order one way or the other, and both ways only if
they tie. -/
structure Ranks (inOrder : Result → Result → Prop) : Prop where
  refl : ∀ a, inOrder a a
  trans : ∀ a b c, inOrder a b → inOrder b c → inOrder a c
  total : ∀ a b, inOrder a b ∨ inOrder b a
  antisymm : ∀ a b, inOrder a b → inOrder b a → Tied a b

private theorem sortKey_eq (r : Result) :
    sortKey r = ⟨r.ruleId, fileKey r, lineKey r, r.description⟩ := by
  unfold sortKey fileKey lineKey Result.range
  cases r.location <;> rfl

variable {a b : Result} {rs rs' : List Result}

private theorem sortKey_eq_iff : sortKey a = sortKey b ↔ Tied a b := by
  rw [sortKey_eq, sortKey_eq, SortKey.mk.injEq]
  exact ⟨fun ⟨rule, file, line, description⟩ => ⟨rule, file, line, description⟩,
    fun ⟨rule, file, line, description⟩ => ⟨rule, file, line, description⟩⟩

instance decidableTied (a b : Result) : Decidable (Tied a b) := decidable_of_iff _ sortKey_eq_iff

private theorem order_eq_lt_iff : (sortKey a).order (sortKey b) = .lt ↔ Ahead a b := by
  rw [sortKey_eq, sortKey_eq, SortKey.order_eq_lt_iff]
  simp only [← Text.utf8_lt_iff]
  constructor
  · rintro (rule | ⟨same, file | ⟨here, line | ⟨there, description⟩⟩⟩)
    · exact .rule rule
    · exact .file same file
    · exact .line same here line
    · exact .description same here there description
  · rintro (rule | ⟨same, file⟩ | ⟨same, here, line⟩ | ⟨same, here, there, description⟩)
    · exact .inl rule
    · exact .inr ⟨same, .inl file⟩
    · exact .inr ⟨same, .inr ⟨here, .inl line⟩⟩
    · exact .inr ⟨same, .inr ⟨here, .inr ⟨there, description⟩⟩⟩

private theorem order_eq_eq_iff : (sortKey a).order (sortKey b) = .eq ↔ Tied a b := by
  rw [← sortKey_eq_iff]
  exact ⟨SortKey.eq_of_order_eq, fun same => same ▸ Std.ReflCmp.compare_self⟩

private theorem order_eq_gt_iff : (sortKey a).order (sortKey b) = .gt ↔ Ahead b a := by
  rw [← order_eq_lt_iff]
  exact Std.OrientedCmp.gt_iff_lt

private theorem notAfter_iff_ahead : notAfter a b = true ↔ Ahead a b ∨ Tied a b := by
  rw [notAfter, bne_iff_ne, ← order_eq_lt_iff, ← order_eq_eq_iff]
  cases (sortKey a).order (sortKey b) <;> simp

private theorem notAfter_ranks : Ranks (notAfter · · = true) where
  refl _ := notAfter_of_sortKey_eq rfl
  trans := notAfter_trans
  total a b := by
    have either := notAfter_total a b
    rwa [Bool.or_eq_true] at either
  antisymm _ _ first second := sortKey_eq_iff.mp (notAfter_antisymm first second)

private theorem filter_tied (r : Result) (rs : List Result) :
    rs.filter (Tied r ·) = withKey (sortKey r) rs := by
  refine List.filter_congr fun x _ => ?_
  rw [Bool.eq_iff_iff, decide_eq_true_iff, beq_iff_eq, ← sortKey_eq_iff, eq_comm]

/-- No other arrangement is in order and leaves ties as they were. -/
private theorem eq_sortCanonical_iff : rs' = sortCanonical rs ↔
    rs'.Perm rs ∧ (rs'.Pairwise fun a b => Ahead a b ∨ Tied a b) ∧
      ∀ r, rs'.filter (Tied r ·) = rs.filter (Tied r ·) := by
  simp only [← notAfter_iff_ahead, filter_tied]
  constructor
  · rintro rfl
    exact ⟨List.mergeSort_perm rs notAfter, sorted_sortCanonical rs, fun r =>
      withKey_sortCanonical _ rs⟩
  · rintro ⟨perm, sorted, stable⟩
    refine eq_of_withKey_eq sorted (sorted_sortCanonical rs) fun k => ?_
    rw [withKey_sortCanonical]
    by_cases met : ∃ r, sortKey r = k
    · obtain ⟨r, rfl⟩ := met
      exact stable r
    · have missing : ∀ xs, withKey k xs = [] := fun xs =>
        List.filter_eq_nil_iff.mpr fun r _ same => met ⟨r, by simpa using same⟩
      rw [missing, missing]

private theorem sortCanonical_sortCanonical (rs : List Result) :
    sortCanonical (sortCanonical rs) = sortCanonical rs :=
  List.mergeSort_of_pairwise (sorted_sortCanonical rs)

/-- Results are compared by rule, file, line and description, which ranks them up to ties. Sorting
gives the one arrangement in this order that leaves ties as they were; doing it again changes
nothing, and the results of some rules alone are sorted as they are among all of them. -/
theorem sorting_exact :
    (∀ a b, ((sortKey a).order (sortKey b) = .lt ↔ Ahead a b) ∧
      ((sortKey a).order (sortKey b) = .eq ↔ Tied a b) ∧
      ((sortKey a).order (sortKey b) = .gt ↔ Ahead b a)) ∧
    Ranks (fun a b => (sortKey a).order (sortKey b) ≠ .gt) ∧
    ∀ rs, (∀ rs', rs' = sortCanonical rs ↔ rs'.Perm rs ∧
      (rs'.Pairwise fun a b => Ahead a b ∨ Tied a b) ∧
        ∀ r, rs'.filter (Tied r ·) = rs.filter (Tied r ·)) ∧
      sortCanonical (sortCanonical rs) = sortCanonical rs ∧
      ∀ keeps : String → Bool,
        (sortCanonical rs).filter (keeps ·.ruleId) =
          sortCanonical (rs.filter (keeps ·.ruleId)) := by
  refine ⟨fun a b => ⟨order_eq_lt_iff, order_eq_eq_iff, order_eq_gt_iff⟩, ?_, fun rs =>
    ⟨fun rs' => eq_sortCanonical_iff, sortCanonical_sortCanonical rs, fun keeps =>
      filter_sortCanonical _ rs⟩⟩
  simpa only [notAfter, bne_iff_ne] using notAfter_ranks

end Results

def StatusCounts.get (c : StatusCounts) : Status → UInt32
  | .passed => c.passed
  | .failed => c.failed
  | .ignored => c.ignored

private theorem StatusCounts.eq_of_get_eq {c c' : StatusCounts} (same : ∀ s, c.get s = c'.get s) :
    c = c' := by
  have passed := same .passed
  have failed := same .failed
  have ignored := same .ignored
  cases c
  cases c'
  simp_all [get]

namespace SeverityCounts

private theorem eq_of_get_eq {c c' : SeverityCounts} (same : ∀ s, c.get s = c'.get s) : c = c' := by
  have low := same .low
  have medium := same .medium
  have high := same .high
  have critical := same .critical
  cases c
  cases c'
  simp_all [get]

private theorem get_bump (c : SeverityCounts) (t s : Severity) :
    (c.bump t).get s = c.get s + if t == s then 1 else 0 := by
  cases t <;> cases s <;> simp [bump, get]

end SeverityCounts

namespace Results

private theorem counts_get (rs : List Result) (s : Status) :
    (counts rs).get s = UInt32.ofNat (rs.countP (·.status == s)) := by
  cases s <;> rfl

private theorem get_foldl_bump (rs : List Result) (c : SeverityCounts) (s : Severity) :
    (rs.foldl (fun c r => c.bump r.rule.severity) c).get s =
      c.get s + UInt32.ofNat (rs.countP (·.rule.severity == s)) := by
  induction rs generalizing c with
  | nil => simp
  | cons r rs ih =>
    rw [List.foldl_cons, ih, SeverityCounts.get_bump, List.countP_cons, UInt32.ofNat_add,
      UInt32.add_assoc, UInt32.add_comm (UInt32.ofNat _)]
    cases r.rule.severity == s <;> rfl

private theorem failedBySeverity_get (rs : List Result) (s : Severity) :
    (failedBySeverity rs).get s =
      UInt32.ofNat (rs.countP fun r => r.rule.severity == s && r.status == .failed) := by
  have start : ({} : SeverityCounts).get s = 0 := by cases s <;> rfl
  rw [failedBySeverity, get_foldl_bump, start, UInt32.zero_add, withStatus, List.countP_filter]

section Perm

variable {rs rs' : List Result} (same : rs.Perm rs')
include same

theorem counts_perm : counts rs = counts rs' := by
  apply StatusCounts.eq_of_get_eq
  intro s
  rw [counts_get, counts_get, same.countP_eq]

theorem failedBySeverity_perm : failedBySeverity rs = failedBySeverity rs' := by
  apply SeverityCounts.eq_of_get_eq
  intro s
  rw [failedBySeverity_get, failedBySeverity_get, same.countP_eq]

end Perm

private theorem sum_map_eq {κ : Type} [DecidableEq κ] (k : κ) (labels : List κ) :
    (labels.map fun l => if (k == l) = true then 1 else 0).sum = labels.count k := by
  induction labels with
  | nil => rfl
  | cons l labels ih =>
    rw [List.map_cons, List.sum_cons, ih, List.count_cons, Bool.beq_comm, Nat.add_comm]

private theorem sum_countP_label {α κ : Type} [DecidableEq κ] (p : α → Bool) (label : α → κ)
    (labels : List κ) (once : ∀ k, labels.count k = 1) (xs : List α) :
    (labels.map fun k => xs.countP fun x => label x == k && p x).sum = xs.countP p := by
  induction xs with
  | nil => simp
  | cons x xs ih =>
    have share : (labels.map fun k => if (label x == k && p x) = true then 1 else 0).sum =
        if p x = true then 1 else 0 := by
      cases p x with
      | false => simp
      | true => simp only [Bool.and_true, sum_map_eq, once, if_true]
    simp only [List.countP_cons, List.sum_map_add, ih, share]

section Fitting

variable {rs : List Result} (few : rs.length < UInt32.size)
include few

theorem toNat_counts_get (s : Status) : ((counts rs).get s).toNat = rs.countP (·.status == s) := by
  rw [counts_get]
  exact UInt32.toNat_ofNat_of_lt' (Nat.lt_of_le_of_lt List.countP_le_length few)

theorem toNat_failedBySeverity_get (s : Severity) : ((failedBySeverity rs).get s).toNat =
    rs.countP fun r => r.rule.severity == s && r.status == .failed := by
  rw [failedBySeverity_get]
  exact UInt32.toNat_ofNat_of_lt' (Nat.lt_of_le_of_lt List.countP_le_length few)

end Fitting

theorem sum_countP_status (rs : List Result) :
    (Status.all.map fun s => rs.countP (·.status == s)).sum = rs.length := by
  have share := sum_countP_label (fun _ => true) Result.status Status.all
    (fun s => by cases s <;> rfl) rs
  simpa using share

theorem sum_countP_severity (rs : List Result) :
    (Severity.all.map fun s => rs.countP fun r => r.rule.severity == s && r.status == .failed).sum =
      rs.countP (·.status == .failed) :=
  sum_countP_label (·.status == .failed) (·.rule.severity) Severity.all
  (fun s => by cases s <;> rfl) rs

theorem total_failedBySeverity (rs : List Result) :
    (failedBySeverity rs).total = (counts rs).failed := by
  have share := congrArg UInt32.ofNat (sum_countP_severity rs)
  simp only [Severity.all, List.map_cons, List.map_nil, List.sum_cons, List.sum_nil,
    UInt32.ofNat_add, ← failedBySeverity_get] at share
  rw [show (counts rs).failed = UInt32.ofNat (rs.countP (·.status == .failed)) from rfl, ← share]
  simp [SeverityCounts.total, SeverityCounts.get, UInt32.add_assoc]

end Results

end CloudPolicy
