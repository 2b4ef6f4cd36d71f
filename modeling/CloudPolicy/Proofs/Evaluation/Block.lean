import CloudPolicy.Scan
import Mathlib.Data.List.Forall2

/-!
The block of results that one rule gives, and what a suppressor does to it: it changes statuses at
most.
-/

set_option autoImplicit false
set_option relaxedAutoImplicit false

namespace CloudPolicy

namespace Result

def accepts (suppressor : Option Suppressor) (rule : Definition) (f : Finding) : Bool :=
  suppressor.any fun s => s rule f

/-- The result stands where the finding does and says what it says. -/
structure Reports (suppressor : Option Suppressor) (rule : Definition) (f : Finding)
    (r : Result) : Prop where
  ofRule : r.rule = rule
  description : r.description = f.description
  location : r.location = some f.location
  sound : r.isFault = false
  status : r.status = if accepts suppressor rule f then .ignored else .failed

/-- The block that the outcome of a check leaves: one pass, one result for each finding in their
order, or one failure that no suppressor is asked about. -/
inductive Leaves (suppressor : Option Suppressor) (rule : Definition) :
    Outcome → List Result → Prop where
  | passed {r : Result} (ofRule : r.rule = rule) (status : r.status = .passed)
      (description : r.description = rule.summary) (unlocated : r.location = none)
      (sound : r.isFault = false) : Leaves suppressor rule (.findings []) [r]
  | found {f : Finding} {fs : List Finding} {rs : List Result}
      (each : List.Forall₂ (Reports suppressor rule) (f :: fs) rs) :
      Leaves suppressor rule (.findings (f :: fs)) rs
  | faulted {fault : Fault} {r : Result} (ofRule : r.rule = rule) (status : r.status = .failed)
      (description : r.description =
        "rule '" ++ rule.longId ++ "' faulted during evaluation: " ++ fault.message)
      (unlocated : r.location = none) (isFault : r.isFault = true) :
      Leaves suppressor rule (.fault fault) [r]

private theorem reports_ofFinding (suppressor : Option Suppressor) (rule : Definition)
    (f : Finding) : Reports suppressor rule f (ofFinding rule suppressor f) :=
  ⟨rfl, rfl, rfl, rfl, rfl⟩

private theorem leaves_classify (suppressor : Option Suppressor) (rule : Definition)
    (outcome : Outcome) : Leaves suppressor rule outcome (classify rule outcome suppressor) := by
  cases outcome with
  | fault fault => exact .faulted rfl rfl rfl rfl rfl
  | findings found =>
    cases found with
    | nil => exact .passed rfl rfl rfl rfl rfl
    | cons f fs =>
      refine .found (List.forall₂_map_right_iff.mpr (List.forall₂_same.mpr fun g _ => ?_))
      exact reports_ofFinding suppressor rule g

private theorem classify_ne_nil (rule : Definition) (outcome : Outcome)
    (suppressor : Option Suppressor) : classify rule outcome suppressor ≠ [] := by
  cases outcome with
  | findings found => cases found <;> simp [classify]
  | fault fault => simp [classify]

/-- A result is the one pass of its block, a finding or a fault. -/
theorem mem_classify {rule : Definition} {outcome : Outcome} {suppressor : Option Suppressor}
    {r : Result} (member : r ∈ classify rule outcome suppressor) :
    (classify rule outcome suppressor = [r] ∧ r = ⟨.passed, rule, rule.summary, none, false⟩) ∨
    (∃ f, r = ofFinding rule suppressor f) ∨ ∃ text, r = ⟨.failed, rule, text, none, true⟩ := by
  cases outcome with
  | fault fault => exact .inr (.inr ⟨_, List.mem_singleton.mp member⟩)
  | findings found =>
    cases found with
    | nil =>
      obtain rfl := List.mem_singleton.mp member
      exact .inl ⟨rfl, rfl⟩
    | cons f found =>
      obtain ⟨g, _, rfl⟩ := List.mem_map.mp member
      exact .inr (.inl ⟨g, rfl⟩)

private theorem status_ofFinding_ne_passed (rule : Definition) (suppressor : Option Suppressor)
    (f : Finding) : (ofFinding rule suppressor f).status ≠ .passed := by
  unfold ofFinding
  dsimp only
  split <;> simp

section Member

variable {rule : Definition} {outcome : Outcome} {suppressor : Option Suppressor} {r : Result}
  (member : r ∈ classify rule outcome suppressor)
include member

theorem rule_of_mem_classify : r.rule = rule := by
  obtain ⟨-, rfl⟩ | ⟨f, rfl⟩ | ⟨text, rfl⟩ := mem_classify member <;> rfl

private theorem classify_of_passed (passed : r.status = .passed) :
    classify rule outcome suppressor = [r] := by
  rcases mem_classify member with ⟨only, -⟩ | ⟨f, rfl⟩ | ⟨text, rfl⟩
  · exact only
  · exact absurd passed (status_ofFinding_ne_passed rule suppressor f)
  · contradiction

private theorem classify_of_isFault (fault : r.isFault = true) :
    r.status = .failed ∧ r.location = none := by
  rcases mem_classify member with ⟨-, rfl⟩ | ⟨f, rfl⟩ | ⟨text, rfl⟩
  · contradiction
  · simp [ofFinding] at fault
  · exact ⟨rfl, rfl⟩

end Member

end Result

namespace Evaluation

/-- The results of a rule that is evaluated by itself, with nothing that could cancel it. -/
def alone (suppressor : Option Suppressor) (state : State) (rule : Rule) : List Result :=
  (run ⟨false, suppressor⟩ state false [rule]).1.results

theorem resultsOf_eq_alone (options : EvaluationOptions) (state : State) (rule : Rule) :
    resultsOf options state rule = alone options.suppressor state rule := by
  simp [alone, run, blocks, ofBlocks, Block.results, resultsOf]

theorem alone_eq_classify (suppressor : Option Suppressor) (state : State) (rule : Rule) :
    alone suppressor state rule =
      Result.classify rule.definition (rule.check state).outcome suppressor :=
  (resultsOf_eq_alone ⟨false, suppressor⟩ state rule).symm

theorem alone_ne_nil (suppressor : Option Suppressor) (state : State) (rule : Rule) :
    alone suppressor state rule ≠ [] := by
  rw [alone_eq_classify]
  exact Result.classify_ne_nil _ _ _

theorem leaves_alone (suppressor : Option Suppressor) (state : State) (rule : Rule) :
    Result.Leaves suppressor rule.definition (rule.check state).outcome
      (alone suppressor state rule) := by
  rw [alone_eq_classify]
  exact Result.leaves_classify _ _ _

theorem rule_of_mem_alone {suppressor : Option Suppressor} {state : State} {rule : Rule}
    {r : Result} (member : r ∈ alone suppressor state rule) : r.rule = rule.definition := by
  rw [alone_eq_classify] at member
  exact Result.rule_of_mem_classify member

theorem ruleId_of_mem_alone {suppressor : Option Suppressor} {state : State} {rule : Rule}
    {r : Result} (member : r ∈ alone suppressor state rule) : r.ruleId = rule.longId :=
  congrArg Definition.longId (rule_of_mem_alone member)

theorem alone_of_passed {suppressor : Option Suppressor} {state : State} {rule : Rule} {r : Result}
    (member : r ∈ alone suppressor state rule) (passed : r.status = .passed) :
    alone suppressor state rule = [r] := by
  rw [alone_eq_classify] at member ⊢
  exact Result.classify_of_passed member passed

theorem alone_of_isFault {suppressor : Option Suppressor} {state : State} {rule : Rule} {r : Result}
    (member : r ∈ alone suppressor state rule) (fault : r.isFault = true) :
    r.status = .failed ∧ r.location = none := by
  rw [alone_eq_classify] at member
  exact Result.classify_of_isFault member fault

theorem ofBlocks_ran (rs : List Result) (bs : List Block) :
    ofBlocks (.ran rs :: bs) = ⟨rs ++ (ofBlocks bs).results, (ofBlocks bs).notRun⟩ := rfl

theorem ofBlocks_skipped (id : String) (bs : List Block) :
    ofBlocks (.skipped id :: bs) = ⟨(ofBlocks bs).results, id :: (ofBlocks bs).notRun⟩ := rfl

theorem run_cons_run {options : EvaluationOptions} {cancelled : Bool} (state : State) (rule : Rule)
    (rules : List Rule) (lowered : (options.watchesCancellation && cancelled) = false) :
    (run options state cancelled (rule :: rules)).1 =
      ⟨alone options.suppressor state rule ++
          (run options state (cancelled || (rule.check state).cancels) rules).1.results,
        (run options state (cancelled || (rule.check state).cancels) rules).1.notRun⟩ := by
  simp [run, blocks, lowered, ofBlocks_ran, resultsOf_eq_alone]

theorem run_singleton (watches : Bool) (suppressor : Option Suppressor) (state : State)
    (rule : Rule) : run ⟨watches, suppressor⟩ state false [rule] =
      (⟨alone suppressor state rule, []⟩, (rule.check state).cancels) := by
  rw [← resultsOf_eq_alone ⟨watches, suppressor⟩]
  simp [run, blocks, ofBlocks, Block.results, Block.skippedId]

end Evaluation

namespace Result

/-- Whether the result is a located failure that the suppressor accepts. -/
def acceptedBy (suppressor : Option Suppressor) (r : Result) : Bool :=
  r.status == .failed && r.location.any fun m => suppressor.any fun s => s r.rule ⟨r.description, m⟩

def suppress (suppressor : Option Suppressor) (r : Result) : Result :=
  if r.acceptedBy suppressor then { r with status := .ignored } else r

variable (suppressor : Option Suppressor) (r : Result)

private theorem sortKey_suppress : Results.sortKey (suppress suppressor r) = Results.sortKey r := by
  unfold suppress
  split <;> rfl

private theorem ofFinding_eq_suppress (rule : Definition) (f : Finding) :
    ofFinding rule suppressor f = suppress suppressor (ofFinding rule none f) := by
  cases accepted : suppressor.any fun s =>
    s rule f <;> simp [ofFinding, suppress, acceptedBy, accepted]

theorem classify_eq_map (rule : Definition) (outcome : Outcome) :
    classify rule outcome suppressor = (classify rule outcome none).map (suppress suppressor) := by
  cases outcome with
  | fault fault => rfl
  | findings found =>
    cases found with
    | nil => rfl
    | cons f found =>
      simp only [classify, List.map_map]
      exact List.map_congr_left fun g _ => ofFinding_eq_suppress suppressor rule g

end Result

namespace Evaluation

private theorem alone_eq_map (suppressor : Option Suppressor) (state : State) (rule : Rule) :
    alone suppressor state rule = (alone none state rule).map (Result.suppress suppressor) := by
  rw [alone_eq_classify, alone_eq_classify, Result.classify_eq_map]

theorem alone_congr {s s' : Option Suppressor}
    (same : ∀ rule f, (s.any fun a => a rule f) = s'.any fun a => a rule f) :
    alone s = alone s' := by
  funext state rule
  rw [alone_eq_map s, alone_eq_map s']
  refine List.map_congr_left fun r _ => ?_
  have accepted : r.acceptedBy s = r.acceptedBy s' := by simp only [Result.acceptedBy, same]
  rw [Result.suppress, Result.suppress, accepted]

theorem flatMap_alone (suppressor : Option Suppressor) (state : State) (rules : List Rule) :
    rules.flatMap (alone suppressor state) =
      (rules.flatMap (alone none state)).map (Result.suppress suppressor) := by
  rw [List.map_flatMap]
  exact congrArg (List.flatMap · rules) (funext fun rule => alone_eq_map suppressor state rule)

end Evaluation

theorem Results.sortCanonical_map (suppressor : Option Suppressor) (rs : List Result) :
    sortCanonical (rs.map (Result.suppress suppressor)) =
      (sortCanonical rs).map (Result.suppress suppressor) := by
  refine (List.map_mergeSort fun a _ b _ => ?_).symm
  rw [notAfter, notAfter, Result.sortKey_suppress, Result.sortKey_suppress]

end CloudPolicy
