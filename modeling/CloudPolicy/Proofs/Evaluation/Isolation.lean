import CloudPolicy.Proofs.Evaluation.Schedule
import Mathlib.Data.List.Dedup
import Mathlib.Data.List.Forall2

/-!
Evaluations one block after another. Rules with different long ids are known by their results, and
no rule gets in the way of another.
-/

set_option autoImplicit false
set_option relaxedAutoImplicit false

namespace CloudPolicy

namespace Evaluation

variable {suppressor : Option Suppressor} {state : State}

theorem marked_divides (suppressor : Option Suppressor) (state : State) {rules : List Rule}
    {skips : List Bool} (lengths : skips.length = rules.length) :
    ∃ ran skipped : List Rule, (ran ++ skipped).Perm rules ∧ marked suppressor state rules skips =
      ⟨ran.flatMap (alone suppressor state), skipped.map Rule.longId⟩ := by
  induction rules generalizing skips with
  | nil => exact ⟨[], [], .refl _, by simp [marked]⟩
  | cons rule rules ih =>
    rcases skips with _ | ⟨skip, skips⟩
    · simp at lengths
    obtain ⟨ran, skipped, divides, rest⟩ := ih (Nat.succ.inj lengths)
    cases skip with
    | true =>
      refine ⟨ran, rule :: skipped, List.perm_middle.trans (divides.cons rule), ?_⟩
      rw [marked_skip, rest, List.map_cons]
    | false =>
      refine ⟨rule :: ran, skipped, divides.cons rule, ?_⟩
      rw [marked_run, rest, List.flatMap_cons]

section Ran

variable {ran : List Rule} {r : Result}

theorem exists_of_mem_ran (member : r ∈ ran.flatMap (alone suppressor state)) :
    ∃ rule ∈ ran, r ∈ alone suppressor state rule ∧ r.rule = rule.definition := by
  obtain ⟨rule, here, block⟩ := List.mem_flatMap.mp member
  exact ⟨rule, here, block, rule_of_mem_alone block⟩

theorem forRule_eq_nil {id : String} (stranger : ∀ rule ∈ ran, rule.longId ≠ id) :
    Results.forRule (ran.flatMap (alone suppressor state)) id = [] := by
  refine List.filter_eq_nil_iff.mpr fun r member => ?_
  obtain ⟨rule, here, block, _⟩ := exists_of_mem_ran member
  simpa [ruleId_of_mem_alone block] using stranger rule here

theorem forRule_ran (nodup : (ran.map Rule.longId).Nodup) {rule : Rule} (member : rule ∈ ran) :
    Results.forRule (ran.flatMap (alone suppressor state)) rule.longId =
      alone suppressor state rule := by
  obtain ⟨front, back, rfl⟩ := List.append_of_mem member
  rw [List.map_append, List.map_cons, List.nodup_middle] at nodup
  rw [← List.map_append] at nodup
  have others : ∀ other ∈ front ++ back, other.longId ≠ rule.longId := fun other here same =>
    (List.nodup_cons.mp nodup).1 (same ▸ List.mem_map_of_mem here)
  have block : (alone suppressor state rule).filter (·.ruleId == rule.longId) =
      alone suppressor state rule :=
    List.filter_eq_self.mpr fun r here => by simp [ruleId_of_mem_alone here]
  have before : Results.forRule (front.flatMap (alone suppressor state)) rule.longId = [] :=
    forRule_eq_nil fun other here => others other (List.mem_append_left back here)
  have after : Results.forRule (back.flatMap (alone suppressor state)) rule.longId = [] :=
    forRule_eq_nil fun other here => others other (List.mem_append_right front here)
  simp only [Results.forRule] at before after ⊢
  rw [List.flatMap_append, List.flatMap_cons, List.filter_append, List.filter_append, before, block,
    after, List.append_nil, List.nil_append]

theorem length_ran_le (suppressor : Option Suppressor) (state : State) (ran : List Rule) :
    ran.length ≤ (ran.flatMap (alone suppressor state)).length := by
  induction ran with
  | nil => exact Nat.zero_le _
  | cons rule ran ih =>
    have some_result := List.length_pos_iff.mpr (alone_ne_nil suppressor state rule)
    simp only [List.flatMap_cons, List.length_append, List.length_cons]
    omega

theorem length_dedup_ids (nodup : (ran.map Rule.longId).Nodup) :
    ((ran.flatMap (alone suppressor state)).map Result.ruleId).dedup.length = ran.length := by
  rw [← List.length_map Rule.longId]
  refine ((List.perm_ext_iff_of_nodup (List.nodup_dedup _) nodup).mpr fun id => ?_).length_eq
  rw [List.mem_dedup, List.mem_map, List.mem_map]
  constructor
  · rintro ⟨r, member, rfl⟩
    obtain ⟨rule, here, block, _⟩ := exists_of_mem_ran member
    exact ⟨rule, here, (ruleId_of_mem_alone block).symm⟩
  · rintro ⟨rule, here, rfl⟩
    obtain ⟨r, block⟩ := List.exists_mem_of_ne_nil _ (alone_ne_nil suppressor state rule)
    exact ⟨r, List.mem_flatMap.mpr ⟨rule, here, block⟩, ruleId_of_mem_alone block⟩

end Ran

end Evaluation

def Outcome.found : Outcome → List Finding
  | .findings found => found
  | .fault _ => []

namespace Result

variable {suppressor suppressor' : Option Suppressor} {rule : Definition} {f : Finding}
  {outcome : Outcome}

private theorem classify_congr
    (same : ∀ f ∈ outcome.found, accepts suppressor rule f = accepts suppressor' rule f) :
    classify rule outcome suppressor = classify rule outcome suppressor' := by
  cases outcome with
  | fault fault => rfl
  | findings found =>
    cases found with
    | nil => rfl
    | cons f fs =>
      refine List.map_congr_left fun g member => ?_
      have agree : (suppressor.any fun s => s rule g) = suppressor'.any fun s => s rule g :=
        same g member
      rw [ofFinding, ofFinding, agree]

private theorem length_classify (suppressor suppressor' : Option Suppressor) (rule : Definition)
    (outcome : Outcome) :
    (classify rule outcome suppressor).length = (classify rule outcome suppressor').length := by
  rw [classify_eq_map, classify_eq_map suppressor', List.length_map, List.length_map]

end Result

namespace Evaluation

/-- The evaluations of rules, one after another or side by side, along schedules in which nothing is
cancelled. -/
def Uncancelled (suppressor : Option Suppressor) (state : State) (rules : List Rule)
    (parallel : Bool) (e : Evaluation) : Prop :=
  ∃ watches cancelled events, Outcome ⟨⟨watches, suppressor⟩, parallel, state, rules⟩
    cancelled events e ∧ (watches = false ∨ cancelled = false ∧ .cancel ∉ events)

/-- The evaluation ran every rule and consists of these blocks, one for each position. -/
structure Consists (suppressor : Option Suppressor) (state : State) (rules : List Rule)
    (e : Evaluation) (blocks : List (List Result)) : Prop where
  results : e.results = blocks.flatten
  complete : e.notRun = []
  each : List.Forall₂ (fun rule block => block ≠ [] ∧
    Result.Leaves suppressor rule.definition (rule.check state).outcome block) rules blocks

section

variable {suppressor : Option Suppressor} {state : State} {rules : List Rule} {parallel : Bool}
  {e : Evaluation}

theorem exists_uncancelled (suppressor : Option Suppressor) (state : State) (rules : List Rule)
    (parallel : Bool) : ∃ e, Uncancelled suppressor state rules parallel e := by
  obtain ⟨events, outcome⟩ := outcome_of_run ⟨⟨false, suppressor⟩, parallel, state, rules⟩ false
  exact ⟨_, false, false, events, outcome, .inl rfl⟩

theorem Uncancelled.eq (calm : Uncancelled suppressor state rules parallel e) :
    e = ⟨rules.flatMap (alone suppressor state), []⟩ := by
  obtain ⟨watches, cancelled, events, outcome, quiet⟩ := calm
  obtain ⟨skips, account⟩ := outcome.account
  exact (account.undisturbed quiet).1

private theorem Uncancelled.consists (calm : Uncancelled suppressor state rules parallel e) :
    Consists suppressor state rules e (rules.map (alone suppressor state)) := by
  rw [calm.eq]
  refine ⟨by rw [List.flatMap_def], rfl, ?_⟩
  refine List.forall₂_map_right_iff.mpr (List.forall₂_same.mpr fun rule _ => ?_)
  exact ⟨alone_ne_nil _ _ _, leaves_alone _ _ _⟩

end

/-- An evaluation that nothing cancels is the concatenation of the blocks that its rules give alone.
Exchanging the check at one position exchanges one block, and exchanging the suppressor changes only
the blocks of rules with findings on which the two disagree, and not their lengths. -/
theorem rules_isolated (suppressor : Option Suppressor) (state : State) (rules : List Rule) :
    (∀ parallel, ∃ e, Uncancelled suppressor state rules parallel e) ∧
    (∀ parallel e, Uncancelled suppressor state rules parallel e →
      Consists suppressor state rules e (rules.map (alone suppressor state))) ∧
    (∀ (i : Nat) (rule : Rule), rules[i]? = some rule → ∀ check parallel e,
      Uncancelled suppressor state (rules.set i ⟨rule.definition, check⟩) parallel e →
      ∃ block, Consists suppressor state (rules.set i ⟨rule.definition, check⟩) e
        ((rules.map (alone suppressor state)).set i block)) ∧
    ∀ suppressor' parallel e, Uncancelled suppressor' state rules parallel e →
      ∃ blocks, Consists suppressor' state rules e blocks ∧
        blocks.map List.length = (rules.map (alone suppressor state)).map List.length ∧
        ∀ (i : Nat) (rule : Rule), rules[i]? = some rule →
          (∀ f ∈ (rule.check state).outcome.found, Result.accepts suppressor' rule.definition f =
            Result.accepts suppressor rule.definition f) →
          blocks[i]? = (rules.map (alone suppressor state))[i]? := by
  refine ⟨exists_uncancelled suppressor state rules, fun parallel e calm => calm.consists, ?_, ?_⟩
  · intro i rule position check parallel e calm
    refine ⟨alone suppressor state ⟨rule.definition, check⟩, ?_⟩
    rw [← List.map_set]
    exact calm.consists
  · intro suppressor' parallel e calm
    refine ⟨_, calm.consists, ?_, fun i rule position agree => ?_⟩
    · rw [List.map_map, List.map_map]
      refine List.map_congr_left fun rule _ => ?_
      simp only [Function.comp_apply, alone_eq_classify]
      exact Result.length_classify _ _ _ _
    · rw [List.getElem?_map, List.getElem?_map, position, Option.map_some, Option.map_some,
        alone_eq_classify, alone_eq_classify, Result.classify_congr agree]

def fixedRule (code : String) (outcome : CloudPolicy.Outcome) : Rule :=
  ⟨⟨.aws, "demo", code, "Nothing is wrong", "", "", "", [], .low⟩, fun _ => { outcome := outcome }⟩

/-- Rules that pass, break off, find two things and pass once more. -/
def mixedRules : List Rule :=
  let place : Metadata := .declared (.ofLines (.ofText "a.tf") 1 1) ""
  [fixedRule "pass" (.findings []), fixedRule "fault" (.fault .other),
    fixedRule "find" (.findings [⟨"known", place⟩, ⟨"new", place⟩]),
    fixedRule "pass" (.findings [])]

def acceptsKnown : Option Suppressor := some fun _ f => f.description == "known"

theorem rules_isolated_mixed :
    ∃ e e' e'', Uncancelled acceptsKnown {} mixedRules true e ∧
      e.results.map (·.status) = [.passed, .failed, .ignored, .failed, .passed] ∧
      Uncancelled acceptsKnown {} (mixedRules.set 0 (fixedRule "pass" (.fault .other))) false e' ∧
      e'.results.map (·.status) = [.failed, .failed, .ignored, .failed, .passed] ∧
      e'.results.tail = e.results.tail ∧
      Uncancelled none {} mixedRules true e'' ∧ e''.results.length = 5 := by
  obtain ⟨exist, blocks, exchanged, resuppressed⟩ := rules_isolated acceptsKnown {} mixedRules
  obtain ⟨e, ran⟩ := exist true
  obtain ⟨e', ran'⟩ := exists_uncancelled acceptsKnown {}
    (mixedRules.set 0 (fixedRule "pass" (.fault .other))) false
  obtain ⟨e'', ran''⟩ := exists_uncancelled none {} mixedRules true
  have here := (blocks _ _ ran).results
  obtain ⟨block, there⟩ := exchanged 0 _ rfl (fun _ => { outcome := .fault .other }) _ _ ran'
  obtain ⟨_, anew, lengths, -⟩ := resuppressed _ _ _ ran''
  have first : Result.Leaves acceptsKnown _ (.fault .other) block :=
    (List.forall₂_cons.mp there.each).1.2
  refine ⟨e, e', e'', ran, ?_, ran', ?_, ?_, ran'', ?_⟩
  · rw [here]
    decide
  · cases first with
    | faulted _ failed =>
      rw [there.results]
      simp only [mixedRules, List.map_cons, List.set_cons_zero, List.flatten_cons,
        List.cons_append, failed]
      decide
  · cases first with
    | faulted => rw [there.results, here]; rfl
  · rw [anew.results, List.length_flatten, lengths]
    decide

end Evaluation

end CloudPolicy
