import CloudPolicy.Registry
import Mathlib.Data.List.Induction
import Mathlib.Data.List.Nodup

/-!
Registries that successful registrations build. Rules, places and identities stay in step, whatever
is registered and in whatever order.
-/

set_option autoImplicit false
set_option relaxedAutoImplicit false

namespace CloudPolicy

namespace Registry

/-- `Built r`: the registry comes from the empty one by registrations that succeeded. -/
inductive Built : Registry → Prop where
  | empty : Built .empty
  | register {r r' : Registry} {rule : Rule} : Built r → r.register rule = .ok r' → Built r'

theorem register_eq_ok_iff {r r' : Registry} {rule : Rule} :
    r.register rule = .ok r' ↔
      rule.definition.fault? = none ∧ rule.longId ∉ r.ids ∧ r' = ⟨r.rules ++ [rule]⟩ := by
  unfold register
  cases fault : rule.definition.fault? with
  | some reason => simp
  | none =>
    by_cases taken : rule.longId ∈ r.ids
    · simp [contains, taken]
    · simp [contains, taken, eq_comm]

private theorem ids_append (rules more : List Rule) :
    ids ⟨rules ++ more⟩ = ids ⟨rules⟩ ++ ids ⟨more⟩ := List.map_append

theorem Built.ids_nodup {r : Registry} (built : Built r) : r.ids.Nodup := by
  induction built with
  | empty => exact List.nodup_nil
  | register _ accepted ih =>
    obtain ⟨_, free, rfl⟩ := register_eq_ok_iff.mp accepted
    rw [ids_append]
    refine List.nodup_append.mpr ⟨ih, List.nodup_singleton _, fun a ha b hb same => free ?_⟩
    rw [List.mem_singleton.mp hb] at same
    exact same ▸ ha

theorem Built.valid {r : Registry} (built : Built r) {rule : Rule} (member : rule ∈ r.rules) :
    rule.definition.fault? = none := by
  induction built with
  | empty => cases member
  | register _ accepted ih =>
    obtain ⟨valid, _, rfl⟩ := register_eq_ok_iff.mp accepted
    rcases List.mem_append.mp member with old | new
    · exact ih old
    · rwa [List.mem_singleton.mp new]

/-- Valid rules with different long ids can be registered one after the other. -/
theorem built_of_valid {rules : List Rule} (valid : ∀ rule ∈ rules, rule.definition.fault? = none)
    (distinct : (ids ⟨rules⟩).Nodup) : Built ⟨rules⟩ := by
  -- the last rule is the one that was registered last
  induction rules using List.reverseRecOn with
  | nil => exact .empty
  | append_singleton rules rule ih =>
    rw [ids_append] at distinct
    obtain ⟨earlier, _, apart⟩ := List.nodup_append.mp distinct
    have free : rule.longId ∉ ids ⟨rules⟩ :=
      fun taken => apart _ taken _ (List.mem_singleton_self _) rfl
    have before : Built ⟨rules⟩ :=
      ih (fun x member => valid x (List.mem_append_left _ member)) earlier
    have last := valid rule (List.mem_append_right _ (List.mem_singleton_self _))
    exact .register before (register_eq_ok_iff.mpr ⟨last, free, rfl⟩)

private theorem registerAll_eq (r : Registry) (rules : List Rule)
    (valid : ∀ rule ∈ rules, rule.definition.fault? = none)
    (nodup : (r.ids ++ rules.map Rule.longId).Nodup) :
    r.registerAll rules = (⟨r.rules ++ rules⟩, none) := by
  induction rules generalizing r with
  | nil => simp [registerAll]
  | cons rule rules ih =>
    have free : rule.longId ∉ r.ids := fun taken =>
      (List.nodup_append.mp nodup).2.2 _ taken _ List.mem_cons_self rfl
    have accepted : r.register rule = .ok ⟨r.rules ++ [rule]⟩ :=
      register_eq_ok_iff.mpr ⟨valid rule List.mem_cons_self, free, rfl⟩
    have rest := ih ⟨r.rules ++ [rule]⟩ (fun x hx => valid x (List.mem_cons_of_mem rule hx))
      (by simpa [ids] using nodup)
    simp only [registerAll, accepted, rest, List.append_assoc, List.singleton_append]

end Registry

private theorem Definition.longId_eq_of_identity {d d' : Definition}
    (same : d.identity = d'.identity) : d.longId = d'.longId := by
  obtain ⟨provider, service, shortCode⟩ := RuleIdentity.mk.inj same
  rw [longId, longId, provider, service, shortCode]

namespace IndexedRegistry

/-- The rules are valid and differ in their long ids, a long id has the place of its rule, and the
identities are those of the rules. -/
structure InStep (r : IndexedRegistry) : Prop where
  valid : ∀ rule ∈ r.rules, rule.definition.fault? = none
  distinct : r.ids.Nodup
  places : ∀ id i, r.places.find? id = some i ↔ ∃ rule, r.rules[i]? = some rule ∧ rule.longId = id
  identities : ∀ t, t ∈ r.identities ↔ ∃ rule ∈ r.rules, rule.definition.identity = t

private theorem inStep_empty : InStep empty where
  valid := by simp [empty, Registry.empty]
  distinct := List.nodup_nil
  places := by simp [empty, Registry.empty, Keyed.find?_empty]
  identities := by simp [empty, Registry.empty]

private theorem getElem?_append_one (rules : List Rule) (rule : Rule) (i : Nat) :
    (rules ++ [rule])[i]? = if i = rules.length then some rule else rules[i]? := by
  rcases Nat.lt_trichotomy i rules.length with inside | rfl | outside
  · rw [List.getElem?_append_left inside, if_neg (Nat.ne_of_lt inside)]
  · simp
  · rw [if_neg (Nat.ne_of_gt outside), List.getElem?_eq_none (Nat.le_of_lt outside),
      List.getElem?_eq_none (by rw [List.length_append]; exact outside)]

variable {r : IndexedRegistry}

namespace InStep

private theorem contains_iff (inStep : r.InStep) {id : String} :
    r.contains id = true ↔ id ∈ r.ids := by
  rw [contains, Option.isSome_iff_exists, Registry.ids, List.mem_map]
  constructor
  · rintro ⟨i, place⟩
    obtain ⟨rule, here, rfl⟩ := (inStep.places id i).mp place
    exact ⟨rule, List.mem_of_getElem? here, rfl⟩
  · rintro ⟨rule, member, rfl⟩
    obtain ⟨i, here⟩ := List.mem_iff_getElem?.mp member
    exact ⟨i, (inStep.places _ i).mpr ⟨rule, here, rfl⟩⟩

theorem find?_eq_some_iff (inStep : r.InStep) {id : String} {rule : Rule} :
    r.find? id = some rule ↔ rule ∈ r.rules ∧ rule.longId = id := by
  rw [find?, Option.bind_eq_some_iff]
  constructor
  · rintro ⟨i, place, here⟩
    obtain ⟨found, there, named⟩ := (inStep.places id i).mp place
    obtain rfl : rule = found := Option.some.inj (here.symm.trans there)
    exact ⟨List.mem_of_getElem? here, named⟩
  · rintro ⟨member, rfl⟩
    obtain ⟨i, here⟩ := List.mem_iff_getElem?.mp member
    exact ⟨i, (inStep.places _ i).mpr ⟨rule, here, rfl⟩, here⟩

private theorem isSome_find? (inStep : r.InStep) (id : String) :
    (r.find? id).isSome = r.contains id := by
  rw [Bool.eq_iff_iff, inStep.contains_iff, Option.isSome_iff_exists, Registry.ids, List.mem_map]
  exact exists_congr fun rule => inStep.find?_eq_some_iff

private theorem register_eq (inStep : r.InStep) (rule : Rule) : r.register rule =
    match rule.definition.fault? with
    | some reason => (r, some (.invalidMetadata rule.longId reason))
    | none => if rule.longId ∈ r.ids then (r, some (.duplicate rule.longId)) else
        (r.add rule, none) := by
  have refuses : (r.identities.contains rule.definition.identity || r.contains rule.longId) = true ↔
      rule.longId ∈ r.ids := by
    rw [Bool.or_eq_true, List.contains_iff_mem, inStep.contains_iff, inStep.identities]
    refine or_iff_right_of_imp ?_
    rintro ⟨other, member, same⟩
    exact List.mem_map.mpr ⟨other, member, Definition.longId_eq_of_identity same⟩
  unfold register
  cases rule.definition.fault? with
  | some reason => rfl
  | none => simp only [refuses]

theorem add {rule : Rule} (inStep : r.InStep) (valid : rule.definition.fault? = none)
    (free : rule.longId ∉ r.ids) : (r.add rule).InStep where
  valid := by
    intro x member
    rcases List.mem_append.mp member with old | new
    · exact inStep.valid x old
    · rwa [List.mem_singleton.mp new]
  distinct := by
    have ids : (r.add rule).ids = r.ids ++ [rule.longId] := Registry.ids_append r.rules [rule]
    rw [ids, List.nodup_append]
    refine ⟨inStep.distinct, List.nodup_singleton _, fun a old b new same => free ?_⟩
    rw [← List.mem_singleton.mp new, ← same]
    exact old
  places := by
    intro id i
    have found : (r.add rule).places.find? id =
        if id = rule.longId then some r.rules.length else r.places.find? id :=
          Keyed.find?_insert _ _ _ _
    have rules : (r.add rule).rules[i]? = if i = r.rules.length then some rule else r.rules[i]? :=
      getElem?_append_one r.rules rule i
    rw [found, rules]
    by_cases own : id = rule.longId
    · subst own
      by_cases last : i = r.rules.length
      · simp [last]
      · have elsewhere : ¬∃ other, r.rules[i]? = some other ∧ other.longId = rule.longId :=
          fun ⟨other, here, same⟩ =>
          free (List.mem_map.mpr ⟨other, List.mem_of_getElem? here, same⟩)
        simpa [last, Ne.symm last] using elsewhere
    · rw [if_neg own, inStep.places]
      by_cases last : i = r.rules.length
      · simp [last, Ne.symm own]
      · rw [if_neg last]
  identities := by
    intro t
    have taken : (r.add rule).identities = r.identities.insert rule.definition.identity := rfl
    have rules : (r.add rule).rules = r.rules ++ [rule] := rfl
    rw [taken, rules, List.mem_insert_iff, inStep.identities]
    simp only [List.mem_append, List.mem_singleton, or_and_right, exists_or, exists_eq_left]
    rw [or_comm, eq_comm]

theorem register (inStep : r.InStep) (rule : Rule) : (r.register rule).1.InStep := by
  rw [inStep.register_eq]
  cases valid : rule.definition.fault? with
  | some reason => exact inStep
  | none =>
    by_cases taken : rule.longId ∈ r.ids
    · simpa only [if_pos taken] using inStep
    · simpa only [if_neg taken] using inStep.add valid taken

end InStep

/-! ### Calls one after the other -/

def after (r : IndexedRegistry) : List Rule → IndexedRegistry
  | [] => r
  | rule :: calls => (r.register rule).1.after calls

/-- The rules of the calls that succeed, in call order. -/
def accepted (r : IndexedRegistry) : List Rule → List Rule
  | [] => []
  | rule :: calls =>
    match r.register rule with
    | (r, none) => rule :: r.accepted calls
    | (r, some _) => r.accepted calls

theorem InStep.after (inStep : r.InStep) (calls : List Rule) : (r.after calls).InStep := by
  induction calls generalizing r with
  | nil => exact inStep
  | cons rule calls ih => exact ih (inStep.register rule)

private theorem register_cases (r : IndexedRegistry) (rule : Rule) :
    (∃ e, r.register rule = (r, some e)) ∨ r.register rule = (r.add rule, none) := by
  unfold register
  split
  · exact .inl ⟨_, rfl⟩
  · split
    · exact .inl ⟨_, rfl⟩
    · exact .inr rfl

private theorem rules_after (r : IndexedRegistry) (calls : List Rule) :
    (r.after calls).rules = r.rules ++ r.accepted calls := by
  induction calls generalizing r with
  | nil => simp [after, accepted]
  | cons rule calls ih =>
    rw [after, accepted]
    rcases r.register_cases rule with ⟨e, refused⟩ | added
    · simp only [refused, ih]
    · simp only [added, ih]
      exact List.append_assoc r.rules [rule] _

/-! ### What scans read -/

private theorem InStep.toRegistry_register (inStep : r.InStep) (rule : Rule) :
    r.toRegistry.register rule =
    match r.register rule with
    | (r', none) => .ok r'.toRegistry
    | (_, some e) => .error e := by
  rw [inStep.register_eq]
  unfold Registry.register
  cases rule.definition.fault? with
  | some reason => rfl
  | none =>
    by_cases taken : rule.longId ∈ r.ids
    · simp [Registry.contains, taken]
    · simp [Registry.contains, taken, IndexedRegistry.add]

theorem InStep.built (inStep : r.InStep) : r.toRegistry.Built :=
  Registry.built_of_valid inStep.valid inStep.distinct

private theorem registerAll_eq_none {r' : IndexedRegistry} {rules : List Rule}
    (whole : r.registerAll rules = (r', none)) : r' = r.after rules ∧ r.accepted rules = rules := by
  induction rules generalizing r with
  | nil => exact ⟨(congrArg Prod.fst whole).symm, rfl⟩
  | cons rule rules ih =>
    rw [registerAll] at whole
    rcases r.register_cases rule with ⟨e, refused⟩ | added
    · rw [refused] at whole
      cases whole
    · rw [added] at whole
      obtain ⟨same, all⟩ := ih whole
      rw [after, accepted]
      simp only [added, all]
      exact ⟨same, trivial⟩

theorem registerAll_empty {rules : List Rule} (whole : empty.registerAll rules = (r, none)) :
    r.toRegistry.Built ∧ r.rules = rules := by
  obtain ⟨rfl, all⟩ := registerAll_eq_none whole
  exact ⟨(inStep_empty.after rules).built, (rules_after empty rules).trans all⟩

private theorem InStep.toRegistry_registerAll (inStep : r.InStep) (rules : List Rule) :
    r.toRegistry.registerAll rules =
      ((r.registerAll rules).1.toRegistry, (r.registerAll rules).2) := by
  induction rules generalizing r with
  | nil => rfl
  | cons rule rules ih =>
    rw [Registry.registerAll, registerAll, inStep.toRegistry_register]
    have next := inStep.register rule
    rcases r.register_cases rule with ⟨e, refused⟩ | added
    · rw [refused]
    · rw [added] at next ⊢
      exact ih next

theorem ofRules_eq {rules : List Rule} (valid : ∀ rule ∈ rules, rule.definition.fault? = none)
    (nodup : (rules.map Rule.longId).Nodup) : (ofRules rules).toRegistry = ⟨rules⟩ := by
  have same := inStep_empty.toRegistry_registerAll rules
  have all := Registry.registerAll_eq .empty rules valid
    (by simpa [Registry.ids, Registry.empty] using nodup)
  exact congrArg Prod.fst (same.symm.trans all)

/-! ### The contract -/

structure Answers (r : IndexedRegistry) (rule : Rule) : Prop where
  accepted_iff : (r.register rule).2 = none ↔
    rule.definition.fault? = none ∧ ∀ other ∈ r.rules, other.longId ≠ rule.longId
  invalid : ∀ reason, rule.definition.fault? = some reason →
    r.register rule = (r, some (.invalidMetadata rule.longId reason))
  duplicate : rule.definition.fault? = none → (∃ other ∈ r.rules, other.longId = rule.longId) →
    r.register rule = (r, some (.duplicate rule.longId))
  unchanged : (r.register rule).2 ≠ none → (r.register rule).1 = r
  appended : (r.register rule).2 = none → (r.register rule).1.rules = r.rules ++ [rule]
  /-- No other lookup changes. -/
  lookups : ∀ id ≠ rule.longId, (r.register rule).1.find? id = r.find? id ∧
    (r.register rule).1.contains id = r.contains id

private theorem mem_ids_iff {id : String} :
    id ∈ r.ids ↔ ∃ other ∈ r.rules, other.longId = id := List.mem_map

private theorem InStep.lookup_add {rule : Rule} (inStep : r.InStep) (extended : (r.add rule).InStep)
    {id : String} (other : id ≠ rule.longId) : (r.add rule).find? id = r.find? id := by
  refine Option.ext fun found => ?_
  rw [inStep.find?_eq_some_iff, extended.find?_eq_some_iff]
  have rules : (r.add rule).rules = r.rules ++ [rule] := rfl
  rw [rules, List.mem_append, List.mem_singleton]
  refine and_congr_left fun named => or_iff_left ?_
  rintro rfl
  exact other named.symm

private theorem InStep.answers (inStep : r.InStep) (rule : Rule) : r.Answers rule where
  accepted_iff := by
    rw [inStep.register_eq]
    cases rule.definition.fault? with
    | some reason => simp
    | none =>
      by_cases taken : rule.longId ∈ r.ids
      · obtain ⟨other, member, same⟩ := mem_ids_iff.mp taken
        simp only [if_pos taken, reduceCtorEq, true_and, false_iff]
        exact fun free => free other member same
      · simp only [if_neg taken, true_and, true_iff]
        exact fun other member same => taken (mem_ids_iff.mpr ⟨other, member, same⟩)
  invalid := by
    intro reason fault
    rw [inStep.register_eq, fault]
  duplicate := by
    intro valid taken
    rw [inStep.register_eq, valid]
    exact if_pos (mem_ids_iff.mpr taken)
  unchanged := by
    intro refused
    rcases r.register_cases rule with ⟨e, same⟩ | added
    · rw [same]
    · rw [added] at refused
      exact absurd rfl refused
  appended := by
    intro accepted
    rcases r.register_cases rule with ⟨e, refused⟩ | added
    · rw [refused] at accepted
      cases accepted
    · rw [added]
      rfl
  lookups := by
    intro id other
    have next := inStep.register rule
    rw [← inStep.isSome_find?, ← next.isSome_find?]
    suffices same : (r.register rule).1.find? id = r.find? id from ⟨same, by rw [same]⟩
    rcases r.register_cases rule with ⟨e, refused⟩ | added
    · rw [refused]
    · rw [added] at next ⊢
      exact inStep.lookup_add next other

structure Registered (calls : List Rule) (r : IndexedRegistry) : Prop where
  inStep : r.InStep
  built : r.toRegistry.Built
  rules : r.rules = accepted empty calls
  ids : r.ids = (accepted empty calls).map Rule.longId
  size : r.size = (accepted empty calls).length
  found : ∀ id rule, r.find? id = some rule ↔ rule ∈ r.rules ∧ rule.longId = id
  contains : ∀ id, r.contains id = (r.find? id).isSome
  next : ∀ rule, r.Answers rule

/-- After any calls on a new registry, rules, places and identities are in step, the accepted rules
stand in call order and are found by their long ids, and the next call is answered by these
alone. -/
theorem registrations_in_step (calls : List Rule) : Registered calls (after empty calls) where
  inStep := inStep_empty.after calls
  built := (inStep_empty.after calls).built
  rules := rules_after empty calls
  ids := congrArg (List.map Rule.longId) (rules_after empty calls)
  size := congrArg List.length (rules_after empty calls)
  found := fun _ _ => (inStep_empty.after calls).find?_eq_some_iff
  contains := fun id => ((inStep_empty.after calls).isSome_find? id).symm
  next := (inStep_empty.after calls).answers

/-- The code `c` of a service `a-b` leaves no room for the code `b-c` of a service `a`. -/
example :
    ((after empty [.ofFindings ⟨.aws, "a-b", "c", "-", "-", "-", "-", [], .low⟩ fun _ =>
      []]).register (.ofFindings ⟨.aws, "a", "b-c", "-", "-", "-", "-", [], .low⟩ fun _ => [])).2 =
    some (.duplicate "aws-a-b-c") := by decide

end IndexedRegistry

end CloudPolicy
