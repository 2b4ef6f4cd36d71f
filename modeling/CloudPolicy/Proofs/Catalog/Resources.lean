import CloudPolicy.Proofs.Catalog.Builtin
import CloudPolicy.Proofs.Evaluation.Isolation
import CloudPolicy.Proofs.Ignore
import Mathlib.Data.List.Flatten

/-!
The places of one resource, and the resources that a state counts: each block is visited once in its
place, with the bucket that it is declared in.
-/

set_option autoImplicit false
set_option relaxedAutoImplicit false

namespace CloudPolicy

/-- A resource of a state. A block inside a bucket belongs to the bucket. -/
inductive Resource where
  | bucket (b : Bucket)
  | accessBlock (p : AccessBlock)
  | trail (t : Trail)

namespace Resource

def metadata : Resource → Metadata
  | bucket b => b.metadata
  | accessBlock p => p.metadata
  | trail t => t.metadata

def inlineBlock? : Resource → Option AccessBlock
  | bucket b => b.accessBlock
  | accessBlock _ | trail _ => none

def ListedIn : Resource → State → Prop
  | bucket b, s => b ∈ s.storage.buckets
  | accessBlock p, s => p ∈ s.storage.accessBlocks
  | trail t, s => t ∈ s.trails

/-- The state that lists nothing else. -/
def only : Resource → State
  | bucket b => { storage := { buckets := [b] } }
  | accessBlock p => { storage := { accessBlocks := [p] } }
  | trail t => { trails := [t] }

end Resource

/-- The resources of `s` are some of those of `s'`. -/
structure State.PartOf (s s' : State) : Prop where
  buckets : s.storage.buckets.Sublist s'.storage.buckets
  accessBlocks : s.storage.accessBlocks.Sublist s'.storage.accessBlocks
  trails : s.trails.Sublist s'.trails

theorem Resource.only_partOf {x : Resource} {s : State} (listed : x.ListedIn s) :
    x.only.PartOf s := by
  cases x with
  | bucket b => exact ⟨List.singleton_sublist.mpr listed, List.nil_sublist _, List.nil_sublist _⟩
  | accessBlock p => exact ⟨List.nil_sublist _, List.singleton_sublist.mpr listed,
      List.nil_sublist _⟩
  | trail t => exact ⟨List.nil_sublist _, List.nil_sublist _, List.singleton_sublist.mpr listed⟩

namespace Catalog

namespace Concern

variable (c : Concern)

private theorem sites_sublist {s s' : State} (part : s.PartOf s') :
    (c.sites s).Sublist (c.sites s') := by
  cases c with
  | bucket flag setting => exact part.buckets.map _
  | trail flag => exact part.trails.map _
  | block flag => exact (part.accessBlocks.map _).append (part.buckets.flatMap _)

theorem offenders_sublist {s s' : State} (part : s.PartOf s') :
    (c.offenders s).Sublist (c.offenders s') :=
  (c.sites_sublist part).filter _

end Concern

private theorem Site.name_of_names {site : Site} {n : String} {ns : List String}
    (names : site.names = n :: ns) :
    site.name = if n = "" then Site.name { site with names := ns } else n := by
  by_cases empty : n = "" <;> simp [name, names, empty]

variable {c : Concern} {x : Resource} {site : Site}

/-- The places of a concern in one resource: a flag of the resource itself, or of the block inside
of it. -/
inductive Concern.SiteOf : Concern → Resource → Site → Prop
  | bucket {flag : Bucket → Managed Bool} {setting : Bucket → Metadata} {b : Bucket} :
      SiteOf (.bucket flag setting) (.bucket b)
        ⟨flag b, [setting b, b.metadata], [b.metadata.effectiveReference, b.name.value]⟩
  | trail {flag : Trail → Managed Bool} {t : Trail} :
      SiteOf (.trail flag) (.trail t) ⟨flag t, [t.metadata],
        [t.metadata.effectiveReference, t.name.value]⟩
  | standalone {flag : AccessBlock → Managed Bool} {p : AccessBlock} :
      SiteOf (.block flag) (.accessBlock p)
        ⟨flag p, [p.metadata], [p.metadata.effectiveReference, p.bucket.value]⟩
  | inside {flag : AccessBlock → Managed Bool} {b : Bucket} {p : AccessBlock} : p ∈ b.accessBlock →
      SiteOf (.block flag) (.bucket b)
        ⟨flag p, [p.metadata, b.metadata],
          [p.metadata.effectiveReference, b.metadata.effectiveReference, b.name.value]⟩

theorem Concern.siteOf_of_mem (member : site ∈ c.sites x.only) : c.SiteOf x site := by
  cases c with
  | bucket flag setting =>
    obtain ⟨b, here, rfl⟩ := List.mem_map.mp member
    cases x with
    | bucket b' =>
      obtain rfl := List.mem_singleton.mp here
      exact .bucket
    | accessBlock p => nomatch here
    | trail t => nomatch here
  | trail flag =>
    obtain ⟨t, here, rfl⟩ := List.mem_map.mp member
    cases x with
    | bucket b => nomatch here
    | accessBlock p => nomatch here
    | trail t' =>
      obtain rfl := List.mem_singleton.mp here
      exact .trail
  | block flag =>
    cases x with
    | bucket b =>
      obtain ⟨b', here, inside⟩ := List.mem_flatMap.mp member
      obtain ⟨p, block, rfl⟩ := List.mem_map.mp inside
      obtain rfl := List.mem_singleton.mp here
      exact .inside (Option.mem_toList.mp block)
    | accessBlock p =>
      obtain rfl := List.mem_singleton.mp member
      exact .standalone
    | trail t => nomatch member

private theorem Concern.names_of_mem_sites (member : site ∈ c.sites x.only) :
    (∃ ns, site.names = x.metadata.effectiveReference :: ns) ∨
    ∃ p ∈ x.inlineBlock?, ∃ ns,
      site.names = p.metadata.effectiveReference :: x.metadata.effectiveReference :: ns := by
  cases siteOf_of_mem member with
  | bucket => exact .inl ⟨_, rfl⟩
  | trail => exact .inl ⟨_, rfl⟩
  | standalone => exact .inl ⟨_, rfl⟩
  | inside block => exact .inr ⟨_, block, _, rfl⟩

theorem Concern.name_of_referenced (member : site ∈ c.sites x.only)
    (given : x.metadata.reference ≠ "") :
    site.name = x.metadata.reference ∨
    ∃ p ∈ x.inlineBlock?, site.name = p.metadata.effectiveReference := by
  have nearest := x.metadata.effectiveReference_eq_reference given
  rcases c.names_of_mem_sites member with ⟨ns, names⟩ | ⟨p, inside, ns, names⟩ <;>
    rw [nearest] at names
  · exact .inl ((Site.name_of_names names).trans (if_neg given))
  · by_cases empty : p.metadata.effectiveReference = ""
    · left
      rw [Site.name_of_names names, if_pos empty, Site.name_of_names rfl, if_neg given]
    · exact .inr ⟨p, inside, (Site.name_of_names names).trans (if_neg empty)⟩

end Catalog

/-- Where a block stands: by its position among the standalone ones, or by that of the bucket around
it. -/
inductive BlockPlace where
  | standalone (i : Nat)
  | inside (j : Nat)
  deriving DecidableEq, Repr

namespace BlockPlace

/-- The block that stands in a place of a state, with the bucket around it. -/
inductive Holds (s : State) : BlockPlace → AccessBlock × Option Bucket → Prop where
  | standalone {i : Nat} {p : AccessBlock} : s.storage.accessBlocks[i]? = some p →
      Holds s (.standalone i) (p, none)
  | inside {j : Nat} {b : Bucket} {p : AccessBlock} : s.storage.buckets[j]? = some b →
      b.accessBlock = some p → Holds s (.inside j) (p, some b)

/-- Standalone blocks come before those inside buckets, and each group is in the order of its
list. -/
inductive Before : BlockPlace → BlockPlace → Prop where
  | standalone {i i' : Nat} : i < i' → Before (.standalone i) (.standalone i')
  | across {i j : Nat} : Before (.standalone i) (.inside j)
  | inside {j j' : Nat} : j < j' → Before (.inside j) (.inside j')

theorem Before.ne {place place' : BlockPlace} (before : place.Before place') : place ≠ place' := by
  rintro rfl
  cases before with
  | standalone less => exact absurd less (Nat.lt_irrefl _)
  | inside less => exact absurd less (Nat.lt_irrefl _)

end BlockPlace

/-- A visit to a place, and what is met there. -/
abbrev BlockVisit : Type := BlockPlace × (AccessBlock × Option Bucket)

/-- The visits meet every block of the state in its place, none of them twice, and in order. -/
structure State.Tour (s : State) (visits : List BlockVisit) : Prop where
  met : ∀ place x, (place, x) ∈ visits ↔ place.Holds s x
  once : (visits.map Prod.fst).Nodup
  ordered : (visits.map Prod.fst).Pairwise BlockPlace.Before

namespace State

variable (s : State)

def standaloneVisits : List BlockVisit :=
  s.storage.accessBlocks.zipIdx.map fun e => (.standalone e.2, (e.1, none))

def insideVisits : List BlockVisit :=
  s.storage.buckets.zipIdx.filterMap fun e => e.1.accessBlock.map fun p =>
  (.inside e.2, (p, some e.1))

private theorem mem_standaloneVisits_iff {v : BlockVisit} : v ∈ s.standaloneVisits ↔
    ∃ i p, s.storage.accessBlocks[i]? = some p ∧ v = (.standalone i, (p, none)) := by
  rw [standaloneVisits, List.mem_map]
  constructor
  · rintro ⟨⟨p, i⟩, here, rfl⟩
    exact ⟨i, p, List.mem_zipIdx_iff_getElem?.mp here, rfl⟩
  · rintro ⟨i, p, here, rfl⟩
    exact ⟨(p, i), List.mem_zipIdx_iff_getElem?.mpr here, rfl⟩

private theorem mem_insideVisits_iff {v : BlockVisit} : v ∈ s.insideVisits ↔
    ∃ j b p, s.storage.buckets[j]? = some b ∧ b.accessBlock = some p ∧
      v = (.inside j, (p, some b)) := by
  rw [insideVisits, List.mem_filterMap]
  constructor
  · rintro ⟨⟨b, j⟩, here, declared⟩
    obtain ⟨p, block, rfl⟩ := Option.map_eq_some_iff.mp declared
    exact ⟨j, b, p, List.mem_zipIdx_iff_getElem?.mp here, block, rfl⟩
  · rintro ⟨j, b, p, here, block, rfl⟩
    exact ⟨(b, j), List.mem_zipIdx_iff_getElem?.mpr here, by rw [block]; rfl⟩

private theorem mem_visits_iff (place : BlockPlace) (x : AccessBlock × Option Bucket) :
    (place, x) ∈ s.standaloneVisits ++ s.insideVisits ↔ place.Holds s x := by
  rw [List.mem_append, mem_standaloneVisits_iff, mem_insideVisits_iff]
  constructor
  · rintro (⟨i, p, here, same⟩ | ⟨j, b, p, here, block, same⟩) <;> cases same
    · exact .standalone here
    · exact .inside here block
  · intro holds
    cases holds with
    | standalone here => exact .inl ⟨_, _, here, rfl⟩
    | inside here block => exact .inr ⟨_, _, _, here, block, rfl⟩

private theorem zipIdx_ascending {α : Type} (xs : List α) :
    xs.zipIdx.Pairwise fun e f => e.2 < f.2 := by
  have positions : (xs.zipIdx.map Prod.snd).Pairwise (· < ·) := by
    rw [List.zipIdx_map_snd]
    exact List.pairwise_lt_range'
  exact List.pairwise_map.mp positions

private theorem tour : s.Tour (s.standaloneVisits ++ s.insideVisits) := by
  have standalone : s.standaloneVisits.Pairwise fun v w => v.1.Before w.1 :=
    List.pairwise_map.mpr ((zipIdx_ascending _).imp .standalone)
  have inside : s.insideVisits.Pairwise fun v w => v.1.Before w.1 := by
    refine (zipIdx_ascending _).filterMap _ fun e f less v here w there => ?_
    obtain ⟨p, -, rfl⟩ := Option.map_eq_some_iff.mp here
    obtain ⟨q, -, rfl⟩ := Option.map_eq_some_iff.mp there
    exact .inside less
  have across : ∀ v ∈ s.standaloneVisits, ∀ w ∈ s.insideVisits, v.1.Before w.1 := by
    intro v first w second
    obtain ⟨i, p, -, rfl⟩ := s.mem_standaloneVisits_iff.mp first
    obtain ⟨j, b, q, -, -, rfl⟩ := s.mem_insideVisits_iff.mp second
    exact .across
  have ordered := List.pairwise_map.mpr (List.pairwise_append.mpr ⟨standalone, inside, across⟩)
  exact ⟨s.mem_visits_iff, ordered.imp BlockPlace.Before.ne, ordered⟩

private theorem map_snd_visits :
    (s.standaloneVisits ++ s.insideVisits).map Prod.snd = s.accessBlocks := by
  have standalone : s.standaloneVisits.map Prod.snd = s.storage.accessBlocks.map (·, none) := by
    conv_rhs => rw [← List.zipIdx_map_fst 0 s.storage.accessBlocks]
    rw [standaloneVisits, List.map_map, List.map_map]
    rfl
  have inside : s.insideVisits.map Prod.snd =
      s.storage.buckets.filterMap fun b => b.accessBlock.map (·, some b) := by
    conv_rhs => rw [← List.zipIdx_map_fst 0 s.storage.buckets]
    rw [insideVisits, List.map_filterMap, List.filterMap_map]
    simp only [Option.map_map, Function.comp_def]
  rw [List.map_append, standalone, inside, accessBlocks]

/-- A state counts its buckets, the blocks that are visited and its trails. -/
private theorem resourceCount_eq_visited :
    s.resourceCount = s.storage.buckets.length + s.accessBlocks.length + s.trails.length := by
  have inside : (s.storage.buckets.filterMap fun b => b.accessBlock.map (·, some b)).length =
      (s.storage.buckets.filter (·.accessBlock.isSome)).length := by
    simp only [List.length_filterMap_eq_countP, List.countP_eq_length_filter, Option.isSome_map]
  rw [resourceCount, Storage.resourceCount, accessBlocks, List.length_append,
    List.length_map, inside]
  omega

end State

namespace Catalog

private theorem Concern.length_sites_le (c : Concern) (s : State) :
    (c.sites s).length ≤ s.resourceCount := by
  rw [s.resourceCount_eq_visited]
  cases c with
  | bucket flag setting =>
    rw [sites, List.length_map]
    omega
  | trail flag =>
    rw [sites, List.length_map]
    omega
  | block flag =>
    rw [length_sites_block]
    omega

def passOf (rule : Rule) : Result :=
  ⟨.passed, rule.definition, rule.definition.summary, none, false⟩

section

variable {rule : Rule} (builtin : rule ∈ registry.rules) (s : State)
include builtin

private theorem exists_findings_le :
    ∃ found, rule.check s = { outcome := .findings found } ∧ found.length ≤ s.resourceCount := by
  rw [registry_eq] at builtin
  obtain ⟨b, -, rfl⟩ := List.mem_map.mp builtin
  refine ⟨_, b.reportsOffenders s, ?_⟩
  rw [List.length_map]
  exact Nat.le_trans (List.length_filter_le _ _) (b.concern.length_sites_le s)

private theorem alone_of_isEmpty {s : State} (empty : s.isEmpty = true)
    (suppressor : Option Suppressor) : Evaluation.alone suppressor s rule = [passOf rule] := by
  obtain ⟨found, ended, bound⟩ := exists_findings_le builtin s
  rw [beq_iff_eq.mp empty, Nat.le_zero, List.length_eq_zero_iff] at bound
  rw [Evaluation.alone_eq_classify, ended, bound]
  rfl

end

private theorem uncancelled_iff_of_isEmpty {s : State} (empty : s.isEmpty = true)
    {chosen : List Rule} (builtin : chosen ⊆ registry.rules) (suppressor : Option Suppressor)
    (parallel : Bool) (e : Evaluation) :
    Evaluation.Uncancelled suppressor s chosen parallel e ↔ e = ⟨chosen.map passOf, []⟩ := by
  have passes : chosen.flatMap (Evaluation.alone suppressor s) = chosen.map passOf := by
    rw [← List.flatMap_singleton' (chosen.map passOf), List.flatMap_map]
    exact List.flatMap_congr fun rule member => alone_of_isEmpty (builtin member) empty suppressor
  rw [← passes]
  refine ⟨Evaluation.Uncancelled.eq, ?_⟩
  rintro rfl
  obtain ⟨e, calm⟩ := Evaluation.exists_uncancelled suppressor s chosen parallel
  rwa [← calm.eq]

/-- A state counts its buckets, the blocks that are visited and its trails, and the visits meet each
block once, in its place. A built-in rule has no more findings than there are resources, and passes
where there are none. -/
theorem resources_visited (s : State) :
    s.resourceCount = s.storage.buckets.length + s.accessBlocks.length + s.trails.length ∧
    (∃ visits, s.Tour visits ∧ visits.map Prod.snd = s.accessBlocks) ∧
    (∀ rule ∈ registry.rules, ∃ found,
      rule.check s = { outcome := .findings found } ∧ found.length ≤ s.resourceCount) ∧
    (s.isEmpty = true → ∀ chosen ⊆ registry.rules, ∀ suppressor parallel e,
      Evaluation.Uncancelled suppressor s chosen parallel e ↔ e = ⟨chosen.map passOf, []⟩) :=
  ⟨s.resourceCount_eq_visited, ⟨_, s.tour, s.map_snd_visits⟩, fun _ builtin =>
    exists_findings_le builtin s, fun empty _ builtin => uncancelled_iff_of_isEmpty empty builtin⟩

/-- A bucket with a block inside, one without, a standalone block and a trail. -/
def mixedState : State :=
  { storage := { buckets := [{ accessBlock := some {} }, {}], accessBlocks := [{}] },
    trails := [{}] }

theorem resources_visited_mixed :
    (mixedState.resourceCount = 5 ∧
      (∃ visits, mixedState.Tour visits ∧
        visits.map Prod.snd = [({}, none), ({}, some { accessBlock := some {} })]) ∧
      ∃ found, enableVersioning.check mixedState = { outcome := .findings found } ∧
        found.length ≤ 5) ∧
    Evaluation.Uncancelled none {} registry.rules true ⟨registry.rules.map passOf, []⟩ := by
  obtain ⟨-, visited, bounded, -⟩ := resources_visited mixedState
  obtain ⟨-, -, -, passing⟩ := resources_visited {}
  refine ⟨⟨rfl, visited, bounded enableVersioning ?_⟩, ?_⟩
  · rw [registry_eq]
    exact List.mem_cons_self
  · exact (passing rfl _ (List.Subset.refl _) none true _).mpr rfl

end Catalog

end CloudPolicy
