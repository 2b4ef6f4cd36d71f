import CloudPolicy.State
import Mathlib.Data.List.Chain

/-!
The walks out of a node. The breadcrumbs, the root and the nearest reference are three readings of
one chain, which goes from a node to the one that encloses it until nothing does; what they give is
settled by `parent?` alone. Nodes that are put one into the other are met again in their order,
whatever enclosed them before.
-/

set_option autoImplicit false
set_option relaxedAutoImplicit false

namespace CloudPolicy.Metadata

/-- The first of the crumbs that has a reference. -/
def FirstNamed (crumbs : List Metadata) (crumb : Metadata) : Prop :=
  crumb.reference ≠ "" ∧ ∃ inner outer, crumbs = inner ++ crumb :: outer ∧
  ∀ c ∈ inner, c.reference = ""

/-- What the walks from a node come to: the nodes on the way, the last of them and the nearest
reference. -/
structure Walked (m : Metadata) (crumbs : List Metadata) (top : Metadata)
    (ref : String) : Prop where
  starts : crumbs.head? = some m
  ends : crumbs.getLast? = some top
  unenclosed : top.parent? = none
  outwards : crumbs.IsChain fun inner outer => inner.parent? = some outer
  nearest : ∀ crumb, FirstNamed crumbs crumb → ref = crumb.reference
  blank : ref = "" ↔ ∀ c ∈ crumbs, c.reference = ""

/-- The node put into the first of the others, after that one was put into the next, and so on. -/
def nested (m : Metadata) : List Metadata → Metadata
  | [] => m
  | p :: ps => m.withParent (nested p ps)

variable {m p top crumb : Metadata} {crumbs : List Metadata} {ref : String}

/-! ### One step outwards -/

private theorem origin_withParent (m p : Metadata) : (m.withParent p).origin = m.origin := rfl

private theorem withParent_of_inside (inside : m.parent? = some p) : m.withParent p = m := by
  obtain ⟨o, os⟩ := m
  cases os with
  | nil => cases inside
  | cons q qs =>
    cases inside
    rfl

private theorem parent?_eq_none_iff : m.parent? = none ↔ m.ancestors = [] := by
  obtain ⟨o, os⟩ := m
  cases os <;> simp [parent?]

/-- What holds of nodes that nothing encloses, and of a node whenever it holds of the enclosing one,
holds of all. -/
@[elab_as_elim]
private theorem outwardInduction {motive : Metadata → Prop}
    (outermost : ∀ m, m.parent? = none → motive m)
    (inside : ∀ m p, m.parent? = some p → motive p → motive m) (m : Metadata) : motive m := by
  obtain ⟨o, os⟩ := m
  induction os generalizing o with
  | nil => exact outermost ⟨o, []⟩ rfl
  | cons p ps ih => exact inside ⟨o, p :: ps⟩ ⟨p, ps⟩ rfl (ih p)

private theorem breadcrumbs_of_outermost (outermost : m.parent? = none) : m.breadcrumbs = [m] := by
  obtain ⟨o, os⟩ := m
  obtain rfl : os = [] := parent?_eq_none_iff.mp outermost
  rfl

private theorem breadcrumbs_withParent (m p : Metadata) :
    (m.withParent p).breadcrumbs = m.withParent p :: p.breadcrumbs := rfl

private theorem breadcrumbs_of_inside (inside : m.parent? = some p) :
    m.breadcrumbs = m :: p.breadcrumbs := by
  rw [← withParent_of_inside inside, breadcrumbs_withParent]

private theorem root_of_outermost (outermost : m.parent? = none) : m.root = m := by
  obtain ⟨o, os⟩ := m
  obtain rfl : os = [] := parent?_eq_none_iff.mp outermost
  rfl

private theorem root_of_inside (inside : m.parent? = some p) : m.root = p.root := by
  rw [← withParent_of_inside inside]
  rfl

/-! ### Whole walks -/

private theorem parent?_root (m : Metadata) : m.root.parent? = none := by
  induction m using outwardInduction with
  | outermost m outermost => rwa [root_of_outermost outermost]
  | inside m p inside ih => rwa [root_of_inside inside]

private theorem head?_breadcrumbs (m : Metadata) : m.breadcrumbs.head? = some m := by
  cases enclosing : m.parent? with
  | none => rw [breadcrumbs_of_outermost enclosing, List.head?_cons]
  | some p => rw [breadcrumbs_of_inside enclosing, List.head?_cons]

private theorem getLast?_breadcrumbs (m : Metadata) : m.breadcrumbs.getLast? = some m.root := by
  induction m using outwardInduction with
  | outermost m outermost =>
    rw [breadcrumbs_of_outermost outermost, root_of_outermost outermost, List.getLast?_singleton]
  | inside m p inside ih =>
    rw [breadcrumbs_of_inside inside, root_of_inside inside, List.getLast?_cons,
      ih, Option.getD_some]

private theorem isChain_breadcrumbs (m : Metadata) :
    m.breadcrumbs.IsChain fun inner outer => inner.parent? = some outer := by
  induction m using outwardInduction with
  | outermost m outermost =>
    rw [breadcrumbs_of_outermost outermost]
    exact List.isChain_singleton m
  | inside m p inside ih =>
    rw [breadcrumbs_of_inside inside, List.isChain_cons, head?_breadcrumbs]
    refine ⟨fun outer next => ?_, ih⟩
    rwa [← Option.some.inj next]

theorem origins_breadcrumbs (m : Metadata) :
    m.breadcrumbs.map origin = m.origin :: m.ancestors := by
  induction m using outwardInduction with
  | outermost m outermost =>
    rw [breadcrumbs_of_outermost outermost, parent?_eq_none_iff.mp outermost, List.map_singleton]
  | inside m p inside ih =>
    rw [breadcrumbs_of_inside inside, List.map_cons, ih, ← withParent_of_inside inside]
    rfl

/-- No other nodes lead from a node outwards to one that nothing encloses. -/
private theorem eq_breadcrumbs (starts : crumbs.head? = some m) (ends : crumbs.getLast? = some top)
    (unenclosed : top.parent? = none)
    (outwards : crumbs.IsChain fun inner outer => inner.parent? = some outer) :
    crumbs = m.breadcrumbs := by
  obtain ⟨rest, rfl⟩ := List.head?_eq_some_iff.mp starts
  clear starts
  -- on the crumbs, since the chain says at each of them whether the walk goes on from there
  induction rest generalizing m with
  | nil =>
    obtain rfl : m = top := Option.some.inj ends
    rw [breadcrumbs_of_outermost unenclosed]
  | cons p rest ih =>
    obtain ⟨inside, onwards⟩ := List.isChain_cons_cons.mp outwards
    rw [List.getLast?_cons_cons] at ends
    rw [breadcrumbs_of_inside inside, ih ends onwards]

private theorem find?_eq_some_iff_firstNamed :
    crumbs.find? (·.reference != "") = some crumb ↔ FirstNamed crumbs crumb := by
  simp [List.find?_eq_some_iff_append, FirstNamed]

private theorem effectiveReference_eq_find? (m : Metadata) :
    m.effectiveReference = ((m.breadcrumbs.find? (·.reference != "")).map reference).getD "" := by
  rw [effectiveReference, List.find?_map]
  rfl

private theorem eq_reference_find?_iff :
    ref = ((crumbs.find? (·.reference != "")).map reference).getD "" ↔
    (∀ crumb, FirstNamed crumbs crumb → ref = crumb.reference) ∧
    (ref = "" ↔ ∀ c ∈ crumbs, c.reference = "") := by
  simp only [← find?_eq_some_iff_firstNamed]
  cases found : crumbs.find? (·.reference != "") with
  | none =>
    have blank : ∀ c ∈ crumbs, c.reference = "" := by simpa using List.find?_eq_none.mp found
    exact ⟨fun empty => ⟨nofun, iff_of_true empty blank⟩, fun settled => settled.2.mpr blank⟩
  | some crumb =>
    have given : crumb.reference ≠ "" := (find?_eq_some_iff_firstNamed.mp found).1
    have named : ¬ ∀ c ∈ crumbs, c.reference = "" := fun blank =>
      given (blank crumb (List.mem_of_find?_eq_some found))
    constructor
    · rintro rfl
      exact ⟨fun other same => congrArg reference (Option.some.inj same), iff_of_false given named⟩
    · rintro ⟨nearest, -⟩
      exact nearest crumb rfl

private theorem walked_iff :
    m.Walked crumbs top ref ↔ crumbs = m.breadcrumbs ∧ top = m.root ∧
      ref = m.effectiveReference := by
  rw [effectiveReference_eq_find?]
  constructor
  · intro walked
    obtain rfl := eq_breadcrumbs walked.starts walked.ends walked.unenclosed walked.outwards
    have last := walked.ends.symm.trans m.getLast?_breadcrumbs
    exact ⟨rfl, Option.some.inj last, eq_reference_find?_iff.mpr ⟨walked.nearest, walked.blank⟩⟩
  · rintro ⟨rfl, rfl, found⟩
    obtain ⟨nearest, blank⟩ := eq_reference_find?_iff.mp found
    exact ⟨m.head?_breadcrumbs, m.getLast?_breadcrumbs, m.parent?_root,
      m.isChain_breadcrumbs, nearest, blank⟩

private theorem origins_breadcrumbs_nested (m : Metadata) (outer : List Metadata) :
    (nested m outer).breadcrumbs.map origin =
      (m :: outer).map origin ++ (outer.getLastD m).ancestors := by
  induction outer generalizing m with
  | nil => exact origins_breadcrumbs m
  | cons p ps ih =>
    rw [nested, breadcrumbs_withParent, List.map_cons, origin_withParent, ih, List.getLastD_cons]
    rfl

/-- The breadcrumbs, the root and the nearest reference of a node are what walks by `parent?` come
to, and nothing else is. Nodes that are put one into the other are, by range, reference and managed
flag, the breadcrumbs of the innermost exactly if nothing enclosed the outermost. -/
theorem walks_agree :
    (∀ m crumbs top ref, Walked m crumbs top ref ↔
      crumbs = m.breadcrumbs ∧ top = m.root ∧ ref = m.effectiveReference) ∧
    ∀ m outer, (nested m outer).breadcrumbs.map origin = (m :: outer).map origin ↔
      (outer.getLastD m).parent? = none := by
  refine ⟨fun m crumbs top ref => walked_iff, fun m outer => ?_⟩
  rw [origins_breadcrumbs_nested, List.append_right_eq_self, parent?_eq_none_iff]

/-- A flag and its block, both in other places before they are put into a bucket. -/
theorem walks_agree_moved :
    let bucket := declared (.ofLines (.ofText "main.tf") 1 9) "aws_s3_bucket.logs"
    let block := (declared (.ofLines (.ofText "main.tf") 4 6) "").withParent sample
    let flag := (declared (.ofLines (.ofText "main.tf") 5 5) "").withParent
      (unmanaged.withParent block)
    (nested flag [block, bucket]).breadcrumbs.map origin =
      [flag.origin, block.origin, bucket.origin] ∧ (nested flag [block, bucket]).root = bucket ∧
      (nested flag [block, bucket]).effectiveReference = "aws_s3_bucket.logs" := by
  intro bucket block flag
  have walked := (walks_agree.1 (nested flag [block, bucket]) _ _ _).mpr ⟨rfl, rfl, rfl⟩
  have first : FirstNamed (nested flag [block, bucket]).breadcrumbs bucket :=
    ⟨by decide, [nested flag [block, bucket], nested block [bucket]], [], rfl, by decide⟩
  exact ⟨(walks_agree.2 flag [block, bucket]).mpr rfl, Option.some.inj walked.ends.symm,
    walked.nearest bucket first⟩

end CloudPolicy.Metadata
