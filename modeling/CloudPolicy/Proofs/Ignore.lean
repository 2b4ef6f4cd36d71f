import CloudPolicy.Proofs.Evaluation.Block
import CloudPolicy.Proofs.Metadata
import CloudPolicy.Proofs.Rule
import CloudPolicy.Report

/-!
Compiled ignores: which lists compile, which dominate others, and what an entry by rule and
reference covers.
-/

set_option autoImplicit false
set_option relaxedAutoImplicit false

namespace CloudPolicy

theorem bind_eq_ok_iff {ε α β : Type} {x : Except ε α} {f : α → Except ε β} {b : β} :
    (x >>= f) = .ok b ↔ ∃ a, x = .ok a ∧ f a = .ok b := by
  cases x <;> simp [bind, Except.bind]

theorem bind_eq_error_iff {ε α β : Type} {x : Except ε α} {f : α → Except ε β} {e : ε} :
    (x >>= f) = .error e ↔ x = .error e ∨ ∃ a, x = .ok a ∧ f a = .error e := by
  cases x <;> simp [bind, Except.bind]

namespace IgnoreEntry

private theorem compile_eq_ok {p : IgnorePolicy} {e : IgnoreEntry} (compiled : compile p = .ok e) :
    Glob.compile p.rule = .ok e.rule ∧ p.path.mapM Glob.compile = .ok e.path ∧
      p.reference = e.reference := by
  obtain ⟨rule, read, compiled⟩ := bind_eq_ok_iff.mp compiled
  cases given : p.path with
  | none =>
    simp only [given, pure, Except.pure, Except.ok.injEq] at compiled
    exact compiled ▸ ⟨read, rfl, rfl⟩
  | some path =>
    rw [given] at compiled
    obtain ⟨g, read', compiled⟩ := bind_eq_ok_iff.mp compiled
    simp only [pure, Except.pure, Except.ok.injEq] at compiled
    exact compiled ▸ ⟨read, by simp [read', Functor.map, Except.map], rfl⟩

theorem compile_pathless {rule : String} {g : Glob} (read : Glob.compile rule = .ok g)
    (reference : Option String) : compile ⟨rule, none, reference⟩ = .ok ⟨g, none, reference⟩ :=
  bind_eq_ok_iff.mpr ⟨g, read, rfl⟩

end IgnoreEntry

namespace IgnoreList

variable {p : IgnorePolicy} {ps qs : List IgnorePolicy} {l l' : IgnoreList}

private theorem compile_cons_eq_ok_iff : compile (p :: ps) = .ok l ↔
    ∃ e l', IgnoreEntry.compile p = .ok e ∧ compile ps = .ok l' ∧ l = ⟨e :: l'.entries⟩ := by
  simp only [compile, List.mapM_cons, bind_eq_ok_iff, pure, Except.pure, Except.ok.injEq]
  constructor
  · rintro ⟨_, ⟨e, first, es, rest, rfl⟩, rfl⟩
    exact ⟨e, ⟨es⟩, first, ⟨es, rest, rfl⟩, rfl⟩
  · rintro ⟨e, _, first, ⟨es, rest, rfl⟩, rfl⟩
    exact ⟨e :: es, ⟨e, first, es, rest, rfl⟩, rfl⟩

private theorem compile_entries (compiled : compile ps = .ok l) :
    (∀ e ∈ l.entries, ∃ p ∈ ps, IgnoreEntry.compile p = .ok e) ∧
    ∀ p ∈ ps, ∃ e ∈ l.entries, IgnoreEntry.compile p = .ok e := by
  induction ps generalizing l with
  | nil =>
    obtain rfl : ⟨[]⟩ = l := Except.ok.inj compiled
    simp
  | cons p ps ih =>
    obtain ⟨e, l, first, rest, rfl⟩ := compile_cons_eq_ok_iff.mp compiled
    obtain ⟨back, forth⟩ := ih rest
    constructor
    · rintro e' member
      rcases List.mem_cons.mp member with rfl | later
      · exact ⟨p, List.mem_cons_self, first⟩
      · obtain ⟨p', here, same⟩ := back e' later
        exact ⟨p', List.mem_cons_of_mem p here, same⟩
    · rintro p' member
      rcases List.mem_cons.mp member with rfl | later
      · exact ⟨e, List.mem_cons_self, first⟩
      · obtain ⟨e', here, same⟩ := forth p' later
        exact ⟨e', List.mem_cons_of_mem e here, same⟩

private theorem exists_compile (each : ∀ p ∈ ps, ∃ e, IgnoreEntry.compile p = .ok e) :
    ∃ l, compile ps = .ok l := by
  induction ps with
  | nil => exact ⟨⟨[]⟩, rfl⟩
  | cons p ps ih =>
    obtain ⟨⟨e, first⟩, later⟩ := List.forall_mem_cons.mp each
    obtain ⟨l, rest⟩ := ih later
    exact ⟨⟨e :: l.entries⟩, compile_cons_eq_ok_iff.mpr ⟨e, l, first, rest, rfl⟩⟩

theorem suppresses_iff (compiled : compile ps = .ok l) {rule : Definition} {f : Finding} :
    l.suppresses rule f = true ↔
      ∃ p ∈ ps, ∃ e, IgnoreEntry.compile p = .ok e ∧ e.accepts rule.longId f = true := by
  obtain ⟨back, forth⟩ := compile_entries compiled
  rw [suppresses, List.any_eq_true]
  constructor
  · rintro ⟨e, member, accepts⟩
    obtain ⟨p, policy, entry⟩ := back e member
    exact ⟨p, policy, e, entry, accepts⟩
  · rintro ⟨p, policy, e, entry, accepts⟩
    obtain ⟨e', member, entry'⟩ := forth p policy
    exact ⟨e', member, Except.ok.inj (entry.symm.trans entry') ▸ accepts⟩

/-- With one more policy, at any place, a list compiles if the policy does, and suppresses what its
entry accepts besides what it suppressed before. -/
theorem compile_perm_cons {e : IgnoreEntry} (compiled : compile ps = .ok l)
    (entry : IgnoreEntry.compile p = .ok e) (more : qs.Perm (p :: ps)) :
    ∃ l', compile qs = .ok l' ∧ ∀ rule f,
      l'.suppresses rule f = (l.suppresses rule f || e.accepts rule.longId f) := by
  obtain ⟨l', compiled'⟩ : ∃ l', compile qs = .ok l' := by
    refine exists_compile fun q member => ?_
    rcases List.mem_cons.mp (more.mem_iff.mp member) with rfl | old
    · exact ⟨e, entry⟩
    · obtain ⟨e', _, entry'⟩ := (compile_entries compiled).2 q old
      exact ⟨e', entry'⟩
  refine ⟨l', compiled', fun rule f => ?_⟩
  rw [Bool.eq_iff_iff, Bool.or_eq_true, suppresses_iff compiled, suppresses_iff compiled']
  constructor
  · rintro ⟨q, member, e', entry', accepts⟩
    rcases List.mem_cons.mp (more.mem_iff.mp member) with rfl | old
    · exact .inr (Except.ok.inj (entry'.symm.trans entry) ▸ accepts)
    · exact .inl ⟨q, old, e', entry', accepts⟩
  · rintro (⟨q, old, e', entry', accepts⟩ | accepts)
    · exact ⟨q, more.mem_iff.mpr (List.mem_cons_of_mem p old), e', entry', accepts⟩
    · exact ⟨p, more.mem_iff.mpr List.mem_cons_self, e, entry, accepts⟩

theorem suppressor?_accepts (l : IgnoreList) (rule : Definition) (f : Finding) :
    (l.suppressor?.any fun s => s rule f) = l.suppresses rule f := by
  rcases l with ⟨_ | ⟨e, es⟩⟩ <;> rfl

end IgnoreList

/-- The entry `q` is `p`, or `p` without its path or its reference. -/
def IgnorePolicy.Relaxes (q p : IgnorePolicy) : Prop :=
  q.rule = p.rule ∧ (q.path = p.path ∨ q.path = none) ∧
  (q.reference = p.reference ∨ q.reference = none)

/-- Each entry of `ps` occurs in `qs`, as it is or relaxed. -/
def IgnorePolicy.Dominate (qs ps : List IgnorePolicy) : Prop := ∀ p ∈ ps, ∃ q ∈ qs, q.Relaxes p

namespace IgnoreEntry

private theorem accepts_of_relaxes {p q : IgnorePolicy} {e e' : IgnoreEntry}
    (compiled : compile p = .ok e) (compiled' : compile q = .ok e') (relaxes : q.Relaxes p)
    {id : String} {f : Finding} (accepts : e.accepts id f = true) : e'.accepts id f = true := by
  obtain ⟨rule, path, reference⟩ := compile_eq_ok compiled
  obtain ⟨rule', path', reference'⟩ := compile_eq_ok compiled'
  obtain ⟨sameRule, samePath, sameReference⟩ := relaxes
  unfold IgnoreEntry.accepts at accepts ⊢
  simp only [Bool.and_eq_true] at accepts ⊢
  obtain ⟨⟨rule_accepts, path_accepts⟩, reference_accepts⟩ := accepts
  refine ⟨⟨?_, ?_⟩, ?_⟩
  · rw [sameRule] at rule'
    rwa [← Except.ok.inj (rule.symm.trans rule')]
  · rcases samePath with same | dropped
    · rw [same] at path'
      rwa [← Except.ok.inj (path.symm.trans path')]
    · rw [dropped] at path'
      rw [← Except.ok.inj path']
      rfl
  · rcases sameReference with same | dropped
    · rwa [← reference', same, reference]
    · rw [← reference', dropped]
      rfl

end IgnoreEntry

namespace IgnoreList

variable {ps qs : List IgnorePolicy} {l l' : IgnoreList}

theorem suppressor?_of_dominate (compiled : compile ps = .ok l) (compiled' : compile qs = .ok l')
    (dominate : IgnorePolicy.Dominate qs ps) (rule : Definition) (f : Finding)
    (suppressed : (l.suppressor?.any fun s => s rule f) = true) :
    (l'.suppressor?.any fun s => s rule f) = true := by
  rw [suppressor?_accepts, suppresses_iff compiled] at suppressed
  rw [suppressor?_accepts, suppresses_iff compiled']
  obtain ⟨p, policy, e, entry, accepts⟩ := suppressed
  obtain ⟨q, policy', relaxes⟩ := dominate p policy
  obtain ⟨e', _, entry'⟩ := (compile_entries compiled').2 q policy'
  exact ⟨q, policy', e', entry', IgnoreEntry.accepts_of_relaxes entry entry' relaxes accepts⟩

end IgnoreList

namespace Glob

def Readable (pattern : String) : Prop := ∃ g, compile pattern = .ok g

/-- `e` is what is wrong with the first of the patterns that cannot be read. -/
def FirstFault (patterns : List String) (e : GlobError) : Prop :=
  ∃ before after, patterns = before ++ e.pattern :: after ∧ (∀ q ∈ before, Readable q) ∧
    compile e.pattern = .error e

variable {q : String} {qs rs : List String} {e : GlobError}

private theorem pattern_of_compile_error (fault : compile q = .error e) : e.pattern = q := by
  unfold compile at fault
  split at fault
  · contradiction
  · exact congrArg GlobError.pattern (Except.error.inj fault).symm

private theorem readable_or_error (q : String) : Readable q ∨ ∃ e, compile q = .error e := by
  cases read : compile q with
  | ok g => exact .inl ⟨g, read⟩
  | error e => exact .inr ⟨e, rfl⟩

theorem not_readable_of_error (fault : compile q = .error e) : ¬ Readable q := by
  rintro ⟨g, read⟩
  simp [fault] at read

private theorem not_firstFault_nil : ¬ FirstFault [] e := by
  rintro ⟨before, after, split, -⟩
  simp at split

private theorem firstFault_cons :
    FirstFault (q :: qs) e ↔ compile q = .error e ∨ Readable q ∧ FirstFault qs e := by
  constructor
  · rintro ⟨before, after, split, readable, fault⟩
    rcases before with _ | ⟨b, before⟩
    · obtain ⟨rfl, rfl⟩ := List.cons.inj split
      exact .inl fault
    · obtain ⟨rfl, rfl⟩ := List.cons.inj split
      obtain ⟨here, later⟩ := List.forall_mem_cons.mp readable
      exact .inr ⟨here, before, after, rfl, later, fault⟩
  · rintro (fault | ⟨here, before, after, rfl, later, fault⟩)
    · have named := pattern_of_compile_error fault
      exact ⟨[], qs, by rw [named]; rfl, by simp, named ▸ fault⟩
    · exact ⟨q :: before, after, rfl, List.forall_mem_cons.mpr ⟨here, later⟩, fault⟩

private theorem firstFault_append : FirstFault (qs ++ rs) e ↔
    FirstFault qs e ∨ (∀ q ∈ qs, Readable q) ∧ FirstFault rs e := by
  induction qs with
  | nil => simp [not_firstFault_nil]
  | cons q qs ih =>
    rw [List.cons_append, firstFault_cons, firstFault_cons, ih, List.forall_mem_cons, and_or_left,
      or_assoc, and_assoc]

theorem exists_firstFault_iff : (∃ e, FirstFault qs e) ↔ ∃ q ∈ qs, ¬ Readable q := by
  induction qs with
  | nil => simp [not_firstFault_nil]
  | cons q qs ih =>
    simp only [firstFault_cons, exists_or, exists_and_left, ih, List.mem_cons, or_and_right,
      exists_eq_left]
    rcases readable_or_error q with readable | ⟨e, fault⟩
    · have sound : ∀ e, compile q ≠ .error e := fun e fault => not_readable_of_error fault readable
      simp [readable, sound]
    · simp [fault, not_readable_of_error fault]

section Checks

variable {α β : Type} {x : Except GlobError α} {f : α → Except GlobError β}

/-- The computation fails exactly for the first of the patterns that cannot be read. -/
def Checks (x : Except GlobError α) (patterns : List String) : Prop :=
  ∀ e, x = .error e ↔ FirstFault patterns e

theorem Checks.exists_ok_iff (checks : Checks x qs) : (∃ a, x = .ok a) ↔ ∀ q ∈ qs, Readable q := by
  have fails := exists_congr checks
  rw [exists_firstFault_iff] at fails
  cases x with
  | ok a => simpa using fails
  | error e => simpa using fails

private theorem checks_pure (a : α) : Checks (.ok a) [] := fun e => by simp [not_firstFault_nil]

theorem checks_compile (q : String) : Checks (compile q) [q] := fun e => by
  simp [firstFault_cons, not_firstFault_nil]

theorem Checks.bind (first : Checks x qs) (rest : ∀ a, Checks (f a) rs) :
    Checks (x >>= f) (qs ++ rs) := by
  intro e
  rw [firstFault_append, ← first e, ← first.exists_ok_iff]
  cases x with
  | ok a => simpa [Bind.bind, Except.bind] using rest a e
  | error e' => simp [Bind.bind, Except.bind]

theorem Checks.mapM {γ : Type} {f : γ → Except GlobError α} {patterns : γ → List String}
    (each : ∀ c, Checks (f c) (patterns c)) (cs : List γ) :
    Checks (cs.mapM f) (cs.flatMap patterns) := by
  induction cs with
  | nil => exact checks_pure []
  | cons c cs ih =>
    rw [List.mapM_cons, List.flatMap_cons]
    refine (each c).bind fun a => ?_
    rw [← List.append_nil (cs.flatMap patterns)]
    exact ih.bind fun as => checks_pure (a :: as)

end Checks

end Glob

def IgnorePolicy.patterns (p : IgnorePolicy) : List String := p.rule :: p.path.toList

theorem IgnoreEntry.checks_compile (p : IgnorePolicy) : Glob.Checks (compile p) p.patterns := by
  refine (Glob.checks_compile p.rule).bind fun g => ?_
  cases p.path with
  | none => exact Glob.checks_pure _
  | some path => exact (Glob.checks_compile path).bind fun g' => Glob.checks_pure _

theorem IgnoreList.checks_compile (ps : List IgnorePolicy) :
    Glob.Checks (compile ps) (ps.flatMap IgnorePolicy.patterns) := by
  rw [← List.append_nil (ps.flatMap _)]
  exact (Glob.Checks.mapM IgnoreEntry.checks_compile ps).bind fun es => Glob.checks_pure _

namespace Metadata

/-- The node or one that encloses it has the reference. -/
def Names (m : Metadata) (ref : String) : Prop := ∃ o ∈ m.origin :: m.ancestors, o.reference = ref

instance decidableNames (m : Metadata) : DecidablePred m.Names := fun ref =>
  inferInstanceAs (Decidable (∃ o ∈ m.origin :: m.ancestors, o.reference = ref))

private theorem references_breadcrumbs (m : Metadata) :
    m.breadcrumbs.map reference = (m.origin :: m.ancestors).map Origin.reference := by
  rw [← origins_breadcrumbs, List.map_map]
  rfl

theorem any_breadcrumbs_iff (m : Metadata) (ref : String) :
    (m.breadcrumbs.any fun crumb => crumb.reference == ref) = true ↔ m.Names ref := by
  have chain : ref ∈ m.breadcrumbs.map reference ↔ m.Names ref := by
    rw [references_breadcrumbs, List.mem_map, Names]
  rw [← chain, List.any_eq_true, List.mem_map]
  simp only [beq_iff_eq]

theorem effectiveReference_eq_reference {m : Metadata} (given : m.reference ≠ "") :
    m.effectiveReference = m.reference := by
  have first : (m.origin.reference != "") = true := bne_iff_ne.mpr given
  rw [effectiveReference, references_breadcrumbs, List.map_cons, List.find?_cons, first]
  rfl

private theorem names_effectiveReference {m : Metadata} (given : m.effectiveReference ≠ "") :
    m.Names m.effectiveReference := by
  rw [effectiveReference, references_breadcrumbs] at given ⊢
  cases found : ((m.origin :: m.ancestors).map Origin.reference).find? (· != "") with
  | none =>
    rw [found] at given
    exact absurd rfl given
  | some ref => exact List.mem_map.mp (List.mem_of_find?_eq_some found)

end Metadata

theorem Record.names_of_reference {r : Result} {ref : String}
    (shown : (ofResult r).reference = some ref) : ∃ m ∈ r.location, m.Names ref := by
  obtain ⟨nearest, given⟩ := Option.filter_eq_some_iff.mp shown
  obtain ⟨m, place, rfl⟩ := Option.map_eq_some_iff.mp nearest
  exact ⟨m, place, Metadata.names_effectiveReference (by simpa using given)⟩

/-- An entry for the long id of a valid definition and a reference accepts the findings of the rules
with this long id that have the reference on their chains. -/
theorem IgnoreEntry.compile_longId {d : Definition} (valid : d.fault? = none) (ref : String) :
    ∃ e, compile ⟨d.longId, none, some ref⟩ = .ok e ∧
      ∀ id f, e.accepts id f = true ↔ id = d.longId ∧ f.location.Names ref := by
  obtain ⟨g, read, accepts⟩ := Definition.compile_longId valid
  refine ⟨⟨g, none, some ref⟩, compile_pathless read (some ref), fun id f => ?_⟩
  rw [← accepts, ← Metadata.any_breadcrumbs_iff]
  simp [IgnoreEntry.accepts]

namespace Result

/-- A failure of the rule at a node that has the reference, or inside of one. -/
def Covered (id ref : String) (r : Result) : Prop :=
  r.ruleId = id ∧ r.status = .failed ∧ ∃ m ∈ r.location, m.Names ref

instance decidableCovered (id ref : String) : DecidablePred (Covered id ref) := fun r =>
  inferInstanceAs (Decidable (r.ruleId = id ∧ r.status = .failed ∧ ∃ m ∈ r.location, m.Names ref))

/-- The result with its failure accepted if it is covered. -/
def cover (id ref : String) (r : Result) : Result :=
  if r.Covered id ref then { r with status := .ignored } else r

theorem ruleId_cover (id ref : String) (r : Result) : (r.cover id ref).ruleId = r.ruleId := by
  unfold cover
  split <;> rfl

theorem cover_of_ne {id ref : String} {r : Result} (other : r.ruleId ≠ id) : r.cover id ref = r :=
  if_neg fun covered => other covered.1

/-- A suppressor that also accepts what a rule and a reference cover acts like the old one, and then
covers. -/
theorem suppress_eq_cover {s s' : Option Suppressor} {id ref : String}
    (more : ∀ rule f, (s'.any fun a => a rule f) = true ↔
      (s.any fun a => a rule f) = true ∨ rule.longId = id ∧ f.location.Names ref) (r : Result) :
    r.suppress s' = (r.suppress s).cover id ref := by
  have accepted_iff : r.acceptedBy s' = true ↔ r.acceptedBy s = true ∨ r.Covered id ref := by
    rw [acceptedBy, acceptedBy, Bool.and_eq_true, Bool.and_eq_true, Option.any_eq_true,
      Option.any_eq_true, beq_iff_eq, Covered, ruleId]
    constructor
    · rintro ⟨failed, m, place, accepts⟩
      rcases (more _ _).mp accepts with old | ⟨named, chain⟩
      · exact .inl ⟨failed, m, place, old⟩
      · exact .inr ⟨named, failed, m, place, chain⟩
    · rintro (⟨failed, m, place, old⟩ | ⟨named, failed, m, place, chain⟩)
      · exact ⟨failed, m, place, (more _ _).mpr (.inl old)⟩
      · exact ⟨failed, m, place, (more _ _).mpr (.inr ⟨named, chain⟩)⟩
  unfold suppress cover
  by_cases old : r.acceptedBy s = true
  · have settled : ¬ Covered id ref { r with status := .ignored } := by
      rintro ⟨_, failed, _⟩
      cases failed
    rw [if_pos old, if_pos (accepted_iff.mpr (.inl old)), if_neg settled]
  · rw [if_neg old]
    simp only [accepted_iff.trans (or_iff_right old)]

end Result

end CloudPolicy
