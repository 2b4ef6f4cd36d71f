import CloudPolicy.Catalog
import CloudPolicy.Proofs.Evaluation.Block
import CloudPolicy.Proofs.Registry
import CloudPolicy.Proofs.Rule
import Mathlib.Data.List.Forall2

/-!
The flags that the built-in rules look at, said without the rules: where they stand, what breaks a
rule, and which declaration answers for it. A default states nothing, whatever value it carries.
-/

set_option autoImplicit false
set_option relaxedAutoImplicit false

namespace CloudPolicy

namespace Catalog

/-- A flag, the nodes around it from the inside out, and what its resource may be called. -/
structure Site where
  flag : Managed Bool
  enclosing : List Metadata
  names : List String

/-- The first name that is not empty. -/
def Site.name (site : Site) : String :=
  (site.names.find? (· != "")).getD "<unnamed>"

/-- What a rule is about: a flag that each bucket or trail has to state, or one that no access block
may switch off. -/
inductive Concern where
  | bucket (flag : Bucket → Managed Bool) (setting : Bucket → Metadata)
  | trail (flag : Trail → Managed Bool)
  | block (flag : AccessBlock → Managed Bool)

namespace Concern

/-- The places in the order of the state; standalone blocks come before those inside buckets. -/
def sites : Concern → State → List Site
  | bucket flag setting, s =>
    s.storage.buckets.map fun b =>
      ⟨flag b, [setting b, b.metadata], [b.metadata.effectiveReference, b.name.value]⟩
  | trail flag, s =>
    s.trails.map fun t => ⟨flag t, [t.metadata], [t.metadata.effectiveReference, t.name.value]⟩
  | block flag, s =>
    s.storage.accessBlocks.map (fun p =>
      ⟨flag p, [p.metadata], [p.metadata.effectiveReference, p.bucket.value]⟩) ++
    s.storage.buckets.flatMap fun b =>
      b.accessBlock.toList.map fun p =>
        ⟨flag p, [p.metadata, b.metadata],
          [p.metadata.effectiveReference, b.metadata.effectiveReference, b.name.value]⟩

/-- Whether a flag breaks the rule. -/
def BrokenBy : Concern → Managed Bool → Prop
  | bucket _ _, flag | trail _, flag => ¬(flag.provenance = .explicit ∧ flag.value = true)
  | block _, flag => flag.provenance = .explicit ∧ flag.value = false

instance decidableBrokenBy : (c : Concern) → (flag : Managed Bool) → Decidable (c.BrokenBy flag)
  | bucket _ _, flag | trail _, flag =>
    inferInstanceAs (Decidable ¬(flag.provenance = .explicit ∧ flag.value = true))
  | block _, flag => inferInstanceAs (Decidable (flag.provenance = .explicit ∧ flag.value = false))

def offenders (c : Concern) (s : State) : List Site :=
  (c.sites s).filter fun site => c.BrokenBy site.flag

end Concern

/-- `Answers own enclosing m`: of a flag's own metadata and those around it, `m` is the first that
is managed, or the flag's own if none is. -/
inductive Answers (own : Metadata) (enclosing : List Metadata) (m : Metadata) : Prop where
  | declared (inner outer : List Metadata) : own :: enclosing = inner ++ m :: outer →
      (∀ x ∈ inner, x.isManaged = false) → m.isManaged = true → Answers own enclosing m
  | undeclared : (∀ x ∈ own :: enclosing, x.isManaged = false) → m = own → Answers own enclosing m

theorem answers_locate (own : Metadata) (enclosing : List Metadata) :
    Answers own enclosing (locate own enclosing) := by
  unfold locate
  cases found : (own :: enclosing).find? (·.isManaged) with
  | none =>
    refine .undeclared (fun x hx => ?_) rfl
    simpa using List.find?_eq_none.mp found x hx
  | some m =>
    obtain ⟨managed, inner, outer, split, before⟩ := List.find?_eq_some_iff_append.mp found
    exact .declared inner outer split (fun x hx => by simpa using before x hx) managed

private theorem not_isExplicitlyTrue (flag : Managed Bool) :
    (!flag.isExplicitlyTrue) = decide ¬(flag.provenance = .explicit ∧ flag.value = true) := by
  rcases flag with ⟨value, metadata, provenance⟩
  cases provenance <;> cases value <;> rfl

private theorem isExplicitlyFalse_eq (flag : Managed Bool) :
    flag.isExplicitlyFalse = decide (flag.provenance = .explicit ∧ flag.value = false) := by
  rcases flag with ⟨value, metadata, provenance⟩
  cases provenance <;> cases value <;> rfl

private theorem label_eq_name (m : Metadata) (name : Managed String) (flag : Managed Bool)
    (enclosing : List Metadata) :
    label m name = Site.name ⟨flag, enclosing, [m.effectiveReference, name.value]⟩ := by
  unfold label Site.name
  by_cases href : m.effectiveReference = "" <;> by_cases hname : name.value =
    "" <;> simp [href, hname]

private theorem blockLabel_standalone (p : AccessBlock) (flag : Managed Bool)
    (enclosing : List Metadata) :
    blockLabel p none = Site.name ⟨flag, enclosing,
      [p.metadata.effectiveReference, p.bucket.value]⟩ := by
  have plain : blockLabel p none = label p.metadata p.bucket := by
    unfold blockLabel
    split <;> simp_all
  rw [plain, label_eq_name]

private theorem blockLabel_inline (p : AccessBlock) (b : Bucket) (flag : Managed Bool)
    (enclosing : List Metadata) :
    blockLabel p (some b) = Site.name ⟨flag, enclosing,
      [p.metadata.effectiveReference, b.metadata.effectiveReference, b.name.value]⟩ := by
  by_cases href : p.metadata.effectiveReference = ""
  · have owner : blockLabel p (some b) = label b.metadata b.name := by simp [blockLabel, href]
    rw [owner, label_eq_name _ _ flag enclosing]
    simp [Site.name, href]
  · have own : blockLabel p (some b) = label p.metadata p.bucket := by
      unfold blockLabel
      split
      · contradiction
      · rfl
    rw [own]
    simp [label, Site.name, href]

/-- What a rule reports about a place, with the texts before and after the name of the resource. -/
def Site.finding (wording : String × String) (site : Site) : Finding :=
  ⟨wording.1 ++ site.name ++ wording.2, locate site.flag.metadata site.enclosing⟩

/-- The findings of a rule are those about the places that break it. -/
def ReportsOffenders (rule : Rule) (c : Concern) (wording : String × String) : Prop :=
  ∀ s, rule.check s = { outcome := .findings ((c.offenders s).map (Site.finding wording)) }

private theorem bucketRule_reportsOffenders (definition : Definition) (flag : Bucket → Managed Bool)
    (setting : Bucket → Metadata) (opening closing : String) :
    ReportsOffenders (bucketRule definition flag setting fun who => opening ++ who ++ closing)
      (.bucket flag setting) (opening, closing) := by
  intro s
  have broken : (fun b => !(flag b).isExplicitlyTrue) =
      fun b => decide ((Concern.bucket flag setting).BrokenBy (flag b)) :=
    funext fun b => not_isExplicitlyTrue (flag b)
  simp only [bucketRule, Rule.ofFindings, Concern.offenders, Concern.sites, List.filter_map,
    List.map_map, broken]
  congr 2
  refine List.map_congr_left fun b _ => ?_
  rw [label_eq_name b.metadata b.name (flag b) [setting b, b.metadata]]
  rfl

private theorem trailRule_reportsOffenders (definition : Definition) (flag : Trail → Managed Bool)
    (opening closing : String) :
    ReportsOffenders (trailRule definition flag fun who => opening ++ who ++ closing)
      (.trail flag) (opening, closing) := by
  intro s
  have broken : (fun t => !(flag t).isExplicitlyTrue) =
      fun t => decide ((Concern.trail flag).BrokenBy (flag t)) :=
    funext fun t => not_isExplicitlyTrue (flag t)
  simp only [trailRule, Rule.ofFindings, Concern.offenders, Concern.sites, List.filter_map,
    List.map_map, broken]
  congr 2
  refine List.map_congr_left fun t _ => ?_
  rw [label_eq_name t.metadata t.name (flag t) [t.metadata]]
  rfl

/-- The place of a flag on an access block, inside a bucket or standalone. -/
private def blockSite (flag : AccessBlock → Managed Bool) (p : AccessBlock × Option Bucket) :
    Site :=
  match p.2 with
  | none => ⟨flag p.1, [p.1.metadata], [p.1.metadata.effectiveReference, p.1.bucket.value]⟩
  | some b => ⟨flag p.1, [p.1.metadata, b.metadata],
      [p.1.metadata.effectiveReference, b.metadata.effectiveReference, b.name.value]⟩

private theorem blockSite_flag (flag : AccessBlock → Managed Bool)
    (p : AccessBlock × Option Bucket) : (blockSite flag p).flag = flag p.1 := by
  rcases p with ⟨p, _ | b⟩ <;> rfl

private theorem sites_block (flag : AccessBlock → Managed Bool) (s : State) :
    (Concern.block flag).sites s = s.accessBlocks.map (blockSite flag) := by
  have inline : ∀ buckets : List Bucket,
      (buckets.flatMap fun b => b.accessBlock.toList.map fun p => blockSite flag (p, some b)) =
        (buckets.filterMap fun b => b.accessBlock.map (·, some b)).map (blockSite flag) := by
    intro buckets
    induction buckets with
    | nil => rfl
    | cons b buckets ih => cases h : b.accessBlock <;> simp [h, ih]
  rw [State.accessBlocks, List.map_append, List.map_map, ← inline]
  rfl

theorem Concern.length_sites_block (flag : AccessBlock → Managed Bool) (s : State) :
    ((block flag).sites s).length = s.accessBlocks.length := by
  rw [sites_block, List.length_map]

private theorem finding_blockSite (flag : AccessBlock → Managed Bool) (wording : String × String)
    (p : AccessBlock × Option Bucket) :
    Site.finding wording (blockSite flag p) =
      ⟨wording.1 ++ blockLabel p.1 p.2 ++ wording.2,
        locate (flag p.1).metadata (p.1.metadata :: (p.2.map (·.metadata)).toList)⟩ := by
  rcases p with ⟨p, _ | b⟩
  · rw [blockLabel_standalone p (flag p) [p.metadata]]
    rfl
  · rw [blockLabel_inline p b (flag p) [p.metadata, b.metadata]]
    rfl

private theorem blockRule_reportsOffenders (definition : Definition)
    (flag : AccessBlock → Managed Bool) (opening closing : String) :
    ReportsOffenders (blockRule definition flag fun who => opening ++ who ++ closing)
      (.block flag) (opening, closing) := by
  intro s
  have broken : (fun p : AccessBlock × Option Bucket => (flag p.1).isExplicitlyFalse) =
      fun p => decide ((Concern.block flag).BrokenBy (blockSite flag p).flag) :=
    funext fun p => by rw [blockSite_flag]; exact isExplicitlyFalse_eq (flag p.1)
  simp only [blockRule, Rule.ofFindings, Concern.offenders, sites_block, List.filter_map,
    List.map_map, broken]
  congr 2
  exact List.map_congr_left fun p _ => (finding_blockSite flag (opening, closing) p).symm

end Catalog

namespace Catalog

inductive Builtin where
  | enableVersioning
  | ignorePublicAcls
  | blockPublicAcls
  | blockPublicPolicy
  | noPublicBuckets
  | enableBucketEncryption
  | enableBucketLogging
  | enableAllRegions
  | enableLogValidation
  deriving DecidableEq, Repr

namespace Builtin

def all : List Builtin :=
  [enableVersioning, ignorePublicAcls, blockPublicAcls, blockPublicPolicy, noPublicBuckets,
    enableBucketEncryption, enableBucketLogging, enableAllRegions, enableLogValidation]

def rule : Builtin → Rule
  | enableVersioning => Catalog.enableVersioning
  | ignorePublicAcls => Catalog.ignorePublicAcls
  | blockPublicAcls => Catalog.blockPublicAcls
  | blockPublicPolicy => Catalog.blockPublicPolicy
  | noPublicBuckets => Catalog.noPublicBuckets
  | enableBucketEncryption => Catalog.enableBucketEncryption
  | enableBucketLogging => Catalog.enableBucketLogging
  | enableAllRegions => Catalog.enableAllRegions
  | enableLogValidation => Catalog.enableLogValidation

/-- The flag that each rule is about. -/
def concern : Builtin → Concern
  | enableVersioning => .bucket (·.versioning.enabled) (·.versioning.metadata)
  | ignorePublicAcls => .block (·.ignorePublicAcls)
  | blockPublicAcls => .block (·.blockPublicAcls)
  | blockPublicPolicy => .block (·.blockPublicPolicy)
  | noPublicBuckets => .block (·.restrictPublicBuckets)
  | enableBucketEncryption => .bucket (·.encryption.enabled) (·.encryption.metadata)
  | enableBucketLogging => .bucket (·.logging.enabled) (·.logging.metadata)
  | enableAllRegions => .trail (·.isMultiRegion)
  | enableLogValidation => .trail (·.logFileValidation)

/-- What a failure says before and after the name of the resource. -/
def wording : Builtin → String × String
  | enableVersioning => ("Resource '", "' does not have versioning enabled")
  | ignorePublicAcls => ("Public access block '", "' does not ignore public ACLs")
  | blockPublicAcls => ("Public access block '", "' does not block public ACLs")
  | blockPublicPolicy => ("Public access block '", "' does not block public policies")
  | noPublicBuckets => ("Public access block '", "' does not restrict public buckets")
  | enableBucketEncryption => ("Bucket '", "' does not have encryption enabled")
  | enableBucketLogging => ("Bucket '", "' does not have logging enabled")
  | enableAllRegions => ("Trail '", "' is not enabled across all regions")
  | enableLogValidation => ("Trail '", "' does not have log validation enabled")

def offenders (b : Builtin) (s : State) : List Site := b.concern.offenders s

theorem reportsOffenders (b : Builtin) : ReportsOffenders b.rule b.concern b.wording := by
  cases b with
  | enableVersioning | enableBucketEncryption | enableBucketLogging =>
    exact bucketRule_reportsOffenders _ _ _ _ _
  | ignorePublicAcls | blockPublicAcls | blockPublicPolicy | noPublicBuckets =>
    exact blockRule_reportsOffenders _ _ _ _
  | enableAllRegions | enableLogValidation => exact trailRule_reportsOffenders _ _ _ _

end Builtin

private theorem rules_eq_map_builtin : rules = Builtin.all.map Builtin.rule := rfl

-- Literals are compared as lists of characters here. The kernel would need seconds to evaluate them
-- byte by byte.
private theorem isToken_of_chars {s : String} {c : Char} {cs : List Char}
    (spelled : String.ofList (c :: cs) = s)
    (token : (Kebab.isLetter c && cs.all
      (fun d => Kebab.isLetter d || Kebab.isDigit d || d == '-') &&
      !Kebab.hasDoubleDash (c :: cs) && (c :: cs).getLast? != some '-') = true) :
    Kebab.isToken s = true := by
  rw [← spelled, Kebab.isToken, String.toList_ofList]
  exact token

private theorem isBlankText_of_chars {s : String} {c : Char} {cs : List Char}
    (spelled : String.ofList (c :: cs) = s) (first : Text.isBlank c = false) :
    Text.isBlankText s = false := by
  rw [← spelled, Text.isBlankText, String.toList_ofList, List.all_cons, first, Bool.false_and]

private theorem isBlankText_append {s t : String} (h : Text.isBlankText s = false) :
    Text.isBlankText (s ++ t) = false := by
  rw [Text.isBlankText] at h
  rw [Text.isBlankText, String.toList_append, List.all_append, h, Bool.false_and]

private theorem isSecure_of_chars {s : String} {cs : List Char}
    (spelled : String.ofList (['h', 't', 't', 'p', 's', ':', '/', '/'] ++ cs) = s) :
    Definition.isSecure s = true := by
  rw [← spelled, Definition.isSecure, Text.beginsWith, String.toList_ofList, String.toList_ofList]
  exact List.isPrefixOf_iff_prefix.mpr (List.prefix_append _ cs)

theorem Builtin.definition_valid (b : Builtin) : b.rule.definition.fault? = none := by
  have service : Kebab.isToken b.rule.definition.service = true := by
    cases b <;> exact isToken_of_chars rfl rfl
  have shortCode : Kebab.isToken b.rule.definition.shortCode = true := by
    cases b <;> exact isToken_of_chars rfl rfl
  have summary : Text.isBlankText b.rule.definition.summary = false := by
    cases b with
    | enableAllRegions => exact isBlankText_append (isBlankText_of_chars rfl rfl)
    | _ => exact isBlankText_of_chars rfl rfl
  have impact : Text.isBlankText b.rule.definition.impact = false := by
    cases b <;> exact isBlankText_of_chars rfl rfl
  have resolution : Text.isBlankText b.rule.definition.resolution = false := by
    cases b <;> exact isBlankText_of_chars rfl rfl
  have links : ∀ link ∈ b.rule.definition.links, Definition.isSecure link = true := by
    intro link member
    cases b <;> rw [List.mem_singleton.mp member] <;> exact isSecure_of_chars rfl
  exact Definition.fault?_eq_none_iff.mpr ⟨service, shortCode, summary, impact, resolution, links⟩

private theorem rules_valid : ∀ rule ∈ rules, rule.definition.fault? = none := by
  intro rule member
  obtain ⟨b, _, rfl⟩ := List.mem_map.mp (rules_eq_map_builtin ▸ member)
  exact b.definition_valid

private theorem rules_nodup : (rules.map Rule.longId).Nodup := by decide

-- The registry as a function of its rules. The kernel unfolds the two names together; it would run
-- the whole registration to compare `registry` with a projection.
private def filledWith (rules : List Rule) : Registry := (IndexedRegistry.ofRules rules).toRegistry

private theorem filledWith_eq {rules : List Rule}
    (valid : ∀ rule ∈ rules, rule.definition.fault? = none)
    (nodup : (rules.map Rule.longId).Nodup) : filledWith rules = ⟨rules⟩ :=
  IndexedRegistry.ofRules_eq valid nodup

theorem registry_eq : registry = ⟨Builtin.all.map Builtin.rule⟩ := by
  have unfolded : registry = filledWith rules := rfl
  rw [unfolded, filledWith_eq rules_valid rules_nodup, rules_eq_map_builtin]

theorem registry_built : registry.Built := by
  rw [registry_eq, ← rules_eq_map_builtin]
  exact Registry.built_of_valid rules_valid rules_nodup

end Catalog

namespace Catalog

/-- `Blames b site r`: the result is the failure of the rule at the place. -/
structure Blames (b : Builtin) (site : Site) (r : Result) : Prop where
  rule : r.rule = b.rule.definition
  failed : r.status = .failed
  genuine : r.isFault = false
  described : r.description = b.wording.1 ++ site.name ++ b.wording.2
  located : ∃ m, r.location = some m ∧ Answers site.flag.metadata site.enclosing m

/-- The results that a rule gives for the places that break it. -/
inductive Verdict (b : Builtin) : List Site → List Result → Prop where
  | pass : Verdict b [] [⟨.passed, b.rule.definition, b.rule.definition.summary, none, false⟩]
  | failures {site : Site} {sites : List Site} {results : List Result} :
      List.Forall₂ (Blames b) (site :: sites) results → Verdict b (site :: sites) results

private theorem blames_ofFinding (b : Builtin) (site : Site) :
    Blames b site (Result.ofFinding b.rule.definition none (site.finding b.wording)) where
  rule := rfl
  failed := rfl
  genuine := rfl
  described := rfl
  located := ⟨_, rfl, answers_locate _ _⟩

private theorem verdict_classify (b : Builtin) (sites : List Site) :
    Verdict b sites (Result.classify b.rule.definition
      (.findings (sites.map (Site.finding b.wording))) none) := by
  cases sites with
  | nil => exact .pass
  | cons site sites =>
    refine .failures ?_
    rw [Result.classify, List.map_map]
    · rw [List.forall₂_map_right_iff]
      exact List.forall₂_same.mpr fun x _ => blames_ofFinding b x
    · simp

/-- The built-in registry holds the nine rules, and each of them, evaluated alone, gives its verdict
on the places that break it. -/
theorem builtin_verdict :
    registry = ⟨Builtin.all.map Builtin.rule⟩ ∧
      ∀ (b : Builtin) (s : State) (watches : Bool), ∃ results,
        Evaluation.run ⟨watches, none⟩ s false [b.rule] = (⟨results, []⟩, false) ∧
          Verdict b (b.offenders s) results := by
  refine ⟨registry_eq, fun b s watches => ⟨_, ?_, verdict_classify b (b.offenders s)⟩⟩
  rw [Evaluation.run_singleton, Evaluation.alone_eq_classify, b.reportsOffenders s]
  rfl

end Catalog

end CloudPolicy
