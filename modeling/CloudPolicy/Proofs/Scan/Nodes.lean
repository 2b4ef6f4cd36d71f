import CloudPolicy.Proofs.Codec.Ranges
import CloudPolicy.Proofs.Scan.Ignores

/-!
The nodes that findings point at. A report has its ranges from the state document; where no node is
declared anywhere, results are known by their descriptions alone.
-/

set_option autoImplicit false
set_option relaxedAutoImplicit false

namespace CloudPolicy

/-- The range does not end before its start. -/
def Location.Upright (l : Location) : Prop := l.startLine ≤ l.endLine

instance Location.decidableUpright (l : Location) : Decidable l.Upright :=
  inferInstanceAs (Decidable (l.startLine ≤ l.endLine))

private theorem Location.ofLines_upright (file : SourcePath) (startLine endLine : UInt32) :
    (ofLines file startLine endLine).Upright := by
  unfold Upright ofLines
  split
  · exact UInt32.le_refl startLine
  · rename_i before
    exact UInt32.not_lt.mp before

private theorem Location.nowhere_upright : nowhere.Upright := UInt32.le_refl 0

private theorem Metadata.range_mem_ranges {m : Metadata} {s : State} (node : m ∈ s.nodes) :
    m.range ∈ s.ranges :=
  List.mem_flatMap.mpr ⟨m, node, List.mem_cons_self⟩

/-! ### What a finding points at -/

namespace Catalog

/-- The flag of a concern, and the setting that holds it, are nodes of the resource. -/
def Concern.OfNodes : Concern → Prop
  | bucket flag setting => ∀ b, (flag b).metadata ∈ b.nodes ∧ setting b ∈ b.nodes
  | trail flag => ∀ t, (flag t).metadata ∈ t.nodes
  | block flag => ∀ p, (flag p).metadata ∈ p.nodes

private theorem Builtin.concern_ofNodes (b : Builtin) : b.concern.OfNodes := by
  cases b with
  | enableVersioning | enableBucketEncryption | enableBucketLogging =>
    intro b
    simp [Bucket.nodes, Versioning.nodes, Encryption.nodes, Logging.nodes]
  | ignorePublicAcls | blockPublicAcls | blockPublicPolicy | noPublicBuckets =>
    intro p
    simp [AccessBlock.nodes]
  | enableAllRegions | enableLogValidation =>
    intro t
    simp [Trail.nodes]

private theorem Concern.OfNodes.mem_nodes_of_site {c : Concern} (ofNodes : c.OfNodes) {s : State}
    {site : Site} (member : site ∈ c.sites s) {m : Metadata}
    (around : m ∈ site.flag.metadata :: site.enclosing) : m ∈ s.nodes := by
  cases c with
  | bucket flag setting =>
    obtain ⟨b, listed, rfl⟩ := List.mem_map.mp member
    have there : m ∈ b.nodes := by
      simp only [List.mem_cons, List.not_mem_nil, or_false] at around
      rcases around with rfl | rfl | rfl
      · exact (ofNodes b).1
      · exact (ofNodes b).2
      · simp [Bucket.nodes]
    exact List.mem_append_left _ (List.mem_append_left _ (List.mem_flatMap.mpr ⟨b, listed, there⟩))
  | trail flag =>
    obtain ⟨t, listed, rfl⟩ := List.mem_map.mp member
    have there : m ∈ t.nodes := by
      simp only [List.mem_cons, List.not_mem_nil, or_false] at around
      rcases around with rfl | rfl
      · exact ofNodes t
      · simp [Trail.nodes]
    exact List.mem_append_right _ (List.mem_flatMap.mpr ⟨t, listed, there⟩)
  | block flag =>
    have own : ∀ p : AccessBlock, p.metadata ∈ p.nodes := fun p => List.mem_cons_self
    rcases List.mem_append.mp member with standalone | inline
    · obtain ⟨p, listed, rfl⟩ := List.mem_map.mp standalone
      have there : m ∈ p.nodes := by
        simp only [List.mem_cons, List.not_mem_nil, or_false] at around
        rcases around with rfl | rfl
        · exact ofNodes p
        · exact own p
      exact List.mem_append_left _
        (List.mem_append_right _ (List.mem_flatMap.mpr ⟨p, listed, there⟩))
    · obtain ⟨b, listed, shown⟩ := List.mem_flatMap.mp inline
      obtain ⟨p, held, rfl⟩ := List.mem_map.mp shown
      have inside : ∀ n ∈ p.nodes, n ∈ b.nodes := fun n node =>
        List.mem_append_right _ (List.mem_flatMap.mpr ⟨p, held, node⟩)
      have there : m ∈ b.nodes := by
        simp only [List.mem_cons, List.not_mem_nil, or_false] at around
        rcases around with rfl | rfl | rfl
        · exact inside _ (ofNodes p)
        · exact inside _ (own p)
        · simp [Bucket.nodes]
      exact List.mem_append_left _
        (List.mem_append_left _ (List.mem_flatMap.mpr ⟨b, listed, there⟩))

private theorem Site.location_mem (site : Site) :
    site.location ∈ site.flag.metadata :: site.enclosing := by
  cases answers_locate site.flag.metadata site.enclosing with
  | declared inner outer split =>
    rw [split]
    simp [location]
  | undeclared _ own => exact own ▸ List.mem_cons_self

end Catalog

private theorem Result.exists_finding_of_located {rule : Definition} {found : List Finding}
    {suppressor : Option Suppressor} {r : Result} {m : Metadata}
    (member : r ∈ classify rule (.findings found) suppressor) (located : r.location = some m) :
    ∃ f ∈ found, f.location = m := by
  cases found with
  | nil =>
    rw [List.mem_singleton.mp member] at located
    contradiction
  | cons f found =>
    obtain ⟨g, listed, rfl⟩ := List.mem_map.mp member
    exact ⟨g, listed, Option.some.inj located⟩

namespace Scan

variable {s : State} {config : EffectiveConfig} {d : DomainReport}

theorem Reported.location_mem_ranges (reported : Reported Catalog.registry s config d) {r : Result}
    (member : r ∈ d.results) {l : Location} (located : r.range = some l) : l ∈ s.ranges := by
  obtain ⟨suppressor, ran, skipped, parts⟩ := reported.divides
  obtain ⟨rule, here, block, -⟩ := parts.exists_ran member
  obtain ⟨b, rfl⟩ := exists_builtin_of_selected
    (parts.rules.mem_iff.mp (List.mem_append_left _ here))
  rw [Evaluation.alone_eq_classify, b.reportsOffenders s] at block
  obtain ⟨m, there, rfl⟩ := Option.map_eq_some_iff.mp located
  obtain ⟨f, found, rfl⟩ := Result.exists_finding_of_located block there
  obtain ⟨site, broken, rfl⟩ := List.mem_map.mp found
  have site_listed : site ∈ b.concern.sites s := List.mem_of_mem_filter broken
  exact Metadata.range_mem_ranges (b.concern_ofNodes.mem_nodes_of_site
    site_listed site.location_mem)

/-- The ranges of a state are those that its document gives, with the lines that stand there, and
reports are made of them. So no range ends before its start, in the state or in a report, unless the
document has one that does; whereas a range that is made of two lines never does. -/
theorem document_ranges_upright_iff {text : String} {v : Json} (parsed : Json.parse? text = some v)
    (loaded : State.ofDocument? text = some s) :
    (∀ l, l ≠ .nowhere → (l ∈ s.ranges ↔ Gives l .state v)) ∧
    (∀ n w l, Location.decode n w = some l →
      Json.GivenOr 0 (Json.Decoder.word32 0) (Shape.location.valuesOf "start_line" w) l.startLine ∧
        Json.GivenOr 0 (Json.Decoder.word32 0) (Shape.location.valuesOf "end_line" w) l.endLine) ∧
    ((∀ l ∈ s.ranges, l.Upright) ↔ ∀ l, Gives l .state v → l.Upright) ∧
    (∀ config d, Reported Catalog.registry s config d → ∀ startedAt finishedAt,
      ∀ record ∈ (Report.ofDomain d startedAt finishedAt).results, ∀ l, record.location = some l →
        l ∈ s.ranges ∧ ((∀ l, Gives l .state v → l.Upright) → l.Upright)) ∧
    ∀ file startLine endLine, (Location.ofLines file startLine endLine).Upright := by
  have decoded : State.decode Json.nestingLimit v = some s := by
    rwa [State.ofDocument?, parsed, Option.bind_eq_bind, Option.bind_some] at loaded
  have kept : ∀ l, l ≠ .nowhere → (l ∈ s.ranges ↔ Gives l .state v) := State.keeps v s decoded
  have upright_iff : (∀ l ∈ s.ranges, l.Upright) ↔ ∀ l, Gives l .state v → l.Upright := by
    refine forall_congr' fun l => ?_
    by_cases given : l = .nowhere
    · have upright : l.Upright := given ▸ Location.nowhere_upright
      exact iff_of_true (fun _ => upright) fun _ => upright
    · rw [kept l given]
  refine ⟨kept, fun n w l => Location.lines_of_decode, upright_iff, ?_, Location.ofLines_upright⟩
  intro config d reported startedAt finishedAt record shown l located
  obtain ⟨r, member, rfl⟩ := List.mem_map.mp shown
  have there := reported.location_mem_ranges member located
  exact ⟨there, fun upright => upright_iff.mpr upright l there⟩

private theorem ofDocument?_pretty {v : Json} (portable : v.Portable)
    (decoded : State.decode Json.nestingLimit v = some s) :
    State.ofDocument? v.pretty = some s := by
  rw [State.ofDocument?, portable.parse?_pretty]
  exact decoded

def logsAt (startLine endLine : UInt32) : Bucket :=
  { metadata := .declared ⟨.ofText "main.tf", startLine, endLine, none⟩ "aws_s3_bucket.logs" }

def logsDocument (startLine endLine : Int) : Json :=
  State.bucketDocument [("metadata", .object [("range", .object [("filename", .string "main.tf"),
    ("start_line", .integer startLine), ("end_line", .integer endLine)]),
    ("reference", .string "aws_s3_bucket.logs")])]

theorem document_ranges_upright_iff_logs :
    ∃ s, State.ofDocument? (logsDocument 4 9).pretty = some s ∧
    Gives ⟨.ofText "main.tf", 4, 9, none⟩ .state (logsDocument 4 9) ∧
    ∀ l, Gives l .state (logsDocument 4 9) → l.Upright := by
  have portable : (logsDocument 4 9).Portable := Json.portable_of_isPortable _ (by decide +kernel)
  have loaded : State.ofDocument? (logsDocument 4 9).pretty =
      some (Resource.bucket (logsAt 4 9)).only :=
    ofDocument?_pretty portable rfl
  obtain ⟨kept, -, upright_iff, -⟩ := document_ranges_upright_iff portable.parse?_pretty loaded
  exact ⟨_, loaded, (kept _ (by decide)).mp (by decide), upright_iff.mp (by decide)⟩

def logsSite (startLine endLine : UInt32) : Catalog.Site :=
  ⟨.absent false, [.unmanaged, (logsAt startLine endLine).metadata], ["aws_s3_bucket.logs", ""]⟩

def versioningOnly : EffectiveConfig := { logsIgnored with ignores := [] }

private theorem versioningOnly_selects :
    Catalog.enableVersioning ∈ Catalog.registry.select versioningOnly.ruleFilter :=
  logsIgnored_selects

/-- A range that is written the wrong way around stands so in the state and in the report. -/
theorem document_ranges_inverted : ∃ s, State.ofDocument? (logsDocument 9 4).pretty = some s ∧
    (∃ l ∈ s.ranges, ¬ l.Upright) ∧
    ∃ d flag, run Catalog.registry s versioningOnly false false = .ok (d, flag) ∧
      ∃ record ∈ (Report.ofDomain d .epoch .epoch).results,
        ∃ l, record.location = some l ∧ ¬ l.Upright := by
  have portable : (logsDocument 9 4).Portable := Json.portable_of_isPortable _ (by decide +kernel)
  have accepted : ∃ l, check Catalog.registry versioningOnly = .ok l := by
    rw [Catalog.registry_eq]
    exact ⟨_, rfl⟩
  have broken : logsSite 9 4 ∈ Catalog.Builtin.enableVersioning.offenders
      (Resource.bucket (logsAt 9 4)).only :=
    List.mem_filter.mpr ⟨List.mem_singleton_self _, rfl⟩
  obtain ⟨d, flag, ran, -, r, member, concerns⟩ :=
    exists_run_concerns (b := .enableVersioning) accepted versioningOnly_selects broken
  refine ⟨_, ofDocument?_pretty portable rfl, by decide, d, flag, ran, .ofResult r,
    List.mem_map_of_mem member, (logsSite 9 4).location.range, ?_, by decide⟩
  simp [Record.ofResult, Result.range, concerns.located]

end Scan

namespace Resource

def nodes : Resource → List Metadata
  | bucket b => b.nodes
  | accessBlock p => p.nodes
  | trail t => t.nodes

private theorem nodes_only (x : Resource) : x.only.nodes = x.nodes := by
  cases x <;> simp [only, nodes, State.nodes, Storage.nodes]

/-- The declared name; a standalone block goes by the bucket that it applies to. -/
def name : Resource → String
  | bucket b => b.name.value
  | accessBlock p => p.bucket.value
  | trail t => t.name.value

/-- No node of the resource is declared anywhere. -/
def Undeclared (x : Resource) : Prop := ∀ m ∈ x.nodes, m = .unmanaged

end Resource

/-- No node of the state is declared anywhere. -/
def State.Undeclared (s : State) : Prop := ∀ x : Resource, x.ListedIn s → x.Undeclared

/-- `r.Shows b f`: the result is that of the rule for its finding. -/
structure Result.Shows (r : Result) (b : Catalog.Builtin) (f : Finding) : Prop where
  rule : r.rule = b.rule.definition
  described : r.description = f.description
  located : r.location = some f.location

namespace Catalog

/-- The rule reports the finding when it looks at the resource alone. -/
def Builtin.Flags (b : Builtin) (x : Resource) (f : Finding) : Prop :=
  ∃ found, (b.rule.check x.only).outcome = .findings found ∧ f ∈ found

variable {b : Builtin} {x : Resource} {f : Finding}

private theorem Builtin.flags_iff :
    b.Flags x f ↔ ∃ site ∈ b.offenders x.only, f = site.finding b.wording := by
  unfold Flags
  rw [b.reportsOffenders x.only]
  constructor
  · rintro ⟨found, same, member⟩
    obtain rfl := Outcome.findings.inj same
    obtain ⟨site, broken, shown⟩ := List.mem_map.mp member
    exact ⟨site, broken, shown.symm⟩
  · rintro ⟨site, broken, rfl⟩
    exact ⟨_, rfl, List.mem_map_of_mem broken⟩

private theorem locate_of_undeclared {own : Metadata} {enclosing : List Metadata}
    (undeclared : ∀ m ∈ own :: enclosing, m = .unmanaged) : locate own enclosing = .unmanaged := by
  cases answers_locate own enclosing with
  | declared inner outer split before managed =>
    have here : locate own enclosing ∈ own :: enclosing := by
      rw [split]
      exact List.mem_append_right _ List.mem_cons_self
    exact undeclared _ here
  | undeclared _ same =>
    rw [same]
    exact undeclared own List.mem_cons_self

/-- Nothing is declared at the place or around it, and nothing but the declared name of the resource
names it. -/
structure Nameless (x : Resource) (site : Site) : Prop where
  nodes : ∀ m ∈ site.flag.metadata :: site.enclosing, m = .unmanaged
  names : ∃ blanks, (∀ n ∈ blanks, n = "") ∧ site.names = blanks ++ [x.name]

private theorem effectiveReference_unmanaged :
    Metadata.unmanaged.effectiveReference = "" := by decide

private theorem Concern.nameless {c : Concern} (ofNodes : c.OfNodes) (undeclared : x.Undeclared)
    {site : Site} (member : site ∈ c.sites x.only) : Nameless x site := by
  have bare : ∀ m ∈ site.flag.metadata :: site.enclosing, m = .unmanaged := by
    intro m around
    apply undeclared m
    rw [← x.nodes_only]
    exact ofNodes.mem_nodes_of_site member around
  refine ⟨bare, ?_⟩
  cases siteOf_of_mem member with
  | @bucket flag setting b =>
    have own : b.metadata = .unmanaged := bare _ (by simp)
    exact ⟨[b.metadata.effectiveReference], by simp [own, effectiveReference_unmanaged], rfl⟩
  | @trail flag t =>
    have own : t.metadata = .unmanaged := bare _ (by simp)
    exact ⟨[t.metadata.effectiveReference], by simp [own, effectiveReference_unmanaged], rfl⟩
  | @standalone flag p =>
    have own : p.metadata = .unmanaged := bare _ (by simp)
    exact ⟨[p.metadata.effectiveReference], by simp [own, effectiveReference_unmanaged], rfl⟩
  | @inside flag b p block =>
    have held : p.metadata = .unmanaged := bare _ (by simp)
    have own : b.metadata = .unmanaged := bare _ (by simp)
    refine ⟨[p.metadata.effectiveReference, b.metadata.effectiveReference], ?_, rfl⟩
    simp [held, own, effectiveReference_unmanaged]

theorem Nameless.name {site : Site} (nameless : Nameless x site) (named : x.name ≠ "") :
    site.name = x.name := by
  obtain ⟨blanks, blank, names⟩ := nameless.names
  have none : blanks.find? (· != "") = none :=
    List.find?_eq_none.mpr fun n member => by simp [blank n member]
  rw [Site.name, names, List.find?_append, none]
  simp [named]

private theorem Builtin.finding_of_undeclared (undeclared : x.Undeclared) (named : x.name ≠ "")
    (flagged : b.Flags x f) : f = ⟨b.wording.1 ++ x.name ++ b.wording.2, .unmanaged⟩ := by
  obtain ⟨site, broken, rfl⟩ := flags_iff.mp flagged
  have nameless := Concern.nameless b.concern_ofNodes undeclared (List.mem_of_mem_filter broken)
  rw [Site.finding, nameless.name named, locate_of_undeclared nameless.nodes]

end Catalog

/-- Two genuine identities that agree up to their descriptions are hashed from different texts. -/
private theorem Identity.joined_ne_of_description {i j : Identity} (genuine : i.Genuine)
    (genuine' : j.Genuine) (files : i.file = j.file) (lines : i.line = j.line)
    (references : i.reference = j.reference) (descriptions : i.description ≠ j.description) :
    i.joined ≠ j.joined := by
  intro same
  obtain ⟨-, -, places⟩ := (joined_eq_iff genuine genuine').mp same
  apply descriptions
  rw [place, place, files, lines, references] at places
  exact String.toList_inj.mp (by simpa using places)

namespace Scan

variable {s : State} {config : EffectiveConfig} {d : DomainReport} {b : Catalog.Builtin}
  {x y : Resource} {f g : Finding}

private theorem Reported.exists_shows (reported : Reported Catalog.registry s config d)
    (listed : x.ListedIn s) (flagged : b.Flags x f)
    (selected : b.rule ∈ Catalog.registry.select config.ruleFilter)
    (evaluated : b.rule.longId ∉ d.notRun) : ∃ r ∈ d.results, r.Shows b f := by
  obtain ⟨site, broken, rfl⟩ := Catalog.Builtin.flags_iff.mp flagged
  have broken : site ∈ b.offenders s :=
    (b.concern.offenders_sublist (Resource.only_partOf listed)).subset broken
  obtain ⟨r, member, concerns⟩ := reported.exists_concerns selected evaluated broken
  exact ⟨r, member, concerns.rule, concerns.described, concerns.located⟩

/-- Where nothing is declared, resources with different names have results that are described
differently and hashed from different texts, whatever the names hold and whichever of the results
are ignored. -/
theorem undeclared_apart (undeclared : s.Undeclared)
    (reported : Reported Catalog.registry s config d) (listed : x.ListedIn s)
    (listed' : y.ListedIn s) (named : x.name ≠ "") (named' : y.name ≠ "") (apart : x.name ≠ y.name)
    (flagged : b.Flags x f) (flagged' : b.Flags y g) :
    (b.rule ∈ Catalog.registry.select config.ruleFilter → b.rule.longId ∉ d.notRun →
      (∃ r ∈ d.results, r.Shows b f) ∧ ∃ r ∈ d.results, r.Shows b g) ∧
    ∀ r ∈ d.results, ∀ r' ∈ d.results, r.Shows b f → r'.Shows b g →
      (r.status = .ignored ∨ r.status = .failed) ∧ (r'.status = .ignored ∨ r'.status = .failed) ∧
      r.description ≠ r'.description ∧ Text.utf8 r.identity.joined ≠ Text.utf8 r'.identity.joined ∧
      (r.fingerprint = r'.fingerprint →
        Sha256.Collision (Text.utf8 r.identity.joined) (Text.utf8 r'.identity.joined)) := by
  refine ⟨fun selected evaluated => ⟨reported.exists_shows listed flagged selected evaluated,
    reported.exists_shows listed' flagged' selected evaluated⟩, ?_⟩
  intro r member r' member' shows shows'
  obtain rfl := b.finding_of_undeclared (undeclared x listed) named flagged
  obtain rfl := b.finding_of_undeclared (undeclared y listed') named' flagged'
  have described : r.description ≠ r'.description := by
    rw [shows.described, shows'.described]
    intro same
    exact apart (by simpa using same)
  have genuine : r.identity.Genuine := Result.genuine_identity (shows.rule ▸ b.definition_valid)
  have genuine' : r'.identity.Genuine := Result.genuine_identity (shows'.rule ▸ b.definition_valid)
  have hashed : Text.utf8 r.identity.joined ≠ Text.utf8 r'.identity.joined := by
    apply Text.utf8_injective.ne
    apply Identity.joined_ne_of_description genuine genuine' <;>
      simp only [Result.identity, shows.located, shows'.located]
    exact described
  exact ⟨(reported.ignored_iff member shows.located).2,
    (reported.ignored_iff member' shows'.located).2, described, hashed, fun same => ⟨hashed, same⟩⟩

/-- A bucket of which only the name is said. -/
def bareBucket (name : String) : Bucket := { name := .explicit name .unmanaged }

def bareBuckets : State :=
  { storage := { buckets := [bareBucket "logs", bareBucket "logs' | 'x"] } }

private theorem bareBuckets_undeclared : bareBuckets.Undeclared := by
  intro x listed
  cases x with
  | bucket b =>
    have bare : b = bareBucket "logs" ∨ b = bareBucket "logs' | 'x" := by
      simpa [bareBuckets, Resource.ListedIn] using listed
    unfold Resource.Undeclared
    rcases bare with rfl | rfl <;> decide
  | accessBlock p => nomatch listed
  | trail t => nomatch listed

/-- One of the names holds the quote and the bar that stand around names and between the hashed
fields. -/
theorem undeclared_apart_quoted :
    ∃ d, Reported Catalog.registry bareBuckets versioningOnly d ∧ ∃ r ∈ d.results, ∃ r' ∈ d.results,
      r.description = "Resource 'logs' does not have versioning enabled" ∧
      r'.description = "Resource 'logs' | 'x' does not have versioning enabled" ∧
      Text.utf8 r.identity.joined ≠ Text.utf8 r'.identity.joined := by
  have accepted : check Catalog.registry versioningOnly = .ok ⟨[]⟩ := by
    rw [Catalog.registry_eq]
    rfl
  obtain ⟨d, _, -, scan⟩ := exists_run_undisturbed accepted bareBuckets
  have evaluated : Catalog.enableVersioning.longId ∉ d.notRun := by
    rw [scan.eq accepted]
    exact List.not_mem_nil
  have flagged (name : String) : Catalog.Builtin.enableVersioning.Flags (.bucket (bareBucket name))
      ⟨"Resource '" ++ Catalog.label .unmanaged (.explicit name .unmanaged) ++
        "' does not have versioning enabled", .unmanaged⟩ :=
    ⟨_, rfl, List.mem_singleton_self _⟩
  obtain ⟨shown, each⟩ := undeclared_apart bareBuckets_undeclared scan.reported
    (x := .bucket (bareBucket "logs")) (y := .bucket (bareBucket "logs' | 'x"))
    List.mem_cons_self (List.mem_cons_of_mem _ List.mem_cons_self)
    (by decide) (by decide) (by decide) (flagged "logs") (flagged "logs' | 'x")
  obtain ⟨⟨r, member, shows⟩, r', member', shows'⟩ := shown versioningOnly_selects evaluated
  obtain ⟨-, -, -, hashed, -⟩ := each r member r' member' shows shows'
  exact ⟨d, scan.reported, r, member, r', member', shows.described.trans (by decide),
    shows'.described.trans (by decide), hashed⟩

end Scan

end CloudPolicy
