import BytecodeAudit.Proofs.Auditor.Setup
import BytecodeAudit.Proofs.Rules.Reload
import BytecodeAudit.View.Report

/-!
# What rules do

Rules come first in deciding on the severity of an issue, then its own severity, then its descriptor
(`effective_eq_iff_decides`).

Issues take the severity of the rule as it stands: that is what is read from it exactly if it is
spelled as a known severity (`effectiveSeverity_eq_meantSeverity_iff`). An issue is hidden from the
rows and the counts exactly if the severity that it takes is spelled `hidden` (`hides_iff`).
-/

namespace BytecodeAudit

open List Option

/-- The severity that a rule is meant to give to the issues of a descriptor: what is read from its
label, by default that of the descriptor. -/
def Rule.meant (r : Rule) (d : Descriptor) : Severity :=
  (Severity.parse r.severity.label).toOption.elim d.defaultSeverity fun s => if s.isDefault then d.defaultSeverity else s

lemma Rule.meant_eq {r : Rule} {s : Severity} (h : Severity.parse r.severity.label = .ok s) (d : Descriptor) :
    r.meant d = if s.isDefault then d.defaultSeverity else s := by
  rw [meant, h]
  rfl

lemma Rule.meant_mem_known {r : Rule} {s : Severity} (h : Severity.parse r.severity.label = .ok s) {d : Descriptor}
    (hd : d.defaultSeverity ∈ Severity.known) : r.meant d ∈ Severity.known := by
  rw [meant_eq h]
  split
  · exact hd
  · next hdefault =>
    rcases Severity.eq_default_or_mem_known_of_parse h with rfl | hknown
    · exact absurd rfl hdefault
    · exact hknown

lemma Rule.meant_eq_self {r : Rule} (h : r.severity ∈ Severity.known) (d : Descriptor) : r.meant d = r.severity := by
  rw [meant_eq (Severity.parse_label h), Severity.not_isDefault_of_mem_known _ h]
  exact if_neg Bool.false_ne_true

namespace RuleSet

/-- The rule that applies to a descriptor in a context: that for this very context, or else that for
every context. -/
def ruleFor? (s : RuleSet) (id context : String) : Option Rule :=
  (if context == "" then none else s.get? id context).or (s.get? id "")

lemma severity?_eq (s : RuleSet) (id context : String) :
    s.severity? id context = (s.ruleFor? id context).map (·.severity) := by
  rw [ruleFor?, or_eq_orElse]
  rfl

lemma mem_of_ruleFor? {s : RuleSet} {id context : String} {x : Rule} (h : s.ruleFor? id context = some x) :
    x ∈ s.rules := by
  have hget : ∀ filter, s.get? id filter = some x → x ∈ s.rules := fun _ hx => mem_of_find?_eq_some hx
  rcases or_eq_some_iff.1 h with h | ⟨-, h⟩
  · split at h
    · cases h
    · exact hget _ h
  · exact hget _ h

lemma severity?_empty_eq_none {s : RuleSet} {id context : String} (h : s.ruleFor? id context = none) :
    s.severity? id "" = none := by
  rw [severity?_eq, ruleFor?, (or_eq_none_iff.1 h).2]
  rfl

end RuleSet

/-! ### Precedence -/

lemma Issue.isFinding_iff {i : Issue} : i.isFinding ↔ i.descriptorId ≠ "" := by simp [isFinding]

namespace SeverityPolicy

variable {p : SeverityPolicy} {i : Issue}

lemma ruled?_empty_eq_none {id context : String} (h : p.ruled? id context = none) : p.ruled? id "" = none := by
  cases hrules : p.rules with
  | none => rw [ruled?, hrules, bind_none]
  | some s =>
    rw [ruled?, hrules, bind_some] at h ⊢
    rw [RuleSet.severity?_eq, map_eq_none_iff] at h
    exact RuleSet.severity?_empty_eq_none h

/-- What decides on a finding: a rule, or else its own severity, or else its descriptor. -/
lemma effective_eq (h : i.isFinding) : p.effective i = (p.ruled? i.descriptorId i.context).getD
    (if i.severity.isDefault then p.declared i.descriptorId else i.severity) := by
  rw [effective, h]
  cases hruled : p.ruled? i.descriptorId i.context with
  | some v => rfl
  | none =>
    -- no rule for every context applies either
    rw [severity, ruled?_empty_eq_none hruled]
    rfl

def HasRule (p : SeverityPolicy) (id filter : String) (v : Severity) : Prop :=
  ∃ s, p.rules = some s ∧ ⟨id, filter, v⟩ ∈ s.rules

def HasDescriptor (p : SeverityPolicy) (id : String) (d : Descriptor) : Prop :=
  ∃ c, p.catalog = some c ∧ c.get? id = some d

/-- Whether no rule is for the very context of an issue. -/
def LacksOwnRule (p : SeverityPolicy) (i : Issue) : Prop :=
  i.context = "" ∨ ∀ v, ¬ p.HasRule i.descriptorId i.context v

inductive Decides (p : SeverityPolicy) (i : Issue) : Severity → Prop
  | informational (h : i.descriptorId = "") : Decides p i i.severity
  | byContext {v : Severity} (hid : i.descriptorId ≠ "") (hcontext : i.context ≠ "")
      (h : p.HasRule i.descriptorId i.context v) : Decides p i v
  | byId {v : Severity} (hid : i.descriptorId ≠ "") (hcontext : p.LacksOwnRule i)
      (h : p.HasRule i.descriptorId "" v) : Decides p i v
  | own (hid : i.descriptorId ≠ "") (hcontext : p.LacksOwnRule i) (hrule : ∀ v, ¬ p.HasRule i.descriptorId "" v)
      (h : i.severity ≠ Severity.default) : Decides p i i.severity
  | declared {d : Descriptor} (hid : i.descriptorId ≠ "") (hcontext : p.LacksOwnRule i)
      (hrule : ∀ v, ¬ p.HasRule i.descriptorId "" v) (hown : i.severity = Severity.default)
      (h : p.HasDescriptor i.descriptorId d) : Decides p i d.defaultSeverity
  | unknown (hid : i.descriptorId ≠ "") (hcontext : p.LacksOwnRule i) (hrule : ∀ v, ¬ p.HasRule i.descriptorId "" v)
      (hown : i.severity = Severity.default) (h : ∀ d, ¬ p.HasDescriptor i.descriptorId d) :
      Decides p i Severity.default

def entry? (p : SeverityPolicy) (id filter : String) : Option Severity := p.rules.bind (·.entries id filter)

lemma ruled?_eq (p : SeverityPolicy) (id context : String) :
    p.ruled? id context = (if context = "" then none else p.entry? id context).or (p.entry? id "") := by
  rw [ruled?, entry?, entry?]
  cases p.rules with
  | none => simp
  | some s =>
    rw [bind_some, RuleSet.severity?_eq, RuleSet.ruleFor?, map_or, bind_some, bind_some]
    by_cases h : context = ""
    · simp [h, RuleSet.entries]
    · simp [h, RuleSet.entries]

section

variable (h : ∀ s, p.rules = some s → RuleSet.AreDistinct s.rules)
include h

lemma hasRule_iff {id filter : String} {v : Severity} : p.HasRule id filter v ↔ p.entry? id filter = some v := by
  rw [HasRule, entry?, bind_eq_some_iff]
  refine exists_congr fun s => and_congr_right fun hs => ?_
  have hget : s.get? id filter = some ⟨id, filter, v⟩ ↔ _ := RuleSet.get?_eq_some_iff (h s hs)
  rw [RuleSet.get?_eq_map_entries] at hget
  simpa [Rule.isFor] using hget.symm

lemma Decides.effective_eq {v : Severity} (hv : p.Decides i v) : p.effective i = v := by
  have hrule : ∀ {filter}, (∀ v, ¬ p.HasRule i.descriptorId filter v) → p.entry? i.descriptorId filter = none :=
    fun hnone => eq_none_iff_forall_ne_some.2 fun v hv => hnone v ((hasRule_iff h).2 hv)
  have hlacks : p.LacksOwnRule i → (if i.context = "" then none else p.entry? i.descriptorId i.context) = none := by
    rintro (hcontext | hnone)
    · exact if_pos hcontext
    · rw [hrule hnone, ite_self]
  have hruled : i.descriptorId ≠ "" → p.effective i = ((if i.context = "" then none else
      p.entry? i.descriptorId i.context).or (p.entry? i.descriptorId "")).getD
        (if i.severity.isDefault then p.declared i.descriptorId else i.severity) := fun hid => by
    rw [SeverityPolicy.effective_eq (Issue.isFinding_iff.2 hid), ruled?_eq]
  have hunruled (hid : i.descriptorId ≠ "") (hcontext : p.LacksOwnRule i)
      (hnone : ∀ v, ¬ p.HasRule i.descriptorId "" v) :
      p.effective i = if i.severity.isDefault then p.declared i.descriptorId else i.severity := by
    rw [hruled hid, hlacks hcontext, hrule hnone]
    rfl
  cases hv with
  | informational hid => simp [effective, Issue.isFinding, hid]
  | byContext hid hcontext hv =>
    rw [hruled hid, if_neg hcontext, (hasRule_iff h).1 hv]
    rfl
  | byId hid hcontext hv =>
    rw [hruled hid, hlacks hcontext, (hasRule_iff h).1 hv]
    rfl
  | own hid hcontext hnone hown =>
    rw [hunruled hid hcontext hnone, if_neg (by simpa [Severity.isDefault] using hown)]
  | declared hid hcontext hnone hown hd =>
    obtain ⟨c, hc, hd⟩ := hd
    rw [hunruled hid hcontext hnone, if_pos (by rw [hown]; rfl), SeverityPolicy.declared, hc, bind_some, hd]
  | unknown hid hcontext hnone hown hd =>
    have hget : p.catalog.bind (·.get? i.descriptorId) = none :=
      eq_none_iff_forall_ne_some.2 fun d hget => hd d (bind_eq_some_iff.1 hget)
    rw [hunruled hid hcontext hnone, if_pos (by rw [hown]; rfl), SeverityPolicy.declared, hget]

end

lemma exists_decides (p : SeverityPolicy) (i : Issue) : ∃ v, p.Decides i v := by
  by_cases hid : i.descriptorId = ""
  · exact ⟨_, .informational hid⟩
  by_cases hcontext : p.LacksOwnRule i
  · by_cases hrule : ∃ v, p.HasRule i.descriptorId "" v
    · obtain ⟨v, hv⟩ := hrule
      exact ⟨v, .byId hid hcontext hv⟩
    rw [not_exists] at hrule
    by_cases hown : i.severity = Severity.default
    · by_cases hd : ∃ d, p.HasDescriptor i.descriptorId d
      · obtain ⟨d, hd⟩ := hd
        exact ⟨_, .declared hid hcontext hrule hown hd⟩
      · exact ⟨_, .unknown hid hcontext hrule hown (not_exists.1 hd)⟩
    · exact ⟨_, .own hid hcontext hrule hown⟩
  · rw [LacksOwnRule, not_or, not_forall_not] at hcontext
    obtain ⟨hne, v, hv⟩ := hcontext
    exact ⟨v, .byContext hid hne hv⟩

def after (cs : Option (List RuleSet.Change)) (catalog : Option Catalog) : SeverityPolicy :=
  ⟨cs.map RuleSet.run, catalog⟩

/-- An issue is shown with the severity that precedence decides on, whatever the rules and
descriptors are. Its context is the name of the root of its caller tree, or else the path of its
place. A finding without a severity of its own is shown with that of its descriptor in its
context. -/
theorem effective_eq_iff_decides (cs : Option (List RuleSet.Change)) (catalog : Option Catalog) (i : Issue) :
    (∀ v, (after cs catalog).effective i = v ↔ (after cs catalog).Decides i v) ∧
    i.context = ((i.dependencies.map (·.name)).filter (· ≠ "")).getD ((i.location.map (·.path)).getD "") ∧
    (i.descriptorId ≠ "" → i.severity = Severity.default →
      (after cs catalog).effective i = (after cs catalog).severity i.descriptorId i.context) := by
  have hdistinct : ∀ s, (after cs catalog).rules = some s → RuleSet.AreDistinct s.rules := by
    intro s hs
    obtain ⟨cs, -, rfl⟩ := Option.map_eq_some_iff.1 hs
    exact RuleSet.areDistinct_run cs
  refine ⟨fun v => ⟨fun hv => ?_, fun hv => hv.effective_eq hdistinct⟩, ?_, fun hid hown => ?_⟩
  · obtain ⟨w, hw⟩ := exists_decides (after cs catalog) i
    rwa [← hv, hw.effective_eq hdistinct]
  · rw [Issue.context]
    cases i.dependencies with
    | none => cases i.location <;> rfl
    | some n => cases i.location <;> by_cases hname : n.name = "" <;> simp [hname, Option.filter_some]
  · rw [SeverityPolicy.effective_eq (Issue.isFinding_iff.2 hid), if_pos (by rw [hown]; rfl)]
    rfl

end SeverityPolicy

namespace Report

def ruleFor? (r : Report) (i : Issue) : Option Rule := r.rules.ruleFor? i.descriptorId i.context

def meantSeverity (r : Report) (d : Descriptor) (i : Issue) : Severity :=
  (r.ruleFor? i).elim d.defaultSeverity (·.meant d)

/-! ### Issues that are hidden -/

def issueRows (r : Report) (issues : List Issue) (minimum : Severity) (showTrees : Bool) : List IssueRow :=
  IssuesView.rows { report := { r with issues }, minimum, showTrees }

def showsIssue (r : Report) (minimum : Severity) (i : Issue) : Bool :=
  IssuesView.shows { report := r, minimum } (r.effectiveSeverity i)

def severityCounts (r : Report) (issues : List Issue) : Counts := { r with issues }.summary.bySeverity

lemma severityCounts_eq (r : Report) (issues : List Issue) : r.severityCounts issues =
    ((issues.map r.effectiveSeverity).filter Severity.isCounted).foldl (fun cs s => Counts.bump s.label cs) [] := rfl

/-- Whether an issue is hidden: the rows and the counts are the same without it, whatever other
issues there are. -/
def Hides (r : Report) (i : Issue) : Prop :=
  ∀ before after, r.severityCounts (before ++ i :: after) = r.severityCounts (before ++ after) ∧
    ∀ minimum showTrees, List.Perm (r.issueRows (before ++ i :: after) minimum showTrees)
      (r.issueRows (before ++ after) minimum showTrees)

lemma perm_issueRows (r : Report) (issues : List Issue) (minimum : Severity) (showTrees : Bool) :
    (r.issueRows issues minimum showTrees).Perm
      ((issues.filter (r.showsIssue minimum)).map (IssuesView.rowOf { report := r })) := by
  show List.Perm (((issues.mergeSort r.showsBefore).map (IssuesView.rowOf { report := r })).filter
    fun x => IssuesView.shows { report := r, minimum } x.severity) _
  rw [List.filter_map]
  exact ((mergeSort_perm _ _).filter _).map _

lemma hides_iff {r : Report} {i : Issue} : r.Hides i ↔ r.effectiveSeverity i = Severity.hidden := by
  constructor
  · intro h
    by_contra hvisible
    -- without a threshold, an issue that stands alone has the only row
    have hshown : r.showsIssue Severity.default i := by
      simpa [showsIssue, IssuesView.shows, Severity.isVisible, Severity.isDefault] using hvisible
    have hone := perm_issueRows r [i] Severity.default false
    have hnone := perm_issueRows r [] Severity.default false
    rw [filter_cons_of_pos hshown] at hone
    have hlength := ((hone.symm.trans ((h [] []).2 Severity.default false)).trans hnone).length_eq
    exact absurd hlength (by simp)
  · intro h before after
    constructor
    · have hcounted : ¬ (r.effectiveSeverity i).isCounted = true := by
        rw [h]
        decide
      rw [severityCounts_eq, severityCounts_eq, map_append, map_append, map_cons, filter_append,
        filter_append, filter_cons_of_neg hcounted]
    · intro minimum showTrees
      have hshown : ¬ r.showsIssue minimum i = true := by
        rw [showsIssue, h]
        exact Bool.false_ne_true
      refine (perm_issueRows r _ minimum showTrees).trans (List.Perm.trans ?_ (perm_issueRows r _ minimum showTrees).symm)
      rw [filter_append, filter_append, filter_cons_of_neg hshown]

/-! ### Severities -/

lemma effectiveSeverity_eq_elim {r : Report} {i : Issue} (hfinding : i.isFinding)
    (hown : i.severity.isDefault) {d : Descriptor} (hd : r.catalog.get? i.descriptorId = some d) :
    r.effectiveSeverity i = (r.ruleFor? i).elim d.defaultSeverity Rule.severity := by
  have hdeclared : r.policy.declared i.descriptorId = d.defaultSeverity := by
    simp only [policy, SeverityPolicy.declared, bind_some, hd]
  have hruled : r.policy.ruled? i.descriptorId i.context = (r.ruleFor? i).map Rule.severity :=
    r.rules.severity?_eq i.descriptorId i.context
  rw [effectiveSeverity, SeverityPolicy.effective_eq hfinding, if_pos hown, hdeclared, hruled]
  cases r.ruleFor? i <;> rfl

/-- What is meant and what is done, for an issue of a registered descriptor that has no severity of
its own, under the rules of an accepted configuration. The rule that applies can be read, and what
it means is a known severity. The issue takes the severity of the rule as it stands, or else that of
the descriptor. That is what is meant exactly if the rule is spelled as a known severity. The issue
is hidden exactly if it takes the severity that is spelled `hidden`. -/
theorem effectiveSeverity_eq_meantSeverity_iff {config : Config} {r : Report}
    (hrules : r.rules = RuleSet.ofList config.rules) (hvalid : config.validate (some r.catalog) = .ok ())
    (hconcrete : ∀ d ∈ r.catalog.list, d.defaultSeverity ∈ Severity.known) {i : Issue} (hfinding : i.isFinding = true)
    (hown : i.severity.isDefault = true) {d : Descriptor} (hd : r.catalog.get? i.descriptorId = some d) :
    (∀ x, r.ruleFor? i = some x → ∃ s, Severity.parse x.severity.label = .ok s) ∧
    r.meantSeverity d i ∈ Severity.known ∧
    r.effectiveSeverity i = (r.ruleFor? i).elim d.defaultSeverity Rule.severity ∧
    (r.effectiveSeverity i = r.meantSeverity d i ↔ ∀ x, r.ruleFor? i = some x → x.severity ∈ Severity.known) ∧
    (r.effectiveSeverity i ∈ Severity.known ↔ ∀ x, r.ruleFor? i = some x → x.severity ∈ Severity.known) ∧
    (r.Hides i ↔ r.effectiveSeverity i = Severity.hidden) := by
  have hrule : ∀ x, r.ruleFor? i = some x → ∃ s, Severity.parse x.severity.label = .ok s := by
    intro x hx
    have hmem : x ∈ config.rules := RuleSet.mem_of_mem_ofList (hrules ▸ RuleSet.mem_of_ruleFor? hx)
    exact ((Config.validate_eq_ok_iff.1 hvalid).rules x hmem).severity
  have hdefault : d.defaultSeverity ∈ Severity.known := by
    rw [Catalog.get?_eq_find?] at hd
    exact hconcrete d (List.mem_of_find?_eq_some hd)
  have hmeant : r.meantSeverity d i ∈ Severity.known := by
    rw [meantSeverity]
    cases hx : r.ruleFor? i with
    | none => exact hdefault
    | some x =>
      obtain ⟨s, hs⟩ := hrule x hx
      rw [Option.elim_some]
      exact Rule.meant_mem_known hs hdefault
  have heffective := effectiveSeverity_eq_elim hfinding hown hd
  have hspelled : r.effectiveSeverity i ∈ Severity.known ↔
      ∀ x, r.ruleFor? i = some x → x.severity ∈ Severity.known := by
    rw [heffective]
    cases r.ruleFor? i with
    | none => exact ⟨nofun, fun _ => hdefault⟩
    | some x => exact ⟨fun h y hy => Option.some.inj hy ▸ h, fun h => h x rfl⟩
  refine ⟨hrule, hmeant, heffective, ⟨fun h => hspelled.1 (h ▸ hmeant), fun h => ?_⟩, hspelled, hides_iff⟩
  rw [heffective, meantSeverity]
  cases hx : r.ruleFor? i with
  | none => rw [Option.elim_none, Option.elim_none]
  | some x => rw [Option.elim_some, Option.elim_some, Rule.meant_eq_self (h x hx)]

/-! ### A rule that is spelled in another case -/

end Report

lemma Config.isAcceptable_of_rules {rules : List Rule} {params : List Config.Layer} {catalog : Option Catalog}
    (h : ∀ x ∈ rules, Config.AcceptsRule catalog x) (hparams : ∀ l ∈ params, l.platform ∈ Platform.known) :
    ({ rules, params } : Config).IsAcceptable catalog := by
  have hknown : ∀ p ∈ "" :: Platform.known.map (·.name),
      Text.IsAscii p ∧ Text.IsSmall p ∧ p ≠ "default" ∧ (Platform.mk p).isKnown = true := by decide
  have hparse : ∀ p ∈ "" :: Platform.known.map (·.name), (Platform.parse p).isKnown := by
    intro p hp
    obtain ⟨hascii, hsmall, hdefault, hp⟩ := hknown p hp
    rwa [Platform.parse_eq_self hascii hsmall hdefault]
  have hformat : "text" ∈ Config.knownFormats := by decide
  exact ⟨hparse "" mem_cons_self, fun p hp => hparse p (mem_cons_of_mem _ hp), Int.natCast_nonneg 10,
    fun l hl => hparse _ (mem_cons_of_mem _ (mem_map_of_mem (hparams l hl))), h, hformat⟩

namespace Report

def finding : Issue := { category := .code, description := "d", descriptorId := "PAC0001" }

def flaw : Descriptor := { id := "PAC0001", title := "t", defaultSeverity := .minor }

def ruling (label : String) : Config := { rules := [⟨"PAC0001", "", ⟨label⟩⟩] }

def ruled (label : String) : Report where
  catalog := ⟨[{ descriptor := flaw }]⟩
  rules := RuleSet.ofList (ruling label).rules

lemma validate_ruling {label : String} {s : Severity} (h : Severity.parse label = .ok s) :
    (ruling label).validate (some (ruled label).catalog) = .ok () := by
  refine Config.validate_eq_ok_iff.2 (Config.isAcceptable_of_rules (fun x hx => ?_) (nofun))
  obtain rfl := mem_singleton.1 hx
  refine ⟨⟨s, h⟩, fun c hc => ⟨flaw, ?_⟩⟩
  cases hc
  rfl

lemma parse_capital_hidden : Severity.parse "Hidden" = .ok .hidden := by
  have hascii : Text.IsAscii "Hidden" := by decide
  have hlower : Text.lower (Text.trim "Hidden") = "hidden" := by
    rw [← Text.ofChars_of_ascii hascii, Text.trim_ofChars, Text.lower_ofChars]
    decide
  rw [Severity.parse, hlower]
  rfl

lemma ruleFor?_ruled (label : String) : (ruled label).ruleFor? finding = some ⟨"PAC0001", "", ⟨label⟩⟩ := rfl

lemma effectiveSeverity_ruled (label : String) : (ruled label).effectiveSeverity finding = ⟨label⟩ := by
  rw [effectiveSeverity_eq_elim (d := flaw) (by decide) (by decide) rfl, ruleFor?_ruled]
  rfl

theorem hides_ruled : (ruled "hidden").effectiveSeverity finding = .hidden ∧ (ruled "hidden").Hides finding := by
  have hparse : Severity.parse "hidden" = .ok .hidden := Severity.parse_label (s := .hidden) (by decide)
  obtain ⟨-, -, -, -, -, hhides⟩ := effectiveSeverity_eq_meantSeverity_iff (r := ruled "hidden") (i := finding)
    (d := flaw) rfl (validate_ruling hparse) (by decide) (by decide) (by decide) rfl
  exact ⟨effectiveSeverity_ruled "hidden", hhides.2 (effectiveSeverity_ruled "hidden")⟩

/-- A rule that is accepted, and read as the severity that hides, does not hide. -/
theorem not_hides_ruled : (ruling "Hidden").validate (some (ruled "Hidden").catalog) = .ok () ∧
    (ruled "Hidden").meantSeverity flaw finding = .hidden ∧
    (ruled "Hidden").effectiveSeverity finding = ⟨"Hidden"⟩ ∧ ¬ (ruled "Hidden").Hides finding := by
  refine ⟨validate_ruling parse_capital_hidden, ?_, effectiveSeverity_ruled "Hidden", ?_⟩
  · have hmeant := Rule.meant_eq (r := ⟨"PAC0001", "", ⟨"Hidden"⟩⟩) parse_capital_hidden flaw
    rw [meantSeverity, ruleFor?_ruled, Option.elim_some, hmeant]
    rfl
  · rw [hides_iff, effectiveSeverity_ruled]
    decide

end Report

end BytecodeAudit
