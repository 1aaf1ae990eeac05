import ModelLint.CommandLine.Session
import ModelLint.Proofs.Analysis.Selection
import ModelLint.Proofs.Config.Options
import ModelLint.Proofs.Text

namespace ModelLint

/-! Checks with a filter of rules.

A filter and a preset choose rules in two ways. Whatever a filter names is taken out of all rules
with their configured options, so a check with a filter finds what a check of all rules finds of
the rules that the filter names. -/

open Text

namespace CommandLine

/-- The plan of a check with some rules. -/
def planOf (config : Config) (path : Option String) (exclude : List String) (rules : List Rule) :
    Analysis.Plan where
  root := path
  rules := rules
  exclude := exclude
  config := config

def analyse (surroundings : Surroundings) (plan : Analysis.Plan) : Except CommandError Report := do
  let analysis ← (Analysis.ofPlan plan surroundings.toWorkplace).mapError fun _ => .build
  (analysis.checkTree surroundings.tree false).mapError fun _ => .analysis

/-- What a check comes to, given the configuration. -/
def findings (surroundings : Surroundings) (config : Config) (path filter : Option String)
    (exclude : List String) : Except CommandError Report := do
  let _ ← config.failSeverity.mapError fun _ => .failSeverity
  let settings := SettingsSource.seenFrom surroundings.toWorkplace surroundings.tree
  let (rules, _) ← (rulesFor config settings filter).mapError fun _ => .ruleConfig
  analyse surroundings (planOf config path exclude rules)

/-- A reply shows what was found, or why nothing was. -/
def Reply.Shows (reply : Reply) (failOn : Severity) (format : Format) :
    Except CommandError Report → Prop
  | .error error => reply.code = 1 ∧ reply.output = "" ∧ reply.error = some error.message
  | .ok found => reply.code = (if found.reaches failOn then 1 else 0) ∧
      reply.output = printed found format ∧ reply.error = none

variable {surroundings : Surroundings} {config : Config} {failOn : Severity}

theorem check_shows {named : Option String}
    (loaded : surroundings.loadConfig (surroundings.configSource named) = .ok config)
    (failsOn : config.failSeverity = .ok failOn) (path filter : Option String) (format : Format)
    (exclude : List String) :
    (check surroundings named path format filter exclude).Shows failOn format
      (findings surroundings config path filter exclude) := by
  simp only [check, prepare, findings, analyse, planOf, loaded, failsOn, bind, Except.bind,
    Except.mapError, pure, Except.pure]
  cases rulesFor config (.seenFrom surroundings.toWorkplace surroundings.tree) filter with
  | error error => exact ⟨rfl, rfl, rfl⟩
  | ok chosen =>
      simp only [Preparation.analysis, Except.mapError]
      cases Analysis.ofPlan
          { root := path, rules := chosen.1, exclude := exclude, config := config }
          surroundings.toWorkplace with
      | error error => exact ⟨rfl, rfl, rfl⟩
      | ok analysis =>
          simp only [report]
          cases analysis.checkTree surroundings.tree false with
          | error error => exact ⟨rfl, rfl, rfl⟩
          | ok found => exact ⟨rfl, rfl, rfl⟩

/-- Some names have that of a rule among them, or its code. -/
def isNamed (names : List String) (rule : Descriptor) : Bool :=
  names.any fun name => sameIgnoringCase name rule.id || sameIgnoringCase name rule.name

/-- The rule of a violation is one of those named, by the code or the name that it shows. -/
def isAbout (names : List String) (violation : Violation) : Bool :=
  names.any fun name =>
    sameIgnoringCase name violation.code || sameIgnoringCase name violation.rule

theorem isAbout_follows (names : List String) :
    Analysis.Follows (isNamed names) (isAbout names) := by
  intro rule violation code name
  rw [isAbout, code, name]
  rfl

variable {settings : SettingsSource} {rules : List Rule} {names : List String}

/-- Of the rules with their options, those that a filter names find what all of them find of
these rules. -/
theorem analyse_filter (options : config.Options settings rules) (names : List String)
    (preset other path : Option String) (exclude : List String) :
    analyse surroundings (planOf { config with preset := preset } path exclude
        (rules.filter (isNamed names ·.descriptor))) =
      (analyse surroundings (planOf { config with preset := other } path exclude rules)).map
        (Report.restrict (isAbout names)) := by
  change analyse surroundings
    ((planOf { config with preset := other } path exclude rules).narrow (isNamed names) preset) = _
  unfold analyse
  rcases Analysis.ofPlan_narrow (planOf { config with preset := other } path exclude rules)
      (isNamed names) preset surroundings.toWorkplace with
    ⟨error, failed, alsoFailed⟩ | ⟨every, few, built, fewBuilt, narrows⟩
  · rw [failed, alsoFailed]
    rfl
  · have chosen := (Analysis.ofPlan_eq_ok built).2.2.1
    have distinct : Analysis.Distinct every.rules := by
      rw [chosen]
      exact options.distinct.filter _
    have steady (model : Model) (wellFormed : model.WellFormed) :
        ∀ rule ∈ every.rules, Analysis.Steady every.root model rule := by
      intro rule member
      rw [chosen] at member
      exact options.steady wellFormed every.root rule (List.mem_of_mem_filter member)
    rw [built, fewBuilt]
    simp only [Except.mapError, bind, Except.bind,
      Analysis.checkTree_narrowed narrows (isAbout_follows names) distinct steady]
    cases every.checkTree surroundings.tree false with
    | error error => rfl
    | ok report => rfl

theorem filterNames_eq_iff {filter : String} :
    filterNames filter = names ↔ NamesIn ',' filter.toList names := by
  rw [namesIn_iff, List.filterMap_map]
  rfl

theorem rulesFor_filter (options : config.Options settings rules) {filter : String}
    (named : NamesIn ',' filter.toList names) (preset : Option String) :
    ∃ unknown, rulesFor { config with preset := preset } settings (some filter) =
      .ok (rules.filter (isNamed names ·.descriptor), unknown) := by
  have available := Config.selectRules_strict options
  simp only [rulesFor, filterRules, filterNames_eq_iff.mpr named, available, bind, Except.bind]
  exact ⟨_, rfl⟩

theorem rulesFor_strict (options : config.Options settings rules) :
    rulesFor { config with preset := some "strict" } settings none = .ok (rules, []) := by
  have available := Config.selectRules_strict options
  simp only [rulesFor, available, bind, Except.bind]
  rfl

/-- A check with a filter finds what a check of all rules finds of those that the filter names,
in the same order and with the same options. So it does not matter which preset is configured, nor
how a filter is written that names the same rules. -/
theorem check_filter (failsOn : config.failSeverity = .ok failOn) (valid : config.ValidOptions)
    (surroundings : Surroundings) (path : Option String) (exclude : List String)
    (filter : String) :
    ∃ names rules, NamesIn ',' filter.toList names ∧
      config.Options (.seenFrom surroundings.toWorkplace surroundings.tree) rules ∧
      rulesFor { config with preset := some "strict" }
        (.seenFrom surroundings.toWorkplace surroundings.tree) none = .ok (rules, []) ∧
      (∃ unknown, rulesFor config (.seenFrom surroundings.toWorkplace surroundings.tree)
        (some filter) = .ok (rules.filter (isNamed names ·.descriptor), unknown)) ∧
      findings surroundings config path (some filter) exclude =
        (findings surroundings { config with preset := some "strict" } path none exclude).map
          (Report.restrict (isAbout names)) ∧
      (∀ preset other others, NamesIn ',' other.toList others →
        (∀ rule ∈ rules, isNamed others rule.descriptor = isNamed names rule.descriptor) →
        findings surroundings { config with preset := preset } path (some other) exclude =
          findings surroundings config path (some filter) exclude) ∧
      (∀ file format, surroundings.loadConfig (surroundings.configSource file) = .ok config →
        (check surroundings file path format (some filter) exclude).Shows failOn format
          (findings surroundings config path (some filter) exclude)) ∧
      ∀ file format, surroundings.loadConfig (surroundings.configSource file) =
          .ok { config with preset := some "strict" } →
        (check surroundings file path format none exclude).Shows failOn format
          (findings surroundings { config with preset := some "strict" } path none exclude) := by
  have named : NamesIn ',' filter.toList (filterNames filter) := filterNames_eq_iff.mp rfl
  obtain ⟨rules, options⟩ :=
    Config.options_exist valid (.seenFrom surroundings.toWorkplace surroundings.tree)
  have byFilter {other : String} {others : List String} (named : NamesIn ',' other.toList others)
      (preset : Option String) :
      findings surroundings { config with preset := preset } path (some other) exclude =
        analyse surroundings (planOf { config with preset := preset } path exclude
          (rules.filter (isNamed others ·.descriptor))) := by
    obtain ⟨unknown, chosen⟩ := rulesFor_filter options named preset
    have sameFail : { config with preset := preset }.failSeverity = .ok failOn := failsOn
    simp only [findings, sameFail, chosen, Except.mapError, bind, Except.bind]
  have byPreset : findings surroundings { config with preset := some "strict" } path none exclude =
      analyse surroundings (planOf { config with preset := some "strict" } path exclude rules) := by
    have sameFail : { config with preset := some "strict" }.failSeverity = .ok failOn := failsOn
    simp only [findings, sameFail, rulesFor_strict options, Except.mapError, bind, Except.bind]
  refine ⟨_, rules, named, options, rulesFor_strict options,
    rulesFor_filter options named config.preset, ?_, ?_, ?_, ?_⟩
  · rw [byPreset]
    exact (byFilter named config.preset).trans (analyse_filter options _ _ _ path exclude)
  · intro preset other others alsoNamed same
    have sameRules : rules.filter (isNamed others ·.descriptor) =
        rules.filter (isNamed (filterNames filter) ·.descriptor) := List.filter_congr same
    rw [byFilter alsoNamed, sameRules, analyse_filter options _ preset config.preset]
    exact ((byFilter named config.preset).trans (analyse_filter options _ _ _ path exclude)).symm
  · intro file format loaded
    exact check_shows loaded failsOn path (some filter) format exclude
  · intro file format loaded
    exact check_shows loaded failsOn path none format exclude

/-- A project with a codeunit in the namespace of one organization. -/
def office : Surroundings where
  workingDirectory := "/office"
  tree := { files := [(["office", "Desk.model.json"],
    ("\x7b\"file_path\":\"App/A/Codeunit/D.al\",\"nodes\":[" ++
      "\x7b\"kind\":\"Namespace\",\"children\":[1],\"text\":\"CIG\"\x7d," ++
      "\x7b\"kind\":\x7b\"Object\":\"Codeunit\"\x7d,\"parent\":0\x7d]\x7d").toUTF8)] }

/-- The smallest preset, with the name of another organization and a threshold. -/
def officeConfig : Config where
  preset := some "minimal"
  rules := [("Set-Load-Fields", { options := [("field_threshold", .integer 3)] }),
    ("cig0000", { options := [("organization", .string "Acme")] })]

theorem officeConfig_threshold {threshold : Int}
    (sets : officeConfig.Sets Rules.SetLoadFields.descriptor "field_threshold" .integer 10
      threshold) : threshold = 3 := by
  rw [← Config.sets_integer_iff.mp sets]
  decide +kernel

theorem officeConfig_valid : officeConfig.ValidOptions := by
  intro threshold gives
  rw [officeConfig_threshold (.given gives)]
  decide

/-- With the configured organization the codeunit is reported, and without it nothing is. -/
theorem check_filter_office :
    (∃ unknown, rulesFor officeConfig (.seenFrom office.toWorkplace office.tree)
      (some " Project-Structure ,unknown,cig0011") = .ok ([
        Rules.ProjectStructure.rule "Acme" (.seenFrom office.toWorkplace office.tree),
        Rules.SetLoadFields.rule 3], unknown)) ∧
    findings office officeConfig none (some " Project-Structure ,unknown,cig0011") [] =
      (findings office { officeConfig with preset := some "strict" } none none []).map
        (Report.restrict (isAbout ["Project-Structure", "unknown", "cig0011"])) ∧
    findings office { officeConfig with preset := none } none
        (some "CIG0011,project-structure,CIG0011") [] =
      findings office officeConfig none (some " Project-Structure ,unknown,cig0011") [] ∧
    (findings office officeConfig none
      (some " Project-Structure ,unknown,cig0011") []).toOption.map
        (fun report => report.violations.map (·.code)) = some ["CIG0000"] ∧
    (findings office { officeConfig with rules := [] } none
      (some " Project-Structure ,unknown,cig0011") []).toOption.map
        (fun report => report.violations.map (·.code)) = some [] := by
  obtain ⟨names, rules, named, options, _, ⟨unknown, chosen⟩, restricted, independent, _⟩ :=
    check_filter rfl officeConfig_valid office none [] " Project-Structure ,unknown,cig0011"
  obtain ⟨organization, threshold, setsOrganization, setsThreshold, rfl⟩ := options
  have isAcme : organization = "Acme" := by
    rw [← Config.sets_string_iff.mp setsOrganization]
    decide +kernel
  have isThree : threshold = 3 := Int.ofNat.inj (officeConfig_threshold setsThreshold)
  subst isAcme isThree
  have read : names = ["Project-Structure", "unknown", "cig0011"] := by
    rw [← filterNames_eq_iff.mpr named]
    decide +kernel
  subst read
  have others : NamesIn ',' "CIG0011,project-structure,CIG0011".toList
      ["CIG0011", "project-structure", "CIG0011"] := filterNames_eq_iff.mp (by decide +kernel)
  have alike : ∀ rule ∈ Catalog.descriptors.dropLast,
      isNamed ["CIG0011", "project-structure", "CIG0011"] rule =
        isNamed ["Project-Structure", "unknown", "cig0011"] rule := by
    decide +kernel
  refine ⟨⟨unknown, chosen⟩, restricted, independent none _ _ others ?_, ?_, ?_⟩
  · intro rule member
    exact alike rule.descriptor (List.mem_map_of_mem member)
  · decide +kernel
  · decide +kernel

end CommandLine

end ModelLint
