import ModelLint.Proofs.Analysis.ByRule
import ModelLint.Proofs.Toml.Document

namespace ModelLint

open ModelLint.Toml (Value)

/-! The scope of a configuration.

A configuration file may have a table for the scope, and the table may leave out any of its keys.
A key that is left out gets the value that it has without a table, with one exception: a table
without exclusions excludes nothing, while the packages are excluded when there is no table. Adding
a table to a file therefore takes that exclusion away, whatever the table is about. -/

/-- What a table states about the scope: nothing for a key that is left out. -/
structure ScopeTable where
  root : Option String := none
  exclude : Option (List String) := none
  respectGitignore : Option Bool := none
deriving DecidableEq, Repr, Inhabited

/-- The scope that a table stands for. -/
def ScopeTable.scope (table : ScopeTable) : Scope where
  root := table.root.getD Scope.unspecified.root
  -- Not those of the unspecified scope.
  exclude := table.exclude.getD []
  respectGitignore := table.respectGitignore.getD Scope.unspecified.respectGitignore

namespace Config

variable {text extended : String} {config : Config} {entries fields : List (String × Value)}
  {table : ScopeTable}

section Entries

variable {α : Type} {key : String} {default value : α} {read : Value → Option α}

/-- What some entries state under a key, or nothing if the key is missing. -/
def States (entries : List (String × Value)) (key : String) (read : Value → Option α)
    (stated : Option α) : Prop :=
  (entries.lookup key).map read = stated.map some

theorem entry?_eq_some_iff :
    entry? entries key default read = some value ↔
      ∃ stated, States entries key read stated ∧ value = stated.getD default := by
  unfold entry? States
  cases entries.lookup key with
  | none =>
      constructor
      · intro same
        cases same
        exact ⟨none, rfl, rfl⟩
      · rintro ⟨stated, missing, rfl⟩
        cases stated with
        | none => rfl
        | some stated => contradiction
  | some found =>
      constructor
      · intro same
        exact ⟨some value, congrArg some same, rfl⟩
      · rintro ⟨stated, given, rfl⟩
        cases stated with
        | none => contradiction
        | some stated => exact Option.some.inj given

theorem entry?_congr {others : List (String × Value)}
    (same : others.lookup key = entries.lookup key) :
    entry? others key default read = entry? entries key default read := by
  unfold entry?
  rw [same]

end Entries

/-- The fields of a table state this about the scope. -/
structure StatesScope (fields : List (String × Value)) (table : ScopeTable) : Prop where
  root : States fields "root" Value.string? table.root
  exclude : States fields "exclude" (Value.listOf? Value.string?) table.exclude
  respectGitignore : States fields "respect_gitignore" Value.boolean? table.respectGitignore

theorem scope?_eq_some_iff {value : Value} {scope : Scope} :
    scope? value = some scope ↔
      ∃ fields, record? ["root", "exclude", "respect_gitignore"] value = some fields ∧
        ∃ table, StatesScope fields table ∧ scope = table.scope := by
  simp only [scope?, bind, Option.bind_eq_some_iff, entry?_eq_some_iff, pure, Option.some.injEq]
  constructor
  · rintro ⟨fields, isRecord, _, ⟨root, statesRoot, rfl⟩, _, ⟨exclude, statesExclude, rfl⟩, _,
      ⟨respect, statesRespect, rfl⟩, rfl⟩
    exact ⟨fields, isRecord, ⟨root, exclude, respect⟩,
      ⟨statesRoot, statesExclude, statesRespect⟩, rfl⟩
  · rintro ⟨fields, isRecord, table, states, rfl⟩
    exact ⟨fields, isRecord, _, ⟨_, states.root, rfl⟩, _, ⟨_, states.exclude, rfl⟩, _,
      ⟨_, states.respectGitignore, rfl⟩, rfl⟩

theorem ofToml?_eq_some_iff :
    ofToml? entries = some config ↔
      entry? entries "preset" none (fun value => value.string?.map some) = some config.preset ∧
      entry? entries "fail_on" none (fun value => value.string?.map some) = some config.failOn ∧
      entry? entries "analyzer" Scope.unspecified scope? = some config.scope ∧
      entry? entries "rules" [] rules? = some config.rules := by
  simp only [ofToml?, bind, Option.bind_eq_some_iff, pure, Option.some.injEq]
  constructor
  · rintro ⟨preset, isPreset, failOn, isFailOn, scope, isScope, rules, isRules, rfl⟩
    exact ⟨isPreset, isFailOn, isScope, isRules⟩
  · rintro ⟨isPreset, isFailOn, isScope, isRules⟩
    exact ⟨_, isPreset, _, isFailOn, _, isScope, _, isRules, rfl⟩

theorem parse_eq_ok_iff :
    parse text = .ok config ↔
      ∃ entries, Toml.parse? text = some entries ∧ ofToml? entries = some config := by
  unfold parse
  rw [← Option.bind_eq_some_iff]
  cases (Toml.parse? text).bind ofToml? with
  | none => simp
  | some found => simp

/-- The fields of the table for the scope, if the file has one. -/
def scopeFields? (text : String) : Option (List (String × Value)) := do
  let entries ← Toml.parse? text
  record? ["root", "exclude", "respect_gitignore"] (← entries.lookup "analyzer")

theorem scope_cases (accepted : parse text = .ok config) :
    ∃ entries, Toml.parse? text = some entries ∧
      (entries.lookup "analyzer" = none ∧ scopeFields? text = none ∧
          config.scope = Scope.unspecified ∨
        ∃ fields table, scopeFields? text = some fields ∧ StatesScope fields table ∧
          config.scope = table.scope) := by
  obtain ⟨entries, parsed, isConfig⟩ := parse_eq_ok_iff.mp accepted
  obtain ⟨_, _, isScope, _⟩ := ofToml?_eq_some_iff.mp isConfig
  unfold entry? at isScope
  simp only [scopeFields?, parsed, bind, Option.bind_some]
  refine ⟨entries, rfl, ?_⟩
  cases found : entries.lookup "analyzer" with
  | none =>
      rw [found] at isScope
      exact .inl ⟨rfl, rfl, (Option.some.inj isScope).symm⟩
  | some value =>
      rw [found] at isScope
      obtain ⟨fields, isRecord, table, states, same⟩ := scope?_eq_some_iff.mp isScope
      exact .inr ⟨fields, table, isRecord, states, same⟩

/-- The second text has this table for the scope and agrees with the first in every other entry. -/
def AddsScope (fields : List (String × Value)) (text extended : String) : Prop :=
  ∃ entries extendedEntries, Toml.parse? text = some entries ∧
    Toml.parse? extended = some extendedEntries ∧
    ∀ key, extendedEntries.lookup key =
      if key = "analyzer" then some (.table fields) else entries.lookup key

theorem parse_addsScope (accepted : parse text = .ok config) (adds : AddsScope fields text extended)
    (states : StatesScope fields table) :
    parse extended = .ok { config with scope := table.scope } := by
  obtain ⟨entries, extendedEntries, parsed, parsedToo, gains⟩ := adds
  obtain ⟨again, parsedAgain, isConfig⟩ := parse_eq_ok_iff.mp accepted
  obtain rfl : entries = again := Option.some.inj (parsed.symm.trans parsedAgain)
  obtain ⟨isPreset, isFailOn, _, isRules⟩ := ofToml?_eq_some_iff.mp isConfig
  have kept {key : String} (other : key ≠ "analyzer") :
      extendedEntries.lookup key = entries.lookup key := by
    rw [gains, if_neg other]
  have isScope : entry? extendedEntries "analyzer" Scope.unspecified scope? = some table.scope := by
    unfold entry?
    rw [gains, if_pos rfl]
    exact scope?_eq_some_iff.mpr ⟨fields, rfl, table, states, rfl⟩
  refine parse_eq_ok_iff.mpr ⟨extendedEntries, parsedToo, ?_⟩
  refine ofToml?_eq_some_iff.mpr ⟨?_, ?_, isScope, ?_⟩
  · rw [entry?_congr (kept (by decide)), isPreset]
  · rw [entry?_congr (kept (by decide)), isFailOn]
  · rw [entry?_congr (kept (by decide)), isRules]

theorem isBareName_analyzer : Toml.IsBareName "analyzer" := by
  constructor
  · decide
  · rw [← List.all_eq_true]
    decide

theorem addsScope_withTable {above below lines : String} (accepted : parse text = .ok config)
    (missing : scopeFields? text = none) (splits : Toml.Splits text above below)
    (isAbove : (Toml.parse? above).isSome) (starts : Toml.startsWithHeader below)
    (isBody : Toml.bodyFields? lines = some fields) :
    AddsScope fields text (Toml.withTable "analyzer" above lines below) := by
  obtain ⟨entries, parsed, ⟨absent, _, _⟩ | ⟨_, _, given, _⟩⟩ := scope_cases accepted
  · obtain ⟨extendedEntries, parsedToo, gains⟩ :=
      Toml.parse?_withTable parsed absent isBareName_analyzer splits isAbove starts isBody
    exact ⟨entries, extendedEntries, parsed, parsedToo, gains⟩
  · rw [missing] at given
    contradiction

end Config

/-- Whether one of some patterns excludes a file, by its path or its path from the root. -/
def excludedBy (patterns : List String) (path relative : String) : Bool :=
  patterns.any fun text => (Exclusion.Pattern.parse? text).any fun pattern =>
    pattern.fits path.toList || pattern.fits relative.toList

namespace Analysis

variable {plan : Plan} {workplace : Workplace} {analysis before : Analysis}

theorem exclude_of_ofPlan (built : ofPlan plan workplace = .ok analysis) :
    (plan.exclude ++ plan.config.scope.exclude).mapM Exclusion.Pattern.parse? =
      some analysis.exclude := by
  unfold ofPlan at built
  split at built
  · contradiction
  · rename_i exclude parsed
    cases built
    exact parsed

theorem any_of_mapM {α β : Type} {read : α → Option β} {items : List α} {results : List β}
    (each : items.mapM read = some results) (fits : β → Bool) :
    results.any fits = items.any fun item => (read item).any fits := by
  induction items generalizing results with
  | nil =>
      cases each
      rfl
  | cons item items ih =>
      rw [List.mapM_cons] at each
      obtain ⟨first, isFirst, each⟩ := Option.bind_eq_some_iff.mp each
      obtain ⟨others, areOthers, same⟩ := Option.bind_eq_some_iff.mp each
      cases same
      rw [List.any_cons, List.any_cons, ih areOthers, isFirst, Option.any_some]

theorem isExcluded_of_ofPlan (built : ofPlan plan workplace = .ok analysis)
    (path relative : String) :
    analysis.search.isExcluded path relative =
      (excludedBy plan.exclude path relative ||
        excludedBy plan.config.scope.exclude path relative) := by
  rw [Discovery.Search.isExcluded, search, any_of_mapM (exclude_of_ofPlan built), List.any_append]
  rfl

theorem ofPlan_without_exclude (built : ofPlan plan workplace = .ok before) (config : Config)
    (none : config.scope.exclude = []) :
    ∃ after, ofPlan { plan with config := config } workplace = .ok after ∧
      ∀ path relative, before.search.isExcluded path relative =
        (after.search.isExcluded path relative ||
          excludedBy plan.config.scope.exclude path relative) := by
  have parsed := exclude_of_ofPlan built
  rw [List.mapM_append] at parsed
  obtain ⟨own, isOwn, _⟩ := Option.bind_eq_some_iff.mp parsed
  have readable : ((plan.exclude ++ config.scope.exclude).mapM
      Exclusion.Pattern.parse?).isSome = true := by
    rw [none, List.append_nil, isOwn]
    rfl
  obtain ⟨after, builtToo⟩ := ofPlan_exists { plan with config := config } workplace readable
  refine ⟨after, builtToo, fun path relative => ?_⟩
  rw [isExcluded_of_ofPlan built, isExcluded_of_ofPlan builtToo, none]
  simp [excludedBy]

end Analysis

namespace Config

/-- Without a table the scope is the unspecified one. A table that leaves keys out gives the same
root and the same use of ignore files, but excludes nothing unless it has exclusions of its own.
A file without a table can be given one wherever a table may stand, which changes the scope and
nothing else. If the new table has no exclusions, then precisely the files that only the unspecified
scope excludes are no longer passed over. -/
theorem parse_fills_scope {text : String} {config : Config} (accepted : parse text = .ok config) :
    (scopeFields? text = none → config.scope = Scope.unspecified) ∧
    (∀ fields, scopeFields? text = some fields →
      ∃ table, StatesScope fields table ∧ config.scope = table.scope) ∧
    (scopeFields? text = none →
      (∀ above below lines fields, Toml.Splits text above below → (Toml.parse? above).isSome →
        Toml.startsWithHeader below → Toml.bodyFields? lines = some fields →
        AddsScope fields text (Toml.withTable "analyzer" above lines below)) ∧
      ∀ fields table extended, AddsScope fields text extended → StatesScope fields table →
        parse extended = .ok { config with scope := table.scope } ∧
        (table.exclude = none → ∀ plan workplace before, plan.config = config →
          Analysis.ofPlan plan workplace = .ok before →
          ∃ after,
            Analysis.ofPlan { plan with config := { config with scope := table.scope } }
              workplace = .ok after ∧
            ∀ path relative, before.search.isExcluded path relative =
              (after.search.isExcluded path relative ||
                excludedBy Scope.unspecified.exclude path relative))) := by
  obtain ⟨entries, _, ⟨_, missing, unspecified⟩ | ⟨fields, table, given, states, same⟩⟩ :=
    scope_cases accepted
  · refine ⟨fun _ => unspecified, fun fields given => ?_, fun _ => ⟨?_, ?_⟩⟩
    · rw [missing] at given
      contradiction
    · intro above below lines fields splits isAbove starts isBody
      exact addsScope_withTable accepted missing splits isAbove starts isBody
    · intro fields table extended adds states
      refine ⟨parse_addsScope accepted adds states, ?_⟩
      rintro leftOut plan workplace before rfl built
      have nothing : table.scope.exclude = [] := by rw [ScopeTable.scope, leftOut, Option.getD_none]
      rw [← unspecified]
      exact Analysis.ofPlan_without_exclude built _ nothing
  · rw [given]
    refine ⟨fun missing => by contradiction, fun others same => ?_, fun missing => by contradiction⟩
    cases same
    exact ⟨table, states, same⟩

def yard : Workplace where
  workingDirectory := "/yard"

/-- Whether an analysis of the yard passes over a package that lies there. -/
def passesOverPackage (analysis : Analysis) : Bool :=
  analysis.search.isExcluded "/yard/.alpackages/Dep.model.json" ".alpackages/Dep.model.json"

theorem exists_passesOver {config : Config} (usual : config.scope = Scope.unspecified) :
    ∃ analysis, Analysis.ofPlan { config := config } yard = .ok analysis ∧
      passesOverPackage analysis = true := by
  have readable : (Scope.unspecified.exclude.mapM Exclusion.Pattern.parse?).isSome = true := by
    decide +kernel
  obtain ⟨analysis, built⟩ :=
    Analysis.ofPlan_exists { config := config } yard (by rw [usual]; exact readable)
  refine ⟨analysis, built, ?_⟩
  have packages : excludedBy Scope.unspecified.exclude "/yard/.alpackages/Dep.model.json"
      ".alpackages/Dep.model.json" = true := by
    decide +kernel
  rw [passesOverPackage, Analysis.isExcluded_of_ofPlan built, usual, packages, Bool.or_true]

theorem not_passesOver {config : Config} {analysis : Analysis}
    (built : Analysis.ofPlan { config := config } yard = .ok analysis)
    (nothing : config.scope.exclude = []) : passesOverPackage analysis = false := by
  rw [passesOverPackage, Analysis.isExcluded_of_ofPlan built, nothing]
  rfl

/-- The table stands between a key and a header, and is about ignore files only. -/
theorem parse_fills_scope_strict :
    ∃ config, parse "preset = \"strict\"\n[rules.CIG0002]\nenabled = false\n" = .ok config ∧
      config.scope = Scope.unspecified ∧
      parse (Toml.withTable "analyzer" "preset = \"strict\"" "respect_gitignore = false"
        "[rules.CIG0002]\nenabled = false\n") =
          .ok { config with scope := { respectGitignore := false } } ∧
      ∃ before after, Analysis.ofPlan { config := config } yard = .ok before ∧
        Analysis.ofPlan { config := { config with scope := { respectGitignore := false } } } yard =
          .ok after ∧
        (∀ path relative, before.search.isExcluded path relative =
          (after.search.isExcluded path relative ||
            excludedBy Scope.unspecified.exclude path relative)) ∧
        passesOverPackage before = true ∧ passesOverPackage after = false := by
  have readable :
      (parse "preset = \"strict\"\n[rules.CIG0002]\nenabled = false\n").isOk = true := by
    decide +kernel
  have missing :
      (scopeFields? "preset = \"strict\"\n[rules.CIG0002]\nenabled = false\n").isNone = true := by
    decide +kernel
  have body : (Toml.bodyFields? "respect_gitignore = false").map (fun fields =>
      ((fields.lookup "root").map Value.string?,
        (fields.lookup "exclude").map (Value.listOf? Value.string?),
        (fields.lookup "respect_gitignore").map Value.boolean?)) =
      some (none, none, some (some false)) := by
    decide +kernel
  rw [Option.isNone_iff_eq_none] at missing
  obtain ⟨fields, isBody, stated⟩ := Option.map_eq_some_iff.mp body
  simp only [Prod.mk.injEq] at stated
  have states : StatesScope fields { respectGitignore := some false } :=
    ⟨stated.1, stated.2.1, stated.2.2⟩
  cases accepted : parse "preset = \"strict\"\n[rules.CIG0002]\nenabled = false\n" with
  | error error => simp [accepted, Except.isOk, Except.toBool] at readable
  | ok config =>
      obtain ⟨unspecified, _, added⟩ := parse_fills_scope accepted
      obtain ⟨written, extended⟩ := added missing
      have splits := Toml.Splits.atLine "preset = \"strict\"" "[rules.CIG0002]\nenabled = false\n"
      have adds := written _ _ _ _ splits (by decide +kernel) (by decide +kernel) isBody
      obtain ⟨parsed, loses⟩ := extended _ _ _ adds states
      obtain ⟨before, built, passes⟩ := exists_passesOver (unspecified missing)
      obtain ⟨after, builtToo, excluded⟩ := loses rfl { config := config } yard before rfl built
      exact ⟨config, rfl, unspecified missing, parsed, before, after, built, builtToo, excluded,
        passes, not_passesOver builtToo rfl⟩

theorem addsScope_emptyTable : AddsScope [] "" "[analyzer]\n" := by
  have nothing : Toml.statementsOf? [] = some [] := rfl
  have header := Toml.statementsOf?_lines isBareName_analyzer.statementsOf?_header nothing
  have parsed : Toml.parse? "[analyzer]\n" = some [("analyzer", .table [])] :=
    Toml.parse?_eq_some_iff.mpr ⟨_, header, rfl⟩
  refine ⟨[], _, rfl, parsed, fun key => ?_⟩
  by_cases isName : key = "analyzer"
  · simp [isName]
  · simp [isName, List.lookup_cons, beq_false_of_ne isName]

/-- An empty table for the scope takes the exclusion of packages away: what is passed over without
the table is looked at with it. -/
theorem parse_not_unspecified_emptyTable :
    AddsScope [] "" "[analyzer]\n" ∧ StatesScope [] {} ∧ scopeFields? "" = none ∧
    ∃ config extended, parse "" = .ok config ∧ parse "[analyzer]\n" = .ok extended ∧
      config.scope = Scope.unspecified ∧ extended.scope.exclude ≠ Scope.unspecified.exclude ∧
      ∃ before after, Analysis.ofPlan { config := config } yard = .ok before ∧
        Analysis.ofPlan { config := extended } yard = .ok after ∧
        passesOverPackage before = true ∧ passesOverPackage after = false := by
  have states : StatesScope [] {} := ⟨rfl, rfl, rfl⟩
  have accepted : parse "" = .ok {} := parse_eq_ok_iff.mpr ⟨[], rfl, rfl⟩
  have extended := parse_addsScope accepted addsScope_emptyTable states
  obtain ⟨before, built, passes⟩ := exists_passesOver (show ({} : Config).scope = _ from rfl)
  obtain ⟨after, builtToo, _⟩ :=
    Analysis.ofPlan_without_exclude built { scope := ScopeTable.scope {} } rfl
  exact ⟨addsScope_emptyTable, states, rfl, {}, _, accepted, extended, rfl, by decide, before,
    after, built, builtToo, passes, not_passesOver builtToo rfl⟩

end Config

end ModelLint
