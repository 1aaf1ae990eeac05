import ModelLint.Allowance
import ModelLint.Config
import ModelLint.Discovery
import ModelLint.Dispatch
import ModelLint.Report

namespace ModelLint

/-! Analyses: rules with a configuration, applied to models or to all model files below
a directory. -/

inductive AnalysisError where
  /-- The files cannot be found. -/
  | search
  /-- An exclude pattern cannot be read. -/
  | pattern
  | unreadable (path : String)
  | unloadable (path : String) (error : LoadError)
  | cancelled
deriving Repr, Inhabited

structure Analysis where
  /-- Absolute path from which files are looked for. -/
  root : String
  /-- The enabled rules. -/
  rules : List Rule
  exclude : List Exclusion.Pattern
  config : Config
  /-- Whether a model file that cannot be loaded ends the analysis. -/
  failOnLoadError : Bool
  workplace : Workplace
deriving Inhabited

namespace Analysis

/-- What an analysis is made from. -/
structure Plan where
  /-- The root; without one, that of the configuration. -/
  root : Option String := none
  rules : List Rule := []
  /-- Patterns besides those of the configuration. -/
  exclude : List String := []
  config : Config := {}
  failOnLoadError : Bool := false
deriving Inhabited

/-- Makes an analysis. Relative roots are taken from the working directory, and disabled
rules are left out. -/
def ofPlan (plan : Plan) (workplace : Workplace) : Except AnalysisError Analysis :=
  match (plan.exclude ++ plan.config.scope.exclude).mapM Exclusion.Pattern.parse? with
  | none => .error .pattern
  | some exclude => .ok {
      root := workplace.absolute (plan.root.getD plan.config.scope.root)
      rules := plan.rules.filter fun rule => plan.config.isEnabled rule.descriptor
      exclude := exclude
      config := plan.config
      failOnLoadError := plan.failOnLoadError
      workplace := workplace }

/-- Runs the rules over a model. The diagnostics are raw: allowances, severities and the
order of violations do not matter yet. -/
def run (analysis : Analysis) (model : Model) (cancelled : Bool) : Dispatch.Run :=
  Dispatch.run analysis.rules analysis.root model cancelled

/-- The descriptor with this code: that of failed rules or of an enabled rule. -/
def descriptor? (analysis : Analysis) (id : String) : Option Descriptor :=
  (Descriptor.ruleFault :: analysis.rules.map (·.descriptor)).find? (·.id = id)

def isAllowed (model : Model) (rule : Descriptor) (diagnostic : Diagnostic) : Bool :=
  match diagnostic.anchor with
  | none => false
  | some node =>
      match model.allowance node rule with
      | .ok allowance => allowance.isSome
      | .error _ => false

/-- The place of a diagnostic in the source file of the model. -/
def locationOf (model : Model) : Place → Location
  | .span span => { span with file := model.filePath }
  | .file => Location.ofFile model.filePath

/-- What is shown of a diagnostic: nothing if an allowance covers it. -/
def violation? (analysis : Analysis) (model : Model) (diagnostic : Diagnostic) :
    Option Violation := do
  let rule ← analysis.descriptor? diagnostic.ruleId
  if isAllowed model rule diagnostic then none
  return {
    code := rule.id
    rule := rule.name
    severity := analysis.config.severityOf rule
    location := locationOf model diagnostic.place
    message := rule.format diagnostic.args
    category := rule.category
    help := some rule.title }

/-- The violations that some diagnostics amount to, sorted. -/
def violationsOf (analysis : Analysis) (model : Model) (diagnostics : List Diagnostic) :
    List Violation :=
  Violation.sort (diagnostics.filterMap (analysis.violation? model))

/-- What came of checking a model. -/
structure Check where
  /-- The violations, unless the run was cancelled. -/
  violations : Option (List Violation)
  /-- Whether cancellation had been asked for in the end. -/
  cancelled : Bool
deriving Repr, Inhabited

def check (analysis : Analysis) (model : Model) (cancelled : Bool) : Check :=
  let run := analysis.run model cancelled
  let violations :=
    if run.completed then some (analysis.violationsOf model run.diagnostics) else none
  ⟨violations, run.cancelled⟩

/-- Loads a model file, which has to be text. -/
def load (file : Discovery.ModelFile) : Except AnalysisError Model :=
  match String.fromUTF8? file.content with
  | none => .error (.unreadable file.path)
  | some text => (Model.read text).mapError (AnalysisError.unloadable file.path)

/-- Checks model files in turn, adding to a report. -/
def checkFiles (analysis : Analysis) :
    (files : List Discovery.ModelFile) → (cancelled : Bool) → Report → Except AnalysisError Report
  | [], _, report => .ok report
  | file :: rest, cancelled, report =>
      match load file with
      | .error error =>
          if analysis.failOnLoadError then .error error
          else analysis.checkFiles rest cancelled report
      | .ok model =>
          let checked := analysis.check model cancelled
          match checked.violations with
          | none => .error .cancelled
          | some violations =>
              analysis.checkFiles rest checked.cancelled (report.append ⟨violations, 1⟩)

def search (analysis : Analysis) : Discovery.Search where
  root := analysis.root
  exclude := analysis.exclude
  respectGitignore := analysis.config.scope.respectGitignore
  workplace := analysis.workplace

/-- Finds and checks all model files of a tree. -/
def checkTree (analysis : Analysis) (tree : FileTree) (cancelled : Bool) :
    Except AnalysisError Report :=
  match analysis.search.run? tree with
  | none => .error .search
  | some files => (analysis.checkFiles files cancelled {}).map Report.sort

end Analysis

end ModelLint
