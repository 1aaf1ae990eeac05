import ModelLint.Proofs.Analysis
import ModelLint.Proofs.Discovery

namespace ModelLint

/-! What an analysis of a tree comes to.

The model files are checked in the order of their paths. Those that cannot be loaded are
skipped, or the first of them ends the analysis. The violations of all files are sorted once
more, so that only ties tell which file was checked first. -/

namespace Dispatch

/-- A run is only stopped once it has been cancelled. -/
theorem cancelled_of_stopped {registry : Registry} {sourcePath : String} {model : Model}
    {ids : List NodeId} {cancelled : Bool}
    (stopped : (showNodes registry sourcePath model ids cancelled).2 = true) :
    (showNodes registry sourcePath model ids cancelled).1.cancelled = true := by
  induction ids generalizing cancelled with
  | nil => cases stopped
  | cons id rest ih =>
      cases found : model.nodes[id]? with
      | none =>
          simp only [showNodes, found] at stopped ⊢
          exact ih stopped
      | some node =>
          by_cases here : cancelled = true ∧ node.parent = some model.root
          · simp [showNodes, found, here]
          · simp only [showNodes, found, here, if_false] at stopped ⊢
            exact ih stopped

theorem completed_of_uncancelled {rules : List Rule} {root : String} {model : Model}
    (quiet : (run rules root model false).cancelled = false) :
    (run rules root model false).completed = true := by
  simp only [run, Bool.false_eq_true, if_false] at quiet ⊢
  generalize shown : showNodes _ _ model _ false = onNodes at quiet ⊢
  have ends : onNodes.2 = true → onNodes.1.cancelled = true := shown ▸ cancelled_of_stopped
  by_cases ended : (onNodes.2 || onNodes.1.cancelled) = true
  · rw [if_pos ended] at quiet
    rcases Bool.or_eq_true_iff.mp ended with stopped | cancelled
    · cases quiet.symm.trans (ends stopped)
    · cases quiet.symm.trans cancelled
  · rw [if_neg ended]

end Dispatch

namespace Analysis

open Discovery (ModelFile)

variable {analysis : Analysis} {tree : FileTree} {files before rest : List ModelFile}
  {file : ModelFile} {model : Model} {parts : List (List Violation)}

/-- A file with a model. -/
def Loads (file : ModelFile) : Prop :=
  ∃ model, load file = .ok model

theorem loads_iff : Loads file ↔ (load file).isOk = true := by
  cases loading : load file with
  | error error => simp [Loads, loading, Except.isOk, Except.toBool]
  | ok model => simp [Loads, loading, Except.isOk, Except.toBool]

instance : DecidablePred Loads := fun _ => decidable_of_iff _ loads_iff.symm

/-- The models of those files that have one. -/
def loaded (files : List ModelFile) : List Model :=
  files.filterMap fun file => (load file).toOption

/-- The files that an analysis comes to before it ends. -/
def reached (analysis : Analysis) (files : List ModelFile) : List ModelFile :=
  if analysis.failOnLoadError then files.takeWhile (Loads ·) else files

/-- What checking a model comes to if nothing asks for cancellation. -/
def Finds (analysis : Analysis) (model : Model) (violations : List Violation) : Prop :=
  analysis.check model false = ⟨some violations, false⟩

theorem load_eq_error {error : AnalysisError} (failed : load file = .error error) :
    error = .unreadable file.path ∨ ∃ reason, error = .unloadable file.path reason := by
  cases text : String.fromUTF8? file.content with
  | none =>
      simp only [load, text, Except.error.injEq] at failed
      exact .inl failed.symm
  | some text' =>
      simp only [load, text] at failed
      cases read : Model.read text' with
      | error reason =>
          simp only [read, Except.mapError, Except.error.injEq] at failed
          exact .inr ⟨reason, failed.symm⟩
      | ok model => simp [read, Except.mapError] at failed

theorem finds_of_uncancelled (quiet : (analysis.check model false).cancelled = false) :
    ∃ violations, analysis.Finds model violations := by
  have quiet : (analysis.run model false).cancelled = false := quiet
  have completed : (analysis.run model false).completed = true :=
    Dispatch.completed_of_uncancelled quiet
  refine ⟨analysis.violationsOf model (analysis.run model false).diagnostics, ?_⟩
  simp only [Finds, check, completed, quiet, if_true]

theorem exists_parts {models : List Model}
    (quiet : ∀ model ∈ models, (analysis.check model false).cancelled = false) :
    ∃ parts, List.Forall₂ analysis.Finds models parts := by
  induction models with
  | nil => exact ⟨[], .nil⟩
  | cons model others ih =>
      obtain ⟨violations, here⟩ := finds_of_uncancelled (quiet model List.mem_cons_self)
      obtain ⟨parts, later⟩ := ih fun other member =>
        quiet other (List.mem_cons_of_mem model member)
      exact ⟨violations :: parts, .cons here later⟩

/-- Files that do not end the analysis only add to the report. -/
theorem checkFiles_append (passes : analysis.failOnLoadError = false ∨ ∀ file ∈ before, Loads file)
    (finds : List.Forall₂ analysis.Finds (loaded before) parts) (report : Report) :
    analysis.checkFiles (before ++ rest) false report =
      analysis.checkFiles rest false (report.append ⟨parts.flatten, (loaded before).length⟩) := by
  induction before generalizing parts report with
  | nil =>
      cases finds
      simp [loaded, Report.append]
  | cons file others ih =>
      have passesOthers := passes.imp_right fun all other member =>
        all other (List.mem_cons_of_mem file member)
      cases loading : load file with
      | error error =>
          have lenient : analysis.failOnLoadError = false := by
            rcases passes with lenient | all
            · exact lenient
            · obtain ⟨model, loads⟩ := all file List.mem_cons_self
              cases loading.symm.trans loads
          have skipped : loaded (file :: others) = loaded others := by
            simp [loaded, loading, Except.toOption]
          rw [skipped] at finds ⊢
          simp only [List.cons_append, checkFiles, loading, lenient, Bool.false_eq_true, if_false]
          exact ih passesOthers finds report
      | ok model =>
          have added : loaded (file :: others) = model :: loaded others := by
            simp [loaded, loading, Except.toOption]
          rw [added] at finds ⊢
          cases finds with
          | cons here later =>
              rw [Finds] at here
              simp only [List.cons_append, checkFiles, loading, here]
              rw [ih passesOthers later]
              congr 1
              simp [Report.append, Nat.add_assoc, Nat.add_comm 1]

/-- A file that comes behind none that ends the analysis is reached. -/
theorem mem_loaded_reached (passes : analysis.failOnLoadError = false ∨ ∀ file ∈ before, Loads file)
    (member : model ∈ loaded before) : model ∈ loaded (analysis.reached (before ++ rest)) := by
  obtain ⟨file, inside, loads⟩ := List.mem_filterMap.mp member
  refine List.mem_filterMap.mpr ⟨file, ?_, loads⟩
  unfold reached
  split
  next strict =>
    have all : ∀ file ∈ before, decide (Loads file) = true := by
      intro other among
      rcases passes with lenient | all
      · cases lenient.symm.trans strict
      · exact decide_eq_true (all other among)
    rw [List.takeWhile_append_of_pos all]
    exact List.mem_append_left _ inside
  next => exact List.mem_append_left rest inside

theorem exists_first_failure (fails : ∃ file ∈ files, ¬Loads file) :
    ∃ before file after error, files = before ++ file :: after ∧
      (∀ earlier ∈ before, Loads earlier) ∧ load file = .error error := by
  induction files with
  | nil => simp at fails
  | cons file others ih =>
      cases loading : load file with
      | error error => exact ⟨[], file, others, error, rfl, by simp, loading⟩
      | ok model =>
          have later : ∃ other ∈ others, ¬Loads other := by
            obtain ⟨other, among, lost⟩ := fails
            rcases List.mem_cons.mp among with rfl | among
            · exact absurd ⟨model, loading⟩ lost
            · exact ⟨other, among, lost⟩
          obtain ⟨before, first, after, error, split, earlier, failed⟩ := ih later
          refine ⟨file :: before, first, after, error, by rw [split]; rfl, ?_, failed⟩
          intro other among
          rcases List.mem_cons.mp among with rfl | among
          · exact ⟨model, loading⟩
          · exact earlier other among

theorem checkTree_of_run? (found : analysis.search.run? tree = some files) :
    analysis.checkTree tree false = (analysis.checkFiles files false {}).map Report.sort := by
  rw [checkTree, found]

/-- An analysis of a tree that nothing cancels checks the model files in the order of their
paths. Unless a file that cannot be loaded ends the analysis, it counts the files with a model
and sorts what was found in them; otherwise the first such file gives the error. The order in
which the files of the tree were listed does not matter. -/
theorem checkTree_reports (sound : tree.Sound) (found : analysis.search.run? tree = some files)
    (quiet : ∀ model ∈ loaded (analysis.reached files),
      (analysis.check model false).cancelled = false) :
    files.Pairwise ModelFile.Before ∧
    (analysis.failOnLoadError = false ∨ (∀ file ∈ files, Loads file) →
      ∃ parts sorted, List.Forall₂ analysis.Finds (loaded files) parts ∧
        Violation.StablySorts parts.flatten sorted ∧
        analysis.checkTree tree false = .ok ⟨sorted, (loaded files).length⟩) ∧
    (analysis.failOnLoadError = true → (∃ file ∈ files, ¬Loads file) →
      ∃ before file after error, files = before ++ file :: after ∧
        (∀ earlier ∈ before, Loads earlier) ∧ load file = .error error ∧
        (error = .unreadable file.path ∨ ∃ reason, error = .unloadable file.path reason) ∧
        analysis.checkTree tree false = .error error) ∧
    ∀ order, order.Perm tree.files →
      analysis.checkTree { tree with files := order } false = analysis.checkTree tree false := by
  have run := checkTree_of_run? found
  refine ⟨Discovery.Search.run?_inOrder sound found, ?_, ?_, ?_⟩
  · intro passes
    obtain ⟨parts, finds⟩ := exists_parts fun model member =>
      quiet model (List.append_nil files ▸ mem_loaded_reached passes member)
    refine ⟨parts, Violation.sort parts.flatten, finds, Violation.stablySorts_sort _, ?_⟩
    have checked : analysis.checkFiles files false {} =
        .ok (({} : Report).append ⟨parts.flatten, (loaded files).length⟩) := by
      rw [← List.append_nil files, checkFiles_append passes finds, checkFiles, List.append_nil]
    rw [run, checked]
    simp [Except.map, Report.sort, Report.append]
  · intro strict fails
    obtain ⟨before, file, after, error, rfl, earlier, failed⟩ := exists_first_failure fails
    refine ⟨before, file, after, error, rfl, earlier, failed, load_eq_error failed, ?_⟩
    obtain ⟨parts, finds⟩ := exists_parts fun model member =>
      quiet model (mem_loaded_reached (.inr earlier) member)
    rw [run, checkFiles_append (.inr earlier) finds]
    simp [checkFiles, failed, strict, Except.map]
  · intro order permuted
    rw [checkTree, checkTree, Discovery.Search.run?_eq_of_perm sound permuted]

/-- A model, a text that is no model and bytes that are no text. -/
def till : FileTree where
  files := [
    (["A.model.json"],
      "\x7b\"file_path\":\"T\",\"nodes\":[\x7b\"kind\":\"CompilationUnit\"\x7d]\x7d".toUTF8),
    (["B.model.json"], "[]".toUTF8),
    (["C.model.json"], ⟨#[255]⟩)]

def tillFiles : List ModelFile :=
  till.files.map fun file => ⟨"/" ++ "/".intercalate file.1, file.2⟩

/-- An analysis that objects to every model. -/
def objector (failOnLoadError : Bool) : Analysis :=
  { exitAnalysis with
    rules := [{ noExit with interests := [.node .compilationUnit] }]
    failOnLoadError := failOnLoadError }

theorem run?_till (failOnLoadError : Bool) :
    (objector failOnLoadError).search.run? till = some tillFiles := by
  have located : till.locate? "/" = some [] := by decide +kernel
  have usable : (objector false).search.isUsable till [] = true := by decide +kernel
  have faithful : Function.Injective fun file : ModelFile => (file.path, file.content) := by
    rintro ⟨path, content⟩ ⟨path', content'⟩ same
    simpa using same
  have listed : (objector false).search.accepted till [] = tillFiles :=
    List.map_injective_iff.mpr faithful (by decide +kernel)
  have inOrder : Discovery.Search.byPath tillFiles = tillFiles :=
    List.mergeSort_of_pairwise (by decide +kernel)
  change (objector false).search.run? till = some tillFiles
  rw [Discovery.Search.run?_of_locate? located, usable, if_pos rfl, listed, inOrder]

theorem checkTree_reports_till :
    (∃ sorted, (objector false).checkTree { till with files := till.files.reverse } false =
      .ok ⟨sorted, 1⟩) ∧
    ∃ error, (objector true).checkTree till false = .error error ∧
      (error = .unreadable "/B.model.json" ∨
        ∃ reason, error = .unloadable "/B.model.json" reason) := by
  have sound : till.Sound := by decide +kernel
  have first : ∀ file ∈ tillFiles[0]?, Loads file := by decide +kernel
  have second : ∀ file ∈ tillFiles[1]?, ¬Loads file ∧ file.path = "/B.model.json" := by
    decide +kernel
  have quiet (strict : Bool) : ∀ model ∈ loaded ((objector strict).reached tillFiles),
      ((objector strict).check model false).cancelled = false := by
    cases strict <;> decide +kernel
  constructor
  · obtain ⟨_, reports, _, anyOrder⟩ := checkTree_reports sound (run?_till false) (quiet false)
    obtain ⟨parts, sorted, _, _, checked⟩ := reports (.inl rfl)
    have one : (loaded tillFiles).length = 1 := by decide +kernel
    refine ⟨sorted, ?_⟩
    rw [anyOrder till.files.reverse till.files.reverse_perm, checked, one]
  · obtain ⟨_, _, fails, _⟩ := checkTree_reports sound (run?_till true) (quiet true)
    obtain ⟨before, file, after, error, split, earlier, failed, kind, checked⟩ :=
      fails rfl ⟨_, List.mem_of_getElem? (i := 1) rfl, (second _ rfl).1⟩
    refine ⟨error, checked, ?_⟩
    rcases before with _ | ⟨_, _ | ⟨another, before⟩⟩
    · obtain ⟨model, loading⟩ := first file (by rw [split]; rfl)
      cases failed.symm.trans loading
    · obtain ⟨_, path⟩ := second file (by rw [split]; rfl)
      rwa [path] at kind
    · exact absurd (earlier another (by simp)) (second another (by rw [split]; rfl)).1

end Analysis

end ModelLint
