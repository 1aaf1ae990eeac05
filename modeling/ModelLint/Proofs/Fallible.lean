import ModelLint.Rules.Calls

namespace ModelLint.Fallible

/-! Computations that may fail, and what they find where they do not.

`Succeeds` says of a computation that it does not fail, whatever its answer. `Decides`,
`Finds`, `Yields` and `Collects` say that the answer is exactly what fits. `Reports` relates the
places that a rule looks at to its findings: one for each place that calls for one, in the order
of the places. -/

variable {ε α β : Type}

theorem bind_eq_ok {first : Except ε α} {next : α → Except ε β} {result : β} :
    first >>= next = .ok result ↔ ∃ value, first = .ok value ∧ next value = .ok result := by
  cases first with
  | error reason => simp [bind, Except.bind]
  | ok value => simp [bind, Except.bind]

theorem andThen_eq_ok {first second : Except ε Unit} :
    (first >>= fun _ => second) = .ok () ↔ first = .ok () ∧ second = .ok () := by
  rw [bind_eq_ok]
  exact ⟨fun ⟨_, passed, rest⟩ => ⟨passed, rest⟩, fun ⟨passed, rest⟩ => ⟨(), passed, rest⟩⟩

theorem forM_eq_ok {values : List α} {check : α → Except ε Unit} :
    values.forM check = .ok () ↔ ∀ value ∈ values, check value = .ok () := by
  induction values with
  | nil => simp [List.forM, pure, Except.pure]
  | cons value rest ih =>
      change (check value >>= fun _ => rest.forM check) = .ok () ↔ _
      rw [andThen_eq_ok, ih, List.forall_mem_cons]

theorem andThen_eq_error {first second : Except ε Unit} {reason : ε} :
    (first >>= fun _ => second) = .error reason ↔
      first = .error reason ∨ first = .ok () ∧ second = .error reason := by
  cases first with
  | error other => simp [bind, Except.bind]
  | ok => simp [bind, Except.bind]

theorem exists_of_forM_eq_error {values : List α} {check : α → Except ε Unit} {reason : ε}
    (failed : values.forM check = .error reason) :
    ∃ value ∈ values, check value = .error reason := by
  induction values with
  | nil => cases failed
  | cons value rest ih =>
      rcases andThen_eq_error.mp failed with here | ⟨_, later⟩
      · exact ⟨value, by simp, here⟩
      · obtain ⟨other, member, reported⟩ := ih later
        exact ⟨other, List.mem_cons_of_mem _ member, reported⟩

def Succeeds (computation : Except ε α) : Prop :=
  ∃ value, computation = .ok value

/-- A question has an answer, and the answer is right. -/
def Decides (question : Except ε Bool) (holds : Prop) : Prop :=
  ∃ answer, question = .ok answer ∧ (answer = true ↔ holds)

/-- A search succeeds, and it finds the value that fits, if there is one. -/
def Finds (search : Except ε (Option α)) (fits : α → Prop) : Prop :=
  ∃ found, search = .ok found ∧ ∀ value, found = some value ↔ fits value

/-- A search succeeds, and it finds all values that fit and no others. -/
def Collects (search : Except ε (List α)) (fits : α → Prop) : Prop :=
  ∃ found, search = .ok found ∧ ∀ value, value ∈ found ↔ fits value

/-- A search succeeds with one value at most, which is the one that fits. -/
def Yields (search : Except ε (List α)) (fits : α → Prop) : Prop :=
  ∃ found : Option α, search = .ok found.toList ∧ ∀ value, found = some value ↔ fits value

theorem Decides.eq_false {question : Except ε Bool} {holds : Prop}
    (decides : Decides question holds) (fails : ¬ holds) : question = .ok false := by
  obtain ⟨answer, answered, right⟩ := decides
  rw [answered, Bool.eq_false_iff.mpr fun isTrue => fails (right.mp isTrue)]

theorem Decides.not_of_eq_false {question : Except ε Bool} {holds : Prop}
    (decides : Decides question holds) (isFalse : question = .ok false) : ¬ holds := by
  obtain ⟨answer, answered, right⟩ := decides
  obtain rfl : false = answer := by simpa [isFalse] using answered
  simp [← right]

theorem Finds.eq_some {search : Except ε (Option α)} {fits : α → Prop} {value : α}
    (finds : Finds search fits) (fitting : fits value) : search = .ok (some value) := by
  obtain ⟨found, succeeded, exact⟩ := finds
  rw [succeeded, (exact value).mpr fitting]

theorem Finds.of_eq_some {search : Except ε (Option α)} {fits : α → Prop} {value : α}
    (finds : Finds search fits) (isSome : search = .ok (some value)) : fits value := by
  obtain ⟨found, succeeded, exact⟩ := finds
  exact (exact value).mp (by simpa [isSome] using succeeded.symm)

theorem Finds.congr {search : Except ε (Option α)} {fits same : α → Prop}
    (finds : Finds search fits) (iff : ∀ value, fits value ↔ same value) : Finds search same := by
  obtain ⟨found, succeeded, exact⟩ := finds
  exact ⟨found, succeeded, fun value => (exact value).trans (iff value)⟩

theorem Finds.cases {search : Except ε (Option α)} {fits : α → Prop} (finds : Finds search fits) :
    (search = .ok none ∧ ∀ value, ¬ fits value) ∨
      ∃ value, search = .ok (some value) ∧ fits value ∧ ∀ other, fits other → other = value := by
  obtain ⟨found, succeeded, exact⟩ := finds
  cases found with
  | none => exact .inl ⟨succeeded, fun value fitting => by simpa using (exact value).mpr fitting⟩
  | some value =>
      exact .inr ⟨value, succeeded, (exact value).mp rfl,
        fun other fitting => by simpa using ((exact other).mpr fitting).symm⟩

/-- A second search goes on from what a first one has found. -/
theorem Finds.andThen {search : Except ε (Option α)} {next : Option α → Except ε (Option β)}
    {fits : α → Prop} {rest : α → β → Prop} (first : Finds search fits)
    (missing : next none = .ok none)
    (second : ∀ value, fits value → Finds (next (some value)) (rest value)) :
    Finds (search >>= next) fun result => ∃ value, fits value ∧ rest value result := by
  rcases first.cases with ⟨none, absent⟩ | ⟨value, some, fitting, unique⟩
  · exact ⟨.none, by rw [none]; exact missing, fun result => by simp [absent]⟩
  · obtain ⟨found, succeeded, exact⟩ := second value fitting
    refine ⟨found, by rw [some]; exact succeeded, fun result => ?_⟩
    rw [exact]
    constructor
    · exact fun fits => ⟨value, fitting, fits⟩
    · intro given
      obtain ⟨other, otherFits, fits⟩ := given
      rwa [← unique other otherFits]

theorem finds_none {fits : α → Prop} (unfit : ∀ value, ¬ fits value) :
    Finds (.ok none : Except ε (Option α)) fits :=
  ⟨none, rfl, fun value => by simp [unfit value]⟩

theorem finds_some {fits : α → Prop} {value : α} (fitting : fits value)
    (unique : ∀ other, fits other → other = value) :
    Finds (.ok (some value) : Except ε (Option α)) fits :=
  ⟨some value, rfl, fun other => ⟨fun same => by cases same; exact fitting,
    fun otherFits => by rw [unique other otherFits]⟩⟩

theorem yields_nothing {fits : α → Prop} (unfit : ∀ value, ¬ fits value) :
    Yields (.ok [] : Except ε (List α)) fits :=
  ⟨none, rfl, fun value => by simp [unfit value]⟩

theorem yields_one {fits : α → Prop} {value : α} (fitting : fits value)
    (unique : ∀ other, fits other → other = value) :
    Yields (.ok [value] : Except ε (List α)) fits := by
  refine ⟨some value, rfl, fun other => ⟨fun same => ?_, fun otherFits => ?_⟩⟩
  · obtain rfl : value = other := by simpa using same
    exact fitting
  · rw [unique other otherFits]

theorem Yields.collects {search : Except ε (List α)} {fits : α → Prop}
    (yields : Yields search fits) : Collects search fits := by
  obtain ⟨found, succeeded, exact⟩ := yields
  exact ⟨found.toList, succeeded, fun value => by rw [Option.mem_toList]; exact exact value⟩

theorem collects_nil {fits : α → Prop} (unfit : ∀ value, ¬ fits value) :
    Collects (.ok [] : Except ε (List α)) fits :=
  (yields_nothing unfit).collects

theorem collects_singleton {fits : α → Prop} {value : α} (fitting : fits value)
    (unique : ∀ other, fits other → other = value) :
    Collects (.ok [value] : Except ε (List α)) fits :=
  (yields_one fitting unique).collects

theorem succeeds_ok (value : α) : Succeeds (.ok value : Except ε α) :=
  ⟨value, rfl⟩

theorem Succeeds.andThen {first : Except ε α} {next : α → Except ε β} (succeeds : Succeeds first)
    (rest : ∀ value, first = .ok value → Succeeds (next value)) : Succeeds (first >>= next) := by
  obtain ⟨value, isOk⟩ := succeeds
  rw [isOk]
  exact rest value isOk

theorem Succeeds.following {first : Except ε α} {next : α → Except ε β} {value : α}
    (isOk : first = .ok value) (rest : Succeeds (next value)) : Succeeds (first >>= next) := by
  rw [isOk]
  exact rest

theorem Decides.succeeds {question : Except ε Bool} {holds : Prop}
    (decides : Decides question holds) : Succeeds question := by
  obtain ⟨answer, isOk, _⟩ := decides
  exact ⟨answer, isOk⟩

theorem Finds.succeeds {search : Except ε (Option α)} {fits : α → Prop}
    (finds : Finds search fits) : Succeeds search := by
  obtain ⟨found, isOk, _⟩ := finds
  exact ⟨found, isOk⟩

theorem Yields.succeeds {search : Except ε (List α)} {fits : α → Prop}
    (yields : Yields search fits) : Succeeds search := by
  obtain ⟨found, isOk, _⟩ := yields
  exact ⟨found.toList, isOk⟩

/-- What follows a search succeeds if it does so both without a value and with one that
fits. -/
theorem Finds.succeeds_andThen {search : Except ε (Option α)} {next : Option α → Except ε β}
    {fits : α → Prop} (finds : Finds search fits) (missing : Succeeds (next none))
    (given : ∀ value, fits value → Succeeds (next (some value))) : Succeeds (search >>= next) := by
  rcases finds.cases with ⟨isNone, _⟩ | ⟨value, isSome, fitting, _⟩
  · rw [isNone]
    exact missing
  · rw [isSome]
    exact given value fitting

/-- The findings are those of the places that have one, in the order of the places. -/
inductive Reports (report : α → β → Prop) : List α → List β → Prop where
  | nil : Reports report [] []
  | silent {place : α} {places : List α} {findings : List β}
      (nothing : ∀ finding, ¬ report place finding) (rest : Reports report places findings) :
      Reports report (place :: places) findings
  | reported {place : α} {finding : β} {places : List α} {findings : List β}
      (here : report place finding) (rest : Reports report places findings) :
      Reports report (place :: places) (finding :: findings)

theorem Reports.congr {report same : α → β → Prop} {places : List α} {findings : List β}
    (reports : Reports report places findings)
    (iff : ∀ place ∈ places, ∀ finding, report place finding ↔ same place finding) :
    Reports same places findings := by
  induction reports with
  | nil => exact .nil
  | silent nothing _ ih =>
      exact .silent (fun finding fits => nothing finding ((iff _ (by simp) finding).mpr fits))
        (ih fun place member => iff place (List.mem_cons_of_mem _ member))
  | reported here _ ih =>
      exact .reported ((iff _ (by simp) _).mp here)
        (ih fun place member => iff place (List.mem_cons_of_mem _ member))

theorem Reports.exists_of_mem {report : α → β → Prop} {places : List α} {findings : List β}
    (reports : Reports report places findings) {finding : β} (member : finding ∈ findings) :
    ∃ place ∈ places, report place finding := by
  induction reports with
  | nil => simp at member
  | silent _ _ ih =>
      obtain ⟨place, inPlaces, reported⟩ := ih member
      exact ⟨place, List.mem_cons_of_mem _ inPlaces, reported⟩
  | reported here _ ih =>
      rcases List.mem_cons.mp member with rfl | later
      · exact ⟨_, by simp, here⟩
      · obtain ⟨place, inPlaces, reported⟩ := ih later
        exact ⟨place, List.mem_cons_of_mem _ inPlaces, reported⟩

theorem reports_nothing {report : α → β → Prop} {places : List α}
    (nothing : ∀ place ∈ places, ∀ finding, ¬ report place finding) : Reports report places [] := by
  induction places with
  | nil => exact .nil
  | cons place rest ih =>
      exact .silent (nothing place (by simp))
        (ih fun other member => nothing other (List.mem_cons_of_mem _ member))

theorem reports_filterMap {report : α → β → Prop} {find : α → Option β} {places : List α}
    (exact : ∀ place ∈ places, ∀ finding, find place = some finding ↔ report place finding) :
    Reports report places (places.filterMap find) := by
  induction places with
  | nil => exact .nil
  | cons place rest ih =>
      have later := ih fun other member => exact other (List.mem_cons_of_mem _ member)
      have here := exact place (by simp)
      cases found : find place with
      | none =>
          rw [List.filterMap_cons_none found]
          exact .silent (fun finding fits => by simpa [found] using (here finding).mpr fits) later
      | some finding =>
          rw [List.filterMap_cons_some found]
          exact .reported ((here finding).mp found) later

end ModelLint.Fallible

namespace ModelLint.Model

open Fallible

variable {α β : Type} {places : List α}

theorem gather_append {find : α → Except MissingId (List β)} (left right : List α) :
    gather find (left ++ right) = do
      let before ← gather find left
      let after ← gather find right
      return before ++ after := by
  induction left with
  | nil =>
      cases later : gather find right <;>
        simp [gather, later, bind, Except.bind, pure, Except.pure]
  | cons place rest ih =>
      cases here : find place <;> cases before : gather find rest <;>
        cases after : gather find right <;>
        simp [gather, ih, here, before, after, bind, Except.bind, pure, Except.pure]

theorem gather_congr {find other : α → Except MissingId (List β)}
    (same : ∀ place ∈ places, find place = other place) :
    gather find places = gather other places := by
  induction places with
  | nil => rfl
  | cons place rest ih =>
      simp only [gather, same place (by simp),
        ih fun next member => same next (List.mem_cons_of_mem _ member)]

theorem gather_forall {find : α → Except MissingId (List β)} {holds : β → Prop}
    (each : ∀ place ∈ places, ∃ found, find place = .ok found ∧ ∀ value ∈ found, holds value) :
    ∃ found, gather find places = .ok found ∧ ∀ value ∈ found, holds value := by
  induction places with
  | nil => exact ⟨[], rfl, by simp⟩
  | cons place rest ih =>
      obtain ⟨found, here, foundHold⟩ := each place (by simp)
      obtain ⟨later, there, laterHold⟩ :=
        ih fun other member => each other (List.mem_cons_of_mem _ member)
      refine ⟨found ++ later, ?_, fun value member => ?_⟩
      · simp only [gather, here, there, bind, Except.bind, pure, Except.pure]
      · exact (List.mem_append.mp member).elim (foundHold value) (laterHold value)

theorem gather_succeeds {find : α → Except MissingId (List β)}
    (each : ∀ place ∈ places, Succeeds (find place)) : Succeeds (gather find places) := by
  have eachTrue (place : α) (member : place ∈ places) :
      ∃ found, find place = .ok found ∧ ∀ value ∈ found, True := by
    obtain ⟨found, isOk⟩ := each place member
    exact ⟨found, isOk, by simp⟩
  obtain ⟨found, gathered, _⟩ := gather_forall eachTrue
  exact ⟨found, gathered⟩

theorem gather_collects {find : α → Except MissingId (List β)} {fits : α → β → Prop}
    (each : ∀ place ∈ places, Collects (find place) (fits place)) :
    Collects (gather find places) fun value => ∃ place ∈ places, fits place value := by
  induction places with
  | nil => exact collects_nil (by simp)
  | cons place rest ih =>
      obtain ⟨found, here, hereExact⟩ := each place (by simp)
      obtain ⟨later, there, thereExact⟩ :=
        ih fun other member => each other (List.mem_cons_of_mem _ member)
      refine ⟨found ++ later, ?_, fun value => ?_⟩
      · simp only [gather, here, there, bind, Except.bind, pure, Except.pure]
      · simp [hereExact, thereExact]

theorem gather_yields {find : α → Except MissingId (List β)} {report : α → β → Prop}
    (each : ∀ place ∈ places, Yields (find place) (report place)) :
    ∃ findings, gather find places = .ok findings ∧ Reports report places findings := by
  induction places with
  | nil => exact ⟨[], rfl, .nil⟩
  | cons place rest ih =>
      obtain ⟨found, here, exact⟩ := each place (by simp)
      obtain ⟨findings, gathered, reports⟩ :=
        ih fun other member => each other (List.mem_cons_of_mem _ member)
      refine ⟨found.toList ++ findings, ?_, ?_⟩
      · simp only [gather, here, gathered, bind, Except.bind, pure, Except.pure]
      · cases found with
        | none =>
            exact .silent (fun finding fits => by simpa using (exact finding).mpr fits) reports
        | some finding => exact .reported ((exact finding).mp rfl) reports

theorem gather_singleton {find : α → Except MissingId (List β)} (place : α) :
    gather find [place] = find place := by
  cases here : find place <;> simp [gather, here, bind, Except.bind, pure, Except.pure]

/-- Gathering what is gathered at each place is gathering at all of them. -/
theorem gather_map_eq {γ : Type} {outer : γ → Except MissingId (List β)} {step : α → γ}
    {inner : γ → Except MissingId (List β)} {parts : α → List γ}
    (each : ∀ place ∈ places, outer (step place) = gather inner (parts place)) :
    gather outer (places.map step) = gather inner (places.flatMap parts) := by
  induction places with
  | nil => rfl
  | cons place rest ih =>
      have later := ih fun other member => each other (List.mem_cons_of_mem _ member)
      simp only [List.map_cons, List.flatMap_cons, gather_append, gather, later,
        each place (by simp)]

/-- What is found for each of the values reported, reported in turn. -/
theorem gather_reports {γ : Type} {find : β → Except MissingId (List γ)} {values : List β}
    {report : α → β → Prop} {shows : β → γ → Prop}
    (each : ∀ place value, report place value →
      ∃ found, find value = .ok [found] ∧ shows value found)
    (reports : Reports report places values) :
    ∃ results, gather find values = .ok results ∧
      Reports (fun place result => ∃ value, report place value ∧ shows value result)
        places results := by
  induction reports with
  | nil => exact ⟨[], rfl, .nil⟩
  | silent nothing _ ih =>
      obtain ⟨results, gathered, rest⟩ := ih
      refine ⟨results, gathered, .silent (fun result shown => ?_) rest⟩
      obtain ⟨value, reported, _⟩ := shown
      exact nothing value reported
  | reported here _ ih =>
      obtain ⟨found, succeeded, shown⟩ := each _ _ here
      obtain ⟨results, gathered, rest⟩ := ih
      refine ⟨found :: results, ?_, .reported ⟨_, here, shown⟩ rest⟩
      simp [gather, succeeded, gathered, bind, Except.bind, pure, Except.pure]

end ModelLint.Model
