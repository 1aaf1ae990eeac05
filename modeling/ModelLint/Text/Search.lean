namespace ModelLint.Text

/-! Finding and cutting pieces of a text, given as its list of characters. -/

/-- What follows `lead`, provided the text starts with it. -/
def after? : (lead text : List Char) → Option (List Char)
  | [], text => some text
  | _ :: _, [] => none
  | c :: lead, d :: text => if c = d then after? lead text else none

/-- What stands before `tail`, provided the text ends with it. -/
def before? (tail text : List Char) : Option (List Char) :=
  (after? tail.reverse text.reverse).map List.reverse

/-- The text on either side of the first `mark`. -/
def cut? (mark : Char) : List Char → Option (List Char × List Char)
  | [] => none
  | c :: rest =>
      if c = mark then some ([], rest)
      else (cut? mark rest).map fun (before, behind) => (c :: before, behind)

/-- The pieces between the marks. A text without a mark is its only piece. -/
def pieces (mark : Char) : List Char → List (List Char)
  | [] => [[]]
  | c :: rest =>
      if c = mark then [] :: pieces mark rest
      else match pieces mark rest with
        | [] => [[c]]
        | piece :: others => (c :: piece) :: others

/-- Whether `part` stands somewhere in the text, as a run of neighbours. -/
def occursIn (part : List Char) : List Char → Bool
  | [] => part.isEmpty
  | c :: rest => part.isPrefixOf (c :: rest) || occursIn part rest

/-- The ends of a text, the whole text first. -/
def ends {α : Type} : List α → List (List α)
  | [] => [[]]
  | c :: rest => (c :: rest) :: ends rest

/-- The ends of a text that stand behind a mark. -/
def endsBehind {α : Type} [DecidableEq α] (mark : α) : List α → List (List α)
  | [] => []
  | c :: rest => if c = mark then rest :: endsBehind mark rest else endsBehind mark rest

theorem after?_eq_some_iff {lead text rest : List Char} :
    after? lead text = some rest ↔ text = lead ++ rest := by
  induction lead generalizing text with
  | nil => simp [after?, eq_comm]
  | cons c lead ih =>
      cases text with
      | nil => simp [after?]
      | cons d text =>
          by_cases same : c = d
          · simp [after?, same, ih]
          · simp [after?, same, Ne.symm same]

theorem cut?_eq_some {mark : Char} {text before behind : List Char}
    (found : cut? mark text = some (before, behind)) :
    text = before ++ mark :: behind ∧ mark ∉ before := by
  induction text generalizing before with
  | nil => simp [cut?] at found
  | cons c rest ih =>
      by_cases here : c = mark
      · simp [cut?, here] at found
        obtain ⟨rfl, rfl⟩ := found
        simp [here]
      · simp only [cut?, here, if_false, Option.map_eq_some_iff] at found
        obtain ⟨⟨inner, tail⟩, tailFound, same⟩ := found
        simp only [Prod.mk.injEq] at same
        obtain ⟨rfl, rfl⟩ := same
        obtain ⟨split, absent⟩ := ih tailFound
        exact ⟨by simp [split], by simp [absent, Ne.symm here]⟩

theorem length_of_cut? {mark : Char} {text before behind : List Char}
    (found : cut? mark text = some (before, behind)) : behind.length < text.length := by
  obtain ⟨rfl, _⟩ := cut?_eq_some found
  simp only [List.length_append, List.length_cons]
  omega

end ModelLint.Text
