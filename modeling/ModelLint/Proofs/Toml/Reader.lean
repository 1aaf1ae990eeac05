import ModelLint.Proofs.Toml.Lines

namespace ModelLint.Toml

/-! Documents below one another.

A value, and then a statement, is read alike with further lines below it. The statements of a text
that stands below another one therefore follow the statements of that other one. Main statement:
`statementsOf?_lines`. -/

variable {read : Reading Value} {text start rest : List Char} {bound wider : Nat}

theorem items?_closed (skipped : skipLines false text = ']' :: rest) :
    items? read (bound + 1) text = some ([], rest) := by
  rw [items?, skipped]
  rfl

theorem items?_opened (skipped : skipLines false text = start) (opened : start.head? ≠ some ']') :
    items? read (bound + 1) text = (read start).bind fun taken =>
      match skipLines false taken.2 with
      | ']' :: rest => some ([taken.1], rest)
      | ',' :: rest =>
          (items? read bound rest).bind fun others => some (taken.1 :: others.1, others.2)
      | _ => none := by
  rw [items?, skipped]
  split
  · exact absurd rfl opened
  · rfl

theorem items?_lines {items : List Value} (isLocal : Local read) (notEmpty : read [] = none)
    (notReturn : read ['\r'] = none) (within : bound ≤ wider)
    (found : items? read bound text = some (items, rest)) (more : List Char) :
    items? read wider (text ++ '\n' :: more) = some (items, rest ++ '\n' :: more) := by
  induction bound generalizing wider text items rest with
  | zero => contradiction
  | succ bound ih =>
      obtain ⟨wider, rfl⟩ := Nat.exists_eq_add_of_le' (Nat.le_of_add_left_le within)
      cases skipped : skipLines false text with
      | nil =>
          rw [items?_opened skipped (by simp), notEmpty] at found
          contradiction
      | cons c start =>
          by_cases closed : c = ']'
          · subst closed
            rw [items?_closed skipped] at found
            cases found
            exact items?_closed (skipLines_mark skipped (by simp) more)
          · have opened : (c :: start).head? ≠ some ']' := by simpa using closed
            rw [items?_opened skipped opened] at found
            obtain ⟨⟨value, behind⟩, taken, later⟩ := Option.bind_eq_some_iff.mp found
            have apart : c :: start ≠ ['\r'] := by
              intro same
              rw [same, notReturn] at taken
              contradiction
            rw [items?_opened (skipLines_mark skipped apart more) (by simpa using closed)]
            refine Option.bind_eq_some_iff.mpr ⟨_, isLocal.lines taken more, ?_⟩
            dsimp only at later ⊢
            split at later
            · rename_i tail closing
              cases later
              rw [skipLines_mark closing (by simp)]
              rfl
            · rename_i tail comma
              obtain ⟨⟨others, final⟩, takenOthers, same⟩ := Option.bind_eq_some_iff.mp later
              cases same
              rw [skipLines_mark comma (by simp)]
              exact Option.bind_eq_some_iff.mpr ⟨_, ih (by omega) takenOthers, rfl⟩
            · contradiction

theorem pair?_local (isLocal : Local read) : Local (pair? read) := by
  intro text pair rest found more
  simp only [pair?, bind, Option.bind_eq_some_iff] at found ⊢
  obtain ⟨⟨key, behind⟩, taken, later⟩ := found
  refine ⟨_, key?_local.lines taken more, ?_⟩
  dsimp only at later ⊢
  split at later
  · rename_i tail
    obtain ⟨⟨value, final⟩, takenValue, same⟩ := Option.bind_eq_some_iff.mp later
    cases same
    have takenLines := isLocal.lines takenValue more
    rw [← skipSpace_lines] at takenLines
    exact Option.bind_eq_some_iff.mpr ⟨_, takenLines, rfl⟩
  · contradiction

theorem pairs?_lines {pairs : List (Key × Value)} (isLocal : Local read) (within : bound ≤ wider)
    (found : pairs? read bound text = some (pairs, rest)) (more : List Char) :
    pairs? read wider (text ++ '\n' :: more) = some (pairs, rest ++ '\n' :: more) := by
  induction bound generalizing wider text pairs rest with
  | zero => contradiction
  | succ bound ih =>
      obtain ⟨wider, rfl⟩ := Nat.exists_eq_add_of_le' (Nat.le_of_add_left_le within)
      simp only [pairs?, bind, Option.bind_eq_some_iff] at found ⊢
      obtain ⟨⟨pair, behind⟩, taken, later⟩ := found
      refine ⟨_, (pair?_local isLocal).lines taken more, ?_⟩
      dsimp only at later ⊢
      split at later
      · rename_i tail closing
        cases later
        rw [skipSpace_mark closing]
        rfl
      · rename_i tail comma
        obtain ⟨⟨others, final⟩, takenOthers, same⟩ := Option.bind_eq_some_iff.mp later
        cases same
        rw [skipSpace_mark comma]
        exact Option.bind_eq_some_iff.mpr ⟨_, ih (by omega) takenOthers, rfl⟩
      · contradiction

theorem inlineTable?_closed (skipped : skipSpace text = '\x7d' :: rest) :
    inlineTable? read text = some (.table [], rest) := by
  rw [inlineTable?, skipped]
  rfl

theorem inlineTable?_opened (skipped : skipSpace text = start)
    (opened : start.head? ≠ some '\x7d') :
    inlineTable? read text = (pairs? read start.length start).bind fun taken =>
      (tableOf? taken.1).bind fun table => some (table, taken.2) := by
  rw [inlineTable?, skipped]
  split
  · exact absurd rfl opened
  · rfl

theorem inlineTable?_local (isLocal : Local read) : Local (inlineTable? read) := by
  intro text table rest found more
  cases skipped : skipSpace text with
  | nil =>
      rw [inlineTable?_opened skipped (by simp)] at found
      contradiction
  | cons c start =>
      have skippedLines := skipSpace_mark skipped more
      by_cases closed : c = '\x7d'
      · subst closed
        rw [inlineTable?_closed skipped] at found
        cases found
        exact inlineTable?_closed skippedLines
      · rw [inlineTable?_opened skipped (by simpa using closed)] at found
        rw [inlineTable?_opened skippedLines (by simpa using closed)]
        simp only [Option.bind_eq_some_iff] at found ⊢
        obtain ⟨⟨pairs, behind⟩, taken, table, built, same⟩ := found
        cases same
        have wider : (c :: start).length ≤ (c :: (start ++ '\n' :: more)).length := by simp
        exact ⟨_, pairs?_lines isLocal wider taken more, table, built, rfl⟩

theorem quotes_lines {quote : Char} (other : quote ≠ '\n')
    (apart : ∀ rest, text ≠ quote :: quote :: rest) (more : List Char) :
    ∀ rest, text ++ '\n' :: more ≠ quote :: quote :: rest := by
  intro rest same
  match text with
  | [] => simp [other.symm] at same
  | [c] => simp [other.symm] at same
  | c :: d :: text =>
      simp only [List.cons_append, List.cons.injEq] at same
      exact apart text (by rw [same.1, same.2.1])

theorem string_local {depth : Nat} {quote : Char} {escapes : Bool} (other : quote ≠ '\n')
    (many : ∀ inside, value? depth (quote :: quote :: quote :: inside) =
      (manyLines? quote escapes inside).map fun (text, behind) => (.string text, behind))
    (one : ∀ inside, (∀ rest, inside ≠ quote :: quote :: rest) → value? depth (quote :: inside) =
      (oneLine? quote escapes inside).map fun (text, behind) => (.string text, behind)) :
    Local fun inside => value? depth (quote :: inside) := by
  intro inside value rest found more
  beta_reduce at found ⊢
  by_cases triple : ∃ behind, inside = quote :: quote :: behind
  · obtain ⟨behind, rfl⟩ := triple
    rw [many] at found
    rw [List.cons_append, List.cons_append, many]
    exact (manyLines?_local escapes other).map Value.string |>.lines found more
  · rw [not_exists] at triple
    rw [one inside triple] at found
    rw [one _ (quotes_lines other triple more)]
    exact (oneLine?_local quote escapes).map Value.string |>.lines found more

theorem basicString_local (depth : Nat) : Local fun inside => value? depth ('"' :: inside) := by
  apply string_local (by decide)
  · intro inside
    rw [value?]
  · intro inside single
    rw [value?]
    exact single

theorem literalString_local (depth : Nat) : Local fun inside => value? depth ('\'' :: inside) := by
  apply string_local (by decide)
  · intro inside
    rw [value?]
  · intro inside single
    rw [value?]
    exact single

theorem value?_word {depth : Nat} (basic : text.head? ≠ some '"')
    (literal : text.head? ≠ some '\'') (array : 0 < depth → text.head? ≠ some '[')
    (table : 0 < depth → text.head? ≠ some '\x7b') :
    value? depth text = (scalar? (word text).1).map fun value => (value, (word text).2) := by
  rw [value?.eq_def]
  split
  · exact absurd rfl basic
  · exact absurd rfl basic
  · exact absurd rfl literal
  · exact absurd rfl literal
  · exact absurd rfl (array (Nat.succ_pos _))
  · exact absurd rfl (table (Nat.succ_pos _))
  · rfl

theorem value?_nil (depth : Nat) : value? depth [] = none := by
  rw [value?_word (by simp) (by simp) (by simp) (by simp)]
  decide

theorem value?_return (depth : Nat) : value? depth ['\r'] = none := by
  rw [value?_word (by simp) (by simp) (by simp) (by simp)]
  decide

theorem value?_local_of_nested {depth : Nat}
    (array : 0 < depth → Local fun inside => value? depth ('[' :: inside))
    (table : 0 < depth → Local fun inside => value? depth ('\x7b' :: inside)) :
    Local (value? depth) := by
  intro text value rest found more
  by_cases basic : text.head? = some '"'
  · obtain ⟨inside, rfl⟩ := List.head?_eq_some_iff.mp basic
    exact (basicString_local depth).lines found more
  by_cases literal : text.head? = some '\''
  · obtain ⟨inside, rfl⟩ := List.head?_eq_some_iff.mp literal
    exact (literalString_local depth).lines found more
  by_cases isArray : 0 < depth ∧ text.head? = some '['
  · obtain ⟨inside, rfl⟩ := List.head?_eq_some_iff.mp isArray.2
    exact (array isArray.1).lines found more
  by_cases isTable : 0 < depth ∧ text.head? = some '\x7b'
  · obtain ⟨inside, rfl⟩ := List.head?_eq_some_iff.mp isTable.2
    exact (table isTable.1).lines found more
  rw [not_and] at isArray isTable
  rw [value?_word basic literal isArray isTable] at found
  rw [value?_word (head?_lines basic (by decide) more) (head?_lines literal (by decide) more)
    (fun nested => head?_lines (isArray nested) (by decide) more)
    (fun nested => head?_lines (isTable nested) (by decide) more)]
  exact scalar_local.lines found more

theorem value?_local (depth : Nat) : Local (value? depth) := by
  induction depth with
  | zero => exact value?_local_of_nested (absurd · (by decide)) (absurd · (by decide))
  | succ depth ih =>
      apply value?_local_of_nested
      · intro _ inside value rest found more
        beta_reduce at found ⊢
        rw [value?] at found ⊢
        obtain ⟨⟨items, behind⟩, taken, same⟩ := Option.map_eq_some_iff.mp found
        cases same
        have wider : inside.length ≤ (inside ++ '\n' :: more).length := by simp
        have takenLines := items?_lines ih (value?_nil depth) (value?_return depth) wider taken more
        exact Option.map_eq_some_iff.mpr ⟨_, takenLines, rfl⟩
      · intro _ inside value rest found more
        beta_reduce at found ⊢
        rw [value?] at found ⊢
        exact (inlineTable?_local ih).lines found more

/-- What a reader of whole lines leaves when more lines follow: they stand below the rest, or are
all there is left if the text ended without a line break. -/
def Onward (rest more onward : List Char) : Prop :=
  onward = rest ++ '\n' :: more ∨ rest = [] ∧ onward = more

theorem lineBreak?_lines (found : lineBreak? text = some rest)
    (more : List Char) :
    ∃ onward, lineBreak? (text ++ '\n' :: more) = some onward ∧ Onward rest more onward := by
  fun_cases lineBreak? text with
  | case1 =>
      cases found
      exact ⟨more, rfl, .inr ⟨rfl, rfl⟩⟩
  | case2 behind =>
      cases found
      exact ⟨_, rfl, .inl rfl⟩
  | case3 behind =>
      cases found
      exact ⟨_, rfl, .inl rfl⟩
  | case4 nonempty notFeed notReturn => simp [lineBreak?, *] at found

theorem endLine?_lines (found : endLine? text = some rest)
    (more : List Char) :
    ∃ onward, endLine? (text ++ '\n' :: more) = some onward ∧ Onward rest more onward := by
  rw [endLine?] at found ⊢
  split at found
  · rename_i comment isComment
    rw [skipSpace_mark isComment]
    simpa only [dropWhile_lines (p := isLineChar) (by decide)] using lineBreak?_lines found more
  · rename_i noComment
    rw [skipSpace_lines]
    split
    · cases skipped : skipSpace text <;> simp_all
    · exact lineBreak?_lines found more

theorem header?_lines {closing : List Char} {key : Key}
    (found : header? closing text = some (key, rest)) (more : List Char) :
    ∃ onward, header? closing (text ++ '\n' :: more) = some (key, onward) ∧
      Onward rest more onward := by
  simp only [header?, bind, Option.bind_eq_some_iff] at found ⊢
  obtain ⟨⟨key, behind⟩, taken, tail, closed, final, ended, same⟩ := found
  cases same
  have closedLines :
      Text.after? closing (behind ++ '\n' :: more) = some (tail ++ '\n' :: more) := by
    rw [Text.after?_eq_some_iff] at closed ⊢
    rw [← List.append_assoc, ← closed]
  obtain ⟨onward, endedLines, isOnward⟩ := endLine?_lines ended more
  exact ⟨onward, ⟨_, key?_local.lines taken more, _, closedLines, _, endedLines, rfl⟩, isOnward⟩

theorem headed_lines {closing : List Char} {statement : Statement} (headed : Key → Statement)
    (found : (header? closing text).map (fun taken => (headed taken.1, taken.2)) =
      some (statement, rest)) (more : List Char) :
    ∃ onward, (header? closing (text ++ '\n' :: more)).map (fun taken =>
        (headed taken.1, taken.2)) = some (statement, onward) ∧ Onward rest more onward := by
  obtain ⟨⟨key, behind⟩, taken, same⟩ := Option.map_eq_some_iff.mp found
  cases same
  obtain ⟨onward, takenLines, isOnward⟩ := header?_lines taken more
  exact ⟨onward, Option.map_eq_some_iff.mpr ⟨_, takenLines, rfl⟩, isOnward⟩

theorem statement?_table (single : text.head? ≠ some '[') :
    statement? ('[' :: text) =
      (header? [']'] text).map fun taken => (.table taken.1, taken.2) := by
  rw [statement?]
  rintro rest rfl
  exact single rfl

theorem statement?_assign (noHeader : text.head? ≠ some '[') :
    statement? text = (pair? (value? nestingLimit) text).bind fun taken =>
      (endLine? taken.2).bind fun behind => some (.assign taken.1.1 taken.1.2, behind) := by
  rw [statement?]
  · rfl
  · rintro rest rfl
    exact noHeader rfl
  · rintro rest rfl
    exact noHeader rfl

theorem statement?_return : statement? ['\r'] = none := by
  rw [statement?_assign (by decide)]
  rfl

theorem statement?_lines {statement : Statement}
    (found : statement? text = some (statement, rest)) (more : List Char) :
    ∃ onward, statement? (text ++ '\n' :: more) = some (statement, onward) ∧
      Onward rest more onward := by
  by_cases header : text.head? = some '['
  · obtain ⟨text, rfl⟩ := List.head?_eq_some_iff.mp header
    by_cases double : text.head? = some '['
    · obtain ⟨text, rfl⟩ := List.head?_eq_some_iff.mp double
      exact headed_lines Statement.tables found more
    · rw [statement?_table double] at found
      rw [List.cons_append, statement?_table (head?_lines double (by decide) more)]
      exact headed_lines Statement.table found more
  · rw [statement?_assign header] at found
    rw [statement?_assign (head?_lines header (by decide) more)]
    simp only [Option.bind_eq_some_iff] at found ⊢
    obtain ⟨⟨⟨key, value⟩, behind⟩, taken, final, ended, same⟩ := found
    cases same
    obtain ⟨onward, endedLines, isOnward⟩ := endLine?_lines ended more
    have takenLines := (pair?_local (value?_local nestingLimit)).lines taken more
    exact ⟨onward, ⟨_, takenLines, _, endedLines, rfl⟩, isOnward⟩

theorem statementsWithin_blank (blank : skipLines false text = []) (bound : Nat) :
    statementsWithin bound text = some [] := by
  cases bound <;> simp [statementsWithin, blank]

theorem statementsWithin_zero {c : Char} (skipped : skipLines false text = c :: start) :
    statementsWithin 0 text = none := by
  simp [statementsWithin, skipped]

theorem statementsWithin_cons {c : Char} (skipped : skipLines false text = c :: start)
    (bound : Nat) :
    statementsWithin (bound + 1) text = (statement? (c :: start)).bind fun taken =>
      (statementsWithin bound taken.2).bind fun others => some (taken.1 :: others) := by
  rw [statementsWithin, skipped]
  rfl

theorem statementsWithin_congr {one other : List Char}
    (same : skipLines false one = skipLines false other) (bound : Nat) :
    statementsWithin bound one = statementsWithin bound other := by
  cases bound <;> simp only [statementsWithin, same]

theorem statementsWithin_mono {statements : List Statement} (within : bound ≤ wider)
    (found : statementsWithin bound text = some statements) :
    statementsWithin wider text = some statements := by
  induction bound generalizing wider text statements with
  | zero =>
      cases skipped : skipLines false text with
      | nil => rwa [statementsWithin_blank skipped] at found ⊢
      | cons c start =>
          rw [statementsWithin_zero skipped] at found
          contradiction
  | succ bound ih =>
      cases skipped : skipLines false text with
      | nil => rwa [statementsWithin_blank skipped] at found ⊢
      | cons c start =>
          obtain ⟨wider, rfl⟩ := Nat.exists_eq_add_of_le' (Nat.le_of_add_left_le within)
          rw [statementsWithin_cons skipped] at found ⊢
          obtain ⟨taken, isTaken, later⟩ := Option.bind_eq_some_iff.mp found
          obtain ⟨others, takenOthers, same⟩ := Option.bind_eq_some_iff.mp later
          rw [isTaken, Option.bind_some, ih (by omega) takenOthers, Option.bind_some, same]

variable {above below : List Char} {upper lower : List Statement} {boundBelow : Nat}

theorem statementsWithin_lines_of_blank (blank : skipLines false above = [])
    (found : statementsWithin bound above = some upper)
    (foundBelow : statementsWithin boundBelow below = some lower) (within : boundBelow ≤ wider) :
    statementsWithin wider (above ++ '\n' :: below) = some (upper ++ lower) := by
  rw [statementsWithin_blank blank] at found
  cases found
  have skipped := skipLines_lines blank (by simp) below
  rw [if_pos rfl] at skipped
  rw [statementsWithin_congr skipped]
  exact statementsWithin_mono within foundBelow

theorem statementsWithin_lines (found : statementsWithin bound above = some upper)
    (foundBelow : statementsWithin boundBelow below = some lower)
    (within : bound + boundBelow ≤ wider) :
    statementsWithin wider (above ++ '\n' :: below) = some (upper ++ lower) := by
  -- One statement is taken off the upper text at a time, until nothing but blanks is left of it.
  induction bound generalizing above upper wider with
  | zero =>
      cases skipped : skipLines false above with
      | nil => exact statementsWithin_lines_of_blank skipped found foundBelow (by omega)
      | cons c start =>
          rw [statementsWithin_zero skipped] at found
          contradiction
  | succ bound ih =>
      cases skipped : skipLines false above with
      | nil => exact statementsWithin_lines_of_blank skipped found foundBelow (by omega)
      | cons c start =>
          obtain ⟨wider, rfl⟩ : ∃ fewer, wider = fewer + 1 := ⟨wider - 1, by omega⟩
          rw [statementsWithin_cons skipped] at found
          obtain ⟨⟨statement, behind⟩, taken, later⟩ := Option.bind_eq_some_iff.mp found
          obtain ⟨others, takenOthers, same⟩ := Option.bind_eq_some_iff.mp later
          cases same
          have apart : c :: start ≠ ['\r'] := by
            intro same
            rw [same, statement?_return] at taken
            contradiction
          obtain ⟨onward, takenLines, isOnward⟩ := statement?_lines taken below
          have remaining : statementsWithin wider onward = some (others ++ lower) := by
            rcases isOnward with rfl | ⟨rfl, rfl⟩
            · exact ih takenOthers (by omega)
            · rw [statementsWithin_blank rfl] at takenOthers
              cases takenOthers
              exact statementsWithin_mono (by omega) foundBelow
          rw [statementsWithin_cons (skipLines_mark skipped apart below), ← List.cons_append,
            takenLines, Option.bind_some, remaining]
          rfl

/-- The statements of a whole text. -/
def statementsOf? (text : List Char) : Option (List Statement) :=
  statementsWithin text.length text

theorem statementsOf?_lines (found : statementsOf? above = some upper)
    (foundBelow : statementsOf? below = some lower) :
    statementsOf? (above ++ '\n' :: below) = some (upper ++ lower) := by
  apply statementsWithin_lines found foundBelow
  simp only [List.length_append, List.length_cons]
  omega

end ModelLint.Toml
