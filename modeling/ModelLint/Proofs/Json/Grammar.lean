import Mathlib.Data.List.Basic
import ModelLint.Json.Reader
import ModelLint.Proofs.Json.Token

namespace ModelLint.Json

/-! The texts of a value.

The reader goes over a text token by token, with the open containers as its state. A value in
any of its spellings, with blanks wherever they are allowed, takes the reader from a state in which
a value may start to the one in which that value has been put in its place. -/

def Blank (gap : List Char) : Prop :=
  ∀ c ∈ gap, isSpace c = true

/-- The texts of a key. It is missing if the literal denotes no text. -/
inductive KeyText : Option String → List Char → Prop where
  | padded {pieces : List Piece} {before literal behind : List Char}
      (blankBefore : Blank before) (written : Literal pieces literal) (blankBehind : Blank behind) :
      KeyText ((charsOf? pieces).map String.ofList) (before ++ (literal ++ behind))

/-- A field of an object as it is written. -/
structure Member where
  key : Option String
  keyText : List Char
  value : Value
  valueText : List Char

def Member.text (member : Member) : List Char :=
  member.keyText ++ ':' :: member.valueText

/-- A text spells a value, and has nothing else but blanks. -/
inductive Spells : Value → List Char → Prop where
  | scalar {value : Value} {text : List Char} (written : ScalarText value text) : Spells value text
  | padded {value : Value} {before text behind : List Char} (blankBefore : Blank before)
      (inner : Spells value text) (blankBehind : Blank behind) :
      Spells value (before ++ (text ++ behind))
  | emptyArray {gap : List Char} (blank : Blank gap) : Spells (.array []) ('[' :: (gap ++ [']']))
  | array {items : List (Value × List Char)} (nonempty : items ≠ [])
      (each : ∀ item ∈ items, Spells item.1 item.2) :
      Spells (.array (items.map (·.1))) ('[' :: ([','].intercalate (items.map (·.2)) ++ [']']))
  | emptyObject {gap : List Char} (blank : Blank gap) :
      Spells (.object []) ('\x7b' :: (gap ++ ['\x7d']))
  | object {members : List Member} (nonempty : members ≠ [])
      (keys : ∀ member ∈ members, KeyText member.key member.keyText)
      (each : ∀ member ∈ members, Spells member.value member.valueText) :
      Spells (objectOf (members.map fun member => (member.key, member.value)).reverse)
        ('\x7b' :: ([','].intercalate (members.map Member.text) ++ ['\x7d']))

/-- Reading a text takes one state to another. -/
inductive Reads : List Char → State → State → Prop where
  | done {state : State} : Reads [] state state
  | blank {c : Char} {text : List Char} {state final : State} (isBlank : isSpace c = true)
      (rest : Reads text state final) : Reads (c :: text) state final
  | token {lexeme behind : List Char} {token : Token} {state next final : State}
      (taken : token? (lexeme ++ behind) = some (token, behind)) (nonempty : lexeme ≠ [])
      (step : state.step token = some next) (rest : Reads behind next final) :
      Reads (lexeme ++ behind) state final

variable {text rest : List Char} {state next final : State} {frames : List Frame}

theorem token?_of_isSpace {c : Char} (isBlank : isSpace c = true) (rest : List Char) :
    token? (c :: rest) = none := by
  have blanks : c = ' ' ∨ c = '\n' ∨ c = '\r' ∨ c = '\t' := by
    simpa [isSpace, or_assoc] using isBlank
  rcases blanks with rfl | rfl | rfl | rfl <;> rfl

namespace Reads

theorem tokens (reads : Reads text state final) :
    ∃ tokens, (∀ bound, text.length ≤ bound → tokensWithin bound text = some tokens) ∧
      tokens.foldlM State.step state = some final := by
  -- Blanks and tokens both use up the text, so its length is enough of a bound.
  induction reads with
  | done => exact ⟨[], fun bound _ => by simp [tokensWithin], rfl⟩
  | @blank c text state final isBlank _ ih =>
      obtain ⟨tokens, within, folded⟩ := ih
      refine ⟨tokens, fun bound enough => ?_, folded⟩
      cases bound with
      | zero => simp at enough
      | succ bound =>
          rw [tokensWithin, if_pos isBlank]
          exact within bound (by simpa using enough)
  | @token lexeme behind token state next final taken nonempty step _ ih =>
      obtain ⟨tokens, within, folded⟩ := ih
      obtain ⟨c, others, rfl⟩ := List.exists_cons_of_ne_nil nonempty
      have visible : ¬ isSpace c = true := by
        intro isBlank
        rw [List.cons_append, token?_of_isSpace isBlank] at taken
        contradiction
      refine ⟨token :: tokens, fun bound enough => ?_, ?_⟩
      · cases bound with
        | zero => simp at enough
        | succ bound =>
            have left := within bound (by simp at enough; omega)
            rw [List.cons_append] at taken ⊢
            rw [tokensWithin, if_neg visible, taken]
            simp [left]
      · rw [List.foldlM_cons, step]
        exact folded

theorem parse? {value : Value} (reads : Reads text (.reading [] .value) (.finished value)) :
    parse? (String.ofList text) = some value := by
  obtain ⟨tokens, within, folded⟩ := reads.tokens
  have all := within text.length (Nat.le_refl _)
  simp [Json.parse?, Json.tokens, all, ofTokens?, folded]

theorem mark {c : Char} {token : Token} (taken : token? (c :: text) = some (token, text))
    (step : state.step token = some next) (reads : Reads text next final) :
    Reads (c :: text) state final :=
  (Reads.token taken (by simp) step reads : Reads ([c] ++ text) state final)

theorem blanks {gap : List Char} (blank : Blank gap) (reads : Reads text state final) :
    Reads (gap ++ text) state final := by
  induction gap with
  | nil => exact reads
  | cons c gap ih =>
      obtain ⟨here, later⟩ := List.forall_mem_cons.mp blank
      exact .blank here (ih later)

theorem key {key : Option String} {keyText : List Char} (written : KeyText key keyText)
    {done : List (Option String × Value)} {other : Option String} {expected : Expectation}
    (isKey : expected = .key ∨ expected = .firstKey)
    (reads : Reads text (.reading (.fields done key :: frames) .colon) final) :
    Reads (keyText ++ text) (.reading (.fields done other :: frames) expected) final := by
  obtain @⟨pieces, before, literal, behind, blankBefore, written, blankBehind⟩ := written
  have nonempty : literal ≠ [] := (ScalarText.string written).ne_nil
  have taken := token?_literal written (behind ++ text)
  rw [List.append_assoc, List.append_assoc]
  refine .blanks blankBefore (.token taken nonempty ?_ (.blanks blankBehind reads))
  have started : State.startKey (.fields done other :: frames) (.scalar (stringValue pieces)) =
      some (.reading (.fields done ((charsOf? pieces).map String.ofList) :: frames) .colon) := by
    rw [stringValue]
    cases charsOf? pieces with
    | none => rfl
    | some chars => rfl
  rcases isKey with rfl | rfl
  · exact started
  · exact started

end Reads

theorem fresh_cons {c : Char} (apart : c.isDigit = false ∧ c ≠ '.' ∧ c ≠ 'e' ∧ c ≠ 'E')
    (rest : List Char) : Fresh (c :: rest) := by
  intro other first
  obtain rfl : c = other := by simpa using first
  exact apart

theorem fresh_blank {gap : List Char} (blank : Blank gap) (fresh : Fresh rest) :
    Fresh (gap ++ rest) := by
  cases gap with
  | nil => exact fresh
  | cons c gap =>
      have blanks : c = ' ' ∨ c = '\n' ∨ c = '\r' ∨ c = '\t' := by
        simpa [isSpace, or_assoc] using blank c (by simp)
      rcases blanks with rfl | rfl | rfl | rfl <;> exact fresh_cons (by decide) _

/-- Reading a text puts a value in its place. -/
def Places (text : List Char) (value : Value) : Prop :=
  ∀ {frames : List Frame} {expected : Expectation} {rest : List Char} {final : State},
    (expected = .value ∨ expected = .firstItem) → Fresh rest →
    Reads rest (State.put value frames) final →
    Reads (text ++ rest) (.reading frames expected) final

theorem step_eq_startValue {expected : Expectation}
    (starts : expected = .value ∨ expected = .firstItem) {token : Token}
    (opens : token ≠ .endArray) :
    State.step (.reading frames expected) token = State.startValue frames token := by
  rcases starts with rfl | rfl
  · rfl
  · cases token with
    | endArray => contradiction
    | _ => rfl

theorem reads_items {first : Value × List Char} {others : List (Value × List Char)}
    {done : List Value} {expected : Expectation}
    (starts : expected = .value ∨ expected = .firstItem)
    (each : ∀ item ∈ first :: others, Places item.2 item.1) (fresh : Fresh rest)
    (reads : Reads rest
      (.reading (.items (((first :: others).map (·.1)).reverse ++ done) :: frames) .separator)
      final) :
    Reads ([','].intercalate ((first :: others).map (·.2)) ++ rest)
      (.reading (.items done :: frames) expected) final := by
  -- The items read so far are kept last first: each item goes in front of those before it.
  induction others generalizing first done expected with
  | nil =>
      rw [List.map_singleton, List.intercalate_singleton]
      exact each first (by simp) starts fresh reads
  | cons next others ih =>
      have later : Reads ([','].intercalate ((next :: others).map (·.2)) ++ rest)
          (.reading (.items (first.1 :: done) :: frames) .value) final := ih (.inl rfl)
        (fun item member => each item (List.mem_cons_of_mem _ member)) (by simpa using reads)
      rw [List.map_cons, List.map_cons, List.intercalate_cons_cons, List.append_assoc,
        List.append_assoc]
      exact each first (by simp) starts (fresh_cons (by decide) _) (.mark rfl rfl later)

theorem reads_member {member : Member} {done : List (Option String × Value)}
    {other : Option String} {expected : Expectation}
    (isKey : expected = .key ∨ expected = .firstKey)
    (key : KeyText member.key member.keyText) (places : Places member.valueText member.value)
    (fresh : Fresh rest)
    (reads : Reads rest (.reading (.fields ((member.key, member.value) :: done) none :: frames)
      .separator) final) :
    Reads (member.text ++ rest) (.reading (.fields done other :: frames) expected) final := by
  rw [Member.text, List.append_assoc]
  exact .key key isKey (.mark rfl rfl (places (.inl rfl) fresh reads))

theorem reads_members {first : Member} {others : List Member} {done : List (Option String × Value)}
    {other : Option String} {expected : Expectation}
    (isKey : expected = .key ∨ expected = .firstKey)
    (keys : ∀ member ∈ first :: others, KeyText member.key member.keyText)
    (each : ∀ member ∈ first :: others, Places member.valueText member.value) (fresh : Fresh rest)
    (reads : Reads rest (.reading (.fields (((first :: others).map fun member =>
      (member.key, member.value)).reverse ++ done) none :: frames) .separator) final) :
    Reads ([','].intercalate ((first :: others).map Member.text) ++ rest)
      (.reading (.fields done other :: frames) expected) final := by
  induction others generalizing first done other expected with
  | nil =>
      rw [List.map_singleton, List.intercalate_singleton]
      exact reads_member isKey (keys first (by simp)) (each first (by simp)) fresh reads
  | cons next others ih =>
      have later : Reads ([','].intercalate ((next :: others).map Member.text) ++ rest)
          (.reading (.fields ((first.key, first.value) :: done) none :: frames) .key) final :=
        ih (.inl rfl) (fun member isLater => keys member (List.mem_cons_of_mem _ isLater))
        (fun member isLater => each member (List.mem_cons_of_mem _ isLater))
        (by simpa using reads)
      rw [List.map_cons, List.map_cons, List.intercalate_cons_cons, List.append_assoc,
        List.append_assoc]
      exact reads_member isKey (keys first (by simp)) (each first (by simp))
        (fresh_cons (by decide) _) (.mark rfl rfl later)

theorem places_array {items : List (Value × List Char)} (nonempty : items ≠ [])
    (each : ∀ item ∈ items, Places item.2 item.1) :
    Places ('[' :: ([','].intercalate (items.map (·.2)) ++ [']'])) (.array (items.map (·.1))) := by
  intro frames expected rest final starts fresh reads
  obtain ⟨first, others, rfl⟩ := List.exists_cons_of_ne_nil nonempty
  rw [List.cons_append, List.append_assoc]
  refine .mark rfl (step_eq_startValue starts nofun)
    (reads_items (.inr rfl) each (fresh_cons (by decide) rest) ?_)
  exact .mark rfl rfl (by simpa using reads)

theorem places_object {members : List Member} (nonempty : members ≠ [])
    (keys : ∀ member ∈ members, KeyText member.key member.keyText)
    (each : ∀ member ∈ members, Places member.valueText member.value) :
    Places ('\x7b' :: ([','].intercalate (members.map Member.text) ++ ['\x7d']))
      (objectOf (members.map fun member => (member.key, member.value)).reverse) := by
  intro frames expected rest final starts fresh reads
  obtain ⟨first, others, rfl⟩ := List.exists_cons_of_ne_nil nonempty
  rw [List.cons_append, List.append_assoc]
  refine .mark rfl (step_eq_startValue starts nofun)
    (reads_members (.inr rfl) keys each (fresh_cons (by decide) rest) ?_)
  rw [List.append_nil]
  exact .mark rfl rfl reads

theorem Spells.places {value : Value} (spells : Spells value text) : Places text value := by
  induction spells with
  | scalar written =>
      intro frames expected rest final starts fresh reads
      exact .token (token?_scalar written fresh) written.ne_nil (step_eq_startValue starts nofun)
        reads
  | padded blankBefore _ blankBehind ih =>
      intro frames expected rest final starts fresh reads
      rw [List.append_assoc, List.append_assoc]
      exact .blanks blankBefore
        (ih starts (fresh_blank blankBehind fresh) (.blanks blankBehind reads))
  | emptyArray blank =>
      intro frames expected rest final starts fresh reads
      rw [List.cons_append, List.append_assoc]
      exact .mark rfl (step_eq_startValue starts nofun) (.blanks blank (.mark rfl rfl reads))
  | array nonempty _ ih => exact places_array nonempty ih
  | emptyObject blank =>
      intro frames expected rest final starts fresh reads
      rw [List.cons_append, List.append_assoc]
      exact .mark rfl (step_eq_startValue starts nofun) (.blanks blank (.mark rfl rfl reads))
  | object nonempty keys _ ih => exact places_object nonempty keys ih

/-- A text is read as the value that it spells. -/
theorem Spells.parse? {value : Value} {text : String} (spells : Spells value text.toList) :
    parse? text = some value := by
  have reads : Reads (text.toList ++ []) (.reading [] .value) (.finished value) :=
    spells.places (.inl rfl) (by simp [Fresh]) .done
  rw [List.append_nil] at reads
  rw [← String.ofList_toList (s := text)]
  exact reads.parse?

end ModelLint.Json
