import ModelLint.Json.Token

namespace ModelLint.Json

/-! Building a value from its tokens.

The containers that are still open are kept on a list, innermost first, so values
may nest to any depth. -/

/-- An open container with the parts read so far, last part first. -/
inductive Frame where
  | items (done : List Value)
  /-- The key is that of the field being read; it is missing if it denotes no text. -/
  | fields (done : List (Option String × Value)) (key : Option String)
deriving Repr, Inhabited

/-- What the next token may be. -/
inductive Expectation where
  | value
  /-- A value or the end of the array just opened. -/
  | firstItem
  | key
  /-- A key or the end of the object just opened. -/
  | firstKey
  | colon
  /-- A comma or the end of the innermost container. -/
  | separator
deriving DecidableEq, Repr, Inhabited

inductive State where
  | reading (frames : List Frame) (expected : Expectation)
  | finished (value : Value)
deriving Repr, Inhabited

/-- The object with the given fields, last field first. -/
def objectOf (done : List (Option String × Value)) : Value :=
  match done.reverse.mapM fun (key, value) => key.map (·, value) with
  | some fields => .object fields
  | none => .garbled

/-- Puts a finished value into the innermost open container. -/
def State.put (value : Value) : List Frame → State
  | [] => .finished value
  | .items done :: outer => .reading (.items (value :: done) :: outer) .separator
  | .fields done key :: outer => .reading (.fields ((key, value) :: done) none :: outer) .separator

/-- Takes a token at a place where a value may start. -/
def State.startValue (frames : List Frame) : Token → Option State
  | .scalar value => some (.put value frames)
  | .beginArray => some (.reading (.items [] :: frames) .firstItem)
  | .beginObject => some (.reading (.fields [] none :: frames) .firstKey)
  | _ => none

def State.takeKey (key : Option String) : List Frame → Option State
  | .fields done _ :: outer => some (.reading (.fields done key :: outer) .colon)
  | _ => none

/-- Takes a token at a place where a key may start. -/
def State.startKey (frames : List Frame) : Token → Option State
  | .scalar (.string key) => takeKey (some key) frames
  | .scalar .garbled => takeKey none frames
  | _ => none

/-- Takes the token behind a part of the innermost container. -/
def State.separate : List Frame → Token → Option State
  | .items done :: outer, .comma => some (.reading (.items done :: outer) .value)
  | .items done :: outer, .endArray => some (.put (.array done.reverse) outer)
  | .fields done key :: outer, .comma => some (.reading (.fields done key :: outer) .key)
  | .fields done _ :: outer, .endObject => some (.put (objectOf done) outer)
  | _, _ => none

def State.step : State → Token → Option State
  | .finished _, _ => none
  | .reading frames .value, token => startValue frames token
  | .reading frames .firstItem, .endArray => separate frames .endArray
  | .reading frames .firstItem, token => startValue frames token
  | .reading frames .key, token => startKey frames token
  | .reading frames .firstKey, .endObject => separate frames .endObject
  | .reading frames .firstKey, token => startKey frames token
  | .reading frames .colon, .colon => some (.reading frames .value)
  | .reading _ .colon, _ => none
  | .reading frames .separator, token => separate frames token

def ofTokens? (tokens : List Token) : Option Value := do
  match ← tokens.foldlM State.step (.reading [] .value) with
  | .finished value => some value
  | .reading _ _ => none

/-- Reads a JSON text that holds one value and nothing else but blanks. -/
def parse? (text : String) : Option Value := do
  ofTokens? (← tokens text.toList)

end ModelLint.Json
