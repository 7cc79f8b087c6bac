import RelStore.Json.Number
import RelStore.Json.Quoted

/-!
# Reading JSON

A reader takes a text character by character. It keeps the containers that are open, the
innermost first, and the place that it has reached. The text may be JSON by its grammar and
still hold things that have no exact value: a number beyond double precision, a surrogate
without a partner, containers nested too deeply. `Document.exact` tells whether it is free of
them.
-/

namespace RelStore.Json

/-- A value. A string without a text is one with an unpaired surrogate. -/
inductive Value where
  | null
  | bool (b : Bool)
  | number (number : Number)
  | string (text : Option String)
  | array (items : List Value)
  | object (members : List (Option String × Value))

/-- A text that was read. -/
structure Document where
  value : Value
  /-- Whether all numbers, strings and containers are within the limits. -/
  exact : Bool

/-- An open container with what was read of it, the last first. In an object whose key has been
read the value of the key is awaited. -/
inductive Frame where
  | array (items : List Value)
  | object (members : List (Option String × Value))
  | member (key : Option String) (members : List (Option String × Value))

/-- What a reader has reached and so waits for. -/
inductive Place where
  /-- A value. -/
  | value
  /-- The first value of an array, or its end. -/
  | firstItem
  /-- The first key of an object, or its end. -/
  | firstKey
  /-- A key. -/
  | key
  /-- The colon behind a key. -/
  | colon (key : Option String)
  /-- A comma or the end of the innermost container. -/
  | next
  /-- Nothing but blanks. -/
  | done (value : Value)
  /-- The rest of a string, which may be a key. -/
  | string (isKey : Bool) (phase : EscapePhase) (read : PartialString)
  /-- The rest of a number. -/
  | number (phase : NumberPhase) (read : Number)
  /-- The rest of a word, which stands for a value. -/
  | word (left : List Char) (value : Value)

/-- A reader in the middle of a text. -/
structure Reader where
  frames : List Frame := []
  place : Place := .value
  exact : Bool := true

/-- The depth of nesting from which on a text is no longer exact. -/
def depthLimit : Nat := 128

/-- The blanks that may stand between tokens. -/
def isSpace (c : Char) : Bool := c = ' ' || c = '\t' || c = '\n' || c = '\r'

namespace Reader

/-- Adds a finished value to the innermost container. -/
def give (r : Reader) (value : Value) : Option Reader :=
  match r.frames with
  | [] => some { r with place := .done value }
  | .array items :: frames =>
    some { r with frames := .array (value :: items) :: frames, place := .next }
  | .member key members :: frames =>
    some { r with frames := .object ((key, value) :: members) :: frames, place := .next }
  | .object _ :: _ => none

/-- Opens a container. -/
def enter (r : Reader) (frame : Frame) (place : Place) : Reader :=
  { frames := frame :: r.frames, place
    exact := r.exact && r.frames.length + 1 < depthLimit }

/-- Closes the innermost container, if the character does. -/
def leave (r : Reader) (c : Char) : Option Reader :=
  match r.frames with
  | .array items :: frames =>
    if c = ']' then { r with frames }.give (.array items.reverse) else none
  | .object members :: frames =>
    if c = '}' then { r with frames }.give (.object members.reverse) else none
  | _ => none

/-- Begins a value with its first character. -/
def start (r : Reader) (c : Char) : Option Reader :=
  match c with
  | '"' => some { r with place := .string false .none {} }
  | '{' => some (r.enter (.object []) .firstKey)
  | '[' => some (r.enter (.array []) .firstItem)
  | 't' => some { r with place := .word "rue".toList (.bool true) }
  | 'f' => some { r with place := .word "alse".toList (.bool false) }
  | 'n' => some { r with place := .word "ull".toList .null }
  | '-' => some { r with place := .number .minus { negative := true } }
  | c =>
    (NumberPhase.push .minus {} c).map fun (phase, read) => { r with place := .number phase read }

/-- Takes a character between tokens. -/
def between (r : Reader) (c : Char) : Option Reader :=
  if isSpace c then some r
  else match r.place with
  | .value => r.start c
  | .firstItem => if c = ']' then r.leave c else r.start c
  | .firstKey =>
    if c = '"' then some { r with place := .string true .none {} } else r.leave c
  | .key => if c = '"' then some { r with place := .string true .none {} } else none
  | .colon key =>
    match r.frames with
    | .object members :: frames =>
      if c = ':' then some { r with frames := .member key members :: frames, place := .value }
      else none
    | _ => none
  | .next =>
    if c = ',' then
      match r.frames with
      | .array _ :: _ => some { r with place := .value }
      | .object _ :: _ => some { r with place := .key }
      | _ => none
    else r.leave c
  | _ => none

/-- Takes a finished string: a key, or a value. -/
def giveString (r : Reader) (isKey : Bool) (read : PartialString) : Option Reader :=
  let r := { r with exact := r.exact && read.text?.isSome }
  if isKey then some { r with place := .colon read.text? } else r.give (.string read.text?)

/-- Takes a character inside of a string. -/
def inString (r : Reader) (isKey : Bool) (phase : EscapePhase) (read : PartialString)
    (c : Char) : Option Reader :=
  let go := fun phase read => some { r with place := .string isKey phase read }
  match phase with
  | .none =>
    if c = '"' then r.giveString isKey read
    else if c = '\\' then go .backslash read
    else if c.toNat < 32 then none
    else go .none (read.push c)
  | .backslash =>
    if c = 'u' then go (.unit 4 0) read
    else match unescape? c with
      | some c => go .none (read.push c)
      | none => none
  | .unit left value =>
    match hexValue? c with
    | none => none
    | some digit =>
      let value := 16 * value + digit
      if left ≤ 1 then go .none (read.pushUnit value) else go (.unit (left - 1) value) read

/-- Takes a finished number. -/
def giveNumber (r : Reader) (phase : NumberPhase) (read : Number) : Option Reader :=
  if phase.complete then { r with exact := r.exact && read.inRange }.give (.number read) else none

/-- Takes one more character. -/
def step (r : Reader) (c : Char) : Option Reader :=
  match r.place with
  | .string isKey phase read => r.inString isKey phase read c
  | .number phase read =>
    match phase.push read c with
    | some (phase, read) => some { r with place := .number phase read }
    | none => (r.giveNumber phase read).bind (·.between c)
  | .word (next :: left) value =>
    if c = next then
      if left.isEmpty then r.give value else some { r with place := .word left value }
    else none
  | _ => r.between c

/-- Takes the end of the text. -/
def finish (r : Reader) : Option Document :=
  let r := match r.place with
    | .number phase read => r.giveNumber phase read
    | _ => some r
  match r with
  | some { place := .done value, exact, .. } => some { value, exact }
  | _ => none

end Reader

/-- The document that a text spells by the grammar of JSON. -/
def read? (text : List Char) : Option Document := do
  (← text.foldlM Reader.step {}).finish

/-- The values of the members with this key. -/
def membersOf (name : String) (members : List (Option String × Value)) : List Value :=
  (members.filter (·.1 = some name)).map Prod.snd

end RelStore.Json
