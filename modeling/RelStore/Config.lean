import RelStore.Error
import RelStore.Files.Directory
import RelStore.Json.Reader

/-!
# Configuration

Where the engine keeps its files, how wide its indexes are and how long it waits for a locked
table. A configuration file is a JSON object with any of the fields among unknown ones, or an
array of the first fields; what it leaves out has its default.
-/

namespace RelStore

/-- The configuration of an engine. -/
structure Config where
  dataDir : String := "data"
  order : UInt64 := 32
  /-- The longest wait for a locked table in milliseconds; without it a wait has no end. -/
  lockWait : Option UInt64 := some 5000
deriving DecidableEq

namespace Config

/-- The configuration with a wait of so many seconds and nanoseconds: whole milliseconds, and
the greatest number of them where there are more. -/
def withLockWait (config : Config) (wait : Option (Nat × Nat)) : Config :=
  let lockWait := wait.map fun (seconds, nanos) =>
    UInt64.ofNat (min (1000 * seconds + nanos / 1000000) (UInt64.size - 1))
  { config with lockWait }

/-- Refuses a configuration that no engine can run with. -/
def validate (config : Config) : Except Error Unit :=
  if config.order < 3 then
    .error (.invalidConfig ("btree_order must be at least 3, got " ++
      Text.Decimal.text config.order.toNat))
  else if config.dataDir = "" then .error (.invalidConfig "data_dir is empty")
  else .ok ()

/-! ## As JSON -/

/-- The configuration as a compact JSON object. -/
def text (config : Config) : List Char :=
  let wait := match config.lockWait with
    | some ms => Text.Decimal.digits ms.toNat
    | none => "null".toList
  "\x7b\"data_dir\":".toList ++ Json.quote config.dataDir ++ ",\"btree_order\":".toList ++
    Text.Decimal.digits config.order.toNat ++ ",\"lock_wait_timeout_ms\":".toList ++ wait ++ ['}']

/-- The text of a JSON string. -/
def string? : Json.Value → Option String
  | .string text => text
  | _ => none

/-- The natural number of a JSON number. -/
def natural? : Json.Value → Option UInt64
  | .number number => number.natural?
  | _ => none

/-- The natural number of a JSON number, or nothing for `null`. -/
def optional? : Json.Value → Option (Option UInt64)
  | .null => some none
  | value => (natural? value).map some

/-- The value of a field that may be left out but must not be repeated. -/
def field (read : Json.Value → Option α) (default : α) : List Json.Value → Option α
  | [] => some default
  | [value] => read value
  | _ => none

/-- The configuration with these values of its fields, each of which may be left out. -/
def ofFields? (dataDir order lockWait : List Json.Value) : Option Config := do
  let default : Config := {}
  return {
    dataDir := ← field string? default.dataDir dataDir
    order := ← field natural? default.order order
    lockWait := ← field optional? default.lockWait lockWait }

/-- The configuration that a JSON value stands for. Every key of the object must have a text,
but values under unknown keys may be anything. -/
def ofValue? : Json.Value → Option Config
  | .object members =>
    if members.all (·.1.isSome) then
      ofFields? (Json.membersOf "data_dir" members) (Json.membersOf "btree_order" members)
        (Json.membersOf "lock_wait_timeout_ms" members)
    else none
  | .array items =>
    if items.length ≤ 3 then
      ofFields? (items.take 1) ((items.drop 1).take 1) ((items.drop 2).take 1)
    else none
  | _ => none

/-- The configuration that a text spells. -/
def read? (text : List Char) : Option Config := (Json.read? text).bind (ofValue? ·.value)

/-- The configuration in a file. -/
def ofFile : Lookup → Except Error Config
  | .missing | .refused => .error .io
  | .file contents =>
    match Text.Utf8.decode? contents with
    | none => .error .io
    | some text =>
      match read? text with
      | none => .error .serialization
      | some config => config.validate.map fun _ => config

end Config

end RelStore
