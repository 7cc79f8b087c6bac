import RelStore.Config
import RelStore.Proofs.Json.Reading
import RelStore.Proofs.Text.Utf8

/-!
# Loading a configuration

A `Layout` is a way to write configurations: which fields, in which order, with which blanks
between the tokens. What a layout writes is read as the fields it has (`Layout.read?_text`), so
that loading gives the configuration back with the other fields at their defaults, unless that
configuration is not `Valid` (`loads_what_is_written`). Nothing else that a file can hold is
loaded as an invalid one.
-/

namespace RelStore.Config

open Json

/-! ## What validation accepts -/

/-- The configurations that an engine can run with. -/
structure Valid (config : Config) : Prop where
  three_le_order : 3 ≤ config.order
  dataDir_ne : config.dataDir ≠ ""

theorem validate_of_valid {config : Config} (h : config.Valid) : config.validate = .ok () := by
  rw [validate, if_neg (UInt64.not_lt.2 h.three_le_order), if_neg h.dataDir_ne]

theorem validate_of_not_valid {config : Config} (h : ¬ config.Valid) :
    ∃ message, config.validate = .error (.invalidConfig message) := by
  unfold validate
  split
  · exact ⟨_, rfl⟩
  · next ho =>
    split
    · exact ⟨_, rfl⟩
    · next hd => exact absurd ⟨UInt64.not_lt.1 ho, hd⟩ h

theorem valid_of_validate {config : Config} (h : config.validate = .ok ()) : config.Valid := by
  by_contra hn
  obtain ⟨message, he⟩ := validate_of_not_valid hn
  rw [h] at he
  cases he

/-- What is loaded from a file has passed validation. -/
theorem validate_of_ofFile {file : Lookup} {config : Config} (h : ofFile file = .ok config) :
    config.validate = .ok () := by
  cases file with
  | missing | refused => cases h
  | file contents =>
    simp only [ofFile] at h
    split at h
    · cases h
    · split at h
      · cases h
      · next read _ =>
        cases hv : read.validate with
        | error e => rw [hv] at h; cases h
        | ok u => rw [hv] at h; cases h; exact hv

/-! ## Fields and their values -/

/-- The fields of a configuration. -/
inductive Field where
  | dataDir
  | order
  | lockWait
deriving DecidableEq, Repr

namespace Field

/-- The key of a field in a file. -/
def key : Field → String
  | dataDir => "data_dir"
  | order => "btree_order"
  | lockWait => "lock_wait_timeout_ms"

/-- The value of a field as it is written. -/
def text (config : Config) : Field → List Char
  | dataDir => quote config.dataDir
  | order => Text.Decimal.digits config.order.toNat
  | lockWait =>
    match config.lockWait with
    | some ms => Text.Decimal.digits ms.toNat
    | none => "null".toList

/-- The value of a field as it is read. -/
def value (config : Config) : Field → Value
  | dataDir => .string (some config.dataDir)
  | order => .number (.ofNat config.order.toNat)
  | lockWait =>
    match config.lockWait with
    | some ms => .number (.ofNat ms.toNat)
    | none => .null

/-- A field as a member of an object. -/
def entry (config : Config) (field : Field) : Option String × Value :=
  (some field.key, field.value config)

theorem key_inj {f g : Field} : f.key = g.key ↔ f = g := by
  cases f <;> cases g <;> decide

theorem spells_text (config : Config) (field : Field) :
    Spells (field.text config) (field.value config) := by
  cases field with
  | dataDir => exact spells_quote config.dataDir
  | order => exact spells_digits config.order
  | lockWait =>
    unfold text value
    dsimp only
    cases config.lockWait with
    | some ms => exact spells_digits ms
    | none => exact spells_null

/-- In an object of fields without repetition, a field is there once or not at all. -/
theorem membersOf_entries (config : Config) {fields : List Field} (h : fields.Nodup) (f : Field) :
    membersOf f.key (fields.map (entry config)) =
      if f ∈ fields then [f.value config] else [] := by
  induction fields with
  | nil => rfl
  | cons g fields ih =>
    rw [List.nodup_cons] at h
    have hi := ih h.2
    simp only [membersOf, List.map_cons, List.filter_cons, entry, Option.some.injEq, key_inj,
      decide_eq_true_eq] at hi ⊢
    by_cases hg : g = f
    · subst hg
      rw [if_neg h.1] at hi
      rw [if_pos rfl, if_pos List.mem_cons_self, List.map_cons, hi]
    · simp only [if_neg hg, hi, List.mem_cons, Ne.symm hg, false_or]

end Field

/-! ## Layouts -/

/-- One field of a layout, with the blanks about its key and its value. -/
structure Member where
  field : Field
  beforeKey : Blanks := {}
  behindKey : Blanks := {}
  beforeValue : Blanks := {}
  behindValue : Blanks := {}

/-- The text of a member, the comma or brace behind it left out. -/
def Member.text (config : Config) (m : Member) : List Char :=
  m.beforeKey.text ++ quote m.field.key ++ m.behindKey.text ++ [':'] ++ m.beforeValue.text ++
    (m.field.text config ++ m.behindValue.text)

/-- A way to write configurations: its members in the order in which they are written, none of
them twice, and the blanks about the braces. -/
structure Layout where
  members : List Member
  before : Blanks := {}
  inside : Blanks := {}
  behind : Blanks := {}
  nodup : (members.map Member.field).Nodup := by decide

namespace Layout

/-- The fields that a layout writes. -/
def fields (layout : Layout) : List Field := layout.members.map Member.field

/-- A configuration as a layout writes it. -/
def text (layout : Layout) (config : Config) : List Char :=
  layout.before.text ++ ['{'] ++ layout.inside.text ++
    (List.intercalate [','] (layout.members.map (Member.text config)) ++ ['}']) ++
      layout.behind.text

/-- The file with a configuration as a layout writes it. -/
def file (layout : Layout) (config : Config) : Lookup :=
  .file (Text.Utf8.encode (layout.text config))

/-- A configuration with the fields that a layout writes, and the others at their defaults. -/
def keep (layout : Layout) (config : Config) : Config :=
  let default : Config := {}
  { dataDir := if .dataDir ∈ layout.fields then config.dataDir else default.dataDir
    order := if .order ∈ layout.fields then config.order else default.order
    lockWait := if .lockWait ∈ layout.fields then config.lockWait else default.lockWait }

/-- All the fields in their order, without blanks. -/
def compact : Layout where
  members := [{ field := .dataDir }, { field := .order }, { field := .lockWait }]

theorem compact_text (config : Config) : compact.text config = config.text := by
  have hd : '{' :: (quote Field.dataDir.key ++ [':']) = "\x7b\"data_dir\":".toList := by
    decide +kernel
  have ho : ',' :: (quote Field.order.key ++ [':']) = ",\"btree_order\":".toList := by
    decide +kernel
  have hw : ',' :: (quote Field.lockWait.key ++ [':']) =
      ",\"lock_wait_timeout_ms\":".toList := by decide +kernel
  have hm : ∀ field : Field, Member.text config { field } =
      quote field.key ++ [':'] ++ field.text config := fun field => by
    simp only [Member.text, List.append_nil, List.nil_append]
  have ht : compact.text config = [] ++ ['{'] ++ [] ++ (List.intercalate [',']
      (compact.members.map (Member.text config)) ++ ['}']) ++ [] := rfl
  have hms : compact.members.map (Member.text config) =
      [quote Field.dataDir.key ++ [':'] ++ Field.dataDir.text config,
        quote Field.order.key ++ [':'] ++ Field.order.text config,
        quote Field.lockWait.key ++ [':'] ++ Field.lockWait.text config] := by
    rw [← hm, ← hm, ← hm]
    rfl
  have hc : Config.text config = "\x7b\"data_dir\":".toList ++ Field.dataDir.text config ++
      ",\"btree_order\":".toList ++ Field.order.text config ++
      ",\"lock_wait_timeout_ms\":".toList ++ Field.lockWait.text config ++ ['}'] := rfl
  rw [ht, hms, hc, ← hd, ← ho, ← hw, intercalate_cons]
  simp only [List.flatMap_cons, List.flatMap_nil, List.append_nil, List.nil_append,
    List.append_assoc, List.cons_append]

theorem compact_keep (config : Config) : compact.keep config = config := rfl

end Layout

/-! ## Reading a layout -/

theorem Member.reads (config : Config) (m : Member) {place : Json.Place}
    (hp : place = .firstKey ∨ place = .key) {read : List (Option String × Value)} {c : Char}
    (hc : Ends c) {r : Reader}
    (h : Reader.between ⟨[.object (m.field.entry config :: read)], .next, true⟩ c = some r) :
    Reads ⟨[.object read], place, true⟩ (m.text config ++ [c]) r := by
  have hb : place.isBetween = true := by rcases hp with rfl | rfl <;> rfl
  have hkey : Reads ⟨[.object read], place, true⟩
      (m.beforeKey.text ++ quote m.field.key ++ m.behindKey.text)
      ⟨[.object read], .colon (some m.field.key), true⟩ :=
    ((m.beforeKey.reads hb).append (reads_quote hp m.field.key read)).append
      (m.behindKey.reads rfl)
  have hcolon := (hkey.append (.single (step_colon m.field.key read))).append
    (m.beforeValue.reads rfl)
  rw [Member.text, List.append_assoc]
  have hs : Spells (m.field.text config) (m.field.value config) := m.field.spells_text config
  exact hcolon.append (Spells.reads_blanks hs m.behindValue hc rfl h)

/-- The members from one on, and the brace behind them. -/
theorem reads_members (config : Config) (m : Member) (ms : List Member) {place : Json.Place}
    (hp : place = .firstKey ∨ place = .key) (read : List (Option String × Value)) :
    Reads ⟨[.object read], place, true⟩
      (List.intercalate [','] ((m :: ms).map (Member.text config)) ++ ['}'])
      ⟨[], .done (.object (read.reverse ++ (m :: ms).map (·.field.entry config))), true⟩ := by
  induction ms generalizing m place read with
  | nil =>
    rw [List.map_cons, List.map_nil, List.intercalate_singleton, List.map_cons, List.map_nil,
      ← List.reverse_cons]
    exact m.reads config hp (.inr (.inr rfl)) rfl
  | cons m' ms ih =>
    have hm : Reads ⟨[.object read], place, true⟩ (m.text config ++ [','])
        ⟨[.object (m.field.entry config :: read)], .key, true⟩ :=
      m.reads config hp (.inr (.inl rfl)) rfl
    have hms := ih m' (.inr rfl) (m.field.entry config :: read)
    rw [List.reverse_cons, List.append_assoc] at hms
    rw [List.map_cons, List.map_cons, List.intercalate_cons_cons, List.append_assoc]
    exact hm.append hms

namespace Layout

theorem reads_text (layout : Layout) (config : Config) :
    Reads {} (layout.text config)
      ⟨[], .done (.object (layout.fields.map (Field.entry config))), true⟩ := by
  have hopen : Reads {} (layout.before.text ++ ['{'] ++ layout.inside.text)
      ⟨[.object []], .firstKey, true⟩ :=
    ((layout.before.reads rfl).append (.single rfl)).append (layout.inside.reads rfl)
  refine (hopen.append ?_).append (layout.behind.reads rfl)
  rw [fields, List.map_map]
  cases layout.members with
  | nil => exact .single rfl
  | cons m ms => exact reads_members config m ms (.inl rfl) []

theorem field_of_ite {α : Type} {read : Value → Option α} {value : Value} {a : α}
    (h : read value = some a) (default : α) (p : Prop) [Decidable p] :
    field read default (if p then [value] else []) = some (if p then a else default) := by
  by_cases hp : p
  · simp [hp, field, h]
  · simp [hp, field]

theorem optional?_value (config : Config) :
    optional? (Field.lockWait.value config) = some config.lockWait := by
  unfold Field.value
  dsimp only
  cases config.lockWait with
  | some ms => simp [optional?, natural?, natural?_ofNat]
  | none => rfl

/-- What a layout writes of a configuration is read, and the rest is at its default. -/
theorem read?_text (layout : Layout) (config : Config) :
    read? (layout.text config) = some (layout.keep config) := by
  have hread : Json.read? (layout.text config) =
      some ⟨.object (layout.fields.map (Field.entry config)), true⟩ := by
    rw [Json.read?, layout.reads_text config]
    rfl
  have hkeys : (layout.fields.map (Field.entry config)).all (·.1.isSome) = true := by
    simp [Field.entry]
  rw [read?, hread, Option.bind_some, ofValue?, if_pos hkeys]
  have hd := Field.membersOf_entries config layout.nodup .dataDir
  have ho := Field.membersOf_entries config layout.nodup .order
  have hw := Field.membersOf_entries config layout.nodup .lockWait
  rw [show "data_dir" = Field.dataDir.key from rfl, show "btree_order" = Field.order.key from rfl,
    show "lock_wait_timeout_ms" = Field.lockWait.key from rfl, fields, hd, ho, hw]
  have hs : string? (Field.dataDir.value config) = some config.dataDir := rfl
  have hn : natural? (Field.order.value config) = some config.order := natural?_ofNat config.order
  simp only [ofFields?, field_of_ite hs, field_of_ite hn, field_of_ite (optional?_value config)]
  rfl

theorem ofFile_file (layout : Layout) (config : Config) :
    ofFile (layout.file config) =
      (layout.keep config).validate.map fun _ => layout.keep config := by
  simp only [file, ofFile, Text.Utf8.decode?_encode, layout.read?_text config]

end Layout

/-- A configuration that is written with its fields in any order, any of them left out and any
blanks between the tokens, is loaded with the others at their defaults, if that makes a valid
configuration, and refused as an invalid one if not. One of these ways to write is the compact
form with all the fields. And whatever a file holds, or if there is none, what is loaded passes
validation. -/
theorem loads_what_is_written (config : Config) (layout : Layout) :
    ((layout.keep config).Valid →
      ofFile (layout.file config) = .ok (layout.keep config)) ∧
    (¬ (layout.keep config).Valid →
      ∃ message, ofFile (layout.file config) = .error (.invalidConfig message)) ∧
    (Layout.compact.text config = config.text ∧ Layout.compact.keep config = config) ∧
    ∀ file loaded, ofFile file = .ok loaded → loaded.validate = .ok () ∧ loaded.Valid := by
  refine ⟨fun h => ?_, fun h => ?_, ⟨Layout.compact_text config, Layout.compact_keep config⟩, ?_⟩
  · rw [layout.ofFile_file, validate_of_valid h]
    rfl
  · obtain ⟨message, he⟩ := validate_of_not_valid h
    exact ⟨message, by rw [layout.ofFile_file, he]; rfl⟩
  · intro file loaded h
    have hv := validate_of_ofFile h
    exact ⟨hv, valid_of_validate hv⟩

/-- Two fields, the later one first, and a blank before each token but the colons. -/
def twoFields : Layout :=
  let blank : Blanks := { text := [' '] }
  { members := [
      { field := .lockWait, beforeKey := blank, beforeValue := blank },
      { field := .order, beforeKey := blank, beforeValue := blank, behindValue := blank }] }

theorem loads_what_is_written_two_fields :
    twoFields.text { order := 8, lockWait := none } =
      "\x7b \"lock_wait_timeout_ms\": null, \"btree_order\": 8 \x7d".toList ∧
    ofFile (twoFields.file { dataDir := "", order := 8, lockWait := none }) =
      .ok { dataDir := "data", order := 8, lockWait := none } ∧
    ∃ message, ofFile (twoFields.file { order := 1 }) = .error (.invalidConfig message) := by
  refine ⟨by decide +kernel, ?_, ?_⟩
  · exact (loads_what_is_written { dataDir := "", order := 8, lockWait := none } twoFields).1
      ⟨by decide, by decide⟩
  · exact (loads_what_is_written { order := 1 } twoFields).2.1
      fun h => absurd h.three_le_order (by decide)

end RelStore.Config
