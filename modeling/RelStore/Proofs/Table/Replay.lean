import RelStore.Proofs.Table.Log

/-!
# The last record of a row counts

A log holds records one on a line, with blank lines wherever they please (`Record.Spelled`). It is
loaded whatever they are, and the table has of each row what its last record says of it
(`Table.Replayed`): the rows follow from what one record does to what is found under an id
(`Record.find?_onto`), the next row id from what it does to the greatest one (`Table.toNat_nextId`).
-/

namespace RelStore

open Index
open Text.Utf8 (Bytes)

/-- Bytes without a line feed are one line, if there are any. -/
theorem Text.Utf8.lines_of_not_mem {bytes : Bytes} (h : 10 ∉ bytes) (hne : bytes ≠ []) :
    lines bytes = [bytes] := by
  induction bytes with
  | nil => exact absurd rfl hne
  | cons b bytes ih =>
    rw [List.mem_cons, not_or] at h
    rw [lines, if_neg (Ne.symm h.1)]
    cases bytes with
    | nil => rfl
    | cons b' bytes => rw [ih h.2 (List.cons_ne_nil _ _)]

namespace Record

/-! ## What a log says of a row -/

/-- The row that a record leaves. -/
def row? : Record → Option Row
  | insert _ row | update _ row => some row
  | delete _ => none

/-- The last record about a row. -/
def last? (id : RowId) (log : List Record) : Option Record :=
  (log.filter (id = ·.id)).getLast?

theorem last?_append_singleton (id : RowId) (log : List Record) (record : Record) :
    last? id (log ++ [record]) = if id = record.id then some record else last? id log := by
  rw [last?, List.filter_append, List.filter_singleton]
  by_cases h : id = record.id
  · rw [if_pos h, decide_eq_true h]
    exact List.getLast?_concat
  · rw [if_neg h, decide_eq_false h]
    exact congrArg List.getLast? (List.append_nil _)

/-- A record decides what is found under its own id and under no other. -/
theorem find?_onto {rows : List (RowId × Row)} (h : Leaf.Ascending rows) (record : Record)
    (id : RowId) :
    Leaf.find? id (onto rows record) =
      if id = record.id then record.row? else Leaf.find? id rows := by
  cases record with
  | insert other row | update other row => exact Leaf.find?_insert other row h id
  | delete other => exact Leaf.find?_erase other h id

theorem ascending_rows (log : List Record) : Leaf.Ascending (rows log) := by
  induction log using List.reverseRec with
  | nil => exact Leaf.ascending_nil
  | append_singleton log record ih => rw [rows_append]; exact Ascending.onto ih record

/-- The rows of a log are what the last records about them leave. -/
theorem find?_rows (log : List Record) (id : RowId) :
    Leaf.find? id (rows log) = (last? id log).bind row? := by
  induction log using List.reverseRec with
  | nil => rfl
  | append_singleton log record ih =>
    rw [rows_append, List.foldl_cons, List.foldl_nil, find?_onto (ascending_rows log), ih,
      last?_append_singleton]
    split_ifs <;> rfl

/-! ## Logs with blank lines -/

/-- A record fills one line and is read back from it. -/
theorem encode_eq (record : Record) :
    record.encode = Text.Utf8.encode record.text ++ [10] ∧
      10 ∉ Text.Utf8.encode record.text :=
  ⟨Text.Utf8.encode_append .., Text.Utf8.newline_not_mem_encode record.newline_not_mem_text⟩

/-- Nothing but blanks on a line. -/
def BlankLine (text : List Char) : Prop := ∀ c ∈ text, Text.isBlank c = true ∧ c ≠ '\n'

instance (text : List Char) : Decidable (BlankLine text) :=
  List.decidableBAll (fun c => Text.isBlank c = true ∧ c ≠ '\n') text

/-- The contents of a log that holds these records, each on a line of its own, with blank lines
before, between and behind them. The last line may lack its line feed if it is blank. -/
inductive Spelled : List Record → Bytes → Prop
  | rest {text : List Char} : BlankLine text → Spelled [] (Text.Utf8.encode text)
  | blank {text : List Char} {records : List Record} {log : Bytes} : BlankLine text →
    Spelled records log → Spelled records (Text.Utf8.encode (text ++ ['\n']) ++ log)
  | cons (record : Record) {records : List Record} {log : Bytes} :
    Spelled records log → Spelled (record :: records) (record.encode ++ log)

theorem BlankLine.newline_not_mem {text : List Char} (h : BlankLine text) : '\n' ∉ text :=
  fun hm => (h _ hm).2 rfl

theorem BlankLine.all {text : List Char} (h : BlankLine text) : text.all Text.isBlank = true :=
  List.all_eq_true.2 fun c hc => (h c hc).1

end Record

namespace Table

theorem replay_blank {text : List Char} (h : Record.BlankLine text) (t : Table) (line : Nat)
    (rest : List Bytes) :
    t.replay line (Text.Utf8.encode text :: rest) = t.replay (line + 1) rest := by
  rw [replay, Text.Utf8.decode?_encode]
  dsimp only
  rw [if_pos h.all]

/-- Blank lines do not count. -/
theorem replay_spelled {records : List Record} {log : Bytes} (h : Record.Spelled records log)
    (t : Table) (line : Nat) :
    t.replay line (Text.Utf8.lines log) = .ok (records.foldl apply t) := by
  induction h generalizing t line with
  | @rest text hblank =>
    rcases text with _ | ⟨c, text⟩
    · rfl
    · have hne : Text.Utf8.encode (c :: text) ≠ [] :=
        Text.Utf8.encode_ne_nil (List.cons_ne_nil c text)
      rw [Text.Utf8.lines_of_not_mem (Text.Utf8.newline_not_mem_encode hblank.newline_not_mem) hne,
        replay_blank hblank]
      rfl
  | blank hblank _ ih =>
    rw [Text.Utf8.lines_encode_append hblank.newline_not_mem, replay_blank hblank]
    exact ih t _
  | cons record _ ih =>
    rw [Record.lines_encode, replay_record]
    exact ih (t.apply record) _

/-! ## The next row id -/

/-- The number behind that of a row id; the greatest has none behind it. -/
def numberAfter (n : Nat) : Nat := min (n + 1) (2 ^ 64 - 1)

theorem toNat_idAfter_eq (id : RowId) : (idAfter id).toNat = numberAfter id.toNat := by
  have hid := id.toNat_lt
  unfold numberAfter idAfter
  split_ifs with h
  · rw [h, toNat_greatestId]
    omega
  · have hne : id.toNat ≠ 2 ^ 64 - 1 := fun he =>
      h (UInt64.toNat_inj.1 (he.trans toNat_greatestId.symm))
    rw [UInt64.toNat_add, UInt64.toNat_one]
    omega

/-- The next row id lies behind the greatest that was applied, if not further on already. -/
theorem toNat_nextId (t : Table) (log : List Record) :
    (log.foldl apply t).nextId.toNat =
      (log.map fun record => numberAfter record.id.toNat).foldl max t.nextId.toNat := by
  induction log generalizing t with
  | nil => rfl
  | cons record log ih =>
    rw [List.foldl_cons, ih, nextId_apply, UInt64.toNat_max, toNat_idAfter_eq, List.map_cons,
      List.foldl_cons]

theorem foldl_max_numberAfter (n : Nat) (numbers : List Nat) :
    (numbers.map numberAfter).foldl max (numberAfter n) = numberAfter (numbers.foldl max n) := by
  induction numbers generalizing n with
  | nil => rfl
  | cons m numbers ih =>
    have hm : max (numberAfter n) (numberAfter m) = numberAfter (max n m) := by
      unfold numberAfter
      omega
    rw [List.map_cons, List.foldl_cons, hm, ih, List.foldl_cons]

/-! ## Loading -/

/-- A table that holds of each row what its last record in a log says. -/
structure Replayed (t : Table) (log : List Record) : Prop where
  ascending : Leaf.Ascending t.scan
  mem_scan (id : RowId) (row : Row) : (id, row) ∈ t.scan ↔
    ∃ record, Record.last? id log = some record ∧ record.row? = some row
  /-- Behind the greatest id of all, unless that is the last one. -/
  nextId : t.nextId.toNat = match (log.map (·.id.toNat)).max? with
    | none => 1
    | some greatest => min (greatest + 1) (2 ^ 64 - 1)

theorem replayed_foldl (name : String) (order : Order) (log : List Record) :
    (log.foldl apply (empty name order)).Replayed log := by
  obtain ⟨hvalid, hscan⟩ := foldl_apply (follows_empty name order).valid log
  have hrows : (log.foldl apply (empty name order)).scan = Record.rows log := hscan
  refine ⟨hvalid.ascending, fun id row => ?_, ?_⟩
  · rw [hrows, ← Leaf.find?_eq_some_iff id (Record.ascending_rows log), Record.find?_rows,
      Option.bind_eq_some_iff]
  · have hone : (empty name order).nextId.toNat = 1 := rfl
    rw [toNat_nextId, hone]
    cases log with
    | nil => rfl
    | cons record log =>
      have hmap : (log.map fun record => numberAfter record.id.toNat) =
          (log.map (·.id.toNat)).map numberAfter := by
        rw [List.map_map]
        rfl
      have hfirst : max 1 (numberAfter record.id.toNat) = numberAfter record.id.toNat := by
        unfold numberAfter
        omega
      rw [List.map_cons, List.foldl_cons, hfirst, hmap, foldl_max_numberAfter, List.map_cons,
        List.max?_cons']
      rfl

/-- A log is loaded as what its records say last, whatever they are. -/
theorem load_last_records {records : List Record} {log : Bytes} {d : Directory} {name : String}
    (hlog : Record.Spelled records log) (hfile : d.lookup name = .file log) (order : Order) :
    (∀ record : Record, ∃ line, record.encode = line ++ [10] ∧ 10 ∉ line) ∧
      ∃ t, load name order d = .ok t ∧ t.Replayed records := by
  refine ⟨fun record => ⟨_, record.encode_eq⟩, _, ?_, replayed_foldl name order records⟩
  unfold load ofLog
  rw [hfile]
  exact replay_spelled hlog _ _

/-- A log that begins with a blank line and ends with another, in which a row is inserted and
deleted, one is written twice, and one has the greatest id. -/
theorem load_last_records_with_gaps :
    let row : Row := .ofList [("größe", "a \"b\"\n"), ("c", "'\\'")]
    let records : List Record :=
      [.insert 7 .empty, .insert greatestId row, .delete 7, .insert 3 .empty, .update 3 row]
    let log := Text.Utf8.encode [' ', '\n'] ++ (records.flatMap Record.encode ++
      Text.Utf8.encode ['\t', '\r'])
    let d : Directory := { entries := .ofList [(["t"], .file log)] }
    Record.Spelled records log ∧ d.lookup "t" = .file log ∧
      ∃ t, load "t" ⟨3, le_rfl⟩ d = .ok t ∧ t.Replayed records ∧ (3, row) ∈ t.scan ∧
        (∀ row, (7, row) ∉ t.scan) ∧ t.nextId = greatestId := by
  intro row records log d
  have hrecords : Record.Spelled records (records.flatMap Record.encode ++
      Text.Utf8.encode ['\t', '\r']) := by
    have hrest : Record.Spelled [] (Text.Utf8.encode ['\t', '\r']) := .rest (by decide)
    simp only [records, List.flatMap_cons, List.flatMap_nil, List.append_assoc, List.nil_append]
    exact .cons _ (.cons _ (.cons _ (.cons _ (.cons _ hrest))))
  have hblank : Record.BlankLine [' '] := by decide
  have hlog : Record.Spelled records log := .blank hblank hrecords
  have hfile : d.lookup "t" = .file log := rfl
  obtain ⟨-, t, hload, h⟩ := load_last_records hlog hfile ⟨3, le_rfl⟩
  refine ⟨hlog, hfile, t, hload, h, (h.mem_scan 3 row).2 ⟨.update 3 row, rfl, rfl⟩, ?_, ?_⟩
  · intro row' hm
    obtain ⟨record, hlast, hrow⟩ := (h.mem_scan 7 row').1 hm
    obtain rfl : Record.delete 7 = record := Option.some.inj hlast
    cases hrow
  · exact UInt64.toNat_inj.1 h.nextId

end Table

end RelStore
