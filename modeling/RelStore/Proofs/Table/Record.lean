import RelStore.Proofs.Json.Reading
import RelStore.Proofs.OrderedMap
import RelStore.Proofs.Text.Utf8
import RelStore.Table.Table

/-!
# Records and their lines

What a row log says of a change is read as that change (`read?_text`). A record fills exactly
one line, so a log is replayed record by record (`replay_encode`).
-/

namespace RelStore.Record

open Json

/-! ## Reading a written record -/

theorem mapM_cellOf?_cell (pairs : List (String × String)) :
    (pairs.map cell).mapM cellOf? = some pairs := by
  induction pairs with
  | nil => rfl
  | cons pair pairs ih =>
    rw [List.map_cons, List.mapM_cons, ih]
    rfl

theorem rowOf?_cells (row : Row) : rowOf? (.object (row.entries.map cell)) = some row := by
  rw [rowOf?, mapM_cellOf?_cell, Option.map_some, OrderedMap.ofList_entries]

theorem idOf?_ofNat (id : RowId) : idOf? (.number (.ofNat id.toNat)) = some id :=
  natural?_ofNat id

theorem head_eq (op : String) (id : RowId) :
    head op id = '{' :: (quote "op" ++ [':']) ++ quote op ++ (',' :: (quote "row_id" ++ [':'])) ++
      Text.Decimal.digits id.toNat := by
  have hop : '{' :: (quote "op" ++ [':']) = "\x7b\"op\":".toList := by decide +kernel
  have hid : ',' :: (quote "row_id" ++ [':']) = ",\"row_id\":".toList := by decide +kernel
  unfold head
  rw [hop, hid]

/-- The reader behind the fields that every record begins with, and one more character. -/
theorem reads_head (op : String) (id : RowId) {c : Char} (hc : c = ',' ∨ c = '}') {r : Reader}
    (h : Reader.between ⟨[.object [(some "row_id", .number (.ofNat id.toNat)),
      (some "op", .string (some op))]], .next, true⟩ c = some r) :
    Reads {} (head op id ++ [c]) r := by
  have hopen : Reader.step {} '{' = some ⟨[.object []], .firstKey, true⟩ := rfl
  have hnext : ∀ members, Reader.step ⟨[.object members], .next, true⟩ ',' =
      some ⟨[.object members], .key, true⟩ := fun _ => rfl
  rw [head_eq, List.append_assoc]
  refine ((Reads.cons hopen (reads_key (.inl rfl) "op" [])).append (reads_string rfl)).append
    (.cons (hnext _) (reads_key (.inr rfl) "row_id" _)) |>.append ?_
  exact reads_natural id.toNat_lt (.inr hc) h

/-- The reader behind a record with values. -/
theorem reads_values (op : String) (id : RowId) (row : Row) :
    Reads {} (head op id ++ ",\"values\":".toList ++ rowText row ++ ['}'])
      ⟨[], .done (.object [(some "op", .string (some op)),
        (some "row_id", .number (.ofNat id.toNat)),
        (some "values", .object (row.entries.map cell))]), true⟩ := by
  have hv : ",\"values\":".toList = [','] ++ (quote "values" ++ [':']) := by decide +kernel
  have hdepth : 1 + 1 < depthLimit := by decide
  rw [hv, ← List.append_assoc (head op id)]
  exact ((reads_head op id (.inl rfl) rfl).append (reads_key (.inr rfl) "values" _)).append
    (reads_object hdepth rfl) |>.append (.single rfl)

theorem reads_delete (id : RowId) :
    Reads {} (head "delete" id ++ ['}'])
      ⟨[], .done (.object [(some "op", .string (some "delete")),
        (some "row_id", .number (.ofNat id.toNat))]), true⟩ :=
  reads_head "delete" id (.inr rfl) rfl

/-- A record is read back from its text. -/
theorem read?_text (record : Record) : read? record.text = some record := by
  have hread : ∀ {value : Value}, Reads {} record.text ⟨[], .done value, true⟩ →
      read? record.text = ofValue? value := by
    intro value h
    rw [read?, Json.read?, h]
    rfl
  cases record with
  | insert id row =>
    rw [hread (reads_values "insert" id row)]
    simp [ofValue?, membersOf, ofFields?, idOf?_ofNat, rowOf?_cells]
  | update id row =>
    rw [hread (reads_values "update" id row)]
    simp [ofValue?, membersOf, ofFields?, idOf?_ofNat, rowOf?_cells]
  | delete id =>
    rw [hread (reads_delete id)]
    simp [ofValue?, membersOf, ofFields?, idOf?_ofNat]

/-! ## Records as lines -/

theorem newline_not_mem_escapeChar (c : Char) : '\n' ∉ escapeChar c := by
  have hx : ∀ d < 16, '\n' ≠ hexDigit d := by decide
  unfold escapeChar
  split
  case h_8 =>
    split
    · have h1 := hx (c.toNat / 16) (by omega)
      have h2 := hx (c.toNat % 16) (by omega)
      simp [h1, h2]
    · next h =>
      rw [List.mem_singleton]
      rintro rfl
      exact h (by decide)
  all_goals decide

theorem newline_not_mem_quote (s : String) : '\n' ∉ quote s := by
  rw [quote, List.cons_append, List.mem_cons, List.mem_append, List.mem_flatMap]
  rintro (h | ⟨c, -, h⟩ | h)
  · cases h
  · exact newline_not_mem_escapeChar c h
  · exact absurd h (by decide)

theorem newline_not_mem_rowText (row : Row) : '\n' ∉ rowText row := by
  have hm : ∀ text ∈ memberTexts row, '\n' ∉ text := by
    intro text h
    obtain ⟨pair, -, rfl⟩ := List.mem_map.1 h
    rw [List.mem_append, List.mem_cons, not_or, not_or]
    exact ⟨newline_not_mem_quote _, by decide, newline_not_mem_quote _⟩
  have hi : ∀ texts : List (List Char), (∀ text ∈ texts, '\n' ∉ text) →
      '\n' ∉ List.intercalate [','] texts := by
    rintro (_ | ⟨text, texts⟩) h
    · exact List.not_mem_nil
    · rw [List.forall_mem_cons] at h
      rw [intercalate_cons, List.mem_append, List.mem_flatMap]
      rintro (h' | ⟨text', hm, h'⟩)
      · exact h.1 h'
      · exact h.2 text' hm ((List.mem_cons.1 h').resolve_left (by decide))
  rw [rowText, List.cons_append, List.mem_cons, List.mem_append, List.mem_singleton]
  rintro (h | h | h)
  · cases h
  · exact hi _ hm h
  · cases h

theorem newline_not_mem_head (op : String) (id : RowId) : '\n' ∉ head op id := by
  have hd : '\n' ∉ Text.Decimal.digits id.toNat := fun h =>
    absurd (Text.Decimal.isDigit_of_mem_digits h) (by decide)
  rw [head_eq]
  simp only [List.mem_append, List.mem_cons, not_or]
  exact ⟨⟨⟨⟨by decide, newline_not_mem_quote _, by decide⟩, newline_not_mem_quote _⟩, by decide,
    newline_not_mem_quote _, by decide⟩, hd⟩

theorem newline_not_mem_text (record : Record) : '\n' ∉ record.text := by
  have hv : '\n' ∉ ",\"values\":".toList := by decide +kernel
  cases record with
  | insert id row | update id row =>
    simp only [text, List.mem_append, not_or]
    exact ⟨⟨⟨newline_not_mem_head _ id, hv⟩, newline_not_mem_rowText row⟩, by decide⟩
  | delete id =>
    simp only [text, List.mem_append, not_or]
    exact ⟨newline_not_mem_head _ id, by decide⟩

theorem head?_text (record : Record) : record.text.head? = some '{' := by
  cases record <;> simp only [text, head_eq] <;> rfl

theorem isBlank_text (record : Record) : record.text.all Text.isBlank = false := by
  obtain ⟨cs, hcs⟩ : ∃ cs, record.text = '{' :: cs := by
    have h := record.head?_text
    cases ht : record.text with
    | nil => rw [ht] at h; cases h
    | cons c cs => rw [ht] at h; exact ⟨cs, by rw [Option.some.inj h]⟩
  have hb : Text.isBlank '{' = false := by decide
  rw [hcs, List.all_cons, hb, Bool.false_and]

theorem lines_encode (record : Record) (rest : Text.Utf8.Bytes) :
    Text.Utf8.lines (record.encode ++ rest) =
      Text.Utf8.encode record.text :: Text.Utf8.lines rest :=
  Text.Utf8.lines_encode_append record.newline_not_mem_text rest

/-- The records on the lines of a log. -/
def ofLog (log : Text.Utf8.Bytes) : List Record :=
  (Text.Utf8.lines log).filterMap fun line => (Text.Utf8.decode? line).bind read?

/-- A log holds the records that were written to it. -/
theorem ofLog_encode (records : List Record) : ofLog (records.flatMap encode) = records := by
  induction records with
  | nil => rfl
  | cons record records ih =>
    rw [ofLog, List.flatMap_cons, lines_encode, List.filterMap_cons, Text.Utf8.decode?_encode,
      Option.bind_some, read?_text]
    exact congrArg (record :: ·) ih

end RelStore.Record

namespace RelStore.Table

theorem replay_record (t : Table) (line : Nat) (record : Record) (rest : List Text.Utf8.Bytes) :
    t.replay line (Text.Utf8.encode record.text :: rest) =
      (t.apply record).replay (line + 1) rest := by
  rw [replay, Text.Utf8.decode?_encode]
  dsimp only
  rw [record.isBlank_text, if_neg Bool.false_ne_true, Record.read?_text]

/-- Records are replayed, and then what stands behind them. -/
theorem replay_encode_append (t : Table) (line : Nat) (records : List Record)
    (rest : Text.Utf8.Bytes) :
    t.replay line (Text.Utf8.lines (records.flatMap Record.encode ++ rest)) =
      (records.foldl Table.apply t).replay (line + records.length) (Text.Utf8.lines rest) := by
  induction records generalizing t line with
  | nil => rfl
  | cons record records ih =>
    rw [List.flatMap_cons, List.append_assoc, Record.lines_encode, replay_record, ih,
      List.foldl_cons, List.length_cons, Nat.add_right_comm, Nat.add_assoc]

theorem replay_encode (t : Table) (line : Nat) (records : List Record) :
    t.replay line (Text.Utf8.lines (records.flatMap Record.encode)) =
      .ok (records.foldl Table.apply t) := by
  have h := replay_encode_append t line records []
  rwa [List.append_nil] at h

/-- A log gives its records to the table, or it is unreadable, as bytes or in one of its lines. -/
theorem replay_cases (t : Table) (line : Nat) (lines : List Text.Utf8.Bytes) :
    (∃ records : List Record, t.replay line lines = .ok (records.foldl apply t)) ∨
      t.replay line lines = .error .io ∨
        ∃ name line', t.replay line lines = .error (.corruptedRecord name line') := by
  induction lines generalizing t line with
  | nil => exact .inl ⟨[], rfl⟩
  | cons bytes rest ih =>
    unfold replay
    cases Text.Utf8.decode? bytes with
    | none => exact .inr (.inl rfl)
    | some text =>
      dsimp only
      split_ifs
      · exact ih t _
      · cases Record.read? text with
        | none => exact .inr (.inr ⟨_, _, rfl⟩)
        | some record =>
          exact (ih (t.apply record) _).imp_left fun ⟨records, h⟩ => ⟨record :: records, h⟩

/-- A table is loaded by records of its log, or its file or its log is unreadable. -/
theorem load_cases (name : String) (order : Index.Order) (d : Directory) :
    (∃ records : List Record, load name order d = .ok (records.foldl apply (empty name order))) ∨
      load name order d = .error .io ∨
        ∃ name' line, load name order d = .error (.corruptedRecord name' line) := by
  unfold load
  cases d.lookup name with
  | missing => exact .inl ⟨[], rfl⟩
  | refused => exact .inr (.inl rfl)
  | file log => exact replay_cases ..

/-- A log makes of an empty table what the records that were written to it make of it. -/
theorem ofLog_encode (name : String) (order : Index.Order) (records : List Record) :
    ofLog name order (records.flatMap Record.encode) =
      .ok (records.foldl Table.apply (empty name order)) :=
  replay_encode _ _ _

end RelStore.Table
