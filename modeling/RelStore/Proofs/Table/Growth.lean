import RelStore.Proofs.Json.Margin
import RelStore.Proofs.Table.Replay
import RelStore.Proofs.Text.Lines

/-!
# Logs that grow

Records are put behind a log without a look at how it ends. They are read back from there if the
last line of the log is finished, or holds nothing yet but the blanks that may stand in front of a
JSON document (`Extensible`). Otherwise the first of them runs into what stands on that line, and the
log is not read any more (`ofLog_append`).
-/

namespace RelStore

open Text.Utf8 (Bytes finished unfinished)

/-! ## Two texts on one line -/

namespace Record

theorem ofValue?_number (number : Json.Number) : ofValue? (.number number) = none := rfl

/-- A record is no number, so it is finished where its text ends. -/
theorem read?_append_eq_none {text : List Char} {record : Record} (h : read? text = some record)
    {rest : List Char} (hrest : rest.all Json.isSpace = false) : read? (text ++ rest) = none := by
  obtain ⟨document, hd, hrecord⟩ := Option.bind_eq_some_iff.1 h
  have hnumber : ∀ number, document.value ≠ .number number := by
    intro number hn
    rw [hn, ofValue?_number] at hrecord
    split_ifs at hrecord
  rw [read?, Json.read?_append_eq_none hd hnumber hrest]
  rfl

theorem read?_append_text {text : List Char} {record : Record} (h : read? text = some record)
    (more : Record) : read? (text ++ more.text) = none := by
  obtain ⟨cs, hcs⟩ : ∃ cs, more.text = '{' :: cs := List.head?_eq_some_iff.1 more.head?_text
  refine read?_append_eq_none h ?_
  rw [hcs, List.all_cons]
  rfl

theorem read?_spaces_append {spaces : List Char} (h : spaces.all Json.isSpace = true)
    (record : Record) : read? (spaces ++ record.text) = some record := by
  rw [read?, Json.read?_spaces_append (List.all_eq_true.1 h)]
  exact record.read?_text

theorem read?_blanks_append {blanks : List Char} (hb : blanks.all Text.isBlank = true)
    (hs : blanks.all Json.isSpace = false) (record : Record) :
    read? (blanks ++ record.text) = none := by
  rw [read?, Json.read?_blanks_append hb hs]
  rfl

end Record

theorem Json.isBlank_of_isSpace {c : Char} (h : isSpace c = true) : Text.isBlank c = true := by
  unfold isSpace at h
  simp only [Bool.or_eq_true, decide_eq_true_eq] at h
  rcases h with ((rfl | rfl) | rfl) | rfl <;> decide

namespace Table

variable {t : Table} {name : String} {order : Index.Order} {log : Bytes}

/-- Nothing is wanting to the last line of a log: it is finished, or holds nothing but blanks that
may stand in front of a JSON document. -/
def Extensible (log : Bytes) : Prop :=
  (Text.Utf8.decode? (unfinished log)).any (·.all Json.isSpace) = true

instance (log : Bytes) : Decidable (Extensible log) := by unfold Extensible; infer_instance

theorem extensible_of_unfinished (h : unfinished log = []) : Extensible log := by
  unfold Extensible
  rw [h]
  rfl

theorem unfinished_append_encode (log : Bytes) (record : Record) :
    unfinished (log ++ record.encode) = [] := by
  rw [record.encode_eq.1, ← List.append_assoc]
  exact Text.Utf8.unfinished_append_newline _

/-- Records leave a log that goes on being extensible. -/
theorem Extensible.append (h : Extensible log) (records : List Record) :
    Extensible (log ++ records.flatMap Record.encode) := by
  cases records using List.reverseRec with
  | nil => rwa [List.flatMap_nil, List.append_nil]
  | append_singleton records record =>
    rw [List.flatMap_append, List.flatMap_singleton, ← List.append_assoc]
    exact extensible_of_unfinished (unfinished_append_encode _ record)

theorem name_apply (t : Table) (record : Record) : (t.apply record).name = t.name := by
  cases record <;> rfl

/-! ## Reading a log to its end -/

/-- Lines are read one after the other. -/
theorem replay_append (t : Table) (line : Nat) (ls ms : List Bytes) :
    t.replay line (ls ++ ms) =
      (t.replay line ls).bind fun t' => t'.replay (line + ls.length) ms := by
  induction ls generalizing t line with
  | nil => rfl
  | cons bytes ls ih =>
    have hl : line + 1 + ls.length = line + (bytes :: ls).length := by
      rw [List.length_cons]
      omega
    rw [List.cons_append, replay, replay]
    cases Text.Utf8.decode? bytes with
    | none => rfl
    | some text =>
      dsimp only
      split_ifs
      · rw [ih, hl]
      · cases Record.read? text with
        | none => rfl
        | some record => dsimp only; rw [ih, hl]

theorem name_replay {t' : Table} {line : Nat} {ls : List Bytes} (h : t.replay line ls = .ok t') :
    t'.name = t.name := by
  induction ls generalizing t line with
  | nil => cases h; rfl
  | cons bytes ls ih =>
    unfold replay at h
    cases hd : Text.Utf8.decode? bytes with
    | none => rw [hd] at h; cases h
    | some text =>
      rw [hd] at h
      dsimp only at h
      split_ifs at h
      · exact ih h
      · cases hr : Record.read? text with
        | none => rw [hr] at h; cases h
        | some record =>
          rw [hr] at h
          exact (ih h).trans (name_apply t record)

/-- A line that a record is put on, where it was read before. -/
theorem replay_line_append {t' : Table} {line : Nat} {bytes : Bytes}
    (h : t.replay line [bytes] = .ok t') (record : Record) :
    t.replay line [bytes ++ Text.Utf8.encode record.text] =
      if (Text.Utf8.decode? bytes).any (·.all Json.isSpace) = true then .ok (t'.apply record)
      else .error (.corruptedRecord t.name line) := by
  unfold replay at h ⊢
  cases hd : Text.Utf8.decode? bytes with
  | none => rw [hd] at h; cases h
  | some text =>
    rw [hd] at h
    rw [Text.Utf8.decode?_append hd, Text.Utf8.decode?_encode]
    dsimp only [Option.map_some, Option.any_some] at h ⊢
    rw [List.all_append, record.isBlank_text, Bool.and_false, if_neg Bool.false_ne_true]
    by_cases hs : text.all Json.isSpace = true
    · have hb : text.all Text.isBlank = true := List.all_eq_true.2 fun c hc =>
        Json.isBlank_of_isSpace (List.all_eq_true.1 hs c hc)
      rw [if_pos hb] at h
      cases h
      rw [Record.read?_spaces_append hs, if_pos hs]
      rfl
    · have hnone : Record.read? (text ++ record.text) = none := by
        by_cases hb : text.all Text.isBlank = true
        · exact Record.read?_blanks_append hb (Bool.eq_false_iff.2 hs) record
        · rw [if_neg hb] at h
          cases hr : Record.read? text with
          | none => rw [hr] at h; cases h
          | some other => exact Record.read?_append_text hr record
      rw [hnone, if_neg hs]

/-- A record that is put behind a log is read from there, or it makes the last line unreadable. -/
theorem ofLog_append (h : ofLog name order log = .ok t) (record : Record) :
    ofLog name order (log ++ record.encode) =
      if Extensible log then .ok (t.apply record)
      else .error (.corruptedRecord name (Text.Utf8.lines log).length) := by
  have hsplit := Text.Utf8.finished_append_unfinished log
  have hnew : (unfinished log ++ Text.Utf8.encode record.text) ++ [10] =
      unfinished log ++ record.encode := by
    rw [record.encode_eq.1, List.append_assoc]
  have hline : Text.Utf8.lines (unfinished log ++ record.encode) =
      [unfinished log ++ Text.Utf8.encode record.text] := by
    rw [← hnew]
    exact Text.Utf8.lines_append_newline (by
      rw [List.mem_append, not_or]
      exact ⟨Text.Utf8.newline_not_mem_unfinished log, record.encode_eq.2⟩) []
  have hbefore := Text.Utf8.lines_finished_append log (unfinished log)
  rw [hsplit] at hbefore
  have hafter := Text.Utf8.lines_finished_append log (unfinished log ++ record.encode)
  rw [← List.append_assoc, hsplit, hline] at hafter
  unfold ofLog at h ⊢
  rw [hafter, replay_append]
  rw [hbefore, replay_append] at h
  cases hfirst : (empty name order).replay 1 (Text.Utf8.lines (finished log)) with
  | error error => rw [hfirst] at h; cases h
  | ok t₁ =>
    rw [hfirst] at h
    dsimp only [Except.bind] at h ⊢
    by_cases hu : unfinished log = []
    · rw [hu] at h ⊢
      cases h
      rw [if_pos (extensible_of_unfinished hu), List.nil_append, replay_record]
      rfl
    · have hone : Text.Utf8.lines (unfinished log) = [unfinished log] :=
        Text.Utf8.lines_of_not_mem (Text.Utf8.newline_not_mem_unfinished log) hu
      rw [hone] at h
      rw [replay_line_append h, name_replay hfirst, hbefore, hone, List.length_append,
        List.length_singleton, Nat.add_comm 1]
      rfl

/-- What stands behind a finished line is read after it. -/
theorem ofLog_append_of_finished (h : unfinished log = []) (more : Bytes) :
    ofLog name order (log ++ more) =
      (ofLog name order log).bind fun t =>
        t.replay (1 + (Text.Utf8.lines log).length) (Text.Utf8.lines more) := by
  have hlines := Text.Utf8.lines_finished_append log more
  rw [Text.Utf8.finished_of_unfinished h] at hlines
  unfold ofLog
  rw [hlines, replay_append]

/-- Only the first of some records can run into what stands before it. -/
theorem ofLog_append_all (h : ofLog name order log = .ok t) {records : List Record}
    (hne : records ≠ []) :
    ofLog name order (log ++ records.flatMap Record.encode) =
      if Extensible log then .ok (records.foldl apply t)
      else .error (.corruptedRecord name (Text.Utf8.lines log).length) := by
  obtain ⟨record, records, rfl⟩ := List.exists_cons_of_ne_nil hne
  rw [List.flatMap_cons, ← List.append_assoc,
    ofLog_append_of_finished (unfinished_append_encode log record), ofLog_append h]
  split_ifs
  · exact replay_encode ..
  · rfl

end Table

end RelStore
