import RelStore.Proofs.Table.Growth

/-!
# Logs that break off

A log may end anywhere, where its last write was cut short. It falls into the records that are there
in full and a piece of the next one (`Record.split_of_prefix`). No piece of a record reads as a
record or as a blank line (`Record.read?_piece`), so the piece is an error on the line behind the
records, unless only the line feed is wanting (`Table.load_torn`).
-/

namespace RelStore

open Text.Utf8 (Bytes SplitsCharacter)

namespace Record

/-! ## Where a log breaks off -/

/-- Where the first `k` records end in the log. -/
def boundary (records : List Record) (k : Nat) : Nat :=
  ((records.take k).flatMap encode).length

/-- The first `n` bytes of a log are `k` records, of which the last may lack its line feed. -/
structure EndsAt (records : List Record) (n k : Nat) : Prop where
  le : k ≤ records.length
  eq : n = boundary records k ∨ n + 1 = boundary records k

/-- The first `n` bytes of a log are `k` records and a piece of the next one. -/
structure EndsWithin (records : List Record) (n k : Nat) : Prop where
  lt : k < records.length
  lower : boundary records k < n
  /-- More is wanting than the line feed. -/
  upper : n + 1 < boundary records (k + 1)

/-- The characters of a log. -/
def logText (records : List Record) : List Char :=
  records.flatMap fun record => record.text ++ ['\n']

theorem encode_logText (records : List Record) :
    Text.Utf8.encode (logText records) = records.flatMap encode := by
  induction records with
  | nil => rfl
  | cons record records ih =>
    rw [logText, List.flatMap_cons, Text.Utf8.encode_append, List.flatMap_cons, ← ih]
    rfl

theorem length_encode (record : Record) :
    record.encode.length = (Text.Utf8.encode record.text).length + 1 := by
  rw [record.encode_eq.1, List.length_append]
  rfl

theorem prefix_flatMap_take (records : List Record) (k : Nat) :
    (records.take k).flatMap encode <+: records.flatMap encode :=
  ⟨(records.drop k).flatMap encode, by rw [← List.flatMap_append, List.take_append_drop]⟩

theorem flatMap_take_succ {records : List Record} {k : Nat} (h : k < records.length) :
    (records.take (k + 1)).flatMap encode =
      (records.take k).flatMap encode ++ records[k].encode := by
  rw [List.take_succ_eq_append_getElem h, List.flatMap_append, List.flatMap_singleton]

theorem boundary_succ {records : List Record} {k : Nat} (h : k < records.length) :
    boundary records (k + 1) =
      boundary records k + (Text.Utf8.encode records[k].text).length + 1 := by
  rw [boundary, flatMap_take_succ h, List.length_append, length_encode]
  rfl

/-- Bytes that a log begins with are records and what is there of the next one. -/
theorem split_of_prefix {records : List Record} {cut : Bytes}
    (h : cut <+: records.flatMap encode) :
    cut = records.flatMap encode ∨ ∃ (k : Nat) (hk : k < records.length) (piece : Bytes),
      cut = (records.take k).flatMap encode ++ piece ∧
        piece <+: Text.Utf8.encode records[k].text := by
  induction records generalizing cut with
  | nil => exact .inl (List.prefix_nil.1 h)
  | cons record records ih =>
    rw [List.flatMap_cons] at h
    by_cases hr : record.encode <+: cut
    · obtain ⟨rest, rfl⟩ := hr
      rcases ih ((List.prefix_append_right_inj _).1 h) with rfl | ⟨k, hk, piece, rfl, hpiece⟩
      · exact .inl rfl
      · refine .inr ⟨k + 1, Nat.succ_lt_succ hk, piece, ?_, hpiece⟩
        rw [List.take_succ_cons, List.flatMap_cons, List.append_assoc]
    · have hp := (List.prefix_or_prefix_of_prefix h (List.prefix_append _ _)).resolve_right hr
      rw [record.encode_eq.1, List.prefix_concat_iff, ← record.encode_eq.1] at hp
      exact .inr ⟨0, Nat.succ_pos _, cut, rfl, hp.resolve_left fun he => hr (he ▸ List.prefix_rfl)⟩

/-! ## Pieces of a record -/

theorem encode_text_ne_nil (record : Record) : Text.Utf8.encode record.text ≠ [] := by
  refine Text.Utf8.encode_ne_nil fun h => ?_
  have hhead := record.head?_text
  rw [h] at hhead
  cases hhead

theorem getLast?_text (record : Record) : record.text.getLast? = some '}' := by
  cases record <;> exact List.getLast?_concat

/-- No piece of a record is a record itself. -/
theorem read?_piece {piece : List Char} {record : Record} (h : piece <+: record.text)
    (hne : piece ≠ record.text) : read? piece = none := by
  obtain ⟨rest, hrest⟩ := h
  have hlast : rest.getLast? = some '}' := by
    have hr : rest ≠ [] := by
      rintro rfl
      exact hne ((List.append_nil _).symm.trans hrest)
    rw [← List.getLast?_append_of_ne_nil _ hr, hrest, record.getLast?_text]
  have hall : rest.all Json.isSpace = false := by
    rw [List.all_eq_false]
    exact ⟨'}', List.mem_of_getLast? hlast, by decide⟩
  cases hread : read? piece with
  | none => rfl
  | some other =>
    have hwhole := record.read?_text
    rw [← hrest, read?_append_eq_none hread hall] at hwhole
    cases hwhole

theorem isBlank_piece {piece : List Char} {record : Record} (h : piece <+: record.text)
    (hne : piece ≠ []) : piece.all Text.isBlank = false := by
  obtain ⟨c, cs, rfl⟩ := List.exists_cons_of_ne_nil hne
  obtain ⟨rest, hrest⟩ := h
  have hhead := record.head?_text
  rw [← hrest] at hhead
  obtain rfl := Option.some.inj hhead
  rw [List.all_cons]
  rfl

end Record

namespace Table

theorem name_foldl_apply (t : Table) (records : List Record) :
    (records.foldl apply t).name = t.name := by
  induction records generalizing t with
  | nil => rfl
  | cons record records ih => rw [List.foldl_cons, ih, name_apply]

/-- A piece of a record is an error, if it is not the whole text of the record. -/
theorem replay_piece {piece : Bytes} {record : Record}
    (h : piece <+: Text.Utf8.encode record.text) (hne : piece ≠ [])
    (hpart : piece ≠ Text.Utf8.encode record.text) (t : Table) (line : Nat) :
    t.replay line [piece] =
      .error (if Text.Utf8.decode? piece = none then .io else .corruptedRecord t.name line) := by
  rw [replay]
  cases hd : Text.Utf8.decode? piece with
  | none => rfl
  | some text =>
    obtain rfl := Text.Utf8.encode_of_decode? hd
    have hprefix : text <+: record.text := by
      obtain ⟨more, hmore⟩ := h
      have hwhole := Text.Utf8.decode?_encode record.text
      rw [← hmore, Text.Utf8.decode?_append hd, Option.map_eq_some_iff] at hwhole
      obtain ⟨rest, -, hrest⟩ := hwhole
      exact ⟨rest, hrest⟩
    have htext : text ≠ [] := by
      rintro rfl
      exact hne rfl
    dsimp only
    rw [Record.isBlank_piece hprefix htext, if_neg Bool.false_ne_true,
      Record.read?_piece hprefix fun he => hpart (congrArg _ he)]
    rfl

/-- The records that are there in full are replayed, and then what is there of the next one. -/
theorem ofLog_encode_append (name : String) (order : Index.Order) (records : List Record)
    {piece : Bytes} (h : 10 ∉ piece) (hne : piece ≠ []) :
    ofLog name order (records.flatMap Record.encode ++ piece) =
      (records.foldl apply (empty name order)).replay (1 + records.length) [piece] := by
  rw [ofLog, replay_encode_append, Text.Utf8.lines_of_not_mem h hne]

/-- Records, of which the last may lack its line feed, are replayed. -/
theorem ofLog_of_endsAt {records : List Record} {cut : Bytes}
    (hcut : cut <+: records.flatMap Record.encode) {k : Nat}
    (h : Record.EndsAt records cut.length k) (name : String) (order : Index.Order) :
    ofLog name order cut = .ok ((records.take k).foldl apply (empty name order)) := by
  rcases h.eq with he | he
  · obtain rfl : cut = (records.take k).flatMap Record.encode :=
      (List.prefix_of_prefix_length_le hcut (Record.prefix_flatMap_take records k)
        he.le).eq_of_length he
    exact ofLog_encode ..
  · obtain _ | k := k
    · cases he
    have hk : k < records.length := h.le
    rw [Record.boundary_succ hk, Nat.add_right_cancel_iff] at he
    have hwhole : (records.take k).flatMap Record.encode ++ Text.Utf8.encode records[k].text <+:
        records.flatMap Record.encode := by
      refine List.IsPrefix.trans ⟨[10], ?_⟩ (Record.prefix_flatMap_take records (k + 1))
      rw [Record.flatMap_take_succ hk, records[k].encode_eq.1, List.append_assoc]
    rw [Record.boundary, ← List.length_append] at he
    obtain rfl := (List.prefix_of_prefix_length_le hcut hwhole he.le).eq_of_length he
    rw [ofLog_encode_append _ _ _ records[k].encode_eq.2 records[k].encode_text_ne_nil,
      replay_record, replay, List.take_succ_eq_append_getElem hk, List.foldl_append]
    rfl

/-- A piece of a record behind others is an error on its line. -/
theorem ofLog_of_forall_not_endsAt {records : List Record} {cut : Bytes}
    (hcut : cut <+: records.flatMap Record.encode)
    (hnot : ∀ k, ¬ Record.EndsAt records cut.length k) (name : String) (order : Index.Order) :
    ∃ k, Record.EndsWithin records cut.length k ∧ ofLog name order cut = .error
      (if Text.Utf8.decode? cut = none then .io else .corruptedRecord name (k + 1)) := by
  rcases Record.split_of_prefix hcut with rfl | ⟨k, hk, piece, rfl, hpiece⟩
  · refine absurd ⟨le_rfl, .inl ?_⟩ (hnot records.length)
    rw [Record.boundary, List.take_length]
  have hne : piece ≠ [] := by
    rintro rfl
    refine hnot k ⟨hk.le, .inl ?_⟩
    rw [List.append_nil]
    rfl
  have hpart : piece ≠ Text.Utf8.encode records[k].text := by
    rintro rfl
    refine hnot (k + 1) ⟨hk, .inr ?_⟩
    rw [Record.boundary_succ hk, List.length_append]
    rfl
  have hnewline : 10 ∉ piece := fun h => records[k].encode_eq.2 (hpiece.subset h)
  have hdecode : Text.Utf8.decode? ((records.take k).flatMap Record.encode ++ piece) = none ↔
      Text.Utf8.decode? piece = none := by
    rw [← Record.encode_logText, Text.Utf8.decode?_append (Text.Utf8.decode?_encode _),
      Option.map_eq_none_iff]
  refine ⟨k, ⟨hk, ?_, ?_⟩, ?_⟩
  · rw [List.length_append, ← Record.boundary]
    exact Nat.lt_add_of_pos_right (List.length_pos_iff.2 hne)
  · have hlt : piece.length < (Text.Utf8.encode records[k].text).length :=
      Nat.lt_of_le_of_ne hpiece.length_le (mt hpiece.eq_of_length hpart)
    rw [List.length_append, ← Record.boundary, Record.boundary_succ hk]
    omega
  · rw [ofLog_encode_append name order _ hnewline hne, replay_piece hpiece hne hpart,
      name_foldl_apply, List.length_take_of_le hk.le, Nat.add_comm 1]
    simp only [hdecode]
    rfl

/-- A log that breaks off is read up to there if it breaks off between two records. Otherwise it is
an error, on the line behind the last record that is there in full; and if it breaks off in the
middle of a character, it is no text. -/
theorem load_torn {records : List Record} {cut : Bytes} {d : Directory} {name : String}
    (hcut : cut <+: records.flatMap Record.encode) (hfile : d.lookup name = .file cut)
    (order : Index.Order) :
    (∀ k, Record.EndsAt records cut.length k →
      load name order d = .ok ((records.take k).foldl apply (empty name order))) ∧
    ((∀ k, ¬ Record.EndsAt records cut.length k) →
      ∃ k, Record.EndsWithin records cut.length k ∧
        (SplitsCharacter (Record.logText records) cut.length → load name order d = .error .io) ∧
        (¬ SplitsCharacter (Record.logText records) cut.length →
          load name order d = .error (.corruptedRecord name (k + 1)))) ∧
    ∀ t, load name order d = .ok t → ∃ k, Record.EndsAt records cut.length k ∧
      t = (records.take k).foldl apply (empty name order) := by
  have hload : load name order d = ofLog name order cut := by
    unfold load
    rw [hfile]
  have hwhole : ∀ k, Record.EndsAt records cut.length k →
      load name order d = .ok ((records.take k).foldl apply (empty name order)) :=
    fun k h => hload.trans (ofLog_of_endsAt hcut h name order)
  have htorn : (∀ k, ¬ Record.EndsAt records cut.length k) →
      ∃ k, Record.EndsWithin records cut.length k ∧ load name order d = .error
        (if Text.Utf8.decode? cut = none then .io else .corruptedRecord name (k + 1)) := by
    intro hnot
    rw [hload]
    exact ofLog_of_forall_not_endsAt hcut hnot name order
  have hsplits := Text.Utf8.decode?_eq_none_iff (Record.encode_logText records ▸ hcut)
  refine ⟨hwhole, fun hnot => ?_, fun t ht => ?_⟩
  · obtain ⟨k, hk, herror⟩ := htorn hnot
    refine ⟨k, hk, fun h => ?_, fun h => ?_⟩
    · rw [herror, if_pos (hsplits.2 h)]
    · rw [herror, if_neg (mt hsplits.1 h)]
  · by_cases hnot : ∀ k, ¬ Record.EndsAt records cut.length k
    · obtain ⟨k, -, herror⟩ := htorn hnot
      rw [herror] at ht
      cases ht
    · obtain ⟨k, hk⟩ := not_forall_not.1 hnot
      rw [hwhole k hk] at ht
      cases ht
      exact ⟨k, hk, rfl⟩

/-- A log of 75 bytes that breaks off in the middle of a character of its second record, behind a
brace in a string there, and in front of its last line feed. -/
theorem load_torn_second_record :
    let records : List Record := [.delete 7, .insert 1 (.ofList [("n", "é\x7d")])]
    let d (n : Nat) : Directory :=
      { entries := .ofList [(["t"], .file ((records.flatMap Record.encode).take n))] }
    load "t" ⟨3, le_rfl⟩ (d 69) = .error .io ∧
      load "t" ⟨3, le_rfl⟩ (d 71) = .error (.corruptedRecord "t" 2) ∧
      load "t" ⟨3, le_rfl⟩ (d 74) = .ok (records.foldl apply (empty "t" ⟨3, le_rfl⟩)) := by
  intro records d
  have hcut (n : Nat) : (records.flatMap Record.encode).take n <+: records.flatMap Record.encode :=
    List.take_prefix ..
  have hfile (n : Nat) : (d n).lookup "t" = .file ((records.flatMap Record.encode).take n) := rfl
  have hlength (n : Nat) (hn : n ≤ 75) : ((records.flatMap Record.encode).take n).length = n :=
    List.length_take_of_le (hn.trans_eq (by decide +kernel))
  have hinside (n : Nat) (hn : 27 < n ∧ n < 74) (k : Nat) : ¬ Record.EndsAt records n k := by
    rintro ⟨hle, heq⟩
    have h₀ : Record.boundary records 0 = 0 := rfl
    have h₁ : Record.boundary records 1 = 27 := by decide +kernel
    have h₂ : Record.boundary records 2 = 75 := by decide +kernel
    have hk : k = 0 ∨ k = 1 ∨ k = 2 := by
      have : records.length = 2 := rfl
      omega
    rcases hk with rfl | rfl | rfl <;> omega
  refine ⟨?_, ?_, ?_⟩
  · obtain ⟨k, -, hio, -⟩ := (load_torn (hcut 69) (hfile 69) ⟨3, le_rfl⟩).2.1 <| by
      rw [hlength 69 (by decide)]
      exact hinside 69 (by decide)
    refine hio ⟨(Record.logText records).take 68, 'é', ?_⟩
    decide +kernel
  · obtain ⟨k, hk, -, hcorrupted⟩ := (load_torn (hcut 71) (hfile 71) ⟨3, le_rfl⟩).2.1 <| by
      rw [hlength 71 (by decide)]
      exact hinside 71 (by decide)
    obtain rfl : k = 1 := by
      obtain ⟨hlt, -, hupper⟩ := hk
      rw [hlength 71 (by decide)] at hupper
      obtain _ | _ | k := k
      · revert hupper
        decide +kernel
      · rfl
      · exact absurd hlt (by simp [records])
    refine hcorrupted fun hsplit => ?_
    have hnone := (Text.Utf8.decode?_eq_none_iff
      (Record.encode_logText records ▸ hcut 71)).2 hsplit
    revert hnone
    decide +kernel
  · refine (load_torn (hcut 74) (hfile 74) ⟨3, le_rfl⟩).1 2 ⟨le_rfl, .inr ?_⟩
    decide +kernel

end Table

end RelStore
