import RelStore.Proofs.Json.Margin
import RelStore.Proofs.Table.Log

/-!
# Row ids are never reused

Row ids are used up in two ways: a table gives them away (`Table.allocate`), and records bring them
along (`Table.apply`). Neither leaves the next row id at or before one that was used, as long as
there are row ids left (`Table.Behind.react`), so the row that is inserted under it goes behind all
others (`Table.allocates_fresh`).
-/

namespace RelStore.Table

open Index

/-! ## Calls -/

/-- A call that uses up a row id. -/
inductive Call where
  | allocate
  | apply (record : Record)

/-- The row id that a call uses up, and the table from then on. -/
def react (t : Table) : Call → RowId × Table
  | .allocate => t.allocate
  | .apply record => (record.id, t.apply record)

/-- The table behind some calls. -/
def after (t : Table) (calls : List Call) : Table := calls.foldl (fun t call => (t.react call).2) t

/-- The row ids that some calls use up. -/
def used (t : Table) : List Call → List RowId
  | [] => []
  | call :: rest => (t.react call).1 :: (t.react call).2.used rest

/-- Whether a row id is given away only while there is one behind it. -/
def Roomy (t : Table) : List Call → Prop
  | [] => True
  | .allocate :: rest => t.nextId < greatestId ∧ t.allocate.2.Roomy rest
  | .apply record :: rest => (t.apply record).Roomy rest

/-- A table that is new or was loaded, and the records of its log. -/
inductive Opened : Table → List Record → Prop
  | new (name : String) (order : Order) : Opened (empty name order) []
  | load {name : String} {order : Order} {d : Directory} {log : Text.Utf8.Bytes} {t : Table} :
    d.lookup name = .file log → load name order d = .ok t → Opened t (Record.ofLog log)

/-- What there is to say of the next row id when others have been used before. -/
structure AllocatesFresh (t : Table) (used : List RowId) : Prop where
  lt : t.nextId < greatestId → ∀ id ∈ used, id < t.allocate.1
  /-- A row that is inserted under it goes behind all others and replaces none, at once or after
  other calls, if those apply only records of earlier rows. -/
  insert (between : List Call) (row : Row) : t.nextId < greatestId →
    (∀ record, .apply record ∈ between → record.id < t.allocate.1) →
    let before := t.allocate.2.after between
    let inserted := before.apply (.insert t.allocate.1 row)
    before.get? t.allocate.1 = none ∧ inserted.scan = before.scan ++ [(t.allocate.1, row)] ∧
      inserted.size = before.size + 1
  /-- Records do not take the next row id back. -/
  le_apply (record : Record) : t.nextId ≤ (t.apply record).nextId
  /-- Behind the greatest row id comes the greatest again. -/
  capped (record : Record) : record.id = greatestId → (t.apply record).nextId = greatestId

variable {t : Table} {used : List RowId} {calls : List Call}

theorem le_greatestId (id : RowId) : id ≤ greatestId := by
  have := id.toNat_lt
  rw [UInt64.le_iff_toNat_le, toNat_greatestId]
  omega

theorem lt_idAfter_of_lt {id : RowId} (h : idAfter id < greatestId) : id < idAfter id := by
  refine lt_idAfter (lt_of_le_of_ne (le_greatestId id) fun he => ?_)
  rw [idAfter, if_pos he, he] at h
  exact lt_irrefl _ h

/-! ## What a table has used -/

/-- The rows have ids that were used, and the next row id lies behind those as long as there are any
left. -/
structure Behind (t : Table) (used : List RowId) : Prop where
  valid : t.rows.Valid
  mem_used : ∀ entry ∈ t.scan, entry.1 ∈ used
  lt_nextId : t.nextId < greatestId → ∀ id ∈ used, id < t.nextId

theorem behind_empty (name : String) (order : Order) : (empty name order).Behind [] :=
  ⟨BPlusTree.valid_empty order, fun _ h => absurd h List.not_mem_nil,
    fun _ _ h => absurd h List.not_mem_nil⟩

theorem Behind.allocate (h : t.Behind used) (hroom : t.nextId < greatestId) :
    t.allocate.2.Behind (used ++ [t.nextId]) := by
  have hlt : t.nextId < t.allocate.2.nextId := by
    refine Follows.lt_allocate ?_
    rw [UInt64.lt_iff_toNat_lt, toNat_greatestId] at hroom
    omega
  refine ⟨h.valid, fun entry he => List.mem_append_left _ (h.mem_used entry he), fun _ id hid => ?_⟩
  rcases List.mem_append.1 hid with hid | hid
  · exact (h.lt_nextId hroom id hid).trans hlt
  · rwa [List.mem_singleton.1 hid]

theorem Behind.apply (h : t.Behind used) (record : Record) :
    (t.apply record).Behind (used ++ [record.id]) := by
  refine ⟨valid_apply h.valid record, fun entry he => ?_, fun hroom id hid => ?_⟩
  · rw [scan_apply h.valid] at he
    rcases Record.exists_of_mem_onto he with he | ⟨other, hother, he⟩
    · rw [he]
      exact List.mem_append_right _ (List.mem_singleton_self _)
    · exact he ▸ List.mem_append_left _ (h.mem_used other hother)
  · rw [nextId_apply] at hroom ⊢
    rcases List.mem_append.1 hid with hid | hid
    · have hnext : t.nextId < greatestId := (le_max_left ..).trans_lt hroom
      exact (h.lt_nextId hnext id hid).trans_le (le_max_left ..)
    · have hrecord : idAfter record.id < greatestId := (le_max_right ..).trans_lt hroom
      rw [List.mem_singleton.1 hid]
      exact (lt_idAfter_of_lt hrecord).trans_le (le_max_right ..)

theorem Behind.after (h : t.Behind used) (hroomy : t.Roomy calls) :
    (t.after calls).Behind (used ++ t.used calls) := by
  induction calls generalizing t used with
  | nil =>
    rw [Table.used, List.append_nil]
    exact h
  | cons call calls ih =>
    rw [Table.used, List.append_cons]
    cases call with
    | allocate => exact ih (h.allocate hroomy.1) hroomy.2
    | apply record => exact ih (h.apply record) hroomy

/-! ## Opening a table -/

/-- A log that is read applies the records on its lines. -/
theorem eq_of_replay {t' : Table} {line : Nat} {ls : List Text.Utf8.Bytes}
    (h : t.replay line ls = .ok t') :
    t' = (ls.filterMap fun bytes => (Text.Utf8.decode? bytes).bind Record.read?).foldl apply t := by
  induction ls generalizing t line with
  | nil => cases h; rfl
  | cons bytes ls ih =>
    unfold replay at h
    rw [List.filterMap_cons]
    cases hd : Text.Utf8.decode? bytes with
    | none => rw [hd] at h; cases h
    | some text =>
      rw [hd] at h
      dsimp only at h
      rw [Option.bind_some]
      split_ifs at h with hblank
      · have hnone : Record.read? text = none := by
          rw [Record.read?, Json.read?_blanks hblank]
          rfl
        rw [hnone]
        exact ih h
      · cases hr : Record.read? text with
        | none => rw [hr] at h; cases h
        | some record => rw [hr] at h; exact ih h

theorem behind_foldl_apply (h : t.Behind used) (log : List Record) :
    (log.foldl Table.apply t).Behind (used ++ log.map Record.id) := by
  induction log generalizing t used with
  | nil =>
    rw [List.map_nil, List.append_nil]
    exact h
  | cons record log ih =>
    rw [List.map_cons, List.append_cons]
    exact ih (h.apply record)

theorem Opened.behind {log : List Record} (h : Opened t log) : t.Behind (log.map Record.id) := by
  cases h with
  | new name order => exact behind_empty name order
  | @load name order d log _ hfile hload =>
    unfold Table.load at hload
    rw [hfile] at hload
    rw [eq_of_replay hload]
    exact behind_foldl_apply (behind_empty name order) (Record.ofLog log)

/-- A log of any records opens as the table that they make of an empty one. -/
theorem opened_of_records {records : List Record} {name : String} {d : Directory}
    (hfile : d.lookup name = .file (records.flatMap Record.encode)) (order : Order) :
    load name order d = .ok (records.foldl Table.apply (empty name order)) ∧
      Opened (records.foldl Table.apply (empty name order)) records := by
  have hload : load name order d = .ok (records.foldl Table.apply (empty name order)) := by
    unfold load
    rw [hfile]
    exact ofLog_encode name order records
  have hopened := Opened.load hfile hload
  rw [Record.ofLog_encode] at hopened
  exact ⟨hload, hopened⟩

/-! ## Inserting behind all others -/

/-- Records of earlier rows leave the rows in front of a row id. -/
theorem scan_after_lt {bound : RowId} (h : t.rows.Valid) (hscan : ∀ entry ∈ t.scan, entry.1 < bound)
    (hcalls : ∀ record, .apply record ∈ calls → record.id < bound) :
    (t.after calls).rows.Valid ∧ ∀ entry ∈ (t.after calls).scan, entry.1 < bound := by
  induction calls generalizing t with
  | nil => exact ⟨h, hscan⟩
  | cons call calls ih =>
    have hrest : ∀ record, .apply record ∈ calls → record.id < bound :=
      fun record hm => hcalls record (List.mem_cons_of_mem _ hm)
    cases call with
    | allocate => exact ih h hscan hrest
    | apply record =>
      refine ih (valid_apply h record) (fun entry he => ?_) hrest
      replace he : entry ∈ Record.onto t.scan record := scan_apply h record ▸ he
      rcases Record.exists_of_mem_onto he with he | ⟨other, hother, he⟩
      · exact he ▸ hcalls record List.mem_cons_self
      · exact he ▸ hscan other hother

/-- Row ids are never reused: whatever was given away or applied since a table was opened, and by
the records that it was loaded from, the next row id lies behind it. -/
theorem allocates_fresh {log : List Record} (hopened : Opened t log) (hroomy : t.Roomy calls) :
    (t.after calls).AllocatesFresh (log.map Record.id ++ t.used calls) := by
  have h := hopened.behind.after hroomy
  refine ⟨h.lt_nextId, fun between row hroom hbetween => ?_, fun record => ?_, fun record he => ?_⟩
  · have hscan : ∀ entry ∈ (t.after calls).scan, entry.1 < (t.after calls).nextId :=
      fun entry he => h.lt_nextId hroom _ (h.mem_used entry he)
    obtain ⟨hvalid, hlt⟩ := scan_after_lt (t := (t.after calls).allocate.2) h.valid hscan hbetween
    exact apply_insert_of_lt hvalid hlt row
  · rw [nextId_apply]
    exact le_max_left ..
  · rw [nextId_apply, he]
    exact max_eq_right (le_greatestId _)

/-- A log with a row id near the greatest, whose row was deleted: the table gives away the greatest
but one. -/
theorem allocates_fresh_near_greatest :
    let log : List Record :=
      [.insert (greatestId - 3) .empty, .delete (greatestId - 3), .insert 7 .empty]
    let d : Directory := { entries := .ofList [(["t"], .file (log.flatMap Record.encode))] }
    let calls : List Call := [.allocate, .apply (.update 9 .empty)]
    ∃ t, load "t" ⟨3, le_rfl⟩ d = .ok t ∧ t.Roomy calls ∧
      (t.after calls).AllocatesFresh (log.map Record.id ++ t.used calls) ∧
      (t.after calls).nextId < greatestId ∧ (t.after calls).allocate.1 = greatestId - 1 := by
  intro log d calls
  have hfile : d.lookup "t" = .file (log.flatMap Record.encode) := rfl
  obtain ⟨hload, hopened⟩ := opened_of_records hfile ⟨3, le_rfl⟩
  have hroomy : (log.foldl Table.apply (empty "t" ⟨3, le_rfl⟩)).Roomy calls := ⟨by decide, trivial⟩
  exact ⟨_, hload, hroomy, allocates_fresh hopened hroomy, by decide, by decide⟩

end RelStore.Table
