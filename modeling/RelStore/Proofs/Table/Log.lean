import Mathlib.Algebra.Group.Nat.Defs
import RelStore.Proofs.Index.Tree
import RelStore.Proofs.Table.Record

/-!
# What a log makes of a table

`Table.Follows` ties a table to the records of its log: it has the rows that the records leave,
and its next row id lies behind all of theirs. `Follows.append`, `Follows.insert` and
`Follows.skip` keep the tie while both go on, and `Follows.load` reads the log again. The rows
that the records of an UPDATE and a DELETE leave are in `foldl_onto_update` and
`foldl_onto_delete`.
-/

namespace RelStore

/-- Row ids in their order as numbers. -/
instance linearOrderUInt64 : LinearOrder UInt64 where
  le_refl := UInt64.le_refl
  le_trans _ _ _ := UInt64.le_trans
  lt_iff_le_not_ge a b := by
    rw [UInt64.lt_iff_toNat_lt, UInt64.le_iff_toNat_le, UInt64.le_iff_toNat_le]; omega
  le_antisymm _ _ := UInt64.le_antisymm
  le_total := UInt64.le_total
  toDecidableLE := inferInstance
  toDecidableEq := inferInstance
  toDecidableLT := inferInstance
  max_def _ _ := rfl
  min_def _ _ := rfl
  compare_eq_compareOfLessAndEq _ _ := rfl

open Index

namespace Record

/-- The rows after a record. -/
def onto (rows : List (RowId × Row)) (record : Record) : List (RowId × Row) :=
  match record with
  | insert id row | update id row => Leaf.insert id row rows
  | delete id => Leaf.erase id rows

/-- The rows that the records of a log leave. -/
def rows (log : List Record) : List (RowId × Row) := log.foldl onto []

theorem rows_append (log more : List Record) : rows (log ++ more) = more.foldl onto (rows log) :=
  List.foldl_append

theorem Ascending.onto {rows : List (RowId × Row)} (h : Leaf.Ascending rows) (record : Record) :
    Leaf.Ascending (onto rows record) := by
  cases record with
  | insert id row | update id row => exact h.insert id row
  | delete id => exact h.erase id

theorem exists_of_mem_onto {rows : List (RowId × Row)} {record : Record} {entry : RowId × Row}
    (h : entry ∈ onto rows record) : entry.1 = record.id ∨ ∃ e ∈ rows, e.1 = entry.1 := by
  cases record with
  | insert id row | update id row => exact Leaf.fst_mem_insert id h
  | delete id => exact .inr ⟨entry, Leaf.mem_of_mem_erase id h, rfl⟩

/-- Every row has been the subject of a record. -/
theorem exists_of_mem_rows {log : List Record} {entry : RowId × Row} (h : entry ∈ rows log) :
    ∃ record ∈ log, record.id = entry.1 := by
  induction log using List.reverseRec generalizing entry with
  | nil => cases h
  | append_singleton log record ih =>
    rw [rows_append, List.foldl_cons, List.foldl_nil] at h
    rcases exists_of_mem_onto h with he | ⟨e, hm, he⟩
    · exact ⟨record, List.mem_append_right _ List.mem_cons_self, he.symm⟩
    · obtain ⟨r, hr, hid⟩ := ih hm
      exact ⟨r, List.mem_append_left _ hr, hid.trans he⟩

/-! ## One record for each of some rows -/

/-- A record about one row leaves those on either side alone. -/
theorem onto_middle {before after : List (RowId × Row)} {entry : RowId × Row} {record : Record}
    (h : Leaf.Ascending (before ++ entry :: after)) (hid : record.id = entry.1) :
    onto (before ++ entry :: after) record = before ++ (onto [entry] record ++ after) := by
  obtain ⟨-, ha, hb⟩ := Leaf.ascending_append.1 h
  have hbefore : ∀ e ∈ before, e.1 < record.id := fun e he =>
    hid ▸ hb e he entry List.mem_cons_self
  have hafter : ∀ e ∈ after, record.id < e.1 := hid ▸ (Leaf.ascending_cons.1 ha).1
  rw [← List.singleton_append]
  cases record with
  | insert id row | update id row =>
    exact (Leaf.insert_append_of_lt hbefore row _).trans
      (congrArg (before ++ ·) (Leaf.insert_append_of_gt [entry] row hafter))
  | delete id =>
    exact (Leaf.erase_append_of_lt hbefore _).trans
      (congrArg (before ++ ·) (Leaf.erase_append_of_gt [entry] hafter))

/-- Records about some of the rows, in the order of the rows, act on each of them in its place. -/
theorem foldl_onto {rows : List (RowId × Row)} {record : RowId × Row → Record}
    (p : RowId × Row → Bool) (h : Leaf.Ascending rows) (hid : ∀ entry, (record entry).id = entry.1) :
    ((rows.filter p).map record).foldl onto rows =
      rows.flatMap fun entry => if p entry then onto [entry] (record entry) else [entry] := by
  -- The rows before `before` have had their turn, those behind have not.
  suffices hs : ∀ rows before : List (RowId × Row), Leaf.Ascending (before ++ rows) →
      ((rows.filter p).map record).foldl onto (before ++ rows) = before ++
        rows.flatMap fun entry => if p entry then onto [entry] (record entry) else [entry] from
    hs rows [] h
  intro rows
  induction rows with
  | nil => exact fun _ _ => rfl
  | cons entry rows ih =>
    intro before hb
    rw [List.flatMap_cons, List.filter_cons]
    split_ifs with hp
    · have hm := onto_middle hb (hid entry)
      have hn := Ascending.onto hb (record entry)
      rw [hm, ← List.append_assoc] at hn
      rw [List.map_cons, List.foldl_cons, hm, ← List.append_assoc, ih _ hn, List.append_assoc]
    · have hn := hb
      rw [← List.singleton_append, ← List.append_assoc] at hn ⊢
      rw [ih _ hn, List.append_assoc]

theorem foldl_onto_update {rows : List (RowId × Row)} (p : Row → Bool) (f : Row → Row)
    (h : Leaf.Ascending rows) :
    ((rows.filter fun entry => p entry.2).map fun entry =>
      Record.update entry.1 (f entry.2)).foldl onto rows =
      rows.map fun entry => if p entry.2 then (entry.1, f entry.2) else entry := by
  have ho : ∀ entry : RowId × Row, onto [entry] (.update entry.1 (f entry.2)) =
      [(entry.1, f entry.2)] := fun entry => by simp [onto, Leaf.insert]
  rw [foldl_onto _ h fun _ => rfl, List.map_eq_flatMap]
  refine congrArg (List.flatMap · rows) (funext fun entry => ?_)
  rw [ho]
  split_ifs <;> rfl

theorem foldl_onto_delete {rows : List (RowId × Row)} (p : Row → Bool)
    (h : Leaf.Ascending rows) :
    ((rows.filter fun entry => p entry.2).map fun entry => Record.delete entry.1).foldl onto rows =
      rows.filter fun entry => !p entry.2 := by
  have ho : ∀ entry : RowId × Row, onto [entry] (.delete entry.1) = [] := fun entry => by
    simp [onto, Leaf.erase]
  rw [foldl_onto _ h fun _ => rfl]
  clear h
  induction rows with
  | nil => rfl
  | cons entry rows ih =>
    rw [List.flatMap_cons, List.filter_cons, ih, ho]
    cases p entry.2 <;> rfl

end Record

namespace Table

theorem valid_apply {t : Table} (h : t.rows.Valid) (record : Record) :
    (t.apply record).rows.Valid := by
  cases record with
  | insert id row | update id row => exact h.insert id row
  | delete id => exact h.erase id

theorem scan_apply {t : Table} (h : t.rows.Valid) (record : Record) :
    (t.apply record).scan = Record.onto t.scan record := by
  cases record with
  | insert id row | update id row => exact BPlusTree.toList_insert id h row
  | delete id => exact BPlusTree.toList_erase id h

theorem nextId_apply (t : Table) (record : Record) :
    (t.apply record).nextId = max t.nextId (idAfter record.id) := by
  cases record <;> rfl

theorem foldl_apply {t : Table} (h : t.rows.Valid) (log : List Record) :
    (log.foldl apply t).rows.Valid ∧ (log.foldl apply t).scan = log.foldl Record.onto t.scan := by
  induction log generalizing t with
  | nil => exact ⟨h, rfl⟩
  | cons record log ih =>
    have hi := ih (valid_apply h record)
    rw [scan_apply h record] at hi
    exact hi

theorem toNat_greatestId : greatestId.toNat = 2 ^ 64 - 1 := by decide

theorem toNat_idAfter {id other : RowId} (h : id < other) : (idAfter id).toNat = id.toNat + 1 := by
  rw [UInt64.lt_iff_toNat_lt] at h
  have ho := other.toNat_lt
  have hne : id ≠ greatestId := by
    rintro rfl
    rw [toNat_greatestId] at h
    omega
  rw [idAfter, if_neg hne, UInt64.toNat_add, UInt64.toNat_one]
  omega

theorem idAfter_le {id other : RowId} (h : id < other) : idAfter id ≤ other := by
  have := toNat_idAfter h
  rw [UInt64.lt_iff_toNat_lt] at h
  rw [UInt64.le_iff_toNat_le]
  omega

theorem lt_idAfter {id other : RowId} (h : id < other) : id < idAfter id := by
  have := toNat_idAfter h
  rw [UInt64.lt_iff_toNat_lt]
  omega

/-- Records about earlier rows do not touch the next row id. -/
theorem nextId_foldl_apply {t : Table} {log : List Record}
    (h : ∀ record ∈ log, record.id < t.nextId) : (log.foldl apply t).nextId = t.nextId := by
  induction log generalizing t with
  | nil => rfl
  | cons record log ih =>
    rw [List.forall_mem_cons] at h
    have hn : (t.apply record).nextId = t.nextId := by
      rw [nextId_apply, max_eq_left (idAfter_le h.1)]
    rw [List.foldl_cons, ih (hn.symm ▸ h.2), hn]

/-- The next row id after a log lies behind those in it, and no further on than it must. -/
theorem nextId_replayed {t : Table} {log : List Record} {bound : RowId}
    (ht : t.nextId ≤ bound) (h : ∀ record ∈ log, record.id < bound) :
    t.nextId ≤ (log.foldl apply t).nextId ∧ (log.foldl apply t).nextId ≤ bound ∧
      ∀ record ∈ log, record.id < (log.foldl apply t).nextId := by
  induction log generalizing t with
  | nil => exact ⟨le_rfl, ht, by simp⟩
  | cons record log ih =>
    rw [List.forall_mem_cons] at h
    have hn := nextId_apply t record
    obtain ⟨hle, hb, hids⟩ := ih (t := t.apply record)
      (hn ▸ max_le ht (idAfter_le h.1)) h.2
    have hm : idAfter record.id ≤ (t.apply record).nextId := hn ▸ le_max_right ..
    have ht : t.nextId ≤ (t.apply record).nextId := hn ▸ le_max_left ..
    exact ⟨ht.trans hle, hb,
      List.forall_mem_cons.2 ⟨((lt_idAfter h.1).trans_le hm).trans_le hle, hids⟩⟩

/-- A row is inserted behind all others. -/
theorem apply_insert_of_lt {t : Table} {id : RowId} (h : t.rows.Valid)
    (hscan : ∀ entry ∈ t.scan, entry.1 < id) (row : Row) :
    t.get? id = none ∧ (t.apply (.insert id row)).scan = t.scan ++ [(id, row)] ∧
      (t.apply (.insert id row)).size = t.size + 1 := by
  have hfind : Leaf.find? id t.scan = none := by
    have hl := Leaf.find?_append_of_lt hscan []
    rwa [List.append_nil] at hl
  have hinsert : (t.apply (.insert id row)).scan = t.scan ++ [(id, row)] := by
    have hl := Leaf.insert_append_of_lt hscan row []
    rw [List.append_nil] at hl
    exact (scan_apply h _).trans hl
  have hlength := congrArg List.length hinsert
  rw [List.length_append] at hlength
  refine ⟨(BPlusTree.find?_eq id h).trans hfind, hinsert, ?_⟩
  exact (valid_apply h _).size.trans (hlength.trans (congrArg (· + 1) h.size.symm))

/-- A table is what its log makes of an empty one, except that row ids may have been taken in
vain. -/
structure Follows (t : Table) (log : List Record) : Prop where
  valid : t.rows.Valid
  scan : t.scan = Record.rows log
  one_le : 1 ≤ t.nextId
  ids : ∀ record ∈ log, record.id < t.nextId

theorem follows_empty (name : String) (order : Order) : (empty name order).Follows [] :=
  ⟨BPlusTree.valid_empty order, rfl, le_rfl, fun _ h => absurd h List.not_mem_nil⟩

namespace Follows

variable {t : Table} {log : List Record}

theorem ascending (h : t.Follows log) : Leaf.Ascending t.scan := h.valid.ascending

theorem lt_nextId (h : t.Follows log) {entry : RowId × Row} (hm : entry ∈ t.scan) :
    entry.1 < t.nextId := by
  rw [h.scan] at hm
  obtain ⟨record, hr, hid⟩ := Record.exists_of_mem_rows hm
  exact hid ▸ h.ids record hr

/-- Records about earlier rows are written and applied. -/
theorem append (h : t.Follows log) {more : List Record}
    (hm : ∀ record ∈ more, record.id < t.nextId) :
    (more.foldl apply t).Follows (log ++ more) := by
  have hf := foldl_apply h.valid more
  have hn := nextId_foldl_apply hm
  refine ⟨hf.1, ?_, hn.symm ▸ h.one_le, ?_⟩
  · rw [hf.2, h.scan, Record.rows_append]
  · rw [hn]
    exact fun record hr => (List.mem_append.1 hr).elim (h.ids record) (hm record)

theorem toNat_allocate (h : t.nextId.toNat + 1 < 2 ^ 64) :
    t.allocate.2.nextId.toNat = t.nextId.toNat + 1 := by
  show (t.nextId + 1).toNat = _
  rw [UInt64.toNat_add, UInt64.toNat_one]
  omega

theorem lt_allocate (h : t.nextId.toNat + 1 < 2 ^ 64) : t.nextId < t.allocate.2.nextId := by
  rw [UInt64.lt_iff_toNat_lt, toNat_allocate h]
  omega

/-- A row id is taken in vain. -/
theorem skip (h : t.Follows log) (hn : t.nextId.toNat + 1 < 2 ^ 64) :
    t.allocate.2.Follows log :=
  ⟨h.valid, h.scan, h.one_le.trans (lt_allocate hn).le,
    fun record hr => (h.ids record hr).trans (lt_allocate hn)⟩

/-- A row is written and inserted under the next row id: it goes behind all others. -/
theorem insert (h : t.Follows log) (hn : t.nextId.toNat + 1 < 2 ^ 64) (row : Row) :
    (t.allocate.2.apply (.insert t.nextId row)).Follows (log ++ [.insert t.nextId row]) ∧
      (t.allocate.2.apply (.insert t.nextId row)).nextId = t.allocate.2.nextId ∧
      (t.allocate.2.apply (.insert t.nextId row)).scan = t.scan ++ [(t.nextId, row)] := by
  have hs := h.skip hn
  have hid : ∀ record ∈ [Record.insert t.nextId row], record.id < t.allocate.2.nextId := by
    intro record hr
    rw [List.mem_singleton.1 hr]
    exact lt_allocate hn
  have hscan : ∀ entry ∈ t.allocate.2.scan, entry.1 < t.nextId := fun _ he => h.lt_nextId he
  exact ⟨hs.append hid, nextId_foldl_apply hid, (apply_insert_of_lt hs.valid hscan row).2.1⟩

/-- The log is read again: the rows are there, and the next row id lies behind all of the log
and no further on than before. -/
theorem load (h : t.Follows log) (name : String) (order : Order) :
    ∃ loaded, ofLog name order (log.flatMap Record.encode) = .ok loaded ∧
      loaded.Follows log ∧ loaded.nextId ≤ t.nextId := by
  obtain ⟨hv, hs⟩ := foldl_apply (follows_empty name order).valid log
  obtain ⟨h1, hn, hids⟩ := nextId_replayed (t := empty name order) h.one_le h.ids
  exact ⟨_, ofLog_encode name order log, ⟨hv, hs, h1, hids⟩, hn⟩

end Follows

end Table

end RelStore
