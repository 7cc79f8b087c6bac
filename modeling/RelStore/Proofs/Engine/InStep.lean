import RelStore.Proofs.Engine.Effects
import RelStore.Proofs.Table.Alike
import RelStore.Proofs.Table.Growth

/-!
# Rows in memory and rows on file

A table is in step if its file is read as the rows that the engine has of it (`InStep`). A statement
that goes through puts records behind the file and applies them to the rows (`Wrote`), so a table that
was in step before stays so if the file was extensible, or nothing was written to it, and not
otherwise (`Wrote.inStep_iff`).
-/

namespace RelStore

open Sql (IsWord Statement)
open Text.Utf8 (Bytes)

/-! ## Files that can be opened -/

namespace Directory

variable {d d' : Directory} {name : String} {bytes : Bytes}

/-- A table is read from the contents of its file, which may be missing. -/
theorem Opens.load (h : d.Opens name) (hw : IsWord name) (order : Index.Order) :
    Table.load name order d = Table.ofLog name order (d.contents name) := by
  unfold Table.load Directory.contents
  rw [lookup_word d hw, if_pos h.here, if_pos h.fits]
  cases hg : d.get? (d.location ++ [name]) with
  | none => rfl
  | some entry =>
    cases entry with
    | file contents => rfl
    | directory => exact absurd hg h.no_directory

theorem Grown.contents (h : Grown name bytes d d') : d'.contents name = d.contents name ++ bytes := by
  have hf := h.file
  rw [← h.sole.frame.location] at hf
  unfold Directory.contents at hf ⊢
  rw [hf]

end Directory

/-- A file that is read with one order of the index is read with any other, as the same rows. -/
theorem Table.load_of_load {name : String} {order : Index.Order} {d : Directory} {t : Table}
    (h : load name order d = .ok t) (order' : Index.Order) :
    ∃ t', load name order' d = .ok t' ∧ t'.scan = t.scan := by
  have hload : Concur Alike (load name order d) (load name order' d) := alike_load rfl order order'
  rw [h] at hload
  cases hl : load name order' d with
  | error error => rw [hl] at hload; cases hload
  | ok t' =>
    rw [hl] at hload
    cases hload with
    | ok ha => exact ⟨t', rfl, ha.scan⟩

namespace Engine

variable {e e' : Engine} {name sql : String} {s : Statement} {result : QueryResult}

theorem grown_of_append {bytes : Bytes} {a : Unit} (hw : IsWord name)
    (h : append name bytes e = .ok a e') :
    ∃ sink, e' = { e with sink } ∧ sink.faults = e.sink.faults ∧
      Directory.Grown name bytes e.directory sink.directory := by
  unfold append Sink.setTarget Writer.setTarget at h
  dsimp only at h
  split_ifs at h
  cases ht : e.sink.writer.directory.touch name with
  | none => rw [ht] at h; cases h
  | some touched =>
    obtain ⟨location, made⟩ := touched
    rw [ht] at h
    unfold Sink.write Writer.write at h
    dsimp only at h
    split_ifs at h
    cases h
    exact ⟨_, rfl, rfl, Directory.grown_of_touch hw ht bytes⟩

/-! ## What a statement writes -/

/-- These records were put behind the log of a table and applied to its rows, and nothing else was
changed. -/
structure Wrote (name : String) (records : List Record) (e e' : Engine) : Prop where
  catalog : e'.catalog = e.catalog
  order : e'.order = e.order
  known : name ≠ Catalog.reserved ∧ e.catalog.contains name = true
  live : ∃ rows, e.live name = .ok rows ∧ e'.live name = .ok (records.foldl Record.onto rows)
  files : records = [] ∧ e'.directory = e.directory ∨
    records ≠ [] ∧ Directory.Grown name (records.flatMap Record.encode) e.directory e'.directory

theorem live_of_view {t : Table} (h : e.view name = .ok t) : e.live name = .ok t.scan := by
  rw [live, h]
  rfl

theorem wrote_insert {columns values : List String} (hsound : e.Sound) (hw : IsWord name)
    (h : insert name columns values e = .ok result e') : ∃ records, Wrote name records e e' := by
  obtain ⟨hknown, t, tables, e₁, hview, -, hstep, rfl⟩ := withTable_of_ok h
  obtain ⟨⟨⟩, e₂, hset, hstep⟩ := of_bind_eq_ok hstep
  cases hset
  obtain ⟨⟨⟩, e₃, happend, hstep⟩ := of_bind_eq_ok hstep
  obtain ⟨sink, rfl, -, hgrown⟩ := grown_of_append hw happend
  obtain ⟨⟨⟩, e₄, hset, hstep⟩ := of_bind_eq_ok hstep
  cases hset
  cases hstep
  refine ⟨[.insert t.nextId (.ofList (columns.zip values))], rfl, rfl, hknown,
    ⟨t.scan, live_of_view hview, ?_⟩, .inr ⟨List.cons_ne_nil _ _, ?_⟩⟩
  · have hvalid : t.rows.Valid := hsound.view hview
    rw [live_of_get? (OrderedMap.get?_insert_self ..)]
    exact congrArg Except.ok (Table.scan_apply (t := t.allocate.2) hvalid _)
  · rw [List.flatMap_singleton]
    exact hgrown

theorem wrote_select {columns : List String} {condition : Option Sql.Condition}
    (h : select name columns condition e = .ok result e') : Wrote name [] e e' := by
  obtain ⟨hknown, t, tables, e₁, hview, hget, hstep, rfl⟩ :=
    withTable_of_ok (f := selectFrom name columns condition) h
  have he : e₁ = { e with tables, locks := e.locks.taken name } := by
    unfold selectFrom at hstep
    cases hc : columns.find? (!t.hasColumn ·) with
    | none =>
      rw [hc] at hstep
      split_ifs at hstep <;> cases hstep <;> rfl
    | some column =>
      rw [hc] at hstep
      split_ifs at hstep <;> cases hstep
      rfl
  subst he
  exact ⟨rfl, rfl, hknown, ⟨t.scan, live_of_view hview, live_of_get? hget⟩, .inl ⟨rfl, rfl⟩⟩

theorem wrote_logged {records : Table → List Record} {answer : Table → QueryResult}
    (hsound : e.Sound) (hw : IsWord name)
    (h : withLock name (do
      ensureUserTable name
      let t ← table name
      applyLogged name t (records t)
      return answer t) e = .ok result e') : ∃ records, Wrote name records e e' := by
  obtain ⟨hknown, t, tables, e₁, hview, hget, hstep, rfl⟩ := withTable_of_ok h
  obtain ⟨⟨⟩, e₂, hlogged, hstep⟩ := of_bind_eq_ok hstep
  cases hstep
  refine ⟨records t, ?_⟩
  rcases applyLogged_of_ok hlogged with ⟨hnone, rfl⟩ | ⟨hsome, e₃, happend, rfl⟩
  · rw [hnone]
    exact ⟨rfl, rfl, hknown, ⟨t.scan, live_of_view hview, live_of_get? hget⟩, .inl ⟨rfl, rfl⟩⟩
  · obtain ⟨sink, rfl, -, hgrown⟩ := grown_of_append hw happend
    refine ⟨rfl, rfl, hknown, ⟨t.scan, live_of_view hview, ?_⟩, .inr ⟨hsome, hgrown⟩⟩
    rw [live_of_get? (OrderedMap.get?_insert_self ..), (Table.foldl_apply (hsound.view hview) _).2]

/-- A statement that does not create its table writes records where it goes through. -/
theorem wrote_executeStatement (hsound : e.Sound) (hw : IsWord s.table)
    (hcreate : ∀ columns constraints, s.action ≠ .createTable columns constraints)
    (h : executeStatement s e = .ok result e') : ∃ records, Wrote s.table records e e' := by
  obtain ⟨source, name, action⟩ := s
  cases action with
  | createTable columns constraints => exact absurd rfl (hcreate columns constraints)
  | insert columns values => exact wrote_insert hsound hw h
  | select columns condition => exact ⟨[], wrote_select h⟩
  | delete condition => exact wrote_logged hsound hw h
  | update assignments condition => exact wrote_logged hsound hw h

/-! ## Tables in step -/

/-- The file of a table is read, with any order of the index, as the rows that the engine holds or
would load. -/
def InStep (e : Engine) (name : String) : Prop :=
  ∃ rows, e.live name = .ok rows ∧ ∀ order, ∃ loaded,
    Table.load name order e.directory = .ok loaded ∧ loaded.scan = rows

/-- A table that was not used so far is in step if its file can be loaded. -/
theorem inStep_of_unused {t : Table} (hget : e.tables.get? name = none)
    (h : Table.load name e.order e.directory = .ok t) : e.InStep name :=
  ⟨t.scan, live_of_view (by rw [view, hget]; exact h), Table.load_of_load h⟩

namespace Wrote

variable {records : List Record}

/-- How the file of a table is read behind what was written. -/
theorem load (h : Wrote name records e e') (hw : IsWord name) {order : Index.Order} {t : Table}
    (hload : Table.load name order e.directory = .ok t) :
    Table.load name order e'.directory =
      if records = [] ∨ Table.Extensible (e.directory.contents name) then
        .ok (records.foldl Table.apply t)
      else .error (.corruptedRecord name
        (Text.Utf8.lines (e.directory.contents name)).length) := by
  rcases h.files with ⟨hempty, hd⟩ | ⟨hne, hgrown⟩
  · rw [hd, if_pos (.inl hempty), hempty]
    exact hload
  · rw [hgrown.opens.load hw] at hload
    rw [(hgrown.opens_iff.2 hgrown.opens).load hw, hgrown.contents,
      Table.ofLog_append_all hload hne]
    exact if_congr (or_iff_right hne).symm rfl rfl

/-- A table stays in step if its file was extensible or nothing was written, and not otherwise. -/
theorem inStep_iff (h : Wrote name records e e') (hw : IsWord name) (hs : e.InStep name) :
    e'.InStep name ↔ records = [] ∨ Table.Extensible (e.directory.contents name) := by
  obtain ⟨rows, hlive, hload⟩ := hs
  obtain ⟨rows', hlive', hlater⟩ := h.live
  obtain rfl : rows = rows' := Except.ok.inj (hlive.symm.trans hlive')
  constructor
  · rintro ⟨_, _, hload'⟩
    obtain ⟨t, ht, -⟩ := hload e.order
    obtain ⟨t', ht', -⟩ := hload' e.order
    by_contra hno
    rw [h.load hw ht, if_neg hno] at ht'
    cases ht'
  · intro hyes
    refine ⟨_, hlater, fun order => ?_⟩
    obtain ⟨t, ht, rfl⟩ := hload order
    have hafter := h.load hw ht
    rw [if_pos hyes] at hafter
    exact ⟨_, hafter, (Table.foldl_apply (Table.valid_of_load ht) records).2⟩

theorem directory_eq_iff (h : Wrote name records e e') :
    e'.directory = e.directory ↔ records = [] := by
  rcases h.files with ⟨hempty, hd⟩ | ⟨hne, hgrown⟩
  · exact iff_of_true hd hempty
  · refine iff_of_false (fun hd => ?_) hne
    obtain ⟨record, records, rfl⟩ := List.exists_cons_of_ne_nil hne
    have hc := hgrown.contents
    rw [hd, List.self_eq_append_right, List.flatMap_cons, record.encode_eq.1] at hc
    simp at hc

/-- A file that was extensible goes on being so. -/
theorem extensible (h : Wrote name records e e')
    (he : Table.Extensible (e.directory.contents name)) :
    Table.Extensible (e'.directory.contents name) := by
  rcases h.files with ⟨-, hd⟩ | ⟨-, hgrown⟩
  · rwa [hd]
  · rw [hgrown.contents]
    exact he.append records

end Wrote

/-! ## Runs on fixed files -/

theorem eq_ok_of_toOption {α : Type} {x : Except Error α} {a : α} (h : x.toOption = some a) :
    x = .ok a := by
  cases x with
  | error error => cases h
  | ok a' => exact congrArg Except.ok (Option.some.inj h)

theorem execute_of_answer (h : (e.answer sql).1.toOption = some result) :
    execute sql e = .ok result (e.answer sql).2 := by
  unfold answer at h ⊢
  cases hr : execute sql e with
  | error error e' => rw [hr] at h; cases h
  | ok result' e' => rw [hr] at h; exact congrArg (EStateM.Result.ok · e') (Option.some.inj h)

theorem exists_read {table : String} {action : Sql.Action}
    (h : (Statement.ofText sql).toOption.map (fun s => (s.table, s.action)) = some (table, action)) :
    ∃ s, Statement.ofText sql = .ok s ∧ s.table = table ∧ s.action = action := by
  cases hs : Statement.ofText sql with
  | error error => rw [hs] at h; cases h
  | ok s =>
    rw [hs] at h
    obtain ⟨htable, haction⟩ := Prod.mk.inj (Option.some.inj h)
    exact ⟨s, rfl, htable, haction⟩

/-- A sink over the root, where the catalog's file lists a table `t` with this log. -/
def loggedSink (log : Bytes) : Sink where
  writer := { directory := { entries := .ofList [([Catalog.reserved], .file (Catalog.record "t")),
    (["t"], .file log)] } }

/-- What is seen of a query over a log: what stands in the file and whether it can be loaded, the
answer, and what stands in the file behind it. -/
def runOn (log : Bytes) (sql : String) : Option (Bytes × Bool × Option QueryResult × Bytes) :=
  (openOn {} (loggedSink log)).toOption.map fun e =>
    (e.directory.contents "t", (Table.load "t" e.order e.directory).toOption.isSome,
      (e.answer sql).1.toOption, (e.answer sql).2.directory.contents "t")

/-- A run over a log that can be loaded starts in step with it. -/
theorem inStep_of_runOn {log log' : Bytes}
    (hrun : runOn log sql = some (log, true, some result, log')) :
    ∃ e e', openOn {} (loggedSink log) = .ok e ∧ e.directory.contents "t" = log ∧ e.InStep "t" ∧
      execute sql e = .ok result e' ∧ e'.directory.contents "t" = log' := by
  obtain ⟨e, hopen, hrun⟩ := Option.map_eq_some_iff.1 hrun
  obtain ⟨hlog, hrun⟩ := Prod.mk.inj hrun
  obtain ⟨hloaded, hrun⟩ := Prod.mk.inj hrun
  obtain ⟨hanswer, hlog'⟩ := Prod.mk.inj hrun
  obtain ⟨t, hload⟩ := Option.isSome_iff_exists.1 hloaded
  have hopen := eq_ok_of_toOption hopen
  have hunused : e.tables.get? "t" = none := by
    obtain ⟨-, order, catalog, -, -, rfl⟩ := openOn_eq_ok.1 hopen
    rfl
  exact ⟨e, _, hopen, hlog, inStep_of_unused hunused (eq_ok_of_toOption hload),
    execute_of_answer hanswer, hlog'⟩

/-! ## Appending to any log -/

/-- What is promised of records that are put behind a log, whatever it holds: where the log can be
loaded they are loaded behind it if it is extensible, and otherwise the log cannot be loaded any
more. -/
structure Grows (log : Bytes) : Prop where
  record (name : String) (order : Index.Order) (t : Table) (record : Record) :
    Table.ofLog name order log = .ok t →
      Table.ofLog name order (log ++ record.encode) =
        if Table.Extensible log then .ok (t.apply record)
        else .error (.corruptedRecord name (Text.Utf8.lines log).length)
  /-- A statement on a table with this log, which is in step, leaves it in step if it leaves the
  files alone or the log is extensible. -/
  statement (e e' : Engine) (sql : String) (s : Statement) (result : QueryResult) : e.Reachable →
    Statement.ofText sql = .ok s →
    (∀ columns constraints, s.action ≠ .createTable columns constraints) →
    e.directory.contents s.table = log → e.InStep s.table → execute sql e = .ok result e' →
      (e'.InStep s.table ↔ e'.directory = e.directory ∨ Table.Extensible log)

/-- Records behind a log are read exactly if nothing is wanting to its last line. -/
theorem log_grows (log : Bytes) : Grows log where
  record name order t record h := Table.ofLog_append h record
  statement e e' sql s result h hs hcreate hlog hstep hr := by
    have hw := Sql.isWord_table hs
    rw [execute_of_read hs] at hr
    obtain ⟨records, hwrote⟩ := wrote_executeStatement h.sound hw hcreate hr
    rw [hwrote.inStep_iff hw hstep, hwrote.directory_eq_iff, hlog]

/-- Behind a finished line every record is loaded. So a row that is inserted there is loaded again,
and one that is inserted behind a line without an end is not. -/
theorem log_grows_by_inserted_row :
    let row : Record := .insert 1 (.ofList [("a", "x")])
    let next : Record := .insert 2 (.ofList [("a", "y")])
    let cut := Text.Utf8.encode row.text
    (∃ t, Table.ofLog "t" ⟨3, le_rfl⟩ row.encode = .ok t ∧ ∀ record : Record,
      Table.ofLog "t" ⟨3, le_rfl⟩ (row.encode ++ record.encode) = .ok (t.apply record)) ∧
    (∃ e result e', openOn {} (loggedSink row.encode) = .ok e ∧ e.InStep "t" ∧
      execute "INSERT INTO t (a) VALUES ('y')" e = .ok result e' ∧
      e'.directory.contents "t" = row.encode ++ next.encode ∧ e'.InStep "t") ∧
    ∃ e result e', openOn {} (loggedSink cut) = .ok e ∧ e.InStep "t" ∧
      execute "INSERT INTO t (a) VALUES ('y')" e = .ok result e' ∧
      e'.directory.contents "t" = cut ++ next.encode ∧ ¬ e'.InStep "t" := by
  intro row next cut
  have hread : (Statement.ofText "INSERT INTO t (a) VALUES ('y')").toOption.map
      (fun s => (s.table, s.action)) = some ("t", .insert ["a"] ["y"]) := by decide +kernel
  have hload : (Table.ofLog "t" ⟨3, le_rfl⟩ row.encode).toOption.isSome = true := by decide +kernel
  have hfinished : Table.Extensible row.encode := by decide +kernel
  have hcut : ¬ Table.Extensible cut := by decide +kernel
  let inserted : QueryResult := { affected := 1, message := some "1 row(s) inserted" }
  have hrun : runOn row.encode "INSERT INTO t (a) VALUES ('y')" =
      some (row.encode, true, some inserted, row.encode ++ next.encode) := by decide +kernel
  have hrun' : runOn cut "INSERT INTO t (a) VALUES ('y')" =
      some (cut, true, some inserted, cut ++ next.encode) := by decide +kernel
  obtain ⟨s, hs, htable, haction⟩ := exists_read hread
  refine ⟨?_, ?_, ?_⟩
  · obtain ⟨t, ht⟩ := Option.isSome_iff_exists.1 hload
    have ht := eq_ok_of_toOption ht
    refine ⟨t, ht, fun record => ?_⟩
    exact ((log_grows row.encode).record "t" _ t record ht).trans (if_pos hfinished)
  · obtain ⟨e, e', hopen, hlog, hstep, hr, hlog'⟩ := inStep_of_runOn hrun
    have hiff := (log_grows row.encode).statement e e' _ s _ (.opened hopen) hs (haction ▸ nofun)
      (htable ▸ hlog) (htable ▸ hstep) hr
    exact ⟨e, _, e', hopen, hstep, hr, hlog', htable ▸ hiff.2 (.inr hfinished)⟩
  · obtain ⟨e, e', hopen, hlog, hstep, hr, hlog'⟩ := inStep_of_runOn hrun'
    have hiff := (log_grows cut).statement e e' _ s _ (.opened hopen) hs (haction ▸ nofun)
      (htable ▸ hlog) (htable ▸ hstep) hr
    have hwritten : e'.directory ≠ e.directory := by
      intro hd
      rw [hd, hlog, List.self_eq_append_right] at hlog'
      exact absurd hlog' (by decide +kernel)
    refine ⟨e, _, e', hopen, hstep, hr, hlog', fun h => ?_⟩
    rw [htable] at hiff
    exact (hiff.1 h).elim hwritten hcut

/-- A record whose line has no end is loaded, and nothing that is put behind it. -/
theorem not_loaded_behind_unfinished_line :
    let log := Text.Utf8.encode (Record.insert 1 (.ofList [("a", "x")])).text
    (∃ t, Table.ofLog "t" ⟨3, le_rfl⟩ log = .ok t ∧ t.scan = [(1, .ofList [("a", "x")])]) ∧
      ∀ record : Record, Table.ofLog "t" ⟨3, le_rfl⟩ (log ++ record.encode) =
        .error (.corruptedRecord "t" 1) := by
  intro log
  have hlines : Text.Utf8.lines log = [log] :=
    Text.Utf8.lines_of_not_mem (Record.encode_eq _).2 (by decide +kernel)
  have hload : Table.ofLog "t" ⟨3, le_rfl⟩ log =
      .ok ((Table.empty "t" ⟨3, le_rfl⟩).apply (.insert 1 (.ofList [("a", "x")]))) := by
    rw [Table.ofLog, hlines, Table.replay_record]
    rfl
  have hno : ¬ Table.Extensible log := by decide +kernel
  refine ⟨⟨_, hload, rfl⟩, fun record => ?_⟩
  rw [Table.ofLog_append hload, if_neg hno, hlines]
  rfl

end Engine

end RelStore
