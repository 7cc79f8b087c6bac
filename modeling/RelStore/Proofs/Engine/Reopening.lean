import Mathlib.Logic.Relation
import RelStore.Proofs.Engine.Creation
import RelStore.Proofs.Engine.Durable

/-!
# New tables over what was left on file

A table that is created has no rows, and its file is read as before: if rows were left there, they are
back when the engine is opened anew. Where nothing was left that is read or in the way (`Vacant`), and
the catalog's file can take the name, the table is backed by its file from then on (`Backed`), and
whatever statements on it go through, a new engine on the same files answers every SELECT as the old
one (`Backed.reopen`).
-/

namespace RelStore

open Sql (IsWord Statement)
open Text.Utf8 (Bytes unfinished)

namespace Engine

variable {e e' : Engine} {name sql : String} {s : Statement} {result : QueryResult}

/-! ## What is selected -/

/-- On a free table a step is run behind a lock, and the lock is given back. -/
theorem withLock_of_result {α : Type} {step : EngineM α} {answer : Except Error α}
    (hfree : e.locks.isLocked name = false)
    (h : step { e with locks := e.locks.taken name } = Engine.result answer e') :
    withLock name step e = Engine.result answer { e' with locks := e'.locks.release name } := by
  unfold withLock
  rw [Locks.lock?_of_free hfree]
  dsimp only
  rw [h]
  cases answer <;> rfl

/-- What SELECT answers depends on nothing but the rows. -/
theorem answer_select {rows : List (RowId × Row)} {columns : List String}
    {condition : Option Sql.Condition} (hs : Statement.ofText sql = .ok s)
    (ha : s.action = .select columns condition) (hsound : e.Sound)
    (hfree : e.locks.isLocked s.table = false)
    (hknown : s.table ≠ Catalog.reserved ∧ e.catalog.contains s.table = true)
    (hlive : e.live s.table = .ok rows) :
    (e.answer sql).1 = selected s.table columns condition (rows.map Prod.snd) := by
  unfold live at hlive
  cases hview : e.view s.table with
  | error error => rw [hview] at hlive; cases hlive
  | ok t =>
    rw [hview] at hlive
    obtain rfl : t.scan = rows := Except.ok.inj hlive
    obtain ⟨tables, htable, -, -⟩ := table_of_view hview
    have hensure : ensureUserTable s.table { e with locks := e.locks.taken s.table } =
        .ok () { e with locks := e.locks.taken s.table } := by
      unfold ensureUserTable
      exact if_pos hknown
    have hstep := (bind_of_ok (f := fun _ => table s.table >>= selectFrom s.table columns condition)
      hensure).trans ((bind_of_ok (htable _)).trans
        (selectFrom_eq (hsound.view hview) s.table columns condition _))
    have hselect : executeStatement s = select s.table columns condition := by
      unfold executeStatement
      rw [ha]
    have hrun := (congrFun hselect e).trans (withLock_of_result hfree hstep)
    rw [answer_of_result hs hrun]

/-! ## Tables that are backed by their files -/

/-- A table that is known, free and in step with its file, to which records can be appended, where the
catalog is in step with its own file. -/
structure Backed (name : String) (e : Engine) : Prop where
  sound : e.Sound
  free : e.locks.isLocked name = false
  known : name ≠ Catalog.reserved ∧ e.catalog.contains name = true
  inStep : e.InStep name
  extensible : Table.Extensible (e.directory.contents name)
  listed : e.Listed

/-- A statement on a table goes through, and does not create it. -/
def Changes (name : String) (e e' : Engine) : Prop :=
  ∃ sql s result, Statement.ofText sql = .ok s ∧ s.table = name ∧
    (∀ columns constraints, s.action ≠ .createTable columns constraints) ∧
    execute sql e = .ok result e'

theorem isLocked_of_execute (hs : Statement.ofText sql = .ok s) (hr : execute sql e = .ok result e') :
    e'.locks.isLocked s.table = false := by
  have hfree : e.locks.isLocked s.table = false := by
    obtain ⟨step, hstep, -⟩ := executeStatement_eq_withLock s
    rw [execute_of_read hs, hstep] at hr
    exact (withLock_of_ok hr).1
  have hend : (e.answer sql).2 = e' := by
    unfold answer
    rw [hr]
  have hlocks := (answer_of_free hs hfree).1
  rw [hend] at hlocks
  rw [hlocks]
  exact hfree

theorem Wrote.listed {records : List Record} (h : Wrote name records e e') (hlisted : e.Listed) :
    e'.Listed := by
  obtain ⟨catalog, hload, htables⟩ := hlisted
  refine ⟨catalog, ?_, htables.trans (congrArg Catalog.tables h.catalog).symm⟩
  rcases h.files with ⟨-, hd⟩ | ⟨-, hgrown⟩
  · rw [hd]
    exact hload
  · unfold Catalog.load at hload ⊢
    rw [(hgrown.sole.sameFile h.known.1.symm).lookup isWord_reserved]
    exact hload

/-- A statement on a table leaves it backed by its file. -/
theorem Backed.changed (h : Backed name e) (hc : Changes name e e') : Backed name e' := by
  obtain ⟨sql, s, result, hs, rfl, hcreate, hr⟩ := hc
  have hw := Sql.isWord_table hs
  have hfree := isLocked_of_execute hs hr
  rw [execute_of_read hs] at hr
  obtain ⟨records, hwrote⟩ := wrote_executeStatement h.sound hw hcreate hr
  exact {
    sound := ((keeps_executeStatement s).ok h.sound hr).2
    free := hfree
    known := hwrote.catalog ▸ h.known
    inStep := (hwrote.inStep_iff hw h.inStep).2 (.inr h.extensible)
    extensible := hwrote.extensible h.extensible
    listed := hwrote.listed h.listed }

theorem Backed.steps (h : Backed name e) (hc : Relation.ReflTransGen (Changes name) e e') :
    Backed name e' := by
  induction hc with
  | refl => exact h
  | tail _ hstep ih => exact ih.changed hstep

/-! ## Opening anew -/

theorem contains_of_tables {catalog catalog' : Catalog} (h : catalog.tables = catalog'.tables)
    (name : String) : catalog.contains name = catalog'.contains name := by
  unfold Catalog.contains
  rw [Bool.eq_iff_iff, Bool.or_eq_true, Bool.or_eq_true, OrderedMap.contains_iff,
    OrderedMap.contains_iff, show catalog.names.keys = catalog'.names.keys from h]

/-- A new engine on the files behind a table answers every SELECT on it as before. -/
theorem Backed.answer_eq (h : Backed s.table e) {config : Config} {sink : Sink} {now : Nat}
    (hd : sink.directory = e.directory) (hopen : openOn config sink = .ok e')
    {columns : List String} {condition : Option Sql.Condition} (hs : Statement.ofText sql = .ok s)
    (ha : s.action = .select columns condition) :
    (answer { e' with locks := { now } } sql).1 = (e.answer sql).1 := by
  obtain ⟨rows, hlive, hload⟩ := h.inStep
  obtain ⟨listed, hlisted, htables⟩ := h.listed
  obtain ⟨-, order, catalog, -, hcatalog, rfl⟩ := openOn_eq_ok.1 hopen
  obtain ⟨loaded, hl, rfl⟩ := hload order
  rw [hd, hlisted] at hcatalog
  obtain rfl := Except.ok.inj hcatalog
  rw [← hd] at hl
  rw [answer_select hs ha h.sound h.free h.known hlive]
  refine answer_select hs ha (fun _ _ hg => nomatch hg) rfl ⟨h.known.1, ?_⟩ (live_of_view hl)
  exact (contains_of_tables htables s.table).trans h.known.2

/-- Where a table is backed by its file, a session can be reopened with every order that is valid, and
answers every SELECT on the table as before. -/
theorem Backed.reopen {session : Session} (h : session.engine.Backed name) {order : Option UInt64}
    (hvalid : (session.configured order).validate = .ok ()) :
    (session.reopen order).1 = .ok () ∧
      ∀ query s columns condition, Statement.ofText query = .ok s → s.table = name →
        s.action = .select columns condition →
        ((session.reopen order).2.engine.answer query).1 = (session.engine.answer query).1 := by
  obtain ⟨catalog, hload, -⟩ := h.listed
  have h3 := three_le_of_validate hvalid
  obtain ⟨e, hopen⟩ :
      ∃ e, openOn (session.configured order) session.engine.cancelAll.sink.dispose = .ok e :=
    ⟨_, openOn_eq_ok.2 ⟨hvalid, ⟨_, h3⟩, catalog, dif_pos h3, hload, rfl⟩⟩
  rw [session.reopen_eq, hopen]
  refine ⟨rfl, ?_⟩
  rintro query s columns condition hs rfl ha
  have hd : session.engine.cancelAll.sink.dispose.directory = session.engine.directory := rfl
  exact h.answer_eq hd hopen hs ha

/-! ## New tables -/

/-- Nothing stands under a name that is read as rows or is in the way of records. -/
def Vacant (e : Engine) (name : String) : Prop :=
  (∀ order, ∃ t, Table.load name order e.directory = .ok t ∧ t.scan = []) ∧
    Table.Extensible (e.directory.contents name)

theorem Founded.inStep_iff (h : Founded name e e') (hw : IsWord name) :
    e'.InStep name ↔ ∀ order, ∃ t, Table.load name order e.directory = .ok t ∧ t.scan = [] := by
  have hlive := h.live
  constructor
  · rintro ⟨rows, hrows, hload⟩ order
    obtain rfl : rows = [] := Except.ok.inj (hrows.symm.trans hlive)
    rw [← h.load hw order]
    exact hload order
  · refine fun hload => ⟨[], hlive, fun order => ?_⟩
    rw [h.load hw order]
    exact hload order

/-- A table that is created where nothing was left is backed by its file, if the catalog's file can
take its name. -/
theorem Founded.backed (h : Founded name e e') (hw : IsWord name) (hsound : e'.Sound)
    (hfree : e'.locks.isLocked name = false) (hvacant : e.Vacant name) (hlisted : e.Listed)
    (hfinished : unfinished (e.directory.contents Catalog.reserved) = []) : Backed name e' := by
  have hmem : name ∈ e'.catalog.tables := by
    rw [h.tables]
    exact List.mem_append_right _ (List.mem_singleton_self name)
  obtain ⟨last, catalog, hlast, hload, hfile⟩ := listed_of_founded hw h hlisted
  rw [hfinished] at hlast
  cases hlast
  exact {
    sound := hsound
    free := hfree
    known := ⟨ne_reserved_of_new h.new, by
      rw [Catalog.contains, OrderedMap.contains_iff.2 hmem, Bool.or_true]⟩
    inStep := (h.inStep_iff hw).2 hvacant.1
    extensible := h.contents ▸ hvacant.2
    listed := ⟨catalog, hload, hfile⟩ }

/-- A table that is created has no rows in memory, and on file those that were left there, if any.
Where nothing was left, the catalog's file lists the tables of the catalog and its last line is
finished, the table is the same for a new engine on the same files, whatever statements on it go
through before. -/
theorem created_table_reopened {columns : List Sql.ColumnDefinition}
    {constraints : List Sql.TableConstraint} (h : e.Reachable) (hs : Statement.ofText sql = .ok s)
    (ha : s.action = .createTable columns constraints) (hr : execute sql e = .ok result e') :
    e'.live s.table = .ok [] ∧
      (∀ order, Table.load s.table order e'.directory = Table.load s.table order e.directory) ∧
      (e.Vacant s.table → e.Listed → unfinished (e.directory.contents Catalog.reserved) = [] →
        ∀ session : Session, Relation.ReflTransGen (Changes s.table) e' session.engine →
          ∀ order, (session.configured order).validate = .ok () →
            (session.reopen order).1 = .ok () ∧
              ∀ query s' columns condition, Statement.ofText query = .ok s' →
                s'.table = s.table → s'.action = .select columns condition →
                ((session.reopen order).2.engine.answer query).1 =
                  (session.engine.answer query).1) := by
  have hw := Sql.isWord_table hs
  have hfounded := founded_of_execute hs ha hr
  refine ⟨hfounded.live, hfounded.load hw, fun hvacant hlisted hfinished session hsteps order => ?_⟩
  have hsound : e'.Sound := by
    rw [execute_of_read hs] at hr
    exact ((keeps_executeStatement s).ok h.sound hr).2
  have hbacked := hfounded.backed hw hsound (isLocked_of_execute hs hr) hvacant hlisted hfinished
  exact (hbacked.steps hsteps).reopen

/-- A sink over the root, where the catalog's file is empty and these records stand in the file of a
table `t`. -/
def leftoverSink (records : List Record) : Sink where
  writer := { directory := { entries := .ofList [([Catalog.reserved], .file []),
    (["t"], .file (records.flatMap Record.encode))] } }

/-- A row was inserted and deleted again in a file that is left over: none is left. Another row is
inserted into the new table before the engine is opened anew. -/
theorem created_table_reopened_over_deleted_row :
    let sink := leftoverSink [.insert 7 (.ofList [("a", "old")]), .delete 7]
    ∃ e result e' result' e'', openOn {} sink = .ok e ∧
      execute "CREATE TABLE t (a INT)" e = .ok result e' ∧
      execute "INSERT INTO t (a) VALUES ('new')" e' = .ok result' e'' ∧
      (Session.reopen ⟨{}, e''⟩ (some 3)).1 = .ok () ∧
      ((Session.reopen ⟨{}, e''⟩ (some 3)).2.engine.answer "SELECT a FROM t").1 =
        (e''.answer "SELECT a FROM t").1 := by
  intro sink
  have hcreate : (Statement.ofText "CREATE TABLE t (a INT)").toOption.map
      (fun s => (s.table, s.action)) =
        some ("t", .createTable [{ name := "a", dataType := .int }] []) := by decide +kernel
  have hinsert : (Statement.ofText "INSERT INTO t (a) VALUES ('new')").toOption.map
      (fun s => (s.table, s.action)) = some ("t", .insert ["a"] ["new"]) := by decide +kernel
  have hselect : (Statement.ofText "SELECT a FROM t").toOption.map
      (fun s => (s.table, s.action)) = some ("t", .select ["a"] none) := by decide +kernel
  have hleft : (openOn {} sink).toOption.map (fun e =>
      ((Table.load "t" e.order e.directory).toOption.map Table.scan,
        decide (Table.Extensible (e.directory.contents "t")),
        unfinished (e.directory.contents Catalog.reserved))) = some (some [], true, []) := by
    decide +kernel
  have hrun : (openOn {} sink).toOption.map (fun e =>
      ((e.answer "CREATE TABLE t (a INT)").1.toOption,
        ((e.answer "CREATE TABLE t (a INT)").2.answer "INSERT INTO t (a) VALUES ('new')").1.toOption))
      = some (some { message := some "Table 't' created" },
        some { affected := 1, message := some "1 row(s) inserted" }) := by decide +kernel
  obtain ⟨s, hs, htable, haction⟩ := exists_read hcreate
  obtain ⟨s', hs', htable', haction'⟩ := exists_read hinsert
  obtain ⟨s'', hs'', htable'', haction''⟩ := exists_read hselect
  obtain ⟨e, hopen, hleft⟩ := Option.map_eq_some_iff.1 hleft
  rw [hopen] at hrun
  obtain ⟨hcreated, hinserted⟩ := Prod.mk.inj (Option.some.inj hrun)
  obtain ⟨hrows, hleft⟩ := Prod.mk.inj hleft
  obtain ⟨hextensible, hfinished⟩ := Prod.mk.inj hleft
  obtain ⟨t, hload, hscan⟩ := Option.map_eq_some_iff.1 hrows
  have hopen := eq_ok_of_toOption hopen
  have hr := execute_of_answer hcreated
  have hr' := execute_of_answer hinserted
  have hvacant : e.Vacant s.table := by
    rw [htable]
    refine ⟨fun order => ?_, of_decide_eq_true hextensible⟩
    obtain ⟨t', ht', hscan'⟩ := Table.load_of_load (eq_ok_of_toOption hload) order
    exact ⟨t', ht', hscan'.trans hscan⟩
  have hstep : Changes s.table (e.answer "CREATE TABLE t (a INT)").2 _ :=
    ⟨_, s', _, hs', htable'.trans htable.symm, haction' ▸ nofun, hr'⟩
  obtain ⟨hreopen, hanswer⟩ := (created_table_reopened (.opened hopen) hs haction hr).2.2
    hvacant (listed_of_openOn hopen) hfinished ⟨{}, _⟩ (.single hstep) (some 3) rfl
  exact ⟨e, _, _, _, _, hopen, hr, hr', hreopen,
    hanswer _ s'' ["a"] none hs'' (htable''.trans htable.symm) haction''⟩

/-- A row that is left in the file of a new table is back when the engine is opened anew. -/
theorem left_row_is_back :
    let sink := leftoverSink [.insert 1 (.ofList [("a", "old")])]
    ∃ e result e', openOn {} sink = .ok e ∧ e.catalog.contains "t" = false ∧
      execute "CREATE TABLE t (a INT)" e = .ok result e' ∧
      (e'.answer "SELECT a FROM t").1 = .ok { columns := ["a"], rows := [] } ∧
      (Session.reopen ⟨{}, e'⟩ none).1 = .ok () ∧
      ((Session.reopen ⟨{}, e'⟩ none).2.engine.answer "SELECT a FROM t").1 =
        .ok { columns := ["a"], rows := [["old"]] } := by
  intro sink
  have hrun : (openOn {} sink).toOption.map (fun e =>
      let e' := (e.answer "CREATE TABLE t (a INT)").2
      (e.catalog.contains "t", (e.answer "CREATE TABLE t (a INT)").1.toOption,
        (e'.answer "SELECT a FROM t").1.toOption, (Session.reopen ⟨{}, e'⟩ none).1.toOption,
        ((Session.reopen ⟨{}, e'⟩ none).2.engine.answer "SELECT a FROM t").1.toOption)) =
      some (false, some { message := some "Table 't' created" },
        some { columns := ["a"], rows := [] }, some (),
        some { columns := ["a"], rows := [["old"]] }) := by decide +kernel
  obtain ⟨e, hopen, hrun⟩ := Option.map_eq_some_iff.1 hrun
  obtain ⟨hnew, hrun⟩ := Prod.mk.inj hrun
  obtain ⟨hcreated, hrun⟩ := Prod.mk.inj hrun
  obtain ⟨hbefore, hrun⟩ := Prod.mk.inj hrun
  obtain ⟨hreopen, hafter⟩ := Prod.mk.inj hrun
  exact ⟨e, _, _, eq_ok_of_toOption hopen, hnew, execute_of_answer hcreated,
    eq_ok_of_toOption hbefore, eq_ok_of_toOption hreopen, eq_ok_of_toOption hafter⟩

end Engine

end RelStore
