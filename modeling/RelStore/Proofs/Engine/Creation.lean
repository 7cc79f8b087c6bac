import RelStore.Proofs.Catalog
import RelStore.Proofs.Engine.InStep

/-!
# Tables that were created

Creating a table puts its name behind the catalog's file and leaves alone what stands in the file of
the table.
-/

namespace RelStore

open Sql (IsWord Statement)
open Text.Utf8 (Bytes unfinished)

/-- The catalog is read from the contents of its file, which may be missing. -/
theorem Directory.Opens.load_catalog {d : Directory} (h : d.Opens Catalog.reserved) :
    Catalog.load d =
      match Text.Utf8.decode? (d.contents Catalog.reserved) with
      | some text => .ok (.ofNames (Catalog.namesOf text))
      | none => .error .io := by
  unfold Catalog.load Directory.contents
  rw [lookup_word d isWord_reserved, if_pos h.here, if_pos h.fits]
  cases hg : d.get? (d.location ++ [Catalog.reserved]) with
  | none => rfl
  | some entry =>
    cases entry with
    | file contents => rfl
    | directory => exact absurd hg h.no_directory

namespace Engine

variable {e e' : Engine} {name sql : String} {s : Statement} {result : QueryResult}

/-- What a table that was created finds, in memory and on file. -/
structure Founded (name : String) (e e' : Engine) : Prop extends Created name e e' where
  order : e'.order = e.order
  table : e'.tables.get? name = some (.empty name e.order)
  reserved : e.directory.Opens Catalog.reserved
  opens : e.directory.Opens name
  opens' : e'.directory.Opens name
  /-- The file of the table is made where it is missing, and left alone otherwise. -/
  contents : e'.directory.contents name = e.directory.contents name

theorem founded_of_ok (hw : IsWord name) (h : createTable name e = .ok result e') :
    Founded name e e' := by
  change withLock name (creating name) e = _ at h
  obtain ⟨-, e₁, hcreating, rfl⟩ := withLock_of_ok h
  have hnew := (opens_of_creating hw hcreating).1
  have hne := ne_reserved_of_new hnew
  rw [creating_of_new hnew] at hcreating
  obtain ⟨⟨⟩, e₂, happend, hcreating⟩ := of_bind_eq_ok hcreating
  obtain ⟨sink, rfl, hfaults, hgrown⟩ := grown_of_append hw happend
  obtain ⟨⟨⟩, e₃, happend', hcreating⟩ := of_bind_eq_ok hcreating
  obtain ⟨sink', rfl, hfaults', hgrown'⟩ := grown_of_append isWord_reserved happend'
  cases hcreating
  have hsame : Directory.SameFile name sink.directory sink'.directory := hgrown'.sole.sameFile hne
  exact {
    new := hnew
    faults := hfaults'.trans hfaults
    catalog := rfl
    files := ⟨sink.directory, hgrown.sole, hgrown'⟩
    order := rfl
    table := OrderedMap.get?_insert_self ..
    reserved := hgrown.opens_iff.1 hgrown'.opens
    opens := hgrown.opens
    opens' := hsame.opens (hgrown.opens_iff.2 hgrown.opens)
    contents := hsame.contents.trans (hgrown.contents.trans (List.append_nil _)) }

namespace Founded

/-- In memory the table has no rows. -/
theorem live (h : Founded name e e') : e'.live name = .ok [] := live_of_get? h.table

/-- The file of the table is read as before. -/
theorem load (h : Founded name e e') (hw : IsWord name) (order : Index.Order) :
    Table.load name order e'.directory = Table.load name order e.directory := by
  rw [h.opens'.load hw, h.opens.load hw, h.contents]

/-- The catalog's file is read behind the new name. -/
theorem load_catalog (h : Founded name e e') :
    Catalog.load e'.directory =
      match Text.Utf8.decode? (e.directory.contents Catalog.reserved ++ Catalog.record name) with
      | some text => .ok (.ofNames (Catalog.namesOf text))
      | none => .error .io := by
  have hfile := h.file
  obtain ⟨made, hsole, hgrown⟩ := h.files
  have hopens : e'.directory.Opens Catalog.reserved := hgrown.opens_iff.2 hgrown.opens
  have hcontents : e'.directory.contents Catalog.reserved =
      e.directory.contents Catalog.reserved ++ Catalog.record name := by
    rw [← h.frame.location] at hfile
    unfold Directory.contents at hfile ⊢
    rw [hfile]
  rw [hopens.load_catalog, hcontents]

end Founded

/-- The catalog's file lists the tables of the catalog, in their order. -/
def Listed (e : Engine) : Prop :=
  ∃ catalog, Catalog.load e.directory = .ok catalog ∧ catalog.tables = e.catalog.tables

theorem listed_of_openOn {config : Config} {sink : Sink} (h : openOn config sink = .ok e) :
    e.Listed := by
  obtain ⟨-, order, catalog, -, hload, rfl⟩ := openOn_eq_ok.1 h
  exact ⟨catalog, hload, rfl⟩

/-- Where a table is created, the catalog's file lists it behind those that it listed if its last line
is finished; otherwise the name runs into what stands there, and the table is not listed. -/
theorem listed_of_founded (hw : IsWord name) (h : Founded name e e') (hlisted : e.Listed) :
    ∃ last catalog, Text.Utf8.decode? (unfinished (e.directory.contents Catalog.reserved)) = some last ∧
      Catalog.load e'.directory = .ok catalog ∧
      if last = [] then catalog.tables = e'.catalog.tables
      else name ∉ catalog.tables ∧ String.ofList (last ++ name.toList) ∈ catalog.tables := by
  obtain ⟨catalog, hload, htables⟩ := hlisted
  have hnew := not_mem_of_new h.new
  rw [h.reserved.load_catalog] at hload
  cases hd : Text.Utf8.decode? (e.directory.contents Catalog.reserved) with
  | none => rw [hd] at hload; cases hload
  | some text =>
    rw [hd] at hload
    obtain rfl := Except.ok.inj hload
    rw [← htables] at hnew
    have hafter := h.load_catalog
    rw [Catalog.decode?_append_record hd] at hafter
    refine ⟨_, _, Catalog.decode?_unfinished hd, hafter, ?_⟩
    rw [h.tables, ← htables]
    split_ifs with hlast
    · exact Catalog.tables_behind hw hnew hlast
    · exact Catalog.tables_behind_unfinished hw hnew hlast

theorem founded_of_execute {columns : List Sql.ColumnDefinition}
    {constraints : List Sql.TableConstraint} (hs : Statement.ofText sql = .ok s)
    (ha : s.action = .createTable columns constraints) (hr : execute sql e = .ok result e') :
    Founded s.table e e' := by
  have hw := Sql.isWord_table hs
  rw [execute_of_read hs] at hr
  obtain ⟨source, name, action⟩ := s
  obtain rfl : action = _ := ha
  exact founded_of_ok hw hr

/-- A table that is created is listed behind those that the catalog lists. The catalog's file lists it
there too if its last line was finished, and does not list it otherwise. -/
theorem created_table_listed {columns : List Sql.ColumnDefinition}
    {constraints : List Sql.TableConstraint} (hs : Statement.ofText sql = .ok s)
    (ha : s.action = .createTable columns constraints) (hr : execute sql e = .ok result e')
    (hlisted : e.Listed) :
    e'.catalog.tables = e.catalog.tables ++ [s.table] ∧
      ∃ last catalog,
        Text.Utf8.decode? (unfinished (e.directory.contents Catalog.reserved)) = some last ∧
        Catalog.load e'.directory = .ok catalog ∧
        if last = [] then catalog.tables = e.catalog.tables ++ [s.table]
        else s.table ∉ catalog.tables ∧
          String.ofList (last ++ s.table.toList) ∈ catalog.tables := by
  have hfounded := founded_of_execute hs ha hr
  have hfile := listed_of_founded (Sql.isWord_table hs) hfounded hlisted
  rw [hfounded.tables] at hfile
  exact ⟨hfounded.tables, hfile⟩

/-- A sink over the root, where the catalog's file has these contents. -/
def catalogSink (contents : String) : Sink where
  writer := { directory :=
    { entries := .ofList [([Catalog.reserved], .file (Text.Utf8.ofString contents))] } }

/-- A table that is created behind a catalog with a blank line and a name that comes again. -/
theorem created_table_listed_behind_repeated_name :
    let sink := catalogSink "a\n\nc\na\n"
    ∃ e result e', openOn {} sink = .ok e ∧ e.catalog.tables = ["a", "c"] ∧
      execute "CREATE TABLE b (x INT)" e = .ok result e' ∧
      e'.catalog.tables = ["a", "c", "b"] ∧
      ∃ catalog, Catalog.load e'.directory = .ok catalog ∧ catalog.tables = ["a", "c", "b"] := by
  intro sink
  have hread : (Statement.ofText "CREATE TABLE b (x INT)").toOption.map
      (fun s => (s.table, s.action)) =
        some ("b", .createTable [{ name := "x", dataType := .int }] []) := by decide +kernel
  have hrun : (openOn {} sink).toOption.map (fun e => (e.catalog.tables,
      unfinished (e.directory.contents Catalog.reserved),
      (e.answer "CREATE TABLE b (x INT)").1.toOption)) =
        some (["a", "c"], [], some { message := some "Table 'b' created" }) := by decide +kernel
  obtain ⟨s, hs, htable, haction⟩ := exists_read hread
  obtain ⟨e, hopen, hrun⟩ := Option.map_eq_some_iff.1 hrun
  obtain ⟨hnames, hrun⟩ := Prod.mk.inj hrun
  obtain ⟨hfinished, hanswer⟩ := Prod.mk.inj hrun
  have hopen := eq_ok_of_toOption hopen
  have hr := execute_of_answer hanswer
  obtain ⟨htables, last, catalog, hlast, hload, hfile⟩ :=
    created_table_listed hs haction hr (listed_of_openOn hopen)
  rw [hfinished] at hlast
  cases hlast
  rw [if_pos rfl] at hfile
  rw [htable, hnames] at htables hfile
  exact ⟨e, _, _, hopen, hnames, hr, htables, catalog, hload, hfile⟩

/-- Behind a name without a line feed the new one makes one name with it. -/
theorem two_tables_listed_as_one :
    let sink := catalogSink "a"
    ∃ e result e', openOn {} sink = .ok e ∧ e.catalog.tables = ["a"] ∧
      execute "CREATE TABLE b (x INT)" e = .ok result e' ∧ e'.catalog.tables = ["a", "b"] ∧
      ∃ catalog, Catalog.load e'.directory = .ok catalog ∧ catalog.tables = ["ab"] := by
  intro sink
  have hrun : (openOn {} sink).toOption.map (fun e => (e.catalog.tables,
      (e.answer "CREATE TABLE b (x INT)").1.toOption,
      (e.answer "CREATE TABLE b (x INT)").2.catalog.tables,
      (Catalog.load (e.answer "CREATE TABLE b (x INT)").2.directory).toOption.map (·.tables))) =
        some (["a"], some { message := some "Table 'b' created" }, ["a", "b"], some ["ab"]) := by
    decide +kernel
  obtain ⟨e, hopen, hrun⟩ := Option.map_eq_some_iff.1 hrun
  obtain ⟨hbefore, hrun⟩ := Prod.mk.inj hrun
  obtain ⟨hanswer, hrun⟩ := Prod.mk.inj hrun
  obtain ⟨hafter, hfile⟩ := Prod.mk.inj hrun
  obtain ⟨catalog, hload, htables⟩ := Option.map_eq_some_iff.1 hfile
  exact ⟨e, _, _, eq_ok_of_toOption hopen, hbefore, execute_of_answer hanswer, hafter, catalog,
    eq_ok_of_toOption hload, htables⟩

end Engine

end RelStore
