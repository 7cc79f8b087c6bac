import RelStore.Proofs.Engine.Runs

/-!
# The engine as a database

With a sink that never fails, an engine that was opened on an empty directory answers every
run of queries as a database of lists does (`answers_as_database`).
-/

namespace RelStore

open Sql (Statement)

/-- A sink all of whose calls succeed: those that choose the file of a table which one of the
queries creates among them. -/
structure Sink.NeverFails (sink : Sink) (queries : List String) : Prop where
  target : ∀ n, sink.faults.target n = false
  write : ∀ n, sink.faults.write n = false
  opens : ∀ sql ∈ queries, ∀ source table columns constraints,
    Statement.ofText sql = .ok ⟨source, table, .createTable columns constraints⟩ →
      (sink.setTarget table).1 = .ok ()

/-- A port that lets everything through that is written for these names. -/
structure Port.Open (p : Port) (names : List String) : Prop where
  target : ∀ n, p.faults.target n = false
  write : ∀ n, p.faults.write n = false
  fits : ∀ name ∈ names, p.fits name = true

namespace Port

variable {p : Port} {names : List String} {name : String}

theorem Open.mono {names' : List String} (h : p.Open names) (hs : names' ⊆ names) : p.Open names' :=
  ⟨h.target, h.write, fun name hn => h.fits name (hs hn)⟩

theorem Open.append (h : p.Open names) (hn : name ∈ names) :
    ∃ p', p.append name = (.ok (), p') ∧ p'.Open names := by
  unfold Port.append
  dsimp only
  rw [h.target, h.fits name hn, h.write]
  exact ⟨_, rfl, h.target, h.write, h.fits⟩

theorem Open.appendAll (h : p.Open names) {targets : List String}
    (ht : ∀ name ∈ targets, name ∈ names) :
    ∃ p', p.appendAll targets = (.ok (), p') ∧ p'.Open names := by
  induction targets generalizing p with
  | nil => exact ⟨p, rfl, h⟩
  | cons name targets ih =>
    rw [List.forall_mem_cons] at ht
    obtain ⟨p', hp, hp'⟩ := h.append ht.1
    rw [Port.appendAll, hp]
    exact ih hp' ht.2

end Port

/-- The tables that queries create. -/
def created (queries : List String) : List String :=
  queries.filterMap fun sql =>
    match Statement.ofText sql with
    | .ok ⟨_, table, .createTable ..⟩ => some table
    | _ => none

theorem mem_created {queries : List String} {sql source table : String}
    {columns : List Sql.ColumnDefinition} {constraints : List Sql.TableConstraint}
    (hm : sql ∈ queries)
    (hs : Statement.ofText sql = .ok ⟨source, table, .createTable columns constraints⟩) :
    table ∈ created queries :=
  List.mem_filterMap.2 ⟨sql, hm, by rw [hs]⟩

theorem created_cons_subset (sql : String) (rest : List String) :
    created rest ⊆ created (sql :: rest) := fun _ h =>
  have ⟨sql', hm, hs⟩ := List.mem_filterMap.1 h
  List.mem_filterMap.2 ⟨sql', List.mem_cons_of_mem _ hm, hs⟩

/-- A statement that succeeds is on a table that is there or that it creates, and no other table
comes up. -/
theorem Database.execute_ok {db db' : Database} {s : Statement} {result : QueryResult}
    (h : db.execute s = .ok (result, db')) :
    (s.table ∈ db.tables.keys ∨
      ∃ columns constraints, s.action = .createTable columns constraints) ∧
      ∀ name ∈ db'.tables.keys, name = s.table ∨ name ∈ db.tables.keys := by
  have hkeys (rows : List Row) : ∀ name ∈ (db.tables.insert s.table rows).keys,
      name = s.table ∨ name ∈ db.tables.keys := by
    intro name hm
    rw [OrderedMap.keys_insert] at hm
    split_ifs at hm
    · exact .inr hm
    · exact (List.mem_append.1 hm).symm.imp_left List.mem_singleton.1
  obtain ⟨source, table, action⟩ := s
  cases hg : db.tables.get? table with
  | none =>
    unfold execute at h
    rw [hg] at h
    cases action with
    | createTable columns constraints =>
      dsimp only at h
      split_ifs at h
      cases h
      exact ⟨.inr ⟨columns, constraints, rfl⟩, hkeys []⟩
    | _ => cases h
  | some rows =>
    rw [execute_of_listed hg] at h
    cases ha : act table rows action with
    | error e => rw [ha] at h; cases h
    | ok answer =>
      rw [ha] at h
      cases h
      exact ⟨.inl (OrderedMap.mem_keys_of_get? hg), hkeys answer.2⟩

theorem mem_targets {s : Statement} {result : QueryResult} {name : String}
    (h : name ∈ targets s result) : name = s.table ∨ name = Catalog.reserved := by
  unfold targets at h
  split at h <;> [skip; skip; skip; split_ifs at h; split_ifs at h]
  all_goals simp_all

/-- The names that a machine may still write to: the catalog's, those of its tables, and those of
the tables that are still to be created. -/
def Machine.writes (m : Machine) (queries : List String) : List String :=
  Catalog.reserved :: (m.database.tables.keys ++ created queries)

/-- Where nothing fails, a machine answers as its database. -/
theorem Machine.answer_eq {m : Machine} {sql : String} {rest : List String}
    (h : m.port.Open (m.writes (sql :: rest))) :
    (m.answer sql).1 = (m.database.answer sql).1 ∧
      (m.answer sql).2.database = (m.database.answer sql).2 ∧
      (m.answer sql).2.port.Open ((m.answer sql).2.writes rest) := by
  have hcreated := created_cons_subset sql rest
  have hrest : m.port.Open (m.writes rest) := h.mono <| List.cons_subset_cons _ fun name hn =>
    List.mem_append.2 ((List.mem_append.1 hn).imp_right (hcreated ·))
  unfold answer Database.answer
  cases hs : Statement.ofText sql with
  | error e => exact ⟨rfl, rfl, hrest⟩
  | ok s =>
    dsimp only
    unfold execute
    cases he : m.database.execute s with
    | error e => exact ⟨rfl, rfl, hrest⟩
    | ok answer =>
      obtain ⟨result, db⟩ := answer
      obtain ⟨hname, hkeys⟩ := Database.execute_ok he
      have hmem : s.table ∈ m.writes (sql :: rest) := by
        refine List.mem_cons_of_mem _ (List.mem_append.2 (hname.imp_right ?_))
        rintro ⟨columns, constraints, haction⟩
        obtain ⟨source, table, action⟩ := s
        obtain rfl : action = _ := haction
        exact mem_created List.mem_cons_self hs
      have htargets : ∀ name ∈ targets s result, name ∈ m.writes (sql :: rest) := fun name hn => by
        rcases mem_targets hn with rfl | rfl
        · exact hmem
        · exact List.mem_cons_self
      obtain ⟨port, hp, hopen⟩ := h.appendAll htargets
      dsimp only
      rw [hp]
      refine ⟨rfl, rfl, hopen.mono fun name hn => ?_⟩
      rcases List.mem_cons.1 hn with rfl | hn
      · exact List.mem_cons_self
      rcases List.mem_append.1 hn with hn | hn
      · rcases hkeys name hn with rfl | hk
        · exact hmem
        · exact List.mem_cons_of_mem _ (List.mem_append_left _ hk)
      · exact List.mem_cons_of_mem _ (List.mem_append_right _ (hcreated hn))

theorem Machine.run_eq {m : Machine} {queries : List String} (h : m.port.Open (m.writes queries)) :
    (run answer m queries).1 = (run Database.answer m.database queries).1 := by
  refine (run_simulation (R := fun queries (m : Machine) db =>
    m.database = db ∧ m.port.Open (m.writes queries)) ?_ queries ⟨rfl, h⟩).1
  rintro sql rest m - ⟨rfl, hm⟩
  exact answer_eq hm

/-- A sink that never fails lets everything through that is written for the queries. -/
theorem Sink.NeverFails.open {sink : Sink} {queries : List String} (h : sink.NeverFails queries)
    (hflat : sink.directory.Flat) (hfits : sink.port.fits Catalog.reserved = true) :
    sink.port.Open (Machine.writes ⟨{}, sink.port⟩ queries) := by
  refine ⟨h.target, h.write, fun name hn => ?_⟩
  rcases List.mem_cons.1 hn with rfl | hn
  · exact hfits
  · obtain ⟨sql, hm, hs⟩ := List.mem_filterMap.1 (show name ∈ created queries from hn)
    split at hs
    · next source table columns constraints he =>
      obtain rfl := Option.some.inj hs
      by_contra hnot
      have hfit : ¬ sink.directory.Fits table := mt decide_eq_true hnot
      obtain ⟨sink', hset, -⟩ := Sink.setTarget_of_not_fits hflat (Sql.isWord_table he) hfit
      have ho := h.opens sql hm _ _ _ _ he
      rw [hset] at ho
      cases ho
    · cases hs

/-- An engine that was opened on an empty directory, with a sink that never fails, answers any
queries as a database of lists, as long as its tables do not run out of row ids. -/
theorem answers_as_database {config : Config} {sink : Sink} {e : Engine}
    (hopen : Engine.openOn config sink = .ok e) (hfresh : sink.directory.Fresh)
    (queries : List String) (hsink : sink.NeverFails queries)
    (hids : ∀ name, e.idsTaken name queries < 2 ^ 64 - 2) :
    (run Engine.answer e queries).1 = (run Database.answer {} queries).1 := by
  have h₀ : Engine.Agrees (e.idsTaken · queries) e ⟨{}, sink.port⟩ :=
    Engine.agrees_of_openOn hopen hfresh fun name => by have := hids name; omega
  have h : Engine.Agrees (Machine.idsTaken · ⟨{}, sink.port⟩ queries) e ⟨{}, sink.port⟩ := by
    rw [funext fun name => Engine.idsTaken_eq h₀ name]
    exact h₀
  rw [(Engine.run_agrees queries h).1]
  exact Machine.run_eq (hsink.open hfresh.flat.1 h.fits)

/-- The default configuration on the empty root, and a table that is created, filled and read. -/
theorem answers_as_database_on_root :
    let sink : Sink := { writer := { directory := .root } }
    let queries := ["CREATE TABLE t (id INT)", "INSERT INTO t (id) VALUES (1)", "SELECT id FROM t"]
    ∃ e, Engine.openOn {} sink = .ok e ∧ sink.directory.Fresh ∧ sink.NeverFails queries ∧
      (∀ name, e.idsTaken name queries < 2 ^ 64 - 2) ∧
      (run Engine.answer e queries).1 = (run Database.answer {} queries).1 := by
  intro sink queries
  have hconfig : ({} : Config).validate = .ok () := by decide
  have hfits : sink.directory.Fits Catalog.reserved := by decide
  have hfresh : sink.directory.Fresh := Directory.fresh_root
  obtain ⟨e, hopen⟩ := Engine.exists_openOn hconfig hfresh hfits
  have hids (name : String) : e.idsTaken name queries < 2 ^ 64 - 2 :=
    (idsTakenIn_le_length ..).trans_lt (by decide)
  have htable : ∀ sql ∈ queries, (Statement.ofText sql).toOption.map (·.table) = some "t" := by
    decide +kernel
  have hsink : sink.NeverFails queries := by
    refine ⟨fun _ => rfl, fun _ => rfl, fun sql hm source table columns constraints hs => ?_⟩
    have ht := htable sql hm
    rw [hs] at ht
    obtain rfl : table = "t" := Option.some.inj ht
    rfl
  exact ⟨e, hopen, hfresh, hsink, hids, answers_as_database hopen hfresh queries hsink hids⟩

end RelStore
