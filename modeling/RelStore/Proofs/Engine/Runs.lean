import RelStore.Engine.Session
import RelStore.Proofs.Engine.Statements
import RelStore.Proofs.Run

/-!
# Runs of an engine

An engine that agrees with a machine answers every run of queries as the machine does, as long as
the row ids last (`answer_agrees` is the step). A newly opened engine agrees with the machine of
an empty database (`agrees_of_openOn`), and one that is opened anew on the same files agrees with
whatever the one before agreed with (`Agrees.reopen`).
-/

namespace RelStore

open Sql (IsWord Statement)

/-- The number of row ids that a query takes of a table, where these tables are listed: one for an
INSERT into the table, if it is listed. -/
def idsTaken (tables : List String) (name sql : String) : Nat :=
  match Statement.ofText sql with
  | .ok ⟨_, table, .insert ..⟩ => if table = name ∧ name ∈ tables then 1 else 0
  | _ => 0

/-- The number of row ids of a table that are taken in a run of queries. -/
def idsTakenIn {σ ω : Type} (tables : σ → List String) (step : σ → String → ω × σ) (name : String) :
    σ → List String → Nat
  | _, [] => 0
  | s, sql :: rest => idsTaken (tables s) name sql + idsTakenIn tables step name (step s sql).2 rest

theorem idsTaken_le_one (tables : List String) (name sql : String) :
    idsTaken tables name sql ≤ 1 := by
  unfold idsTaken
  split
  · split_ifs <;> decide
  · exact Nat.zero_le 1

theorem idsTakenIn_le_length {σ ω : Type} (tables : σ → List String) (step : σ → String → ω × σ)
    (name : String) (s : σ) (queries : List String) :
    idsTakenIn tables step name s queries ≤ queries.length := by
  induction queries generalizing s with
  | nil => exact le_rfl
  | cons sql rest ih =>
    rw [idsTakenIn, List.length_cons, Nat.add_comm rest.length]
    exact Nat.add_le_add (idsTaken_le_one ..) (ih _)

namespace Engine

/-- The answer to a query. -/
def answer (e : Engine) (sql : String) : Except Error QueryResult × Engine :=
  match execute sql e with
  | .ok result e => (.ok result, e)
  | .error error e => (.error error, e)

/-- The number of row ids of a table that an engine takes in a run of queries. -/
def idsTaken (name : String) (e : Engine) (queries : List String) : Nat :=
  idsTakenIn (·.catalog.tables) answer name e queries

end Engine

/-- The number of row ids of a table that a machine takes in a run of queries. -/
def Machine.idsTaken (name : String) (m : Machine) (queries : List String) : Nat :=
  idsTakenIn (·.database.tables.keys) answer name m queries

namespace Engine

variable {e : Engine} {m : Machine} {left left' : String → Nat}

/-- A statement is answered by an engine as by a machine that it agrees with. -/
theorem executeStatement_agrees (h : Agrees left e m) {s : Statement} (hw : IsWord s.table)
    (hleft : ∀ name, left' name ≤ left name)
    (hinsert : ∀ columns values, s.action = .insert columns values →
      s.table ∈ m.database.tables.keys → left' s.table + 1 ≤ left s.table) :
    ∃ e', executeStatement s e = result (m.execute s).1 e' ∧ Agrees left' e' (m.execute s).2 := by
  obtain ⟨source, name, action⟩ := s
  cases hg : m.database.tables.get? name with
  | some rows =>
    have hmem := OrderedMap.mem_keys_of_get? hg
    cases action with
    | insert columns values => exact insert_agrees h hg hleft (hinsert columns values rfl hmem)
    | select columns condition => exact select_agrees h hg hleft
    | delete condition => exact delete_agrees h hg hleft
    | update assignments condition => exact update_agrees h hg hleft
    | createTable columns constraints => exact createTable_agrees h hw hleft
  | none =>
    have hn := OrderedMap.get?_eq_none_iff.1 hg
    have hrefused (hne : ∀ columns constraints, action ≠ .createTable columns constraints) :
        m.execute ⟨source, name, action⟩ = (.error (.unknownTable name), m) := by
      unfold Machine.execute Database.execute
      dsimp only
      rw [hg]
      cases action with
      | createTable columns constraints => exact absurd rfl (hne _ _)
      | _ => rfl
    cases action with
    | createTable columns constraints => exact createTable_agrees h hw hleft
    | _ =>
      obtain ⟨locks, hfree, hl⟩ := h.refuses hn _
      rw [hrefused nofun]
      exact ⟨_, hl, h.called hleft h.sink rfl hfree⟩

/-- A query is answered by an engine as by a machine that it agrees with. -/
theorem answer_agrees (h : Agrees left e m) (sql : String)
    (hleft : ∀ name, left' name + RelStore.idsTaken m.database.tables.keys name sql ≤ left name) :
    (e.answer sql).1 = (m.answer sql).1 ∧ Agrees left' (e.answer sql).2 (m.answer sql).2 := by
  unfold answer execute Machine.answer
  cases hs : Statement.ofText sql with
  | error error =>
    exact ⟨rfl, h.called (fun name => (Nat.le_add_right _ _).trans (hleft name)) h.sink rfl h.unlocked⟩
  | ok s =>
    obtain ⟨e', he, ha⟩ := executeStatement_agrees h (Sql.isWord_table hs)
      (fun name => (Nat.le_add_right _ _).trans (hleft name)) fun columns values haction hmem => by
        have := hleft s.table
        unfold RelStore.idsTaken at this
        rw [hs] at this
        obtain ⟨source, name, action⟩ := s
        obtain rfl : action = _ := haction
        dsimp only at this
        rwa [if_pos ⟨rfl, hmem⟩] at this
    dsimp only
    rw [he]
    cases h1 : (m.execute s).1 with
    | ok answer => exact ⟨rfl, ha⟩
    | error error => exact ⟨rfl, ha⟩

/-- A run of queries is answered by an engine as by a machine that it agrees with. -/
theorem run_agrees (queries : List String) (h : Agrees (m.idsTaken · queries) e m) :
    (run answer e queries).1 = (run Machine.answer m queries).1 ∧
      Agrees (fun _ => 0) (run answer e queries).2 (run Machine.answer m queries).2 :=
  run_simulation (R := fun queries e m => Agrees (m.idsTaken · queries) e m)
    (fun sql _ _ _ h => answer_agrees h sql fun _ => (Nat.add_comm _ _).le) queries h

/-- An engine and a machine that agree take as many row ids. -/
theorem idsTaken_eq {queries : List String} (h : Agrees (e.idsTaken · queries) e m)
    (name : String) : m.idsTaken name queries = e.idsTaken name queries := by
  induction queries generalizing e m with
  | nil => rfl
  | cons sql rest ih =>
    have ha : _ ∧ Agrees ((e.answer sql).2.idsTaken · rest) _ _ := answer_agrees h sql fun name => by
      rw [← h.names]
      exact (Nat.add_comm _ _).le
    show RelStore.idsTaken m.database.tables.keys name sql + (m.answer sql).2.idsTaken name rest =
      RelStore.idsTaken e.catalog.tables name sql + (e.answer sql).2.idsTaken name rest
    rw [ih ha.2, h.names]

/-! ## Opening -/

theorem bind_eq_ok {α β : Type} {x : Except Error α} {f : α → Except Error β} {b : β} :
    (x >>= f) = .ok b ↔ ∃ a, x = .ok a ∧ f a = .ok b := by
  cases x with
  | error error => exact ⟨nofun, fun ⟨_, h, _⟩ => nomatch h⟩
  | ok a => exact ⟨fun h => ⟨a, rfl, h⟩, fun ⟨_, ha, h⟩ => by cases ha; exact h⟩

theorem openOn_eq_ok {config : Config} {sink : Sink} :
    openOn config sink = .ok e ↔ config.validate = .ok () ∧
      ∃ order catalog, Index.Order.ofNat config.order.toNat = .ok order ∧
        Catalog.load sink.directory = .ok catalog ∧
        { order, lockWait := config.lockWait.map (·.toNat), sink, catalog } = e := by
  unfold openOn ofSink
  constructor
  · intro h
    obtain ⟨⟨⟩, hv, h⟩ := bind_eq_ok.1 h
    obtain ⟨order, ho, h⟩ := bind_eq_ok.1 h
    obtain ⟨catalog, hc, h⟩ := bind_eq_ok.1 h
    exact ⟨hv, order, catalog, ho, hc, Except.ok.inj h⟩
  · rintro ⟨hv, order, catalog, ho, hc, rfl⟩
    exact bind_eq_ok.2 ⟨(), hv, bind_eq_ok.2 ⟨order, ho, bind_eq_ok.2 ⟨catalog, hc, rfl⟩⟩⟩

theorem three_le_of_validate {config : Config} (h : config.validate = .ok ()) :
    3 ≤ config.order.toNat := by
  unfold Config.validate at h
  by_contra hn
  have hlt : config.order < 3 := by
    rw [UInt64.lt_iff_toNat_lt]
    exact Nat.lt_of_not_le hn
  rw [if_pos hlt] at h
  cases h

/-- A valid configuration opens an engine on every sink over an empty directory. -/
theorem exists_openOn {config : Config} {sink : Sink} (hconfig : config.validate = .ok ())
    (hfresh : sink.directory.Fresh) (hfits : sink.directory.Fits Catalog.reserved) :
    ∃ e, openOn config sink = .ok e := by
  have h3 := three_le_of_validate hconfig
  have hholds : sink.Holds sink.port sink.directory.contents := ⟨hfresh.flat.1, rfl, rfl⟩
  have hnone : sink.directory.contents Catalog.reserved =
      ([] : List String).flatMap Catalog.record := hfresh.flat.2 _
  obtain ⟨catalog, hc, -⟩ := load_catalog hholds ((hholds.fits_iff _).1 hfits) hnone (by simp)
    List.nodup_nil
  exact ⟨_, openOn_eq_ok.2 ⟨hconfig, ⟨_, h3⟩, catalog, dif_pos h3, hc, rfl⟩⟩

/-- An engine that was opened on an empty directory agrees with an empty database. -/
theorem agrees_of_openOn {config : Config} {sink : Sink} (hopen : openOn config sink = .ok e)
    (hfresh : sink.directory.Fresh) (hleft : ∀ name, 1 + left name < 2 ^ 64) :
    Agrees left e ⟨{}, sink.port⟩ := by
  obtain ⟨-, order, catalog, -, hc, rfl⟩ := openOn_eq_ok.1 hopen
  obtain ⟨hflat, hempty⟩ := hfresh.flat
  have hholds : sink.Holds sink.port sink.directory.contents := ⟨hflat, rfl, rfl⟩
  have hfits : sink.port.fits Catalog.reserved = true := by
    by_contra hn
    have hl := Directory.lookup_of_not_fits hflat isWord_reserved
      (mt (hholds.fits_iff Catalog.reserved).1 hn)
    unfold Catalog.load at hc
    rw [hl] at hc
    cases hc
  have hnone : sink.directory.contents Catalog.reserved =
      ([] : List String).flatMap Catalog.record := hempty _
  obtain ⟨catalog', hc', hnames⟩ := load_catalog hholds hfits hnone (by simp) List.nodup_nil
  obtain rfl : catalog = catalog' := Except.ok.inj (hc.symm.trans hc')
  exact ⟨rfl, hholds, hfits, hnames, hnone, fun _ hm => absurd hm List.not_mem_nil,
    fun _ _ hg => (nomatch hg), fun name _ _ _ => ⟨hempty name, hleft name⟩⟩

theorem Agrees.load_catalog (h : Agrees left e m) :
    ∃ catalog, Catalog.load e.directory = .ok catalog ∧ catalog.tables = e.catalog.tables := by
  obtain ⟨catalog, hc, hnames⟩ := RelStore.load_catalog h.sink h.fits h.catalog
    (fun name hm => (h.words name hm).1) m.database.tables.nodup_keys
  exact ⟨catalog, hc, hnames.trans h.names.symm⟩

theorem Agrees.load_table (h : Agrees left e m) {name : String} (hn : name ∈ e.catalog.tables)
    (order : Index.Order) :
    ∃ t log loaded, e.view name = .ok t ∧ t.Follows log ∧
      e.directory.contents name = log.flatMap Record.encode ∧
      Table.load name order e.directory = .ok loaded ∧ loaded.Follows log ∧
      loaded.nextId ≤ t.nextId := by
  rw [h.names] at hn
  obtain ⟨rows, hg⟩ := Option.isSome_iff_exists.1 (OrderedMap.isSome_get?_iff.2 hn)
  obtain ⟨t, log, ht⟩ := h.table name rows hg
  obtain ⟨hw, -, hf⟩ := h.words name hn
  obtain ⟨loaded, hl, hfollows, hid⟩ := ht.follows.load name order
  refine ⟨t, log, loaded, ht.view, ht.follows, ht.contents, ?_, hfollows, hid⟩
  exact (RelStore.load_table h.sink hw hf order).trans (ht.contents ▸ hl)

/-- An engine that is opened on the files of another agrees with what the other agrees with. -/
theorem Agrees.openOn (h : Agrees left e m) {config : Config} (hconfig : config.validate = .ok ()) :
    ∃ e', openOn config e.sink.dispose = .ok e' ∧ Agrees left e' m := by
  have h3 := three_le_of_validate hconfig
  obtain ⟨catalog, hc, hnames⟩ := h.load_catalog
  refine ⟨_, openOn_eq_ok.2 ⟨hconfig, ⟨_, h3⟩, catalog, dif_pos h3, hc, rfl⟩, ?_⟩
  have hdispose : e.sink.dispose.Holds m.port e.directory.contents :=
    ⟨h.sink.flat, h.sink.port, rfl⟩
  refine h.moved (fun _ => le_rfl) hdispose rfl rfl hnames fun name rows t log hw hf ht => ?_
  obtain ⟨loaded, hl, hfollows, hid⟩ := ht.follows.load name ⟨_, h3⟩
  refine ⟨loaded, ht.contents, ?_, hfollows, ?_, ?_⟩
  · show Table.load name ⟨_, h3⟩ e.directory = .ok loaded
    exact (RelStore.load_table h.sink hw hf _).trans (ht.contents ▸ hl)
  · rw [hfollows.scan, ← ht.follows.scan, ht.rows]
  · have := UInt64.le_iff_toNat_le.1 hid
    have := ht.left
    omega

end Engine

end RelStore
