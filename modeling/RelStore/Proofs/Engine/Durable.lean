import RelStore.Proofs.Engine.Runs

/-!
# What is in memory is on disk

Queries may be followed by reopenings in any order, and any call of the sink may fail. After
every run the catalog and the tables in memory are those on file, and the answers to the queries
are those of an engine that was never reopened (`memory_agrees_with_disk`).
-/

namespace RelStore

/-- What is asked of a session: a query, or to reopen its engine. -/
inductive Request where
  | query (sql : String)
  | reopen (order : Option UInt64)

/-- The queries among some requests. -/
def queries (requests : List Request) : List String :=
  requests.filterMap fun
    | .query sql => some sql
    | .reopen _ => none

/-- The answer of a session, if the request is a query. -/
def Session.handle (s : Session) : Request → Option (Except Error QueryResult) × Session
  | .query sql => (some (s.engine.answer sql).1, { s with engine := (s.engine.answer sql).2 })
  | .reopen order => (none, (s.reopen order).2)

/-- The answer of a machine, for which there is nothing to reopen. -/
def Machine.handle (m : Machine) : Request → Option (Except Error QueryResult) × Machine
  | .query sql => (some (m.answer sql).1, (m.answer sql).2)
  | .reopen _ => (none, m)

/-- An engine whose memory says what its files say. -/
structure Engine.OnDisk (e : Engine) : Prop where
  /-- The catalog's file lists the tables of the catalog, in their order. -/
  catalog : ∃ catalog, Catalog.load e.directory = .ok catalog ∧ catalog.tables = e.catalog.tables
  /-- The log of a listed table gives, with any order of the index, the rows that the engine holds
  or would load. Its next row id is behind all row ids of the log and not behind the one held. -/
  table : ∀ name ∈ e.catalog.tables, ∃ held, e.view name = .ok held ∧
    ∀ order, ∃ loaded, Table.load name order e.directory = .ok loaded ∧
      loaded.scan = held.scan ∧ loaded.nextId ≤ held.nextId ∧
      ∀ log, e.directory.lookup name = .file log →
        ∀ record ∈ Record.ofLog log, record.id < loaded.nextId

namespace Engine

variable {e : Engine} {m : Machine} {left : String → Nat}

theorem Agrees.onDisk (h : Agrees left e m) : e.OnDisk := by
  refine ⟨h.load_catalog, fun name hn => ?_⟩
  obtain ⟨t, log, -, ht, hfollows, hc, -⟩ := h.load_table hn ⟨3, le_rfl⟩
  refine ⟨t, ht, fun order => ?_⟩
  obtain ⟨t', log', loaded, ht', -, hc', hl, hfollows', hid⟩ := h.load_table hn order
  obtain rfl : t = t' := Except.ok.inj (ht.symm.trans ht')
  obtain rfl : log = log' := by
    rw [← Record.ofLog_encode log, ← hc, hc', Record.ofLog_encode]
  refine ⟨loaded, hl, hfollows'.scan.trans hfollows.scan.symm, hid, fun contents hf record hr => ?_⟩
  have hcontents : contents = log.flatMap Record.encode := by
    obtain ⟨hw, -, hfit⟩ := h.words name (h.names ▸ hn)
    rcases Directory.lookup_of_fits h.sink.flat hw ((h.sink.fits_iff name).2 hfit) with hk | ⟨hk, -⟩
    · rw [← hc]
      exact Lookup.file.inj (hf.symm.trans hk)
    · cases hf.symm.trans hk
  rw [hcontents, Record.ofLog_encode] at hr
  exact hfollows'.ids record hr

end Engine

namespace Session

variable {s : Session} {m : Machine} {left : String → Nat}

/-- The configuration of a session that is reopened with an order. -/
def configured (s : Session) (order : Option UInt64) : Config :=
  match order with
  | some order => { s.config with order }
  | none => s.config

theorem reopen_eq (s : Session) (order : Option UInt64) :
    s.reopen order =
      match Engine.openOn (s.configured order) s.engine.cancelAll.sink.dispose with
      | .ok engine => (.ok (), ⟨s.configured order,
          { engine with locks := { now := s.engine.cancelAll.locks.now } }⟩)
      | .error error => (.error error, ⟨s.configured order, s.engine.cancelAll⟩) := rfl

theorem cancelAll_agrees (h : Engine.Agrees left s.engine m) :
    Engine.Agrees left s.engine.cancelAll m :=
  h.moved (fun _ => le_rfl) h.sink rfl h.unlocked rfl fun _ _ t _ _ _ ht =>
    ⟨t, ht.contents, ht.view, ht.follows, ht.rows, ht.left⟩

/-- Reopening keeps what an engine agrees with, whether it succeeds or not. -/
theorem reopen_agrees (h : Engine.Agrees left s.engine m) (order : Option UInt64) :
    Engine.Agrees left (s.reopen order).2.engine m := by
  have hold := cancelAll_agrees h
  rw [reopen_eq]
  by_cases hv : (s.configured order).validate = .ok ()
  · obtain ⟨e, he, ha⟩ := hold.openOn hv
    rw [he]
    exact ha.called (fun _ => le_rfl) ha.sink rfl rfl
  · cases he : Engine.openOn (s.configured order) s.engine.cancelAll.sink.dispose with
    | error error => exact hold
    | ok e => exact absurd (Engine.openOn_eq_ok.1 he).1 hv

/-- Reopening succeeds with every order from three on. -/
theorem reopen_fst (h : Engine.Agrees left s.engine m) (hdir : s.config.dataDir ≠ "")
    {order : UInt64} (horder : 3 ≤ order) : (s.reopen (some order)).1 = .ok () := by
  have hv : (s.configured (some order)).validate = .ok () := by
    unfold configured Config.validate
    rw [if_neg (UInt64.not_lt.2 horder), if_neg hdir]
  obtain ⟨e, he, -⟩ := (cancelAll_agrees h).openOn hv
  rw [reopen_eq, he]

theorem dataDir_handle (s : Session) (request : Request) :
    (s.handle request).2.config.dataDir = s.config.dataDir := by
  cases request with
  | query sql => rfl
  | reopen order =>
    show (s.reopen order).2.config.dataDir = _
    rw [reopen_eq]
    split <;> cases order <;> rfl

/-- A request is answered by a session as by a machine that its engine agrees with. -/
theorem handle_agrees {request : Request} {rest : List Request}
    (h : Engine.Agrees (m.idsTaken · (queries (request :: rest))) s.engine m) :
    (s.handle request).1 = (m.handle request).1 ∧
      Engine.Agrees ((m.handle request).2.idsTaken · (queries rest)) (s.handle request).2.engine
        (m.handle request).2 := by
  cases request with
  | query sql =>
    obtain ⟨ha, hn⟩ := Engine.answer_agrees h sql fun _ => (Nat.add_comm _ _).le
    exact ⟨congrArg some ha, hn⟩
  | reopen order => exact ⟨rfl, reopen_agrees h order⟩

end Session

theorem Machine.answers_handle (m : Machine) (requests : List Request) :
    (run handle m requests).1.filterMap id = (run answer m (queries requests)).1 := by
  induction requests generalizing m with
  | nil => rfl
  | cons request rest ih =>
    cases request with
    | query sql => exact congrArg ((m.answer sql).1 :: ·) (ih _)
    | reopen order => exact ih m

/-- After any queries and reopenings of an engine that was opened on an empty directory, with any
calls of its sink failing: what is in memory is on disk; the engine can be reopened with every
order from three on; and the queries had the answers that they have without any reopening. -/
theorem memory_agrees_with_disk {config : Config} {sink : Sink} {e : Engine}
    (hopen : Engine.openOn config sink = .ok e) (hfresh : sink.directory.Fresh)
    (requests : List Request)
    (hids : ∀ name, e.idsTaken name (queries requests) < 2 ^ 64 - 2) :
    (run Session.handle ⟨config, e⟩ requests).2.engine.OnDisk ∧
      (∀ order, 3 ≤ order →
        ((run Session.handle ⟨config, e⟩ requests).2.reopen (some order)).1 = .ok ()) ∧
      (run Session.handle ⟨config, e⟩ requests).1.filterMap id =
        (run Engine.answer e (queries requests)).1 := by
  have h₀ : Engine.Agrees (e.idsTaken · (queries requests)) e ⟨{}, sink.port⟩ :=
    Engine.agrees_of_openOn hopen hfresh fun name => by have := hids name; omega
  have h : Engine.Agrees (Machine.idsTaken · ⟨{}, sink.port⟩ (queries requests)) e
      ⟨{}, sink.port⟩ := by
    rw [funext fun name => Engine.idsTaken_eq h₀ name]
    exact h₀
  have hdir : config.dataDir ≠ "" := by
    have hv := (Engine.openOn_eq_ok.1 hopen).1
    unfold Config.validate at hv
    split_ifs at hv
    assumption
  have hstep (request : Request) (rest : List Request) (s : Session) (m : Machine)
      (h : Engine.Agrees (m.idsTaken · (queries (request :: rest))) s.engine m ∧
        s.config.dataDir ≠ "") :
      (s.handle request).1 = (m.handle request).1 ∧
        Engine.Agrees ((m.handle request).2.idsTaken · (queries rest)) (s.handle request).2.engine
          (m.handle request).2 ∧ (s.handle request).2.config.dataDir ≠ "" := by
    rw [s.dataDir_handle]
    exact ⟨(Session.handle_agrees h.1).1, (Session.handle_agrees h.1).2, h.2⟩
  obtain ⟨ha, hend, hdir'⟩ := run_simulation
    (R := fun requests (s : Session) m =>
      Engine.Agrees (m.idsTaken · (queries requests)) s.engine m ∧ s.config.dataDir ≠ "")
    hstep requests (s := ⟨config, e⟩) (t := ⟨{}, sink.port⟩) ⟨h, hdir⟩
  refine ⟨hend.onDisk, fun order horder => Session.reopen_fst hend hdir' horder, ?_⟩
  rw [ha, Machine.answers_handle, (Engine.run_agrees (queries requests) h).1]

/-- The default configuration on a sink over the empty root that fails its third write: the one
of an INSERT. The engine is reopened before the row is inserted again. -/
theorem memory_agrees_with_disk_after_fault :
    let sink : Sink := { writer := { directory := .root }, faults := { write := (· == 2) } }
    let requests : List Request :=
      [.query "CREATE TABLE t (id INT)", .query "INSERT INTO t (id) VALUES (1)",
        .reopen (some 3), .query "INSERT INTO t (id) VALUES (1)", .query "SELECT id FROM t"]
    ∃ e, Engine.openOn {} sink = .ok e ∧ sink.directory.Fresh ∧
      (∀ name, e.idsTaken name (queries requests) < 2 ^ 64 - 2) ∧
      (run Session.handle ⟨{}, e⟩ requests).2.engine.OnDisk ∧
      (∀ order, 3 ≤ order →
        ((run Session.handle ⟨{}, e⟩ requests).2.reopen (some order)).1 = .ok ()) ∧
      (run Session.handle ⟨{}, e⟩ requests).1.filterMap id =
        (run Engine.answer e (queries requests)).1 := by
  intro sink requests
  have hconfig : ({} : Config).validate = .ok () := by decide
  have hfits : sink.directory.Fits Catalog.reserved := by decide
  have hfresh : sink.directory.Fresh := Directory.fresh_root
  obtain ⟨e, hopen⟩ := Engine.exists_openOn hconfig hfresh hfits
  have hids (name : String) : e.idsTaken name (queries requests) < 2 ^ 64 - 2 :=
    (idsTakenIn_le_length ..).trans_lt (by decide)
  exact ⟨e, hopen, hfresh, hids, memory_agrees_with_disk hopen hfresh requests hids⟩

end RelStore
