import RelStore.Proofs.Engine.Runs
import RelStore.Proofs.Locks

/-!
# Behind the lock

Whatever a statement does while it holds its table, it looks neither at the locks nor at what
waits for them, leaves both alone and never fails for a lock (`Blind`). So a statement on a free
table takes one lock, gives it back and for the rest does what its step does anywhere
(`withLock_of_free`), and on a locked table it does nothing (`withLock_of_locked`).
-/

namespace RelStore

open Sql (Statement)

/-- An error that a lock is the reason of. -/
def Error.OfLocks : Error → Prop
  | .tableAlreadyLocked _ | .lockTimeout _ => True
  | _ => False

/-- A target is refused for no reason but the files. -/
theorem Sink.setTarget_error {s s' : Sink} {name : String} {error : Error}
    (h : s.setTarget name = (.error error, s')) : error = .io := by
  unfold setTarget Writer.setTarget at h
  dsimp only at h
  split_ifs at h
  · exact (Except.error.inj (Prod.mk.inj h).1).symm
  · split at h
    · cases (Prod.mk.inj h).1
    · exact (Except.error.inj (Prod.mk.inj h).1).symm

/-- A table is not loaded for no reason but its file. -/
theorem Table.not_ofLocks_of_load {name : String} {order : Index.Order} {d : Directory}
    {error : Error} (h : load name order d = .error error) : ¬ error.OfLocks := by
  rcases load_cases name order d with ⟨records, hl⟩ | hl | ⟨name', line, hl⟩ <;> rw [hl] at h <;>
    cases h <;> exact not_false

namespace Engine

/-- The engine with the locks of another and with what waits there. -/
def aside (e o : Engine) : Engine :=
  { e with lockWait := o.lockWait, locks := o.locks, suspended := o.suspended }

/-- What comes of a step, with its engine changed. -/
def mapState (f : Engine → Engine) :
    EStateM.Result Error Engine α → EStateM.Result Error Engine α
  | .ok a e => .ok a (f e)
  | .error error e => .error error (f e)

/-- A step that has nothing to do with locks. -/
structure Blind (step : EngineM α) : Prop where
  commutes (e o : Engine) : step (e.aside o) = mapState (·.aside o) (step e)
  error {e e' : Engine} {error : Error} : step e = .error error e' → ¬ error.OfLocks

/-! ## Steps without locks -/

section

variable {α β : Type} {step : EngineM α}

theorem Blind.pure (a : α) : Blind (pure a : EngineM α) := ⟨fun _ _ => rfl, nofun⟩

theorem Blind.throw {error : Error} {f : α → EngineM β} (h : ¬ error.OfLocks) :
    Blind (throw error >>= f) :=
  ⟨fun _ _ => rfl, fun hs => by cases hs; exact h⟩

theorem Blind.bind {f : α → EngineM β} (h : Blind step) (hf : ∀ a, Blind (f a)) :
    Blind (step >>= f) where
  commutes e o := by
    cases hs : step e with
    | ok a e₁ =>
      have ho : step (e.aside o) = .ok a (e₁.aside o) := by rw [h.commutes, hs]; rfl
      rw [bind_of_ok hs, bind_of_ok ho, (hf a).commutes]
    | error error e₁ =>
      have ho : step (e.aside o) = .error error (e₁.aside o) := by rw [h.commutes, hs]; rfl
      rw [bind_of_error hs, bind_of_error ho]
      rfl
  error {e e' error} hs := by
    cases h₁ : step e with
    | ok a e₁ => rw [bind_of_ok h₁] at hs; exact (hf a).error hs
    | error error₁ e₁ =>
      rw [bind_of_error h₁] at hs
      cases hs
      exact h.error h₁

/-- A step that depends on the engine, its locks apart. -/
theorem Blind.get_bind {f : Engine → EngineM α} (hf : ∀ e, Blind (f e))
    (ho : ∀ e o, f (e.aside o) = f e) : Blind (get >>= f) where
  commutes e o := by
    show f (e.aside o) (e.aside o) = mapState _ (f e e)
    rw [ho, (hf e).commutes]
  error {e e' error} hs := (hf e).error (show f e e = _ from hs)

theorem Blind.modify {f : Engine → Engine} (ho : ∀ e o, f (e.aside o) = (f e).aside o) :
    Blind (modify f : EngineM PUnit) where
  commutes e o := by
    show EStateM.Result.ok _ (f (e.aside o)) = EStateM.Result.ok _ ((f e).aside o)
    rw [ho]
  error := nofun

theorem Blind.append (table : String) (bytes : Text.Utf8.Bytes) : Blind (append table bytes) where
  commutes e o := by
    have hsink : (e.aside o).sink = e.sink := rfl
    unfold Engine.append
    rw [hsink]
    obtain ⟨_ | _, sink⟩ := e.sink.setTarget table
    · rfl
    · dsimp only
      obtain ⟨_ | _, sink⟩ := sink.write bytes <;> rfl
  error {e e' error} hs := by
    unfold Engine.append at hs
    cases ht : e.sink.setTarget table with
    | mk answer sink =>
      rw [ht] at hs
      cases answer with
      | error cause =>
        cases hs
        rw [Sink.setTarget_error ht]
        exact not_false
      | ok _ =>
        dsimp only at hs
        cases hw : sink.write bytes with
        | mk taken sink =>
          rw [hw] at hs
          cases taken <;> cases hs
          exact not_false

theorem Blind.setTable (name : String) (t : Table) : Blind (setTable name t) :=
  .modify fun _ _ => rfl

theorem Blind.ensureUserTable (name : String) : Blind (ensureUserTable name) where
  commutes e o := by
    have hcatalog : (e.aside o).catalog = e.catalog := rfl
    unfold Engine.ensureUserTable
    rw [hcatalog]
    by_cases h : name ≠ Catalog.reserved ∧ e.catalog.contains name
    · rw [if_pos h, if_pos h]; rfl
    · rw [if_neg h, if_neg h]; rfl
  error {e e' error} hs := by
    unfold Engine.ensureUserTable at hs
    split_ifs at hs
    cases hs
    exact not_false

theorem Blind.table (name : String) : Blind (table name) where
  commutes e o := by
    unfold Engine.table
    dsimp only [aside, directory]
    cases e.tables.get? name with
    | some t => rfl
    | none =>
      dsimp only
      cases Table.load name e.order e.sink.directory <;> rfl
  error {e e' error} hs := by
    unfold Engine.table at hs
    cases hg : e.tables.get? name with
    | some t => rw [hg] at hs; cases hs
    | none =>
      rw [hg] at hs
      dsimp only at hs
      cases hl : Table.load name e.order e.directory with
      | ok t => rw [hl] at hs; cases hs
      | error cause =>
        rw [hl] at hs
        cases hs
        exact Table.not_ofLocks_of_load hl

theorem Blind.applyLogged (name : String) (t : Table) (records : List Record) :
    Blind (applyLogged name t records) := by
  unfold Engine.applyLogged
  split_ifs
  · exact .bind (.append ..) fun _ => .setTable ..
  · exact .pure _

end

/-! ## Statements -/

/-- What CREATE TABLE does while it holds the name of its table has nothing to do with locks. -/
theorem blind_creating (name : String) : Blind (creating name) := by
  refine .get_bind (fun e => ?_) fun e o => rfl
  dsimp only
  split_ifs
  · exact .throw not_false
  · refine .bind (.append ..) fun _ => .bind (.append ..) fun _ =>
      .bind (.modify fun _ _ => rfl) fun _ => ?_
    exact .get_bind (fun e => .bind (.setTable ..) fun _ => .pure _) fun e o => rfl

/-- What SELECT does with its table has nothing to do with locks. -/
theorem blind_selectFrom (name : String) (columns : List String)
    (condition : Option Sql.Condition) (t : Table) :
    Blind (selectFrom name columns condition t) := by
  unfold selectFrom
  split_ifs
  · split
    · exact .throw not_false
    · exact .pure _
  · exact .pure _

/-- A statement takes the lock of its table for all that it does, and nothing of that has to do
with locks. -/
theorem executeStatement_eq_withLock (s : Statement) :
    ∃ step, executeStatement s = withLock s.table step ∧ Blind step := by
  obtain ⟨source, name, action⟩ := s
  cases action with
  | createTable columns constraints => exact ⟨_, rfl, blind_creating name⟩
  | insert columns values =>
    exact ⟨_, rfl, .bind (.ensureUserTable name) fun _ => .bind (.table name) fun t =>
      .bind (.setTable ..) fun _ => .bind (.append ..) fun _ => .bind (.setTable ..) fun _ =>
        .pure _⟩
  | select columns condition =>
    exact ⟨_, rfl, .bind (.ensureUserTable name) fun _ => .bind (.table name) fun t =>
      blind_selectFrom name columns condition t⟩
  | delete condition =>
    exact ⟨_, rfl, .bind (.ensureUserTable name) fun _ => .bind (.table name) fun t =>
      .bind (.applyLogged ..) fun _ => .pure _⟩
  | update assignments condition =>
    exact ⟨_, rfl, .bind (.ensureUserTable name) fun _ => .bind (.table name) fun t =>
      .bind (.applyLogged ..) fun _ => .pure _⟩

/-! ## Statements on tables that are free or locked -/

variable {e : Engine}

/-- On a locked table a step does not begin. -/
theorem withLock_of_locked {name : String} (h : e.locks.isLocked name = true) (step : EngineM α) :
    withLock name step e = .error (.tableAlreadyLocked name) e := by
  unfold withLock Locks.lock?
  rw [if_pos h]

/-- On a free table a step takes the next lock and gives it back. -/
theorem withLock_of_free {name : String} {step : EngineM α} (hb : Blind step)
    (h : e.locks.isLocked name = false) :
    withLock name step e = mapState (·.aside { e with locks := e.locks.passed }) (step e) := by
  have hrun : withLock name step e =
      mapState (fun e' => { e' with locks := e'.locks.release name })
        (step (e.aside { e with locks := e.locks.taken name })) := by
    unfold withLock
    rw [Locks.lock?_of_free h]
    show (match step (e.aside { e with locks := e.locks.taken name }) with
      | .ok a e => _ | .error error e => _) = _
    cases step (e.aside { e with locks := e.locks.taken name }) <;> rfl
  rw [hrun, hb.commutes, ← Locks.release_taken h]
  cases step e <;> rfl

variable {sql : String} {s : Statement}

theorem executeStatement_eq_result (hs : Statement.ofText sql = .ok s) (e : Engine) :
    executeStatement s e = result (e.answer sql).1 (e.answer sql).2 := by
  unfold answer execute
  rw [hs]
  dsimp only
  cases executeStatement s e <;> rfl

theorem answer_of_error {error : Error} (hs : Statement.ofText sql = .error error) (e : Engine) :
    e.answer sql = (.error error, e) := by
  unfold answer execute
  rw [hs]

/-- A statement on a locked table is refused, and nothing changes. -/
theorem answer_of_locked (hs : Statement.ofText sql = .ok s) (h : e.locks.isLocked s.table = true) :
    e.answer sql = (.error (.tableAlreadyLocked s.table), e) := by
  obtain ⟨step, hstep, -⟩ := executeStatement_eq_withLock s
  unfold answer execute
  rw [hs]
  dsimp only
  rw [hstep, withLock_of_locked h]

/-- A statement on a free table takes one lock and gives it back, leaves what waits alone and
does not fail for a lock. -/
theorem answer_of_free (hs : Statement.ofText sql = .ok s) (h : e.locks.isLocked s.table = false) :
    (e.answer sql).2 = (e.answer sql).2.aside { e with locks := e.locks.passed } ∧
      ∀ error, (e.answer sql).1 = .error error → ¬ error.OfLocks := by
  obtain ⟨step, hstep, hblind⟩ := executeStatement_eq_withLock s
  unfold answer execute
  rw [hs]
  dsimp only
  rw [hstep, withLock_of_free hblind h]
  cases he : step e with
  | ok a e' => exact ⟨rfl, nofun⟩
  | error error e' =>
    refine ⟨rfl, fun error' heq => ?_⟩
    cases heq
    exact hblind.error he

/-- A query is answered in the same way if nothing waits. -/
theorem answer_cancelAll (sql : String) (e : Engine) :
    e.cancelAll.answer sql = ((e.answer sql).1, (e.answer sql).2.cancelAll) := by
  cases hs : Statement.ofText sql with
  | error error => rw [answer_of_error hs, answer_of_error hs]
  | ok s =>
    cases h : e.locks.isLocked s.table with
    | true =>
      have h' : e.cancelAll.locks.isLocked s.table = true := h
      rw [answer_of_locked hs h, answer_of_locked hs h']
    | false =>
      obtain ⟨step, hstep, hblind⟩ := executeStatement_eq_withLock s
      have h' : e.cancelAll.locks.isLocked s.table = false := h
      have hclear : step e.cancelAll = mapState (·.aside e.cancelAll) (step e) :=
        hblind.commutes e e.cancelAll
      unfold answer execute
      rw [hs]
      dsimp only
      rw [hstep, withLock_of_free hblind h, withLock_of_free hblind h', hclear]
      cases step e <;> rfl

end Engine

end RelStore
