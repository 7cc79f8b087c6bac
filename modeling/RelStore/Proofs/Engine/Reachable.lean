import RelStore.Proofs.Engine.Failure

/-!
# All or nothing

Wherever an engine comes to, on any files, with any faults and behind any calls (`Reachable`), the
rows in memory stand in valid trees (`Reachable.sound`). There a statement does all that it has to
or fails and leaves everything as it was (`AllOrNothing`).
-/

namespace RelStore

open Sql (IsWord Statement)
open Text.Utf8 (Bytes)

namespace Table

theorem valid_of_load {name : String} {order : Index.Order} {d : Directory} {t : Table}
    (h : load name order d = .ok t) : t.rows.Valid := by
  have hempty : (empty name order).rows.Valid := Index.BPlusTree.valid_empty order
  rcases load_cases name order d with ⟨records, hl⟩ | hl | ⟨name', line, hl⟩ <;> rw [hl] at h
  · cases h
    exact (foldl_apply hempty records).1
  · cases h
  · cases h

end Table

namespace Engine

/-! ## Valid trees in memory -/

/-- All rows in memory stand in valid trees. -/
def Sound (e : Engine) : Prop := ∀ name t, e.tables.get? name = some t → t.rows.Valid

/-- A step that keeps an engine sound, and what holds of its answer. -/
structure Keeps {α : Type} (Q : α → Prop) (step : EngineM α) : Prop where
  ok {e e' : Engine} {a : α} : e.Sound → step e = .ok a e' → Q a ∧ e'.Sound
  error {e e' : Engine} {error : Error} : e.Sound → step e = .error error e' → e'.Sound

theorem Sound.view {e : Engine} (h : e.Sound) {name : String} {t : Table}
    (hv : e.view name = .ok t) : t.rows.Valid := by
  unfold Engine.view at hv
  cases hg : e.tables.get? name with
  | some t' => rw [hg] at hv; cases hv; exact h name t hg
  | none => rw [hg] at hv; exact Table.valid_of_load hv

theorem Sound.setTable {e : Engine} (h : e.Sound) {name : String} {t : Table}
    (ht : t.rows.Valid) : Sound { e with tables := e.tables.insert name t } := by
  intro other t' hg
  dsimp only at hg
  rw [OrderedMap.get?_insert] at hg
  split_ifs at hg
  · cases hg; exact ht
  · exact h other t' hg

namespace Keeps

variable {α β : Type} {Q : α → Prop} {step : EngineM α} {name : String} {t : Table}

theorem pure {a : α} (h : Q a) : Keeps Q (pure a : EngineM α) :=
  ⟨fun hsound hs => by cases hs; exact ⟨h, hsound⟩, fun _ hs => by cases hs⟩

theorem throw {R : β → Prop} (error : Error) (f : α → EngineM β) :
    Keeps R (throw error >>= f) where
  ok _ hs := by cases hs
  error hsound hs := by
    cases hs
    exact hsound

theorem bind {R : β → Prop} {f : α → EngineM β} (h : Keeps Q step) (hf : ∀ a, Q a → Keeps R (f a)) :
    Keeps R (step >>= f) where
  ok hsound hs := by
    obtain ⟨a, e₁, h₁, h₂⟩ := of_bind_eq_ok hs
    obtain ⟨ha, hsound₁⟩ := h.ok hsound h₁
    exact (hf a ha).ok hsound₁ h₂
  error hsound hs := by
    rcases of_bind_eq_error hs with h₁ | ⟨a, e₁, h₁, h₂⟩
    · exact h.error hsound h₁
    · obtain ⟨ha, hsound₁⟩ := h.ok hsound h₁
      exact (hf a ha).error hsound₁ h₂

theorem get_bind {f : Engine → EngineM α} (hf : ∀ e, Keeps Q (f e)) : Keeps Q (get >>= f) :=
  ⟨fun {e _ _} hsound hs => (hf e).ok hsound hs, fun {e _ _} hsound hs => (hf e).error hsound hs⟩

theorem ensureUserTable (name : String) : Keeps (fun _ => True) (ensureUserTable name) :=
  ⟨fun hsound hs => ⟨trivial, ensureUserTable_of_ok hs ▸ hsound⟩,
    fun hsound hs => ensureUserTable_of_error hs ▸ hsound⟩

theorem table (name : String) : Keeps (fun t => t.rows.Valid) (table name) where
  ok {e e' t} hsound hs := by
    obtain ⟨hview, tables, rfl, hget, hother⟩ := table_of_ok hs
    have ht := hsound.view hview
    refine ⟨ht, fun other t' hg => ?_⟩
    by_cases hne : other = name
    · subst hne
      rw [hget] at hg
      cases hg
      exact ht
    · rw [hother other hne] at hg
      exact hsound other t' hg
  error hsound hs := table_of_error hs ▸ hsound

theorem setTable (ht : t.rows.Valid) : Keeps (fun _ => True) (setTable name t) :=
  ⟨fun hsound hs => by cases hs; exact ⟨trivial, hsound.setTable ht⟩, fun _ hs => by cases hs⟩

theorem append (name : String) (bytes : Bytes) : Keeps (fun _ => True) (append name bytes) := by
  have hrun (e : Engine) :
      ∃ answer sink, Engine.append name bytes e = result answer { e with sink } := by
    obtain ⟨answer, sink, hr⟩ := append_of_sink e.sink name bytes
    exact ⟨answer, sink, hr e rfl⟩
  constructor
  · intro e e' a hsound hs
    obtain ⟨_ | _, sink, hr⟩ := hrun e
    · rw [hr] at hs; cases hs
    · rw [hr] at hs; cases hs; exact ⟨trivial, hsound⟩
  · intro e e' error hsound hs
    obtain ⟨_ | _, sink, hr⟩ := hrun e
    · rw [hr] at hs; cases hs; exact hsound
    · rw [hr] at hs; cases hs

theorem applyLogged (ht : t.rows.Valid) (records : List Record) :
    Keeps (fun _ => True) (applyLogged name t records) := by
  unfold Engine.applyLogged
  split_ifs
  · exact (append name _).bind fun _ _ => setTable (Table.foldl_apply ht records).1
  · exact pure trivial

theorem withLock (h : Keeps Q step) (name : String) : Keeps Q (withLock name step) where
  ok {e e' a} hsound hs := by
    obtain ⟨-, e₁, hstep, rfl⟩ := withLock_of_ok hs
    obtain ⟨ha, hsound₁⟩ := h.ok (e := { e with locks := e.locks.taken name }) hsound hstep
    exact ⟨ha, hsound₁⟩
  error {e e' error} hsound hs := by
    rcases withLock_of_error hs with ⟨-, rfl⟩ | ⟨-, e₁, hstep, rfl⟩
    · exact hsound
    · have hsound₁ := h.error (e := { e with locks := e.locks.taken name }) hsound hstep
      exact hsound₁

end Keeps

/-- Any statement keeps an engine sound. -/
theorem keeps_executeStatement (s : Statement) : Keeps (fun _ => True) (executeStatement s) := by
  obtain ⟨source, name, action⟩ := s
  cases action with
  | createTable columns constraints =>
    refine .withLock (.get_bind fun e => ?_) name
    dsimp only
    split_ifs
    · exact .throw ..
    · refine (Keeps.append ..).bind fun _ _ => (Keeps.append ..).bind fun _ _ => ?_
      refine Keeps.bind (Q := fun _ => True) ⟨?_, ?_⟩ fun _ _ => .get_bind fun e =>
        (Keeps.setTable (Index.BPlusTree.valid_empty e.order)).bind fun _ _ => .pure trivial
      · intro e e' a hsound hs
        cases hs
        exact ⟨trivial, hsound⟩
      · intro e e' error hsound hs
        cases hs
  | insert columns values =>
    exact .withLock ((Keeps.ensureUserTable name).bind fun _ _ =>
      (Keeps.table name).bind fun t ht => (Keeps.setTable (t := t.allocate.2) ht).bind fun _ _ =>
        (Keeps.append ..).bind fun _ _ =>
          (Keeps.setTable (Table.valid_apply (t := t.allocate.2) ht _)).bind fun _ _ =>
            .pure trivial) name
  | select columns condition =>
    refine .withLock ((Keeps.ensureUserTable name).bind fun _ _ =>
      (Keeps.table name).bind fun t ht => ?_) name
    show Keeps _ (selectFrom name columns condition t)
    unfold selectFrom
    split_ifs
    · split
      · exact .throw ..
      · exact .pure trivial
    · exact .pure trivial
  | delete condition =>
    exact .withLock ((Keeps.ensureUserTable name).bind fun _ _ =>
      (Keeps.table name).bind fun t ht =>
        (Keeps.applyLogged ht _).bind fun _ _ => .pure trivial) name
  | update assignments condition =>
    exact .withLock ((Keeps.ensureUserTable name).bind fun _ _ =>
      (Keeps.table name).bind fun t ht =>
        (Keeps.applyLogged ht _).bind fun _ _ => .pure trivial) name

/-! ## Where engines come to -/

/-- Engines that were opened on any files, with any faults, and come to where they are by any
calls. Their files and their faults may change at any time, and whoever waits may be sent away. -/
inductive Reachable : Engine → Prop
  | opened {config : Config} {sink : Sink} {e : Engine} : openOn config sink = .ok e → Reachable e
  | called {e : Engine} (call : Call) : Reachable e → Reachable (e.react call).2
  | cancelled {e : Engine} : Reachable e → Reachable e.cancelAll
  | changed {e : Engine} (sink : Sink) : Reachable e → Reachable { e with sink }

variable {e : Engine} {name sql : String} {s : Statement}

theorem Sound.answer (h : e.Sound) (sql : String) : (e.answer sql).2.Sound := by
  unfold Engine.answer execute
  cases hs : Statement.ofText sql with
  | error error => exact h
  | ok s =>
    dsimp only
    cases hr : executeStatement s e with
    | ok result e' => exact ((keeps_executeStatement s).ok h hr).2
    | error error e' => exact (keeps_executeStatement s).error h hr

theorem Sound.attempt (h : e.Sound) (name : String) (s : Statement) :
    (e.attempt name s).2.Sound := by
  unfold Engine.attempt
  cases hr : executeStatement s e with
  | ok result e' => exact ((keeps_executeStatement s).ok h hr).2
  | error error e' =>
    have hsound := (keeps_executeStatement s).error h hr
    cases error with
    | tableAlreadyLocked table =>
      dsimp only
      rcases e'.locks.wait name table e'.lockWait with ⟨_ | ⟨_ | _⟩, _⟩ <;> exact hsound
    | _ => exact hsound

theorem Sound.start (h : e.Sound) (name sql : String) : (e.start name sql).2.Sound := by
  unfold Engine.start
  cases Statement.ofText sql with
  | error error => exact h
  | ok s => exact Sound.attempt (e := e.forget name) h name s

theorem Sound.poll (h : e.Sound) {r : Poll QueryResult × Engine} (hr : e.poll name = some r) :
    r.2.Sound := by
  unfold Engine.poll at hr
  split at hr
  · next s locks _ _ =>
    obtain rfl := Option.some.inj hr
    exact Sound.attempt (e := { e with locks }) h name s
  · obtain rfl := Option.some.inj hr
    exact h
  · obtain rfl := Option.some.inj hr
    exact h
  · cases hr

theorem Sound.setLocks (h : e.Sound) (answer : Except Error Locks) :
    (e.setLocks answer).2.Sound := by
  cases answer <;> exact h

theorem Sound.react (h : e.Sound) (call : Call) : (e.react call).2.Sound := by
  cases call with
  | start name sql => exact h.start name sql
  | poll name =>
    unfold Engine.react
    dsimp only
    cases hr : e.poll name with
    | none => exact h
    | some r => exact h.poll hr
  | cancel name | advance ms | release table | dropGuard name => exact h
  | execute sql => exact h.answer sql
  | lock table => exact h.setLocks _
  | guard name table => exact h.setLocks _

/-- Wherever an engine comes to, its rows stand in valid trees. -/
theorem Reachable.sound (h : e.Reachable) : e.Sound := by
  induction h with
  | opened hopen =>
    obtain ⟨-, order, catalog, -, -, rfl⟩ := openOn_eq_ok.1 hopen
    exact fun _ _ hg => nomatch hg
  | called call _ ih => exact ih.react call
  | cancelled _ ih => exact ih
  | changed sink _ ih => exact ih

theorem Reachable.after (h : e.Reachable) (calls : List Call) : (e.after calls).Reachable := by
  induction calls generalizing e with
  | nil => exact h
  | cons call rest ih => exact ih (h.called call)

/-- A session comes to no other engines by reopening. -/
theorem Reachable.reopen {s : Session} (h : s.engine.Reachable) (order : Option UInt64) :
    (s.reopen order).2.engine.Reachable := by
  unfold Session.reopen
  dsimp only
  split
  · next engine hopen =>
    obtain ⟨-, order, catalog, -, -, rfl⟩ := openOn_eq_ok.1 hopen
    have hlater := (Reachable.opened hopen).called (.advance s.engine.cancelAll.locks.now)
    unfold react advance Locks.advance at hlater
    dsimp only at hlater
    rw [Nat.zero_add] at hlater
    exact hlater
  · exact h.cancelled

/-! ## All or nothing -/

/-- What a query is promised on an engine: it does all that it has to, or fails and leaves
everything as it was. -/
structure AllOrNothing (sql : String) (e : Engine) : Prop where
  unreadable (error : Error) : Statement.ofText sql = .error error →
    execute sql e = .error error e
  failed (s : Statement) (error : Error) (e' : Engine) : Statement.ofText sql = .ok s →
    execute sql e = .error error e' → Spares s.table (makes s) e e'
  /-- An UPDATE that goes through assigns to all rows that satisfy its condition. -/
  updated (s : Statement) (assignments : Row) (condition : Option Sql.Condition)
      (result : QueryResult) (e' : Engine) : Statement.ofText sql = .ok s →
    s.action = .update assignments condition → execute sql e = .ok result e' →
    ∃ rows, e.live s.table = .ok rows ∧ e'.live s.table = .ok (rows.map fun entry =>
      if Table.satisfies entry.2 condition then
        (entry.1, entry.2.insertMany assignments.entries) else entry)
  /-- A DELETE that goes through deletes all rows that satisfy its condition. -/
  deleted (s : Statement) (condition : Option Sql.Condition) (result : QueryResult)
      (e' : Engine) : Statement.ofText sql = .ok s →
    s.action = .delete condition → execute sql e = .ok result e' →
    ∃ rows, e.live s.table = .ok rows ∧ e'.live s.table = .ok (rows.filter fun entry =>
      !Table.satisfies entry.2 condition)
  /-- A table that faults kept from being created is unknown, and without faults it is created
  when the statement is repeated. -/
  again (s : Statement) (columns : List Sql.ColumnDefinition)
      (constraints : List Sql.TableConstraint) (error : Error) (e' : Engine)
      (result : QueryResult) (e₁ : Engine) : Statement.ofText sql = .ok s →
    s.action = .createTable columns constraints → execute sql e = .error error e' →
    execute sql e.faultless = .ok result e₁ →
    e'.catalog.contains s.table = false ∧ ∃ e₂, execute sql e'.faultless = .ok result e₂

theorem execute_of_read (hs : Statement.ofText sql = .ok s) (e : Engine) :
    execute sql e = executeStatement s e := by
  unfold execute
  rw [hs]

/-- The rows behind records that were written and applied. -/
theorem live_logged {records : Table → List Record} {answer : Table → QueryResult}
    {result : QueryResult} {e' : Engine} (h : e.Sound) (hw : IsWord name)
    (hrun : withLock name (do
      ensureUserTable name
      let t ← table name
      applyLogged name t (records t)
      return answer t) e = .ok result e') :
    ∃ t, t.rows.Valid ∧ e.live name = .ok t.scan ∧
      e'.live name = .ok ((records t).foldl Record.onto t.scan) := by
  obtain ⟨t, hview, hview'⟩ := logged_of_ok hw hrun
  have hvalid := h.view hview
  refine ⟨t, hvalid, by rw [live, hview]; rfl, ?_⟩
  rw [live, hview', ← (Table.foldl_apply hvalid _).2]
  rfl

end Engine

end RelStore
