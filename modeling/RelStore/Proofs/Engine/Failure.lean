import RelStore.Proofs.Engine.Calls
import RelStore.Proofs.Files.Grown

/-!
# Statements that fail

What a step of a statement does is said once for each of them, where it fails and where it goes
through. A statement that fails has at most loaded its table, taken a row id and touched its file
(`Spares`), wherever it failed; UPDATE and DELETE that go through did all that they had to
(`logged_of_ok`).
-/

namespace RelStore

open Sql (IsWord Statement)
open Text.Utf8 (Bytes)

/-! ## The sink -/

namespace Sink

variable {s s' : Sink} {name : String}

/-- A target that is refused leaves the files alone, and one that is chosen is touched. -/
theorem setTarget_cases (s : Sink) (hw : IsWord name) :
    (∃ s', s.setTarget name = (.error .io, s') ∧ s'.faults = s.faults ∧
      s'.directory = s.directory) ∨
    ∃ s' target, s.setTarget name = (.ok (), s') ∧ s'.faults = s.faults ∧
      s'.writer.target = some target ∧ s.directory.Opens name ∧
      Directory.Touched [name] s.directory s'.directory := by
  unfold setTarget Writer.setTarget
  dsimp only
  split_ifs
  · exact .inl ⟨_, rfl, rfl, rfl⟩
  · cases ht : s.writer.directory.touch name with
    | none => exact .inl ⟨_, rfl, rfl, rfl⟩
    | some touched =>
      obtain ⟨location, made⟩ := touched
      obtain ⟨hopens, -, htouched, -⟩ := Directory.touched_of_touch hw ht
      exact .inr ⟨_, _, rfl, rfl, rfl, hopens, htouched⟩

/-- Bytes that are not taken leave the files alone. -/
theorem write_cases {target : Target} (h : s.writer.target = some target) (bytes : Bytes) :
    (∃ s', s.write bytes = (false, s') ∧ s'.directory = s.directory) ∨
    ∃ s', s.write bytes = (true, s') ∧ s'.faults = s.faults ∧
      s'.directory = s.directory.append target.location bytes := by
  unfold write Writer.write
  dsimp only
  split_ifs
  · exact .inl ⟨_, rfl, rfl⟩
  · rw [h]
    exact .inr ⟨_, rfl, rfl, rfl⟩

end Sink

namespace Engine

variable {e e' : Engine} {name : String} {error : Error}

/-! ## Single steps -/

theorem of_bind_eq_ok {α β : Type} {step : EngineM α} {f : α → EngineM β} {b : β}
    (h : (step >>= f) e = .ok b e') : ∃ a e₁, step e = .ok a e₁ ∧ f a e₁ = .ok b e' := by
  cases hs : step e with
  | ok a e₁ => rw [bind_of_ok hs] at h; exact ⟨a, e₁, rfl, h⟩
  | error error e₁ => rw [bind_of_error hs] at h; cases h

theorem of_bind_eq_error {α β : Type} {step : EngineM α} {f : α → EngineM β}
    (h : (step >>= f) e = .error error e') :
    step e = .error error e' ∨ ∃ a e₁, step e = .ok a e₁ ∧ f a e₁ = .error error e' := by
  cases hs : step e with
  | ok a e₁ => rw [bind_of_ok hs] at h; exact .inr ⟨a, e₁, rfl, h⟩
  | error error₁ e₁ => rw [bind_of_error hs] at h; cases h; exact .inl rfl

theorem withLock_of_ok {α : Type} {step : EngineM α} {a : α} (h : withLock name step e = .ok a e') :
    e.locks.isLocked name = false ∧
      ∃ e₁, step { e with locks := e.locks.taken name } = .ok a e₁ ∧
        e' = { e₁ with locks := e₁.locks.release name } := by
  unfold withLock at h
  cases hl : e.locks.isLocked name with
  | true => rw [Locks.lock?, hl] at h; cases h
  | false =>
    rw [Locks.lock?_of_free hl] at h
    dsimp only at h
    cases hs : step { e with locks := e.locks.taken name } with
    | ok a e₁ => rw [hs] at h; cases h; exact ⟨rfl, e₁, rfl, rfl⟩
    | error error e₁ => rw [hs] at h; cases h

/-- A step behind a lock fails where its table is locked, and does nothing, or where it fails
itself, and the lock is given back. -/
theorem withLock_of_error {α : Type} {step : EngineM α}
    (h : withLock name step e = .error error e') :
    e.locks.isLocked name = true ∧ e' = e ∨
      e.locks.isLocked name = false ∧
        ∃ e₁, step { e with locks := e.locks.taken name } = .error error e₁ ∧
          e' = { e₁ with locks := e₁.locks.release name } := by
  cases hl : e.locks.isLocked name with
  | true =>
    rw [withLock_of_locked hl] at h
    cases h
    exact .inl ⟨rfl, rfl⟩
  | false =>
    unfold withLock at h
    rw [Locks.lock?_of_free hl] at h
    dsimp only at h
    cases hs : step { e with locks := e.locks.taken name } with
    | ok a e₁ => rw [hs] at h; cases h
    | error error₁ e₁ => rw [hs] at h; cases h; exact .inr ⟨rfl, e₁, rfl, rfl⟩

theorem ensureUserTable_of_ok {a : Unit} (h : ensureUserTable name e = .ok a e') : e' = e := by
  unfold ensureUserTable at h
  split_ifs at h
  cases h
  rfl

theorem ensureUserTable_of_error (h : ensureUserTable name e = .error error e') : e' = e := by
  unfold ensureUserTable at h
  split_ifs at h
  cases h
  rfl

/-- A table is what is held or would be loaded, and is held from then on. -/
theorem table_of_ok {t : Table} (h : table name e = .ok t e') :
    e.view name = .ok t ∧ ∃ tables, e' = { e with tables } ∧ tables.get? name = some t ∧
      ∀ other, other ≠ name → tables.get? other = e.tables.get? other := by
  have hview : e.view name = .ok t := by
    unfold table at h
    unfold view
    cases hg : e.tables.get? name with
    | some t' => rw [hg] at h; cases h; rfl
    | none =>
      rw [hg] at h
      dsimp only at h ⊢
      cases hl : Table.load name e.order e.directory with
      | ok t' => rw [hl] at h; cases h; rfl
      | error error => rw [hl] at h; cases h
  obtain ⟨tables, hrun, hget, hother⟩ := table_of_view hview
  have hsame := hrun e.locks
  rw [show table name { e with locks := e.locks } = table name e from rfl, h] at hsame
  cases hsame
  exact ⟨hview, tables, rfl, hget, hother⟩

theorem table_of_error (h : table name e = .error error e') : e' = e := by
  unfold table at h
  cases hg : e.tables.get? name with
  | some t => rw [hg] at h; cases h
  | none =>
    rw [hg] at h
    dsimp only at h
    cases hl : Table.load name e.order e.directory with
    | ok t => rw [hl] at h; cases h
    | error cause => rw [hl] at h; cases h; rfl

/-- What appending does is decided by the sink. -/
theorem append_of_sink (sink : Sink) (name : String) (bytes : Bytes) :
    ∃ answer sink', ∀ e : Engine, e.sink = sink →
      append name bytes e = result answer { e with sink := sink' } := by
  unfold append
  rcases ht : sink.setTarget name with ⟨_ | _, sink₁⟩
  · exact ⟨.error _, sink₁, fun e he => by rw [he, ht]; rfl⟩
  · rcases hw : sink₁.write bytes with ⟨_ | _, sink₂⟩
    · exact ⟨.error _, sink₂, fun e he => by rw [he, ht]; dsimp only; rw [hw]; rfl⟩
    · exact ⟨.ok (), sink₂, fun e he => by rw [he, ht]; dsimp only; rw [hw]; rfl⟩

/-- Appending puts the bytes behind what stands in a file, which is made where it is missing. -/
theorem append_of_ok {bytes : Bytes} {a : Unit} (hw : IsWord name)
    (h : append name bytes e = .ok a e') :
    e.directory.Opens name ∧ ∃ sink made location, e' = { e with sink } ∧
      sink.faults = e.sink.faults ∧ Directory.Touched [name] e.directory made ∧
      sink.directory = made.append location bytes := by
  unfold append at h
  rcases e.sink.setTarget_cases hw with
    ⟨s', hs, -⟩ | ⟨s', target, hs, hfaults, ht, hopens, htouched⟩
  · rw [hs] at h
    cases h
  · rw [hs] at h
    dsimp only at h
    rcases Sink.write_cases ht bytes with ⟨s'', hwrite, -⟩ | ⟨s'', hwrite, hfaults', hd⟩
    · rw [hwrite] at h
      cases h
    · rw [hwrite] at h
      cases h
      exact ⟨hopens, s'', s'.directory, target.location, rfl, hfaults'.trans hfaults, htouched, hd⟩

/-- Where appending fails the file may be new. -/
theorem append_of_error {bytes : Bytes} (hw : IsWord name)
    (h : append name bytes e = .error error e') :
    ∃ sink, e' = { e with sink } ∧ Directory.Touched [name] e.directory sink.directory := by
  unfold append at h
  rcases e.sink.setTarget_cases hw with ⟨s', hs, -, hd⟩ | ⟨s', target, hs, -, ht, -, htouched⟩
  · rw [hs] at h
    cases h
    exact ⟨s', rfl, hd ▸ .refl ..⟩
  · rw [hs] at h
    dsimp only at h
    rcases Sink.write_cases ht bytes with ⟨s'', hwrite, hd⟩ | ⟨s'', hwrite, -⟩
    · rw [hwrite] at h
      cases h
      exact ⟨s'', rfl, hd ▸ htouched⟩
    · rw [hwrite] at h
      cases h

/-- Without faults, appending depends on nothing but whether the file can be opened. -/
theorem append_faultless (hw : IsWord name) (hfaults : e.sink.faults = {}) (bytes : Bytes) :
    (∃ sink, append name bytes e = .ok () { e with sink } ∧ sink.faults = {} ∧
      Directory.Grown name bytes e.directory sink.directory) ∨
    ¬ e.directory.Opens name ∧ ∃ sink, append name bytes e = .error .io { e with sink } ∧
      sink.faults = {} ∧ sink.directory = e.directory := by
  unfold append Sink.setTarget Writer.setTarget
  rw [hfaults, if_neg Bool.false_ne_true]
  cases ht : e.sink.writer.directory.touch name with
  | none =>
    refine .inr ⟨fun hopens => ?_, _, rfl, rfl, rfl⟩
    obtain ⟨location, made, hsome⟩ := Directory.touch_of_opens hopens hw
    rw [show e.sink.writer.directory.touch name = _ from hsome] at ht
    cases ht
  | some touched =>
    obtain ⟨location, made⟩ := touched
    exact .inl ⟨_, rfl, rfl, Directory.grown_of_touch hw ht bytes⟩

/-! ## What is left of a statement that failed -/

/-- The live rows of a table with their ids, or why they cannot be read. -/
def live (e : Engine) (name : String) : Except Error (List (RowId × Row)) :=
  (e.view name).map Table.scan

/-- At most a table was loaded and took a row id, and files were made, empty and under some of these
names. -/
structure Spares (table : String) (made : List String) (e e' : Engine) : Prop where
  catalog : e'.catalog = e.catalog
  locked : e'.locks.held = e.locks.held
  live (name : String) : IsWord name → e'.live name = e.live name
  other (name : String) : name ≠ table → e'.tables.get? name = e.tables.get? name
  table : e'.tables.get? table = e.tables.get? table ∨ ∃ t, e.view table = .ok t ∧
    (e'.tables.get? table = some t ∨ e'.tables.get? table = some t.allocate.2)
  files : Directory.Touched made e.directory e'.directory

variable {made : List String} {sink : Sink} {tables : OrderedMap String Table}

theorem live_congr (hf : Directory.Touched made e.directory sink.directory) (hw : IsWord name)
    (hget : tables.get? name = e.tables.get? name) :
    live { e with sink, tables } name = e.live name := by
  unfold live view
  dsimp only
  rw [hget]
  cases e.tables.get? name with
  | some t => rfl
  | none => exact congrArg (Except.map Table.scan) (hf.load hw e.order)

theorem live_of_get? {t : Table} (h : e.tables.get? name = some t) : e.live name = .ok t.scan := by
  rw [live, view_of_get? h]
  rfl

/-- A table is loaded and may have taken a row id. -/
theorem spares_of_loaded {table : String} {t : Table} (hview : e.view table = .ok t)
    (hget : tables.get? table = some t ∨ tables.get? table = some t.allocate.2)
    (hother : ∀ name, name ≠ table → tables.get? name = e.tables.get? name)
    (hf : Directory.Touched made e.directory sink.directory) :
    Spares table made e { e with sink, tables } where
  catalog := rfl
  locked := rfl
  live name hw := by
    by_cases hne : name = table
    · subst hne
      have hlive : e.live name = .ok t.scan := by rw [Engine.live, hview]; rfl
      rw [hlive]
      rcases hget with hget | hget
      · exact live_of_get? hget
      · exact live_of_get? (t := t.allocate.2) hget
    · exact live_congr hf hw (hother name hne)
  other := hother
  table := .inr ⟨t, hview, hget⟩
  files := hf

theorem spares_of_touched {table : String}
    (hf : Directory.Touched made e.directory sink.directory) :
    Spares table made e { e with sink } where
  catalog := rfl
  locked := rfl
  live _ hw := live_congr hf hw rfl
  other _ _ := rfl
  table := .inl rfl
  files := hf

theorem spares_refl (table : String) (made : List String) (e : Engine) : Spares table made e e :=
  spares_of_touched (.refl ..)

/-- The lock of a statement is given back. -/
theorem spares_withLock {α : Type} {step : EngineM α}
    (hstep : ∀ e error e', step e = .error error e' → Spares name made e e')
    (h : withLock name step e = .error error e') : Spares name made e e' := by
  rcases withLock_of_error h with ⟨-, rfl⟩ | ⟨hfree, e₁, hs, rfl⟩
  · exact spares_refl ..
  · obtain ⟨hcatalog, hlocked, hlive, hother, htable, hfiles⟩ := hstep _ _ _ hs
    have hheld : (e₁.locks.release name).held = e.locks.held := by
      have htaken : e₁.locks.held = e.locks.held.insert name e.locks.nextLock := hlocked
      have hn := OrderedMap.get?_eq_none_iff.1 (Locks.isLocked_eq_false_iff.1 hfree)
      unfold Locks.release
      rw [htaken, OrderedMap.get?_insert_self]
      exact OrderedMap.erase_insert hn _
    exact ⟨hcatalog, hheld, hlive, hother, htable, hfiles⟩

/-! ## Each kind of statement -/

/-- A statement about rows fails where it does not know its table or cannot load it, or where what
it does with the table fails. -/
theorem spares_withTable {α : Type} {f : Table → EngineM α}
    (hstep : ∀ t tables error e', e.view name = .ok t → tables.get? name = some t →
      (∀ other, other ≠ name → tables.get? other = e.tables.get? other) →
      f t { e with tables } = .error error e' → Spares name made e e')
    (h : (ensureUserTable name >>= fun _ => table name >>= f) e = .error error e') :
    Spares name made e e' := by
  rcases of_bind_eq_error h with hfailed | ⟨⟨⟩, e₁, hensure, hrest⟩
  · rw [ensureUserTable_of_error hfailed]
    exact spares_refl ..
  obtain rfl := ensureUserTable_of_ok hensure
  rcases of_bind_eq_error hrest with hfailed | ⟨t, e₂, htable, hlast⟩
  · rw [table_of_error hfailed]
    exact spares_refl ..
  obtain ⟨hview, tables, rfl, hget, hother⟩ := table_of_ok htable
  exact hstep t tables error e' hview hget hother hlast

theorem spares_insert {columns values : List String} (hw : IsWord name)
    (h : insert name columns values e = .error error e') : Spares name [name] e e' := by
  refine spares_withLock (fun e error e' h => spares_withTable ?_ h) h
  intro t tables error e' hview hget hother h
  rcases of_bind_eq_error h with h | ⟨⟨⟩, e₁, hset, h⟩
  · cases h
  cases hset
  rcases of_bind_eq_error h with h | ⟨⟨⟩, e₂, -, h⟩
  · obtain ⟨sink, rfl, hf⟩ := append_of_error hw h
    refine spares_of_loaded hview (.inr (OrderedMap.get?_insert_self ..)) (fun other hne => ?_) hf
    rw [OrderedMap.get?_insert_of_ne hne, hother other hne]
  · rcases of_bind_eq_error h with h | ⟨⟨⟩, e₃, -, h⟩ <;> cases h

theorem spares_select {columns : List String} {condition : Option Sql.Condition}
    (h : select name columns condition e = .error error e') : Spares name [name] e e' := by
  refine spares_withLock (fun e error e' h =>
    spares_withTable (f := selectFrom name columns condition) ?_ h) h
  intro t tables error e' hview hget hother h
  have hloaded : Spares name [name] e { e with tables } :=
    spares_of_loaded hview (.inl hget) hother (.refl ..)
  unfold selectFrom at h
  cases hc : columns.find? (!t.hasColumn ·) with
  | none =>
    rw [hc] at h
    split_ifs at h <;> cases h
  | some column =>
    rw [hc] at h
    split_ifs at h <;> cases h
    exact hloaded

/-- A statement that writes records about rows leaves the rows alone where it fails. -/
theorem spares_logged {records : Table → List Record} {answer : Table → QueryResult}
    (hw : IsWord name)
    (h : withLock name (do
      ensureUserTable name
      let t ← table name
      applyLogged name t (records t)
      return answer t) e = .error error e') : Spares name [name] e e' := by
  refine spares_withLock (fun e error e' h => spares_withTable ?_ h) h
  intro t tables error e' hview hget hother h
  rcases of_bind_eq_error h with h | ⟨⟨⟩, e₁, -, h⟩
  · unfold applyLogged at h
    split_ifs at h
    · rcases of_bind_eq_error h with h | ⟨⟨⟩, e₁, -, h⟩
      · obtain ⟨sink, rfl, hf⟩ := append_of_error hw h
        exact spares_of_loaded hview (.inl hget) hother hf
      · cases h
    · cases h
  · cases h

theorem spares_createTable (hw : IsWord name) (h : createTable name e = .error error e') :
    Spares name [name, Catalog.reserved] e e' := by
  change withLock name (creating name) e = _ at h
  refine spares_withLock (fun e error e' h => ?_) h
  cases hknown : e.catalog.contains name with
  | true =>
    rw [creating_of_known hknown] at h
    cases h
    exact spares_refl ..
  | false =>
    rw [creating_of_new hknown] at h
    rcases of_bind_eq_error h with h | ⟨⟨⟩, e₁, happend, h⟩
    · obtain ⟨sink, rfl, hf⟩ := append_of_error hw h
      exact spares_of_touched (hf.mono (by simp))
    obtain ⟨-, sink, made, location, rfl, -, hf, hd⟩ := append_of_ok hw happend
    rw [Directory.append_nil] at hd
    rcases of_bind_eq_error h with h | ⟨⟨⟩, e₂, -, h⟩
    · obtain ⟨sink', rfl, hf'⟩ := append_of_error isWord_reserved h
      refine spares_of_touched ((hf.mono (by simp)).trans ?_)
      exact hd ▸ hf'.mono (by simp)
    · cases h

/-- The names of the files that a statement may make. -/
def makes (s : Statement) : List String :=
  match s.action with
  | .createTable .. => [s.table, Catalog.reserved]
  | _ => [s.table]

/-- A statement that fails leaves everything as it was, but for what it has begun. -/
theorem spares_executeStatement {s : Statement} (hw : IsWord s.table)
    (h : executeStatement s e = .error error e') : Spares s.table (makes s) e e' := by
  obtain ⟨source, name, action⟩ := s
  cases action with
  | createTable columns constraints => exact spares_createTable hw h
  | insert columns values => exact spares_insert hw h
  | select columns condition => exact spares_select h
  | delete condition => exact spares_logged hw h
  | update assignments condition => exact spares_logged hw h

/-! ## Statements that go through -/

/-- Where a statement about rows goes through, its table is known and was loaded. -/
theorem withTable_of_ok {α : Type} {f : Table → EngineM α} {a : α}
    (h : withLock name (ensureUserTable name >>= fun _ => table name >>= f) e = .ok a e') :
    (name ≠ Catalog.reserved ∧ e.catalog.contains name = true) ∧
      ∃ t tables e₁, e.view name = .ok t ∧ tables.get? name = some t ∧
        f t { e with tables, locks := e.locks.taken name } = .ok a e₁ ∧
          e' = { e₁ with locks := e₁.locks.release name } := by
  obtain ⟨-, e₁, hstep, rfl⟩ := withLock_of_ok h
  obtain ⟨⟨⟩, e₂, hensure, hstep⟩ := of_bind_eq_ok hstep
  obtain rfl := ensureUserTable_of_ok hensure
  unfold ensureUserTable at hensure
  split_ifs at hensure with hknown
  obtain ⟨t, e₃, htable, hstep⟩ := of_bind_eq_ok hstep
  obtain ⟨hview, tables, rfl, hget, -⟩ := table_of_ok htable
  exact ⟨hknown, t, tables, e₁, hview, hget, hstep, rfl⟩

/-- Records that are logged are put behind the file and then applied. Without records nothing is
done. -/
theorem applyLogged_of_ok {t : Table} {records : List Record}
    (h : applyLogged name t records e = .ok () e') :
    (records = [] ∧ e' = e) ∨
      (records ≠ [] ∧ ∃ e₁, append name (records.flatMap Record.encode) e = .ok () e₁ ∧
        e' = { e₁ with tables := e₁.tables.insert name (records.foldl Table.apply t) }) := by
  by_cases hempty : records = []
  · rw [hempty, applyLogged_nil] at h
    cases h
    exact .inl ⟨hempty, rfl⟩
  · rw [applyLogged_of_ne_nil hempty] at h
    obtain ⟨⟨⟩, e₁, happend, hset⟩ := of_bind_eq_ok h
    cases hset
    exact .inr ⟨hempty, e₁, happend, rfl⟩

/-- A statement that writes records about rows applies all of them where it goes through. -/
theorem logged_of_ok {records : Table → List Record} {answer : Table → QueryResult}
    {result : QueryResult} (hw : IsWord name)
    (h : withLock name (do
      ensureUserTable name
      let t ← table name
      applyLogged name t (records t)
      return answer t) e = .ok result e') :
    ∃ t, e.view name = .ok t ∧ e'.view name = .ok ((records t).foldl Table.apply t) := by
  obtain ⟨-, t, tables, e₁, hview, hget, hstep, rfl⟩ := withTable_of_ok h
  obtain ⟨⟨⟩, e₂, hlogged, hstep⟩ := of_bind_eq_ok hstep
  cases hstep
  refine ⟨t, hview, ?_⟩
  rcases applyLogged_of_ok hlogged with ⟨hnone, rfl⟩ | ⟨-, e₃, happend, rfl⟩
  · rw [hnone]
    exact view_of_get? hget
  · obtain ⟨-, sink, made, location, rfl, -⟩ := append_of_ok hw happend
    exact view_of_get? (OrderedMap.get?_insert_self ..)

/-! ## Creating a table again -/

/-- The engine with a sink that does not fail from now on. -/
def faultless (e : Engine) : Engine := { e with sink := { e.sink with faults := {} } }

theorem opens_of_creating {result : QueryResult} (hw : IsWord name)
    (h : creating name e = .ok result e') :
    e.catalog.contains name = false ∧ e.directory.Opens name ∧
      e.directory.Opens Catalog.reserved ∧
      result = { message := some ("Table '" ++ name ++ "' created") } := by
  cases hknown : e.catalog.contains name with
  | true => rw [creating_of_known hknown] at h; cases h
  | false =>
    rw [creating_of_new hknown] at h
    obtain ⟨⟨⟩, e₁, happend, h⟩ := of_bind_eq_ok h
    obtain ⟨hopens, sink, made, location, rfl, -, hf, hd⟩ := append_of_ok hw happend
    obtain ⟨⟨⟩, e₂, happend', h⟩ := of_bind_eq_ok h
    rw [Directory.append_nil] at hd
    have hopens' := (append_of_ok isWord_reserved happend').1
    rw [directory, hd, hf.opens_iff] at hopens'
    cases h
    exact ⟨rfl, hopens, hopens', rfl⟩

theorem creating_of_opens (hw : IsWord name) (hnew : e.catalog.contains name = false)
    (hopens : e.directory.Opens name) (hopens' : e.directory.Opens Catalog.reserved)
    (hfaults : e.sink.faults = {}) :
    ∃ e', creating name e = .ok { message := some ("Table '" ++ name ++ "' created") } e' := by
  rcases append_faultless hw hfaults [] with ⟨sink, happend, hsink, hgrown⟩ | ⟨hno, -⟩
  · rcases append_faultless (e := { e with sink }) isWord_reserved hsink (Catalog.record name) with
      ⟨sink', happend', -⟩ | ⟨hno, -⟩
    · exact ⟨_, (creating_of_new hnew).trans ((bind_of_ok happend).trans (bind_of_ok happend'))⟩
    · exact absurd (hgrown.opens_iff.2 hopens') hno
  · exact absurd hopens hno

/-- A table that could not be created for a fault is unknown and can be created again. -/
theorem createTable_again {result : QueryResult} {e₁ : Engine} (hw : IsWord name)
    (h : createTable name e = .error error e')
    (hfaultless : createTable name e.faultless = .ok result e₁) :
    e'.catalog.contains name = false ∧ ∃ e₂, createTable name e'.faultless = .ok result e₂ := by
  have hspares := spares_createTable hw h
  change withLock name (creating name) e.faultless = _ at hfaultless
  obtain ⟨hfree, e₂, hcreating, -⟩ := withLock_of_ok hfaultless
  obtain ⟨hnew, hopens, hopens', rfl⟩ := opens_of_creating hw hcreating
  have hnew' : e'.faultless.catalog.contains name = false := by
    rw [show e'.faultless.catalog = e.catalog from hspares.catalog]
    exact hnew
  have hfree' : e'.faultless.locks.isLocked name = false := by
    rw [Locks.isLocked, show e'.faultless.locks.held = e.locks.held from hspares.locked]
    exact hfree
  obtain ⟨e₃, hagain⟩ := creating_of_opens (e := e'.faultless) hw hnew'
    ((hspares.files.opens_iff name).2 hopens) ((hspares.files.opens_iff _).2 hopens') rfl
  have hlock := withLock_of_free (blind_creating name) hfree'
  rw [hagain] at hlock
  exact ⟨hnew', _, hlock⟩

end Engine

end RelStore
