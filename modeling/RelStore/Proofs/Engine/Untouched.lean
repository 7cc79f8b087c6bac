import RelStore.Proofs.Engine.Failure

/-!
# What a statement leaves alone

Wherever a statement may lead is said once, for any relation that follows each of its steps
(`Covers.executeStatement`). However a statement ends, it leaves all tables alone but its own: their
rows in memory, their files and whether they are known (`leaves_executeStatement`). A file that belongs
to no table, the catalog's own, may be written by any statement.
-/

namespace RelStore

open Sql (IsWord Statement)
open Text.Utf8 (Bytes)

namespace Engine

/-- The engine that is left, however a step ends. -/
def ending {α : Type} : EStateM.Result Error Engine α → Engine
  | .ok _ e => e
  | .error _ e => e

/-- A table is known or unknown as before, and nothing happened to its rows in memory and to its
file. -/
structure Untouched (table : String) (e e' : Engine) : Prop where
  order : e'.order = e.order
  tables : e'.tables.get? table = e.tables.get? table
  catalog : e'.catalog.contains table = e.catalog.contains table
  file : IsWord table → table ≠ Catalog.reserved →
    e'.directory.lookup table = e.directory.lookup table

variable {e e' e'' : Engine} {table name : String}

namespace Untouched

theorem refl (table : String) (e : Engine) : Untouched table e e := ⟨rfl, rfl, rfl, fun _ _ => rfl⟩

theorem trans (h : Untouched table e e') (h' : Untouched table e' e'') : Untouched table e e'' where
  order := h'.order.trans h.order
  tables := h'.tables.trans h.tables
  catalog := h'.catalog.trans h.catalog
  file hw hne := (h'.file hw hne).trans (h.file hw hne)

/-- The live rows of the table are what they were. -/
theorem live (h : Untouched table e e') (hw : IsWord table) (hne : table ≠ Catalog.reserved) :
    e'.live table = e.live table := by
  unfold Engine.live view Table.load
  rw [h.tables, h.order, h.file hw hne]

end Untouched

/-! ## However a step ends -/

section

variable {α β : Type} {R : Engine → Engine → Prop} {step : EngineM α}

/-- However a step ends, the engine that is left is one that the relation leads to. -/
def Moves (R : Engine → Engine → Prop) (step : EngineM α) : Prop := ∀ e, R e (ending (step e))

/-- A relation of an engine to later ones that leads wherever a statement on this table may lead, as
long as it creates nothing. -/
structure Covers (R : Engine → Engine → Prop) (name : String) : Prop where
  refl (e : Engine) : R e e
  trans {e e' e'' : Engine} : R e e' → R e' e'' → R e e''
  locks (e : Engine) (locks : Locks) : R e { e with locks }
  hold (e : Engine) (t : Table) : R e { e with tables := e.tables.insert name t }
  append (bytes : Bytes) : name ≠ Catalog.reserved → Moves R (append name bytes)

namespace Covers

theorem pure (h : Covers R name) (a : α) : Moves R (pure a : EngineM α) := h.refl

theorem throw (h : Covers R name) (error : Error) (f : α → EngineM β) :
    Moves R (throw error >>= f) := h.refl

theorem bind (h : Covers R name) {f : α → EngineM β} (hs : Moves R step) (hf : ∀ a, Moves R (f a)) :
    Moves R (step >>= f) := by
  intro e
  have he := hs e
  cases hr : step e with
  | ok a e₁ =>
    rw [hr] at he
    rw [bind_of_ok hr]
    exact h.trans he (hf a e₁)
  | error error e₁ =>
    rw [hr] at he
    rw [bind_of_error hr]
    exact he

theorem get_bind {f : Engine → EngineM α} (hf : ∀ e, Moves R (f e)) : Moves R (get >>= f) :=
  fun e => hf e e

theorem setTable (h : Covers R name) (t : Table) : Moves R (setTable name t) := fun e => h.hold e t

theorem loaded (h : Covers R name) : Moves R (Engine.table name) := by
  intro e
  unfold Engine.table
  cases e.tables.get? name with
  | some t => exact h.refl e
  | none =>
    dsimp only
    cases Table.load name e.order e.directory with
    | ok t => exact h.hold e t
    | error error => exact h.refl e

theorem withLock (h : Covers R name) (hs : Moves R step) : Moves R (withLock name step) := by
  intro e
  have he := hs { e with locks := e.locks.taken name }
  cases hr : Engine.withLock name step e with
  | ok a e' =>
    obtain ⟨-, e₁, hstep, rfl⟩ := withLock_of_ok hr
    rw [hstep] at he
    exact h.trans (h.trans (h.locks e _) he) (h.locks e₁ _)
  | error error e' =>
    rcases withLock_of_error hr with ⟨-, rfl⟩ | ⟨-, e₁, hstep, rfl⟩
    · exact h.refl e'
    · rw [hstep] at he
      exact h.trans (h.trans (h.locks e _) he) (h.locks e₁ _)

/-- A statement about rows locks its table, which is not the catalog's own, and loads it. -/
theorem withTable (h : Covers R name) {f : Table → EngineM α}
    (hf : name ≠ Catalog.reserved → ∀ t, Moves R (f t)) :
    Moves R (Engine.withLock name (ensureUserTable name >>= fun _ => Engine.table name >>= f)) := by
  refine h.withLock fun e => ?_
  cases hensure : ensureUserTable name e with
  | error error e' =>
    rw [bind_of_error hensure, ensureUserTable_of_error hensure]
    exact h.refl e
  | ok _ e' =>
    rw [bind_of_ok hensure]
    obtain rfl := ensureUserTable_of_ok hensure
    unfold ensureUserTable at hensure
    split_ifs at hensure with hknown
    exact h.bind h.loaded (hf hknown.1) e'

/-- A relation that covers a table and its creation leads wherever any statement on it leads. -/
theorem executeStatement {s : Statement} (h : Covers R s.table)
    (hcreating : ∀ columns constraints, s.action = .createTable columns constraints →
      Moves R (creating s.table)) : Moves R (executeStatement s) := by
  obtain ⟨source, name, action⟩ := s
  cases action with
  | createTable columns constraints => exact h.withLock (hcreating columns constraints rfl)
  | insert columns values =>
    exact h.withTable fun hne t => h.bind (h.setTable _) fun _ => h.bind (h.append _ hne) fun _ =>
      h.bind (h.setTable _) fun _ => h.pure _
  | select columns condition =>
    refine h.withTable fun _ t => ?_
    show Moves R (selectFrom name columns condition t)
    unfold selectFrom
    split_ifs
    · split
      · exact h.throw _ _
      · exact h.pure _
    · exact h.pure _
  | delete condition | update assignments condition =>
    refine h.withTable fun hne t => h.bind ?_ fun _ => h.pure _
    unfold applyLogged
    split_ifs
    · exact h.bind (h.append _ hne) fun _ => h.setTable _
    · exact h.pure _

end Covers

end

/-! ## Statements -/

/-- Appending changes the file of its table at most. -/
theorem append_sole (hw : IsWord name) (bytes : Bytes) (e : Engine) :
    ∃ sink, ending (append name bytes e) = { e with sink } ∧ sink.faults = e.sink.faults ∧
      Directory.Sole name e.directory sink.directory := by
  unfold append Sink.setTarget Writer.setTarget
  dsimp only
  split_ifs
  · exact ⟨_, rfl, rfl, .refl ..⟩
  · cases ht : e.sink.writer.directory.touch name with
    | none => exact ⟨_, rfl, rfl, .refl ..⟩
    | some touched =>
      obtain ⟨location, made⟩ := touched
      obtain ⟨-, rfl, htouched, -⟩ := Directory.touched_of_touch hw ht
      unfold Sink.write Writer.write
      dsimp only
      split_ifs
      · exact ⟨_, rfl, rfl, htouched.sole⟩
      · exact ⟨_, rfl, rfl, htouched.sole.append bytes⟩

/-- A table is not touched by what is appended to another. -/
theorem untouched_append (hw : IsWord name) (hne : table ≠ Catalog.reserved → table ≠ name)
    (bytes : Bytes) : Moves (Untouched table) (append name bytes) := by
  intro e
  obtain ⟨sink, he, -, hsole⟩ := append_sole hw bytes e
  rw [he]
  exact ⟨rfl, rfl, rfl, fun hword hreserved => (hsole.sameFile (hne hreserved)).lookup hword⟩

theorem covers_untouched (hw : IsWord name) (hne : table ≠ name) : Covers (Untouched table) name where
  refl := .refl table
  trans := .trans
  locks _ _ := ⟨rfl, rfl, rfl, fun _ _ => rfl⟩
  hold _ _ := ⟨rfl, OrderedMap.get?_insert_of_ne hne .., rfl, fun _ _ => rfl⟩
  append bytes _ := untouched_append hw (fun _ => hne) bytes

theorem untouched_register (hne : table ≠ name) (e : Engine) :
    Untouched table e { e with catalog := (e.catalog.register name).2 } := by
  refine ⟨rfl, rfl, ?_, fun _ _ => rfl⟩
  show (table == Catalog.reserved || (e.catalog.names.insert name ()).contains table) = _
  rw [OrderedMap.contains, OrderedMap.get?_insert_of_ne hne]
  rfl

/-- A statement leaves all tables alone but its own. -/
theorem leaves_executeStatement {s : Statement} (hw : IsWord s.table) (hne : table ≠ s.table) :
    Moves (Untouched table) (executeStatement s) := by
  have h := covers_untouched hw hne
  refine h.executeStatement fun _ _ _ => Covers.get_bind fun e => ?_
  dsimp only
  split_ifs
  · exact h.throw _ _
  · exact h.bind (untouched_append hw (fun _ => hne) _) fun _ =>
      h.bind (untouched_append isWord_reserved id _) fun _ =>
        h.bind (untouched_register hne) fun _ => Covers.get_bind fun e =>
          h.bind (h.setTable _) fun _ => h.pure _

end Engine

end RelStore
