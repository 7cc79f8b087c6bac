import Mathlib.Data.Option.Defs
import RelStore.Proofs.Engine.Untouched
import RelStore.Proofs.Table.Alike

/-!
# Two engines side by side

A step of one engine and a step of another are twins if, from engines that are related, both answer
alike and leave engines that are related again (`Twins`). What a relation must say about a table, and
must keep when files, locks and tables change, is said once (`Respects`); then every statement on the
table is its own twin (`Respects.executeStatement`).
-/

namespace RelStore.Engine

open Sql (Statement Condition)
open Text.Utf8 (Bytes)

variable {α β : Type} {R : Engine → Engine → Prop} {name : String}

/-- What comes of two steps: answers that are alike or the same error, and engines that are related. -/
inductive Pairs (R : Engine → Engine → Prop) (Q : α → α → Prop) :
    EStateM.Result Error Engine α → EStateM.Result Error Engine α → Prop
  | ok {a a' : α} {e e' : Engine} : Q a a' → R e e' → Pairs R Q (.ok a e) (.ok a' e')
  | error {e e' : Engine} (error : Error) : R e e' → Pairs R Q (.error error e) (.error error e')

/-- Two steps that nobody can tell apart who knows the relation of their engines. -/
def Twins (R : Engine → Engine → Prop) (Q : α → α → Prop) (step step' : EngineM α) : Prop :=
  ∀ ⦃e e'⦄, R e e' → Pairs R Q (step e) (step' e')

namespace Twins

variable {Q : α → α → Prop} {step step' : EngineM α}

theorem pure {a a' : α} (h : Q a a') : Twins R Q (pure a : EngineM α) (pure a') :=
  fun _ _ hr => .ok h hr

theorem throw (error : Error) (f f' : β → EngineM α) :
    Twins R Q (throw error >>= f) (throw error >>= f') := fun _ _ hr => .error error hr

theorem bind {Q' : β → β → Prop} {f f' : α → EngineM β} (h : Twins R Q step step')
    (hf : ∀ a a', Q a a' → Twins R Q' (f a) (f' a')) :
    Twins R Q' (step >>= f) (step' >>= f') := by
  intro e e' hr
  have hpair := h hr
  cases hs : step e <;> cases hs' : step' e' <;> rw [hs, hs'] at hpair
  · obtain ⟨hq, hr₁⟩ | _ := hpair
    rw [bind_of_ok hs, bind_of_ok hs']
    exact hf _ _ hq hr₁
  · cases hpair
  · cases hpair
  · obtain _ | ⟨error, hr₁⟩ := hpair
    rw [bind_of_error hs, bind_of_error hs']
    exact .error _ hr₁

theorem get_bind {f f' : Engine → EngineM α} (hf : ∀ e e', R e e' → Twins R Q (f e) (f' e')) :
    Twins R Q (get >>= f) (get >>= f') := fun e e' hr => hf e e' hr hr

end Twins

/-- A relation of engines that tells as much about a table as a statement on it sees, and that
lasts as long as both engines do the same to the table. -/
structure Respects (R : Engine → Engine → Prop) (name : String) : Prop where
  isLocked {e e' : Engine} : R e e' → e'.locks.isLocked name = e.locks.isLocked name
  taken {e e' : Engine} : R e e' →
    R { e with locks := e.locks.taken name } { e' with locks := e'.locks.taken name }
  released {e e' : Engine} : R e e' →
    R { e with locks := e.locks.release name } { e' with locks := e'.locks.release name }
  known {e e' : Engine} : R e e' → e'.catalog.contains name = e.catalog.contains name
  register {e e' : Engine} : R e e' →
    R { e with catalog := (e.catalog.register name).2 }
      { e' with catalog := (e'.catalog.register name).2 }
  append (bytes : Bytes) : name ≠ Catalog.reserved →
    Twins R Eq (append name bytes) (append name bytes)
  record : name ≠ Catalog.reserved →
    Twins R Eq (Engine.append Catalog.reserved (Catalog.record name))
      (Engine.append Catalog.reserved (Catalog.record name))
  held {e e' : Engine} : R e e' →
    Option.Rel Table.Alike (e.tables.get? name) (e'.tables.get? name)
  file {e e' : Engine} : name ≠ Catalog.reserved → R e e' →
    e'.directory.lookup name = e.directory.lookup name
  hold {e e' : Engine} {t t' : Table} : t.Alike t' → R e e' →
    R { e with tables := e.tables.insert name t } { e' with tables := e'.tables.insert name t' }

namespace Respects

variable {Q : α → α → Prop} {step step' : EngineM α}

theorem withLock (h : Respects R name) (hs : Twins R Q step step') :
    Twins R Q (withLock name step) (withLock name step') := by
  intro e e' hr
  have hsame := h.isLocked hr
  cases hl : e.locks.isLocked name with
  | true =>
    rw [withLock_of_locked hl, withLock_of_locked (hsame.trans hl)]
    exact .error _ hr
  | false =>
    unfold Engine.withLock
    rw [Locks.lock?_of_free hl, Locks.lock?_of_free (hsame.trans hl)]
    dsimp only
    match step { e with locks := e.locks.taken name }, step' { e' with locks := e'.locks.taken name },
      hs (h.taken hr) with
    | _, _, .ok hq hr₁ => exact .ok hq (h.released hr₁)
    | _, _, .error error hr₁ => exact .error error (h.released hr₁)

/-- A table that may be used is not the catalog's own. -/
theorem ensureUserTable (h : Respects R name) :
    Twins R (fun _ _ => name ≠ Catalog.reserved) (ensureUserTable name) (ensureUserTable name) := by
  intro e e' hr
  unfold Engine.ensureUserTable
  rw [h.known hr]
  split_ifs with hknown
  · exact .ok hknown.1 hr
  · exact .error _ hr

theorem setTable (h : Respects R name) {t t' : Table} (ht : t.Alike t') :
    Twins R Eq (setTable name t) (setTable name t') := fun _ _ hr => .ok rfl (h.hold ht hr)

theorem table (h : Respects R name) (hne : name ≠ Catalog.reserved) :
    Twins R Table.Alike (table name) (table name) := by
  intro e e' hr
  unfold Engine.table
  match e.tables.get? name, e'.tables.get? name, h.held hr with
  | _, _, .some ht => exact .ok ht hr
  | _, _, .none =>
    dsimp only
    match Table.load name e.order e.directory, Table.load name e'.order e'.directory,
      Table.alike_load (h.file hne hr) e.order e'.order with
    | _, _, .ok ht => exact .ok ht (h.hold ht hr)
    | _, _, .error error => exact .error error hr

theorem creating (h : Respects R name) : Twins R Eq (creating name) (creating name) := by
  refine .get_bind fun e e' hr => ?_
  dsimp only
  rw [h.known hr]
  split_ifs with hknown
  · exact .throw ..
  · have hne : name ≠ Catalog.reserved := by
      rintro rfl
      exact hknown rfl
    refine (h.append [] hne).bind fun _ _ _ => (h.record hne).bind fun _ _ _ => ?_
    refine Twins.bind (Q := Eq) (fun e e' hr => .ok rfl (h.register hr)) fun _ _ _ => ?_
    exact .get_bind fun e e' _ => (h.setTable (Table.alike_empty ..)).bind fun _ _ _ => .pure rfl

/-- A statement about rows does alike with tables that are alike. -/
theorem withTable (h : Respects R name) {f : Table → EngineM α}
    (hf : ∀ t t', name ≠ Catalog.reserved → t.Alike t' → Twins R Eq (f t) (f t')) :
    Twins R Eq (Engine.withLock name (Engine.ensureUserTable name >>= fun _ => Engine.table name >>= f))
      (Engine.withLock name (Engine.ensureUserTable name >>= fun _ => Engine.table name >>= f)) :=
  h.withLock (h.ensureUserTable.bind fun _ _ hne =>
    (h.table hne).bind fun t t' ht => hf t t' hne ht)

theorem insert (h : Respects R name) (columns values : List String) :
    Twins R Eq (insert name columns values) (insert name columns values) := by
  refine h.withTable fun t t' hne ht => ?_
  obtain ⟨hid, hallocate⟩ := ht.allocate
  generalize t.allocate = taken, t'.allocate = taken' at hid hallocate ⊢
  obtain ⟨id, t⟩ := taken
  obtain ⟨id', t'⟩ := taken'
  obtain rfl : id' = id := hid
  exact (h.setTable hallocate).bind fun _ _ _ => (h.append _ hne).bind fun _ _ _ =>
    (h.setTable (hallocate.apply _)).bind fun _ _ _ => .pure rfl

theorem select (h : Respects R name) (columns : List String) (condition : Option Condition) :
    Twins R Eq (select name columns condition) (select name columns condition) := by
  refine h.withTable fun t t' _ ht => ?_
  show Twins R Eq (selectFrom name columns condition t) (selectFrom name columns condition t')
  have hcolumns : (fun column => !t'.hasColumn column) = fun column => !t.hasColumn column :=
    funext fun column => congrArg not (ht.hasColumn column)
  unfold selectFrom
  rw [ht.size, hcolumns, ht.matching]
  split_ifs
  · split
    · exact .throw ..
    · exact .pure rfl
  · exact .pure rfl

/-- A statement that writes records about rows, the same for tables that are alike. -/
theorem logged (h : Respects R name) {records : Table → List Record} {answer : Table → QueryResult}
    (hsame : ∀ t t', t.Alike t' → records t' = records t ∧ answer t' = answer t) :
    Twins R Eq
      (Engine.withLock name do
        Engine.ensureUserTable name
        let t ← Engine.table name
        applyLogged name t (records t)
        return answer t)
      (Engine.withLock name do
        Engine.ensureUserTable name
        let t ← Engine.table name
        applyLogged name t (records t)
        return answer t) := by
  refine h.withTable fun t t' hne ht => ?_
  obtain ⟨hrecords, hanswer⟩ := hsame t t' ht
  rw [hrecords, hanswer]
  refine Twins.bind (Q := Eq) ?_ fun _ _ _ => .pure rfl
  unfold applyLogged
  split_ifs
  · exact (h.append _ hne).bind fun _ _ _ => h.setTable (ht.foldl _)
  · exact .pure rfl

/-- A statement on a table cannot tell two engines apart that are related with respect to it. -/
theorem executeStatement {s : Statement} (h : Respects R s.table) :
    Twins R Eq (executeStatement s) (executeStatement s) := by
  obtain ⟨source, name, action⟩ := s
  cases action with
  | createTable columns constraints => exact h.withLock h.creating
  | insert columns values => exact h.insert columns values
  | select columns condition => exact h.select columns condition
  | delete condition | update assignments condition =>
    exact h.logged fun t t' ht => by
      rw [ht.matching]
      exact ⟨rfl, rfl⟩

/-- A query about a table is answered alike by engines that are related with respect to it. -/
theorem answer {e e' : Engine} {sql : String} {s : Statement} (h : Respects R s.table)
    (hs : Statement.ofText sql = .ok s) (hr : R e e') :
    (e'.answer sql).1 = (e.answer sql).1 ∧ R (e.answer sql).2 (e'.answer sql).2 := by
  have hpair := h.executeStatement hr
  rw [executeStatement_eq_result hs, executeStatement_eq_result hs] at hpair
  cases ha : (e.answer sql).1 <;> cases ha' : (e'.answer sql).1 <;> rw [ha, ha'] at hpair
  · obtain _ | ⟨_, hr₁⟩ := hpair
    exact ⟨rfl, hr₁⟩
  · cases hpair
  · cases hpair
  · obtain ⟨rfl, hr₁⟩ | _ := hpair
    exact ⟨rfl, hr₁⟩

end Respects

end RelStore.Engine
