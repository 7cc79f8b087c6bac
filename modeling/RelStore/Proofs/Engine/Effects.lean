import RelStore.Proofs.Engine.Isolation

/-!
# What a statement does where nothing fails

On a sink without faults, appending to a word that can be opened puts the bytes behind what stands in
its file (`Directory.Grown`), and does nothing to the files otherwise. So a statement changes nothing
but the file of its table (`Confined`), unless it creates the table, which is then written into the
catalog's file and added to the catalog (`Created`).
-/

namespace RelStore

open Sql (IsWord Statement)
open Text.Utf8 (Bytes)

namespace Engine

variable {e e' e'' : Engine} {name sql : String} {s : Statement}

/-! ## Statements that create nothing -/

/-- Of the files only the one of this table is changed, and never the catalog's. -/
structure Confined (name : String) (e e' : Engine) : Prop where
  faults : e'.sink.faults = e.sink.faults
  catalog : e'.catalog = e.catalog
  sole : Directory.Sole name e.directory e'.directory
  reserved : Directory.SameFile Catalog.reserved e.directory e'.directory

namespace Confined

theorem refl (name : String) (e : Engine) : Confined name e e := ⟨rfl, rfl, .refl .., .refl ..⟩

theorem trans (h : Confined name e e') (h' : Confined name e' e'') : Confined name e e'' where
  faults := h'.faults.trans h.faults
  catalog := h'.catalog.trans h.catalog
  sole := h.sole.trans h'.sole
  reserved := h.reserved.trans h'.reserved

end Confined

theorem covers_confined (hw : IsWord name) : Covers (Confined name) name where
  refl := .refl name
  trans := .trans
  locks _ _ := ⟨rfl, rfl, .refl .., .refl ..⟩
  hold _ _ := ⟨rfl, rfl, .refl .., .refl ..⟩
  append bytes hne e := by
    obtain ⟨sink, he, hfaults, hsole⟩ := append_sole hw bytes e
    rw [he]
    exact ⟨hfaults, rfl, hsole, hsole.sameFile hne.symm⟩

/-! ## Creating a table -/

/-- A table was created: its file was made, and its name stands in the catalog, and in the catalog's
file behind what stood there. -/
structure Created (name : String) (e e' : Engine) : Prop where
  new : e.catalog.contains name = false
  faults : e'.sink.faults = e.sink.faults
  catalog : e'.catalog = (e.catalog.register name).2
  files : ∃ made, Directory.Sole name e.directory made ∧
    Directory.Grown Catalog.reserved (Catalog.record name) made e'.directory

theorem ne_reserved_of_new (h : e.catalog.contains name = false) : name ≠ Catalog.reserved := by
  rintro rfl
  cases h

theorem not_mem_of_new (h : e.catalog.contains name = false) : name ∉ e.catalog.tables := by
  intro hm
  rw [Catalog.contains, OrderedMap.contains_iff.2 hm, Bool.or_true] at h
  cases h

/-- Without faults a table is created, or nothing is changed but its file. -/
theorem creating_faultless (hw : IsWord name) (hfaults : e.sink.faults = {}) :
    (∃ result e', creating name e = .ok result e' ∧ Created name e e') ∨
      ∃ error e', creating name e = .error error e' ∧ Confined name e e' := by
  cases hnew : e.catalog.contains name with
  | true => exact .inr ⟨_, _, creating_of_known hnew, .refl name e⟩
  | false =>
    have hne := ne_reserved_of_new hnew
    have hrun := creating_of_new hnew
    rcases append_faultless hw hfaults [] with
      ⟨sink, happend, hsink, hgrown⟩ | ⟨-, sink, happend, hsink, hd⟩
    · rcases append_faultless (e := { e with sink }) isWord_reserved hsink (Catalog.record name) with
        ⟨sink', happend', hsink', hgrown'⟩ | ⟨-, sink', happend', hsink', hd⟩
      · exact .inl ⟨_, _, hrun.trans ((bind_of_ok happend).trans (bind_of_ok happend')), hnew,
          hsink'.trans hfaults.symm, rfl, sink.directory, hgrown.sole, hgrown'⟩
      · have hsole : Directory.Sole name e.directory sink'.directory := hd ▸ hgrown.sole
        exact .inr ⟨_, _, hrun.trans ((bind_of_ok happend).trans (bind_of_error happend')),
          hsink'.trans hfaults.symm, rfl, hsole, hsole.sameFile hne.symm⟩
    · have hsole : Directory.Sole name e.directory sink.directory := hd ▸ .refl ..
      exact .inr ⟨_, _, hrun.trans (bind_of_error happend), hsink.trans hfaults.symm, rfl, hsole,
        hsole.sameFile hne.symm⟩

theorem Created.frame (h : Created name e e') :
    Directory.SameFrame e.directory e'.directory := by
  obtain ⟨made, hsole, hgrown⟩ := h.files
  exact hsole.frame.trans hgrown.sole.frame

theorem Created.tables (h : Created name e e') : e'.catalog.tables = e.catalog.tables ++ [name] := by
  rw [h.catalog]
  exact (OrderedMap.keys_insert ..).trans (if_neg (not_mem_of_new h.new))

/-- What the catalog's file holds where a table was created. -/
theorem Created.file (h : Created name e e') :
    e'.directory.get? (e.directory.location ++ [Catalog.reserved]) =
      some (.file (e.directory.contents Catalog.reserved ++ Catalog.record name)) := by
  obtain ⟨made, hsole, hgrown⟩ := h.files
  have hsame := hsole.sameFile (ne_reserved_of_new h.new).symm
  rw [← hsole.frame.location, hgrown.file, hsame.contents]

/-- A table that is created in two engines with the same catalog leaves them with the same. -/
theorem Created.sameFile {f f' : Engine} (h : Created name e e') (h' : Created name f f')
    (hs : Directory.SameFile Catalog.reserved e.directory f.directory) :
    Directory.SameFile Catalog.reserved e'.directory f'.directory := by
  have hne := (ne_reserved_of_new h.new).symm
  obtain ⟨made, hsole, hgrown⟩ := h.files
  obtain ⟨made', hsole', hgrown'⟩ := h'.files
  exact hgrown.sameFile hgrown' (((hsole.sameFile hne).symm.trans hs).trans (hsole'.sameFile hne))

/-! ## Statements -/

/-- Whether a statement that has this answer has created its table. -/
def Creates (s : Statement) (answer : Except Error QueryResult) : Prop :=
  (∃ columns constraints, s.action = .createTable columns constraints) ∧
    ∃ result, answer = .ok result

theorem answer_of_result {answer : Except Error QueryResult} (hs : Statement.ofText sql = .ok s)
    (h : executeStatement s e = result answer e') : e.answer sql = (answer, e') := by
  unfold Engine.answer execute
  rw [hs]
  dsimp only
  rw [h]
  cases answer <;> rfl

theorem ending_executeStatement (hs : Statement.ofText sql = .ok s) (e : Engine) :
    ending (executeStatement s e) = (e.answer sql).2 := by
  rw [executeStatement_eq_result hs]
  cases (e.answer sql).1 <;> rfl

/-- Without faults, a statement that does not create its table changes nothing but the file of it. -/
theorem effect_answer (hs : Statement.ofText sql = .ok s) (hfaults : e.sink.faults = {}) :
    Creates s (e.answer sql).1 ∧ Created s.table e (e.answer sql).2 ∨
      ¬ Creates s (e.answer sql).1 ∧ Confined s.table e (e.answer sql).2 := by
  have hw := Sql.isWord_table hs
  by_cases hcreate : ∃ columns constraints, s.action = .createTable columns constraints
  · obtain ⟨columns, constraints, haction⟩ := hcreate
    cases hl : e.locks.isLocked s.table with
    | true =>
      rw [answer_of_locked hs hl]
      exact .inr ⟨fun ⟨_, _, h⟩ => (nomatch h), .refl _ e⟩
    | false =>
      have hstatement : executeStatement s = withLock s.table (creating s.table) := by
        unfold executeStatement
        rw [haction]
        rfl
      have hrun := withLock_of_free (blind_creating s.table) hl
      rw [← hstatement] at hrun
      rcases creating_faultless hw hfaults with
        ⟨result, e', hcreating, hcreated⟩ | ⟨error, e', hcreating, hconfined⟩
      · rw [hcreating] at hrun
        have hanswer : e.answer sql = (.ok result, _) := answer_of_result hs hrun
        rw [hanswer]
        exact .inl ⟨⟨⟨columns, constraints, haction⟩, result, rfl⟩, hcreated.new, hcreated.faults,
          hcreated.catalog, hcreated.files⟩
      · rw [hcreating] at hrun
        have hanswer : e.answer sql = (.error error, _) := answer_of_result hs hrun
        rw [hanswer]
        exact .inr ⟨fun ⟨_, _, h⟩ => (nomatch h), hconfined.faults, hconfined.catalog, hconfined.sole,
          hconfined.reserved⟩
  · have hconfined := (covers_confined hw).executeStatement
      (fun columns constraints h => absurd ⟨columns, constraints, h⟩ hcreate) e
    rw [ending_executeStatement hs] at hconfined
    exact .inr ⟨fun h => hcreate h.1, hconfined⟩

theorem created_answer (hs : Statement.ofText sql = .ok s) (hfaults : e.sink.faults = {})
    (h : Creates s (e.answer sql).1) : Created s.table e (e.answer sql).2 :=
  ((effect_answer hs hfaults).resolve_right fun hn => hn.1 h).2

theorem confined_answer (hs : Statement.ofText sql = .ok s) (hfaults : e.sink.faults = {})
    (h : ¬ Creates s (e.answer sql).1) : Confined s.table e (e.answer sql).2 :=
  ((effect_answer hs hfaults).resolve_left fun hc => h hc.1).2

theorem faults_answer (hs : Statement.ofText sql = .ok s) (hfaults : e.sink.faults = {}) :
    (e.answer sql).2.sink.faults = {} := by
  rcases effect_answer hs hfaults with ⟨-, hcreated⟩ | ⟨-, hconfined⟩
  · exact hcreated.faults.trans hfaults
  · exact hconfined.faults.trans hfaults

/-- Without faults, a statement leaves alone all that stands elsewhere than its table's file and the
catalog's. -/
theorem elsewhere_answer (hs : Statement.ofText sql = .ok s) (hfaults : e.sink.faults = {}) :
    Directory.SameFrame e.directory (e.answer sql).2.directory ∧
      ∀ location, location ≠ e.directory.location ++ [s.table] →
        location ≠ e.directory.location ++ [Catalog.reserved] →
        (e.answer sql).2.directory.get? location = e.directory.get? location := by
  rcases effect_answer hs hfaults with ⟨-, hcreated⟩ | ⟨-, hconfined⟩
  · obtain ⟨made, hsole, hgrown⟩ := hcreated.files
    refine ⟨hsole.frame.trans hgrown.sole.frame, fun location hl hr => ?_⟩
    rw [hgrown.sole.get? location (hsole.frame.location ▸ hr), hsole.get? location hl]
  · exact ⟨hconfined.sole.frame, fun location hl _ => hconfined.sole.get? location hl⟩

end Engine

end RelStore
