import RelStore.Proofs.Engine.Effects
import RelStore.Proofs.Engine.Twins

/-!
# Statements on different tables commute

A statement sees of an engine no more than its own table and whether the catalog's file can be opened
(`SameAt`, `respects_sameAt`), and all this is left alone by a statement on another table where nothing
fails (`sameAt_answer`). So two statements on different tables have the same answers in both orders,
and leave engines that are the same at each table (`sameAt_both`). The catalog tells the orders apart
only if both create their tables (`statements_commute`).
-/

namespace RelStore.Engine

open Sql (IsWord Statement)
open Text.Utf8 (Bytes)

/-- The engine behind two queries, one after the other. -/
def both (e : Engine) (first second : String) : Engine := ((e.answer first).2.answer second).2

/-- The catalog lists these tables behind those of an engine, in memory and in its file. -/
structure Lists (e : Engine) (names : List String) (e' : Engine) : Prop where
  tables : e'.catalog.tables = e.catalog.tables ++ names
  file : e'.directory.get? (e.directory.location ++ [Catalog.reserved]) =
    some (.file (e.directory.contents Catalog.reserved ++ names.flatMap Catalog.record))

/-- What two queries on an engine, which spell these statements, come to in both orders. -/
structure Commutes (e : Engine) (sql₁ sql₂ : String) (s₁ s₂ : Statement) : Prop where
  first : ((e.answer sql₂).2.answer sql₁).1 = (e.answer sql₁).1
  second : ((e.answer sql₁).2.answer sql₂).1 = (e.answer sql₂).1
  /-- The live rows of every table are the same; a table's name is a word, and not the catalog's. -/
  live (name : String) : IsWord name → name ≠ Catalog.reserved →
    (e.both sql₂ sql₁).live name = (e.both sql₁ sql₂).live name
  /-- All files are the same, that of the catalog apart. -/
  file (location : Location) : location ≠ e.directory.location ++ [Catalog.reserved] →
    (e.both sql₂ sql₁).directory.get? location = (e.both sql₁ sql₂).directory.get? location
  held : (e.both sql₂ sql₁).locks.held = (e.both sql₁ sql₂).locks.held
  tables : (e.both sql₂ sql₁).catalog.tables.Perm (e.both sql₁ sql₂).catalog.tables
  /-- Unless both create their tables, the catalog and its file are the same. -/
  catalog : ¬ (Creates s₁ (e.answer sql₁).1 ∧ Creates s₂ (e.answer sql₂).1) →
    (e.both sql₂ sql₁).catalog.tables = (e.both sql₁ sql₂).catalog.tables ∧
      (e.both sql₂ sql₁).directory.get? (e.directory.location ++ [Catalog.reserved]) =
        (e.both sql₁ sql₂).directory.get? (e.directory.location ++ [Catalog.reserved])
  /-- If both create their tables, these are listed in the order of the queries. -/
  created : Creates s₁ (e.answer sql₁).1 → Creates s₂ (e.answer sql₂).1 →
    e.Lists [s₁.table, s₂.table] (e.both sql₁ sql₂) ∧ e.Lists [s₂.table, s₁.table] (e.both sql₂ sql₁)

variable {e e' e'' : Engine} {name sql sql₁ sql₂ : String} {s s₁ s₂ : Statement}

/-! ## The same at one table -/

/-- Two engines without faults that are the same as far as statements on one table go. -/
structure SameAt (name : String) (e e' : Engine) : Prop where
  faults : e.sink.faults = {}
  faults' : e'.sink.faults = {}
  isLocked : e'.locks.isLocked name = e.locks.isLocked name
  known : e'.catalog.contains name = e.catalog.contains name
  held : Option.Rel Table.Alike (e.tables.get? name) (e'.tables.get? name)
  file : name ≠ Catalog.reserved → Directory.SameFile name e.directory e'.directory
  opens : e'.directory.Opens Catalog.reserved ↔ e.directory.Opens Catalog.reserved

namespace SameAt

theorem symm (h : SameAt name e e') : SameAt name e' e where
  faults := h.faults'
  faults' := h.faults
  isLocked := h.isLocked.symm
  known := h.known.symm
  held := by
    match e.tables.get? name, e'.tables.get? name, h.held with
    | _, _, .some ht => exact .some ht.symm
    | _, _, .none => exact .none
  file hne := (h.file hne).symm
  opens := h.opens.symm

theorem trans (h : SameAt name e e') (h' : SameAt name e' e'') : SameAt name e e'' where
  faults := h.faults
  faults' := h'.faults'
  isLocked := h'.isLocked.trans h.isLocked
  known := h'.known.trans h.known
  held := by
    match e.tables.get? name, e'.tables.get? name, e''.tables.get? name, h.held, h'.held with
    | _, _, _, .some ht, .some ht' => exact .some (ht.trans ht')
    | _, _, _, .none, .none => exact .none
  file hne := (h.file hne).trans (h'.file hne)
  opens := h'.opens.trans h.opens

/-- The live rows of the table are the same. -/
theorem live (h : SameAt name e e') (hw : IsWord name) (hne : name ≠ Catalog.reserved) :
    e'.live name = e.live name := by
  unfold Engine.live view
  match e.tables.get? name, e'.tables.get? name, h.held with
  | _, _, .some ht => exact congrArg Except.ok ht.scan
  | _, _, .none =>
    dsimp only
    match Table.load name e.order e.directory, Table.load name e'.order e'.directory,
      Table.alike_load ((h.file hne).lookup hw) e.order e'.order with
    | _, _, .ok ht => exact congrArg Except.ok ht.scan
    | _, _, .error _ => rfl

end SameAt

/-- Appending to the table's own file or to the catalog's. -/
theorem twins_append_sameAt {written : String} (hw : IsWord written)
    (hopens : ∀ e e', SameAt name e e' →
      (e'.directory.Opens written ↔ e.directory.Opens written)) (bytes : Bytes) :
    Twins (SameAt name) Eq (append written bytes) (append written bytes) := by
  intro e e' h
  have hiff := hopens e e' h
  rcases append_faultless hw h.faults bytes with
    ⟨sink, ha, hs, hg⟩ | ⟨hno, sink, ha, hs, hd⟩ <;>
  rcases append_faultless hw h.faults' bytes with
    ⟨sink', ha', hs', hg'⟩ | ⟨hno', sink', ha', hs', hd'⟩ <;> rw [ha, ha']
  · refine .ok rfl ⟨hs, hs', h.isLocked, h.known, h.held, fun hne => hg.sameFile hg' (h.file hne), ?_⟩
    exact (hg'.opens_iff.trans h.opens).trans hg.opens_iff.symm
  · exact absurd (hiff.2 hg.opens) hno'
  · exact absurd (hiff.1 hg'.opens) hno
  · have hfile (hne : name ≠ Catalog.reserved) :
        Directory.SameFile name sink.directory sink'.directory := by
      rw [hd, hd']
      exact h.file hne
    have hreserved : sink'.directory.Opens Catalog.reserved ↔
        sink.directory.Opens Catalog.reserved := by
      rw [hd, hd']
      exact h.opens
    exact .error _ ⟨hs, hs', h.isLocked, h.known, h.held, hfile, hreserved⟩

theorem contains_register (catalog : Catalog) (name : String) :
    (catalog.register name).2.contains name = true := by
  show (name == Catalog.reserved || (catalog.names.insert name ()).contains name) = true
  rw [OrderedMap.contains, OrderedMap.get?_insert_self, Option.isSome_some, Bool.or_true]

/-- A statement on a table sees no more of an engine than what is the same. -/
theorem respects_sameAt (hw : IsWord name) : Respects (SameAt name) name where
  isLocked h := h.isLocked
  taken h := by
    refine ⟨h.faults, h.faults', ?_, h.known, h.held, h.file, h.opens⟩
    rw [Bool.eq_iff_iff, Locks.isLocked_taken, Locks.isLocked_taken, h.isLocked]
  released h := by
    refine ⟨h.faults, h.faults', ?_, h.known, h.held, h.file, h.opens⟩
    rw [Bool.eq_iff_iff, Locks.isLocked_release, Locks.isLocked_release, h.isLocked]
  known h := h.known
  register h := by
    refine ⟨h.faults, h.faults', h.isLocked, ?_, h.held, h.file, h.opens⟩
    rw [contains_register, contains_register]
  append bytes hne := twins_append_sameAt hw (fun _ _ h => (h.file hne).opens_iff) bytes
  record _ := twins_append_sameAt isWord_reserved (fun _ _ h => h.opens) _
  held h := h.held
  file hne h := (h.file hne).lookup hw
  hold ht h := by
    refine ⟨h.faults, h.faults', h.isLocked, h.known, ?_, h.file, h.opens⟩
    rw [OrderedMap.get?_insert_self, OrderedMap.get?_insert_self]
    exact .some ht

/-! ## Statements on other tables -/

theorem Sound.held (h : e.Sound) (name : String) :
    Option.Rel Table.Alike (e.tables.get? name) (e.tables.get? name) := by
  cases hg : e.tables.get? name with
  | some t => exact .some (.refl (h name t hg))
  | none => exact .none

/-- A statement on another table is not noticed where nothing fails. -/
theorem sameAt_answer (h : e.Sound) (hfaults : e.sink.faults = {})
    (hs : Statement.ofText sql = .ok s) (hne : name ≠ s.table) : SameAt name e (e.answer sql).2 := by
  have huntouched := leaves_executeStatement (Sql.isWord_table hs) hne e
  have hstays := stays_executeStatement s e
  rw [ending_executeStatement hs] at huntouched hstays
  have hfiles : (name ≠ Catalog.reserved →
        Directory.SameFile name e.directory (e.answer sql).2.directory) ∧
      ((e.answer sql).2.directory.Opens Catalog.reserved ↔
        e.directory.Opens Catalog.reserved) := by
    rcases effect_answer hs hfaults with ⟨-, hcreated⟩ | ⟨-, hconfined⟩
    · obtain ⟨made, hsole, hgrown⟩ := hcreated.files
      have hreserved := hsole.sameFile (ne_reserved_of_new hcreated.new).symm
      exact ⟨fun hr => (hsole.sameFile hne).trans (hgrown.sole.sameFile hr),
        hgrown.opens_iff.trans hreserved.opens_iff⟩
    · exact ⟨fun _ => hconfined.sole.sameFile hne, hconfined.reserved.opens_iff⟩
  refine ⟨hfaults, faults_answer hs hfaults, ?_, huntouched.catalog, ?_, hfiles.1, hfiles.2⟩
  · rw [Locks.isLocked, hstays.held]
    rfl
  · rw [huntouched.tables]
    exact h.held name

/-- Two statements on different tables, in both orders: their answers are the same, and so is what is
left at each table. -/
theorem sameAt_both (h : e.Sound) (hfaults : e.sink.faults = {})
    (hs₁ : Statement.ofText sql₁ = .ok s₁) (hs₂ : Statement.ofText sql₂ = .ok s₂)
    (hne : s₁.table ≠ s₂.table) :
    ((e.answer sql₂).2.answer sql₁).1 = (e.answer sql₁).1 ∧
      ((e.answer sql₁).2.answer sql₂).1 = (e.answer sql₂).1 ∧
      ∀ name, SameAt name (e.both sql₁ sql₂) (e.both sql₂ sql₁) := by
  have hsound₁ := h.answer sql₁
  have hsound₂ := h.answer sql₂
  have hsame₁ (name : String) (hn : name ≠ s₁.table) := sameAt_answer h hfaults hs₁ hn
  have hsame₂ (name : String) (hn : name ≠ s₂.table) := sameAt_answer h hfaults hs₂ hn
  have hfaults₁ := faults_answer hs₁ hfaults
  have hfaults₂ := faults_answer hs₂ hfaults
  have hsame₁₂ (name : String) (hn : name ≠ s₂.table) := sameAt_answer hsound₁ hfaults₁ hs₂ hn
  have hsame₂₁ (name : String) (hn : name ≠ s₁.table) := sameAt_answer hsound₂ hfaults₂ hs₁ hn
  obtain ⟨hanswer₁, hat₁⟩ :=
    (respects_sameAt (Sql.isWord_table hs₁)).answer hs₁ (hsame₂ s₁.table hne)
  obtain ⟨hanswer₂, hat₂⟩ :=
    (respects_sameAt (Sql.isWord_table hs₂)).answer hs₂ (hsame₁ s₂.table hne.symm)
  refine ⟨hanswer₁, hanswer₂, fun name => ?_⟩
  by_cases hn₁ : name = s₁.table
  · subst hn₁
    exact (hsame₁₂ _ hne).symm.trans hat₁
  · by_cases hn₂ : name = s₂.table
    · subst hn₂
      exact hat₂.symm.trans (hsame₂₁ _ hne.symm)
    · exact ((hsame₁₂ name hn₂).symm.trans (hsame₁ name hn₁).symm).trans
        ((hsame₂ name hn₂).trans (hsame₂₁ name hn₁))

/-! ## The catalog -/

/-- Two engines with the same catalog, in memory and on file. -/
structure SameCatalog (e e' : Engine) : Prop where
  tables : e'.catalog.tables = e.catalog.tables
  file : Directory.SameFile Catalog.reserved e.directory e'.directory

theorem SameCatalog.symm (h : SameCatalog e e') : SameCatalog e' e :=
  ⟨h.tables.symm, h.file.symm⟩

theorem SameCatalog.trans (h : SameCatalog e e') (h' : SameCatalog e' e'') : SameCatalog e e'' :=
  ⟨h'.tables.trans h.tables, h.file.trans h'.file⟩

theorem Confined.sameCatalog (h : Confined name e e') : SameCatalog e e' :=
  ⟨congrArg Catalog.tables h.catalog, h.reserved⟩

/-- A statement with the same answer on two engines does the same to their catalogs. -/
theorem SameCatalog.answer (h : SameCatalog e e') (hs : Statement.ofText sql = .ok s)
    (hfaults : e.sink.faults = {}) (hfaults' : e'.sink.faults = {})
    (hanswer : (e'.answer sql).1 = (e.answer sql).1) :
    SameCatalog (e.answer sql).2 (e'.answer sql).2 := by
  by_cases hc : Creates s (e.answer sql).1
  · have hcreated := created_answer hs hfaults hc
    have hcreated' := created_answer hs hfaults' (hanswer ▸ hc)
    refine ⟨?_, hcreated.sameFile hcreated' h.file⟩
    rw [hcreated.tables, hcreated'.tables, h.tables]
  · have hconfined := confined_answer hs hfaults hc
    have hconfined' := confined_answer hs hfaults' (hanswer ▸ hc)
    exact (hconfined.sameCatalog.symm.trans h).trans hconfined'.sameCatalog

/-- Where the second of two statements creates nothing, it does not matter to the catalog that it is the
second. -/
theorem sameCatalog_both (hfaults : e.sink.faults = {}) (hs₁ : Statement.ofText sql₁ = .ok s₁)
    (hs₂ : Statement.ofText sql₂ = .ok s₂)
    (hanswer₁ : ((e.answer sql₂).2.answer sql₁).1 = (e.answer sql₁).1)
    (hanswer₂ : ((e.answer sql₁).2.answer sql₂).1 = (e.answer sql₂).1)
    (hn : ¬ Creates s₂ (e.answer sql₂).1) : SameCatalog (e.both sql₁ sql₂) (e.both sql₂ sql₁) := by
  have hfaults₁ := faults_answer hs₁ hfaults
  have hfaults₂ := faults_answer hs₂ hfaults
  have hconfined := confined_answer hs₂ hfaults hn
  have hconfined₁ := confined_answer hs₂ hfaults₁ (hanswer₂ ▸ hn)
  exact hconfined₁.sameCatalog.symm.trans
    (hconfined.sameCatalog.answer hs₁ hfaults hfaults₂ hanswer₁)

/-- Two tables that are created one after the other. -/
theorem lists_of_created {name' : String} (h : Created name e e') (h' : Created name' e' e'') :
    e.Lists [name, name'] e'' where
  tables := by rw [h'.tables, h.tables, List.append_assoc]; rfl
  file := by
    have hcontents : e'.directory.contents Catalog.reserved =
        e.directory.contents Catalog.reserved ++ Catalog.record name := by
      unfold Directory.contents
      rw [h.frame.location, h.file]
      rfl
    rw [← h.frame.location, h'.file, hcontents, List.append_assoc]
    simp

/-! ## Both orders -/

/-- Without faults, two statements leave alone all that stands elsewhere than in their tables' files
and the catalog's. -/
theorem elsewhere_both (hfaults : e.sink.faults = {}) (hs₁ : Statement.ofText sql₁ = .ok s₁)
    (hs₂ : Statement.ofText sql₂ = .ok s₂) :
    Directory.SameFrame e.directory (e.both sql₁ sql₂).directory ∧
      ∀ location, location ≠ e.directory.location ++ [s₁.table] →
        location ≠ e.directory.location ++ [s₂.table] →
        location ≠ e.directory.location ++ [Catalog.reserved] →
        (e.both sql₁ sql₂).directory.get? location = e.directory.get? location := by
  obtain ⟨hframe, hget⟩ := elsewhere_answer hs₁ hfaults
  obtain ⟨hframe', hget'⟩ := elsewhere_answer hs₂ (faults_answer hs₁ hfaults)
  refine ⟨hframe.trans hframe', fun location hl₁ hl₂ hr => ?_⟩
  rw [hframe.location] at hget'
  exact (hget' location hl₂ hr).trans (hget location hl₁ hr)

theorem held_both (hs₁ : Statement.ofText sql₁ = .ok s₁) (hs₂ : Statement.ofText sql₂ = .ok s₂)
    (e : Engine) : (e.both sql₁ sql₂).locks.held = e.locks.held := by
  have hstays := stays_executeStatement s₁ e
  have hstays' := stays_executeStatement s₂ (e.answer sql₁).2
  rw [ending_executeStatement hs₁] at hstays
  rw [ending_executeStatement hs₂] at hstays'
  exact hstays'.held.trans hstays.held

/-- Wherever an engine comes to, on files where nothing fails any more, statements on different tables
commute. -/
theorem statements_commute (h : e.Reachable) (hfaults : e.sink.faults = {})
    (hs₁ : Statement.ofText sql₁ = .ok s₁) (hs₂ : Statement.ofText sql₂ = .ok s₂)
    (hne : s₁.table ≠ s₂.table) : Commutes e sql₁ sql₂ s₁ s₂ := by
  obtain ⟨hanswer₁, hanswer₂, hsame⟩ := sameAt_both h.sound hfaults hs₁ hs₂ hne
  obtain ⟨hframe, hget⟩ := elsewhere_both hfaults hs₁ hs₂
  obtain ⟨-, hget'⟩ := elsewhere_both hfaults hs₂ hs₁
  have hfaults₁ := faults_answer hs₁ hfaults
  have hfaults₂ := faults_answer hs₂ hfaults
  have hcreated (hc₁ : Creates s₁ (e.answer sql₁).1) (hc₂ : Creates s₂ (e.answer sql₂).1) :
      e.Lists [s₁.table, s₂.table] (e.both sql₁ sql₂) ∧
        e.Lists [s₂.table, s₁.table] (e.both sql₂ sql₁) :=
    ⟨lists_of_created (created_answer hs₁ hfaults hc₁)
        (created_answer hs₂ hfaults₁ (hanswer₂ ▸ hc₂)),
      lists_of_created (created_answer hs₂ hfaults hc₂)
        (created_answer hs₁ hfaults₂ (hanswer₁ ▸ hc₁))⟩
  have hcatalog (hn : ¬ (Creates s₁ (e.answer sql₁).1 ∧ Creates s₂ (e.answer sql₂).1)) :
      SameCatalog (e.both sql₁ sql₂) (e.both sql₂ sql₁) := by
    by_cases hc₂ : Creates s₂ (e.answer sql₂).1
    · have hn₁ : ¬ Creates s₁ (e.answer sql₁).1 := fun hc₁ => hn ⟨hc₁, hc₂⟩
      exact (sameCatalog_both hfaults hs₂ hs₁ hanswer₂ hanswer₁ hn₁).symm
    · exact sameCatalog_both hfaults hs₁ hs₂ hanswer₁ hanswer₂ hc₂
  refine ⟨hanswer₁, hanswer₂, fun name hw hn => (hsame name).live hw hn, fun location hr => ?_, ?_, ?_,
    fun hn => ⟨(hcatalog hn).tables, ?_⟩, hcreated⟩
  · -- each table's file is the same by what is seen there, and all else stands as before
    have hfile (name : String) (hl : location = e.directory.location ++ [name]) :
        (e.both sql₂ sql₁).directory.get? location =
          (e.both sql₁ sql₂).directory.get? location := by
      have hn : name ≠ Catalog.reserved := fun hn => hr (hn ▸ hl)
      have hsame' := ((hsame name).file hn).file
      rw [hframe.location] at hsame'
      rw [hl, hsame']
    by_cases hl₁ : location = e.directory.location ++ [s₁.table]
    · exact hfile _ hl₁
    · by_cases hl₂ : location = e.directory.location ++ [s₂.table]
      · exact hfile _ hl₂
      · rw [hget location hl₁ hl₂ hr, hget' location hl₂ hl₁ hr]
  · rw [held_both hs₁ hs₂, held_both hs₂ hs₁]
  · by_cases hc : Creates s₁ (e.answer sql₁).1 ∧ Creates s₂ (e.answer sql₂).1
    · obtain ⟨hlists, hlists'⟩ := hcreated hc.1 hc.2
      rw [hlists.tables, hlists'.tables]
      exact (List.Perm.swap ..).append_left _
    · rw [(hcatalog hc).tables]
  · have hsame' := (hcatalog hn).file.file
    rw [hframe.location] at hsame'
    exact hsame'

/-- Two tables are created on the empty root; the catalog lists them in the order of the queries. -/
theorem statements_commute_for_new_tables :
    let sink : Sink := { writer := { directory := .root } }
    let sql₁ := "CREATE TABLE t (id INT)"
    let sql₂ := "CREATE TABLE u (id INT)"
    ∃ e s₁ s₂, openOn {} sink = .ok e ∧ e.Reachable ∧ e.sink.faults = {} ∧
      Statement.ofText sql₁ = .ok s₁ ∧ Statement.ofText sql₂ = .ok s₂ ∧ s₁.table ≠ s₂.table ∧
      Commutes e sql₁ sql₂ s₁ s₂ ∧ (e.both sql₁ sql₂).catalog.tables = ["t", "u"] ∧
      (e.both sql₂ sql₁).catalog.tables = ["u", "t"] := by
  intro sink sql₁ sql₂
  have hconfig : ({} : Config).validate = .ok () := by decide
  have hfits : sink.directory.Fits Catalog.reserved := by decide
  have hfresh : sink.directory.Fresh := Directory.fresh_root
  obtain ⟨e, hopen⟩ := exists_openOn hconfig hfresh hfits
  have hreached : e.Reachable := .opened hopen
  have hfaults : e.sink.faults = {} := by
    obtain ⟨-, order, catalog, -, -, rfl⟩ := openOn_eq_ok.1 hopen
    rfl
  have hs₁ : Statement.ofText sql₁ = .ok ⟨sql₁, "t", .createTable [{ name := "id", dataType := .int }] []⟩ := by
    decide +kernel
  have hs₂ : Statement.ofText sql₂ = .ok ⟨sql₂, "u", .createTable [{ name := "id", dataType := .int }] []⟩ := by
    decide +kernel
  have hne : "t" ≠ "u" := by decide
  have hrun : (openOn {} sink).toOption.map (fun e =>
      ((e.both sql₁ sql₂).catalog.tables, (e.both sql₂ sql₁).catalog.tables)) =
        some (["t", "u"], ["u", "t"]) := by
    decide +kernel
  rw [hopen] at hrun
  obtain ⟨htables, htables'⟩ := Prod.mk.inj (Option.some.inj hrun)
  exact ⟨e, _, _, hopen, hreached, hfaults, hs₁, hs₂, hne,
    statements_commute hreached hfaults hs₁ hs₂ hne, htables, htables'⟩

end RelStore.Engine
