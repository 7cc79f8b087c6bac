import RelStore.Proofs.Engine.Agreement

/-!
# Statements on engines and machines

Each kind of statement is answered by an engine as by a machine that it agrees with, and both
agree again afterwards (`executeStatement_agrees`). A statement that fails before it writes
leaves the engine as it was, up to what it has loaded; one whose write fails may have taken a
row id.
-/

namespace RelStore

open Sql (IsWord Statement Action Condition)

/-! ## A table that is listed -/

theorem Database.execute_of_listed {db : Database} {s : Statement} {rows : List Row}
    (hg : db.tables.get? s.table = some rows) :
    db.execute s = (act s.table rows s.action).map fun answer =>
      (answer.1, ⟨db.tables.insert s.table answer.2⟩) := by
  unfold execute
  rw [hg]
  cases s.action <;> rfl

namespace Machine

theorem execute_of_listed {m : Machine} {s : Statement} {rows : List Row}
    (hg : m.database.tables.get? s.table = some rows) :
    m.execute s =
      match Database.act s.table rows s.action with
      | .error e => (.error e, m)
      | .ok (result, rows) =>
        match m.port.appendAll (targets s result) with
        | (.ok (), port) => (.ok result, ⟨⟨m.database.tables.insert s.table rows⟩, port⟩)
        | (.error e, port) => (.error e, { m with port }) := by
  unfold execute
  rw [Database.execute_of_listed hg]
  cases Database.act s.table rows s.action <;> rfl

end Machine

theorem Port.appendAll_singleton (p : Port) (name : String) : p.appendAll [name] = p.append name := by
  unfold appendAll
  rcases p.append name with ⟨_ | _, _⟩ <;> rfl

namespace Engine

variable {e : Engine} {m : Machine} {left left' : String → Nat} {name : String} {rows : List Row}

theorem setTable_eq (name : String) (t : Table) (e : Engine) :
    setTable name t e = .ok () { e with tables := e.tables.insert name t } := rfl

theorem insert_agrees (h : Agrees left e m) {source : String} {columns values : List String}
    (hg : m.database.tables.get? name = some rows)
    (hleft : ∀ other, left' other ≤ left other) (hid : left' name + 1 ≤ left name) :
    ∃ e', insert name columns values e =
        result (m.execute ⟨source, name, .insert columns values⟩).1 e' ∧
      Agrees left' e' (m.execute ⟨source, name, .insert columns values⟩).2 := by
  obtain ⟨t, log, tables, locks, ht, hget, hother, hlock⟩ := h.withTable hg fun t => do
    setTable name t.allocate.2
    append name (Record.insert t.nextId (.ofList (columns.zip values))).encode
    setTable name (t.allocate.2.apply (.insert t.nextId (.ofList (columns.zip values))))
    return { affected := 1, message := some "1 row(s) inserted" }
  have hm := Machine.execute_of_listed (s := ⟨source, name, .insert columns values⟩) hg
  dsimp only [Database.act, targets] at hm
  rw [Port.appendAll_singleton] at hm
  have hfits := m.port.fits_append name
  have hleft₁ : t.nextId.toNat + 1 < 2 ^ 64 := by have := ht.left; omega
  have hskip := Table.Follows.toNat_allocate hleft₁
  rcases append_spec (e := { e with tables := tables.insert name t.allocate.2, locks }) h.sink
      (h.words name (OrderedMap.mem_keys_of_get? hg)).1
      (Record.insert t.nextId (.ofList (columns.zip values))).encode with
    ⟨sink, port, hp, ha, hsink⟩ | ⟨sink, port, error, hp, ha, hsink⟩
  · obtain ⟨locks', hfree, hl⟩ := hlock (.ok _) _ (by
      rw [bind_of_ok (setTable_eq ..), bind_of_ok ha, bind_of_ok (setTable_eq ..)]
      rfl) rfl
    rw [hp] at hm hfits
    rw [hm]
    refine ⟨_, hl, ?_⟩
    obtain ⟨hf, hn, hs⟩ := ht.follows.insert hleft₁ (.ofList (columns.zip values))
    rw [← List.flatMap_singleton Record.encode] at hsink
    refine h.changed hleft hg ht hsink hfits hfree ?_ ?_ hf ?_ ?_
    · rw [OrderedMap.get?_insert, if_pos rfl]
    · intro other ho
      rw [OrderedMap.get?_insert, if_neg ho, OrderedMap.get?_insert, if_neg ho, hother other ho]
    · rw [hs, List.map_append, ht.rows]
      rfl
    · have := ht.left
      rw [hn, hskip]
      omega
  · obtain ⟨locks', hfree, hl⟩ := hlock (.error error) _ (by
      rw [bind_of_ok (setTable_eq ..), bind_of_error ha]
      rfl) rfl
    rw [hp] at hm hfits
    rw [hm]
    refine ⟨_, hl, h.stays hleft hg ht hsink hfits hfree ?_ ?_ (ht.follows.skip hleft₁) rfl ?_⟩
    · rw [OrderedMap.get?_insert, if_pos rfl]
    · intro other ho
      rw [OrderedMap.get?_insert, if_neg ho, hother other ho]
    · have := ht.left
      rw [hskip]
      omega

/-! ## Looking at a table -/

theorem matches_eq (condition : Option Condition) (row : Row) :
    Database.Matches condition row = Table.satisfies row condition := by
  cases condition with
  | none => rfl
  | some condition =>
    unfold Database.Matches Table.satisfies
    dsimp only
    cases row.get? condition.column with
    | none => rfl
    | some value => rw [Option.some_beq_some]; rfl

theorem map_matching {t : Table} (hr : t.scan.map Prod.snd = rows) (condition : Option Condition) :
    (t.matching condition).map Prod.snd = rows.filter (Database.Matches condition) := by
  rw [← hr, List.filter_map, funext (matches_eq condition)]
  rfl

theorem project_eq (columns : List String) : project columns = Database.shown columns := by
  funext row
  refine congrArg (List.map · columns) (funext fun column => ?_)
  show (row.get? column).getD nullText = _
  cases row.get? column <;> rfl

theorem hasColumn_eq {t : Table} (hr : t.scan.map Prod.snd = rows) (column : String) :
    (!t.hasColumn column) = rows.all fun row => !row.contains column := by
  show (!t.scan.any fun entry => entry.2.contains column) = _
  rw [← hr, List.all_map, List.not_any_eq_all_not]
  rfl

/-- What SELECT does with its table. -/
def selectFrom (name : String) (columns : List String) (condition : Option Condition)
    (t : Table) : EngineM QueryResult := do
  if t.size ≠ 0 then
    if let some column := columns.find? (!t.hasColumn ·) then
      throw (.columnNotFound column name)
  return { columns, rows := (t.matching condition).map fun entry => project columns entry.2 }

/-- What SELECT answers about these rows. -/
def selected (name : String) (columns : List String) (condition : Option Condition)
    (rows : List Row) : Except Error QueryResult :=
  match if rows = [] then none else Database.unknownColumn? columns rows with
  | some column => .error (.columnNotFound column name)
  | none => .ok {
      columns
      rows := (rows.filter (Database.Matches condition)).map (Database.shown columns) }

theorem selectFrom_eq {t : Table} (h : t.rows.Valid) (name : String) (columns : List String)
    (condition : Option Condition) (e : Engine) :
    selectFrom name columns condition t e =
      result (selected name columns condition (t.scan.map Prod.snd)) e := by
  have hsize : t.size = (t.scan.map Prod.snd).length := by rw [List.length_map]; exact h.size
  have hrows : (t.matching condition).map (fun entry => project columns entry.2) =
      ((t.scan.map Prod.snd).filter (Database.Matches condition)).map (Database.shown columns) := by
    rw [← map_matching rfl, List.map_map, project_eq]
    rfl
  have hfind : columns.find? (!t.hasColumn ·) =
      Database.unknownColumn? columns (t.scan.map Prod.snd) :=
    congrArg (List.find? · columns) (funext (hasColumn_eq rfl))
  unfold selectFrom selected
  dsimp only
  rw [hfind, hrows, hsize]
  by_cases hempty : t.scan.map Prod.snd = []
  · rw [if_pos hempty, if_neg (by simp [hempty])]
    rfl
  · rw [if_neg hempty, if_pos (mt List.length_eq_zero_iff.1 hempty)]
    cases Database.unknownColumn? columns (t.scan.map Prod.snd) <;> rfl

theorem select_agrees (h : Agrees left e m) {source : String} {columns : List String}
    {condition : Option Condition} (hg : m.database.tables.get? name = some rows)
    (hleft : ∀ other, left' other ≤ left other) :
    ∃ e', select name columns condition e =
        result (m.execute ⟨source, name, .select columns condition⟩).1 e' ∧
      Agrees left' e' (m.execute ⟨source, name, .select columns condition⟩).2 := by
  obtain ⟨t, log, tables, locks, ht, hget, hother, hlock⟩ :=
    h.withTable hg (selectFrom name columns condition)
  have hm := Machine.execute_of_listed (s := ⟨source, name, .select columns condition⟩) hg
  have hstays (locks' : Locks) (hfree : locks'.held = ∅) :
      Agrees left' { e with tables, locks := locks' } m :=
    h.stays hleft hg ht h.sink rfl hfree hget hother ht.follows rfl
      ((Nat.add_le_add_left (hleft name) _).trans_lt ht.left)
  dsimp only [Database.act, targets, Port.appendAll] at hm
  have hfrom := selectFrom_eq ht.follows.valid name columns condition { e with tables, locks }
  rw [ht.rows] at hfrom
  obtain ⟨locks', hfree, hl⟩ := hlock _ _ hfrom rfl
  refine ⟨{ e with tables, locks := locks' }, hl.trans ?_, ?_⟩
  · rw [hm, selected]
    cases if rows = [] then none else Database.unknownColumn? columns rows <;> rfl
  · rw [hm]
    cases if rows = [] then none else Database.unknownColumn? columns rows with
    | none =>
      dsimp only
      rw [OrderedMap.insert_of_get? hg]
      exact hstays locks' hfree
    | some column => exact hstays locks' hfree

/-! ## Records for some of the rows -/

theorem applyLogged_nil (name : String) (t : Table) (e : Engine) :
    applyLogged name t [] e = .ok () e := rfl

theorem applyLogged_of_ne_nil {records : List Record} (h : records ≠ []) (name : String)
    (t : Table) (e : Engine) :
    applyLogged name t records e = (append name (records.flatMap Record.encode) >>= fun _ =>
      setTable name (records.foldl Table.apply t)) e := by
  unfold applyLogged
  rw [if_pos (by rw [Bool.not_eq_true', List.isEmpty_eq_false_iff]; exact h)]

/-- A statement that writes records about rows of a table, all of them at once, and answers. -/
theorem logged_agrees (h : Agrees left e m) {s : Statement} (hname : s.table = name)
    (hg : m.database.tables.get? name = some rows) (hleft : ∀ other, left' other ≤ left other)
    {records : Table → List Record} {answer : Table → QueryResult} (rows' : List Row)
    (hspec : ∀ t log, e.Stands name rows (left name) t log →
      Database.act name rows s.action = .ok (answer t, rows') ∧
        targets s (answer t) = (if records t = [] then [] else [name]) ∧
        (∀ record ∈ records t, record.id < t.nextId) ∧
        ((records t).foldl Record.onto t.scan).map Prod.snd = rows') :
    ∃ e', withLock name (do
        ensureUserTable name
        let t ← table name
        applyLogged name t (records t)
        return answer t) e = result (m.execute s).1 e' ∧ Agrees left' e' (m.execute s).2 := by
  subst hname
  obtain ⟨t, log, tables, locks, ht, hget, hother, hlock⟩ := h.withTable hg fun t => do
    applyLogged s.table t (records t)
    return answer t
  obtain ⟨hact, htargets, hids, hrows⟩ := hspec t log ht
  have hm := Machine.execute_of_listed hg
  rw [hact] at hm
  dsimp only at hm
  rw [htargets] at hm
  have hleft₁ : t.nextId.toNat + left' s.table < 2 ^ 64 :=
    (Nat.add_le_add_left (hleft s.table) _).trans_lt ht.left
  by_cases hempty : records t = []
  · obtain ⟨locks', hfree, hl⟩ := hlock (.ok (answer t)) { e with tables, locks }
      (bind_of_ok (by rw [hempty]; exact applyLogged_nil ..)) rfl
    have hsame : rows' = rows := by rw [← hrows, hempty, ← ht.rows]; rfl
    rw [if_pos hempty] at hm
    dsimp only [Port.appendAll] at hm
    rw [hm, hsame, OrderedMap.insert_of_get? hg]
    exact ⟨_, hl, h.stays hleft hg ht h.sink rfl hfree hget hother ht.follows rfl hleft₁⟩
  · have happly := applyLogged_of_ne_nil hempty s.table t
    have hfits := m.port.fits_append s.table
    rw [if_neg hempty, Port.appendAll_singleton] at hm
    rcases append_spec (e := { e with tables, locks }) h.sink
        (h.words s.table (OrderedMap.mem_keys_of_get? hg)).1
        ((records t).flatMap Record.encode) with
      ⟨sink, port, hp, ha, hsink⟩ | ⟨sink, port, error, hp, ha, hsink⟩
    · obtain ⟨locks', hfree, hl⟩ := hlock (.ok (answer t)) _
        (bind_of_ok ((happly _).trans ((bind_of_ok ha).trans (setTable_eq ..)))) rfl
      rw [hp] at hm hfits
      rw [hm]
      refine ⟨_, hl, h.changed hleft hg ht hsink hfits hfree ?_ ?_ (ht.follows.append hids) ?_ ?_⟩
      · rw [OrderedMap.get?_insert, if_pos rfl]
      · intro other ho
        rw [OrderedMap.get?_insert, if_neg ho, hother other ho]
      · rw [(Table.foldl_apply ht.follows.valid _).2, hrows]
      · rw [Table.nextId_foldl_apply hids]
        exact hleft₁
    · obtain ⟨locks', hfree, hl⟩ := hlock (.error error) _
        (bind_of_error ((happly _).trans (bind_of_error ha))) rfl
      rw [hp] at hm hfits
      rw [hm]
      exact ⟨_, hl, h.stays hleft hg ht hsink hfits hfree hget hother ht.follows rfl hleft₁⟩

theorem mem_matching {t : Table} {condition : Option Condition} {entry : RowId × Row}
    (h : entry ∈ t.matching condition) : entry ∈ t.scan := (List.mem_filter.1 h).1

theorem length_matching {t : Table} (hr : t.scan.map Prod.snd = rows)
    (condition : Option Condition) :
    (t.matching condition).length = (rows.filter (Database.Matches condition)).length := by
  rw [← map_matching hr, List.length_map]

theorem delete_agrees (h : Agrees left e m) {source : String} {condition : Option Condition}
    (hg : m.database.tables.get? name = some rows) (hleft : ∀ other, left' other ≤ left other) :
    ∃ e', delete name condition e = result (m.execute ⟨source, name, .delete condition⟩).1 e' ∧
      Agrees left' e' (m.execute ⟨source, name, .delete condition⟩).2 := by
  refine logged_agrees h (s := ⟨source, name, .delete condition⟩) rfl hg hleft
    (rows.filter (!Database.Matches condition ·)) fun t log ht => ⟨?_, ?_, ?_, ?_⟩
  · rw [List.length_map, length_matching ht.rows]
    rfl
  · exact if_congr List.length_eq_zero_iff rfl rfl
  · intro record hr
    obtain ⟨entry, he, rfl⟩ := List.mem_map.1 hr
    exact ht.follows.lt_nextId (mem_matching he)
  · have ho := Record.foldl_onto_delete (Table.satisfies · condition) ht.follows.ascending
    rw [← ht.rows, List.filter_map, funext (matches_eq condition)]
    exact congrArg (List.map Prod.snd) ho

theorem update_agrees (h : Agrees left e m) {source : String} {assignments : Row}
    {condition : Option Condition} (hg : m.database.tables.get? name = some rows)
    (hleft : ∀ other, left' other ≤ left other) :
    ∃ e', update name assignments condition e =
        result (m.execute ⟨source, name, .update assignments condition⟩).1 e' ∧
      Agrees left' e' (m.execute ⟨source, name, .update assignments condition⟩).2 := by
  refine logged_agrees h (s := ⟨source, name, .update assignments condition⟩) rfl hg hleft
    (rows.map fun row =>
      if Database.Matches condition row then row.insertMany assignments.entries else row)
    fun t log ht => ⟨?_, ?_, ?_, ?_⟩
  · rw [List.length_map, length_matching ht.rows]
    rfl
  · exact if_congr List.length_eq_zero_iff rfl rfl
  · intro record hr
    obtain ⟨entry, he, rfl⟩ := List.mem_map.1 hr
    exact ht.follows.lt_nextId (mem_matching he)
  · have ho := Record.foldl_onto_update (Table.satisfies · condition)
      (fun row => row.insertMany assignments.entries) ht.follows.ascending
    refine (congrArg (List.map Prod.snd) ho).trans ?_
    rw [← ht.rows, List.map_map, List.map_map, funext (matches_eq condition)]
    refine congrArg (List.map · t.scan) (funext fun entry => ?_)
    dsimp only [Function.comp_apply]
    split_ifs <;> rfl

/-! ## Creating a table -/

theorem Port.fits_of_append {p port : Port} (h : p.append name = (.ok (), port)) :
    p.fits name = true := by
  unfold Port.append at h
  dsimp only at h
  split_ifs at h with ht
  all_goals simp_all

/-- The statement behind the lock of the new table. -/
def creating (name : String) : EngineM QueryResult := do
  if (← get).catalog.contains name then throw (.duplicateTable name)
  append name []
  append Catalog.reserved (Catalog.record name)
  modify fun e => { e with catalog := (e.catalog.register name).2 }
  setTable name (.empty name (← get).order)
  return { message := some ("Table '" ++ name ++ "' created") }

theorem creating_of_known (h : e.catalog.contains name = true) :
    creating name e = .error (.duplicateTable name) e := by
  have hg : (get : EngineM Engine) e = .ok e e := rfl
  unfold creating
  rw [bind_of_ok hg]
  dsimp only
  rw [if_pos h]
  rfl

theorem creating_of_new (h : e.catalog.contains name = false) :
    creating name e = (append name [] >>= fun _ =>
      append Catalog.reserved (Catalog.record name) >>= fun _ => fun e =>
        .ok { message := some ("Table '" ++ name ++ "' created") }
          { e with
            catalog := (e.catalog.register name).2
            tables := e.tables.insert name (.empty name e.order) }) e := by
  have hg : (get : EngineM Engine) e = .ok e e := rfl
  unfold creating
  rw [bind_of_ok hg]
  dsimp only
  rw [if_neg (ne_true_of_eq_false h)]
  rfl

end Engine

namespace Machine

variable {m : Machine} {name : String} (source : String) (columns : List Sql.ColumnDefinition)
  (constraints : List Sql.TableConstraint)

theorem execute_createTable_of_known
    (h : name = Catalog.reserved ∨ name ∈ m.database.tables.keys) :
    m.execute ⟨source, name, .createTable columns constraints⟩ =
      (.error (.duplicateTable name), m) := by
  unfold Machine.execute Database.execute
  dsimp only
  cases hg : m.database.tables.get? name with
  | some rows => rfl
  | none =>
    dsimp only
    rw [if_pos (h.resolve_right (OrderedMap.get?_eq_none_iff.1 hg))]

theorem execute_createTable_of_new
    (h : ¬(name = Catalog.reserved ∨ name ∈ m.database.tables.keys)) :
    m.execute ⟨source, name, .createTable columns constraints⟩ =
      match m.port.appendAll [name, Catalog.reserved] with
      | (.ok (), port) => (.ok { message := some ("Table '" ++ name ++ "' created") },
          ⟨⟨m.database.tables.insert name []⟩, port⟩)
      | (.error e, port) => (.error e, { m with port }) := by
  rw [not_or] at h
  unfold Machine.execute Database.execute
  dsimp only
  rw [OrderedMap.get?_eq_none_iff.2 h.2]
  dsimp only
  rw [if_neg h.1]
  rfl

end Machine

namespace Engine

variable {e : Engine} {m : Machine} {left left' : String → Nat} {name : String}

theorem createTable_agrees (h : Agrees left e m) {source : String}
    {columns : List Sql.ColumnDefinition} {constraints : List Sql.TableConstraint}
    (hw : IsWord name) (hleft : ∀ other, left' other ≤ left other) :
    ∃ e', createTable name e =
        result (m.execute ⟨source, name, .createTable columns constraints⟩).1 e' ∧
      Agrees left' e' (m.execute ⟨source, name, .createTable columns constraints⟩).2 := by
  obtain ⟨locks, hlock⟩ := withLock_spec h.unlocked name (creating name)
  cases hknown : e.catalog.contains name with
  | true =>
    obtain ⟨locks', hfree, hl⟩ := hlock (.error (.duplicateTable name)) { e with locks }
      (creating_of_known hknown) rfl
    rw [Machine.execute_createTable_of_known source columns constraints (h.contains_iff.1 hknown)]
    exact ⟨_, hl, h.called hleft h.sink rfl hfree⟩
  | false =>
    have hn := mt h.contains_iff.2 (ne_true_of_eq_false hknown)
    have hm := Machine.execute_createTable_of_new source columns constraints hn
    rw [not_or] at hn
    have hfits := m.port.fits_append name
    unfold Port.appendAll at hm
    rcases append_spec (e := { e with locks }) h.sink hw [] with
      ⟨sink, port, hp, ha, hsink⟩ | ⟨sink, port, error, hp, ha, hsink⟩
    · rw [List.append_nil, Function.update_eq_self] at hsink
      rw [hp] at hm hfits
      dsimp only at hm
      rw [Port.appendAll_singleton] at hm
      have hfits' := port.fits_append Catalog.reserved
      rcases append_spec (e := { e with sink, locks }) hsink isWord_reserved (Catalog.record name) with
        ⟨sink', port', hp', ha', hsink'⟩ | ⟨sink', port', error, hp', ha', hsink'⟩
      · obtain ⟨locks', hfree, hl⟩ := hlock (.ok _) _
          ((creating_of_new (e := { e with locks }) hknown).trans ((bind_of_ok ha).trans (bind_of_ok ha'))) rfl
        rw [hp'] at hm hfits'
        rw [hm]
        refine ⟨_, hl, h.created hleft hw hn.1 hn.2 hsink' ?_ ?_ (hfits'.trans hfits)
          (Port.fits_of_append hp) hfree⟩
        · exact fun other ho => Function.update_of_ne ho ..
        · exact Function.update_self ..
      · obtain ⟨locks', hfree, hl⟩ := hlock (.error error) _
          ((creating_of_new (e := { e with locks }) hknown).trans ((bind_of_ok ha).trans (bind_of_error ha'))) rfl
        rw [hp'] at hm hfits'
        rw [hm]
        exact ⟨_, hl, h.called hleft hsink' (hfits'.trans hfits) hfree⟩
    · obtain ⟨locks', hfree, hl⟩ := hlock (.error error) _
        ((creating_of_new (e := { e with locks }) hknown).trans (bind_of_error ha)) rfl
      rw [hp] at hm hfits
      rw [hm]
      exact ⟨_, hl, h.called hleft hsink hfits hfree⟩

end Engine

end RelStore
