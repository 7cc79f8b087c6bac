import RelStore.Engine.Execute
import RelStore.Proofs.Engine.Files
import RelStore.Proofs.Table.Log

/-!
# Engines and machines in agreement

`Agrees` ties an engine to a machine: the catalog in memory and on file lists the tables of the
machine's database, the rows of each are those that the engine holds or would load, and these
are what the table's log makes of an empty table. `executeStatement_agrees` keeps the tie over
any statement, wherever it fails, and the answers are the same.

An engine can take row ids that the machine knows nothing of. How many more of them each table
may take is a parameter of `Agrees`, so that the ids never run out.
-/

namespace RelStore.Engine

open Sql (IsWord Statement Action Condition)
open Text.Utf8 (Bytes)

/-- The rows of a table as the engine holds them, or would load them. -/
def view (e : Engine) (name : String) : Except Error Table :=
  match e.tables.get? name with
  | some t => .ok t
  | none => Table.load name e.order e.directory

/-- A table with these rows stands in the engine and follows its log on file. It can take so many
more row ids. -/
structure Stands (e : Engine) (name : String) (rows : List Row) (left : Nat) (t : Table)
    (log : List Record) : Prop where
  contents : e.directory.contents name = log.flatMap Record.encode
  view : e.view name = .ok t
  follows : t.Follows log
  rows : t.scan.map Prod.snd = rows
  left : t.nextId.toNat + left < 2 ^ 64

/-- An engine that holds, in memory and on file, what a machine says. -/
structure Agrees (left : String → Nat) (e : Engine) (m : Machine) : Prop where
  unlocked : e.locks.held = ∅
  sink : e.sink.Holds m.port e.directory.contents
  fits : m.port.fits Catalog.reserved = true
  names : e.catalog.tables = m.database.tables.keys
  catalog : e.directory.contents Catalog.reserved =
    m.database.tables.keys.flatMap Catalog.record
  words : ∀ name ∈ m.database.tables.keys,
    IsWord name ∧ name ≠ Catalog.reserved ∧ m.port.fits name = true
  table : ∀ name rows, m.database.tables.get? name = some rows →
    ∃ t log, e.Stands name rows (left name) t log
  unlisted : ∀ name, IsWord name → name ≠ Catalog.reserved → name ∉ m.database.tables.keys →
    e.directory.contents name = [] ∧ 1 + left name < 2 ^ 64

/-- An answer together with the engine that is left. -/
def result (answer : Except Error α) (e : Engine) : EStateM.Result Error Engine α :=
  match answer with
  | .ok a => .ok a e
  | .error error => .error error e

variable {e : Engine} {m : Machine} {left left' : String → Nat} {name : String}

/-! ## Steps -/

theorem bind_of_ok {α β : Type} {step : EngineM α} {f : α → EngineM β} {a : α} {e' : Engine}
    (h : step e = .ok a e') : (step >>= f) e = f a e' := by
  change EStateM.bind step f e = _
  rw [EStateM.bind, h]

theorem bind_of_error {α β : Type} {step : EngineM α} {f : α → EngineM β} {error : Error}
    {e' : Engine} (h : step e = .error error e') : (step >>= f) e = .error error e' := by
  change EStateM.bind step f e = _
  rw [EStateM.bind, h]

/-- Nothing is locked before a locked step and nothing after it. -/
theorem withLock_spec (h : e.locks.held = ∅) (name : String) (step : EngineM α) :
    ∃ locks, ∀ a e', step { e with locks } = result a e' → e'.locks = locks →
      ∃ locks' : Locks, locks'.held = ∅ ∧
        withLock name step e = result a { e' with locks := locks' } := by
  have hfree : e.locks.isLocked name = false := by
    rw [Locks.isLocked, h]; rfl
  have hheld : (e.locks.held.insert name e.locks.nextLock).erase name = ∅ := by
    rw [h]
    refine OrderedMap.ext ?_
    simp [OrderedMap.erase, OrderedMap.insert, OrderedMap.assign, EmptyCollection.emptyCollection,
      OrderedMap.empty]
  refine ⟨{ e.locks with
    held := e.locks.held.insert name e.locks.nextLock, nextLock := e.locks.nextLock + 1 }, ?_⟩
  intro a e' hstep hlocks
  refine ⟨e'.locks.release name, ?_, ?_⟩
  · rw [hlocks, Locks.release]
    dsimp only
    rw [OrderedMap.get?_insert, if_pos rfl]
    exact hheld
  · unfold withLock Locks.lock?
    rw [hfree, if_neg Bool.false_ne_true]
    dsimp only
    rw [hstep]
    cases a <;> rfl

/-! ## Tables in memory and on file -/

theorem view_of_get? {t : Table} (h : e.tables.get? name = some t) : e.view name = .ok t := by
  rw [view, h]

/-- What is held or would be loaded is decided by the table in memory and the file. -/
theorem view_congr (e' : Engine) {port port' : Port} {contents contents' : String → Bytes}
    (hs : e.sink.Holds port contents) (hs' : e'.sink.Holds port' contents')
    (horder : e'.order = e.order) (hw : IsWord name) (hfits : port.fits name = true)
    (hfits' : port'.fits = port.fits) (hc : contents' name = contents name)
    (ht : e'.tables.get? name = e.tables.get? name) : e'.view name = e.view name := by
  have hl : Table.load name e'.order e'.directory = Table.load name e.order e.directory := by
    rw [directory, directory, load_table hs hw hfits, load_table hs' hw (hfits' ▸ hfits), hc, horder]
  unfold view
  rw [ht, hl]

/-- A table that is used is in memory from then on. -/
theorem table_of_view {t : Table} (h : e.view name = .ok t) :
    ∃ tables, (∀ locks, table name { e with locks } = .ok t { e with tables, locks }) ∧
      tables.get? name = some t ∧
      ∀ other, other ≠ name → tables.get? other = e.tables.get? other := by
  unfold view at h
  cases hg : e.tables.get? name with
  | some t' =>
    rw [hg] at h
    obtain rfl := Except.ok.inj h
    refine ⟨e.tables, fun locks => ?_, hg, fun _ _ => rfl⟩
    unfold table
    dsimp only
    rw [hg]
  | none =>
    rw [hg] at h
    refine ⟨e.tables.insert name t, fun locks => ?_, ?_, fun other ho => ?_⟩
    · have hl : Table.load name e.order e.directory = .ok t := h
      unfold table
      dsimp only
      rw [hg]
      dsimp only
      rw [show Table.load name e.order (directory { e with locks }) = .ok t from hl]
    · rw [OrderedMap.get?_insert, if_pos rfl]
    · rw [OrderedMap.get?_insert, if_neg ho]

namespace Agrees

theorem contains_iff (h : Agrees left e m) :
    e.catalog.contains name = true ↔ name = Catalog.reserved ∨ name ∈ m.database.tables.keys := by
  have hn : e.catalog.names.contains name = true ↔ name ∈ m.database.tables.keys := by
    rw [OrderedMap.contains_iff, ← h.names]; rfl
  rw [Catalog.contains, Bool.or_eq_true, beq_iff_eq, hn]

/-- Nothing changes on file, and every table still stands. -/
theorem moved (h : Agrees left e m) (hleft : ∀ other, left' other ≤ left other) {e' : Engine}
    {port : Port} (hsink : e'.sink.Holds port e.directory.contents)
    (hfits : port.fits = m.port.fits) (hlocks : e'.locks.held = ∅)
    (hnames : e'.catalog.tables = e.catalog.tables)
    (hstands : ∀ name rows t log, IsWord name → m.port.fits name = true →
      e.Stands name rows (left name) t log → ∃ t, e'.Stands name rows (left' name) t log) :
    Agrees left' e' { m with port } where
  unlocked := hlocks
  sink := ⟨hsink.flat, hsink.port, rfl⟩
  fits := by rw [hfits]; exact h.fits
  names := hnames.trans h.names
  catalog := (congrFun hsink.contents _).trans h.catalog
  words := by rw [hfits]; exact h.words
  table := by
    intro other rows hg
    obtain ⟨t, log, ht⟩ := h.table other rows hg
    obtain ⟨hw, -, hf⟩ := h.words other (OrderedMap.mem_keys_of_get? hg)
    obtain ⟨t', ht'⟩ := hstands other rows t log hw hf ht
    exact ⟨t', log, ht'⟩
  unlisted := by
    intro other hw hr ho
    obtain ⟨hc, hl⟩ := h.unlisted other hw hr ho
    exact ⟨(congrFun hsink.contents _).trans hc,
      (Nat.add_le_add_left (hleft other) _).trans_lt hl⟩

/-- Nothing changes but the calls of the sink. -/
theorem called (h : Agrees left e m) (hleft : ∀ other, left' other ≤ left other) {sink : Sink}
    {port : Port} (hsink : sink.Holds port e.directory.contents) (hfits : port.fits = m.port.fits)
    {locks : Locks} (hlocks : locks.held = ∅) :
    Agrees left' { e with sink, locks } { m with port } := by
  refine h.moved hleft hsink hfits hlocks rfl fun name rows t log hw hf ht => ⟨t, ?_⟩
  have hv := view_congr { e with sink, locks } h.sink hsink rfl hw hf hfits rfl rfl
  exact ⟨(congrFun hsink.contents _).trans ht.contents, hv.trans ht.view, ht.follows, ht.rows,
    (Nat.add_le_add_left (hleft name) _).trans_lt ht.left⟩

/-- One table goes on, by records that its file took. -/
theorem changed (h : Agrees left e m) (hleft : ∀ other, left' other ≤ left other)
    {rows rows' : List Row} {t t' : Table} {log more : List Record}
    (hg : m.database.tables.get? name = some rows)
    (hs : e.Stands name rows (left name) t log) {sink : Sink} {port : Port}
    (hsink : sink.Holds port (Function.update e.directory.contents name
      (e.directory.contents name ++ more.flatMap Record.encode)))
    (hfits : port.fits = m.port.fits) {locks : Locks} (hlocks : locks.held = ∅)
    {tables : OrderedMap String Table} (ht : tables.get? name = some t')
    (hother : ∀ other, other ≠ name → tables.get? other = e.tables.get? other)
    (hfollows : t'.Follows (log ++ more)) (hrows : t'.scan.map Prod.snd = rows')
    (hid : t'.nextId.toNat + left' name < 2 ^ 64) :
    Agrees left' { e with sink, tables, locks }
      ⟨⟨m.database.tables.insert name rows'⟩, port⟩ := by
  have hmem := OrderedMap.mem_keys_of_get? hg
  have hkeys : (m.database.tables.insert name rows').keys = m.database.tables.keys := by
    rw [OrderedMap.keys_insert, if_pos hmem]
  have hc : ∀ other, other ≠ name → sink.directory.contents other = e.directory.contents other :=
    fun other ho => (congrFun hsink.contents other).trans (Function.update_of_ne ho ..)
  have hreserved : Catalog.reserved ≠ name := (h.words name hmem).2.1.symm
  refine ⟨hlocks, ⟨hsink.flat, hsink.port, rfl⟩, hfits ▸ h.fits, h.names.trans hkeys.symm, ?_, ?_,
    ?_, ?_⟩
  · rw [hkeys]
    exact (hc _ hreserved).trans h.catalog
  · rw [hkeys, hfits]
    exact h.words
  · intro other rows₁ hg₁
    by_cases ho : other = name
    · subst ho
      rw [OrderedMap.get?_insert, if_pos rfl] at hg₁
      refine ⟨t', log ++ more, ?_, view_of_get? ht, hfollows, hrows.trans (Option.some.inj hg₁), hid⟩
      rw [List.flatMap_append, ← hs.contents]
      exact (congrFun hsink.contents other).trans (Function.update_self ..)
    · rw [OrderedMap.get?_insert, if_neg ho] at hg₁
      obtain ⟨t₁, log₁, ht₁⟩ := h.table other rows₁ hg₁
      obtain ⟨hw, -, hf⟩ := h.words other (OrderedMap.mem_keys_of_get? hg₁)
      refine ⟨t₁, log₁, (hc other ho).trans ht₁.contents, ?_, ht₁.follows, ht₁.rows,
        (Nat.add_le_add_left (hleft other) _).trans_lt ht₁.left⟩
      exact (view_congr { e with sink, tables, locks } h.sink hsink rfl hw hf hfits
        (Function.update_of_ne ho ..) (hother other ho)).trans ht₁.view
  · intro other hw hr ho
    rw [hkeys] at ho
    obtain ⟨hc₁, hl⟩ := h.unlisted other hw hr ho
    have hne : other ≠ name := fun he => ho (he ▸ hmem)
    exact ⟨(hc other hne).trans hc₁, (Nat.add_le_add_left (hleft other) _).trans_lt hl⟩

/-- One table goes on in memory, with its rows as they were and nothing taken by its file. -/
theorem stays (h : Agrees left e m) (hleft : ∀ other, left' other ≤ left other)
    {rows : List Row} {t t' : Table} {log : List Record}
    (hg : m.database.tables.get? name = some rows)
    (hs : e.Stands name rows (left name) t log) {sink : Sink} {port : Port}
    (hsink : sink.Holds port e.directory.contents) (hfits : port.fits = m.port.fits)
    {locks : Locks} (hlocks : locks.held = ∅) {tables : OrderedMap String Table}
    (ht : tables.get? name = some t')
    (hother : ∀ other, other ≠ name → tables.get? other = e.tables.get? other)
    (hfollows : t'.Follows log) (hscan : t'.scan = t.scan)
    (hid : t'.nextId.toNat + left' name < 2 ^ 64) :
    Agrees left' { e with sink, tables, locks } { m with port } := by
  have hsink' : sink.Holds port (Function.update e.directory.contents name
      (e.directory.contents name ++ ([] : List Record).flatMap Record.encode)) := by
    rw [List.flatMap_nil, List.append_nil, Function.update_eq_self]
    exact hsink
  have hc := h.changed hleft hg hs hsink' hfits hlocks ht hother
    ((List.append_nil log).symm ▸ hfollows) (hscan.symm ▸ hs.rows) hid
  rw [OrderedMap.insert_of_get? hg] at hc
  exact hc

/-- A table is created: its file is there, and the catalog's file took its name. -/
theorem created (h : Agrees left e m) (hleft : ∀ other, left' other ≤ left other)
    (hw : IsWord name) (hr : name ≠ Catalog.reserved) (hnew : name ∉ m.database.tables.keys)
    {sink : Sink} {port : Port} {contents : String → Bytes} (hsink : sink.Holds port contents)
    (hother : ∀ other, other ≠ Catalog.reserved → contents other = e.directory.contents other)
    (hcatalog : contents Catalog.reserved =
      e.directory.contents Catalog.reserved ++ Catalog.record name)
    (hfits : port.fits = m.port.fits) (hfit : m.port.fits name = true) {locks : Locks}
    (hlocks : locks.held = ∅) :
    Agrees left'
      { e with
        sink, locks, catalog := (e.catalog.register name).2
        tables := e.tables.insert name (.empty name e.order) }
      ⟨⟨m.database.tables.insert name []⟩, port⟩ := by
  have hkeys : (m.database.tables.insert name []).keys = m.database.tables.keys ++ [name] := by
    rw [OrderedMap.keys_insert, if_neg hnew]
  have hnames : (e.catalog.register name).2.tables = m.database.tables.keys ++ [name] := by
    have hn : name ∉ e.catalog.names.keys := fun hm => hnew (h.names ▸ hm)
    show (e.catalog.names.insert name ()).keys = _
    rw [OrderedMap.keys_insert, if_neg hn, ← h.names]
    rfl
  have hc := hsink.contents
  obtain ⟨hempty, hbudget⟩ := h.unlisted name hw hr hnew
  refine ⟨hlocks, ⟨hsink.flat, hsink.port, rfl⟩, hfits ▸ h.fits, hnames.trans hkeys.symm, ?_, ?_,
    ?_, ?_⟩
  · rw [hkeys, List.flatMap_append, ← h.catalog]
    exact ((congrFun hc _).trans hcatalog).trans (by simp)
  · rw [hkeys, hfits]
    intro other ho
    rcases List.mem_append.1 ho with ho | ho
    · exact h.words other ho
    · obtain rfl := List.mem_singleton.1 ho
      exact ⟨hw, hr, hfit⟩
  · intro other rows hg
    rw [OrderedMap.get?_insert] at hg
    by_cases ho : other = name
    · subst ho
      rw [if_pos rfl] at hg
      refine ⟨.empty other e.order, [], ?_, view_of_get? ?_, Table.follows_empty .., ?_, ?_⟩
      · exact (congrFun hc other).trans ((hother other hr).trans hempty)
      · rw [OrderedMap.get?_insert, if_pos rfl]
      · exact Option.some.inj hg
      · exact (Nat.add_le_add_left (hleft other) 1).trans_lt hbudget
    · rw [if_neg ho] at hg
      obtain ⟨t, log, ht⟩ := h.table other rows hg
      obtain ⟨hw', hr', hf⟩ := h.words other (OrderedMap.mem_keys_of_get? hg)
      have hget : (e.tables.insert name (Table.empty name e.order)).get? other =
          e.tables.get? other := by rw [OrderedMap.get?_insert, if_neg ho]
      refine ⟨t, log, (congrFun hc other).trans ((hother other hr').trans ht.contents), ?_,
        ht.follows, ht.rows, (Nat.add_le_add_left (hleft other) _).trans_lt ht.left⟩
      exact (view_congr { e with
        sink, locks, catalog := (e.catalog.register name).2
        tables := e.tables.insert name (.empty name e.order) }
        h.sink hsink rfl hw' hf hfits (hother other hr') hget).trans ht.view
  · intro other hw' hr' ho
    rw [hkeys, List.mem_append, not_or] at ho
    obtain ⟨he, hl⟩ := h.unlisted other hw' hr' ho.1
    exact ⟨(congrFun hc other).trans ((hother other hr').trans he),
      (Nat.add_le_add_left (hleft other) _).trans_lt hl⟩

/-! ## Statements -/

theorem ensureUserTable_of_listed (h : Agrees left e m) (hn : name ∈ m.database.tables.keys)
    (locks : Locks) : ensureUserTable name { e with locks } = .ok () { e with locks } := by
  unfold ensureUserTable
  dsimp only
  rw [if_pos ⟨(h.words name hn).2.1, h.contains_iff.2 (.inr hn)⟩]

theorem ensureUserTable_of_not_listed (h : Agrees left e m) (hn : name ∉ m.database.tables.keys)
    (locks : Locks) :
    ensureUserTable name { e with locks } = .error (.unknownTable name) { e with locks } := by
  unfold ensureUserTable
  dsimp only
  rw [if_neg fun hc => (h.contains_iff.1 hc.2).elim hc.1 hn]

/-- A statement on a table that is not listed is refused. -/
theorem refuses (h : Agrees left e m) (hn : name ∉ m.database.tables.keys)
    (f : Unit → EngineM QueryResult) :
    ∃ locks, locks.held = ∅ ∧ withLock name (ensureUserTable name >>= f) e =
      .error (.unknownTable name) { e with locks } := by
  obtain ⟨locks, hlock⟩ := withLock_spec h.unlocked name (ensureUserTable name >>= f)
  obtain ⟨locks', hfree, hl⟩ := hlock (.error (.unknownTable name)) { e with locks }
    (bind_of_error (h.ensureUserTable_of_not_listed hn locks)) rfl
  exact ⟨locks', hfree, hl⟩

/-- A statement on a table that is listed gets the table as it stands. -/
theorem withTable (h : Agrees left e m) {rows : List Row}
    (hg : m.database.tables.get? name = some rows) (f : Table → EngineM QueryResult) :
    ∃ t log tables locks, e.Stands name rows (left name) t log ∧ tables.get? name = some t ∧
      (∀ other, other ≠ name → tables.get? other = e.tables.get? other) ∧
      ∀ a e', f t { e with tables, locks } = result a e' → e'.locks = locks →
        ∃ locks' : Locks, locks'.held = ∅ ∧
          withLock name (ensureUserTable name >>= fun _ => Engine.table name >>= f) e =
            result a { e' with locks := locks' } := by
  obtain ⟨t, log, ht⟩ := h.table name rows hg
  obtain ⟨tables, hload, hget, hother⟩ := table_of_view ht.view
  obtain ⟨locks, hlock⟩ := withLock_spec h.unlocked name
    (ensureUserTable name >>= fun _ => Engine.table name >>= f)
  refine ⟨t, log, tables, locks, ht, hget, hother, fun a e' hf => hlock a e' ?_⟩
  rw [bind_of_ok (h.ensureUserTable_of_listed (OrderedMap.mem_keys_of_get? hg) locks),
    bind_of_ok (hload locks)]
  exact hf

end Agrees

end RelStore.Engine
