import RelStore.Proofs.Sql.Acceptance
import Mathlib.Data.List.Flatten

/-!
# The constraints of a CREATE TABLE

A CREATE TABLE writes its constraints as elements of their own and as lists of key columns behind
its columns (`Element.clauses`). The statement has them in written order, but of several lists
behind one column only the last (`Element.constraints_eq`). The words of a constraint on a column
itself are all kept.
-/

namespace RelStore.Sql

open Grammar

namespace Grammar

namespace Element

variable {e : Element} {elements : List Element}

/-- The constraints on the table that the element writes: the keys behind a column, or a constraint
that is an element of its own. -/
def clauses : Element → List TableConstraint
  | column _ _ _ attributes => attributes.filterMap Attribute.key?
  | constraint c => [c]

theorem constraints_eq (e : Element) : e.constraints = e.clauses.getLast?.toList := by
  cases e <;> rfl

theorem constraints_sublist (e : Element) : e.constraints.Sublist e.clauses := by
  rw [constraints_eq]
  cases h : e.clauses.getLast? with
  | none => exact List.nil_sublist _
  | some clause => exact List.singleton_sublist.2 (List.mem_of_getLast? h)

theorem constraints_eq_clauses_iff : e.constraints = e.clauses ↔ e.clauses.length ≤ 1 := by
  rw [constraints_eq]
  constructor
  · intro h
    rw [← h]
    exact Option.length_toList_le
  · intro h
    match hclauses : e.clauses with
    | [] | [_] => rfl
    | _ :: _ :: _ =>
      rw [hclauses, List.length_cons, List.length_cons] at h
      omega

theorem flatMap_constraints_sublist (elements : List Element) :
    (elements.flatMap constraints).Sublist (elements.flatMap clauses) :=
  .flatMap_right _ fun e _ => e.constraints_sublist

/-- No element makes up for what another leaves out. -/
theorem flatMap_constraints_eq_iff :
    elements.flatMap constraints = elements.flatMap clauses ↔
      ∀ e ∈ elements, e.clauses.length ≤ 1 := by
  induction elements with
  | nil => simp
  | cons e elements ih =>
    rw [List.forall_mem_cons, ← ih, ← constraints_eq_clauses_iff, List.flatMap_cons,
      List.flatMap_cons]
    refine ⟨fun h => ?_, fun ⟨he, h⟩ => by rw [he, h]⟩
    have he := e.constraints_sublist.length_le
    have hmore := (flatMap_constraints_sublist elements).length_le
    have hlength := congrArg List.length h
    rw [List.length_append, List.length_append] at hlength
    exact List.append_inj h (by omega)

end Element

/-- The query is a CREATE TABLE of the table, with the elements as they are written. -/
structure Writes (sql table : String) (elements : List Element) : Prop where
  ne_nil : elements ≠ []
  admissible : ∀ e ∈ elements, e.Admissible
  spells : (Cursor.ofText sql).Spells
    ([.keyword "CREATE", .keyword "TABLE", .identifier table] ++
      parenthesized (listed (elements.map Element.symbols)))

variable {sql table : String} {elements : List Element}

instance : Decidable (Writes sql table elements) :=
  decidable_of_iff (elements ≠ [] ∧ (∀ e ∈ elements, e.Admissible) ∧
      (Cursor.ofText sql).Spells ([.keyword "CREATE", .keyword "TABLE", .identifier table] ++
        parenthesized (listed (elements.map Element.symbols))))
    ⟨fun ⟨hne, hadm, hspells⟩ => ⟨hne, hadm, hspells⟩,
      fun ⟨hne, hadm, hspells⟩ => ⟨hne, hadm, hspells⟩⟩

/-- What a CREATE TABLE is read as. -/
theorem Writes.ofText (h : Writes sql table elements) :
    Statement.ofText sql = .ok
      { source := sql, table,
        action := .createTable (elements.flatMap Element.columns)
          (elements.flatMap Element.constraints) } :=
  ofText_eq_ok_iff_spells.2 ⟨_, h.spells, .createTable h.ne_nil h.admissible, rfl⟩

theorem exists_writes {s : Statement} {columns : List ColumnDefinition}
    {constraints : List TableConstraint} (hs : Statement.ofText sql = .ok s)
    (ha : s.action = .createTable columns constraints) :
    ∃ elements, Writes sql s.table elements := by
  obtain ⟨xs, hspells, hd, -⟩ := ofText_eq_ok_iff_spells.1 hs
  rw [ha] at hd
  cases hd with
  | createTable hne hadm => exact ⟨_, hne, hadm, hspells⟩

end Grammar

variable {sql : String} {s : Statement} {columns : List ColumnDefinition}
  {constraints : List TableConstraint}

/-- A CREATE TABLE that is read is written as a list of elements, and whatever elements it is
written as, the statement has their columns, each with all the words behind it, and of the
constraints that an element writes the last. These are in written order, and they are all exactly
if no column has two lists of key columns behind it. -/
theorem createTable_clauses (hs : Statement.ofText sql = .ok s)
    (ha : s.action = .createTable columns constraints) :
    (∃ elements, Writes sql s.table elements) ∧
      ∀ elements, Writes sql s.table elements →
        columns = elements.flatMap Element.columns ∧
          constraints = elements.flatMap (fun e => e.clauses.getLast?.toList) ∧
          constraints.Sublist (elements.flatMap Element.clauses) ∧
          (constraints = elements.flatMap Element.clauses ↔
            ∀ e ∈ elements, e.clauses.length ≤ 1) := by
  refine ⟨exists_writes hs ha, fun elements h => ?_⟩
  have haction := congrArg Statement.action (Except.ok.inj (hs.symm.trans h.ofText))
  obtain ⟨rfl, rfl⟩ := Action.createTable.inj (ha.symm.trans haction)
  refine ⟨rfl, ?_, Element.flatMap_constraints_sublist elements,
    Element.flatMap_constraints_eq_iff⟩
  exact congrArg elements.flatMap (funext Element.constraints_eq)

/-- Words and a key behind columns, in any order, and a constraint that is an element. -/
theorem createTable_clauses_mixed :
    let sql := "CREATE TABLE t (a INT NULL PRIMARY KEY (a) UNIQUE, FOREIGN KEY (a) REFERENCES u(b))"
    let elements := [Element.column "a" .int none [.null, .key ["a"], .unique],
      .constraint (.foreignKey none "a" "u" "b")]
    let columns := [{ name := "a", dataType := .int, constraints := ["NULL", "UNIQUE"] }]
    let constraints := [.primaryKey ["a"], .foreignKey none "a" "u" "b"]
    ∃ s, Statement.ofText sql = .ok s ∧ s.action = .createTable columns constraints ∧
      Writes sql s.table elements ∧ columns = elements.flatMap Element.columns ∧
      constraints = elements.flatMap Element.clauses := by
  intro sql elements columns constraints
  have hw : Writes sql "t" elements := by decide +kernel
  have haction : Action.createTable (elements.flatMap Element.columns)
      (elements.flatMap Element.constraints) = .createTable columns constraints := by
    decide +kernel
  obtain ⟨hcolumns, -, -, hall⟩ := (createTable_clauses hw.ofText haction).2 elements hw
  exact ⟨_, hw.ofText, haction, hw, hcolumns, hall.2 (by decide)⟩

/-- Of two lists of key columns behind a column the first is dropped. -/
theorem earlier_key_is_dropped :
    let sql := "CREATE TABLE t (a INT PRIMARY KEY (a) PRIMARY KEY (b))"
    let elements := [Element.column "a" .int none [.key ["a"], .key ["b"]]]
    Writes sql "t" elements ∧
      elements.flatMap Element.clauses = [.primaryKey ["a"], .primaryKey ["b"]] ∧
      Statement.ofText sql = .ok
        { source := sql, table := "t",
          action := .createTable [{ name := "a", dataType := .int }] [.primaryKey ["b"]] } := by
  intro sql elements
  have hw : Writes sql "t" elements := by decide +kernel
  exact ⟨hw, rfl, hw.ofText⟩

end RelStore.Sql
