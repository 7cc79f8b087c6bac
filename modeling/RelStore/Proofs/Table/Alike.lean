import RelStore.Proofs.Table.Log

/-!
# Tables that differ in their trees

Two tables are alike if they have the same rows in their order and take the same row id next
(`Table.Alike`). Their trees may split and merge in quite different places. Whatever is looked up in
them is the same (`Alike.size`, `Alike.matching`, `Alike.hasColumn`), whatever is done to them leaves
them alike (`Alike.allocate`, `Alike.foldl`), and one log gives tables that are alike for any two
orders (`alike_load`).
-/

namespace RelStore

/-- Two outcomes that agree: the same error, or values that are related. -/
inductive Concur {α : Type} (Q : α → α → Prop) : Except Error α → Except Error α → Prop
  | ok {a a' : α} : Q a a' → Concur Q (.ok a) (.ok a')
  | error (error : Error) : Concur Q (.error error) (.error error)

namespace Table

open Text.Utf8 (Bytes)

/-- Two tables with the same rows. -/
structure Alike (t t' : Table) : Prop where
  name : t'.name = t.name
  nextId : t'.nextId = t.nextId
  scan : t'.scan = t.scan
  valid : t.rows.Valid
  valid' : t'.rows.Valid

variable {t t' : Table}

theorem alike_empty (name : String) (order order' : Index.Order) :
    (empty name order).Alike (empty name order') :=
  ⟨rfl, rfl, rfl, Index.BPlusTree.valid_empty order, Index.BPlusTree.valid_empty order'⟩

namespace Alike

theorem refl (h : t.rows.Valid) : t.Alike t := ⟨rfl, rfl, rfl, h, h⟩

theorem symm (h : t.Alike t') : t'.Alike t :=
  ⟨h.name.symm, h.nextId.symm, h.scan.symm, h.valid', h.valid⟩

theorem trans {t'' : Table} (h : t.Alike t') (h' : t'.Alike t'') : t.Alike t'' :=
  ⟨h'.name.trans h.name, h'.nextId.trans h.nextId, h'.scan.trans h.scan, h.valid, h'.valid'⟩

/-! ## Looking -/

theorem size (h : t.Alike t') : t'.size = t.size :=
  h.valid'.size.trans ((congrArg List.length h.scan).trans h.valid.size.symm)

theorem matching (h : t.Alike t') (condition : Option Sql.Condition) :
    t'.matching condition = t.matching condition := by rw [Table.matching, h.scan]; rfl

theorem hasColumn (h : t.Alike t') (column : String) : t'.hasColumn column = t.hasColumn column := by
  rw [Table.hasColumn, h.scan]; rfl

/-! ## Changing -/

theorem allocate (h : t.Alike t') :
    t'.allocate.1 = t.allocate.1 ∧ t.allocate.2.Alike t'.allocate.2 :=
  ⟨h.nextId, h.name, congrArg (· + 1) h.nextId, h.scan, h.valid, h.valid'⟩

theorem apply (h : t.Alike t') (record : Record) : (t.apply record).Alike (t'.apply record) where
  name := by cases record <;> exact h.name
  nextId := by rw [nextId_apply, nextId_apply, h.nextId]
  scan := by rw [scan_apply h.valid', scan_apply h.valid, h.scan]
  valid := valid_apply h.valid record
  valid' := valid_apply h.valid' record

theorem foldl (h : t.Alike t') (records : List Record) :
    (records.foldl Table.apply t).Alike (records.foldl Table.apply t') := by
  induction records generalizing t t' with
  | nil => exact h
  | cons record records ih => exact ih (h.apply record)

end Alike

/-! ## Loading -/

theorem Alike.replay (h : t.Alike t') (line : Nat) (lines : List Bytes) :
    Concur Alike (t.replay line lines) (t'.replay line lines) := by
  induction lines generalizing t t' line with
  | nil => exact .ok h
  | cons bytes rest ih =>
    unfold Table.replay
    cases Text.Utf8.decode? bytes with
    | none => exact .error _
    | some text =>
      dsimp only
      split_ifs
      · exact ih h (line + 1)
      · cases Record.read? text with
        | none => exact h.name ▸ .error _
        | some record => exact ih (h.apply record) (line + 1)

/-- What is read of a log gives the same table for any two orders. -/
theorem alike_load {name : String} {d d' : Directory} (hd : d'.lookup name = d.lookup name)
    (order order' : Index.Order) : Concur Alike (load name order d) (load name order' d') := by
  unfold load
  rw [hd]
  have hempty := alike_empty name order order'
  cases d.lookup name with
  | missing => exact .ok hempty
  | refused => exact .error .io
  | file log => exact hempty.replay 1 (Text.Utf8.lines log)

end Table

end RelStore
