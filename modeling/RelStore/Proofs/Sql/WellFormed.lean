import RelStore.Proofs.Sql.Acceptance

/-!
# Well-formed statements

What a statement has to be like to stand for a query: its names are identifiers, its lists have
the lengths that the grammar asks for, and its constraint words are those of the grammar
(`Statement.WellFormed`). Whatever is read is well-formed (`wellFormed_of_ofText`).
-/

namespace RelStore.Sql

open Grammar

/-! ## Identifiers -/

/-- The name is cut into one token, an identifier. -/
def IsIdentifier (name : String) : Prop :=
  (Cursor.ofText name).tokens.1 = .ok [⟨.identifier, name, 0⟩, .atEnd name.length]

theorem ofWord_eq_identifier_iff {name : String} (position : Nat) :
    (Token.ofWord name position).kind = .identifier ↔
      Text.upper name ∉ Token.keywords ∧ Text.upper name ∉ Token.dataTypes := by
  unfold Token.ofWord
  dsimp only
  split_ifs <;> simp_all

theorem ofWord_of_identifier {name : String} {position : Nat}
    (h : (Token.ofWord name position).kind = .identifier) :
    Token.ofWord name position = ⟨.identifier, name, position⟩ := by
  obtain ⟨hk, hd⟩ := (ofWord_eq_identifier_iff _).1 h
  rw [Token.ofWord, if_neg hk, if_neg hd]

theorem drain_of_nil (position : Nat) :
    Cursor.drain { rest := [], position } =
      ([.atEnd position], none, { rest := [], position }) := by
  rw [Cursor.drain]
  rfl

theorem drain_of_next {c c' : Cursor} {token : Token} (h : c.next = (.ok token, c'))
    (hk : token.kind ≠ .endOfInput) : c.drain = (token :: c'.drain.1, c'.drain.2) := by
  rw [Cursor.drain]
  split
  · next e c₁ h₁ => rw [h] at h₁; cases h₁
  · next token₁ c₁ h₁ =>
    obtain ⟨⟨⟩, rfl⟩ := Prod.mk.inj (h.symm.trans h₁)
    rw [dif_neg hk]

theorem next_of_drain {c : Cursor} {token : Token} {more : List Token}
    (h : c.drain.1 = token :: more) : c.next.1 = .ok token := by
  rw [Cursor.drain] at h
  split at h
  · cases h
  · next token₁ c₁ h₁ =>
    rw [h₁]
    split_ifs at h
    · exact congrArg Except.ok (List.cons.inj h).1
    · exact congrArg Except.ok (List.cons.inj h).1

/-- A word is an identifier unless it is reserved. -/
theorem isIdentifier_iff {name : String} :
    IsIdentifier name ↔ Leads name.toList [] ∧ Text.upper name ∉ Token.keywords ∧
      Text.upper name ∉ Token.dataTypes := by
  rw [IsIdentifier, Cursor.tokens_eq_ok_iff, ← ofWord_eq_identifier_iff 0]
  constructor
  · rintro ⟨-, h⟩
    obtain ⟨word, hname, hword, ht⟩ := leads_of_lexeme (next_of_drain h) (.inr (.inr rfl))
    have hk : (Token.ofWord (String.ofList word) 0).kind = .identifier := by
      change (Token.ofWord (String.ofList word) (Cursor.ofText name).position).kind = _
      rw [← ht]
    have htext : name = String.ofList word := by
      have := ht.trans (ofWord_of_identifier hk)
      exact congrArg Token.text this
    have hlist : word = name.toList := by rw [htext, String.toList_ofList]
    subst hlist
    rw [List.self_eq_append_right.1 hname] at hword
    exact ⟨hword, htext ▸ hk⟩
  · rintro ⟨hword, hk⟩
    have hnext : (Cursor.ofText name).next =
        (.ok ⟨.identifier, name, 0⟩, { rest := [], position := name.length }) := by
      have hlexeme := lexeme_of_leads hword 0
      rw [List.append_nil, String.ofList_toList, ofWord_of_identifier hk, String.length_toList]
        at hlexeme
      unfold Cursor.next Cursor.ofText
      rw [hlexeme]
      simp only [Nat.zero_add]
    rw [drain_of_next hnext (by simp), drain_of_nil]
    exact ⟨rfl, rfl⟩

/-- An identifier among the tokens of a query is one by itself. -/
theorem isIdentifier_of_spells {c : Cursor} {xs : List Symbol} {name : String}
    (h : c.Spells xs) (hx : .identifier name ∈ xs) : IsIdentifier name := by
  induction h with
  | @symbol c c' token x xs hn hs _ ih =>
    rcases List.mem_cons.1 hx with rfl | hx
    · obtain ⟨hk, rfl⟩ := Token.eq_of_identifier hs
      obtain ⟨word, -, hword, ht⟩ := leads_of_lexeme (congrArg Prod.fst hn) (.inr (.inr hk))
      rw [ht] at hk ⊢
      rw [ofWord_of_identifier hk]
      refine isIdentifier_iff.2 ⟨⟨?_, ?_, nofun⟩, (ofWord_eq_identifier_iff _).1 hk⟩
      · rw [String.toList_ofList]; exact hword.head
      · rw [String.toList_ofList]; exact hword.chars
    · exact ih hx
  | blank _ _ _ ih => exact ih hx
  | stop => cases hx

/-! ## Statements -/

/-- The words that the grammar knows for a constraint on a column. -/
def constraintWords : List String := ["NOT NULL", "NULL", "UNIQUE", "PRIMARY KEY"]

/-- A comparison of a named column for equality. -/
def Condition.WellFormed (condition : Condition) : Prop :=
  IsIdentifier condition.column ∧ condition.operator = "="

/-- A named column with known constraints. -/
def ColumnDefinition.WellFormed (column : ColumnDefinition) : Prop :=
  IsIdentifier column.name ∧ ∀ word ∈ column.constraints, word ∈ constraintWords

/-- A constraint on named columns. -/
def TableConstraint.WellFormed : TableConstraint → Prop
  | primaryKey columns => columns ≠ [] ∧ ∀ column ∈ columns, IsIdentifier column
  | foreignKey name column referencedTable referencedColumn =>
    (∀ text ∈ name, IsIdentifier text) ∧ IsIdentifier column ∧ IsIdentifier referencedTable ∧
      IsIdentifier referencedColumn

/-- An action with something to do, on named columns. -/
def Action.WellFormed : Action → Prop
  | insert columns values =>
    columns ≠ [] ∧ (∀ column ∈ columns, IsIdentifier column) ∧ columns.Nodup ∧
      columns.length = values.length
  | select columns condition =>
    columns ≠ [] ∧ (∀ column ∈ columns, IsIdentifier column) ∧ ∀ c ∈ condition, c.WellFormed
  | delete condition => ∀ c ∈ condition, c.WellFormed
  | update assignments condition =>
    assignments.keys ≠ [] ∧ (∀ column ∈ assignments.keys, IsIdentifier column) ∧
      ∀ c ∈ condition, c.WellFormed
  | createTable columns constraints =>
    (columns ≠ [] ∨ constraints ≠ []) ∧ (∀ column ∈ columns, column.WellFormed) ∧
      ∀ c ∈ constraints, c.WellFormed

/-- A well-formed action on a named table. The text that the statement was read from does not
matter. -/
def Statement.WellFormed (s : Statement) : Prop := IsIdentifier s.table ∧ s.action.WellFormed

/-! ## What is read is well-formed -/

theorem mem_listed {phrases : List (List Symbol)} {phrase : List Symbol} {x : Symbol}
    (hp : phrase ∈ phrases) (hx : x ∈ phrase) : x ∈ listed phrases := by
  induction phrases with
  | nil => cases hp
  | cons first phrases ih =>
    rw [Reader.listed_cons]
    rcases List.mem_cons.1 hp with rfl | hp
    · exact List.mem_append_left _ hx
    · exact List.mem_append_right _ (List.mem_flatMap.2 ⟨phrase, hp, List.mem_cons_of_mem _ hx⟩)

theorem mem_parenthesized {phrase : List Symbol} {x : Symbol} (hx : x ∈ phrase) :
    x ∈ parenthesized phrase :=
  List.mem_cons_of_mem _ (List.mem_append_left _ hx)

theorem mem_names {columns : List String} {column : String} (h : column ∈ columns) :
    .identifier column ∈ names columns :=
  mem_listed (List.mem_map_of_mem h) List.mem_cons_self

section

variable {table : String} {xs : List Symbol} {action : Action}

theorem mem_of_derives (h : Derives table xs action) : .identifier table ∈ xs := by
  cases h <;> simp

theorem wellFormed_condition {condition : Option Condition}
    (hids : ∀ name, .identifier name ∈ whereClause condition → IsIdentifier name)
    (hc : ∀ c ∈ condition, c.operator = "=") : ∀ c ∈ condition, c.WellFormed := by
  rintro c rfl
  exact ⟨hids c.column (by simp [whereClause, comparison]), hc c rfl⟩

theorem wellFormed_tableConstraint {c : TableConstraint}
    (hids : ∀ name, .identifier name ∈ tableConstraint c → IsIdentifier name)
    (hc : (Element.constraint c).Admissible) : c.WellFormed := by
  cases c with
  | primaryKey columns =>
    refine ⟨hc, fun column hm => hids column ?_⟩
    exact List.mem_cons_of_mem _ (List.mem_cons_of_mem _ (mem_parenthesized (mem_names hm)))
  | foreignKey name column referencedTable referencedColumn =>
    refine ⟨fun text hm => hids text ?_, hids _ ?_, hids _ ?_, hids _ ?_⟩ <;>
      simp_all [tableConstraint, parenthesized]

/-- The words of the grammar are known words. -/
theorem mem_constraintWords {a : Attribute} {word : String} (h : word ∈ a.words) :
    word ∈ constraintWords := by
  cases a <;> simp_all [Attribute.words, constraintWords]

theorem wellFormed_columns {e : Element} {column : ColumnDefinition}
    (hids : ∀ name, .identifier name ∈ e.symbols → IsIdentifier name)
    (h : column ∈ e.columns) : column.WellFormed := by
  cases e with
  | constraint c => cases h
  | column name type size attributes =>
    obtain rfl := List.mem_singleton.1 h
    refine ⟨hids name (by simp [Element.symbols]), fun word hword => ?_⟩
    obtain ⟨a, -, ha⟩ := List.mem_flatMap.1 hword
    exact mem_constraintWords ha

theorem wellFormed_constraints {e : Element} {c : TableConstraint}
    (hids : ∀ name, .identifier name ∈ e.symbols → IsIdentifier name) (hadm : e.Admissible)
    (h : c ∈ e.constraints) : c.WellFormed := by
  cases e with
  | constraint c' =>
    obtain rfl := List.mem_singleton.1 h
    exact wellFormed_tableConstraint hids hadm
  | column name type size attributes =>
    -- The key was written behind the column.
    have hlast := List.mem_of_getLast? (Option.mem_toList.1 h)
    obtain ⟨a, hmem, ha⟩ := List.mem_filterMap.1 hlast
    cases a with
    | key columns =>
      obtain rfl := Option.some.inj ha
      refine ⟨hadm.2 _ hmem, fun column hm => hids column ?_⟩
      refine List.mem_append_right _ (List.mem_flatMap.2 ⟨_, hmem, ?_⟩)
      exact List.mem_cons_of_mem _ (List.mem_cons_of_mem _ (mem_parenthesized (mem_names hm)))
    | _ => cases ha

/-- What is derived from identifiers is well-formed. -/
theorem wellFormed_of_derives (hids : ∀ name, .identifier name ∈ xs → IsIdentifier name)
    (h : Derives table xs action) : action.WellFormed := by
  cases h with
  | insert hne hnodup hlength =>
    refine ⟨hne, fun column hm => hids column ?_, hnodup, hlength⟩
    simp [mem_parenthesized (mem_names hm)]
  | select hne hc =>
    refine ⟨hne, fun column hm => hids column (by simp [mem_names hm]), ?_⟩
    exact wellFormed_condition (fun name hm => hids name (by simp [hm])) hc
  | delete hc => exact wellFormed_condition (fun name hm => hids name (by simp [hm])) hc
  | @update pairs condition hne hnodup hc =>
    have hkeys : (OrderedMap.ofList pairs).keys = pairs.map Prod.fst := by
      rw [OrderedMap.keys, OrderedMap.ofList, OrderedMap.entries_insertMany (m := .empty) hnodup]
      rfl
    refine ⟨?_, fun column hm => hids column ?_,
      wellFormed_condition (fun name hm => hids name (by simp [hm])) hc⟩
    · rw [hkeys]; exact fun h => hne (List.map_eq_nil_iff.1 h)
    · rw [hkeys] at hm
      obtain ⟨pair, hpair, rfl⟩ := List.mem_map.1 hm
      have hcomparison := mem_listed (List.mem_map_of_mem (f := fun pair : String × String =>
        comparison pair.1 pair.2) hpair) (x := .identifier pair.1) (by simp [comparison])
      simp [hcomparison]
  | @createTable elements hne hadm =>
    have helement {e : Element} (he : e ∈ elements) (name : String)
        (hm : .identifier name ∈ e.symbols) : IsIdentifier name :=
      hids name (List.mem_append_right _
        (mem_parenthesized (mem_listed (List.mem_map_of_mem he) hm)))
    refine ⟨?_, fun column hm => ?_, fun c hm => ?_⟩
    · obtain ⟨e, elements, rfl⟩ := List.exists_cons_of_ne_nil hne
      cases e with
      | column => exact .inl (by simp [Element.columns])
      | constraint => exact .inr (by simp [Element.constraints])
    · obtain ⟨e, he, hm⟩ := List.mem_flatMap.1 hm
      exact wellFormed_columns (helement he) hm
    · obtain ⟨e, he, hm⟩ := List.mem_flatMap.1 hm
      exact wellFormed_constraints (helement he) (hadm e he) hm

end

/-- Every statement that is read is well-formed. -/
theorem wellFormed_of_ofText {sql : String} {s : Statement} (h : Statement.ofText sql = .ok s) :
    s.WellFormed := by
  obtain ⟨xs, hspells, hderives, -⟩ := ofText_eq_ok_iff_spells.1 h
  have hids (name : String) (hm : .identifier name ∈ xs) : IsIdentifier name :=
    isIdentifier_of_spells hspells hm
  exact ⟨hids _ (mem_of_derives hderives), wellFormed_of_derives hids hderives⟩

end RelStore.Sql
