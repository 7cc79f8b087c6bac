import Mathlib.Data.List.Forall2
import RelStore.Proofs.Sql.WellFormed
import RelStore.Sql.Statement.Render

/-!
# What is printed is read again

The canonical text of a statement is put together from pieces. A piece prints symbols if it
spells them before any text that cannot go on with it (`Prints`), and it is loose if it spells
them before any text at all (`Loose`). Pieces of the two kinds are joined by the lemmas below,
up to the text of a well-formed statement, which spells a phrase of the grammar for it
(`exists_spells_render`).
-/

namespace RelStore.Sql

open Grammar

/-! ## Pieces of text -/

/-- The text spells the symbols, wherever it stands. -/
def Scans (cs : List Char) (xs : List Symbol) : Prop :=
  ∀ position, Cursor.Spells { rest := cs, position } xs

/-- No word, numeral or literal goes on into the text. -/
def Delimited (cs : List Char) : Prop :=
  ∃ c rest, cs = c :: rest ∧ c ∈ [' ', ',', '(', ')', ';']

/-- The piece spells the symbols before a delimiter. -/
def Prints (piece : String) (xs : List Symbol) : Prop :=
  ∀ ⦃after ys⦄, Delimited after → Scans after ys → Scans (piece.toList ++ after) (xs ++ ys)

/-- The piece spells the symbols before anything. -/
def Loose (piece : String) (xs : List Symbol) : Prop :=
  ∀ ⦃after ys⦄, Scans after ys → Scans (piece.toList ++ after) (xs ++ ys)

section

variable {a b : String} {xs ys : List Symbol}

theorem Delimited.append {cs : List Char} (h : Delimited cs) (rest : List Char) :
    Delimited (cs ++ rest) := by
  obtain ⟨c, more, rfl, hc⟩ := h
  exact ⟨c, more ++ rest, rfl, hc⟩

theorem delimited_blank : Delimited " ".toList := ⟨' ', [], rfl, by decide⟩

theorem delimited_openParen : Delimited "(".toList := ⟨'(', [], rfl, by decide⟩

theorem delimited_closeParen : Delimited ")".toList := ⟨')', [], rfl, by decide⟩

theorem Loose.append (ha : Loose a xs) (hb : Loose b ys) : Loose (a ++ b) (xs ++ ys) := by
  intro after zs h
  rw [String.toList_append, List.append_assoc, List.append_assoc]
  exact ha (hb h)

theorem Loose.prints (ha : Loose a xs) (hb : Prints b ys) : Prints (a ++ b) (xs ++ ys) := by
  intro after zs hd h
  rw [String.toList_append, List.append_assoc, List.append_assoc]
  exact ha (hb hd h)

theorem Prints.append (ha : Prints a xs) (hb : Prints b ys) (hd : Delimited b.toList) :
    Prints (a ++ b) (xs ++ ys) := by
  intro after zs hd' h
  rw [String.toList_append, List.append_assoc, List.append_assoc]
  exact ha (hd.append after) (hb hd' h)

theorem Prints.loose (ha : Prints a xs) (hb : Loose b ys) (hd : Delimited b.toList) :
    Loose (a ++ b) (xs ++ ys) := by
  intro after zs h
  rw [String.toList_append, List.append_assoc, List.append_assoc]
  exact ha (hd.append after) (hb h)

theorem Loose.toPrints (ha : Loose a xs) : Prints a xs := fun _ _ _ h => ha h

theorem Prints.scans (ha : Prints a xs) (hd : Delimited b.toList) (hb : Scans b.toList ys) :
    Scans (a ++ b).toList (xs ++ ys) := by
  rw [String.toList_append]
  exact ha hd hb

theorem Loose.of_eq (ha : Loose a xs) (h : a = b) : Loose b xs := h ▸ ha

theorem Prints.of_eq (ha : Prints a xs) (h : a = b) : Prints b xs := h ▸ ha

theorem Prints.of_symbols (ha : Prints a xs) (h : xs = ys) : Prints a ys := h ▸ ha

theorem Scans.of_symbols {cs : List Char} (h : Scans cs xs) (he : xs = ys) : Scans cs ys := he ▸ h

theorem loose_empty : Loose "" [] := fun _ _ h => h

end

/-! ## Tokens -/

section

variable {cs after : List Char} {x : Symbol} {xs : List Symbol}

theorem scans_of_lexeme (h : ∀ position, ∃ token width,
      lexeme position cs = ⟨.ok token, width, after⟩ ∧ token.symbol? = some x)
    (hs : Scans after xs) : Scans cs (x :: xs) := by
  intro position
  obtain ⟨token, width, hl, hx⟩ := h position
  have hn : (Cursor.mk cs position false).next = (.ok token, ⟨after, position + width, false⟩) := by
    rw [Cursor.next, hl]
  exact .symbol hn hx (hs _)

theorem next_of_blank {c : Char} (hc : Text.isBlank c = true) (position : Nat) :
    (Cursor.mk (c :: cs) position false).next = (.ok ⟨.whitespace, " ", position⟩,
      ⟨cs.dropWhile Text.isBlank, position + ((cs.takeWhile Text.isBlank).length + 1), false⟩) := by
  rw [Cursor.next, lexeme_of_blank hc]

theorem Scans.dropWhile (hs : Scans cs xs) (position : Nat) :
    Cursor.Spells { rest := cs.dropWhile Text.isBlank,
                    position := position + (cs.takeWhile Text.isBlank).length } xs := by
  cases cs with
  | nil => exact hs position
  | cons c cs =>
    cases hc : Text.isBlank c with
    | false =>
      have hn : ¬ Text.isBlank c = true := by rw [hc]; exact Bool.false_ne_true
      rw [List.takeWhile_cons_of_neg hn, List.dropWhile_cons_of_neg hn]
      exact hs position
    | true =>
      rw [List.takeWhile_cons_of_pos hc, List.dropWhile_cons_of_pos hc]
      exact (Cursor.spells_iff_of_blank (next_of_blank hc position) rfl).1 (hs position)

theorem loose_space : Loose " " [] := by
  intro after xs hs position
  have hblank : Text.isBlank ' ' = true := rfl
  refine (Cursor.spells_iff_of_blank (next_of_blank hblank position) rfl).2 ?_
  have := hs.dropWhile (position + 1)
  rwa [Nat.add_assoc, Nat.add_comm 1] at this

theorem scans_semicolon : Scans ";".toList [] := by
  intro position
  have hn : (Cursor.mk [';'] position false).next =
      (.ok ⟨.endOfInput, ";", position⟩, ⟨[], position + 1, false⟩) := by
    rw [Cursor.next, lexeme_of_semicolon]
    rfl
  exact (Cursor.spells_iff_of_end hn rfl).2 rfl

theorem loose_of_symbolKind? {c : Char} {kind : TokenKind} {x : Symbol}
    (h : symbolKind? c = some kind)
    (hx : ∀ position, Token.symbol? ⟨kind, c.toString, position⟩ = some x) :
    Loose c.toString [x] := by
  intro after xs hs
  rw [show c.toString.toList = [c] from String.toList_singleton c]
  exact scans_of_lexeme (fun position => ⟨_, _, lexeme_of_symbol h, hx position⟩) hs

theorem loose_comma : Loose "," [.comma] := loose_of_symbolKind? (c := ',') rfl fun _ => rfl

theorem loose_openParen : Loose "(" [.openParen] :=
  loose_of_symbolKind? (c := '(') rfl fun _ => rfl

theorem loose_closeParen : Loose ")" [.closeParen] :=
  loose_of_symbolKind? (c := ')') rfl fun _ => rfl

theorem loose_equals : Loose "=" [.equals] := loose_of_symbolKind? (c := '=') rfl fun _ => rfl

theorem Delimited.head? {p : Char → Prop} (h : Delimited cs)
    (hp : p ' ' ∧ p ',' ∧ p '(' ∧ p ')' ∧ p ';') : ∀ c ∈ cs.head?, p c := by
  obtain ⟨c, rest, rfl, hc⟩ := h
  have hall : ∀ c ∈ [' ', ',', '(', ')', ';'], p c := by simpa using hp
  rintro _ ⟨⟩
  exact hall c hc

/-- A word prints the symbol of its token. -/
theorem prints_word {word : String} (hword : Leads word.toList [])
    (hx : ∀ position, (Token.ofWord word position).symbol? = some x) : Prints word [x] := by
  intro after xs hd hs
  have hleads : Leads word.toList after :=
    ⟨hword.head, hword.chars, hd.head? (by decide)⟩
  refine scans_of_lexeme (fun position => ⟨_, _, lexeme_of_leads hleads position, ?_⟩) hs
  rw [String.ofList_toList]
  exact hx position

theorem prints_identifier {name : String} (h : IsIdentifier name) :
    Prints name [.identifier name] := by
  obtain ⟨hword, hreserved⟩ := isIdentifier_iff.1 h
  refine prints_word hword fun position => ?_
  rw [ofWord_of_identifier ((ofWord_eq_identifier_iff _).2 hreserved)]
  rfl

theorem leads_of_all {word : List Char} (hhead : word.head?.any Text.isAlphabetic = true)
    (hchars : word.all Text.isWordChar = true) : Leads word [] := by
  refine ⟨?_, List.all_eq_true.1 hchars, nofun⟩
  cases word with
  | nil => cases hhead
  | cons c cs => exact ⟨c, cs, rfl, hhead⟩

theorem prints_keyword {word : String} (h : word ∈ Token.keywords) :
    Prints word [.keyword word] := by
  have table : ∀ word ∈ Token.keywords, word.toList.head?.any Text.isAlphabetic = true ∧
      word.toList.all Text.isWordChar = true ∧ Text.upper word = word := by decide +kernel
  obtain ⟨hhead, hchars, hupper⟩ := table word h
  refine prints_word (leads_of_all hhead hchars) fun position => ?_
  rw [Token.ofWord, hupper, if_pos h]
  rfl

theorem prints_dataType (type : DataType) : Prints type.word [.dataType type] := by
  have table : ∀ type ∈ DataType.all, type.word.toList.head?.any Text.isAlphabetic = true ∧
      type.word.toList.all Text.isWordChar = true ∧ Text.upper type.word = type.word ∧
      type.word ∉ Token.keywords ∧ type.word ∈ Token.dataTypes ∧
      DataType.ofWord? type.word = some type := by decide +kernel
  obtain ⟨hhead, hchars, hupper, hk, hd, htype⟩ := table type (by cases type <;> decide)
  refine prints_word (leads_of_all hhead hchars) fun position => ?_
  rw [Token.ofWord, hupper, if_neg hk, if_pos hd]
  show (DataType.ofWord? type.word).map Symbol.dataType = _
  rw [htype]
  rfl

theorem prints_literal (value : String) : Prints (renderLiteral value) [.literal value] := by
  intro after xs hd hs
  have hquote : after.head? ≠ some '\'' := fun h =>
    hd.head? (p := (· ≠ '\'')) (by decide) '\'' h rfl
  have htext : (renderLiteral value).toList ++ after =
      '\'' :: (doubleQuotes value.toList ++ '\'' :: after) := by
    simp [renderLiteral]
  rw [htext]
  refine scans_of_lexeme (fun position => ⟨_, _, lexeme_of_quoted _ hquote, ?_⟩) hs
  rw [String.ofList_toList]
  rfl

theorem prints_decimal (n : Nat) :
    Prints (Text.Decimal.text n) [.literal (Text.Decimal.text n)] := by
  intro after xs hd hs
  rw [Text.Decimal.text, String.toList_ofList]
  exact scans_of_lexeme (fun position => ⟨_, _, lexeme_of_digits (Text.Decimal.digits_ne_nil n)
    (fun c hc => Text.Decimal.isDigit_of_mem_digits hc) (hd.head? (by decide)), rfl⟩) hs

end

/-! ## Lists -/

theorem prints_commaSeparated {items : List String} {phrases : List (List Symbol)}
    (h : List.Forall₂ Prints items phrases) : Prints (commaSeparated items) (listed phrases) := by
  induction h with
  | nil => exact loose_empty.toPrints
  | @cons item phrase items phrases hi hs ih =>
    cases hs with
    | nil =>
      rw [commaSeparated, String.intercalate_singleton, Reader.listed_cons, List.flatMap_nil,
        List.append_nil]
      exact hi
    | @cons next phrase' items phrases hn hs =>
      have hcomma : Loose ", " [.comma] := loose_comma.append loose_space
      have hsep : Delimited ", ".toList := ⟨',', [' '], rfl, by decide⟩
      have hlisted : listed (phrase :: phrase' :: phrases) =
          phrase ++ [.comma] ++ listed (phrase' :: phrases) := by
        simp [Reader.listed_cons]
      rw [commaSeparated, String.intercalate_cons_cons, hlisted]
      exact (hi.loose hcomma hsep).prints ih

theorem prints_names {names : List String} (h : ∀ name ∈ names, IsIdentifier name) :
    Prints (commaSeparated names) (Grammar.names names) := by
  refine prints_commaSeparated
    (List.forall₂_map_right_iff.2 (List.forall₂_same.2 fun name hm => ?_))
  exact prints_identifier (h name hm)

theorem prints_literals (values : List String) :
    Prints (commaSeparated (values.map renderLiteral)) (Grammar.literals values) := by
  refine prints_commaSeparated (List.forall₂_map_left_iff.2
    (List.forall₂_map_right_iff.2 (List.forall₂_same.2 fun value _ => ?_)))
  exact prints_literal value

/-- Keywords with a space behind each of them. -/
theorem loose_keywords (words : List String) (h : ∀ word ∈ words, word ∈ Token.keywords) :
    Loose (String.join (words.map (· ++ " "))) (words.map .keyword) := by
  induction words with
  | nil => exact loose_empty
  | cons word words ih =>
    rw [List.forall_mem_cons] at h
    rw [List.map_cons, String.join_cons]
    exact ((prints_keyword h.1).loose loose_space delimited_blank).append (ih h.2)

/-- A space and keywords. -/
theorem loose_clause (words : List String) (h : ∀ word ∈ words, word ∈ Token.keywords) :
    Loose (" " ++ String.join (words.map (· ++ " "))) (words.map .keyword) :=
  loose_space.append (loose_keywords words h)

/-! ## Parts of statements -/

theorem delimited_append {text : String} (h : Delimited text.toList) (rest : String) :
    Delimited (text ++ rest).toList := by
  rw [String.toList_append]
  exact h.append rest.toList

theorem delimited_space (rest : String) : Delimited (" " ++ rest).toList :=
  delimited_append delimited_blank rest

theorem prints_condition {c : Condition} (h : c.WellFormed) :
    Prints c.render (comparison c.column c.value) := by
  obtain ⟨hcolumn, hoperator⟩ := h
  rw [Condition.render, hoperator]
  have hbefore := (prints_identifier hcolumn).loose loose_space delimited_blank
  exact ((hbefore.append loose_equals).append loose_space).prints (prints_literal c.value)

/-- A WHERE clause behind what it belongs to. -/
theorem Prints.renderWhere {text : String} {xs : List Symbol} (h : Prints text xs)
    {condition : Option Condition} (hc : ∀ c ∈ condition, c.WellFormed) :
    Prints (text ++ Sql.renderWhere condition) (xs ++ whereClause condition) := by
  cases condition with
  | none => rwa [Sql.renderWhere, whereClause, String.append_empty, List.append_nil]
  | some c =>
    have hwhere : Loose " WHERE " [.keyword "WHERE"] := loose_clause ["WHERE"] (by decide)
    have hspace : Delimited " WHERE ".toList := delimited_space "WHERE "
    exact h.append (hwhere.prints (prints_condition (hc c rfl))) (delimited_append hspace _)

theorem prints_assignments {row : Row} (h : ∀ column ∈ row.keys, IsIdentifier column) :
    Prints (commaSeparated (row.entries.map fun (column, value) =>
        column ++ " = " ++ renderLiteral value))
      (listed (row.entries.map fun pair => comparison pair.1 pair.2)) := by
  refine prints_commaSeparated (List.forall₂_map_left_iff.2
    (List.forall₂_map_right_iff.2 (List.forall₂_same.2 fun pair hpair => ?_)))
  have hcolumn := h pair.1 (List.mem_map_of_mem hpair)
  have hrender : Condition.render { column := pair.1, value := pair.2 } =
      pair.1 ++ " = " ++ renderLiteral pair.2 := by
    rw [Condition.render, show " = " = " " ++ "=" ++ " " from rfl, ← String.append_assoc,
      ← String.append_assoc]
  have hprints := prints_condition (c := { column := pair.1, value := pair.2 }) ⟨hcolumn, rfl⟩
  rw [hrender] at hprints
  exact hprints

/-! ## Elements of a CREATE TABLE -/

/-- The constraint behind a column that a known word denotes. -/
def attributeOfWord (word : String) : Attribute :=
  if word = "NOT NULL" then .notNull else if word = "NULL" then .null
  else if word = "UNIQUE" then .unique else .primaryKey

theorem attributeOfWord_spec {word : String} (h : word ∈ constraintWords) :
    (attributeOfWord word).words = [word] ∧ (attributeOfWord word).key? = none ∧
      (attributeOfWord word).Admissible := by
  simp only [constraintWords, List.mem_cons, List.not_mem_nil, or_false] at h
  rcases h with rfl | rfl | rfl | rfl <;> exact ⟨rfl, rfl, trivial⟩

theorem prints_constraintWord {word : String} (h : word ∈ constraintWords) :
    Prints (" " ++ word) (attributeOfWord word).symbols := by
  have hword (word : String) (h : word ∈ Token.keywords) :
      Prints (" " ++ word) [.keyword word] := loose_space.prints (prints_keyword h)
  simp only [constraintWords, List.mem_cons, List.not_mem_nil, or_false] at h
  rcases h with rfl | rfl | rfl | rfl
  · have hnot := (hword "NOT" (by decide)).append (hword "NULL" (by decide)) (delimited_space _)
    exact hnot.of_eq rfl
  · exact hword "NULL" (by decide)
  · exact hword "UNIQUE" (by decide)
  · have hkey := (hword "PRIMARY" (by decide)).append (hword "KEY" (by decide)) (delimited_space _)
    exact hkey.of_eq rfl

theorem Prints.constraintWords {text : String} {xs : List Symbol} (h : Prints text xs)
    {words : List String} (hw : ∀ word ∈ words, word ∈ Sql.constraintWords) :
    Prints (text ++ String.join (words.map (" " ++ ·)))
      (xs ++ (words.map attributeOfWord).flatMap Attribute.symbols) := by
  induction words generalizing text xs with
  | nil => simpa using h
  | cons word words ih =>
    rw [List.forall_mem_cons] at hw
    have hnext := h.append (prints_constraintWord hw.1) (delimited_space word)
    rw [List.map_cons, String.join_cons, ← String.append_assoc, List.map_cons, List.flatMap_cons,
      ← List.append_assoc]
    exact ih hnext hw.2

/-- The element that a column is written as. -/
def elementOfColumn (column : ColumnDefinition) : Element :=
  .column column.name column.dataType (column.size.map fun n => Text.Decimal.text n.toNat)
    (column.constraints.map attributeOfWord)

theorem size?_text (n : UInt32) : Reader.size? (Text.Decimal.text n.toNat) = some n := by
  obtain ⟨c, cs, hcs⟩ := List.exists_cons_of_ne_nil (Text.Decimal.digits_ne_nil n.toNat)
  have hc : c ≠ '+' := by
    rintro rfl
    have := Text.Decimal.isDigit_of_mem_digits (hcs ▸ List.mem_cons_self)
    exact absurd this (by decide)
  have hread : Text.Decimal.read? UInt32.size _ = _ := Text.Decimal.read?_digits n.toNat_lt_size
  have htext : (Text.Decimal.text n.toNat).toList = c :: cs := String.toList_ofList.trans hcs
  unfold Reader.size?
  rw [htext]
  split
  · next rest h => exact absurd (List.cons.inj h).1 hc
  · dsimp only
    rw [← hcs, hread, Option.map_some, UInt32.ofNat_toNat]

theorem words_attributeOfWord {words : List String} (h : ∀ word ∈ words, word ∈ constraintWords) :
    (words.map attributeOfWord).flatMap Attribute.words = words ∧
      (words.map attributeOfWord).filterMap Attribute.key? = [] ∧
      ∀ a ∈ words.map attributeOfWord, a.Admissible := by
  induction words with
  | nil => exact ⟨rfl, rfl, nofun⟩
  | cons word words ih =>
    rw [List.forall_mem_cons] at h
    obtain ⟨hwords, hkey, hadm⟩ := attributeOfWord_spec h.1
    obtain ⟨hwords', hkey', hadm'⟩ := ih h.2
    refine ⟨?_, ?_, List.forall_mem_cons.2 ⟨hadm, hadm'⟩⟩
    · rw [List.map_cons, List.flatMap_cons, hwords, hwords']; rfl
    · rw [List.map_cons, List.filterMap_cons_none hkey, hkey']

theorem elementOfColumn_spec {column : ColumnDefinition} (h : column.WellFormed) :
    (elementOfColumn column).columns = [column] ∧ (elementOfColumn column).constraints = [] ∧
      (elementOfColumn column).Admissible := by
  obtain ⟨hwords, hkey, hadm⟩ := words_attributeOfWord h.2
  have hsize : (column.size.map fun n => Text.Decimal.text n.toNat).bind Reader.size? =
      column.size := by
    cases column.size with
    | none => rfl
    | some n => exact size?_text n
  refine ⟨?_, ?_, ⟨?_, hadm⟩⟩
  · rw [elementOfColumn, Element.columns, hsize, hwords]
  · rw [elementOfColumn, Element.constraints, hkey]; rfl
  · intro literal hl
    obtain ⟨n, -, rfl⟩ := Option.map_eq_some_iff.1 hl
    rw [size?_text]; rfl

theorem prints_column {column : ColumnDefinition} (h : column.WellFormed) :
    Prints column.render (elementOfColumn column).symbols := by
  obtain ⟨name, type, size, constraints⟩ := column
  obtain ⟨hname, hwords⟩ := h
  have hhead : Prints (name ++ " " ++ type.word) [.identifier name, .dataType type] :=
    ((prints_identifier hname).loose loose_space delimited_blank).prints (prints_dataType type)
  cases size with
  | none =>
    have hsize : Prints (name ++ " " ++ type.word ++ "") [.identifier name, .dataType type] := by
      rwa [String.append_empty]
    exact (hsize.constraintWords hwords).of_symbols (by simp [elementOfColumn, Element.symbols])
  | some n =>
    have hsize := (loose_openParen.prints (prints_decimal n.toNat)).append
      loose_closeParen.toPrints delimited_closeParen
    have hdelimited := delimited_append
      (delimited_append delimited_openParen (Text.Decimal.text n.toNat)) ")"
    exact ((hhead.append hsize hdelimited).constraintWords hwords).of_symbols
      (by simp [elementOfColumn, Element.symbols, parenthesized])

theorem prints_parenthesized_names {names : List String}
    (h : ∀ name ∈ names, IsIdentifier name) :
    Loose ("(" ++ commaSeparated names ++ ")") (parenthesized (Grammar.names names)) :=
  (loose_openParen.prints (prints_names h)).loose loose_closeParen delimited_closeParen

theorem prints_tableConstraint {c : TableConstraint} (h : c.WellFormed) :
    Prints c.render (tableConstraint c) := by
  cases c with
  | primaryKey columns =>
    have hkeywords : Loose "PRIMARY KEY " [.keyword "PRIMARY", .keyword "KEY"] :=
      loose_keywords ["PRIMARY", "KEY"] (by decide)
    have := hkeywords.append (prints_parenthesized_names h.2)
    rw [← String.append_assoc, ← String.append_assoc] at this
    exact this.toPrints
  | foreignKey name column referencedTable referencedColumn =>
    obtain ⟨hname, hcolumn, htable, hreferenced⟩ := h
    have hforeign : Loose "FOREIGN KEY (" [.keyword "FOREIGN", .keyword "KEY", .openParen] :=
      ((loose_keywords ["FOREIGN", "KEY"] (by decide)).append loose_openParen).of_eq
        (by decide +kernel)
    have hreferences : Loose ") REFERENCES " [.closeParen, .keyword "REFERENCES"] :=
      (loose_closeParen.append (loose_clause ["REFERENCES"] (by decide))).of_eq
        (by decide +kernel)
    have hdelimited : Delimited ") REFERENCES ".toList :=
      ⟨')', " REFERENCES ".toList, rfl, by decide⟩
    have hbehind {text : String} {xs : List Symbol} (hnaming : Loose text xs) :=
      have hkey := (hnaming.append hforeign).prints (prints_identifier hcolumn)
      have htarget := (hkey.loose hreferences hdelimited).prints (prints_identifier htable)
      have hto := (htarget.loose loose_openParen delimited_openParen).prints
        (prints_identifier hreferenced)
      (hto.loose loose_closeParen delimited_closeParen).toPrints
    unfold TableConstraint.render
    cases name with
    | none =>
      exact (hbehind loose_empty).of_symbols (by simp [tableConstraint, parenthesized])
    | some name =>
      have hconstraint : Loose "CONSTRAINT " [.keyword "CONSTRAINT"] :=
        loose_keywords ["CONSTRAINT"] (by decide)
      have hnaming := (hconstraint.prints (prints_identifier (hname name rfl))).loose loose_space
        delimited_blank
      exact (hbehind hnaming).of_symbols (by simp [tableConstraint, parenthesized])

/-- The elements that the columns and the constraints of a CREATE TABLE are written as. -/
def elementsOf (columns : List ColumnDefinition) (constraints : List TableConstraint) :
    List Element :=
  columns.map elementOfColumn ++ constraints.map .constraint

section

variable {columns : List ColumnDefinition} {constraints : List TableConstraint}

theorem prints_elements (hcolumns : ∀ column ∈ columns, column.WellFormed)
    (hconstraints : ∀ c ∈ constraints, c.WellFormed) :
    Prints (commaSeparated (columns.map (·.render) ++ constraints.map (·.render)))
      (listed ((elementsOf columns constraints).map Element.symbols)) := by
  rw [elementsOf, List.map_append, List.map_map, List.map_map]
  refine prints_commaSeparated (List.rel_append ?_ ?_)
  · exact List.forall₂_map_left_iff.2 (List.forall₂_map_right_iff.2
      (List.forall₂_same.2 fun column hm => prints_column (hcolumns column hm)))
  · exact List.forall₂_map_left_iff.2 (List.forall₂_map_right_iff.2
      (List.forall₂_same.2 fun c hm => prints_tableConstraint (hconstraints c hm)))

theorem elementsOf_spec (hcolumns : ∀ column ∈ columns, column.WellFormed)
    (hconstraints : ∀ c ∈ constraints, c.WellFormed) :
    (elementsOf columns constraints).flatMap Element.columns = columns ∧
      (elementsOf columns constraints).flatMap Element.constraints = constraints ∧
      ∀ e ∈ elementsOf columns constraints, e.Admissible := by
  have hbehind : (constraints.map Element.constraint).flatMap Element.columns = [] ∧
      (constraints.map Element.constraint).flatMap Element.constraints = constraints := by
    induction constraints with
    | nil => exact ⟨rfl, rfl⟩
    | cons c constraints ih =>
      obtain ⟨hc, hk⟩ := ih (List.forall_mem_cons.1 hconstraints).2
      rw [List.map_cons, List.flatMap_cons, List.flatMap_cons, hc, hk]
      exact ⟨rfl, rfl⟩
  have hfront : (columns.map elementOfColumn).flatMap Element.columns = columns ∧
      (columns.map elementOfColumn).flatMap Element.constraints = [] := by
    induction columns with
    | nil => exact ⟨rfl, rfl⟩
    | cons column columns ih =>
      obtain ⟨hcolumn, hmore⟩ := List.forall_mem_cons.1 hcolumns
      obtain ⟨hc, hk⟩ := ih hmore
      obtain ⟨hc', hk', -⟩ := elementOfColumn_spec hcolumn
      rw [List.map_cons, List.flatMap_cons, List.flatMap_cons, hc, hk, hc', hk']
      exact ⟨rfl, rfl⟩
  refine ⟨?_, ?_, fun e he => ?_⟩
  · rw [elementsOf, List.flatMap_append, hfront.1, hbehind.1, List.append_nil]
  · rw [elementsOf, List.flatMap_append, hfront.2, hbehind.2, List.nil_append]
  · rcases List.mem_append.1 he with he | he
    · obtain ⟨column, hm, rfl⟩ := List.mem_map.1 he
      exact (elementOfColumn_spec (hcolumns column hm)).2.2
    · obtain ⟨c, hm, rfl⟩ := List.mem_map.1 he
      cases c with
      | primaryKey keys => exact (hconstraints _ hm).1
      | foreignKey => trivial

end

/-! ## Statements -/

section

variable {source table : String} {columns : List String} {condition : Option Condition}

/-- The end of a statement behind its last element. -/
theorem scans_closing : Scans ");".toList [.closeParen] := loose_closeParen scans_semicolon

theorem delimited_semicolon : Delimited ";".toList := ⟨';', [], rfl, by decide⟩

theorem delimited_closing : Delimited ");".toList := ⟨')', [';'], rfl, by decide⟩

theorem loose_opening : Loose " (" [.openParen] := (loose_space.append loose_openParen).of_eq rfl

theorem delimited_opening : Delimited " (".toList := ⟨' ', ['('], rfl, by decide⟩

theorem scans_insert {values : List String} (htable : IsIdentifier table)
    (hcolumns : ∀ column ∈ columns, IsIdentifier column) :
    Scans (Statement.render ⟨source, table, .insert columns values⟩).toList
      ([.keyword "INSERT", .keyword "INTO", .identifier table] ++ parenthesized (names columns) ++
        .keyword "VALUES" :: parenthesized (literals values)) := by
  have hinsert : Loose "INSERT INTO " [.keyword "INSERT", .keyword "INTO"] :=
    loose_keywords ["INSERT", "INTO"] (by decide)
  have hvalues : Loose ") VALUES (" [.closeParen, .keyword "VALUES", .openParen] :=
    ((loose_closeParen.append (loose_clause ["VALUES"] (by decide))).append
      loose_openParen).of_eq (by decide +kernel)
  have hdelimited : Delimited ") VALUES (".toList := ⟨')', " VALUES (".toList, rfl, by decide⟩
  have hhead := (hinsert.prints (prints_identifier htable)).loose loose_opening delimited_opening
  have hlists := ((hhead.prints (prints_names hcolumns)).loose hvalues hdelimited).prints
    (prints_literals values)
  exact (hlists.scans delimited_closing scans_closing).of_symbols (by simp [parenthesized])

theorem scans_select (htable : IsIdentifier table)
    (hcolumns : ∀ column ∈ columns, IsIdentifier column) (hc : ∀ c ∈ condition, c.WellFormed) :
    Scans (Statement.render ⟨source, table, .select columns condition⟩).toList
      (.keyword "SELECT" :: names columns ++ [.keyword "FROM", .identifier table] ++
        whereClause condition) := by
  have hselect : Loose "SELECT " [.keyword "SELECT"] :=
    loose_keywords ["SELECT"] (by decide)
  have hfrom : Loose " FROM " [.keyword "FROM"] := loose_clause ["FROM"] (by decide)
  have hdelimited : Delimited " FROM ".toList := ⟨' ', "FROM ".toList, rfl, by decide⟩
  have hlist := ((hselect.prints (prints_names hcolumns)).loose hfrom hdelimited).prints
    (prints_identifier htable)
  exact ((hlist.renderWhere hc).scans delimited_semicolon scans_semicolon).of_symbols (by simp)

theorem scans_delete (htable : IsIdentifier table) (hc : ∀ c ∈ condition, c.WellFormed) :
    Scans (Statement.render ⟨source, table, .delete condition⟩).toList
      ([.keyword "DELETE", .keyword "FROM", .identifier table] ++ whereClause condition) := by
  have hdelete : Loose "DELETE FROM " [.keyword "DELETE", .keyword "FROM"] :=
    loose_keywords ["DELETE", "FROM"] (by decide)
  have hhead := hdelete.prints (prints_identifier htable)
  exact ((hhead.renderWhere hc).scans delimited_semicolon scans_semicolon).of_symbols (by simp)

theorem scans_update {row : Row} (htable : IsIdentifier table)
    (hcolumns : ∀ column ∈ row.keys, IsIdentifier column) (hc : ∀ c ∈ condition, c.WellFormed) :
    Scans (Statement.render ⟨source, table, .update row condition⟩).toList
      ([.keyword "UPDATE", .identifier table, .keyword "SET"] ++
        listed (row.entries.map fun pair => comparison pair.1 pair.2) ++
          whereClause condition) := by
  have hupdate : Loose "UPDATE " [.keyword "UPDATE"] :=
    loose_keywords ["UPDATE"] (by decide)
  have hset : Loose " SET " [.keyword "SET"] := loose_clause ["SET"] (by decide)
  have hdelimited : Delimited " SET ".toList := ⟨' ', "SET ".toList, rfl, by decide⟩
  have hlist := ((hupdate.prints (prints_identifier htable)).loose hset hdelimited).prints
    (prints_assignments hcolumns)
  exact ((hlist.renderWhere hc).scans delimited_semicolon scans_semicolon).of_symbols (by simp)

theorem scans_createTable {columns : List ColumnDefinition} {constraints : List TableConstraint}
    (htable : IsIdentifier table) (hcolumns : ∀ column ∈ columns, column.WellFormed)
    (hconstraints : ∀ c ∈ constraints, c.WellFormed) :
    Scans (Statement.render ⟨source, table, .createTable columns constraints⟩).toList
      ([.keyword "CREATE", .keyword "TABLE", .identifier table] ++
        parenthesized (listed ((elementsOf columns constraints).map Element.symbols))) := by
  have hcreate : Loose "CREATE TABLE " [.keyword "CREATE", .keyword "TABLE"] :=
    loose_keywords ["CREATE", "TABLE"] (by decide)
  have hhead := (hcreate.prints (prints_identifier htable)).loose loose_opening delimited_opening
  have hlist := hhead.prints (prints_elements hcolumns hconstraints)
  exact (hlist.scans delimited_closing scans_closing).of_symbols (by simp [parenthesized])

end

/-- The canonical text of a well-formed statement spells a phrase of the grammar for it. -/
theorem exists_spells_render {s : Statement} (h : s.WellFormed) :
    ∃ xs, (Cursor.ofText s.render).Spells xs ∧ Derives s.table xs s.action := by
  obtain ⟨source, table, action⟩ := s
  obtain ⟨htable, haction⟩ := h
  have hoperator {condition : Option Condition} (hc : ∀ c ∈ condition, c.WellFormed) :
      ∀ c ∈ condition, c.operator = "=" := fun c hm => (hc c hm).2
  cases action with
  | insert columns values =>
    obtain ⟨hne, hcolumns, hnodup, hlength⟩ := haction
    exact ⟨_, scans_insert htable hcolumns 0, .insert hne hnodup hlength⟩
  | select columns condition =>
    obtain ⟨hne, hcolumns, hc⟩ := haction
    exact ⟨_, scans_select htable hcolumns hc 0, .select hne (hoperator hc)⟩
  | delete condition =>
    exact ⟨_, scans_delete htable haction 0, .delete (hoperator haction)⟩
  | update row condition =>
    obtain ⟨hne, hcolumns, hc⟩ := haction
    have hpairs : row.entries ≠ [] := fun h => hne (List.map_eq_nil_iff.2 h)
    have hderives : Derives table _ _ := Derives.update hpairs row.nodup (hoperator hc)
    rw [OrderedMap.ofList_entries] at hderives
    exact ⟨_, scans_update htable hcolumns hc 0, hderives⟩
  | createTable columns constraints =>
    obtain ⟨hne, hcolumns, hconstraints⟩ := haction
    obtain ⟨hc, hk, hadm⟩ := elementsOf_spec hcolumns hconstraints
    have helements : elementsOf columns constraints ≠ [] := by
      intro h
      rw [h] at hc hk
      rcases hne with hne | hne
      · exact hne hc.symm
      · exact hne hk.symm
    have hderives : Derives table _ _ := Derives.createTable helements hadm
    rw [hc, hk] at hderives
    exact ⟨_, scans_createTable htable hcolumns hconstraints 0, hderives⟩

/-- The canonical text of a well-formed statement is read as the statement. -/
theorem ofText_render {s : Statement} (h : s.WellFormed) :
    Statement.ofText s.render = .ok { s with source := s.render } := by
  obtain ⟨xs, hspells, hderives⟩ := exists_spells_render h
  exact ofText_eq_ok_iff_spells.2 ⟨xs, hspells, hderives, rfl⟩

/-- Printing and reading are inverse. A statement is read from its canonical text exactly if it
is well-formed, whatever its values are; and every statement that is read from a query is, so
that its canonical text gives the same statement, its text apart. -/
theorem render_ofText_inverse :
    (∀ s : Statement, s.WellFormed ↔
      Statement.ofText s.render = .ok { s with source := s.render }) ∧
    ∀ (sql : String) (s : Statement), Statement.ofText sql = .ok s →
      s.WellFormed ∧ Statement.ofText s.render = .ok { s with source := s.render } := by
  refine ⟨fun s => ⟨ofText_render, fun h => ?_⟩, fun sql s h => ?_⟩
  · exact wellFormed_of_ofText (s := { s with source := s.render }) h
  · have hs := wellFormed_of_ofText h
    exact ⟨hs, ofText_render hs⟩

/-- A query in small letters, with a quote, a semicolon and a keyword in its literal. -/
theorem render_ofText_inverse_quoted :
    let sql := "delete from Notes where body = 'it''s; not NULL' ; and so on"
    let s : Statement :=
      ⟨sql, "Notes", .delete (some { column := "body", value := "it's; not NULL" })⟩
    Statement.ofText sql = .ok s ∧ s.WellFormed ∧
      Statement.ofText s.render = .ok { s with source := s.render } := by
  intro sql s
  have hoption : (Statement.ofText sql).toOption = some s := by decide +kernel
  have hread : Statement.ofText sql = .ok s := by
    cases h : Statement.ofText sql with
    | error e => rw [h] at hoption; cases hoption
    | ok s' => rw [h] at hoption; exact congrArg Except.ok (Option.some.inj hoption)
  exact ⟨hread, render_ofText_inverse.2 sql s hread⟩

end RelStore.Sql
