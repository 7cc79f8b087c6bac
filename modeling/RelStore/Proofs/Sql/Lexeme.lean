import RelStore.Proofs.Sql.Reading
import RelStore.Proofs.Text.Word

/-!
# What stands at the start of a text

The lexeme at the start of a text, in both directions: what text a token of a kind comes from,
and which token the text of a word, a numeral, a quoted literal or a symbol gives.
-/

namespace RelStore.Sql

/-! ## Kinds of tokens -/

section

variable {token : Token}

theorem Token.symbol?_of_blank (h : token.kind = .whitespace) : token.symbol? = none := by
  rw [Token.symbol?, h]

theorem Token.symbol?_of_end (h : token.kind = .endOfInput) : token.symbol? = none := by
  rw [Token.symbol?, h]

theorem Token.eq_of_keyword {word : String} (h : token.symbol? = some (.keyword word)) :
    token.kind = .keyword ∧ token.text = word := by
  have hs := (stands_keyword word token).2 h
  rw [Token.is, Bool.and_eq_true, Option.all_some, beq_iff_eq, beq_iff_eq] at hs
  exact ⟨hs.1, hs.2.symm⟩

theorem Token.eq_of_identifier {name : String} (h : token.symbol? = some (.identifier name)) :
    token.kind = .identifier ∧ token.text = name := by
  obtain ⟨kind, text, position⟩ := token
  cases kind <;> simp_all [Token.symbol?]

theorem Token.kind_ofWord (word : String) (position : Nat) :
    (ofWord word position).kind = .keyword ∨ (ofWord word position).kind = .dataType ∨
      (ofWord word position).kind = .identifier := by
  unfold ofWord
  dsimp only
  split_ifs <;> simp

theorem Token.text_ofWord {word : String} {position : Nat}
    (h : (ofWord word position).kind = .keyword) :
    (ofWord word position).text = Text.upper word := by
  unfold ofWord at h ⊢
  dsimp only at h ⊢
  split_ifs at h ⊢
  rfl

theorem kind_of_symbolKind? {c : Char} {kind : TokenKind} (h : symbolKind? c = some kind) :
    kind = .operator ∨ kind = .comma ∨ kind = .openParen ∨ kind = .closeParen := by
  unfold symbolKind? at h
  split at h <;> cases h <;> simp

end

/-! ## From tokens to texts -/

section

variable {position : Nat} {cs word after : List Char} {token : Token}

/-- A blank token stands for a run of blanks. -/
theorem blanks_of_lexeme (h : (lexeme position cs).token = .ok token)
    (hk : token.kind = .whitespace) :
    ∃ blanks, cs = blanks ++ (lexeme position cs).rest ∧
      ∀ c ∈ blanks, Text.isBlank c = true := by
  revert h
  fun_cases lexeme position cs with
  | case2 c cs hc more =>
    intro h
    obtain rfl := Except.ok.inj h
    rcases Token.kind_ofWord (String.ofList (c :: more)) position with h | h | h <;>
      cases hk.symm.trans h
  | case4 c cs _ _ hb =>
    intro _
    refine ⟨c :: cs.takeWhile Text.isBlank, ?_, List.forall_mem_cons.2 ⟨hb, ?_⟩⟩
    · rw [List.cons_append, List.takeWhile_append_dropWhile]
    · exact List.all_eq_true.1 List.all_takeWhile
  | case5 c cs _ _ _ kind hsymbol =>
    intro h
    obtain rfl := Except.ok.inj h
    have := kind_of_symbolKind? hsymbol
    simp_all
  | _ => intro h; cases h <;> cases hk

/-- Behind the end of a query nothing is left. -/
theorem rest_of_lexeme (h : (lexeme position cs).token = .ok token)
    (hk : token.kind = .endOfInput) : (lexeme position cs).rest = [] := by
  revert h
  fun_cases lexeme position cs with
  | case1 => exact fun _ => rfl
  | case2 c cs hc more =>
    intro h
    obtain rfl := Except.ok.inj h
    rcases Token.kind_ofWord (String.ofList (c :: more)) position with h | h | h <;>
      cases hk.symm.trans h
  | case5 c cs _ _ _ kind hsymbol =>
    intro h
    obtain rfl := Except.ok.inj h
    have := kind_of_symbolKind? hsymbol
    simp_all
  | case6 => exact fun _ => rfl
  | _ => intro h; cases h <;> cases hk

/-- A word at the start of a text: a letter and word characters, with no word character behind
them. -/
structure Leads (word after : List Char) : Prop where
  head : ∃ c cs, word = c :: cs ∧ Text.isAlphabetic c = true
  chars : ∀ c ∈ word, Text.isWordChar c = true
  ends : ∀ c ∈ after.head?, Text.isWordChar c = false

theorem Leads.ne_nil (h : Leads word after) : word ≠ [] := by
  obtain ⟨c, cs, rfl, -⟩ := h.head
  exact List.cons_ne_nil c cs

/-- A keyword, a data type and an identifier stand for a word. -/
theorem leads_of_lexeme (h : (lexeme position cs).token = .ok token)
    (hk : token.kind = .keyword ∨ token.kind = .dataType ∨ token.kind = .identifier) :
    ∃ word, cs = word ++ (lexeme position cs).rest ∧ Leads word (lexeme position cs).rest ∧
      token = .ofWord (String.ofList word) position := by
  revert h
  fun_cases lexeme position cs with
  | case2 c cs hc more =>
    intro h
    obtain rfl := Except.ok.inj h
    refine ⟨c :: more, ?_, ⟨⟨c, more, rfl, hc⟩, ?_, fun d hd => ?_⟩, rfl⟩
    · rw [List.cons_append, List.takeWhile_append_dropWhile]
    · exact List.forall_mem_cons.2
        ⟨Text.isWordChar_of_isAlphabetic hc, List.all_eq_true.1 List.all_takeWhile⟩
    · have hnot := List.head?_dropWhile_not Text.isWordChar cs
      rw [Option.mem_def.1 hd] at hnot
      simpa using hnot
  | case5 c cs _ _ _ kind hsymbol =>
    intro h
    obtain rfl := Except.ok.inj h
    rcases kind_of_symbolKind? hsymbol with rfl | rfl | rfl | rfl <;> simp at hk
  | _ => intro h; cases h <;> simp [Token.atEnd] at hk

end

/-! ## From texts to tokens -/

section

variable {position : Nat} {word after : List Char}

/-- A word gives its token. -/
theorem lexeme_of_leads (h : Leads word after) (position : Nat) :
    lexeme position (word ++ after) =
      ⟨.ok (.ofWord (String.ofList word) position), word.length, after⟩ := by
  obtain ⟨c, cs, rfl, hc⟩ := h.head
  have hspan := Text.span_append (fun d hd => h.chars d (List.mem_cons_of_mem c hd)) h.ends
  rw [List.cons_append, lexeme, if_pos hc, hspan.1, hspan.2]
  rfl

/-- Digits without a digit or a point behind them are a numeral. -/
theorem lexeme_of_digits {digits : List Char} (hne : digits ≠ [])
    (hd : ∀ c ∈ digits, c.isDigit = true) (ha : ∀ c ∈ after.head?, c.isDigit = false ∧ c ≠ '.') :
    lexeme position (digits ++ after) =
      ⟨.ok ⟨.literal, String.ofList digits, position⟩, digits.length, after⟩ := by
  have hspan := Text.span_append hd fun c hc => (ha c hc).1
  have hnumeral : numeral (digits ++ after) = (digits, after) := by
    unfold numeral
    rw [hspan.1, hspan.2]
    split
    · exact absurd rfl (ha '.' rfl).2
    · rfl
  obtain ⟨c, cs, rfl⟩ := List.exists_cons_of_ne_nil hne
  have hc := hd c List.mem_cons_self
  rw [List.cons_append] at hnumeral ⊢
  rw [lexeme, Text.isAlphabetic_of_isDigit hc, if_neg Bool.false_ne_true, if_pos hc, hnumeral]

/-- A quoted literal gives its contents. -/
theorem lexeme_of_quoted (text : List Char) (ha : after.head? ≠ some '\'') :
    lexeme position ('\'' :: (doubleQuotes text ++ '\'' :: after)) =
      ⟨.ok ⟨.literal, String.ofList text, position⟩, (doubleQuotes text).length + 2, after⟩ := by
  rw [lexeme, show Text.isAlphabetic '\'' = false from rfl, show Char.isDigit '\'' = false from rfl,
    show Text.isBlank '\'' = false from rfl, show symbolKind? '\'' = none from rfl,
    quoted?_doubleQuotes text ha]
  rfl

/-- A character that is a token gives this token. -/
theorem lexeme_of_symbol {c : Char} {kind : TokenKind} (h : symbolKind? c = some kind) :
    lexeme position (c :: after) = ⟨.ok ⟨kind, c.toString, position⟩, 1, after⟩ := by
  have hc : c = '=' ∨ c = ',' ∨ c = '(' ∨ c = ')' := by
    unfold symbolKind? at h
    split at h <;> simp_all
  rw [lexeme, h]
  rcases hc with rfl | rfl | rfl | rfl <;> rfl

/-- A blank is a token together with the blanks behind it. -/
theorem lexeme_of_blank {c : Char} (h : Text.isBlank c = true) :
    lexeme position (c :: after) = ⟨.ok ⟨.whitespace, " ", position⟩,
      (after.takeWhile Text.isBlank).length + 1, after.dropWhile Text.isBlank⟩ := by
  have hword := Text.isWordChar_of_isBlank h
  have hletter : Text.isAlphabetic c = false := by
    simp only [Text.isWordChar, Bool.or_eq_false_iff] at hword
    exact hword.1.1
  have hdigit : c.isDigit = false := by
    cases hd : c.isDigit with
    | false => rfl
    | true => rw [Text.isWordChar_of_isDigit hd] at hword; cases hword
  rw [lexeme, hletter, hdigit, h]
  rfl

theorem lexeme_of_semicolon :
    lexeme position (';' :: after) = ⟨.ok ⟨.endOfInput, ";", position⟩, after.length + 1, []⟩ := by
  rw [lexeme]
  rfl

end

end RelStore.Sql
