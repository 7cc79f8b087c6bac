import RelStore.Proofs.Sql.Spelling

/-!
# What is accepted

A query that spells a phrase of the grammar announces the statement that the phrase is
(`announces_of_spells`), although the announcement looks at characters and not at tokens. With
the readers for the phrases this settles which queries are statements, and which
(`ofText_eq_ok_iff_spells`).
-/

namespace RelStore.Sql

open Grammar

/-! ## The words at the start of a query -/

/-- A query that spells a keyword first: blanks, the word and what follows. -/
theorem Cursor.Spells.word {c : Cursor} {w : String} {xs : List Symbol}
    (h : c.Spells (.keyword w :: xs)) :
    ∃ blanks word after c', c.rest = blanks ++ (word ++ after) ∧
      (∀ b ∈ blanks, Text.isBlank b = true) ∧ Leads word after ∧
      word.flatMap Text.upperChar = w.toList ∧ c'.rest = after ∧ Cursor.Spells c' xs := by
  generalize hys : Symbol.keyword w :: xs = ys at h
  induction h with
  | @symbol c c' token x xs hn hx hs ih =>
    obtain ⟨rfl, rfl⟩ := List.cons.inj hys
    obtain ⟨ht, rfl⟩ := Prod.mk.inj hn
    obtain ⟨hk, rfl⟩ := Token.eq_of_keyword hx
    obtain ⟨word, hrest, hword, rfl⟩ := leads_of_lexeme ht (.inl hk)
    refine ⟨[], word, _, _, hrest, nofun, hword, ?_, rfl, hs⟩
    rw [Token.text_ofWord hk, Text.upper, String.toList_ofList, String.toList_ofList]
  | @blank c c' token xs hn hk hs ih =>
    obtain ⟨blanks, word, after, c'', hrest, hb, hword, hw, hafter, hs'⟩ := ih hys
    obtain ⟨ht, rfl⟩ := Prod.mk.inj hn
    obtain ⟨before, hbefore, hb'⟩ := blanks_of_lexeme ht hk
    refine ⟨before ++ blanks, word, after, c'', ?_, ?_, hword, hw, hafter, hs'⟩
    · rw [List.append_assoc, ← hrest]
      exact hbefore
    · exact List.forall_mem_append.2 ⟨hb', hb⟩
  | stop => cases hys

/-! ## Announcements -/

/-- What the first word of a query is to the announcement. -/
theorem Leads.opening {sql : String} {blanks word after : List Char} (hword : Leads word after)
    (hsql : sql.toList = blanks ++ (word ++ after)) (hb : ∀ b ∈ blanks, Text.isBlank b = true) :
    ∃ c rest, Text.trim sql.toList = c :: rest ∧ (c :: rest).takeWhile Text.isWordChar = word ∧
      (c :: rest).dropWhile Text.isWordChar = Text.trimEnd after := by
  obtain ⟨c, more, rfl⟩ := List.exists_cons_of_ne_nil hword.ne_nil
  have hends : ∀ c ∈ (Text.trimEnd after).head?, Text.isWordChar c = false :=
    fun c hc => hword.ends c (Text.mem_head?_of_trimEnd hc)
  refine ⟨c, more ++ Text.trimEnd after, ?_, Text.span_append hword.chars hends⟩
  rw [hsql, Text.trim_of_word hb hword.ne_nil hword.chars]
  rfl

/-- The second word of a CREATE TABLE is TABLE to the announcement as well. -/
theorem afterCreate_of_spells {c : Cursor} {xs : List Symbol}
    (h : c.Spells (.keyword "TABLE" :: xs)) :
    Opening.afterCreate (Text.trimEnd c.rest) = .ok .createTable := by
  obtain ⟨blanks, word, after, c', hrest, hb, hword, hw, -, -⟩ := h.word
  have hspan := Text.span_append hword.chars
    fun c hc => hword.ends c (Text.mem_head?_of_trimEnd hc)
  unfold Opening.afterCreate
  rw [hrest, Text.trimEnd_of_word blanks hword.ne_nil hword.chars, Text.trimStart_of_blanks hb,
    Text.trimStart_of_word hword.ne_nil hword.chars, hspan.1]
  exact if_pos (Text.map_toUpper_of_capitals hw)

theorem announces_of_spells {sql : String} {xs : List Symbol} {opening : Opening}
    (h : (Cursor.ofText sql).Spells xs) (ho : Reader.openingSymbols opening <+: xs) :
    Opening.ofText sql = .ok opening := by
  obtain ⟨ys, rfl⟩ := ho
  have hfirst {w : String} {zs : List Symbol} (h : (Cursor.ofText sql).Spells (.keyword w :: zs)) :
      ∃ c rest c', Text.trim sql.toList = c :: rest ∧
        String.ofList (((c :: rest).takeWhile Text.isWordChar).flatMap Text.upperChar) = w ∧
        (c :: rest).dropWhile Text.isWordChar = Text.trimEnd c'.rest ∧ Cursor.Spells c' zs := by
    obtain ⟨blanks, word, _, c', hrest, hb, hword, hw, rfl, hs⟩ := h.word
    obtain ⟨c, rest, htrim, htake, hdrop⟩ := hword.opening hrest hb
    refine ⟨c, rest, c', htrim, ?_, hdrop, hs⟩
    rw [htake, hw, String.ofList_toList]
  cases opening with
  | insert | select | update | delete =>
    obtain ⟨c, rest, c', htrim, hw, -⟩ := hfirst h
    rw [Opening.ofText, htrim]
    dsimp only
    rw [hw]
    rfl
  | createTable =>
    obtain ⟨c, rest, c', htrim, hw, hdrop, hs⟩ := hfirst h
    rw [Opening.ofText, htrim]
    dsimp only
    rw [hw, hdrop]
    exact afterCreate_of_spells hs

/-! ## Statements -/

theorem ofText_eq_ok_iff_read {sql : String} {s : Statement} :
    Statement.ofText sql = .ok s ↔ ∃ opening r r', Opening.ofText sql = .ok opening ∧
      Reader.ofText sql = .ok r ∧ opening.read r = .ok s r' := by
  unfold Statement.ofText
  cases Opening.ofText sql with
  | error e => simp [bind, Except.bind]
  | ok opening =>
    cases Reader.ofText sql with
    | error e => simp [bind, Except.bind]
    | ok r =>
      simp only [bind, Except.bind, Except.ok.injEq, exists_and_left, exists_eq_left']
      cases opening.read r <;> simp

/-- What a reader has read as a statement, the query spells and derives. -/
theorem spells_of_read {sql : String} {s : Statement} {opening : Opening} {r r' : Reader}
    (hr : Reader.ofText sql = .ok r) (h : opening.read r = .ok s r') :
    ∃ xs, (Cursor.ofText sql).Spells xs ∧ Derives s.table xs s.action ∧ s.source = sql := by
  obtain ⟨hsource, hreads⟩ := Reader.ofText_eq_ok_iff.1 hr
  obtain ⟨xs, r₁, ht, hd, hs, hf⟩ := Reader.derivable_of_read h
  refine ⟨xs, (Reader.spells_iff_accepts sql).2 ⟨r, hsource, hreads, r₁, r', ht, hf⟩, hd, ?_⟩
  rw [hs, hsource]

/-- A query is read as the statement that its symbols derive. -/
theorem ofText_eq_ok_iff_spells {sql : String} {s : Statement} :
    Statement.ofText sql = .ok s ↔
      ∃ xs, (Cursor.ofText sql).Spells xs ∧ Derives s.table xs s.action ∧ s.source = sql := by
  rw [ofText_eq_ok_iff_read]
  constructor
  · rintro ⟨opening, r, r', -, hr, h⟩
    exact spells_of_read hr h
  · rintro ⟨xs, hs, hd, hsource⟩
    obtain ⟨r, hr, hreads, r₁, r', ht, hf⟩ := (Reader.spells_iff_accepts sql).1 hs
    obtain ⟨opening, ho, hread⟩ := Reader.read_of_derives hd (Reader.ends_of_reads hreads) ht hf
    refine ⟨opening, r, r', announces_of_spells hs ho, Reader.ofText_eq_ok_iff.2 ⟨hr, hreads⟩, ?_⟩
    rw [hread, hr, ← hsource]

/-- Which queries are statements, and which: a query is the statement `s` exactly if it can be
cut into tokens and those that count, up to the end of the input, are a phrase of the grammar
for what `s` does to its table. -/
theorem ofText_eq_ok_iff_derives (sql : String) (s : Statement) :
    Statement.ofText sql = .ok s ↔
      ∃ tokens, (Cursor.ofText sql).tokens.1 = .ok tokens ∧
        ∃ xs, ((tokens.filter (·.kind ≠ .whitespace)).takeWhile (·.kind ≠ .endOfInput)).map
            Token.symbol? = xs.map some ∧
          Derives s.table xs s.action ∧ s.source = sql := by
  rw [ofText_eq_ok_iff_spells]
  simp only [Cursor.spells_iff_tokens]
  constructor
  · rintro ⟨xs, ⟨tokens, ht, hx⟩, hd, hs⟩; exact ⟨tokens, ht, xs, hx, hd, hs⟩
  · rintro ⟨tokens, ht, xs, hx, hd, hs⟩; exact ⟨xs, ⟨tokens, ht, hx⟩, hd, hs⟩

end RelStore.Sql
