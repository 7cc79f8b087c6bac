import RelStore.Proofs.Sql.Acceptance

/-!
# Announcements and readers

The announcement of a query and a reader that looks at its first token settle in two ways which
statement is read: one by the characters, trimmed and in capitals, the other by the tokens. They
agree. The first word of an announced query is a word to the tokens as well, since a character
whose capital begins with an ASCII letter is a letter (`Text.isAlphabetic_of_upperChar`); so the
reader holds its keyword (`Reader.at_verb`). A query without an announcement has no reader that
gets to an end. Together: `announced_iff_parsed`.
-/

namespace RelStore

namespace Text

/-! ## First words -/

theorem isAlpha_of_isAlpha_toUpper {c : Char} (h : c.toUpper.isAlpha = true) :
    c.isAlpha = true := by
  unfold Char.toUpper at h
  split at h
  · next hlower =>
    have hletter : (decide (97 ≤ c.val) && decide (c.val ≤ 122)) = true := by
      rw [Bool.and_eq_true, decide_eq_true_iff, decide_eq_true_iff]
      exact hlower
    exact (Bool.or_eq_true c.isUpper c.isLower).mpr (.inr hletter)
  · exact h

theorem toNat_lt_of_isAlpha {c : Char} (h : c.isAlpha = true) : 0 < c.toNat ∧ c.toNat < 128 := by
  have hletter : (decide (65 ≤ c.val ∧ c.val ≤ 90) ||
      decide (97 ≤ c.val) && decide (c.val ≤ 122)) = true := h
  simp only [Bool.or_eq_true, Bool.and_eq_true, decide_eq_true_iff, UInt32.le_iff_toNat_le,
    Char.toNat_val] at hletter
  rcases hletter with hletter | hletter <;> exact ⟨Nat.lt_of_lt_of_le (by decide) hletter.1,
    Nat.lt_of_le_of_lt hletter.2 (by decide)⟩

/-- The characters with several capitals of which the first is an ASCII letter. -/
theorem contains_of_mem_expandingCapitals : ∀ entry ∈ expandingCapitals,
    (entry.2.map Char.ofNat).head?.any Char.isAlpha = true →
      alphabetic.contains entry.1 = true := by
  decide +kernel

/-- The characters with a single capital that is ASCII stand alone in the table. -/
theorem contains_of_mem_caseRuns : ∀ run ∈ caseRuns, 128 ≤ run.capital ∨
    run.first = run.last ∧ alphabetic.contains run.first = true := by
  decide +kernel

/-- A character whose capital begins with an ASCII letter is a letter. -/
theorem isAlphabetic_of_upperChar {c d : Char} (h : (upperChar c).head? = some d)
    (hd : d.isAlpha = true) : isAlphabetic c = true := by
  have hcode := toNat_lt_of_isAlpha hd
  by_cases hc : c.val < 128
  · rw [upperChar, if_pos hc] at h
    obtain rfl := Option.some.inj h
    rw [isAlphabetic, if_pos hc]
    exact isAlpha_of_isAlpha_toUpper hd
  · rw [isAlphabetic, if_neg hc]
    rw [upperChar, if_neg hc] at h
    split at h
    · next capitals hl =>
      obtain ⟨before, behind, hmem, -⟩ := List.lookup_eq_some_iff.1 hl
      refine contains_of_mem_expandingCapitals (c.toNat, capitals) (hmem ▸ by simp) ?_
      rw [h]
      exact hd
    · split at h
      · next capital hf =>
        obtain ⟨run, hrun, hu⟩ := List.exists_of_findSome?_eq_some hf
        unfold CaseRun.upper? at hu
        split_ifs at hu with hin
        obtain rfl := Option.some.inj hu
        obtain rfl := Option.some.inj h
        simp only [Bool.and_eq_true, decide_eq_true_iff] at hin
        have hofNat := toNat_ofNat (run.capital + (c.toNat - run.first))
        obtain hge | ⟨hsame, hletter⟩ := contains_of_mem_caseRuns run hrun
        · omega
        · rwa [show c.toNat = run.first by omega]
      · obtain rfl := Option.some.inj h
        exact absurd (UInt32.lt_iff_toNat_lt.2 hcode.2 : c.val < 128) hc

theorem upperChar_ne_nil (c : Char) : upperChar c ≠ [] := by
  have hseveral : ∀ entry ∈ expandingCapitals, entry.2 ≠ [] := by decide +kernel
  rw [upperChar]
  split_ifs
  · exact List.cons_ne_nil _ _
  · split
    · next capitals hl =>
      obtain ⟨before, behind, hmem, -⟩ := List.lookup_eq_some_iff.1 hl
      have hne := hseveral (c.toNat, capitals) (hmem ▸ by simp)
      simpa using hne
    · split <;> exact List.cons_ne_nil _ _

/-- Trimming a text at its end leaves the word at its start alone. -/
theorem takeWhile_trimEnd (cs : List Char) :
    (trimEnd cs).takeWhile isWordChar = cs.takeWhile isWordChar := by
  have hcs : trimEnd cs ++ (cs.reverse.takeWhile isBlank).reverse = cs := by
    rw [trimEnd, ← List.reverse_append, List.takeWhile_append_dropWhile, List.reverse_reverse]
  have hnone : (cs.reverse.takeWhile isBlank).reverse.takeWhile isWordChar = [] := by
    have hblank : ∀ c ∈ (cs.reverse.takeWhile isBlank).reverse, isBlank c = true :=
      fun c hc => List.all_eq_true.1 List.all_takeWhile c (List.mem_reverse.1 hc)
    revert hblank
    generalize (cs.reverse.takeWhile isBlank).reverse = blanks
    intro hblank
    cases blanks with
    | nil => rfl
    | cons c blanks =>
      rw [List.takeWhile_cons, isWordChar_of_isBlank (hblank c List.mem_cons_self)]
      rfl
  refine Eq.trans ?_ (congrArg (List.takeWhile isWordChar) hcs)
  rw [List.takeWhile_append, hnone, List.append_nil]
  split_ifs with hlen
  · exact (List.takeWhile_prefix isWordChar).eq_of_length hlen
  · rfl

end Text

namespace Sql

/-! ## What is announced -/

namespace Opening

/-- The first word of the opening. -/
def verb : Opening → String
  | insert => "INSERT"
  | select => "SELECT"
  | update => "UPDATE"
  | delete => "DELETE"
  | createTable => "CREATE"

theorem verb_mem_keywords (opening : Opening) : opening.verb ∈ Token.keywords := by
  cases opening <;> decide

theorem eq_createTable_of_afterCreate {rest : List Char} {opening : Opening}
    (h : afterCreate rest = .ok opening) : opening = .createTable := by
  unfold afterCreate at h
  dsimp only at h
  split_ifs at h
  exact (Except.ok.inj h).symm

/-- The capitals of the first word of an announced query. -/
theorem capitals_of_ofText {sql : String} {opening : Opening} (h : ofText sql = .ok opening) :
    String.ofList (((Text.trim sql.toList).takeWhile Text.isWordChar).flatMap Text.upperChar) =
      opening.verb := by
  unfold ofText at h
  dsimp only at h
  split at h
  · cases h
  · next c cs htext =>
    split_ifs at h with hi hs hu hd hc
    · rw [← Except.ok.inj h]; exact hi
    · rw [← Except.ok.inj h]; exact hs
    · rw [← Except.ok.inj h]; exact hu
    · rw [← Except.ok.inj h]; exact hd
    · rw [eq_createTable_of_afterCreate h]; exact hc

end Opening

/-- An announced query begins with a word, perhaps behind blanks. -/
theorem leads_of_ofText {sql : String} {opening : Opening} (h : Opening.ofText sql = .ok opening) :
    ∃ blanks word after, sql.toList = blanks ++ (word ++ after) ∧
      (∀ b ∈ blanks, Text.isBlank b = true) ∧ Leads word after ∧
      word.flatMap Text.upperChar = opening.verb.toList := by
  have hcapitals := congrArg String.toList (Opening.capitals_of_ofText h)
  rw [Text.trim, Text.takeWhile_trimEnd, String.toList_ofList] at hcapitals
  refine ⟨sql.toList.takeWhile Text.isBlank, (Text.trimStart sql.toList).takeWhile Text.isWordChar,
    (Text.trimStart sql.toList).dropWhile Text.isWordChar, ?_, ?_, ⟨?_, ?_, ?_⟩, hcapitals⟩
  · rw [List.takeWhile_append_dropWhile, Text.trimStart, List.takeWhile_append_dropWhile]
  · exact List.all_eq_true.1 List.all_takeWhile
  · obtain ⟨first, others, hverb, hletter⟩ :
        ∃ first others, opening.verb.toList = first :: others ∧ first.isAlpha = true := by
      cases opening <;> exact ⟨_, _, rfl, rfl⟩
    revert hcapitals
    rw [hverb]
    cases (Text.trimStart sql.toList).takeWhile Text.isWordChar with
    | nil => intro hcapitals; cases hcapitals
    | cons c cs =>
      intro hcapitals
      obtain ⟨d, ds, hd⟩ := List.exists_cons_of_ne_nil (Text.upperChar_ne_nil c)
      rw [List.flatMap_cons, hd, List.cons_append] at hcapitals
      obtain rfl := (List.cons.inj hcapitals).1
      exact ⟨c, cs, rfl, Text.isAlphabetic_of_upperChar (congrArg List.head? hd) hletter⟩
  · exact List.all_eq_true.1 List.all_takeWhile
  · intro c hc
    have hnot := List.head?_dropWhile_not Text.isWordChar (Text.trimStart sql.toList)
    rw [Option.mem_def.1 hc] at hnot
    simpa using hnot

/-! ## What the reader holds -/

/-- The first token that counts of a text that begins with a word is that of the word. -/
theorem Feed.next_of_leads {c : Cursor} {blanks word after : List Char}
    (hrest : c.rest = blanks ++ (word ++ after)) (hb : ∀ b ∈ blanks, Text.isBlank b = true)
    (hword : Leads word after) :
    ∃ position feed, (Feed.ofCursor c).significant.next =
      (.ok (.ofWord (String.ofList word) position), feed) := by
  -- A cursor in front of the word; the blanks before it are one token.
  have hfirst : ∀ c : Cursor, c.rest = word ++ after → ∃ position feed,
      (Feed.ofCursor c).significant.next =
        (.ok (.ofWord (String.ofList word) position), feed) := fun c hc => by
    have hnext : c.next = (.ok (.ofWord (String.ofList word) c.position),
        { c with rest := after, position := c.position + word.length }) := by
      rw [Cursor.next, hc, lexeme_of_leads hword]
    have hkind := Token.kind_ofWord (String.ofList word) c.position
    refine ⟨c.position, _, Feed.next_significant_of_token hnext ?_ ?_⟩ <;>
      rcases hkind with hk | hk | hk <;> rw [hk] <;> decide
  cases blanks with
  | nil => exact hfirst c hrest
  | cons b blanks =>
    rw [List.forall_mem_cons] at hb
    have hstop : ∀ d ∈ (word ++ after).head?, Text.isBlank d = false := by
      obtain ⟨d, ds, rfl⟩ := List.exists_cons_of_ne_nil hword.ne_nil
      rintro _ ⟨⟩
      exact Text.not_isBlank_of_isWordChar (hword.chars d List.mem_cons_self)
    have hspan := Text.span_append hb.2 hstop
    have hnext : (c.next).1 = .ok ⟨.whitespace, " ", c.position⟩ ∧
        (c.next).2.rest = word ++ after := by
      rw [Cursor.next, hrest, List.cons_append, lexeme_of_blank hb.1]
      exact ⟨rfl, hspan.2⟩
    rw [Feed.significant_of_blank (Prod.ext hnext.1 rfl) rfl]
    exact hfirst c.next.2 hnext.2

/-- A reader for an announced query holds the first word of what is announced. -/
theorem Reader.at_verb {sql : String} {opening : Opening} {r : Reader}
    (h : Opening.ofText sql = .ok opening) (hr : Reader.ofText sql = .ok r) :
    r.At (.keyword opening.verb) := by
  obtain ⟨blanks, word, after, hsql, hb, hword, hcapitals⟩ := leads_of_ofText h
  obtain ⟨position, feed, hnext⟩ := Feed.next_of_leads (c := .ofText sql) hsql hb hword
  have hreads := (Reader.ofText_eq_ok_iff.1 hr).2
  have hcurrent := Except.ok.inj (Prod.mk.inj (hnext.symm.trans hreads)).1
  have hupper : Text.upper (String.ofList word) = opening.verb := by
    rw [Text.upper, String.toList_ofList, hcapitals, String.ofList_toList]
  rw [Reader.At, ← hcurrent, Token.ofWord, hupper, if_pos opening.verb_mem_keywords]
  rfl

theorem Reader.holds_ite {β : Type} {word : String} {f g : Read β} {r : Reader} :
    (do if ← holds word then f else g : Read β) r =
      if r.At (.keyword word) then f r else g r := by
  rw [holds_bind]
  by_cases h : r.At (.keyword word)
  · rw [if_pos h, if_pos (decide_eq_true h)]
  · rw [if_neg h, if_neg (by simpa using h)]

/-- The keyword at which the reader stands decides which statement it reads. -/
theorem Reader.anyStatement_eq (r : Reader) : Reader.anyStatement r =
    if r.At (.keyword "INSERT") then Reader.insert r
    else if r.At (.keyword "SELECT") then Reader.select r
    else if r.At (.keyword "UPDATE") then Reader.update r
    else if r.At (.keyword "DELETE") then Reader.delete r
    else if r.At (.keyword "CREATE") then Reader.createTable r
    else Reader.unexpected "INSERT, SELECT, UPDATE, DELETE or CREATE" r := by
  unfold Reader.anyStatement
  simp only [Reader.holds_ite]

theorem Reader.anyStatement_of_at {opening : Opening} {r : Reader}
    (h : r.At (.keyword opening.verb)) : Reader.anyStatement r = opening.read r := by
  have hat : ∀ word, r.At (.keyword word) ↔ word = opening.verb := fun word =>
    ⟨fun hw => Symbol.keyword.inj (hw.eq h), fun hw => hw ▸ h⟩
  rw [Reader.anyStatement_eq]
  simp only [hat]
  cases opening <;> rfl

theorem Reader.exists_opening {r r' : Reader} {s : Statement}
    (h : Reader.anyStatement r = .ok s r') : ∃ opening : Opening, opening.read r = .ok s r' := by
  rw [Reader.anyStatement_eq] at h
  split_ifs at h
  · exact ⟨.insert, h⟩
  · exact ⟨.select, h⟩
  · exact ⟨.update, h⟩
  · exact ⟨.delete, h⟩
  · exact ⟨.createTable, h⟩
  · cases h

/-! ## Both together -/

/-- The statement that a query denotes to a reader that goes by its first token. -/
def Statement.parse (sql : String) : Except Error Statement := do
  let reader ← Reader.ofText sql
  match Reader.anyStatement reader with
  | .ok statement _ => .ok statement
  | .error e _ => .error e

theorem ofText_of_announced {sql : String} {opening : Opening}
    (h : Opening.ofText sql = .ok opening) : Statement.ofText sql = Statement.parse sql := by
  unfold Statement.ofText Statement.parse
  rw [h]
  cases hr : Reader.ofText sql with
  | error e => rfl
  | ok r =>
    show (match opening.read r with | .ok s _ => _ | .error e _ => _) = _
    rw [← Reader.anyStatement_of_at (Reader.at_verb h hr)]
    rfl

/-- What the first token leads to is announced. -/
theorem ofText_of_parse {sql : String} {s : Statement} (h : Statement.parse sql = .ok s) :
    Statement.ofText sql = .ok s := by
  unfold Statement.parse at h
  cases hr : Reader.ofText sql with
  | error e => rw [hr] at h; cases h
  | ok r =>
    rw [hr] at h
    dsimp only [bind, Except.bind] at h
    split at h
    · next statement r' hread =>
      obtain rfl := Except.ok.inj h
      obtain ⟨opening, hopening⟩ := Reader.exists_opening hread
      exact ofText_eq_ok_iff_spells.2 (spells_of_read hr hopening)
    · cases h

/-- The announcement of a query and its reader agree: an announced query is read as its first token
says, with the same statement or the same error; a query that is not announced is not read at all;
and so both ways there are the same statements. -/
theorem announced_iff_parsed (sql : String) :
    (∀ opening, Opening.ofText sql = .ok opening → Statement.ofText sql = Statement.parse sql) ∧
      (∀ e, Opening.ofText sql = .error e → ∃ e', Statement.parse sql = .error e') ∧
      ∀ s, Statement.ofText sql = .ok s ↔ Statement.parse sql = .ok s := by
  have hannounced : ∀ {s}, Statement.ofText sql = .ok s →
      ∃ opening, Opening.ofText sql = .ok opening := fun h => by
    obtain ⟨opening, -, -, ho, -⟩ := ofText_eq_ok_iff_read.1 h
    exact ⟨opening, ho⟩
  refine ⟨fun opening ho => ofText_of_announced ho, fun e he => ?_, fun s => ⟨fun h => ?_,
    ofText_of_parse⟩⟩
  · cases hp : Statement.parse sql with
    | error e' => exact ⟨e', rfl⟩
    | ok s =>
      obtain ⟨opening, ho⟩ := hannounced (ofText_of_parse hp)
      rw [ho] at he
      cases he
  · obtain ⟨opening, ho⟩ := hannounced h
    rwa [← ofText_of_announced ho]

end Sql

end RelStore
