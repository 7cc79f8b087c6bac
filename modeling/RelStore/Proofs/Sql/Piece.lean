import RelStore.Proofs.Sql.Lexeme

/-!
# Tokens and the pieces they stand for

Which piece of a text a token stands for is said of the piece and of what follows it
(`Token.Covers`): words, numerals and runs of blanks are as long as they can be (`Longest`), so
there is at most one such piece at a place (`Longest.eq`). A token is read wherever its piece stands
(`lexeme_of_covers`), and at every place there is either such a piece or a reason for no further
token (`lexeme_cases`, `Halts`).
-/

namespace RelStore.Sql

/-! ## Kinds of pieces -/

/-- A piece of a kind that would be of the kind no longer with any more of what follows it. -/
def Longest (p : List Char → Prop) (piece after : List Char) : Prop :=
  p piece ∧ ∀ more, more ≠ [] → more <+: after → ¬ p (piece ++ more)

/-- Some characters of a class, one at least. -/
def Stretch (p : Char → Bool) (cs : List Char) : Prop := cs ≠ [] ∧ ∀ c ∈ cs, p c = true

/-- A letter, and behind it what can stand in a word. -/
def Wordlike (cs : List Char) : Prop :=
  ∃ c more, cs = c :: more ∧ Text.isAlphabetic c = true ∧ ∀ d ∈ more, Text.isWordChar d = true

/-- Digits, perhaps with one point among them. -/
inductive Numeric : List Char → Prop
  | whole {digits : List Char} : Stretch Char.isDigit digits → Numeric digits
  | pointed {digits fraction : List Char} : Stretch Char.isDigit digits →
    Stretch Char.isDigit fraction → Numeric (digits ++ '.' :: fraction)

/-- A literal in quotes. -/
def quotedForm (text : List Char) : List Char := '\'' :: (doubleQuotes text ++ ['\''])

/-- The characters that are tokens by themselves. -/
def symbols : List (Char × TokenKind) :=
  [('=', .operator), (',', .comma), ('(', .openParen), (')', .closeParen)]

/-- The token stands for a piece of a text that goes on in this way. -/
inductive Token.Covers (token : Token) (piece after : List Char) : Prop
  | identifier : token.kind = .identifier → piece = token.text.toList →
    Text.upper token.text ∉ keywords → Text.upper token.text ∉ dataTypes →
    Longest Wordlike piece after → Covers token piece after
  | keyword : token.kind = .keyword → token.text ∈ keywords →
    Text.upper (String.ofList piece) = token.text → Longest Wordlike piece after →
    Covers token piece after
  | dataType : token.kind = .dataType → token.text ∈ dataTypes →
    Text.upper (String.ofList piece) = token.text → Longest Wordlike piece after →
    Covers token piece after
  | number : token.kind = .literal → piece = token.text.toList → Longest Numeric piece after →
    Covers token piece after
  | quoted : token.kind = .literal → piece = quotedForm token.text.toList →
    after.head? ≠ some '\'' → Covers token piece after
  | whitespace : token.kind = .whitespace → token.text = " " →
    Longest (Stretch Text.isBlank) piece after → Covers token piece after
  | symbol {c : Char} : (c, token.kind) ∈ symbols → token.text = c.toString → piece = [c] →
    Covers token piece after

/-- Whether a token, or the end of a query, can begin with a character. -/
def Starts (c : Char) : Prop :=
  Text.isAlphabetic c = true ∨ c.isDigit = true ∨ Text.isBlank c = true ∨
    c ∈ symbols.map Prod.fst ∨ c = ';' ∨ c = '\''

/-- What is read at a place behind which no token stands. -/
inductive Halts (position : Nat) : List Char → Except Error Token → Prop
  | ended : Halts position [] (.ok (.atEnd position))
  | semicolon (after : List Char) : Halts position (';' :: after) (.ok ⟨.endOfInput, ";", position⟩)
  | unexpected {c : Char} (after : List Char) : ¬ Starts c →
    Halts position (c :: after) (.error (.unexpectedCharacter c position))
  /-- Wherever the literal might be closed, a further quote follows. -/
  | unterminated {cs : List Char} :
    (∀ text after, cs = doubleQuotes text ++ '\'' :: after → after.head? = some '\'') →
    Halts position ('\'' :: cs) (.error (.unterminatedString position))

variable {p : List Char → Prop} {piece piece' after after' cs : List Char} {token : Token}
  {position : Nat}

/-! ## Longest pieces -/

/-- Only one piece of a kind is the longest at a place. -/
theorem Longest.eq (h : Longest p piece after) (h' : Longest p piece' after')
    (he : piece ++ after = piece' ++ after') : piece = piece' ∧ after = after' := by
  rcases List.append_eq_append_iff.1 he with ⟨more, rfl, rfl⟩ | ⟨more, rfl, rfl⟩
  · by_cases hne : more = []
    · subst hne; simp
    · exact absurd h'.1 (h.2 more hne (List.prefix_append more after'))
  · by_cases hne : more = []
    · subst hne; simp
    · exact absurd h.1 (h'.2 more hne (List.prefix_append more after))

/-- A longest piece stays one if the text behind it is cut. -/
theorem Longest.take (h : Longest p piece after) (hcut : after' <+: after) :
    Longest p piece after' :=
  ⟨h.1, fun more hne hmore => h.2 more hne (hmore.trans hcut)⟩

/-- A piece is the longest if the character behind it would spoil every longer one. -/
theorem longest_of_head (h : p piece)
    (hhead : ∀ c ∈ after.head?, ∀ more, ¬ p (piece ++ c :: more)) : Longest p piece after := by
  refine ⟨h, fun more hne hmore => ?_⟩
  obtain ⟨c, more, rfl⟩ := List.exists_cons_of_ne_nil hne
  obtain ⟨rest, rfl⟩ := hmore
  exact hhead c rfl more

theorem longest_stretch {p : Char → Bool} (h : Stretch p piece)
    (hhead : ∀ c ∈ after.head?, p c = false) : Longest (Stretch p) piece after := by
  refine longest_of_head h fun c hc more hlonger => ?_
  have hin : c ∈ piece ++ c :: more := List.mem_append_right _ List.mem_cons_self
  exact Bool.false_ne_true ((hhead c hc).symm.trans (hlonger.2 c hin))

theorem head?_dropWhile_eq_false {p : Char → Bool} (cs : List Char) :
    ∀ c ∈ (cs.dropWhile p).head?, p c = false := by
  intro c hc
  have hnot := List.head?_dropWhile_not p cs
  rw [Option.mem_def.1 hc] at hnot
  simpa using hnot

theorem Leads.longest (h : Leads piece after) : Longest Wordlike piece after := by
  obtain ⟨c, cs, rfl, hc⟩ := h.head
  have hword : Wordlike (c :: cs) :=
    ⟨c, cs, rfl, hc, fun d hd => h.chars d (List.mem_cons_of_mem c hd)⟩
  refine longest_of_head hword fun d hd more hlonger => ?_
  obtain ⟨c', cs', he, -, hall⟩ := hlonger
  obtain ⟨rfl, rfl⟩ := List.cons.inj he
  have hin : d ∈ cs ++ d :: more := List.mem_append_right _ List.mem_cons_self
  exact Bool.false_ne_true ((h.ends d hd).symm.trans (hall d hin))

theorem Longest.leads (h : Longest Wordlike piece after) : Leads piece after := by
  obtain ⟨c, cs, rfl, hc, hall⟩ := h.1
  refine ⟨⟨c, cs, rfl, hc⟩, List.forall_mem_cons.2 ⟨Text.isWordChar_of_isAlphabetic hc, hall⟩,
    fun d hd => ?_⟩
  rw [← Bool.not_eq_true]
  intro hword
  obtain ⟨rest, rfl⟩ := List.head?_eq_some_iff.1 hd
  refine h.2 [d] (List.cons_ne_nil d []) (List.prefix_append [d] rest) ⟨c, cs ++ [d], rfl, hc, ?_⟩
  exact List.forall_mem_append.2 ⟨hall, by simpa using hword⟩

/-! ## Numerals -/

/-- Digits and what follows them fall apart in one way only. -/
theorem digits_append_inj {digits digits' : List Char} (h : Stretch Char.isDigit digits)
    (h' : Stretch Char.isDigit digits') (hhead : ∀ c ∈ after.head?, c.isDigit = false)
    (hhead' : ∀ c ∈ after'.head?, c.isDigit = false) (he : digits ++ after = digits' ++ after') :
    digits = digits' ∧ after = after' :=
  (longest_stretch h hhead).eq (longest_stretch h' hhead') he

theorem head?_point {cs : List Char} : ∀ c ∈ ('.' :: cs).head?, c.isDigit = false := by
  intro c hc
  obtain rfl := Option.some.inj hc
  rfl

theorem longest_whole {digits : List Char} (h : Stretch Char.isDigit digits)
    (hhead : ∀ c ∈ after.head?, c.isDigit = false)
    (hpoint : ∀ d rest, after = '.' :: d :: rest → d.isDigit = false) :
    Longest Numeric digits after := by
  refine ⟨.whole h, fun more hne hmore hlonger => ?_⟩
  obtain ⟨c, more, rfl⟩ := List.exists_cons_of_ne_nil hne
  obtain ⟨rest, rfl⟩ := hmore
  have hc : c.isDigit = false := hhead c rfl
  generalize hcs : digits ++ c :: more = cs at hlonger
  cases hlonger with
  | whole hstretch =>
    have hin : c ∈ cs := hcs ▸ List.mem_append_right _ List.mem_cons_self
    exact Bool.false_ne_true (hc.symm.trans (hstretch.2 c hin))
  | @pointed digits' fraction hstretch hfraction =>
    obtain ⟨rfl, he⟩ := digits_append_inj h hstretch (by rintro _ ⟨⟩; exact hc) head?_point hcs
    obtain ⟨rfl, rfl⟩ := List.cons.inj he
    obtain ⟨d, fraction, rfl⟩ := List.exists_cons_of_ne_nil hfraction.1
    have hd := hpoint d (fraction ++ rest) rfl
    exact Bool.false_ne_true (hd.symm.trans (hfraction.2 d List.mem_cons_self))

theorem longest_pointed {digits fraction : List Char} (h : Stretch Char.isDigit digits)
    (hfraction : Stretch Char.isDigit fraction) (hhead : ∀ c ∈ after.head?, c.isDigit = false) :
    Longest Numeric (digits ++ '.' :: fraction) after := by
  refine longest_of_head (.pointed h hfraction) fun c hc more hlonger => ?_
  generalize hcs : digits ++ '.' :: fraction ++ c :: more = cs at hlonger
  cases hlonger with
  | whole hstretch =>
    have hin : '.' ∈ cs := by rw [← hcs]; simp
    exact Bool.false_ne_true (hstretch.2 '.' hin)
  | @pointed digits' fraction' hstretch hfraction' =>
    rw [List.append_assoc, List.cons_append] at hcs
    obtain ⟨rfl, he⟩ := digits_append_inj h hstretch head?_point head?_point hcs
    obtain ⟨-, rfl⟩ := List.cons.inj he
    have hin : c ∈ fraction ++ c :: more := List.mem_append_right _ List.mem_cons_self
    exact Bool.false_ne_true ((hhead c hc).symm.trans (hfraction'.2 c hin))

theorem stretch_takeWhile {p : Char → Bool} {c : Char} (hc : p c = true) (cs : List Char) :
    Stretch p ((c :: cs).takeWhile p) := by
  refine ⟨?_, List.all_eq_true.1 List.all_takeWhile⟩
  rw [List.takeWhile_cons_of_pos hc]
  exact List.cons_ne_nil _ _

/-- What is read as a numeral is the longest one. -/
theorem longest_numeral {c : Char} (hc : c.isDigit = true) (cs : List Char) :
    Longest Numeric (numeral (c :: cs)).1 (numeral (c :: cs)).2 := by
  have hwhole := stretch_takeWhile (p := Char.isDigit) hc cs
  have hhead := head?_dropWhile_eq_false (p := Char.isDigit) (c :: cs)
  unfold numeral
  split
  · next d rest hrest =>
    split
    · next hd =>
      exact longest_pointed hwhole (stretch_takeWhile hd rest) (head?_dropWhile_eq_false _)
    · next hd =>
      refine longest_whole hwhole head?_point fun d' rest' he => ?_
      obtain ⟨rfl, -⟩ := List.cons.inj (List.cons.inj he).2
      exact Bool.eq_false_iff.2 hd
  · next hne => exact longest_whole hwhole hhead fun d rest he => absurd he (hne d rest)

/-! ## From pieces to tokens -/

theorem mem_symbols_iff {c : Char} {kind : TokenKind} :
    (c, kind) ∈ symbols ↔ symbolKind? c = some kind := by
  simp only [symbols, List.mem_cons, List.not_mem_nil, or_false, Prod.mk.injEq]
  unfold symbolKind?
  split <;> simp_all [eq_comm]

theorem Token.Covers.ne_nil (h : token.Covers piece after) : piece ≠ [] := by
  cases h with
  | identifier _ _ _ _ hword | keyword _ _ _ hword | dataType _ _ _ hword =>
    exact hword.leads.ne_nil
  | number _ _ hnumber =>
    cases hnumber.1 with
    | whole hstretch => exact hstretch.1
    | pointed hstretch => exact List.append_ne_nil_of_left_ne_nil hstretch.1 _
  | quoted _ hp => rw [hp]; exact List.cons_ne_nil _ _
  | whitespace _ _ hstretch => exact hstretch.1.1
  | symbol _ _ hp => rw [hp]; exact List.cons_ne_nil _ _

theorem Token.Covers.kind_ne (h : token.Covers piece after) : token.kind ≠ .endOfInput := by
  cases h with
  | symbol hsymbol =>
    have hkind := kind_of_symbolKind? (mem_symbols_iff.1 hsymbol)
    rintro he
    simp [he] at hkind
  | identifier hk | keyword hk | dataType hk | number hk | quoted hk | whitespace hk =>
    rw [hk]; exact nofun

/-- A token stands for its piece also if the text behind it is cut. -/
theorem Token.Covers.take (h : token.Covers piece after) (hcut : after' <+: after) :
    token.Covers piece after' := by
  cases h with
  | identifier hk hp hw hd hword => exact .identifier hk hp hw hd (hword.take hcut)
  | keyword hk hm hu hword => exact .keyword hk hm hu (hword.take hcut)
  | dataType hk hm hu hword => exact .dataType hk hm hu (hword.take hcut)
  | number hk hp hnumber => exact .number hk hp (hnumber.take hcut)
  | quoted hk hp hafter =>
    refine .quoted hk hp fun hquote => hafter ?_
    obtain ⟨rest, rfl⟩ := hcut
    rw [List.head?_append, hquote]
    rfl
  | whitespace hk ht hstretch => exact .whitespace hk ht (hstretch.take hcut)
  | symbol hsymbol ht hp => exact .symbol hsymbol ht hp

/-- The token of a word is the one that its capitals decide on. -/
theorem ofWord_of_not_mem {word : String} (hk : Text.upper word ∉ Token.keywords)
    (hd : Text.upper word ∉ Token.dataTypes) (position : Nat) :
    Token.ofWord word position = ⟨.identifier, word, position⟩ := by
  rw [Token.ofWord, if_neg hk, if_neg hd]

theorem ofWord_of_mem_keywords {word : String} (hk : Text.upper word ∈ Token.keywords)
    (position : Nat) : Token.ofWord word position = ⟨.keyword, Text.upper word, position⟩ := by
  rw [Token.ofWord, if_pos hk]

theorem ofWord_of_mem_dataTypes {word : String} (hd : Text.upper word ∈ Token.dataTypes)
    (position : Nat) : Token.ofWord word position = ⟨.dataType, Text.upper word, position⟩ := by
  have hapart : ∀ text ∈ Token.dataTypes, text ∉ Token.keywords := by decide
  rw [Token.ofWord, if_neg (hapart _ hd), if_pos hd]

theorem covers_ofWord (h : Leads piece after) (position : Nat) :
    (Token.ofWord (String.ofList piece) position).Covers piece after := by
  by_cases hk : Text.upper (String.ofList piece) ∈ Token.keywords
  · rw [ofWord_of_mem_keywords hk]
    exact .keyword rfl hk rfl h.longest
  · by_cases hd : Text.upper (String.ofList piece) ∈ Token.dataTypes
    · rw [ofWord_of_mem_dataTypes hd]
      exact .dataType rfl hd rfl h.longest
    · rw [ofWord_of_not_mem hk hd]
      exact .identifier rfl String.toList_ofList.symm hk hd h.longest

/-- A numeral gives its token. -/
theorem lexeme_of_number (h : Longest Numeric piece after) (position : Nat) :
    lexeme position (piece ++ after) =
      ⟨.ok ⟨.literal, String.ofList piece, position⟩, piece.length, after⟩ := by
  obtain ⟨c, cs, rfl, hc⟩ : ∃ c cs, piece = c :: cs ∧ c.isDigit = true := by
    cases h.1 with
    | whole hstretch =>
      obtain ⟨c, cs, rfl⟩ := List.exists_cons_of_ne_nil hstretch.1
      exact ⟨c, cs, rfl, hstretch.2 c List.mem_cons_self⟩
    | pointed hstretch =>
      obtain ⟨c, cs, rfl⟩ := List.exists_cons_of_ne_nil hstretch.1
      exact ⟨c, _, rfl, hstretch.2 c List.mem_cons_self⟩
  obtain ⟨hpiece, hafter⟩ := (longest_numeral hc (cs ++ after)).eq h (numeral_append _)
  have hnumeral : numeral (c :: (cs ++ after)) = (c :: cs, after) := Prod.ext hpiece hafter
  rw [List.cons_append, lexeme, Text.isAlphabetic_of_isDigit hc, if_neg Bool.false_ne_true,
    if_pos hc, hnumeral]

/-- Blanks give their token. -/
theorem lexeme_of_blanks (h : Longest (Stretch Text.isBlank) piece after) (position : Nat) :
    lexeme position (piece ++ after) = ⟨.ok ⟨.whitespace, " ", position⟩, piece.length, after⟩ := by
  obtain ⟨c, cs, rfl⟩ := List.exists_cons_of_ne_nil h.1.1
  have hc := h.1.2 c List.mem_cons_self
  have hlongest : Longest (Stretch Text.isBlank) (c :: (cs ++ after).takeWhile Text.isBlank)
      ((cs ++ after).dropWhile Text.isBlank) := by
    refine longest_stretch ?_ (head?_dropWhile_eq_false _)
    rw [← List.takeWhile_cons_of_pos hc]
    exact stretch_takeWhile hc _
  obtain ⟨hpiece, hafter⟩ := hlongest.eq h (by
    rw [List.cons_append, List.takeWhile_append_dropWhile, List.cons_append])
  rw [List.cons_append, lexeme_of_blank hc, hafter, (List.cons.inj hpiece).2, List.length_cons]

/-- Where the piece of a token stands the token is read. -/
theorem lexeme_of_covers (h : token.Covers piece after) :
    lexeme token.position (piece ++ after) = ⟨.ok token, piece.length, after⟩ := by
  obtain ⟨kind, text, position⟩ := token
  cases h with
  | identifier hk hp hw hd hword =>
    obtain ⟨rfl, rfl⟩ : kind = .identifier ∧ piece = text.toList := ⟨hk, hp⟩
    rw [lexeme_of_leads hword.leads, String.ofList_toList, ofWord_of_not_mem hw hd]
  | keyword hk hm hu hword =>
    obtain ⟨rfl, rfl⟩ : kind = .keyword ∧ Text.upper (String.ofList piece) = text := ⟨hk, hu⟩
    rw [lexeme_of_leads hword.leads, ofWord_of_mem_keywords hm]
  | dataType hk hm hu hword =>
    obtain ⟨rfl, rfl⟩ : kind = .dataType ∧ Text.upper (String.ofList piece) = text := ⟨hk, hu⟩
    rw [lexeme_of_leads hword.leads, ofWord_of_mem_dataTypes hm]
  | number hk hp hnumber =>
    obtain ⟨rfl, rfl⟩ : kind = .literal ∧ piece = text.toList := ⟨hk, hp⟩
    rw [lexeme_of_number hnumber, String.ofList_toList]
  | quoted hk hp hafter =>
    obtain ⟨rfl, rfl⟩ : kind = .literal ∧ piece = quotedForm text.toList := ⟨hk, hp⟩
    have hform : quotedForm text.toList ++ after =
        '\'' :: (doubleQuotes text.toList ++ '\'' :: after) := by
      rw [quotedForm, List.cons_append, List.append_assoc, List.singleton_append]
    have hlength : (quotedForm text.toList).length = (doubleQuotes text.toList).length + 2 := by
      simp [quotedForm]
    rw [hform, lexeme_of_quoted _ hafter, String.ofList_toList, hlength]
  | whitespace hk ht hstretch =>
    obtain ⟨rfl, rfl⟩ : kind = .whitespace ∧ text = " " := ⟨hk, ht⟩
    exact lexeme_of_blanks hstretch position
  | @symbol c hsymbol ht hp =>
    obtain ⟨rfl, rfl⟩ : text = c.toString ∧ piece = [c] := ⟨ht, hp⟩
    exact lexeme_of_symbol (mem_symbols_iff.1 hsymbol)

/-! ## From places to pieces -/

theorem head?_of_quoted? {text rest : List Char} (h : quoted? cs = some (text, rest)) :
    rest.head? ≠ some '\'' := by
  fun_induction quoted? cs generalizing text with
  | case1 => cases h
  | case2 after ih =>
    obtain ⟨⟨t, r⟩, ht, he⟩ := Option.map_eq_some_iff.1 h
    obtain ⟨-, rfl⟩ := Prod.mk.inj he
    exact ih ht
  | case3 after hne =>
    obtain ⟨-, rfl⟩ := Prod.mk.inj (Option.some.inj h)
    intro hquote
    obtain ⟨after', rfl⟩ := List.head?_eq_some_iff.1 hquote
    exact hne after' rfl
  | case4 c after _ _ ih =>
    obtain ⟨⟨t, r⟩, ht, he⟩ := Option.map_eq_some_iff.1 h
    obtain ⟨-, rfl⟩ := Prod.mk.inj he
    exact ih ht

/-- At every place stands the piece of a token, or there is no token. -/
theorem lexeme_cases (position : Nat) (cs : List Char) :
    (∃ (token : Token) (piece after : List Char), token.position = position ∧
      cs = piece ++ after ∧ token.Covers piece after) ∨
      Halts position cs (lexeme position cs).token := by
  fun_cases lexeme position cs with
  | case1 => exact .inr .ended
  | case2 c cs hc more =>
    have hleads : Leads (c :: more) (cs.dropWhile Text.isWordChar) := by
      refine ⟨⟨c, more, rfl, hc⟩, List.forall_mem_cons.2 ⟨Text.isWordChar_of_isAlphabetic hc, ?_⟩,
        head?_dropWhile_eq_false cs⟩
      exact List.all_eq_true.1 List.all_takeWhile
    have hposition : (Token.ofWord (String.ofList (c :: more)) position).position = position := by
      unfold Token.ofWord
      dsimp only
      split_ifs <;> rfl
    refine .inl ⟨_, _, _, hposition, ?_, covers_ofWord hleads position⟩
    rw [List.cons_append, List.takeWhile_append_dropWhile]
  | case3 c cs _ hc text rest h =>
    have hlongest := longest_numeral hc cs
    have happend := numeral_append (c :: cs)
    rw [h] at hlongest happend
    refine .inl ⟨⟨.literal, String.ofList text, position⟩, text, rest, rfl, happend.symm, ?_⟩
    exact .number rfl String.toList_ofList.symm hlongest
  | case4 c cs _ _ hb =>
    have hstretch := stretch_takeWhile hb cs
    have hhead := head?_dropWhile_eq_false (p := Text.isBlank) (c :: cs)
    refine .inl ⟨⟨.whitespace, " ", position⟩, _, _, rfl, ?_, .whitespace rfl rfl
      (longest_stretch hstretch hhead)⟩
    exact List.takeWhile_append_dropWhile.symm
  | case5 c cs _ _ _ kind hsymbol =>
    exact .inl ⟨⟨kind, c.toString, position⟩, [c], cs, rfl, rfl,
      .symbol (mem_symbols_iff.2 hsymbol) rfl rfl⟩
  | case6 cs => exact .inr (.semicolon cs)
  | case7 cs text rest h =>
    refine .inl ⟨⟨.literal, String.ofList text, position⟩, quotedForm text, rest, rfl, ?_,
      .quoted rfl (by rw [String.toList_ofList]) (head?_of_quoted? h)⟩
    rw [eq_of_quoted? h, quotedForm, List.cons_append, List.append_assoc, List.singleton_append]
  | case8 cs h =>
    refine .inr (.unterminated fun text after he => ?_)
    refine Decidable.byContradiction fun hclosed => ?_
    rw [he, quoted?_doubleQuotes text hclosed] at h
    cases h
  | case9 c cs hletter hdigit hblank hsymbol hsemicolon hquote =>
    refine .inr (.unexpected cs ?_)
    rintro (h | h | h | h | h | h)
    · exact hletter h
    · exact hdigit h
    · exact hblank h
    · obtain ⟨⟨_, kind⟩, hm, rfl⟩ := List.mem_map.1 h
      rw [mem_symbols_iff.1 hm] at hsymbol
      cases hsymbol
    · exact hsemicolon h
    · exact hquote h

end RelStore.Sql
