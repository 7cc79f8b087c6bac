import RelStore.Error
import RelStore.Sql.Quoted
import RelStore.Sql.Token
import RelStore.Text.CharClass

/-!
# Cutting a query into tokens

A cursor stands in a query and hands out one token at a time. `Cursor.next` moves it over the
token that it returns. An unexpected character leaves it where it is; an unterminated literal
moves it to the end, and so does a semicolon, behind which nothing is read.

`width_add_length_rest` ties the width of a lexeme to what it leaves, and `width_pos` says that
every token but the end of the input takes some characters; so the cursor always arrives.
-/

namespace RelStore.Sql

/-- A numeral at the start of the text and what follows it: digits, and behind a point further
digits. A point without a digit behind it is not part of the numeral. -/
def numeral (cs : List Char) : List Char × List Char :=
  let whole := cs.takeWhile Char.isDigit
  match cs.dropWhile Char.isDigit with
  | '.' :: d :: rest =>
    if d.isDigit then
      (whole ++ '.' :: (d :: rest).takeWhile Char.isDigit, (d :: rest).dropWhile Char.isDigit)
    else (whole, '.' :: d :: rest)
  | rest => (whole, rest)

theorem numeral_append (cs : List Char) : (numeral cs).1 ++ (numeral cs).2 = cs := by
  have hcs := List.takeWhile_append_dropWhile (p := Char.isDigit) (l := cs)
  unfold numeral
  split
  · next d rest h =>
    rw [h] at hcs
    split
    · rw [List.append_assoc, List.cons_append, List.takeWhile_append_dropWhile, hcs]
    · exact hcs
  · exact hcs

theorem length_numeral_pos {c : Char} (cs : List Char) (hc : c.isDigit = true) :
    0 < (numeral (c :: cs)).1.length := by
  have hwhole : 0 < ((c :: cs).takeWhile Char.isDigit).length := by
    rw [List.takeWhile_cons, if_pos hc]; exact Nat.succ_pos _
  unfold numeral
  split
  · split
    · rw [List.length_append]; exact Nat.add_pos_left hwhole _
    · exact hwhole
  · exact hwhole

/-- What stands next in a query: a token, or the reason why there is none; the number of
characters that it takes; and the text behind them. -/
structure Lexeme where
  token : Except Error Token
  width : Nat
  rest : List Char

/-- The kind of a token that is a single character. -/
def symbolKind? (c : Char) : Option TokenKind :=
  match c with
  | '=' => some .operator
  | ',' => some .comma
  | '(' => some .openParen
  | ')' => some .closeParen
  | _ => none

/-- The lexeme at the start of a text, which begins at `position`. -/
def lexeme (position : Nat) : List Char → Lexeme
  | [] => ⟨.ok (.atEnd position), 0, []⟩
  | c :: cs =>
    if Text.isAlphabetic c then
      let more := cs.takeWhile Text.isWordChar
      ⟨.ok (.ofWord (String.ofList (c :: more)) position), more.length + 1,
        cs.dropWhile Text.isWordChar⟩
    else if c.isDigit then
      let (text, rest) := numeral (c :: cs)
      ⟨.ok ⟨.literal, String.ofList text, position⟩, text.length, rest⟩
    else if Text.isBlank c then
      ⟨.ok ⟨.whitespace, " ", position⟩, (cs.takeWhile Text.isBlank).length + 1,
        cs.dropWhile Text.isBlank⟩
    else match symbolKind? c with
    | some kind => ⟨.ok ⟨kind, c.toString, position⟩, 1, cs⟩
    | none =>
      if c = ';' then ⟨.ok ⟨.endOfInput, ";", position⟩, cs.length + 1, []⟩
      else if c = '\'' then
        match quoted? cs with
        | some (text, rest) =>
          ⟨.ok ⟨.literal, String.ofList text, position⟩, (doubleQuotes text).length + 2, rest⟩
        | none => ⟨.error (.unterminatedString position), cs.length + 1, []⟩
      else ⟨.error (.unexpectedCharacter c position), 0, c :: cs⟩

theorem length_takeWhile_add_dropWhile (p : Char → Bool) (cs : List Char) :
    (cs.takeWhile p).length + (cs.dropWhile p).length = cs.length := by
  rw [← List.length_append, List.takeWhile_append_dropWhile]

theorem width_add_length_rest (position : Nat) (cs : List Char) :
    (lexeme position cs).width + (lexeme position cs).rest.length = cs.length := by
  fun_cases lexeme position cs with
  | case1 => rfl
  | case2 c cs =>
    have := length_takeWhile_add_dropWhile Text.isWordChar cs
    show (cs.takeWhile Text.isWordChar).length + 1 + (cs.dropWhile Text.isWordChar).length =
      cs.length + 1
    omega
  | case3 c cs _ _ text rest h =>
    have := congrArg List.length (numeral_append (c :: cs))
    rw [h, List.length_append] at this
    exact this
  | case4 c cs =>
    have := length_takeWhile_add_dropWhile Text.isBlank cs
    simp only [List.length_cons]; omega
  | case5 => exact Nat.add_comm _ _
  | case6 => rfl
  | case7 cs text rest h =>
    have := congrArg List.length (eq_of_quoted? h)
    simp only [List.length_append, List.length_cons] at this ⊢; omega
  | case8 => rfl
  | case9 => exact Nat.zero_add _

theorem width_pos {position : Nat} {cs : List Char} {token : Token}
    (h : (lexeme position cs).token = .ok token) (hkind : token.kind ≠ .endOfInput) :
    0 < (lexeme position cs).width := by
  revert h
  fun_cases lexeme position cs with
  | case1 => intro h; cases h; exact absurd rfl hkind
  | case3 c cs _ hc text rest h =>
    intro _; have := length_numeral_pos cs hc; rwa [h] at this
  | case6 => intro h; cases h; exact absurd rfl hkind
  | case8 => intro h; cases h
  | case9 => intro h; cases h
  | _ => intro _; exact Nat.succ_pos _

/-- A place in a query. -/
structure Cursor where
  /-- What is still to be read. -/
  rest : List Char
  /-- The number of characters before it. -/
  position : Nat
  /-- Whether the end of the input, or an error, was handed out as a stream item. -/
  finished : Bool := false

namespace Cursor

/-- The cursor before the first character of a query. -/
def ofText (sql : String) : Cursor := { rest := sql.toList, position := 0 }

/-- The next token, and the cursor behind it. -/
def next (c : Cursor) : Except Error Token × Cursor :=
  let l := lexeme c.position c.rest
  (l.token, { c with rest := l.rest, position := c.position + l.width })

theorem length_rest_next_lt {c c' : Cursor} {item : Except Error Token} (h : c.next = (item, c'))
    (hne : c'.position ≠ c.position) : c'.rest.length < c.rest.length := by
  obtain ⟨-, rfl⟩ := Prod.mk.inj h
  have := width_add_length_rest c.position c.rest
  simp only at hne ⊢
  omega

theorem position_next_ne {c c' : Cursor} {token : Token} (h : c.next = (.ok token, c'))
    (hkind : token.kind ≠ .endOfInput) : c'.position ≠ c.position := by
  obtain ⟨htoken, rfl⟩ := Prod.mk.inj h
  have := width_pos htoken hkind
  simp only
  omega

/-- Everything up to the end of the input or the first error: the tokens, the end of the input
among them; the error; and the cursor behind. -/
def drain (c : Cursor) : List Token × Option Error × Cursor :=
  match _ : c.next with
  | (.error e, c') => ([], some e, c')
  | (.ok token, c') =>
    if _ : token.kind = .endOfInput then ([token], none, c')
    else
      let (more, error, c'') := c'.drain
      (token :: more, error, c'')
termination_by c.rest.length
decreasing_by exact length_rest_next_lt ‹_› (position_next_ne ‹_› ‹_›)

/-- The tokens up to and including the end of the input, unless an error comes first. -/
def tokens (c : Cursor) : Except Error (List Token) × Cursor :=
  match c.drain with
  | (tokens, none, c') => (.ok tokens, c')
  | (_, some e, c') => (.error e, c')

/-- The next item of the stream of tokens, which ends behind the end of the input and behind
an error. -/
def nextItem (c : Cursor) : Option (Except Error Token) × Cursor :=
  if c.finished then (none, c)
  else match c.next with
    | (.ok token, c') => (some (.ok token), { c' with finished := token.kind = .endOfInput })
    | (.error e, c') => (some (.error e), { c' with finished := true })

/-- The stream of tokens to its end, and the error that ended it, if one did. -/
def stream (c : Cursor) : List Token × Option Error :=
  if c.finished then ([], none) else (c.drain.1, c.drain.2.1)

end Cursor

end RelStore.Sql
