import RelStore.Proofs.Sql.Derivation
import RelStore.Proofs.Sql.Lexeme

/-!
# Queries and the symbols they spell

A query spells symbols (`Cursor.Spells`): its tokens, blanks left out, stand for them up to the
end of the query. This is said with the cursor alone. It amounts to a condition on the list of
all tokens (`spells_iff_tokens`), and it holds exactly if a reader made for the query takes the
symbols and arrives at the end (`spells_iff_accepts`).
-/

namespace RelStore.Sql

namespace Cursor

/-- The query behind the cursor stands for the symbols. -/
inductive Spells : Cursor → List Symbol → Prop
  | symbol {c c' : Cursor} {token : Token} {x : Symbol} {xs : List Symbol} :
    c.next = (.ok token, c') → token.symbol? = some x → Spells c' xs → Spells c (x :: xs)
  | blank {c c' : Cursor} {token : Token} {xs : List Symbol} :
    c.next = (.ok token, c') → token.kind = .whitespace → Spells c' xs → Spells c xs
  | stop {c c' : Cursor} {token : Token} :
    c.next = (.ok token, c') → token.kind = .endOfInput → Spells c []

variable {c c' : Cursor} {token : Token} {xs : List Symbol}

theorem spells_iff_of_next (h : c.next = (.ok token, c')) :
    c.Spells xs ↔ token.kind = .whitespace ∧ c'.Spells xs ∨ token.kind = .endOfInput ∧ xs = [] ∨
      ∃ x ys, xs = x :: ys ∧ token.symbol? = some x ∧ c'.Spells ys := by
  constructor
  · intro hs
    cases hs with
    | symbol hn hx hs =>
      obtain ⟨⟨⟩, rfl⟩ := Prod.mk.inj (h.symm.trans hn)
      exact .inr (.inr ⟨_, _, rfl, hx, hs⟩)
    | blank hn hk hs =>
      obtain ⟨⟨⟩, rfl⟩ := Prod.mk.inj (h.symm.trans hn)
      exact .inl ⟨hk, hs⟩
    | stop hn hk =>
      obtain ⟨⟨⟩, rfl⟩ := Prod.mk.inj (h.symm.trans hn)
      exact .inr (.inl ⟨hk, rfl⟩)
  · rintro (⟨hk, hs⟩ | ⟨hk, rfl⟩ | ⟨x, ys, rfl, hx, hs⟩)
    · exact .blank h hk hs
    · exact .stop h hk
    · exact .symbol h hx hs

theorem not_spells_of_error {e : Error} (h : c.next = (.error e, c')) : ¬ c.Spells xs := by
  intro hs
  cases hs with
  | symbol hn => rw [h] at hn; cases hn
  | blank hn => rw [h] at hn; cases hn
  | stop hn => rw [h] at hn; cases hn

theorem spells_iff_of_end (h : c.next = (.ok token, c')) (hk : token.kind = .endOfInput) :
    c.Spells xs ↔ xs = [] := by
  rw [spells_iff_of_next h]; simp [hk, Token.symbol?_of_end hk]

theorem spells_iff_of_blank (h : c.next = (.ok token, c')) (hk : token.kind = .whitespace) :
    c.Spells xs ↔ c'.Spells xs := by
  rw [spells_iff_of_next h]; simp [hk, Token.symbol?_of_blank hk]

theorem spells_iff_of_token (h : c.next = (.ok token, c')) (hb : token.kind ≠ .whitespace)
    (he : token.kind ≠ .endOfInput) :
    c.Spells xs ↔ ∃ x ys, xs = x :: ys ∧ token.symbol? = some x ∧ c'.Spells ys := by
  rw [spells_iff_of_next h]; simp [hb, he]

/-! ## The list of all tokens -/

/-- The tokens of a query that count: those before the end of the query, blanks left out. -/
def significant (tokens : List Token) : List Token :=
  (tokens.filter (·.kind ≠ .whitespace)).takeWhile (·.kind ≠ .endOfInput)

theorem spells_iff_drain :
    c.Spells xs ↔
      c.drain.2.1 = none ∧ (significant c.drain.1).map Token.symbol? = xs.map some := by
  fun_induction drain c generalizing xs with
  | case1 c e c' h => simp [not_spells_of_error h]
  | case2 c token c' h hk => simp [spells_iff_of_end h hk, significant, hk]
  | case3 c token c' h hk more error c'' hdrain ih =>
    rw [hdrain] at ih
    by_cases hb : token.kind = .whitespace
    · rw [spells_iff_of_blank h hb, ih]
      simp [significant, hb]
    · have hsignificant : significant (token :: more) = token :: significant more := by
        simp [significant, hb, hk]
      rw [spells_iff_of_token h hb hk, hsignificant]
      cases xs with
      | nil => simp
      | cons x xs => simp [ih, and_assoc, and_left_comm]

instance (c : Cursor) (xs : List Symbol) : Decidable (c.Spells xs) :=
  decidable_of_iff _ spells_iff_drain.symm

theorem tokens_eq_ok_iff {tokens : List Token} :
    c.tokens.1 = .ok tokens ↔ c.drain.2.1 = none ∧ c.drain.1 = tokens := by
  unfold Cursor.tokens
  obtain ⟨drained, error, c'⟩ := c.drain
  cases error <;> simp

theorem tokens_eq_error_iff {e : Error} : c.tokens.1 = .error e ↔ c.drain.2.1 = some e := by
  unfold Cursor.tokens
  obtain ⟨drained, error, c'⟩ := c.drain
  cases error <;> simp

/-- A query spells symbols if it can be cut into tokens and those that count stand for them. -/
theorem spells_iff_tokens :
    c.Spells xs ↔ ∃ tokens, c.tokens.1 = .ok tokens ∧
      (significant tokens).map Token.symbol? = xs.map some := by
  rw [spells_iff_drain]
  simp only [tokens_eq_ok_iff, and_assoc, exists_and_left, exists_eq_left']

end Cursor

/-! ## What a reader takes -/

namespace Feed

variable {c c' : Cursor} {token : Token} {item : Except Error Token}

theorem ofCursor_of_next (h : c.next = (item, c')) :
    ofCursor c = if c'.position = c.position then ⟨[], item⟩
      else { ofCursor c' with ahead := item :: (ofCursor c').ahead } := by
  rw [ofCursor]
  split
  next item₁ c₁ h₁ =>
    obtain ⟨rfl, rfl⟩ := Prod.mk.inj (h.symm.trans h₁)
    rfl

theorem ofCursor_of_moved (h : c.next = (item, c')) (hp : c'.position ≠ c.position) :
    ofCursor c = { ofCursor c' with ahead := item :: (ofCursor c').ahead } := by
  rw [ofCursor_of_next h, if_neg hp]

theorem significant_of_blank (h : c.next = (.ok token, c')) (hk : token.kind = .whitespace) :
    (ofCursor c).significant = (ofCursor c').significant := by
  have hp := Cursor.position_next_ne h (by rw [hk]; decide)
  simp [ofCursor_of_moved h hp, significant, isSpace, hk]

theorem next_significant_of_token (h : c.next = (.ok token, c')) (hb : token.kind ≠ .whitespace)
    (he : token.kind ≠ .endOfInput) :
    (ofCursor c).significant.next = (.ok token, (ofCursor c').significant) := by
  have hp := Cursor.position_next_ne h he
  simp [ofCursor_of_moved h hp, significant, isSpace, hb, next]

theorem next_significant_of_error {e : Error} (h : c.next = (.error e, c')) :
    (ofCursor c).significant.next.1 = .error e := by
  rw [ofCursor_of_next h]
  split
  · rfl
  · simp [significant, isSpace, next]

/-- Behind the end of a query there is the end, for ever. -/
theorem ofCursor_of_nil (h : c.rest = []) : ofCursor c = ⟨[], .ok (.atEnd c.position)⟩ := by
  have hnext : c.next = (.ok (.atEnd c.position), c) := by
    obtain ⟨rest, position, finished⟩ := c
    obtain rfl : rest = [] := h
    rfl
  rw [ofCursor_of_next hnext, if_pos rfl]

theorem rest_of_end (h : c.next = (.ok token, c')) (hk : token.kind = .endOfInput) :
    c'.rest = [] := by
  obtain ⟨ht, rfl⟩ := Prod.mk.inj h
  exact rest_of_lexeme ht hk

theorem next_significant_of_end (h : c.next = (.ok token, c')) (hk : token.kind = .endOfInput) :
    ∃ feed token' feed', (ofCursor c).significant.next = (.ok token, feed) ∧
      feed.next = (.ok token', feed') := by
  rw [ofCursor_of_next h]
  split_ifs
  · exact ⟨_, token, _, rfl, rfl⟩
  · refine ⟨⟨[], .ok (.atEnd c'.position)⟩, _, _, ?_, rfl⟩
    rw [ofCursor_of_nil (rest_of_end h hk)]
    simp [significant, isSpace, hk, next]

theorem last_ofCursor (h : (ofCursor c).last = .ok token) : token.kind = .endOfInput := by
  fun_induction ofCursor c with
  | case1 c item c' hn hp =>
    obtain rfl : item = .ok token := h
    exact Decidable.not_not.1 fun hk => Cursor.position_next_ne hn hk hp
  | case2 c item c' hn hp feed ih => exact ih h

end Feed

namespace Reader

variable {r r' : Reader} {x : Symbol} {xs : List Symbol}

/-- The reader stands at the first token that counts behind the cursor. -/
def Reads (r : Reader) (c : Cursor) : Prop :=
  (Feed.ofCursor c).significant.next = (.ok r.current, r.feed)

/-- The reader takes the symbols and is then at the end of the query. -/
def Completes (r : Reader) (xs : List Symbol) : Prop :=
  ∃ r₁ r', Takes r xs r₁ ∧ finish r₁ = .ok () r'

theorem completes_cons_iff :
    r.Completes (x :: xs) ↔ r.At x ∧ ∃ r', advance r = .ok r.current r' ∧ r'.Completes xs := by
  constructor
  · rintro ⟨r₁, r', h, hf⟩
    obtain ⟨hx, r₂, ha, h⟩ := takes_cons_iff.1 h
    exact ⟨hx, r₂, ha, r₁, r', h, hf⟩
  · rintro ⟨hx, r₂, ha, r₁, r', h, hf⟩
    exact ⟨r₁, r', takes_cons_iff.2 ⟨hx, r₂, ha, h⟩, hf⟩

theorem kind_of_completes_nil (h : r.Completes []) : r.current.kind = .endOfInput := by
  obtain ⟨r₁, r', h, hf⟩ := h
  obtain rfl := takes_nil_iff.1 h
  exact (finish_iff.1 hf).1

/-- A reader for the query that stands behind the cursor takes the symbols and is then at the
end. -/
def Accepts (source : String) (c : Cursor) (xs : List Symbol) : Prop :=
  ∃ r : Reader, r.source = source ∧ r.Reads c ∧ r.Completes xs

section

variable {source : String} {c c' : Cursor} {token : Token}

theorem not_accepts_of_error {e : Error} (h : c.next = (.error e, c')) :
    ¬ Accepts source c xs := by
  rintro ⟨r, -, hr, -⟩
  have he := Feed.next_significant_of_error h
  rw [Reads] at hr
  rw [hr] at he
  cases he

theorem accepts_iff_of_end (h : c.next = (.ok token, c')) (hk : token.kind = .endOfInput) :
    Accepts source c xs ↔ xs = [] := by
  obtain ⟨feed, token', feed', hn, hn'⟩ := Feed.next_significant_of_end h hk
  constructor
  · rintro ⟨r, -, hr, hc⟩
    obtain ⟨hcurrent, -⟩ := Prod.mk.inj (hn.symm.trans hr)
    cases xs with
    | nil => rfl
    | cons x xs =>
      have hx := (completes_cons_iff.1 hc).1
      rw [At, ← Except.ok.inj hcurrent, Token.symbol?_of_end hk] at hx
      cases hx
  · rintro rfl
    have ha : advance ⟨source, token, feed⟩ = .ok token ⟨source, token', feed'⟩ :=
      advance_eq_ok.2 ⟨rfl, token', feed', hn', rfl⟩
    exact ⟨⟨source, token, feed⟩, rfl, hn, _, _, .nil _, finish_iff.2 ⟨hk, ha⟩⟩

theorem accepts_iff_of_blank (h : c.next = (.ok token, c')) (hb : token.kind = .whitespace) :
    Accepts source c xs ↔ Accepts source c' xs := by
  unfold Accepts Reads
  rw [Feed.significant_of_blank h hb]

theorem accepts_iff_of_token (h : c.next = (.ok token, c')) (hb : token.kind ≠ .whitespace)
    (hk : token.kind ≠ .endOfInput) :
    Accepts source c xs ↔
      ∃ x ys, xs = x :: ys ∧ token.symbol? = some x ∧ Accepts source c' ys := by
  have hn := Feed.next_significant_of_token h hb hk
  constructor
  · rintro ⟨r, rfl, hr, hc⟩
    obtain ⟨hcurrent, hfeed⟩ := Prod.mk.inj (hn.symm.trans hr)
    obtain rfl := Except.ok.inj hcurrent
    cases xs with
    | nil => exact absurd (kind_of_completes_nil hc) hk
    | cons x xs =>
      obtain ⟨hx, r', ha, hc⟩ := completes_cons_iff.1 hc
      obtain ⟨-, next, feed, hnext, rfl⟩ := advance_eq_ok.1 ha
      rw [← hfeed] at hnext
      have hreads : Reads { r with current := next, feed } c' := hnext
      exact ⟨x, xs, rfl, hx, { r with current := next, feed }, rfl, hreads, hc⟩
  · rintro ⟨x, ys, rfl, hx, r, rfl, hr, hc⟩
    have ha : advance ⟨r.source, token, (Feed.ofCursor c').significant⟩ = .ok token r :=
      advance_eq_ok.2 ⟨rfl, r.current, r.feed, hr, rfl⟩
    exact ⟨⟨r.source, token, (Feed.ofCursor c').significant⟩, rfl, hn,
      completes_cons_iff.2 ⟨hx, r, ha, hc⟩⟩

end

/-- A query spells symbols if a reader for the query takes them and is then at its end. -/
theorem spells_iff_accepts {c : Cursor} (source : String) : c.Spells xs ↔ Accepts source c xs := by
  fun_induction Cursor.drain c generalizing xs with
  | case1 c e c' h =>
    exact iff_of_false (Cursor.not_spells_of_error h) (not_accepts_of_error h)
  | case2 c token c' h hk => rw [Cursor.spells_iff_of_end h hk, accepts_iff_of_end h hk]
  | case3 c token c' h hk more error c'' hdrain ih =>
    by_cases hb : token.kind = .whitespace
    · rw [Cursor.spells_iff_of_blank h hb, accepts_iff_of_blank h hb, ih]
    · rw [Cursor.spells_iff_of_token h hb hk, accepts_iff_of_token h hb hk]
      exact exists₂_congr fun x ys => and_congr_right' (and_congr_right' ih)

theorem ends_of_reads {c : Cursor} (h : r.Reads c) : r.Ends := by
  intro token hlast
  refine Token.symbol?_of_end (Feed.last_ofCursor (c := c) ?_)
  unfold Reads Feed.next at h
  split at h
  · obtain ⟨-, hf⟩ := Prod.mk.inj h
    rw [← hf] at hlast
    exact hlast
  · obtain ⟨-, hf⟩ := Prod.mk.inj h
    rw [← hf] at hlast
    exact hlast

theorem ofText_eq_ok_iff {sql : String} :
    Reader.ofText sql = .ok r ↔ r.source = sql ∧ r.Reads (.ofText sql) := by
  unfold Reader.ofText Reads Feed.ofText
  obtain ⟨source, current, feed⟩ := r
  split
  · next token feed' h => rw [h]; simp [eq_comm]
  · next e feed' h => rw [h]; simp

end Reader

end RelStore.Sql
