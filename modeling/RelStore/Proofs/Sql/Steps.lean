import RelStore.Proofs.Run
import RelStore.Proofs.Sql.Tiling

/-!
# Reading one token after the other

A reader is asked for one token at a time, by calls that may fail and may be repeated. The tokens
that the calls consumed, the one that the reader holds and those that its feed still offers
(`Feed.Offers`) are together the tokens of the query, continued by its end (`Account`). Each call
keeps the account, and so does every run of calls (`account_run`).

An error that the reader meets where it moves on leaves it as it was, and the call fails as often
as it is repeated. An unterminated literal is the exception: it is reported once, and behind it the
query has ended (`consumes_in_order`).
-/

namespace RelStore.Sql

/-- The tokens of a query up to its end or the first error, blanks left out. -/
def visible (sql : String) : List Token :=
  (Cursor.ofText sql).drain.1.filter (·.kind ≠ .whitespace)

/-- The error is that of a literal that is never closed. -/
def Unterminated (e : Error) : Prop := ∃ position, e = .unterminatedString position

/-! ## What a feed offers -/

/-- Only an unterminated literal moves a cursor and is no token. -/
theorem error_of_lexeme {position : Nat} {cs : List Char} {e : Error}
    (h : (lexeme position cs).token = .error e) :
    ¬ Unterminated e ∧ (lexeme position cs).width = 0 ∨
      Unterminated e ∧ (lexeme position cs).width ≠ 0 ∧ (lexeme position cs).rest = [] := by
  revert h
  fun_cases lexeme position cs with
  | case8 => intro h; cases h; exact .inr ⟨⟨position, rfl⟩, Nat.succ_ne_zero _, rfl⟩
  | case9 =>
    intro h
    cases h
    refine .inl ⟨?_, rfl⟩
    rintro ⟨_, hu⟩
    cases hu
  | _ => intro h; cases h

theorem Cursor.position_add_length {c c' : Cursor} {item : Except Error Token}
    (h : c.next = (item, c')) : c'.position + c'.rest.length = c.position + c.rest.length := by
  obtain ⟨-, rfl⟩ := Prod.mk.inj h
  have := width_add_length_rest c.position c.rest
  dsimp only
  omega

namespace Feed

/-- A feed offers tokens and then nothing new: behind the last of them, the end of the query, it
hands out `stop` for ever; or there is an error, which it hands out for ever, or once if it is
that of an unterminated literal. -/
inductive Offers (stop : Token) : Feed → List Token → Option Error → Prop
  | ended : Offers stop ⟨[], .ok stop⟩ [stop] none
  | semicolon (token : Token) : Offers stop ⟨[.ok token], .ok stop⟩ [token] none
  | stuck {e : Error} : ¬ Unterminated e → Offers stop ⟨[], .error e⟩ [] (some e)
  | unterminated {e : Error} : Unterminated e →
    Offers stop ⟨[.error e], .ok stop⟩ [] (some e)
  | token {token : Token} {feed : Feed} {tokens : List Token} {error : Option Error} :
    token.kind ≠ .endOfInput → Offers stop feed tokens error →
    Offers stop { feed with ahead := .ok token :: feed.ahead } (token :: tokens) error

variable {stop token : Token} {feed feed' : Feed} {tokens : List Token} {error : Option Error}

/-- A token is taken off what a feed offers. Only the end of a query can be taken again. -/
theorem Offers.next_ok (h : feed.Offers stop tokens error) (hn : feed.next = (.ok token, feed')) :
    ∃ rest n, feed'.Offers stop rest error ∧ token :: rest = tokens ++ List.replicate n stop ∧
      (error.isSome → n = 0) := by
  cases h with
  | ended => cases hn; exact ⟨[stop], 1, .ended, rfl, nofun⟩
  | semicolon => cases hn; exact ⟨[stop], 1, .ended, rfl, nofun⟩
  | stuck => cases hn
  | unterminated => cases hn
  | token _ hrest => cases hn; exact ⟨_, 0, hrest, (List.append_nil _).symm, fun _ => rfl⟩

/-- An error comes behind all tokens. -/
theorem Offers.next_error {e : Error} (h : feed.Offers stop tokens error)
    (hn : feed.next = (.error e, feed')) :
    tokens = [] ∧ error = some e ∧
      (¬ Unterminated e ∧ feed' = feed ∨ Unterminated e ∧ feed' = ⟨[], .ok stop⟩) := by
  cases h with
  | ended => cases hn
  | semicolon => cases hn
  | stuck he => cases hn; exact ⟨rfl, rfl, .inl ⟨he, rfl⟩⟩
  | unterminated he => cases hn; exact ⟨rfl, rfl, .inr ⟨he, rfl⟩⟩
  | token => cases hn

/-- Before an error there is no end. -/
theorem Offers.kind_ne (h : feed.Offers stop tokens error) (he : error.isSome) :
    ∀ token ∈ tokens, token.kind ≠ .endOfInput := by
  induction h with
  | ended => cases he
  | semicolon => cases he
  | stuck => nofun
  | unterminated => nofun
  | token hk _ ih => exact List.forall_mem_cons.2 ⟨hk, ih he⟩

theorem offers_of_error {c c' : Cursor} {e : Error} (h : c.next = (.error e, c')) :
    (ofCursor c).significant.Offers (.atEnd (c.position + c.rest.length)) [] (some e) := by
  have htotal := Cursor.position_add_length h
  obtain ⟨ht, hc⟩ := Prod.mk.inj h
  rw [ofCursor_of_next h]
  rcases error_of_lexeme ht with ⟨he, hw⟩ | ⟨he, hw, hr⟩
  · rw [if_pos (by rw [← hc]; dsimp only; omega)]
    exact .stuck he
  · have hrest : c'.rest = [] := by rw [← hc]; exact hr
    rw [hrest, List.length_nil, Nat.add_zero] at htotal
    rw [if_neg (by rw [← hc]; dsimp only; omega), ofCursor_of_nil hrest, ← htotal]
    exact .unterminated he

theorem offers_of_end {c c' : Cursor} (h : c.next = (.ok token, c'))
    (hk : token.kind = .endOfInput) :
    (ofCursor c).significant.Offers (.atEnd (c.position + c.rest.length)) [token] none := by
  have htotal := Cursor.position_add_length h
  have hrest := rest_of_end h hk
  rw [hrest, List.length_nil, Nat.add_zero] at htotal
  by_cases hp : c'.position = c.position
  · -- the end does not move the cursor, so there was nothing left
    have hnil : c.rest = [] := List.length_eq_zero_iff.1 (by omega)
    have htoken : token = .atEnd c.position := by
      have ht := congrArg Prod.fst h
      rw [Cursor.next, hnil] at ht
      exact (Except.ok.inj ht).symm
    rw [ofCursor_of_nil hnil, hnil, htoken]
    exact .ended
  · rw [ofCursor_of_moved h hp, ofCursor_of_nil hrest, ← htotal]
    have hs : isSpace (.ok token) = false := by simp [isSpace, hk]
    rw [significant]
    dsimp only
    rw [List.filter_cons, hs]
    exact .semicolon token

theorem significant_of_token {c c' : Cursor} (h : c.next = (.ok token, c'))
    (hb : token.kind ≠ .whitespace) (he : token.kind ≠ .endOfInput) :
    (ofCursor c).significant = { (ofCursor c').significant with
      ahead := .ok token :: (ofCursor c').significant.ahead } := by
  simp [ofCursor_of_moved h (Cursor.position_next_ne h he), significant, isSpace, hb]

/-- The feed of a query offers what a cursor hands out, blanks left out. -/
theorem offers_ofCursor (c : Cursor) :
    (ofCursor c).significant.Offers (.atEnd (c.position + c.rest.length))
      (c.drain.1.filter (·.kind ≠ .whitespace)) c.drain.2.1 := by
  fun_induction Cursor.drain c with
  | case1 c e c' h => exact offers_of_error h
  | case2 c token c' h hk =>
    have hb : token.kind ≠ .whitespace := by rw [hk]; decide
    rw [List.filter_cons_of_pos (by simpa using hb)]
    exact offers_of_end h hk
  | case3 c token c' h hk more error c'' hdrain ih =>
    rw [hdrain, Cursor.position_add_length h] at ih
    by_cases hb : token.kind = .whitespace
    · rw [significant_of_blank h hb, List.filter_cons_of_neg (by simpa using hb)]
      exact ih
    · rw [significant_of_token h hb hk, List.filter_cons_of_pos (by simpa using hb)]
      exact .token hk ih

theorem offers_ofText (sql : String) :
    (ofText sql).Offers (.atEnd sql.length) (visible sql) (Cursor.ofText sql).drain.2.1 := by
  have h := offers_ofCursor (.ofText sql)
  have hlength : (Cursor.ofText sql).position + (Cursor.ofText sql).rest.length = sql.length := by
    simp [Cursor.ofText, String.length_toList]
  rw [hlength] at h
  exact h

end Feed

namespace Reader

/-! ## Calls -/

/-- A call for one token: to take it, or to take it if it is there. -/
inductive Call where
  | expect (kind : TokenKind) (text : Option String)
  | accept (kind : TokenKind) (text : Option String)

/-- What a call that does not fail answers: the token, or whether there was one. -/
inductive Reply where
  | token (token : Token)
  | taken (taken : Bool)
deriving DecidableEq

/-- What comes of a call: its answer and the token that it consumed. -/
structure Outcome where
  answer : Except Error Reply
  consumed : Option Token
deriving DecidableEq

/-- The step of a reader that a call asks for. -/
def Call.read : Call → Read Reply
  | expect kind text => return .token (← Reader.expect kind text)
  | accept kind text => return .taken (← Reader.accept kind text)

/-- Whether a call asks for a token. -/
def Call.Fits (token : Token) : Call → Prop
  | expect kind text | accept kind text => token.is kind text = true

/-- The token that a call consumed, by its reply and the token that the reader held. -/
def Reply.consumed (held : Token) : Reply → Option Token
  | token t => some t
  | taken b => if b then some held else none

/-- Makes a call, and leaves the reader as the call did, be it that it failed. -/
def make (r : Reader) (call : Call) : Outcome × Reader :=
  match call.read r with
  | .ok reply r' => (⟨.ok reply, reply.consumed r.current⟩, r')
  | .error e r' => (⟨.error e, none⟩, r')

/-- All that can come of a call. -/
inductive Makes (r : Reader) (call : Call) : Outcome × Reader → Prop
  /-- The reader does not hold such a token and stays as it is. -/
  | refused {answer : Except Error Reply} : ¬ call.Fits r.current →
    (∀ e, answer = .error e → ¬ Unterminated e) → Makes r call (⟨answer, none⟩, r)
  /-- The reader moves on, and the token that it held is consumed. -/
  | consumed {reply : Reply} {token : Token} {feed : Feed} : call.Fits r.current →
    r.feed.next = (.ok token, feed) →
    Makes r call (⟨.ok reply, some r.current⟩, { r with current := token, feed })
  /-- The reader cannot move on and keeps the token that it holds. -/
  | failed {e : Error} {feed : Feed} : call.Fits r.current → r.feed.next = (.error e, feed) →
    Makes r call (⟨.error e, none⟩, { r with feed })

variable {r : Reader}

theorem advance_of_ok {token : Token} {feed : Feed} (h : r.feed.next = (.ok token, feed)) :
    advance r = .ok r.current { r with current := token, feed } := by
  rw [advance, h]

theorem advance_of_error {e : Error} {feed : Feed} (h : r.feed.next = (.error e, feed)) :
    advance r = .error e { r with feed } := by
  rw [advance, h]

/-- What a call answers that takes a token. -/
def Call.reply (token : Token) : Call → Reply
  | expect .. => .token token
  | accept .. => .taken true

theorem consumed_reply (call : Call) (token : Token) :
    (call.reply token).consumed token = some token := by
  cases call <;> rfl

theorem read_expect (kind : TokenKind) (text : Option String) :
    (Call.expect kind text).read r =
      EStateM.map Reply.token (if r.current.is kind text then advance
        else unexpected (describeExpected kind text)) r := rfl

theorem read_accept (kind : TokenKind) (text : Option String) :
    (Call.accept kind text).read r =
      EStateM.map Reply.taken (if r.current.is kind text then
        EStateM.bind advance fun _ => EStateM.pure true else EStateM.pure false) r := rfl

theorem read_of_fits {call : Call} (h : call.Fits r.current) :
    call.read r = EStateM.map (call.reply ·) advance r := by
  cases call with
  | expect kind text =>
    have hk : r.current.is kind text = true := h
    rw [read_expect, if_pos hk]
    rfl
  | accept kind text =>
    have hk : r.current.is kind text = true := h
    rw [read_accept, if_pos hk, EStateM.map, EStateM.map, EStateM.bind]
    cases advance r <;> rfl

theorem read_of_not_fits {call : Call} (h : ¬ call.Fits r.current) :
    call.read r = .ok (.taken false) r ∨ ∃ expected found position,
      call.read r = .error (.unexpectedToken expected found position) r := by
  cases call with
  | expect kind text =>
    have hk : ¬ r.current.is kind text = true := h
    rw [read_expect, if_neg hk]
    exact .inr ⟨describeExpected kind text, r.current.describe, r.current.position, rfl⟩
  | accept kind text =>
    have hk : ¬ r.current.is kind text = true := h
    rw [read_accept, if_neg hk]
    exact .inl rfl

theorem makes (r : Reader) (call : Call) : Makes r call (make r call) := by
  unfold make
  by_cases hf : call.Fits r.current
  · rw [read_of_fits hf, EStateM.map]
    rcases hn : r.feed.next with ⟨e | token, feed⟩
    · rw [advance_of_error hn]
      exact .failed hf hn
    · rw [advance_of_ok hn]
      dsimp only
      rw [consumed_reply]
      exact .consumed hf hn
  · rcases read_of_not_fits hf with hread | ⟨expected, found, position, hread⟩
    · rw [hread]
      exact .refused hf nofun
    · rw [hread]
      exact .refused hf fun e he => by cases he; exact nofun

/-! ## The account of a query's tokens -/

/-- The tokens that were consumed, the one that is held and those still offered are those of the
query, continued by its end. An error of the query is still to come and nothing is continued, or it
was that of an unterminated literal and has been answered. -/
def Account (sql : String) (outcomes : List Outcome) (r : Reader) : Prop :=
  ∃ rest error n, r.feed.Offers (.atEnd sql.length) rest error ∧
    outcomes.filterMap Outcome.consumed ++ r.current :: rest =
      visible sql ++ List.replicate n (.atEnd sql.length) ∧
    (error = (Cursor.ofText sql).drain.2.1 ∧ (error.isSome → n = 0) ∨
      error = none ∧ ∃ e, (Cursor.ofText sql).drain.2.1 = some e ∧ Unterminated e ∧
        .error e ∈ outcomes.map Outcome.answer)

variable {sql : String} {outcomes : List Outcome}

theorem account_ofText (h : Reader.ofText sql = .ok r) : Account sql [] r := by
  unfold Reader.ofText at h
  split at h
  · next token feed hn =>
    cases h
    obtain ⟨rest, n, hoffers, htokens, hzero⟩ := (Feed.offers_ofText sql).next_ok hn
    exact ⟨rest, _, n, hoffers, htokens, .inl ⟨rfl, hzero⟩⟩
  · cases h

theorem mem_answers_append {e : Error} (h : .error e ∈ outcomes.map Outcome.answer)
    (more : List Outcome) : .error e ∈ (outcomes ++ more).map Outcome.answer := by
  rw [List.map_append]
  exact List.mem_append_left _ h

/-- A call keeps the account, whatever comes of it. -/
theorem Account.make (h : Account sql outcomes r) (call : Call) :
    Account sql (outcomes ++ [(r.make call).1]) (r.make call).2 := by
  obtain ⟨rest, error, n, hoffers, htokens, herror⟩ := h
  have hmakes := r.makes call
  generalize r.make call = made at hmakes ⊢
  cases hmakes with
  | refused =>
    refine ⟨rest, error, n, hoffers, by simpa using htokens, herror.imp_right ?_⟩
    exact fun ⟨hnone, e, hd, hu, hm⟩ => ⟨hnone, e, hd, hu, mem_answers_append hm _⟩
  | consumed _ hn =>
    obtain ⟨rest', k, hoffers', htaken, hzero⟩ := hoffers.next_ok hn
    refine ⟨rest', error, n + k, hoffers', ?_, ?_⟩
    · -- what is taken off the feed is what the account grows by
      rw [List.replicate_add, ← List.append_assoc, ← htokens]
      simp [htaken]
    · exact herror.imp (fun ⟨hd, hn⟩ => ⟨hd, fun he => by rw [hn he, hzero he]⟩)
        fun ⟨hnone, e, hd, hu, hm⟩ => ⟨hnone, e, hd, hu, mem_answers_append hm _⟩
  | @failed e feed _ hn =>
    obtain ⟨rfl, rfl, hafter⟩ := hoffers.next_error hn
    obtain ⟨hd, hzero⟩ := herror.resolve_right fun ⟨hnone, _⟩ => Option.some_ne_none e hnone
    rcases hafter with ⟨-, rfl⟩ | ⟨hu, rfl⟩
    · exact ⟨[], some e, n, hoffers, by simpa using htokens, .inl ⟨hd, hzero⟩⟩
    · -- behind the literal the query has ended, and that has just been answered
      refine ⟨_, none, n + 1, .ended, ?_, .inr ⟨rfl, e, hd.symm, hu, by simp⟩⟩
      rw [List.replicate_succ', ← List.append_assoc, ← htokens]
      simp

/-- A run of calls keeps the account. -/
theorem account_run (h : Account sql outcomes r) (calls : List Call) :
    Account sql (outcomes ++ (run make r calls).1) (run make r calls).2 := by
  induction calls generalizing outcomes r with
  | nil => rwa [run, List.append_nil]
  | cons call calls ih =>
    rw [run_cons, List.append_cons]
    exact ih (h.make call)

/-! ## Calls that fail -/

/-- A call for the token that is held consumes it, or answers the error behind which the query
has no tokens. -/
theorem Account.fits (h : Account sql outcomes r) {call : Call} (hfits : call.Fits r.current) :
    (r.make call).1.consumed = some r.current ∨ ∃ e, (r.make call).1.answer = .error e ∧
      (Cursor.ofText sql).drain.2.1 = some e := by
  obtain ⟨rest, error, n, hoffers, -, herror⟩ := h
  have hmakes := r.makes call
  generalize r.make call = made at hmakes ⊢
  cases hmakes with
  | refused hnot => exact absurd hfits hnot
  | consumed => exact .inl rfl
  | @failed e feed _ hn =>
    obtain ⟨-, rfl, -⟩ := hoffers.next_error hn
    obtain ⟨hd, -⟩ := herror.resolve_right fun ⟨hnone, _⟩ => Option.some_ne_none e hnone
    exact .inr ⟨e, rfl, hd.symm⟩

/-- A call that failed fails again in the same way, unless it failed for an unterminated literal:
then it consumes the token that the reader holds. -/
theorem make_make_of_error {stop : Token} {rest : List Token} {error : Option Error}
    (h : r.feed.Offers stop rest error) {call : Call} {e : Error}
    (he : (r.make call).1.answer = .error e) :
    (¬ Unterminated e ∧ (r.make call).2 = r) ∨
      (Unterminated e ∧ ((r.make call).2.make call).1.consumed = some r.current) := by
  have hmakes := r.makes call
  generalize r.make call = made at hmakes he ⊢
  cases hmakes with
  | refused _ hne => exact .inl ⟨hne e he, rfl⟩
  | consumed => cases he
  | @failed e' feed hfits hn =>
    obtain rfl := Except.error.inj he
    obtain ⟨-, -, ⟨hu, rfl⟩ | ⟨hu, rfl⟩⟩ := h.next_error hn
    · exact .inl ⟨hu, rfl⟩
    · -- the reader holds the same token, and the end is next
      have hmakes := makes { r with feed := ⟨[], .ok stop⟩ } call
      generalize make { r with feed := ⟨[], .ok stop⟩ } call = made at hmakes
      cases hmakes with
      | refused hnot => exact absurd hfits hnot
      | consumed => exact .inr ⟨hu, rfl⟩
      | failed _ hn => cases hn

/-- The tokens that calls consume, failing calls among them, are in order those of the query,
continued by its end; and a call for the token that the reader holds consumes it, or answers why
the query cannot be cut into tokens. A call that failed fails again in the same way as often as it
is repeated, unless the error was that of an unterminated literal, behind which the repeated call
consumes the token that the reader holds. And if the query cannot be cut into tokens, its end is
consumed only behind such an error. -/
theorem consumes_in_order (h : Reader.ofText sql = .ok r) (calls : List Call) :
    let outcomes := (run make r calls).1
    let reached := (run make r calls).2
    let consumed := outcomes.filterMap Outcome.consumed
    (∃ n, consumed <+: visible sql ++ List.replicate n (.atEnd sql.length)) ∧
    (∀ call : Call, call.Fits reached.current →
      (reached.make call).1.consumed = some reached.current ∨
        ∃ e, (reached.make call).1.answer = .error e ∧
          (Cursor.ofText sql).tokens.1 = .error e) ∧
    (∀ call e, (reached.make call).1.answer = .error e →
      (¬ Unterminated e → (reached.make call).2.make call = reached.make call) ∧
      (Unterminated e → ((reached.make call).2.make call).1.consumed = some reached.current)) ∧
    ∀ e, (Cursor.ofText sql).tokens.1 = .error e → ∀ token ∈ consumed,
      token.kind = .endOfInput → Unterminated e ∧ .error e ∈ outcomes.map Outcome.answer := by
  intro outcomes reached consumed
  have haccount : Account sql outcomes reached := account_run (account_ofText h) calls
  have hfits (call : Call) (hf : call.Fits reached.current) := haccount.fits hf
  obtain ⟨rest, error, n, hoffers, htokens, herror⟩ := haccount
  simp only [Cursor.tokens_eq_error_iff]
  refine ⟨⟨n, _, htokens⟩, hfits, fun call e he => ?_, fun e hd token hm hk => ?_⟩
  · rcases make_make_of_error hoffers he with ⟨hu, hr⟩ | ⟨hu, hr⟩
    · exact ⟨fun _ => by rw [hr], fun hu' => absurd hu' hu⟩
    · exact ⟨fun hu' => absurd hu hu', fun _ => hr⟩
  · rcases herror with ⟨rfl, hzero⟩ | ⟨-, e', hd', hu, hanswer⟩
    · -- the account is that of the tokens before the error, and the end is none of them
      have hsome : (Cursor.ofText sql).drain.2.1.isSome := by rw [hd]; rfl
      rw [hzero hsome, List.replicate_zero, List.append_nil] at htokens
      have hvisible : token ∈ visible sql := htokens ▸ List.mem_append_left _ hm
      exact absurd hk ((Feed.offers_ofText sql).kind_ne hsome token hvisible)
    · obtain rfl := Option.some.inj (hd.symm.trans hd')
      exact ⟨hu, hanswer⟩

/-- A refused call, a token that is consumed, and then a character that begins no token: it is
answered for ever, and the end of the query is never reached. -/
theorem consumes_in_order_before_character :
    let calls := [.expect .comma none, .expect .identifier none]
    let call := Call.accept .identifier none
    ∃ r, Reader.ofText "a b @" = .ok r ∧
      (∃ n, (run make r calls).1.filterMap Outcome.consumed <+:
        visible "a b @" ++ List.replicate n (.atEnd 5)) ∧
      ((run make r calls).2.make call).1.answer = .error (.unexpectedCharacter '@' 4) ∧
      ((run make r calls).2.make call).2.make call = (run make r calls).2.make call ∧
      ∀ token ∈ (run make r calls).1.filterMap Outcome.consumed, token.kind ≠ .endOfInput := by
  intro calls call
  have hanswer : (Reader.ofText "a b @").map (fun r =>
      ((run make r calls).2.make call).1.answer) = .ok (.error (.unexpectedCharacter '@' 4)) := by
    decide +kernel
  have htokens : (Cursor.ofText "a b @").tokens.1 = .error (.unexpectedCharacter '@' 4) := by
    decide +kernel
  have hu : ¬ Unterminated (.unexpectedCharacter '@' 4) := nofun
  rcases hr : Reader.ofText "a b @" with e | r
  · rw [hr] at hanswer
    cases hanswer
  · rw [hr] at hanswer
    obtain ⟨horder, -, hrepeat, hend⟩ := consumes_in_order hr calls
    have he := Except.ok.inj hanswer
    exact ⟨r, rfl, horder, he, (hrepeat call _ he).1 hu,
      fun token hm hk => hu (hend _ htokens token hm hk).1⟩

/-- An error that the reader meets is gone when the call is repeated: the literal behind `a` is
never closed, and still the end of the query is consumed. -/
theorem repeated_call_skips_error :
    (Cursor.ofText "a 'oops").tokens.1 = .error (.unterminatedString 2) ∧
      (Reader.ofText "a 'oops").map (fun r => (run make r [.expect .identifier none,
        .expect .identifier none, .expect .endOfInput none]).1) = .ok [
          ⟨.error (.unterminatedString 2), none⟩,
          ⟨.ok (.token ⟨.identifier, "a", 0⟩), some ⟨.identifier, "a", 0⟩⟩,
          ⟨.ok (.token (.atEnd 7)), some (.atEnd 7)⟩] := by
  decide +kernel

end Reader

end RelStore.Sql
