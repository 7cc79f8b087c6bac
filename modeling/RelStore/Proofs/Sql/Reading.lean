import RelStore.Proofs.Separated
import RelStore.Proofs.Sql.Grammar
import RelStore.Proofs.Sql.Word

/-!
# Readers and phrases

`Takes r xs r'` says that a reader has tokens for the symbols `xs` in front of it and stands
behind them as `r'`. A step of a reader is described by the phrases that it takes, once in each
direction: a step that succeeds took a phrase of its result (`takes_of_…`), and it succeeds where
a phrase is in front of it that nothing behind could extend (`…_of_takes`).

Lists are read by repetition under a bound. The bound never cuts a list short: the symbols in
front of a reader are no more than its `room` (`Takes.room`).
-/

namespace RelStore.Sql

/-- Tokens of the kind, with the text where one is given, are those that stand for the symbol. -/
def Stands (kind : TokenKind) (text : Option String) (x : Symbol) : Prop :=
  ∀ token : Token, token.is kind text = true ↔ token.symbol? = some x

theorem stands_keyword (word : String) : Stands .keyword (some word) (.keyword word) := by
  rintro ⟨kind, text, position⟩
  cases kind <;> grind [Token.is, Token.symbol?, Option.map_eq_some_iff]

theorem stands_equals : Stands .operator (some "=") .equals := by
  rintro ⟨kind, text, position⟩
  cases kind <;> grind [Token.is, Token.symbol?, Option.map_eq_some_iff]

theorem stands_comma : Stands .comma none .comma := by
  rintro ⟨kind, text, position⟩
  cases kind <;> simp [Token.is, Token.symbol?]

theorem stands_openParen : Stands .openParen none .openParen := by
  rintro ⟨kind, text, position⟩
  cases kind <;> simp [Token.is, Token.symbol?]

theorem stands_closeParen : Stands .closeParen none .closeParen := by
  rintro ⟨kind, text, position⟩
  cases kind <;> simp [Token.is, Token.symbol?]

namespace Reader

variable {α β ι : Type} {r r' r'' : Reader} {x : Symbol} {xs ys : List Symbol}

/-- The reader holds a token for the symbol. -/
def At (r : Reader) (x : Symbol) : Prop := r.current.symbol? = some x

instance (r : Reader) (x : Symbol) : Decidable (r.At x) := by unfold At; infer_instance

theorem At.eq {y : Symbol} (h : r.At x) (h' : r.At y) : x = y := Option.some.inj (h.symm.trans h')

/-- The reader takes tokens for the symbols and goes on behind them. -/
inductive Takes : Reader → List Symbol → Reader → Prop
  | nil (r : Reader) : Takes r [] r
  | cons {r r' r'' : Reader} {x : Symbol} {xs : List Symbol} :
    r.At x → advance r = .ok r.current r' → Takes r' xs r'' → Takes r (x :: xs) r''

theorem takes_nil_iff : Takes r [] r' ↔ r = r' :=
  ⟨fun h => by cases h; rfl, fun h => h ▸ .nil r⟩

theorem takes_cons_iff :
    Takes r (x :: xs) r'' ↔
      r.At x ∧ ∃ r', advance r = .ok r.current r' ∧ Takes r' xs r'' :=
  ⟨fun h => by cases h with | cons hx ha h => exact ⟨hx, _, ha, h⟩,
    fun ⟨hx, _, ha, h⟩ => .cons hx ha h⟩

theorem takes_append_iff : Takes r (xs ++ ys) r'' ↔ ∃ r', Takes r xs r' ∧ Takes r' ys r'' := by
  induction xs generalizing r with
  | nil => simp [takes_nil_iff]
  | cons x xs ih =>
    simp only [List.cons_append, takes_cons_iff, ih]
    constructor
    · rintro ⟨hx, r₁, ha, r', h, h'⟩
      exact ⟨r', ⟨hx, r₁, ha, h⟩, h'⟩
    · rintro ⟨r', ⟨hx, r₁, ha, h⟩, h'⟩
      exact ⟨hx, r₁, ha, r', h, h'⟩

theorem Takes.append (h : Takes r xs r') (h' : Takes r' ys r'') : Takes r (xs ++ ys) r'' :=
  takes_append_iff.2 ⟨r', h, h'⟩

theorem Takes.at (h : Takes r (x :: xs) r') : r.At x := (takes_cons_iff.1 h).1

theorem Takes.not_at {y : Symbol} (h : Takes r (x :: xs) r') (hne : x ≠ y) : ¬ r.At y :=
  fun hy => hne (h.at.eq hy)

/-- The rest of what a reader takes, behind the first symbol. -/
theorem takes_cons_iff_singleton :
    Takes r (x :: xs) r'' ↔ ∃ r', Takes r [x] r' ∧ Takes r' xs r'' := by
  rw [← List.singleton_append, takes_append_iff]

/-! ## The end of a feed -/

/-- What the feed hands out for ever stands for no symbol. -/
def Ends (r : Reader) : Prop := ∀ token, r.feed.last = .ok token → token.symbol? = none

/-- A bound on the number of symbols in front of a reader. -/
def room (r : Reader) : Nat :=
  if r.current.symbol?.isSome then r.feed.ahead.length + 1 else 0

theorem advance_eq_ok {token : Token} :
    advance r = .ok token r' ↔
      token = r.current ∧ ∃ next feed, r.feed.next = (.ok next, feed) ∧
        r' = { r with current := next, feed } := by
  unfold advance
  constructor
  · intro h
    split at h
    · next next feed hn => cases h; exact ⟨rfl, next, feed, hn, rfl⟩
    · cases h
  · rintro ⟨rfl, next, feed, hn, rfl⟩
    rw [hn]

theorem advance_spec {token : Token} (h : advance r = .ok token r') :
    r'.source = r.source ∧ (r.Ends → r'.Ends) ∧ (r.Ends → r'.room ≤ r.feed.ahead.length) := by
  obtain ⟨-, next, feed, hn, rfl⟩ := advance_eq_ok.1 h
  unfold Feed.next at hn
  unfold Ends room
  split at hn
  · next ha =>
    obtain ⟨hlast, rfl⟩ := Prod.mk.inj hn
    refine ⟨rfl, id, fun hr => ?_⟩
    rw [show (next.symbol?) = none from hr next hlast]
    exact Nat.zero_le _
  · next item ahead ha =>
    obtain ⟨rfl, rfl⟩ := Prod.mk.inj hn
    refine ⟨rfl, id, fun _ => ?_⟩
    rw [ha]
    dsimp only
    split
    · exact Nat.le_refl _
    · exact Nat.zero_le _

theorem Takes.source (h : Takes r xs r') : r'.source = r.source := by
  induction h with
  | nil => rfl
  | cons _ ha _ ih => exact ih.trans (advance_spec ha).1

theorem Takes.ends (h : Takes r xs r') (hr : r.Ends) : r'.Ends := by
  induction h with
  | nil => exact hr
  | cons _ ha _ ih => exact ih ((advance_spec ha).2.1 hr)

theorem Takes.room (h : Takes r xs r') (hr : r.Ends) : r'.room + xs.length ≤ r.room := by
  induction h with
  | nil => exact Nat.le_refl _
  | @cons r r' r'' x xs hx ha _ ih =>
    obtain ⟨-, he, hroom⟩ := advance_spec ha
    have hr₁ := hroom hr
    have hi := ih (he hr)
    have hroom : r.room = r.feed.ahead.length + 1 := by
      unfold Reader.room
      rw [show r.current.symbol? = some x from hx]
      rfl
    simp only [List.length_cons]
    omega

/-! ## Single tokens -/

theorem bind_eq_ok {m : Read α} {f : α → Read β} {b : β} :
    (m >>= f) r = .ok b r'' ↔ ∃ a r', m r = .ok a r' ∧ f a r' = .ok b r'' := by
  constructor
  · exact bind_ok
  · rintro ⟨a, r', hm, hf⟩
    change EStateM.bind m f r = _
    rw [EStateM.bind, hm]
    exact hf

theorem bind_of_ok {m : Read α} {f : α → Read β} {a : α} {b : β} (hm : m r = .ok a r')
    (hf : f a r' = .ok b r'') : (m >>= f) r = .ok b r'' :=
  bind_eq_ok.2 ⟨a, r', hm, hf⟩

theorem pure_eq_ok {a b : α} : (pure a : Read α) r = .ok b r' ↔ a = b ∧ r = r' := by
  change EStateM.Result.ok a r = _ ↔ _
  rw [EStateM.Result.ok.injEq]

theorem expect_eq_ok {kind : TokenKind} {text : Option String} {token : Token} :
    expect kind text r = .ok token r' ↔
      r.current.is kind text = true ∧ token = r.current ∧ advance r = .ok r.current r' := by
  unfold expect
  rw [bind_eq_ok]
  constructor
  · rintro ⟨_, _, hg, h⟩
    cases hg
    split_ifs at h with hk
    · obtain rfl := (advance_eq_ok.1 h).1
      exact ⟨hk, rfl, h⟩
    · cases h
  · rintro ⟨hk, rfl, ha⟩
    exact ⟨r, r, rfl, by rw [if_pos hk]; exact ha⟩

theorem expect_iff {kind : TokenKind} {text : Option String} (hs : Stands kind text x)
    {token : Token} :
    expect kind text r = .ok token r' ↔ token = r.current ∧ Takes r [x] r' := by
  rw [expect_eq_ok, hs, takes_cons_iff]
  simp only [takes_nil_iff, exists_eq_right]
  exact ⟨fun ⟨h, ht, ha⟩ => ⟨ht, h, ha⟩, fun ⟨ht, h, ha⟩ => ⟨h, ht, ha⟩⟩

theorem keyword_iff {word : String} : keyword word r = .ok () r' ↔ Takes r [.keyword word] r' := by
  unfold keyword
  simp only [bind_eq_ok, expect_iff (stands_keyword word), pure_eq_ok]
  constructor
  · rintro ⟨_, _, ⟨-, h⟩, -, rfl⟩; exact h
  · exact fun h => ⟨_, _, ⟨rfl, h⟩, trivial, rfl⟩

/-- A step that takes a token of a kind and returns its text. -/
theorem text_iff {kind : TokenKind} {symbol : String → Symbol} {text : String}
    (hs : ∀ t : Token, t.is kind none = true ∧ t.text = text ↔ t.symbol? = some (symbol text)) :
    (return (← expect kind).text : Read String) r = .ok text r' ↔ Takes r [symbol text] r' := by
  simp only [bind_eq_ok, expect_eq_ok, pure_eq_ok, takes_cons_iff, takes_nil_iff, exists_eq_right,
    At, ← hs]
  constructor
  · rintro ⟨_, _, ⟨hk, rfl, ha⟩, ht, rfl⟩; exact ⟨⟨hk, ht⟩, ha⟩
  · rintro ⟨⟨hk, ht⟩, ha⟩; exact ⟨_, _, ⟨hk, rfl, ha⟩, ht, rfl⟩

theorem identifier_iff {name : String} :
    identifier r = .ok name r' ↔ Takes r [.identifier name] r' := by
  refine text_iff fun ⟨kind, text, position⟩ => ?_
  cases kind <;> simp [Token.is, Token.symbol?]

theorem literal_iff {value : String} :
    literal r = .ok value r' ↔ Takes r [.literal value] r' := by
  refine text_iff fun ⟨kind, text, position⟩ => ?_
  cases kind <;> simp [Token.is, Token.symbol?]

theorem accept_iff {kind : TokenKind} {text : Option String} (hs : Stands kind text x) {b : Bool} :
    accept kind text r = .ok b r' ↔
      b = true ∧ Takes r [x] r' ∨ b = false ∧ ¬ r.At x ∧ r' = r := by
  unfold accept
  rw [bind_eq_ok]
  have hx : r.current.is kind text = true ↔ r.At x := hs _
  constructor
  · rintro ⟨_, _, hg, h⟩
    cases hg
    split_ifs at h with hk
    · obtain ⟨t, r₁, ha, hp⟩ := bind_eq_ok.1 h
      obtain ⟨rfl, rfl⟩ := pure_eq_ok.1 hp
      obtain rfl := (advance_eq_ok.1 ha).1
      exact .inl ⟨rfl, .cons (hx.1 hk) ha (.nil _)⟩
    · obtain ⟨rfl, rfl⟩ := pure_eq_ok.1 h
      exact .inr ⟨rfl, mt hx.2 hk, rfl⟩
  · intro h
    refine ⟨r, r, rfl, ?_⟩
    rcases h with ⟨rfl, h⟩ | ⟨rfl, h, rfl⟩
    · obtain ⟨ha, _, hadv, h⟩ := takes_cons_iff.1 h
      obtain rfl := takes_nil_iff.1 h
      rw [if_pos (hx.2 ha)]
      exact bind_of_ok hadv rfl
    · rw [if_neg (mt hx.1 h)]
      rfl

/-- A step that looks for a symbol and goes on in one of two ways. -/
theorem accept_bind_iff {kind : TokenKind} {text : Option String} (hs : Stands kind text x)
    {f : Bool → Read β} {b : β} :
    (accept kind text >>= f) r = .ok b r'' ↔
      (∃ r', Takes r [x] r' ∧ f true r' = .ok b r'') ∨ ¬ r.At x ∧ f false r = .ok b r'' := by
  simp only [bind_eq_ok, accept_iff hs]
  constructor
  · rintro ⟨_, r', ⟨rfl, h⟩ | ⟨rfl, hx, rfl⟩, hf⟩
    · exact .inl ⟨r', h, hf⟩
    · exact .inr ⟨hx, hf⟩
  · rintro (⟨r', h, hf⟩ | ⟨hx, hf⟩)
    · exact ⟨true, r', .inl ⟨rfl, h⟩, hf⟩
    · exact ⟨false, r, .inr ⟨rfl, hx, rfl⟩, hf⟩

theorem parenthesized_iff {inner : Read α} {a : α} :
    parenthesized inner r = .ok a r' ↔ ∃ r₁ r₂, Takes r [.openParen] r₁ ∧ inner r₁ = .ok a r₂ ∧
      Takes r₂ [.closeParen] r' := by
  unfold parenthesized
  simp only [bind_eq_ok, expect_iff stands_openParen, expect_iff stands_closeParen, pure_eq_ok]
  constructor
  · rintro ⟨_, r₁, ⟨-, h₁⟩, a', r₂, h₂, _, _, ⟨-, h₃⟩, rfl, rfl⟩
    exact ⟨r₁, r₂, h₁, h₂, h₃⟩
  · rintro ⟨r₁, r₂, h₁, h₂, h₃⟩
    exact ⟨_, r₁, ⟨rfl, h₁⟩, a, r₂, h₂, _, _, ⟨rfl, h₃⟩, rfl, rfl⟩

/-! ## Repetition -/

/-- None of the symbols stands in front of the reader. -/
def Clear (r : Reader) (stop : List Symbol) : Prop := ∀ x ∈ stop, ¬ r.At x

theorem Clear.of_at {stop : List Symbol} (h : r.At x) (hx : x ∉ stop) : r.Clear stop :=
  fun _ hy hat => hx (h.eq hat ▸ hy)

theorem Takes.clear {stop : List Symbol} (h : Takes r (x :: xs) r') (hx : x ∉ stop) :
    r.Clear stop :=
  .of_at h.at hx

theorem Clear.mono {stop stop' : List Symbol} (h : r.Clear stop) (hs : stop' ⊆ stop) :
    r.Clear stop' :=
  fun x hx => h x (hs hx)

theorem Clear.of_symbol?_eq_none (h : r.current.symbol? = none) (stop : List Symbol) :
    r.Clear stop :=
  fun _ _ hat => nomatch h.symm.trans hat

/-- A step to be repeated. It reads an item, whose phrase begins with one of the symbols `first`
and must not be followed by one of the symbols `stop`, and adds it to what was read before; or
none of `first` is there, and nothing is read. -/
structure Repeats (step : β → Read (Option β)) (phrase : ι → List Symbol)
    (add? : β → ι → Option β) (first stop : List Symbol) : Prop where
  takes {b : β} {next : Option β} {r r' : Reader} : step b r = .ok next r' →
    (next = none ∧ r' = r) ∨ ∃ i b', next = some b' ∧ Takes r (phrase i) r' ∧ add? b i = some b'
  reads {b b' : β} {i : ι} {r r' : Reader} : r.Ends → Takes r (phrase i) r' → add? b i = some b' →
    r'.Clear stop → step b r = .ok (some b') r'
  rests {b : β} {r : Reader} : r.Clear first → step b r = .ok none r
  begins (i : ι) : ∃ x xs, phrase i = x :: xs ∧ x ∈ first
  apart : ∀ x ∈ first, x ∉ stop

namespace Repeats

variable {step : β → Read (Option β)} {phrase : ι → List Symbol} {add? : β → ι → Option β}
  {first stop : List Symbol}

theorem takes_of_repeatUpTo (h : Repeats step phrase add? first stop) {bound : Nat} {b b' : β}
    (hr : repeatUpTo step bound b r = .ok b' r') :
    ∃ items : List ι, Takes r (items.flatMap phrase) r' ∧ items.foldlM add? b = some b' := by
  induction bound generalizing b r with
  | zero =>
    obtain ⟨rfl, rfl⟩ := pure_eq_ok.1 hr
    exact ⟨[], .nil r, rfl⟩
  | succ bound ih =>
    obtain ⟨next, r₁, hstep, hrest⟩ := bind_eq_ok.1 hr
    rcases h.takes hstep with ⟨rfl, rfl⟩ | ⟨i, b₁, rfl, hi, ha⟩
    · obtain ⟨rfl, rfl⟩ := pure_eq_ok.1 hrest
      exact ⟨[], .nil _, rfl⟩
    · obtain ⟨items, hitems, hf⟩ := ih hrest
      refine ⟨i :: items, ?_, ?_⟩
      · rw [List.flatMap_cons]; exact hi.append hitems
      · rw [List.foldlM_cons, ha]; exact hf

/-- Before items and what ends them there stands the first of them or that end. -/
theorem clear_of_takes (h : Repeats step phrase add? first stop) {items : List ι}
    (ht : Takes r (items.flatMap phrase) r') (hclear : r'.Clear (first ++ stop)) :
    r.Clear stop := by
  cases items with
  | nil =>
    obtain rfl := takes_nil_iff.1 ht
    exact hclear.mono (List.subset_append_right ..)
  | cons i items =>
    obtain ⟨x, xs, hx, hfirst⟩ := h.begins i
    have hnext : Takes r (phrase i ++ items.flatMap phrase) r' := ht
    rw [hx] at hnext
    exact hnext.clear (h.apart x hfirst)

theorem repeatUpTo_of_takes (h : Repeats step phrase add? first stop) {bound : Nat} {b b' : β}
    (hr : r.Ends) (hbound : r.room ≤ bound) {items : List ι}
    (ht : Takes r (items.flatMap phrase) r') (hf : items.foldlM add? b = some b')
    (hclear : r'.Clear (first ++ stop)) : repeatUpTo step bound b r = .ok b' r' := by
  induction items generalizing bound b r with
  | nil =>
    obtain rfl := takes_nil_iff.1 ht
    obtain rfl := Option.some.inj hf
    cases bound with
    | zero => rfl
    | succ bound =>
      exact bind_of_ok (h.rests (hclear.mono (List.subset_append_left ..))) rfl
  | cons i items ih =>
    obtain ⟨r₁, hi, hitems⟩ := takes_append_iff.1 ht
    rw [List.foldlM_cons] at hf
    obtain ⟨b₁, ha, hf⟩ := Option.bind_eq_some_iff.1 hf
    obtain ⟨x, xs, hx, -⟩ := h.begins i
    have hroom := hi.room hr
    rw [hx, List.length_cons] at hroom
    cases bound with
    | zero => omega
    | succ bound =>
      have hstop := h.clear_of_takes hitems hclear
      exact bind_of_ok (h.reads hr hi ha hstop) (ih (hi.ends hr) (by omega) hitems hf)

theorem takes_of_repeatWhile (h : Repeats step phrase add? first stop) {b b' : β}
    (hr : repeatWhile step b r = .ok b' r') :
    ∃ items : List ι, Takes r (items.flatMap phrase) r' ∧ items.foldlM add? b = some b' := by
  obtain ⟨_, _, hg, hr⟩ := bind_eq_ok.1 hr
  cases hg
  exact h.takes_of_repeatUpTo hr

theorem repeatWhile_of_takes (h : Repeats step phrase add? first stop) {b b' : β} (hr : r.Ends)
    {items : List ι} (ht : Takes r (items.flatMap phrase) r')
    (hf : items.foldlM add? b = some b') (hclear : r'.Clear (first ++ stop)) :
    repeatWhile step b r = .ok b' r' := by
  have hroom : r.room ≤ r.feed.ahead.length + 1 := by
    unfold room
    split <;> omega
  exact bind_of_ok rfl (h.repeatUpTo_of_takes hr hroom ht hf hclear)

end Repeats

/-- A step that reads an item of a list, which must not be followed by one of the symbols `stop`,
and adds it to those before it. -/
structure Adds (item : β → Read β) (phrase : ι → List Symbol) (add? : β → ι → Option β)
    (stop : List Symbol) : Prop where
  takes {b b' : β} {r r' : Reader} : item b r = .ok b' r' →
    ∃ i, Takes r (phrase i) r' ∧ add? b i = some b'
  reads {b b' : β} {i : ι} {r r' : Reader} : r.Ends → Takes r (phrase i) r' → add? b i = some b' →
    r'.Clear stop → item b r = .ok b' r'
  apart : .comma ∉ stop

theorem listed_cons (phrase : List Symbol) (phrases : List (List Symbol)) :
    Grammar.listed (phrase :: phrases) = phrase ++ phrases.flatMap (.comma :: ·) :=
  intercalate_cons Symbol.comma phrase phrases

namespace Adds

variable {item : β → Read β} {phrase : ι → List Symbol} {add? : β → ι → Option β}
  {stop : List Symbol}

/-- A further item is read behind a comma. -/
theorem repeats (h : Adds item phrase add? stop) :
    Repeats (fun b => do if ← accept .comma then return some (← item b) else return none)
      (fun i => .comma :: phrase i) add? [.comma] stop where
  takes hs := by
    rcases (accept_bind_iff stands_comma).1 hs with ⟨r₁, hc, hs⟩ | ⟨-, hs⟩
    · obtain ⟨b₁, r₂, hi, hs⟩ := bind_eq_ok.1 hs
      obtain ⟨rfl, rfl⟩ := pure_eq_ok.1 hs
      obtain ⟨i, ht, ha⟩ := h.takes hi
      exact .inr ⟨i, b₁, rfl, hc.append ht, ha⟩
    · obtain ⟨rfl, rfl⟩ := pure_eq_ok.1 hs
      exact .inl ⟨rfl, rfl⟩
  reads hr ht ha hstop := by
    obtain ⟨r₁, hc, ht⟩ := takes_cons_iff_singleton.1 ht
    exact (accept_bind_iff stands_comma).2
      (.inl ⟨r₁, hc, bind_of_ok (h.reads (hc.ends hr) ht ha hstop) rfl⟩)
  rests hclear :=
    (accept_bind_iff stands_comma).2 (.inr ⟨hclear _ List.mem_cons_self, rfl⟩)
  begins i := ⟨.comma, phrase i, rfl, List.mem_cons_self⟩
  apart x hx := List.mem_singleton.1 hx ▸ h.apart

theorem takes_of_separated (h : Adds item phrase add? stop) {b b' : β}
    (hs : separated item b r = .ok b' r') :
    ∃ items : List ι, items ≠ [] ∧ Takes r (Grammar.listed (items.map phrase)) r' ∧
      items.foldlM add? b = some b' := by
  obtain ⟨b₁, r₁, hi, hs⟩ := bind_eq_ok.1 hs
  obtain ⟨i, ht, ha⟩ := h.takes hi
  obtain ⟨items, hts, hf⟩ := h.repeats.takes_of_repeatWhile hs
  refine ⟨i :: items, List.cons_ne_nil _ _, ?_, ?_⟩
  · rw [List.map_cons, listed_cons, List.flatMap_map]
    exact ht.append hts
  · rw [List.foldlM_cons, ha]
    exact hf

theorem separated_of_takes (h : Adds item phrase add? stop) {b b' : β} (hr : r.Ends)
    {items : List ι} (hne : items ≠ []) (ht : Takes r (Grammar.listed (items.map phrase)) r')
    (hf : items.foldlM add? b = some b') (hclear : r'.Clear (.comma :: stop)) :
    separated item b r = .ok b' r' := by
  obtain ⟨i, items, rfl⟩ := List.exists_cons_of_ne_nil hne
  rw [List.map_cons, listed_cons, List.flatMap_map] at ht
  obtain ⟨r₁, hi, hts⟩ := takes_append_iff.1 ht
  rw [List.foldlM_cons] at hf
  obtain ⟨b₁, ha, hf⟩ := Option.bind_eq_some_iff.1 hf
  have hstop : r₁.Clear stop := by
    cases items with
    | nil =>
      obtain rfl := takes_nil_iff.1 hts
      exact hclear.mono (List.subset_cons_self ..)
    | cons j items => exact Takes.clear hts h.apart
  exact bind_of_ok (h.reads hr hi ha hstop)
    (h.repeats.repeatWhile_of_takes (hi.ends hr) hts hf hclear)

end Adds

end Reader

end RelStore.Sql
