import Mathlib.Data.List.Forall2
import RelStore.Proofs.Run
import RelStore.Proofs.Sql.Piece
import RelStore.Proofs.Sql.WellFormed

/-!
# Tokens tile a query

A query is cut into the pieces of its tokens (`Cut`) as far as tokens can be read, and no further
(`exists_cut`). What a cursor hands out follows from that (`Cut.drain`, `Cursor.items_eq`), and so
does where the tokens stand: their positions cut the query into the pieces that they stand for
(`Cut.tiles`). A piece is not changed by what is cut off behind it, so the text before an error is
read as the same tokens (`Cut.take`). `cut_into_tokens` says all this of every query.
-/

namespace RelStore.Sql

/-! ## Positions and slices -/

/-- Where tokens stand, and where the last of them ends. -/
def positions (tokens : List Token) (stop : Nat) : List Nat := tokens.map Token.position ++ [stop]

/-- The slices of a text from each of these positions to the next. -/
def slices (cs : List Char) (places : List Nat) : List (List Char) :=
  List.zipWith (fun place next => cs.extract place next) places places.tail

/-- The tokens fill a text without gaps from its beginning to a place. -/
structure Tiles (cs : List Char) (tokens : List Token) (stop : Nat) : Prop where
  first : (positions tokens stop).head? = some 0
  ascending : (positions tokens stop).Pairwise (· < ·)
  stop_le : stop ≤ cs.length
  flatten : (slices cs (positions tokens stop)).flatten = cs.take stop
  /-- Each slice is one that its token stands for, in view of the text behind it. -/
  covers : List.Forall₂ (fun token piece =>
    token.Covers piece (cs.drop (token.position + piece.length))) tokens
    (slices cs (positions tokens stop))
  /-- Every semicolon so far stands in a literal. -/
  semicolon : ∀ piece ∈ slices cs (positions tokens stop), ';' ∈ piece →
    ∃ text, piece = quotedForm text
  kind : ∀ token ∈ tokens, token.kind ≠ .endOfInput

/-- The token at the end of a query: behind all of it, or at a semicolon. -/
inductive Ends (cs : List Char) : Token → Prop
  | ended : Ends cs (.atEnd cs.length)
  | semicolon {stop : Nat} : cs[stop]? = some ';' → Ends cs ⟨.endOfInput, ";", stop⟩

/-- The error at a place where no token can be read. -/
inductive Stuck (cs : List Char) (stop : Nat) : Error → Prop
  | unexpected {c : Char} : cs[stop]? = some c → ¬ Starts c →
    Stuck cs stop (.unexpectedCharacter c stop)
  /-- A literal is opened, and wherever it might be closed a further quote follows. -/
  | unterminated : cs[stop]? = some '\'' →
    (∀ text after, cs.drop (stop + 1) = doubleQuotes text ++ '\'' :: after →
      after.head? = some '\'') →
    Stuck cs stop (.unterminatedString stop)

/-- The answers to calls for one item after the other, where there are these items. -/
def answers {α : Type} (items : List α) (calls : Nat) : List (Option α) :=
  (List.range calls).map (items[·]?)

/-- The answers to calls for the next item of a stream of tokens. -/
def Cursor.items (c : Cursor) (calls : Nat) : List (Option (Except Error Token)) :=
  (run (fun c (_ : Unit) => c.nextItem) c (List.replicate calls ())).1

/-- The stream of tokens of a query yields these items and then nothing. -/
def Yields (sql : String) (items : List (Except Error Token)) : Prop :=
  ∀ calls, (Cursor.ofText sql).items calls = answers items calls

/-- All tokens of a query tile it up to its end, which the last token tells. -/
def Tiled (sql : String) (all : List Token) : Prop :=
  Yields sql (all.map .ok) ∧ ∃ tokens last, all = tokens ++ [last] ∧ Ends sql.toList last ∧
    Tiles sql.toList tokens last.position

/-- The tokens of a query tile it up to an error, and they are all that the text before the error
consists of. -/
def Blocked (sql : String) (error : Error) : Prop :=
  ∃ tokens stop, Yields sql (tokens.map .ok ++ [.error error]) ∧ Stuck sql.toList stop error ∧
    Tiles sql.toList tokens stop ∧
    (Cursor.ofText (String.ofList (sql.toList.take stop))).tokens.1 =
      .ok (tokens ++ [.atEnd stop])

/-! ## Cutting a text -/

/-- A text that begins at a position is cut into the pieces of tokens, up to a place behind which
the rest is left. -/
inductive Cut : Nat → List Char → List (Token × List Char) → Nat → List Char → Prop
  | nil (stop : Nat) (left : List Char) : Cut stop left [] stop left
  | cons {token : Token} {piece after left : List Char} {pieces : List (Token × List Char)}
    {stop : Nat} : token.Covers piece after →
    Cut (token.position + piece.length) after pieces stop left →
    Cut token.position (piece ++ after) ((token, piece) :: pieces) stop left

variable {position stop : Nat} {cs left : List Char} {pieces : List (Token × List Char)}

/-- Every text is cut as far as tokens can be read. -/
theorem exists_cut (position : Nat) (cs : List Char) :
    ∃ pieces stop left, Cut position cs pieces stop left ∧
      Halts stop left (lexeme stop left).token := by
  induction hn : cs.length using Nat.strongRecOn generalizing position cs with
  | ind n ih =>
    rcases lexeme_cases position cs with ⟨token, piece, after, rfl, rfl, hcovers⟩ | hhalts
    · have hlt : after.length < n := by
        have := List.length_pos_iff.2 hcovers.ne_nil
        rw [List.length_append] at hn
        omega
      obtain ⟨pieces, stop, left, hcut, hhalts⟩ := ih _ hlt _ after rfl
      exact ⟨(token, piece) :: pieces, stop, left, .cons hcovers hcut, hhalts⟩
    · exact ⟨[], position, cs, .nil position cs, hhalts⟩

namespace Cut

theorem flatten (h : Cut position cs pieces stop left) :
    cs = (pieces.map Prod.snd).flatten ++ left := by
  induction h with
  | nil => rfl
  | cons _ _ ih => rw [List.map_cons, List.flatten_cons, List.append_assoc, ← ih]

theorem stop_eq (h : Cut position cs pieces stop left) :
    stop = position + (pieces.map Prod.snd).flatten.length := by
  induction h with
  | nil => rfl
  | cons _ _ ih =>
    rw [List.map_cons, List.flatten_cons, List.length_append]
    dsimp only
    omega

/-- What is left can be cut off. -/
theorem take (h : Cut position cs pieces stop left) :
    Cut position (pieces.map Prod.snd).flatten pieces stop [] := by
  induction h with
  | nil stop => exact .nil stop []
  | @cons token piece after left pieces stop hcovers hcut ih =>
    have hprefix := List.prefix_append (pieces.map Prod.snd).flatten left
    rw [← hcut.flatten] at hprefix
    exact .cons (hcovers.take hprefix) ih

theorem exists_covers (h : Cut position cs pieces stop left) :
    ∀ entry ∈ pieces, ∃ after, entry.1.Covers entry.2 after := by
  induction h with
  | nil => exact nofun
  | cons hcovers _ ih => exact List.forall_mem_cons.2 ⟨⟨_, hcovers⟩, ih⟩

/-- A cursor hands out the tokens, and then what it hands out behind them. -/
theorem drain (h : Cut position cs pieces stop left) :
    ∃ c : Cursor, c.rest = left ∧ c.position = stop ∧
      (Cursor.drain { rest := cs, position }).1 = pieces.map Prod.fst ++ c.drain.1 ∧
      (Cursor.drain { rest := cs, position }).2.1 = c.drain.2.1 := by
  induction h with
  | nil => exact ⟨_, rfl, rfl, rfl, rfl⟩
  | @cons token piece after left pieces stop hcovers _ ih =>
    obtain ⟨c, hrest, hposition, htokens, herror⟩ := ih
    have hnext : Cursor.next { rest := piece ++ after, position := token.position } =
        (.ok token, { rest := after, position := token.position + piece.length }) := by
      unfold Cursor.next
      dsimp only
      rw [lexeme_of_covers hcovers]
    refine ⟨c, hrest, hposition, ?_, ?_⟩ <;> rw [drain_of_next hnext hcovers.kind_ne]
    · exact congrArg (token :: ·) htokens
    · exact herror

/-! ### Where the tokens stand -/

theorem head?_positions (h : Cut position cs pieces stop left) :
    (positions (pieces.map Prod.fst) stop).head? = some position := by
  cases h <;> rfl

theorem ascending (h : Cut position cs pieces stop left) :
    (positions (pieces.map Prod.fst) stop).Pairwise (· < ·) := by
  induction h with
  | nil stop => exact List.pairwise_singleton _ stop
  | @cons token piece _ _ pieces stop hcovers hcut ih =>
    obtain ⟨rest, hrest⟩ := List.head?_eq_some_iff.1 hcut.head?_positions
    have hpos := List.length_pos_iff.2 hcovers.ne_nil
    show List.Pairwise (· < ·) (token.position :: positions (pieces.map Prod.fst) stop)
    rw [List.pairwise_cons]
    refine ⟨fun place hm => ?_, ih⟩
    rw [hrest] at hm ih
    rcases List.mem_cons.1 hm with rfl | hm
    · omega
    · have := (List.pairwise_cons.1 ih).1 place hm
      omega

/-- The slices between the positions of the tokens are their pieces. -/
theorem slices_eq (h : Cut position cs pieces stop left) {whole : List Char}
    (hw : whole.drop position = cs) :
    slices whole (positions (pieces.map Prod.fst) stop) = pieces.map Prod.snd := by
  induction h with
  | nil => rfl
  | @cons token piece after _ pieces stop _ hcut ih =>
    obtain ⟨rest, hrest⟩ := List.head?_eq_some_iff.1 hcut.head?_positions
    have hafter : whole.drop (token.position + piece.length) = after := by
      rw [← List.drop_drop, hw, List.drop_left]
    have hpiece : whole.extract token.position (token.position + piece.length) = piece := by
      rw [List.extract_eq_take_drop, hw, Nat.add_sub_cancel_left, List.take_left]
    have hslices := ih hafter
    have hpositions : positions (List.map Prod.fst ((token, piece) :: pieces)) stop =
        token.position :: (token.position + piece.length) :: rest := by
      rw [← hrest]
      rfl
    rw [hrest] at hslices
    rw [hpositions, List.map_cons, ← hslices]
    exact congrArg (· :: _) hpiece

theorem covers (h : Cut position cs pieces stop left) {whole : List Char}
    (hw : whole.drop position = cs) :
    List.Forall₂ (fun (token : Token) piece =>
      token.Covers piece (whole.drop (token.position + piece.length)))
      (pieces.map Prod.fst) (pieces.map Prod.snd) := by
  induction h with
  | nil => exact .nil
  | @cons token piece after _ _ _ hcovers _ ih =>
    have hafter : whole.drop (token.position + piece.length) = after := by
      rw [← List.drop_drop, hw, List.drop_left]
    exact .cons (hafter.symm ▸ hcovers) (ih hafter)

end Cut

/-- Only quotes hide a semicolon. -/
theorem Token.Covers.quoted_of_mem {token : Token} {piece after : List Char}
    (h : token.Covers piece after) (hm : ';' ∈ piece) : ∃ text, piece = quotedForm text := by
  have hword (hleads : Leads piece after) : False :=
    Bool.false_ne_true (hleads.chars ';' hm)
  cases h with
  | identifier _ _ _ _ hlongest | keyword _ _ _ hlongest | dataType _ _ _ hlongest =>
    exact (hword hlongest.leads).elim
  | number _ _ hnumber =>
    cases hnumber.1 with
    | whole hdigits => exact absurd (hdigits.2 _ hm) (by decide)
    | pointed hdigits hfraction =>
      rcases List.mem_append.1 hm with hm | hm
      · exact absurd (hdigits.2 _ hm) (by decide)
      · rcases List.mem_cons.1 hm with he | hm
        · exact absurd he (by decide)
        · exact absurd (hfraction.2 _ hm) (by decide)
  | quoted _ hp => exact ⟨_, hp⟩
  | whitespace _ _ hblank => exact absurd (hblank.1.2 _ hm) (by decide)
  | symbol hsymbol _ hp =>
    rw [hp, List.mem_singleton] at hm
    rw [← hm] at hsymbol
    simp [symbols] at hsymbol

/-- The tokens of a text that is cut tile it as far as it is cut. -/
theorem Cut.tiles (h : Cut 0 cs pieces stop left) : Tiles cs (pieces.map Prod.fst) stop := by
  have hwhole : cs.drop 0 = cs := rfl
  have hslices := h.slices_eq hwhole
  have hcovers := h.covers hwhole
  have hstop : stop = (pieces.map Prod.snd).flatten.length := h.stop_eq.trans (Nat.zero_add _)
  have hflatten := h.flatten
  refine ⟨h.head?_positions, h.ascending, ?_, ?_, hslices ▸ hcovers, ?_, ?_⟩
  · rw [hflatten, hstop, List.length_append]
    exact Nat.le_add_right _ _
  · rw [hslices, hstop]
    conv => rhs; rw [hflatten]
    rw [List.take_left]
  · intro piece hm hsemicolon
    rw [hslices] at hm
    obtain ⟨entry, hentry, rfl⟩ := List.mem_map.1 hm
    obtain ⟨after, hcovers⟩ := h.exists_covers entry hentry
    exact hcovers.quoted_of_mem hsemicolon
  · intro token hm
    obtain ⟨entry, hentry, rfl⟩ := List.mem_map.1 hm
    obtain ⟨after, hcovers⟩ := h.exists_covers entry hentry
    exact hcovers.kind_ne

/-! ## What a cursor hands out -/

theorem answers_nil {α : Type} (calls : Nat) :
    answers ([] : List α) calls = List.replicate calls none := by
  simp [answers]

theorem answers_cons {α : Type} (item : α) (items : List α) (calls : Nat) :
    answers (item :: items) (calls + 1) = some item :: answers items calls := by
  simp [answers, List.range_succ_eq_map]

namespace Cursor

variable {c c' : Cursor}

theorem drain_of_end {token : Token} (h : c.next = (.ok token, c'))
    (hk : token.kind = .endOfInput) : c.drain = ([token], none, c') := by
  rw [drain]
  split
  · next e c₁ h₁ => rw [h] at h₁; cases h₁
  · next token₁ c₁ h₁ =>
    obtain ⟨⟨⟩, rfl⟩ := Prod.mk.inj (h.symm.trans h₁)
    rw [dif_pos hk]

theorem drain_of_error {e : Error} (h : c.next = (.error e, c')) : c.drain = ([], some e, c') := by
  rw [drain]
  split
  · next e₁ c₁ h₁ =>
    obtain ⟨⟨⟩, rfl⟩ := Prod.mk.inj (h.symm.trans h₁)
    rfl
  · next token c₁ h₁ => rw [h] at h₁; cases h₁

theorem items_succ (c : Cursor) (calls : Nat) :
    c.items (calls + 1) = c.nextItem.1 :: c.nextItem.2.items calls := by
  unfold items
  rw [List.replicate_succ, run_cons]

theorem items_of_finished (h : c.finished = true) (calls : Nat) :
    c.items calls = List.replicate calls none := by
  induction calls with
  | zero => rfl
  | succ calls ih => rw [items_succ, nextItem, if_pos h, ih, List.replicate_succ]

/-- The items that a cursor hands out up to the end of the query or the first error. -/
def drained (c : Cursor) : List (Except Error Token) :=
  c.drain.1.map .ok ++ c.drain.2.1.toList.map .error

theorem drained_of_error {e : Error} (h : c.next = (.error e, c')) : c.drained = [.error e] := by
  rw [drained, drain_of_error h]
  rfl

theorem drained_of_end {token : Token} (h : c.next = (.ok token, c'))
    (hk : token.kind = .endOfInput) : c.drained = [.ok token] := by
  rw [drained, drain_of_end h hk]
  rfl

theorem drained_of_next {token : Token} (h : c.next = (.ok token, c'))
    (hk : token.kind ≠ .endOfInput) : c.drained = .ok token :: c'.drained := by
  rw [drained, drain_of_next h hk]
  rfl

/-- The stream of tokens yields what there is up to the end of the query or the first error, and
then nothing. -/
theorem items_eq (h : c.finished = false) (calls : Nat) :
    c.items calls = answers c.drained calls := by
  induction calls generalizing c with
  | zero => rfl
  | succ calls ih =>
    rw [items_succ, nextItem, h, if_neg Bool.false_ne_true]
    cases hnext : c.next with
    | mk item c' =>
      have hfinished : c'.finished = false := by
        rw [← h]
        exact (congrArg (·.2.finished) hnext).symm
      cases item with
      | error e =>
        rw [drained_of_error hnext, answers_cons, answers_nil, ← items_of_finished]
        rfl
      | ok token =>
        by_cases hk : token.kind = .endOfInput
        · rw [drained_of_end hnext hk, answers_cons, answers_nil, ← items_of_finished]
          exact decide_eq_true hk
        · rw [drained_of_next hnext hk, answers_cons, ← ih hfinished]
          dsimp only
          rw [decide_eq_false hk, ← hfinished]

end Cursor

/-! ## All of a query -/

theorem Halts.kind {last : Token} (h : Halts stop left (.ok last)) : last.kind = .endOfInput := by
  cases h <;> rfl

/-- A query that is cut for good is read as the tokens of its pieces and what comes behind them. -/
theorem Cut.tokens {sql : String} (h : Cut 0 sql.toList pieces stop left)
    (hhalts : Halts stop left (lexeme stop left).token) :
    (Cursor.ofText sql).drained =
        (pieces.map Prod.fst).map .ok ++ [(lexeme stop left).token] ∧
      (Cursor.ofText sql).tokens.1 =
        (lexeme stop left).token.map (pieces.map Prod.fst ++ [·]) := by
  obtain ⟨c, rfl, rfl, htokens, herror⟩ := h.drain
  have hnext : c.next = ((lexeme c.position c.rest).token, c.next.2) := rfl
  unfold Cursor.drained Cursor.tokens
  rw [show (Cursor.ofText sql).drain =
    (pieces.map Prod.fst ++ c.drain.1, c.drain.2.1, (Cursor.ofText sql).drain.2.2) from
    Prod.ext htokens (Prod.ext herror rfl)]
  cases hitem : (lexeme c.position c.rest).token with
  | error e =>
    rw [hitem] at hnext
    rw [Cursor.drain_of_error hnext]
    exact ⟨by simp, rfl⟩
  | ok last =>
    rw [hitem] at hnext hhalts
    rw [Cursor.drain_of_end hnext hhalts.kind]
    exact ⟨by simp, rfl⟩

/-- Where a query is cut for good it has its end. -/
theorem ends_of_halts {last : Token} (h : Halts stop left (.ok last)) (hdrop : cs.drop stop = left)
    (hle : stop ≤ cs.length) : Ends cs last ∧ last.position = stop := by
  cases h with
  | ended =>
    obtain rfl : cs.length = stop := Nat.le_antisymm (List.drop_eq_nil_iff.1 hdrop) hle
    exact ⟨.ended, rfl⟩
  | semicolon after => exact ⟨.semicolon (by rw [← List.head?_drop, hdrop]; rfl), rfl⟩

/-- Or it has an error there. -/
theorem stuck_of_halts {e : Error} (h : Halts stop left (.error e)) (hdrop : cs.drop stop = left) :
    Stuck cs stop e := by
  cases h with
  | unexpected after hstarts => exact .unexpected (by rw [← List.head?_drop, hdrop]; rfl) hstarts
  | unterminated hopen =>
    refine .unterminated (by rw [← List.head?_drop, hdrop]; rfl) ?_
    rw [← List.drop_drop, hdrop]
    exact hopen

/-- Every query is tiled by its tokens, up to its end or to an error. -/
theorem cut_into_tokens (sql : String) :
    match (Cursor.ofText sql).tokens.1 with
    | .ok tokens => Tiled sql tokens
    | .error error => Blocked sql error := by
  obtain ⟨pieces, stop, left, hcut, hhalts⟩ := exists_cut 0 sql.toList
  obtain ⟨hdrained, htokens⟩ := hcut.tokens hhalts
  have htiles := hcut.tiles
  have hyields : Yields sql ((pieces.map Prod.fst).map .ok ++ [(lexeme stop left).token]) := by
    intro calls
    rw [← hdrained]
    exact Cursor.items_eq rfl calls
  -- the pieces are what stands before the place where the query is cut for good
  have hstop : stop = (pieces.map Prod.snd).flatten.length := hcut.stop_eq.trans (Nat.zero_add _)
  have hdrop : sql.toList.drop stop = left := by
    rw [hcut.flatten, hstop, List.drop_left]
  have hbefore : sql.toList.take stop = (pieces.map Prod.snd).flatten := by
    rw [hcut.flatten, hstop, List.take_left]
  rw [htokens]
  cases hitem : (lexeme stop left).token with
  | ok last =>
    rw [hitem] at hhalts hyields
    obtain ⟨hends, rfl⟩ := ends_of_halts hhalts hdrop htiles.stop_le
    refine ⟨?_, pieces.map Prod.fst, last, rfl, hends, htiles⟩
    rwa [List.map_append]
  | error e =>
    rw [hitem] at hhalts hyields
    refine ⟨pieces.map Prod.fst, stop, hyields, stuck_of_halts hhalts hdrop, htiles, ?_⟩
    have hcut' : Cut 0 (String.ofList (sql.toList.take stop)).toList pieces stop [] := by
      rw [String.toList_ofList, hbefore]
      exact hcut.take
    exact (hcut'.tokens .ended).2

end RelStore.Sql
