import Mathlib.Tactic.SplitIfs
import RelStore.Sql.Statement.Opening

/-!
# Names are words

A statement that was read names its table by an identifier of the query, and so by a word:
letters, numerals and underscores alone (`isWord_table`). No such name has a slash, a dot, a
line feed or a NUL in it.
-/

namespace RelStore.Sql

/-- A name of letters, numerals and underscores. -/
def IsWord (name : String) : Prop :=
  name.toList ≠ [] ∧ ∀ c ∈ name.toList, Text.isWordChar c = true

theorem IsWord.not_mem {name : String} (h : IsWord name) {c : Char}
    (hc : Text.isWordChar c = false) : c ∉ name.toList := fun hm =>
  Bool.false_ne_true (hc.symm.trans (h.2 c hm))

/-! ## Tokens -/

/-- An item that is a word if it is an identifier. -/
def Sound (item : Except Error Token) : Prop :=
  ∀ token, item = .ok token → token.kind = .identifier → IsWord token.text

theorem sound_lexeme (position : Nat) (cs : List Char) : Sound (lexeme position cs).token := by
  intro token
  fun_cases lexeme position cs with
  | case2 c cs hc more =>
    intro h hkind
    obtain rfl := Except.ok.inj h
    have hw : IsWord (String.ofList (c :: more)) := by
      rw [IsWord, String.toList_ofList]
      refine ⟨List.cons_ne_nil _ _, List.forall_mem_cons.2 ⟨Text.isWordChar_of_isAlphabetic hc, ?_⟩⟩
      exact List.all_eq_true.1 List.all_takeWhile
    unfold Token.ofWord at hkind ⊢
    dsimp only at hkind ⊢
    split_ifs at hkind ⊢
    exact hw
  | case5 c cs _ _ _ kind hsymbol =>
    intro h hkind
    obtain rfl := Except.ok.inj h
    obtain rfl : kind = .identifier := hkind
    unfold symbolKind? at hsymbol
    split at hsymbol <;> cases hsymbol
  | _ => intro h hkind; cases h <;> cases hkind

theorem sound_next (c : Cursor) : Sound c.next.1 := sound_lexeme _ _

/-- A feed all of whose items are sound. -/
def Feed.Sound (feed : Feed) : Prop := (∀ item ∈ feed.ahead, Sql.Sound item) ∧ Sql.Sound feed.last

theorem Feed.sound_ofCursor (c : Cursor) : (Feed.ofCursor c).Sound := by
  fun_induction Feed.ofCursor c with
  | case1 c item c' h _ => exact ⟨by simp, by have := sound_next c; rwa [h] at this⟩
  | case2 c item c' h _ feed ih =>
    have hs := sound_next c
    rw [h] at hs
    exact ⟨List.forall_mem_cons.2 ⟨hs, ih.1⟩, ih.2⟩

theorem Feed.sound_ofText (sql : String) : (Feed.ofText sql).Sound :=
  have h := Feed.sound_ofCursor (.ofText sql)
  ⟨fun item hi => h.1 item (List.mem_filter.1 hi).1, h.2⟩

theorem Feed.sound_of_next {feed feed' : Feed} {item : Except Error Token} (h : feed.Sound)
    (hn : feed.next = (item, feed')) : Sql.Sound item ∧ feed'.Sound := by
  unfold Feed.next at hn
  split at hn
  · obtain ⟨rfl, rfl⟩ := Prod.mk.inj hn
    exact ⟨h.2, h⟩
  · next item' ahead ha =>
    obtain ⟨rfl, rfl⟩ := Prod.mk.inj hn
    rw [Feed.Sound, ha, List.forall_mem_cons] at h
    exact ⟨h.1.1, h.1.2, h.2⟩

/-! ## Steps of a reader -/

namespace Reader

theorem bind_ok {α β : Type} {m : Read α} {f : α → Read β} {r r' : Reader} {b : β}
    (h : (m >>= f) r = .ok b r') : ∃ a between, m r = .ok a between ∧ f a between = .ok b r' := by
  change EStateM.bind m f r = _ at h
  unfold EStateM.bind at h
  split at h
  · next a between ha => exact ⟨a, between, ha, h⟩
  · cases h

/-- A reader whose token and feed are sound. -/
def Sound (r : Reader) : Prop := Sql.Sound (.ok r.current) ∧ r.feed.Sound

/-- A step that leaves a sound reader sound. -/
def Keeps {α : Type} (m : Read α) : Prop :=
  ∀ ⦃r : Reader⦄ ⦃a : α⦄ ⦃r' : Reader⦄, r.Sound → m r = .ok a r' → r'.Sound

variable {α β : Type}

theorem Keeps.pure (a : α) : Keeps (pure a) := fun _ _ _ hs h => by cases h; exact hs

theorem Keeps.bind {m : Read α} {f : α → Read β} (hm : Keeps m) (hf : ∀ a, Keeps (f a)) :
    Keeps (m >>= f) := fun _ _ _ hs h =>
  have ⟨a, _, ha, hb⟩ := bind_ok h
  hf a (hm hs ha) hb

theorem Keeps.get : Keeps get := fun _ _ _ hs h => by cases h; exact hs

theorem Keeps.unexpected (expected : String) : Keeps (unexpected expected : Read α) :=
  fun _ _ _ _ h => by cases h

theorem Keeps.advance : Keeps advance := by
  intro r token r' hs h
  unfold Reader.advance at h
  split at h
  · next item feed hn =>
    cases h
    exact Feed.sound_of_next hs.2 hn
  · cases h

theorem Keeps.expect (kind : TokenKind) (text : Option String) : Keeps (expect kind text) := by
  refine Keeps.get.bind fun r => ?_
  split_ifs
  · exact .advance
  · exact .unexpected _

theorem Keeps.accept (kind : TokenKind) (text : Option String) : Keeps (accept kind text) := by
  refine Keeps.get.bind fun r => ?_
  split_ifs
  · exact Keeps.advance.bind fun _ => .pure _
  · exact .pure _

theorem Keeps.keyword (word : String) : Keeps (keyword word) :=
  (Keeps.expect ..).bind fun _ => .pure _

theorem Keeps.identifier : Keeps identifier := (Keeps.expect ..).bind fun _ => .pure _

theorem Keeps.repeatUpTo {step : β → Read (Option β)} (h : ∀ b, Keeps (step b)) (bound : Nat)
    (b : β) : Keeps (repeatUpTo step bound b) := by
  induction bound generalizing b with
  | zero => exact .pure b
  | succ bound ih =>
    refine (h b).bind fun next => ?_
    cases next with
    | none => exact .pure b
    | some b => exact ih b

theorem Keeps.separated {item : β → Read β} (h : ∀ b, Keeps (item b)) (b : β) :
    Keeps (separated item b) := by
  refine (h b).bind fun first => Keeps.get.bind fun r => .repeatUpTo (fun b => ?_) _ _
  refine (Keeps.accept ..).bind fun more => ?_
  split_ifs
  · exact (h b).bind fun _ => .pure _
  · exact .pure _

theorem Keeps.identifiers : Keeps identifiers :=
  .separated (fun _ => Keeps.identifier.bind fun _ => .pure _) _

theorem isWord_identifier {r r' : Reader} {name : String} (hs : r.Sound)
    (h : identifier r = .ok name r') : IsWord name := by
  obtain ⟨token, between, he, hn⟩ := bind_ok h
  cases hn
  obtain ⟨_, _, hg, he⟩ := bind_ok he
  cases hg
  split_ifs at he with hk
  · have ht : r.current = token := by
      unfold Reader.advance at he
      split at he
      · cases he; rfl
      · cases he
    subst ht
    rw [Token.is, Bool.and_eq_true, beq_iff_eq] at hk
    exact hs.1 _ rfl hk.1
  · cases he

/-! ## Statements and their tables -/

/-- A step that makes statements on one table. -/
def Names (table : String) (m : Read Statement) : Prop :=
  ∀ ⦃r : Reader⦄ ⦃s : Statement⦄ ⦃r' : Reader⦄, m r = .ok s r' → s.table = table

theorem Names.bind {table : String} {m : Read α} {f : α → Read Statement}
    (h : ∀ a, Names table (f a)) : Names table (m >>= f) := fun _ _ _ hs =>
  have ⟨a, _, _, hb⟩ := bind_ok hs
  h a hb

theorem Names.statement (table : String) (action : Action) : Names table (statement table action) :=
  fun _ _ _ h => by cases h; rfl

/-- An identifier is read, and then a statement on the table of this name. -/
theorem isWord_of_names {f : String → Read Statement} {r r' : Reader} {s : Statement}
    (hs : r.Sound) (hf : ∀ name, Names name (f name)) (h : (identifier >>= f) r = .ok s r') :
    IsWord s.table := by
  obtain ⟨name, _, hi, h⟩ := bind_ok h
  exact hf name h ▸ isWord_identifier hs hi

variable {r r' : Reader} {s : Statement}

theorem isWord_insert (hs : r.Sound) (h : insert r = .ok s r') : IsWord s.table := by
  obtain ⟨_, r₁, h₁, h⟩ := bind_ok h
  obtain ⟨_, r₂, h₂, h⟩ := bind_ok h
  refine isWord_of_names (Keeps.keyword _ (Keeps.keyword _ hs h₁) h₂) (fun name => ?_) h
  refine .bind fun columns => ?_
  have hrest : ∀ values : List String, Names name (do
      if columns.length ≠ values.length then
        throw (.argumentCountMismatch columns.length values.length)
      statement name (.insert columns values)) := fun values => by
    split_ifs
    · exact .bind fun _ => .statement ..
    · exact .statement ..
  cases firstRepeated? [] columns with
  | none => exact .bind fun _ => .bind fun values => .bind fun _ => hrest values
  | some column => exact .bind fun _ => .bind fun _ => .bind fun values => .bind fun _ => hrest values

theorem isWord_select (hs : r.Sound) (h : select r = .ok s r') : IsWord s.table := by
  obtain ⟨_, r₁, h₁, h⟩ := bind_ok h
  obtain ⟨_, r₂, h₂, h⟩ := bind_ok h
  obtain ⟨_, r₃, h₃, h⟩ := bind_ok h
  refine isWord_of_names (Keeps.keyword _ (Keeps.identifiers (Keeps.keyword _ hs h₁) h₂) h₃)
    (fun name => ?_) h
  exact .bind fun _ => .bind fun _ => .statement ..

theorem isWord_delete (hs : r.Sound) (h : delete r = .ok s r') : IsWord s.table := by
  obtain ⟨_, r₁, h₁, h⟩ := bind_ok h
  obtain ⟨_, r₂, h₂, h⟩ := bind_ok h
  refine isWord_of_names (Keeps.keyword _ (Keeps.keyword _ hs h₁) h₂) (fun name => ?_) h
  exact .bind fun _ => .bind fun _ => .statement ..

theorem isWord_update (hs : r.Sound) (h : update r = .ok s r') : IsWord s.table := by
  obtain ⟨_, r₁, h₁, h⟩ := bind_ok h
  refine isWord_of_names (Keeps.keyword _ hs h₁) (fun name => ?_) h
  exact .bind fun _ => .bind fun _ => .bind fun _ => .bind fun _ => .statement ..

theorem isWord_createTable (hs : r.Sound) (h : createTable r = .ok s r') : IsWord s.table := by
  obtain ⟨_, r₁, h₁, h⟩ := bind_ok h
  obtain ⟨_, r₂, h₂, h⟩ := bind_ok h
  refine isWord_of_names (Keeps.keyword _ (Keeps.keyword _ hs h₁) h₂) (fun name => ?_) h
  exact .bind fun _ => .bind fun _ => .statement ..

end Reader

theorem sound_ofText {sql : String} {r : Reader} (h : Reader.ofText sql = .ok r) : r.Sound := by
  unfold Reader.ofText at h
  split at h
  · next token feed hn =>
    obtain rfl := Except.ok.inj h
    exact Feed.sound_of_next (Feed.sound_ofText sql) hn
  · cases h

/-- The table of a statement that was read is named by a word. -/
theorem isWord_table {sql : String} {s : Statement} (h : Statement.ofText sql = .ok s) :
    IsWord s.table := by
  unfold Statement.ofText at h
  cases ho : Opening.ofText sql with
  | error e => rw [ho] at h; cases h
  | ok opening =>
    cases hr : Reader.ofText sql with
    | error e => rw [ho, hr] at h; cases h
    | ok r =>
      have hs := sound_ofText hr
      rw [ho, hr] at h
      dsimp only [bind, Except.bind] at h
      split at h
      · next statement r' hread =>
        obtain rfl := Except.ok.inj h
        cases opening with
        | insert => exact Reader.isWord_insert hs hread
        | select => exact Reader.isWord_select hs hread
        | update => exact Reader.isWord_update hs hread
        | delete => exact Reader.isWord_delete hs hread
        | createTable => exact Reader.isWord_createTable hs hread
      · cases h

end RelStore.Sql
