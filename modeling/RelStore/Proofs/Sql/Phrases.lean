import RelStore.Proofs.OrderedMap
import RelStore.Proofs.Sql.Reading

/-!
# The phrases inside statements

What the steps for the parts of a statement read: lists of names and of literals, a WHERE
clause, assignments, and the elements of a CREATE TABLE. Each part has a lemma for what was
taken and one for what is read where its phrase is in front of the reader.
-/

namespace RelStore.Sql

open Grammar

namespace Reader

variable {α β ι : Type} {r r' : Reader}

/-! ## Tokens with a text -/

theorem at_literal_iff {value : String} :
    r.At (.literal value) ↔ r.current.is .literal none = true ∧ r.current.text = value := by
  obtain ⟨-, ⟨kind, text, position⟩, -⟩ := r
  cases kind <;> simp [At, Token.is, Token.symbol?]

theorem at_dataType_iff {type : DataType} :
    r.At (.dataType type) ↔
      r.current.is .dataType none = true ∧ DataType.ofWord? r.current.text = some type := by
  obtain ⟨-, ⟨kind, text, position⟩, -⟩ := r
  cases kind <;> simp [At, Token.is, Token.symbol?]

theorem At.text_of_equals (h : r.At .equals) : r.current.text = "=" := by
  have hs := (stands_equals r.current).2 h
  rw [Token.is, Bool.and_eq_true, Option.all_some, beq_iff_eq] at hs
  exact (beq_iff_eq.1 hs.2).symm

/-! ## Lists -/

theorem foldlM_ite {P : ι → Prop} [DecidablePred P] {f : β → ι → β} {items : List ι} {b b' : β} :
    items.foldlM (fun b i => if P i then some (f b i) else none) b = some b' ↔
      (∀ i ∈ items, P i) ∧ items.foldl f b = b' := by
  induction items generalizing b with
  | nil => simp
  | cons i items ih =>
    rw [List.foldlM_cons, List.forall_mem_cons, List.foldl_cons]
    by_cases hi : P i
    · rw [if_pos hi]; simpa [hi] using ih
    · rw [if_neg hi]; simp [hi]

theorem foldlM_append_singleton {as items bs : List α} :
    items.foldlM (fun as a => some (as ++ [a])) as = some bs ↔ as ++ items = bs := by
  induction items generalizing as with
  | nil => simp
  | cons i items ih =>
    rw [List.foldlM_cons]
    exact ih.trans (by rw [List.append_assoc, List.singleton_append])

/-- A step that returns what it reads, in a list of such steps. -/
theorem adds_append {item : Read α} {phrase : α → List Symbol}
    (h : ∀ {a r r'}, item r = .ok a r' ↔ Takes r (phrase a) r') :
    Adds (fun as => return as ++ [← item]) phrase (fun as a => some (as ++ [a])) [] where
  takes hs := by
    obtain ⟨a, r₁, hi, hs⟩ := bind_eq_ok.1 hs
    obtain ⟨rfl, rfl⟩ := pure_eq_ok.1 hs
    exact ⟨a, h.1 hi, rfl⟩
  reads _ ht ha _ := bind_of_ok (h.2 ht) (pure_eq_ok.2 ⟨Option.some.inj ha, rfl⟩)
  apart := List.not_mem_nil

theorem takes_parenthesized_iff {xs : List Symbol} :
    Takes r (Grammar.parenthesized xs) r' ↔
      ∃ r₁ r₂, Takes r [.openParen] r₁ ∧ Takes r₁ xs r₂ ∧ Takes r₂ [.closeParen] r' := by
  rw [Grammar.parenthesized, takes_cons_iff_singleton]
  simp only [takes_append_iff]
  constructor
  · rintro ⟨r₁, h₁, r₂, h₂, h₃⟩; exact ⟨r₁, r₂, h₁, h₂, h₃⟩
  · rintro ⟨r₁, r₂, h₁, h₂, h₃⟩; exact ⟨r₁, h₁, r₂, h₂, h₃⟩

section Items

variable {item : Read α} {phrase : α → List Symbol} {as : List α}

theorem takes_of_items (h : ∀ {a r r'}, item r = .ok a r' ↔ Takes r (phrase a) r')
    (hs : separated (fun as => return as ++ [← item]) [] r = .ok as r') :
    as ≠ [] ∧ Takes r (listed (as.map phrase)) r' := by
  obtain ⟨items, hne, ht, hf⟩ := (adds_append h).takes_of_separated hs
  obtain rfl := foldlM_append_singleton.1 hf
  exact ⟨hne, ht⟩

theorem items_of_takes (h : ∀ {a r r'}, item r = .ok a r' ↔ Takes r (phrase a) r')
    (hr : r.Ends) (hne : as ≠ []) (ht : Takes r (listed (as.map phrase)) r')
    (hclear : r'.Clear [.comma]) :
    separated (fun as => return as ++ [← item]) [] r = .ok as r' :=
  (adds_append h).separated_of_takes hr hne ht (foldlM_append_singleton.2 rfl) hclear

theorem takes_of_parenthesized_items (h : ∀ {a r r'}, item r = .ok a r' ↔ Takes r (phrase a) r')
    (hs : parenthesized (separated (fun as => return as ++ [← item]) []) r = .ok as r') :
    as ≠ [] ∧ Takes r (Grammar.parenthesized (listed (as.map phrase))) r' := by
  obtain ⟨r₁, r₂, h₁, h₂, h₃⟩ := parenthesized_iff.1 hs
  obtain ⟨hne, h₂⟩ := takes_of_items h h₂
  exact ⟨hne, takes_parenthesized_iff.2 ⟨r₁, r₂, h₁, h₂, h₃⟩⟩

theorem parenthesized_items_of_takes (h : ∀ {a r r'}, item r = .ok a r' ↔ Takes r (phrase a) r')
    (hr : r.Ends) (hne : as ≠ [])
    (ht : Takes r (Grammar.parenthesized (listed (as.map phrase))) r') :
    parenthesized (separated (fun as => return as ++ [← item]) []) r = .ok as r' := by
  obtain ⟨r₁, r₂, h₁, h₂, h₃⟩ := takes_parenthesized_iff.1 ht
  exact parenthesized_iff.2
    ⟨r₁, r₂, h₁, items_of_takes h (h₁.ends hr) hne h₂ (h₃.clear (by simp)), h₃⟩

end Items

theorem parenthesized_identifier_iff {name : String} :
    parenthesized identifier r = .ok name r' ↔
      Takes r (Grammar.parenthesized [.identifier name]) r' := by
  rw [parenthesized_iff, takes_parenthesized_iff]
  simp only [identifier_iff]

/-! ## WHERE and SET -/

theorem equals_bind_iff {f : Token → Read β} {b : β} :
    (expect .operator (some "=") >>= f) r = .ok b r' ↔
      ∃ r₁, Takes r [.equals] r₁ ∧ f r.current r₁ = .ok b r' := by
  simp only [bind_eq_ok, expect_iff stands_equals]
  constructor
  · rintro ⟨_, r₁, ⟨rfl, h⟩, hf⟩; exact ⟨r₁, h, hf⟩
  · rintro ⟨r₁, h, hf⟩; exact ⟨_, r₁, ⟨rfl, h⟩, hf⟩

theorem takes_comparison_iff {column value : String} :
    Takes r (comparison column value) r' ↔ ∃ r₁ r₂, Takes r [.identifier column] r₁ ∧
      Takes r₁ [.equals] r₂ ∧ Takes r₂ [.literal value] r' := by
  rw [comparison, takes_cons_iff_singleton]
  constructor
  · rintro ⟨r₁, h₁, h⟩
    obtain ⟨r₂, h₂, h₃⟩ := takes_cons_iff_singleton.1 h
    exact ⟨r₁, r₂, h₁, h₂, h₃⟩
  · rintro ⟨r₁, r₂, h₁, h₂, h₃⟩
    exact ⟨r₁, h₁, takes_cons_iff_singleton.2 ⟨r₂, h₂, h₃⟩⟩

theorem takes_of_condition {c : Option Condition} (h : condition r = .ok c r') :
    (∀ condition ∈ c, condition.operator = "=") ∧ Takes r (whereClause c) r' := by
  rcases (accept_bind_iff (stands_keyword "WHERE")).1 h with ⟨r₁, hw, h⟩ | ⟨-, h⟩
  · obtain ⟨column, r₂, hc, h⟩ := bind_eq_ok.1 h
    obtain ⟨r₃, he, h⟩ := equals_bind_iff.1 h
    obtain ⟨value, r₄, hv, h⟩ := bind_eq_ok.1 h
    obtain ⟨rfl, rfl⟩ := pure_eq_ok.1 h
    refine ⟨?_, takes_cons_iff_singleton.2 ⟨r₁, hw, takes_comparison_iff.2
      ⟨r₂, r₃, identifier_iff.1 hc, he, literal_iff.1 hv⟩⟩⟩
    rintro _ ⟨⟩
    exact he.at.text_of_equals
  · obtain ⟨rfl, rfl⟩ := pure_eq_ok.1 h
    exact ⟨nofun, .nil r⟩

theorem condition_of_takes {c : Option Condition} (hc : ∀ condition ∈ c, condition.operator = "=")
    (h : Takes r (whereClause c) r') (hclear : r'.Clear [.keyword "WHERE"]) :
    condition r = .ok c r' := by
  refine (accept_bind_iff (stands_keyword "WHERE")).2 ?_
  cases c with
  | none =>
    obtain rfl := takes_nil_iff.1 h
    exact .inr ⟨hclear _ List.mem_cons_self, rfl⟩
  | some c =>
    obtain ⟨column, operator, value⟩ := c
    obtain rfl : operator = "=" := hc _ rfl
    obtain ⟨r₁, hw, h⟩ := takes_cons_iff_singleton.1 h
    obtain ⟨r₂, r₃, hcolumn, he, hv⟩ := takes_comparison_iff.1 h
    refine .inl ⟨r₁, hw, bind_of_ok (identifier_iff.2 hcolumn) (equals_bind_iff.2 ⟨r₃, he, ?_⟩)⟩
    exact bind_of_ok (literal_iff.2 hv) (pure_eq_ok.2 ⟨by rw [he.at.text_of_equals], rfl⟩)

/-- An assignment, added where its column has no value yet. -/
def assign? (row : Row) (pair : String × String) : Option Row :=
  if row.contains pair.1 then none else some (row.insert pair.1 pair.2)

theorem foldlM_assign? {pairs : List (String × String)} {row row' : Row} :
    pairs.foldlM assign? row = some row' ↔
      ((row.entries ++ pairs).map Prod.fst).Nodup ∧ row.insertMany pairs = row' := by
  induction pairs generalizing row with
  | nil => simp [OrderedMap.insertMany, row.nodup]
  | cons pair pairs ih =>
    rw [List.foldlM_cons, assign?]
    split_ifs with hc
    · have hk := OrderedMap.contains_iff.1 hc
      refine ⟨nofun, fun ⟨h, _⟩ => ?_⟩
      rw [List.map_append, List.map_cons] at h
      exact absurd rfl ((List.nodup_append.1 h).2.2 _ hk _ List.mem_cons_self)
    · have hk : pair.1 ∉ row.keys := fun hk => hc (OrderedMap.contains_iff.2 hk)
      refine ih.trans ?_
      rw [OrderedMap.entries_insert hk, List.append_assoc]
      exact Iff.rfl

theorem adds_assignment :
    Adds assignment (fun pair : String × String => comparison pair.1 pair.2) assign? [] where
  takes hs := by
    obtain ⟨column, r₁, hc, hs⟩ := bind_eq_ok.1 hs
    obtain ⟨r₂, he, hs⟩ := equals_bind_iff.1 hs
    obtain ⟨value, r₃, hv, hs⟩ := bind_eq_ok.1 hs
    refine ⟨(column, value), ?_⟩
    split_ifs at hs with hk
    · cases hs
    · obtain ⟨rfl, rfl⟩ := pure_eq_ok.1 hs
      exact ⟨takes_comparison_iff.2 ⟨r₁, r₂, identifier_iff.1 hc, he, literal_iff.1 hv⟩,
        if_neg hk⟩
  reads := by
    intro row row' pair r r' _ ht ha _
    obtain ⟨r₁, r₂, hc, he, hv⟩ := takes_comparison_iff.1 ht
    refine bind_of_ok (identifier_iff.2 hc) (equals_bind_iff.2 ⟨r₂, he, ?_⟩)
    refine bind_of_ok (literal_iff.2 hv) ?_
    unfold assign? at ha
    split_ifs at ha with hk
    obtain rfl := Option.some.inj ha
    rw [if_neg hk]
    rfl
  apart := List.not_mem_nil

/-! ## Elements of a CREATE TABLE -/

theorem takes_of_columnSize {size : Option UInt32} (h : columnSize r = .ok size r') :
    ∃ literal : Option String,
      Takes r (literal.toList.flatMap fun text => Grammar.parenthesized [.literal text]) r' ∧
      (∀ text ∈ literal, (size? text).isSome) ∧ size = literal.bind size? := by
  rcases (accept_bind_iff stands_openParen).1 h with ⟨r₁, ho, h⟩ | ⟨-, h⟩
  · obtain ⟨token, r₂, ht, h⟩ := bind_eq_ok.1 h
    obtain ⟨hk, rfl, ha⟩ := expect_eq_ok.1 ht
    have hl : Takes r₁ [.literal r₁.current.text] r₂ :=
      .cons (at_literal_iff.2 ⟨hk, rfl⟩) ha (.nil r₂)
    cases hn : size? r₁.current.text with
    | none => rw [hn] at h; cases h
    | some n =>
      rw [hn] at h
      obtain ⟨_, r₃, hc, h⟩ := bind_eq_ok.1 h
      obtain ⟨rfl, rfl⟩ := pure_eq_ok.1 h
      refine ⟨some r₁.current.text, ?_, ?_, ?_⟩
      · simpa using takes_parenthesized_iff.2
          ⟨r₁, r₂, ho, hl, ((expect_iff stands_closeParen).1 hc).2⟩
      · rintro _ ⟨⟩
        rw [hn]; rfl
      · exact hn.symm
  · obtain ⟨rfl, rfl⟩ := pure_eq_ok.1 h
    exact ⟨none, .nil r, nofun, rfl⟩

theorem columnSize_of_takes {literal : Option String}
    (h : Takes r (literal.toList.flatMap fun text => Grammar.parenthesized [.literal text]) r')
    (hl : ∀ text ∈ literal, (size? text).isSome) (hclear : r'.Clear [.openParen]) :
    columnSize r = .ok (literal.bind size?) r' := by
  refine (accept_bind_iff stands_openParen).2 ?_
  cases literal with
  | none =>
    obtain rfl := takes_nil_iff.1 h
    exact .inr ⟨hclear _ List.mem_cons_self, rfl⟩
  | some text =>
    obtain ⟨n, hn⟩ := Option.isSome_iff_exists.1 (hl text rfl)
    rw [Option.toList_some, List.flatMap_singleton] at h
    obtain ⟨r₁, r₂, ho, ht, hc⟩ := takes_parenthesized_iff.1 h
    obtain ⟨hat, _, ha, htake⟩ := takes_cons_iff.1 ht
    obtain rfl := takes_nil_iff.1 htake
    obtain ⟨hk, rfl⟩ := at_literal_iff.1 hat
    refine .inl ⟨r₁, ho, bind_of_ok (expect_eq_ok.2 ⟨hk, rfl, ha⟩) ?_⟩
    rw [Option.bind_some, hn]
    exact bind_of_ok ((expect_iff stands_closeParen).2 ⟨rfl, hc⟩) rfl

/-- A constraint behind a column, added to the words and the key before it. -/
def attribute? (read : List String × Option TableConstraint) (a : Attribute) :
    Option (List String × Option TableConstraint) :=
  if a.Admissible then some (read.1 ++ a.words, a.key?.or read.2) else none

theorem foldl_attributes (attributes : List Attribute)
    (read : List String × Option TableConstraint) :
    attributes.foldl (fun read a => (read.1 ++ a.words, a.key?.or read.2)) read =
      (read.1 ++ attributes.flatMap Attribute.words,
        (attributes.filterMap Attribute.key?).getLast?.or read.2) := by
  induction attributes generalizing read with
  | nil => simp
  | cons a attributes ih =>
    rw [List.foldl_cons, ih, List.flatMap_cons, List.append_assoc]
    cases hk : a.key? with
    | none => rw [List.filterMap_cons_none hk, Option.none_or]
    | some key =>
      rw [List.filterMap_cons_some hk, List.getLast?_cons, Option.some_or, Option.some_or]
      cases (attributes.filterMap Attribute.key?).getLast? <;> rfl

theorem foldlM_attribute? {attributes : List Attribute} {words : List String}
    {key : Option TableConstraint} :
    attributes.foldlM attribute? ([], none) = some (words, key) ↔
      (∀ a ∈ attributes, a.Admissible) ∧ words = attributes.flatMap Attribute.words ∧
        key = (attributes.filterMap Attribute.key?).getLast? := by
  refine foldlM_ite.trans (and_congr_right' ?_)
  rw [foldl_attributes, Prod.mk.injEq, List.nil_append, Option.or_none, eq_comm,
    eq_comm (a := key)]

/-- The symbols that a constraint behind a column begins with. -/
def attributeFirst : List Symbol :=
  [.keyword "NOT", .keyword "NULL", .keyword "UNIQUE", .keyword "PRIMARY"]

theorem takes_key_iff {columns : List String} :
    Takes r (.keyword "PRIMARY" :: .keyword "KEY" ::
        Grammar.parenthesized (names columns)) r' ↔
      ∃ r₁ r₂, Takes r [.keyword "PRIMARY"] r₁ ∧ Takes r₁ [.keyword "KEY"] r₂ ∧
        Takes r₂ (Grammar.parenthesized (names columns)) r' := by
  rw [takes_cons_iff_singleton]
  constructor
  · rintro ⟨r₁, h₁, h⟩
    obtain ⟨r₂, h₂, h₃⟩ := takes_cons_iff_singleton.1 h
    exact ⟨r₁, r₂, h₁, h₂, h₃⟩
  · rintro ⟨r₁, r₂, h₁, h₂, h₃⟩
    exact ⟨r₁, h₁, takes_cons_iff_singleton.2 ⟨r₂, h₂, h₃⟩⟩

theorem takes_of_columnConstraint {read : List String × Option TableConstraint}
    {next : Option (List String × Option TableConstraint)}
    (h : columnConstraint read r = .ok next r') :
    (next = none ∧ r' = r) ∨ ∃ (a : Attribute) (read' : List String × Option TableConstraint),
      next = some read' ∧ Takes r a.symbols r' ∧ attribute? read a = some read' := by
  obtain ⟨words, key⟩ := read
  rcases (accept_bind_iff (stands_keyword "NOT")).1 h with ⟨r₁, h₁, h⟩ | ⟨-, h⟩
  · obtain ⟨_, r₂, h₂, h⟩ := bind_eq_ok.1 h
    obtain ⟨rfl, rfl⟩ := pure_eq_ok.1 h
    exact .inr ⟨.notNull, _, rfl, h₁.append (keyword_iff.1 h₂), rfl⟩
  rcases (accept_bind_iff (stands_keyword "NULL")).1 h with ⟨r₁, h₁, h⟩ | ⟨-, h⟩
  · obtain ⟨rfl, rfl⟩ := pure_eq_ok.1 h
    exact .inr ⟨.null, _, rfl, h₁, rfl⟩
  rcases (accept_bind_iff (stands_keyword "UNIQUE")).1 h with ⟨r₁, h₁, h⟩ | ⟨-, h⟩
  · obtain ⟨rfl, rfl⟩ := pure_eq_ok.1 h
    exact .inr ⟨.unique, _, rfl, h₁, rfl⟩
  rcases (accept_bind_iff (stands_keyword "PRIMARY")).1 h with ⟨r₁, h₁, h⟩ | ⟨-, h⟩
  · obtain ⟨_, r₂, h₂, h⟩ := bind_eq_ok.1 h
    rcases (accept_bind_iff stands_openParen).1 h with ⟨r₃, h₃, h⟩ | ⟨-, h⟩
    · obtain ⟨columns, r₄, h₄, h⟩ := bind_eq_ok.1 h
      obtain ⟨_, r₅, h₅, h⟩ := bind_eq_ok.1 h
      obtain ⟨rfl, rfl⟩ := pure_eq_ok.1 h
      obtain ⟨hne, h₄⟩ := takes_of_items identifier_iff h₄
      have hadmissible : (Attribute.key columns).Admissible := hne
      refine .inr ⟨.key columns, _, rfl, takes_key_iff.2 ⟨r₁, r₂, h₁, keyword_iff.1 h₂, ?_⟩, ?_⟩
      · exact takes_parenthesized_iff.2
          ⟨r₃, r₄, h₃, h₄, ((expect_iff stands_closeParen).1 h₅).2⟩
      · rw [attribute?, if_pos hadmissible]
        simp [Attribute.words, Attribute.key?]
    · obtain ⟨rfl, rfl⟩ := pure_eq_ok.1 h
      exact .inr ⟨.primaryKey, _, rfl, h₁.append (keyword_iff.1 h₂), rfl⟩
  · obtain ⟨rfl, rfl⟩ := pure_eq_ok.1 h
    exact .inl ⟨rfl, rfl⟩

theorem columnConstraint_of_takes {read read' : List String × Option TableConstraint}
    {a : Attribute} (hr : r.Ends) (ht : Takes r a.symbols r') (ha : attribute? read a = some read')
    (hclear : r'.Clear [.openParen]) : columnConstraint read r = .ok (some read') r' := by
  obtain ⟨words, key⟩ := read
  unfold attribute? at ha
  split_ifs at ha with hadm
  obtain rfl := Option.some.inj ha
  cases a with
  | notNull =>
    obtain ⟨r₁, h₁, h₂⟩ := takes_cons_iff_singleton.1 ht
    exact (accept_bind_iff (stands_keyword "NOT")).2
      (.inl ⟨r₁, h₁, bind_of_ok (keyword_iff.2 h₂) rfl⟩)
  | null =>
    refine (accept_bind_iff (stands_keyword "NOT")).2 (.inr ⟨ht.not_at (by decide), ?_⟩)
    exact (accept_bind_iff (stands_keyword "NULL")).2 (.inl ⟨r', ht, rfl⟩)
  | unique =>
    refine (accept_bind_iff (stands_keyword "NOT")).2 (.inr ⟨ht.not_at (by decide), ?_⟩)
    refine (accept_bind_iff (stands_keyword "NULL")).2 (.inr ⟨ht.not_at (by decide), ?_⟩)
    exact (accept_bind_iff (stands_keyword "UNIQUE")).2 (.inl ⟨r', ht, rfl⟩)
  | primaryKey =>
    refine (accept_bind_iff (stands_keyword "NOT")).2 (.inr ⟨ht.not_at (by decide), ?_⟩)
    refine (accept_bind_iff (stands_keyword "NULL")).2 (.inr ⟨ht.not_at (by decide), ?_⟩)
    refine (accept_bind_iff (stands_keyword "UNIQUE")).2 (.inr ⟨ht.not_at (by decide), ?_⟩)
    obtain ⟨r₁, h₁, h₂⟩ := takes_cons_iff_singleton.1 ht
    refine (accept_bind_iff (stands_keyword "PRIMARY")).2
      (.inl ⟨r₁, h₁, bind_of_ok (keyword_iff.2 h₂) ?_⟩)
    exact (accept_bind_iff stands_openParen).2 (.inr ⟨hclear _ List.mem_cons_self, rfl⟩)
  | key columns =>
    refine (accept_bind_iff (stands_keyword "NOT")).2 (.inr ⟨ht.not_at (by decide), ?_⟩)
    refine (accept_bind_iff (stands_keyword "NULL")).2 (.inr ⟨ht.not_at (by decide), ?_⟩)
    refine (accept_bind_iff (stands_keyword "UNIQUE")).2 (.inr ⟨ht.not_at (by decide), ?_⟩)
    obtain ⟨r₁, r₂, h₁, h₂, h₃⟩ := takes_key_iff.1 ht
    refine (accept_bind_iff (stands_keyword "PRIMARY")).2
      (.inl ⟨r₁, h₁, bind_of_ok (keyword_iff.2 h₂) ?_⟩)
    obtain ⟨r₃, r₄, h₄, h₅, h₆⟩ := takes_parenthesized_iff.1 h₃
    have hends : r₃.Ends := h₄.ends (h₂.ends (h₁.ends hr))
    refine (accept_bind_iff stands_openParen).2 (.inl ⟨r₃, h₄, ?_⟩)
    refine bind_of_ok (items_of_takes identifier_iff hends hadm h₅ (h₆.clear (by simp))) ?_
    refine bind_of_ok ((expect_iff stands_closeParen).2 ⟨rfl, h₆⟩) ?_
    simp [Attribute.words, Attribute.key?, pure_eq_ok]

theorem repeats_columnConstraint :
    Repeats columnConstraint Attribute.symbols attribute? attributeFirst [.openParen] where
  takes := takes_of_columnConstraint
  reads := columnConstraint_of_takes
  rests := by
    rintro ⟨words, key⟩ r hclear
    refine (accept_bind_iff (stands_keyword "NOT")).2 (.inr ⟨hclear _ (by decide), ?_⟩)
    refine (accept_bind_iff (stands_keyword "NULL")).2 (.inr ⟨hclear _ (by decide), ?_⟩)
    refine (accept_bind_iff (stands_keyword "UNIQUE")).2 (.inr ⟨hclear _ (by decide), ?_⟩)
    exact (accept_bind_iff (stands_keyword "PRIMARY")).2 (.inr ⟨hclear _ (by decide), rfl⟩)
  begins i := by cases i <;> exact ⟨_, _, rfl, by decide⟩
  apart := by decide

theorem dataType_bind_iff {f : Token → Read β} {b : β} :
    (expect .dataType >>= f) r = .ok b r' ↔
      r.current.is .dataType none = true ∧ ∃ r₁, advance r = .ok r.current r₁ ∧
        f r.current r₁ = .ok b r' := by
  simp only [bind_eq_ok, expect_eq_ok]
  constructor
  · rintro ⟨_, r₁, ⟨hk, rfl, ha⟩, hf⟩; exact ⟨hk, r₁, ha, hf⟩
  · rintro ⟨hk, r₁, ha, hf⟩; exact ⟨_, r₁, ⟨hk, rfl, ha⟩, hf⟩

theorem takes_of_columnDefinition {column : ColumnDefinition} {key : Option TableConstraint}
    (h : columnDefinition r = .ok (column, key) r') :
    ∃ e : Element, Takes r e.symbols r' ∧ e.Admissible ∧ e.columns = [column] ∧
      e.constraints = key.toList := by
  obtain ⟨name, r₁, hname, h⟩ := bind_eq_ok.1 h
  obtain ⟨hk, r₂, ha, h⟩ := dataType_bind_iff.1 h
  cases ht : DataType.ofWord? r₁.current.text with
  | none => rw [ht] at h; cases h
  | some type =>
    rw [ht] at h
    obtain ⟨size, r₃, hs, h⟩ := bind_eq_ok.1 h
    obtain ⟨⟨words, key'⟩, r₄, hr, h⟩ := bind_eq_ok.1 h
    obtain ⟨hc, rfl⟩ := pure_eq_ok.1 h
    obtain ⟨rfl, rfl⟩ := Prod.mk.inj hc
    obtain ⟨literal, hl, hsome, rfl⟩ := takes_of_columnSize hs
    obtain ⟨attributes, hattributes, hf⟩ := repeats_columnConstraint.takes_of_repeatWhile hr
    obtain ⟨hadm, rfl, rfl⟩ := foldlM_attribute?.1 hf
    have htype : Takes r₁ [.dataType type] r₂ := .cons (at_dataType_iff.2 ⟨hk, ht⟩) ha (.nil r₂)
    refine ⟨.column name type literal attributes, ?_, ⟨hsome, hadm⟩, rfl, rfl⟩
    exact (((identifier_iff.1 hname).append htype).append hl).append hattributes

theorem columnDefinition_of_takes {name : String} {type : DataType} {literal : Option String}
    {attributes : List Attribute} (hr : r.Ends)
    (h : Takes r (Element.column name type literal attributes).symbols r')
    (hadm : (Element.column name type literal attributes).Admissible)
    (hclear : r'.Clear (attributeFirst ++ [.openParen])) :
    columnDefinition r = .ok
      ({ name, dataType := type, size := literal.bind size?,
         constraints := attributes.flatMap Attribute.words },
        (attributes.filterMap Attribute.key?).getLast?) r' := by
  obtain ⟨r₃, h, hattributes⟩ := takes_append_iff.1 h
  obtain ⟨r₂, h, hsize⟩ := takes_append_iff.1 h
  obtain ⟨r₁, hname, htype⟩ := takes_cons_iff_singleton.1 h
  obtain ⟨hat, _, ha, htake⟩ := takes_cons_iff.1 htype
  obtain rfl := takes_nil_iff.1 htake
  obtain ⟨hk, ht⟩ := at_dataType_iff.1 hat
  -- Behind the size there is a constraint or the end of the element.
  have hstop := repeats_columnConstraint.clear_of_takes hattributes hclear
  refine bind_of_ok (identifier_iff.2 hname) (dataType_bind_iff.2 ⟨hk, _, ha, ?_⟩)
  rw [ht]
  refine bind_of_ok (columnSize_of_takes hsize hadm.1 hstop) ?_
  have hends := hsize.ends (htype.ends (hname.ends hr))
  exact bind_of_ok (repeats_columnConstraint.repeatWhile_of_takes hends hattributes
    (foldlM_attribute?.2 ⟨hadm.2, rfl, rfl⟩) hclear) rfl

theorem takes_of_primaryKey {c : TableConstraint} (h : primaryKey r = .ok c r') :
    Takes r (tableConstraint c) r' ∧ (Element.constraint c).Admissible := by
  obtain ⟨_, r₁, h₁, h⟩ := bind_eq_ok.1 h
  obtain ⟨_, r₂, h₂, h⟩ := bind_eq_ok.1 h
  obtain ⟨columns, r₃, h₃, h⟩ := bind_eq_ok.1 h
  obtain ⟨rfl, rfl⟩ := pure_eq_ok.1 h
  obtain ⟨hne, h₃⟩ := takes_of_parenthesized_items identifier_iff h₃
  exact ⟨takes_key_iff.2 ⟨r₁, r₂, keyword_iff.1 h₁, keyword_iff.1 h₂, h₃⟩, hne⟩

theorem primaryKey_of_takes {columns : List String} (hr : r.Ends) (hne : columns ≠ [])
    (h : Takes r (tableConstraint (.primaryKey columns)) r') :
    primaryKey r = .ok (.primaryKey columns) r' := by
  obtain ⟨r₁, r₂, h₁, h₂, h₃⟩ := takes_key_iff.1 h
  refine bind_of_ok (keyword_iff.2 h₁) (bind_of_ok (keyword_iff.2 h₂) ?_)
  exact bind_of_ok
    (parenthesized_items_of_takes identifier_iff (h₂.ends (h₁.ends hr)) hne h₃) rfl

/-- A step that reads the name before a foreign key and goes on with it. -/
theorem naming_bind_iff {f : Option String → Read β} {b : β} :
    (do
      if ← acceptKeyword "CONSTRAINT" then
        let name ← some <$> identifier
        f name
      else
        let name ← pure none
        f name : Read β) r = .ok b r' ↔
      ∃ name r₁,
        Takes r (name.toList.flatMap fun name => [.keyword "CONSTRAINT", .identifier name]) r₁ ∧
        (name = none → ¬ r.At (.keyword "CONSTRAINT")) ∧ f name r₁ = .ok b r' := by
  refine (accept_bind_iff (stands_keyword "CONSTRAINT")).trans ?_
  constructor
  · rintro (⟨r₁, h₁, h⟩ | ⟨hx, h⟩)
    · obtain ⟨name, r₂, h₂, h⟩ := bind_eq_ok.1 h
      obtain ⟨text, r₃, h₃, h₂⟩ := bind_eq_ok.1 (map_eq_pure_bind some identifier ▸ h₂)
      obtain ⟨rfl, rfl⟩ := pure_eq_ok.1 h₂
      exact ⟨some text, r₃, by simpa using h₁.append (identifier_iff.1 h₃), nofun, h⟩
    · exact ⟨none, r, .nil r, fun _ => hx, h⟩
  · rintro ⟨name, r₂, h, hx, hf⟩
    cases name with
    | none =>
      obtain rfl := takes_nil_iff.1 h
      exact .inr ⟨hx rfl, hf⟩
    | some name =>
      rw [Option.toList_some, List.flatMap_singleton] at h
      obtain ⟨r₁, h₁, h₂⟩ := takes_cons_iff_singleton.1 h
      refine .inl ⟨r₁, h₁, ?_⟩
      rw [if_pos rfl, map_eq_pure_bind]
      exact bind_of_ok (bind_of_ok (identifier_iff.2 h₂) rfl) hf

theorem takes_foreignKey_iff {name : Option String}
    {column referencedTable referencedColumn : String} :
    Takes r (tableConstraint (.foreignKey name column referencedTable referencedColumn)) r' ↔
      ∃ r₁ r₂ r₃ r₄ r₅ r₆,
        Takes r (name.toList.flatMap fun name => [.keyword "CONSTRAINT", .identifier name]) r₁ ∧
        Takes r₁ [.keyword "FOREIGN"] r₂ ∧ Takes r₂ [.keyword "KEY"] r₃ ∧
        Takes r₃ (Grammar.parenthesized [.identifier column]) r₄ ∧
        Takes r₄ [.keyword "REFERENCES"] r₅ ∧ Takes r₅ [.identifier referencedTable] r₆ ∧
        Takes r₆ (Grammar.parenthesized [.identifier referencedColumn]) r' := by
  constructor
  · intro h
    obtain ⟨r₄, h, hreferences⟩ := takes_append_iff.1 h
    obtain ⟨r₁, h₁, hforeign⟩ := takes_append_iff.1 h
    obtain ⟨r₂, h₂, hkey⟩ := takes_cons_iff_singleton.1 hforeign
    obtain ⟨r₃, h₃, h₄⟩ := takes_cons_iff_singleton.1 hkey
    obtain ⟨r₅, h₅, htable⟩ := takes_cons_iff_singleton.1 hreferences
    obtain ⟨r₆, h₆, h₇⟩ := takes_cons_iff_singleton.1 htable
    exact ⟨r₁, r₂, r₃, r₄, r₅, r₆, h₁, h₂, h₃, h₄, h₅, h₆, h₇⟩
  · rintro ⟨r₁, r₂, r₃, r₄, r₅, r₆, h₁, h₂, h₃, h₄, h₅, h₆, h₇⟩
    exact (h₁.append (h₂.append (h₃.append h₄))).append (h₅.append (h₆.append h₇))

theorem takes_of_foreignKey {c : TableConstraint} (h : foreignKey r = .ok c r') :
    Takes r (tableConstraint c) r' ∧ (Element.constraint c).Admissible := by
  obtain ⟨name, r₁, h₁, -, h⟩ := naming_bind_iff.1 h
  obtain ⟨_, r₂, h₂, h⟩ := bind_eq_ok.1 h
  obtain ⟨_, r₃, h₃, h⟩ := bind_eq_ok.1 h
  obtain ⟨column, r₄, h₄, h⟩ := bind_eq_ok.1 h
  obtain ⟨_, r₅, h₅, h⟩ := bind_eq_ok.1 h
  obtain ⟨referencedTable, r₆, h₆, h⟩ := bind_eq_ok.1 h
  obtain ⟨referencedColumn, r₇, h₇, h⟩ := bind_eq_ok.1 h
  obtain ⟨rfl, rfl⟩ := pure_eq_ok.1 h
  exact ⟨takes_foreignKey_iff.2 ⟨r₁, r₂, r₃, r₄, r₅, r₆, h₁, keyword_iff.1 h₂,
    keyword_iff.1 h₃, parenthesized_identifier_iff.1 h₄, keyword_iff.1 h₅, identifier_iff.1 h₆,
    parenthesized_identifier_iff.1 h₇⟩, trivial⟩

theorem foreignKey_of_takes {name : Option String}
    {column referencedTable referencedColumn : String}
    (h : Takes r (tableConstraint (.foreignKey name column referencedTable referencedColumn)) r') :
    foreignKey r = .ok (.foreignKey name column referencedTable referencedColumn) r' := by
  obtain ⟨r₁, r₂, r₃, r₄, r₅, r₆, h₁, h₂, h₃, h₄, h₅, h₆, h₇⟩ := takes_foreignKey_iff.1 h
  have hx : name = none → ¬ r.At (.keyword "CONSTRAINT") := by
    rintro rfl
    obtain rfl := takes_nil_iff.1 h₁
    exact h₂.not_at (by decide)
  refine naming_bind_iff.2 ⟨name, r₁, h₁, hx, ?_⟩
  refine bind_of_ok (keyword_iff.2 h₂) (bind_of_ok (keyword_iff.2 h₃) ?_)
  refine bind_of_ok (parenthesized_identifier_iff.2 h₄) (bind_of_ok (keyword_iff.2 h₅) ?_)
  exact bind_of_ok (identifier_iff.2 h₆) (bind_of_ok (parenthesized_identifier_iff.2 h₇) rfl)

/-- An element, added to the columns and constraints before it. -/
def element? (read : List ColumnDefinition × List TableConstraint) (e : Element) :
    Option (List ColumnDefinition × List TableConstraint) :=
  if e.Admissible then some (read.1 ++ e.columns, read.2 ++ e.constraints) else none

theorem foldlM_element? {elements : List Element} {columns : List ColumnDefinition}
    {constraints : List TableConstraint} :
    elements.foldlM element? ([], []) = some (columns, constraints) ↔
      (∀ e ∈ elements, e.Admissible) ∧ columns = elements.flatMap Element.columns ∧
        constraints = elements.flatMap Element.constraints := by
  have hfold (read : List ColumnDefinition × List TableConstraint) :
      elements.foldl (fun read e => (read.1 ++ e.columns, read.2 ++ e.constraints)) read =
        (read.1 ++ elements.flatMap Element.columns,
          read.2 ++ elements.flatMap Element.constraints) := by
    induction elements generalizing read with
    | nil => simp
    | cons e elements ih => simp [ih]
  refine foldlM_ite.trans (and_congr_right' ?_)
  rw [hfold, Prod.mk.injEq, List.nil_append, List.nil_append, eq_comm,
    eq_comm (a := constraints)]

/-- A step that looks for a keyword and leaves it where it is. -/
theorem holds_bind {word : String} {f : Bool → Read β} :
    (holds word >>= f) r = f (decide (r.At (.keyword word))) r := by
  have h : r.current.is .keyword (some word) = decide (r.At (.keyword word)) :=
    Bool.eq_iff_iff.2 ((stands_keyword word r.current).trans decide_eq_true_iff.symm)
  change f (r.current.is .keyword (some word)) r = _
  rw [h]

/-- An element that begins with PRIMARY is a key, one that begins with CONSTRAINT or FOREIGN is a
foreign key, and any other is a column. -/
theorem tableElement_eq (columns : List ColumnDefinition) (constraints : List TableConstraint) :
    tableElement (columns, constraints) r =
      if r.At (.keyword "PRIMARY") then
        (do return (columns, constraints ++ [← primaryKey]) : Read _) r
      else if r.At (.keyword "CONSTRAINT") ∨ r.At (.keyword "FOREIGN") then
        (do return (columns, constraints ++ [← foreignKey]) : Read _) r
      else (do
        let (column, key) ← columnDefinition
        return (columns ++ [column], constraints ++ key.toList) : Read _) r := by
  rw [tableElement, holds_bind]
  by_cases hp : r.At (.keyword "PRIMARY")
  · rw [if_pos hp, if_pos (decide_eq_true hp)]
  · rw [if_neg hp, if_neg (by simpa using hp), holds_bind, holds_bind]
    by_cases hc : r.At (.keyword "CONSTRAINT") ∨ r.At (.keyword "FOREIGN")
    · rw [if_pos hc, if_pos (by simpa using hc)]
    · rw [if_neg hc, if_neg (by simpa using hc)]

theorem takes_of_tableElement {read read' : List ColumnDefinition × List TableConstraint}
    (h : tableElement read r = .ok read' r') :
    ∃ e : Element, Takes r e.symbols r' ∧ element? read e = some read' := by
  obtain ⟨columns, constraints⟩ := read
  rw [tableElement_eq] at h
  split_ifs at h
  · obtain ⟨c, r₁, hk, h⟩ := bind_eq_ok.1 h
    obtain ⟨rfl, rfl⟩ := pure_eq_ok.1 h
    obtain ⟨ht, hadm⟩ := takes_of_primaryKey hk
    exact ⟨.constraint c, ht, by simp [element?, hadm, Element.columns, Element.constraints]⟩
  · obtain ⟨c, r₁, hk, h⟩ := bind_eq_ok.1 h
    obtain ⟨rfl, rfl⟩ := pure_eq_ok.1 h
    obtain ⟨ht, hadm⟩ := takes_of_foreignKey hk
    exact ⟨.constraint c, ht, by simp [element?, hadm, Element.columns, Element.constraints]⟩
  · obtain ⟨⟨column, key⟩, r₁, hd, h⟩ := bind_eq_ok.1 h
    obtain ⟨rfl, rfl⟩ := pure_eq_ok.1 h
    obtain ⟨e, ht, hadm, hcolumns, hconstraints⟩ := takes_of_columnDefinition hd
    exact ⟨e, ht, by rw [element?, if_pos hadm, hcolumns, hconstraints]⟩

theorem tableElement_of_takes {read read' : List ColumnDefinition × List TableConstraint}
    {e : Element} (hr : r.Ends) (ht : Takes r e.symbols r') (he : element? read e = some read')
    (hclear : r'.Clear (attributeFirst ++ [.openParen])) :
    tableElement read r = .ok read' r' := by
  obtain ⟨columns, constraints⟩ := read
  rw [tableElement_eq]
  unfold element? at he
  split_ifs at he with hadm
  obtain rfl := Option.some.inj he
  cases e with
  | column name type literal attributes =>
    have hn (word : String) : ¬ r.At (.keyword word) := Takes.not_at ht (by simp)
    rw [if_neg (hn _), if_neg (not_or.2 ⟨hn _, hn _⟩)]
    exact bind_of_ok (columnDefinition_of_takes hr ht hadm hclear) rfl
  | constraint c =>
    rw [Element.columns, Element.constraints, List.append_nil]
    cases c with
    | primaryKey keys =>
      rw [if_pos (Takes.at ht)]
      exact bind_of_ok (primaryKey_of_takes hr hadm ht) rfl
    | foreignKey name column referencedTable referencedColumn =>
      have hat : r.At (.keyword "CONSTRAINT") ∨ r.At (.keyword "FOREIGN") := by
        cases name with
        | none => exact .inr (Takes.at ht)
        | some name => exact .inl (Takes.at ht)
      have hp : ¬ r.At (.keyword "PRIMARY") := by
        intro h
        rcases hat with hat | hat
        · exact absurd (hat.eq h) (by decide)
        · exact absurd (hat.eq h) (by decide)
      rw [if_neg hp, if_pos hat]
      exact bind_of_ok (foreignKey_of_takes ht) rfl

theorem adds_tableElement :
    Adds tableElement Element.symbols element? (attributeFirst ++ [.openParen]) where
  takes := takes_of_tableElement
  reads := tableElement_of_takes
  apart := by decide


end Reader

end RelStore.Sql
