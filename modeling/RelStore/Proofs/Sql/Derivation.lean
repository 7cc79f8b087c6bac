import RelStore.Proofs.Sql.Phrases

/-!
# Statements and their phrases

The reader of each kind of statement takes a phrase that `Grammar.Derives` lists, up to the end
of the query (`Derivable`). A statement that was read is derivable (`derivable_of_read`), and a
phrase of the grammar in front of a reader is read by the reader for its opening
(`read_of_derives`).
-/

namespace RelStore.Sql

open Grammar

namespace Reader

variable {β : Type} {r r' : Reader}

/-! ## The end of a statement -/

theorem finish_iff :
    finish r = .ok () r' ↔ r.current.kind = .endOfInput ∧ advance r = .ok r.current r' := by
  unfold finish
  rw [bind_eq_ok]
  simp only [expect_eq_ok, pure_eq_ok]
  have hk : r.current.is .endOfInput none = true ↔ r.current.kind = .endOfInput := by
    simp [Token.is]
  rw [hk]
  constructor
  · rintro ⟨_, _, ⟨h, rfl, ha⟩, -, rfl⟩; exact ⟨h, ha⟩
  · rintro ⟨h, ha⟩; exact ⟨_, r', ⟨h, rfl, ha⟩, trivial, rfl⟩

theorem clear_of_finish (h : finish r = .ok () r') (stop : List Symbol) : r.Clear stop := by
  refine .of_symbol?_eq_none ?_ stop
  rw [Token.symbol?, (finish_iff.1 h).1]

theorem source_of_finish (h : finish r = .ok () r') : r'.source = r.source :=
  (advance_spec (finish_iff.1 h).2).1

theorem statement_iff {table : String} {action : Action} {s : Statement} :
    statement table action r = .ok s r' ↔ s = { source := r.source, table, action } ∧ r' = r :=
  ⟨fun h => by cases h; exact ⟨rfl, rfl⟩, fun ⟨hs, hr⟩ => by rw [hs, hr]; rfl⟩

theorem firstRepeated?_eq_none_iff {seen names : List String} :
    firstRepeated? seen names = none ↔ names.Nodup ∧ ∀ name ∈ names, name ∉ seen := by
  induction names generalizing seen with
  | nil => simp [firstRepeated?]
  | cons name names ih =>
    rw [firstRepeated?]
    split_ifs with h
    · simp [h]
    · rw [ih]; grind

/-- The statement is derived from a phrase in front of the reader, with the end of the query
behind it. -/
def Derivable (r : Reader) (s : Statement) (r' : Reader) : Prop :=
  ∃ xs r₁, Takes r xs r₁ ∧ Derives s.table xs s.action ∧ s.source = r.source ∧
    finish r₁ = .ok () r'

/-! ## What was read -/

theorem Takes.derivable {xs : List Symbol} {table : String} {action : Action} {r₁ r₂ : Reader}
    {s : Statement} (h : Takes r xs r₁) (hd : Derives table xs action)
    (hf : finish r₁ = .ok () r₂) (hs : statement table action r₂ = .ok s r') :
    Derivable r s r' := by
  obtain ⟨rfl, rfl⟩ := statement_iff.1 hs
  exact ⟨xs, r₁, h, hd, (source_of_finish hf).trans h.source, hf⟩

variable {s : Statement}

theorem derivable_of_insert (h : insert r = .ok s r') : Derivable r s r' := by
  obtain ⟨_, r₁, h₁, h⟩ := bind_eq_ok.1 h
  obtain ⟨_, r₂, h₂, h⟩ := bind_eq_ok.1 h
  obtain ⟨table, r₃, h₃, h⟩ := bind_eq_ok.1 h
  obtain ⟨columns, r₄, h₄, h⟩ := bind_eq_ok.1 h
  cases hrepeated : firstRepeated? [] columns with
  | some name => rw [hrepeated] at h; cases h
  | none =>
    rw [hrepeated] at h
    obtain ⟨_, r₅, h₅, h⟩ := bind_eq_ok.1 h
    obtain ⟨values, r₆, h₆, h⟩ := bind_eq_ok.1 h
    obtain ⟨_, r₇, hf, h⟩ := bind_eq_ok.1 h
    split_ifs at h with hlength
    · cases h
    · obtain ⟨hne, h₄⟩ := takes_of_parenthesized_items identifier_iff h₄
      obtain ⟨-, h₆⟩ := takes_of_parenthesized_items literal_iff h₆
      have htakes := (((keyword_iff.1 h₁).append (keyword_iff.1 h₂)).append
        (identifier_iff.1 h₃)).append h₄ |>.append ((keyword_iff.1 h₅).append h₆)
      exact htakes.derivable
        (.insert hne (firstRepeated?_eq_none_iff.1 hrepeated).1 (Decidable.not_not.1 hlength)) hf h

theorem derivable_of_select (h : select r = .ok s r') : Derivable r s r' := by
  obtain ⟨_, r₁, h₁, h⟩ := bind_eq_ok.1 h
  obtain ⟨columns, r₂, h₂, h⟩ := bind_eq_ok.1 h
  obtain ⟨_, r₃, h₃, h⟩ := bind_eq_ok.1 h
  obtain ⟨table, r₄, h₄, h⟩ := bind_eq_ok.1 h
  obtain ⟨c, r₅, h₅, h⟩ := bind_eq_ok.1 h
  obtain ⟨_, r₆, hf, h⟩ := bind_eq_ok.1 h
  obtain ⟨hne, h₂⟩ := takes_of_items identifier_iff h₂
  obtain ⟨hc, h₅⟩ := takes_of_condition h₅
  have htakes := (((keyword_iff.1 h₁).append h₂).append
    ((keyword_iff.1 h₃).append (identifier_iff.1 h₄))).append h₅
  exact htakes.derivable (.select hne hc) hf h

theorem derivable_of_delete (h : delete r = .ok s r') : Derivable r s r' := by
  obtain ⟨_, r₁, h₁, h⟩ := bind_eq_ok.1 h
  obtain ⟨_, r₂, h₂, h⟩ := bind_eq_ok.1 h
  obtain ⟨table, r₃, h₃, h⟩ := bind_eq_ok.1 h
  obtain ⟨c, r₄, h₄, h⟩ := bind_eq_ok.1 h
  obtain ⟨_, r₅, hf, h⟩ := bind_eq_ok.1 h
  obtain ⟨hc, h₄⟩ := takes_of_condition h₄
  have htakes := ((keyword_iff.1 h₁).append
    ((keyword_iff.1 h₂).append (identifier_iff.1 h₃))).append h₄
  exact htakes.derivable (.delete hc) hf h

theorem derivable_of_update (h : update r = .ok s r') : Derivable r s r' := by
  obtain ⟨_, r₁, h₁, h⟩ := bind_eq_ok.1 h
  obtain ⟨table, r₂, h₂, h⟩ := bind_eq_ok.1 h
  obtain ⟨_, r₃, h₃, h⟩ := bind_eq_ok.1 h
  obtain ⟨row, r₄, h₄, h⟩ := bind_eq_ok.1 h
  obtain ⟨c, r₅, h₅, h⟩ := bind_eq_ok.1 h
  obtain ⟨_, r₆, hf, h⟩ := bind_eq_ok.1 h
  obtain ⟨pairs, hne, hpairs, hrow⟩ := adds_assignment.takes_of_separated h₄
  obtain ⟨hnodup, rfl⟩ := foldlM_assign?.1 hrow
  obtain ⟨hc, h₅⟩ := takes_of_condition h₅
  have htakes := (((keyword_iff.1 h₁).append ((identifier_iff.1 h₂).append
    (keyword_iff.1 h₃))).append hpairs).append h₅
  exact htakes.derivable (.update hne hnodup hc) hf h

theorem derivable_of_createTable (h : createTable r = .ok s r') : Derivable r s r' := by
  obtain ⟨_, r₁, h₁, h⟩ := bind_eq_ok.1 h
  obtain ⟨_, r₂, h₂, h⟩ := bind_eq_ok.1 h
  obtain ⟨table, r₃, h₃, h⟩ := bind_eq_ok.1 h
  obtain ⟨⟨columns, constraints⟩, r₄, h₄, h⟩ := bind_eq_ok.1 h
  obtain ⟨_, r₅, hf, h⟩ := bind_eq_ok.1 h
  obtain ⟨r₆, r₇, ho, hlist, hc⟩ := parenthesized_iff.1 h₄
  obtain ⟨elements, hne, helements, hfold⟩ := adds_tableElement.takes_of_separated hlist
  obtain ⟨hadm, rfl, rfl⟩ := foldlM_element?.1 hfold
  have htakes := ((keyword_iff.1 h₁).append ((keyword_iff.1 h₂).append
    (identifier_iff.1 h₃))).append (takes_parenthesized_iff.2 ⟨r₆, r₇, ho, helements, hc⟩)
  exact htakes.derivable (.createTable hne hadm) hf h

theorem derivable_of_read {opening : Opening} (h : opening.read r = .ok s r') :
    Derivable r s r' := by
  cases opening with
  | insert => exact derivable_of_insert h
  | select => exact derivable_of_select h
  | update => exact derivable_of_update h
  | delete => exact derivable_of_delete h
  | createTable => exact derivable_of_createTable h

/-! ## What is read -/

/-- The keywords that a statement begins with. -/
def openingSymbols : Opening → List Symbol
  | .insert => [.keyword "INSERT"]
  | .select => [.keyword "SELECT"]
  | .update => [.keyword "UPDATE"]
  | .delete => [.keyword "DELETE"]
  | .createTable => [.keyword "CREATE", .keyword "TABLE"]

section

variable {table : String} {r₁ : Reader} {condition : Option Condition}

theorem statement_of_finish {xs : List Symbol} (h : Takes r xs r₁) (hf : finish r₁ = .ok () r')
    (table : String) (action : Action) :
    statement table action r' = .ok { source := r.source, table, action } r' :=
  statement_iff.2 ⟨by rw [source_of_finish hf, h.source], rfl⟩

/-- The phrase of an INSERT is read as one. -/
theorem insert_of_takes {columns values : List String} (hr : r.Ends) (hne : columns ≠ [])
    (hnodup : columns.Nodup) (hlength : columns.length = values.length)
    (h : Takes r ([.keyword "INSERT", .keyword "INTO", .identifier table] ++
      Grammar.parenthesized (names columns) ++
        .keyword "VALUES" :: Grammar.parenthesized (Grammar.literals values)) r₁)
    (hf : finish r₁ = .ok () r') :
    insert r = .ok { source := r.source, table, action := .insert columns values } r' := by
  have hs := statement_of_finish h hf table (.insert columns values)
  obtain ⟨r₅, h, hvalues⟩ := takes_append_iff.1 h
  obtain ⟨r₄, h, hcolumns⟩ := takes_append_iff.1 h
  obtain ⟨r₂, hinsert, h⟩ := takes_cons_iff_singleton.1 h
  obtain ⟨r₃, hinto, htable⟩ := takes_cons_iff_singleton.1 h
  obtain ⟨r₆, hkeyword, hvalues⟩ := takes_cons_iff_singleton.1 hvalues
  have hends₄ : r₄.Ends := htable.ends (hinto.ends (hinsert.ends hr))
  have hends₆ : r₆.Ends := hkeyword.ends (hcolumns.ends hends₄)
  have hvalues_ne : values ≠ [] := by
    rintro rfl
    exact hne (List.length_eq_zero_iff.1 hlength)
  refine bind_of_ok (keyword_iff.2 hinsert) (bind_of_ok (keyword_iff.2 hinto) ?_)
  refine bind_of_ok (identifier_iff.2 htable) ?_
  refine bind_of_ok (parenthesized_items_of_takes identifier_iff hends₄ hne hcolumns) ?_
  rw [firstRepeated?_eq_none_iff.2 ⟨hnodup, fun _ _ => List.not_mem_nil⟩]
  refine bind_of_ok (keyword_iff.2 hkeyword) ?_
  refine bind_of_ok (parenthesized_items_of_takes literal_iff hends₆ hvalues_ne hvalues) ?_
  refine bind_of_ok hf ?_
  rw [if_neg (Decidable.not_not.2 hlength)]
  exact hs

/-- The phrase of a SELECT is read as one. -/
theorem select_of_takes {columns : List String} (hr : r.Ends) (hne : columns ≠ [])
    (hc : ∀ c ∈ condition, c.operator = "=")
    (h : Takes r (.keyword "SELECT" :: names columns ++ [.keyword "FROM", .identifier table] ++
      whereClause condition) r₁)
    (hf : finish r₁ = .ok () r') :
    select r = .ok { source := r.source, table, action := .select columns condition } r' := by
  have hs := statement_of_finish h hf table (.select columns condition)
  obtain ⟨r₅, h, hwhere⟩ := takes_append_iff.1 h
  obtain ⟨r₃, h, hfrom⟩ := takes_append_iff.1 h
  obtain ⟨r₂, hselect, hcolumns⟩ := takes_cons_iff_singleton.1 h
  obtain ⟨r₄, hfrom, htable⟩ := takes_cons_iff_singleton.1 hfrom
  refine bind_of_ok (keyword_iff.2 hselect) ?_
  refine bind_of_ok (items_of_takes identifier_iff (hselect.ends hr) hne hcolumns
    (hfrom.clear (by simp))) ?_
  refine bind_of_ok (keyword_iff.2 hfrom) (bind_of_ok (identifier_iff.2 htable) ?_)
  exact bind_of_ok (condition_of_takes hc hwhere (clear_of_finish hf _)) (bind_of_ok hf hs)

/-- The phrase of a DELETE is read as one. -/
theorem delete_of_takes (hc : ∀ c ∈ condition, c.operator = "=")
    (h : Takes r ([.keyword "DELETE", .keyword "FROM", .identifier table] ++
      whereClause condition) r₁)
    (hf : finish r₁ = .ok () r') :
    delete r = .ok { source := r.source, table, action := .delete condition } r' := by
  have hs := statement_of_finish h hf table (.delete condition)
  obtain ⟨r₄, h, hwhere⟩ := takes_append_iff.1 h
  obtain ⟨r₂, hdelete, h⟩ := takes_cons_iff_singleton.1 h
  obtain ⟨r₃, hfrom, htable⟩ := takes_cons_iff_singleton.1 h
  refine bind_of_ok (keyword_iff.2 hdelete) (bind_of_ok (keyword_iff.2 hfrom) ?_)
  refine bind_of_ok (identifier_iff.2 htable) ?_
  exact bind_of_ok (condition_of_takes hc hwhere (clear_of_finish hf _)) (bind_of_ok hf hs)

/-- The phrase of an UPDATE is read as one. -/
theorem update_of_takes {pairs : List (String × String)} (hr : r.Ends) (hne : pairs ≠ [])
    (hnodup : (pairs.map Prod.fst).Nodup) (hc : ∀ c ∈ condition, c.operator = "=")
    (h : Takes r ([.keyword "UPDATE", .identifier table, .keyword "SET"] ++
      listed (pairs.map fun pair => comparison pair.1 pair.2) ++ whereClause condition) r₁)
    (hf : finish r₁ = .ok () r') :
    update r =
      .ok { source := r.source, table, action := .update (.ofList pairs) condition } r' := by
  have hs := statement_of_finish h hf table (.update (.ofList pairs) condition)
  obtain ⟨r₅, h, hwhere⟩ := takes_append_iff.1 h
  obtain ⟨r₄, h, hpairs⟩ := takes_append_iff.1 h
  obtain ⟨r₂, hupdate, h⟩ := takes_cons_iff_singleton.1 h
  obtain ⟨r₃, htable, hset⟩ := takes_cons_iff_singleton.1 h
  have hends : r₄.Ends := hset.ends (htable.ends (hupdate.ends hr))
  -- Behind the assignments there is a WHERE or the end, and no comma.
  have hstop : r₅.Clear [.comma] := by
    cases condition with
    | none => exact takes_nil_iff.1 hwhere ▸ clear_of_finish hf _
    | some c => exact Takes.clear hwhere (by simp)
  refine bind_of_ok (keyword_iff.2 hupdate) (bind_of_ok (identifier_iff.2 htable) ?_)
  refine bind_of_ok (keyword_iff.2 hset) ?_
  refine bind_of_ok (adds_assignment.separated_of_takes hends hne hpairs
    (foldlM_assign?.2 ⟨hnodup, rfl⟩) hstop) ?_
  exact bind_of_ok (condition_of_takes hc hwhere (clear_of_finish hf _)) (bind_of_ok hf hs)

/-- The phrase of a CREATE TABLE is read as one. -/
theorem createTable_of_takes {elements : List Element} (hr : r.Ends) (hne : elements ≠ [])
    (hadm : ∀ e ∈ elements, e.Admissible)
    (h : Takes r ([.keyword "CREATE", .keyword "TABLE", .identifier table] ++
      Grammar.parenthesized (listed (elements.map Element.symbols))) r₁)
    (hf : finish r₁ = .ok () r') :
    createTable r = .ok
      { source := r.source, table,
        action := .createTable (elements.flatMap Element.columns)
          (elements.flatMap Element.constraints) } r' := by
  have hs := statement_of_finish h hf table (.createTable (elements.flatMap Element.columns)
    (elements.flatMap Element.constraints))
  obtain ⟨r₄, h, hlist⟩ := takes_append_iff.1 h
  obtain ⟨r₂, hcreate, h⟩ := takes_cons_iff_singleton.1 h
  obtain ⟨r₃, hkeyword, htable⟩ := takes_cons_iff_singleton.1 h
  obtain ⟨r₅, r₆, ho, helements, hclose⟩ := takes_parenthesized_iff.1 hlist
  have hends : r₅.Ends := ho.ends (htable.ends (hkeyword.ends (hcreate.ends hr)))
  refine bind_of_ok (keyword_iff.2 hcreate) (bind_of_ok (keyword_iff.2 hkeyword) ?_)
  refine bind_of_ok (identifier_iff.2 htable) ?_
  refine bind_of_ok (parenthesized_iff.2 ⟨r₅, r₆, ho, adds_tableElement.separated_of_takes hends hne
    helements (foldlM_element?.2 ⟨hadm, rfl, rfl⟩) (hclose.clear (by decide)), hclose⟩) ?_
  exact bind_of_ok hf hs

/-- A phrase of the grammar begins with the keywords of an opening, and its reader reads it. -/
theorem read_of_derives {xs : List Symbol} {action : Action} (hd : Derives table xs action)
    (hr : r.Ends) (h : Takes r xs r₁) (hf : finish r₁ = .ok () r') :
    ∃ opening, openingSymbols opening <+: xs ∧
      opening.read r = .ok { source := r.source, table, action } r' := by
  cases hd with
  | insert hne hnodup hlength =>
    exact ⟨.insert, ⟨_, rfl⟩, insert_of_takes hr hne hnodup hlength h hf⟩
  | select hne hc => exact ⟨.select, ⟨_, rfl⟩, select_of_takes hr hne hc h hf⟩
  | delete hc => exact ⟨.delete, ⟨_, rfl⟩, delete_of_takes hc h hf⟩
  | update hne hnodup hc => exact ⟨.update, ⟨_, rfl⟩, update_of_takes hr hne hnodup hc h hf⟩
  | createTable hne hadm => exact ⟨.createTable, ⟨_, rfl⟩, createTable_of_takes hr hne hadm h hf⟩

end


end Reader

end RelStore.Sql
