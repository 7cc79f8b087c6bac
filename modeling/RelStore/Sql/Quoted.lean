/-!
# Quoted literals

A literal stands between single quotes, and a quote inside of it is written twice. Main
statements: what is read is the quoted form (`eq_of_quoted?`), and the quoted form is read
whatever follows it, another quote apart (`quoted?_doubleQuotes`).
-/

namespace RelStore.Sql

/-- The characters of a literal with every quote doubled. -/
def doubleQuotes : List Char → List Char
  | [] => []
  | c :: rest => if c = '\'' then '\'' :: '\'' :: doubleQuotes rest else c :: doubleQuotes rest

/-- The contents of a quoted literal, behind its opening quote, and what follows its closing
quote. A doubled quote stands for one. -/
def quoted? : List Char → Option (List Char × List Char)
  | [] => none
  | '\'' :: '\'' :: rest => (quoted? rest).map fun (text, after) => ('\'' :: text, after)
  | '\'' :: rest => some ([], rest)
  | c :: rest => (quoted? rest).map fun (text, after) => (c :: text, after)

theorem eq_of_quoted? {cs text rest : List Char} (h : quoted? cs = some (text, rest)) :
    cs = doubleQuotes text ++ '\'' :: rest := by
  fun_induction quoted? cs generalizing text with
  | case1 => simp at h
  | case2 after ih =>
    obtain ⟨⟨t, r⟩, ht, he⟩ := Option.map_eq_some_iff.1 h
    obtain ⟨rfl, rfl⟩ := Prod.mk.inj he
    simp [doubleQuotes, ih ht]
  | case3 after =>
    obtain ⟨rfl, rfl⟩ := Prod.mk.inj (Option.some.inj h)
    rfl
  | case4 c after _ hc ih =>
    obtain ⟨⟨t, r⟩, ht, he⟩ := Option.map_eq_some_iff.1 h
    obtain ⟨rfl, rfl⟩ := Prod.mk.inj he
    rw [doubleQuotes, if_neg (fun h => hc h), ih ht, List.cons_append]

theorem quoted?_doubleQuotes (text : List Char) {rest : List Char}
    (h : rest.head? ≠ some '\'') :
    quoted? (doubleQuotes text ++ '\'' :: rest) = some (text, rest) := by
  induction text with
  | nil =>
    cases rest with
    | nil => rfl
    | cons c rest =>
      have hc : c ≠ '\'' := fun hc => h (congrArg some hc)
      rw [doubleQuotes, List.nil_append, quoted?]
      exact fun after he => hc (List.cons.inj he).1
  | cons c text ih =>
    by_cases hc : c = '\''
    · rw [doubleQuotes, if_pos hc, List.cons_append, List.cons_append, quoted?, ih, hc]; rfl
    · rw [doubleQuotes, if_neg hc, List.cons_append, quoted?, ih]
      · rfl
      · exact fun _ he _ => hc he
      · exact fun he => hc he

end RelStore.Sql
