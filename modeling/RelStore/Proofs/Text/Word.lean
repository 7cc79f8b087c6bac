import Mathlib.Tactic.SplitIfs
import RelStore.Text.CharClass
import RelStore.Text.Uppercase

/-!
# Words, blanks and capitals

A blank never stands inside a word (`isWordChar_of_isBlank`), so trimming a text that begins
with a word leaves the word alone (`trim_of_word`). A word whose capitals spell TABLE has ASCII
letters only (`map_toUpper_of_capitals`).
-/

namespace RelStore.Text

/-! ## Blanks -/

theorem isWordChar_of_isBlank {c : Char} (h : isBlank c = true) : isWordChar c = false := by
  have table : ∀ range ∈ whiteSpace, ∀ k ≤ range.2 - range.1,
      isWordChar (Char.ofNat (range.1 + k)) = false := by decide +kernel
  obtain ⟨range, hrange, hc⟩ := List.any_eq_true.1 h
  rw [Bool.and_eq_true, decide_eq_true_iff, decide_eq_true_iff] at hc
  have := table range hrange (c.toNat - range.1) (by omega)
  rwa [Nat.add_sub_cancel' hc.1, Char.ofNat_toNat] at this

theorem not_isBlank_of_isWordChar {c : Char} (h : isWordChar c = true) : isBlank c = false := by
  cases hb : isBlank c with
  | false => rfl
  | true => rw [isWordChar_of_isBlank hb] at h; cases h

section

variable {blanks word after : List Char}

theorem trimStart_of_blanks (hb : ∀ c ∈ blanks, isBlank c = true) (rest : List Char) :
    trimStart (blanks ++ rest) = trimStart rest :=
  List.dropWhile_append_of_pos hb

theorem trimStart_of_word (hne : word ≠ []) (hw : ∀ c ∈ word, isWordChar c = true)
    (after : List Char) : trimStart (word ++ after) = word ++ after := by
  obtain ⟨c, word, rfl⟩ := List.exists_cons_of_ne_nil hne
  have hc := not_isBlank_of_isWordChar (hw c List.mem_cons_self)
  rw [trimStart, List.cons_append, List.dropWhile_cons_of_neg (Bool.not_eq_true _ ▸ hc)]

theorem trimEnd_of_word (before : List Char) (hne : word ≠ [])
    (hw : ∀ c ∈ word, isWordChar c = true) :
    trimEnd (before ++ (word ++ after)) = before ++ (word ++ trimEnd after) := by
  have hword := trimStart_of_word (List.reverse_ne_nil_iff.2 hne)
    (fun c hc => hw c (List.mem_reverse.1 hc)) before.reverse
  rw [trimStart, ← List.reverse_append] at hword
  rw [← List.append_assoc, ← List.append_assoc, trimEnd, List.reverse_append,
    List.dropWhile_append]
  split
  · next h =>
    rw [trimEnd, List.isEmpty_iff.1 h, hword, List.reverse_reverse, List.reverse_nil,
      List.append_nil]
  · rw [List.reverse_append, List.reverse_reverse]
    rfl

theorem trim_of_word (hb : ∀ c ∈ blanks, isBlank c = true) (hne : word ≠ [])
    (hw : ∀ c ∈ word, isWordChar c = true) :
    trim (blanks ++ (word ++ after)) = word ++ trimEnd after := by
  rw [trim, trimStart_of_blanks hb, trimStart_of_word hne hw]
  exact trimEnd_of_word [] hne hw

theorem mem_head?_of_trimEnd {c : Char} (h : c ∈ (trimEnd after).head?) : c ∈ after.head? := by
  have hprefix : trimEnd after <+: after := by
    rw [← List.reverse_suffix, trimEnd, List.reverse_reverse]
    exact List.dropWhile_suffix _
  obtain ⟨rest, hrest⟩ := hprefix
  rw [← hrest, List.head?_append, Option.mem_def.1 h]
  rfl

/-- A text that begins with characters of a kind and then has none. -/
theorem span_append {p : Char → Bool} {cs : List Char} (h : ∀ c ∈ cs, p c = true)
    (ha : ∀ c ∈ after.head?, p c = false) :
    (cs ++ after).takeWhile p = cs ∧ (cs ++ after).dropWhile p = after := by
  rw [List.takeWhile_append_of_pos h, List.dropWhile_append_of_pos h]
  cases after with
  | nil => exact ⟨List.append_nil _, rfl⟩
  | cons c after =>
    have hc : ¬ p c = true := by rw [ha c rfl]; exact Bool.false_ne_true
    rw [List.takeWhile_cons_of_neg hc, List.dropWhile_cons_of_neg hc, List.append_nil]
    exact ⟨rfl, rfl⟩

end

theorem digit_cases {p : Char → Prop} (table : ∀ k ≤ 9, p (Char.ofNat (48 + k))) {c : Char}
    (h : c.isDigit = true) : p c := by
  rw [Char.isDigit, Bool.and_eq_true, decide_eq_true_iff, decide_eq_true_iff] at h
  have hlower : 48 ≤ c.toNat := UInt32.le_iff_toNat_le.1 h.1
  have hupper : c.toNat ≤ 57 := UInt32.le_iff_toNat_le.1 h.2
  have := table (c.toNat - 48) (by omega)
  rwa [Nat.add_sub_cancel' hlower, Char.ofNat_toNat] at this

/-- A digit is not a letter. -/
theorem isAlphabetic_of_isDigit {c : Char} (h : c.isDigit = true) : isAlphabetic c = false :=
  digit_cases (p := fun c => isAlphabetic c = false) (by decide) h

theorem isWordChar_of_isDigit {c : Char} (h : c.isDigit = true) : isWordChar c = true :=
  digit_cases (p := fun c => isWordChar c = true) (by decide) h

/-! ## Capitals -/

theorem toNat_ofNat (n : Nat) : (Char.ofNat n).toNat = n ∨ (Char.ofNat n).toNat = 0 := by
  by_cases h : n.isValidChar
  · exact .inl (by rw [Char.ofNat, dif_pos h]; rfl)
  · exact .inr (by rw [Char.ofNat, dif_neg h]; rfl)

/-- No letter above ASCII has a capital within TABLE. -/
theorem val_lt_of_upperChar {c : Char} (h : upperChar c ⊆ "TABLE".toList) : c.val < 128 := by
  have hsingle : ∀ run ∈ caseRuns, 128 ≤ run.capital ∨
      run.first = run.last ∧ (run.capital = 0x49 ∨ run.capital = 0x53) := by decide +kernel
  have hseveral : ∀ entry ∈ expandingCapitals, ¬ entry.2.map Char.ofNat ⊆ "TABLE".toList := by
    decide +kernel
  have hletters : ∀ n ∈ "TABLE".toList.map Char.toNat, 65 ≤ n ∧ n < 128 ∧ n ≠ 0x49 ∧ n ≠ 0x53 := by
    decide
  refine Decidable.byContradiction fun hge => ?_
  rw [upperChar, if_neg hge] at h
  split at h
  · next capitals hl =>
    obtain ⟨before, behind, hmem, -⟩ := List.lookup_eq_some_iff.1 hl
    exact hseveral (c.toNat, capitals) (hmem ▸ by simp) h
  · split at h
    · next capital hf =>
      obtain ⟨run, hrun, hu⟩ := List.exists_of_findSome?_eq_some hf
      unfold CaseRun.upper? at hu
      split_ifs at hu with hc
      obtain rfl := Option.some.inj hu
      have hletter := hletters _ (List.mem_map_of_mem (h List.mem_cons_self))
      simp only [Bool.and_eq_true, decide_eq_true_iff] at hc
      have hrange := hsingle run hrun
      have hcode := toNat_ofNat (run.capital + (c.toNat - run.first))
      omega
    · have hletter := hletters _ (List.mem_map_of_mem (h List.mem_cons_self))
      exact hge (UInt32.lt_iff_toNat_lt.2 hletter.2.1)

/-- A word whose capitals are TABLE has them in ASCII. -/
theorem map_toUpper_of_capitals {word : List Char}
    (h : word.flatMap upperChar = "TABLE".toList) : word.map Char.toUpper = "TABLE".toList := by
  have hchar : ∀ c ∈ word, upperChar c = [c.toUpper] := fun c hc => by
    have hlt := val_lt_of_upperChar fun d hd => h ▸ List.mem_flatMap.2 ⟨c, hc, hd⟩
    rw [upperChar, if_pos hlt]
  rw [← h, List.map_eq_flatMap, List.flatMap_def, List.flatMap_def, List.map_congr_left hchar]

end RelStore.Text
