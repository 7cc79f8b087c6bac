import Mathlib.Data.List.DropRight
import RelStore.Proofs.Text.Utf8

/-!
# The last line of a file

Bytes that spell a text are those of the text (`encode_of_decode?`), so what is put behind them is
read on its own (`decode?_append`), and bytes of a text that break off spell none only in the middle
of a character (`decode?_eq_none_iff`). A file falls into lines that are finished and the bytes
behind the last line feed (`finished`, `unfinished`); only those run into what is appended to the
file (`lines_finished_append`).
-/

namespace RelStore.Text.Utf8

/-! ## Bytes that spell a text -/

theorem toNat_of_scalar? {least n : Nat} {c : Char} (h : scalar? least n = some c) :
    c.toNat = n ∧ least ≤ n := by
  by_cases hn : n.isValidChar
  · by_cases hle : least ≤ n
    · rw [scalar?, dif_pos hn, if_pos hle] at h
      obtain rfl := Option.some.inj h
      exact ⟨rfl, hle⟩
    · rw [scalar?, dif_pos hn, if_neg hle] at h; cases h
  · rw [scalar?, dif_neg hn] at h; cases h

theorem ofNat_eq {a : UInt8} {n : Nat} (h : n = a.toNat) : UInt8.ofNat n = a := by
  rw [h]
  exact UInt8.ofNat_toNat

theorem toNat_of_isTail {b : UInt8} (h : isTail b = true) :
    b.toNat = 0x80 + tailBits b ∧ tailBits b < 64 := by
  unfold isTail at h
  rw [Bool.and_eq_true, decide_eq_true_eq, decide_eq_true_eq] at h
  unfold tailBits
  omega

section

variable {c : Char} {a b b' b'' : UInt8}

theorem encodeChar_two (ha : 0xC0 ≤ a.toNat) (ha' : a.toNat < 0xE0) (hb : isTail b = true)
    (h : scalar? 0x80 ((a.toNat - 0xC0) * 64 + tailBits b) = some c) : encodeChar c = [a, b] := by
  obtain ⟨hc, hle⟩ := toNat_of_scalar? h
  obtain ⟨hb, hb'⟩ := toNat_of_isTail hb
  simp only [encodeChar]
  rw [if_neg (by omega), if_pos (by omega), ofNat_eq (a := a) (by omega), ofNat_eq (a := b) (by omega)]

theorem encodeChar_three (ha : 0xE0 ≤ a.toNat) (ha' : a.toNat < 0xF0) (hb : isTail b = true)
    (hb' : isTail b' = true)
    (h : scalar? 0x800 ((a.toNat - 0xE0) * 4096 + tailBits b * 64 + tailBits b') = some c) :
    encodeChar c = [a, b, b'] := by
  obtain ⟨hc, hle⟩ := toNat_of_scalar? h
  obtain ⟨h₁, hlt⟩ := toNat_of_isTail hb
  obtain ⟨h₂, hlt'⟩ := toNat_of_isTail hb'
  simp only [encodeChar]
  rw [if_neg (by omega), if_neg (by omega), if_pos (by omega), ofNat_eq (a := a) (by omega),
    ofNat_eq (a := b) (by omega), ofNat_eq (a := b') (by omega)]

theorem encodeChar_four (ha : 0xF0 ≤ a.toNat) (hb : isTail b = true) (hb' : isTail b' = true)
    (hb'' : isTail b'' = true)
    (h : scalar? 0x10000 ((a.toNat - 0xF0) * 262144 + tailBits b * 4096 + tailBits b' * 64 +
      tailBits b'') = some c) : encodeChar c = [a, b, b', b''] := by
  obtain ⟨hc, hle⟩ := toNat_of_scalar? h
  obtain ⟨h₁, hlt⟩ := toNat_of_isTail hb
  obtain ⟨h₂, hlt'⟩ := toNat_of_isTail hb'
  obtain ⟨h₃, hlt''⟩ := toNat_of_isTail hb''
  simp only [encodeChar]
  rw [if_neg (by omega), if_neg (by omega), if_neg (by omega), ofNat_eq (a := a) (by omega),
    ofNat_eq (a := b) (by omega), ofNat_eq (a := b') (by omega), ofNat_eq (a := b'') (by omega)]

end

/-- One character and the rest of a text that was read. -/
theorem encode_of_bind (char : Option Char) (bytes : Bytes) {rest : Bytes} {cs : List Char}
    (hchar : ∀ c, char = some c → encodeChar c = bytes)
    (ih : ∀ {cs}, decode? rest = some cs → encode cs = rest)
    (h : (do let c ← char; (decode? rest).map (c :: ·)) = some cs) : encode cs = bytes ++ rest := by
  obtain ⟨c, hc, h⟩ := Option.bind_eq_some_iff.1 h
  obtain ⟨cs, hcs, rfl⟩ := Option.map_eq_some_iff.1 h
  rw [encode_cons, hchar c hc, ih hcs]

/-- Bytes are those of the text that they spell. -/
theorem encode_of_decode? {bytes : Bytes} {cs : List Char} (h : decode? bytes = some cs) :
    encode cs = bytes := by
  fun_induction decode? bytes generalizing cs
  case case1 => cases h; rfl
  case case2 a rest ha ih =>
    refine encode_of_bind (some (.ofNat a.toNat)) [a] (fun c hc => ?_) ih h
    have hn : c.toNat = a.toNat := by
      rw [← Option.some.inj hc, Char.ofNat, dif_pos (Or.inl (by omega))]
      rfl
    simp only [encodeChar]
    rw [hn, if_pos ha, UInt8.ofNat_toNat]
  case case6 a _ b rest hb hlow ha ih =>
    rw [Bool.not_eq_true', Bool.not_eq_false] at hb
    exact encode_of_bind _ [a, b]
      (fun c hc => encodeChar_two (Nat.le_of_not_lt hlow) ha hb hc) ih h
  case case9 a _ b hb _ hlow b' rest hb' ha ih =>
    rw [Bool.not_eq_true', Bool.not_eq_false] at hb hb'
    exact encode_of_bind _ [a, b, b']
      (fun c hc => encodeChar_three (Nat.le_of_not_lt hlow) ha hb hb' hc) ih h
  case case12 a _ b hb _ _ b' hb' hlow b'' rest hb'' ih =>
    rw [Bool.not_eq_true', Bool.not_eq_false] at hb hb'
    rw [Bool.or_eq_true, not_or, Bool.not_eq_true', Bool.not_eq_false] at hb''
    exact encode_of_bind _ [a, b, b', b'']
      (fun c hc => encodeChar_four (Nat.le_of_not_lt hlow) hb hb' hb''.1 hc) ih h
  all_goals cases h

/-- What stands behind bytes that spell a text is read on its own. -/
theorem decode?_append {bytes : Bytes} {cs : List Char} (h : decode? bytes = some cs)
    (rest : Bytes) : decode? (bytes ++ rest) = (decode? rest).map (cs ++ ·) := by
  rw [← encode_of_decode? h]
  clear h
  induction cs with
  | nil => exact (congrFun Option.map_id _).symm
  | cons c cs ih =>
    rw [encode_cons, List.append_assoc, decode?_encodeChar_append, ih, Option.map_map]
    rfl

/-! ## Bytes that break off -/

/-- So many bytes of a text end in the middle of one of its characters. -/
def SplitsCharacter (text : List Char) (n : Nat) : Prop :=
  ∃ before c, before ++ [c] <+: text ∧
    (encode before).length < n ∧ n < (encode (before ++ [c])).length

theorem SplitsCharacter.cons {text : List Char} {n : Nat} (h : SplitsCharacter text n) (c : Char) :
    SplitsCharacter (c :: text) ((encodeChar c).length + n) := by
  obtain ⟨before, d, hprefix, hlt, hgt⟩ := h
  refine ⟨c :: before, d, List.prefix_cons_inj c |>.2 hprefix, ?_, ?_⟩
  · rw [encode_cons, List.length_append]
    omega
  · rw [List.cons_append, encode_cons, List.length_append]
    omega

theorem encode_singleton (c : Char) : encode [c] = encodeChar c := List.append_nil _

/-- The bytes of one character are no others with more behind them. -/
theorem eq_nil_of_encodeChar_eq {c : Char} {cs : List Char} {rest : Bytes} (hne : cs ≠ [])
    (h : encode cs ++ rest = encodeChar c) : rest = [] := by
  have hd := decode?_encode [c]
  rw [encode_singleton, ← h, decode?_append (decode?_encode cs), Option.map_eq_some_iff] at hd
  obtain ⟨ds, hrest, heq⟩ := hd
  obtain ⟨d, cs, rfl⟩ := List.exists_cons_of_ne_nil hne
  rw [List.cons_append, List.cons.injEq, List.append_eq_nil_iff] at heq
  rw [← encode_of_decode? hrest, heq.2.2]
  rfl

theorem splitsCharacter_of_decode? {text : List Char} {bytes : Bytes} (h : bytes <+: encode text)
    (hn : decode? bytes = none) : SplitsCharacter text bytes.length := by
  induction text generalizing bytes with
  | nil =>
    rw [List.prefix_nil.1 h] at hn
    cases hn
  | cons c text ih =>
    rw [encode_cons] at h
    rcases List.prefix_or_prefix_of_prefix h (List.prefix_append (encodeChar c) _) with hp | hp
    · have hlt : bytes.length < (encodeChar c).length := by
        refine Nat.lt_of_le_of_ne hp.length_le fun he => ?_
        have hc := decode?_encodeChar_append c []
        rw [List.append_nil, ← hp.eq_of_length he, hn] at hc
        cases hc
      refine ⟨[], c, List.prefix_append [c] text, List.length_pos_iff.2 ?_, ?_⟩
      · rintro rfl
        cases hn
      · rwa [List.nil_append, encode_singleton]
    · obtain ⟨rest, rfl⟩ := hp
      rw [decode?_encodeChar_append, Option.map_eq_none_iff] at hn
      rw [List.length_append]
      exact (ih ((List.prefix_append_right_inj _).1 h) hn).cons c

theorem decode?_of_splitsCharacter {text : List Char} {bytes : Bytes} (h : bytes <+: encode text)
    (hsplits : SplitsCharacter text bytes.length) : decode? bytes = none := by
  obtain ⟨before, c, ⟨more, rfl⟩, hlt, hgt⟩ := hsplits
  rw [List.append_assoc, encode_append] at h
  obtain ⟨piece, rfl⟩ := List.prefix_of_prefix_length_le (List.prefix_append _ _) h hlt.le
  have hpiece := (List.prefix_append_right_inj _).1 h
  rw [encode_append, List.length_append, List.length_append, encode_singleton] at hgt
  rw [List.length_append] at hlt
  rw [List.singleton_append, encode_cons] at hpiece
  obtain ⟨rest, hrest⟩ :=
    List.prefix_of_prefix_length_le hpiece (List.prefix_append _ _) (by omega)
  rw [decode?_append (decode?_encode before), Option.map_eq_none_iff]
  cases hd : decode? piece with
  | none => rfl
  | some cs =>
    obtain rfl := encode_of_decode? hd
    have hne : cs ≠ [] := by
      rintro rfl
      exact absurd hlt (Nat.lt_irrefl _)
    have hlen := congrArg List.length hrest
    rw [eq_nil_of_encodeChar_eq hne hrest, List.append_nil] at hlen
    omega

/-- Bytes of a text that break off spell a text themselves if they do not break off in the middle
of a character. -/
theorem decode?_eq_none_iff {text : List Char} {bytes : Bytes} (h : bytes <+: encode text) :
    decode? bytes = none ↔ SplitsCharacter text bytes.length :=
  ⟨splitsCharacter_of_decode? h, decode?_of_splitsCharacter h⟩

/-! ## The last line -/

theorem rdropWhile_cases {α : Type} [DecidableEq α] (a : α) (l : List α) :
    l.rdropWhile (· != a) = [] ∨ ∃ l', l.rdropWhile (· != a) = l' ++ [a] := by
  by_cases h : l.rdropWhile (· != a) = []
  · exact .inl h
  · have hlast := List.rdropWhile_last_not _ _ h
    rw [Bool.not_eq_true, bne_eq_false_iff_eq] at hlast
    have hsplit := List.dropLast_append_getLast h
    rw [hlast] at hsplit
    exact .inr ⟨_, hsplit.symm⟩

theorem not_mem_rtakeWhile {α : Type} [DecidableEq α] (a : α) (l : List α) :
    a ∉ l.rtakeWhile (· != a) := fun h => by
  have hne := List.mem_rtakeWhile_imp h
  rw [bne_self_eq_false] at hne
  cases hne

/-- The bytes up to the last line feed. -/
def finished (bytes : Bytes) : Bytes := bytes.rdropWhile (· != 10)

/-- The bytes behind the last line feed. -/
def unfinished (bytes : Bytes) : Bytes := bytes.rtakeWhile (· != 10)

theorem finished_append_unfinished (bytes : Bytes) : finished bytes ++ unfinished bytes = bytes :=
  List.rdropWhile_append_rtakeWhile ..

theorem newline_not_mem_unfinished (bytes : Bytes) : 10 ∉ unfinished bytes :=
  not_mem_rtakeWhile 10 bytes

/-- What is finished ends in a line feed. -/
theorem finished_cases (bytes : Bytes) :
    finished bytes = [] ∨ ∃ line, finished bytes = line ++ [10] := rdropWhile_cases 10 bytes

theorem unfinished_append_newline (bytes : Bytes) : unfinished (bytes ++ [10]) = [] :=
  List.rtakeWhile_concat_neg _ _ _ (by decide)

theorem unfinished_append_of_not_mem {rest : Bytes} (h : 10 ∉ rest) (bytes : Bytes) :
    unfinished (bytes ++ rest) = unfinished bytes ++ rest := by
  induction rest using List.reverseRec with
  | nil => rw [List.append_nil, List.append_nil]
  | append_singleton rest b ih =>
    rw [List.mem_append, List.mem_singleton, not_or] at h
    have hb : (b != 10) = true := bne_iff_ne.2 (Ne.symm h.2)
    rw [← List.append_assoc, ← List.append_assoc, ← ih h.1]
    exact List.rtakeWhile_concat_pos _ _ _ hb

/-- What is unfinished of a text is unfinished of its bytes. -/
theorem unfinished_encode (cs : List Char) :
    unfinished (encode cs) = encode (cs.rtakeWhile (· != '\n')) := by
  induction cs using List.reverseRec with
  | nil => rfl
  | append_singleton cs c ih =>
    rw [encode_append, List.rtakeWhile_concat]
    by_cases hc : c = '\n'
    · subst hc
      exact unfinished_append_newline (encode cs)
    · have hnot : 10 ∉ encode [c] := newline_not_mem_encode (by simpa using Ne.symm hc)
      rw [unfinished_append_of_not_mem hnot, ih, if_pos (bne_iff_ne.2 hc), encode_append]

theorem finished_of_unfinished {bytes : Bytes} (h : unfinished bytes = []) : finished bytes = bytes := by
  have hs := finished_append_unfinished bytes
  rwa [h, List.append_nil] at hs

theorem lines_ne_nil {bytes : Bytes} (h : bytes ≠ []) : lines bytes ≠ [] := by
  cases bytes with
  | nil => exact absurd rfl h
  | cons b rest =>
    rw [lines]
    split_ifs
    · exact List.cons_ne_nil _ _
    · cases lines rest <;> exact List.cons_ne_nil _ _

theorem lines_append_of_newline (bytes rest : Bytes) :
    lines (bytes ++ [10] ++ rest) = lines (bytes ++ [10]) ++ lines rest := by
  induction bytes with
  | nil => rfl
  | cons b bytes ih =>
    rw [List.cons_append, List.cons_append, lines, ih, lines]
    split_ifs
    · rfl
    · have hne : lines (bytes ++ [10]) ≠ [] := lines_ne_nil (by simp)
      obtain ⟨line, more, hl⟩ := List.exists_cons_of_ne_nil hne
      rw [hl]
      rfl

/-- What stands behind finished lines is cut on its own. -/
theorem lines_finished_append (bytes rest : Bytes) :
    lines (finished bytes ++ rest) = lines (finished bytes) ++ lines rest := by
  rcases finished_cases bytes with h | ⟨line, h⟩ <;> rw [h]
  · rfl
  · exact lines_append_of_newline line rest

end RelStore.Text.Utf8
