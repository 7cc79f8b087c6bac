import RelStore.Text.Utf8

/-!
# What UTF-8 keeps

The bytes of a text are read back as the text (`decode?_encode`), and a line feed among them
comes from a line feed of the text alone, so that texts without one, each with a line feed
behind it, are the lines of their bytes (`lines_encode_append`).
-/

namespace RelStore.Text.Utf8

theorem toNat_ofNat_of_lt {n : Nat} (h : n < 256) : (UInt8.ofNat n).toNat = n := by
  rw [UInt8.toNat_ofNat']; exact Nat.mod_eq_of_lt h

theorem toNat_lt (c : Char) : c.toNat < 0x110000 := by
  have h : c.toNat.isValidChar := c.valid
  simp only [Nat.isValidChar] at h
  omega

theorem scalar?_toNat {least n : Nat} {c : Char} (hn : n = c.toNat) (h : least ≤ n) :
    scalar? least n = some c := by
  subst hn
  have hv : c.toNat.isValidChar := c.valid
  rw [scalar?, dif_pos hv, if_pos h]
  rfl

theorem isTail_ofNat {n : Nat} (h : n < 64) : isTail (.ofNat (0x80 + n)) = true := by
  rw [isTail, toNat_ofNat_of_lt (by omega), Bool.and_eq_true, decide_eq_true_eq,
    decide_eq_true_eq]
  omega

theorem tailBits_ofNat {n : Nat} (h : n < 64) : tailBits (.ofNat (0x80 + n)) = n := by
  have hn : (UInt8.ofNat (0x80 + n)).toNat = 0x80 + n := toNat_ofNat_of_lt (by omega)
  unfold tailBits
  omega

/-! ## Reading a character off its bytes, by their number -/

section Widths

variable {c : Char} (rest : Bytes)

theorem decode?_one (h : c.toNat < 0x80) :
    decode? (.ofNat c.toNat :: rest) = (decode? rest).map (c :: ·) := by
  rw [decode?.eq_def]
  dsimp only
  rw [toNat_ofNat_of_lt (by omega), if_pos h, Char.ofNat_toNat]

theorem decode?_two {a b : Nat} (ha : a < 32) (hb : b < 64) (hn : a * 64 + b = c.toNat)
    (h : 0x80 ≤ c.toNat) :
    decode? (.ofNat (0xC0 + a) :: .ofNat (0x80 + b) :: rest) = (decode? rest).map (c :: ·) := by
  have hc : scalar? 0x80 ((0xC0 + a - 0xC0) * 64 + b) = some c := scalar?_toNat (by omega) (by omega)
  rw [decode?.eq_def]
  dsimp only
  rw [toNat_ofNat_of_lt (by omega), if_neg (by omega), isTail_ofNat hb, if_neg (by simp),
    if_neg (by omega), if_pos (by omega), tailBits_ofNat hb, hc]
  rfl

theorem decode?_three {a b b' : Nat} (ha : a < 16) (hb : b < 64) (hb' : b' < 64)
    (hn : a * 4096 + b * 64 + b' = c.toNat) (h : 0x800 ≤ c.toNat) :
    decode? (.ofNat (0xE0 + a) :: .ofNat (0x80 + b) :: .ofNat (0x80 + b') :: rest) =
      (decode? rest).map (c :: ·) := by
  have hc : scalar? 0x800 ((0xE0 + a - 0xE0) * 4096 + b * 64 + b') = some c :=
    scalar?_toNat (by rw [Nat.add_sub_cancel_left]; exact hn) (by omega)
  rw [decode?.eq_def]
  dsimp only
  rw [toNat_ofNat_of_lt (by omega), if_neg (by omega), isTail_ofNat hb, if_neg (by simp),
    if_neg (by omega), if_neg (by omega), isTail_ofNat hb', if_neg (by simp), if_pos (by omega),
    tailBits_ofNat hb, tailBits_ofNat hb', hc]
  rfl

theorem decode?_four {a b b' b'' : Nat} (ha : a < 8) (hb : b < 64) (hb' : b' < 64) (hb'' : b'' < 64)
    (hn : a * 262144 + b * 4096 + b' * 64 + b'' = c.toNat) (h : 0x10000 ≤ c.toNat) :
    decode? (.ofNat (0xF0 + a) :: .ofNat (0x80 + b) :: .ofNat (0x80 + b') :: .ofNat (0x80 + b'') ::
      rest) = (decode? rest).map (c :: ·) := by
  have hc : scalar? 0x10000 ((0xF0 + a - 0xF0) * 262144 + b * 4096 + b' * 64 + b'') = some c :=
    scalar?_toNat (by rw [Nat.add_sub_cancel_left]; exact hn) (by rw [Nat.add_sub_cancel_left]; omega)
  have ht : ¬ (!isTail (.ofNat (0x80 + b'')) || decide (0xF8 ≤ 0xF0 + a)) = true := by
    rw [isTail_ofNat hb'']; simp; omega
  rw [decode?.eq_def]
  dsimp only
  rw [toNat_ofNat_of_lt (by omega), if_neg (by omega), isTail_ofNat hb, if_neg (by simp),
    if_neg (by omega), if_neg (by omega), isTail_ofNat hb', if_neg (by simp), if_neg (by omega),
    if_neg ht, tailBits_ofNat hb, tailBits_ofNat hb', tailBits_ofNat hb'', hc]
  rfl

end Widths

theorem decode?_encodeChar_append (c : Char) (rest : Bytes) :
    decode? (encodeChar c ++ rest) = (decode? rest).map (c :: ·) := by
  have hc := toNat_lt c
  simp only [encodeChar]
  split
  · exact decode?_one rest ‹_›
  · split
    · exact decode?_two rest (by omega) (by omega) (by omega) (by omega)
    · split
      · exact decode?_three rest (by omega) (by omega) (by omega) (by omega) (by omega)
      · exact decode?_four rest (by omega) (by omega) (by omega) (by omega) (by omega) (by omega)

theorem encode_cons (c : Char) (cs : List Char) : encode (c :: cs) = encodeChar c ++ encode cs :=
  List.flatMap_cons

theorem encode_append (cs ds : List Char) : encode (cs ++ ds) = encode cs ++ encode ds :=
  List.flatMap_append

/-- A text is read back from its bytes. -/
theorem decode?_encode (cs : List Char) : decode? (encode cs) = some cs := by
  induction cs with
  | nil => rfl
  | cons c cs ih => rw [encode_cons, decode?_encodeChar_append, ih]; rfl

theorem encode_ne_nil {cs : List Char} (h : cs ≠ []) : encode cs ≠ [] := by
  intro he
  have hd := decode?_encode cs
  rw [he] at hd
  exact h (Option.some.inj hd).symm

/-! ## Lines -/

theorem newline_mem_encodeChar {c : Char} (h : 10 ∈ encodeChar c) : c = '\n' := by
  have hc := toNat_lt c
  have hne : ∀ n, n < 256 → 10 ≠ n → (10 : UInt8) ≠ .ofNat n := fun n hn hne he => by
    have := congrArg UInt8.toNat he
    rw [toNat_ofNat_of_lt hn] at this
    exact hne this
  simp only [encodeChar] at h
  split at h
  · have hn : c.toNat = 10 := by
      rcases Nat.decEq c.toNat 10 with hn | hn
      · exact absurd (List.mem_singleton.1 h) (hne _ (by omega) (Ne.symm hn))
      · exact hn
    rw [← Char.ofNat_toNat c, hn]
  · exfalso
    revert h
    split
    · rw [imp_false, List.mem_cons, List.mem_singleton, not_or]
      exact ⟨hne _ (by omega) (by omega), hne _ (by omega) (by omega)⟩
    · split
      · simp only [imp_false, List.mem_cons, List.not_mem_nil, or_false, not_or]
        exact ⟨hne _ (by omega) (by omega), hne _ (by omega) (by omega), hne _ (by omega) (by omega)⟩
      · simp only [imp_false, List.mem_cons, List.not_mem_nil, or_false, not_or]
        exact ⟨hne _ (by omega) (by omega), hne _ (by omega) (by omega), hne _ (by omega) (by omega),
          hne _ (by omega) (by omega)⟩

theorem newline_not_mem_encode {cs : List Char} (h : '\n' ∉ cs) : 10 ∉ encode cs := by
  intro hm
  obtain ⟨c, hc, hm⟩ := List.mem_flatMap.1 hm
  exact h (newline_mem_encodeChar hm ▸ hc)

theorem lines_append_newline {bytes : Bytes} (h : 10 ∉ bytes) (rest : Bytes) :
    lines (bytes ++ 10 :: rest) = bytes :: lines rest := by
  induction bytes with
  | nil => rw [List.nil_append, lines, if_pos rfl]
  | cons b bytes ih =>
    rw [List.mem_cons, not_or] at h
    rw [List.cons_append, lines, if_neg (Ne.symm h.1), ih h.2]

/-- A text without a line feed, with one behind it, is the first line of its bytes. -/
theorem lines_encode_append {cs : List Char} (h : '\n' ∉ cs) (rest : Bytes) :
    lines (encode (cs ++ ['\n']) ++ rest) = encode cs :: lines rest := by
  rw [encode_append, List.append_assoc]
  exact lines_append_newline (newline_not_mem_encode h) rest

end RelStore.Text.Utf8
