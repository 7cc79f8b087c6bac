import Mathlib.Data.List.Induction
import RelStore.Json.Reader
import RelStore.Proofs.Separated

/-!
# Reading back what was written

A reader that meets the written form of a string, of a natural number or of an object of
strings goes on as after the value itself. `Reads` follows a reader over a text;
`reads_key`, `reads_string`, `reads_natural` and `reads_object` are the interface for text
without blanks, `Blanks.reads` and `Spells.reads_blanks` for text with blanks between its tokens.
-/

namespace RelStore.Json

/-- A reader gets over a text and stands elsewhere then. -/
def Reads (r : Reader) (text : List Char) (r' : Reader) : Prop :=
  text.foldlM Reader.step r = some r'

theorem Reads.nil (r : Reader) : Reads r [] r := rfl

theorem Reads.cons {r r' r'' : Reader} {c : Char} {text : List Char} (h : r.step c = some r')
    (h' : Reads r' text r'') : Reads r (c :: text) r'' := by
  rw [Reads, List.foldlM_cons, h]; exact h'

theorem Reads.append {r r' r'' : Reader} {text text' : List Char} (h : Reads r text r')
    (h' : Reads r' text' r'') : Reads r (text ++ text') r'' := by
  rw [Reads, List.foldlM_append, h]; exact h'

theorem Reads.single {r r' : Reader} {c : Char} (h : r.step c = some r') : Reads r [c] r' :=
  .cons h (.nil r')

/-! ## Blanks -/

/-- Whether a token has ended and the next one has not begun. -/
def Place.isBetween : Place → Bool
  | .string .. | .number .. | .word .. => false
  | _ => true

theorem step_of_isBetween {r : Reader} (hr : r.place.isBetween = true) (c : Char) :
    r.step c = r.between c := by
  obtain ⟨frames, place, exact⟩ := r
  cases place <;> first | rfl | simp [Place.isBetween] at hr

theorem between_of_isSpace (r : Reader) {c : Char} (hc : isSpace c = true) :
    r.between c = some r := by
  rw [Reader.between, if_pos hc]

/-- The blanks between two tokens. -/
structure Blanks where
  text : List Char := []
  all_isSpace : text.all isSpace = true := by rfl

theorem Blanks.reads (blanks : Blanks) {r : Reader} (hr : r.place.isBetween = true) :
    Reads r blanks.text r := by
  obtain ⟨text, h⟩ := blanks
  show Reads r text r
  induction text with
  | nil => exact .nil r
  | cons c text ih =>
    rw [List.all_cons, Bool.and_eq_true] at h
    exact .cons ((step_of_isBetween hr c).trans (between_of_isSpace r h.1)) (ih h.2)

variable {frames : List Frame} {exact : Bool}

/-! ## Strings -/

theorem hexValue?_hexDigit {d : Nat} (h : d < 16) : hexValue? (hexDigit d) = some d := by
  have : ∀ d < 16, hexValue? (hexDigit d) = some d := by decide
  exact this d h

section

variable {isKey : Bool} {read : PartialString}

theorem step_backslash :
    Reader.step ⟨frames, .string isKey .none read, exact⟩ '\\' =
      some ⟨frames, .string isKey .backslash read, exact⟩ := rfl

theorem step_escape {c u : Char} (hc : c ≠ 'u') (h : unescape? c = some u) :
    Reader.step ⟨frames, .string isKey .backslash read, exact⟩ c =
      some ⟨frames, .string isKey .none (read.push u), exact⟩ := by
  simp only [Reader.step, Reader.inString, if_neg hc, h]

theorem step_plain {c : Char} (h : c ≠ '"') (h' : c ≠ '\\') (hc : ¬ c.toNat < 32) :
    Reader.step ⟨frames, .string isKey .none read, exact⟩ c =
      some ⟨frames, .string isKey .none (read.push c), exact⟩ := by
  simp only [Reader.step, Reader.inString, if_neg h, if_neg h', if_neg hc]

theorem step_unit {left value digit : Nat} {c : Char} (h : hexValue? c = some digit)
    (hl : ¬ left ≤ 1) :
    Reader.step ⟨frames, .string isKey (.unit left value) read, exact⟩ c =
      some ⟨frames, .string isKey (.unit (left - 1) (16 * value + digit)) read, exact⟩ := by
  simp only [Reader.step, Reader.inString, h, if_neg hl]

theorem step_lastUnit {value digit : Nat} {c : Char} (h : hexValue? c = some digit) :
    Reader.step ⟨frames, .string isKey (.unit 1 value) read, exact⟩ c =
      some ⟨frames, .string isKey .none (read.pushUnit (16 * value + digit)), exact⟩ := by
  simp only [Reader.step, Reader.inString, h, if_pos (Nat.le_refl 1)]

theorem pushUnit_of_lt {unit : Nat} (h : unit < 0xD800) :
    read.pushUnit unit = read.push (Char.ofNat unit) := by
  rw [PartialString.pushUnit, if_neg (by simp; omega), if_neg (by simp; omega)]

/-- The two digits of a control character, behind two zeros. -/
theorem reads_control {c : Char} (h : c.toNat < 32) :
    Reads ⟨frames, .string isKey .none read, exact⟩
      ['\\', 'u', '0', '0', hexDigit (c.toNat / 16), hexDigit (c.toNat % 16)]
      ⟨frames, .string isKey .none (read.push c), exact⟩ := by
  have hu : Reader.step ⟨frames, .string isKey .backslash read, exact⟩ 'u' =
      some ⟨frames, .string isKey (.unit 4 0) read, exact⟩ := rfl
  have hzero : hexValue? '0' = some 0 := rfl
  have hv : 16 * (16 * (16 * (16 * 0 + 0) + 0) + c.toNat / 16) + c.toNat % 16 = c.toNat := by omega
  have hp : read.push c =
      read.pushUnit (16 * (16 * (16 * (16 * 0 + 0) + 0) + c.toNat / 16) + c.toNat % 16) := by
    rw [hv, pushUnit_of_lt (by omega), Char.ofNat_toNat]
  rw [hp]
  refine .cons step_backslash (.cons hu ?_)
  refine .cons (step_unit hzero (by decide)) ?_
  refine .cons (step_unit hzero (by decide)) ?_
  refine .cons (step_unit (hexValue?_hexDigit (by omega)) (by decide)) ?_
  exact .single (step_lastUnit (hexValue?_hexDigit (by omega)))

/-- A character between quotes is taken over. -/
theorem reads_escapeChar (c : Char) :
    Reads ⟨frames, .string isKey .none read, exact⟩ (escapeChar c)
      ⟨frames, .string isKey .none (read.push c), exact⟩ := by
  unfold escapeChar
  split
  case h_8 _ hq hb _ _ _ _ _ =>
    split
    · exact reads_control ‹_›
    · exact .single (step_plain hq hb ‹_›)
  all_goals exact .cons step_backslash (.single (step_escape (by decide) rfl))

theorem reads_chars (cs : List Char) :
    Reads ⟨frames, .string isKey .none read, exact⟩ (cs.flatMap escapeChar)
      ⟨frames, .string isKey .none (cs.foldl PartialString.push read), exact⟩ := by
  induction cs generalizing read with
  | nil => exact .nil _
  | cons c cs ih =>
    rw [List.flatMap_cons, List.foldl_cons]
    exact (reads_escapeChar c).append ih

end

theorem text?_foldl_push (s : String) :
    (s.toList.foldl PartialString.push {}).text? = some s := by
  have h : ∀ (cs : List Char) (read : PartialString), read.unpaired = false → read.high = none →
      (cs.foldl PartialString.push read).text? =
        some (String.ofList (read.chars.reverse ++ cs)) := by
    intro cs
    induction cs with
    | nil => intro read hu hh; simp [PartialString.text?, hu, hh]
    | cons c cs ih =>
      intro read hu hh
      rw [List.foldl_cons, ih (read.push c) (by simp [PartialString.push, hu, hh]) rfl]
      simp [PartialString.push]
  rw [h s.toList {} rfl rfl]
  simp

/-- A written string, behind its first quote. -/
theorem reads_text {isKey : Bool} {s : String} {r : Reader}
    (h : (if isKey then some ⟨frames, .colon (some s), exact⟩
      else Reader.give ⟨frames, .string false .none {}, exact⟩ (.string (some s))) = some r) :
    Reads ⟨frames, .string isKey .none {}, exact⟩ (s.toList.flatMap escapeChar ++ ['"']) r := by
  refine (reads_chars s.toList).append (.single ?_)
  cases isKey <;>
    simpa [Reader.step, Reader.inString, Reader.giveString, text?_foldl_push, Reader.give] using h

/-- A written string where a value is awaited. -/
theorem reads_string {s : String} {r : Reader}
    (h : Reader.give ⟨frames, .value, exact⟩ (.string (some s)) = some r) :
    Reads ⟨frames, .value, exact⟩ (quote s) r := by
  have hq : Reader.step ⟨frames, .value, exact⟩ '"' =
      some ⟨frames, .string false .none {}, exact⟩ := rfl
  exact .cons hq (reads_text (by simpa [Reader.give] using h))

/-- A written key where a key is awaited. -/
theorem reads_quote {place : Place} (hp : place = .firstKey ∨ place = .key) (key : String)
    (members : List (Option String × Value)) :
    Reads ⟨.object members :: frames, place, exact⟩ (quote key)
      ⟨.object members :: frames, .colon (some key), exact⟩ := by
  have hq : Reader.step ⟨.object members :: frames, place, exact⟩ '"' =
      some ⟨.object members :: frames, .string true .none {}, exact⟩ := by
    rcases hp with rfl | rfl <;> rfl
  exact .cons hq (reads_text (by rw [if_pos rfl]))

theorem step_colon (key : String) (members : List (Option String × Value)) :
    Reader.step ⟨.object members :: frames, .colon (some key), exact⟩ ':' =
      some ⟨.member (some key) members :: frames, .value, exact⟩ := rfl

/-- A written key with its colon. -/
theorem reads_key {place : Place} (hp : place = .firstKey ∨ place = .key) (key : String)
    (members : List (Option String × Value)) :
    Reads ⟨.object members :: frames, place, exact⟩ (quote key ++ [':'])
      ⟨.member (some key) members :: frames, .value, exact⟩ :=
  (reads_quote hp key members).append (.single (step_colon key members))

/-! ## Natural numbers -/

theorem foldl_pushWhole {digits : List Char} (h : Text.Decimal.value digits < UInt64.size) :
    (digits.map Text.Decimal.digitValue).foldl Number.Scaled.pushWhole {} =
      { significand := Text.Decimal.value digits } := by
  induction digits using List.reverseRec with
  | nil => rfl
  | append_singleton cs c ih =>
    rw [Text.Decimal.value_append_singleton] at h
    rw [List.map_append, List.foldl_append, ih (by omega), Text.Decimal.value_append_singleton]
    simp only [List.map_cons, List.map_nil, List.foldl_cons, List.foldl_nil,
      Number.Scaled.pushWhole, Bool.false_or]
    rw [if_neg (by simpa using h)]

theorem roundToDouble_le (n : Nat) : Number.roundToDouble n ≤ 2 * n := by
  unfold Number.roundToDouble
  split
  · omega
  · next h =>
    have hn : n ≠ 0 := by rintro rfl; exact h (by decide)
    have hu : Nat.pow 2 (n.log2 - 52) ≤ n :=
      Nat.le_trans (Nat.pow_le_pow_right (by decide) (Nat.sub_le _ _)) (Nat.log2_self_le hn)
    have hd : n / Nat.pow 2 (n.log2 - 52) * Nat.pow 2 (n.log2 - 52) ≤ n := Nat.div_mul_le_self ..
    dsimp only
    generalize Nat.pow 2 (n.log2 - 52) = unit at hu hd
    split
    · rw [Nat.add_mul, Nat.one_mul]; omega
    · omega

/-- A natural number of 64 bits lies in the range of double precision. -/
theorem inRange_ofNat {n : Nat} (h : n < UInt64.size) : (Number.ofNat n).inRange = true := by
  have hs : (Number.ofNat n).scaled = { significand := n } := by
    have hv := Text.Decimal.value_digits n
    simp only [Number.scaled, Number.ofNat]
    rw [foldl_pushWhole (by rw [hv]; exact h), hv]
    rfl
  have hb : 2 * UInt64.size * 1 < Number.overflowBound := by
    decide +kernel
  have hr : Number.roundToDouble n * Number.roundToDouble (Nat.pow 10 0) < Number.overflowBound := by
    have h1 : Number.roundToDouble (Nat.pow 10 0) = 1 := by decide
    have hn := roundToDouble_le n
    rw [h1]
    omega
  rw [Number.inRange, hs]
  simp only [Bool.or_eq_true, Bool.and_eq_true, decide_eq_true_eq]
  exact .inr ⟨by decide, hr⟩

theorem digits_cons {n : Nat} (h : 0 < n) :
    ∃ c cs, Text.Decimal.digits n = c :: cs ∧ c ≠ '0' ∧ c.isDigit = true ∧
      ∀ c ∈ cs, c.isDigit = true := by
  have hd : ∀ c ∈ Text.Decimal.digits n, c.isDigit = true :=
    fun c hc => Text.Decimal.isDigit_of_mem_digits hc
  have hz : ∀ m, 0 < m → (Text.Decimal.digits m).head? ≠ some '0' := by
    intro m
    induction m using Text.Decimal.digits.induct with
    | case1 m hm =>
      have : ∀ d < 10, 0 < d → [Text.Decimal.digit d].head? ≠ some '0' := by decide
      rw [Text.Decimal.digits, if_pos hm]
      exact this m hm
    | case2 m hm ih =>
      intro _
      have hne := Text.Decimal.digits_ne_nil (m / 10)
      rw [Text.Decimal.digits, if_neg hm, List.head?_append, List.head?_eq_some_head hne,
        Option.some_or, ← List.head?_eq_some_head hne]
      exact ih (by omega)
  obtain ⟨c, cs, hcs⟩ := List.exists_cons_of_ne_nil (Text.Decimal.digits_ne_nil n)
  rw [hcs, List.forall_mem_cons] at hd
  refine ⟨c, cs, hcs, fun hc => hz n h ?_, hd⟩
  rw [hcs, hc]; rfl

theorem start_digit {c : Char} (hd : c.isDigit = true) (hz : c ≠ '0') :
    Reader.step ⟨frames, .value, exact⟩ c =
      some ⟨frames, .number .whole { whole := [c] }, exact⟩ := by
  have hs : isSpace c = false := by
    rw [isSpace]
    simp only [Bool.or_eq_false_iff, decide_eq_false_iff_not]
    refine ⟨⟨⟨?_, ?_⟩, ?_⟩, ?_⟩ <;> rintro rfl <;> exact absurd hd (by decide)
  have hp : NumberPhase.push .minus {} c = some (.whole, { whole := [c] }) := by
    simp only [NumberPhase.push, if_neg hz, if_pos hd]
  simp only [Reader.step, Reader.between, hs, Bool.false_eq_true, if_false]
  unfold Reader.start
  split
  case h_8 => rw [hp]; rfl
  all_goals exact absurd hd (by decide)

theorem reads_digits (read : Number) {cs : List Char} (h : ∀ c ∈ cs, c.isDigit = true) :
    Reads ⟨frames, .number .whole read, exact⟩ cs
      ⟨frames, .number .whole { read with whole := read.whole ++ cs }, exact⟩ := by
  induction cs generalizing read with
  | nil => rw [List.append_nil]; exact .nil _
  | cons c cs ih =>
    rw [List.forall_mem_cons] at h
    have hc : Reader.step ⟨frames, .number .whole read, exact⟩ c =
        some ⟨frames, .number .whole { read with whole := read.whole ++ [c] }, exact⟩ := by
      simp only [Reader.step, NumberPhase.push, if_pos h.1]
    have ht := ih { read with whole := read.whole ++ [c] } h.2
    rw [List.append_assoc] at ht
    exact .cons hc ht

theorem give_place (place : Place) (value : Value) :
    Reader.give ⟨frames, place, exact⟩ value = Reader.give ⟨frames, .value, exact⟩ value := by
  rcases frames with _ | ⟨_ | _ | _, _⟩ <;> rfl

/-- Whether a number ends before a character: at a blank, a comma or a closing brace. -/
def Ends (c : Char) : Prop := isSpace c = true ∨ c = ',' ∨ c = '}'

theorem push_ends {phase : NumberPhase} (hp : phase = .zero ∨ phase = .whole) (number : Number)
    {c : Char} (hc : Ends c) : phase.push number c = none := by
  simp only [Ends, isSpace, Bool.or_eq_true, decide_eq_true_eq, or_assoc] at hc
  rcases hp with rfl | rfl <;> rcases hc with rfl | rfl | rfl | rfl | rfl | rfl <;> rfl

/-- A written natural number where a value is awaited, and the character that ends it. -/
theorem reads_natural {n : Nat} (hn : n < UInt64.size) {c : Char} (hc : Ends c) {r : Reader}
    (h : (Reader.give ⟨frames, .value, exact⟩ (.number (.ofNat n))).bind (·.between c) = some r) :
    Reads ⟨frames, .value, exact⟩ (Text.Decimal.digits n ++ [c]) r := by
  have hend : ∀ phase, phase = .zero ∨ phase = .whole →
      Reader.step ⟨frames, .number phase (.ofNat n), exact⟩ c = some r := by
    intro phase hphase
    have hp : phase.push (.ofNat n) c = none := push_ends hphase _ hc
    have hf : phase.complete = true := by rcases hphase with rfl | rfl <;> rfl
    simp only [Reader.step, hp, Reader.giveNumber, hf, if_true, inRange_ofNat hn, Bool.and_true]
    rw [give_place]
    exact h
  rcases Nat.eq_zero_or_pos n with rfl | hpos
  · have hz : Text.Decimal.digits 0 = ['0'] := by rw [Text.Decimal.digits]; rfl
    have hs : Reader.step ⟨frames, .value, exact⟩ '0' =
        some ⟨frames, .number .zero (.ofNat 0), exact⟩ := by rw [Number.ofNat, hz]; rfl
    rw [hz]
    exact .cons hs (.single (hend .zero (.inl rfl)))
  · obtain ⟨d, ds, hds, hz, hd, hmore⟩ := digits_cons hpos
    have hw : Number.ofNat n = { whole := [d] ++ ds } := by rw [Number.ofNat, hds]; rfl
    rw [hds]
    refine .cons (start_digit hd hz) ((reads_digits _ hmore).append (.single ?_))
    rw [← hend .whole (.inr rfl), hw]

/-- A natural number of 64 bits is read off its digits. -/
theorem natural?_ofNat (n : UInt64) : (Number.ofNat n.toNat).natural? = some n := by
  have hr : Text.Decimal.read? UInt64.size _ = _ := Text.Decimal.read?_digits n.toNat_lt
  unfold Number.natural? Number.ofNat
  rw [hr]
  simp

/-! ## Values among blanks -/

/-- A text that a reader takes for a value, once a character behind it ends it. -/
def Spells (text : List Char) (value : Value) : Prop :=
  ∀ {frames : List Frame} {exact : Bool} {c : Char} {r : Reader}, Ends c →
    (Reader.give ⟨frames, .value, exact⟩ value).bind (·.between c) = some r →
    Reads ⟨frames, .value, exact⟩ (text ++ [c]) r

theorem isBetween_of_give {r r' : Reader} {value : Value} (h : r.give value = some r') :
    r'.place.isBetween = true := by
  obtain ⟨_ | ⟨_ | _ | _, _⟩, place, exact⟩ := r <;>
    simp only [Reader.give, Option.some.injEq, reduceCtorEq] at h <;> subst h <;> rfl

/-- A text that ends by itself where its value does. -/
theorem spells_of_reads {text : List Char} {value : Value}
    (h : ∀ {frames : List Frame} {exact : Bool} {r : Reader},
      Reader.give ⟨frames, .value, exact⟩ value = some r →
        Reads ⟨frames, .value, exact⟩ text r) : Spells text value := by
  intro frames exact c r _ hr
  obtain ⟨r', hg, hb⟩ := Option.bind_eq_some_iff.1 hr
  exact (h hg).append (.single ((step_of_isBetween (isBetween_of_give hg) c).trans hb))

theorem spells_quote (s : String) : Spells (quote s) (.string (some s)) :=
  spells_of_reads reads_string

theorem spells_digits (n : UInt64) :
    Spells (Text.Decimal.digits n.toNat) (.number (.ofNat n.toNat)) :=
  fun hc hr => reads_natural n.toNat_lt hc hr

theorem spells_null : Spells "null".toList .null := by
  refine spells_of_reads fun {frames exact r} h => ?_
  have hn : Reader.step ⟨frames, .value, exact⟩ 'n' =
      some ⟨frames, .word "ull".toList .null, exact⟩ := rfl
  have hl : Reader.step ⟨frames, .word ['l'] .null, exact⟩ 'l' = some r := by
    rw [← h, ← give_place]
    rfl
  exact .cons hn (.cons rfl (.cons rfl (.single hl)))

/-- A value with blanks behind it, and the comma or brace that ends it. -/
theorem Spells.reads_blanks {text : List Char} {value : Value} (h : Spells text value)
    (blanks : Blanks) {c : Char} (hc : Ends c) {r r' : Reader}
    (hg : Reader.give ⟨frames, .value, exact⟩ value = some r') (hr : r'.between c = some r) :
    Reads ⟨frames, .value, exact⟩ (text ++ blanks.text ++ [c]) r := by
  have hp := isBetween_of_give hg
  obtain ⟨_ | ⟨b, bs⟩, hb⟩ := blanks
  · rw [List.append_nil]
    exact h hc (by rw [hg]; exact hr)
  · -- the first blank ends the value, the others are skipped
    rw [List.all_cons, Bool.and_eq_true] at hb
    have hv : Reads ⟨frames, .value, exact⟩ (text ++ [b]) r' :=
      h (.inl hb.1) (by rw [hg]; exact between_of_isSpace r' hb.1)
    have hbs : Reads r' bs r' := Blanks.reads ⟨bs, hb.2⟩ hp
    show Reads _ (text ++ ([b] ++ bs) ++ [c]) r
    rw [← List.append_assoc text, List.append_assoc _ bs]
    exact hv.append (hbs.append (.single ((step_of_isBetween hp c).trans hr)))

/-! ## Objects of strings -/

/-- A member whose value is a string. -/
def cell (pair : String × String) : Option String × Value := (some pair.1, .string (some pair.2))

theorem reads_cell {place : Place} (hp : place = .firstKey ∨ place = .key)
    (pair : String × String) (members : List (Option String × Value)) :
    Reads ⟨.object members :: frames, place, exact⟩ (quote pair.1 ++ ':' :: quote pair.2)
      ⟨.object (cell pair :: members) :: frames, .next, exact⟩ := by
  rw [List.append_cons]
  exact (reads_key hp pair.1 members).append (reads_string rfl)

theorem reads_cells (pairs : List (String × String)) (members : List (Option String × Value)) :
    Reads ⟨.object members :: frames, .next, exact⟩
      (pairs.flatMap fun pair => ',' :: (quote pair.1 ++ ':' :: quote pair.2))
      ⟨.object ((pairs.map cell).reverse ++ members) :: frames, .next, exact⟩ := by
  induction pairs generalizing members with
  | nil => exact .nil _
  | cons pair pairs ih =>
    have hc : Reader.step ⟨.object members :: frames, .next, exact⟩ ',' =
        some ⟨.object members :: frames, .key, exact⟩ := rfl
    rw [List.flatMap_cons, List.map_cons, List.reverse_cons, List.append_assoc]
    exact (Reads.cons hc (reads_cell (.inr rfl) pair members)).append (ih (cell pair :: members))

/-- A written object of strings where a value is awaited. -/
theorem reads_object {pairs : List (String × String)} {r : Reader}
    (hd : frames.length + 1 < depthLimit)
    (h : Reader.give ⟨frames, .value, exact⟩ (.object (pairs.map cell)) = some r) :
    Reads ⟨frames, .value, exact⟩
      ('{' :: List.intercalate [',']
        (pairs.map fun (key, value) => quote key ++ ':' :: quote value) ++ ['}']) r := by
  have hopen : Reader.step ⟨frames, .value, exact⟩ '{' =
      some ⟨.object [] :: frames, .firstKey, exact⟩ := by
    show some (Reader.mk _ _ (exact && decide (frames.length + 1 < depthLimit))) = _
    rw [decide_eq_true hd, Bool.and_true]
  refine .cons hopen ?_
  cases pairs with
  | nil =>
    refine .single ?_
    show Reader.give ⟨frames, .firstKey, exact⟩ (.object []) = some r
    rw [give_place]
    exact h
  | cons pair pairs =>
    have hclose : Reader.step
        ⟨.object ((pairs.map cell).reverse ++ [cell pair]) :: frames, .next, exact⟩ '}' =
          some r := by
      show Reader.give ⟨frames, .next, exact⟩
        (.object ((pairs.map cell).reverse ++ [cell pair]).reverse) = some r
      rw [give_place, List.reverse_append, List.reverse_reverse]
      exact h
    rw [List.map_cons, intercalate_cons, List.flatMap_map]
    exact ((reads_cell (.inl rfl) pair []).append (reads_cells pairs _)).append (.single hclose)

end RelStore.Json
