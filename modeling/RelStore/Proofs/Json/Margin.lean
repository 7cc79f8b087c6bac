import RelStore.Proofs.Json.Reading
import RelStore.Proofs.Text.Word

/-!
# What may stand around a document

Blanks in front of a document do not count (`read?_spaces_append`), but white space of any other
kind is an error (`read?_blanks_append`), and so is anything but blanks behind it
(`read?_append_eq_none`).
-/

namespace RelStore.Json

/-- Where a text may end the reader has a document, if it is not in the middle of a number. -/
theorem place_of_finish {r : Reader} {document : Document} (h : r.finish = some document) :
    r.place = .done document.value ∨ ∃ number, document.value = .number number := by
  obtain ⟨frames, place, exact⟩ := r
  unfold Reader.finish at h
  cases place with
  | done value => cases h; exact .inl rfl
  | number phase read =>
    unfold Reader.giveNumber Reader.give at h
    dsimp only at h
    split_ifs at h
    rcases frames with _ | ⟨_ | _ | _, _⟩ <;> cases h
    exact .inr ⟨read, rfl⟩
  | _ => cases h

/-- A reader that has its document takes nothing any more but blanks. -/
theorem foldlM_step_done {r : Reader} {value : Value} (h : r.place = .done value) {rest : List Char}
    (hrest : rest.all isSpace = false) : rest.foldlM Reader.step r = none := by
  induction rest with
  | nil => cases hrest
  | cons c rest ih =>
    have hstep : r.step c = if isSpace c then some r else none := by
      unfold Reader.step Reader.between
      rw [h]
    rw [List.all_cons] at hrest
    rw [List.foldlM_cons, hstep]
    cases hc : isSpace c with
    | true => rw [hc, Bool.true_and] at hrest; exact ih hrest
    | false => rfl

/-- Behind a document that is no number nothing may stand but blanks. -/
theorem read?_append_eq_none {text : List Char} {document : Document}
    (h : read? text = some document) (hnumber : ∀ number, document.value ≠ .number number)
    {rest : List Char} (hrest : rest.all isSpace = false) : read? (text ++ rest) = none := by
  obtain ⟨r, hr, hfinish⟩ := Option.bind_eq_some_iff.1 h
  have hplace := (place_of_finish hfinish).resolve_right fun ⟨number, hn⟩ => hnumber number hn
  rw [read?, List.foldlM_append, hr]
  dsimp only [Option.bind_eq_bind, Option.bind_some]
  rw [foldlM_step_done hplace hrest]
  rfl

theorem step_space {c : Char} (h : isSpace c = true) : Reader.step {} c = some {} := by
  unfold Reader.step Reader.between
  rw [h]
  rfl

/-- Blanks in front of a document do not count. -/
theorem read?_spaces_append {spaces : List Char} (h : ∀ c ∈ spaces, isSpace c = true)
    (text : List Char) : read? (spaces ++ text) = read? text := by
  have hs : Reads {} spaces {} := by
    induction spaces with
    | nil => exact .nil _
    | cons c spaces ih =>
      rw [List.forall_mem_cons] at h
      exact .cons (step_space h.1) (ih h.2)
  rw [read?, List.foldlM_append, show spaces.foldlM Reader.step {} = _ from hs]
  rfl

/-- No value begins with white space that does not stand between tokens. -/
theorem step_blank {c : Char} (hb : Text.isBlank c = true) (hs : isSpace c = false) :
    Reader.step {} c = none := by
  have hne : ∀ d : Char, Text.isBlank d = false → c ≠ d := by
    rintro d hd rfl
    rw [hb] at hd
    cases hd
  have hdigit : c.isDigit = false := by
    by_contra hd
    rw [Bool.not_eq_false] at hd
    have := Text.digit_cases (p := fun c => Text.isBlank c = false) (by decide) hd
    exact hne c this rfl
  have hpush : NumberPhase.push .minus {} c = none := by
    unfold NumberPhase.push
    dsimp only
    rw [if_neg (hne '0' (by decide)), hdigit, if_neg Bool.false_ne_true]
  show Reader.between {} c = none
  unfold Reader.between
  rw [hs, if_neg Bool.false_ne_true]
  show Reader.start {} c = none
  unfold Reader.start
  split
  case h_8 => rw [hpush]; rfl
  all_goals exact absurd hb (by decide)

/-- Other white space than that between tokens stands in front of no document. -/
theorem read?_blanks_append {blanks : List Char} (hb : blanks.all Text.isBlank = true)
    (hs : blanks.all isSpace = false) (text : List Char) : read? (blanks ++ text) = none := by
  induction blanks with
  | nil => cases hs
  | cons c blanks ih =>
    rw [List.all_cons, Bool.and_eq_true] at hb
    rw [List.all_cons] at hs
    cases hc : isSpace c with
    | true =>
      rw [hc, Bool.true_and] at hs
      rw [List.cons_append, ← List.singleton_append, read?_spaces_append (by simpa using hc)]
      exact ih hb.2 hs
    | false =>
      rw [List.cons_append, read?, List.foldlM_cons, step_blank hb.1 hc]
      rfl

/-- Nothing but white space is no document. -/
theorem read?_blanks {blanks : List Char} (h : blanks.all Text.isBlank = true) :
    read? blanks = none := by
  rw [← List.append_nil blanks]
  cases hs : blanks.all isSpace with
  | true => rw [read?_spaces_append (List.all_eq_true.1 hs)]; rfl
  | false => exact read?_blanks_append h hs []

end RelStore.Json
