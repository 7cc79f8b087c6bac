import RelStore.Proofs.Engine.Files
import RelStore.Proofs.Text.Lines

/-!
# Names behind a catalog

A name is put behind the catalog's file with a line feed, without a look at how the file ends. If
nothing stands behind the last line feed the name is listed last (`tables_behind`). Otherwise it runs
into the name that stands there: the two are listed as one, and the new one is not
(`tables_behind_unfinished`).
-/

namespace RelStore.Catalog

open Sql (IsWord)
open Text.Utf8 (Bytes unfinished)

variable {name : String} {text : List Char}

/-! ## The names of a text -/

theorem namesOf_append (text rest : List Char) :
    namesOf (text ++ '\n' :: rest) = namesOf text ++ namesOf rest := by
  unfold namesOf
  rw [List.splitOn_append_cons_self, List.filter_append, List.map_append]

theorem namesOf_line {line : List Char} (h : '\n' ∉ line) (hne : line ≠ []) :
    namesOf line = [String.ofList line] := by
  unfold namesOf
  rw [List.splitOn_eq_singleton h]
  cases line with
  | nil => exact absurd rfl hne
  | cons => rfl

/-- The lines of a text that are finished. -/
def finishedLines (text : List Char) : List Char := text.rdropWhile (· != '\n')

/-- What stands on the last line of a text. -/
def lastLine (text : List Char) : List Char := text.rtakeWhile (· != '\n')

theorem namesOf_finishedLines_append (text rest : List Char) :
    namesOf (finishedLines text ++ rest) = namesOf (finishedLines text) ++ namesOf rest := by
  unfold finishedLines
  rcases Text.Utf8.rdropWhile_cases '\n' text with h | ⟨lines, h⟩ <;> rw [h]
  · rfl
  · rw [List.append_assoc, List.singleton_append, namesOf_append, namesOf_append,
      show namesOf [] = [] from rfl, List.append_nil]

theorem namesOf_eq (text : List Char) :
    namesOf text = namesOf (finishedLines text) ++ namesOf (lastLine text) := by
  rw [← namesOf_finishedLines_append, finishedLines, lastLine, List.rdropWhile_append_rtakeWhile]

/-- A name behind a text runs into what stands on the last line. -/
theorem namesOf_append_name (text : List Char) (hw : IsWord name) :
    namesOf (text ++ (name.toList ++ ['\n'])) =
      namesOf (finishedLines text) ++ [String.ofList (lastLine text ++ name.toList)] := by
  have hline : '\n' ∉ lastLine text ++ name.toList := by
    rw [List.mem_append, not_or]
    exact ⟨Text.Utf8.not_mem_rtakeWhile '\n' text, hw.not_mem (by decide)⟩
  have hne : lastLine text ++ name.toList ≠ [] := List.append_ne_nil_of_right_ne_nil _ hw.1
  have hsplit : text ++ (name.toList ++ ['\n']) =
      finishedLines text ++ (lastLine text ++ name.toList ++ '\n' :: []) := by
    rw [List.append_assoc, ← List.append_assoc (finishedLines text), finishedLines, lastLine,
      List.rdropWhile_append_rtakeWhile]
  rw [hsplit, namesOf_finishedLines_append, namesOf_append, namesOf_line hline hne,
    show namesOf [] = [] from rfl, List.append_nil]

/-! ## The catalog of some names -/

theorem tables_ofNames_append (names : List String) (name : String) :
    (ofNames (names ++ [name])).tables =
      if name ∈ (ofNames names).tables then (ofNames names).tables
      else (ofNames names).tables ++ [name] := by
  unfold ofNames tables OrderedMap.ofList OrderedMap.insertMany
  rw [List.map_append, List.foldl_append]
  exact OrderedMap.keys_insert ..

theorem mem_tables_ofNames {names : List String} :
    name ∈ (ofNames names).tables ↔ name ∈ names := by
  induction names using List.reverseRec with
  | nil => exact iff_of_false List.not_mem_nil List.not_mem_nil
  | append_singleton names other ih =>
    rw [tables_ofNames_append, List.mem_append, List.mem_singleton, ← ih]
    split_ifs with h
    · exact ⟨.inl, fun hm => hm.elim id fun he => he ▸ h⟩
    · rw [List.mem_append, List.mem_singleton]

/-! ## A name behind a file -/

/-- Behind finished lines a new name is listed last. -/
theorem tables_behind (hw : IsWord name) (hnew : name ∉ (ofNames (namesOf text)).tables)
    (hlast : lastLine text = []) :
    (ofNames (namesOf (text ++ (name.toList ++ ['\n'])))).tables =
      (ofNames (namesOf text)).tables ++ [name] := by
  have hnames : namesOf text = namesOf (finishedLines text) := by
    rw [namesOf_eq, hlast, show namesOf [] = [] from rfl, List.append_nil]
  rw [namesOf_append_name text hw, hlast, List.nil_append, String.ofList_toList,
    tables_ofNames_append, ← hnames, if_neg hnew]

/-- On a line on which something stands, a new name is listed as a part of a longer one. -/
theorem tables_behind_unfinished (hw : IsWord name)
    (hnew : name ∉ (ofNames (namesOf text)).tables) (hlast : lastLine text ≠ []) :
    name ∉ (ofNames (namesOf (text ++ (name.toList ++ ['\n'])))).tables ∧
      String.ofList (lastLine text ++ name.toList) ∈
        (ofNames (namesOf (text ++ (name.toList ++ ['\n'])))).tables := by
  rw [mem_tables_ofNames, mem_tables_ofNames, namesOf_append_name text hw, List.mem_append,
    List.mem_append, List.mem_singleton, not_or]
  refine ⟨⟨fun hm => hnew ?_, fun he => hlast ?_⟩, .inr (List.mem_singleton_self _)⟩
  · rw [mem_tables_ofNames, namesOf_eq]
    exact List.mem_append_left _ hm
  · have hl := congrArg String.toList he
    rw [String.toList_ofList] at hl
    exact List.append_left_eq_self.1 hl.symm

/-- What is read of the catalog's file behind which a name was put. -/
theorem decode?_append_record {contents : Bytes} (h : Text.Utf8.decode? contents = some text)
    (name : String) :
    Text.Utf8.decode? (contents ++ record name) = some (text ++ (name.toList ++ ['\n'])) := by
  have hrecord : record name = Text.Utf8.encode (name.toList ++ ['\n']) :=
    (Text.Utf8.encode_append name.toList ['\n']).symm
  rw [Text.Utf8.decode?_append h, hrecord, Text.Utf8.decode?_encode]
  rfl

/-- The last line of the text stands in the bytes behind the last line feed. -/
theorem decode?_unfinished {contents : Bytes} (h : Text.Utf8.decode? contents = some text) :
    Text.Utf8.decode? (unfinished contents) = some (lastLine text) := by
  rw [← Text.Utf8.encode_of_decode? h, Text.Utf8.unfinished_encode, Text.Utf8.decode?_encode]
  rfl

end RelStore.Catalog
