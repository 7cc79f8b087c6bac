import Mathlib.Logic.Function.Basic
import RelStore.Files.Directory.Update
import RelStore.Proofs.OrderedMap
import RelStore.Proofs.Sql.Word

/-!
# Directories of files

A directory in which no word leads to a further directory is, as far as words go, a map from
names to contents (`Directory.contents`): a file that is missing reads as an empty one. Touching
a file leaves the map as it is (`touch_word`) and appending changes it at one name
(`contents_append`), unless the name does not fit, and then it cannot be read either.
-/

namespace RelStore.Directory

open Sql (IsWord)
open Text.Utf8 (Bytes)

/-! ## Names as paths -/

section Names

variable {name : String} (hs : '/' ∉ name.toList)

include hs

theorem names_of_no_slash (hne : name.toList ≠ []) : Path.names name = [name] := by
  have he : name.toList.isEmpty = false := List.isEmpty_eq_false_iff.2 hne
  rw [Path.names, List.splitOn_eq_singleton hs, List.filter_cons_of_pos (by rw [he]; rfl),
    List.filter_nil, List.map_singleton, String.ofList_toList]

theorem isAbsolute_of_no_slash : Path.isAbsolute name = false := by
  rw [Path.isAbsolute, beq_eq_false_iff_ne]
  exact fun hh => hs (List.mem_of_mem_head? hh)

theorem endsInSlash_of_no_slash : Path.endsInSlash name = false := by
  rw [Path.endsInSlash, beq_eq_false_iff_ne]
  exact fun hh => hs (List.mem_of_getLast? hh)

end Names

theorem names_word {name : String} (h : IsWord name) : Path.names name = [name] :=
  names_of_no_slash (h.not_mem (by decide)) h.1

theorem isAbsolute_word {name : String} (h : IsWord name) : Path.isAbsolute name = false :=
  isAbsolute_of_no_slash (h.not_mem (by decide))

theorem endsInSlash_word {name : String} (h : IsWord name) : Path.endsInSlash name = false :=
  endsInSlash_of_no_slash (h.not_mem (by decide))

theorem ne_dots_of_word {name : String} (h : IsWord name) : name ≠ "." ∧ name ≠ ".." := by
  have hd : '.' ∉ name.toList := h.not_mem (by decide)
  constructor <;> rintro rfl <;> exact hd (by decide)

/-! ## Files by their names -/

/-- Whether a file of this name can stand in the directory: neither the name nor its path is too
long. -/
def Fits (d : Directory) (name : String) : Prop :=
  d.Admits name ∧ name.utf8ByteSize ≤ Path.nameLimit

instance (d : Directory) (name : String) : Decidable (d.Fits name) := by
  unfold Fits; infer_instance

/-- The contents of the file of this name, none where it is missing. -/
def contents (d : Directory) (name : String) : Bytes :=
  match d.get? (d.location ++ [name]) with
  | some (.file contents) => contents
  | _ => []

/-- A directory that is there, and in which no word leads to a directory. -/
structure Flat (d : Directory) : Prop where
  here : d.get? d.location = some .directory
  no_directory : ∀ name, IsWord name → d.get? (d.location ++ [name]) ≠ some .directory

/-- The directory seen in the same way, whatever stands in it. -/
structure SameFrame (d d' : Directory) : Prop where
  location : d'.location = d.location
  lead : d'.lead = d.lead

variable {d : Directory} {name : String}

theorem SameFrame.symm {d' : Directory} (h : SameFrame d d') : SameFrame d' d :=
  ⟨h.location.symm, h.lead.symm⟩

theorem SameFrame.trans {d' d'' : Directory} (h : SameFrame d d') (h' : SameFrame d' d'') :
    SameFrame d d'' :=
  ⟨h'.location.trans h.location, h'.lead.trans h.lead⟩

theorem SameFrame.admits_iff {d' : Directory} (h : SameFrame d d') (name : String) :
    d'.Admits name ↔ d.Admits name := by
  unfold Admits pathSize
  rw [h.lead]

theorem SameFrame.fits_iff {d' : Directory} (h : SameFrame d d') (name : String) :
    d'.Fits name ↔ d.Fits name := by
  unfold Fits
  rw [h.admits_iff]

/-- What a word leads to. -/
theorem place_word (hd : d.get? d.location = some .directory) (hw : IsWord name) :
    d.place name =
      if d.Fits name then
        match d.get? (d.location ++ [name]) with
        | some .directory => .directory (d.location ++ [name])
        | some (.file contents) => .file (d.location ++ [name]) contents
        | none => .free (d.location ++ [name])
      else .refused := by
  obtain ⟨h1, h2⟩ := ne_dots_of_word hw
  have ho : d.origin name = d.location := by
    rw [origin, isAbsolute_word hw, if_neg Bool.false_ne_true]
  have hp : d.placeFrom d.location [name] =
      if Path.nameLimit < name.utf8ByteSize then .refused
      else match d.get? (d.location ++ [name]) with
        | some .directory => .directory (d.location ++ [name])
        | some (.file contents) => .file (d.location ++ [name]) contents
        | none => .free (d.location ++ [name]) := by
    rw [placeFrom, if_pos hd, follow, step, if_neg h1, if_neg h2]
    by_cases hl : Path.nameLimit < name.utf8ByteSize
    · simp only [if_pos hl]
    · simp only [if_neg hl]
      rcases d.get? (d.location ++ [name]) with _ | _ | _ <;> rfl
  rw [place, ho, names_word hw, endsInSlash_word hw, hp]
  by_cases ha : d.Admits name
  · by_cases hl : Path.nameLimit < name.utf8ByteSize
    · rw [if_pos ha, if_pos hl, if_neg fun h : d.Fits name => Nat.not_lt.2 h.2 hl]
    · have hfits : d.Fits name := ⟨ha, Nat.not_lt.1 hl⟩
      rw [if_pos ha, if_neg hl, if_pos hfits]
      rcases d.get? (d.location ++ [name]) with _ | _ | _ <;> rfl
  · rw [if_neg ha, if_neg fun h : d.Fits name => ha h.1]

theorem place_of_not_fits (hf : d.Flat) (hw : IsWord name) (h : ¬ d.Fits name) :
    d.place name = .refused := by
  rw [place_word hf.here hw, if_neg h]

/-- A name that fits leads to its file, or to where there is none yet. -/
theorem place_of_fits (hf : d.Flat) (hw : IsWord name) (h : d.Fits name) :
    (d.place name = .file (d.location ++ [name]) (d.contents name) ∧
      d.get? (d.location ++ [name]) = some (.file (d.contents name))) ∨
    (d.place name = .free (d.location ++ [name]) ∧ d.get? (d.location ++ [name]) = none ∧
      d.contents name = []) := by
  have hn := hf.no_directory name hw
  rw [place_word hf.here hw, if_pos h, contents]
  rcases hg : d.get? (d.location ++ [name]) with _ | contents | _
  · exact .inr ⟨rfl, rfl, rfl⟩
  · exact .inl ⟨rfl, rfl⟩
  · exact absurd hg hn

/-- A file of a name that fits is read, and one that is missing is found missing. -/
theorem lookup_of_fits (hf : d.Flat) (hw : IsWord name) (h : d.Fits name) :
    d.lookup name = .file (d.contents name) ∨ d.lookup name = .missing ∧ d.contents name = [] := by
  unfold lookup
  rcases place_of_fits hf hw h with ⟨hp, -⟩ | ⟨hp, -, hc⟩
  · exact .inl (by rw [hp])
  · exact .inr ⟨by rw [hp], hc⟩

theorem lookup_of_not_fits (hf : d.Flat) (hw : IsWord name) (h : ¬ d.Fits name) :
    d.lookup name = .refused := by
  rw [lookup, place_of_not_fits hf hw h]

/-! ## Writing -/

theorem contents_put (h : d.location ++ [name] ≠ []) (bytes : Bytes) :
    (d.put (d.location ++ [name]) (.file bytes)).contents =
      Function.update d.contents name bytes := by
  funext other
  unfold contents
  show (match (d.put _ _).get? (d.location ++ [other]) with
    | some (.file contents) => contents | _ => []) = _
  rw [get?_put h]
  by_cases ho : other = name
  · subst ho
    rw [if_pos rfl, Function.update_self]
  · rw [if_neg (by simpa using ho), Function.update_of_ne ho]

theorem Flat.put (hf : d.Flat) (bytes : Bytes) :
    (d.put (d.location ++ [name]) (.file bytes)).Flat := by
  have hne : d.location ++ [name] ≠ [] := by simp
  refine ⟨?_, fun other hw => ?_⟩
  · show (d.put _ _).get? d.location = _
    rw [get?_put hne, if_neg (by simp), hf.here]
  · show (d.put _ _).get? (d.location ++ [other]) ≠ _
    rw [get?_put hne]
    split_ifs
    · exact fun h => by cases h
    · exact hf.no_directory other hw

/-- A file of a name that fits is made sure of. -/
theorem touch_word (hf : d.Flat) (hw : IsWord name) (h : d.Fits name) :
    ∃ made, d.touch name = some (d.location ++ [name], made) ∧ made.Flat ∧ SameFrame d made ∧
      made.contents = d.contents ∧
      made.get? (d.location ++ [name]) = some (.file (d.contents name)) := by
  have hne : d.location ++ [name] ≠ [] := by simp
  unfold touch
  rcases place_of_fits hf hw h with ⟨hp, hg⟩ | ⟨hp, hg, hc⟩
  · exact ⟨d, by rw [hp], hf, ⟨rfl, rfl⟩, rfl, hg⟩
  · refine ⟨d.put (d.location ++ [name]) (.file []), ?_, hf.put [], ⟨rfl, rfl⟩, ?_, ?_⟩
    · rw [hp, endsInSlash_word hw]; rfl
    · rw [contents_put hne, ← hc, Function.update_eq_self]
    · rw [get?_put hne, if_pos rfl, hc]

theorem touch_of_not_fits (hf : d.Flat) (hw : IsWord name) (h : ¬ d.Fits name) :
    d.touch name = none := by
  rw [touch, place_of_not_fits hf hw h]

/-- What is appended to a file that is there. -/
theorem contents_append (hf : d.Flat)
    (hg : d.get? (d.location ++ [name]) = some (.file (d.contents name))) (bytes : Bytes) :
    (d.append (d.location ++ [name]) bytes).Flat ∧
      SameFrame d (d.append (d.location ++ [name]) bytes) ∧
      (d.append (d.location ++ [name]) bytes).contents =
        Function.update d.contents name (d.contents name ++ bytes) := by
  rw [append, hg]
  exact ⟨hf.put _, ⟨rfl, rfl⟩, contents_put (by simp) _⟩

/-- A directory that is there, with nothing in it. -/
structure Fresh (d : Directory) : Prop where
  here : d.get? d.location = some .directory
  empty : d.listing = []

theorem fresh_root : root.Fresh := ⟨rfl, rfl⟩

theorem Fresh.flat (hd : d.Fresh) : d.Flat ∧ ∀ name, d.contents name = [] := by
  have hn : ∀ name, d.get? (d.location ++ [name]) = none := by
    intro name
    have h := hd.empty
    unfold listing listingAt at h
    rw [List.filterMap_eq_nil_iff] at h
    have hne : d.location ++ [name] ≠ [] := by simp
    rw [get?, if_neg hne]
    cases hl : d.entries.get? (d.location ++ [name]) with
    | none => rfl
    | some entry =>
      have hm := h _ (OrderedMap.mem_entries_of_get? hl)
      simp at hm
  refine ⟨⟨hd.here, fun name _ => by rw [hn]; exact nofun⟩, fun name => ?_⟩
  rw [contents, hn]

end RelStore.Directory
