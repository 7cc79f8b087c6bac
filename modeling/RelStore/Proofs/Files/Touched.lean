import RelStore.Files.Sink
import RelStore.Proofs.Files.Flat
import RelStore.Table.Table

/-!
# Directories whose files were touched

Between one directory and another, nothing happened but that files which were missing were made,
empty and under given names (`Touched`). No table is read in another way then (`Touched.load`),
and no file can be opened that could not (`Touched.opens_iff`). Choosing a target touches its
file, and bytes that are written to it go behind what stands there.
-/

namespace RelStore

open Sql (IsWord)
open Text.Utf8 (Bytes)

namespace Directory

variable {d d' d'' : Directory} {name : String} {names names' : List String}

/-- Files that were missing were made under some of these names, and all else stands as it stood. -/
structure Touched (names : List String) (d d' : Directory) : Prop where
  frame : SameFrame d d'
  get? (location : Location) : d'.get? location = d.get? location ∨
    d.get? location = none ∧ d'.get? location = some (.file []) ∧
      ∃ name ∈ names, location = d.location ++ [name]

/-- A word that leads to a file or to where there is none yet. -/
structure Opens (d : Directory) (name : String) : Prop where
  here : d.get? d.location = some .directory
  fits : d.Fits name
  no_directory : d.get? (d.location ++ [name]) ≠ some .directory

namespace Touched

theorem refl (names : List String) (d : Directory) : Touched names d d :=
  ⟨⟨rfl, rfl⟩, fun _ => .inl rfl⟩

theorem mono (h : Touched names d d') (hsub : names ⊆ names') : Touched names' d d' where
  frame := h.frame
  get? location := (h.get? location).imp_right fun ⟨hn, hf, name, hm, hl⟩ =>
    ⟨hn, hf, name, hsub hm, hl⟩

theorem trans (h : Touched names d d') (h' : Touched names d' d'') : Touched names d d'' where
  frame := h.frame.trans h'.frame
  get? location := by
    rcases h'.get? location with hs | ⟨hn, hf, name, hm, hl⟩
    · rw [hs]
      exact h.get? location
    · rcases h.get? location with hs | ⟨-, hf', -⟩
      · exact .inr ⟨hs ▸ hn, hf, name, hm, h.frame.location ▸ hl⟩
      · rw [hn] at hf'
        cases hf'

/-- No directory is made and none is lost. -/
theorem directory_iff (h : Touched names d d') (location : Location) :
    d'.get? location = some .directory ↔ d.get? location = some .directory := by
  rcases h.get? location with hs | ⟨hn, hf, -⟩
  · rw [hs]
  · rw [hn, hf]
    exact ⟨nofun, nofun⟩

theorem here_iff (h : Touched names d d') :
    d'.get? d'.location = some .directory ↔ d.get? d.location = some .directory := by
  rw [h.frame.location]
  exact h.directory_iff d.location

theorem opens_iff (h : Touched names d d') (name : String) : d'.Opens name ↔ d.Opens name := by
  have hdir := h.directory_iff (d.location ++ [name])
  constructor
  · rintro ⟨hhere, hfits, hno⟩
    rw [h.frame.location] at hno
    exact ⟨h.here_iff.1 hhere, (h.frame.fits_iff name).1 hfits, mt hdir.2 hno⟩
  · rintro ⟨hhere, hfits, hno⟩
    refine ⟨h.here_iff.2 hhere, (h.frame.fits_iff name).2 hfits, ?_⟩
    rw [h.frame.location]
    exact mt hdir.1 hno

end Touched

/-! ## Reading -/

/-- What a word leads to in a directory that is missing. -/
theorem place_word_of_missing (hd : d.get? d.location ≠ some .directory) (hw : IsWord name) :
    d.place name = if d.Admits name then .missing else .refused := by
  have ho : d.origin name = d.location := by
    rw [origin, isAbsolute_word hw, if_neg Bool.false_ne_true]
  rw [place, ho, endsInSlash_word hw, placeFrom, if_neg hd]

/-- What is read under a word. -/
theorem lookup_word (d : Directory) (hw : IsWord name) :
    d.lookup name =
      if d.get? d.location = some .directory then
        if d.Fits name then
          match d.get? (d.location ++ [name]) with
          | some (.file contents) => .file contents
          | some .directory => .refused
          | none => .missing
        else .refused
      else if d.Admits name then .missing else .refused := by
  unfold Directory.lookup
  by_cases hd : d.get? d.location = some .directory
  · rw [place_word hd hw, if_pos hd]
    split_ifs
    · rcases d.get? (d.location ++ [name]) with _ | _ | _ <;> rfl
    · rfl
  · rw [place_word_of_missing hd hw, if_neg hd]
    split_ifs <;> rfl

/-- A file of a word is found as before, unless it is new. -/
theorem Touched.lookup (h : Touched names d d') (hw : IsWord name) :
    d'.lookup name = d.lookup name ∨ d.lookup name = .missing ∧ d'.lookup name = .file [] := by
  rw [lookup_word d' hw, lookup_word d hw, if_congr h.here_iff rfl rfl,
    if_congr (h.frame.fits_iff name) rfl rfl, if_congr (h.frame.admits_iff name) rfl rfl,
    h.frame.location]
  rcases h.get? (d.location ++ [name]) with hs | ⟨hn, hf, -⟩
  · rw [hs]
    exact .inl rfl
  · rw [hn, hf]
    split_ifs
    · exact .inr ⟨rfl, rfl⟩
    · exact .inl rfl
    · exact .inl rfl
    · exact .inl rfl

/-- A table is loaded as before. -/
theorem Touched.load (h : Touched names d d') (hw : IsWord name) (order : Index.Order) :
    Table.load name order d' = Table.load name order d := by
  unfold Table.load
  rcases h.lookup hw with hs | ⟨hm, hf⟩
  · rw [hs]
  · rw [hm, hf]
    rfl

/-! ## Touching -/

/-- A word that is touched stands in the directory, as a file. -/
theorem touched_of_touch {made : Directory} {location : Location} (hw : IsWord name)
    (h : d.touch name = some (location, made)) :
    d.Opens name ∧ location = d.location ++ [name] ∧ Touched [name] d made ∧
      ∃ contents, made.get? location = some (.file contents) := by
  have hne : d.location ++ [name] ≠ [] := by simp
  have hslash := endsInSlash_word hw
  unfold touch at h
  by_cases hd : d.get? d.location = some .directory
  · by_cases hfits : d.Fits name
    · rw [place_word hd hw, if_pos hfits, hslash] at h
      cases hg : d.get? (d.location ++ [name]) with
      | none =>
        rw [hg] at h
        cases h
        refine ⟨⟨hd, hfits, by rw [hg]; exact nofun⟩, rfl, ⟨⟨rfl, rfl⟩, fun there => ?_⟩, [], ?_⟩
        · rw [get?_put hne]
          split_ifs with ht
          · exact .inr ⟨ht ▸ hg, rfl, name, List.mem_singleton_self name, ht⟩
          · exact .inl rfl
        · rw [get?_put hne, if_pos rfl]
      | some entry =>
        rw [hg] at h
        cases entry with
        | directory => cases h
        | file contents =>
          cases h
          exact ⟨⟨hd, hfits, by rw [hg]; exact nofun⟩, rfl, .refl _ d, contents, hg⟩
    · rw [place_word hd hw, if_neg hfits] at h
      cases h
  · rw [place_word_of_missing hd hw] at h
    split at h
    · next hp => split at hp <;> cases hp
    · next hp => split at hp <;> cases hp
    · cases h

theorem touch_of_opens (h : d.Opens name) (hw : IsWord name) :
    ∃ location made, d.touch name = some (location, made) := by
  unfold touch
  rw [place_word h.here hw, if_pos h.fits, endsInSlash_word hw]
  cases hg : d.get? (d.location ++ [name]) with
  | none => exact ⟨_, _, rfl⟩
  | some entry =>
    cases entry with
    | file contents => exact ⟨_, _, rfl⟩
    | directory => exact absurd hg h.no_directory

/-- No bytes leave a file as it is. -/
theorem append_nil (d : Directory) (location : Location) : d.append location [] = d := by
  unfold append
  split
  · next contents hg =>
    have hne : location ≠ [] := by
      rintro rfl
      cases hg
    rw [get?, if_neg hne] at hg
    rw [List.append_nil, put, OrderedMap.insert_of_get? hg]
  · rfl

end Directory

end RelStore
