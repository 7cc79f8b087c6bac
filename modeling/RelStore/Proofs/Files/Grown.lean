import RelStore.Proofs.Files.Touched

/-!
# Directories that differ in one file

Between one directory and another, nothing happened but to the file of one name (`Sole`); all that
stands under another name is the same (`SameFile`). Where a word can be opened, its file grows by the
bytes that are appended to it (`Grown`), and no name can be opened afterwards that could not before.
-/

namespace RelStore.Directory

open Sql (IsWord)
open Text.Utf8 (Bytes)

variable {d d' d'' : Directory} {name other : String} {bytes : Bytes}

/-! ## The same under one name -/

/-- What stands under one name in a directory is the same in another. -/
structure SameFile (name : String) (d d' : Directory) : Prop where
  frame : SameFrame d d'
  here : d'.get? d.location = d.get? d.location
  file : d'.get? (d.location ++ [name]) = d.get? (d.location ++ [name])

namespace SameFile

theorem refl (name : String) (d : Directory) : SameFile name d d := ⟨⟨rfl, rfl⟩, rfl, rfl⟩

theorem symm (h : SameFile name d d') : SameFile name d' d where
  frame := h.frame.symm
  here := by rw [h.frame.location]; exact h.here.symm
  file := by rw [h.frame.location]; exact h.file.symm

theorem trans (h : SameFile name d d') (h' : SameFile name d' d'') : SameFile name d d'' where
  frame := h.frame.trans h'.frame
  here := (h.frame.location ▸ h'.here).trans h.here
  file := (h.frame.location ▸ h'.file).trans h.file

theorem contents (h : SameFile name d d') : d'.contents name = d.contents name := by
  unfold Directory.contents
  rw [h.frame.location, h.file]

theorem opens (h : SameFile name d d') (ho : d.Opens name) : d'.Opens name where
  here := by rw [h.frame.location, h.here]; exact ho.here
  fits := (h.frame.fits_iff name).2 ho.fits
  no_directory := by rw [h.frame.location, h.file]; exact ho.no_directory

theorem opens_iff (h : SameFile name d d') : d'.Opens name ↔ d.Opens name :=
  ⟨h.symm.opens, h.opens⟩

theorem lookup (h : SameFile name d d') (hw : IsWord name) : d'.lookup name = d.lookup name := by
  rw [lookup_word d' hw, lookup_word d hw, h.frame.location, h.here, h.file,
    if_congr (h.frame.fits_iff name) rfl rfl, if_congr (h.frame.admits_iff name) rfl rfl]

end SameFile

/-! ## Elsewhere than in one file -/

/-- At most the file of one name is made or changed. -/
structure Sole (name : String) (d d' : Directory) : Prop where
  frame : SameFrame d d'
  get? (location : Location) : location ≠ d.location ++ [name] →
    d'.get? location = d.get? location

theorem Sole.refl (name : String) (d : Directory) : Sole name d d := ⟨⟨rfl, rfl⟩, fun _ _ => rfl⟩

theorem Sole.trans (h : Sole name d d') (h' : Sole name d' d'') : Sole name d d'' where
  frame := h.frame.trans h'.frame
  get? location hne := (h'.get? location (h.frame.location ▸ hne)).trans (h.get? location hne)

theorem Touched.sole (h : Touched [name] d d') : Sole name d d' where
  frame := h.frame
  get? location hne := by
    rcases h.get? location with hs | ⟨-, -, other, hm, hl⟩
    · exact hs
    · exact absurd (List.mem_singleton.1 hm ▸ hl) hne

theorem Sole.append (h : Sole name d d') (bytes : Bytes) :
    Sole name d (d'.append (d.location ++ [name]) bytes) := by
  unfold Directory.append
  split
  · refine ⟨⟨h.frame.location, h.frame.lead⟩, fun location hne => ?_⟩
    rw [get?_put (by simp), if_neg hne]
    exact h.get? location hne
  · exact h

/-- Under another name stands what stood there. -/
theorem Sole.sameFile (h : Sole name d d') (hne : other ≠ name) : SameFile other d d' :=
  ⟨h.frame, h.get? _ (by simp), h.get? _ (by simpa using hne)⟩

/-! ## Files that grow -/

/-- Bytes were put behind what stood in a file, which was made where it was missing. -/
structure Grown (name : String) (bytes : Bytes) (d d' : Directory) : Prop where
  sole : Sole name d d'
  opens : d.Opens name
  file : d'.get? (d.location ++ [name]) = some (.file (d.contents name ++ bytes))

theorem grown_of_touch {made : Directory} {location : Location} (hw : IsWord name)
    (h : d.touch name = some (location, made)) (bytes : Bytes) :
    Grown name bytes d (made.append location bytes) := by
  obtain ⟨hopens, rfl, htouched, contents, hfile⟩ := touched_of_touch hw h
  have hcontents : d.contents name = contents := by
    unfold Directory.contents
    rcases htouched.get? (d.location ++ [name]) with hs | ⟨hn, hf, -⟩
    · rw [← hs, hfile]
    · rw [hfile] at hf
      cases hf
      rw [hn]
  refine ⟨htouched.sole.append bytes, hopens, ?_⟩
  unfold Directory.append
  rw [hfile]
  dsimp only
  rw [get?_put (by simp), if_pos rfl, hcontents]

namespace Grown

/-- No name can be opened that could not, and none is lost. -/
theorem opens_iff (h : Grown name bytes d d') : d'.Opens other ↔ d.Opens other := by
  by_cases hne : other = name
  · subst hne
    have hopens : d'.Opens other := by
      refine ⟨?_, (h.sole.frame.fits_iff other).2 h.opens.fits, ?_⟩ <;> rw [h.sole.frame.location]
      · rw [h.sole.get? _ (by simp)]
        exact h.opens.here
      · rw [h.file]
        exact nofun
    exact ⟨fun _ => h.opens, fun _ => hopens⟩
  · exact (h.sole.sameFile hne).opens_iff

/-- If a file grows in the same way in two directories, what was the same stays the same. -/
theorem sameFile {e e' : Directory} (h : Grown name bytes d d') (h' : Grown name bytes e e')
    (hs : SameFile other d e) : SameFile other d' e' := by
  by_cases hne : other = name
  · subst hne
    have hhere := h.sole.get? d.location (by simp)
    have hhere' := h'.sole.get? e.location (by simp)
    have hfile := h'.file
    rw [hs.contents, hs.frame.location, ← h.file] at hfile
    rw [hs.frame.location] at hhere'
    refine ⟨⟨?_, ?_⟩, ?_, ?_⟩
    · rw [h'.sole.frame.location, hs.frame.location, h.sole.frame.location]
    · rw [h'.sole.frame.lead, hs.frame.lead, h.sole.frame.lead]
    · rw [h.sole.frame.location, hhere', hs.here, hhere]
    · rw [h.sole.frame.location, hfile]
  · exact ((h.sole.sameFile hne).symm.trans hs).trans (h'.sole.sameFile hne)

end Grown

end RelStore.Directory
