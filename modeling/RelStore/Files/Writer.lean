import RelStore.Files.Directory.Update

/-!
# Appending to files

A writer has at most one target, the file that it appends to. Choosing a target gives up the
one before, also where the new one cannot be opened.
-/

namespace RelStore

open Text.Utf8 (Bytes)

/-- The file that a writer appends to: the path it was chosen by, and where that led. -/
structure Target where
  path : String
  location : Location
deriving DecidableEq

/-- A directory and the file that bytes go to. -/
structure Writer where
  directory : Directory
  target : Option Target := none

namespace Writer

/-- Gives up the target. -/
def dispose (w : Writer) : Writer := { w with target := none }

/-- Makes a file the target; a file that does not exist is created. -/
def setTarget (w : Writer) (path : String) : Except Error Unit × Writer :=
  match w.directory.touch path with
  | some (location, directory) => (.ok (), { directory, target := some { path, location } })
  | none => (.error .io, w.dispose)

/-- Appends to the target and tells whether there is one. -/
def write (w : Writer) (bytes : Bytes) : Bool × Writer :=
  match w.target with
  | some target => (true, { w with directory := w.directory.append target.location bytes })
  | none => (false, w)

end Writer

end RelStore
