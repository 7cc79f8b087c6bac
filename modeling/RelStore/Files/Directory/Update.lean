import RelStore.Error
import RelStore.Files.Directory

/-!
# Changing files and directories

A file is opened for appending by `Directory.touch`, which says where it stands, and grows
there by `Directory.append`. Directories are made together with those above them that are
missing; what was made stays where a further one cannot be made.
-/

namespace RelStore.Directory

open Text.Utf8 (Bytes)

/-- The directory with something else at a location. -/
def put (d : Directory) (location : Location) (entry : Entry) : Directory :=
  { d with entries := d.entries.insert location entry }

theorem get?_put {d : Directory} {location : Location} (h : location ≠ []) (entry : Entry)
    (there : Location) :
    (d.put location entry).get? there =
      if there = location then some entry else d.get? there := by
  unfold get? put
  split
  · grind
  · exact OrderedMap.get?_insert ..

/-- A file in place of a file or of nothing changes no step but those to it. -/
theorem step_put_file {d : Directory} {location : Location}
    (hf : d.get? location ≠ some .directory) (contents : Bytes) (here : Location)
    (name : String) :
    (d.put location (.file contents)).step here name =
      match d.step here name with
      | .free there => if there = location then .file there contents else .free there
      | .file there old => .file there (if there = location then contents else old)
      | place => place := by
  have hl : location ≠ [] := by rintro rfl; exact hf rfl
  unfold step
  rw [get?_put hl]
  grind

/-- A file in place of a file or of nothing shows where names led to it, and changes nothing
else, except that names which led nowhere may now meet a file. -/
theorem follow_put_file {d : Directory} {location : Location}
    (hf : d.get? location ≠ some .directory) (contents : Bytes) {here : Location}
    {names : List String} (hm : d.follow here names ≠ .missing) :
    (d.put location (.file contents)).follow here names =
      match d.follow here names with
      | .free there => if there = location then .file there contents else .free there
      | .file there old => .file there (if there = location then contents else old)
      | place => place := by
  fun_induction follow d here names <;> grind [follow, step_put_file]

/-- A file in place of a file or of nothing is found by the paths that led there. -/
theorem place_put_file {d : Directory} {location : Location}
    (hf : d.get? location ≠ some .directory) (contents : Bytes) {path : String}
    (hs : Path.endsInSlash path = false) (hm : d.place path ≠ .missing) :
    (d.put location (.file contents)).place path =
      match d.place path with
      | .free there => if there = location then .file there contents else .free there
      | .file there old => .file there (if there = location then contents else old)
      | place => place := by
  have hl : location ≠ [] := by rintro rfl; exact hf rfl
  have ha : (d.put location (.file contents)).Admits path ↔ d.Admits path := Iff.rfl
  have ho : (d.put location (.file contents)).origin path = d.origin path := rfl
  unfold place placeFrom at *
  rw [ho, get?_put hl]
  by_cases h : d.Admits path <;> by_cases hd : d.get? (d.origin path) = some .directory <;>
    grind [follow_put_file]

/-! ## Files -/

/-- Makes sure that a file stands where a path leads, and tells where. A file that is there is
left as it is, a new one is empty. -/
def touch (d : Directory) (path : String) : Option (Location × Directory) :=
  match d.place path with
  | .file location _ => some (location, d)
  | .free location =>
    if Path.endsInSlash path then none else some (location, d.put location (.file []))
  | _ => none

/-- Adds bytes to the end of a file. -/
def append (d : Directory) (location : Location) (bytes : Bytes) : Directory :=
  match d.get? location with
  | some (.file contents) => d.put location (.file (contents ++ bytes))
  | _ => d

/-- What is added to a file that a path leads to is read behind what was there. -/
theorem lookup_append_of_touch {d made : Directory} {location : Location} {path : String}
    (h : d.touch path = some (location, made)) (bytes : Bytes) :
    (made.append location bytes).lookup path =
      match d.lookup path with
      | .file contents => .file (contents ++ bytes)
      | _ => .file bytes := by
  unfold touch at h
  split at h
  next there contents hp =>
    obtain ⟨rfl, rfl⟩ : there = location ∧ d = made := by simpa using h
    obtain ⟨he, hs⟩ := get?_of_place_eq_file hp
    have ha := place_put_file (by simp [he] : d.get? there ≠ some .directory)
      (contents ++ bytes) hs (by simp [hp])
    simp [append, lookup, he, ha, hp]
  next there hp =>
    split at h
    · cases h
    · next hs =>
      obtain ⟨rfl, rfl⟩ : there = location ∧ d.put there (.file []) = made := by simpa using h
      obtain ⟨hl, he⟩ := get?_of_place_eq_free hp
      have he' : (d.put there (.file [])).get? there = some (.file []) := by
        rw [get?_put hl, if_pos rfl]
      have hs : Path.endsInSlash path = false := by simpa using hs
      have ha := place_put_file (by simp [he] : d.get? there ≠ some .directory) [] hs
        (by simp [hp])
      have hb := place_put_file (by simp [he'] : (d.put there (.file [])).get? there ≠ _)
        bytes hs (by simp [ha, hp])
      simp [append, lookup, he', ha, hb, hp]
  next => cases h

/-- Deletes the file at a path and tells whether there was one. -/
def deleteFile (d : Directory) (path : String) : Bool × Directory :=
  match d.place path with
  | .file location _ => (true, { d with entries := d.entries.erase location })
  | _ => (false, d)

/-! ## Directories -/

/-- Makes the directory that names lead to, in one that is there. -/
def makeLast (d : Directory) (here : Location) (names : List String) :
    Except Error Unit × Directory :=
  match d.placeFrom here names with
  | .directory _ => (.ok (), d)
  | .free location => (.ok (), d.put location .directory)
  | _ => (.error .io, d)

/-- Makes the directory that names lead to. If something on the way is missing, the nearest of
the names above is made first. -/
def makeBelow (d : Directory) (here : Location) (names : List String) :
    List (List String) → Except Error Unit × Directory
  | [] => d.makeLast here names
  | nearest :: further =>
    if d.placeFrom here names = .missing then
      match d.makeBelow here nearest further with
      | (.ok (), d) => d.makeLast here names
      | (.error error, d) => (.error error, d)
    else d.makeLast here names

/-- Makes sure that a path leads to a directory. -/
def make (d : Directory) (path : String) : Except Error Unit × Directory :=
  if d.Admits path then
    let names := Path.names path
    d.makeBelow (d.origin path) names (Path.above names)
  else (.error .io, d)

/-- Puts a file or a directory where a path leads, and makes what is missing above. A file
takes the place of a file, but nothing takes that of a directory. -/
def store (d : Directory) (path : String) : Entry → Directory
  | .directory => (d.make path).2
  | .file contents =>
    let made := match Path.above (Path.names path) with
      | nearest :: further => (d.makeBelow (d.origin path) nearest further).2
      | [] => d
    match made.touch path with
    | some (location, d) => d.put location (.file contents)
    | none => made

end RelStore.Directory
