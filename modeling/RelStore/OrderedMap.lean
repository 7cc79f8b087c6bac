/-!
# Maps that remember the order of their keys

Each key has one value. A new key goes to the end; writing a known key again keeps its place
and changes its value. The lemmas say what `insert` and `erase` do to look-ups and to the list
of keys.
-/

namespace RelStore

variable {κ : Type u} {ν : Type v} [DecidableEq κ]

namespace OrderedMap

/-- Writes a key of an association list: in place where it occurs, else at the end. -/
def assign (key : κ) (value : ν) : List (κ × ν) → List (κ × ν)
  | [] => [(key, value)]
  | (k, v) :: rest => if k = key then (k, value) :: rest else (k, v) :: assign key value rest

theorem map_fst_assign (key : κ) (value : ν) (entries : List (κ × ν)) :
    (assign key value entries).map Prod.fst =
      if key ∈ entries.map Prod.fst then entries.map Prod.fst
      else entries.map Prod.fst ++ [key] := by
  induction entries with
  | nil => simp [assign]
  | cons entry rest ih =>
    obtain ⟨k, v⟩ := entry
    by_cases hk : k = key
    · simp [assign, hk]
    · have hk' : ¬ key = k := fun h => hk h.symm
      rw [assign, if_neg hk, List.map_cons, ih]
      by_cases hm : key ∈ rest.map Prod.fst <;> simp_all

theorem nodup_assign (key : κ) (value : ν) {entries : List (κ × ν)}
    (h : (entries.map Prod.fst).Nodup) : ((assign key value entries).map Prod.fst).Nodup := by
  rw [map_fst_assign]
  split
  · exact h
  · next hk => exact List.nodup_append.2 ⟨h, by simp, by grind⟩

omit [DecidableEq κ] in
theorem nodup_filter (p : κ × ν → Bool) {entries : List (κ × ν)}
    (h : (entries.map Prod.fst).Nodup) : ((entries.filter p).map Prod.fst).Nodup :=
  h.sublist (List.filter_sublist.map _)

end OrderedMap

/-- A map with its keys in the order of their first insertion. -/
structure OrderedMap (κ : Type u) (ν : Type v) where
  entries : List (κ × ν) := []
  nodup : (entries.map Prod.fst).Nodup := by simp

namespace OrderedMap

/-- The map without keys. -/
def empty : OrderedMap κ ν := {}

instance : EmptyCollection (OrderedMap κ ν) := ⟨empty⟩

instance : Inhabited (OrderedMap κ ν) := ⟨empty⟩

/-- The keys, oldest first. -/
def keys (m : OrderedMap κ ν) : List κ := m.entries.map Prod.fst

/-- The value of a key. -/
def get? (m : OrderedMap κ ν) (key : κ) : Option ν := m.entries.lookup key

/-- Whether the key has a value. -/
def contains (m : OrderedMap κ ν) (key : κ) : Bool := (m.get? key).isSome

/-- Gives a key its value: in place if the key is known, else at the end. -/
def insert (m : OrderedMap κ ν) (key : κ) (value : ν) : OrderedMap κ ν :=
  ⟨assign key value m.entries, nodup_assign key value m.nodup⟩

/-- Forgets a key. -/
def erase (m : OrderedMap κ ν) (key : κ) : OrderedMap κ ν :=
  ⟨m.entries.filter (·.1 != key), nodup_filter _ m.nodup⟩

/-- Writes pairs one after the other, so that the last value of a key counts. -/
def insertMany (m : OrderedMap κ ν) (pairs : List (κ × ν)) : OrderedMap κ ν :=
  pairs.foldl (fun m pair => m.insert pair.1 pair.2) m

/-- The map of a list of pairs. -/
def ofList (pairs : List (κ × ν)) : OrderedMap κ ν := empty.insertMany pairs

/-- The same keys, each with the image of its value. -/
def mapValues {ω : Type w} (m : OrderedMap κ ν) (f : κ → ν → ω) : OrderedMap κ ω where
  entries := m.entries.map fun entry => (entry.1, f entry.1 entry.2)
  nodup := by simpa [Function.comp_def] using m.nodup

omit [DecidableEq κ] in
@[ext]
theorem ext {m n : OrderedMap κ ν} (h : m.entries = n.entries) : m = n := by
  cases m; cases n; cases h; rfl

instance [DecidableEq ν] : DecidableEq (OrderedMap κ ν) := fun m n =>
  decidable_of_iff (m.entries = n.entries) ⟨ext, fun h => h ▸ rfl⟩

theorem lookup_cons_eq_ite (key k : κ) (v : ν) (rest : List (κ × ν)) :
    List.lookup key ((k, v) :: rest) = if key = k then some v else rest.lookup key := by
  by_cases h : key = k
  · simp [h]
  · rw [List.lookup_cons, beq_false_of_ne h, if_neg h]

theorem lookup_assign (key other : κ) (value : ν) (entries : List (κ × ν)) :
    (assign key value entries).lookup other =
      if other = key then some value else entries.lookup other := by
  induction entries with
  | nil => rw [assign, lookup_cons_eq_ite]
  | cons entry rest ih =>
    obtain ⟨k, v⟩ := entry
    by_cases hk : k = key
    · subst hk; simp only [assign, if_true, lookup_cons_eq_ite]; grind
    · simp only [assign, if_neg hk, lookup_cons_eq_ite, ih]
      split <;> split <;> simp_all

theorem lookup_filter_ne (key other : κ) (entries : List (κ × ν)) :
    (entries.filter (·.1 != key)).lookup other =
      if other = key then none else entries.lookup other := by
  induction entries with
  | nil => simp
  | cons entry rest ih =>
    obtain ⟨k, v⟩ := entry
    by_cases hk : k = key
    · rw [List.filter_cons_of_neg (by simp [hk]), ih, lookup_cons_eq_ite, hk]
      split <;> rfl
    · rw [List.filter_cons_of_pos (by simpa using hk), lookup_cons_eq_ite, lookup_cons_eq_ite, ih]
      split <;> split <;> simp_all

@[simp]
theorem get?_empty (key : κ) : (∅ : OrderedMap κ ν).get? key = none := rfl

theorem get?_insert (m : OrderedMap κ ν) (key other : κ) (value : ν) :
    (m.insert key value).get? other = if other = key then some value else m.get? other :=
  lookup_assign key other value m.entries

theorem get?_erase (m : OrderedMap κ ν) (key other : κ) :
    (m.erase key).get? other = if other = key then none else m.get? other :=
  lookup_filter_ne key other m.entries

theorem keys_insert (m : OrderedMap κ ν) (key : κ) (value : ν) :
    (m.insert key value).keys = if key ∈ m.keys then m.keys else m.keys ++ [key] :=
  map_fst_assign key value m.entries

omit [DecidableEq κ] in
theorem nodup_keys (m : OrderedMap κ ν) : m.keys.Nodup := m.nodup

theorem isSome_lookup_iff {key : κ} {entries : List (κ × ν)} :
    (entries.lookup key).isSome ↔ key ∈ entries.map Prod.fst := by
  induction entries with
  | nil => simp
  | cons entry rest ih =>
    obtain ⟨k, v⟩ := entry
    rw [lookup_cons_eq_ite]
    by_cases h : key = k <;> simp_all

theorem isSome_get?_iff {m : OrderedMap κ ν} {key : κ} : (m.get? key).isSome ↔ key ∈ m.keys :=
  isSome_lookup_iff

theorem contains_iff {m : OrderedMap κ ν} {key : κ} : m.contains key = true ↔ key ∈ m.keys := by
  rw [contains]; exact isSome_get?_iff

end OrderedMap

end RelStore
