import RelStore.OrderedMap

/-!
# More on maps that remember the order of their keys

A map is what its entries make of the empty one (`ofList_entries`), and a new key goes behind
all others (`entries_insert`).
-/

namespace RelStore.OrderedMap

variable {κ : Type u} {ν : Type v} {ω : Type w} [DecidableEq κ]

theorem assign_of_not_mem {key : κ} (value : ν) {entries : List (κ × ν)}
    (h : key ∉ entries.map Prod.fst) : assign key value entries = entries ++ [(key, value)] := by
  induction entries with
  | nil => rfl
  | cons entry entries ih =>
    rw [List.map_cons, List.mem_cons, not_or] at h
    rw [assign, if_neg (Ne.symm h.1), ih h.2, List.cons_append]

theorem entries_insert {m : OrderedMap κ ν} {key : κ} (h : key ∉ m.keys) (value : ν) :
    (m.insert key value).entries = m.entries ++ [(key, value)] :=
  assign_of_not_mem value h

theorem entries_insertMany {m : OrderedMap κ ν} {pairs : List (κ × ν)}
    (h : ((m.entries ++ pairs).map Prod.fst).Nodup) :
    (m.insertMany pairs).entries = m.entries ++ pairs := by
  induction pairs generalizing m with
  | nil => exact (List.append_nil _).symm
  | cons pair pairs ih =>
    have hk : pair.1 ∉ m.keys := by
      rw [List.map_append, List.map_cons] at h
      exact fun hm => (List.nodup_append.1 h).2.2 _ hm _ List.mem_cons_self rfl
    have he : (m.insert pair.1 pair.2).entries ++ pairs = m.entries ++ pair :: pairs := by
      rw [entries_insert hk, List.append_assoc]; rfl
    have hi := ih (m := m.insert pair.1 pair.2) (he ▸ h)
    rw [he] at hi
    exact hi

/-- Writing the entries of a map in their order makes the map. -/
theorem ofList_entries (m : OrderedMap κ ν) : ofList m.entries = m :=
  ext (entries_insertMany (m := ∅) m.nodup)

theorem mem_of_lookup_eq_some {key : κ} {value : ν} {entries : List (κ × ν)}
    (h : entries.lookup key = some value) : (key, value) ∈ entries := by
  induction entries with
  | nil => cases h
  | cons entry entries ih =>
    obtain ⟨k, v⟩ := entry
    rw [lookup_cons_eq_ite] at h
    split at h
    · next hk =>
      obtain rfl := Option.some.inj h
      exact hk ▸ List.mem_cons_self
    · exact List.mem_cons_of_mem _ (ih h)

theorem mem_entries_of_get? {m : OrderedMap κ ν} {key : κ} {value : ν}
    (h : m.get? key = some value) : (key, value) ∈ m.entries := mem_of_lookup_eq_some h

theorem assign_of_lookup {key : κ} {value : ν} {entries : List (κ × ν)}
    (h : entries.lookup key = some value) : assign key value entries = entries := by
  induction entries with
  | nil => cases h
  | cons entry entries ih =>
    obtain ⟨k, v⟩ := entry
    rw [lookup_cons_eq_ite] at h
    by_cases hk : key = k
    · rw [if_pos hk] at h
      rw [assign, if_pos hk.symm, Option.some.inj h]
    · rw [if_neg hk] at h
      rw [assign, if_neg (Ne.symm hk), ih h]

/-- Writing a value again changes nothing. -/
theorem insert_of_get? {m : OrderedMap κ ν} {key : κ} {value : ν} (h : m.get? key = some value) :
    m.insert key value = m :=
  ext (assign_of_lookup h)

theorem mem_keys_of_get? {m : OrderedMap κ ν} {key : κ} {value : ν}
    (h : m.get? key = some value) : key ∈ m.keys :=
  isSome_get?_iff.1 (h ▸ rfl)

theorem get?_eq_none_iff {m : OrderedMap κ ν} {key : κ} : m.get? key = none ↔ key ∉ m.keys := by
  rw [← isSome_get?_iff, Bool.not_eq_true, Option.isSome_eq_false_iff, Option.isNone_iff_eq_none]

theorem get?_insert_self (m : OrderedMap κ ν) (key : κ) (value : ν) :
    (m.insert key value).get? key = some value := by
  rw [get?_insert, if_pos rfl]

theorem get?_insert_of_ne {key other : κ} (h : other ≠ key) (m : OrderedMap κ ν) (value : ν) :
    (m.insert key value).get? other = m.get? other := by
  rw [get?_insert, if_neg h]

theorem get?_erase_self (m : OrderedMap κ ν) (key : κ) : (m.erase key).get? key = none := by
  rw [get?_erase, if_pos rfl]

theorem get?_erase_of_ne {key other : κ} (h : other ≠ key) (m : OrderedMap κ ν) :
    (m.erase key).get? other = m.get? other := by
  rw [get?_erase, if_neg h]

/-- A new key that is forgotten again leaves nothing behind. -/
theorem erase_insert {m : OrderedMap κ ν} {key : κ} (h : key ∉ m.keys) (value : ν) :
    (m.insert key value).erase key = m := by
  refine ext ?_
  show (m.insert key value).entries.filter (·.1 != key) = m.entries
  rw [entries_insert h, List.filter_append, List.filter_cons_of_neg (by simp), List.filter_nil,
    List.append_nil, List.filter_eq_self]
  exact fun entry hm => bne_iff_ne.2 fun he => h (he ▸ List.mem_map_of_mem hm)

theorem lookup_map (f : κ → ν → ω) (key : κ) (entries : List (κ × ν)) :
    (entries.map fun entry => (entry.1, f entry.1 entry.2)).lookup key =
      (entries.lookup key).map (f key) := by
  induction entries with
  | nil => rfl
  | cons entry entries ih =>
    obtain ⟨k, v⟩ := entry
    rw [List.map_cons, lookup_cons_eq_ite, lookup_cons_eq_ite, ih]
    split
    · next h => rw [h]; rfl
    · rfl

theorem get?_mapValues (m : OrderedMap κ ν) (f : κ → ν → ω) (key : κ) :
    (m.mapValues f).get? key = (m.get? key).map (f key) := lookup_map f key m.entries

theorem map_assign (f : ν → ω) (key : κ) (value : ν) (entries : List (κ × ν)) :
    (assign key value entries).map (fun entry => (entry.1, f entry.2)) =
      assign key (f value) (entries.map fun entry => (entry.1, f entry.2)) := by
  induction entries with
  | nil => rfl
  | cons entry entries ih =>
    obtain ⟨k, v⟩ := entry
    by_cases hk : k = key
    · rw [assign, if_pos hk, List.map_cons, List.map_cons, assign, if_pos hk]
    · rw [assign, if_neg hk, List.map_cons, List.map_cons, assign, if_neg hk, ih]

theorem mapValues_insert (m : OrderedMap κ ν) (f : ν → ω) (key : κ) (value : ν) :
    (m.insert key value).mapValues (fun _ => f) = (m.mapValues fun _ => f).insert key (f value) :=
  ext (map_assign f key value m.entries)

theorem mapValues_erase (m : OrderedMap κ ν) (f : ν → ω) (key : κ) :
    (m.erase key).mapValues (fun _ => f) = (m.mapValues fun _ => f).erase key := by
  refine ext ?_
  show (m.entries.filter _).map _ = (m.entries.map _).filter _
  rw [List.filter_map]
  rfl

omit [DecidableEq κ] in
theorem mapValues_comm (m : OrderedMap κ ν) {f g : ν → ν} (h : ∀ value, f (g value) = g (f value)) :
    (m.mapValues fun _ => g).mapValues (fun _ => f) =
      (m.mapValues fun _ => f).mapValues fun _ => g := by
  refine ext ?_
  show (m.entries.map _).map _ = (m.entries.map _).map _
  rw [List.map_map, List.map_map]
  exact List.map_congr_left fun entry _ => Prod.ext rfl (h entry.2)

end RelStore.OrderedMap
