import Mathlib.Order.Defs.LinearOrder
import Mathlib.Tactic.Order
import RelStore.Index.Leaf

/-!
# Entries in ascending order

What the operations on the entries of a leaf do when the keys ascend. Two views are given:

* by place: entries all of whose keys lie below, or above, the key in question stay as they are
  (`insert_append_of_lt`, `insert_append_of_gt` and their companions), so that an operation on
  a leaf is the same operation on the entries of the whole tree;
* by key: what is found under each key afterwards (`find?_insert`, `find?_erase`,
  `find?_modify`) and how the number of entries changes.
-/

namespace RelStore.Index.Leaf

variable {κ ν : Type} [LinearOrder κ]

/-- Entries with strictly ascending keys. -/
def Ascending (entries : List (κ × ν)) : Prop := entries.Pairwise (·.1 < ·.1)

@[simp]
theorem ascending_nil : Ascending ([] : List (κ × ν)) := List.Pairwise.nil

theorem ascending_cons {entry : κ × ν} {rest : List (κ × ν)} :
    Ascending (entry :: rest) ↔ (∀ e ∈ rest, entry.1 < e.1) ∧ Ascending rest :=
  List.pairwise_cons

theorem ascending_append {xs ys : List (κ × ν)} :
    Ascending (xs ++ ys) ↔
      Ascending xs ∧ Ascending ys ∧ ∀ x ∈ xs, ∀ y ∈ ys, x.1 < y.1 :=
  List.pairwise_append

/-! ## By place -/

section Place

variable {key : κ} {xs ys : List (κ × ν)}

theorem find?_of_forall_gt (h : ∀ e ∈ ys, key < e.1) : find? key ys = none := by
  cases ys with
  | nil => rfl
  | cons e ys =>
    have he := h e List.mem_cons_self
    rw [find?, if_neg he.asymm, if_pos he]

theorem insert_of_forall_gt (value : ν) (h : ∀ e ∈ ys, key < e.1) :
    insert key value ys = (key, value) :: ys := by
  cases ys with
  | nil => rfl
  | cons e ys =>
    have he := h e List.mem_cons_self
    rw [insert, if_neg he.asymm, if_pos he]

theorem erase_of_forall_gt (h : ∀ e ∈ ys, key < e.1) : erase key ys = ys := by
  cases ys with
  | nil => rfl
  | cons e ys =>
    have he := h e List.mem_cons_self
    rw [erase, if_neg he.asymm, if_pos he]

theorem modify_of_forall_gt (f : ν → ν) (h : ∀ e ∈ ys, key < e.1) : modify key f ys = ys := by
  cases ys with
  | nil => rfl
  | cons e ys =>
    have he := h e List.mem_cons_self
    rw [modify, if_neg he.asymm, if_pos he]

theorem find?_append_of_lt (h : ∀ e ∈ xs, e.1 < key) (ys : List (κ × ν)) :
    find? key (xs ++ ys) = find? key ys := by
  induction xs with
  | nil => rfl
  | cons e xs ih =>
    rw [List.forall_mem_cons] at h
    rw [List.cons_append, find?, if_pos h.1, ih h.2]

theorem find?_append_of_gt (xs : List (κ × ν)) (h : ∀ e ∈ ys, key < e.1) :
    find? key (xs ++ ys) = find? key xs := by
  induction xs with
  | nil => exact find?_of_forall_gt h
  | cons e xs ih => rw [List.cons_append, find?, find?, ih]

theorem insert_append_of_lt (h : ∀ e ∈ xs, e.1 < key) (value : ν) (ys : List (κ × ν)) :
    insert key value (xs ++ ys) = xs ++ insert key value ys := by
  induction xs with
  | nil => rfl
  | cons e xs ih =>
    rw [List.forall_mem_cons] at h
    rw [List.cons_append, insert, if_pos h.1, ih h.2, List.cons_append]

theorem insert_append_of_gt (xs : List (κ × ν)) (value : ν) (h : ∀ e ∈ ys, key < e.1) :
    insert key value (xs ++ ys) = insert key value xs ++ ys := by
  induction xs with
  | nil => exact insert_of_forall_gt value h
  | cons e xs ih => rw [List.cons_append, insert, insert, ih]; split_ifs <;> rfl

theorem erase_append_of_lt (h : ∀ e ∈ xs, e.1 < key) (ys : List (κ × ν)) :
    erase key (xs ++ ys) = xs ++ erase key ys := by
  induction xs with
  | nil => rfl
  | cons e xs ih =>
    rw [List.forall_mem_cons] at h
    rw [List.cons_append, erase, if_pos h.1, ih h.2, List.cons_append]

theorem erase_append_of_gt (xs : List (κ × ν)) (h : ∀ e ∈ ys, key < e.1) :
    erase key (xs ++ ys) = erase key xs ++ ys := by
  induction xs with
  | nil => exact erase_of_forall_gt h
  | cons e xs ih => rw [List.cons_append, erase, erase, ih]; split_ifs <;> rfl

theorem modify_append_of_lt (h : ∀ e ∈ xs, e.1 < key) (f : ν → ν) (ys : List (κ × ν)) :
    modify key f (xs ++ ys) = xs ++ modify key f ys := by
  induction xs with
  | nil => rfl
  | cons e xs ih =>
    rw [List.forall_mem_cons] at h
    rw [List.cons_append, modify, if_pos h.1, ih h.2, List.cons_append]

theorem modify_append_of_gt (xs : List (κ × ν)) (f : ν → ν) (h : ∀ e ∈ ys, key < e.1) :
    modify key f (xs ++ ys) = modify key f xs ++ ys := by
  induction xs with
  | nil => exact modify_of_forall_gt f h
  | cons e xs ih => rw [List.cons_append, modify, modify, ih]; split_ifs <;> rfl

end Place

/-! ## By key -/

section Key

variable (key : κ) {entries : List (κ × ν)}

theorem fst_mem_insert {e : κ × ν} {value : ν} (h : e ∈ insert key value entries) :
    e.1 = key ∨ ∃ d ∈ entries, d.1 = e.1 := by
  induction entries with
  | nil => simp_all [insert]
  | cons d rest ih =>
    rw [insert] at h
    split_ifs at h <;> grind

theorem mem_of_mem_erase {e : κ × ν} (h : e ∈ erase key entries) : e ∈ entries := by
  induction entries with
  | nil => exact h
  | cons d rest ih =>
    rw [erase] at h
    split_ifs at h <;> grind

theorem map_fst_modify (f : ν → ν) :
    (modify key f entries).map Prod.fst = entries.map Prod.fst := by
  induction entries with
  | nil => rfl
  | cons d rest ih => rw [modify]; split_ifs <;> simp [ih]

theorem erase_of_find?_eq_none (h : find? key entries = none) : erase key entries = entries := by
  induction entries with
  | nil => rfl
  | cons d rest ih => rw [find?] at h; rw [erase]; split_ifs at h ⊢ <;> simp_all

theorem Ascending.insert (h : Ascending entries) (value : ν) :
    Ascending (Leaf.insert key value entries) := by
  induction entries with
  | nil => exact ascending_cons.2 ⟨by simp, h⟩
  | cons d rest ih =>
    obtain ⟨hd, hr⟩ := ascending_cons.1 h
    rw [Leaf.insert]
    split_ifs with h₁ h₂
    · refine ascending_cons.2 ⟨fun e he => ?_, ih hr⟩
      rcases fst_mem_insert key he with he | ⟨d', hd', he⟩
      · exact he ▸ h₁
      · exact he ▸ hd d' hd'
    · exact ascending_cons.2 ⟨List.forall_mem_cons.2 ⟨h₂, fun e he => h₂.trans (hd e he)⟩, h⟩
    · exact ascending_cons.2 ⟨hd, hr⟩

theorem Ascending.erase (h : Ascending entries) : Ascending (Leaf.erase key entries) := by
  induction entries with
  | nil => exact h
  | cons d rest ih =>
    obtain ⟨hd, hr⟩ := ascending_cons.1 h
    rw [Leaf.erase]
    split_ifs
    · exact ascending_cons.2 ⟨fun e he => hd e (mem_of_mem_erase key he), ih hr⟩
    · exact h
    · exact hr

theorem Ascending.modify (h : Ascending entries) (f : ν → ν) :
    Ascending (Leaf.modify key f entries) := by
  have := List.pairwise_map.2 h
  rw [← map_fst_modify key f] at this
  exact List.pairwise_map.1 this

theorem find?_eq_some_iff (h : Ascending entries) {value : ν} :
    find? key entries = some value ↔ (key, value) ∈ entries := by
  induction entries with
  | nil => simp [find?]
  | cons d rest ih =>
    obtain ⟨hd, hr⟩ := ascending_cons.1 h
    obtain ⟨k, v⟩ := d
    have hn : ∀ e ∈ rest, k < e.1 := hd
    rw [find?, List.mem_cons, Prod.mk.injEq]
    split_ifs with h₁ h₂
    · simp [ih hr, h₁.ne']
    · simp only [h₂.ne, false_and, false_or, false_iff]
      exact fun hm => h₂.asymm (hn _ hm)
    · have hk : key = k := le_antisymm (not_lt.1 h₁) (not_lt.1 h₂)
      subst hk
      simp only [Option.some.injEq, true_and, eq_comm (a := v)]
      exact ⟨.inl, fun hm => hm.resolve_right fun hm => lt_irrefl _ (hn _ hm)⟩

theorem find?_insert (value : ν) (h : Ascending entries) (other : κ) :
    find? other (insert key value entries) =
      if other = key then some value else find? other entries := by
  induction entries with
  | nil =>
    rw [insert, find?, find?]
    split_ifs <;> first | rfl | order
  | cons d rest ih =>
    obtain ⟨hd, hr⟩ := ascending_cons.1 h
    rw [insert]
    split_ifs <;> grind [find?, lt_trichotomy]

theorem find?_erase (h : Ascending entries) (other : κ) :
    find? other (erase key entries) = if other = key then none else find? other entries := by
  induction entries with
  | nil => simp [erase, find?]
  | cons d rest ih =>
    obtain ⟨hd, hr⟩ := ascending_cons.1 h
    have hn : ∀ k, k ≤ d.1 → find? k rest = none := fun k hk =>
      find?_of_forall_gt fun e he => lt_of_le_of_lt hk (hd e he)
    rw [erase]
    split_ifs <;> grind [find?, lt_trichotomy]

theorem find?_modify (f : ν → ν) (h : Ascending entries) (other : κ) :
    find? other (modify key f entries) =
      if other = key then (find? key entries).map f else find? other entries := by
  induction entries with
  | nil => simp [modify, find?]
  | cons d rest ih =>
    obtain ⟨hd, hr⟩ := ascending_cons.1 h
    rw [modify]
    split_ifs <;> grind [find?, lt_trichotomy]

theorem length_insert (value : ν) :
    (insert key value entries).length =
      if (find? key entries).isSome then entries.length else entries.length + 1 := by
  induction entries with
  | nil => rfl
  | cons d rest ih => rw [insert, find?]; split_ifs <;> simp_all

theorem length_erase :
    (erase key entries).length =
      if (find? key entries).isSome then entries.length - 1 else entries.length := by
  induction entries with
  | nil => rfl
  | cons d rest ih =>
    rw [erase, find?]
    have hp : (find? key rest).isSome → 0 < rest.length := by
      cases rest <;> simp [find?]
    split_ifs <;> simp_all
    omega

end Key

end RelStore.Index.Leaf
