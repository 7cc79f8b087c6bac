import Mathlib.Tactic.SplitIfs
import RelStore.Index.BPlusTree

/-!
# Cells in an arena

The nodes of a tree as cells of one list, which refer to each other by index. A leaf keeps its
keys and its values in two lists and knows the leaves beside it; a branch keeps its separators
and the indices of its children. Released cells are used again.

A step on a heap that cannot be taken gives nothing: an index out of range, a cell that is not
live, a difference below zero. What the steps do is told by `get?`, or apart by the `content` and
the `links` of a cell; `Tidy` says that the cells that are free are those that may be filled.
-/

namespace RelStore.Index

/-- The index of a cell. -/
abbrev NodeId := Nat

/-- A node of the tree. -/
inductive Cell (κ ν : Type) where
  | branch (keys : List κ) (children : List NodeId)
  | leaf (keys : List κ) (values : List ν) (prev next : Option NodeId)

/-- The keys of the node itself. -/
def Cell.keys {κ ν : Type} : Cell κ ν → List κ
  | .branch keys _ => keys
  | .leaf keys _ _ _ => keys

/-- The cell without the leaves beside it. -/
def Cell.unlinked {κ ν : Type} : Cell κ ν → Cell κ ν
  | .branch keys children => .branch keys children
  | .leaf keys values _ _ => .leaf keys values none none

/-- The leaves beside a leaf. -/
def Cell.links? {κ ν : Type} : Cell κ ν → Option (Option NodeId × Option NodeId)
  | .branch .. => none
  | .leaf _ _ prev next => some (prev, next)

/-- The cells, those that are not live being empty, and the indices that are free, the one
released last in front. -/
structure Heap (κ ν : Type) where
  cells : List (Option (Cell κ ν))
  free : List NodeId

/-- A computation on a heap that may get stuck. -/
abbrev Heap.Run (κ ν : Type) := StateT (Heap κ ν) Option

/-! ## Lists and numbers -/

section Checked

variable {α : Type}

/-- A difference, where it is not below zero. -/
def difference? (m n : Nat) : Option Nat := if n ≤ m then some (m - n) else none

/-- Takes out the item at an index. -/
def removeAt? (items : List α) (i : Nat) : Option (α × List α) :=
  items[i]?.map fun item => (item, items.eraseIdx i)

/-- Puts an item in at an index. -/
def insertAt? (items : List α) (i : Nat) (item : α) : Option (List α) :=
  if i ≤ items.length then some (items.insertIdx i item) else none

/-- Puts an item in the place of the one at an index. -/
def replaceAt? (items : List α) (i : Nat) (item : α) : Option (α × List α) :=
  items[i]?.map fun old => (old, items.set i item)

/-- Cuts items before an index. -/
def cutAt? (items : List α) (i : Nat) : Option (List α × List α) :=
  if i ≤ items.length then some (items.take i, items.drop i) else none

variable {items : List α} {i : Nat} (lower upper : List α)

theorem removeAt?_eq (item : α) (h : items = lower ++ item :: upper) (hi : i = lower.length) :
    removeAt? items i = some (item, lower ++ upper) := by
  subst h hi
  rw [removeAt?, List.eraseIdx_append_of_length_le (Nat.le_refl _)]
  simp

theorem insertAt?_eq (item : α) (h : items = lower ++ upper) (hi : i = lower.length) :
    insertAt? items i item = some (lower ++ item :: upper) := by
  subst h hi
  have he : (lower ++ upper).insertIdx lower.length item = lower ++ item :: upper := by
    induction lower with
    | nil => rfl
    | cons first lower ih => simpa using ih
  simp [insertAt?, he]

theorem replaceAt?_eq (item new : α) (h : items = lower ++ item :: upper)
    (hi : i = lower.length) : replaceAt? items i new = some (item, lower ++ new :: upper) := by
  subst h hi; simp [replaceAt?]

theorem cutAt?_eq (h : items = lower ++ upper) (hi : i = lower.length) :
    cutAt? items i = some (lower, upper) := by
  subst h hi; simp [cutAt?]

end Checked

variable {κ ν : Type}

namespace Heap

/-! ## Cells -/

/-- The live cell at an index. -/
def get? (h : Heap κ ν) (id : NodeId) : Option (Cell κ ν) := h.cells[id]?.join

/-- The heap with one of its cells filled or emptied. -/
def set (h : Heap κ ν) (id : NodeId) (cell : Option (Cell κ ν)) : Heap κ ν :=
  { h with cells := h.cells.set id cell }

/-- Looks at a live cell. -/
def node (id : NodeId) : Run κ ν (Cell κ ν) := fun h => (h.get? id).map (·, h)

/-- Fills a cell. -/
def put (id : NodeId) (cell : Cell κ ν) : Run κ ν Unit := fun h =>
  if id < h.cells.length then some ((), h.set id cell) else none

/-- Empties a live cell, which is to be filled again. -/
def take (id : NodeId) : Run κ ν (Cell κ ν) := fun h =>
  (h.get? id).map fun cell => (cell, h.set id none)

/-- Fills the cell that was released last, or a new one where none is free. -/
def alloc (cell : Cell κ ν) : Run κ ν NodeId := fun h =>
  match h.free with
  | id :: free => if id < h.cells.length then some (id, { h.set id cell with free }) else none
  | [] => some (h.cells.length, { h with cells := h.cells ++ [some cell] })

/-- Empties a live cell for good. -/
def release (id : NodeId) : Run κ ν (Cell κ ν) := fun h =>
  (h.get? id).map fun cell => (cell, { h.set id none with free := id :: h.free })

/-! ## Stepwise computing -/

section Run

variable {α β : Type} {h h' : Heap κ ν}

theorem run_bind {x : Run κ ν α} {a : α} (hx : x h = some (a, h')) (f : α → Run κ ν β) :
    (x >>= f) h = f a h' := by
  show (x h).bind _ = _
  rw [hx]; rfl

theorem run_lift {x : Option α} {a : α} (hx : x = some a) (f : α → Run κ ν β) :
    ((liftM x : Run κ ν α) >>= f) h = f a h := by
  subst hx; rfl

end Run

/-! ## What is in the cells -/

variable {h : Heap κ ν} {i j : NodeId} {cell : Cell κ ν}

theorem lt_of_get? (hi : h.get? i = some cell) : i < h.cells.length := by
  refine Nat.lt_of_not_le fun hle => ?_
  rw [get?, List.getElem?_eq_none hle] at hi
  cases hi

@[simp] theorem length_set (h : Heap κ ν) (i : NodeId) (c : Option (Cell κ ν)) :
    (h.set i c).cells.length = h.cells.length := List.length_set

theorem set_set (h : Heap κ ν) (i : NodeId) (c c' : Option (Cell κ ν)) :
    (h.set i c).set i c' = h.set i c' := by simp [set]

theorem set_comm (h : Heap κ ν) (hij : i ≠ j) (c c' : Option (Cell κ ν)) :
    (h.set i c).set j c' = (h.set j c').set i c := by
  unfold set
  rw [Heap.mk.injEq]
  exact ⟨List.set_comm c c' hij, rfl⟩

theorem get?_set (hi : i < h.cells.length) (c : Option (Cell κ ν)) (j : NodeId) :
    (h.set i c).get? j = if j = i then c else h.get? j := by
  unfold get? set
  dsimp only
  split_ifs with hj
  · rw [hj, List.getElem?_set_self hi]; rfl
  · rw [List.getElem?_set_ne fun he => hj he.symm]

/-- The free indices are those of different cells, all of them empty. -/
structure Tidy (h : Heap κ ν) : Prop where
  nodup : h.free.Nodup
  empty : ∀ i ∈ h.free, h.cells[i]? = some none

theorem Tidy.not_mem_free (ht : h.Tidy) (hi : h.get? i = some cell) : i ∉ h.free := fun hm => by
  rw [get?, ht.empty i hm] at hi
  cases hi

theorem Tidy.set (ht : h.Tidy) (hi : i ∉ h.free) (c : Option (Cell κ ν)) : (h.set i c).Tidy where
  nodup := ht.nodup
  empty j hj := by
    have hne : i ≠ j := fun he => hi (he ▸ hj)
    exact (List.getElem?_set_ne hne).trans (ht.empty j hj)

theorem node_eq (hi : h.get? i = some cell) : node i h = some (cell, h) := by
  rw [node, hi]; rfl

theorem take_eq (hi : h.get? i = some cell) : take i h = some (cell, h.set i none) := by
  rw [take, hi]; rfl

theorem put_eq (hi : i < h.cells.length) (cell : Cell κ ν) :
    put i cell h = some ((), h.set i (some cell)) := if_pos hi

/-- A released cell is empty and free. -/
theorem release_spec (ht : h.Tidy) (hi : h.get? i = some cell) :
    ∃ h', release i h = some (cell, h') ∧ h'.Tidy ∧
      ∀ j, h'.get? j = if j = i then none else h.get? j := by
  have hlt := lt_of_get? hi
  have hfree := ht.not_mem_free hi
  refine ⟨{ h.set i none with free := i :: h.free }, by rw [release, hi]; rfl, ?_, get?_set hlt none⟩
  refine ⟨List.nodup_cons.2 ⟨hfree, ht.nodup⟩, List.forall_mem_cons.2 ⟨?_, ?_⟩⟩
  · exact List.getElem?_set_self hlt
  · exact (ht.set hfree none).empty

/-- An allocated cell was empty. -/
theorem alloc_spec (ht : h.Tidy) (cell : Cell κ ν) :
    ∃ i h', alloc cell h = some (i, h') ∧ h.get? i = none ∧ h'.Tidy ∧
      ∀ j, h'.get? j = if j = i then some cell else h.get? j := by
  unfold alloc
  cases hf : h.free with
  | nil =>
    refine ⟨h.cells.length, _, rfl, ?_, ⟨hf ▸ ht.nodup, fun i hi => ?_⟩, fun j => ?_⟩
    · simp [get?]
    · simp at hi
    · by_cases hj : j = h.cells.length
      · simp [get?, hj]
      · rw [if_neg hj, get?, get?]
        rcases Nat.lt_or_gt_of_ne hj with hlt | hgt
        · rw [List.getElem?_append_left hlt]
        · rw [List.getElem?_eq_none (by simp; omega), List.getElem?_eq_none (Nat.le_of_lt hgt)]
  | cons i free =>
    have hn := ht.nodup
    have he := ht.empty
    rw [hf] at hn he
    have hi := he i List.mem_cons_self
    obtain ⟨hlt, -⟩ := List.getElem?_eq_some_iff.1 hi
    have hnot := (List.nodup_cons.1 hn).1
    refine ⟨i, { h.set i (some cell) with free }, if_pos hlt, by rw [get?, hi]; rfl,
      ⟨(List.nodup_cons.1 hn).2, fun j hj => ?_⟩, get?_set hlt (some cell)⟩
    have hne : i ≠ j := fun he => hnot (he ▸ hj)
    exact (List.getElem?_set_ne hne).trans (he j (List.mem_cons_of_mem i hj))

/-! ## Contents and links -/

/-- What a cell holds, with the leaves beside it left out. -/
def content (h : Heap κ ν) (i : NodeId) : Option (Cell κ ν) := (h.get? i).map Cell.unlinked

/-- The leaves beside a leaf. -/
def links (h : Heap κ ν) (i : NodeId) : Option (Option NodeId × Option NodeId) := (h.get? i).bind Cell.links?

theorem content_set (hi : i < h.cells.length) (cell : Cell κ ν) (j : NodeId) :
    (h.set i (some cell)).content j = if j = i then some cell.unlinked else h.content j := by
  rw [content, get?_set hi]
  split_ifs <;> rfl

theorem links_set (hi : i < h.cells.length) (cell : Cell κ ν) (j : NodeId) :
    (h.set i (some cell)).links j = if j = i then cell.links? else h.links j := by
  rw [links, get?_set hi]
  split_ifs <;> rfl

theorem get?_of_branch {keys : List κ} {children : List NodeId}
    (hi : h.content i = some (.branch keys children)) : h.get? i = some (.branch keys children) := by
  unfold content at hi
  rcases hc : h.get? i with _ | ⟨ks, cs⟩ | ⟨ks, vs, p, n⟩ <;> rw [hc] at hi <;> cases hi
  rfl

theorem get?_of_leaf {keys : List κ} {values : List ν}
    (hi : h.content i = some (.leaf keys values none none)) :
    ∃ prev next, h.get? i = some (.leaf keys values prev next) := by
  unfold content at hi
  rcases hc : h.get? i with _ | ⟨ks, cs⟩ | ⟨ks, vs, p, n⟩ <;> rw [hc] at hi <;> cases hi
  exact ⟨p, n, rfl⟩

theorem get?_of_leaf_links {keys : List κ} {values : List ν} {prev next : Option NodeId}
    (hi : h.content i = some (.leaf keys values none none)) (hl : h.links i = some (prev, next)) :
    h.get? i = some (.leaf keys values prev next) := by
  obtain ⟨p, n, hget⟩ := get?_of_leaf hi
  rw [links, hget] at hl
  cases hl
  exact hget

theorem get?_of_links {prev next : Option NodeId} (hi : h.links i = some (prev, next)) :
    ∃ keys values, h.get? i = some (.leaf keys values prev next) := by
  unfold links at hi
  rcases hc : h.get? i with _ | ⟨ks, cs⟩ | ⟨ks, vs, p, n⟩ <;> rw [hc] at hi <;> cases hi
  exact ⟨ks, vs, rfl⟩

end Heap

end RelStore.Index
