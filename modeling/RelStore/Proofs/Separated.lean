import Mathlib.Data.List.Induction

/-!
# Items with a separator between them

The writers put a separator between each two items, while their readers meet the first item and
then, again and again, a separator and the item behind it. `intercalate_cons` goes from one view
to the other.
-/

namespace RelStore

theorem intercalate_cons {α : Type} (separator : α) (item : List α) (items : List (List α)) :
    List.intercalate [separator] (item :: items) = item ++ items.flatMap (separator :: ·) := by
  induction items generalizing item with
  | nil => simp [List.intercalate]
  | cons next items ih =>
    rw [List.intercalate_cons_cons, ih, List.flatMap_cons]
    simp

end RelStore
