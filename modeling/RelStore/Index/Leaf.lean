import RelStore.Index.Children

/-!
# The entries of a leaf

Keys in strictly ascending order, each with its value. Keys are compared by `<` alone; two keys
of which neither is below the other are the same key.
-/

namespace RelStore.Index.Leaf

variable {κ ν : Type}

section Search

variable [LT κ] [DecidableLT κ]

/-- The value of a key. -/
def find? (key : κ) : List (κ × ν) → Option ν
  | [] => none
  | (k, v) :: rest => if k < key then find? key rest else if key < k then none else some v

/-- The entries with the key's value set. -/
def insert (key : κ) (value : ν) : List (κ × ν) → List (κ × ν)
  | [] => [(key, value)]
  | (k, v) :: rest =>
    if k < key then (k, v) :: insert key value rest
    else if key < k then (key, value) :: (k, v) :: rest
    else (k, value) :: rest

/-- The entries without the key. -/
def erase (key : κ) : List (κ × ν) → List (κ × ν)
  | [] => []
  | (k, v) :: rest =>
    if k < key then (k, v) :: erase key rest
    else if key < k then (k, v) :: rest
    else rest

/-- The entries with a function applied to the key's value. -/
def modify (key : κ) (f : ν → ν) : List (κ × ν) → List (κ × ν)
  | [] => []
  | (k, v) :: rest =>
    if k < key then (k, v) :: modify key f rest
    else if key < k then (k, v) :: rest
    else (k, f v) :: rest

end Search

/-- Cuts entries that have reached the order of the tree in the middle. The first key of the
upper half is the separator and stays in its leaf. -/
def split (order : Nat) (entries : List (κ × ν)) : Growth κ (List (κ × ν)) :=
  if entries.length < order then .one entries
  else match entries.drop (entries.length / 2) with
    | [] => .one entries
    | (key, value) :: upper =>
      .two (entries.take (entries.length / 2)) key ((key, value) :: upper)

/-- Moves the last entry on the left over to the right. -/
def lendRight (left : List (κ × ν)) (separator : κ) (right : List (κ × ν)) :
    List (κ × ν) × κ × List (κ × ν) :=
  match left.getLast? with
  | none => (left, separator, right)
  | some entry => (left.dropLast, entry.1, entry :: right)

/-- Moves the first entry on the right over to the left. -/
def lendLeft (left : List (κ × ν)) (separator : κ) (right : List (κ × ν)) :
    List (κ × ν) × κ × List (κ × ν) :=
  match right with
  | entry :: next :: rest => (left ++ [entry], next.1, next :: rest)
  | right => (left, separator, right)

/-- The entries of two neighbours in one row. -/
def merge (left right : List (κ × ν)) : List (κ × ν) := left ++ right

end RelStore.Index.Leaf
