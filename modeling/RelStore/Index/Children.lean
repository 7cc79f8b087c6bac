/-!
# The children of a branch

A first child and further children, each behind the separator that stands between it and its
left neighbour. A focus picks one child out: the siblings on its left come nearest first, those
on its right in order, each with the separator between. `Focus.seek` finds the child that a key
belongs to, `Focus.close` puts the siblings together again (`close_seek`).
-/

namespace RelStore.Index

/-- What an insertion makes of a node: one node, or two with a separator between them. -/
inductive Growth (κ α : Type) where
  | one (node : α)
  | two (left : α) (separator : κ) (right : α)

/-- The children of a branch: the first, and the others behind their separators. -/
structure Children (κ α : Type) where
  first : α
  rest : List (κ × α)

/-- One child of a branch and its siblings on both sides. -/
structure Focus (κ α : Type) where
  before : List (α × κ)
  here : α
  after : List (κ × α)

namespace Focus

variable {κ α : Type}

/-- Walks right from a child over every separator that the key reaches. -/
def seekFrom [LT κ] [DecidableLT κ] (key : κ) (before : List (α × κ)) (here : α) :
    List (κ × α) → Focus κ α
  | [] => ⟨before, here, []⟩
  | (separator, next) :: after =>
    if key < separator then ⟨before, here, (separator, next) :: after⟩
    else seekFrom key ((here, separator) :: before) next after

/-- The child for a key. A key equal to a separator belongs to its right. -/
def seek [LT κ] [DecidableLT κ] (key : κ) (children : Children κ α) : Focus κ α :=
  seekFrom key [] children.first children.rest

/-- Puts the siblings on the left back in front. -/
def closeFrom : List (α × κ) → α → List (κ × α) → Children κ α
  | [], here, after => ⟨here, after⟩
  | (left, separator) :: before, here, after =>
    closeFrom before left ((separator, here) :: after)

/-- All children again. -/
def close (focus : Focus κ α) : Children κ α :=
  closeFrom focus.before focus.here focus.after

theorem close_seekFrom [LT κ] [DecidableLT κ] (key : κ) (before : List (α × κ)) (here : α)
    (after : List (κ × α)) :
    (seekFrom key before here after).close = closeFrom before here after := by
  induction after generalizing before here with
  | nil => rfl
  | cons entry after ih =>
    obtain ⟨separator, next⟩ := entry
    rw [seekFrom]
    split
    · rfl
    · rw [ih]; rfl

/-- Seeking only moves: the children stay the same. -/
theorem close_seek [LT κ] [DecidableLT κ] (key : κ) (children : Children κ α) :
    (seek key children).close = children :=
  close_seekFrom key [] children.first children.rest

end Focus

namespace Children

variable {κ α : Type}

/-- Cuts children whose separators have reached the order of the tree in the middle. The
separator there moves up and stays in neither half. -/
def split (order : Nat) (children : Children κ α) : Growth κ (Children κ α) :=
  if children.rest.length < order then .one children
  else match children.rest.drop (children.rest.length / 2) with
    | [] => .one children
    | (separator, child) :: upper =>
      .two { children with rest := children.rest.take (children.rest.length / 2) } separator
        ⟨child, upper⟩

/-- Moves the last child on the left over to the right, whose old separator comes down while
that of the moved child goes up. -/
def lendRight (left : Children κ α) (separator : κ) (right : Children κ α) :
    Children κ α × κ × Children κ α :=
  match left.rest.getLast? with
  | none => (left, separator, right)
  | some (up, moved) =>
    ({ left with rest := left.rest.dropLast }, up,
      ⟨moved, (separator, right.first) :: right.rest⟩)

/-- Moves the first child on the right over to the left. -/
def lendLeft (left : Children κ α) (separator : κ) (right : Children κ α) :
    Children κ α × κ × Children κ α :=
  match right.rest with
  | [] => (left, separator, right)
  | (up, child) :: rest =>
    ({ left with rest := left.rest ++ [(separator, right.first)] }, up, ⟨child, rest⟩)

/-- The children of two neighbours in one row; the separator comes down between them. -/
def merge (left : Children κ α) (separator : κ) (right : Children κ α) : Children κ α :=
  { left with rest := left.rest ++ (separator, right.first) :: right.rest }

end Children

end RelStore.Index
