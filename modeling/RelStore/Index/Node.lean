import RelStore.Index.Leaf

/-!
# Nodes of a B+ tree

A node of level zero is a leaf and holds entries; a node of the next level is a branch over
nodes of one level. A separator bounds the keys on its sides: smaller ones on the left, the
others on the right. It need not be a key of the tree, since erasing a key leaves the separators
above alone.

`Node.insert` splits a node that has reached the order of the tree. `Node.erase?` repairs a child
that has fallen below the least number of keys (`Focus.repair`): it borrows from a sibling that
can spare a key, from the left one first, or else merges with one.
-/

namespace RelStore.Index

/-- A node whose leaves lie `level` steps below it: entries, or children of the level below. -/
def Node (κ ν : Type) : Nat → Type
  | 0 => List (κ × ν)
  | level + 1 => Children κ (Node κ ν level)

namespace Node

variable {κ ν : Type}

/-- The leaf with these entries. -/
def leaf (entries : List (κ × ν)) : Node κ ν 0 := entries

/-- The branch over these children. -/
def branch {level : Nat} (children : Children κ (Node κ ν level)) : Node κ ν (level + 1) :=
  children

/-- The number of keys of the node itself: of entries in a leaf, of separators in a branch. -/
def keyCount : {level : Nat} → Node κ ν level → Nat
  | 0, (entries : List (κ × ν)) => entries.length
  | _ + 1, (children : Children κ (Node κ ν _)) => children.rest.length

/-- The entries from left to right. -/
def toList : {level : Nat} → Node κ ν level → List (κ × ν)
  | 0, (entries : List (κ × ν)) => entries
  | _ + 1, (children : Children κ (Node κ ν _)) =>
    children.first.toList ++ children.rest.flatMap fun child => child.2.toList

/-- The entries from right to left. -/
def toListReversed : {level : Nat} → Node κ ν level → List (κ × ν)
  | 0, (entries : List (κ × ν)) => entries.reverse
  | _ + 1, (children : Children κ (Node κ ν _)) =>
    (children.rest.reverse.flatMap fun child => child.2.toListReversed) ++
      children.first.toListReversed

/-- The leftmost leaf. -/
def firstLeaf : {level : Nat} → Node κ ν level → List (κ × ν)
  | 0, (entries : List (κ × ν)) => entries
  | _ + 1, (children : Children κ (Node κ ν _)) => children.first.firstLeaf

/-- The rightmost leaf. -/
def lastLeaf : {level : Nat} → Node κ ν level → List (κ × ν)
  | 0, (entries : List (κ × ν)) => entries
  | _ + 1, (children : Children κ (Node κ ν _)) =>
    match children.rest.getLast? with
    | some child => child.2.lastLeaf
    | none => children.first.lastLeaf

section Search

variable [LT κ] [DecidableLT κ]

/-- The value of a key. -/
def find? (key : κ) : {level : Nat} → Node κ ν level → Option ν
  | 0, entries => Leaf.find? key entries
  | _ + 1, children => (Focus.seek key children).here.find? key

/-- The node with a function applied to the key's value. -/
def modify (key : κ) (f : ν → ν) : {level : Nat} → Node κ ν level → Node κ ν level
  | 0, entries => Leaf.modify key f entries
  | _ + 1, children =>
    let focus := Focus.seek key children
    branch { focus with here := focus.here.modify key f }.close

/-- The entries from the leaf of a key on, without those at the start of that leaf that
`skip` holds for. -/
def scanFrom (key : κ) (skip : κ → Bool) : {level : Nat} → Node κ ν level → List (κ × ν)
  | 0, (entries : List (κ × ν)) => entries.dropWhile fun entry => skip entry.1
  | _ + 1, children =>
    let focus := Focus.seek key children
    focus.here.scanFrom key skip ++ focus.after.flatMap fun child => child.2.toList

/-- Sets the value of a key; also returns the value before. -/
def insert (order : Nat) (key : κ) (value : ν) :
    {level : Nat} → Node κ ν level → Option ν × Growth κ (Node κ ν level)
  | 0, entries => (Leaf.find? key entries, Leaf.split order (Leaf.insert key value entries))
  | _ + 1, children =>
    let focus := Focus.seek key children
    match focus.here.insert order key value with
    | (old, .one child) => (old, .one (branch { focus with here := child }.close))
    | (old, .two left separator right) =>
      (old, Children.split order
        { focus with here := left, after := (separator, right) :: focus.after }.close)

end Search

/-- Moves the last key of the left node over to the right one. -/
def lendRight : {level : Nat} → Node κ ν level → κ → Node κ ν level →
    Node κ ν level × κ × Node κ ν level
  | 0, left, separator, right => Leaf.lendRight left separator right
  | _ + 1, left, separator, right => Children.lendRight left separator right

/-- Moves the first key of the right node over to the left one. -/
def lendLeft : {level : Nat} → Node κ ν level → κ → Node κ ν level →
    Node κ ν level × κ × Node κ ν level
  | 0, left, separator, right => Leaf.lendLeft left separator right
  | _ + 1, left, separator, right => Children.lendLeft left separator right

/-- One node in place of two neighbours. Over leaves the separator falls away, over branches
it becomes a key of the merged node. -/
def merge : {level : Nat} → Node κ ν level → κ → Node κ ν level → Node κ ν level
  | 0, left, _, right => Leaf.merge left right
  | _ + 1, left, separator, right => Children.merge left separator right

end Node

namespace Focus

variable {κ ν : Type} {level : Nat}

/-- Takes a key from the left sibling, if it has more than `least`. -/
def borrowLeft? (least : Nat) (focus : Focus κ (Node κ ν level)) :
    Option (Focus κ (Node κ ν level)) :=
  match focus.before with
  | (left, separator) :: before =>
    if least < left.keyCount then
      let (left, separator, here) := left.lendRight separator focus.here
      some { focus with before := (left, separator) :: before, here }
    else none
  | [] => none

/-- Takes a key from the right sibling, if it has more than `least`. -/
def borrowRight? (least : Nat) (focus : Focus κ (Node κ ν level)) :
    Option (Focus κ (Node κ ν level)) :=
  match focus.after with
  | (separator, right) :: after =>
    if least < right.keyCount then
      let (here, separator, right) := focus.here.lendLeft separator right
      some { focus with here, after := (separator, right) :: after }
    else none
  | [] => none

/-- Merges with the left sibling, or with the right one where there is none. -/
def mergeSibling (focus : Focus κ (Node κ ν level)) : Focus κ (Node κ ν level) :=
  match focus.before, focus.after with
  | (left, separator) :: before, after => ⟨before, left.merge separator focus.here, after⟩
  | [], (separator, right) :: after => ⟨[], focus.here.merge separator right, after⟩
  | [], [] => focus

/-- Brings a child that has fallen below `least` keys back to it. -/
def repair (least : Nat) (focus : Focus κ (Node κ ν level)) : Focus κ (Node κ ν level) :=
  match focus.borrowLeft? least with
  | some focus => focus
  | none =>
    match focus.borrowRight? least with
    | some focus => focus
    | none => focus.mergeSibling

end Focus

namespace Node

variable {κ ν : Type}

/-- Removes a key; returns its value and the node without it, or nothing where the key does
not occur. -/
def erase? [LT κ] [DecidableLT κ] (least : Nat) (key : κ) :
    {level : Nat} → Node κ ν level → Option (ν × Node κ ν level)
  | 0, entries => (Leaf.find? key entries).map fun value => (value, Leaf.erase key entries)
  | _ + 1, children =>
    let focus := Focus.seek key children
    match focus.here.erase? least key with
    | none => none
    | some (value, child) =>
      let focus := { focus with here := child }
      let focus := if child.keyCount < least then focus.repair least else focus
      some (value, branch focus.close)

end Node

end RelStore.Index
