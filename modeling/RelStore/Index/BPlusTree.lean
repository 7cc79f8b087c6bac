import RelStore.Error
import RelStore.Index.Node

/-!
# B+ trees

A map with ordered keys, kept in a tree all of whose leaves lie at one depth. The order of the
tree is the greatest number of children of a node and at least three. The view of a tree is the
list of its entries, `toList`.
-/

namespace RelStore.Index

/-- The order of a tree: at least three. -/
abbrev Order := { n : Nat // 3 ≤ n }

/-- The order `n`, unless it is too small for a tree. -/
def Order.ofNat (n : Nat) : Except Error Order :=
  if h : 3 ≤ n then .ok ⟨n, h⟩
  else .error (.invalidConfig
    ("B+ tree order must be at least 3, got " ++ Text.Decimal.text n))

/-- The least number of keys of a node that is not the root. -/
def Order.leastKeys (order : Order) : Nat := (order.val + 1) / 2 - 1

/-- One end of a range of keys. -/
inductive Bound (κ : Type) where
  | unbounded
  | included (key : κ)
  | excluded (key : κ)

/-- Whether a key lies behind the end of a range. -/
def Bound.passedBy {κ : Type} [LT κ] [DecidableLT κ] (high : Bound κ) (key : κ) : Bool :=
  match high with
  | .unbounded => false
  | .included bound => bound < key
  | .excluded bound => !(key < bound : Bool)

/-- The arrangement of the keys of a tree, without the values. -/
inductive Shape (κ : Type) where
  | leaf (keys : List κ)
  | branch (separators : List κ) (children : List (Shape κ))

/-- The arrangement of the keys of a node. -/
def Node.shape {κ ν : Type} : {level : Nat} → Node κ ν level → Shape κ
  | 0, (entries : List (κ × ν)) => .leaf (entries.map Prod.fst)
  | _ + 1, (children : Children κ (Node κ ν _)) =>
    .branch (children.rest.map Prod.fst)
      (children.first.shape :: children.rest.map fun child => child.2.shape)

/-- A tree: its order, its root and the number of its entries. -/
structure BPlusTree (κ ν : Type) where
  order : Order
  level : Nat
  root : Node κ ν level
  size : Nat

namespace BPlusTree

variable {κ ν : Type}

/-- The tree without entries. -/
def empty (order : Order) : BPlusTree κ ν := ⟨order, 0, Node.leaf [], 0⟩

/-- Whether the tree has no entries. -/
def isEmpty (tree : BPlusTree κ ν) : Bool := tree.size == 0

/-- The number of levels; a root that is a leaf counts as one. -/
def height (tree : BPlusTree κ ν) : Nat := tree.level + 1

/-- The entries in ascending order of their keys. -/
def toList (tree : BPlusTree κ ν) : List (κ × ν) := tree.root.toList

/-- The entries in descending order of their keys. -/
def toListReversed (tree : BPlusTree κ ν) : List (κ × ν) := tree.root.toListReversed

/-- The smallest key. -/
def firstKey? (tree : BPlusTree κ ν) : Option κ := tree.root.firstLeaf.head?.map Prod.fst

/-- The largest key. -/
def lastKey? (tree : BPlusTree κ ν) : Option κ := tree.root.lastLeaf.getLast?.map Prod.fst

/-- The arrangement of the keys in the nodes. -/
def shape (tree : BPlusTree κ ν) : Shape κ := tree.root.shape

variable [LT κ] [DecidableLT κ]

/-- The value of a key. -/
def find? (tree : BPlusTree κ ν) (key : κ) : Option ν := tree.root.find? key

/-- Whether a key has a value. -/
def contains (tree : BPlusTree κ ν) (key : κ) : Bool := (tree.find? key).isSome

/-- Applies a function to the value of a key, where the key occurs. -/
def modify (tree : BPlusTree κ ν) (key : κ) (f : ν → ν) : BPlusTree κ ν :=
  { tree with root := tree.root.modify key f }

/-- Sets the value of a key; also returns the value before. A root that splits gets a new root
above it. -/
def insert (tree : BPlusTree κ ν) (key : κ) (value : ν) : Option ν × BPlusTree κ ν :=
  let (old, growth) := tree.root.insert tree.order.val key value
  let size := if old.isSome then tree.size else tree.size + 1
  match growth with
  | .one root => (old, { tree with root, size })
  | .two left separator right =>
    (old, ⟨tree.order, tree.level + 1, Node.branch ⟨left, [(separator, right)]⟩, size⟩)

/-- Hands the place of the root down if it is a branch with a single child. -/
def lowerRoot (order : Order) (size : Nat) : {level : Nat} → Node κ ν level → BPlusTree κ ν
  | 0, root => ⟨order, 0, root, size⟩
  | _ + 1, (children : Children κ (Node κ ν _)) =>
    if children.rest.isEmpty then ⟨order, _, children.first, size⟩
    else ⟨order, _, Node.branch children, size⟩

/-- Removes a key; also returns the value that it had. -/
def erase (tree : BPlusTree κ ν) (key : κ) : Option ν × BPlusTree κ ν :=
  match tree.root.erase? tree.order.leastKeys key with
  | none => (none, tree)
  | some (value, root) => (some value, lowerRoot tree.order (tree.size - 1) root)

/-- The entries between two bounds in ascending order: from the leaf of the lower bound on, up
to the first key behind the upper one. -/
def range (tree : BPlusTree κ ν) (low high : Bound κ) : List (κ × ν) :=
  let entries := match low with
    | .unbounded => tree.toList
    | .included key => tree.root.scanFrom key fun k => k < key
    | .excluded key => tree.root.scanFrom key fun k => !(key < k : Bool)
  entries.takeWhile fun entry => !high.passedBy entry.1

end BPlusTree

end RelStore.Index
