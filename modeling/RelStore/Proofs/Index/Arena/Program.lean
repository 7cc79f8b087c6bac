import RelStore.Proofs.Index.Arena.Heap

/-!
# Trees in an arena

A B+ tree whose nodes are cells that are changed in place. `insertInto` splits the nodes that are
full, `eraseFrom` repairs with `rebalance` the child that it has left short, and both go down from
a node by index. They get stuck on an index out of range, on a cell that is not live or not of
the kind that a step is for, and on a difference below zero; the same holds for a recursion
without an end, so that a result is also a proof that there is one.
-/

namespace RelStore.Index

variable {κ ν : Type}

section Search

variable [LT κ] [DecidableLT κ]

/-- Where a key stands among ascending keys, or else where it would have to stand. -/
def search (key : κ) (keys : List κ) : Except Nat Nat :=
  let i := (keys.takeWhile (· < key)).length
  match keys[i]? with
  | some k => if key < k then .error i else .ok i
  | none => .error i

/-- The child for a key. A key equal to a separator belongs to its right. -/
def childIndex (key : κ) (keys : List κ) : Nat :=
  match search key keys with
  | .ok i => i + 1
  | .error i => i

end Search

namespace Heap

/-! ## Inserting -/

/-- What an insertion tells of a node. -/
inductive Outcome (κ ν : Type) where
  /-- The key occurred, with this value. -/
  | replaced (old : ν)
  /-- The key is new; the node may have been split off a right sibling behind a separator. -/
  | inserted (split : Option (κ × NodeId))

/-- Tells a leaf, where there is one, which leaf stands in front of it. -/
def setPrev (prev : NodeId) : Option NodeId → Run κ ν Unit
  | none => return
  | some id => do
    let .leaf keys values _ next ← node id | failure
    put id (.leaf keys values (some prev) next)

/-- Moves the upper half of a leaf into a new leaf, which is linked in behind it. -/
def splitLeaf (id : NodeId) : Run κ ν (κ × NodeId) := do
  let .leaf keys values prev next ← node id | failure
  let middle := keys.length / 2
  let (keys, upperKeys) ← cutAt? keys middle
  let (values, upperValues) ← cutAt? values middle
  put id (.leaf keys values prev next)
  let separator ← upperKeys[0]?
  let right ← alloc (.leaf upperKeys upperValues (some id) next)
  let .leaf keys values prev _ ← node id | failure
  put id (.leaf keys values prev (some right))
  setPrev right next
  return (separator, right)

/-- Moves the upper half of a branch into a new branch. The middle separator stays in neither. -/
def splitBranch (id : NodeId) : Run κ ν (κ × NodeId) := do
  let .branch keys children ← node id | failure
  let middle := keys.length / 2
  let (keys, upperKeys) ← cutAt? keys (middle + 1)
  let (children, upperChildren) ← cutAt? children (middle + 1)
  let (separator, keys) ← removeAt? keys middle
  put id (.branch keys children)
  let right ← alloc (.branch upperKeys upperChildren)
  return (separator, right)

end Heap

open Heap in
/-- Sets the value of a key below a node, and splits the node where it is full then. -/
def NodeId.insertInto [LT κ] [DecidableLT κ] (order : Nat) (key : κ) (value : ν) (id : NodeId) :
    Run κ ν (Outcome κ ν) := do
  match ← node id with
  | .leaf keys values prev next =>
    match search key keys with
    | .ok i =>
      let (old, values) ← replaceAt? values i value
      put id (.leaf keys values prev next)
      return .replaced old
    | .error i =>
      let keys ← insertAt? keys i key
      let values ← insertAt? values i value
      put id (.leaf keys values prev next)
      if keys.length < order then return .inserted none
      return .inserted (some (← splitLeaf id))
  | .branch keys children =>
    let i := childIndex key keys
    let child ← children[i]?
    match ← child |>.insertInto order key value with
    | .inserted (some (separator, right)) =>
      let .branch keys children ← node id | failure
      let keys ← insertAt? keys i separator
      let children ← insertAt? children (i + 1) right
      put id (.branch keys children)
      if keys.length < order then return .inserted none
      return .inserted (some (← splitBranch id))
    | outcome => return outcome
partial_fixpoint

/-! ## Erasing -/

namespace Heap

/-- The least number of keys of a node that is not the root. -/
def leastKeys (order : Nat) : Option Nat := difference? ((order + 1) / 2) 1

/-- Sets a separator of a branch; returns the one before. -/
def setSeparator (id : NodeId) (i : Nat) (separator : κ) : Run κ ν κ := do
  let .branch keys children ← node id | failure
  let (old, keys) ← replaceAt? keys i separator
  put id (.branch keys children)
  return old

/-- Moves the last key of the left sibling over to a child. -/
def borrowFromLeft (parent : NodeId) (i : Nat) (left child : NodeId) : Run κ ν Unit := do
  let separatorIndex ← difference? i 1
  match ← take left, ← node child with
  | .leaf leftKeys leftValues leftPrev leftNext, .leaf keys values prev next =>
    let last ← difference? leftKeys.length 1
    let (key, leftKeys) ← removeAt? leftKeys last
    let (value, leftValues) ← removeAt? leftValues last
    put child (.leaf (key :: keys) (value :: values) prev next)
    let _ ← setSeparator parent separatorIndex key
    put left (.leaf leftKeys leftValues leftPrev leftNext)
  | .branch leftKeys leftChildren, .branch keys children =>
    let last ← difference? leftKeys.length 1
    let (up, leftKeys) ← removeAt? leftKeys last
    let (moved, leftChildren) ← removeAt? leftChildren (last + 1)
    put child (.branch keys (moved :: children))
    let down ← setSeparator parent separatorIndex up
    let .branch keys children ← node child | failure
    put child (.branch (down :: keys) children)
    put left (.branch leftKeys leftChildren)
  | _, _ => failure

/-- Moves the first key of the right sibling over to a child. -/
def borrowFromRight (parent : NodeId) (i : Nat) (child right : NodeId) : Run κ ν Unit := do
  match ← take right, ← node child with
  | .leaf rightKeys rightValues rightPrev rightNext, .leaf keys values prev next =>
    let (key, rightKeys) ← removeAt? rightKeys 0
    let (value, rightValues) ← removeAt? rightValues 0
    put child (.leaf (keys ++ [key]) (values ++ [value]) prev next)
    let separator ← rightKeys[0]?
    let _ ← setSeparator parent i separator
    put right (.leaf rightKeys rightValues rightPrev rightNext)
  | .branch rightKeys rightChildren, .branch keys children =>
    let (up, rightKeys) ← removeAt? rightKeys 0
    let (moved, rightChildren) ← removeAt? rightChildren 0
    put child (.branch keys (children ++ [moved]))
    let down ← setSeparator parent i up
    let .branch keys children ← node child | failure
    put child (.branch (keys ++ [down]) children)
    put right (.branch rightKeys rightChildren)
  | _, _ => failure

/-- Drops a separator of a branch and the child behind it; returns the separator. -/
def dropChild (id : NodeId) (i : Nat) : Run κ ν κ := do
  let .branch keys children ← node id | failure
  let (_, children) ← removeAt? children (i + 1)
  let (separator, keys) ← removeAt? keys i
  put id (.branch keys children)
  return separator

/-- Folds a node into its left sibling and drops the separator between them. -/
def merge (parent : NodeId) (i : Nat) (left right : NodeId) : Run κ ν Unit := do
  let separator ← dropChild parent i
  match ← release right, ← node left with
  | .leaf upperKeys upperValues _ next, .leaf keys values prev _ =>
    put left (.leaf (keys ++ upperKeys) (values ++ upperValues) prev next)
    setPrev left next
  | .branch upperKeys upperChildren, .branch keys children =>
    put left (.branch (keys ++ separator :: upperKeys) (children ++ upperChildren))
  | _, _ => failure

/-- A sibling, if it has more than the least number of keys. -/
def sparing (least : Nat) : Option NodeId → Run κ ν (Option NodeId)
  | none => return none
  | some id => return if least < (← node id).keys.length then some id else none

/-- Borrows for a child from the left sibling or else from the right one, or merges it with one
of them. -/
def restore (least : Nat) (parent : NodeId) (i : Nat) (left : Option NodeId) (child : NodeId)
    (right : Option NodeId) : Run κ ν Unit := do
  match ← sparing least left with
  | some left => borrowFromLeft parent i left child
  | none =>
    match ← sparing least right with
    | some right => borrowFromRight parent i child right
    | none =>
      match left, right with
      | some left, _ => merge parent (← difference? i 1) left child
      | none, some right => merge parent i child right
      | none, none => return

/-- Brings a child of a branch back to the least number of keys. -/
def rebalance (order : Nat) (parent : NodeId) (i : Nat) : Run κ ν Unit := do
  let least ← leastKeys order
  let .branch _ children ← node parent | failure
  let left ← match i with
    | 0 => pure none
    | i + 1 => some <$> (children[i]? : Option NodeId)
  let child ← children[i]?
  restore least parent i left child children[i + 1]?

/-- Hands the place of a root down if it is left with a single child; returns the root then. -/
def lowerRoot (root : NodeId) : Run κ ν NodeId := do
  match ← node root with
  | .branch [] children =>
    let child ← children[0]?
    let _ ← release root
    return child
  | _ => return root

end Heap

open Heap in
/-- Removes a key below a node and returns its value, or nothing where it does not occur. -/
def NodeId.eraseFrom [LT κ] [DecidableLT κ] (order : Nat) (key : κ) (id : NodeId) :
    Run κ ν (Option ν) := do
  match ← node id with
  | .leaf keys values prev next =>
    match search key keys with
    | .error _ => return none
    | .ok i =>
      let (_, keys) ← removeAt? keys i
      let (value, values) ← removeAt? values i
      put id (.leaf keys values prev next)
      return some value
  | .branch keys children =>
    let i := childIndex key keys
    let child ← children[i]?
    match ← child |>.eraseFrom order key with
    | none => return none
    | some value =>
      let least ← leastKeys order
      if (← node child).keys.length < least then rebalance order id i
      return some value
partial_fixpoint

/-! ## Searching -/

namespace NodeId

open Heap

/-- Walks down to the leaf that choosing a child of each branch leads to. -/
def descend (choose : List κ → List NodeId → Option NodeId) (id : NodeId) : Run κ ν NodeId := do
  match ← node id with
  | .leaf .. => return id
  | .branch keys children => (← choose keys children) |>.descend choose
partial_fixpoint

/-- Walks down to the first leaf. -/
def firstLeaf (id : NodeId) : Run κ ν NodeId := descend (fun _ children => children[0]?) id

/-- Walks down to the last leaf. -/
def lastLeaf (id : NodeId) : Run κ ν NodeId :=
  descend (fun _ children => do children[← difference? children.length 1]?) id

/-- The number of levels below a node, its own included. -/
def height (id : NodeId) : Run κ ν Nat := do
  match ← node id with
  | .leaf .. => return 1
  | .branch _ children => return (← (← children[0]?) |>.height) + 1
partial_fixpoint

/-- The arrangement of the keys below a node, each of whose leaves is to have as many values as
keys. -/
def survey (id : NodeId) : Run κ ν (Shape κ) := do
  match ← node id with
  | .leaf keys values _ _ => if values.length = keys.length then return .leaf keys else failure
  | .branch keys children => return .branch keys (← children.mapM fun child => child |>.survey)
partial_fixpoint

/-- The number of keys of a leaf. -/
def keyCountAt (id : NodeId) : Run κ ν Nat := do
  let .leaf keys _ _ _ ← node id | failure
  return keys.length

/-- The entries in front of a place in a leaf, the last one first: what is left of the leaf, and
then the leaves in front of it. -/
def scanBack (id : NodeId) (index : Nat) : Run κ ν (List (κ × ν)) := do
  let .leaf keys values prev _ ← node id | failure
  match index, prev with
  | 0, none => return []
  | 0, some prev => prev |>.scanBack (← keyCountAt prev)
  | index + 1, _ =>
    let key ← keys[index]?
    let value ← values[index]?
    return (key, value) :: (← id |>.scanBack index)
partial_fixpoint

/-- The entries from the end of a leaf backward. -/
def scanBackFrom (id : NodeId) : Run κ ν (List (κ × ν)) := do scanBack id (← keyCountAt id)

variable [LT κ] [DecidableLT κ]

/-- The entries from a place in a leaf on, up to the first key behind the end of a range. -/
def scan (high : Bound κ) (id : NodeId) (index : Nat) : Run κ ν (List (κ × ν)) := do
  let .leaf keys values _ next ← node id | failure
  if index < keys.length then
    let key ← keys[index]?
    if high.passedBy key then return []
    let value ← values[index]?
    return (key, value) :: (← id |>.scan high (index + 1))
  else
    match next with
    | none => return []
    | some next => next |>.scan high 0
partial_fixpoint

/-- Walks down to the leaf for a key. -/
def leafFor (key : κ) (id : NodeId) : Run κ ν NodeId :=
  descend (fun keys children => children[childIndex key keys]?) id

/-- A place in the leaf for a key: the leaf, and the number of its keys to pass over. -/
def startAt (key : κ) (skip : κ → Bool) (id : NodeId) : Run κ ν (NodeId × Nat) := do
  let id ← leafFor key id
  let .leaf keys _ _ _ ← node id | failure
  return (id, (keys.takeWhile skip).length)

/-- The place where a range begins. -/
def start (low : Bound κ) (id : NodeId) : Run κ ν (NodeId × Nat) :=
  match low with
  | .unbounded => do return (← firstLeaf id, 0)
  | .included key => startAt key (fun k => k < key) id
  | .excluded key => startAt key (fun k => !(key < k : Bool)) id

/-- The value of a key below a node. -/
def findIn (key : κ) (id : NodeId) : Run κ ν (Option ν) := do
  let .leaf keys values _ _ ← node (← leafFor key id) | failure
  match search key keys with
  | .error _ => return none
  | .ok i => some <$> (values[i]? : Option ν)

/-- Applies a function to the value of a key below a node; returns the value before. -/
def modifyIn (key : κ) (f : ν → ν) (id : NodeId) : Run κ ν (Option ν) := do
  let id ← leafFor key id
  let .leaf keys values prev next ← node id | failure
  match search key keys with
  | .error _ => return none
  | .ok i =>
    let value ← values[i]?
    let (_, values) ← replaceAt? values i (f value)
    put id (.leaf keys values prev next)
    return some value

end NodeId

/-! ## Trees -/

/-- A tree in an arena: its order, its cells, the index of its root and the number of its
entries. -/
structure Arena (κ ν : Type) where
  order : Order
  heap : Heap κ ν
  root : NodeId
  size : Nat

namespace Arena

/-- The tree without entries. -/
def empty (order : Order) : Arena κ ν := ⟨order, ⟨[some (.leaf [] [] none none)], []⟩, 0, 0⟩

/-- What a computation finds out from the cells. -/
def look {α : Type} (a : Arena κ ν) (x : Heap.Run κ ν α) : Option α := (x a.heap).map Prod.fst

/-- The number of levels. -/
def height (a : Arena κ ν) : Option Nat := a.look a.root.height

/-- The arrangement of the keys in the nodes, where leaves have as many values as keys. -/
def survey (a : Arena κ ν) : Option (Shape κ) := a.look a.root.survey

/-- The smallest key. -/
def firstKey? (a : Arena κ ν) : Option (Option κ) := a.look do
  return (← Heap.node (← a.root.firstLeaf)).keys.head?

/-- The largest key. -/
def lastKey? (a : Arena κ ν) : Option (Option κ) := a.look do
  return (← Heap.node (← a.root.lastLeaf)).keys.getLast?

/-- The entries in descending order of their keys. -/
def toListReversed (a : Arena κ ν) : Option (List (κ × ν)) := a.look do
  (← a.root.lastLeaf).scanBackFrom

variable [LT κ] [DecidableLT κ]

/-- The entries between two bounds in ascending order. -/
def range (a : Arena κ ν) (low high : Bound κ) : Option (List (κ × ν)) := a.look do
  let (id, index) ← a.root.start low
  id.scan high index

/-- The value of a key. -/
def find? (a : Arena κ ν) (key : κ) : Option (Option ν) := a.look (a.root.findIn key)

/-- Applies a function to the value of a key, where the key occurs. -/
def modify (a : Arena κ ν) (key : κ) (f : ν → ν) : Option (Option ν × Arena κ ν) := do
  let (value, heap) ← a.root.modifyIn key f a.heap
  return (value, { a with heap })

/-- Sets the value of a key; also returns the value before. A root that splits gets a new root
above it. -/
def insert (a : Arena κ ν) (key : κ) (value : ν) : Option (Option ν × Arena κ ν) := do
  let (outcome, heap) ← a.root.insertInto a.order.val key value a.heap
  match outcome with
  | .replaced old => return (some old, { a with heap })
  | .inserted none => return (none, { a with heap, size := a.size + 1 })
  | .inserted (some (separator, right)) =>
    let (root, heap) ← Heap.alloc (.branch [separator] [a.root, right]) heap
    return (none, { a with heap, root, size := a.size + 1 })

/-- Removes a key; also returns the value that it had. -/
def erase (a : Arena κ ν) (key : κ) : Option (Option ν × Arena κ ν) := do
  let (removed, heap) ← a.root.eraseFrom a.order.val key a.heap
  match removed with
  | none => return (none, { a with heap })
  | some value =>
    let size ← difference? a.size 1
    let (root, heap) ← Heap.lowerRoot a.root heap
    return (some value, { a with heap, root, size })

end Arena

end RelStore.Index
