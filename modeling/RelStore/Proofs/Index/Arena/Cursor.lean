import RelStore.Proofs.Index.Arena.Runs
import RelStore.Proofs.Index.Range

/-!
# Walking over an arena

A walk over the leaves gives one entry at a time: it stands at a place in one of the leaves and
hops along the links between them, forward up to the end of a range (`Cursor`) or backward up to
the first leaf (`BackCursor`). A step gives the head of the entries that it still has to go through
and leaves a cursor in front of their tail (`Cursor.next_spec`, `BackCursor.next_spec`). So walks
yield lists (`Yields`), whatever operations have split, merged and linked the leaves before:
`walks_complete`.
-/

namespace RelStore.Index

variable {κ ν : Type}

/-! ## Yielding -/

section Yields

variable {σ α : Type}

/-- The answers to a number of calls. -/
def answers (next : σ → Option (Option α × σ)) : Nat → σ → Option (List (Option α))
  | 0, _ => some []
  | count + 1, s => do
    let (answer, s) ← next s
    return answer :: (← answers next count s)

/-- However often it is called, `next` gives these items, each once and in this order, and nothing
after them. -/
def Yields (next : σ → Option (Option α × σ)) (s : σ) (items : List α) : Prop :=
  ∀ count, answers next count s = some ((List.range count).map (items[·]?))

/-- Calls that give the head of a list and go on with its tail yield the list. -/
theorem yields_of_step {next : σ → Option (Option α × σ)} {R : σ → List α → Prop}
    (h : ∀ s items, R s items → ∃ s', next s = some (items.head?, s') ∧ R s' items.tail)
    {s : σ} {items : List α} (hs : R s items) : Yields next s items := by
  intro count
  induction count generalizing s items with
  | zero => rfl
  | succ count ih =>
    obtain ⟨s', hnext, hs'⟩ := h s items hs
    have htail : ∀ i, items[i + 1]? = items.tail[i]? := fun i => List.getElem?_tail.symm
    rw [answers, hnext]
    dsimp only [Option.bind_eq_bind, Option.bind_some]
    rw [ih hs', List.range_succ_eq_map, List.map_cons, List.map_map, List.head?_eq_getElem?]
    simp only [Function.comp_def, Nat.succ_eq_add_one, htail]
    rfl

end Yields

/-! ## Cursors -/

/-- A place in front of an entry, or behind the last one, and the end of the range. -/
structure Cursor (κ : Type) where
  leaf : Option NodeId
  index : Nat
  high : Bound κ

/-- A place behind an entry, or in front of the first one. -/
structure BackCursor where
  leaf : Option NodeId
  index : Nat

open Heap NodeId

/-- The entry behind the place, unless the range ends before it, and the place after it. -/
def Cursor.next [LT κ] [DecidableLT κ] (cursor : Cursor κ) :
    Run κ ν (Option (κ × ν) × Cursor κ) := do
  match cursor.leaf with
  | none => return (none, cursor)
  | some id =>
    let .leaf keys values _ next ← node id | failure
    if cursor.index < keys.length then
      let key ← keys[cursor.index]?
      if cursor.high.passedBy key then return (none, { cursor with leaf := none })
      let value ← values[cursor.index]?
      return (some (key, value), { cursor with index := cursor.index + 1 })
    else Cursor.mk next 0 cursor.high |>.next
partial_fixpoint

/-- The entry in front of the place, and the place before it. -/
def BackCursor.next (cursor : BackCursor) : Run κ ν (Option (κ × ν) × BackCursor) := do
  match cursor.leaf with
  | none => return (none, cursor)
  | some id =>
    let .leaf keys values prev _ ← node id | failure
    match cursor.index with
    | index + 1 =>
      let key ← keys[index]?
      let value ← values[index]?
      return (some (key, value), { cursor with index })
    | 0 =>
      let index ← prev.elim (pure 0) keyCountAt
      BackCursor.mk prev index |>.next
partial_fixpoint

variable {h : Heap κ ν} {entries : List (κ × ν)}

theorem BackCursor.next_spec {cursor : BackCursor}
    (hc : Behind h cursor.leaf cursor.index entries) :
    ∃ cursor', cursor.next h = some ((entries.head?, cursor'), h) ∧
      Behind h cursor'.leaf cursor'.index entries.tail := by
  obtain ⟨start, index⟩ := cursor
  dsimp only at hc
  induction hc with
  | ended index => exact ⟨⟨none, index⟩, by rw [BackCursor.next]; rfl, .ended index⟩
  | @inside id prev next lower upper rest index hget hindex hprev ih =>
    rw [BackCursor.next]
    dsimp only
    rw [run_bind (node_eq hget)]
    rcases List.eq_nil_or_concat' lower with rfl | ⟨lower, entry, rfl⟩
    · obtain ⟨cursor', hrun, hcursor'⟩ := ih
      refine ⟨cursor', ?_, hcursor'⟩
      dsimp only [List.length_nil]
      rw [run_bind hindex]
      exact hrun
    · have hkey : ((lower ++ [entry] ++ upper).map Prod.fst)[lower.length]? = some entry.1 := by
        simp
      have hvalue : ((lower ++ [entry] ++ upper).map Prod.snd)[lower.length]? = some entry.2 := by
        simp
      rw [List.append_assoc] at hget
      rw [List.length_append, List.length_singleton, List.reverse_concat]
      dsimp only
      rw [run_lift hkey, run_lift hvalue]
      exact ⟨⟨some id, lower.length⟩, rfl, .inside hget hindex hprev⟩

theorem Cursor.next_spec [LT κ] [DecidableLT κ] {cursor : Cursor κ}
    (hc : Ahead h cursor.high cursor.leaf cursor.index entries) :
    ∃ cursor', cursor.next h = some ((entries.head?, cursor'), h) ∧
      Ahead h cursor'.high cursor'.leaf cursor'.index entries.tail := by
  obtain ⟨start, index, high⟩ := cursor
  dsimp only at hc
  induction hc with
  | ended index => exact ⟨⟨none, index, high⟩, by rw [Cursor.next]; rfl, .ended index⟩
  | @inside id prev next lower upper rest hget hnext ih =>
    rw [Cursor.next]
    dsimp only
    rw [run_bind (node_eq hget)]
    dsimp only
    cases upper with
    | nil =>
      have hend : ¬ lower.length < ((lower ++ []).map Prod.fst).length := by simp
      rw [if_neg hend]
      exact ih
    | cons entry upper =>
      have hkey : ((lower ++ entry :: upper).map Prod.fst)[lower.length]? = some entry.1 := by simp
      have hvalue : ((lower ++ entry :: upper).map Prod.snd)[lower.length]? = some entry.2 := by
        simp
      have hlt : lower.length < ((lower ++ entry :: upper).map Prod.fst).length := by simp
      rw [if_pos hlt, run_lift hkey, List.cons_append]
      by_cases hp : high.passedBy entry.1
      · rw [if_pos hp, List.takeWhile_cons_of_neg (by simpa using hp)]
        exact ⟨⟨none, lower.length, high⟩, rfl, .ended lower.length⟩
      · rw [if_neg hp, run_lift hvalue, List.takeWhile_cons_of_pos (by simpa using hp)]
        have hafter := Ahead.inside (lower ++ [entry]) (by simpa using hget) hnext
        rw [List.length_append, List.length_singleton] at hafter
        exact ⟨⟨some id, lower.length + 1, high⟩, rfl, hafter⟩

/-! ## Walks -/

namespace Arena

/-- A walk backward over all entries. -/
def backCursor (arena : Arena κ ν) : Option BackCursor := arena.look do
  let id ← arena.root.lastLeaf
  return ⟨some id, ← keyCountAt id⟩

/-- A walk over a range of the entries. -/
def cursor [LT κ] [DecidableLT κ] (arena : Arena κ ν) (low high : Bound κ) : Option (Cursor κ) :=
  arena.look do
    let (id, index) ← arena.root.start low
    return ⟨some id, index, high⟩

variable {arena : Arena κ ν} {tree : BPlusTree κ ν}

/-- The walk backward yields the entries of the tree from the last one to the first. -/
theorem Holds.yields_reverse (h : arena.Holds tree) :
    ∃ cursor, arena.backCursor = some cursor ∧
      Yields (fun cursor => arena.look cursor.next) cursor tree.toList.reverse := by
  obtain ⟨id, index, hrun, hindex, hbehind⟩ := h.finish
  have hcursor : arena.backCursor = some ⟨some id, index⟩ := by
    refine look_eq ?_
    rw [Heap.run_bind hrun, Heap.run_bind hindex]
    rfl
  refine ⟨⟨some id, index⟩, hcursor, yields_of_step (R := fun cursor entries =>
    Heap.Behind arena.heap cursor.leaf cursor.index entries) (fun cursor entries hc => ?_) hbehind⟩
  obtain ⟨cursor', hnext, hcursor'⟩ := BackCursor.next_spec hc
  exact ⟨cursor', look_eq hnext, hcursor'⟩

variable [LinearOrder κ]

/-- The walk over a range yields the range of the tree. -/
theorem Holds.yields_range (h : arena.Holds tree) (hv : tree.Valid) (low high : Bound κ) :
    ∃ cursor, arena.cursor low high = some cursor ∧
      Yields (fun cursor => arena.look cursor.next) cursor (tree.range low high) := by
  obtain ⟨id, index, hstart, hahead⟩ := h.start hv low
  have hcursor : arena.cursor low high = some ⟨some id, index, high⟩ := by
    refine look_eq ?_
    rw [Heap.run_bind hstart]
    rfl
  refine ⟨⟨some id, index, high⟩, hcursor, yields_of_step (R := fun cursor entries =>
    Heap.Ahead arena.heap cursor.high cursor.leaf cursor.index entries)
    (fun cursor entries hc => ?_) (hahead high)⟩
  obtain ⟨cursor', hnext, hcursor'⟩ := Cursor.next_spec hc
  exact ⟨cursor', look_eq hnext, hcursor'⟩

/-- The walks over an arena yield parts of these entries: those between any two bounds, all of
them, and all of them from the last one to the first. -/
structure Walks (arena : Arena κ ν) (entries : List (κ × ν)) : Prop where
  range : ∀ low high, ∃ cursor, arena.cursor low high = some cursor ∧
    Yields (fun cursor => arena.look cursor.next) cursor (low.between high entries)
  all : ∃ cursor, arena.cursor .unbounded .unbounded = some cursor ∧
    Yields (fun cursor => arena.look cursor.next) cursor entries
  reverse : ∃ cursor, arena.backCursor = some cursor ∧
    Yields (fun cursor => arena.look cursor.next) cursor entries.reverse

theorem Holds.walks (h : arena.Holds tree) (hv : tree.Valid) : arena.Walks tree.toList := by
  have hrange : ∀ low high, ∃ cursor, arena.cursor low high = some cursor ∧
      Yields (fun cursor => arena.look cursor.next) cursor (low.between high tree.toList) := by
    intro low high
    rw [← BPlusTree.range_eq_filter hv]
    exact h.yields_range hv low high
  refine ⟨hrange, ?_, h.yields_reverse⟩
  have hall := hrange .unbounded .unbounded
  rwa [Bound.between_unbounded] at hall

end Arena

/-- After any operations on a tree in an arena, begun with the empty one of any order, its walks
yield the entries of the finite map that the same operations lead to, in ascending order of the
keys and cut off by the two bounds of a range, or the other way round; and the tree alone has the
same ranges. -/
theorem walks_complete [LinearOrder κ] (order : Order) (operations : List (Operation κ ν)) :
    ∃ arena, run? Arena.step (.empty order) operations =
        some ((run FiniteMap.step (∅ : FiniteMap κ ν) operations).1, arena) ∧
      let tree := (run BPlusTree.step (.empty order) operations).2
      let map := (run FiniteMap.step (∅ : FiniteMap κ ν) operations).2
      Leaf.Ascending tree.toList ∧
      (∀ key value, (key, value) ∈ tree.toList ↔ map.lookup key = some value) ∧
      arena.Walks tree.toList ∧
      (∀ low high, tree.range low high = low.between high tree.toList) ∧
      tree.toListReversed = tree.toList.reverse := by
  have hk : (Arena.empty order : Arena κ ν).Keeps order (.empty order) :=
    ⟨Arena.holds_empty order, BPlusTree.valid_empty order, rfl⟩
  have ha : Agrees (.empty order : BPlusTree κ ν) ∅ :=
    ⟨BPlusTree.valid_empty order, fun _ => rfl⟩
  obtain ⟨arena, hrun, hh, hv, -⟩ :=
    run?_simulation (fun operation _ _ h => h.step operation) operations hk
  obtain ⟨hanswers, -, hfind⟩ := run_simulation (R := fun _ tree map => Agrees tree map)
    (fun operation _ _ _ h => h.step operation) operations ha
  rw [hanswers] at hrun
  refine ⟨arena, hrun, hv.ascending, fun key value => ?_, hh.walks hv,
    BPlusTree.range_eq_filter hv, Node.toListReversed_eq _⟩
  rw [← hfind, Leaf.find?_eq_some_iff key hv.ascending]

end RelStore.Index
