import RelStore.Proofs.Index.Arena.Erase
import RelStore.Proofs.Index.Arena.Insert
import RelStore.Proofs.Index.Arena.Scan
import RelStore.Proofs.Index.FiniteMap

/-!
# Arenas that hold a tree

An arena holds a tree if the nodes of the tree lie in its cells with the leaves linked in their
order (`Arena.Holds`). Everything that is done to such an arena gets to an end, answers as the
tree does and leaves an arena that holds what becomes of the tree.
-/

namespace RelStore.Index.Arena

open Placed (branch)

variable {κ ν : Type}

/-- The nodes of the tree lie in the cells of the arena. -/
structure Holds (arena : Arena κ ν) (tree : BPlusTree κ ν) : Prop where
  order : arena.order = tree.order
  size : arena.size = tree.size
  placed : ∃ placed : Placed κ ν tree.level, placed.root = arena.root ∧ placed.node = tree.root ∧
    placed.LiesIn arena.heap.content ∧ arena.heap.Part [] [] placed.ids placed.leaves

theorem holds_empty (order : Order) : (empty order : Arena κ ν).Holds (.empty order) := by
  refine ⟨rfl, rfl, Placed.leaf 0 [], rfl, rfl, rfl, ⟨List.nodup_nil, ?_⟩, ?_, List.nodup_nil, ?_,
    rfl, trivial⟩
  · exact fun i hi => absurd hi List.not_mem_nil
  · exact List.nodup_singleton 0
  · exact fun i hi => absurd hi List.not_mem_nil

variable {arena : Arena κ ν} {tree : BPlusTree κ ν}

/-! ## Looking up -/

theorem look_eq {α : Type} {x : Heap.Run κ ν α} {result : α}
    (h : x arena.heap = some (result, arena.heap)) : arena.look x = some result := by
  rw [look, h]
  rfl

theorem Holds.height (h : arena.Holds tree) : arena.height = some tree.height := by
  obtain ⟨-, -, placed, hroot, -, hl, -⟩ := h
  exact look_eq (hroot ▸ Heap.height_spec hl)

theorem Holds.firstKey? (h : arena.Holds tree) : arena.firstKey? = some tree.firstKey? := by
  obtain ⟨-, -, placed, hroot, hnode, hl, -⟩ := h
  obtain ⟨id, upper, hrun, hp⟩ := Heap.firstLeaf_spec hl
  have hleaf := hl.pieces (id, placed.node.firstLeaf) (hp ▸ List.mem_cons_self)
  obtain ⟨prev, next, hget⟩ := Heap.get?_of_leaf (Placed.liesIn_leaf.1 hleaf)
  rw [hroot] at hrun
  refine look_eq ?_
  rw [Heap.run_bind hrun, Heap.run_bind (Heap.node_eq hget), BPlusTree.firstKey?, ← hnode,
    ← List.head?_map]
  rfl

theorem Holds.lastKey? (h : arena.Holds tree) : arena.lastKey? = some tree.lastKey? := by
  obtain ⟨-, -, placed, hroot, hnode, hl, -⟩ := h
  obtain ⟨id, lower, hrun, hp⟩ := Heap.lastLeaf_spec hl
  have hleaf := hl.pieces (id, placed.node.lastLeaf) (by simp [hp])
  obtain ⟨prev, next, hget⟩ := Heap.get?_of_leaf (Placed.liesIn_leaf.1 hleaf)
  rw [hroot] at hrun
  refine look_eq ?_
  rw [Heap.run_bind hrun, Heap.run_bind (Heap.node_eq hget), BPlusTree.lastKey?, ← hnode,
    ← List.getLast?_map]
  rfl

/-- All entries stand before the end of the last leaf. -/
theorem Holds.finish (h : arena.Holds tree) :
    ∃ id index, arena.root.lastLeaf arena.heap = some (id, arena.heap) ∧
      NodeId.keyCountAt id arena.heap = some (index, arena.heap) ∧
      Heap.Behind arena.heap (some id) index tree.toList.reverse := by
  obtain ⟨-, -, placed, hroot, hnode, hl, hpart⟩ := h
  obtain ⟨id, lower, hrun, hp⟩ := Heap.lastLeaf_spec hl
  have hchain := hpart.linked
  rw [List.nil_append, List.append_nil, ← Placed.map_fst_pieces] at hchain
  obtain ⟨index, hindex, hbehind⟩ := Heap.behind_pieces hl.pieces hchain
  have hlast : (placed.pieces.map Prod.fst).getLast? = some id := by simp [hp]
  rw [hlast, Option.elim_some] at hindex
  rw [hlast, Placed.flatMap_snd_pieces, hnode] at hbehind
  exact ⟨id, index, hroot ▸ hrun, hindex, hbehind⟩

theorem Holds.toListReversed (h : arena.Holds tree) :
    arena.toListReversed = some tree.toListReversed := by
  obtain ⟨id, index, hrun, hindex, hbehind⟩ := h.finish
  have hscan := Heap.scanBack_behind hbehind
  refine look_eq ?_
  rw [Heap.run_bind hrun, NodeId.scanBackFrom, Heap.run_bind hindex, BPlusTree.toListReversed,
    Node.toListReversed_eq]
  exact hscan

section

variable [LinearOrder κ]

theorem Holds.find? (h : arena.Holds tree) (hv : tree.Valid) (key : κ) :
    arena.find? key = some (tree.find? key) := by
  obtain ⟨-, -, placed, hroot, hnode, hl, hpart⟩ := h
  have hrun := Heap.findIn_spec hl hpart.nodup (hnode ▸ hv.root) (within_none key)
  rw [hroot, hnode] at hrun
  exact look_eq hrun

/-- A range stands behind the place where it begins, up to its end. -/
theorem Holds.start (h : arena.Holds tree) (hv : tree.Valid) (low : Bound κ) :
    ∃ id index, arena.root.start low arena.heap = some ((id, index), arena.heap) ∧
      ∀ high, Heap.Ahead arena.heap high (some id) index (tree.range low high) := by
  obtain ⟨-, -, placed, hroot, hnode, hl, hpart⟩ := h
  have hroot' : placed.node.Valid tree.order none none := hnode ▸ hv.root
  have hchain := hpart.linked
  rw [List.nil_append, List.append_nil] at hchain
  unfold BPlusTree.range NodeId.start
  rw [← hroot]
  cases low with
  | unbounded =>
    obtain ⟨id, upper, hrun, hp⟩ := Heap.firstLeaf_spec hl
    have hcut : placed.pieces = [] ++ (id, [] ++ placed.node.firstLeaf) :: upper := hp
    have hstart : (do return (← placed.root.firstLeaf, 0) : Heap.Run κ ν (NodeId × Nat))
        arena.heap = some ((id, 0), arena.heap) := by
      rw [Heap.run_bind hrun]
      rfl
    refine ⟨id, 0, hstart, fun high => ?_⟩
    rw [BPlusTree.toList, ← hnode, ← Placed.flatMap_snd_pieces, hp]
    exact Heap.ahead_cut high hl hchain hcut
  | included key =>
    obtain ⟨id, lower, passed, rest, upper, hstart, hp, hfrom⟩ :=
      Heap.startAt_spec hl hpart.nodup hroot' (within_none key) fun k => decide (k < key)
    refine ⟨id, passed.length, hstart, fun high => ?_⟩
    dsimp only
    rw [← hnode, hfrom]
    exact Heap.ahead_cut high hl hchain hp
  | excluded key =>
    obtain ⟨id, lower, passed, rest, upper, hstart, hp, hfrom⟩ :=
      Heap.startAt_spec hl hpart.nodup hroot' (within_none key) fun k => !decide (key < k)
    refine ⟨id, passed.length, hstart, fun high => ?_⟩
    dsimp only
    rw [← hnode, hfrom]
    exact Heap.ahead_cut high hl hchain hp

theorem Holds.range (h : arena.Holds tree) (hv : tree.Valid) (low high : Bound κ) :
    arena.range low high = some (tree.range low high) := by
  obtain ⟨id, index, hstart, hahead⟩ := h.start hv low
  refine look_eq ?_
  rw [Heap.run_bind hstart]
  exact Heap.scan_ahead (hahead high)

end

/-! ## Changing -/

/-- A root that has split gets a new root above it. -/
theorem alloc_root {level : Nat} {heap : Heap κ ν} {left right : Placed κ ν level} (separator : κ)
    (hl : left.LiesIn heap.content) (hr : right.LiesIn heap.content)
    (hp : heap.Part [] [] (left.ids ++ right.ids) (left.leaves ++ right.leaves)) :
    ∃ id heap', Heap.alloc (.branch [separator] [left.root, right.root]) heap = some (id, heap') ∧
      (branch id ⟨left, [(separator, right)]⟩).LiesIn heap'.content ∧
      heap'.Part [] [] (branch id ⟨left, [(separator, right)]⟩).ids
        (branch id ⟨left, [(separator, right)]⟩).leaves := by
  have hlive : ∀ i ∈ left.ids ++ right.ids, heap.content i ≠ none :=
    List.forall_mem_append.2 ⟨hl.ne_none, hr.ne_none⟩
  obtain ⟨id, heap', halloc, hnot, hcell, hother, -, hp'⟩ :=
    hp.alloc hlive [separator] [left.root, right.root]
  have hitems : (Children.mk left [(separator, right)]).items = [left, right] := rfl
  have hkept : ∀ i ∈ left.ids ++ right.ids, heap'.content i = heap.content i := fun i hi =>
    hother i fun he => hnot (he ▸ hi)
  rw [List.forall_mem_append] at hkept
  refine ⟨id, heap', halloc, Placed.liesIn_branch.2 ⟨hcell, ?_⟩, ?_⟩
  · rw [hitems, List.forall_mem_cons, List.forall_mem_singleton]
    exact ⟨hl.congr hkept.1, hr.congr hkept.2⟩
  · simpa [hitems] using hp'

/-- The only child of a branch is left when the branch is released. -/
theorem release_only_child {level : Nat} {heap : Heap κ ν} {id : NodeId} {child : Placed κ ν level}
    (hl : (branch id ⟨child, []⟩).LiesIn heap.content)
    (hp : heap.Part [] [] (branch id ⟨child, []⟩).ids (branch id ⟨child, []⟩).leaves) :
    ∃ heap', Heap.release id heap = some (.branch [] [child.root], heap') ∧
      child.LiesIn heap'.content ∧ heap'.Part [] [] child.ids child.leaves := by
  obtain ⟨hcell, hitems⟩ := Placed.liesIn_branch.1 hl
  obtain ⟨heap', hrelease, ht, hget⟩ := Heap.release_spec hp.tidy (Heap.get?_of_branch hcell)
  have hids : (branch id ⟨child, []⟩).ids = id :: child.ids := by simp [Children.items]
  have hleaves : (branch id ⟨child, []⟩).leaves = child.leaves := by simp [Children.items]
  have hn := hp.nodup
  rw [hids, List.nodup_cons] at hn
  have hchain := hp.linked
  rw [hleaves] at hchain
  have hkept (i : NodeId) (hi : i ∈ child.ids) : heap'.get? i = heap.get? i := by
    have hne : i ≠ id := fun he => hn.1 (he ▸ hi)
    rw [hget, if_neg hne]
  refine ⟨heap', hrelease, ?_, ht, hn.2, List.nodup_nil, ?_, ?_⟩
  · refine (hitems child List.mem_cons_self).congr fun i hi => ?_
    rw [Heap.content, hkept i hi, Heap.content]
  · exact fun i hi => absurd hi List.not_mem_nil
  · refine hchain.congr fun i hi => ?_
    rw [List.nil_append, List.append_nil] at hi
    rw [Heap.links, hkept i (child.leaves_sublist.subset hi), Heap.links]

/-- A root that is left with a single child hands its place down, as in the tree. -/
theorem lowerRoot_spec {level : Nat} {heap : Heap κ ν} {placed : Placed κ ν level} (order : Order)
    (size : Nat) (hl : placed.LiesIn heap.content)
    (hp : heap.Part [] [] placed.ids placed.leaves) :
    ∃ root heap', Heap.lowerRoot placed.root heap = some (root, heap') ∧
      (Arena.mk order heap' root size).Holds (BPlusTree.lowerRoot order size placed.node) := by
  cases level with
  | zero =>
    obtain ⟨id, entries, rfl⟩ := placed.exists_leaf
    obtain ⟨prev, next, hget⟩ := Heap.get?_of_leaf (Placed.liesIn_leaf.1 hl)
    refine ⟨id, heap, ?_, rfl, rfl, Placed.leaf id entries, rfl, rfl, hl, hp⟩
    rw [Placed.root_leaf, Heap.lowerRoot, Heap.run_bind (Heap.node_eq hget)]
    rfl
  | succ level =>
    obtain ⟨id, ⟨first, rest⟩, rfl⟩ := placed.exists_branch
    have hget := Heap.get?_of_branch (Placed.liesIn_branch.1 hl).1
    rw [Placed.root_branch, Heap.lowerRoot, Heap.run_bind (Heap.node_eq hget)]
    cases rest with
    | nil =>
      obtain ⟨heap', hrelease, hl', hp'⟩ := release_only_child hl hp
      refine ⟨first.root, heap', ?_, rfl, rfl, first, rfl, rfl, hl', hp'⟩
      have hchild : [first.root][0]? = some first.root := rfl
      show (liftM [first.root][0]? >>= fun child => Heap.release id >>= fun _ => pure child) heap = _
      rw [Heap.run_lift hchild, Heap.run_bind hrelease]
      rfl
    | cons child rest =>
      exact ⟨id, heap, rfl, rfl, rfl, branch id ⟨first, child :: rest⟩, rfl, rfl, hl, hp⟩

section

variable [LinearOrder κ]

theorem Holds.modify (h : arena.Holds tree) (hv : tree.Valid) (key : κ) (f : ν → ν) :
    ∃ arena', arena.modify key f = some (tree.find? key, arena') ∧
      arena'.Holds (tree.modify key f) := by
  obtain ⟨horder, hsize, placed, hroot, hnode, hl, hpart⟩ := h
  obtain ⟨heap, placed', hrun, hsame, hnode', hl', hpart'⟩ :=
    Heap.modifyIn_spec hl hpart (hnode ▸ hv.root) (within_none key) f
  rw [hroot, hnode] at hrun
  rw [hnode] at hnode'
  refine ⟨{ arena with heap }, ?_, horder, hsize, placed', hsame.root.trans hroot, hnode', hl', ?_⟩
  · rw [Arena.modify, hrun]
    rfl
  · rwa [← hsame.ids, ← hsame.leaves] at hpart'

theorem Holds.insert (h : arena.Holds tree) (hv : tree.Valid) (key : κ) (value : ν) :
    ∃ arena', arena.insert key value = some ((tree.insert key value).1, arena') ∧
      arena'.Holds (tree.insert key value).2 := by
  obtain ⟨horder, hsize, placed, hroot, hnode, hl, hpart⟩ := h
  obtain ⟨growth, heap, hrun, hins⟩ := Heap.insertInto_spec hl hpart (hnode ▸ hv.root)
    (within_none key) (hnode ▸ hv.keyCount_lt) value
  obtain ⟨hgrowth, hone, hgrown⟩ := hins
  rw [hnode] at hrun hgrowth hone
  rw [hroot] at hrun hgrown
  have hinsert : tree.root.insert tree.order.val key value =
      ((tree.root.insert tree.order.val key value).1, growth.map Placed.node) := by
    rw [hgrowth]
  revert hone hrun hinsert
  generalize (tree.root.insert tree.order.val key value).1 = old
  intro hrun hone hinsert
  rw [Arena.insert, BPlusTree.insert, hinsert, horder, hrun]
  cases growth with
  | one node =>
    obtain ⟨hroot', hl', -, hp'⟩ := hgrown.of_one
    cases old with
    | none =>
      exact ⟨⟨tree.order, heap, arena.root, arena.size + 1⟩, rfl, rfl, congrArg (· + 1) hsize, node,
        hroot', rfl, hl', hp'⟩
    | some old =>
      exact ⟨⟨tree.order, heap, arena.root, arena.size⟩, rfl, rfl, hsize, node, hroot', rfl, hl', hp'⟩
  | two left separator right =>
    obtain rfl : old = none := by
      by_contra ho
      obtain ⟨node, he⟩ := hone ho
      cases he
    obtain ⟨hroot', hleft, hright, -, hp'⟩ := hgrown.of_two
    obtain ⟨id, heap', halloc, hl', hp'⟩ := alloc_root separator hleft hright hp'
    rw [hroot'] at halloc
    refine ⟨⟨tree.order, heap', id, arena.size + 1⟩, ?_, rfl, congrArg (· + 1) hsize,
      branch id ⟨left, [(separator, right)]⟩, rfl, rfl, hl', hp'⟩
    show (Heap.alloc (.branch [separator] [arena.root, right.root]) heap).bind _ = _
    rw [halloc]
    rfl

theorem Holds.erase (h : arena.Holds tree) (hv : tree.Valid) (key : κ) :
    ∃ arena', arena.erase key = some ((tree.erase key).1, arena') ∧
      arena'.Holds (tree.erase key).2 := by
  obtain ⟨horder, hsize, placed, hroot, hnode, hl, hpart⟩ := h
  have he := Heap.eraseFrom_spec hl hpart (hnode ▸ hv.root) (within_none key)
  unfold Heap.Erased at he
  rw [hroot, hnode] at he
  rw [Arena.erase, BPlusTree.erase, horder]
  rcases he with ⟨hnone, hrun⟩ | ⟨value, placed', heap, hsome, hrun, hroot', hl', -, hp'⟩
  · rw [hnone, hrun]
    exact ⟨⟨tree.order, arena.heap, arena.root, arena.size⟩, rfl, rfl, hsize, placed, hroot, hnode,
      hl, hpart⟩
  · obtain ⟨root, heap', hlower, hholds⟩ := lowerRoot_spec tree.order (tree.size - 1) hl' hp'
    rw [hroot', hroot] at hlower
    have hlt : 1 ≤ tree.size := by
      have hv' := Node.valid_erase? hv.root (within_none key) hv.parted
      rw [hsome] at hv'
      have hne : tree.toList ≠ [] := fun hn => by
        have hf : Leaf.find? key tree.toList = some value := hv'.found
        rw [hn] at hf
        cases hf
      rw [hv.size]
      exact List.length_pos_iff.2 hne
    have hsize' : difference? arena.size 1 = some (tree.size - 1) := by
      rw [hsize]
      exact if_pos hlt
    rw [hsome, hrun]
    refine ⟨⟨tree.order, heap', root, tree.size - 1⟩, ?_, hholds⟩
    dsimp only [Option.bind_eq_bind, Option.bind_some]
    rw [hsize', Option.bind_some, hlower]
    rfl

end

end RelStore.Index.Arena
