import RelStore.Proofs.Index.Arena.Tree
import RelStore.Proofs.Index.Shape

/-!
# Runs in an arena

Operations on a tree in an arena, from the empty one on, never get stuck: no index is out of
range, no cell is looked at that is not live or not of the kind that is needed, and no difference
is below zero. The arena is left with a balanced tree, the same as without an arena, and can be
asked everything about it (`runs_balanced`).
-/

namespace RelStore.Index

variable {κ ν : Type}

namespace Heap

open NodeId

variable {h : Heap κ ν} {level : Nat}

theorem mapM_eq {α β γ : Type} {f : β → Run κ ν γ} {g : α → β} {r : α → γ} {items : List α}
    (hi : ∀ item ∈ items, f (g item) h = some (r item, h)) :
    (items.map g).mapM f h = some (items.map r, h) := by
  induction items with
  | nil => rfl
  | cons item items ih =>
    rw [List.forall_mem_cons] at hi
    rw [List.map_cons, List.mapM_cons, run_bind hi.1, run_bind (ih hi.2)]
    rfl

theorem survey_spec {placed : Placed κ ν level} (hl : placed.LiesIn h.content) :
    survey placed.root h = some (placed.node.shape, h) := by
  induction placed using Placed.induction with
  | leaf id entries =>
    obtain ⟨prev, next, hget⟩ := get?_of_leaf (Placed.liesIn_leaf.1 hl)
    have hlen : (entries.map Prod.snd).length = (entries.map Prod.fst).length := by simp
    rw [Placed.root_leaf, survey, run_bind (node_eq hget)]
    dsimp only
    rw [if_pos hlen]
    rfl
  | branch level id children ih =>
    obtain ⟨hcell, hitems⟩ := Placed.liesIn_branch.1 hl
    have hshapes := mapM_eq fun child hm => ih child (hitems child hm)
    rw [Placed.root_branch, survey, run_bind (node_eq (get?_of_branch hcell))]
    dsimp only
    rw [run_bind hshapes, Placed.node_branch, Node.shape_branch]
    simp [Function.comp_def]
    rfl

end Heap

namespace Arena

variable {arena : Arena κ ν} {tree : BPlusTree κ ν}

theorem Holds.survey (h : arena.Holds tree) : arena.survey = some tree.shape := by
  obtain ⟨-, -, placed, hroot, hnode, hl, -⟩ := h
  have hrun := Heap.survey_spec hl
  rw [hroot, hnode] at hrun
  exact look_eq hrun

section

variable [LinearOrder κ]

/-- An arena can be asked all that a tree can, and answers the same. -/
structure Serves (arena : Arena κ ν) (tree : BPlusTree κ ν) : Prop where
  size : arena.size = tree.size
  find? : ∀ key, arena.find? key = some (tree.find? key)
  firstKey? : arena.firstKey? = some tree.firstKey?
  lastKey? : arena.lastKey? = some tree.lastKey?
  height : arena.height = some tree.height
  range : ∀ low high, arena.range low high = some (tree.range low high)
  toListReversed : arena.toListReversed = some tree.toListReversed

theorem Holds.serves (h : arena.Holds tree) (hv : tree.Valid) : arena.Serves tree :=
  ⟨h.size, h.find? hv, h.firstKey?, h.lastKey?, h.height, h.range hv, h.toListReversed⟩

/-- An operation on a tree in an arena. -/
def step (arena : Arena κ ν) : Operation κ ν → Option (Answer ν × Arena κ ν)
  | .insert key value => (arena.insert key value).map (Prod.map .value id)
  | .remove key => (arena.erase key).map (Prod.map .value id)
  | .delete key => (arena.erase key).map (Prod.map (.present ·.isSome) id)
  | .modify key f => (arena.modify key f).map (Prod.map .value id)

/-- An arena with a valid tree of an order. -/
structure Keeps (order : Order) (arena : Arena κ ν) (tree : BPlusTree κ ν) : Prop where
  holds : arena.Holds tree
  valid : tree.Valid
  order : tree.order = order

theorem Keeps.step {order : Order} (h : arena.Keeps order tree) (operation : Operation κ ν) :
    ∃ arena', arena.step operation = some ((tree.step operation).1, arena') ∧
      arena'.Keeps order (tree.step operation).2 := by
  obtain ⟨hh, hv, horder⟩ := h
  cases operation with
  | insert key value =>
    obtain ⟨arena', hrun, hh'⟩ := hh.insert hv key value
    refine ⟨arena', by rw [Arena.step, hrun]; rfl, hh', hv.insert key value, ?_⟩
    exact (BPlusTree.order_insert key tree value).trans horder
  | remove key =>
    obtain ⟨arena', hrun, hh'⟩ := hh.erase hv key
    refine ⟨arena', by rw [Arena.step, hrun]; rfl, hh', hv.erase key, ?_⟩
    exact (BPlusTree.order_erase key tree).trans horder
  | delete key =>
    obtain ⟨arena', hrun, hh'⟩ := hh.erase hv key
    refine ⟨arena', by rw [Arena.step, hrun]; rfl, hh', hv.erase key, ?_⟩
    exact (BPlusTree.order_erase key tree).trans horder
  | modify key f =>
    obtain ⟨arena', hrun, hh'⟩ := hh.modify hv key f
    exact ⟨arena', by rw [Arena.step, hrun]; rfl, hh', hv.modify key f, horder⟩

end

end Arena

/-- Any operations on a tree in an arena, begun with the empty one of any order, get to an end and
answer as on the tree alone. The tree is balanced then, it is what the cells show, and all that it
can be asked is answered from them. -/
theorem runs_balanced [LinearOrder κ] (order : Order) (operations : List (Operation κ ν)) :
    ∃ arena, run? Arena.step (.empty order) operations =
        some ((run BPlusTree.step (.empty order) operations).1, arena) ∧
      let tree := (run BPlusTree.step (.empty order) operations).2
      tree.shape.Balanced order.val tree.height ∧ arena.survey = some tree.shape ∧
        arena.Serves tree := by
  have h : (Arena.empty order : Arena κ ν).Keeps order (.empty order) :=
    ⟨Arena.holds_empty order, BPlusTree.valid_empty order, rfl⟩
  obtain ⟨arena, hrun, hh, hv, horder⟩ :=
    run?_simulation (fun operation _ _ h => h.step operation) operations h
  have hb := hv.balanced
  rw [horder] at hb
  exact ⟨arena, hrun, hb, hh.survey, hh.serves hv⟩

end RelStore.Index
