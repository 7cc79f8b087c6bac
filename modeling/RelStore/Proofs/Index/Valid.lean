import Mathlib.Data.List.Basic
import RelStore.Index.BPlusTree
import RelStore.Proofs.Index.Chain

/-!
# Valid nodes

`Node.Valid` is the invariant of the tree below a node: its keys ascend and lie between its
bounds, separators part the subtrees, and every node below holds as many keys as the order asks
for (`Node.ValidChild` adds the last for the node itself). Under it a node is searched and
changed as the list of its entries is: `find?_toList`, `toList_modify`, and `firstLeaf`,
`lastLeaf` as the ends of that list.
-/

namespace RelStore.Index

variable {κ ν : Type}

namespace Node

variable {level : Nat}

/-! ## Leaves and branches -/

/-- What holds for leaves, and for branches over nodes that it holds for, holds for all nodes. -/
@[elab_as_elim]
theorem induction {motive : (level : Nat) → Node κ ν level → Prop}
    (leaf : ∀ entries, motive 0 (leaf entries))
    (branch : ∀ (level : Nat) (children : Children κ (Node κ ν level)),
      (∀ child, motive level child) → motive (level + 1) (branch children)) :
    ∀ {level : Nat} (node : Node κ ν level), motive level node
  | 0, entries => leaf entries
  | level + 1, children => branch level children fun child => induction leaf branch child

@[simp] theorem keyCount_leaf (entries : List (κ × ν)) :
    (leaf entries).keyCount = entries.length := rfl

@[simp] theorem keyCount_branch (children : Children κ (Node κ ν level)) :
    (branch children).keyCount = children.rest.length := rfl

@[simp] theorem toList_leaf (entries : List (κ × ν)) : (leaf entries).toList = entries := rfl

theorem toList_branch (children : Children κ (Node κ ν level)) :
    (branch children).toList = children.flat toList := rfl

@[simp] theorem firstLeaf_branch (children : Children κ (Node κ ν level)) :
    (branch children).firstLeaf = children.first.firstLeaf := rfl

theorem lastLeaf_branch_concat (first : Node κ ν level) (lower : List (κ × Node κ ν level))
    (last : κ × Node κ ν level) :
    (branch ⟨first, lower ++ [last]⟩).lastLeaf = last.2.lastLeaf := by
  simp [branch, lastLeaf]

section Search

variable [LT κ] [DecidableLT κ] (key : κ)

theorem find?_branch (children : Children κ (Node κ ν level)) :
    (branch children).find? key = (Focus.seek key children).here.find? key := rfl

theorem scanFrom_branch (skip : κ → Bool) (children : Children κ (Node κ ν level)) :
    (branch children).scanFrom key skip = (Focus.seek key children).here.scanFrom key skip ++
      (Focus.seek key children).after.flatMap (·.2.toList) := rfl

theorem modify_leaf (f : ν → ν) (entries : List (κ × ν)) :
    (leaf entries).modify key f = leaf (Leaf.modify key f entries) := rfl

theorem modify_branch (f : ν → ν) (children : Children κ (Node κ ν level)) :
    (branch children).modify key f = branch (Focus.mk (Focus.seek key children).before
      ((Focus.seek key children).here.modify key f) (Focus.seek key children).after).close := rfl

end Search

/-- The entries of a branch that a focus puts together: those before the focus, those in it and
those behind it. -/
theorem toList_close (focus : Focus κ (Node κ ν level)) :
    (branch focus.close).toList = focus.before.reverse.flatMap (·.1.toList) ++
      (focus.here.toList ++ focus.after.flatMap (·.2.toList)) :=
  Focus.flat_close toList focus

end Node

/-! ## Validity -/

variable [LinearOrder κ] {order : Order} {lo hi : Option κ} {level : Nat}

/-- What the least number of keys means for splitting and merging: it is at most half of the
order, the upper half of a split node has no fewer, and two nodes of this size have room in one. -/
theorem Order.leastKeys_bounds (order : Order) :
    1 ≤ order.leastKeys ∧ order.leastKeys ≤ order.val / 2 ∧
      order.leastKeys + order.val / 2 + 1 = order.val ∧ 2 * order.leastKeys < order.val := by
  have := order.property
  unfold leastKeys
  omega

namespace Node

/-- Below the node everything is in order, between `lo` and `hi`. -/
def Valid (order : Order) : {level : Nat} → Option κ → Option κ → Node κ ν level → Prop
  | 0, lo, hi, (entries : List (κ × ν)) =>
    Apart lo hi ∧ Leaf.Ascending entries ∧ ∀ e ∈ entries, Within lo hi e.1
  | _ + 1, lo, hi, (children : Children κ (Node κ ν _)) =>
    children.Chained (fun lo hi child =>
      child.Valid order lo hi ∧ order.leastKeys ≤ child.keyCount ∧ child.keyCount < order.val)
      lo hi

/-- A valid node with as many keys as one that is not the root has to have. -/
def ValidChild (order : Order) (lo hi : Option κ) (node : Node κ ν level) : Prop :=
  node.Valid order lo hi ∧ order.leastKeys ≤ node.keyCount ∧ node.keyCount < order.val

theorem valid_leaf {entries : List (κ × ν)} :
    (leaf entries).Valid order lo hi ↔
      Apart lo hi ∧ Leaf.Ascending entries ∧ ∀ e ∈ entries, Within lo hi e.1 := Iff.rfl

theorem valid_branch {children : Children κ (Node κ ν level)} :
    (branch children).Valid order lo hi ↔ children.Chained (ValidChild order) lo hi := Iff.rfl

theorem Valid.apart {node : Node κ ν level} (h : node.Valid order lo hi) : Apart lo hi := by
  induction node using Node.induction generalizing lo hi with
  | leaf entries => exact h.1
  | branch level children ih =>
    exact Children.Chained.apart (fun _ _ c hc => ih c hc.1) (valid_branch.1 h)

/-- The entries of a valid node ascend and lie between its bounds. -/
theorem Valid.ascending {node : Node κ ν level} (h : node.Valid order lo hi) :
    Leaf.Ascending node.toList ∧ ∀ e ∈ node.toList, Within lo hi e.1 := by
  induction node using Node.induction generalizing lo hi with
  | leaf entries => exact h.2
  | branch level children ih =>
    exact Children.Chained.ascending (fun _ _ c hc => ⟨hc.1.apart, ih c hc.1⟩)
      (valid_branch.1 h)

theorem ValidChild.one_le_keyCount {node : Node κ ν level} (h : node.ValidChild order lo hi) :
    1 ≤ node.keyCount :=
  order.leastKeys_bounds.1.trans h.2.1

theorem beside {focus : Focus κ (Node κ ν level)} {key : κ}
    (h : focus.Chained (ValidChild order) lo hi)
    (hk : Within (Focus.low lo focus.before) (Focus.high hi focus.after) key) :
    (∀ e ∈ focus.before.reverse.flatMap (·.1.toList), e.1 < key) ∧
      ∀ e ∈ focus.after.flatMap (·.2.toList), key < e.1 :=
  Focus.beside (fun _ _ _ hc => ⟨hc.1.apart, hc.1.ascending.2⟩) h hk

/-! ## Cutting and joining -/

/-- Entries cut before one of them, where something is left on the left; its key separates the
parts. -/
theorem valid_leaf_cut {lower upper : List (κ × ν)} {key : κ} {value : ν}
    (h : (leaf (lower ++ (key, value) :: upper)).Valid order lo hi) (hn : lower ≠ []) :
    (leaf lower).Valid order lo (some key) ∧
      (leaf ((key, value) :: upper)).Valid order (some key) hi := by
  obtain ⟨-, hs, hw⟩ := valid_leaf.1 h
  obtain ⟨hsl, hsu, hlu⟩ := Leaf.ascending_append.1 hs
  rw [List.forall_mem_append] at hw
  have hmid := hw.2 (key, value) List.mem_cons_self
  have hlow : ∀ e ∈ lower, e.1 < key := fun e hm => hlu e hm (key, value) List.mem_cons_self
  have hupp : ∀ e ∈ (key, value) :: upper, key ≤ e.1 := by
    rw [List.forall_mem_cons]
    exact ⟨le_rfl, fun e hm => ((Leaf.ascending_cons.1 hsu).1 e hm).le⟩
  obtain ⟨e, hm⟩ := List.exists_mem_of_ne_nil lower hn
  refine ⟨valid_leaf.2 ⟨?_, hsl, fun e hm => ?_⟩, valid_leaf.2 ⟨hmid.apart_right, hsu, ?_⟩⟩
  · exact (hw.1 e hm).apart_left (hlow e hm)
  · exact ⟨(hw.1 e hm).1, by rintro _ ⟨⟩; exact hlow e hm⟩
  · exact fun e hm => ⟨by rintro _ ⟨⟩; exact hupp e hm, (hw.2 e hm).2⟩

/-- Entries on the two sides of a separator, in one row. -/
theorem valid_leaf_join {lower upper : List (κ × ν)} {separator : κ}
    (hl : (leaf lower).Valid order lo (some separator))
    (hu : (leaf upper).Valid order (some separator) hi) :
    (leaf (lower ++ upper)).Valid order lo hi := by
  obtain ⟨hal, hsl, hwl⟩ := valid_leaf.1 hl
  obtain ⟨hau, hsu, hwu⟩ := valid_leaf.1 hu
  refine valid_leaf.2 ⟨hal.trans hau, Leaf.ascending_append.2 ⟨hsl, hsu, ?_⟩, ?_⟩
  · intro x hx y hy
    exact lt_of_lt_of_le ((hwl x hx).2 separator rfl) ((hwu y hy).1 separator rfl)
  · rw [List.forall_mem_append]
    refine ⟨fun e he => ⟨(hwl e he).1, fun b hb => ?_⟩, fun e he => ⟨fun a ha => ?_, (hwu e he).2⟩⟩
    · exact ((hwl e he).2 separator rfl).trans (hau separator rfl b hb)
    · exact (hal a ha separator rfl).le.trans ((hwu e he).1 separator rfl)

/-! ## Searching -/

theorem find?_toList {node : Node κ ν level} (h : node.Valid order lo hi) {key : κ}
    (hk : Within lo hi key) : node.find? key = Leaf.find? key node.toList := by
  induction node using Node.induction generalizing lo hi with
  | leaf entries => rfl
  | branch level children ih =>
    obtain ⟨hc, hw⟩ := Focus.chained_seek (valid_branch.1 h) hk
    obtain ⟨hb, ha⟩ := beside hc hw
    rw [find?_branch, ih _ hc.2.1.1 hw, ← Focus.close_seek key children, toList_close,
      Focus.close_seek, Leaf.find?_append_of_lt hb, Leaf.find?_append_of_gt _ ha]

theorem toList_modify {node : Node κ ν level} (h : node.Valid order lo hi) {key : κ}
    (hk : Within lo hi key) (f : ν → ν) :
    (node.modify key f).toList = Leaf.modify key f node.toList := by
  induction node using Node.induction generalizing lo hi with
  | leaf entries => rfl
  | branch level children ih =>
    obtain ⟨hc, hw⟩ := Focus.chained_seek (valid_branch.1 h) hk
    obtain ⟨hb, ha⟩ := beside hc hw
    rw [modify_branch, toList_close, ih _ hc.2.1.1 hw, ← Focus.close_seek key children,
      toList_close, Focus.close_seek, Leaf.modify_append_of_lt hb, Leaf.modify_append_of_gt _ _ ha]

theorem keyCount_modify (node : Node κ ν level) (key : κ) (f : ν → ν) :
    (node.modify key f).keyCount = node.keyCount := by
  induction node using Node.induction with
  | leaf entries =>
    have hl : ((Leaf.modify key f entries).map Prod.fst).length = _ :=
      congrArg List.length (Leaf.map_fst_modify key f)
    simpa [modify_leaf] using hl
  | branch level children _ =>
    rw [modify_branch, keyCount_branch, keyCount_branch, Focus.length_close,
      ← Focus.close_seek key children, Focus.length_close, Focus.close_seek]

theorem valid_modify {node : Node κ ν level} (h : node.Valid order lo hi) {key : κ}
    (hk : Within lo hi key) (f : ν → ν) : (node.modify key f).Valid order lo hi := by
  induction node using Node.induction generalizing lo hi with
  | leaf entries =>
    obtain ⟨ha, hs, hw⟩ := h
    refine ⟨ha, hs.modify key f, fun e he => ?_⟩
    have he : e.1 ∈ (Leaf.modify key f entries).map Prod.fst := List.mem_map_of_mem he
    rw [Leaf.map_fst_modify, List.mem_map] at he
    obtain ⟨d, hd, he⟩ := he
    exact he ▸ hw d hd
  | branch level children ih =>
    obtain ⟨hc, hw⟩ := Focus.chained_seek (valid_branch.1 h) hk
    obtain ⟨hv, hl, hm⟩ := hc.2.1
    rw [modify_branch, valid_branch, Focus.chained_close]
    refine ⟨hc.1, ⟨ih _ hv hw, ?_, ?_⟩, hc.2.2⟩ <;> rwa [keyCount_modify]

/-! ## The ends -/

theorem Valid.toList_ne_nil {node : Node κ ν level} (h : node.Valid order lo hi)
    (hn : 1 ≤ node.keyCount) : node.toList ≠ [] := by
  induction node using Node.induction generalizing lo hi with
  | leaf entries => exact List.ne_nil_of_length_pos hn
  | branch level children ih =>
    have hc := (valid_branch.1 h).2.1
    rw [toList_branch, Children.flat]
    exact List.append_ne_nil_of_left_ne_nil (ih _ hc.1 hc.one_le_keyCount) _

theorem head?_firstLeaf {node : Node κ ν level} (h : node.Valid order lo hi) :
    node.firstLeaf.head? = node.toList.head? := by
  induction node using Node.induction generalizing lo hi with
  | leaf entries => rfl
  | branch level children ih =>
    have hc := (valid_branch.1 h).2.1
    have hne := hc.1.toList_ne_nil hc.one_le_keyCount
    rw [firstLeaf_branch, ih _ hc.1, toList_branch, Children.flat,
      List.head?_append_of_ne_nil _ hne]

theorem getLast?_lastLeaf {node : Node κ ν level} (h : node.Valid order lo hi) :
    node.lastLeaf.getLast? = node.toList.getLast? := by
  induction node using Node.induction generalizing lo hi with
  | leaf entries => rfl
  | branch level children ih =>
    obtain ⟨first, rest⟩ := children
    rcases List.eq_nil_or_concat' rest with rfl | ⟨lower, ⟨separator, last⟩, rfl⟩
    · have hc := Children.chained_nil.1 (valid_branch.1 h)
      have hl : (branch ⟨first, []⟩).lastLeaf = first.lastLeaf := rfl
      rw [hl, ih _ hc.1, toList_branch, Children.flat, List.flatMap_nil, List.append_nil]
    · have hc := Children.chained_nil.1 (Children.chained_append.1 (valid_branch.1 h)).2
      have hne := hc.1.toList_ne_nil hc.one_le_keyCount
      rw [lastLeaf_branch_concat, ih _ hc.1, toList_branch, Children.flat_append,
        Children.flat, Children.flat, List.flatMap_nil, List.append_nil,
        List.getLast?_append_of_ne_nil _ hne]

end Node

end RelStore.Index
