import RelStore.Proofs.Index.Erase
import RelStore.Proofs.Index.Insert

/-!
# Valid trees

Every operation on a valid tree gives a valid tree and does to the list of its entries what the
operation of the same name does to the entries of a leaf. These laws are all that the rest of
the library needs of a tree; they do not show its order.
-/

namespace RelStore.Index.BPlusTree

variable {κ ν : Type} [LinearOrder κ]

/-- A tree as the operations leave it: a valid root that is a leaf or has a separator, and as many
entries as it counts. -/
structure Valid (tree : BPlusTree κ ν) : Prop where
  root : tree.root.Valid tree.order none none
  keyCount_lt : tree.root.keyCount < tree.order.val
  parted : tree.level = 0 ∨ 1 ≤ tree.root.keyCount
  size : tree.size = tree.toList.length

variable {tree : BPlusTree κ ν} (key : κ)

theorem valid_empty (order : Order) : (empty order : BPlusTree κ ν).Valid :=
  ⟨Node.valid_leaf.2 ⟨apart_none, Leaf.ascending_nil, fun _ he => absurd he List.not_mem_nil⟩,
    Nat.lt_of_lt_of_le (Nat.zero_lt_succ 2) order.property, .inl rfl, rfl⟩

theorem Valid.ascending (h : tree.Valid) : Leaf.Ascending tree.toList := h.root.ascending.1

theorem find?_eq (h : tree.Valid) : tree.find? key = Leaf.find? key tree.toList :=
  Node.find?_toList h.root (within_none key)

theorem firstKey?_eq (h : tree.Valid) : tree.firstKey? = tree.toList.head?.map Prod.fst :=
  congrArg (·.map Prod.fst) (Node.head?_firstLeaf h.root)

theorem lastKey?_eq (h : tree.Valid) : tree.lastKey? = tree.toList.getLast?.map Prod.fst :=
  congrArg (·.map Prod.fst) (Node.getLast?_lastLeaf h.root)

/-! ## Changing -/

theorem toList_modify (h : tree.Valid) (f : ν → ν) :
    (tree.modify key f).toList = Leaf.modify key f tree.toList :=
  Node.toList_modify h.root (within_none key) f

theorem Valid.modify (h : tree.Valid) (f : ν → ν) : (tree.modify key f).Valid := by
  have hc := Node.keyCount_modify tree.root key f
  refine ⟨Node.valid_modify h.root (within_none key) f, hc.trans_lt h.keyCount_lt,
    h.parted.imp_right hc.symm.le.trans', ?_⟩
  have hl : ((Leaf.modify key f tree.toList).map Prod.fst).length = _ :=
    congrArg List.length (Leaf.map_fst_modify key f)
  rw [List.length_map, List.length_map, ← toList_modify key h] at hl
  exact h.size.trans hl.symm

theorem insert_fst (h : tree.Valid) (value : ν) :
    (tree.insert key value).1 = Leaf.find? key tree.toList := by
  refine Eq.trans ?_ (Node.toList_insert h.root (within_none key) h.keyCount_lt value).1
  rw [insert]
  rcases tree.root.insert tree.order.val key value with ⟨old, root | ⟨left, separator, right⟩⟩ <;> rfl

theorem toList_insert (h : tree.Valid) (value : ν) :
    (tree.insert key value).2.toList = Leaf.insert key value tree.toList := by
  have hl := (Node.toList_insert h.root (within_none key) h.keyCount_lt value).2
  rw [toList, toList, ← hl, insert]
  rcases tree.root.insert tree.order.val key value with ⟨old, root | ⟨left, separator, right⟩⟩
  · rfl
  · simp [Node.toList_branch, Children.flat, Growth.toList]

theorem size_insert (tree : BPlusTree κ ν) (value : ν) :
    (tree.insert key value).2.size =
      if (tree.insert key value).1.isSome then tree.size else tree.size + 1 := by
  rw [insert]
  rcases tree.root.insert tree.order.val key value with ⟨old, root | ⟨left, separator, right⟩⟩ <;> rfl

theorem Valid.insert (h : tree.Valid) (value : ν) : (tree.insert key value).2.Valid := by
  have hsize : (tree.insert key value).2.size = (tree.insert key value).2.toList.length := by
    rw [size_insert, insert_fst key h, toList_insert key h, Leaf.length_insert, h.size]
  have hv := Node.valid_insert h.root (within_none key) h.keyCount_lt value
  revert hsize hv
  rw [BPlusTree.insert]
  rcases tree.root.insert tree.order.val key value with ⟨old, root | ⟨left, separator, right⟩⟩
  · intro hsize ⟨hv, hl, hm⟩
    exact ⟨hv, hm, h.parted.imp_right hl.trans', hsize⟩
  · intro hsize ⟨hl, hr⟩
    refine ⟨Node.valid_branch.2 ?_, ?_, .inr le_rfl, hsize⟩
    · exact Children.chained_cons.2 ⟨hl, Children.chained_nil.2 hr⟩
    · exact Nat.lt_of_lt_of_le (by decide : 1 < 3) tree.order.property

theorem order_insert (tree : BPlusTree κ ν) (value : ν) :
    (tree.insert key value).2.order = tree.order := by
  rw [insert]
  rcases tree.root.insert tree.order.val key value with ⟨old, root | ⟨left, separator, right⟩⟩ <;> rfl

omit [LinearOrder κ] in
theorem order_lowerRoot (order : Order) (size : Nat) {level : Nat} (root : Node κ ν level) :
    (lowerRoot order size root).order = order := by
  cases level with
  | zero => rfl
  | succ level =>
    unfold lowerRoot
    dsimp only
    split <;> rfl

theorem order_erase (tree : BPlusTree κ ν) : (tree.erase key).2.order = tree.order := by
  rw [erase]
  cases tree.root.erase? tree.order.leastKeys key with
  | none => rfl
  | some erased => exact order_lowerRoot ..

omit [LinearOrder κ] in
theorem toList_lowerRoot (order : Order) (size : Nat) {level : Nat} (root : Node κ ν level) :
    (lowerRoot order size root).toList = root.toList := by
  induction root using Node.induction with
  | leaf entries => rfl
  | branch level children _ =>
    obtain ⟨first, _ | ⟨child, rest⟩⟩ := children
    · show first.toList = first.toList ++ []
      rw [List.append_nil]
    · rfl

/-- A valid root without separators hands its place to a node that is valid in it. -/
theorem valid_lowerRoot {order : Order} {size : Nat} {level : Nat} {root : Node κ ν level}
    (h : root.Valid order none none) (hn : root.keyCount < order.val)
    (hsize : size = root.toList.length) : (lowerRoot order size root).Valid := by
  have hl := toList_lowerRoot order size root
  induction root using Node.induction with
  | leaf entries => exact ⟨h, hn, .inl rfl, hsize⟩
  | branch level children _ =>
    rw [← hl] at hsize
    obtain ⟨first, _ | ⟨child, rest⟩⟩ := children
    · have hc := Children.chained_nil.1 (Node.valid_branch.1 h)
      exact ⟨hc.1, hc.2.2, .inr hc.one_le_keyCount, hsize⟩
    · exact ⟨h, hn, .inr (Nat.succ_le_succ (Nat.zero_le _)), hsize⟩

/-- What erasing comes to, for a key that occurs and for one that does not. -/
theorem erase_eq (h : tree.Valid) :
    (tree.erase key).1 = Leaf.find? key tree.toList ∧
      (tree.erase key).2.toList = Leaf.erase key tree.toList ∧ (tree.erase key).2.Valid := by
  have he := Node.valid_erase? h.root (within_none key) h.parted
  have hlen : (Leaf.erase key tree.toList).length = _ := Leaf.length_erase key
  rw [erase]
  revert he
  cases tree.root.erase? tree.order.leastKeys key with
  | none =>
    intro (he : Leaf.find? key tree.toList = none)
    exact ⟨he.symm, (Leaf.erase_of_find?_eq_none key he).symm, h⟩
  | some erased =>
    intro he
    have hfound : Leaf.find? key tree.toList = some erased.1 := he.found
    refine ⟨hfound.symm, (toList_lowerRoot ..).trans he.toList, valid_lowerRoot he.valid ?_ ?_⟩
    · exact he.keyCount_le.trans_lt h.keyCount_lt
    · rw [he.toList, h.size]
      rw [hfound] at hlen
      exact hlen.symm

theorem erase_fst (h : tree.Valid) : (tree.erase key).1 = Leaf.find? key tree.toList :=
  (erase_eq key h).1

theorem toList_erase (h : tree.Valid) :
    (tree.erase key).2.toList = Leaf.erase key tree.toList := (erase_eq key h).2.1

theorem Valid.erase (h : tree.Valid) : (tree.erase key).2.Valid := (erase_eq key h).2.2

end RelStore.Index.BPlusTree
