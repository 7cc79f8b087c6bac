import RelStore.Proofs.Index.Valid

/-!
# Inserting into nodes

Inserting a key into a valid node gives one valid node, or two with a separator between them
(`valid_insert`); either way the entries are those of the node with the key inserted
(`toList_insert`). A node is split when it has reached the order of the tree, and then both
halves have as many keys as they need (`Leaf.split_cases`, `Children.split_cases`).
-/

namespace RelStore.Index

variable {κ ν : Type} {order : Order} {level : Nat}

namespace Growth

/-- The entries of what has grown. -/
def toList : Growth κ (Node κ ν level) → List (κ × ν)
  | .one node => node.toList
  | .two left _ right => left.toList ++ right.toList

/-- What has grown is valid between two bounds: a node with at least `least` keys, or two that
the separator keeps apart. -/
def Valid [LinearOrder κ] (order : Order) (lo hi : Option κ) (least : Nat) :
    Growth κ (Node κ ν level) → Prop
  | .one node => node.Valid order lo hi ∧ least ≤ node.keyCount ∧ node.keyCount < order.val
  | .two left separator right =>
    left.ValidChild order lo (some separator) ∧ right.ValidChild order (some separator) hi

end Growth

/-! ## Splitting -/

/-- A list of the size of the order, cut in the middle: its lower half, the middle item and the
rest, both of which are long enough for a node. -/
theorem Order.cut_middle {α : Type} (order : Order) {items : List α}
    (h : items.length = order.val) :
    ∃ lower middle upper, items = lower ++ middle :: upper ∧
      items.take (items.length / 2) = lower ∧ items.drop (items.length / 2) = middle :: upper ∧
      lower.length = order.val / 2 ∧ upper.length = order.leastKeys := by
  have hb := order.leastKeys_bounds
  have hl : (items.drop (items.length / 2)).length = order.leastKeys + 1 := by
    rw [List.length_drop]; omega
  obtain ⟨middle, upper, he⟩ := List.exists_cons_of_length_eq_add_one hl
  rw [he, List.length_cons, Nat.add_right_cancel_iff] at hl
  refine ⟨items.take (items.length / 2), middle, upper, ?_, rfl, he, ?_, hl⟩
  · rw [← he, List.take_append_drop]
  · rw [List.length_take]; omega

/-- Entries below the order of the tree stay together; as many as the order are cut before the
middle one, whose key is the separator. -/
theorem Leaf.split_cases {entries : List (κ × ν)} (h : entries.length ≤ order.val) :
    (entries.length < order.val ∧ split order.val entries = .one entries) ∨
      ∃ lower key value upper, entries = lower ++ (key, value) :: upper ∧
        split order.val entries = .two lower key ((key, value) :: upper) ∧
        lower.length = order.val / 2 ∧ upper.length = order.leastKeys := by
  unfold split
  rcases Nat.lt_or_eq_of_le h with h | h
  · exact .inl ⟨h, if_pos h⟩
  · obtain ⟨lower, ⟨key, value⟩, upper, he, ht, hd, hl, hu⟩ := order.cut_middle h
    refine .inr ⟨lower, key, value, upper, he, ?_, hl, hu⟩
    rw [if_neg (by omega), hd, ht]

/-- Children with fewer separators than the order stay together; as many as the order are cut at
the middle separator. -/
theorem Children.split_cases {α : Type} {children : Children κ α}
    (h : children.rest.length ≤ order.val) :
    (children.rest.length < order.val ∧ split order.val children = .one children) ∨
      ∃ lower separator child upper,
        children = ⟨children.first, lower ++ (separator, child) :: upper⟩ ∧
        split order.val children = .two ⟨children.first, lower⟩ separator ⟨child, upper⟩ ∧
        lower.length = order.val / 2 ∧ upper.length = order.leastKeys := by
  unfold split
  rcases Nat.lt_or_eq_of_le h with h | h
  · exact .inl ⟨h, if_pos h⟩
  · obtain ⟨lower, ⟨separator, child⟩, upper, he, ht, hd, hl, hu⟩ := order.cut_middle h
    refine .inr ⟨lower, separator, child, upper, ?_, ?_, hl, hu⟩
    · rw [← he]
    · rw [if_neg (by omega), hd, ht]

/-! ## Inserting -/

namespace Node

variable [LinearOrder κ] {lo hi : Option κ} {key : κ}

theorem insert_leaf (entries : List (κ × ν)) (value : ν) :
    (leaf entries).insert order.val key value =
      (Leaf.find? key entries, Leaf.split order.val (Leaf.insert key value entries)) := rfl

/-- A branch grows with the child that the key belongs to: the child is replaced, or its two
halves take its place and the branch is split in its turn. -/
theorem insert_branch (children : Children κ (Node κ ν level)) (value : ν) :
    (branch children).insert order.val key value =
      match (Focus.seek key children).here.insert order.val key value with
      | (old, .one child) =>
        (old, .one (branch (Focus.mk (Focus.seek key children).before child
          (Focus.seek key children).after).close))
      | (old, .two left separator right) =>
        (old, Children.split order.val (Focus.mk (Focus.seek key children).before left
          ((separator, right) :: (Focus.seek key children).after)).close) := rfl

theorem toList_insert_leaf {entries : List (κ × ν)} (hn : entries.length < order.val) (value : ν) :
    ((leaf entries).insert order.val key value).2.toList = Leaf.insert key value entries := by
  have hl : (Leaf.insert key value entries).length ≤ order.val := by
    rw [Leaf.length_insert]; split <;> omega
  rw [insert_leaf]
  rcases Leaf.split_cases hl with ⟨-, h⟩ | ⟨lower, k, v, upper, he, h, -, -⟩
  · rw [h]; rfl
  · rw [h, he]; rfl

omit [LinearOrder κ] in
theorem toList_split {children : Children κ (Node κ ν level)}
    (hn : children.rest.length ≤ order.val) :
    @Growth.toList _ _ (level + 1) (Children.split order.val children) =
      (branch children).toList := by
  rcases Children.split_cases hn with ⟨-, h⟩ | ⟨lower, separator, child, upper, he, h, -, -⟩
  · rw [h]; rfl
  · rw [h, he]; exact (Children.flat_append ..).symm

theorem toList_insert {node : Node κ ν level} (h : node.Valid order lo hi)
    (hk : Within lo hi key) (hn : node.keyCount < order.val) (value : ν) :
    (node.insert order.val key value).1 = Leaf.find? key node.toList ∧
      (node.insert order.val key value).2.toList = Leaf.insert key value node.toList := by
  induction node using Node.induction generalizing lo hi with
  | leaf entries => exact ⟨rfl, toList_insert_leaf hn value⟩
  | branch level children ih =>
    obtain ⟨hc, hw⟩ := Focus.chained_seek (valid_branch.1 h) hk
    obtain ⟨hb, ha⟩ := beside hc hw
    obtain ⟨hold, hnew⟩ := ih _ hc.2.1.1 hw hc.2.1.2.2
    rw [insert_branch]
    rw [← Focus.close_seek key children] at hn ⊢
    rw [keyCount_branch, Focus.length_close] at hn
    rw [toList_close, Focus.close_seek, Leaf.find?_append_of_lt hb, Leaf.find?_append_of_gt _ ha,
      Leaf.insert_append_of_lt hb, Leaf.insert_append_of_gt _ _ ha, ← hold, ← hnew]
    rcases (Focus.seek key children).here.insert order.val key value with
      ⟨old, child | ⟨left, separator, right⟩⟩
    · exact ⟨rfl, toList_close _⟩
    · refine ⟨rfl, (toList_split ?_).trans ?_⟩
      · simp only [Focus.length_close, List.length_cons]; omega
      · rw [toList_close]; simp [Growth.toList]

theorem valid_insert_leaf {entries : List (κ × ν)} (h : (leaf entries).Valid order lo hi)
    (hk : Within lo hi key) (hn : entries.length < order.val) (value : ν) :
    ((leaf entries).insert order.val key value).2.Valid order lo hi entries.length := by
  have hb := order.leastKeys_bounds
  obtain ⟨hap, hs, hw⟩ := valid_leaf.1 h
  have hs' := hs.insert key value
  have hw' : ∀ e ∈ Leaf.insert key value entries, Within lo hi e.1 := fun e he => by
    rcases Leaf.fst_mem_insert key he with he | ⟨d, hd, he⟩
    · exact he ▸ hk
    · exact he ▸ hw d hd
  have hl : (Leaf.insert key value entries).length = _ := Leaf.length_insert key value
  rw [insert_leaf]
  have hle : (Leaf.insert key value entries).length ≤ order.val := by rw [hl]; split <;> omega
  rcases Leaf.split_cases hle with ⟨hlt, h⟩ | ⟨lower, k, v, upper, he, h, hlen, hupper⟩
  · rw [h]
    refine ⟨valid_leaf.2 ⟨hap, hs', hw'⟩, ?_, hlt⟩
    show entries.length ≤ (Leaf.insert key value entries).length
    rw [hl]; split <;> omega
  · rw [h]
    have hv : (leaf (lower ++ (k, v) :: upper)).Valid order lo hi := he ▸ valid_leaf.2 ⟨hap, hs', hw'⟩
    obtain ⟨hl, hu⟩ := valid_leaf_cut hv (List.ne_nil_of_length_pos (by omega))
    refine ⟨⟨hl, ?_, ?_⟩, hu, ?_, ?_⟩
    · show order.leastKeys ≤ lower.length; omega
    · show lower.length < order.val; omega
    · show order.leastKeys ≤ upper.length + 1; omega
    · show upper.length + 1 < order.val; omega

theorem valid_split {children : Children κ (Node κ ν level)}
    (h : (branch children).Valid order lo hi) (hn : children.rest.length ≤ order.val) {least : Nat}
    (hleast : least ≤ children.rest.length) :
    @Growth.Valid _ _ (level + 1) _ order lo hi least (Children.split order.val children) := by
  have hb := order.leastKeys_bounds
  rcases Children.split_cases hn with
    ⟨hlt, hs⟩ | ⟨lower, separator, child, upper, he, hs, hlen, hupper⟩
  · rw [hs]; exact ⟨h, hleast, hlt⟩
  · rw [he, valid_branch, Children.chained_append] at h
    rw [hs]
    refine ⟨⟨valid_branch.2 h.1, ?_, ?_⟩, valid_branch.2 h.2, ?_, ?_⟩
    · show order.leastKeys ≤ lower.length; omega
    · show lower.length < order.val; omega
    · show order.leastKeys ≤ upper.length; omega
    · show upper.length < order.val; omega

theorem valid_insert {node : Node κ ν level} (h : node.Valid order lo hi)
    (hk : Within lo hi key) (hn : node.keyCount < order.val) (value : ν) :
    (node.insert order.val key value).2.Valid order lo hi node.keyCount := by
  induction node using Node.induction generalizing lo hi with
  | leaf entries => exact valid_insert_leaf h hk hn value
  | branch level children ih =>
    obtain ⟨hc, hw⟩ := Focus.chained_seek (valid_branch.1 h) hk
    have hg := ih _ hc.2.1.1 hw hc.2.1.2.2
    rw [insert_branch]
    rw [← Focus.close_seek key children, keyCount_branch, Focus.length_close] at hn ⊢
    rw [Focus.close_seek]
    revert hg
    rcases (Focus.seek key children).here.insert order.val key value with
      ⟨old, child | ⟨left, separator, right⟩⟩
    · intro ⟨hv, hl, hm⟩
      have hlen : ∀ focus : Focus κ (Node κ ν level), (branch focus.close).keyCount =
        focus.before.length + focus.after.length := fun focus => Focus.length_close focus
      refine ⟨valid_branch.2 (Focus.chained_close.2 ⟨hc.1, ⟨hv, hc.2.1.2.1.trans hl, hm⟩, hc.2.2⟩),
        ?_, ?_⟩
      · rw [hlen]
      · rw [hlen]; exact hn
    · intro ⟨hl, hr⟩
      have hf : (Focus.mk (Focus.seek key children).before left
          ((separator, right) :: (Focus.seek key children).after)).Chained (ValidChild order) lo hi :=
        ⟨hc.1, hl, hr, hc.2.2⟩
      refine valid_split (valid_branch.2 (Focus.chained_close.2 hf)) ?_ ?_ <;>
      · simp only [Focus.length_close, List.length_cons]; omega

end Node

end RelStore.Index
