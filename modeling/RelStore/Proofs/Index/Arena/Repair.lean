import RelStore.Proofs.Index.Arena.Erase
import RelStore.Proofs.Index.Shape

/-!
# Repairing a short child

A branch with one child that has a key too few is repaired whatever the child's place and its
siblings (`repairs_short_child`): the child takes a key from a neighbour that has one to spare, or
else is merged with a neighbour, and `Focus.Mended` holds of what comes of it. In an arena the same
is done in place.
-/

namespace RelStore.Index

variable {κ ν : Type} {level : Nat}

namespace Focus

/-! ## Separators -/

/-- The left neighbour of the child in the focus has more than so many keys. -/
def SparesLeft (least : Nat) (focus : Focus κ (Node κ ν level)) : Prop :=
  ∃ sibling ∈ focus.before.head?, least < sibling.1.keyCount

/-- The right neighbour of the child in the focus has more than so many keys. -/
def SparesRight (least : Nat) (focus : Focus κ (Node κ ν level)) : Prop :=
  ∃ sibling ∈ focus.after.head?, least < sibling.2.keyCount

/-- A neighbour of the child in the focus has more than so many keys. -/
def Spares (least : Nat) (focus : Focus κ (Node κ ν level)) : Prop :=
  focus.SparesLeft least ∨ focus.SparesRight least

/-- A key comes from the left exactly if one can be spared there, and no separator goes. -/
theorem borrowLeft?_cases (least : Nat) (focus : Focus κ (Node κ ν level)) :
    (focus.SparesLeft least ∧ ∃ borrowed, focus.borrowLeft? least = some borrowed ∧
        borrowed.separators.length = focus.separators.length) ∨
      ¬ focus.SparesLeft least ∧ focus.borrowLeft? least = none := by
  obtain ⟨_ | ⟨⟨left, separator⟩, before⟩, here, after⟩ := focus
  · exact .inr ⟨by simp [SparesLeft], rfl⟩
  · rw [borrowLeft?_cons]
    by_cases hspare : least < left.keyCount
    · exact .inl ⟨⟨_, rfl, hspare⟩, _, if_pos hspare, by simp [length_separators]⟩
    · exact .inr ⟨by simpa [SparesLeft] using hspare, if_neg hspare⟩

/-- A key comes from the right exactly if one can be spared there, and no separator goes. -/
theorem borrowRight?_cases (least : Nat) (focus : Focus κ (Node κ ν level)) :
    (focus.SparesRight least ∧ ∃ borrowed, focus.borrowRight? least = some borrowed ∧
        borrowed.separators.length = focus.separators.length) ∨
      ¬ focus.SparesRight least ∧ focus.borrowRight? least = none := by
  obtain ⟨before, here, _ | ⟨⟨separator, right⟩, after⟩⟩ := focus
  · exact .inr ⟨by simp [SparesRight], rfl⟩
  · rw [borrowRight?_cons]
    by_cases hspare : least < right.keyCount
    · exact .inl ⟨⟨_, rfl, hspare⟩, _, if_pos hspare, by simp [length_separators]⟩
    · exact .inr ⟨by simpa [SparesRight] using hspare, if_neg hspare⟩

theorem length_separators_mergeSibling {focus : Focus κ (Node κ ν level)}
    (hs : focus.siblings ≠ []) :
    focus.mergeSibling.separators.length + 1 = focus.separators.length := by
  obtain ⟨_ | ⟨⟨left, separator⟩, before⟩, here, _ | ⟨⟨separator', right⟩, after⟩⟩ := focus
  · exact absurd rfl hs
  all_goals simp [mergeSibling, length_separators, Nat.add_right_comm]

/-- A repair keeps the number of separators exactly if a neighbour can spare a key; a merge takes
one of them away. -/
theorem length_separators_repair (least : Nat) {focus : Focus κ (Node κ ν level)}
    (hs : focus.siblings ≠ []) :
    (focus.Spares least ∧ (focus.repair least).separators.length = focus.separators.length) ∨
      ¬ focus.Spares least ∧
        (focus.repair least).separators.length + 1 = focus.separators.length := by
  unfold repair
  rcases borrowLeft?_cases least focus with ⟨hspare, borrowed, hl, hlength⟩ | ⟨hleft, hl⟩
  · rw [hl]
    exact .inl ⟨.inl hspare, hlength⟩
  · rw [hl]
    rcases borrowRight?_cases least focus with ⟨hspare, borrowed, hr, hlength⟩ | ⟨hright, hr⟩
    · rw [hr]
      exact .inl ⟨.inr hspare, hlength⟩
    · rw [hr]
      exact .inr ⟨fun h => h.elim hleft hright, length_separators_mergeSibling hs⟩

/-! ## Children -/

variable [LinearOrder κ] {order : Order} {lo hi : Option κ} {focus : Focus κ (Node κ ν level)}

/-- Valid children all of which are of the right size but the one in the focus. -/
theorem short_of_siblings (hvalid : focus.Chained (Node.Valid order) lo hi)
    (hsiblings : focus.siblings ≠ []) (hshort : focus.here.keyCount + 1 = order.leastKeys)
    (hothers : ∀ sibling ∈ focus.siblings,
      order.leastKeys ≤ sibling.keyCount ∧ sibling.keyCount < order.val) :
    focus.Short order lo hi := by
  obtain ⟨hbefore, hhere, hafter⟩ := hvalid
  refine ⟨hbefore.and fun sibling hm => hothers _ ?_, hhere,
    hafter.and fun sibling hm => hothers _ ?_, hshort, ?_⟩
  · exact List.mem_append_left _ (List.mem_map_of_mem (List.mem_reverse.2 hm))
  · exact List.mem_append_right _ (List.mem_map_of_mem hm)
  · rw [← List.length_pos_iff, siblings, List.length_append, List.length_map, List.length_map,
      List.length_reverse] at hsiblings
    exact hsiblings

/-- What a repaired branch has: children of the right size over leaves at one depth, the entries
that it had before, and ascending separators with smaller keys on the left of each and no smaller
ones on the right. -/
structure Mended (order : Order) (lo hi : Option κ) (focus mended : Focus κ (Node κ ν level)) :
    Prop where
  size : ∀ child ∈ mended.items,
    order.leastKeys ≤ child.keyCount ∧ child.keyCount ≤ order.val - 1
  depth : ∀ depth keys, (Node.branch mended.close).shape.Below depth (.leaf keys) →
    depth = level + 1
  entries : (Node.branch mended.close).toList = (Node.branch focus.close).toList
  ascending : mended.separators.Pairwise (· < ·)
  parted : Shape.Parted mended.separators (mended.items.map Node.shape)
  /-- Everything below is as it should be, and between the bounds of the branch. -/
  valid : (Node.branch mended.close).Valid order lo hi
  /-- A key was borrowed if a neighbour could spare one, and else the child was merged. -/
  separators : (focus.Spares order.leastKeys ∧
      mended.separators.length = focus.separators.length) ∨
    ¬ focus.Spares order.leastKeys ∧ mended.separators.length + 1 = focus.separators.length

theorem Short.mended (h : focus.Short order lo hi) (hs : focus.siblings ≠ []) :
    focus.Mended order lo hi (focus.repair order.leastKeys) := by
  have hr := h.repair
  have hvalid := Node.valid_branch.2 (chained_close.2 hr.chained)
  have hf {depth : Nat} {node : Shape κ}
      (hb : (Node.branch (focus.repair order.leastKeys).close).shape.Below depth node) :=
    hvalid.fits hb
  have hroot := hf (.refl _)
  have hshape := Node.shape_branch (focus.repair order.leastKeys).close
  rw [separators_close, items_close] at hshape
  refine ⟨fun child hm => ?_, fun depth keys hb => (hf hb).leaf keys rfl, ?_, ?_,
    (hroot.branch _ _ hshape).2, hvalid, length_separators_repair _ hs⟩
  · have hbelow : (Node.branch (focus.repair order.leastKeys).close).shape.Below 1 child.shape := by
      rw [hshape]
      exact .step (List.mem_map_of_mem hm) (.refl _)
    obtain ⟨hleast, hmost⟩ := (hf hbelow).size Nat.one_pos
    rw [Node.length_keys_shape] at hleast hmost
    exact ⟨hleast, Nat.le_sub_one_of_lt hmost⟩
  · rw [Node.toList_branch, Node.toList_branch, flat_close, flat_close]
    exact hr.flat
  · have hascending := hroot.ascending
    rw [hshape] at hascending
    exact hascending

end Focus

/-! ## In an arena -/

open Placed (branch) in
/-- A branch of valid children between separators, of which one is a key short and all others have
keys from the least number on and fewer than the order: repairing the child mends the branch. Where
the branch lies on a heap, the same is done in place and gets to an end. -/
theorem repairs_short_child [LinearOrder κ] (order : Order) {lo hi : Option κ}
    {focus : Focus κ (Node κ ν level)} (hvalid : focus.close.Chained (Node.Valid order) lo hi)
    (hsiblings : focus.siblings ≠ []) (hshort : focus.here.keyCount + 1 = order.leastKeys)
    (hothers : ∀ sibling ∈ focus.siblings,
      order.leastKeys ≤ sibling.keyCount ∧ sibling.keyCount ≤ order.val - 1) :
    focus.Mended order lo hi (focus.repair order.leastKeys) ∧
      ∀ (heap : Heap κ ν) (before after : List NodeId) (id : NodeId)
        (placed : Focus κ (Placed κ ν level)), placed.map Placed.node = focus →
        (branch id placed.close).LiesIn heap.content →
        heap.Part before after (branch id placed.close).ids (branch id placed.close).leaves →
        ∃ (placed' : Focus κ (Placed κ ν level)) (heap' : Heap κ ν),
          Heap.rebalance order.val id focus.before.length heap = some ((), heap') ∧
          placed'.map Placed.node = focus.repair order.leastKeys ∧
          heap.Replaced before after heap' (branch id placed.close) (branch id placed'.close) := by
  have hbounds := order.leastKeys_bounds
  have hshort : focus.Short order lo hi :=
    Focus.short_of_siblings (Focus.chained_close.1 hvalid) hsiblings hshort fun sibling hm => by
      have := hothers sibling hm
      omega
  refine ⟨hshort.mended hsiblings, ?_⟩
  rintro heap before after id placed rfl hlies hpart
  obtain ⟨placed', heap', hrun, hrepair, hreplaced⟩ := Heap.rebalance_spec order hlies hpart
  refine ⟨placed', heap', ?_, hrepair.symm, hreplaced⟩
  rw [Focus.map, List.length_map]
  exact hrun

open Placed (leaf branch) in
/-- In a tree of order three the last of two branches over leaves has lost its only separator. Its
left neighbour has none to spare, and merged with it has as many as the order allows. -/
theorem repairs_short_child_by_merging :
    let order : Order := ⟨3, le_rfl⟩
    let placed : Focus Nat (Placed Nat String 1) :=
      ⟨[(branch 1 ⟨leaf 2 [(1, "a")], [(2, leaf 3 [(2, "b")])]⟩, 3)],
        branch 4 ⟨leaf 5 [(3, "c")], []⟩, []⟩
    let heap : Heap Nat String :=
      ⟨[some (.branch [3] [1, 4]), some (.branch [2] [2, 3]), some (.leaf [1] ["a"] none (some 3)),
        some (.leaf [2] ["b"] (some 2) (some 5)), some (.branch [] [5]),
        some (.leaf [3] ["c"] (some 3) none)], []⟩
    let focus := placed.map Placed.node
    ((focus.close.Chained (Node.Valid order) none none ∧ focus.siblings ≠ [] ∧
        focus.here.keyCount + 1 = order.leastKeys ∧
        ∀ sibling ∈ focus.siblings,
          order.leastKeys ≤ sibling.keyCount ∧ sibling.keyCount ≤ order.val - 1) ∧
      (branch 0 placed.close).LiesIn heap.content ∧
      heap.Part [] [] (branch 0 placed.close).ids (branch 0 placed.close).leaves) ∧
    focus.Mended order none none (focus.repair order.leastKeys) ∧
      ∃ (placed' : Focus Nat (Placed Nat String 1)) (heap' : Heap Nat String),
        Heap.rebalance 3 0 1 heap = some ((), heap') ∧
        placed'.map Placed.node = focus.repair order.leastKeys ∧
        heap.Replaced [] [] heap' (branch 0 placed.close) (branch 0 placed'.close) := by
  intro order placed heap focus
  have hleaf {lo hi : Option Nat} {key : Nat} (value : String) (hw : Within lo hi key) :
      (Node.leaf [(key, value)]).ValidChild order lo hi := by
    refine ⟨Node.valid_leaf.2 ⟨fun a ha b hb => (hw.1 a ha).trans_lt (hw.2 b hb), ?_, ?_⟩,
      (by decide : Order.leastKeys ⟨3, le_rfl⟩ ≤ 1), (by decide : 1 < 3)⟩
    · exact List.pairwise_singleton _ _
    · exact List.forall_mem_singleton.2 hw
  have hvalid : focus.close.Chained (Node.Valid order) none none := by
    refine Children.chained_cons.2 ⟨?_, Children.chained_nil.2 ?_⟩
    · refine Node.valid_branch.2 (Children.chained_cons.2 ⟨?_, Children.chained_nil.2 ?_⟩)
      · exact hleaf "a" (by simp [Within])
      · exact hleaf "b" (by simp [Within])
    · exact Node.valid_branch.2 (Children.chained_nil.2 (hleaf "c" (by simp [Within])))
  have hsiblings : focus.siblings ≠ [] := List.cons_ne_nil _ _
  have hshort : focus.here.keyCount + 1 = order.leastKeys := by decide
  have hothers : ∀ sibling ∈ focus.siblings,
      order.leastKeys ≤ sibling.keyCount ∧ sibling.keyCount ≤ order.val - 1 := by
    refine List.forall_mem_singleton.2 ?_
    decide
  have hlies : (branch 0 placed.close).LiesIn heap.content := by
    simp [placed, heap, Focus.close, Focus.closeFrom, Placed.liesIn_branch, Placed.liesIn_leaf,
      Children.items, Children.separators, Heap.content, Heap.get?, Cell.unlinked]
  have hpart : heap.Part [] [] (branch 0 placed.close).ids (branch 0 placed.close).leaves := by
    refine ⟨⟨List.nodup_nil, by simp [heap]⟩, by decide, List.nodup_nil, by simp, ?_⟩
    simp [placed, heap, Focus.close, Focus.closeFrom, Children.items, Linked, Heap.links,
      Heap.get?, Cell.links?]
  obtain ⟨hmended, harena⟩ := repairs_short_child order hvalid hsiblings hshort hothers
  exact ⟨⟨⟨hvalid, hsiblings, hshort, hothers⟩, hlies, hpart⟩, hmended,
    harena heap [] [] 0 placed rfl hlies hpart⟩

end RelStore.Index
