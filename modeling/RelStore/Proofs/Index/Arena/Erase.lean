import RelStore.Proofs.Index.Arena.Borrow
import RelStore.Proofs.Index.Arena.Merge
import RelStore.Proofs.Index.Arena.Search

/-!
# Erasing in an arena

`NodeId.eraseFrom` gets to an end and does on the heap what `Node.erase?` does to the tree
(`eraseFrom_spec`). On its way back it repairs the children that have become short, as
`Focus.repair` does (`rebalance_spec`).
-/

namespace RelStore.Index

variable {κ ν : Type} {level : Nat}

namespace Heap

open NodeId

open Placed (leaf branch)

variable {h : Heap κ ν} {before after : List NodeId} {id : NodeId}

theorem leastKeys_eq (order : Order) : leastKeys order.val = some order.leastKeys := by
  have := order.property
  refine if_pos ?_
  omega

/-- The cell of a node has the keys of the node. -/
theorem get?_root {placed : Placed κ ν level} (hl : placed.LiesIn h.content) :
    ∃ cell, h.get? placed.root = some cell ∧ cell.keys.length = placed.node.keyCount := by
  cases level with
  | zero =>
    obtain ⟨i, entries, rfl⟩ := placed.exists_leaf
    obtain ⟨prev, next, hget⟩ := get?_of_leaf (Placed.liesIn_leaf.1 hl)
    exact ⟨_, hget, List.length_map _⟩
  | succ level =>
    obtain ⟨i, children, rfl⟩ := placed.exists_branch
    refine ⟨_, get?_of_branch (Placed.liesIn_branch.1 hl).1, ?_⟩
    show children.separators.length = (children.map Placed.node).rest.length
    simp [Children.separators, Children.map]

/-! ## Repairing -/

theorem sparing_spec {placed : Placed κ ν level} (hl : placed.LiesIn h.content) (least : Nat) :
    sparing least (some placed.root) h =
      some (if least < placed.node.keyCount then some placed.root else none, h) := by
  obtain ⟨cell, hget, hkeys⟩ := get?_root hl
  rw [sparing, run_bind (node_eq hget), hkeys]
  rfl

/-- What a repair comes to, on the heap and in the tree. -/
def Restored (order : Order) (before after : List NodeId) (h : Heap κ ν) (id : NodeId)
    (focus : Focus κ (Placed κ ν level)) (run : Option (Unit × Heap κ ν)) : Prop :=
  ∃ (focus' : Focus κ (Placed κ ν level)) (h' : Heap κ ν), run = some ((), h') ∧
    (focus.map Placed.node).repair order.leastKeys = focus'.map Placed.node ∧
    h.Replaced before after h' (branch id focus.close) (branch id focus'.close)

section

variable {order : Order} {left here right : Placed κ ν level} {separator : κ}
  {lower : List (Placed κ ν level × κ)} {upper : List (κ × Placed κ ν level)}

theorem restored_borrowFromLeft
    (hl : (branch id (Focus.mk ((left, separator) :: lower) here upper).close).LiesIn h.content)
    (hp : h.Part before after (branch id (Focus.mk ((left, separator) :: lower) here upper).close).ids
      (branch id (Focus.mk ((left, separator) :: lower) here upper).close).leaves)
    (hspare : order.leastKeys < left.node.keyCount) :
    Restored order before after h id ⟨(left, separator) :: lower, here, upper⟩
      (borrowFromLeft id (lower.length + 1) left.root here.root h) := by
  obtain ⟨l', s', r', h', hrun, hlend, hr⟩ :=
    borrowFromLeft_spec ⟨lower, left, upper⟩ hl hp (Nat.one_le_of_lt hspare)
  refine ⟨⟨(l', s') :: lower, r', upper⟩, h', hrun, ?_, hr⟩
  simp [Focus.map, Focus.repair, Focus.borrowLeft?_cons, hspare, hlend]

theorem restored_borrowFromRight
    (hl : (branch id (Focus.mk lower here ((separator, right) :: upper)).close).LiesIn h.content)
    (hp : h.Part before after (branch id (Focus.mk lower here ((separator, right) :: upper)).close).ids
      (branch id (Focus.mk lower here ((separator, right) :: upper)).close).leaves)
    (hleft : ((Focus.mk lower here ((separator, right) :: upper)).map Placed.node).borrowLeft?
      order.leastKeys = none)
    (hspare : order.leastKeys < right.node.keyCount) :
    Restored order before after h id ⟨lower, here, (separator, right) :: upper⟩
      (borrowFromRight id lower.length here.root right.root h) := by
  have hb := order.leastKeys_bounds
  obtain ⟨l', s', r', h', hrun, hlend, hr⟩ :=
    borrowFromRight_spec ⟨lower, here, upper⟩ hl hp (by omega)
  refine ⟨⟨lower, l', (s', r') :: upper⟩, h', hrun, ?_, hr⟩
  rw [Focus.repair, hleft]
  simp [Focus.map, Focus.borrowRight?_cons, hspare, hlend]

theorem restored_merge_left
    (hl : (branch id (Focus.mk ((left, separator) :: lower) here upper).close).LiesIn h.content)
    (hp : h.Part before after (branch id (Focus.mk ((left, separator) :: lower) here upper).close).ids
      (branch id (Focus.mk ((left, separator) :: lower) here upper).close).leaves)
    (hspare : ¬ order.leastKeys < left.node.keyCount)
    (hright : ((Focus.mk ((left, separator) :: lower) here upper).map Placed.node).borrowRight?
      order.leastKeys = none) :
    Restored order before after h id ⟨(left, separator) :: lower, here, upper⟩
      (merge id lower.length left.root here.root h) := by
  obtain ⟨m, h', hrun, hmerge, hr⟩ := merge_spec ⟨lower, left, upper⟩ hl hp
  refine ⟨⟨lower, m, upper⟩, h', hrun, ?_, hr⟩
  rw [Focus.repair, hright]
  simp [Focus.map, Focus.borrowLeft?_cons, hspare, Focus.mergeSibling, hmerge]

theorem restored_merge_right
    (hl : (branch id (Focus.mk [] here ((separator, right) :: upper)).close).LiesIn h.content)
    (hp : h.Part before after (branch id (Focus.mk [] here ((separator, right) :: upper)).close).ids
      (branch id (Focus.mk [] here ((separator, right) :: upper)).close).leaves)
    (hspare : ¬ order.leastKeys < right.node.keyCount) :
    Restored order before after h id ⟨[], here, (separator, right) :: upper⟩
      (merge id 0 here.root right.root h) := by
  obtain ⟨m, h', hrun, hmerge, hr⟩ := merge_spec ⟨[], here, upper⟩ hl hp
  refine ⟨⟨[], m, upper⟩, h', hrun, ?_, hr⟩
  rw [Focus.repair]
  simp [Focus.map, Focus.borrowLeft?, Focus.borrowRight?_cons, hspare, Focus.mergeSibling, hmerge]

end

/-- A child is repaired as in the tree, whichever siblings it has. -/
theorem restore_spec (order : Order) {focus : Focus κ (Placed κ ν level)}
    (hl : (branch id focus.close).LiesIn h.content)
    (hp : h.Part before after (branch id focus.close).ids (branch id focus.close).leaves) :
    Restored order before after h id focus
      (restore order.leastKeys id focus.before.length
        (focus.before.head?.map fun sibling => sibling.1.root) focus.here.root
        (focus.after.head?.map fun sibling => sibling.2.root) h) := by
  obtain ⟨lower, here, upper⟩ := focus
  obtain ⟨-, hhere, hs⟩ := Placed.liesIn_close.1 hl
  rcases lower with _ | ⟨⟨left, separator⟩, lower⟩
  · rcases upper with _ | ⟨⟨separator, right⟩, upper⟩
    · exact ⟨⟨[], here, []⟩, h, rfl, rfl, rfl, hl, .refl h _, hp⟩
    · have hright := sparing_spec (hs right (by simp [Focus.siblings])) order.leastKeys
      have hnone : sparing order.leastKeys none h = some (none, h) := rfl
      simp only [restore, List.head?_nil, List.head?_cons, Option.map_none, Option.map_some,
        run_bind hnone, run_bind hright]
      by_cases hspare : order.leastKeys < right.node.keyCount
      · simp only [if_pos hspare]
        exact restored_borrowFromRight hl hp rfl hspare
      · simp only [if_neg hspare]
        exact restored_merge_right hl hp hspare
  · have hleft := sparing_spec (hs left (by simp [Focus.siblings])) order.leastKeys
    have hindex : difference? (lower.length + 1) 1 = some lower.length := by simp [difference?]
    simp only [restore, List.head?_cons, Option.map_some, List.length_cons, run_bind hleft]
    by_cases hspare : order.leastKeys < left.node.keyCount
    · simp only [if_pos hspare]
      exact restored_borrowFromLeft hl hp hspare
    have hborrow (upper : List (κ × Placed κ ν level)) :
        ((Focus.mk ((left, separator) :: lower) here upper).map Placed.node).borrowLeft?
          order.leastKeys = none := by
      simp [Focus.map, Focus.borrowLeft?_cons, hspare]
    simp only [if_neg hspare]
    rcases upper with _ | ⟨⟨separator', right⟩, upper⟩
    · have hnone : sparing order.leastKeys none h = some (none, h) := rfl
      simp only [List.head?_nil, Option.map_none, run_bind hnone, run_lift hindex]
      exact restored_merge_left hl hp hspare rfl
    · have hright := sparing_spec (hs right (by simp [Focus.siblings])) order.leastKeys
      simp only [List.head?_cons, Option.map_some, run_bind hright]
      by_cases hspare' : order.leastKeys < right.node.keyCount
      · simp only [if_pos hspare']
        exact restored_borrowFromRight hl hp (hborrow _) hspare'
      · simp only [if_neg hspare', run_lift hindex]
        refine restored_merge_left hl hp hspare ?_
        simp [Focus.map, Focus.borrowRight?_cons, hspare']

theorem rebalance_spec (order : Order) {focus : Focus κ (Placed κ ν level)}
    (hl : (branch id focus.close).LiesIn h.content)
    (hp : h.Part before after (branch id focus.close).ids (branch id focus.close).leaves) :
    Restored order before after h id focus (rebalance order.val id focus.before.length h) := by
  have hget := get?_of_branch (Placed.liesIn_close.1 hl).1
  have hchild : (focus.items.map Placed.root)[focus.before.length]? = some focus.here.root := by
    rw [List.getElem?_map, focus.getElem?_items]
    rfl
  have hright : (focus.items.map Placed.root)[focus.before.length + 1]? =
      focus.after.head?.map fun sibling => sibling.2.root := by
    rw [List.getElem?_map, focus.getElem?_items_succ, Option.map_map]
    rfl
  have hrun := restore_spec order hl hp
  rw [rebalance, run_lift (leastKeys_eq order), run_bind (node_eq hget)]
  dsimp only
  obtain ⟨lower, here, upper⟩ := focus
  rcases lower with _ | ⟨⟨left, separator⟩, lower⟩
  · have hnone : (pure none : Run κ ν (Option NodeId)) h = some (none, h) := rfl
    dsimp only [List.length_nil] at hchild hright hrun ⊢
    rw [run_bind hnone, run_lift hchild, hright]
    exact hrun
  · have hleft : ((Focus.mk ((left, separator) :: lower) here upper).items.map
        Placed.root)[lower.length]? = some left.root := by
      rw [List.getElem?_map, Focus.getElem?_items_left]
      rfl
    have hsome : (some <$> (liftM ((Focus.mk ((left, separator) :: lower) here upper).items.map
        Placed.root)[lower.length]? : Run κ ν NodeId)) h = some (some left.root, h) := by
      rw [hleft]
      rfl
    dsimp only [List.length_cons] at hchild hright hrun ⊢
    rw [run_bind hsome, run_lift hchild, hright]
    exact hrun

/-! ## Erasing -/

section

variable [LinearOrder κ] {order : Order} {lo hi : Option κ} {key : κ}

/-- What erasing a key below a node comes to: it does not occur and nothing has changed, or the
heap has changed as the tree has. -/
def Erased (order : Order) (key : κ) (before after : List NodeId) (h : Heap κ ν)
    (placed : Placed κ ν level) : Prop :=
  (placed.node.erase? order.leastKeys key = none ∧
      eraseFrom order.val key placed.root h = some (none, h)) ∨
    ∃ (value : ν) (placed' : Placed κ ν level) (h' : Heap κ ν),
      placed.node.erase? order.leastKeys key = some (value, placed'.node) ∧
        eraseFrom order.val key placed.root h = some (some value, h') ∧
        h.Replaced before after h' placed placed'

theorem erased_leaf {entries : List (κ × ν)} (hl : (leaf id entries).LiesIn h.content)
    (hp : h.Part before after [id] [id]) :
    Erased order key before after h (leaf id entries) := by
  obtain ⟨prev, next, hget⟩ := get?_of_leaf (Placed.liesIn_leaf.1 hl)
  have hlt := lt_of_get? hget
  unfold Erased
  rw [Placed.root_leaf, Placed.node_leaf, Node.erase?_leaf, eraseFrom, run_bind (node_eq hget)]
  dsimp only
  rcases search_cases key entries with ⟨lower, upper, hs⟩ | ⟨lower, entry, upper, hs⟩
  · rw [hs.find?, hs.search]
    exact .inl ⟨rfl, rfl⟩
  · have hmem := List.mem_singleton_self id
    rw [hs.find?, hs.search]
    dsimp only
    rw [run_lift hs.removeAt?_keys, run_lift hs.removeAt?_values, run_bind (put_eq hlt _)]
    refine .inr ⟨entry.2, leaf id (Leaf.erase key entries), _, rfl, rfl, rfl, ?_, .set hget _ hmem,
      hp.set hget _ rfl hmem⟩
    rw [Placed.liesIn_leaf, content_set hlt, if_pos rfl]
    rfl

theorem erased_branch {focus : Focus κ (Placed κ ν level)}
    (hl : (branch id focus.close).LiesIn h.content)
    (hp : h.Part before after (branch id focus.close).ids (branch id focus.close).leaves)
    (hindex : childIndex key focus.separators = focus.before.length)
    (hseek : Focus.seek key (focus.close.map Placed.node) = focus.map Placed.node)
    (hchild : Erased order key (before ++ Placed.leavesBefore focus)
      (Placed.leavesAfter focus ++ after) h focus.here) :
    Erased order key before after h (branch id focus.close) := by
  have hcell := get?_of_branch (Placed.liesIn_close.1 hl).1
  have hat : (focus.items.map Placed.root)[childIndex key focus.separators]? =
      some focus.here.root := by
    rw [hindex, List.getElem?_map, focus.getElem?_items]
    rfl
  unfold Erased
  rw [Placed.root_branch, Placed.node_branch, Node.erase?_branch, hseek, eraseFrom,
    run_bind (node_eq hcell)]
  dsimp only
  rw [run_lift hat]
  rcases hchild with ⟨hnode, hrun⟩ | ⟨value, child, h₁, hnode, hrun, hr⟩
  · rw [run_bind hrun]
    dsimp only [Focus.map]
    rw [hnode]
    exact .inl ⟨rfl, rfl⟩
  · obtain ⟨cell, hget, hkeys⟩ := get?_root hr.lies
    rw [hr.root] at hget
    have hr₁ := Placed.part_replace hl hp hr
    rw [run_bind hrun]
    dsimp only [Focus.map]
    rw [hnode, run_lift (leastKeys_eq order), run_bind (node_eq hget), hkeys, hindex]
    dsimp only
    refine .inr ⟨value, ?_⟩
    by_cases hshort : child.node.keyCount < order.leastKeys
    · obtain ⟨focus', h', hrun', hrepair, hr'⟩ := rebalance_spec order hr₁.lies hr₁.part
      refine ⟨branch id focus'.close, h', ?_, ?_, hr₁.trans hr'⟩
      · rw [if_pos hshort, Placed.node_close, ← hrepair]
        rfl
      · simp only [if_pos hshort]
        rw [run_bind hrun']
        rfl
    · refine ⟨branch id { focus with here := child }.close, h₁, ?_, ?_, hr₁⟩
      · rw [if_neg hshort, Placed.node_close]
        rfl
      · simp only [if_neg hshort]
        rfl

/-- Erasing a key gets to an end and changes the heap as it changes the tree. -/
theorem eraseFrom_spec {placed : Placed κ ν level} (hl : placed.LiesIn h.content)
    (hp : h.Part before after placed.ids placed.leaves) (hv : placed.node.Valid order lo hi)
    (hk : Within lo hi key) : Erased order key before after h placed := by
  induction placed using Placed.induction generalizing lo hi before after with
  | leaf id entries => exact erased_leaf hl hp
  | branch level id children ih =>
    obtain ⟨lo, hi, hw, hchild⟩ := valid_seek hv hk
    have hindex := childIndex_spec hv hk
    have hseek := Focus.map_seek Placed.node key children
    have hclose := Focus.close_seek key children
    revert hchild hindex hseek hclose
    generalize Focus.seek key children = focus
    rintro hchild hindex hseek rfl
    rw [Focus.separators_close] at hindex
    exact erased_branch hl hp hindex hseek.symm
      (ih focus.here (Placed.liesIn_close.1 hl).2.1 (Placed.part_here hp) hchild.1 hw)

end

end Heap

end RelStore.Index
