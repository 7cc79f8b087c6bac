import RelStore.Proofs.Index.Valid

/-!
# Erasing from nodes

Erasing a key from a valid node leaves a valid node with at most one key less, whose entries are
those of the node without the key (`Erased`, `valid_erase?`). A child that is one key short is
repaired (`Focus.Short.repair`): borrowing from a sibling and merging with one are both seen as
joining the two nodes and, for a borrowed key, cutting them again elsewhere.
-/

namespace RelStore.Index

variable {κ ν : Type} {level : Nat}

namespace Node

/-! ## Two neighbours -/

theorem lendRight_leaf (lower : List (κ × ν)) (key : κ) (value : ν) (separator : κ)
    (right : List (κ × ν)) :
    (leaf (lower ++ [(key, value)])).lendRight separator (leaf right) =
      (leaf lower, key, leaf ((key, value) :: right)) := by
  show Leaf.lendRight _ _ _ = _
  simp only [Leaf.lendRight, leaf, List.getLast?_append, List.getLast?_singleton, Option.some_or,
    List.dropLast_concat]
  rfl

theorem lendLeft_leaf (left : List (κ × ν)) (separator : κ) (entry next : κ × ν)
    (rest : List (κ × ν)) :
    (leaf left).lendLeft separator (leaf (entry :: next :: rest)) =
      (leaf (left ++ [entry]), next.1, leaf (next :: rest)) := rfl

theorem merge_leaf (left : List (κ × ν)) (separator : κ) (right : List (κ × ν)) :
    (leaf left).merge separator (leaf right) = leaf (left ++ right) := rfl

theorem lendRight_branch (first : Node κ ν level) (lower : List (κ × Node κ ν level)) (up : κ)
    (moved : Node κ ν level) (separator : κ) (right : Children κ (Node κ ν level)) :
    (branch ⟨first, lower ++ [(up, moved)]⟩).lendRight separator (branch right) =
      (branch ⟨first, lower⟩, up, branch ⟨moved, (separator, right.first) :: right.rest⟩) := by
  show Children.lendRight _ _ _ = _
  simp only [Children.lendRight, branch, List.getLast?_append, List.getLast?_singleton,
    Option.some_or, List.dropLast_concat]
  rfl

theorem lendLeft_branch (left : Children κ (Node κ ν level)) (separator : κ)
    (first : Node κ ν level) (up : κ) (child : Node κ ν level) (rest : List (κ × Node κ ν level)) :
    (branch left).lendLeft separator (branch ⟨first, (up, child) :: rest⟩) =
      (branch ⟨left.first, left.rest ++ [(separator, first)]⟩, up, branch ⟨child, rest⟩) := rfl

theorem merge_branch (left : Children κ (Node κ ν level)) (separator : κ)
    (right : Children κ (Node κ ν level)) :
    (branch left).merge separator (branch right) =
      branch ⟨left.first, left.rest ++ (separator, right.first) :: right.rest⟩ := rfl

theorem toList_merge (left : Node κ ν level) (separator : κ) (right : Node κ ν level) :
    (left.merge separator right).toList = left.toList ++ right.toList := by
  cases level with
  | zero => rfl
  | succ level => exact Children.flat_append toList left.first right.first separator left.rest right.rest

section Neighbours

variable [LinearOrder κ] {order : Order} {lo hi : Option κ} {separator : κ}

/-- Two neighbours after one has lent the other a key: both are as they should be, and together
they hold what `left` and `right` held. -/
def Lent (order : Order) (lo hi : Option κ) (left right : Node κ ν level)
    (lent : Node κ ν level × κ × Node κ ν level) : Prop :=
  lent.1.ValidChild order lo (some lent.2.1) ∧ lent.2.2.ValidChild order (some lent.2.1) hi ∧
    lent.1.toList ++ lent.2.2.toList = left.toList ++ right.toList

theorem lent_leaf {lower upper : List (κ × ν)} {key : κ} {value : ν} {left right : List (κ × ν)}
    (hv : (leaf (lower ++ (key, value) :: upper)).Valid order lo hi)
    (he : lower ++ (key, value) :: upper = left ++ right)
    (hl : order.leastKeys ≤ lower.length ∧ lower.length < order.val)
    (hu : order.leastKeys ≤ upper.length + 1 ∧ upper.length + 1 < order.val) :
    Lent order lo hi (leaf left) (leaf right) (leaf lower, key, leaf ((key, value) :: upper)) := by
  have hb := order.leastKeys_bounds
  obtain ⟨hl', hu'⟩ := valid_leaf_cut hv (List.ne_nil_of_length_pos (by omega))
  exact ⟨⟨hl', hl⟩, ⟨hu', hu⟩, he⟩

theorem lent_branch {first middle : Node κ ν level} {lower upper : List (κ × Node κ ν level)}
    {up : κ} {left right : Children κ (Node κ ν level)}
    (hv : (Children.mk first (lower ++ (up, middle) :: upper)).Chained (ValidChild order) lo hi)
    (he : Children.flat toList ⟨first, lower ++ (up, middle) :: upper⟩ =
      left.flat toList ++ right.flat toList)
    (hl : order.leastKeys ≤ lower.length ∧ lower.length < order.val)
    (hu : order.leastKeys ≤ upper.length ∧ upper.length < order.val) :
    Lent order lo hi (branch left) (branch right)
      (branch ⟨first, lower⟩, up, branch ⟨middle, upper⟩) := by
  obtain ⟨hl', hu'⟩ := Children.chained_append.1 hv
  refine ⟨⟨valid_branch.2 hl', hl⟩, ⟨valid_branch.2 hu', hu⟩, ?_⟩
  rw [toList_branch, toList_branch, ← Children.flat_append, he]
  rfl

/-- Two branches and the separator between them are chained as one. -/
theorem chained_join {left right : Children κ (Node κ ν level)}
    (hl : (branch left).Valid order lo (some separator))
    (hr : (branch right).Valid order (some separator) hi) :
    (Children.mk left.first (left.rest ++ (separator, right.first) :: right.rest)).Chained
      (ValidChild order) lo hi :=
  Children.chained_append.2 ⟨valid_branch.1 hl, valid_branch.1 hr⟩

theorem lent_lendRight_leaf {left right : List (κ × ν)}
    (hl : (leaf left).ValidChild order lo (some separator))
    (hr : (leaf right).Valid order (some separator) hi)
    (hspare : order.leastKeys < left.length) (hshort : right.length + 1 = order.leastKeys) :
    Lent order lo hi (leaf left) (leaf right) ((leaf left).lendRight separator (leaf right)) := by
  have hb := order.leastKeys_bounds
  obtain ⟨hl, -, hmost⟩ := hl
  rcases List.eq_nil_or_concat' left with rfl | ⟨lower, ⟨key, value⟩, rfl⟩
  · exact absurd hspare (Nat.not_lt_zero _)
  rw [keyCount_leaf] at hmost
  rw [List.length_append, List.length_singleton] at hspare hmost
  have he : lower ++ (key, value) :: right = lower ++ [(key, value)] ++ right := by simp
  rw [lendRight_leaf]
  exact lent_leaf (he ▸ valid_leaf_join hl hr) he ⟨by omega, by omega⟩ ⟨by omega, by omega⟩

theorem lent_lendRight_branch {left right : Children κ (Node κ ν level)}
    (hl : (branch left).ValidChild order lo (some separator))
    (hr : (branch right).Valid order (some separator) hi)
    (hspare : order.leastKeys < left.rest.length)
    (hshort : right.rest.length + 1 = order.leastKeys) :
    Lent order lo hi (branch left) (branch right)
      ((branch left).lendRight separator (branch right)) := by
  have hb := order.leastKeys_bounds
  obtain ⟨hl, -, hmost⟩ := hl
  obtain ⟨first, rest⟩ := left
  rcases List.eq_nil_or_concat' rest with rfl | ⟨lower, ⟨up, moved⟩, rfl⟩
  · exact absurd hspare (Nat.not_lt_zero _)
  simp only [keyCount_branch, List.length_append, List.length_singleton] at hspare hmost
  have hv := chained_join hl hr
  rw [List.append_assoc, List.singleton_append] at hv
  rw [lendRight_branch]
  refine lent_branch hv ?_ ⟨by omega, by omega⟩ ⟨?_, ?_⟩
  · simp [Children.flat]
  · rw [List.length_cons]; omega
  · rw [List.length_cons]; omega

theorem lent_lendLeft_leaf {left right : List (κ × ν)}
    (hl : (leaf left).Valid order lo (some separator))
    (hr : (leaf right).ValidChild order (some separator) hi)
    (hspare : order.leastKeys < right.length) (hshort : left.length + 1 = order.leastKeys) :
    Lent order lo hi (leaf left) (leaf right) ((leaf left).lendLeft separator (leaf right)) := by
  have hb := order.leastKeys_bounds
  obtain ⟨hr, -, hmost⟩ := hr
  rcases right with _ | ⟨entry, _ | ⟨⟨key, value⟩, rest⟩⟩
  · exact absurd hspare (Nat.not_lt_zero _)
  · rw [List.length_singleton] at hspare; omega
  rw [keyCount_leaf] at hmost
  simp only [List.length_cons] at hspare hmost
  have he : left ++ [entry] ++ (key, value) :: rest = left ++ entry :: (key, value) :: rest := by
    simp
  rw [lendLeft_leaf]
  refine lent_leaf (he ▸ valid_leaf_join hl hr) he ⟨?_, ?_⟩ ⟨by omega, by omega⟩ <;>
  · rw [List.length_append, List.length_singleton]; omega

theorem lent_lendLeft_branch {left right : Children κ (Node κ ν level)}
    (hl : (branch left).Valid order lo (some separator))
    (hr : (branch right).ValidChild order (some separator) hi)
    (hspare : order.leastKeys < right.rest.length)
    (hshort : left.rest.length + 1 = order.leastKeys) :
    Lent order lo hi (branch left) (branch right)
      ((branch left).lendLeft separator (branch right)) := by
  have hb := order.leastKeys_bounds
  obtain ⟨hr, -, hmost⟩ := hr
  obtain ⟨first, rest⟩ := right
  rcases rest with _ | ⟨⟨up, child⟩, rest⟩
  · exact absurd hspare (Nat.not_lt_zero _)
  simp only [keyCount_branch, List.length_cons] at hspare hmost
  have hv := chained_join hl hr
  rw [List.append_cons] at hv
  rw [lendLeft_branch]
  refine lent_branch hv ?_ ⟨?_, ?_⟩ ⟨by omega, by omega⟩
  · simp [Children.flat]
  · rw [List.length_append, List.length_singleton]; omega
  · rw [List.length_append, List.length_singleton]; omega

/-- A left neighbour with keys to spare lends its last one. -/
theorem lent_lendRight {left right : Node κ ν level}
    (hl : left.ValidChild order lo (some separator)) (hr : right.Valid order (some separator) hi)
    (hspare : order.leastKeys < left.keyCount) (hshort : right.keyCount + 1 = order.leastKeys) :
    Lent order lo hi left right (left.lendRight separator right) := by
  cases level with
  | zero => exact lent_lendRight_leaf hl hr hspare hshort
  | succ level => exact lent_lendRight_branch hl hr hspare hshort

/-- A right neighbour with keys to spare lends its first one. -/
theorem lent_lendLeft {left right : Node κ ν level}
    (hl : left.Valid order lo (some separator)) (hr : right.ValidChild order (some separator) hi)
    (hspare : order.leastKeys < right.keyCount) (hshort : left.keyCount + 1 = order.leastKeys) :
    Lent order lo hi left right (left.lendLeft separator right) := by
  cases level with
  | zero => exact lent_lendLeft_leaf hl hr hspare hshort
  | succ level => exact lent_lendLeft_branch hl hr hspare hshort

theorem validChild_merge_leaf {left right : List (κ × ν)}
    (hl : (leaf left).Valid order lo (some separator))
    (hr : (leaf right).Valid order (some separator) hi)
    (hn : left.length + right.length + 1 = 2 * order.leastKeys) :
    ((leaf left).merge separator (leaf right)).ValidChild order lo hi := by
  have hb := order.leastKeys_bounds
  refine ⟨valid_leaf_join hl hr, ?_, ?_⟩ <;>
  · rw [merge_leaf, keyCount_leaf, List.length_append]; omega

theorem validChild_merge_branch {left right : Children κ (Node κ ν level)}
    (hl : (branch left).Valid order lo (some separator))
    (hr : (branch right).Valid order (some separator) hi)
    (hn : left.rest.length + right.rest.length + 1 = 2 * order.leastKeys) :
    ((branch left).merge separator (branch right)).ValidChild order lo hi := by
  have hb := order.leastKeys_bounds
  refine ⟨valid_branch.2 (chained_join hl hr), ?_, ?_⟩ <;>
  · rw [merge_branch, keyCount_branch, List.length_append, List.length_cons]; omega

/-- Two neighbours that are one key short of twice the least number have room in one node. -/
theorem validChild_merge {left right : Node κ ν level}
    (hl : left.Valid order lo (some separator)) (hr : right.Valid order (some separator) hi)
    (hn : left.keyCount + right.keyCount + 1 = 2 * order.leastKeys) :
    (left.merge separator right).ValidChild order lo hi := by
  cases level with
  | zero => exact validChild_merge_leaf hl hr hn
  | succ level => exact validChild_merge_branch hl hr hn

end Neighbours

end Node

/-! ## Repairing -/

namespace Focus

theorem borrowLeft?_cons (least : Nat) (left : Node κ ν level) (separator : κ)
    (before : List (Node κ ν level × κ)) (here : Node κ ν level)
    (after : List (κ × Node κ ν level)) :
    borrowLeft? least ⟨(left, separator) :: before, here, after⟩ =
      if least < left.keyCount then
        some ⟨((left.lendRight separator here).1, (left.lendRight separator here).2.1) :: before,
          (left.lendRight separator here).2.2, after⟩
      else none := rfl

theorem borrowRight?_cons (least : Nat) (before : List (Node κ ν level × κ))
    (here : Node κ ν level) (separator : κ) (right : Node κ ν level)
    (after : List (κ × Node κ ν level)) :
    borrowRight? least ⟨before, here, (separator, right) :: after⟩ =
      if least < right.keyCount then
        some ⟨before, (here.lendLeft separator right).1,
          ((here.lendLeft separator right).2.1, (here.lendLeft separator right).2.2) :: after⟩
      else none := rfl

theorem flat_cons_before (f : Node κ ν level → List (κ × ν)) (left : Node κ ν level)
    (separator : κ) (before : List (Node κ ν level × κ)) (here : Node κ ν level)
    (after : List (κ × Node κ ν level)) :
    flat f ⟨(left, separator) :: before, here, after⟩ =
      before.reverse.flatMap (f ·.1) ++ (f left ++ f here ++ after.flatMap (f ·.2)) := by
  simp [flat]

theorem flat_cons_after (f : Node κ ν level → List (κ × ν)) (before : List (Node κ ν level × κ))
    (here : Node κ ν level) (separator : κ) (right : Node κ ν level)
    (after : List (κ × Node κ ν level)) :
    flat f ⟨before, here, (separator, right) :: after⟩ =
      before.reverse.flatMap (f ·.1) ++ (f here ++ f right ++ after.flatMap (f ·.2)) := by
  simp [flat]

variable [LinearOrder κ] {order : Order} {lo hi : Option κ} {focus : Focus κ (Node κ ν level)}

/-- All children are as they should be but the one in the focus, which is one key short, and it
has a sibling. -/
structure Short (order : Order) (lo hi : Option κ) (focus : Focus κ (Node κ ν level)) : Prop where
  before : ChainedLeft (Node.ValidChild order) lo focus.before
  here : focus.here.Valid order (low lo focus.before) (high hi focus.after)
  after : ChainedRight (Node.ValidChild order) hi focus.after
  short : focus.here.keyCount + 1 = order.leastKeys
  sibling : 1 ≤ focus.before.length + focus.after.length

/-- What a repair comes to: all children are as they should be, the entries are the same, and
there are as many separators as before, or one less after a merge. -/
structure Repaired (order : Order) (lo hi : Option κ) (focus repaired : Focus κ (Node κ ν level)) :
    Prop where
  chained : repaired.Chained (Node.ValidChild order) lo hi
  flat : repaired.flat Node.toList = focus.flat Node.toList
  separators : repaired.before.length + repaired.after.length + 1 =
      focus.before.length + focus.after.length ∨
    repaired.before.length + repaired.after.length = focus.before.length + focus.after.length

theorem Short.borrowLeft? (h : focus.Short order lo hi) {repaired : Focus κ (Node κ ν level)}
    (hr : focus.borrowLeft? order.leastKeys = some repaired) :
    focus.Repaired order lo hi repaired := by
  obtain ⟨before, here, after⟩ := focus
  rcases before with _ | ⟨⟨left, separator⟩, before⟩
  · cases hr
  obtain ⟨⟨hl, hb⟩, hh, ha, hshort, -⟩ := h
  rw [borrowLeft?_cons, Option.ite_none_right_eq_some] at hr
  obtain ⟨hspare, he⟩ := hr
  obtain ⟨hl', hh', hf⟩ := Node.lent_lendRight hl hh hspare hshort
  obtain rfl := Option.some.inj he
  refine ⟨⟨⟨hl', hb⟩, hh', ha⟩, ?_, .inr rfl⟩
  rw [flat_cons_before, flat_cons_before, hf]

theorem Short.borrowRight? (h : focus.Short order lo hi) {repaired : Focus κ (Node κ ν level)}
    (hr : focus.borrowRight? order.leastKeys = some repaired) :
    focus.Repaired order lo hi repaired := by
  obtain ⟨before, here, after⟩ := focus
  rcases after with _ | ⟨⟨separator, right⟩, after⟩
  · cases hr
  obtain ⟨hb, hh, ⟨hn, ha⟩, hshort, -⟩ := h
  rw [borrowRight?_cons, Option.ite_none_right_eq_some] at hr
  obtain ⟨hspare, he⟩ := hr
  obtain ⟨hh', hn', hf⟩ := Node.lent_lendLeft hh hn hspare hshort
  obtain rfl := Option.some.inj he
  refine ⟨⟨hb, hh', hn', ha⟩, ?_, .inr rfl⟩
  rw [flat_cons_after, flat_cons_after, hf]

theorem Short.mergeSibling (h : focus.Short order lo hi)
    (hl : focus.borrowLeft? order.leastKeys = none)
    (hr : focus.borrowRight? order.leastKeys = none) :
    focus.Repaired order lo hi focus.mergeSibling := by
  obtain ⟨before, here, after⟩ := focus
  rcases before with _ | ⟨⟨left, separator⟩, before⟩
  · rcases after with _ | ⟨⟨separator, right⟩, after⟩
    · exact absurd h.sibling (Nat.not_succ_le_zero 0)
    obtain ⟨hb, hh, ⟨hn, ha⟩, hshort, -⟩ := h
    have hspare : ¬ order.leastKeys < right.keyCount := fun hlt => by
      simp [borrowRight?_cons, hlt] at hr
    have hleast := hn.2.1
    have hm := Node.validChild_merge hh hn.1 (by omega)
    refine ⟨⟨hb, hm, ha⟩, ?_, .inl rfl⟩
    rw [Focus.mergeSibling, flat_cons_after, flat, Node.toList_merge]
  · obtain ⟨⟨hn, hb⟩, hh, ha, hshort, -⟩ := h
    have hspare : ¬ order.leastKeys < left.keyCount := fun hlt => by
      simp [borrowLeft?_cons, hlt] at hl
    have hleast := hn.2.1
    have hm := Node.validChild_merge hn.1 hh (by omega)
    refine ⟨⟨hb, hm, ha⟩, ?_, .inl ?_⟩
    · rw [Focus.mergeSibling, flat_cons_before, flat, Node.toList_merge]
    · simp only [Focus.mergeSibling, List.length_cons]; omega

/-- A child that is one key short is repaired. -/
theorem Short.repair (h : focus.Short order lo hi) :
    focus.Repaired order lo hi (focus.repair order.leastKeys) := by
  unfold Focus.repair
  split
  · next hl => exact h.borrowLeft? hl
  · next hl =>
    split
    · next hr => exact h.borrowRight? hr
    · next hr => exact h.mergeSibling hl hr

end Focus

/-! ## Erasing -/

namespace Node

variable [LinearOrder κ] {order : Order} {lo hi : Option κ} {key : κ}

theorem erase?_leaf (least : Nat) (entries : List (κ × ν)) :
    (leaf entries).erase? least key =
      (Leaf.find? key entries).map fun value => (value, leaf (Leaf.erase key entries)) := rfl

theorem erase?_branch (least : Nat) (children : Children κ (Node κ ν level)) :
    (branch children).erase? least key =
      match (Focus.seek key children).here.erase? least key with
      | none => none
      | some (value, child) =>
        let focus := Focus.mk (Focus.seek key children).before child (Focus.seek key children).after
        some (value, branch
          (if child.keyCount < least then focus.repair least else focus).close) := rfl

/-- What erasing a key from a node comes to: the value that was found, and a valid node without
the key that has lost at most one key of its own. -/
structure Erased (order : Order) (lo hi : Option κ) (key : κ) (node : Node κ ν level) (value : ν)
    (erased : Node κ ν level) : Prop where
  found : Leaf.find? key node.toList = some value
  valid : erased.Valid order lo hi
  toList : erased.toList = Leaf.erase key node.toList
  keyCount_le : erased.keyCount ≤ node.keyCount
  le_keyCount : node.keyCount ≤ erased.keyCount + 1

theorem erased_leaf {entries : List (κ × ν)} (h : (leaf entries).Valid order lo hi) {value : ν}
    (hf : Leaf.find? key entries = some value) :
    Erased order lo hi key (leaf entries) value (leaf (Leaf.erase key entries)) := by
  obtain ⟨ha, hs, hw⟩ := valid_leaf.1 h
  have hl : (Leaf.erase key entries).length = _ := Leaf.length_erase key
  rw [hf, Option.isSome_some, if_pos rfl] at hl
  refine ⟨hf, valid_leaf.2 ⟨ha, hs.erase key, fun e he => hw e (Leaf.mem_of_mem_erase key he)⟩, rfl,
    ?_, ?_⟩ <;>
  · rw [keyCount_leaf, keyCount_leaf]; omega

/-- A child that is short is repaired and any other stays, so that all children are again as they
should be. -/
theorem repaired_of_valid {before : List (Node κ ν level × κ)} {here : Node κ ν level}
    {after : List (κ × Node κ ν level)} {least : Nat} (hleast : least = order.leastKeys)
    (hb : Focus.ChainedLeft (ValidChild order) lo before)
    (hh : here.Valid order (Focus.low lo before) (Focus.high hi after))
    (ha : Focus.ChainedRight (ValidChild order) hi after)
    (hn : order.leastKeys ≤ here.keyCount + 1) (hm : here.keyCount < order.val)
    (hsib : 1 ≤ before.length + after.length) :
    Focus.Repaired order lo hi ⟨before, here, after⟩
      (if here.keyCount < least then Focus.repair least ⟨before, here, after⟩
        else ⟨before, here, after⟩) := by
  subst hleast
  split
  · have hs : here.keyCount + 1 = order.leastKeys := by omega
    exact Focus.Short.repair ⟨hb, hh, ha, hs, hsib⟩
  · have hl : order.leastKeys ≤ here.keyCount := by omega
    exact ⟨⟨hb, ⟨hh, hl, hm⟩, ha⟩, rfl, .inr rfl⟩

theorem valid_erase? {node : Node κ ν level} (h : node.Valid order lo hi)
    (hk : Within lo hi key) (hn : level = 0 ∨ 1 ≤ node.keyCount) :
    match node.erase? order.leastKeys key with
    | none => Leaf.find? key node.toList = none
    | some (value, erased) => Erased order lo hi key node value erased := by
  induction node using Node.induction generalizing lo hi with
  | leaf entries =>
    rw [erase?_leaf]
    cases hf : Leaf.find? key entries with
    | none => exact hf
    | some value => exact erased_leaf h hf
  | branch level children ih =>
    obtain ⟨hc, hw⟩ := Focus.chained_seek (valid_branch.1 h) hk
    obtain ⟨hb, ha⟩ := beside hc hw
    obtain ⟨hbefore, hhere, hafter⟩ := hc
    have hchild := ih _ hhere.1 hw (.inr hhere.one_le_keyCount)
    have hlist := toList_close (Focus.seek key children)
    rw [Focus.close_seek] at hlist
    have hfind : Leaf.find? key (branch children).toList =
        Leaf.find? key (Focus.seek key children).here.toList := by
      rw [hlist, Leaf.find?_append_of_lt hb, Leaf.find?_append_of_gt _ ha]
    have hcount := Focus.length_close (Focus.seek key children)
    rw [Focus.close_seek] at hcount
    have hn : 1 ≤ children.rest.length := hn.resolve_left (Nat.succ_ne_zero level)
    rw [erase?_branch]
    cases he : (Focus.seek key children).here.erase? order.leastKeys key with
    | none => rw [he] at hchild; exact hfind.trans hchild
    | some erased =>
      obtain ⟨value, child⟩ := erased
      rw [he] at hchild
      have hr := repaired_of_valid rfl hbefore hchild.valid hafter
        (hhere.2.1.trans hchild.le_keyCount) (hchild.keyCount_le.trans_lt hhere.2.2)
        (hcount ▸ hn)
      refine ⟨hfind.trans hchild.found, valid_branch.2 (Focus.chained_close.2 hr.chained), ?_, ?_, ?_⟩
      · rw [toList_branch, Focus.flat_close, hr.flat, hlist, Leaf.erase_append_of_lt hb,
          Leaf.erase_append_of_gt _ ha, ← hchild.toList]
        rfl
      all_goals
        rw [keyCount_branch, keyCount_branch, Focus.length_close, hcount]
        have := hr.separators
        simp only at this
        omega

end Node

end RelStore.Index
