import RelStore.Proofs.Index.Tree

/-!
# The shape of a tree

The arrangement of the keys of a valid tree is balanced: `Shape.Balanced` says so of all nodes
below a root, whatever way down leads there (`Shape.Below`). What a node below a valid one has is
told by `Node.Fits`, of which `Node.Valid.fits` carries the bounds along.
-/

namespace RelStore.Index

variable {κ ν : Type}

namespace Shape

/-- The keys of the node itself. -/
def keys : Shape κ → List κ
  | leaf keys => keys
  | branch separators _ => separators

/-- A node, so many steps down from another. -/
inductive Below : Shape κ → Nat → Shape κ → Prop where
  | refl (node : Shape κ) : Below node 0 node
  | step {separators : List κ} {children : List (Shape κ)} {child node : Shape κ} {depth : Nat} :
    child ∈ children → Below child depth node → Below (branch separators children) (depth + 1) node

theorem Below.eq {root node : Shape κ} (h : root.Below 0 node) : node = root := by
  cases h
  rfl

theorem below_branch {separators : List κ} {children : List (Shape κ)} {depth : Nat}
    {node : Shape κ} (h : (branch separators children).Below depth node) :
    (depth = 0 ∧ node = branch separators children) ∨
      ∃ child ∈ children, ∃ below, depth = below + 1 ∧ child.Below below node := by
  cases h with
  | refl => exact .inl ⟨rfl, rfl⟩
  | step hm hb => exact .inr ⟨_, hm, _, rfl, hb⟩

/-- Every key on the left of a separator is smaller, and every key on its right is not. -/
def Parted [LT κ] [LE κ] (separators : List κ) (children : List (Shape κ)) : Prop :=
  ∀ (i j : Nat) (separator : κ) (child : Shape κ), separators[i]? = some separator →
    children[j]? = some child → ∀ (depth : Nat) (node : Shape κ), child.Below depth node →
      ∀ key ∈ node.keys, (j ≤ i → key < separator) ∧ (i < j → separator ≤ key)

/-- What the operations of a tree of this order keep up for all nodes below the root. -/
structure Balanced [LT κ] [LE κ] (order height : Nat) (root : Shape κ) : Prop where
  /-- All leaves are at one depth. -/
  level : ∀ depth keys, root.Below depth (.leaf keys) → depth + 1 = height
  ascending : ∀ depth node, root.Below depth node → node.keys.Pairwise (· < ·)
  children : ∀ depth separators children, root.Below depth (.branch separators children) →
    children.length = separators.length + 1 ∧ Parted separators children
  most : ∀ depth node, root.Below depth node → node.keys.length ≤ order - 1
  /-- Every node but the root has at least half as many children as the order allows. -/
  least : ∀ depth node, root.Below (depth + 1) node → (order + 1) / 2 - 1 ≤ node.keys.length
  root : ∀ separators children, root = .branch separators children → 1 ≤ separators.length

end Shape

namespace Node

variable {level : Nat}

theorem shape_branch (children : Children κ (Node κ ν level)) :
    (branch children).shape = .branch children.separators (children.items.map shape) := by
  refine congrArg (Shape.branch _) ?_
  rw [Children.items, List.map_cons, List.map_map]
  rfl

theorem length_keys_shape (node : Node κ ν level) : node.shape.keys.length = node.keyCount := by
  induction node using Node.induction with
  | leaf entries => exact List.length_map _
  | branch level children _ => exact List.length_map _

variable [LinearOrder κ] {order : Order} {lo hi : Option κ}

/-- What is known of a node that lies so many steps below a valid one. -/
structure Fits (order : Order) (level : Nat) (lo hi : Option κ) (depth : Nat) (shape : Shape κ) :
    Prop where
  ascending : shape.keys.Pairwise (· < ·)
  within : ∀ key ∈ shape.keys, Within lo hi key
  leaf : ∀ keys, shape = .leaf keys → depth = level
  branch : ∀ separators children, shape = .branch separators children →
    children.length = separators.length + 1 ∧ Shape.Parted separators children
  size : 0 < depth → order.leastKeys ≤ shape.keys.length ∧ shape.keys.length < order.val

theorem fits_leaf {entries : List (κ × ν)} (h : (Node.leaf entries).Valid order lo hi) :
    Fits order 0 lo hi 0 (Node.leaf entries).shape := by
  obtain ⟨-, ha, hw⟩ := valid_leaf.1 h
  refine ⟨List.pairwise_map.2 ha, List.forall_mem_map.2 hw, fun _ _ => rfl, ?_, ?_⟩
  · intro separators children he
    cases he
  · exact fun hlt => absurd hlt (Nat.lt_irrefl 0)

theorem Valid.fits {node : Node κ ν level} (h : node.Valid order lo hi) {depth : Nat}
    {shape : Shape κ} (hb : node.shape.Below depth shape) :
    Fits order level lo hi depth shape := by
  induction node using Node.induction generalizing lo hi depth shape with
  | leaf entries =>
    cases hb
    exact fits_leaf h
  | branch level children ih =>
    have hP : ∀ lo hi (c : Node κ ν level), c.ValidChild order lo hi → Apart lo hi :=
      fun _ _ _ hc => hc.1.apart
    have hc := valid_branch.1 h
    rw [shape_branch] at hb
    rcases Shape.below_branch hb with ⟨rfl, rfl⟩ | ⟨shape', hm, depth, rfl, hb⟩
    · obtain ⟨hs, hw⟩ := hc.separators hP
      refine ⟨hs, fun key hm => ?_, fun keys he => (by cases he), ?_, ?_⟩
      · exact ⟨fun a ha => ((hw key hm).1 a ha).le, (hw key hm).2⟩
      · rintro separators shapes he
        cases he
        refine ⟨by simp [Children.items, Children.separators], fun i j s c hs hj => ?_⟩
        rw [List.getElem?_map, Option.map_eq_some_iff] at hj
        obtain ⟨child, hj, rfl⟩ := hj
        obtain ⟨lo', hi', hchild, hkeys⟩ := hc.child hP hj
        intro depth node hb key hm
        exact (hkeys key ((ih child hchild.1 hb).within key hm)).2 i s hs
      · exact fun hlt => absurd hlt (Nat.lt_irrefl 0)
    · obtain ⟨child, hmem, rfl⟩ := List.mem_map.1 hm
      obtain ⟨j, hj⟩ := List.mem_iff_getElem?.1 hmem
      obtain ⟨lo', hi', hchild, hkeys⟩ := hc.child hP hj
      have hf := ih child hchild.1 hb
      refine ⟨hf.ascending, fun key hk => (hkeys key (hf.within key hk)).1,
        fun keys he => congrArg (· + 1) (hf.leaf keys he), hf.branch, fun _ => ?_⟩
      rcases Nat.eq_zero_or_pos depth with rfl | hpos
      · rw [hb.eq, length_keys_shape]
        exact hchild.2
      · exact hf.size hpos

end Node

/-- The shape of a valid tree is balanced. -/
theorem BPlusTree.Valid.balanced [LinearOrder κ] {tree : BPlusTree κ ν} (h : tree.Valid) :
    tree.shape.Balanced tree.order.val tree.height := by
  have hf {depth : Nat} {node : Shape κ} (hb : tree.shape.Below depth node) := h.root.fits hb
  refine ⟨fun depth keys hb => ?_, fun depth node hb => (hf hb).ascending,
    fun depth separators children hb => (hf hb).branch _ _ rfl, fun depth node hb => ?_,
    fun depth node hb => ((hf hb).size (Nat.succ_pos depth)).1, fun separators children he => ?_⟩
  · exact congrArg (· + 1) ((hf hb).leaf keys rfl)
  · refine Nat.le_sub_one_of_lt ?_
    rcases Nat.eq_zero_or_pos depth with rfl | hpos
    · rw [hb.eq]
      exact (Node.length_keys_shape tree.root).trans_lt h.keyCount_lt
    · exact ((hf hb).size hpos).2
  · obtain ⟨order, level, root, size⟩ := tree
    rcases h.parted with rfl | hparted
    · cases he
    · have hkeys := Node.length_keys_shape root
      rw [show root.shape = .branch separators children from he] at hkeys
      exact hparted.trans_eq hkeys.symm

end RelStore.Index
