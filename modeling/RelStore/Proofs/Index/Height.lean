import Mathlib.Data.Nat.Log
import Mathlib.Tactic.Ring
import RelStore.Proofs.Index.Arena.Runs

/-!
# The height of a tree

How many entries a valid node holds is bounded on both sides by its own keys and its level
(`Node.Valid.length_toList`), by induction on the level: each step down multiplies by the number
of children that a node may have at most, or must have at least. The root alone may have fewer,
but a root that is a branch has two children. So a tree has few levels for its entries
(`BPlusTree.Valid.shallow`), which holds for what any operations leave (`runs_shallow`).
-/

namespace RelStore.Index

variable {κ ν α : Type}

/-- As many entries as the levels of a tree have room for, and as many as they need. A node has at
most as many children as the order says, and at least half as many, rounded up. -/
structure Shallow (order entries height : Nat) : Prop where
  most : entries ≤ (order - 1) * order ^ (height - 1)
  least : 2 ≤ height →
    2 * ((order + 1) / 2) ^ (height - 2) * ((order + 1) / 2 - 1) ≤ entries
  /-- Without entries there is no level but that of the root. -/
  emptied : entries = 0 → height = 1
  height_le : height ≤ Nat.log ((order + 1) / 2) entries + 1

/-! ## Children -/

section Children

variable {P : Option κ → Option κ → α → Prop} {f : α → List (κ × ν)} {lo hi : Option κ}
  {least most : Nat}

/-- If each child holds no fewer than `least` and no more than `most`, all of them together hold
so many times the number of children. -/
theorem Children.Chained.length_flat {children : Children κ α} (h : children.Chained P lo hi)
    (hP : ∀ lo hi a, P lo hi a → least ≤ (f a).length ∧ (f a).length ≤ most) :
    (children.rest.length + 1) * least ≤ (children.flat f).length ∧
      (children.flat f).length ≤ (children.rest.length + 1) * most := by
  obtain ⟨first, rest⟩ := children
  induction rest generalizing first lo with
  | nil =>
    have hfirst := hP _ _ _ (Children.chained_nil.1 h)
    simpa [Children.flat] using hfirst
  | cons sibling rest ih =>
    obtain ⟨separator, next⟩ := sibling
    obtain ⟨hf, hr⟩ := Children.chained_cons.1 h
    have hfirst := hP _ _ _ hf
    have hrest := ih next hr
    have hlength : (Children.flat f ⟨first, (separator, next) :: rest⟩).length =
        (f first).length + (Children.flat f ⟨next, rest⟩).length := by
      simp [Children.flat]
    rw [hlength, List.length_cons, Nat.succ_mul, Nat.succ_mul (rest.length + 1)]
    dsimp only at hrest
    omega

end Children

variable [LinearOrder κ] {order : Order} {lo hi : Option κ} {level : Nat}

theorem Order.leastKeys_add_one (order : Order) : order.leastKeys + 1 = (order.val + 1) / 2 := by
  have := order.leastKeys_bounds.1
  unfold leastKeys at *
  omega

/-- A power of a number is no more than twice a smaller one, times one less than the number. -/
theorem pow_succ_le_two_mul {m : Nat} (hm : 2 ≤ m) (n : Nat) :
    m ^ (n + 1) ≤ 2 * m ^ n * (m - 1) := by
  have hdouble : m ≤ 2 * (m - 1) := by omega
  calc m ^ (n + 1) = m ^ n * m := pow_succ m n
    _ ≤ m ^ n * (2 * (m - 1)) := Nat.mul_le_mul_left _ hdouble
    _ = 2 * m ^ n * (m - 1) := by ring

/-! ## Nodes -/

namespace Node

/-- A branch over nodes of some sizes, by its own keys. -/
theorem length_toList_branch {children : Children κ (Node κ ν level)} {least most : Nat}
    (h : (branch children).Valid order lo hi)
    (hn : ∀ lo hi (child : Node κ ν level), child.ValidChild order lo hi →
      least ≤ child.toList.length ∧ child.toList.length ≤ most) :
    ((branch children).keyCount + 1) * least ≤ (branch children).toList.length ∧
      (branch children).toList.length ≤ ((branch children).keyCount + 1) * most := by
  rw [toList_branch, keyCount_branch]
  exact (valid_branch.1 h).length_flat hn

/-- How many entries lie below a node that is not the root. -/
theorem ValidChild.length_toList {node : Node κ ν level} (h : node.ValidChild order lo hi) :
    order.leastKeys * (order.leastKeys + 1) ^ level ≤ node.toList.length ∧
      node.toList.length ≤ (order.val - 1) * order.val ^ level := by
  obtain ⟨hv, hl, hm⟩ := h
  induction node using Node.induction generalizing lo hi with
  | leaf entries =>
    rw [keyCount_leaf] at hl hm
    rw [toList_leaf, pow_zero, pow_zero, Nat.mul_one, Nat.mul_one]
    exact ⟨hl, by omega⟩
  | branch level children ih =>
    have hchildren := length_toList_branch hv fun lo hi child hc => ih child hc.1 hc.2.1 hc.2.2
    constructor
    · calc order.leastKeys * (order.leastKeys + 1) ^ (level + 1)
          = (order.leastKeys + 1) * (order.leastKeys * (order.leastKeys + 1) ^ level) := by ring
        _ ≤ ((branch children).keyCount + 1) * (order.leastKeys * (order.leastKeys + 1) ^ level) :=
            Nat.mul_le_mul_right _ (by omega)
        _ ≤ _ := hchildren.1
    · calc (branch children).toList.length
          ≤ ((branch children).keyCount + 1) * ((order.val - 1) * order.val ^ level) :=
            hchildren.2
        _ ≤ order.val * ((order.val - 1) * order.val ^ level) := Nat.mul_le_mul_right _ hm
        _ = (order.val - 1) * order.val ^ (level + 1) := by ring

/-- How many entries lie below a branch that is a root: it may have fewer keys than others. -/
theorem Valid.length_toList {node : Node κ ν (level + 1)} (h : node.Valid order lo hi) :
    (node.keyCount + 1) * (order.leastKeys * (order.leastKeys + 1) ^ level) ≤
        node.toList.length ∧
      node.toList.length ≤ (node.keyCount + 1) * ((order.val - 1) * order.val ^ level) := by
  have hbranch : (branch node).Valid order lo hi := h
  exact length_toList_branch hbranch fun _ _ _ hc => hc.length_toList

omit [LinearOrder κ] in
/-- A root that is a leaf holds its own keys. -/
theorem shallow_leaf {entries : List (κ × ν)} (hlt : entries.length < order.val) :
    Shallow order.val entries.length 1 := by
  refine ⟨?_, by omega, fun _ => rfl, by omega⟩
  rw [Nat.sub_self, pow_zero, Nat.mul_one]
  exact Nat.le_sub_one_of_lt hlt

/-- A root that is a branch has two children, which no bound on other nodes tells. -/
theorem Valid.shallow_branch {node : Node κ ν (level + 1)} (h : node.Valid order lo hi)
    (hlt : node.keyCount < order.val) (hone : 1 ≤ node.keyCount) :
    Shallow order.val node.toList.length (level + 2) := by
  have hleast := order.leastKeys_add_one
  have hpos := order.leastKeys_bounds.1
  obtain ⟨hlow, hhigh⟩ := h.length_toList
  have hentries : 2 * ((order.val + 1) / 2) ^ level * ((order.val + 1) / 2 - 1) ≤
      node.toList.length := by
    rw [← hleast, Nat.add_sub_cancel]
    calc 2 * (order.leastKeys + 1) ^ level * order.leastKeys
        = 2 * (order.leastKeys * (order.leastKeys + 1) ^ level) := by ring
      _ ≤ (node.keyCount + 1) * (order.leastKeys * (order.leastKeys + 1) ^ level) :=
          Nat.mul_le_mul_right _ (by omega)
      _ ≤ node.toList.length := hlow
  have hpower := (pow_succ_le_two_mul (by omega : 2 ≤ (order.val + 1) / 2) level).trans hentries
  have hsome : 0 < node.toList.length := lt_of_lt_of_le (Nat.pow_pos (by omega)) hpower
  refine ⟨?_, fun _ => hentries, by omega, ?_⟩
  · calc node.toList.length
        ≤ (node.keyCount + 1) * ((order.val - 1) * order.val ^ level) := hhigh
      _ ≤ order.val * ((order.val - 1) * order.val ^ level) := Nat.mul_le_mul_right _ hlt
      _ = (order.val - 1) * order.val ^ (level + 1) := by ring
  · exact Nat.succ_le_succ (Nat.le_log_of_pow_le (by omega) hpower)

end Node

/-! ## Trees -/

theorem BPlusTree.Valid.shallow {tree : BPlusTree κ ν} (h : tree.Valid) :
    Shallow tree.order.val tree.size tree.height := by
  rw [h.size]
  obtain ⟨order, level, root, size⟩ := tree
  obtain ⟨hroot, hlt, hparted, -⟩ := h
  cases level with
  | zero => exact Node.shallow_leaf hlt
  | succ level => exact hroot.shallow_branch hlt (hparted.resolve_left (Nat.succ_ne_zero level))

/-- Any operations on a tree, begun with the empty one of any order, leave a tree with few levels
for its entries. The cells of an arena show so many levels and count so many entries. -/
theorem runs_shallow (order : Order) (operations : List (Operation κ ν)) :
    let tree := (run BPlusTree.step (.empty order) operations).2
    Shallow order.val tree.size tree.height ∧
      ∃ arena, run? Arena.step (.empty order) operations =
          some ((run BPlusTree.step (.empty order) operations).1, arena) ∧
        arena.size = tree.size ∧ arena.height = some tree.height := by
  have hempty : (Arena.empty order : Arena κ ν).Keeps order (.empty order) :=
    ⟨Arena.holds_empty order, BPlusTree.valid_empty order, rfl⟩
  obtain ⟨arena, hrun, hholds, hvalid, horder⟩ :=
    run?_simulation (fun operation _ _ h => h.step operation) operations hempty
  have hshallow := hvalid.shallow
  rw [horder] at hshallow
  exact ⟨hshallow, arena, hrun, hholds.size, hholds.height⟩

end RelStore.Index
