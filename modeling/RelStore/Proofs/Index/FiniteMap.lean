import Mathlib.Data.Finmap
import Mathlib.Order.Bounds.Basic
import RelStore.Proofs.Index.Tree
import RelStore.Proofs.Run

/-!
# Trees as finite maps

A run of operations on a tree, from the empty one on, gives the answers that the same operations
give on a finite map, and leaves a tree that represents the map: `runs_as_finite_map`. The
entries in their order carry the proof: they are ascending, and what is found under a key is what
the map has there (`Agrees`).
-/

namespace RelStore.Index

variable {κ ν : Type} [LinearOrder κ]

/-- What can be done to a map. -/
inductive Operation (κ ν : Type) where
  | insert (key : κ) (value : ν)
  | remove (key : κ)
  | delete (key : κ)
  /-- Applies a function to the value of a key, where the key occurs. -/
  | modify (key : κ) (f : ν → ν)

/-- The answer to an operation. -/
inductive Answer (ν : Type) where
  /-- The value that the key had before, if it had one. -/
  | value (before : Option ν)
  /-- Whether the key occurred. -/
  | present (b : Bool)

/-- An operation on a tree. -/
def BPlusTree.step (tree : BPlusTree κ ν) : Operation κ ν → Answer ν × BPlusTree κ ν
  | .insert key value => ((tree.insert key value).map .value id)
  | .remove key => (tree.erase key).map .value id
  | .delete key => (tree.erase key).map (.present ·.isSome) id
  | .modify key f => (.value (tree.find? key), tree.modify key f)

/-- Finitely many keys, each with its value. -/
abbrev FiniteMap (κ ν : Type) := Finmap fun _ : κ => ν

namespace FiniteMap

/-- An operation on a finite map. -/
def step (map : FiniteMap κ ν) : Operation κ ν → Answer ν × FiniteMap κ ν
  | .insert key value => (.value (map.lookup key), map.insert key value)
  | .remove key => (.value (map.lookup key), map.erase key)
  | .delete key => (.present (key ∈ map), map.erase key)
  | .modify key f =>
    match map.lookup key with
    | some value => (.value (some value), map.insert key (f value))
    | none => (.value none, map)

theorem lookup_insert_eq (map : FiniteMap κ ν) (key other : κ) (value : ν) :
    (map.insert key value).lookup other = if other = key then some value else map.lookup other := by
  split_ifs with h
  · rw [h, Finmap.lookup_insert]
  · exact Finmap.lookup_insert_of_ne _ h

theorem lookup_erase_eq (map : FiniteMap κ ν) (key other : κ) :
    (map.erase key).lookup other = if other = key then none else map.lookup other := by
  split_ifs with h
  · rw [h, Finmap.lookup_erase]
  · exact Finmap.lookup_erase_ne h

end FiniteMap

/-- What a tree tells is what the map holds. -/
structure Represents (tree : BPlusTree κ ν) (map : FiniteMap κ ν) : Prop where
  find? : ∀ key, tree.find? key = map.lookup key
  contains : ∀ key, tree.contains key = true ↔ key ∈ map
  size : tree.size = map.keys.card
  isEmpty : tree.isEmpty = true ↔ map = ∅
  firstKey? : ∀ key, tree.firstKey? = some key ↔ IsLeast (map.keys : Set κ) key
  lastKey? : ∀ key, tree.lastKey? = some key ↔ IsGreatest (map.keys : Set κ) key

/-- A valid tree whose entries are those of the map. -/
def Agrees (tree : BPlusTree κ ν) (map : FiniteMap κ ν) : Prop :=
  tree.Valid ∧ ∀ key, Leaf.find? key tree.toList = map.lookup key

theorem BPlusTree.Valid.keys_ascending {tree : BPlusTree κ ν} (h : tree.Valid) :
    (tree.toList.map Prod.fst).Pairwise (· < ·) :=
  List.pairwise_map.2 h.ascending

theorem head?_eq_some_iff_isLeast {keys : List κ} (h : keys.Pairwise (· < ·)) {key : κ} :
    keys.head? = some key ↔ IsLeast {k | k ∈ keys} key := by
  cases keys with
  | nil => simp [IsLeast]
  | cons first rest =>
    have hl : IsLeast {k | k ∈ first :: rest} first :=
      ⟨List.mem_cons_self, List.forall_mem_cons.2 ⟨le_rfl, fun k hk => (List.rel_of_pairwise_cons h hk).le⟩⟩
    rw [List.head?_cons, Option.some.injEq]
    exact ⟨fun he => he ▸ hl, hl.unique⟩

theorem getLast?_eq_some_iff_isGreatest {keys : List κ} (h : keys.Pairwise (· < ·)) {key : κ} :
    keys.getLast? = some key ↔ IsGreatest {k | k ∈ keys} key := by
  rcases List.eq_nil_or_concat' keys with rfl | ⟨lower, last, rfl⟩
  · simp [IsGreatest]
  · have hl : IsGreatest {k | k ∈ lower ++ [last]} last := by
      refine ⟨by simp, List.forall_mem_append.2 ⟨fun k hk => ?_, by simp⟩⟩
      exact ((List.pairwise_append.1 h).2.2 k hk last (by simp)).le
    rw [List.getLast?_concat, Option.some.injEq]
    exact ⟨fun he => he ▸ hl, hl.unique⟩

namespace Agrees

variable {tree : BPlusTree κ ν} {map : FiniteMap κ ν}

theorem step (h : Agrees tree map) (operation : Operation κ ν) :
    (tree.step operation).1 = (FiniteMap.step map operation).1 ∧
      Agrees (tree.step operation).2 (FiniteMap.step map operation).2 := by
  obtain ⟨hv, hf⟩ := h
  have ha := hv.ascending
  have herase : ∀ key, Agrees (tree.erase key).2 (map.erase key) := fun key => by
    refine ⟨hv.erase key, fun other => ?_⟩
    rw [BPlusTree.toList_erase key hv, Leaf.find?_erase key ha, FiniteMap.lookup_erase_eq, hf]
  cases operation with
  | insert key value =>
    refine ⟨congrArg Answer.value ((BPlusTree.insert_fst key hv value).trans (hf key)),
      hv.insert key value, fun other => ?_⟩
    show Leaf.find? other (tree.insert key value).2.toList = (map.insert key value).lookup other
    rw [BPlusTree.toList_insert key hv, Leaf.find?_insert key value ha,
      FiniteMap.lookup_insert_eq, hf]
  | remove key =>
    exact ⟨congrArg Answer.value ((BPlusTree.erase_fst key hv).trans (hf key)), herase key⟩
  | delete key =>
    refine ⟨congrArg Answer.present ?_, herase key⟩
    show (tree.erase key).1.isSome = decide (key ∈ map)
    rw [BPlusTree.erase_fst key hv, hf, Bool.eq_iff_iff, decide_eq_true_eq, Finmap.lookup_isSome]
  | modify key f =>
    have hfind : tree.find? key = map.lookup key := (BPlusTree.find?_eq key hv).trans (hf key)
    have hother : ∀ other, Leaf.find? other (tree.modify key f).toList =
        if other = key then (map.lookup key).map f else map.lookup other := fun other => by
      rw [BPlusTree.toList_modify key hv, Leaf.find?_modify key f ha, hf, hf]
    show (Answer.value (tree.find? key)) = _ ∧ Agrees (tree.modify key f) _
    rw [FiniteMap.step, hfind]
    cases hl : map.lookup key with
    | none =>
      refine ⟨rfl, hv.modify key f, fun other => ?_⟩
      rw [hother, hl]
      split_ifs with he
      · rw [he, hl]; rfl
      · rfl
    | some value =>
      refine ⟨rfl, hv.modify key f, fun other => ?_⟩
      rw [hother, hl, FiniteMap.lookup_insert_eq]
      rfl

theorem mem_keys_iff (h : Agrees tree map) {key : κ} :
    key ∈ map.keys ↔ key ∈ tree.toList.map Prod.fst := by
  rw [Finmap.mem_keys, Finmap.mem_iff, List.mem_map]
  constructor
  · rintro ⟨value, hl⟩
    exact ⟨(key, value), (Leaf.find?_eq_some_iff key h.1.ascending).1 ((h.2 key).trans hl), rfl⟩
  · rintro ⟨⟨key, value⟩, hm, rfl⟩
    exact ⟨value, (h.2 key).symm.trans ((Leaf.find?_eq_some_iff key h.1.ascending).2 hm)⟩

theorem size_eq (h : Agrees tree map) : tree.size = map.keys.card := by
  have hs : (tree.toList.map Prod.fst).Nodup := h.1.keys_ascending.imp fun hlt => hlt.ne
  have he : map.keys = (tree.toList.map Prod.fst).toFinset := by
    ext key
    rw [h.mem_keys_iff, List.mem_toFinset]
  rw [he, List.toFinset_card_of_nodup hs, List.length_map, h.1.size]

theorem isEmpty_iff (h : Agrees tree map) : tree.isEmpty = true ↔ map = ∅ := by
  rw [BPlusTree.isEmpty, beq_iff_eq, h.size_eq, Finset.card_eq_zero]
  refine ⟨fun he => Finmap.ext_lookup fun key => ?_, fun he => he ▸ Finmap.keys_empty⟩
  rw [Finmap.lookup_empty, Finmap.lookup_eq_none, ← Finmap.mem_keys, he]
  exact Finset.notMem_empty key

theorem isLeast_iff (h : Agrees tree map) {key : κ} :
    tree.firstKey? = some key ↔ IsLeast (map.keys : Set κ) key := by
  have hk : ∀ key, key ∈ tree.toList.map Prod.fst ↔ key ∈ (map.keys : Set κ) := fun _ =>
    h.mem_keys_iff.symm
  rw [BPlusTree.firstKey?_eq h.1, ← List.head?_map, head?_eq_some_iff_isLeast h.1.keys_ascending]
  simp only [hk, Set.ofPred_mem_eq]

theorem isGreatest_iff (h : Agrees tree map) {key : κ} :
    tree.lastKey? = some key ↔ IsGreatest (map.keys : Set κ) key := by
  have hk : ∀ key, key ∈ tree.toList.map Prod.fst ↔ key ∈ (map.keys : Set κ) := fun _ =>
    h.mem_keys_iff.symm
  rw [BPlusTree.lastKey?_eq h.1, ← List.getLast?_map,
    getLast?_eq_some_iff_isGreatest h.1.keys_ascending]
  simp only [hk, Set.ofPred_mem_eq]

theorem represents (h : Agrees tree map) : Represents tree map where
  find? key := (BPlusTree.find?_eq key h.1).trans (h.2 key)
  contains key := by
    rw [BPlusTree.contains, BPlusTree.find?_eq key h.1, h.2, Finmap.lookup_isSome]
  size := h.size_eq
  isEmpty := h.isEmpty_iff
  firstKey? _ := h.isLeast_iff
  lastKey? _ := h.isGreatest_iff

end Agrees

/-- Any operations on a tree, begun with the empty one of any order, are answered as on a finite
map, and the tree then tells what the map holds. -/
theorem runs_as_finite_map (order : Order) (operations : List (Operation κ ν)) :
    (run BPlusTree.step (.empty order) operations).1 =
        (run FiniteMap.step (∅ : FiniteMap κ ν) operations).1 ∧
      Represents (run BPlusTree.step (.empty order) operations).2
        (run FiniteMap.step (∅ : FiniteMap κ ν) operations).2 := by
  have h : Agrees (.empty order : BPlusTree κ ν) ∅ :=
    ⟨BPlusTree.valid_empty order, fun _ => rfl⟩
  have hr := run_simulation (R := fun _ tree map => Agrees tree map)
    (fun operation _ _ _ h => h.step operation) operations h
  exact ⟨hr.1, hr.2.represents⟩

end RelStore.Index
