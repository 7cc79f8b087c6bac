import Mathlib.Data.List.Induction
import RelStore.Proofs.Index.Arena.Search

/-!
# Scanning in an arena

A scan goes through the leaves by their links alone. What it still has to go through is told by a
place in a leaf and a list of entries: backward (`Behind`), or forward up to the end of a range
(`Ahead`). Such a list can be read off the pieces of a tree, from the end of the last one
(`behind_pieces`) or from any place on (`ahead_cut`), and it is what a scan returns
(`scanBack_behind`, `scan_ahead`).
-/

namespace RelStore.Index

variable {κ ν : Type} {level : Nat}

theorem Node.toListReversed_eq (node : Node κ ν level) :
    node.toListReversed = node.toList.reverse := by
  induction node using Node.induction with
  | leaf entries => rfl
  | branch level children ih =>
    show children.rest.reverse.flatMap (·.2.toListReversed) ++ children.first.toListReversed = _
    simp only [ih, Node.toList_branch, Children.flat, List.reverse_append, List.reverse_flatMap]
    rfl

namespace Heap

open NodeId

open Placed (leaf)

variable {h : Heap κ ν} {id : NodeId} {prev next : Option NodeId}

/-! ## Backward -/

/-- The entries before a place, the nearest one first: the front of its leaf, and then the leaf in
front of it. -/
inductive Behind (h : Heap κ ν) : Option NodeId → Nat → List (κ × ν) → Prop
  | ended (index : Nat) : Behind h none index []
  | inside {id : NodeId} {prev next : Option NodeId} {lower upper rest : List (κ × ν)} {index : Nat}
    (hget : h.get? id = some (.leaf ((lower ++ upper).map Prod.fst)
      ((lower ++ upper).map Prod.snd) prev next))
    (hindex : (prev.elim (pure 0) keyCountAt : Run κ ν Nat) h = some (index, h))
    (hprev : Behind h prev index rest) : Behind h (some id) lower.length (lower.reverse ++ rest)

theorem scanBack_behind {start : Option NodeId} {index : Nat} {entries : List (κ × ν)}
    (hb : Behind h start index entries) :
    (start.elim (pure []) fun id => scanBack id index : Run κ ν _) h = some (entries, h) := by
  induction hb with
  | ended index => rfl
  | @inside id prev next lower upper rest index hget hindex hprev ih =>
    rw [Option.elim_some]
    induction lower using List.reverseRecOn generalizing upper with
    | nil =>
      rw [scanBack, run_bind (node_eq hget)]
      cases prev with
      | none => exact ih
      | some prev => exact (run_bind hindex _).trans ih
    | append_singleton lower entry ihl =>
      rw [List.append_assoc] at hget
      have hkey : ((lower ++ ([entry] ++ upper)).map Prod.fst)[lower.length]? = some entry.1 := by
        simp
      have hvalue : ((lower ++ ([entry] ++ upper)).map Prod.snd)[lower.length]? = some entry.2 := by
        simp
      rw [List.length_append, List.length_singleton, scanBack, run_bind (node_eq hget)]
      dsimp only
      rw [run_lift hkey, run_lift hvalue, run_bind (ihl hget), List.reverse_concat]
      rfl

/-- What stands before the end of the last of some leaves. -/
theorem behind_pieces {pieces : List (NodeId × List (κ × ν))}
    (hl : ∀ piece ∈ pieces, (leaf piece.1 piece.2).LiesIn h.content)
    (hc : Linked h.links none (pieces.map Prod.fst) next) :
    ∃ index, ((pieces.map Prod.fst).getLast?.elim (pure 0) keyCountAt : Run κ ν Nat) h =
        some (index, h) ∧
      Behind h (pieces.map Prod.fst).getLast? index (pieces.flatMap Prod.snd).reverse := by
  induction pieces using List.reverseRecOn generalizing next with
  | nil => exact ⟨0, rfl, .ended 0⟩
  | append_singleton pieces piece ih =>
    obtain ⟨id, entries⟩ := piece
    rw [List.forall_mem_append, List.forall_mem_singleton] at hl
    rw [List.map_append, Linked.append] at hc
    obtain ⟨hbefore, hlinks, -⟩ := hc
    obtain ⟨index, hindex, hbehind⟩ := ih hl.1 hbefore
    have hget := get?_of_leaf_links (Placed.liesIn_leaf.1 hl.2) hlinks
    rw [Option.or_none] at hget
    have hcount : keyCountAt id h = some (entries.length, h) := by
      rw [keyCountAt, run_bind (node_eq hget)]
      dsimp only
      rw [List.length_map]
      rfl
    rw [List.map_append, List.map_singleton, List.getLast?_concat, Option.elim_some,
      List.flatMap_append, List.flatMap_singleton, List.reverse_append]
    rw [← List.append_nil entries] at hget
    exact ⟨entries.length, hcount, .inside hget hindex hbehind⟩

/-! ## Forward -/

variable [LT κ] [DecidableLT κ] {high : Bound κ}

/-- The entries from a place on, up to the end of a range: what is left of its leaf, and then the
leaf behind it. -/
inductive Ahead (h : Heap κ ν) (high : Bound κ) : Option NodeId → Nat → List (κ × ν) → Prop
  | ended (index : Nat) : Ahead h high none index []
  | inside {id : NodeId} {prev next : Option NodeId} (lower : List (κ × ν))
    {upper rest : List (κ × ν)}
    (hget : h.get? id = some (.leaf ((lower ++ upper).map Prod.fst)
      ((lower ++ upper).map Prod.snd) prev next))
    (hnext : Ahead h high next 0 (rest.takeWhile fun entry => !high.passedBy entry.1)) :
    Ahead h high (some id) lower.length
      ((upper ++ rest).takeWhile fun entry => !high.passedBy entry.1)

theorem scan_ahead {start : Option NodeId} {index : Nat} {entries : List (κ × ν)}
    (ha : Ahead h high start index entries) :
    (start.elim (pure []) fun id => scan high id index : Run κ ν _) h = some (entries, h) := by
  induction ha with
  | ended index => rfl
  | @inside id prev next lower upper rest hget hnext ih =>
    rw [Option.elim_some]
    induction upper generalizing lower with
    | nil =>
      have hend : ¬ lower.length < ((lower ++ []).map Prod.fst).length := by simp
      rw [scan, run_bind (node_eq hget)]
      dsimp only
      rw [if_neg hend]
      cases next <;> exact ih
    | cons entry upper ihu =>
      have hkey : ((lower ++ entry :: upper).map Prod.fst)[lower.length]? = some entry.1 := by simp
      have hvalue : ((lower ++ entry :: upper).map Prod.snd)[lower.length]? = some entry.2 := by simp
      have hlt : lower.length < ((lower ++ entry :: upper).map Prod.fst).length := by simp
      rw [scan, run_bind (node_eq hget)]
      dsimp only
      rw [if_pos hlt, run_lift hkey, List.cons_append]
      by_cases hp : high.passedBy entry.1
      · rw [if_pos hp, List.takeWhile_cons_of_neg (by simpa using hp)]
        rfl
      · have hi := ihu (lower ++ [entry]) (by simpa using hget)
        rw [List.length_append, List.length_singleton] at hi
        rw [if_neg hp, run_lift hvalue, run_bind hi, List.takeWhile_cons_of_pos (by simpa using hp)]
        rfl

/-- What stands behind the beginning of the first of some leaves. -/
theorem ahead_pieces (high : Bound κ) {pieces : List (NodeId × List (κ × ν))}
    (hl : ∀ piece ∈ pieces, (leaf piece.1 piece.2).LiesIn h.content)
    (hc : Linked h.links prev (pieces.map Prod.fst) none) :
    Ahead h high (pieces.map Prod.fst).head? 0
      ((pieces.flatMap Prod.snd).takeWhile fun entry => !high.passedBy entry.1) := by
  induction pieces generalizing prev with
  | nil => exact .ended 0
  | cons piece pieces ih =>
    obtain ⟨id, entries⟩ := piece
    rw [List.forall_mem_cons] at hl
    obtain ⟨hlinks, hrest⟩ := hc
    rw [Option.or_none] at hlinks
    have hget := get?_of_leaf_links (Placed.liesIn_leaf.1 hl.1) hlinks
    exact .inside [] hget (ih hl.2 hrest)

/-- What stands behind a place in one of the leaves of a tree. -/
theorem ahead_cut (high : Bound κ) {placed : Placed κ ν level} (hl : placed.LiesIn h.content)
    (hc : Linked h.links none placed.leaves none) {lower upper : List (NodeId × List (κ × ν))}
    {passed rest : List (κ × ν)}
    (hp : placed.pieces = lower ++ (id, passed ++ rest) :: upper) :
    Ahead h high (some id) passed.length
      ((rest ++ upper.flatMap Prod.snd).takeWhile fun entry => !high.passedBy entry.1) := by
  have hpieces := hl.pieces
  rw [hp, List.forall_mem_append, List.forall_mem_cons] at hpieces
  rw [← Placed.map_fst_pieces, hp, List.map_append, List.map_cons, Linked.middle] at hc
  exact .inside passed (get?_of_leaf_links (Placed.liesIn_leaf.1 hpieces.2.1) hc.2.1)
    (ahead_pieces high hpieces.2.2 hc.2.2)

/-- A place in the leaf for a key cuts the entries of the tree. -/
theorem startAt_spec {κ : Type} [LinearOrder κ] {h : Heap κ ν} {order : Order} {lo hi : Option κ}
    {key : κ} {placed : Placed κ ν level} (hl : placed.LiesIn h.content) (hn : placed.ids.Nodup)
    (hv : placed.node.Valid order lo hi) (hk : Within lo hi key) (skip : κ → Bool) :
    ∃ id lower passed rest upper, startAt key skip placed.root h = some ((id, passed.length), h) ∧
      placed.pieces = lower ++ (id, passed ++ rest) :: upper ∧
      placed.node.scanFrom key skip = rest ++ upper.flatMap Prod.snd := by
  obtain ⟨id, entries, hrun, hfor⟩ := leafFor_spec hl hn hv hk
  obtain ⟨prev, next, hget⟩ := get?_of_leaf (Placed.liesIn_leaf.1 hfor.lies)
  obtain ⟨lower, upper, hp, hscan⟩ := hfor.cut
  refine ⟨id, lower, entries.takeWhile fun entry => skip entry.1,
    entries.dropWhile fun entry => skip entry.1, upper, ?_, ?_, hscan skip⟩
  · rw [startAt, run_bind hrun, run_bind (node_eq hget)]
    dsimp only
    rw [List.takeWhile_map, List.length_map]
    rfl
  · rw [List.takeWhile_append_dropWhile, hp]

end Heap

end RelStore.Index
