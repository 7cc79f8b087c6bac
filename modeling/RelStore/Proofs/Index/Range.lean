import RelStore.Proofs.Index.Tree

/-!
# Ranges of a valid tree

A range is a walk: it starts in the leaf of its lower bound, which it passes over in part, goes on
through the leaves behind, and stops at the first key behind its upper bound. On a valid tree it is
the part of the entries between the two bounds (`BPlusTree.range_eq_filter`). Both ends come from
one fact on ascending keys: the keys that pass a test which all smaller keys pass as well are those
in front (`Leaf.Ascending.takeWhile_eq_filter`, `Leaf.Ascending.dropWhile_eq_filter`).
-/

namespace RelStore.Index

variable {κ ν : Type} [LinearOrder κ]

namespace Bound

/-- A range that begins here has the key, as far as its beginning is concerned. -/
def Begins : Bound κ → κ → Prop
  | .unbounded, _ => True
  | .included bound, key => bound ≤ key
  | .excluded bound, key => bound < key

/-- A range that ends here has the key, as far as its end is concerned. -/
def Ends : Bound κ → κ → Prop
  | .unbounded, _ => True
  | .included bound, key => key ≤ bound
  | .excluded bound, key => key < bound

instance : (low : Bound κ) → DecidablePred low.Begins
  | .unbounded => fun _ => isTrue trivial
  | .included bound => fun key => inferInstanceAs (Decidable (bound ≤ key))
  | .excluded bound => fun key => inferInstanceAs (Decidable (bound < key))

instance : (high : Bound κ) → DecidablePred high.Ends
  | .unbounded => fun _ => isTrue trivial
  | .included bound => fun key => inferInstanceAs (Decidable (key ≤ bound))
  | .excluded bound => fun key => inferInstanceAs (Decidable (key < bound))

/-- The entries whose keys satisfy both bounds. -/
def between (low high : Bound κ) (entries : List (κ × ν)) : List (κ × ν) :=
  entries.filter fun entry => low.Begins entry.1 ∧ high.Ends entry.1

theorem between_unbounded (entries : List (κ × ν)) :
    between .unbounded .unbounded entries = entries :=
  List.filter_eq_self.2 fun _ _ => decide_eq_true ⟨trivial, trivial⟩

theorem not_passedBy (high : Bound κ) (key : κ) : (!high.passedBy key) = decide (high.Ends key) := by
  cases high with
  | unbounded => exact (decide_eq_true trivial).symm
  | included bound =>
    show (!decide (bound < key)) = decide (key ≤ bound)
    rw [← decide_not, decide_eq_decide, not_lt]
  | excluded bound => exact Bool.not_not _

theorem Ends.of_lt {high : Bound κ} {key smaller : κ} (h : high.Ends key) (hlt : smaller < key) :
    high.Ends smaller := by
  cases high with
  | unbounded => exact trivial
  | included bound => exact hlt.le.trans h
  | excluded bound => exact hlt.trans h

end Bound

/-! ## Ascending entries -/

namespace Leaf.Ascending

variable {entries : List (κ × ν)} {p : κ → Bool}

/-- Entries of ascending keys that pass a test stand in front, if smaller keys pass as well. -/
theorem takeWhile_eq_filter (h : Ascending entries)
    (hp : ∀ key smaller, smaller < key → p key → p smaller) :
    entries.takeWhile (fun entry => p entry.1) = entries.filter fun entry => p entry.1 := by
  induction entries with
  | nil => rfl
  | cons entry rest ih =>
    obtain ⟨hlt, hrest⟩ := ascending_cons.1 h
    rw [List.takeWhile_cons, List.filter_cons, ih hrest]
    cases he : p entry.1 with
    | true => rfl
    | false =>
      have hnone : rest.filter (fun entry => p entry.1) = [] := by
        refine List.filter_eq_nil_iff.2 fun other ho hpo => ?_
        exact Bool.false_ne_true (he.symm.trans (hp other.1 entry.1 (hlt other ho) hpo))
      exact hnone.symm

/-- The others stand behind them. -/
theorem dropWhile_eq_filter (h : Ascending entries)
    (hp : ∀ key smaller, smaller < key → p key → p smaller) :
    entries.dropWhile (fun entry => p entry.1) = entries.filter fun entry => !p entry.1 := by
  induction entries with
  | nil => rfl
  | cons entry rest ih =>
    obtain ⟨hlt, hrest⟩ := ascending_cons.1 h
    rw [List.dropWhile_cons, List.filter_cons, ih hrest]
    cases he : p entry.1 with
    | true => rfl
    | false =>
      have hall : rest.filter (fun entry => !p entry.1) = rest := by
        refine List.filter_eq_self.2 fun other ho => ?_
        have hn : ¬ p other.1 := fun hpo =>
          Bool.false_ne_true (he.symm.trans (hp other.1 entry.1 (hlt other ho) hpo))
        simpa using hn
      exact congrArg (entry :: ·) hall.symm

end Leaf.Ascending

/-! ## The beginning of a range -/

/-- A scan from the leaf of a key on, without what it skips there, has all entries that it does not
skip: those beside the leaf lie on their side of the key. -/
theorem Node.scanFrom_eq_filter {order : Order} {lo hi : Option κ} {level : Nat}
    {node : Node κ ν level} (h : node.Valid order lo hi) {key : κ} (hk : Within lo hi key)
    (skip : κ → Bool) (hbelow : ∀ k < key, skip k) (habove : ∀ k, key < k → ¬ skip k) :
    node.scanFrom key skip = node.toList.filter fun entry => !skip entry.1 := by
  have hs : ∀ k smaller, smaller < k → skip k → skip smaller := fun k smaller hlt hk =>
    hbelow smaller (hlt.trans_le (not_lt.1 fun hkey => habove k hkey hk))
  induction node using Node.induction generalizing lo hi with
  | leaf entries => exact (valid_leaf.1 h).2.1.dropWhile_eq_filter hs
  | branch level children ih =>
    obtain ⟨hc, hw⟩ := Focus.chained_seek (valid_branch.1 h) hk
    obtain ⟨hb, ha⟩ := beside hc hw
    have hbefore := List.filter_eq_nil_iff (p := fun entry : κ × ν => !skip entry.1).2
      fun e he => by simpa using hbelow e.1 (hb e he)
    have hafter := List.filter_eq_self (p := fun entry : κ × ν => !skip entry.1).2
      fun e he => by simpa using habove e.1 (ha e he)
    rw [scanFrom_branch, ih _ hc.2.1.1 hw, ← Focus.close_seek key children, toList_close,
      Focus.close_seek, List.filter_append, List.filter_append, hbefore, hafter, List.nil_append]

/-! ## Ranges -/

namespace BPlusTree

variable {tree : BPlusTree κ ν}

/-- A range of a valid tree is the part of its entries between the bounds. -/
theorem range_eq_filter (h : tree.Valid) (low high : Bound κ) :
    tree.range low high = low.between high tree.toList := by
  have hend : ∀ key smaller, smaller < key → decide (high.Ends key) → decide (high.Ends smaller) := by
    intro key smaller hlt he
    rw [decide_eq_true_iff] at he ⊢
    exact he.of_lt hlt
  -- What is left of the entries at the beginning, whichever way the range begins.
  have hcut : ∀ begun : κ → Bool, (∀ key, begun key = decide (low.Begins key)) →
      (tree.toList.filter fun entry => begun entry.1).takeWhile
        (fun entry => !high.passedBy entry.1) = low.between high tree.toList := by
    intro begun hb
    have hasc : Leaf.Ascending (tree.toList.filter fun entry => begun entry.1) :=
      h.ascending.sublist List.filter_sublist
    simp only [Bound.not_passedBy]
    rw [hasc.takeWhile_eq_filter hend, List.filter_filter, Bound.between]
    refine List.filter_congr fun entry _ => ?_
    rw [hb, Bool.and_comm, Bool.decide_and]
  cases low with
  | unbounded =>
    have hall := hcut (fun _ => true) fun _ => (decide_eq_true trivial).symm
    rwa [List.filter_eq_self.2 fun _ _ => rfl] at hall
  | included bound =>
    have hfrom := Node.scanFrom_eq_filter h.root (within_none bound) (fun k => k < bound)
      (fun _ hk => decide_eq_true hk) (fun _ hk hs => hk.asymm (of_decide_eq_true hs))
    refine (congrArg (List.takeWhile _) hfrom).trans (hcut (fun k => !decide (k < bound)) ?_)
    intro key
    rw [← decide_not, decide_eq_decide, not_lt]
    exact Iff.rfl
  | excluded bound =>
    have hfrom := Node.scanFrom_eq_filter h.root (within_none bound) (fun k => !decide (bound < k))
      (fun _ hk => by simpa using hk.le) (fun _ hk hs => by simp [hk] at hs)
    exact (congrArg (List.takeWhile _) hfrom).trans
      (hcut (fun k => !!decide (bound < k)) fun _ => Bool.not_not _)

end BPlusTree

end RelStore.Index
