import RelStore.Proofs.Index.Arena.Layout

/-!
# Two neighbours in an arena

Borrowing and merging work on two neighbouring children of a branch. They touch three cells and
leave everything below the neighbours as it is: `Placed.inner` are the indices there, and
`Placed.LiesBelow` says that the nodes there lie on the heap. `roots_distinct` keeps the three
cells apart.
-/

namespace RelStore.Index

variable {κ ν : Type} {level : Nat}

namespace Placed

/-- The indices of the nodes below a node. -/
def inner : {level : Nat} → Placed κ ν level → List NodeId
  | 0, _ => []
  | _ + 1, (placed : NodeId × Children κ (Placed κ ν _)) => placed.2.items.flatMap ids

/-- What the cell of a node holds. -/
def cell : {level : Nat} → Placed κ ν level → Cell κ ν
  | 0, (placed : NodeId × List (κ × ν)) =>
    .leaf (placed.2.map Prod.fst) (placed.2.map Prod.snd) none none
  | _ + 1, (placed : NodeId × Children κ (Placed κ ν _)) =>
    .branch placed.2.separators (placed.2.items.map root)

@[simp] theorem cell_leaf (id : NodeId) (entries : List (κ × ν)) : (leaf id entries).cell =
    .leaf (entries.map Prod.fst) (entries.map Prod.snd) none none := rfl

@[simp] theorem cell_branch (id : NodeId) (children : Children κ (Placed κ ν level)) :
    (branch id children).cell = .branch children.separators (children.items.map root) := rfl

/-- The nodes below a node lie on the heap. -/
def LiesBelow (content : NodeId → Option (Cell κ ν)) : {level : Nat} → Placed κ ν level → Prop
  | 0, _ => True
  | _ + 1, (placed : NodeId × Children κ (Placed κ ν _)) =>
    ∀ child ∈ placed.2.items, child.LiesIn content

@[simp] theorem inner_branch (id : NodeId) (children : Children κ (Placed κ ν level)) :
    (branch id children).inner = children.items.flatMap ids := rfl

theorem liesBelow_branch {content : NodeId → Option (Cell κ ν)} {id : NodeId}
    {children : Children κ (Placed κ ν level)} :
    (branch id children).LiesBelow content ↔ ∀ child ∈ children.items, child.LiesIn content :=
  Iff.rfl

theorem exists_leaf (placed : Placed κ ν 0) : ∃ id entries, placed = leaf id entries :=
  ⟨placed.1, placed.2, rfl⟩

theorem exists_branch (placed : Placed κ ν (level + 1)) :
    ∃ id children, placed = branch id children := ⟨placed.1, placed.2, rfl⟩

theorem ids_eq (placed : Placed κ ν level) : placed.ids = placed.root :: placed.inner := by
  cases level <;> rfl

theorem liesIn_iff {content : NodeId → Option (Cell κ ν)} {placed : Placed κ ν level} :
    placed.LiesIn content ↔
      content placed.root = some placed.cell ∧ placed.LiesBelow content := by
  cases level with
  | zero => exact (and_iff_left trivial).symm
  | succ level => exact Iff.rfl

theorem LiesBelow.congr {content content' : NodeId → Option (Cell κ ν)} {placed : Placed κ ν level}
    (h : placed.LiesBelow content) (hc : ∀ i ∈ placed.inner, content' i = content i) :
    placed.LiesBelow content' := by
  cases level with
  | zero => trivial
  | succ level =>
    exact fun child hm => (h child hm).congr fun i hi => hc i (List.mem_flatMap.2 ⟨child, hm, hi⟩)

variable {l r : Placed κ ν level} {s : κ} {id : NodeId} {focus : Focus κ (Placed κ ν level)}
  {h : Heap κ ν} {before after : List NodeId}

theorem liesIn_spread {content : NodeId → Option (Cell κ ν)} :
    (branch id (focus.spread l s r).close).LiesIn content ↔
      content id = some (.branch (focus.spread l s r).separators
        ((focus.spread l s r).items.map root)) ∧
      l.LiesIn content ∧ r.LiesIn content ∧ ∀ sibling ∈ focus.siblings, sibling.LiesIn content := by
  rw [liesIn_branch, Focus.separators_close, Focus.items_close, ← List.forall_mem_cons,
    ← List.forall_mem_cons]
  simp only [(focus.items_spread l s r).mem_iff]

/-- The indices of a branch: its own, those of two neighbours, and those of all other nodes. -/
theorem ids_spread_roots (id : NodeId) (focus : Focus κ (Placed κ ν level)) (l : Placed κ ν level)
    (s : κ) (r : Placed κ ν level) :
    (branch id (focus.spread l s r).close).ids.Perm
      (id :: l.root :: r.root :: (focus.siblings.flatMap ids ++ (l.inner ++ r.inner))) := by
  refine (ids_spread id focus l s r).symm.trans ?_
  rw [around, ids_eq l, ids_eq r, List.cons_append, List.cons_append]
  refine List.Perm.cons id (List.perm_middle.trans (List.Perm.cons _ ?_))
  rw [← List.append_assoc, ← List.append_assoc]
  exact List.perm_middle

/-- The index of a branch and those of two neighbours are different from each other and from those
of all other nodes. -/
theorem roots_distinct (hn : (branch id (focus.spread l s r).close).ids.Nodup) :
    (id ≠ l.root ∧ id ≠ r.root ∧ l.root ≠ r.root) ∧
      ∀ i ∈ focus.siblings.flatMap ids ++ (l.inner ++ r.inner),
        i ≠ id ∧ i ≠ l.root ∧ i ≠ r.root := by
  have hn := (ids_spread_roots id focus l s r).nodup hn
  simp only [List.nodup_cons, List.mem_cons, not_or] at hn
  obtain ⟨⟨hil, hir, hi⟩, ⟨hlr, hl⟩, hr, -⟩ := hn
  refine ⟨⟨hil, hir, hlr⟩, fun i hm => ⟨?_, ?_, ?_⟩⟩
  · exact fun he => hi (he ▸ hm)
  · exact fun he => hl (he ▸ hm)
  · exact fun he => hr (he ▸ hm)

theorem ne_roots_of_not_mem {i : NodeId} (hi : i ∉ (branch id (focus.spread l s r).close).ids) :
    i ≠ id ∧ i ≠ l.root ∧ i ≠ r.root := by
  rw [(ids_spread_roots id focus l s r).mem_iff] at hi
  simp only [List.mem_cons, not_or] at hi
  exact ⟨hi.1, hi.2.1, hi.2.2.1⟩

/-- A step that changes at most the cells of a branch and of two neighbours leaves all that is
below and beside the neighbours. -/
theorem liesBelow_spread {content content' : NodeId → Option (Cell κ ν)}
    (hl : (branch id (focus.spread l s r).close).LiesIn content)
    (hn : (branch id (focus.spread l s r).close).ids.Nodup)
    (hkept : ∀ i, i ≠ id ∧ i ≠ l.root ∧ i ≠ r.root → content' i = content i) :
    l.LiesBelow content' ∧ r.LiesBelow content' ∧
      ∀ sibling ∈ focus.siblings, sibling.LiesIn content' := by
  have hrest (i : NodeId) (hm : i ∈ focus.siblings.flatMap ids ++ (l.inner ++ r.inner)) :
      content' i = content i := hkept i ((roots_distinct hn).2 i hm)
  obtain ⟨-, hleft, hright, hs⟩ := liesIn_spread.1 hl
  refine ⟨(liesIn_iff.1 hleft).2.congr fun i hm => hrest i (by simp [hm]),
    (liesIn_iff.1 hright).2.congr fun i hm => hrest i (by simp [hm]),
    fun sibling hm => (hs sibling hm).congr fun i hi => hrest i ?_⟩
  exact List.mem_append_left _ (List.mem_flatMap.2 ⟨sibling, hm, hi⟩)

/-- The cell of a branch over two neighbours, and that the three indices are different. -/
theorem cells_spread (hl : (branch id (focus.spread l s r).close).LiesIn h.content)
    (hp : h.Part before after (branch id (focus.spread l s r).close).ids
      (branch id (focus.spread l s r).close).leaves) :
    h.get? id = some (.branch (focus.before.reverse.map Prod.snd ++ s :: focus.after.map Prod.fst)
        ((focus.spread l s r).items.map root)) ∧
      (id ≠ l.root ∧ id ≠ r.root ∧ l.root ≠ r.root) :=
  ⟨Heap.get?_of_branch (liesIn_spread.1 hl).1, (roots_distinct hp.nodup).1⟩

end Placed

end RelStore.Index
