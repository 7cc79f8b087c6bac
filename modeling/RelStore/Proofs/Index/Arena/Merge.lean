import RelStore.Proofs.Index.Arena.Neighbours
import RelStore.Proofs.Index.Erase

/-!
# Merging in an arena

A node takes over all that is below its right neighbour (`Placed.Union`), whose cell is released.
`merge_spec` says that this gets to an end and does what `Node.merge` does. Only over leaves does
the chain change: the right one comes out of it (`merge_leaf`).
-/

namespace RelStore.Index

variable {κ ν : Type} {level : Nat}

namespace Heap

variable {h h' : Heap κ ν} {parent left right : NodeId} {lower upper : List κ} {separator : κ}
  {firsts lasts : List NodeId}

/-! ## Cells -/

theorem dropChild_eq (hget : h.get? parent =
      some (.branch (lower ++ separator :: upper) (firsts ++ right :: lasts)))
    (hlen : firsts.length = lower.length + 1) :
    dropChild parent lower.length h =
      some (separator, h.set parent (some (.branch (lower ++ upper) (firsts ++ lasts)))) := by
  rw [dropChild, run_bind (node_eq hget)]
  dsimp only
  rw [run_lift (removeAt?_eq firsts lasts right rfl hlen.symm)]
  dsimp only
  rw [run_lift (removeAt?_eq lower upper separator rfl rfl)]
  dsimp only
  rw [run_bind (put_eq (lt_of_get? hget) _)]
  rfl

/-- Two live cells are filled again, and a third is released in between. -/
theorem get?_released {cp cl cr : Cell κ ν} (ht : h.Tidy)
    (hne : parent ≠ left ∧ parent ≠ right ∧ left ≠ right) (hp : h.get? parent = some cp)
    (hl : h.get? left = some cl) (hr : h.get? right = some cr) (p l : Cell κ ν) :
    ∃ h₁, release right (h.set parent (some p)) = some (cr, h₁) ∧ h₁.get? left = some cl ∧
      (h₁.set left (some l)).Tidy ∧
      ∀ i, (h₁.set left (some l)).get? i = if i = parent then some p else if i = left then some l
        else if i = right then none else h.get? i := by
  obtain ⟨hpl, hpr, hlr⟩ := hne
  have hset (i : NodeId) := get?_set (lt_of_get? hp) (some p) i
  have hr' : (h.set parent (some p)).get? right = some cr := by rw [hset, if_neg hpr.symm, hr]
  obtain ⟨h₁, hrun, ht₁, hget₁⟩ := release_spec (ht.set (ht.not_mem_free hp) _) hr'
  have hl₁ : h₁.get? left = some cl := by rw [hget₁, if_neg hlr, hset, if_neg hpl.symm, hl]
  refine ⟨h₁, hrun, hl₁, ht₁.set (ht₁.not_mem_free hl₁) _, fun i => ?_⟩
  rw [get?_set (lt_of_get? hl₁), hget₁, hset]
  split_ifs <;> simp_all

/-- A step that fills two live cells again and releases a third. -/
structure Merged (h h' : Heap κ ν) (parent left right : NodeId) (p l : Cell κ ν) : Prop where
  tidy : h'.Tidy
  content : ∀ i, h'.content i = if i = parent then some p else if i = left then some l
    else if i = right then none else h.content i

section

variable (ht : h.Tidy)
  (hp : h.get? parent = some (.branch (lower ++ separator :: upper) (firsts ++ right :: lasts)))
  (hlen : firsts.length = lower.length + 1)
  (hne : parent ≠ left ∧ parent ≠ right ∧ left ≠ right)

include ht hp hlen hne

theorem merge_branch {keys keys' : List κ} {below below' : List NodeId}
    (hl : h.get? left = some (.branch keys below))
    (hr : h.get? right = some (.branch keys' below')) :
    ∃ h', merge parent lower.length left right h = some ((), h') ∧
      Merged h h' parent left right (.branch (lower ++ upper) (firsts ++ lasts))
        (.branch (keys ++ separator :: keys') (below ++ below')) ∧
      ∀ i, h'.links i = h.links i := by
  obtain ⟨h₁, hrelease, hl₁, ht', hget⟩ := get?_released ht hne hp hl hr
    (.branch (lower ++ upper) (firsts ++ lasts))
    (.branch (keys ++ separator :: keys') (below ++ below'))
  refine ⟨_, ?_, ⟨ht', fun i => ?_⟩, fun i => ?_⟩
  · rw [merge, run_bind (dropChild_eq hp hlen), run_bind hrelease, run_bind (node_eq hl₁)]
    exact put_eq (lt_of_get? hl₁) _
  · rw [content, hget]
    split_ifs <;> rfl
  · rw [links, hget]
    split_ifs with h₁ h₂ h₃
    · rw [h₁, links, hp]; rfl
    · rw [h₂, links, hl]; rfl
    · rw [h₃, links, hr]; rfl
    · rfl

theorem merge_leaf {keys keys' : List κ} {values values' : List ν} {prev next prev' : Option NodeId}
    {rest : List NodeId} (hl : h.get? left = some (.leaf keys values prev next))
    (hr : h.get? right = some (.leaf keys' values' prev' rest.head?))
    (hrest : Linked h.links (some right) rest none) (hn : (left :: right :: rest).Nodup) :
    ∃ h', merge parent lower.length left right h = some ((), h') ∧
      Merged h h' parent left right (.branch (lower ++ upper) (firsts ++ lasts))
        (.leaf (keys ++ keys') (values ++ values') none none) ∧
      Linked h'.links prev (left :: rest) none ∧
      ∀ i, i ≠ right → i ∉ left :: rest → h'.links i = h.links i := by
  obtain ⟨h₁, hrelease, hl₁, ht₂, hget⟩ := get?_released ht hne hp hl hr
    (.branch (lower ++ upper) (firsts ++ lasts))
    (.leaf (keys ++ keys') (values ++ values') prev rest.head?)
  simp only [List.nodup_cons, List.mem_cons, not_or] at hn
  obtain ⟨⟨-, hleft⟩, hright, hn⟩ := hn
  have hsame (i : NodeId) (hil : i ≠ left) (hir : i ≠ right) : (h₁.set left (some (.leaf (keys ++ keys')
      (values ++ values') prev rest.head?))).links i = h.links i := by
    rw [links, hget, if_neg hil, if_neg hir]
    split_ifs with hi
    · rw [hi, links, hp]; rfl
    · rfl
  have hrest₂ := hrest.congr fun i hi => hsame i (fun he => hleft (he ▸ hi)) fun he =>
    hright (he ▸ hi)
  obtain ⟨h', hprev, ht', hcontent, hlinked, hother⟩ := setPrev_spec ht₂ hn hrest₂ left
  refine ⟨h', ?_, ⟨ht', fun i => ?_⟩, ⟨?_, hlinked⟩, fun i hi hm => ?_⟩
  · rw [merge, run_bind (dropChild_eq hp hlen), run_bind hrelease, run_bind (node_eq hl₁)]
    dsimp only
    rw [run_bind (put_eq (lt_of_get? hl₁) _), hprev]
  · rw [hcontent, content, hget]
    split_ifs <;> rfl
  · rw [hother left hleft, links, hget, if_neg hne.1.symm, if_pos rfl, Option.or_none]
    rfl
  · rw [List.mem_cons, not_or] at hm
    rw [hother i hm.2, hsame i hm.1 hi]

end

end Heap

/-! ## Neighbours -/

namespace Placed

variable {l r m : Placed κ ν level} {s : κ} {id : NodeId} {focus : Focus κ (Placed κ ν level)}
  {h h' : Heap κ ν} {before after : List NodeId}

/-- A node with all that is below two neighbours, in the place of the left one. -/
structure Union (l r m : Placed κ ν level) : Prop where
  root : m.root = l.root
  inner : m.inner = l.inner ++ r.inner
  below : ∀ content, l.LiesBelow content → r.LiesBelow content → m.LiesBelow content

/-- The union of two neighbours lies on the heap when its cell and that of the branch have been
filled again. -/
theorem Union.merged (hu : Union l r m)
    (hl : (branch id (focus.spread l s r).close).LiesIn h.content)
    (hp : h.Part before after (branch id (focus.spread l s r).close).ids
      (branch id (focus.spread l s r).close).leaves)
    (hm : h.Merged h' id l.root r.root
      (.branch focus.separators ({ focus with here := m }.items.map Placed.root)) m.cell)
    (hlinked : Linked h'.links none
      (before ++ ((branch id { focus with here := m }.close).leaves ++ after)) none) :
    h.Replaced before after h' (branch id (focus.spread l s r).close)
      (branch id { focus with here := m }.close) := by
  have hperm := ids_spread_roots id focus l s r
  have hperm' : (branch id { focus with here := m }.close).ids.Perm
      (id :: l.root :: (focus.siblings.flatMap ids ++ (l.inner ++ r.inner))) := by
    refine (ids_close id { focus with here := m }).trans (List.Perm.cons id ?_)
    rw [ids_eq, hu.root, hu.inner]
    exact List.perm_middle
  have hn : (id :: l.root :: (focus.siblings.flatMap ids ++ (l.inner ++ r.inner))).Nodup := by
    have hn := hperm.nodup hp.nodup
    simp only [List.nodup_cons, List.mem_cons, not_or] at hn ⊢
    exact ⟨⟨hn.1.1, hn.1.2.2⟩, hn.2.1.2, hn.2.2.2⟩
  obtain ⟨⟨hil, -⟩, -⟩ := roots_distinct hp.nodup
  have hkept (i : NodeId) (hi : i ≠ id ∧ i ≠ l.root ∧ i ≠ r.root) :
      h'.content i = h.content i := by
    rw [hm.content, if_neg hi.1, if_neg hi.2.1, if_neg hi.2.2]
  have hc : h.Changes h' (branch id (focus.spread l s r).close).ids
      (branch id { focus with here := m }.close).ids := by
    refine ⟨fun i hm => .inl ?_, fun i hm _ => hkept i (ne_roots_of_not_mem hm)⟩
    rw [hperm'.mem_iff, List.mem_cons, List.mem_cons] at hm
    rw [hperm.mem_iff, List.mem_cons, List.mem_cons, List.mem_cons]
    exact hm.imp_right (Or.imp_right .inr)
  obtain ⟨hleft, hright, hs⟩ := liesBelow_spread hl hp.nodup hkept
  refine ⟨rfl, liesIn_close.2 ⟨?_, liesIn_iff.2 ⟨?_, hu.below h'.content hleft hright⟩, hs⟩, hc,
    hm.tidy, hperm'.symm.nodup hn, hp.beside, hp.apart_of_changes hc, hlinked⟩
  · rw [hm.content, if_pos rfl]; rfl
  · rw [hm.content, hu.root, if_neg (Ne.symm hil), if_pos rfl]

end Placed

namespace Heap

open Placed (leaf branch)

variable {h : Heap κ ν} {before after : List NodeId} {id : NodeId}

theorem merge_leaves {focus : Focus κ (Placed κ ν 0)} {i j : NodeId} {s : κ} {left right : List (κ × ν)}
    (hl : (branch id (focus.spread (leaf i left) s (leaf j right)).close).LiesIn h.content)
    (hp : h.Part before after (branch id (focus.spread (leaf i left) s (leaf j right)).close).ids
      (branch id (focus.spread (leaf i left) s (leaf j right)).close).leaves) :
    ∃ h', merge id focus.before.length i j h = some ((), h') ∧
      h.Replaced before after h' (branch id (focus.spread (leaf i left) s (leaf j right)).close)
        (branch id { focus with here := leaf i (left ++ right) }.close) := by
  obtain ⟨hget, hne⟩ := Placed.cells_spread hl hp
  have hlen : (focus.before.reverse.map Prod.snd).length = focus.before.length := by simp
  obtain ⟨-, hleft, hright, -⟩ := Placed.liesIn_spread.1 hl
  -- both leaves stand in the chain, the right one behind the left one
  obtain ⟨-, -, hbeside, hapart, hchain⟩ := Placed.part_here hp
  have hafter : Placed.leavesAfter (focus.spread (leaf i left) s (leaf j right)) ++ after =
      j :: (Placed.leavesAfter focus ++ after) := rfl
  rw [hafter] at hbeside hapart hchain
  obtain ⟨hbefore, hlinks, hchain⟩ := Linked.middle.1 hchain
  obtain ⟨hlinks', hrest⟩ := hchain
  rw [Option.or_none] at hlinks'
  have hgetl := get?_of_leaf_links (Placed.liesIn_leaf.1 hleft) hlinks
  have hgetr := get?_of_leaf_links (Placed.liesIn_leaf.1 hright) hlinks'
  obtain ⟨-, hnr, hdisjoint⟩ := List.nodup_append.1 hbeside
  have hnot : i ∉ j :: (Placed.leavesAfter focus ++ after) := fun hm =>
    hapart i (List.mem_append_right _ hm) (List.mem_singleton_self i)
  have hitems : (focus.spread (leaf i left) s (leaf j right)).items.map Placed.root =
      (focus.before.reverse.map Prod.fst ++ [leaf i left]).map Placed.root ++
        j :: (focus.after.map Prod.snd).map Placed.root := by
    simp [Focus.spread, Focus.items]
  rw [hitems] at hget
  obtain ⟨h', hrun, hm, hlinked, hother⟩ := merge_leaf hp.tidy hget (by simp) hne hgetl hgetr hrest
    (List.nodup_cons.2 ⟨hnot, hnr⟩)
  rw [hlen] at hrun
  refine ⟨h', hrun, Placed.Union.merged ⟨rfl, rfl, fun _ _ _ => trivial⟩ hl hp ?_ ?_⟩
  · simpa [Focus.separators, Focus.items] using hm
  · have hleaves : before ++ ((branch id { focus with here := leaf i (left ++ right) }.close).leaves ++
        after) = before ++ Placed.leavesBefore focus ++ i :: (Placed.leavesAfter focus ++ after) := by
      rw [Placed.leaves_close]
      simp [Placed.leavesBefore, Placed.leavesAfter]
    rw [hleaves, Linked.append, List.head?_cons, Option.some_or, Option.or_none]
    refine ⟨hbefore.congr fun k hk => hother k ?_ ?_, hlinked⟩
    · exact fun he => hdisjoint k hk j List.mem_cons_self he
    · rw [List.mem_cons, not_or]
      refine ⟨fun he => ?_, fun hm => hdisjoint k hk k (List.mem_cons_of_mem j hm) rfl⟩
      exact hapart k (List.mem_append_left _ hk) (List.mem_singleton.2 he)

theorem merge_branches {focus : Focus κ (Placed κ ν (level + 1))} {i j : NodeId} {s : κ}
    {left right : Children κ (Placed κ ν level)}
    (hl : (branch id (focus.spread (branch i left) s (branch j right)).close).LiesIn h.content)
    (hp : h.Part before after (branch id (focus.spread (branch i left) s (branch j right)).close).ids
      (branch id (focus.spread (branch i left) s (branch j right)).close).leaves) :
    ∃ h', merge id focus.before.length i j h = some ((), h') ∧
      h.Replaced before after h' (branch id (focus.spread (branch i left) s (branch j right)).close)
        (branch id { focus with
          here := branch i ⟨left.first, left.rest ++ (s, right.first) :: right.rest⟩ }.close) := by
  obtain ⟨hget, hne⟩ := Placed.cells_spread hl hp
  have hlen : (focus.before.reverse.map Prod.snd).length = focus.before.length := by simp
  obtain ⟨-, hleft, hright, -⟩ := Placed.liesIn_spread.1 hl
  have hgetl := get?_of_branch (Placed.liesIn_branch.1 hleft).1
  have hgetr := get?_of_branch (Placed.liesIn_branch.1 hright).1
  have hitems : (focus.spread (branch i left) s (branch j right)).items.map Placed.root =
      (focus.before.reverse.map Prod.fst ++ [branch i left]).map Placed.root ++
        j :: (focus.after.map Prod.snd).map Placed.root := by
    simp [Focus.spread, Focus.items]
  rw [hitems] at hget
  obtain ⟨h', hrun, hm, hlinks⟩ := merge_branch hp.tidy hget (by simp) hne hgetl hgetr
  rw [hlen] at hrun
  have hbelow : (Children.mk left.first (left.rest ++ (s, right.first) :: right.rest)).items =
      left.items ++ right.items := Children.items_join ..
  refine ⟨h', hrun, Placed.Union.merged ⟨rfl, ?_, fun content hl hr => ?_⟩ hl hp ?_ ?_⟩
  · rw [Placed.inner_branch, hbelow, List.flatMap_append]
    rfl
  · rw [Placed.liesBelow_branch, hbelow]
    exact List.forall_mem_append.2 ⟨hl, hr⟩
  · rw [Placed.cell_branch, hbelow]
    simpa [Focus.separators, Focus.items, Children.separators] using hm
  · have hleaves : (branch id { focus with here := branch i ⟨left.first,
        left.rest ++ (s, right.first) :: right.rest⟩ }.close).leaves =
          (branch id (focus.spread (branch i left) s (branch j right)).close).leaves := by
      rw [Placed.leaves_close, Placed.leaves_spread, Placed.leaves_branch, hbelow,
        List.flatMap_append]
      rfl
    rw [hleaves]
    exact hp.linked.congr fun k _ => hlinks k

/-- Merging two neighbours gets to an end and does what `Node.merge` does. -/
theorem merge_spec (focus : Focus κ (Placed κ ν level)) {l r : Placed κ ν level} {s : κ}
    (hl : (branch id (focus.spread l s r).close).LiesIn h.content)
    (hp : h.Part before after (branch id (focus.spread l s r).close).ids
      (branch id (focus.spread l s r).close).leaves) :
    ∃ m h', merge id focus.before.length l.root r.root h = some ((), h') ∧
      m.node = l.node.merge s r.node ∧
      h.Replaced before after h' (branch id (focus.spread l s r).close)
        (branch id { focus with here := m }.close) := by
  cases level with
  | zero =>
    obtain ⟨i, left, rfl⟩ := l.exists_leaf
    obtain ⟨j, right, rfl⟩ := r.exists_leaf
    obtain ⟨h', hrun, hr⟩ := merge_leaves hl hp
    exact ⟨_, h', hrun, rfl, hr⟩
  | succ level =>
    obtain ⟨i, left, rfl⟩ := l.exists_branch
    obtain ⟨j, right, rfl⟩ := r.exists_branch
    obtain ⟨h', hrun, hr⟩ := merge_branches hl hp
    refine ⟨_, h', hrun, ?_, hr⟩
    rw [Placed.node_branch, Placed.node_branch, Placed.node_branch, Node.merge_branch]
    simp [Children.map]

end Heap

end RelStore.Index
