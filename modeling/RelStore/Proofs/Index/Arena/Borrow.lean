import RelStore.Proofs.Index.Arena.Neighbours
import RelStore.Proofs.Index.Erase

/-!
# Borrowing in an arena

A key that moves from one neighbour to the other takes what stands below it along
(`Placed.Exchange`). `borrowFromLeft_spec` and `borrowFromRight_spec` say that these steps get to
an end and do what `Node.lendRight` and `Node.lendLeft` do; the lemmas before them tell what they
do to the three cells.
-/

namespace RelStore.Index

variable {κ ν : Type} {level : Nat}

namespace Heap

variable {h h' : Heap κ ν} {parent left right : NodeId}

/-! ## Cells -/

/-- A step that fills three live cells again and leaves the links alone. -/
structure Refilled (h h' : Heap κ ν) (parent left right : NodeId) (p l r : Cell κ ν) : Prop where
  tidy : h'.Tidy
  links : ∀ i, h'.links i = h.links i
  content : ∀ i, h'.content i = if i = parent then some p else if i = left then some l
    else if i = right then some r else h.content i

theorem refilled_set {p l r cp cl cr : Cell κ ν} (ht : h.Tidy)
    (hne : parent ≠ left ∧ parent ≠ right ∧ left ≠ right)
    (hp : h.get? parent = some cp) (hl : h.get? left = some cl) (hr : h.get? right = some cr)
    (hlp : p.links? = cp.links?) (hll : l.links? = cl.links?) (hlr : r.links? = cr.links?) :
    Refilled h (((h.set parent (some p)).set left (some l)).set right (some r)) parent left right
      p.unlinked l.unlinked r.unlinked := by
  obtain ⟨hpl, hpr, hlr'⟩ := hne
  have htp := lt_of_get? hp
  have htl : left < (h.set parent (some p)).cells.length := by simpa using lt_of_get? hl
  have htr : right < ((h.set parent (some p)).set left (some l)).cells.length := by
    simpa using lt_of_get? hr
  refine ⟨((ht.set (ht.not_mem_free hp) _).set (ht.not_mem_free hl) _).set (ht.not_mem_free hr) _,
    fun i => ?_, fun i => ?_⟩
  · rw [links_set htr, links_set htl, links_set htp]
    split_ifs with h₁ h₂ h₃
    · rw [h₁, links, hr]; exact hlr
    · rw [h₂, links, hl]; exact hll
    · rw [h₃, links, hp]; exact hlp
    · rfl
  · rw [content_set htr, content_set htl, content_set htp]
    split_ifs <;> simp_all

/-- The order of filling the cells does not matter, nor that one has been taken before. -/
theorem set_taken (h : Heap κ ν) (hne : parent ≠ left ∧ parent ≠ right ∧ left ≠ right)
    (p l r : Option (Cell κ ν)) :
    (((h.set left none).set right r).set parent p).set left l =
      ((h.set parent p).set left l).set right r := by
  obtain ⟨hpl, hpr, hlr⟩ := hne
  rw [set_comm _ hpr.symm, set_comm h hpl.symm, set_comm _ hlr.symm, set_set]

theorem set_again (h : Heap κ ν) (hpr : parent ≠ right) (p r r' : Option (Cell κ ν)) :
    ((h.set right r).set parent p).set right r' = (h.set right r').set parent p := by
  rw [set_comm _ hpr, set_set]

theorem setSeparator_eq {lower upper : List κ} {separator : κ} {children : List NodeId}
    (hget : h.get? parent = some (.branch (lower ++ separator :: upper) children)) (new : κ) :
    setSeparator parent lower.length new h =
      some (separator, h.set parent (some (.branch (lower ++ new :: upper) children))) := by
  rw [setSeparator, run_bind (node_eq hget)]
  dsimp only
  rw [run_lift (replaceAt?_eq lower upper separator new rfl rfl)]
  dsimp only
  rw [run_bind (put_eq (lt_of_get? hget) _)]
  rfl

section

variable {lower upper : List κ} {separator : κ} {children : List NodeId}
  (ht : h.Tidy) (hp : h.get? parent = some (.branch (lower ++ separator :: upper) children))
  (hne : parent ≠ left ∧ parent ≠ right ∧ left ≠ right)

include ht hp hne

theorem borrowFromLeft_leaf {keys keys' : List κ} {key : κ} {values values' : List ν} {value : ν}
    {prev next prev' next' : Option NodeId}
    (hl : h.get? left = some (.leaf (keys ++ [key]) (values ++ [value]) prev next))
    (hr : h.get? right = some (.leaf keys' values' prev' next'))
    (hlen : keys.length = values.length) :
    ∃ h', borrowFromLeft parent (lower.length + 1) left right h = some ((), h') ∧
      Refilled h h' parent left right (.branch (lower ++ key :: upper) children)
        (.leaf keys values none none) (.leaf (key :: keys') (value :: values') none none) := by
  refine ⟨_, ?_, refilled_set (p := .branch (lower ++ key :: upper) children)
    (l := .leaf keys values prev next) (r := .leaf (key :: keys') (value :: values') prev' next')
    ht hne hp hl hr rfl rfl rfl⟩
  have htl := lt_of_get? hl
  have hr₁ : (h.set left none).get? right = some (.leaf keys' values' prev' next') := by
    rw [get?_set htl, if_neg hne.2.2.symm, hr]
  have hp₂ : ((h.set left none).set right
      (some (.leaf (key :: keys') (value :: values') prev' next'))).get? parent =
        some (.branch (lower ++ separator :: upper) children) := by
    rw [get?_set (lt_of_get? hr₁), if_neg hne.2.1, get?_set htl, if_neg hne.1, hp]
  have hindex : difference? (lower.length + 1) 1 = some lower.length := by simp [difference?]
  have hlast : difference? (keys ++ [key]).length 1 = some keys.length := by simp [difference?]
  rw [borrowFromLeft, run_lift hindex, run_bind (take_eq hl), run_bind (node_eq hr₁)]
  dsimp only
  rw [run_lift hlast, run_lift (removeAt?_eq keys [] key rfl rfl)]
  dsimp only
  rw [run_lift (removeAt?_eq values [] value rfl hlen)]
  dsimp only
  rw [List.append_nil, List.append_nil, run_bind (put_eq (lt_of_get? hr₁) _),
    run_bind (setSeparator_eq hp₂ key), put_eq (by simpa using htl), set_taken h hne]

theorem borrowFromLeft_branch {keys keys' : List κ} {key : κ} {below below' : List NodeId} {moved : NodeId}
    (hl : h.get? left = some (.branch (keys ++ [key]) (below ++ [moved])))
    (hr : h.get? right = some (.branch keys' below')) (hlen : below.length = keys.length + 1) :
    ∃ h', borrowFromLeft parent (lower.length + 1) left right h = some ((), h') ∧
      Refilled h h' parent left right (.branch (lower ++ key :: upper) children)
        (.branch keys below) (.branch (separator :: keys') (moved :: below')) := by
  refine ⟨_, ?_, refilled_set (p := .branch (lower ++ key :: upper) children)
    (l := .branch keys below) (r := .branch (separator :: keys') (moved :: below'))
    ht hne hp hl hr rfl rfl rfl⟩
  have htl := lt_of_get? hl
  have hr₁ : (h.set left none).get? right = some (.branch keys' below') := by
    rw [get?_set htl, if_neg hne.2.2.symm, hr]
  have htr := lt_of_get? hr₁
  have hp₂ : ((h.set left none).set right (some (.branch keys' (moved :: below')))).get? parent =
      some (.branch (lower ++ separator :: upper) children) := by
    rw [get?_set htr, if_neg hne.2.1, get?_set htl, if_neg hne.1, hp]
  have hr₃ : (((h.set left none).set right (some (.branch keys' (moved :: below')))).set parent
      (some (.branch (lower ++ key :: upper) children))).get? right =
        some (.branch keys' (moved :: below')) := by
    rw [get?_set (lt_of_get? hp₂), if_neg hne.2.1.symm, get?_set htr, if_pos rfl]
  have hindex : difference? (lower.length + 1) 1 = some lower.length := by simp [difference?]
  have hlast : difference? (keys ++ [key]).length 1 = some keys.length := by simp [difference?]
  rw [borrowFromLeft, run_lift hindex, run_bind (take_eq hl), run_bind (node_eq hr₁)]
  dsimp only
  rw [run_lift hlast, run_lift (removeAt?_eq keys [] key rfl rfl)]
  dsimp only
  rw [run_lift (removeAt?_eq below [] moved rfl hlen.symm)]
  dsimp only
  rw [List.append_nil, List.append_nil, run_bind (put_eq htr _),
    run_bind (setSeparator_eq hp₂ key), run_bind (node_eq hr₃)]
  dsimp only
  rw [run_bind (put_eq (lt_of_get? hr₃) _), put_eq (by simpa using htl), set_again _ hne.2.1,
    set_taken h hne]

theorem borrowFromRight_leaf {keys keys' : List κ} {key next : κ} {values values' : List ν}
    {value : ν} {prev next' prev' far : Option NodeId}
    (hl : h.get? left = some (.leaf keys values prev next'))
    (hr : h.get? right = some (.leaf (key :: next :: keys') (value :: values') prev' far)) :
    ∃ h', borrowFromRight parent lower.length left right h = some ((), h') ∧
      Refilled h h' parent left right (.branch (lower ++ next :: upper) children)
        (.leaf (keys ++ [key]) (values ++ [value]) none none)
        (.leaf (next :: keys') values' none none) := by
  refine ⟨_, ?_, refilled_set (p := .branch (lower ++ next :: upper) children)
    (l := .leaf (keys ++ [key]) (values ++ [value]) prev next')
    (r := .leaf (next :: keys') values' prev' far) ht hne hp hl hr rfl rfl rfl⟩
  have htr := lt_of_get? hr
  have hl₁ : (h.set right none).get? left = some (.leaf keys values prev next') := by
    rw [get?_set htr, if_neg hne.2.2, hl]
  have hp₂ : ((h.set right none).set left
      (some (.leaf (keys ++ [key]) (values ++ [value]) prev next'))).get? parent =
        some (.branch (lower ++ separator :: upper) children) := by
    rw [get?_set (lt_of_get? hl₁), if_neg hne.1, get?_set htr, if_neg hne.2.1, hp]
  have hkey : removeAt? (key :: next :: keys') 0 = some (key, next :: keys') := rfl
  have hvalue : removeAt? (value :: values') 0 = some (value, values') := rfl
  have hseparator : (next :: keys')[0]? = some next := rfl
  rw [borrowFromRight, run_bind (take_eq hr), run_bind (node_eq hl₁)]
  dsimp only
  rw [run_lift hkey]
  dsimp only
  rw [run_lift hvalue]
  dsimp only
  rw [run_bind (put_eq (lt_of_get? hl₁) _), run_lift hseparator,
    run_bind (setSeparator_eq hp₂ next), put_eq (by simpa using htr),
    set_taken h ⟨hne.2.1, hne.1, hne.2.2.symm⟩, set_comm _ hne.2.2.symm]

theorem borrowFromRight_branch {keys keys' : List κ} {key : κ} {below below' : List NodeId} {moved : NodeId}
    (hl : h.get? left = some (.branch keys below))
    (hr : h.get? right = some (.branch (key :: keys') (moved :: below'))) :
    ∃ h', borrowFromRight parent lower.length left right h = some ((), h') ∧
      Refilled h h' parent left right (.branch (lower ++ key :: upper) children)
        (.branch (keys ++ [separator]) (below ++ [moved])) (.branch keys' below') := by
  refine ⟨_, ?_, refilled_set (p := .branch (lower ++ key :: upper) children)
    (l := .branch (keys ++ [separator]) (below ++ [moved])) (r := .branch keys' below')
    ht hne hp hl hr rfl rfl rfl⟩
  have htr := lt_of_get? hr
  have hl₁ : (h.set right none).get? left = some (.branch keys below) := by
    rw [get?_set htr, if_neg hne.2.2, hl]
  have htl := lt_of_get? hl₁
  have hp₂ : ((h.set right none).set left (some (.branch keys (below ++ [moved])))).get? parent =
      some (.branch (lower ++ separator :: upper) children) := by
    rw [get?_set htl, if_neg hne.1, get?_set htr, if_neg hne.2.1, hp]
  have hl₃ : (((h.set right none).set left (some (.branch keys (below ++ [moved])))).set parent
      (some (.branch (lower ++ key :: upper) children))).get? left =
        some (.branch keys (below ++ [moved])) := by
    rw [get?_set (lt_of_get? hp₂), if_neg hne.1.symm, get?_set htl, if_pos rfl]
  have hkey : removeAt? (key :: keys') 0 = some (key, keys') := rfl
  have hmoved : removeAt? (moved :: below') 0 = some (moved, below') := rfl
  rw [borrowFromRight, run_bind (take_eq hr), run_bind (node_eq hl₁)]
  dsimp only
  rw [run_lift hkey]
  dsimp only
  rw [run_lift hmoved]
  dsimp only
  rw [run_bind (put_eq htl _), run_bind (setSeparator_eq hp₂ key), run_bind (node_eq hl₃)]
  dsimp only
  rw [run_bind (put_eq (lt_of_get? hl₃) _), put_eq (by simpa using htr), set_again _ hne.1,
    set_taken h ⟨hne.2.1, hne.1, hne.2.2.symm⟩, set_comm _ hne.2.2.symm]

end

end Heap

/-! ## Neighbours -/

namespace Placed

variable {l r l' r' : Placed κ ν level} {s s' : κ} {id : NodeId} {focus : Focus κ (Placed κ ν level)}
  {h h' : Heap κ ν} {before after : List NodeId}

/-- Two neighbours exchange what is below them. -/
structure Exchange (l r l' r' : Placed κ ν level) : Prop where
  left : l'.root = l.root
  right : r'.root = r.root
  inner : (l'.inner ++ r'.inner).Perm (l.inner ++ r.inner)
  leaves : l'.leaves ++ r'.leaves = l.leaves ++ r.leaves
  below : ∀ content, l.LiesBelow content → r.LiesBelow content →
    l'.LiesBelow content ∧ r'.LiesBelow content

/-- The neighbours lie on the heap after an exchange when their cells and that of the branch have
been filled again. -/
theorem Exchange.refilled (he : Exchange l r l' r')
    (hl : (branch id (focus.spread l s r).close).LiesIn h.content)
    (hp : h.Part before after (branch id (focus.spread l s r).close).ids
      (branch id (focus.spread l s r).close).leaves)
    (hf : h.Refilled h' id l.root r.root (.branch (focus.spread l' s' r').separators
      ((focus.spread l s r).items.map root)) l'.cell r'.cell) :
    h.Replaced before after h' (branch id (focus.spread l s r).close)
      (branch id (focus.spread l' s' r').close) := by
  have hperm := ids_spread_roots id focus l s r
  have hperm' := ids_spread_roots id focus l' s' r'
  rw [he.left, he.right] at hperm'
  have hids : (branch id (focus.spread l s r).close).ids.Perm
      (branch id (focus.spread l' s' r').close).ids := by
    refine hperm.trans (List.Perm.trans ?_ hperm'.symm)
    exact ((he.inner.symm.append_left _).cons r.root).cons l.root |>.cons id
  obtain ⟨⟨hil, hir, hlr⟩, -⟩ := roots_distinct hp.nodup
  have hkept (i : NodeId) (hi : i ≠ id ∧ i ≠ l.root ∧ i ≠ r.root) :
      h'.content i = h.content i := by
    rw [hf.content, if_neg hi.1, if_neg hi.2.1, if_neg hi.2.2]
  have hc : h.Changes h' (branch id (focus.spread l s r).close).ids
      (branch id (focus.spread l' s' r').close).ids :=
    ⟨fun i hm => .inl (hids.mem_iff.2 hm), fun i hm _ => hkept i (ne_roots_of_not_mem hm)⟩
  have hleaves : (branch id (focus.spread l' s' r').close).leaves =
      (branch id (focus.spread l s r).close).leaves := by
    rw [leaves_spread, leaves_spread, he.leaves]
  have hroots : (focus.spread l s r).items.map root = (focus.spread l' s' r').items.map root := by
    simp [Focus.spread, Focus.items, he.left, he.right]
  obtain ⟨hleft, hright, hs⟩ := liesBelow_spread hl hp.nodup hkept
  obtain ⟨hbl, hbr⟩ := he.below h'.content hleft hright
  refine ⟨rfl, liesIn_spread.2 ⟨?_, liesIn_iff.2 ⟨?_, hbl⟩, liesIn_iff.2 ⟨?_, hbr⟩, hs⟩, hc,
    hleaves ▸ hp.of_links hc hf.tidy (hids.nodup hp.nodup) fun i _ => hf.links i⟩
  · rw [hf.content, if_pos rfl, hroots]
  · rw [hf.content, he.left, if_neg (Ne.symm hil), if_pos rfl]
  · rw [hf.content, he.right, if_neg (Ne.symm hir), if_neg (Ne.symm hlr), if_pos rfl]

/-- Two leaves have nothing below them to exchange. -/
theorem exchange_leaf (i j : NodeId) (left right left' right' : List (κ × ν)) :
    Exchange (leaf i left) (leaf j right) (leaf i left') (leaf j right') :=
  ⟨rfl, rfl, List.Perm.refl _, rfl, fun _ _ _ => ⟨trivial, trivial⟩⟩

/-- Two branches exchange children when the row of all of them stays the same. -/
theorem exchange_branch (i j : NodeId) {left right left' right' : Children κ (Placed κ ν level)}
    (hi : left'.items ++ right'.items = left.items ++ right.items) :
    Exchange (branch i left) (branch j right) (branch i left') (branch j right') := by
  refine ⟨rfl, rfl, ?_, ?_, fun content hl hr => ?_⟩
  · rw [inner_branch, inner_branch, ← List.flatMap_append, hi, List.flatMap_append]
    rfl
  · rw [leaves_branch, leaves_branch, ← List.flatMap_append, hi, List.flatMap_append]
    rfl
  · rw [liesBelow_branch] at hl hr ⊢
    rw [liesBelow_branch, ← List.forall_mem_append, hi]
    exact List.forall_mem_append.2 ⟨hl, hr⟩

end Placed

namespace Heap

open Placed (leaf branch)

variable {h : Heap κ ν} {before after : List NodeId} {id : NodeId}

/-- Borrowing from the left neighbour gets to an end and does what lending to the right does. -/
theorem borrowFromLeft_spec (focus : Focus κ (Placed κ ν level)) {l r : Placed κ ν level} {s : κ}
    (hl : (branch id (focus.spread l s r).close).LiesIn h.content)
    (hp : h.Part before after (branch id (focus.spread l s r).close).ids
      (branch id (focus.spread l s r).close).leaves)
    (hspare : 1 ≤ l.node.keyCount) :
    ∃ l' s' r' h', borrowFromLeft id (focus.before.length + 1) l.root r.root h = some ((), h') ∧
      l.node.lendRight s r.node = (l'.node, s', r'.node) ∧
      h.Replaced before after h' (branch id (focus.spread l s r).close)
        (branch id (focus.spread l' s' r').close) := by
  obtain ⟨hget, hne⟩ := Placed.cells_spread hl hp
  have hlen : (focus.before.reverse.map Prod.snd).length = focus.before.length := by simp
  obtain ⟨-, hleft, hright, -⟩ := Placed.liesIn_spread.1 hl
  cases level with
  | zero =>
    obtain ⟨i, left, rfl⟩ := l.exists_leaf
    obtain ⟨j, right, rfl⟩ := r.exists_leaf
    rcases List.eq_nil_or_concat' left with rfl | ⟨lower, ⟨key, value⟩, rfl⟩
    · exact absurd hspare (Nat.not_succ_le_zero 0)
    obtain ⟨prev, next, hgetl⟩ := get?_of_leaf (Placed.liesIn_leaf.1 hleft)
    obtain ⟨prev', next', hgetr⟩ := get?_of_leaf (Placed.liesIn_leaf.1 hright)
    rw [List.map_append, List.map_append] at hgetl
    obtain ⟨h', hrun, hf⟩ := borrowFromLeft_leaf hp.tidy hget hne hgetl hgetr (by simp)
    rw [hlen] at hrun
    refine ⟨leaf i lower, key, leaf j ((key, value) :: right), h', hrun, ?_, ?_⟩
    · exact Node.lendRight_leaf lower key value s right
    · exact (Placed.exchange_leaf i j _ _ _ _).refilled hl hp hf
  | succ level =>
    obtain ⟨i, ⟨first, rest⟩, rfl⟩ := l.exists_branch
    obtain ⟨j, right, rfl⟩ := r.exists_branch
    rcases List.eq_nil_or_concat' rest with rfl | ⟨lower, ⟨up, moved⟩, rfl⟩
    · exact absurd hspare (Nat.not_succ_le_zero 0)
    have hgetl := get?_of_branch (Placed.liesIn_branch.1 hleft).1
    have hgetr := get?_of_branch (Placed.liesIn_branch.1 hright).1
    simp only [Children.separators, Children.items, List.map_append, List.map_cons, List.map_nil,
      ← List.cons_append] at hgetl
    obtain ⟨h', hrun, hf⟩ := borrowFromLeft_branch hp.tidy hget hne hgetl hgetr (by simp)
    rw [hlen] at hrun
    refine ⟨branch i ⟨first, lower⟩, up, branch j ⟨moved, (s, right.first) :: right.rest⟩, h',
      hrun, ?_, (Placed.exchange_branch i j ?_).refilled hl hp ?_⟩
    · rw [Placed.node_branch, Placed.node_branch, Children.map, List.map_append]
      exact Node.lendRight_branch ..
    · simp [Children.items]
    · simpa [Focus.separators_spread, Children.separators, Children.items] using hf

/-- Borrowing from the right neighbour gets to an end and does what lending to the left does. -/
theorem borrowFromRight_spec (focus : Focus κ (Placed κ ν level)) {l r : Placed κ ν level} {s : κ}
    (hl : (branch id (focus.spread l s r).close).LiesIn h.content)
    (hp : h.Part before after (branch id (focus.spread l s r).close).ids
      (branch id (focus.spread l s r).close).leaves)
    (hspare : 2 ≤ r.node.keyCount) :
    ∃ l' s' r' h', borrowFromRight id focus.before.length l.root r.root h = some ((), h') ∧
      l.node.lendLeft s r.node = (l'.node, s', r'.node) ∧
      h.Replaced before after h' (branch id (focus.spread l s r).close)
        (branch id (focus.spread l' s' r').close) := by
  obtain ⟨hget, hne⟩ := Placed.cells_spread hl hp
  have hlen : (focus.before.reverse.map Prod.snd).length = focus.before.length := by simp
  obtain ⟨-, hleft, hright, -⟩ := Placed.liesIn_spread.1 hl
  cases level with
  | zero =>
    obtain ⟨i, left, rfl⟩ := l.exists_leaf
    obtain ⟨j, right, rfl⟩ := r.exists_leaf
    rcases right with _ | ⟨entry, _ | ⟨next, rest⟩⟩
    · exact absurd hspare (Nat.not_succ_le_zero 1)
    · exact absurd hspare (Nat.not_succ_le_self 1)
    obtain ⟨prev, far, hgetl⟩ := get?_of_leaf (Placed.liesIn_leaf.1 hleft)
    obtain ⟨prev', far', hgetr⟩ := get?_of_leaf (Placed.liesIn_leaf.1 hright)
    obtain ⟨h', hrun, hf⟩ := borrowFromRight_leaf hp.tidy hget hne hgetl hgetr
    rw [hlen] at hrun
    refine ⟨leaf i (left ++ [entry]), next.1, leaf j (next :: rest), h', hrun, ?_,
      (Placed.exchange_leaf i j _ _ _ _).refilled hl hp ?_⟩
    · exact Node.lendLeft_leaf left s entry next rest
    · simpa [Focus.separators_spread] using hf
  | succ level =>
    obtain ⟨i, left, rfl⟩ := l.exists_branch
    obtain ⟨j, ⟨first, rest⟩, rfl⟩ := r.exists_branch
    rcases rest with _ | ⟨⟨up, child⟩, rest⟩
    · exact absurd hspare (Nat.not_succ_le_zero 1)
    have hgetl := get?_of_branch (Placed.liesIn_branch.1 hleft).1
    have hgetr := get?_of_branch (Placed.liesIn_branch.1 hright).1
    obtain ⟨h', hrun, hf⟩ := borrowFromRight_branch hp.tidy hget hne hgetl hgetr
    rw [hlen] at hrun
    refine ⟨branch i ⟨left.first, left.rest ++ [(s, first)]⟩, up, branch j ⟨child, rest⟩, h', hrun,
      ?_, (Placed.exchange_branch i j ?_).refilled hl hp ?_⟩
    · rw [Placed.node_branch, Placed.node_branch, Placed.node_branch, Placed.node_branch]
      simp only [Children.map, List.map_append, List.map_cons, List.map_nil]
      exact Node.lendLeft_branch ..
    · simp [Children.items]
    · simpa [Focus.separators_spread, Children.separators, Children.items] using hf

end Heap

end RelStore.Index
