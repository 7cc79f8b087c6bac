import RelStore.Proofs.Index.Arena.Search
import RelStore.Proofs.Index.Insert

/-!
# Inserting in an arena

`NodeId.insertInto` gets to an end and does on the heap what `Node.insert` does to the tree
(`insertInto_spec`). A leaf that is split keeps its place in the chain of leaves, and its new
right sibling comes in behind it (`splitLeaf_spec`); a branch that is split leaves the chain alone
(`splitBranch_spec`).
-/

namespace RelStore.Index

variable {κ ν α : Type} {level : Nat}

theorem Children.split_map {β : Type} (g : α → β) (order : Nat) (children : Children κ α) :
    split order (children.map g) = (split order children).map (map g) := by
  unfold split
  simp only [map, List.length_map, ← List.map_drop, ← List.map_take]
  split_ifs
  · rfl
  · cases children.rest.drop (children.rest.length / 2) <;> rfl

/-- What a branch becomes when the child in the focus grows. -/
def Focus.grow (order : Nat) (focus : Focus κ (Node κ ν level)) :
    Growth κ (Node κ ν level) → Growth κ (Node κ ν (level + 1))
  | .one child => .one (Node.branch { focus with here := child }.close)
  | .two left separator right =>
    (Children.split order (focus.spread left separator right).close).map Node.branch

theorem Node.insert_eq_grow [LinearOrder κ] (order : Order) (key : κ)
    (children : Children κ (Node κ ν level)) (value : ν) :
    (branch children).insert order.val key value =
      (((Focus.seek key children).here.insert order.val key value).1,
        (Focus.seek key children).grow order.val
          ((Focus.seek key children).here.insert order.val key value).2) := by
  rw [insert_branch]
  rcases (Focus.seek key children).here.insert order.val key value with
    ⟨old, child | ⟨left, separator, right⟩⟩
  · rfl
  · refine congrArg (Prod.mk old) ?_
    show _ = (Children.split order.val ((Focus.seek key children).spread ..).close).map branch
    change Children.split order.val ((Focus.seek key children).spread ..).close = _
    cases Children.split order.val ((Focus.seek key children).spread ..).close <;> rfl

/-! ## A branch cut in two -/

section

variable (id right : NodeId) (first child : Placed κ ν level)
  (lower upper : List (κ × Placed κ ν level)) (separator : κ)

theorem Placed.ids_cut :
    (right :: (branch id ⟨first, lower ++ (separator, child) :: upper⟩).ids).Perm
      ((branch id ⟨first, lower⟩).ids ++ (branch right ⟨child, upper⟩).ids) := by
  simp only [ids_branch, Children.items_join, List.flatMap_append]
  rw [← List.cons_append]
  exact List.perm_middle.symm

theorem Placed.leaves_cut : (branch id ⟨first, lower ++ (separator, child) :: upper⟩).leaves =
    (branch id ⟨first, lower⟩).leaves ++ (branch right ⟨child, upper⟩).leaves := by
  rw [leaves_branch, Children.items_join, List.flatMap_append]
  rfl

end

namespace Heap

open NodeId

open Placed (ids leaves)

variable {h : Heap κ ν} {id : NodeId} {before after : List NodeId}

/-! ## Splitting -/

/-- A live cell is filled again, another is allocated, and the first is told of it. -/
theorem get?_allocated {old : Cell κ ν} (ht : h.Tidy) (hget : h.get? id = some old)
    (cell new : Cell κ ν) (told : NodeId → Cell κ ν) :
    ∃ right h₁, alloc new (h.set id (some cell)) = some (right, h₁) ∧ h.get? right = none ∧
      h₁.get? id = some cell ∧ (h₁.set id (some (told right))).Tidy ∧
      ∀ i, (h₁.set id (some (told right))).get? i =
        if i = id then some (told right) else if i = right then some new else h.get? i := by
  have hset (i : NodeId) := get?_set (lt_of_get? hget) (some cell) i
  obtain ⟨right, h₁, hrun, hfree, ht₁, hget₁⟩ :=
    alloc_spec (ht.set (ht.not_mem_free hget) (some cell)) new
  have hne : right ≠ id := by
    rintro rfl
    rw [hset, if_pos rfl] at hfree
    cases hfree
  rw [hset, if_neg hne] at hfree
  have hid : h₁.get? id = some cell := by rw [hget₁, if_neg hne.symm, hset, if_pos rfl]
  refine ⟨right, h₁, hrun, hfree, hid, ht₁.set (ht₁.not_mem_free hid) _, fun i => ?_⟩
  rw [get?_set (lt_of_get? hid), hget₁, hset]
  split_ifs <;> rfl

/-- A step that fills a leaf again and puts a new one behind it in the chain. -/
structure Doubled (h h' : Heap κ ν) (before after : List NodeId) (id right : NodeId)
    (cell new : Cell κ ν) : Prop where
  fresh : h.content right = none
  tidy : h'.Tidy
  content : ∀ i, h'.content i =
    if i = id then some cell else if i = right then some new else h.content i
  linked : Linked h'.links none (before ++ id :: right :: after) none

theorem splitLeaf_cell {keys keys' : List κ} {separator : κ} {values values' : List ν}
    (ht : h.Tidy) (hchain : Linked h.links none (before ++ id :: after) none)
    (hn : (before ++ id :: after).Nodup)
    (hcell : h.content id = some
      (.leaf (keys ++ separator :: keys') (values ++ values') none none))
    (hkeys : (keys ++ separator :: keys').length / 2 = keys.length)
    (hvalues : values.length = keys.length) :
    ∃ right h', splitLeaf id h = some ((separator, right), h') ∧
      Doubled h h' before after id right (.leaf keys values none none)
        (.leaf (separator :: keys') values' none none) := by
  obtain ⟨hbefore, hlinks, hafter⟩ := Linked.middle.1 hchain
  have hget := get?_of_leaf_links hcell hlinks
  obtain ⟨-, hn, hdisjoint⟩ := List.nodup_append.1 hn
  obtain ⟨hid, hna⟩ := List.nodup_cons.1 hn
  -- the lower half stays where it is, the upper half goes into a new cell
  obtain ⟨right, h₁, halloc, hfree, hget₁, ht₁, hcells⟩ := get?_allocated ht hget
    (.leaf keys values before.getLast? after.head?)
    (.leaf (separator :: keys') values' (some id) after.head?)
    fun right => .leaf keys values before.getLast? (some right)
  have hne : right ≠ id := by
    rintro rfl
    rw [hget] at hfree
    cases hfree
  have hlive {i : NodeId} (hi : h.links i ≠ none) : i ≠ right := by
    rintro rfl
    exact content_ne_none_of_links hi (content_eq_none.2 hfree)
  have hsame (i : NodeId) (hi : i ≠ id) (hl : h.links i ≠ none) :
      (h₁.set id (some (.leaf keys values before.getLast? (some right)))).links i = h.links i := by
    rw [links, hcells, if_neg hi, if_neg (hlive hl), links]
  -- then the new leaf is linked in
  obtain ⟨h', hprev, ht', hcontent, hafter', hother⟩ := setPrev_spec ht₁ hna
    (hafter.congr fun i hi => hsame i (fun he => hid (he ▸ hi)) (hafter.ne_none i hi)) right
  have hright : right ∉ after := fun hm => hlive (hafter.ne_none right hm) rfl
  refine ⟨right, h', ?_, content_eq_none.2 hfree, ht', fun i => ?_, ?_⟩
  · rw [splitLeaf, run_bind (node_eq hget)]
    dsimp only
    rw [run_lift (cutAt?_eq keys (separator :: keys') rfl hkeys)]
    dsimp only
    rw [run_lift (cutAt?_eq values values' rfl (hkeys.trans hvalues.symm))]
    dsimp only
    have hseparator : (separator :: keys')[0]? = some separator := rfl
    rw [run_bind (put_eq (lt_of_get? hget) _), run_lift hseparator, run_bind halloc,
      run_bind (node_eq hget₁)]
    dsimp only
    rw [run_bind (put_eq (lt_of_get? hget₁) _), run_bind hprev]
    rfl
  · rw [hcontent, content, hcells]
    split_ifs <;> rfl
  · refine Linked.middle.2 ⟨hbefore.congr fun i hi => ?_, ?_, ?_, hafter'⟩
    · have hi' : i ≠ id := hdisjoint i hi id List.mem_cons_self
      have hna : i ∉ after := fun hm => hdisjoint i hi i (List.mem_cons_of_mem id hm) rfl
      rw [hother i hna, hsame i hi' (hbefore.ne_none i hi)]
    · rw [hother id hid, links, hcells, if_pos rfl]; rfl
    · rw [hother right hright, links, hcells, if_neg hne, if_pos rfl, Option.or_none]; rfl

theorem splitLeaf_spec {lower upper : List (κ × ν)} {entry : κ × ν}
    (hl : (Placed.leaf id (lower ++ entry :: upper)).LiesIn h.content)
    (hlen : (lower ++ entry :: upper).length / 2 = lower.length)
    (hp : h.Part before after [id] [id]) :
    ∃ right h', splitLeaf id h = some ((entry.1, right), h') ∧
      (Placed.leaf id lower).LiesIn h'.content ∧
      (Placed.leaf right (entry :: upper)).LiesIn h'.content ∧
      Changes h h' [id] [id, right] ∧ h'.Part before after [id, right] [id, right] := by
  have hcell : h.content id = some (.leaf (lower.map Prod.fst ++ entry.1 :: upper.map Prod.fst)
      (lower.map Prod.snd ++ (entry :: upper).map Prod.snd) none none) := by
    rw [Placed.liesIn_leaf.1 hl, List.map_append, List.map_append]; rfl
  have hne : h.content id ≠ none := by rw [hcell]; exact Option.some_ne_none _
  have hn : (before ++ id :: after).Nodup := List.perm_middle.symm.nodup
    (List.nodup_cons.2 ⟨fun hm => hp.apart id hm List.mem_cons_self, hp.beside⟩)
  obtain ⟨right, h', hrun, hd⟩ :=
    splitLeaf_cell hp.tidy hp.linked hn hcell (by simpa using hlen) (by simp)
  have hright : right ≠ id := fun he => hne (he ▸ hd.fresh)
  have hchanges : Changes h h' [id] [id, right] := by
    refine ⟨List.forall_mem_cons.2 ⟨.inl List.mem_cons_self, List.forall_mem_singleton.2
      (.inr hd.fresh)⟩, fun i hi hlive => ?_⟩
    rw [hd.content, if_neg fun he => hi (List.mem_singleton.2 he),
      if_neg fun he : i = right => hlive (he ▸ hd.fresh)]
  refine ⟨right, h', hrun, ?_, ?_, hchanges, hd.tidy, ?_, hp.beside, hp.apart_of_changes hchanges,
    hd.linked⟩
  · rw [Placed.liesIn_leaf, hd.content, if_pos rfl]
  · rw [Placed.liesIn_leaf, hd.content, if_neg hright, if_pos rfl]; rfl
  · simpa using hright.symm

theorem splitBranch_spec {first child : Placed κ ν level} {lower upper : List (κ × Placed κ ν level)}
    {separator : κ}
    (hl : (Placed.branch id ⟨first, lower ++ (separator, child) :: upper⟩).LiesIn h.content)
    (hlen : (lower ++ (separator, child) :: upper).length / 2 = lower.length)
    (hp : h.Part before after (Placed.branch id ⟨first, lower ++ (separator, child) :: upper⟩).ids
      (Placed.branch id ⟨first, lower ++ (separator, child) :: upper⟩).leaves) :
    ∃ right h', splitBranch id h = some ((separator, right), h') ∧
      (Placed.branch id ⟨first, lower⟩).LiesIn h'.content ∧
      (Placed.branch right ⟨child, upper⟩).LiesIn h'.content ∧
      Changes h h' (Placed.branch id ⟨first, lower ++ (separator, child) :: upper⟩).ids
        ((Placed.branch id ⟨first, lower⟩).ids ++ (Placed.branch right ⟨child, upper⟩).ids) ∧
      h'.Part before after
        ((Placed.branch id ⟨first, lower⟩).ids ++ (Placed.branch right ⟨child, upper⟩).ids)
        ((Placed.branch id ⟨first, lower⟩).leaves ++
          (Placed.branch right ⟨child, upper⟩).leaves) := by
  have hitems := Children.items_join first child lower upper separator
  have hseparators : (Children.mk first (lower ++ (separator, child) :: upper)).separators =
      lower.map Prod.fst ++ separator :: upper.map Prod.fst := by simp [Children.separators]
  have hlive := hl.ne_none
  rw [Placed.liesIn_branch, hseparators, hitems, List.map_append, List.forall_mem_append] at hl
  obtain ⟨hcell, hlower, hupper⟩ := hl
  have hget := get?_of_branch hcell
  have hlt := lt_of_get? hget
  let half : Cell κ ν := .branch (lower.map Prod.fst)
    ((Children.mk first lower).items.map Placed.root)
  have hp₁ := hp.set hget half rfl (Placed.root_mem_ids _)
  obtain ⟨right, h', halloc, hright, hcell', hother, hc, hp'⟩ := hp₁.alloc (fun i hi => by
    rw [content_set hlt]
    split_ifs
    · exact Option.some_ne_none _
    · exact hlive i hi) (upper.map Prod.fst) ((Children.mk child upper).items.map Placed.root)
  have hkept : ∀ item ∈ (Children.mk first lower).items ++ (Children.mk child upper).items,
      item.LiesIn h.content → item.LiesIn h'.content := by
    intro item hm hi
    rw [← hitems] at hm
    refine hi.congr fun i hi => ?_
    have hi := List.mem_flatMap.2 ⟨item, hm, hi⟩
    have hid : i ≠ id := fun he => (List.nodup_cons.1 hp.nodup).1 (he ▸ hi)
    have hnot : i ≠ right := fun he => hright (he ▸ List.mem_cons_of_mem id hi)
    rw [hother i hnot, content_set hlt, if_neg hid]
  rw [List.forall_mem_append] at hkept
  have hperm := Placed.ids_cut id right first child lower upper separator
  have hleaves := Placed.leaves_cut id right first child lower upper separator
  refine ⟨right, h', ?_, ?_, ?_, ?_, ?_⟩
  · rw [splitBranch, run_bind (node_eq hget)]
    dsimp only
    rw [run_lift (cutAt?_eq (lower.map Prod.fst ++ [separator]) (upper.map Prod.fst)
      (by simp) (by simpa using hlen))]
    dsimp only
    rw [run_lift (cutAt?_eq _ _ rfl (by simpa [Children.items] using hlen))]
    dsimp only
    rw [run_lift (removeAt?_eq (lower.map Prod.fst) [] separator rfl (by simpa using hlen))]
    dsimp only
    rw [List.append_nil, run_bind (put_eq hlt _), run_bind halloc]
    rfl
  · refine Placed.liesIn_branch.2 ⟨?_, fun item hm => hkept.1 item hm (hlower item hm)⟩
    have hid : id ≠ right := fun he => hright (he ▸ List.mem_cons_self)
    rw [hother id hid, content_set hlt, if_pos rfl]; rfl
  · exact Placed.liesIn_branch.2 ⟨hcell', fun item hm => hkept.2 item hm (hupper item hm)⟩
  · exact ((Changes.set hget half (Placed.root_mem_ids _)).trans hc).perm (List.Perm.refl _) hperm
  · exact hleaves ▸ hp'.perm hperm

/-- What has grown from a node lies on the heap in its place. -/
structure Grown (before after : List NodeId) (h h' : Heap κ ν) (id : NodeId) (ids : List NodeId)
    (growth : Growth κ (Placed κ ν level)) : Prop where
  root : growth.first.root = id
  lies : ∀ item ∈ growth.items, item.LiesIn h'.content
  changes : Changes h h' ids (growth.items.flatMap Placed.ids)
  part : h'.Part before after (growth.items.flatMap Placed.ids) (growth.items.flatMap leaves)

theorem Grown.of_one {h h' : Heap κ ν} {ids : List NodeId} {placed : Placed κ ν level}
    (hg : Grown before after h h' id ids (.one placed)) :
    placed.root = id ∧ placed.LiesIn h'.content ∧ Changes h h' ids placed.ids ∧
      h'.Part before after placed.ids placed.leaves := by
  obtain ⟨hroot, hl, hc, hp⟩ := hg
  simp only [Growth.items, List.flatMap_singleton, List.forall_mem_singleton] at hl hc hp
  exact ⟨hroot, hl, hc, hp⟩

theorem Grown.of_two {h h' : Heap κ ν} {ids : List NodeId} {left right : Placed κ ν level}
    {separator : κ} (hg : Grown before after h h' id ids (.two left separator right)) :
    left.root = id ∧ left.LiesIn h'.content ∧ right.LiesIn h'.content ∧
      Changes h h' ids (left.ids ++ right.ids) ∧
      h'.Part before after (left.ids ++ right.ids) (left.leaves ++ right.leaves) := by
  obtain ⟨hroot, hl, hc, hp⟩ := hg
  simp only [Growth.items, List.flatMap_cons, List.flatMap_nil, List.append_nil,
    List.forall_mem_cons] at hl hc hp
  exact ⟨hroot, hl.1, hl.2.1, hc, hp⟩

theorem Grown.one {h h' : Heap κ ν} {ids : List NodeId} {placed : Placed κ ν level}
    (hl : placed.LiesIn h'.content) (hc : Changes h h' ids placed.ids)
    (hp : h'.Part before after placed.ids placed.leaves) :
    Grown before after h h' placed.root ids (.one placed) := by
  refine ⟨rfl, by simpa [Growth.items] using hl, ?_, ?_⟩ <;> simpa [Growth.items]

theorem Grown.two {h h' : Heap κ ν} {ids : List NodeId} {left right : Placed κ ν level} {separator : κ}
    (hl : left.LiesIn h'.content) (hr : right.LiesIn h'.content)
    (hc : Changes h h' ids (left.ids ++ right.ids))
    (hp : h'.Part before after (left.ids ++ right.ids) (left.leaves ++ right.leaves)) :
    Grown before after h h' left.root ids (.two left separator right) := by
  refine ⟨rfl, by simpa [Growth.items] using ⟨hl, hr⟩, ?_, ?_⟩ <;> simpa [Growth.items]

theorem Grown.trans {h h₁ h' : Heap κ ν} {ids ids₁ : List NodeId}
    {growth : Growth κ (Placed κ ν level)} (hc : Changes h h₁ ids ids₁)
    (hg : Grown before after h₁ h' id ids₁ growth) : Grown before after h h' id ids growth :=
  ⟨hg.root, hg.lies, hc.trans hg.changes, hg.part⟩

/-- What an insertion tells of what has grown. -/
def outcome (old : Option ν) (growth : Growth κ (Placed κ ν level)) : Outcome κ ν :=
  match old, growth with
  | some old, _ => .replaced old
  | none, .one _ => .inserted none
  | none, .two _ separator right => .inserted (some (separator, right.root))

variable {order : Order}

/-- A leaf is split if it is full. -/
theorem grow_leaf {entries : List (κ × ν)} (hl : (Placed.leaf id entries).LiesIn h.content)
    (hp : h.Part before after [id] [id]) (hle : entries.length ≤ order.val) :
    ∃ growth h', (if (entries.map Prod.fst).length < order.val then
        pure (Outcome.inserted none) else do
          return .inserted (some (← splitLeaf id)) : Run κ ν (Outcome κ ν)) h =
        some (outcome none growth, h') ∧
      growth.map Placed.node = (Leaf.split order.val entries).map Node.leaf ∧
      Grown before after h h' id [id] growth := by
  rw [List.length_map]
  rcases Leaf.split_cases hle with ⟨hlt, hs⟩ | ⟨lower, key, value, upper, he, hs, hlo, hup⟩
  · rw [if_pos hlt, hs]
    exact ⟨.one (.leaf id entries), h, rfl, rfl, .one hl (.refl h _) hp⟩
  · have hb := order.leastKeys_bounds
    subst he
    have hlen : (lower ++ (key, value) :: upper).length = order.val := by
      rw [List.length_append, List.length_cons]; omega
    obtain ⟨right, h', hrun, hl₁, hl₂, hc, hp'⟩ := splitLeaf_spec hl (by omega) hp
    rw [if_neg (by omega), run_bind hrun, hs]
    exact ⟨.two (.leaf id lower) key (.leaf right ((key, value) :: upper)), h', rfl, rfl,
      .two hl₁ hl₂ hc hp'⟩

/-- A branch is split if it is full. -/
theorem grow_branch {children : Children κ (Placed κ ν level)}
    (hl : (Placed.branch id children).LiesIn h.content)
    (hp : h.Part before after (Placed.branch id children).ids (Placed.branch id children).leaves)
    (hle : children.rest.length ≤ order.val) :
    ∃ growth h', (if children.separators.length < order.val then
        pure (Outcome.inserted none) else do
          return .inserted (some (← splitBranch id)) : Run κ ν (Outcome κ ν)) h =
        some (outcome none growth, h') ∧
      growth.map Placed.node =
        (Children.split order.val (children.map Placed.node)).map Node.branch ∧
      Grown before after h h' id (Placed.branch id children).ids growth := by
  rw [Children.separators, List.length_map]
  rcases Children.split_cases hle with ⟨hlt, hs⟩ | ⟨lower, separator, child, upper, he, hs, hlo, hup⟩
  · rw [if_pos hlt, Children.split_map, hs]
    exact ⟨.one (.branch id children), h, rfl, rfl, .one hl (.refl h _) hp⟩
  · have hb := order.leastKeys_bounds
    rw [Children.split_map, hs]
    obtain ⟨first, rest⟩ := children
    obtain rfl : rest = lower ++ (separator, child) :: upper := congrArg Children.rest he
    dsimp only
    have hlen : (lower ++ (separator, child) :: upper).length = order.val := by
      rw [List.length_append, List.length_cons]; omega
    obtain ⟨right, h', hrun, hl₁, hl₂, hc, hp'⟩ := splitBranch_spec hl (by omega) hp
    rw [if_neg (by omega), run_bind hrun]
    exact ⟨.two (.branch id ⟨first, lower⟩) separator (.branch right ⟨child, upper⟩), h', rfl, rfl,
      .two hl₁ hl₂ hc hp'⟩

/-! ## Inserting -/

section

variable [LinearOrder κ] {lo hi : Option κ} {key : κ}

/-- What inserting a key below a node comes to. Only a new key makes a node grow. -/
structure Inserted (order : Order) (key : κ) (value : ν) (before after : List NodeId) (h h' : Heap κ ν)
    (placed : Placed κ ν level) (growth : Growth κ (Placed κ ν level)) : Prop where
  node : growth.map Placed.node = (placed.node.insert order.val key value).2
  replaced : (placed.node.insert order.val key value).1 ≠ none → ∃ node, growth = .one node
  grown : Grown before after h h' placed.root placed.ids growth

theorem insertInto_leaf {entries : List (κ × ν)} (hl : (Placed.leaf id entries).LiesIn h.content)
    (hp : h.Part before after [id] [id]) (hn : entries.length < order.val) (value : ν) :
    ∃ growth h', insertInto order.val key value id h =
        some (outcome (Leaf.find? key entries) growth, h') ∧
      Inserted order key value before after h h' (.leaf id entries) growth := by
  obtain ⟨prev, next, hget⟩ := get?_of_leaf (Placed.liesIn_leaf.1 hl)
  have hlt := lt_of_get? hget
  -- the leaf is filled again with these entries, whatever they are
  have hfill (entries' : List (κ × ν)) :
      (Placed.leaf id entries').LiesIn (h.set id (some (.leaf (entries'.map Prod.fst)
        (entries'.map Prod.snd) prev next))).content := by
    rw [Placed.liesIn_leaf, content_set hlt, if_pos rfl]; rfl
  rw [insertInto, run_bind (node_eq hget)]
  dsimp only
  have hmem := List.mem_singleton_self id
  rcases search_cases key entries with ⟨lower, upper, hs⟩ | ⟨lower, entry, upper, hs⟩
  · have hle : (Leaf.insert key value entries).length ≤ order.val := by
      rw [Leaf.length_insert]; split <;> omega
    obtain ⟨growth, h', hrun, hnode, hgrown⟩ :=
      grow_leaf (hfill (Leaf.insert key value entries)) (hp.set hget _ rfl hmem) hle
    rw [hs.search, hs.find?]
    dsimp only
    rw [run_lift (hs.insertAt?_keys value), run_lift (hs.insertAt?_values value),
      run_bind (put_eq hlt _)]
    refine ⟨growth, h', hrun, ?_, fun hf => absurd hs.find? hf, .trans (.set hget _ hmem) hgrown⟩
    rw [hnode, Placed.node_leaf, Node.insert_leaf]
    cases Leaf.split order.val (Leaf.insert key value entries) <;> rfl
  · have hlen : (Leaf.insert key value entries).length < order.val := by
      rw [Leaf.length_insert, hs.find?]; exact hn
    have hvalues := hs.replaceAt?_values value
    have hkeys := hs.map_fst value
    rw [← hs.insert] at hvalues hkeys
    rw [hs.search, hs.find?]
    dsimp only
    rw [run_lift hvalues, run_bind (put_eq hlt _), ← hkeys]
    refine ⟨.one (.leaf id (Leaf.insert key value entries)), _, rfl, ?_, fun _ => ⟨_, rfl⟩,
      .one (hfill _) (.set hget _ hmem) (hp.set hget _ rfl hmem)⟩
    rw [Placed.node_leaf, Node.insert_leaf, Leaf.split, if_pos hlen]
    rfl

theorem insertInto_branch {focus : Focus κ (Placed κ ν level)} {value : ν}
    (hl : (Placed.branch id focus.close).LiesIn h.content)
    (hp : h.Part before after (Placed.branch id focus.close).ids
      (Placed.branch id focus.close).leaves)
    (hindex : childIndex key focus.separators = focus.before.length)
    (hroom : focus.separators.length < order.val)
    {old : Option ν} {growth : Growth κ (Placed κ ν level)} {h₁ : Heap κ ν}
    (hrun : insertInto order.val key value focus.here.root h = some (outcome old growth, h₁))
    (hg : Grown (before ++ Placed.leavesBefore focus) (Placed.leavesAfter focus ++ after) h h₁
      focus.here.root focus.here.ids growth)
    (hone : old ≠ none → ∃ node, growth = .one node) :
    ∃ growth' h', insertInto order.val key value id h = some (outcome old growth', h') ∧
      growth'.map Placed.node =
        (focus.map Placed.node).grow order.val (growth.map Placed.node) ∧
      (old ≠ none → ∃ node, growth' = .one node) ∧
      Grown before after h h' id (Placed.branch id focus.close).ids growth' := by
  obtain ⟨hcell, hhere, hs⟩ := Placed.liesIn_close.1 hl
  have hchild : (focus.items.map Placed.root)[childIndex key focus.separators]? =
      some focus.here.root := by
    rw [hindex, List.getElem?_map, focus.getElem?_items]; rfl
  rw [insertInto, run_bind (node_eq (get?_of_branch hcell))]
  dsimp only
  rw [run_lift hchild, run_bind hrun]
  cases growth with
  | one child =>
    obtain ⟨hroot, hchild, hc, hp'⟩ := hg.of_one
    obtain ⟨-, hl', hc', hp'⟩ := Placed.part_replace hl hp ⟨hroot, hchild, hc, hp'⟩
    refine ⟨_, h₁, ?_, ?_, fun _ => ⟨_, rfl⟩, .one hl' hc' hp'⟩
    · cases old <;> rfl
    · exact congrArg Growth.one (Placed.node_close _ _)
  | two left separator right =>
    obtain rfl : old = none := by
      by_contra ho
      obtain ⟨node, he⟩ := hone ho
      cases he
    obtain ⟨hroot, hleft, hright, hc, hp'⟩ := hg.of_two
    obtain ⟨hp₁, hc₁, hcell₁, hs₁⟩ := Placed.part_close hl hp hc hp'
    obtain ⟨hkeys, hchildren⟩ := Placed.insertAt?_spread focus left separator right hroot
    have hperm := Placed.ids_spread id focus left separator right
    have hleaves := Placed.leaves_spread id focus left separator right
    have hget₁ := get?_of_branch hcell₁
    have hlt₁ := lt_of_get? hget₁
    have hp₂ : h₁.Part before after (Placed.branch id (focus.spread left separator right).close).ids
      (Placed.branch id (focus.spread left separator right).close).leaves := hleaves ▸ hp₁.perm hperm
    have hitems : ∀ item ∈ (focus.spread left separator right).close.items,
        item.LiesIn h₁.content := by
      simp only [Focus.items_close, (focus.items_spread left separator right).mem_iff,
        List.forall_mem_cons]
      exact ⟨hleft, hright, hs₁⟩
    have hl₂ := Placed.liesIn_set hp₂.nodup hlt₁ hitems
    have hle : (focus.spread left separator right).close.rest.length ≤ order.val := by
      rw [Focus.separators, List.length_append] at hroom
      rw [Focus.length_close]
      simp only [List.length_map, List.length_reverse] at hroom
      simp only [Focus.spread, List.length_cons]
      omega
    obtain ⟨growth, h', hrun', hnode, hgrown⟩ :=
      grow_branch hl₂ (hp₂.set hget₁ _ rfl (Placed.root_mem_ids _)) hle
    refine ⟨growth, h', ?_, ?_, fun ho => absurd rfl ho, ?_⟩
    · dsimp only [outcome]
      rw [run_bind (node_eq hget₁)]
      dsimp only
      rw [hindex, run_lift hkeys, run_lift hchildren, run_bind (put_eq hlt₁ _)]
      exact hrun'
    · rw [hnode, Focus.map_close]; rfl
    · exact .trans (hc₁.perm (List.Perm.refl _) hperm)
        (.trans (.set hget₁ _ (Placed.root_mem_ids _)) hgrown)

/-- Inserting a key gets to an end and changes the heap as it changes the tree. -/
theorem insertInto_spec {placed : Placed κ ν level} (hl : placed.LiesIn h.content)
    (hp : h.Part before after placed.ids placed.leaves) (hv : placed.node.Valid order lo hi)
    (hk : Within lo hi key) (hn : placed.node.keyCount < order.val) (value : ν) :
    ∃ growth h', insertInto order.val key value placed.root h =
        some (outcome (placed.node.insert order.val key value).1 growth, h') ∧
      Inserted order key value before after h h' placed growth := by
  induction placed using Placed.induction generalizing lo hi before after with
  | leaf id entries => exact insertInto_leaf hl hp hn value
  | branch level id children ih =>
    obtain ⟨lo, hi, hw, hchild⟩ := valid_seek hv hk
    have hindex := childIndex_spec hv hk
    have hgrow := Node.insert_eq_grow order key (children.map Placed.node) value
    rw [← Focus.map_seek] at hgrow
    have hclose := Focus.close_seek key children
    revert hchild hindex hgrow hclose
    generalize Focus.seek key children = focus
    rintro hchild hindex hgrow rfl
    rw [Focus.separators_close] at hindex
    have hroom : focus.separators.length < order.val := by
      rw [← Focus.separators_close, ← Children.separators_map Placed.node, Children.separators,
        List.length_map]
      exact hn
    obtain ⟨growth, h₁, hrun, hins⟩ := ih focus.here (Placed.liesIn_close.1 hl).2.1
      (Placed.part_here hp) hchild.1 hw hchild.2.2
    obtain ⟨growth', h', hrun', hnode, hone, hgrown⟩ :=
      insertInto_branch hl hp hindex hroom hrun hins.grown hins.replaced
    rw [hins.node] at hnode
    refine ⟨growth', h', ?_, ?_, ?_, hgrown⟩
    · rw [Placed.node_branch, hgrow]; exact hrun'
    · rw [Placed.node_branch, hgrow]; exact hnode
    · rw [Placed.node_branch, hgrow]; exact hone

end

end Heap

end RelStore.Index
