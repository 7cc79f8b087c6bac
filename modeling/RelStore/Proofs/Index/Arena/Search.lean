import RelStore.Proofs.Index.Arena.Layout

/-!
# Searching in an arena

Searching the keys of a leaf finds the place at which `Leaf.find?`, `Leaf.insert`, `Leaf.erase`
and `Leaf.modify` work (`search_cases`), and the index of the child for a key is that of the
focus that `Focus.seek` moves to (`childIndex_seek`). Walking down from a node ends at a leaf:
`findIn_spec` and `modifyIn_spec` tell what is found and changed there.
-/

namespace RelStore.Index

variable {κ ν α β : Type}

/-! ## Leaves -/

section

variable [LT κ] [DecidableLT κ] {key : κ} {entries lower upper : List (κ × ν)}

/-- The key does not occur in a leaf and would have to stand between these entries. -/
structure Leaf.Missing (key : κ) (entries lower upper : List (κ × ν)) : Prop where
  cut : entries = lower ++ upper
  search : search key (entries.map Prod.fst) = .error lower.length
  find? : Leaf.find? key entries = none
  insert : ∀ value, Leaf.insert key value entries = lower ++ (key, value) :: upper
  modify : ∀ f, Leaf.modify key f entries = entries

/-- The key occurs in a leaf between these entries. -/
structure Leaf.Found (key : κ) (entries lower : List (κ × ν)) (entry : κ × ν)
    (upper : List (κ × ν)) : Prop where
  cut : entries = lower ++ entry :: upper
  search : search key (entries.map Prod.fst) = .ok lower.length
  find? : Leaf.find? key entries = some entry.2
  insert : ∀ value, Leaf.insert key value entries = lower ++ (entry.1, value) :: upper
  erase : Leaf.erase key entries = lower ++ upper
  modify : ∀ f, Leaf.modify key f entries = lower ++ (entry.1, f entry.2) :: upper

theorem search_cons_of_lt {k : κ} (hk : k < key) (keys : List κ) :
    search key (k :: keys) =
      match search key keys with
      | .ok i => .ok (i + 1)
      | .error i => .error (i + 1) := by
  unfold search
  rw [List.takeWhile_cons_of_pos (by simpa using hk)]
  dsimp only
  rw [List.length_cons, List.getElem?_cons_succ]
  cases keys[(keys.takeWhile (· < key)).length]? with
  | none => rfl
  | some k => dsimp only; split_ifs <;> rfl

namespace Leaf

section Missing

variable (h : Missing key entries lower upper)

include h

theorem Missing.cons {k : κ} (hk : k < key) (v : ν) :
    Missing key ((k, v) :: entries) ((k, v) :: lower) upper where
  cut := by rw [h.cut]; rfl
  search := by rw [List.map_cons, search_cons_of_lt hk, h.search]; rfl
  find? := by rw [Leaf.find?, if_pos hk, h.find?]
  insert value := by rw [Leaf.insert, if_pos hk, h.insert]; rfl
  modify f := by rw [Leaf.modify, if_pos hk, h.modify]

theorem Missing.insertAt?_keys (value : ν) :
    insertAt? (entries.map Prod.fst) lower.length key =
      some ((Leaf.insert key value entries).map Prod.fst) := by
  rw [insertAt?_eq (lower.map Prod.fst) (upper.map Prod.fst) key (by simp [h.cut]) (by simp),
    h.insert]
  simp

theorem Missing.insertAt?_values (value : ν) :
    insertAt? (entries.map Prod.snd) lower.length value =
      some ((Leaf.insert key value entries).map Prod.snd) := by
  rw [insertAt?_eq (lower.map Prod.snd) (upper.map Prod.snd) value (by simp [h.cut]) (by simp),
    h.insert]
  simp

end Missing

section Found

variable {entry : κ × ν} (h : Found key entries lower entry upper)

include h

theorem Found.cons {k : κ} (hk : k < key) (v : ν) :
    Found key ((k, v) :: entries) ((k, v) :: lower) entry upper where
  cut := by rw [h.cut]; rfl
  search := by rw [List.map_cons, search_cons_of_lt hk, h.search]; rfl
  find? := by rw [Leaf.find?, if_pos hk, h.find?]
  insert value := by rw [Leaf.insert, if_pos hk, h.insert]; rfl
  erase := by rw [Leaf.erase, if_pos hk, h.erase]; rfl
  modify f := by rw [Leaf.modify, if_pos hk, h.modify]; rfl

theorem Found.getElem?_values : (entries.map Prod.snd)[lower.length]? = some entry.2 := by
  simp [h.cut]

/-- Another value for the key leaves the keys as they are. -/
theorem Found.map_fst (value : ν) :
    (lower ++ (entry.1, value) :: upper).map Prod.fst = entries.map Prod.fst := by
  rw [h.cut]
  simp

theorem Found.replaceAt?_values (value : ν) :
    replaceAt? (entries.map Prod.snd) lower.length value =
      some (entry.2, (lower ++ (entry.1, value) :: upper).map Prod.snd) := by
  rw [replaceAt?_eq (lower.map Prod.snd) (upper.map Prod.snd) entry.2 value (by simp [h.cut])
    (by simp)]
  simp

theorem Found.removeAt?_keys : removeAt? (entries.map Prod.fst) lower.length =
    some (entry.1, (Leaf.erase key entries).map Prod.fst) := by
  rw [removeAt?_eq (lower.map Prod.fst) (upper.map Prod.fst) entry.1 (by simp [h.cut]) (by simp),
    h.erase, List.map_append]

theorem Found.removeAt?_values : removeAt? (entries.map Prod.snd) lower.length =
    some (entry.2, (Leaf.erase key entries).map Prod.snd) := by
  rw [removeAt?_eq (lower.map Prod.snd) (upper.map Prod.snd) entry.2 (by simp [h.cut]) (by simp),
    h.erase, List.map_append]

end Found

end Leaf

/-- Searching the keys of a leaf finds the place that all changes are made at. -/
theorem search_cases (key : κ) (entries : List (κ × ν)) :
    (∃ lower upper, Leaf.Missing key entries lower upper) ∨
      ∃ lower entry upper, Leaf.Found key entries lower entry upper := by
  induction entries with
  | nil => exact .inl ⟨[], [], rfl, rfl, rfl, fun _ => rfl, fun _ => rfl⟩
  | cons entry rest ih =>
    obtain ⟨k, v⟩ := entry
    by_cases hk : k < key
    · rcases ih with ⟨lower, upper, h⟩ | ⟨lower, entry, upper, h⟩
      · exact .inl ⟨_, _, h.cons hk v⟩
      · exact .inr ⟨_, _, _, h.cons hk v⟩
    · have hs : search key (((k, v) :: rest).map Prod.fst) =
          if key < k then .error 0 else .ok 0 := by
        unfold search
        simp [hk]
      by_cases hk' : key < k
      · rw [if_pos hk'] at hs
        refine .inl ⟨[], (k, v) :: rest, ⟨rfl, hs, ?_, fun value => ?_, fun f => ?_⟩⟩
        · rw [Leaf.find?, if_neg hk, if_pos hk']
        · rw [Leaf.insert, if_neg hk, if_pos hk']; rfl
        · rw [Leaf.modify, if_neg hk, if_pos hk']
      · rw [if_neg hk'] at hs
        refine .inr ⟨[], (k, v), rest, ⟨rfl, hs, ?_, fun value => ?_, ?_, fun f => ?_⟩⟩
        · rw [Leaf.find?, if_neg hk, if_neg hk']
        · rw [Leaf.insert, if_neg hk, if_neg hk']; rfl
        · rw [Leaf.erase, if_neg hk, if_neg hk']; rfl
        · rw [Leaf.modify, if_neg hk, if_neg hk']; rfl

end

/-! ## Branches -/

@[simp] theorem Children.separators_map (g : α → β) (children : Children κ α) :
    (children.map g).separators = children.separators := by simp [separators, map]

@[simp] theorem Children.items_map (g : α → β) (children : Children κ α) :
    (children.map g).items = children.items.map g := by simp [items, map]

section

variable [LinearOrder κ] {key : κ} {lo hi : Option κ}

theorem childIndex_append {lower upper : List κ} (hs : lower.Pairwise (· < ·))
    (hl : ∀ k ∈ lower, k ≤ key) (hu : ∀ k ∈ upper, key < k) :
    childIndex key (lower ++ upper) = lower.length := by
  have hstop : upper.takeWhile (· < key) = [] := by
    cases upper with
    | nil => rfl
    | cons k upper => simp [(hu k List.mem_cons_self).le]
  have herror : ∀ k ∈ upper[0]?, key < k := fun k hk => hu k (List.mem_of_getElem? hk)
  have hcut : ∀ lower : List κ, (∀ k ∈ lower, k < key) →
      search key (lower ++ upper) = .error lower.length := by
    intro lower hl
    unfold search
    rw [List.takeWhile_append_of_pos (by simpa using hl), hstop, List.append_nil]
    dsimp only
    rw [List.getElem?_append_right le_rfl, Nat.sub_self]
    cases hk : upper[0]? with
    | none => rfl
    | some k => exact if_pos (herror k hk)
  rcases List.eq_nil_or_concat' lower with rfl | ⟨init, last, rfl⟩
  · rw [childIndex, hcut [] (by simp)]
  · have hlast : last ≤ key := hl last (by simp)
    have hinit : ∀ k ∈ init, k < key := fun k hk =>
      ((List.pairwise_append.1 hs).2.2 k hk last (by simp)).trans_le hlast
    rcases hlast.lt_or_eq with hlt | rfl
    · rw [childIndex, hcut _ (by simpa [or_imp, forall_and] using ⟨hinit, hlt⟩)]
    · have hf : search last (init ++ [last] ++ upper) = .ok init.length := by
        unfold search
        rw [List.append_assoc, List.takeWhile_append_of_pos (by simpa using hinit)]
        simp
      rw [childIndex, hf, List.length_append]
      rfl

/-- The child for a key stands where seeking the key leads. -/
theorem childIndex_seek {P : Option κ → Option κ → α → Prop}
    (hP : ∀ lo hi a, P lo hi a → Apart lo hi) {children : Children κ α}
    (h : children.Chained P lo hi) (hk : Within lo hi key) :
    childIndex key children.separators = (Focus.seek key children).before.length := by
  obtain ⟨hs, -⟩ := h.separators hP
  obtain ⟨-, hlow, hhigh⟩ := Focus.chained_seek h hk
  rw [← Focus.close_seek key children, Focus.separators_close] at hs ⊢
  rw [Focus.close_seek]
  revert hs hlow hhigh
  obtain ⟨before, here, after⟩ := Focus.seek key children
  intro hs hlow hhigh
  obtain ⟨hl, hu, hlu⟩ := List.pairwise_append.1 hs
  have hlen : (before.reverse.map Prod.snd).length = before.length := by simp
  refine (childIndex_append hl ?_ ?_).trans hlen
  · cases before with
    | nil => simp
    | cons sibling before =>
      rw [List.reverse_cons, List.map_append, List.pairwise_append] at hl
      rw [List.reverse_cons, List.map_append, List.forall_mem_append]
      have hle : sibling.2 ≤ key := hlow sibling.2 rfl
      exact ⟨fun s hs => (hl.2.2 s hs sibling.2 (by simp)).le.trans hle, by simpa using hle⟩
  · cases after with
    | nil => simp
    | cons sibling after =>
      rw [List.map_cons] at hu ⊢
      have hlt : key < sibling.1 := hhigh sibling.1 rfl
      exact List.forall_mem_cons.2 ⟨hlt, fun s hs => hlt.trans ((List.pairwise_cons.1 hu).1 s hs)⟩

end

/-! ## The leaves of a tree -/

namespace Placed

variable {level : Nat} {content : NodeId → Option (Cell κ ν)}

/-- The leaves from left to right, each with its entries. -/
def pieces : {level : Nat} → Placed κ ν level → List (NodeId × List (κ × ν))
  | 0, (placed : NodeId × List (κ × ν)) => [placed]
  | _ + 1, (placed : NodeId × Children κ (Placed κ ν _)) => placed.2.items.flatMap pieces

@[simp] theorem pieces_leaf (id : NodeId) (entries : List (κ × ν)) :
    (leaf id entries).pieces = [(id, entries)] := rfl

@[simp] theorem pieces_branch (id : NodeId) (children : Children κ (Placed κ ν level)) :
    (branch id children).pieces = children.items.flatMap pieces := rfl

theorem map_fst_pieces (placed : Placed κ ν level) : placed.pieces.map Prod.fst = placed.leaves := by
  induction placed using Placed.induction with
  | leaf id entries => rfl
  | branch level id children ih =>
    rw [pieces_branch, leaves_branch, List.map_flatMap]
    simp only [ih]

theorem flatMap_snd_pieces (placed : Placed κ ν level) :
    placed.pieces.flatMap Prod.snd = placed.node.toList := by
  induction placed using Placed.induction with
  | leaf id entries => exact List.append_nil entries
  | branch level id children ih =>
    rw [pieces_branch, List.flatMap_assoc, node_branch, Node.toList_branch, Children.flat]
    simp only [ih, Children.items, Children.map, List.flatMap_cons, List.flatMap_map]
    rfl

theorem LiesIn.pieces {placed : Placed κ ν level} (h : placed.LiesIn content) :
    ∀ piece ∈ placed.pieces, (leaf piece.1 piece.2).LiesIn content := by
  induction placed using Placed.induction with
  | leaf id entries => exact List.forall_mem_singleton.2 h
  | branch level id children ih =>
    intro piece hm
    obtain ⟨child, hc, hm⟩ := List.mem_flatMap.1 hm
    exact ih child (h.2 child hc) piece hm

end Placed

/-! ## Walking down -/

namespace Heap

open NodeId

variable {h : Heap κ ν} {level : Nat} {choose : List κ → List NodeId → Option NodeId}

theorem descend_leaf {id : NodeId} {entries : List (κ × ν)}
    (hl : (Placed.leaf id entries).LiesIn h.content) : descend choose id h = some (id, h) := by
  obtain ⟨prev, next, hget⟩ := get?_of_leaf (Placed.liesIn_leaf.1 hl)
  rw [descend, run_bind (node_eq hget)]
  rfl

theorem descend_branch {id : NodeId} {children : Children κ (Placed κ ν level)}
    (hl : (Placed.branch id children).LiesIn h.content) (child : NodeId)
    (hc : choose children.separators (children.items.map Placed.root) = some child) :
    descend choose id h = descend choose child h := by
  rw [descend, run_bind (node_eq (get?_of_branch (Placed.liesIn_branch.1 hl).1))]
  dsimp only
  rw [run_lift hc]

theorem firstLeaf_spec {placed : Placed κ ν level} (hl : placed.LiesIn h.content) :
    ∃ id upper, firstLeaf placed.root h = some (id, h) ∧
      placed.pieces = (id, placed.node.firstLeaf) :: upper := by
  unfold firstLeaf
  induction placed using Placed.induction with
  | leaf id entries => exact ⟨id, [], descend_leaf hl, rfl⟩
  | branch level id children ih =>
    obtain ⟨leaf, upper, hrun, hp⟩ := ih children.first (hl.2 _ List.mem_cons_self)
    rw [Placed.root_branch, descend_branch hl children.first.root rfl]
    refine ⟨leaf, upper ++ (children.rest.map Prod.snd).flatMap Placed.pieces, hrun, ?_⟩
    rw [Placed.pieces_branch, Children.items, List.flatMap_cons, hp]
    rfl

theorem lastLeaf_spec {placed : Placed κ ν level} (hl : placed.LiesIn h.content) :
    ∃ id lower, lastLeaf placed.root h = some (id, h) ∧
      placed.pieces = lower ++ [(id, placed.node.lastLeaf)] := by
  unfold lastLeaf
  induction placed using Placed.induction with
  | leaf id entries => exact ⟨id, [], descend_leaf hl, rfl⟩
  | branch level id children ih =>
    obtain ⟨first, rest⟩ := children
    rcases List.eq_nil_or_concat' rest with rfl | ⟨lower, ⟨separator, last⟩, rfl⟩
    · obtain ⟨leaf, lower, hrun, hp⟩ := ih first (hl.2 _ List.mem_cons_self)
      rw [Placed.root_branch, descend_branch hl first.root rfl]
      refine ⟨leaf, lower, hrun, ?_⟩
      rw [Placed.pieces_branch, Children.items, List.map_nil, List.flatMap_singleton, hp]
      rfl
    · have hm : last ∈ (Children.mk first (lower ++ [(separator, last)])).items := by
        simp [Children.items]
      have hlast : (Placed.branch id ⟨first, lower ++ [(separator, last)]⟩).node.lastLeaf =
          last.node.lastLeaf := by
        simp [Children.map, Node.lastLeaf_branch_concat]
      obtain ⟨leaf, lower', hrun, hp⟩ := ih last ((Placed.liesIn_branch.1 hl).2 last hm)
      rw [Placed.root_branch, descend_branch hl last.root (by
        simp [Children.items, difference?]), hlast]
      refine ⟨leaf, (Children.mk first lower).items.flatMap Placed.pieces ++ lower', hrun, ?_⟩
      simp [Children.items, hp]

theorem height_spec {placed : Placed κ ν level} (hl : placed.LiesIn h.content) :
    height placed.root h = some (level + 1, h) := by
  induction placed using Placed.induction with
  | leaf id entries =>
    obtain ⟨prev, next, hget⟩ := get?_of_leaf (Placed.liesIn_leaf.1 hl)
    rw [Placed.root_leaf, height, run_bind (node_eq hget)]
    rfl
  | branch level id children ih =>
    have hfirst : (children.items.map Placed.root)[0]? = some children.first.root := rfl
    rw [Placed.root_branch, height,
      run_bind (node_eq (get?_of_branch (Placed.liesIn_branch.1 hl).1))]
    dsimp only
    rw [run_lift hfirst, run_bind (ih children.first (hl.2 _ List.mem_cons_self))]
    rfl

section

variable [LinearOrder κ] {order : Order} {lo hi : Option κ} {key : κ}

/-- The child that a key belongs to is the one that the separators lead to. -/
theorem childIndex_spec {id : NodeId} {children : Children κ (Placed κ ν level)}
    (hv : (Placed.branch id children).node.Valid order lo hi) (hk : Within lo hi key) :
    childIndex key children.separators = (Focus.seek key children).before.length := by
  have hc := childIndex_seek (fun _ _ _ hc => hc.1.apart) (Node.valid_branch.1 hv) hk
  rw [Children.separators_map, ← Focus.map_seek] at hc
  exact hc.trans (List.length_map _)

/-- What is known of the child that a key belongs to. -/
theorem valid_seek {id : NodeId} {children : Children κ (Placed κ ν level)}
    (hv : (Placed.branch id children).node.Valid order lo hi) (hk : Within lo hi key) :
    ∃ lo hi, Within lo hi key ∧ (Focus.seek key children).here.node.ValidChild order lo hi := by
  obtain ⟨hc, hw⟩ := Focus.chained_seek (Node.valid_branch.1 hv) hk
  rw [← Focus.map_seek] at hc hw
  exact ⟨_, _, hw, hc.2.1⟩

/-- The leaf for a key, what comes behind it, and what it is to change the value there. -/
structure LeafFor (h : Heap κ ν) (key : κ) (placed : Placed κ ν level) (id : NodeId)
    (entries : List (κ × ν)) : Prop where
  cut : ∃ lower upper, placed.pieces = lower ++ (id, entries) :: upper ∧
    ∀ skip, placed.node.scanFrom key skip =
      entries.dropWhile (fun entry => skip entry.1) ++ upper.flatMap Prod.snd
  lies : (Placed.leaf id entries).LiesIn h.content
  mem_ids : id ∈ placed.ids
  find? : placed.node.find? key = Leaf.find? key entries
  modify : ∀ (f : ν → ν) (content' : NodeId → Option (Cell κ ν)),
    (Placed.leaf id (Leaf.modify key f entries)).LiesIn content' →
    (∀ i, i ≠ id → content' i = h.content i) →
    ∃ placed', placed.SamePlaces placed' ∧ placed'.node = placed.node.modify key f ∧
      placed'.LiesIn content'

theorem leafFor_spec {placed : Placed κ ν level} (hl : placed.LiesIn h.content)
    (hn : placed.ids.Nodup) (hv : placed.node.Valid order lo hi) (hk : Within lo hi key) :
    ∃ id entries, leafFor key placed.root h = some (id, h) ∧ h.LeafFor key placed id entries := by
  unfold leafFor
  induction placed using Placed.induction generalizing lo hi with
  | leaf id entries =>
    refine ⟨id, entries, descend_leaf hl, ⟨[], [], rfl, fun skip => (List.append_nil _).symm⟩, hl,
      List.mem_singleton_self id, rfl, fun f content' hl' _ => ?_⟩
    exact ⟨Placed.leaf id (Leaf.modify key f entries), ⟨rfl, rfl, rfl⟩, rfl, hl'⟩
  | branch level id children ih =>
    obtain ⟨lo, hi, hw, hchild⟩ := valid_seek hv hk
    have hindex := childIndex_spec hv hk
    have hfind : (Placed.branch id children).node.find? key =
        (Focus.seek key children).here.node.find? key := by
      rw [Placed.node_branch, Node.find?_branch, ← Focus.map_seek]; rfl
    have hmodify (f : ν → ν) : (Placed.branch id children).node.modify key f =
        Node.branch { (Focus.seek key children).map Placed.node with
          here := (Focus.seek key children).here.node.modify key f }.close := by
      rw [Placed.node_branch, Node.modify_branch, ← Focus.map_seek]; rfl
    have hscan (skip : κ → Bool) : (Placed.branch id children).node.scanFrom key skip =
        (Focus.seek key children).here.node.scanFrom key skip ++
          (Focus.seek key children).after.flatMap (·.2.node.toList) := by
      rw [Placed.node_branch, Node.scanFrom_branch, ← Focus.map_seek]
      simp [Focus.map, List.flatMap_map]
    have hclose := Focus.close_seek key children
    revert hchild hindex hfind hmodify hscan hclose
    generalize Focus.seek key children = focus
    rintro hchild hindex hfind hmodify hscan rfl
    have hhere := (Placed.liesIn_close.1 hl).2.1
    obtain ⟨leaf, entries, hrun, hfor⟩ := ih focus.here hhere (Placed.here_ids_nodup hn) hchild.1 hw
    refine ⟨leaf, entries, ?_, ?_, hfor.lies, ?_, hfind.trans hfor.find?,
      fun f content' hl' ho => ?_⟩
    · rw [Placed.root_branch, descend_branch hl focus.here.root, hrun]
      rw [hindex, Focus.items_close, List.getElem?_map, focus.getElem?_items]
      rfl
    · obtain ⟨lower, upper, hp, hskip⟩ := hfor.cut
      refine ⟨(focus.before.reverse.map Prod.fst).flatMap Placed.pieces ++ lower,
        upper ++ (focus.after.map Prod.snd).flatMap Placed.pieces, ?_, fun skip => ?_⟩
      · rw [Placed.pieces_branch, Focus.items_close, Focus.items, List.flatMap_append,
          List.flatMap_cons, hp]
        simp
      · rw [hscan, hskip, List.flatMap_append, List.flatMap_assoc, List.flatMap_map]
        simp only [Placed.flatMap_snd_pieces, List.append_assoc]
    · exact (Placed.ids_close id focus).mem_iff.2 (List.mem_append_right _ hfor.mem_ids)
    · obtain ⟨here, hsame, hnode, hlies⟩ := hfor.modify f content' hl' ho
      have hkept : ∀ i ∈ Placed.around id focus, content' i = h.content i := fun i hi =>
        ho i fun he => Placed.not_mem_around hn hfor.mem_ids (he ▸ hi)
      rw [Placed.around, List.forall_mem_cons] at hkept
      obtain ⟨hcell, -, hs⟩ := Placed.liesIn_close.1 hl
      refine ⟨_, hsame.close, ?_, Placed.liesIn_close.2 ⟨?_, hlies, fun sibling hm => ?_⟩⟩
      · rw [Placed.node_close, hmodify, ← hnode]; rfl
      · rw [hkept.1, hcell, Focus.items, List.map_append, List.map_cons, ← hsame.root,
          ← List.map_cons, ← List.map_append]
        rfl
      · refine (hs sibling hm).congr fun i hi => hkept.2 i ?_
        exact List.mem_flatMap.2 ⟨sibling, hm, hi⟩

/-- Looking a key up gets to an end and finds what the tree has. -/
theorem findIn_spec {placed : Placed κ ν level} (hl : placed.LiesIn h.content)
    (hn : placed.ids.Nodup) (hv : placed.node.Valid order lo hi) (hk : Within lo hi key) :
    findIn key placed.root h = some (placed.node.find? key, h) := by
  obtain ⟨leaf, entries, hrun, hfor⟩ := leafFor_spec hl hn hv hk
  obtain ⟨prev, next, hget⟩ := get?_of_leaf (Placed.liesIn_leaf.1 hfor.lies)
  rw [findIn, run_bind hrun, run_bind (node_eq hget), hfor.find?]
  rcases search_cases key entries with ⟨lower, upper, hs⟩ | ⟨lower, entry, upper, hs⟩
  · rw [hs.find?]
    dsimp only
    rw [hs.search]
    rfl
  · rw [hs.find?]
    dsimp only
    rw [hs.search]
    dsimp only
    rw [hs.getElem?_values]
    rfl

/-- Changing the value of a key gets to an end and changes it as in the tree. -/
theorem modifyIn_spec {placed : Placed κ ν level} (hl : placed.LiesIn h.content)
    {before after : List NodeId} (hp : h.Part before after placed.ids placed.leaves)
    (hv : placed.node.Valid order lo hi) (hk : Within lo hi key) (f : ν → ν) :
    ∃ h' placed', modifyIn key f placed.root h = some (placed.node.find? key, h') ∧
      placed.SamePlaces placed' ∧ placed'.node = placed.node.modify key f ∧
      placed'.LiesIn h'.content ∧ h'.Part before after placed.ids placed.leaves := by
  obtain ⟨leaf, entries, hrun, hfor⟩ := leafFor_spec hl hp.nodup hv hk
  obtain ⟨prev, next, hget⟩ := get?_of_leaf (Placed.liesIn_leaf.1 hfor.lies)
  rw [modifyIn, run_bind hrun, run_bind (node_eq hget), hfor.find?]
  dsimp only
  rcases search_cases key entries with ⟨lower, upper, hs⟩ | ⟨lower, entry, upper, hs⟩
  · rw [hs.search, hs.find?]
    obtain ⟨placed', hsame, hnode, hlies⟩ :=
      hfor.modify f h.content ((hs.modify f).symm ▸ hfor.lies) fun _ _ => rfl
    exact ⟨h, placed', rfl, hsame, hnode, hlies, hp⟩
  · rw [hs.search, hs.find?]
    have hlt := lt_of_get? hget
    have hvalues := hs.replaceAt?_values (f entry.2)
    have hkeys := hs.map_fst (f entry.2)
    rw [← hs.modify] at hvalues hkeys
    obtain ⟨placed', hsame, hnode, hlies⟩ := hfor.modify f
      (h.set leaf (some (.leaf (entries.map Prod.fst)
        ((Leaf.modify key f entries).map Prod.snd) prev next))).content
      (by rw [Placed.liesIn_leaf, content_set hlt, if_pos rfl, hkeys]; rfl)
      fun i hi => by rw [content_set hlt, if_neg hi]
    refine ⟨_, placed', ?_, hsame, hnode, hlies, hp.set hget _ rfl hfor.mem_ids⟩
    dsimp only
    rw [run_lift hs.getElem?_values, run_lift hvalues, run_bind (put_eq hlt _)]
    rfl

end

end Heap

end RelStore.Index
