import RelStore.Proofs.Index.Arena.Program
import RelStore.Proofs.Index.Valid

/-!
# Trees laid out on a heap

A `Placed` tree is a tree whose nodes have indices. `Placed.LiesIn` says that the cells at these
indices hold what the nodes hold, and `Linked` that leaves are linked in their order. A `Part` of
a tree is given by its indices and by its leaves between the others in the chain; `Changes` says
which indices a step touches and which come in their place. `Placed.part_here` goes from a branch
to the child in a focus, and `Placed.part_close` back after a step there.
-/

namespace RelStore.Index

variable {κ ν α β : Type}

/-! ## Children in a row -/

/-- A function applied to all children. -/
def Children.map (g : α → β) (children : Children κ α) : Children κ β :=
  ⟨g children.first, children.rest.map (Prod.map id g)⟩

/-- A function applied to all that has grown. -/
def Growth.map (g : α → β) : Growth κ α → Growth κ β
  | .one node => .one (g node)
  | .two left separator right => .two (g left) separator (g right)

/-- All that has grown, from left to right. -/
def Growth.items : Growth κ α → List α
  | .one node => [node]
  | .two left _ right => [left, right]

/-- The first of what has grown. -/
def Growth.first : Growth κ α → α
  | .one node => node
  | .two left _ _ => left

namespace Focus

/-- The children from left to right. -/
def items (focus : Focus κ α) : List α :=
  focus.before.reverse.map Prod.fst ++ focus.here :: focus.after.map Prod.snd

/-- The separators from left to right. -/
def separators (focus : Focus κ α) : List κ :=
  focus.before.reverse.map Prod.snd ++ focus.after.map Prod.fst

/-- A function applied to all children. -/
def map (g : α → β) (focus : Focus κ α) : Focus κ β :=
  ⟨focus.before.map (Prod.map g id), g focus.here, focus.after.map (Prod.map id g)⟩

/-- The children beside the one in the focus. -/
def siblings (focus : Focus κ α) : List α :=
  focus.before.reverse.map Prod.fst ++ focus.after.map Prod.snd

theorem items_perm (focus : Focus κ α) : focus.items.Perm (focus.here :: focus.siblings) :=
  List.perm_middle

/-- The focus with two children in the place of one. -/
def spread (focus : Focus κ α) (left : α) (separator : κ) (right : α) : Focus κ α :=
  { focus with here := left, after := (separator, right) :: focus.after }

theorem items_spread (focus : Focus κ α) (left : α) (separator : κ) (right : α) :
    (focus.spread left separator right).items.Perm (left :: right :: focus.siblings) := by
  refine List.perm_middle.trans (List.Perm.cons left ?_)
  exact List.perm_middle

theorem separators_spread (focus : Focus κ α) (left : α) (separator : κ) (right : α) :
    (focus.spread left separator right).separators =
      focus.before.reverse.map Prod.snd ++ separator :: focus.after.map Prod.fst := rfl

theorem length_separators (focus : Focus κ α) :
    focus.separators.length = focus.before.length + focus.after.length := by
  simp [separators]

theorem getElem?_items (focus : Focus κ α) :
    focus.items[focus.before.length]? = some focus.here := by simp [items]

theorem getElem?_items_succ (focus : Focus κ α) :
    focus.items[focus.before.length + 1]? = focus.after.head?.map Prod.snd := by
  rw [items, List.getElem?_append_right (by simp)]
  simp [List.head?_eq_getElem?]

theorem getElem?_items_left (left : α) (separator : κ) (before : List (α × κ)) (here : α)
    (after : List (κ × α)) :
    (Focus.mk ((left, separator) :: before) here after).items[before.length]? = some left := by
  simp [items]

theorem items_close (focus : Focus κ α) : focus.close.items = focus.items := by
  obtain ⟨before, here, after⟩ := focus
  unfold close
  dsimp only
  induction before generalizing here after with
  | nil => rfl
  | cons sibling before ih => rw [closeFrom, ih]; simp [items]

theorem separators_close (focus : Focus κ α) : focus.close.separators = focus.separators := by
  obtain ⟨before, here, after⟩ := focus
  unfold close
  dsimp only
  induction before generalizing here after with
  | nil => rfl
  | cons sibling before ih => rw [closeFrom, ih]; simp [separators]

theorem map_close (g : α → β) (focus : Focus κ α) : focus.close.map g = (focus.map g).close := by
  obtain ⟨before, here, after⟩ := focus
  unfold close map
  dsimp only
  induction before generalizing here after with
  | nil => rfl
  | cons sibling before ih => rw [closeFrom, ih]; rfl

theorem map_seek [LT κ] [DecidableLT κ] (g : α → β) (key : κ) (children : Children κ α) :
    (seek key children).map g = seek key (children.map g) := by
  have hfrom : ∀ (before : List (α × κ)) (here : α) (after : List (κ × α)),
      (seekFrom key before here after).map g =
        seekFrom key (before.map (Prod.map g id)) (g here) (after.map (Prod.map id g)) := by
    intro before here after
    induction after generalizing before here with
    | nil => rfl
    | cons sibling after ih =>
      obtain ⟨separator, next⟩ := sibling
      rw [seekFrom]
      show _ = seekFrom key _ _ ((separator, g next) :: after.map (Prod.map id g))
      rw [seekFrom]
      split_ifs
      · rfl
      · rw [ih]; rfl
  exact hfrom [] children.first children.rest

end Focus

/-! ## Placed trees -/

/-- A node with the index of its cell, and so all nodes below it. -/
def Placed (κ ν : Type) : Nat → Type
  | 0 => NodeId × List (κ × ν)
  | level + 1 => NodeId × Children κ (Placed κ ν level)

namespace Placed

variable {level : Nat}

/-- A leaf at an index. -/
def leaf (id : NodeId) (entries : List (κ × ν)) : Placed κ ν 0 := (id, entries)

/-- A branch at an index. -/
def branch (id : NodeId) (children : Children κ (Placed κ ν level)) : Placed κ ν (level + 1) :=
  (id, children)

/-- What holds for leaves, and for branches over nodes that it holds for, holds for all nodes. -/
@[elab_as_elim]
theorem induction {motive : (level : Nat) → Placed κ ν level → Prop}
    (leaf : ∀ id entries, motive 0 (leaf id entries))
    (branch : ∀ (level : Nat) (id : NodeId) (children : Children κ (Placed κ ν level)),
      (∀ child, motive level child) → motive (level + 1) (branch id children)) :
    ∀ {level : Nat} (placed : Placed κ ν level), motive level placed
  | 0, (id, entries) => leaf id entries
  | level + 1, (id, children) =>
    branch level id children fun child => induction leaf branch child

/-- The index of the node. -/
def root : {level : Nat} → Placed κ ν level → NodeId
  | 0, (placed : NodeId × List (κ × ν)) => placed.1
  | _ + 1, (placed : NodeId × Children κ (Placed κ ν _)) => placed.1

/-- The node without the indices. -/
def node : {level : Nat} → Placed κ ν level → Node κ ν level
  | 0, (placed : NodeId × List (κ × ν)) => Node.leaf placed.2
  | _ + 1, (placed : NodeId × Children κ (Placed κ ν _)) => Node.branch (placed.2.map node)

/-- The indices of all nodes. -/
def ids : {level : Nat} → Placed κ ν level → List NodeId
  | 0, (placed : NodeId × List (κ × ν)) => [placed.1]
  | _ + 1, (placed : NodeId × Children κ (Placed κ ν _)) => placed.1 :: placed.2.items.flatMap ids

/-- The indices of the leaves from left to right. -/
def leaves : {level : Nat} → Placed κ ν level → List NodeId
  | 0, (placed : NodeId × List (κ × ν)) => [placed.1]
  | _ + 1, (placed : NodeId × Children κ (Placed κ ν _)) => placed.2.items.flatMap leaves

/-- The cells hold what the nodes hold. -/
def LiesIn (content : NodeId → Option (Cell κ ν)) : {level : Nat} → Placed κ ν level → Prop
  | 0, (placed : NodeId × List (κ × ν)) =>
    content placed.1 =
      some (.leaf (placed.2.map Prod.fst) (placed.2.map Prod.snd) none none)
  | _ + 1, (placed : NodeId × Children κ (Placed κ ν _)) =>
    content placed.1 = some (.branch placed.2.separators (placed.2.items.map root)) ∧
      ∀ child ∈ placed.2.items, child.LiesIn content

@[simp] theorem root_leaf (id : NodeId) (entries : List (κ × ν)) : (leaf id entries).root = id := rfl

@[simp] theorem root_branch (id : NodeId) (children : Children κ (Placed κ ν level)) :
    (branch id children).root = id := rfl

@[simp] theorem node_leaf (id : NodeId) (entries : List (κ × ν)) :
    (leaf id entries).node = Node.leaf entries := rfl

@[simp] theorem node_branch (id : NodeId) (children : Children κ (Placed κ ν level)) :
    (branch id children).node = Node.branch (children.map node) := rfl

@[simp] theorem ids_leaf (id : NodeId) (entries : List (κ × ν)) : (leaf id entries).ids = [id] := rfl

@[simp] theorem ids_branch (id : NodeId) (children : Children κ (Placed κ ν level)) :
    (branch id children).ids = id :: children.items.flatMap ids := rfl

@[simp] theorem leaves_leaf (id : NodeId) (entries : List (κ × ν)) :
    (leaf id entries).leaves = [id] := rfl

@[simp] theorem leaves_branch (id : NodeId) (children : Children κ (Placed κ ν level)) :
    (branch id children).leaves = children.items.flatMap leaves := rfl

variable {content content' : NodeId → Option (Cell κ ν)}

theorem liesIn_leaf {id : NodeId} {entries : List (κ × ν)} : (leaf id entries).LiesIn content ↔
    content id = some (.leaf (entries.map Prod.fst) (entries.map Prod.snd) none none) := Iff.rfl

theorem liesIn_branch {id : NodeId} {children : Children κ (Placed κ ν level)} :
    (branch id children).LiesIn content ↔
      content id = some (.branch children.separators (children.items.map root)) ∧
        ∀ child ∈ children.items, child.LiesIn content := Iff.rfl

theorem root_mem_ids (placed : Placed κ ν level) : placed.root ∈ placed.ids := by
  induction placed using Placed.induction with
  | leaf id entries => exact List.mem_singleton_self id
  | branch level id children _ => exact List.mem_cons_self

/-- A tree lies wherever its cells are the same. -/
theorem LiesIn.congr {placed : Placed κ ν level} (h : placed.LiesIn content)
    (hc : ∀ i ∈ placed.ids, content' i = content i) : placed.LiesIn content' := by
  induction placed using Placed.induction with
  | leaf id entries => exact (hc id (List.mem_singleton_self id)).trans h
  | branch level id children ih =>
    rw [ids_branch, List.forall_mem_cons] at hc
    refine liesIn_branch.2 ⟨hc.1.trans h.1, fun child hm => ih child (h.2 child hm) ?_⟩
    exact fun i hi => hc.2 i (List.mem_flatMap.2 ⟨child, hm, hi⟩)

theorem LiesIn.ne_none {placed : Placed κ ν level} (h : placed.LiesIn content) :
    ∀ i ∈ placed.ids, content i ≠ none := by
  induction placed using Placed.induction with
  | leaf id entries =>
    intro i hi hn
    obtain rfl := List.mem_singleton.1 hi
    exact Option.some_ne_none _ (h.symm.trans hn)
  | branch level id children ih =>
    rw [ids_branch, List.forall_mem_cons, (liesIn_branch.1 h).1]
    refine ⟨Option.some_ne_none _, fun i hi => ?_⟩
    obtain ⟨child, hm, hi⟩ := List.mem_flatMap.1 hi
    exact ih child (h.2 child hm) i hi

theorem flatMap_leaves_sublist {items : List (Placed κ ν level)}
    (h : ∀ child ∈ items, child.leaves.Sublist child.ids) :
    (items.flatMap leaves).Sublist (items.flatMap ids) := by
  induction items with
  | nil => exact List.Sublist.slnil
  | cons child items ih =>
    rw [List.forall_mem_cons] at h
    rw [List.flatMap_cons, List.flatMap_cons]
    exact h.1.append (ih h.2)

theorem leaves_sublist (placed : Placed κ ν level) : placed.leaves.Sublist placed.ids := by
  induction placed using Placed.induction with
  | leaf id entries => exact List.Sublist.refl _
  | branch level id children ih =>
    exact (flatMap_leaves_sublist fun child _ => ih child).trans (List.sublist_cons_self ..)

/-- Two placed trees at the same indices. -/
structure SamePlaces (placed placed' : Placed κ ν level) : Prop where
  root : placed'.root = placed.root
  ids : placed'.ids = placed.ids
  leaves : placed'.leaves = placed.leaves

end Placed

/-! ## Linked leaves -/

/-- Leaves that are linked in this order, between `prev` and `next`. -/
def Linked (links : NodeId → Option (Option NodeId × Option NodeId)) (prev : Option NodeId) :
    List NodeId → Option NodeId → Prop
  | [], _ => True
  | i :: rest, next =>
    links i = some (prev, rest.head?.or next) ∧ Linked links (some i) rest next

namespace Linked

variable {links links' : NodeId → Option (Option NodeId × Option NodeId)} {prev next : Option NodeId}

theorem append {xs ys : List NodeId} : Linked links prev (xs ++ ys) next ↔
    Linked links prev xs (ys.head?.or next) ∧ Linked links (xs.getLast?.or prev) ys next := by
  induction xs generalizing prev with
  | nil => simp [Linked]
  | cons i xs ih =>
    rw [List.cons_append, Linked, Linked, ih, and_assoc, List.head?_append, Option.or_assoc,
      List.getLast?_cons, Option.or_some, Option.some_or]

theorem middle {before after : List NodeId} {i : NodeId} :
    Linked links none (before ++ i :: after) none ↔ Linked links none before (some i) ∧
      links i = some (before.getLast?, after.head?) ∧ Linked links (some i) after none := by
  simp only [append, Linked, Option.or_none, List.head?_cons]

theorem congr {xs : List NodeId} (h : Linked links prev xs next)
    (hl : ∀ i ∈ xs, links' i = links i) : Linked links' prev xs next := by
  induction xs generalizing prev with
  | nil => trivial
  | cons i xs ih =>
    rw [List.forall_mem_cons] at hl
    exact ⟨hl.1.trans h.1, ih h.2 hl.2⟩

theorem ne_none {xs : List NodeId} (h : Linked links prev xs next) : ∀ i ∈ xs, links i ≠ none := by
  induction xs generalizing prev with
  | nil => simp
  | cons i xs ih =>
    refine List.forall_mem_cons.2 ⟨?_, ih h.2⟩
    rw [h.1]
    exact Option.some_ne_none _

end Linked

/-! ## What a step changes -/

namespace Heap

variable {h h₁ h' : Heap κ ν} {ids ids₁ ids' leaves leaves' : List NodeId}

theorem content_eq_none {i : NodeId} : h.content i = none ↔ h.get? i = none := Option.map_eq_none_iff

theorem content_ne_none_of_links {i : NodeId} (hi : h.links i ≠ none) : h.content i ≠ none := fun hn =>
  hi (by rw [links, content_eq_none.1 hn]; rfl)

/-- The first of some linked leaves, where there is one, is told of another in front of it. -/
theorem setPrev_spec {prev : Option NodeId} {after : List NodeId} (ht : h.Tidy) (hn : after.Nodup)
    (hl : Linked h.links prev after none) (i : NodeId) :
    ∃ h', setPrev i after.head? h = some ((), h') ∧ h'.Tidy ∧ h'.content = h.content ∧
      Linked h'.links (some i) after none ∧ ∀ j ∉ after, h'.links j = h.links j := by
  cases after with
  | nil => exact ⟨h, rfl, ht, rfl, trivial, fun _ _ => rfl⟩
  | cons next rest =>
    obtain ⟨hlinks, hrest⟩ := hl
    rw [Option.or_none] at hlinks
    obtain ⟨keys, values, hget⟩ := get?_of_links hlinks
    have hlt := lt_of_get? hget
    refine ⟨h.set next (some (.leaf keys values (some i) rest.head?)), ?_,
      ht.set (ht.not_mem_free hget) _, funext fun j => ?_, ⟨?_, hrest.congr fun j hj => ?_⟩,
      fun j hj => ?_⟩
    · show setPrev i (some next) h = _
      rw [setPrev, run_bind (node_eq hget)]
      exact put_eq hlt _
    · rw [content_set hlt]
      split_ifs with hj
      · rw [hj, content, hget]; rfl
      · rfl
    · rw [links_set hlt, if_pos rfl, Option.or_none]; rfl
    · have hne : j ≠ next := fun he => (List.nodup_cons.1 hn).1 (he ▸ hj)
      rw [links_set hlt, if_neg hne]
    · have hne : j ≠ next := fun he => hj (he ▸ List.mem_cons_self)
      rw [links_set hlt, if_neg hne]

/-- A step that changes no cells but those at `ids`, in whose place those at `ids'` come. -/
structure Changes (h h' : Heap κ ν) (ids ids' : List NodeId) : Prop where
  fresh : ∀ i ∈ ids', i ∈ ids ∨ h.content i = none
  kept : ∀ i ∉ ids, h.content i ≠ none → h'.content i = h.content i

namespace Changes

theorem refl (h : Heap κ ν) (ids : List NodeId) : Changes h h ids ids :=
  ⟨fun _ hi => .inl hi, fun _ _ _ => rfl⟩

theorem trans (hc : Changes h h₁ ids ids₁) (hc' : Changes h₁ h' ids₁ ids') :
    Changes h h' ids ids' := by
  -- what is beside the part and live is still so after the first step
  have hout : ∀ i, i ∉ ids → h.content i ≠ none → i ∉ ids₁ ∧ h₁.content i = h.content i := by
    intro i hi hl
    exact ⟨fun hm => (hc.fresh i hm).elim hi hl, hc.kept i hi hl⟩
  refine ⟨fun i hi => ?_, fun i hi hl => ?_⟩
  · by_contra hne
    rw [not_or] at hne
    obtain ⟨hnot, heq⟩ := hout i hne.1 hne.2
    exact (hc'.fresh i hi).elim hnot fun h => hne.2 (heq ▸ h)
  · obtain ⟨hnot, heq⟩ := hout i hi hl
    exact (hc'.kept i hnot (heq ▸ hl)).trans heq

/-- The order of the indices does not matter. -/
theorem perm {ids₂ : List NodeId} (hc : Changes h h' ids ids') (hp : ids.Perm ids₁)
    (hp' : ids'.Perm ids₂) : Changes h h' ids₁ ids₂ where
  fresh i hi := (hc.fresh i (hp'.mem_iff.2 hi)).imp_left hp.mem_iff.1
  kept i hi := hc.kept i fun hm => hi (hp.mem_iff.1 hm)

/-- Other indices can be counted in. -/
theorem frame (hc : Changes h h' ids ids') (outer : List NodeId) :
    Changes h h' (outer ++ ids) (outer ++ ids') where
  fresh i hi := by
    rcases List.mem_append.1 hi with hi | hi
    · exact .inl (List.mem_append_left ids hi)
    · exact (hc.fresh i hi).imp_left (List.mem_append_right outer)
  kept i hi := hc.kept i fun hm => hi (List.mem_append_right outer hm)

/-- Filling a live cell again. -/
theorem set {i : NodeId} {old : Cell κ ν} (hget : h.get? i = some old) (cell : Cell κ ν)
    (hi : i ∈ ids) : Changes h (h.set i (some cell)) ids ids := by
  refine ⟨fun _ hj => .inl hj, fun j hj _ => ?_⟩
  have hne : j ≠ i := fun he => hj (he ▸ hi)
  rw [content_set (lt_of_get? hget), if_neg hne]

end Changes

/-- A part of a tree: its indices, and its leaves between the other leaves of the tree. -/
structure Part (h : Heap κ ν) (before after ids leaves : List NodeId) : Prop where
  tidy : h.Tidy
  nodup : ids.Nodup
  beside : (before ++ after).Nodup
  apart : ∀ i ∈ before ++ after, i ∉ ids
  linked : Linked h.links none (before ++ (leaves ++ after)) none

namespace Part

variable {before after outer inner inner' : List NodeId}

/-- The leaves beside a part are live. -/
theorem live (hp : h.Part before after ids leaves) : ∀ i ∈ before ++ after, h.content i ≠ none := by
  intro i hi
  refine content_ne_none_of_links (hp.linked.ne_none i ?_)
  rw [List.mem_append] at hi ⊢
  exact hi.imp_right (List.mem_append_right leaves)

theorem apart_of_changes (hp : h.Part before after ids leaves) (hc : Changes h h' ids ids') :
    ∀ i ∈ before ++ after, i ∉ ids' := fun i hi hm =>
  (hc.fresh i hm).elim (hp.apart i hi) (hp.live i hi)

/-- A step that leaves the links alone. -/
theorem of_links (hp : h.Part before after ids leaves) (hc : Changes h h' ids ids')
    (ht : h'.Tidy) (hn : ids'.Nodup) (hl : ∀ i, h.content i ≠ none → h'.links i = h.links i) :
    h'.Part before after ids' leaves where
  tidy := ht
  nodup := hn
  beside := hp.beside
  apart := hp.apart_of_changes hc
  linked := hp.linked.congr fun i hi => hl i (content_ne_none_of_links (hp.linked.ne_none i hi))

/-- Filling a live cell again, with the same links. -/
theorem set (hp : h.Part before after ids leaves) {i : NodeId} {old : Cell κ ν}
    (hget : h.get? i = some old) (cell : Cell κ ν) (hlinks : cell.links? = old.links?)
    (hi : i ∈ ids) :
    (h.set i (some cell)).Part before after ids leaves := by
  refine hp.of_links (.set hget cell hi) (hp.tidy.set (hp.tidy.not_mem_free hget) _) hp.nodup
    fun j _ => ?_
  rw [links_set (lt_of_get? hget)]
  split_ifs with hj
  · rw [hlinks, hj, links, hget]; rfl
  · rfl

theorem perm (hp : h.Part before after ids leaves) (hids : ids.Perm ids') :
    h.Part before after ids' leaves where
  tidy := hp.tidy
  nodup := hids.nodup hp.nodup
  beside := hp.beside
  apart i hi hm := hp.apart i hi (hids.mem_iff.2 hm)
  linked := hp.linked

/-- A new branch comes to a part. -/
theorem alloc (hp : h.Part before after ids leaves) (hlive : ∀ i ∈ ids, h.content i ≠ none)
    (keys : List κ) (children : List NodeId) :
    ∃ i h', Heap.alloc (.branch keys children) h = some (i, h') ∧ i ∉ ids ∧
      h'.content i = some (.branch keys children) ∧ (∀ j ≠ i, h'.content j = h.content j) ∧
      Changes h h' ids (i :: ids) ∧ h'.Part before after (i :: ids) leaves := by
  obtain ⟨i, h', halloc, hfree, ht', hget⟩ := alloc_spec hp.tidy (.branch keys children)
  have hdead : h.content i = none := content_eq_none.2 hfree
  have hnot : i ∉ ids := fun hm => hlive i hm hdead
  have hother (j : NodeId) (hj : j ≠ i) : h'.content j = h.content j := by
    rw [content, hget, if_neg hj, content]
  have hne (j : NodeId) (hj : h.content j ≠ none) : j ≠ i := by
    rintro rfl
    exact hj hdead
  have hc : Changes h h' ids (i :: ids) :=
    ⟨List.forall_mem_cons.2 ⟨.inr hdead, fun j hj => .inl hj⟩, fun j _ hj => hother j (hne j hj)⟩
  refine ⟨i, h', halloc, hnot, ?_, hother, hc, hp.of_links hc ht' (List.nodup_cons.2
    ⟨hnot, hp.nodup⟩) fun j hj => ?_⟩
  · rw [content, hget, if_pos rfl]; rfl
  · rw [links, hget, if_neg (hne j hj), links]

/-- A part within a part. -/
theorem within (hp : h.Part before after (outer ++ ids) (inner ++ (leaves ++ inner')))
    (hs : (inner ++ inner').Sublist outer) :
    h.Part (before ++ inner) (inner' ++ after) ids leaves := by
  obtain ⟨hno, hn, hd⟩ := List.nodup_append.1 hp.nodup
  have hperm : (before ++ after ++ (inner ++ inner')).Perm (before ++ inner ++ (inner' ++ after)) := by
    rw [List.append_assoc, List.append_assoc]
    refine List.Perm.append_left before ?_
    rw [← List.append_assoc inner]
    exact List.perm_append_comm
  refine ⟨hp.tidy, hn, hperm.nodup (List.nodup_append.2 ⟨hp.beside, hno.sublist hs, ?_⟩),
    fun i hi => ?_, by simpa using hp.linked⟩
  · rintro i hi _ hm rfl
    exact hp.apart i hi (List.mem_append_left ids (hs.subset hm))
  · rcases List.mem_append.1 (hperm.mem_iff.2 hi) with hi | hi
    · exact fun hm => hp.apart i hi (List.mem_append_right outer hm)
    · exact fun hm => hd i (hs.subset hi) i hm rfl

/-- A step at a part within a part. -/
theorem around (hp : h.Part before after (outer ++ ids) (inner ++ (leaves ++ inner')))
    (hlive : ∀ i ∈ outer, h.content i ≠ none) (hc : Changes h h' ids ids')
    (hp' : h'.Part (before ++ inner) (inner' ++ after) ids' leaves') :
    h'.Part before after (outer ++ ids') (inner ++ (leaves' ++ inner')) := by
  obtain ⟨hno, -, hd⟩ := List.nodup_append.1 hp.nodup
  refine ⟨hp'.tidy, List.nodup_append.2 ⟨hno, hp'.nodup, ?_⟩, hp.beside,
    hp.apart_of_changes (hc.frame outer), by simpa using hp'.linked⟩
  rintro i hi _ hm rfl
  exact (hc.fresh i hm).elim (fun hm => hd i hi i hm rfl) (hlive i hi)

end Part

/-- A step that leaves one placed tree in the place of another. -/
structure Replaced {level : Nat} (h : Heap κ ν) (before after : List NodeId) (h' : Heap κ ν)
    (placed placed' : Placed κ ν level) : Prop where
  root : placed'.root = placed.root
  lies : placed'.LiesIn h'.content
  changes : Changes h h' placed.ids placed'.ids
  part : h'.Part before after placed'.ids placed'.leaves

theorem Replaced.trans {level : Nat} {before after : List NodeId} {placed placed₁ placed' : Placed κ ν level}
    (hr : h.Replaced before after h₁ placed placed₁) (hr' : h₁.Replaced before after h' placed₁ placed') :
    h.Replaced before after h' placed placed' :=
  ⟨hr'.root.trans hr.root, hr'.lies, hr.changes.trans hr'.changes, hr'.part⟩

end Heap

/-! ## The child in a focus -/

namespace Placed

variable {level : Nat} {id : NodeId} {focus : Focus κ (Placed κ ν level)}

/-- The indices of a branch that are not those of the child in the focus. -/
def around (id : NodeId) (focus : Focus κ (Placed κ ν level)) : List NodeId :=
  id :: focus.siblings.flatMap ids

theorem ids_close (id : NodeId) (focus : Focus κ (Placed κ ν level)) :
    (branch id focus.close).ids.Perm (around id focus ++ focus.here.ids) := by
  rw [ids_branch, Focus.items_close, around, List.cons_append]
  refine List.Perm.cons id ((focus.items_perm.flatMap_right ids).trans ?_)
  exact List.perm_append_comm

theorem liesIn_close {content : NodeId → Option (Cell κ ν)} :
    (branch id focus.close).LiesIn content ↔
      content id = some (.branch focus.separators (focus.items.map root)) ∧
        focus.here.LiesIn content ∧ ∀ sibling ∈ focus.siblings, sibling.LiesIn content := by
  rw [liesIn_branch, Focus.separators_close, Focus.items_close, ← List.forall_mem_cons]
  simp only [focus.items_perm.mem_iff]

theorem node_close (id : NodeId) (focus : Focus κ (Placed κ ν level)) :
    (branch id focus.close).node = Node.branch (focus.map node).close :=
  congrArg Node.branch (Focus.map_close node focus)

theorem here_ids_nodup (hn : (branch id focus.close).ids.Nodup) : focus.here.ids.Nodup :=
  (List.nodup_append.1 ((ids_close id focus).nodup hn)).2.1

theorem not_mem_around (hn : (branch id focus.close).ids.Nodup) {i : NodeId}
    (hi : i ∈ focus.here.ids) : i ∉ around id focus := fun hm =>
  (List.nodup_append.1 ((ids_close id focus).nodup hn)).2.2 i hm i hi rfl

/-- The leaves of the children on the left. -/
def leavesBefore (focus : Focus κ (Placed κ ν level)) : List NodeId :=
  (focus.before.reverse.map Prod.fst).flatMap leaves

/-- The leaves of the children on the right. -/
def leavesAfter (focus : Focus κ (Placed κ ν level)) : List NodeId :=
  (focus.after.map Prod.snd).flatMap leaves

theorem leaves_close (id : NodeId) (focus : Focus κ (Placed κ ν level)) :
    (branch id focus.close).leaves =
      leavesBefore focus ++ (focus.here.leaves ++ leavesAfter focus) := by
  rw [leaves_branch, Focus.items_close, Focus.items, List.flatMap_append, List.flatMap_cons]
  rfl

theorem SamePlaces.close {here : Placed κ ν level} (h : focus.here.SamePlaces here) :
    (branch id focus.close).SamePlaces (branch id { focus with here }.close) where
  root := rfl
  ids := by
    rw [ids_branch, ids_branch, Focus.items_close, Focus.items_close]
    simp [Focus.items, h.ids]
  leaves := by rw [leaves_close, leaves_close, h.leaves]; rfl

theorem leaves_sublist_around (id : NodeId) (focus : Focus κ (Placed κ ν level)) :
    (leavesBefore focus ++ leavesAfter focus).Sublist (around id focus) := by
  rw [leavesBefore, leavesAfter, ← List.flatMap_append]
  exact (flatMap_leaves_sublist fun child _ => child.leaves_sublist).trans
    (List.sublist_cons_self ..)

variable {h h' : Heap κ ν} {before after : List NodeId}

/-- The child in the focus as a part of the branch. -/
theorem part_here (hp : h.Part before after (branch id focus.close).ids
    (branch id focus.close).leaves) :
    h.Part (before ++ leavesBefore focus) (leavesAfter focus ++ after) focus.here.ids
      focus.here.leaves := by
  rw [leaves_close] at hp
  exact (hp.perm (ids_close id focus)).within (leaves_sublist_around id focus)

/-- A step at the child in the focus as a step at the branch, whose cell and other children keep
what they hold. -/
theorem part_close {ids' leaves' : List NodeId} (hl : (branch id focus.close).LiesIn h.content)
    (hp : h.Part before after (branch id focus.close).ids (branch id focus.close).leaves)
    (hc : Heap.Changes h h' focus.here.ids ids')
    (hp' : h'.Part (before ++ leavesBefore focus) (leavesAfter focus ++ after) ids' leaves') :
    h'.Part before after (around id focus ++ ids')
        (leavesBefore focus ++ (leaves' ++ leavesAfter focus)) ∧
      Heap.Changes h h' (branch id focus.close).ids (around id focus ++ ids') ∧
      h'.content id = some (.branch focus.separators (focus.items.map root)) ∧
      ∀ sibling ∈ focus.siblings, sibling.LiesIn h'.content := by
  have hperm := ids_close id focus
  obtain ⟨hroot, -, hs⟩ := liesIn_close.1 hl
  have hlive : ∀ i ∈ around id focus, h.content i ≠ none := fun i hi =>
    hl.ne_none i (hperm.mem_iff.2 (List.mem_append_left _ hi))
  have hkept : ∀ i ∈ around id focus, h'.content i = h.content i := fun i hi =>
    hc.kept i (fun hm => not_mem_around hp.nodup hm hi) (hlive i hi)
  rw [around, List.forall_mem_cons] at hkept
  rw [leaves_close] at hp
  refine ⟨(hp.perm hperm).around hlive hc hp', (hc.frame _).perm hperm.symm (List.Perm.refl _),
    hkept.1.trans hroot, fun sibling hm => (hs sibling hm).congr fun i hi => ?_⟩
  exact hkept.2 i (List.mem_flatMap.2 ⟨sibling, hm, hi⟩)

/-- A step that only replaces the child in the focus. -/
theorem part_replace {here : Placed κ ν level} (hl : (branch id focus.close).LiesIn h.content)
    (hp : h.Part before after (branch id focus.close).ids (branch id focus.close).leaves)
    (hr : h.Replaced (before ++ leavesBefore focus) (leavesAfter focus ++ after) h' focus.here
      here) :
    h.Replaced before after h' (branch id focus.close) (branch id { focus with here }.close) := by
  obtain ⟨hroot, hhere, hc, hp'⟩ := hr
  obtain ⟨hp₁, hc₁, hcell, hs⟩ := part_close hl hp hc hp'
  have hperm := (ids_close id { focus with here }).symm
  have hitems : focus.items.map root = { focus with here }.items.map root := by
    simp [Focus.items, hroot]
  rw [hitems] at hcell
  refine ⟨rfl, liesIn_close.2 ⟨hcell, hhere, hs⟩, hc₁.perm (List.Perm.refl _) hperm, ?_⟩
  rw [leaves_close]
  exact hp₁.perm hperm

/-! ## Two children in the place of one -/

theorem ids_spread (id : NodeId) (focus : Focus κ (Placed κ ν level))
    (left : Placed κ ν level) (separator : κ) (right : Placed κ ν level) :
    (around id focus ++ (left.ids ++ right.ids)).Perm
      (branch id (focus.spread left separator right).close).ids := by
  rw [Placed.ids_branch, Focus.items_close, around, List.cons_append]
  refine List.Perm.cons id ?_
  refine List.Perm.trans ?_ ((focus.items_spread left separator right).flatMap_right ids).symm
  rw [List.flatMap_cons, List.flatMap_cons, ← List.append_assoc left.ids]
  exact List.perm_append_comm

theorem leaves_spread (id : NodeId) (focus : Focus κ (Placed κ ν level))
    (left : Placed κ ν level) (separator : κ) (right : Placed κ ν level) :
    (branch id (focus.spread left separator right).close).leaves =
      leavesBefore focus ++ ((left.leaves ++ right.leaves) ++ leavesAfter focus) := by
  rw [leaves_close]
  simp [Focus.spread, leavesBefore, leavesAfter]

theorem insertAt?_spread (focus : Focus κ (Placed κ ν level)) (left : Placed κ ν level)
    (separator : κ) (right : Placed κ ν level) (hroot : left.root = focus.here.root) :
    insertAt? focus.separators focus.before.length separator =
        some (focus.spread left separator right).close.separators ∧
      insertAt? (focus.items.map root) (focus.before.length + 1) right.root =
        some ((focus.spread left separator right).close.items.map root) := by
  rw [Focus.separators_close, Focus.items_close]
  constructor
  · exact insertAt?_eq _ _ separator rfl (by simp [Focus.spread])
  · rw [insertAt?_eq ((focus.before.reverse.map Prod.fst ++ [focus.here]).map root)
      ((focus.after.map Prod.snd).map root) right.root (by simp [Focus.items]) (by simp)]
    simp [Focus.spread, Focus.items, hroot]

/-- A branch lies on the heap once its cell has been filled, if its children do. -/
theorem liesIn_set {children : Children κ (Placed κ ν level)}
    (hn : (branch id children).ids.Nodup) (hlt : id < h.cells.length)
    (hl : ∀ item ∈ children.items, item.LiesIn h.content) :
    (branch id children).LiesIn
      (h.set id (some (.branch children.separators (children.items.map root)))).content := by
  refine liesIn_branch.2 ⟨by rw [Heap.content_set hlt, if_pos rfl]; rfl, fun item hm => ?_⟩
  refine (hl item hm).congr fun i hi => ?_
  have hne : i ≠ id := by
    rintro rfl
    exact (List.nodup_cons.1 hn).1 (List.mem_flatMap.2 ⟨item, hm, hi⟩)
  rw [Heap.content_set hlt, if_neg hne]

end Placed

end RelStore.Index
