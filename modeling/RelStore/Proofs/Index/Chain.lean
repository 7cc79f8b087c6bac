import Mathlib.Order.Defs.LinearOrder
import RelStore.Proofs.Index.Entries

/-!
# Children between bounds

A child of a branch is responsible for the keys from the separator on its left up to the one on
its right, or up to the bound of the branch where there is none. `Focus.Chained P lo hi` says that
a property `P` of a child and its two bounds holds for all children, so it survives separators
that are no keys of the tree any more. The interface:

* `chained_close`: a focus is chained if and only if its children are;
* `chained_seek`: seeking a key leads to a child whose bounds contain the key;
* `chained_append`: children are chained if and only if both parts are that a separator cuts
  them into;
* `Focus.beside`: everything beside the focus lies on its side of the key;
* `Chained.child`: the keys of a child are on the right side of every separator.
-/

namespace RelStore.Index

variable {κ α ν : Type}

namespace Focus

/-- The lower bound behind siblings on the left. -/
def low (lo : Option κ) : List (α × κ) → Option κ
  | [] => lo
  | (_, separator) :: _ => some separator

/-- The upper bound in front of siblings on the right. -/
def high (hi : Option κ) : List (κ × α) → Option κ
  | [] => hi
  | (separator, _) :: _ => some separator

@[simp] theorem low_nil (lo : Option κ) : low lo ([] : List (α × κ)) = lo := rfl
@[simp] theorem low_cons (lo : Option κ) (sibling : α × κ) (before : List (α × κ)) :
    low lo (sibling :: before) = some sibling.2 := rfl
@[simp] theorem high_nil (hi : Option κ) : high hi ([] : List (κ × α)) = hi := rfl
@[simp] theorem high_cons (hi : Option κ) (sibling : κ × α) (after : List (κ × α)) :
    high hi (sibling :: after) = some sibling.1 := rfl

section Chained

variable (P : Option κ → Option κ → α → Prop)

/-- `P` holds for the siblings on the left. -/
def ChainedLeft (lo : Option κ) : List (α × κ) → Prop
  | [] => True
  | (a, separator) :: before => P (low lo before) (some separator) a ∧ ChainedLeft lo before

/-- `P` holds for the siblings on the right. -/
def ChainedRight (hi : Option κ) : List (κ × α) → Prop
  | [] => True
  | (separator, a) :: after => P (some separator) (high hi after) a ∧ ChainedRight hi after

/-- `P` holds for all children with the bounds that stand around them. -/
def Chained (lo hi : Option κ) (focus : Focus κ α) : Prop :=
  ChainedLeft P lo focus.before ∧ P (low lo focus.before) (high hi focus.after) focus.here ∧
    ChainedRight P hi focus.after

end Chained

/-- What the children hold, from left to right, where `f` gives what one of them holds. -/
def flat (f : α → List (κ × ν)) (focus : Focus κ α) : List (κ × ν) :=
  focus.before.reverse.flatMap (f ·.1) ++ (f focus.here ++ focus.after.flatMap (f ·.2))

end Focus

namespace Children

/-- `P` holds for all children with the bounds that stand around them. -/
def Chained (P : Option κ → Option κ → α → Prop) (lo hi : Option κ)
    (children : Children κ α) : Prop :=
  Focus.Chained P lo hi ⟨[], children.first, children.rest⟩

/-- The children from left to right. -/
def items (children : Children κ α) : List α := children.first :: children.rest.map Prod.snd

/-- The separators from left to right. -/
def separators (children : Children κ α) : List κ := children.rest.map Prod.fst

theorem items_join (first child : α) (lower upper : List (κ × α)) (separator : κ) :
    (Children.mk first (lower ++ (separator, child) :: upper)).items =
      (Children.mk first lower).items ++ (Children.mk child upper).items := by
  simp [items]

/-- What the children hold, from left to right. -/
def flat (f : α → List (κ × ν)) (children : Children κ α) : List (κ × ν) :=
  f children.first ++ children.rest.flatMap (f ·.2)

end Children

/-! ## Closing a focus -/

namespace Focus

theorem chained_closeFrom {P : Option κ → Option κ → α → Prop} {lo hi : Option κ}
    {before : List (α × κ)} {here : α} {after : List (κ × α)} :
    (closeFrom before here after).Chained P lo hi ↔ Chained P lo hi ⟨before, here, after⟩ := by
  induction before generalizing here after with
  | nil => rfl
  | cons sibling before ih =>
    rw [closeFrom, ih]
    simp only [Chained, ChainedLeft, ChainedRight, low_cons, high_cons]
    exact ⟨fun ⟨hb, hl, hh, ha⟩ => ⟨⟨hl, hb⟩, hh, ha⟩, fun ⟨⟨hl, hb⟩, hh, ha⟩ => ⟨hb, hl, hh, ha⟩⟩

theorem chained_close {P : Option κ → Option κ → α → Prop} {lo hi : Option κ}
    {focus : Focus κ α} : focus.close.Chained P lo hi ↔ focus.Chained P lo hi :=
  chained_closeFrom

theorem ChainedLeft.and {P : Option κ → Option κ → α → Prop} {Q : α → Prop} {lo : Option κ}
    {before : List (α × κ)} (h : ChainedLeft P lo before)
    (hq : ∀ sibling ∈ before, Q sibling.1) :
    ChainedLeft (fun lo hi a => P lo hi a ∧ Q a) lo before := by
  induction before with
  | nil => trivial
  | cons sibling before ih =>
    rw [List.forall_mem_cons] at hq
    exact ⟨⟨h.1, hq.1⟩, ih h.2 hq.2⟩

theorem ChainedRight.and {P : Option κ → Option κ → α → Prop} {Q : α → Prop} {hi : Option κ}
    {after : List (κ × α)} (h : ChainedRight P hi after)
    (hq : ∀ sibling ∈ after, Q sibling.2) :
    ChainedRight (fun lo hi a => P lo hi a ∧ Q a) hi after := by
  induction after with
  | nil => trivial
  | cons sibling after ih =>
    rw [List.forall_mem_cons] at hq
    exact ⟨⟨h.1, hq.1⟩, ih h.2 hq.2⟩

theorem flat_closeFrom (f : α → List (κ × ν)) (before : List (α × κ)) (here : α)
    (after : List (κ × α)) :
    (closeFrom before here after).flat f = flat f ⟨before, here, after⟩ := by
  induction before generalizing here after with
  | nil => rfl
  | cons sibling before ih =>
    rw [closeFrom, ih]
    simp [flat]

theorem flat_close (f : α → List (κ × ν)) (focus : Focus κ α) :
    focus.close.flat f = focus.flat f :=
  flat_closeFrom f focus.before focus.here focus.after

theorem length_closeFrom (before : List (α × κ)) (here : α) (after : List (κ × α)) :
    (closeFrom before here after).rest.length = before.length + after.length := by
  induction before generalizing here after with
  | nil => simp [closeFrom]
  | cons sibling before ih => rw [closeFrom, ih]; simp only [List.length_cons]; omega

theorem length_close (focus : Focus κ α) :
    focus.close.rest.length = focus.before.length + focus.after.length :=
  length_closeFrom focus.before focus.here focus.after

end Focus

/-! ## Children cut in two -/

namespace Children

variable {P : Option κ → Option κ → α → Prop} {lo hi : Option κ}

theorem chained_nil {first : α} : (Children.mk first []).Chained P lo hi ↔ P lo hi first := by
  simp [Chained, Focus.Chained, Focus.ChainedLeft, Focus.ChainedRight]

theorem chained_cons {first next : α} {separator : κ} {rest : List (κ × α)} :
    (Children.mk first ((separator, next) :: rest)).Chained P lo hi ↔
      P lo (some separator) first ∧ (Children.mk next rest).Chained P (some separator) hi := by
  simp [Chained, Focus.Chained, Focus.ChainedLeft, Focus.ChainedRight]

theorem chained_append {first next : α} {separator : κ} {lower upper : List (κ × α)} :
    (Children.mk first (lower ++ (separator, next) :: upper)).Chained P lo hi ↔
      (Children.mk first lower).Chained P lo (some separator) ∧
        (Children.mk next upper).Chained P (some separator) hi := by
  induction lower generalizing first lo with
  | nil => rw [List.nil_append, chained_cons, chained_nil]
  | cons sibling lower ih => rw [List.cons_append, chained_cons, chained_cons, ih, and_assoc]

theorem flat_append (f : α → List (κ × ν)) (first next : α) (separator : κ)
    (lower upper : List (κ × α)) :
    flat f ⟨first, lower ++ (separator, next) :: upper⟩ =
      flat f ⟨first, lower⟩ ++ flat f ⟨next, upper⟩ := by
  simp [flat]

end Children

/-! ## Bounds -/

variable [LinearOrder κ]

/-- A key from `lo` on and below `hi`, where these are given. -/
def Within (lo hi : Option κ) (key : κ) : Prop := (∀ a ∈ lo, a ≤ key) ∧ ∀ b ∈ hi, key < b

/-- Bounds with room between them. -/
def Apart (lo hi : Option κ) : Prop := ∀ a ∈ lo, ∀ b ∈ hi, a < b

theorem within_none (key : κ) : Within none none key := by simp [Within]

theorem apart_none : Apart (none : Option κ) none := by simp [Apart]

theorem Apart.trans {lo hi : Option κ} {key : κ} (hl : Apart lo (some key))
    (hr : Apart (some key) hi) : Apart lo hi :=
  fun a ha b hb => (hl a ha key rfl).trans (hr key rfl b hb)

theorem Within.apart_left {lo hi : Option κ} {key above : κ} (h : Within lo hi key)
    (ha : key < above) : Apart lo (some above) := by
  rintro a hlo _ ⟨⟩
  exact lt_of_le_of_lt (h.1 a hlo) ha

theorem Within.apart_right {lo hi : Option κ} {key : κ} (h : Within lo hi key) :
    Apart (some key) hi := by
  rintro _ ⟨⟩ b hb
  exact h.2 b hb

namespace Focus

variable {P : Option κ → Option κ → α → Prop} {lo hi : Option κ}

theorem chained_seekFrom {key : κ} {before : List (α × κ)} {here : α} {after : List (κ × α)}
    (h : Chained P lo hi ⟨before, here, after⟩) (hl : ∀ a ∈ low lo before, a ≤ key)
    (hh : ∀ b ∈ hi, key < b) :
    (seekFrom key before here after).Chained P lo hi ∧
      Within (low lo (seekFrom key before here after).before)
        (high hi (seekFrom key before here after).after) key := by
  induction after generalizing before here with
  | nil => exact ⟨h, hl, hh⟩
  | cons sibling after ih =>
    rw [seekFrom]
    split_ifs with hk
    · exact ⟨h, hl, by rintro _ ⟨⟩; exact hk⟩
    · obtain ⟨hb, hc, hn, ha⟩ := h
      refine ih ⟨⟨hc, hb⟩, hn, ha⟩ ?_
      rintro _ ⟨⟩
      exact not_lt.1 hk

/-- A key between the bounds of a branch lies between those of the child that it belongs to. -/
theorem chained_seek {key : κ} {children : Children κ α} (h : children.Chained P lo hi)
    (hk : Within lo hi key) :
    (seek key children).Chained P lo hi ∧
      Within (low lo (seek key children).before) (high hi (seek key children).after) key :=
  chained_seekFrom h hk.1 hk.2

/-! ## What stands beside a focus -/

variable {f : α → List (κ × ν)} {key : κ}
  (hP : ∀ lo hi a, P lo hi a → Apart lo hi ∧ ∀ e ∈ f a, Within lo hi e.1)

include hP

theorem lt_of_mem_before {before : List (α × κ)} (h : ChainedLeft P lo before)
    (hk : ∀ a ∈ low lo before, a ≤ key) : ∀ e ∈ before.flatMap (f ·.1), e.1 < key := by
  induction before generalizing key with
  | nil => simp
  | cons sibling before ih =>
    obtain ⟨a, separator⟩ := sibling
    obtain ⟨ha, hb⟩ := h
    have hs : separator ≤ key := hk separator rfl
    intro e he
    rw [List.flatMap_cons, List.mem_append] at he
    rcases he with he | he
    · exact lt_of_lt_of_le (((hP _ _ _ ha).2 e he).2 separator rfl) hs
    · refine ih hb (fun b hb' => ?_) e he
      exact ((hP _ _ _ ha).1 b hb' separator rfl).le.trans hs

theorem lt_of_mem_after {after : List (κ × α)} (h : ChainedRight P hi after)
    (hk : ∀ b ∈ high hi after, key < b) : ∀ e ∈ after.flatMap (f ·.2), key < e.1 := by
  induction after generalizing key with
  | nil => simp
  | cons sibling after ih =>
    obtain ⟨separator, a⟩ := sibling
    obtain ⟨ha, hb⟩ := h
    have hs : key < separator := hk separator rfl
    intro e he
    rw [List.flatMap_cons, List.mem_append] at he
    rcases he with he | he
    · exact lt_of_lt_of_le hs (((hP _ _ _ ha).2 e he).1 separator rfl)
    · refine ih hb (fun b hb' => ?_) e he
      exact hs.trans ((hP _ _ _ ha).1 separator rfl b hb')

/-- What stands before the focus for a key lies below the key, what stands behind it above. -/
theorem beside {focus : Focus κ α} (hc : focus.Chained P lo hi)
    (hk : Within (low lo focus.before) (high hi focus.after) key) :
    (∀ e ∈ focus.before.reverse.flatMap (f ·.1), e.1 < key) ∧
      ∀ e ∈ focus.after.flatMap (f ·.2), key < e.1 := by
  refine ⟨fun e he => ?_, lt_of_mem_after hP hc.2.2 hk.2⟩
  refine lt_of_mem_before hP hc.1 hk.1 e ?_
  rw [List.mem_flatMap] at he ⊢
  obtain ⟨a, ha, he⟩ := he
  exact ⟨a, List.mem_reverse.1 ha, he⟩

end Focus

namespace Children

variable {P : Option κ → Option κ → α → Prop} {lo hi : Option κ}

theorem Chained.apart (hP : ∀ lo hi a, P lo hi a → Apart lo hi) {children : Children κ α}
    (h : children.Chained P lo hi) : Apart lo hi := by
  obtain ⟨first, rest⟩ := children
  induction rest generalizing first lo with
  | nil => exact hP _ _ _ h.2.1
  | cons sibling rest ih =>
    obtain ⟨hf, hr⟩ := chained_cons.1 h
    exact (hP _ _ _ hf).trans (ih _ hr)

/-- Chained children hold ascending entries between the bounds if each child does. -/
theorem Chained.ascending {f : α → List (κ × ν)}
    (hP : ∀ lo hi a, P lo hi a →
      Apart lo hi ∧ Leaf.Ascending (f a) ∧ ∀ e ∈ f a, Within lo hi e.1)
    {children : Children κ α} (h : children.Chained P lo hi) :
    Leaf.Ascending (children.flat f) ∧ ∀ e ∈ children.flat f, Within lo hi e.1 := by
  obtain ⟨first, rest⟩ := children
  induction rest generalizing first lo with
  | nil => simpa [flat] using (hP _ _ _ h.2.1).2
  | cons sibling rest ih =>
    obtain ⟨separator, next⟩ := sibling
    obtain ⟨hf, hr⟩ := chained_cons.1 h
    obtain ⟨ha, hs, hw⟩ := hP _ _ _ hf
    obtain ⟨hs', hw'⟩ := ih next hr
    have hb : Apart (some separator) hi := hr.apart fun lo hi a h => (hP lo hi a h).1
    have he : flat f ⟨first, (separator, next) :: rest⟩ = f first ++ flat f ⟨next, rest⟩ := by
      simp [flat]
    rw [he]
    refine ⟨Leaf.ascending_append.2 ⟨hs, hs', fun x hx y hy => ?_⟩, fun e he => ?_⟩
    · exact lt_of_lt_of_le ((hw x hx).2 separator rfl) ((hw' y hy).1 separator rfl)
    · rcases List.mem_append.1 he with he | he
      · exact ⟨(hw e he).1, fun b hb' => ((hw e he).2 separator rfl).trans (hb _ rfl b hb')⟩
      · refine ⟨fun a ha' => ?_, (hw' e he).2⟩
        exact (ha a ha' separator rfl).le.trans ((hw' e he).1 separator rfl)

/-- The separators of chained children ascend between the bounds. -/
theorem Chained.separators (hP : ∀ lo hi a, P lo hi a → Apart lo hi) {children : Children κ α}
    (h : children.Chained P lo hi) :
    children.separators.Pairwise (· < ·) ∧
      ∀ s ∈ children.separators, (∀ a ∈ lo, a < s) ∧ ∀ b ∈ hi, s < b := by
  obtain ⟨first, rest⟩ := children
  induction rest generalizing first lo with
  | nil => simp [Children.separators]
  | cons sibling rest ih =>
    obtain ⟨separator, next⟩ := sibling
    obtain ⟨hf, hr⟩ := chained_cons.1 h
    obtain ⟨hs, hw⟩ := ih next hr
    have hlo : ∀ a ∈ lo, a < separator := fun a ha => hP _ _ _ hf a ha separator rfl
    show (separator :: (Children.mk next rest).separators).Pairwise _ ∧
      ∀ s ∈ separator :: (Children.mk next rest).separators, _
    refine ⟨List.pairwise_cons.2 ⟨fun s hs => (hw s hs).1 separator rfl, hs⟩, ?_⟩
    refine List.forall_mem_cons.2 ⟨⟨hlo, hr.apart hP separator rfl⟩, fun s hs => ?_⟩
    exact ⟨fun a ha => (hlo a ha).trans ((hw s hs).1 separator rfl), (hw s hs).2⟩

/-- A child of a chain has bounds of its own. A key between them is between those of the chain,
and on the right side of every separator. -/
theorem Chained.child (hP : ∀ lo hi a, P lo hi a → Apart lo hi) {children : Children κ α}
    (h : children.Chained P lo hi) {j : Nat} {child : α} (hj : children.items[j]? = some child) :
    ∃ lo' hi', P lo' hi' child ∧ ∀ key, Within lo' hi' key → Within lo hi key ∧
      ∀ (i : Nat) (s : κ), children.separators[i]? = some s → (j ≤ i → key < s) ∧ (i < j → s ≤ key) := by
  obtain ⟨first, rest⟩ := children
  induction rest generalizing first lo j with
  | nil =>
    cases j with
    | zero =>
      obtain rfl := Option.some.inj hj
      exact ⟨lo, hi, chained_nil.1 h, fun key hk => ⟨hk, fun i s hs => by cases hs⟩⟩
    | succ j => cases hj
  | cons sibling rest ih =>
    obtain ⟨separator, next⟩ := sibling
    obtain ⟨hf, hr⟩ := chained_cons.1 h
    have hlo : ∀ a ∈ lo, a < separator := fun a ha => hP _ _ _ hf a ha separator rfl
    have hhi : ∀ b ∈ hi, separator < b := fun b hb => hr.apart hP separator rfl b hb
    cases j with
    | zero =>
      obtain rfl := Option.some.inj hj
      refine ⟨lo, some separator, hf, fun key hk => ⟨⟨hk.1, fun b hb => ?_⟩, fun i s hs => ?_⟩⟩
      · exact (hk.2 separator rfl).trans (hhi b hb)
      · refine ⟨fun _ => ?_, fun hlt => absurd hlt (Nat.not_lt_zero i)⟩
        cases i with
        | zero =>
          obtain rfl := Option.some.inj hs
          exact hk.2 _ rfl
        | succ i =>
          have hs : s ∈ (Children.mk next rest).separators := List.mem_of_getElem? hs
          exact (hk.2 separator rfl).trans (((hr.separators hP).2 s hs).1 separator rfl)
    | succ j =>
      obtain ⟨lo', hi', hchild, hkeys⟩ := ih next hr hj
      refine ⟨lo', hi', hchild, fun key hk => ?_⟩
      obtain ⟨hw, hs'⟩ := hkeys key hk
      refine ⟨⟨fun a ha => (hlo a ha).le.trans (hw.1 separator rfl), hw.2⟩, fun i s hs => ?_⟩
      cases i with
      | zero =>
        obtain rfl := Option.some.inj hs
        exact ⟨fun hle => absurd hle (Nat.not_succ_le_zero j), fun _ => hw.1 _ rfl⟩
      | succ i =>
        have hi := hs' i s hs
        exact ⟨fun hle => hi.1 (Nat.le_of_succ_le_succ hle), fun hlt => hi.2 (Nat.lt_of_succ_lt_succ hlt)⟩

end Children

end RelStore.Index
