import Mathlib.Data.List.Nodup
import Mathlib.Data.String.Basic
import RelStore.Proofs.Locks.Waiting

/-!
# Mutual exclusion

Locks have no owners; who holds what is known only to those who keep the books
(`Locks.Ledger.enter`). As long as every client releases only what it has locked itself and drops
only guards of its own (`Locks.Ledger.Permits`), the books say of each table at most one holder, and
the locks say of each table whether there is one: `Locks.Ledger.Kept` is what every call keeps, and
`Locks.excludes` what follows from it wherever clients come to (`Locks.Reaches`).
-/

namespace RelStore.Locks

/-! ## The books -/

/-- A table that a client holds: by a guard of this name, or without one. -/
structure Holding (γ : Type) where
  client : γ
  table : String
  guard? : Option String := none
deriving DecidableEq

/-- What the clients hold. -/
abbrev Ledger (γ : Type) := List (Holding γ)

variable {γ : Type}

namespace Ledger

section

variable [DecidableEq γ]

/-- The holdings but for a guard that its client drops. -/
def without (ledger : Ledger γ) (client : γ) (name : String) : Ledger γ :=
  ledger.filter fun holding => ¬ (holding.client = client ∧ holding.guard? = some name)

/-- The holdings after a call of a client that was answered in this way. -/
def enter (ledger : Ledger γ) (client : γ) : Call → Reply → Ledger γ
  | .lock table, .locked (.ok ()) => { client, table } :: ledger
  | .release table, _ => ledger.filter (· ≠ { client, table })
  | .guard name table, .locked (.ok ()) =>
    { client, table, guard? := some name } :: ledger.without client name
  | .dropGuard name, _ => ledger.without client name
  | _, _ => ledger

end

/-- Whether a guard of this name can only be the client's. -/
def Owns (ledger : Ledger γ) (client : γ) (name : String) : Prop :=
  ∀ holding ∈ ledger, holding.guard? = some name → holding.client = client

/-- What a client may do: it releases only a table that it has locked, drops only a guard that it
has, and takes no name that the guard of another one has. -/
def Permits (ledger : Ledger γ) (client : γ) : Call → Prop
  | .release table => { client, table } ∈ ledger
  | .dropGuard name => ∃ table, { client, table, guard? := some name } ∈ ledger
  | .guard name _ => ledger.Owns client name
  | _ => True

/-- Whether some client holds a table. -/
def Holds (ledger : Ledger γ) (table : String) : Prop := ∃ holding ∈ ledger, holding.table = table

end Ledger

/-- What the clients hold and what the locks keep, wherever clients come to that take turns in any
order and do what they may. -/
inductive Reaches [DecidableEq γ] : Ledger γ → Locks → Prop
  | new : Reaches [] {}
  | called {ledger : Ledger γ} {m : Locks} (client : γ) (call : Call) : Reaches ledger m →
    ledger.Permits client call →
    Reaches (ledger.enter client call (m.react call).1) (m.react call).2

/-- What the clients are promised: each table has one holder at most, it is locked for others as
long as it has one, and the locks tell so. -/
structure Excludes (ledger : Ledger γ) (m : Locks) : Prop where
  one (holding other : Holding γ) : holding ∈ ledger → other ∈ ledger →
    holding.table = other.table → holding = other
  once : ledger.Nodup
  lock_free (table : String) : ¬ ledger.Holds table → (m.react (.lock table)).1 = .locked (.ok ())
  guard_free (name table : String) : ¬ ledger.Holds table →
    (m.react (.guard name table)).1 = .locked (.ok ())
  lock_held (table : String) : ledger.Holds table →
    m.react (.lock table) = (.locked (.error (.tableAlreadyLocked table)), m)
  guard_held (name table : String) : ledger.Holds table →
    m.react (.guard name table) = (.locked (.error (.tableAlreadyLocked table)), m)
  isLocked (table : String) : m.isLocked table = true ↔ ledger.Holds table
  mem_lockedTables (table : String) : table ∈ m.lockedTables ↔ ledger.Holds table
  /-- The locked tables are in ascending order, and so none comes twice. -/
  ascending : m.lockedTables.Pairwise (· < ·)

/-! ## Locked tables -/

variable {m m' : Locks} {ledger : Ledger γ} {client : γ} {name table : String}

theorem isLocked_iff_mem : m.isLocked table = true ↔ table ∈ m.held.keys :=
  OrderedMap.contains_iff

theorem isLocked_taken (m : Locks) (table other : String) :
    (m.taken table).isLocked other = true ↔ other = table ∨ m.isLocked other = true := by
  unfold isLocked OrderedMap.contains taken
  dsimp only
  rw [OrderedMap.get?_insert]
  split_ifs with h <;> simp [h]

theorem isLocked_release (m : Locks) (table other : String) :
    (m.release table).isLocked other = true ↔ other ≠ table ∧ m.isLocked other = true := by
  unfold release
  cases hg : m.held.get? table with
  | none =>
    dsimp only
    refine ⟨fun h => ⟨?_, h⟩, And.right⟩
    rintro rfl
    rw [isLocked_eq_false_iff.2 hg] at h
    cases h
  | some lock =>
    unfold isLocked OrderedMap.contains
    dsimp only
    rw [OrderedMap.get?_erase]
    split_ifs with h <;> simp [h]

theorem guards_release (m : Locks) (table : String) : (m.release table).guards = m.guards := by
  unfold release
  cases m.held.get? table <;> rfl

theorem get?_guards_dropGuard (m : Locks) (name : String) :
    (m.dropGuard name).guards.get? name = none := by
  unfold dropGuard
  cases hg : m.guards.get? name with
  | none => exact hg
  | some guard => exact OrderedMap.get?_erase_self ..

theorem mem_lockedTables_iff : table ∈ m.lockedTables ↔ m.isLocked table = true := by
  rw [lockedTables, List.mem_mergeSort, isLocked_iff_mem]

theorem ascending_lockedTables (m : Locks) : m.lockedTables.Pairwise (· < ·) := by
  have hnodup : m.lockedTables.Nodup :=
    (List.mergeSort_perm m.held.keys _).nodup_iff.2 m.held.nodup_keys
  have hsorted : m.lockedTables.Pairwise fun a b => (!(b < a : Bool)) = true := by
    refine List.pairwise_mergeSort ?_ ?_ m.held.keys
    · intro a b c hab hbc
      simp only [Bool.not_eq_true', decide_eq_false_iff_not, not_lt] at hab hbc ⊢
      exact hab.trans hbc
    · intro a b
      simp only [Bool.or_eq_true, Bool.not_eq_true', decide_eq_false_iff_not, not_lt]
      exact le_total a b
  refine (hsorted.and hnodup).imp fun {a b} h => ?_
  obtain ⟨hle, hne⟩ := h
  simp only [Bool.not_eq_true', decide_eq_false_iff_not, not_lt] at hle
  exact lt_of_le_of_ne hle hne

/-! ## What every call keeps -/

namespace Ledger

/-- The books say of each table at most one holder, and the locks and the guards are those that are
in the books. -/
structure Kept (ledger : Ledger γ) (m : Locks) : Prop where
  nodup : (ledger.map Holding.table).Nodup
  isLocked (table : String) : m.isLocked table = true ↔ ledger.Holds table
  guards (name table : String) : (m.guards.get? name).map Guard.table = some table ↔
    ∃ client, { client, table, guard? := some name } ∈ ledger

theorem holds_cons (holding : Holding γ) (ledger : Ledger γ) (table : String) :
    Holds (holding :: ledger) table ↔ holding.table = table ∨ ledger.Holds table := by
  unfold Holds
  rw [List.exists_mem_cons_iff]

/-- A table that is given up has no holder, and the others have the same ones. -/
theorem holds_filter {p : Holding γ → Bool}
    (hp : ∀ holding ∈ ledger, p holding = false ↔ holding.table = table) (other : String) :
    Holds (ledger.filter p) other ↔ other ≠ table ∧ ledger.Holds other := by
  unfold Holds
  constructor
  · rintro ⟨holding, hm, rfl⟩
    obtain ⟨hm, hpos⟩ := List.mem_filter.1 hm
    refine ⟨fun he => ?_, holding, hm, rfl⟩
    rw [(hp holding hm).2 he] at hpos
    cases hpos
  · rintro ⟨hne, holding, hm, rfl⟩
    refine ⟨holding, List.mem_filter.2 ⟨hm, ?_⟩, rfl⟩
    exact Bool.eq_true_of_not_eq_false fun hneg => hne ((hp holding hm).1 hneg)

namespace Kept

/-- Two holdings of one table are one holding. -/
theorem unique (h : Kept ledger m) {holding other : Holding γ} (hm : holding ∈ ledger)
    (ho : other ∈ ledger) (heq : holding.table = other.table) : holding = other :=
  List.inj_on_of_nodup_map h.nodup hm ho heq

/-- A guard has one name, and a name one guard. -/
theorem table_of_guard (h : Kept ledger m) {guard : Guard} (hg : m.guards.get? name = some guard)
    {holding : Holding γ} (hm : holding ∈ ledger) (hname : holding.guard? = some name) :
    holding.table = guard.table := by
  have hmem : { holding with guard? := some name } ∈ ledger := hname ▸ hm
  have heq := (h.guards name holding.table).2 ⟨holding.client, hmem⟩
  rw [hg] at heq
  exact (Option.some.inj heq).symm

theorem ne_guard_of_none (h : Kept ledger m) (hg : m.guards.get? name = none) {holding : Holding γ}
    (hm : holding ∈ ledger) : holding.guard? ≠ some name := by
  intro hname
  have hmem : { holding with guard? := some name } ∈ ledger := hname ▸ hm
  have heq := (h.guards name holding.table).2 ⟨holding.client, hmem⟩
  rw [hg] at heq
  cases heq

/-- Guards of one name are one guard. -/
theorem owns_of_mem (h : Kept ledger m) (hm : { client, table, guard? := some name } ∈ ledger) :
    ledger.Owns client name := by
  intro holding hm' hname
  obtain ⟨guard, hg, -⟩ := Option.map_eq_some_iff.1 ((h.guards name table).2 ⟨client, hm⟩)
  have heq := (h.table_of_guard hg hm' hname).trans (h.table_of_guard hg hm rfl).symm
  rw [h.unique hm' hm heq]

/-- A free table is locked by a client. -/
theorem cons (h : Kept ledger m) (hfree : ¬ ledger.Holds table) (client : γ) :
    Kept ({ client, table } :: ledger) (m.taken table) where
  nodup := by
    rw [List.map_cons, List.nodup_cons]
    refine ⟨fun hm => ?_, h.nodup⟩
    obtain ⟨holding, hm, heq⟩ := List.mem_map.1 hm
    exact hfree ⟨holding, hm, heq⟩
  isLocked other := by rw [isLocked_taken, holds_cons, h.isLocked, eq_comm]
  guards name other := by
    rw [show (m.taken table).guards = m.guards from rfl, h.guards]
    simp only [List.mem_cons, Holding.mk.injEq, reduceCtorEq, and_false, false_or]

/-- The table that a client has locked is put under a guard. -/
theorem tag (h : Kept ({ client, table } :: ledger) m) (hnone : m.guards.get? name = none)
    (lock : LockId) :
    Kept ({ client, table, guard? := some name } :: ledger)
      { m with guards := m.guards.insert name { table, lock } } where
  nodup := h.nodup
  isLocked other := by
    rw [holds_cons]
    exact (h.isLocked other).trans (holds_cons ..)
  guards other table' := by
    have hguards := h.guards other table'
    simp only [List.mem_cons, Holding.mk.injEq, reduceCtorEq, and_false, false_or] at hguards
    dsimp only
    by_cases hne : other = name
    · subst hne
      rw [OrderedMap.get?_insert_self]
      constructor
      · intro he
        obtain rfl : table = table' := Option.some.inj he
        exact ⟨client, List.mem_cons_self⟩
      · rintro ⟨client', hm⟩
        rcases List.mem_cons.1 hm with he | hm
        · exact congrArg some (Holding.mk.inj he).2.1.symm
        · exact absurd rfl (h.ne_guard_of_none hnone (List.mem_cons_of_mem _ hm))
    · rw [OrderedMap.get?_insert_of_ne hne, hguards]
      simp only [List.mem_cons, Holding.mk.injEq, Option.some.injEq, hne, and_false, false_or]

variable [DecidableEq γ]

/-- What a client has locked it releases. -/
theorem release (h : Kept ledger m) (hm : { client, table } ∈ ledger) :
    Kept (ledger.filter (· ≠ { client, table })) (m.release table) where
  nodup := h.nodup.sublist (List.filter_sublist.map _)
  isLocked other := by
    rw [isLocked_release, h.isLocked, holds_filter fun holding hm' => ?_]
    rw [decide_eq_false_iff_not, not_not]
    exact ⟨fun he => he ▸ rfl, h.unique hm' hm⟩
  guards name other := by
    rw [guards_release, h.guards]
    simp only [List.mem_filter, ne_eq, Holding.mk.injEq, reduceCtorEq, and_false, not_false_eq_true,
      decide_true, and_true]

/-- A client drops a guard that can only be its own, if there is one. -/
theorem dropGuard (h : Kept ledger m) (hown : ledger.Owns client name) :
    Kept (ledger.without client name) (m.dropGuard name) := by
  unfold Locks.dropGuard
  cases hg : m.guards.get? name with
  | none =>
    have hall : ledger.without client name = ledger := by
      refine List.filter_eq_self.2 fun holding hm => ?_
      exact decide_eq_true fun hc => h.ne_guard_of_none hg hm hc.2
    rw [hall]
    exact h
  | some guard =>
    have hp : ∀ holding ∈ ledger,
        decide (¬ (holding.client = client ∧ holding.guard? = some name)) = false ↔
          holding.table = guard.table := by
      intro holding hm
      rw [decide_eq_false_iff_not, not_not]
      refine ⟨fun hc => h.table_of_guard hg hm hc.2, fun he => ?_⟩
      obtain ⟨client', hm'⟩ := (h.guards name guard.table).1 (congrArg (Option.map _) hg)
      rw [h.unique hm hm' he]
      exact ⟨hown _ hm' rfl, rfl⟩
    refine ⟨h.nodup.sublist (List.filter_sublist.map _), fun other => ?_, fun other table' => ?_⟩
    · rw [without, holds_filter hp, ← h.isLocked]
      exact isLocked_release ..
    · dsimp only
      by_cases hne : other = name
      · subst hne
        rw [OrderedMap.get?_erase_self]
        refine ⟨nofun, fun ⟨client', hm⟩ => ?_⟩
        obtain ⟨hm, hpos⟩ := List.mem_filter.1 hm
        exact absurd ⟨hown _ hm rfl, rfl⟩ (of_decide_eq_true hpos)
      · rw [OrderedMap.get?_erase_of_ne hne, h.guards]
        simp only [without, List.mem_filter, Option.some.injEq, hne, and_false, not_false_eq_true,
          decide_true, and_true]

/-- A free table is locked by a client under a guard. -/
theorem guard (h : Kept ledger m) (hfree : ¬ ledger.Holds table) (hown : ledger.Owns client name)
    (lock : LockId) :
    Kept ({ client, table, guard? := some name } :: ledger.without client name)
      { (m.taken table).dropGuard name with
        guards := ((m.taken table).dropGuard name).guards.insert name { table, lock } } := by
  have hdropped := (h.cons hfree client).dropGuard (List.forall_mem_cons.2 ⟨fun _ => rfl, hown⟩)
  rw [without, List.filter_cons_of_pos (by simp)] at hdropped
  exact hdropped.tag (get?_guards_dropGuard _ name) lock

/-- Every call that a client may make keeps the books. -/
theorem react (h : Kept ledger m) {call : Call} (hpermits : ledger.Permits client call) :
    Kept (ledger.enter client call (m.react call).1) (m.react call).2 := by
  have hfree {table : String} (hl : m.isLocked table = false) : ¬ ledger.Holds table := fun hh =>
    ne_true_of_eq_false hl ((h.isLocked table).2 hh)
  have hwaiter (hcall : call.OfWaiter) : Kept ledger (m.react call).2 := by
    obtain ⟨waiters, hr⟩ := m.exists_react_ofWaiter hcall
    rw [hr]
    exact ⟨h.nodup, h.isLocked, h.guards⟩
  cases call with
  | lock table =>
    unfold Locks.react
    dsimp only
    cases hl : m.isLocked table with
    | true => rw [lock_of_locked hl]; exact h
    | false => rw [lock_of_free hl]; exact h.cons (hfree hl) client
  | release table => exact h.release hpermits
  | guard name table =>
    unfold Locks.react takeGuard
    dsimp only
    cases hl : m.isLocked table with
    | true => rw [lock_of_locked hl]; exact h
    | false => rw [lock_of_free hl]; exact h.guard (hfree hl) hpermits m.nextLock
  | dropGuard name =>
    obtain ⟨table, hm⟩ := hpermits
    exact h.dropGuard (h.owns_of_mem hm)
  | wait | poll | cancel => exact hwaiter trivial
  | advance ms => exact ⟨h.nodup, h.isLocked, h.guards⟩

end Kept

theorem kept_of_reaches [DecidableEq γ] (h : Reaches ledger m) : ledger.Kept m := by
  induction h with
  | new =>
    refine ⟨List.nodup_nil, fun table => ⟨nofun, fun ⟨_, hm, _⟩ => absurd hm List.not_mem_nil⟩,
      fun name table => ⟨nofun, fun ⟨_, hm⟩ => absurd hm List.not_mem_nil⟩⟩
  | called client call _ hpermits ih => exact ih.react hpermits

end Ledger

/-- Clients that release only what is their own exclude each other. -/
theorem excludes [DecidableEq γ] (h : Reaches ledger m) : Excludes ledger m := by
  have hkept := Ledger.kept_of_reaches h
  have hfree {table : String} (hn : ¬ ledger.Holds table) : m.isLocked table = false :=
    Bool.eq_false_iff.2 fun hl => hn ((hkept.isLocked table).1 hl)
  exact {
    one := fun _ _ hm ho heq => hkept.unique hm ho heq
    once := hkept.nodup.of_map
    lock_free := fun table hn => by
      unfold react
      dsimp only
      rw [lock_of_free (hfree hn)]
      rfl
    guard_free := fun name table hn => by
      unfold react takeGuard
      dsimp only
      rw [lock_of_free (hfree hn)]
      rfl
    lock_held := fun table hh => by
      unfold react
      dsimp only
      rw [lock_of_locked ((hkept.isLocked table).2 hh)]
      rfl
    guard_held := fun name table hh => by
      unfold react takeGuard
      dsimp only
      rw [lock_of_locked ((hkept.isLocked table).2 hh)]
      rfl
    isLocked := hkept.isLocked
    mem_lockedTables := fun table => mem_lockedTables_iff.trans (hkept.isLocked table)
    ascending := ascending_lockedTables m }

/-- One client locks a table, another one takes a guard of a second table, and the first one releases
its own: now the first table is free for all, and the second is not. -/
theorem excludes_two_clients :
    ∃ (ledger : Ledger Nat) (m : Locks), Reaches ledger m ∧ Excludes ledger m ∧
      ledger = [{ client := 1, table := "b", guard? := some "g" }] ∧
      (m.react (.lock "a")).1 = .locked (.ok ()) ∧
      m.react (.lock "b") = (.locked (.error (.tableAlreadyLocked "b")), m) := by
  have hlock := Reaches.new.called 0 (.lock "a") trivial
  have hguard := hlock.called 1 (.guard "g" "b") (by
    intro holding hm hname
    obtain rfl := List.mem_singleton.1 hm
    cases hname)
  have hrelease := hguard.called 0 (.release "a") (List.mem_cons_of_mem _ List.mem_cons_self)
  have h := excludes hrelease
  have hholds : ∀ table, Ledger.Holds [(⟨1, "b", some "g"⟩ : Holding Nat)] table ↔ table = "b" := by
    intro table
    exact ⟨fun ⟨_, hm, heq⟩ => by rw [← heq, List.mem_singleton.1 hm],
      fun heq => ⟨_, List.mem_cons_self, heq.symm⟩⟩
  exact ⟨_, _, hrelease, h, rfl, h.lock_free "a" (mt (hholds "a").1 (by decide)),
    h.lock_held "b" ((hholds "b").2 rfl)⟩

end RelStore.Locks
