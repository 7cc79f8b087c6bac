import RelStore.Proofs.Locks.Waiting

/-!
# The numbers of locks

No two tables have the same lock, and the next lock is a new one (`Locks.Numbered`). So whoever
sleeps for one table is not woken by the release of another, and it makes no difference whether
another table is released before or after somebody is settled (`Locks.release_pend`).
-/

namespace RelStore

theorem Waiter.wake_comm (lock other : LockId) (w : Waiter) :
    (w.wake lock).wake other = (w.wake other).wake lock := by
  unfold wake
  split_ifs <;> simp_all

theorem Waiter.wake_of_ne {lock : LockId} {w : Waiter} (h : w.asleepOn ≠ some lock) :
    w.wake lock = w := if_neg h

namespace Locks

variable {m m' m'' : Locks} {name table other : String} {lock : LockId}

/-! ## Locks that are held -/

/-- The same tables are locked, by the same locks, and no number of a lock is given back. -/
structure Stays (m m' : Locks) : Prop where
  held : m'.held = m.held
  next : m.nextLock ≤ m'.nextLock

theorem Stays.refl (m : Locks) : Stays m m := ⟨rfl, Nat.le_refl _⟩

theorem Stays.trans (h : Stays m m') (h' : Stays m' m'') : Stays m m'' :=
  ⟨h'.held.trans h.held, Nat.le_trans h.next h'.next⟩

theorem stays_passed (m : Locks) : Stays m m.passed := ⟨rfl, Nat.le_succ _⟩

theorem stays_settle (m : Locks) (name : String) (w : Waiter) : Stays m (m.settle name w).2 := by
  obtain ⟨waiters, hs⟩ := exists_settle m name w
  rw [hs]
  exact ⟨rfl, Nat.le_refl _⟩

/-- No two tables have the same lock, and the next lock is a new one. -/
structure Numbered (m : Locks) : Prop where
  below (table : String) (lock : LockId) : m.held.get? table = some lock → lock < m.nextLock
  apart (table other : String) (lock : LockId) : m.held.get? table = some lock →
    m.held.get? other = some lock → table = other

namespace Numbered

theorem mono (h : m.Numbered)
    (hheld : ∀ table lock, m'.held.get? table = some lock → m.held.get? table = some lock)
    (hnext : m.nextLock ≤ m'.nextLock) : m'.Numbered where
  below table lock hl := Nat.lt_of_lt_of_le (h.below table lock (hheld table lock hl)) hnext
  apart table other lock hl hl' :=
    h.apart table other lock (hheld table lock hl) (hheld other lock hl')

theorem stays (h : m.Numbered) (hs : Stays m m') : m'.Numbered :=
  h.mono (fun _ _ hl => hs.held ▸ hl) hs.next

theorem release (h : m.Numbered) (table : String) : (m.release table).Numbered := by
  cases hg : m.held.get? table with
  | none => rwa [Locks.release, hg]
  | some lock =>
    rw [Locks.release, hg]
    refine h.mono (fun other lock' hl => ?_) (Nat.le_refl _)
    dsimp only at hl
    rw [OrderedMap.get?_erase] at hl
    split_ifs at hl
    exact hl

theorem dropGuard (h : m.Numbered) (name : String) : (m.dropGuard name).Numbered := by
  unfold Locks.dropGuard
  cases m.guards.get? name with
  | none => exact h
  | some guard => exact (h.release guard.table).mono (fun _ _ hl => hl) (Nat.le_refl _)

theorem taken (h : m.Numbered) (table : String) : (m.taken table).Numbered where
  below other lock hl := by
    dsimp only [Locks.taken] at hl ⊢
    rw [OrderedMap.get?_insert] at hl
    split_ifs at hl
    · obtain rfl := Option.some.inj hl
      exact Nat.lt_succ_self _
    · exact Nat.lt_succ_of_lt (h.below other lock hl)
  apart one other lock hl hl' := by
    dsimp only [Locks.taken] at hl hl'
    rw [OrderedMap.get?_insert] at hl hl'
    -- the new lock has a number that no other table's lock has
    have hnew (t : String) : m.held.get? t ≠ some m.nextLock :=
      fun hn => Nat.lt_irrefl _ (h.below t _ hn)
    split_ifs at hl hl' with ho ho'
    · exact ho.trans ho'.symm
    · exact absurd (Option.some.inj hl ▸ hl') (hnew other)
    · exact absurd (Option.some.inj hl' ▸ hl) (hnew one)
    · exact h.apart one other lock hl hl'

theorem of_lock (h : m.Numbered) (hl : m.lock table = .ok m') : m'.Numbered := by
  cases hlocked : m.isLocked table with
  | true => rw [lock_of_locked hlocked] at hl; cases hl
  | false =>
    rw [lock_of_free hlocked] at hl
    cases hl
    exact h.taken table

theorem of_takeGuard (h : m.Numbered) (ht : m.takeGuard name table = .ok m') : m'.Numbered := by
  unfold takeGuard at ht
  cases hl : m.lock table with
  | error error => rw [hl] at ht; cases ht
  | ok locked =>
    rw [hl] at ht
    cases ht
    exact ((h.of_lock hl).dropGuard name).mono (fun _ _ hl => hl) (Nat.le_refl _)

end Numbered

/-! ## Releasing another table -/

theorem release_of_held (h : m.held.get? table = some lock) :
    m.release table = { m with
      held := m.held.erase table
      waiters := m.waiters.mapValues fun _ w => w.wake lock } := by
  rw [release, h]

theorem now_release (m : Locks) (table : String) : (m.release table).now = m.now := by
  unfold release
  cases m.held.get? table <;> rfl

theorem get?_held_release (h : other ≠ table) (m : Locks) :
    (m.release table).held.get? other = m.held.get? other := by
  unfold release
  cases m.held.get? table with
  | none => rfl
  | some lock => exact OrderedMap.get?_erase_of_ne h _

theorem isLocked_release_of_ne (h : other ≠ table) (m : Locks) :
    (m.release table).isLocked other = m.isLocked other := by
  unfold isLocked OrderedMap.contains
  rw [get?_held_release h]

theorem isLocked_dropGuard
    (h : ∀ guard, m.guards.get? name = some guard → guard.table ≠ table) :
    (m.dropGuard name).isLocked table = m.isLocked table := by
  unfold dropGuard
  cases hg : m.guards.get? name with
  | none => rfl
  | some guard => exact isLocked_release_of_ne (h guard hg).symm m

theorem release_passed (m : Locks) (table : String) :
    m.passed.release table = (m.release table).passed := by
  have hheld : m.passed.held = m.held := rfl
  cases hg : m.held.get? table with
  | none => rw [release, release, hheld, hg]
  | some lock =>
    rw [release_of_held hg, release_of_held (hheld ▸ hg)]
    unfold passed
    dsimp only
    rw [OrderedMap.mapValues_comm _ (Waiter.wake_comm m.nextLock lock)]

theorem release_cancel (m : Locks) (name table : String) :
    (m.cancel name).2.release table = ((m.release table).cancel name).2 := by
  have hheld : (m.cancel name).2.held = m.held := rfl
  cases hg : m.held.get? table with
  | none => rw [release, release, hheld, hg]
  | some lock =>
    rw [release_of_held hg, release_of_held (hheld ▸ hg)]
    unfold cancel
    dsimp only
    rw [OrderedMap.mapValues_erase]

/-- Someone sleeps on the lock of one table, whether another was released before or not. -/
theorem release_pend (h : m.Numbered) {w : Waiter} (hasleep : w.asleepOn = some lock)
    (hlock : m.held.get? other = some lock) (hne : other ≠ table) (name : String) :
    release { m with waiters := m.waiters.insert name w } table =
      { m.release table with waiters := (m.release table).waiters.insert name w } := by
  cases hg : m.held.get? table with
  | none => rw [release, release, hg]
  | some lock' =>
    have hother : w.asleepOn ≠ some lock' := by
      rw [hasleep]
      intro he
      exact hne (h.apart other table lock hlock (Option.some.inj he ▸ hg))
    have hg' : ({ m with waiters := m.waiters.insert name w } : Locks).held.get? table = some lock' :=
      hg
    rw [release_of_held hg, release_of_held hg']
    dsimp only
    rw [OrderedMap.mapValues_insert, Waiter.wake_of_ne hother]

/-- Whoever waits for one table is settled in the same way, whether another was released before or
not. -/
theorem settle_release (h : m.Numbered) (halert : m.Alert) {w : Waiter}
    (hw : m.waiters.get? name = some w) (hne : w.table ≠ table) :
    ∃ w', (m.release table).waiters.get? name = some w' ∧
      (m.release table).settle name w' =
        ((m.settle name w).1, (m.settle name w).2.release table) := by
  obtain ⟨w', hw', htable, hdeadline⟩ : ∃ w', (m.release table).waiters.get? name = some w' ∧
      w'.table = w.table ∧ w'.deadline = w.deadline := by
    obtain ⟨w', hw', heq⟩ := Option.map_eq_some_iff.1
      ((congrFun (m.rouses_release table).waits name).trans (congrArg (Option.map _) hw))
    exact ⟨w', hw', (Prod.mk.inj heq).1, (Prod.mk.inj heq).2⟩
  have ha := fun lock => halert name w lock hw
  have ha' := fun lock => (m.rouses_release table).alert halert name w' lock hw'
  refine ⟨w', hw', ?_⟩
  cases hl : m.isLocked w.table with
  | false =>
    have hl' : (m.release table).isLocked w'.table = false := by
      rw [htable, isLocked_release_of_ne hne, hl]
    rw [settle_of_free name ha hl, settle_of_free name ha' hl']
    exact Prod.ext rfl (m.release_cancel name table).symm
  | true =>
    obtain ⟨lock, hlock⟩ := isLocked_iff.1 hl
    have hlock' : (m.release table).held.get? w'.table = some lock := by
      rw [htable, get?_held_release hne, hlock]
    have hpast : w'.deadline.any (· ≤ (m.release table).now) = w.deadline.any (· ≤ m.now) := by
      rw [hdeadline, now_release]
    rw [settle_of_locked name ha hlock, settle_of_locked name ha' hlock', hpast]
    split_ifs
    · rw [htable]
      exact Prod.ext rfl (m.release_cancel name table).symm
    · have hasleep : ({ w' with asleepOn := some lock } : Waiter) =
          { w with asleepOn := some lock } := by
        rw [Waiter.mk.injEq]
        exact ⟨htable, rfl, hdeadline⟩
      rw [hasleep]
      exact Prod.ext rfl (release_pend h rfl hlock hne name).symm

end Locks

end RelStore
