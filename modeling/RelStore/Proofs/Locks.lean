import RelStore.Locks
import RelStore.Proofs.OrderedMap

/-!
# Waiters and locks

Nobody sleeps but on the lock that his table has (`Alert`), so whoever waits for a table sees at
once that it is free. `Rouses` says of a change of the locks that it keeps this and leaves alone
what is waited for, and until when; each change but a waiter's own is one.
-/

namespace RelStore

theorem Waiter.table_wake (lock : LockId) (w : Waiter) : (w.wake lock).table = w.table := by
  unfold wake
  split <;> rfl

theorem Waiter.deadline_wake (lock : LockId) (w : Waiter) :
    (w.wake lock).deadline = w.deadline := by
  unfold wake
  split <;> rfl

/-- A waiter that is still asleep slept on another lock. -/
theorem Waiter.asleepOn_wake {lock other : LockId} {w : Waiter}
    (h : (w.wake lock).asleepOn = some other) : w.asleepOn = some other ∧ other ≠ lock := by
  unfold wake at h
  split at h
  · cases h
  · next hw => exact ⟨h, fun he => hw (he ▸ h)⟩

namespace Locks

/-- The table that is waited for under a name, and until when. -/
def waits (m : Locks) (name : String) : Option (String × Option Nat) :=
  (m.waiters.get? name).map fun w => (w.table, w.deadline)

/-- Whoever sleeps does so on the lock that his table has. -/
def Alert (m : Locks) : Prop :=
  ∀ name w lock, m.waiters.get? name = some w → w.asleepOn = some lock →
    m.held.get? w.table = some lock

/-- What is waited for stays the same, at the same time, and nobody oversleeps. -/
structure Rouses (m m' : Locks) : Prop where
  now : m'.now = m.now
  waits : m'.waits = m.waits
  alert : m.Alert → m'.Alert

/-- The locks when a table is locked. -/
def taken (m : Locks) (table : String) : Locks :=
  { m with held := m.held.insert table m.nextLock, nextLock := m.nextLock + 1 }

/-- The locks after a table was locked and released: whoever slept on a lock of this number is
awake. -/
def passed (m : Locks) : Locks :=
  { m with nextLock := m.nextLock + 1, waiters := m.waiters.mapValues fun _ w => w.wake m.nextLock }

/-- The locks without waiters. -/
def clear (m : Locks) : Locks := { m with waiters := ∅ }

variable {m m' m'' : Locks} {name table : String}

/-! ## Locking and releasing -/

theorem isLocked_eq_false_iff : m.isLocked table = false ↔ m.held.get? table = none := by
  rw [isLocked, OrderedMap.contains, Option.isSome_eq_false_iff, Option.isNone_iff_eq_none]

theorem isLocked_iff : m.isLocked table = true ↔ ∃ lock, m.held.get? table = some lock := by
  rw [isLocked, OrderedMap.contains, Option.isSome_iff_exists]

theorem lock?_of_free (h : m.isLocked table = false) : m.lock? table = some (m.taken table) := by
  rw [lock?, h]
  rfl

theorem lock_of_free (h : m.isLocked table = false) : m.lock table = .ok (m.taken table) := by
  rw [lock, lock?_of_free h]

theorem lock_of_locked (h : m.isLocked table = true) :
    m.lock table = .error (.tableAlreadyLocked table) := by
  rw [lock, lock?, h]
  rfl

theorem release_taken (h : m.isLocked table = false) :
    (m.taken table).release table = m.passed := by
  have hn := OrderedMap.get?_eq_none_iff.1 (isLocked_eq_false_iff.1 h)
  unfold release taken
  dsimp only
  rw [OrderedMap.get?_insert, if_pos rfl]
  dsimp only
  rw [OrderedMap.erase_insert hn]
  rfl

/-! ## Rousing -/

theorem Rouses.refl (m : Locks) : Rouses m m := ⟨rfl, rfl, id⟩

theorem Rouses.trans (h : Rouses m m') (h' : Rouses m' m'') : Rouses m m'' :=
  ⟨h'.now.trans h.now, h'.waits.trans h.waits, h'.alert ∘ h.alert⟩

/-- A lock is given up, and whoever sleeps on it is woken. -/
theorem rouses_wake {held : OrderedMap String LockId} {lock nextLock : LockId}
    (h : ∀ other table, other ≠ lock → m.held.get? table = some other →
      held.get? table = some other) :
    Rouses m { m with
      held, nextLock, waiters := m.waiters.mapValues fun _ w => w.wake lock } where
  now := rfl
  waits := by
    funext name
    unfold waits
    rw [OrderedMap.get?_mapValues, Option.map_map]
    refine congrArg (Option.map · (m.waiters.get? name)) (funext fun w => ?_)
    exact Prod.ext (w.table_wake lock) (w.deadline_wake lock)
  alert halert name w other hw hasleep := by
    dsimp only at hw ⊢
    rw [OrderedMap.get?_mapValues] at hw
    obtain ⟨w', hw', rfl⟩ := Option.map_eq_some_iff.1 hw
    obtain ⟨hasleep, hne⟩ := Waiter.asleepOn_wake hasleep
    rw [w'.table_wake]
    exact h other w'.table hne (halert name w' other hw' hasleep)

theorem rouses_passed (m : Locks) : Rouses m m.passed := rouses_wake fun _ _ _ h => h

theorem rouses_release (m : Locks) (table : String) : Rouses m (m.release table) := by
  unfold release
  cases hg : m.held.get? table with
  | none => exact .refl m
  | some lock =>
    refine rouses_wake fun other table' hne h => ?_
    rw [OrderedMap.get?_erase, if_neg, h]
    rintro rfl
    rw [hg] at h
    exact hne (Option.some.inj h).symm

theorem rouses_taken (h : m.isLocked table = false) : Rouses m (m.taken table) where
  now := rfl
  waits := rfl
  alert halert name w lock hw hasleep := by
    have hheld := halert name w lock hw hasleep
    show (m.held.insert table m.nextLock).get? w.table = some lock
    rw [OrderedMap.get?_insert, if_neg, hheld]
    rintro rfl
    rw [isLocked_eq_false_iff.1 h] at hheld
    cases hheld

theorem rouses_guards (m : Locks) (guards : OrderedMap String Guard) :
    Rouses m { m with guards } := ⟨rfl, rfl, id⟩

theorem rouses_of_lock (h : m.lock table = .ok m') : Rouses m m' := by
  cases hl : m.isLocked table with
  | true => rw [lock_of_locked hl] at h; cases h
  | false =>
    rw [lock_of_free hl] at h
    cases h
    exact rouses_taken hl

theorem rouses_dropGuard (m : Locks) (name : String) : Rouses m (m.dropGuard name) := by
  unfold dropGuard
  cases m.guards.get? name with
  | none => exact .refl m
  | some guard => exact (rouses_release m guard.table).trans (rouses_guards ..)

theorem rouses_of_takeGuard (h : m.takeGuard name table = .ok m') : Rouses m m' := by
  unfold takeGuard at h
  cases hl : m.lock table with
  | error error => rw [hl] at h; cases h
  | ok locked =>
    rw [hl] at h
    cases h
    exact ((rouses_of_lock hl).trans (rouses_dropGuard locked name)).trans (rouses_guards ..)

/-! ## Without waiters -/

theorem clear_release (m : Locks) (table : String) :
    m.clear.release table = (m.release table).clear := by
  have hheld : m.clear.held = m.held := rfl
  unfold release
  rw [hheld]
  cases m.held.get? table <;> rfl

theorem clear_lock (m : Locks) (table : String) :
    m.clear.lock table = (m.lock table).map clear := by
  have hlocked : m.clear.isLocked table = m.isLocked table := rfl
  unfold lock lock?
  rw [hlocked]
  cases m.isLocked table <;> rfl

theorem clear_dropGuard (m : Locks) (name : String) :
    m.clear.dropGuard name = (m.dropGuard name).clear := by
  have hguards : m.clear.guards = m.guards := rfl
  unfold dropGuard
  rw [hguards]
  cases m.guards.get? name with
  | none => rfl
  | some guard => dsimp only; rw [clear_release]; rfl

theorem clear_takeGuard (m : Locks) (name table : String) :
    m.clear.takeGuard name table = (m.takeGuard name table).map clear := by
  unfold takeGuard
  rw [clear_lock]
  cases m.lock table with
  | error error => rfl
  | ok locked =>
    dsimp only [Except.map, bind, Except.bind]
    rw [clear_dropGuard]
    rfl

/-! ## Waiters of one name -/

variable {other : String} {w : Waiter}

theorem waits_erase (h : other ≠ name) :
    waits { m with waiters := m.waiters.erase name } other = m.waits other := by
  unfold waits
  dsimp only
  rw [OrderedMap.get?_erase, if_neg h]

theorem waits_insert (h : other ≠ name) :
    waits { m with waiters := m.waiters.insert name w } other = m.waits other := by
  unfold waits
  dsimp only
  rw [OrderedMap.get?_insert, if_neg h]

theorem waits_insert_self :
    waits { m with waiters := m.waiters.insert name w } name = some (w.table, w.deadline) := by
  unfold waits
  dsimp only
  rw [OrderedMap.get?_insert, if_pos rfl]
  rfl

theorem Alert.erase (h : m.Alert) (name : String) :
    Alert { m with waiters := m.waiters.erase name } := by
  intro other w lock hw
  dsimp only at hw ⊢
  rw [OrderedMap.get?_erase] at hw
  split at hw
  · cases hw
  · exact h other w lock hw

theorem Alert.insert (h : m.Alert) (name : String)
    (hw : ∀ lock, w.asleepOn = some lock → m.held.get? w.table = some lock) :
    Alert { m with waiters := m.waiters.insert name w } := by
  intro other w' lock hw'
  dsimp only at hw' ⊢
  rw [OrderedMap.get?_insert] at hw'
  split at hw'
  · obtain rfl := Option.some.inj hw'
    exact hw lock
  · exact h other w' lock hw'

/-! ## Polling -/

/-- Someone who waits and is alert is through if his table is free, and otherwise waits on until
his deadline. -/
theorem settle_of_free (name : String)
    (halert : ∀ lock, w.asleepOn = some lock → m.held.get? w.table = some lock)
    (h : m.isLocked w.table = false) :
    m.settle name w = (.ready (.ok ()), { m with waiters := m.waiters.erase name }) := by
  have hnone := isLocked_eq_false_iff.1 h
  unfold settle Waiter.look
  cases hasleep : w.asleepOn with
  | some lock => rw [halert lock hasleep] at hnone; cases hnone
  | none => dsimp only; rw [hnone]; rfl

theorem settle_of_locked {lock : LockId} (name : String)
    (halert : ∀ lock, w.asleepOn = some lock → m.held.get? w.table = some lock)
    (h : m.held.get? w.table = some lock) :
    m.settle name w =
      if w.deadline.any (· ≤ m.now) then
        (.ready (.error (.lockTimeout w.table)), { m with waiters := m.waiters.erase name })
      else (.pending, { m with
        waiters := m.waiters.insert name { w with asleepOn := some lock } }) := by
  have hlook : w.look m.held = some { w with asleepOn := some lock } := by
    unfold Waiter.look
    cases hasleep : w.asleepOn with
    | none => dsimp only; rw [h]; rfl
    | some other =>
      have hother := halert other hasleep
      rw [h] at hother
      dsimp only
      rw [Option.some.inj hother, ← hasleep]
  unfold settle
  rw [hlook]

end Locks

end RelStore
