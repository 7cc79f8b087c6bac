import RelStore.Error
import RelStore.OrderedMap

/-!
# Table locks

A table has at most one lock at a time. Every lock has a number of its own, so that a lock that
was released and taken again is another one. A waiter sleeps on the lock that it has seen, and
the release of that lock wakes it; only then does it look at its table again. Waiting never
takes a lock, and time passes only by `advance`.
-/

namespace RelStore

/-- The number of a lock. -/
abbrev LockId := Nat

/-- Someone who waits for a table to be free. -/
structure Waiter where
  table : String
  /-- The lock that the waiter sleeps on; awake, it has to look at its table. -/
  asleepOn : Option LockId := none
  /-- The time from which on the wait has failed. -/
  deadline : Option Nat := none
deriving DecidableEq

namespace Waiter

/-- The waiter awake, if it sleeps on this lock. -/
def wake (lock : LockId) (w : Waiter) : Waiter :=
  if w.asleepOn = some lock then { w with asleepOn := none } else w

/-- The waiter after a look around: asleep, or gone because its table is free. A sleeping one
does not look. -/
def look (w : Waiter) (held : OrderedMap String LockId) : Option Waiter :=
  match w.asleepOn with
  | some _ => some w
  | none => (held.get? w.table).map fun lock => { w with asleepOn := some lock }

end Waiter

/-- The right to release a lock later. -/
structure Guard where
  table : String
  /-- The lock that was taken with the guard. -/
  lock : LockId
deriving DecidableEq

/-- The answer of something that waits. -/
inductive Poll (α : Type) where
  | pending
  | ready (result : Except Error α)

/-- All locks with those who wait for them and those who hold them by a guard. -/
structure Locks where
  held : OrderedMap String LockId := ∅
  /-- The number of the next lock. -/
  nextLock : LockId := 0
  waiters : OrderedMap String Waiter := ∅
  guards : OrderedMap String Guard := ∅
  /-- The time in milliseconds. -/
  now : Nat := 0

namespace Locks

/-- Whether a table is locked. -/
def isLocked (m : Locks) (table : String) : Bool := m.held.contains table

/-- The locked tables in the order of their names. -/
def lockedTables (m : Locks) : List String := m.held.keys.mergeSort fun a b => !(b < a : Bool)

/-- Locks a table, or nothing if it is locked already. -/
def lock? (m : Locks) (table : String) : Option Locks :=
  if m.isLocked table then none
  else some { m with held := m.held.insert table m.nextLock, nextLock := m.nextLock + 1 }

/-- Locks a table. -/
def lock (m : Locks) (table : String) : Except Error Locks :=
  match m.lock? table with
  | some m => .ok m
  | none => .error (.tableAlreadyLocked table)

/-- Releases the lock of a table, if there is one, and wakes those who sleep on it. -/
def release (m : Locks) (table : String) : Locks :=
  match m.held.get? table with
  | none => m
  | some lock =>
    { m with
      held := m.held.erase table
      waiters := m.waiters.mapValues fun _ w => w.wake lock }

/-! ## Guards -/

/-- Drops the guard of this name: its table is released, whoever has locked it since. -/
def dropGuard (m : Locks) (name : String) : Locks :=
  match m.guards.get? name with
  | none => m
  | some guard => { m.release guard.table with guards := m.guards.erase name }

/-- Locks a table and keeps the guard under a name, where it takes the place of the guard
before it. -/
def takeGuard (m : Locks) (name table : String) : Except Error Locks := do
  let locked ← m.lock table
  let dropped := locked.dropGuard name
  return { dropped with guards := dropped.guards.insert name { table, lock := m.nextLock } }

/-! ## Waiting -/

/-- Lets a waiter look and then compares the time with its deadline. Unless it goes on waiting
it is gone. -/
def settle (m : Locks) (name : String) (w : Waiter) : Poll Unit × Locks :=
  let gone := { m with waiters := m.waiters.erase name }
  match w.look m.held with
  | none => (.ready (.ok ()), gone)
  | some w =>
    if w.deadline.any (· ≤ m.now) then (.ready (.error (.lockTimeout w.table)), gone)
    else (.pending, { m with waiters := m.waiters.insert name w })

/-- Begins to wait for a table under a name, in place of whoever waits under that name, and
polls once. -/
def wait (m : Locks) (name table : String) (timeout : Option Nat) : Poll Unit × Locks :=
  m.settle name { table, deadline := timeout.map (m.now + ·) }

/-- Polls the waiter of this name, if there is one. -/
def poll (m : Locks) (name : String) : Option (Poll Unit × Locks) :=
  (m.waiters.get? name).map (m.settle name)

/-- Ends the wait of this name and tells whether there was one. -/
def cancel (m : Locks) (name : String) : Bool × Locks :=
  (m.waiters.contains name, { m with waiters := m.waiters.erase name })

/-- Lets time pass. -/
def advance (m : Locks) (ms : Nat) : Locks := { m with now := m.now + ms }

end Locks

end RelStore
