import Mathlib.Data.List.Induction
import RelStore.Proofs.Locks.Exclusion
import RelStore.Proofs.Locks.Numbers

/-!
# Guards and their locks

A guard is dropped by the name of its table: whatever lock the table has is released, and whoever
waits for the table is woken (`Locks.get?_held_dropGuard`, `Locks.get?_waiters_dropGuard`). That
lock is the guard's own as long as nobody has given the table up since the guard was taken
(`Locks.held_run_iff`). So a drop spares others (`Locks.Spares`) unless the table was given up and
locked again, and `Locks.drops_guard` says so of every guard behind any calls.
-/

namespace RelStore.Locks

/-! ## Giving up and sparing -/

/-- Whether a call gives up a table: by its name, or with a guard that is dropped, be it to make
room for a new one. -/
def Call.GivesUp (m : Locks) (table : String) : Call → Prop
  | .release other => other = table
  | .dropGuard name => (m.guards.get? name).map Guard.table = some table
  | .guard name other =>
    m.isLocked other = false ∧ (m.guards.get? name).map Guard.table = some table
  | _ => False

/-- Whether none of the calls gives up a table. -/
def Retained (table : String) : Locks → List Call → Prop
  | _, [] => True
  | m, call :: rest => ¬ call.GivesUp m table ∧ Retained table (m.react call).2 rest

/-- A guard whose lock its table has no longer is dropped without harm to others: it takes no lock
from them and wakes nobody. -/
def Spares (m : Locks) (name : String) (guard : Guard) : Prop :=
  m.held.get? guard.table ≠ some guard.lock →
    (m.dropGuard name).held = m.held ∧ (m.dropGuard name).waiters = m.waiters

/-- What there is to say of a guard that is kept under a name behind these calls. -/
structure DropsGuard (calls : List Call) (name : String) (guard : Guard) : Prop where
  /-- It was taken on a free table, with a new lock, which the table has as long as nobody gives it
  up. -/
  taken : ∃ before between, calls = before ++ .guard name guard.table :: between ∧
    (after before).isLocked guard.table = false ∧ (after before).nextLock = guard.lock ∧
    ((after calls).held.get? guard.table = some guard.lock ↔
      Retained guard.table (after before) (.guard name guard.table :: between))
  /-- Any other lock of the table is a later one. -/
  later (lock : LockId) : (after calls).held.get? guard.table = some lock → guard.lock ≤ lock
  /-- The drop leaves the table free, whoever has locked it. -/
  free : ((after calls).dropGuard name).isLocked guard.table = false
  held (other : String) : other ≠ guard.table →
    ((after calls).dropGuard name).held.get? other = (after calls).held.get? other
  /-- All those wake up who wait for the table, and nobody else. -/
  waiters (who : String) : ((after calls).dropGuard name).waiters.get? who =
    ((after calls).waiters.get? who).map fun w =>
      if w.table = guard.table then { w with asleepOn := none } else w
  /-- Others are spared unless somebody else has locked the table. -/
  spares : (after calls).Spares name guard ↔ (after calls).isLocked guard.table = false ∨
    (after calls).held.get? guard.table = some guard.lock

variable {m : Locks} {calls : List Call} {call : Call} {name table : String} {lock : LockId}
  {guard : Guard}

/-! ## One call -/

theorem get?_held_release_self (m : Locks) (table : String) :
    (m.release table).held.get? table = none := by
  cases hg : m.held.get? table with
  | none => rw [release, hg, hg]
  | some lock => rw [release_of_held hg]; exact OrderedMap.get?_erase_self ..

theorem get?_held_dropGuard (m : Locks) (name table : String) :
    (m.dropGuard name).held.get? table =
      if (m.guards.get? name).map Guard.table = some table then none else m.held.get? table := by
  unfold dropGuard
  cases m.guards.get? name with
  | none => rfl
  | some guard =>
    dsimp only [Option.map_some]
    split_ifs with h
    · rw [Option.some.inj h]
      exact get?_held_release_self m table
    · exact get?_held_release (fun he => h (congrArg some he.symm)) m

theorem nextLock_release (m : Locks) (table : String) :
    (m.release table).nextLock = m.nextLock := by
  unfold release
  cases m.held.get? table <;> rfl

theorem nextLock_dropGuard (m : Locks) (name : String) :
    (m.dropGuard name).nextLock = m.nextLock := by
  unfold dropGuard
  cases m.guards.get? name with
  | none => rfl
  | some guard => exact nextLock_release m guard.table

theorem react_lock_of_free (h : m.isLocked table = false) :
    (m.react (.lock table)).2 = m.taken table := by
  unfold react
  dsimp only
  rw [lock_of_free h]
  rfl

theorem react_lock_of_locked (h : m.isLocked table = true) : (m.react (.lock table)).2 = m := by
  unfold react
  dsimp only
  rw [lock_of_locked h]
  rfl

/-- The locks when a table is locked by a guard, for which an older one of its name is dropped. -/
def guarded (m : Locks) (name table : String) : Locks :=
  { (m.taken table).dropGuard name with
    guards := ((m.taken table).dropGuard name).guards.insert name { table, lock := m.nextLock } }

theorem get?_held_guarded (m : Locks) (name table other : String) :
    (m.guarded name table).held.get? other =
      if (m.guards.get? name).map Guard.table = some other then none
      else (m.taken table).held.get? other :=
  get?_held_dropGuard (m.taken table) name other

theorem nextLock_guarded (m : Locks) (name table : String) :
    (m.guarded name table).nextLock = m.nextLock + 1 :=
  nextLock_dropGuard (m.taken table) name

theorem react_guard_of_free (h : m.isLocked table = false) (name : String) :
    (m.react (.guard name table)).2 = m.guarded name table := by
  unfold react takeGuard
  dsimp only
  rw [lock_of_free h]
  rfl

theorem react_guard_of_locked (h : m.isLocked table = true) (name : String) :
    (m.react (.guard name table)).2 = m := by
  unfold react takeGuard
  dsimp only
  rw [lock_of_locked h]
  rfl

/-- What a call can do: wait or pass the time, lock a table, release one, drop a guard, or lock a
table by a guard. -/
theorem react_cases (m : Locks) (call : Call) :
    ((∀ table, ¬ call.GivesUp m table) ∧
      ∃ waiters now, (m.react call).2 = { m with waiters, now }) ∨
    (∃ table, call = .lock table ∧ m.isLocked table = false ∧
      (m.react call).2 = m.taken table) ∨
    (∃ table, call = .release table ∧ (m.react call).2 = m.release table) ∨
    (∃ name, call = .dropGuard name ∧ (m.react call).2 = m.dropGuard name) ∨
    ∃ name table, call = .guard name table ∧ m.isLocked table = false ∧
      (m.react call).2 = m.guarded name table := by
  have hwaiter (hcall : call.OfWaiter) :
      ∃ waiters now, (m.react call).2 = { m with waiters, now } :=
    (m.exists_react_ofWaiter hcall).imp fun waiters hr => ⟨m.now, hr⟩
  cases call with
  | lock table =>
    cases hl : m.isLocked table with
    | true => exact .inl ⟨fun _ => id, m.waiters, m.now, react_lock_of_locked hl⟩
    | false => exact .inr (.inl ⟨table, rfl, hl, react_lock_of_free hl⟩)
  | release table => exact .inr (.inr (.inl ⟨table, rfl, rfl⟩))
  | dropGuard name => exact .inr (.inr (.inr (.inl ⟨name, rfl, rfl⟩)))
  | guard name table =>
    cases hl : m.isLocked table with
    | true =>
      refine .inl ⟨fun _ h => ?_, m.waiters, m.now, react_guard_of_locked hl name⟩
      cases hl.symm.trans h.1
    | false => exact .inr (.inr (.inr (.inr ⟨name, table, rfl, hl, react_guard_of_free hl name⟩)))
  | wait | poll | cancel => exact .inl ⟨fun _ => id, hwaiter trivial⟩
  | advance => exact .inl ⟨fun _ => id, m.waiters, _, rfl⟩

theorem get?_held_taken (m : Locks) (table other : String) :
    (m.taken table).held.get? other =
      if other = table then some m.nextLock else m.held.get? other :=
  OrderedMap.get?_insert ..

/-- What a call makes of the lock of a table: nothing if the table is given up, and else the same
lock, or a new one for a table that is free. -/
theorem held_react (m : Locks) (call : Call) (table : String) :
    call.GivesUp m table ∧ (m.react call).2.held.get? table = none ∨
      ¬ call.GivesUp m table ∧ ((m.react call).2.held.get? table = m.held.get? table ∨
        m.held.get? table = none ∧ (m.react call).2.held.get? table = some m.nextLock) := by
  -- a table that is locked, or would have been by now, if it was free
  have htaken (other : String) (hfree : m.isLocked other = false) :
      (m.taken other).held.get? table = m.held.get? table ∨
        m.held.get? table = none ∧ (m.taken other).held.get? table = some m.nextLock := by
    rw [get?_held_taken]
    split_ifs with h
    · exact .inr ⟨h ▸ isLocked_eq_false_iff.1 hfree, rfl⟩
    · exact .inl rfl
  rcases m.react_cases call with ⟨hkeeps, waiters, now, hr⟩ | ⟨other, rfl, hfree, hr⟩ |
    ⟨other, rfl, hr⟩ | ⟨name, rfl, hr⟩ | ⟨name, other, rfl, hfree, hr⟩ <;> rw [hr]
  · exact .inr ⟨hkeeps table, .inl rfl⟩
  · exact .inr ⟨id, htaken other hfree⟩
  · by_cases h : other = table
    · exact .inl ⟨h, h ▸ get?_held_release_self m other⟩
    · exact .inr ⟨h, .inl (get?_held_release (Ne.symm h) m)⟩
  · rw [get?_held_dropGuard]
    split_ifs with h
    · exact .inl ⟨h, rfl⟩
    · exact .inr ⟨h, .inl rfl⟩
  · rw [get?_held_guarded]
    split_ifs with h
    · exact .inl ⟨⟨hfree, h⟩, rfl⟩
    · exact .inr ⟨fun hg => h hg.2, htaken other hfree⟩

/-- The number of a lock is never given back. -/
theorem nextLock_react (m : Locks) (call : Call) : m.nextLock ≤ (m.react call).2.nextLock := by
  rcases m.react_cases call with ⟨-, waiters, now, hr⟩ | ⟨table, -, -, hr⟩ | ⟨table, -, hr⟩ |
    ⟨name, -, hr⟩ | ⟨name, table, -, -, hr⟩ <;> rw [hr]
  · exact Nat.le_succ _
  · exact (nextLock_release m table).ge
  · exact (nextLock_dropGuard m name).ge
  · exact (Nat.le_succ _).trans (m.nextLock_guarded name table).ge

/-- A guard that is kept was kept before, or the call has taken it. -/
theorem get?_guards_react (h : (m.react call).2.guards.get? name = some guard) :
    m.guards.get? name = some guard ∨
      call = .guard name guard.table ∧ m.isLocked guard.table = false ∧
        m.nextLock = guard.lock := by
  have hdrop {m : Locks} {other : String} (h : (m.dropGuard other).guards.get? name = some guard) :
      m.guards.get? name = some guard := by
    by_cases hne : name = other
    · rw [hne, get?_guards_dropGuard] at h
      cases h
    · unfold dropGuard at h
      cases hg : m.guards.get? other with
      | none => rwa [hg] at h
      | some guard' =>
        rw [hg] at h
        rwa [← OrderedMap.get?_erase_of_ne hne]
  rcases m.react_cases call with ⟨-, waiters, now, hr⟩ | ⟨table, -, -, hr⟩ | ⟨table, -, hr⟩ |
    ⟨other, -, hr⟩ | ⟨other, table, rfl, hfree, hr⟩ <;> rw [hr] at h
  · exact .inl h
  · exact .inl h
  · exact .inl (guards_release m table ▸ h)
  · exact .inl (hdrop h)
  · unfold guarded at h
    dsimp only at h
    by_cases hne : name = other
    · subst hne
      rw [OrderedMap.get?_insert_self] at h
      obtain rfl := Option.some.inj h
      exact .inr ⟨rfl, hfree, rfl⟩
    · rw [OrderedMap.get?_insert_of_ne hne] at h
      have hold : (m.taken table).guards.get? name = some guard := hdrop h
      exact .inl hold

/-! ## Any calls -/

theorem after_append (calls rest : List Call) :
    after (calls ++ rest) = (run react (after calls) rest).2 := by
  rw [after, run_append]
  rfl

/-- A lock that a table has behind some calls it had before, or it is a new one. -/
theorem held_run (h : (run react m calls).2.held.get? table = some lock) :
    m.held.get? table = some lock ∨ m.nextLock ≤ lock := by
  induction calls generalizing m with
  | nil => exact .inl h
  | cons call rest ih =>
    rcases ih h with hheld | hle
    · rcases held_react m call table with ⟨-, hr⟩ | ⟨-, hr | ⟨-, hr⟩⟩
      · cases hr.symm.trans hheld
      · exact .inl (hr.symm.trans hheld)
      · exact .inr (Option.some.inj (hr.symm.trans hheld)).le
    · exact .inr ((m.nextLock_react call).trans hle)

/-- A table has kept its lock if nobody has given it up. -/
theorem held_run_iff (h : m.held.get? table = some lock) (hlt : lock < m.nextLock) :
    (run react m calls).2.held.get? table = some lock ↔ Retained table m calls := by
  induction calls generalizing m with
  | nil => exact iff_of_true h trivial
  | cons call rest ih =>
    have hnext := hlt.trans_le (m.nextLock_react call)
    rcases held_react m call table with ⟨hgives, hr⟩ | ⟨hkeeps, hr | ⟨hr, -⟩⟩
    · refine iff_of_false (fun hrun => ?_) fun hretained => hretained.1 hgives
      have hrest : (run react (m.react call).2 rest).2.held.get? table = some lock := hrun
      rcases held_run hrest with hheld | hle
      · cases hr.symm.trans hheld
      · exact hnext.not_ge hle
    · exact (ih (hr.trans h) hnext).trans ⟨fun hrest => ⟨hkeeps, hrest⟩, And.right⟩
    · cases hr.symm.trans h

/-- The lock of a guard is held as long as nobody has given up its table, the call that has taken
the guard not excepted: it may drop another guard of that table. -/
theorem held_guard_iff (hfree : m.isLocked table = false) (name : String) (rest : List Call) :
    (run react m (.guard name table :: rest)).2.held.get? table = some m.nextLock ↔
      Retained table m (.guard name table :: rest) := by
  have hnext : m.nextLock < (m.react (.guard name table)).2.nextLock := by
    rw [react_guard_of_free hfree, nextLock_guarded]
    exact Nat.lt_succ_self _
  have hheld := m.get?_held_guarded name table table
  rw [get?_held_taken, if_pos rfl, ← react_guard_of_free hfree] at hheld
  rw [run_cons]
  dsimp only
  split_ifs at hheld with hgives
  · refine iff_of_false (fun h => ?_) fun hretained => hretained.1 ⟨hfree, hgives⟩
    rcases held_run h with h | hle
    · cases hheld.symm.trans h
    · exact hnext.not_ge hle
  · exact (held_run_iff hheld hnext).trans
      ⟨fun hrest => ⟨fun h => hgives h.2, hrest⟩, And.right⟩

/-- Every guard that is kept has been taken by some call. -/
theorem exists_guard (h : (after calls).guards.get? name = some guard) :
    ∃ before between, calls = before ++ .guard name guard.table :: between ∧
      (after before).isLocked guard.table = false ∧ (after before).nextLock = guard.lock := by
  induction calls using List.reverseRec with
  | nil => cases h
  | append_singleton calls call ih =>
    rw [after_append] at h
    rcases get?_guards_react h with h | ⟨rfl, hfree, hlock⟩
    · obtain ⟨before, between, rfl, htaken⟩ := ih h
      exact ⟨before, between ++ [call], by rw [List.append_assoc, List.cons_append], htaken⟩
    · exact ⟨calls, [], rfl, hfree, hlock⟩

theorem Numbered.react (h : m.Numbered) (call : Call) : (m.react call).2.Numbered := by
  rcases m.react_cases call with ⟨-, waiters, now, hr⟩ | ⟨table, -, -, hr⟩ | ⟨table, -, hr⟩ |
    ⟨name, -, hr⟩ | ⟨name, table, -, -, hr⟩ <;> rw [hr]
  · exact ⟨h.below, h.apart⟩
  · exact h.taken table
  · exact h.release table
  · exact h.dropGuard name
  · have hdropped := (h.taken table).dropGuard name
    exact ⟨hdropped.below, hdropped.apart⟩

theorem numbered_after (calls : List Call) : (after calls).Numbered := by
  induction calls using List.reverseRec with
  | nil => exact ⟨nofun, nofun⟩
  | append_singleton calls call ih => rw [after_append]; exact ih.react call

/-! ## Dropping a guard -/

theorem dropGuard_of_kept (h : m.guards.get? name = some guard) :
    m.dropGuard name = { m.release guard.table with guards := m.guards.erase name } := by
  rw [dropGuard, h]

/-- Releasing a table wakes those who wait for it, and nobody else. -/
theorem get?_waiters_release (hnumbered : m.Numbered) (halert : m.Alert) (table who : String) :
    (m.release table).waiters.get? who =
      (m.waiters.get? who).map fun w =>
        if w.table = table then { w with asleepOn := none } else w := by
  cases hw : m.waiters.get? who with
  | none =>
    have hwaits := congrFun (m.rouses_release table).waits who
    unfold waits at hwaits
    rw [hw] at hwaits
    exact Option.map_eq_none_iff.1 hwaits
  | some w =>
    -- whoever is asleep sleeps on the lock of his table
    have hasleep := halert who w
    cases hg : m.held.get? table with
    | none =>
      rw [release, hg, hw, Option.map_some]
      split_ifs with ht
      · cases hs : w.asleepOn with
        | none => rw [← hs]
        | some lock => cases hg.symm.trans (ht ▸ hasleep lock hw hs)
      · rfl
    | some lock =>
      rw [release_of_held hg]
      dsimp only
      rw [OrderedMap.get?_mapValues, hw, Option.map_some, Option.map_some]
      unfold Waiter.wake
      split_ifs with hs ht ht
      · rfl
      · exact absurd (hnumbered.apart _ _ _ (hasleep lock hw hs) hg) ht
      · cases hs' : w.asleepOn with
        | none => rw [← hs']
        | some other =>
          have hother := ht ▸ hasleep other hw hs'
          exact absurd (hs'.trans (hother.symm.trans hg)) hs
      · rfl

theorem spares_iff (h : m.guards.get? name = some guard) :
    m.Spares name guard ↔
      m.isLocked guard.table = false ∨ m.held.get? guard.table = some guard.lock := by
  rw [Spares, dropGuard_of_kept h, isLocked_eq_false_iff]
  dsimp only
  cases hg : m.held.get? guard.table with
  | none => exact iff_of_true (fun _ => by rw [release, hg]; exact ⟨rfl, rfl⟩) (.inl rfl)
  | some lock =>
    by_cases hown : some lock = some guard.lock
    · exact iff_of_true (absurd hown) (.inr hown)
    · have hneither : ¬ (some lock = none ∨ some lock = some guard.lock) :=
        fun hor => hor.elim (Option.some_ne_none lock) hown
      refine iff_of_false (fun hspares => ?_) hneither
      have hfreed := get?_held_release_self m guard.table
      rw [(hspares hown).1, hg] at hfreed
      cases hfreed

/-- A guard that is dropped frees its table, and that takes the table from another exactly if it was
given up and locked again since. -/
theorem drops_guard (h : (after calls).guards.get? name = some guard) :
    DropsGuard calls name guard := by
  obtain ⟨before, between, hcalls, hfree, hlock⟩ := exists_guard h
  have hrun : after calls = (run react (after before) (.guard name guard.table :: between)).2 := by
    rw [hcalls, after_append]
  have hdrop := dropGuard_of_kept h
  exact {
    taken := by
      refine ⟨before, between, hcalls, hfree, hlock, ?_⟩
      rw [hrun, ← hlock]
      exact held_guard_iff hfree name between
    later := fun lock hheld => by
      rw [hrun] at hheld
      rcases held_run hheld with hheld | hle
      · cases (isLocked_eq_false_iff.1 hfree).symm.trans hheld
      · exact hlock ▸ hle
    free := isLocked_eq_false_iff.2 (by rw [hdrop]; exact get?_held_release_self _ guard.table)
    held := fun other hne => by rw [hdrop]; exact get?_held_release hne _
    waiters := fun who => by
      rw [hdrop]
      exact get?_waiters_release (numbered_after calls) (watched_after calls).alert _ who
    spares := spares_iff h }

/-- A guard is kept while others wait for its table and for another one, and nobody gives its table
up: its drop spares everybody. -/
theorem drops_guard_of_own_lock :
    let calls := [.lock "a", .guard "g" "t", .wait "w" "t" (some 5), .advance 3, .wait "v" "a" none]
    let guard : Guard := { table := "t", lock := 1 }
    (after calls).guards.get? "g" = some guard ∧ DropsGuard calls "g" guard ∧
      (after calls).held.get? "t" = some 1 ∧ (after calls).Spares "g" guard := by
  intro calls guard
  have hkept : (after calls).guards.get? "g" = some guard := rfl
  have h := drops_guard hkept
  have hown : (after calls).held.get? "t" = some 1 := rfl
  exact ⟨hkept, h, hown, h.spares.2 (.inr hown)⟩

/-- A table under a guard is released by its name and locked by somebody else, for whom a third one
waits. When the guard is dropped, the new lock is gone and the one who waits is through. -/
theorem late_drop_frees_table_of_other :
    let calls := [.guard "g" "t", .release "t", .lock "t", .wait "w" "t" none]
    let guard : Guard := { table := "t", lock := 0 }
    (after calls).guards.get? "g" = some guard ∧ (after calls).held.get? "t" = some 1 ∧
      ¬ (after calls).Spares "g" guard ∧ (after (calls ++ [.dropGuard "g"])).isLocked "t" = false ∧
      ((after (calls ++ [.dropGuard "g"])).poll "w").map Prod.fst = some (.ready (.ok ())) := by
  intro calls guard
  refine ⟨rfl, rfl, fun hspares => ?_, rfl, rfl⟩
  have hheld := (hspares (by decide)).1
  cases (congrArg (OrderedMap.get? · "t") hheld).symm.trans rfl

end RelStore.Locks
