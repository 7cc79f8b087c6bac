import Mathlib.Tactic.SplitIfs
import RelStore.Proofs.Locks
import RelStore.Proofs.Run

/-!
# Waiting is exact

Callers lock, release and wait in any order (`Locks.react`). An onlooker who sees only calls and
replies knows who waits for which table and since when (`Locks.Watch.observe`), and that fixes the
answer to every poll (`Locks.Wait.answer`): nobody is through while his table is locked, and nobody
goes on waiting when it is free. What the locks keep of the waiters is what the onlooker knows, and
nobody sleeps but on the lock that his table has (`Locks.Watched`); every call keeps that
(`Locks.Watched.react`).
-/

namespace RelStore.Locks

/-! ## Calls -/

/-- A call of the locks. -/
inductive Call where
  | lock (table : String)
  | release (table : String)
  /-- Locks a table by a guard of this name. -/
  | guard (name table : String)
  | dropGuard (name : String)
  | wait (name table : String) (timeout : Option Nat)
  | poll (name : String)
  | cancel (name : String)
  | advance (ms : Nat)

/-- The reply to a call. -/
inductive Reply where
  | locked (answer : Except Error Unit)
  | polled (answer : Option (Poll Unit))
  | cancelled (waited : Bool)
  | done

/-- A call of someone who waits. -/
def Call.OfWaiter : Call → Prop
  | .wait .. | .poll _ | .cancel _ => True
  | _ => False

/-- The reply to one who asks for a lock, and the locks from then on. -/
def granted (m : Locks) : Except Error Locks → Reply × Locks
  | .ok m => (.locked (.ok ()), m)
  | .error error => (.locked (.error error), m)

/-- The reply to a call. -/
def react (m : Locks) : Call → Reply × Locks
  | .lock table => m.granted (m.lock table)
  | .release table => (.done, m.release table)
  | .guard name table => m.granted (m.takeGuard name table)
  | .dropGuard name => (.done, m.dropGuard name)
  | .wait name table timeout =>
    (.polled (some (m.wait name table timeout).1), (m.wait name table timeout).2)
  | .poll name =>
    match m.poll name with
    | some (answer, m) => (.polled (some answer), m)
    | none => (.polled none, m)
  | .cancel name => (.cancelled (m.cancel name).1, (m.cancel name).2)
  | .advance ms => (.done, m.advance ms)

/-! ## What an onlooker knows -/

/-- Someone who waits: for which table, since when, and for how long at most. -/
structure Wait where
  table : String
  since : Nat
  timeout : Option Nat

/-- The answer to one who waits, by whether his table is locked and by the time. -/
def Wait.answer (w : Wait) (locked : Bool) (now : Nat) : Poll Unit :=
  if locked then
    if w.timeout.any (w.since + · ≤ now) then .ready (.error (.lockTimeout w.table)) else .pending
  else .ready (.ok ())

/-- What an onlooker knows from the calls and the replies: the time, and who waits. -/
structure Watch where
  now : Nat := 0
  waiting : OrderedMap String Wait := ∅

/-- Someone waits from a call that was answered as pending to the first other answer. -/
def Watch.observe (watch : Watch) : Call → Reply → Watch
  | .wait name table timeout, .polled (some .pending) =>
    { watch with waiting := watch.waiting.insert name ⟨table, watch.now, timeout⟩ }
  | .poll _, .polled (some .pending) => watch
  | .wait name .., _ | .poll name, _ | .cancel name, _ =>
    { watch with waiting := watch.waiting.erase name }
  | .advance ms, _ => { watch with now := watch.now + ms }
  | _, _ => watch

/-- The locks behind these calls. -/
def after (calls : List Call) : Locks := (run react {} calls).2

/-- What an onlooker knows behind these calls. -/
def seen (calls : List Call) : Watch :=
  (calls.zip (run react {} calls).1).foldl (fun watch step => watch.observe step.1 step.2) {}

/-- What those who wait are promised behind these calls: an answer that is right at that moment,
whatever went on before. -/
structure WaitsExactly (calls : List Call) : Prop where
  now : (after calls).now = (seen calls).now
  wait (name table : String) (timeout : Option Nat) :
    ((after calls).wait name table timeout).1 =
      Wait.answer ⟨table, (seen calls).now, timeout⟩ ((after calls).isLocked table) (seen calls).now
  poll (name : String) (w : Wait) : (seen calls).waiting.get? name = some w →
    ((after calls).poll name).map Prod.fst =
      some (w.answer ((after calls).isLocked w.table) (seen calls).now)
  /-- Nobody else is polled. -/
  silent (name : String) : (seen calls).waiting.get? name = none → (after calls).poll name = none
  /-- Who is asleep will be woken by the release that he waits for. -/
  alert : (after calls).Alert
  held (call : Call) : call.OfWaiter → ((after calls).react call).2.held = (after calls).held

/-! ## What the locks keep -/

/-- The locks keep of those who wait what an onlooker knows of them. -/
structure Watched (watch : Watch) (m : Locks) : Prop where
  now : m.now = watch.now
  alert : m.Alert
  waits (name : String) : m.waits name =
    (watch.waiting.get? name).map fun w => (w.table, w.timeout.map (w.since + ·))

variable {m m' : Locks} {watch : Watch} {w : Waiter} {name : String}

/-- What settling someone does to the waiters, and that it does nothing else. -/
theorem exists_settle (m : Locks) (name : String) (w : Waiter) :
    ∃ waiters, (m.settle name w).2 = { m with waiters } := by
  unfold settle
  cases w.look m.held with
  | none => exact ⟨_, rfl⟩
  | some w =>
    dsimp only
    split_ifs <;> exact ⟨_, rfl⟩

/-- Whoever waits changes no lock, no guard and not the time. -/
theorem exists_react_ofWaiter (m : Locks) {call : Call} (h : call.OfWaiter) :
    ∃ waiters, (m.react call).2 = { m with waiters } := by
  cases call with
  | wait name table timeout => exact exists_settle ..
  | poll name =>
    unfold react poll
    dsimp only
    cases m.waiters.get? name with
    | none => exact ⟨m.waiters, rfl⟩
    | some w => exact exists_settle ..
  | cancel name => exact ⟨_, rfl⟩
  | lock | release | guard | dropGuard | advance => exact h.elim

theorem any_map_add_iff {timeout : Option Nat} {since now : Nat} :
    (timeout.map (since + ·)).any (· ≤ now) = timeout.any (since + · ≤ now) := by
  cases timeout <;> rfl

namespace Watched

/-- Whoever is roused waits on. -/
theorem rouses (h : Watched watch m) (hr : m.Rouses m') : Watched watch m' :=
  ⟨hr.now.trans h.now, hr.alert h.alert, fun name => (congrFun hr.waits name).trans (h.waits name)⟩

theorem granted (h : Watched watch m) {answer : Except Error Locks}
    (hr : ∀ m', answer = .ok m' → m.Rouses m') : Watched watch (m.granted answer).2 := by
  cases answer with
  | ok m' => exact h.rouses (hr m' rfl)
  | error error => exact h

/-- Someone is gone. -/
theorem off (h : Watched watch m) (name : String) :
    Watched { watch with waiting := watch.waiting.erase name }
      { m with waiters := m.waiters.erase name } where
  now := h.now
  alert := h.alert.erase name
  waits other := by
    by_cases hne : other = name
    · subst hne
      unfold Locks.waits
      dsimp only
      rw [OrderedMap.get?_erase_self, OrderedMap.get?_erase_self]
      rfl
    · rw [waits_erase hne, OrderedMap.get?_erase_of_ne hne]
      exact h.waits other

/-- Someone waits on a lock, as the onlooker knows. -/
theorem pend (h : Watched watch m) {waiting : OrderedMap String Wait} {wait : Wait}
    (hname : waiting.get? name = some wait)
    (hother : ∀ other, other ≠ name → waiting.get? other = watch.waiting.get? other)
    (htable : w.table = wait.table) (hdeadline : w.deadline = wait.timeout.map (wait.since + ·))
    {lock : LockId} (hlock : m.held.get? w.table = some lock) :
    Watched { watch with waiting }
      { m with waiters := m.waiters.insert name { w with asleepOn := some lock } } where
  now := h.now
  alert := by
    refine h.alert.insert name fun lock' hl => ?_
    obtain rfl : lock = lock' := Option.some.inj hl
    exact hlock
  waits other := by
    by_cases hne : other = name
    · subst hne
      rw [waits_insert_self, hname]
      exact congrArg some (Prod.ext htable hdeadline)
    · rw [waits_insert hne, hother other hne]
      exact h.waits other

/-- Someone who is settled gets the answer that is right at that moment. -/
theorem settle_fst (h : Watched watch m) {wait : Wait}
    (halert : ∀ lock, w.asleepOn = some lock → m.held.get? w.table = some lock)
    (htable : w.table = wait.table) (hdeadline : w.deadline = wait.timeout.map (wait.since + ·)) :
    (m.settle name w).1 = wait.answer (m.isLocked wait.table) watch.now := by
  unfold Wait.answer
  cases hl : m.isLocked wait.table with
  | false => rw [settle_of_free name halert (htable ▸ hl), if_neg Bool.false_ne_true]
  | true =>
    obtain ⟨lock, hlock⟩ := isLocked_iff.1 hl
    rw [settle_of_locked name halert (htable ▸ hlock), hdeadline, any_map_add_iff, h.now, htable,
      if_pos rfl]
    split_ifs <;> rfl

/-- What settling someone leaves. -/
theorem settle_snd (h : Watched watch m) {wait : Wait} {waiting : OrderedMap String Wait}
    (hname : waiting.get? name = some wait)
    (hother : ∀ other, other ≠ name → waiting.get? other = watch.waiting.get? other)
    (halert : ∀ lock, w.asleepOn = some lock → m.held.get? w.table = some lock)
    (htable : w.table = wait.table) (hdeadline : w.deadline = wait.timeout.map (wait.since + ·)) :
    (∃ answer, (m.settle name w).1 = .ready answer ∧
      Watched { watch with waiting := watch.waiting.erase name } (m.settle name w).2) ∨
    (m.settle name w).1 = .pending ∧ Watched { watch with waiting } (m.settle name w).2 := by
  cases hl : m.isLocked wait.table with
  | false =>
    rw [settle_of_free name halert (htable ▸ hl)]
    exact .inl ⟨_, rfl, h.off name⟩
  | true =>
    obtain ⟨lock, hlock⟩ := isLocked_iff.1 hl
    rw [← htable] at hlock
    rw [settle_of_locked name halert hlock]
    split_ifs
    · exact .inl ⟨_, rfl, h.off name⟩
    · exact .inr ⟨rfl, h.pend hname hother htable hdeadline hlock⟩

/-- The waiter of a name that the onlooker knows. -/
theorem exists_waiter (h : Watched watch m) {wait : Wait}
    (hw : watch.waiting.get? name = some wait) :
    ∃ w, m.waiters.get? name = some w ∧ w.table = wait.table ∧
      w.deadline = wait.timeout.map (wait.since + ·) ∧
      ∀ lock, w.asleepOn = some lock → m.held.get? w.table = some lock := by
  have hwaits := h.waits name
  rw [hw] at hwaits
  obtain ⟨w, hget, heq⟩ := Option.map_eq_some_iff.1 hwaits
  obtain ⟨htable, hdeadline⟩ := Prod.mk.inj heq
  exact ⟨w, hget, htable, hdeadline, fun lock => h.alert name w lock hget⟩

theorem poll_of_none (h : Watched watch m) (hw : watch.waiting.get? name = none) :
    m.poll name = none := by
  have hwaits := h.waits name
  rw [hw] at hwaits
  unfold poll
  rw [Option.map_eq_none_iff.1 hwaits]
  rfl

/-- Every call leaves the onlooker with what the locks keep. -/
theorem react (h : Watched watch m) (call : Call) :
    Watched (watch.observe call (m.react call).1) (m.react call).2 := by
  cases call with
  | lock table => exact h.granted fun _ => rouses_of_lock
  | release table => exact h.rouses (m.rouses_release table)
  | guard name table => exact h.granted fun _ => rouses_of_takeGuard
  | dropGuard name => exact h.rouses (m.rouses_dropGuard name)
  | wait name table timeout =>
    have hsettle := h.settle_snd (w := { table, deadline := timeout.map (m.now + ·) })
      (OrderedMap.get?_insert_self watch.waiting name ⟨table, watch.now, timeout⟩)
      (fun _ hne => OrderedMap.get?_insert_of_ne hne ..) nofun rfl (by rw [h.now])
    unfold Locks.react wait
    dsimp only
    rcases hsettle with ⟨answer, ha, hwatched⟩ | ⟨ha, hwatched⟩ <;> rw [ha] <;> exact hwatched
  | poll name =>
    unfold Locks.react
    dsimp only
    cases hw : watch.waiting.get? name with
    | none =>
      rw [h.poll_of_none hw]
      refine ⟨h.now, h.alert, fun other => ?_⟩
      dsimp only [Watch.observe]
      by_cases hne : other = name
      · subst hne
        rw [OrderedMap.get?_erase_self, h.waits, hw]
      · rw [OrderedMap.get?_erase_of_ne hne]
        exact h.waits other
    | some wait =>
      obtain ⟨w, hget, htable, hdeadline, halert⟩ := h.exists_waiter hw
      have hsettle := h.settle_snd hw (fun _ _ => rfl) halert htable hdeadline
      unfold poll
      rw [hget]
      dsimp only [Option.map_some]
      rcases hsettle with ⟨answer, ha, hwatched⟩ | ⟨ha, hwatched⟩ <;> rw [ha] <;> exact hwatched
  | cancel name => exact h.off name
  | advance ms => exact ⟨congrArg (· + ms) h.now, h.alert, h.waits⟩

theorem run (h : Watched watch m) (calls : List Call) :
    Watched ((calls.zip (RelStore.run Locks.react m calls).1).foldl
      (fun watch step => watch.observe step.1 step.2) watch) (RelStore.run Locks.react m calls).2 := by
  induction calls generalizing watch m with
  | nil => exact h
  | cons call rest ih => exact ih (h.react call)

end Watched

theorem watched_after (calls : List Call) : Watched (seen calls) (after calls) := by
  have halert : Alert {} := by
    intro name w lock hw
    cases (OrderedMap.get?_empty name).symm.trans hw
  exact Watched.run ⟨rfl, halert, fun _ => rfl⟩ calls

/-- Whatever callers do, a poll is answered by whether the table is locked at that moment. -/
theorem waits_exactly (calls : List Call) : WaitsExactly calls where
  now := (watched_after calls).now
  wait name table timeout := by
    have h := watched_after calls
    exact h.settle_fst nofun rfl (by rw [h.now])
  poll name w hw := by
    have h := watched_after calls
    obtain ⟨waiter, hget, htable, hdeadline, halert⟩ := h.exists_waiter hw
    unfold poll
    rw [hget]
    exact congrArg some (h.settle_fst halert htable hdeadline)
  silent name hw := (watched_after calls).poll_of_none hw
  alert := (watched_after calls).alert
  held call hcall := by
    obtain ⟨waiters, hr⟩ := (after calls).exists_react_ofWaiter hcall
    rw [hr]

end RelStore.Locks
