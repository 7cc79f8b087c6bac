import RelStore.Proofs.Engine.Reachable
import RelStore.Proofs.Engine.Untouched
import RelStore.Proofs.Engine.Waiting
import RelStore.Proofs.Locks.Exclusion
import RelStore.Proofs.Locks.Numbers

/-!
# A lock isolates its table

What a call about statements can come to is said once (`react_cases`): at most one statement is
executed, and the same tables are locked as before. While a table is locked no such call touches it
(`Untouched.react`), whatever is called until its release is asked for (`Withholds`). Statements
about other tables do not notice the lock: they are answered, and change the engine, as they would
if the table were free (`react_unlocked`).
-/

namespace RelStore

open Sql (IsWord Statement)

/-- A call about statements that are executed or wait, or about the time they wait. -/
def Call.OfStatements : Call → Prop
  | .start .. | .poll _ | .cancel _ | .advance _ | .execute _ => True
  | _ => False

namespace Engine

/-- Whether a call asks for the release of a table, by its name or by a guard of it. -/
def Releases (e : Engine) (table : String) : Call → Prop
  | .release other => other = table
  | .guard name _ | .dropGuard name =>
    ∃ guard, e.locks.guards.get? name = some guard ∧ guard.table = table
  | _ => False

/-- None of these calls asks for the release of a table. -/
def Withholds (table : String) : Engine → List Call → Prop
  | _, [] => True
  | e, call :: rest => ¬ e.Releases table call ∧ Withholds table (e.react call).2 rest

/-- The engine as it would be if a table were not locked. -/
def unlocked (table : String) (e : Engine) : Engine := { e with locks := e.locks.release table }

/-- A call about statements, but none on this table. -/
def Beside (e : Engine) (table : String) : Call → Prop
  | .execute sql | .start _ sql => ∀ s, Statement.ofText sql = .ok s → s.table ≠ table
  | .poll name => ∀ s, e.suspended.get? name = some s → s.table ≠ table
  | .cancel _ | .advance _ => True
  | _ => False

/-- A statement waits on for a table, or has waited for too long, and does nothing else. -/
structure Detained (table : String) (e : Engine) (r : Poll QueryResult × Engine) : Prop where
  answer : r.1 = .pending ∨ r.1 = .ready (.error (.lockTimeout table))
  nothing : r.2.cancelAll = e.cancelAll

/-- What is promised for a table between the engine where it was locked and a later one. Only a word
is sure to have a file of its own; any other name may lead to that of another table. -/
structure Isolated (table : String) (e e' : Engine) : Prop where
  locked : e'.locks.isLocked table = true
  live : IsWord table → table ≠ Catalog.reserved → e'.live table = e.live table
  catalog : e'.catalog.contains table = e.catalog.contains table
  file : IsWord table → table ≠ Catalog.reserved →
    e'.directory.lookup table = e.directory.lookup table
  /-- A statement on the table is refused, whatever else would be wrong with it. -/
  executed (sql : String) (s : Statement) : Statement.ofText sql = .ok s → s.table = table →
    e'.answer sql = (.error (.tableAlreadyLocked table), e')
  started (name sql : String) (s : Statement) : Statement.ofText sql = .ok s → s.table = table →
    Detained table e' (e'.start name sql)
  polled (name : String) (s : Statement) : e'.suspended.get? name = some s → s.table = table →
    ∃ r, e'.poll name = some r ∧ Detained table e' r
  /-- Statements on other tables do not notice the lock. -/
  beside (call : Call) : e'.Beside table call →
    (e'.unlocked table).react call = ((e'.react call).1, (e'.react call).2.unlocked table)

/-- What is promised for the locks of an engine: no statement leaves one behind or takes one away,
and a table that is locked is isolated as long as nobody asks for its release. -/
structure Isolates (e : Engine) : Prop where
  executed (s : Statement) : (ending (executeStatement s e)).locks.held = e.locks.held
  held (call : Call) : call.OfStatements → (e.react call).2.locks.held = e.locks.held
  isolated (table : String) (locks : Locks) (calls : List Call) : e.locks.lock table = .ok locks →
    Withholds table { e with locks } calls → Isolated table e ({ e with locks }.after calls)

variable {e e' : Engine} {table name sql : String} {s : Statement} {call : Call}

/-! ## Calls about statements -/

/-- Nothing happened but to those who wait, and the same tables are locked. -/
structure Rests (e e' : Engine) : Prop where
  same : e' = e.aside e'
  stays : e.locks.Stays e'.locks

theorem Rests.refl (e : Engine) : Rests e e := ⟨rfl, .refl _⟩

theorem Rests.untouched (h : Rests e e') (table : String) : Untouched table e e' where
  order := congrArg (·.order) h.same
  tables := congrArg (·.tables.get? table) h.same
  catalog := congrArg (·.catalog.contains table) h.same
  file _ _ := congrArg (·.directory.lookup table) h.same

theorem forget_rests (e : Engine) (name : String) : Rests e (e.forget name) :=
  ⟨rfl, rfl, Nat.le_refl _⟩

/-- However a statement ends, the same tables are locked as before. -/
theorem stays_executeStatement (s : Statement) (e : Engine) :
    e.locks.Stays (ending (executeStatement s e)).locks := by
  obtain ⟨step, hstep, hblind⟩ := executeStatement_eq_withLock s
  rw [hstep]
  cases h : e.locks.isLocked s.table with
  | true =>
    rw [withLock_of_locked h]
    exact .refl _
  | false =>
    rw [withLock_of_free hblind h]
    cases step e <;> exact e.locks.stays_passed

/-- What comes of a statement that is tried, apart from waiting, comes of executing it. -/
theorem attempt_rests (e : Engine) (name : String) (s : Statement) :
    Rests (ending (executeStatement s e)) (e.attempt name s).2 := by
  unfold attempt
  cases executeStatement s e with
  | ok result e' => exact ⟨rfl, rfl, Nat.le_refl _⟩
  | error error e' =>
    cases error with
    | tableAlreadyLocked table =>
      have hwait : e'.locks.Stays (e'.locks.wait name table e'.lockWait).2 :=
        e'.locks.stays_settle name _
      dsimp only
      rcases hw : e'.locks.wait name table e'.lockWait with ⟨_ | ⟨_ | _⟩, locks⟩ <;>
        rw [hw] at hwait <;> exact ⟨rfl, hwait.held, hwait.next⟩
    | _ => exact ⟨rfl, rfl, Nat.le_refl _⟩

/-- A call about statements executes at most one, which was read just now or waits. -/
theorem react_cases (e : Engine) (h : call.OfStatements) :
    Rests e (e.react call).2 ∨
    ∃ s e₁, ((∃ sql, Statement.ofText sql = .ok s) ∨ ∃ name, e.suspended.get? name = some s) ∧
      Rests e e₁ ∧ Rests (ending (executeStatement s e₁)) (e.react call).2 := by
  cases call with
  | start name sql =>
    unfold react start
    dsimp only
    cases hs : Statement.ofText sql with
    | error error => exact .inl (e.forget_rests name)
    | ok s => exact .inr ⟨s, e.forget name, .inl ⟨sql, hs⟩, e.forget_rests name, attempt_rests ..⟩
  | poll name =>
    unfold react Engine.poll Locks.poll
    dsimp only
    cases hs : e.suspended.get? name with
    | none => exact .inl (.refl e)
    | some s =>
      cases e.locks.waiters.get? name with
      | none => exact .inl (.refl e)
      | some w =>
        have hsettle := e.locks.stays_settle name w
        dsimp only [Option.map_some]
        rcases hr : e.locks.settle name w with ⟨_ | ⟨_ | _⟩, locks⟩ <;> rw [hr] at hsettle
        · exact .inl ⟨rfl, hsettle⟩
        · exact .inl ⟨rfl, hsettle.held, hsettle.next⟩
        · exact .inr ⟨s, { e with locks }, .inr ⟨name, hs⟩, ⟨rfl, hsettle⟩, attempt_rests ..⟩
  | cancel name => exact .inl (e.forget_rests name)
  | advance ms => exact .inl ⟨rfl, rfl, Nat.le_refl _⟩
  | execute sql =>
    unfold react answer execute
    dsimp only
    cases hs : Statement.ofText sql with
    | error error => exact .inl (.refl e)
    | ok s =>
      refine .inr ⟨s, e, .inl ⟨sql, hs⟩, .refl e, ?_⟩
      dsimp only
      cases executeStatement s e <;> exact .refl _
  | lock | release | guard | dropGuard => exact h.elim

/-- No call about statements leaves a lock behind or takes one away. -/
theorem stays_react (e : Engine) (h : call.OfStatements) :
    e.locks.Stays (e.react call).2.locks := by
  rcases e.react_cases h with hrests | ⟨s, e₁, -, hbefore, hbehind⟩
  · exact hrests.stays
  · exact (hbefore.stays.trans (stays_executeStatement s e₁)).trans hbehind.stays

/-! ## Wherever an engine comes to -/

/-- An onlooker knows what waits. -/
theorem Reachable.watched (h : e.Reachable) :
    ∃ timeout watch, Watched timeout watch (fun _ => True) e := by
  induction h with
  | opened hopen => exact ⟨_, _, (watched_of_openOn hopen).1⟩
  | called call _ ih =>
    obtain ⟨timeout, watch, hwatched⟩ := ih
    exact ⟨timeout, _, hwatched.react call⟩
  | cancelled _ ih =>
    obtain ⟨timeout, watch, hwatched⟩ := ih
    exact ⟨timeout, { now := watch.now }, hwatched.lockWait, hwatched.now, nofun, fun _ _ => rfl⟩
  | changed sink _ ih =>
    obtain ⟨timeout, watch, hwatched⟩ := ih
    exact ⟨timeout, watch, hwatched.lockWait, hwatched.now, hwatched.alert, hwatched.kept⟩

theorem numbered_setLocks (h : e.locks.Numbered) {answer : Except Error Locks}
    (ha : ∀ locks, answer = .ok locks → locks.Numbered) :
    (e.setLocks answer).2.locks.Numbered := by
  cases answer with
  | ok locks => exact ha locks rfl
  | error error => exact h

theorem numbered_react (h : e.locks.Numbered) (call : Call) :
    (e.react call).2.locks.Numbered := by
  cases call with
  | start | poll | cancel | advance | execute => exact h.stays (stays_react e trivial)
  | lock table => exact numbered_setLocks h fun _ => h.of_lock
  | release table => exact h.release table
  | guard name table => exact numbered_setLocks h fun _ => h.of_takeGuard
  | dropGuard name => exact h.dropGuard name

theorem Reachable.numbered (h : e.Reachable) : e.locks.Numbered := by
  induction h with
  | opened hopen =>
    obtain ⟨-, order, catalog, -, -, rfl⟩ := openOn_eq_ok.1 hopen
    exact ⟨nofun, nofun⟩
  | called call _ ih => exact numbered_react ih call
  | cancelled _ ih => exact ⟨ih.below, ih.apart⟩
  | changed sink _ ih => exact ih

/-- Whatever waits was read, and its waiter waits for its table. -/
theorem Watched.exists_waiter {timeout : Option Nat} {watch : Watch}
    (h : Watched timeout watch (fun _ => True) e) (hs : e.suspended.get? name = some s) :
    ∃ w waiter, watch.waiting.get? name = some w ∧ Statement.ofText w.sql = .ok s ∧
      e.locks.waiters.get? name = some waiter ∧ waiter.table = s.table := by
  have hkept := h.kept name trivial
  cases hw : watch.waiting.get? name with
  | none =>
    rw [hw, hs] at hkept
    cases hkept
  | some w =>
    rw [hw, hs] at hkept
    obtain ⟨s', hread, hsame, hwaits⟩ := hkept
    obtain rfl := Option.some.inj hsame
    obtain ⟨waiter, hwaiter, heq⟩ := Option.map_eq_some_iff.1 hwaits
    exact ⟨w, waiter, rfl, hread, hwaiter, (Prod.mk.inj heq).1⟩

/-- Whatever waits was read. -/
theorem Reachable.isWord_suspended (h : e.Reachable) (hs : e.suspended.get? name = some s) :
    IsWord s.table := by
  obtain ⟨timeout, watch, hwatched⟩ := h.watched
  obtain ⟨w, waiter, -, hread, -⟩ := hwatched.exists_waiter hs
  exact Sql.isWord_table hread

/-! ## While a table is locked -/

/-- Only who asks for it has a table released. -/
theorem isLocked_react (h : e.locks.isLocked table = true) (hn : ¬ e.Releases table call) :
    (e.react call).2.locks.isLocked table = true := by
  have htaken (other : String) : (e.locks.taken other).isLocked table = true :=
    (Locks.isLocked_taken ..).2 (.inr h)
  have hstatement (hcall : call.OfStatements) : (e.react call).2.locks.isLocked table = true := by
    unfold Locks.isLocked
    rw [(stays_react e hcall).held]
    exact h
  cases call with
  | start | poll | cancel | advance | execute => exact hstatement trivial
  | lock other =>
    unfold react
    dsimp only
    cases hl : e.locks.isLocked other with
    | true => rw [Locks.lock_of_locked hl]; exact h
    | false => rw [Locks.lock_of_free hl]; exact htaken other
  | release other => exact (Locks.isLocked_release_of_ne (Ne.symm hn) e.locks).trans h
  | guard name other =>
    -- the guard that makes room for the new one is not of the table
    have hguard (guard : Guard) (hg : (e.locks.taken other).guards.get? name = some guard) :
        guard.table ≠ table := fun he => hn ⟨guard, hg, he⟩
    unfold react Locks.takeGuard
    dsimp only
    cases hl : e.locks.isLocked other with
    | true => rw [Locks.lock_of_locked hl]; exact h
    | false =>
      rw [Locks.lock_of_free hl]
      exact (Locks.isLocked_dropGuard hguard).trans (htaken other)
  | dropGuard name =>
    have hguard (guard : Guard) (hg : e.locks.guards.get? name = some guard) :
        guard.table ≠ table := fun he => hn ⟨guard, hg, he⟩
    exact (Locks.isLocked_dropGuard hguard).trans h

theorem untouched_setLocks (table : String) (e : Engine) (answer : Except Error Locks) :
    Untouched table e (e.setLocks answer).2 := by
  cases answer <;> exact ⟨rfl, rfl, rfl, fun _ _ => rfl⟩

/-- A statement does not touch a table that is locked, its own included. -/
theorem untouched_executeStatement (hw : IsWord s.table) (hl : e.locks.isLocked table = true) :
    Untouched table e (ending (executeStatement s e)) := by
  by_cases hne : table = s.table
  · obtain ⟨step, hstep, -⟩ := executeStatement_eq_withLock s
    rw [hstep, withLock_of_locked (hne ▸ hl)]
    exact .refl table e
  · exact leaves_executeStatement hw hne e

/-- No call touches a table that is locked. -/
theorem Reachable.untouched_react (h : e.Reachable) (hl : e.locks.isLocked table = true)
    (call : Call) : Untouched table e (e.react call).2 := by
  have hstatement (hcall : call.OfStatements) : Untouched table e (e.react call).2 := by
    rcases e.react_cases hcall with hrests | ⟨s, e₁, hs, hbefore, hbehind⟩
    · exact hrests.untouched table
    · have hw : IsWord s.table := by
        rcases hs with ⟨sql, hs⟩ | ⟨name, hs⟩
        · exact Sql.isWord_table hs
        · exact h.isWord_suspended hs
      have hl₁ : e₁.locks.isLocked table = true := by
        rw [Locks.isLocked, hbefore.stays.held]
        exact hl
      exact ((hbefore.untouched table).trans (untouched_executeStatement hw hl₁)).trans
        (hbehind.untouched table)
  cases call with
  | start | poll | cancel | advance | execute => exact hstatement trivial
  | lock other => exact untouched_setLocks ..
  | guard name other => exact untouched_setLocks ..
  | release | dropGuard => exact ⟨rfl, rfl, rfl, fun _ _ => rfl⟩

/-- A table that is locked stays locked and untouched until its release is asked for. -/
theorem Reachable.untouched_after (h : e.Reachable) (hl : e.locks.isLocked table = true)
    {calls : List Call} (hcalls : Withholds table e calls) :
    (e.after calls).locks.isLocked table = true ∧ Untouched table e (e.after calls) := by
  induction calls generalizing e with
  | nil => exact ⟨hl, .refl table e⟩
  | cons call rest ih =>
    obtain ⟨hlocked, huntouched⟩ := ih (h.called call) (isLocked_react hl hcalls.1) hcalls.2
    exact ⟨hlocked, (h.untouched_react hl call).trans huntouched⟩

/-- A statement that is tried on a locked table is detained. -/
theorem Tried.detained {timeout : Option Nat} {w : Wait} {r : Poll QueryResult × Engine}
    (h : Tried timeout e w table r) (hl : e.locks.isLocked table = true) : Detained table e r := by
  cases h with
  | executed hfree => rw [hl] at hfree; cases hfree
  | timedOut _ _ hc => exact ⟨.inr rfl, hc⟩
  | pending _ _ hc => exact ⟨.inl rfl, hc⟩

/-! ## As if a table were not locked -/

theorem forget_unlocked (e : Engine) (name table : String) :
    (e.unlocked table).forget name = (e.forget name).unlocked table := by
  unfold forget unlocked
  dsimp only
  rw [Locks.release_cancel]

theorem gone_unlocked (e : Engine) (name table : String) :
    (e.unlocked table).gone name = (e.gone name).unlocked table := by
  unfold gone unlocked
  dsimp only
  rw [Locks.release_cancel]

theorem isLocked_unlocked (hne : s.table ≠ table) (e : Engine) :
    (e.unlocked table).locks.isLocked s.table = e.locks.isLocked s.table :=
  Locks.isLocked_release_of_ne hne e.locks

theorem answer_unlocked (e : Engine)
    (hne : ∀ s, Statement.ofText sql = .ok s → s.table ≠ table) :
    (e.unlocked table).answer sql = ((e.answer sql).1, (e.answer sql).2.unlocked table) := by
  cases hs : Statement.ofText sql with
  | error error => rw [answer_of_error hs, answer_of_error hs]
  | ok s =>
    have hsame := isLocked_unlocked (hne s hs) e
    cases h : e.locks.isLocked s.table with
    | true =>
      rw [h] at hsame
      rw [answer_of_locked hs h, answer_of_locked hs hsame]
    | false =>
      rw [h] at hsame
      obtain ⟨step, hstep, hblind⟩ := executeStatement_eq_withLock s
      have hstep' : step (e.unlocked table) = mapState (·.aside (e.unlocked table)) (step e) :=
        hblind.commutes e (e.unlocked table)
      have hpassed : (e.unlocked table).locks.passed = e.locks.passed.release table :=
        (e.locks.release_passed table).symm
      unfold answer execute
      rw [hs]
      dsimp only
      rw [hstep, withLock_of_free hblind h, withLock_of_free hblind hsame, hstep', hpassed]
      cases step e <;> rfl

/-- A statement on another table that is tried does not notice that a table is locked. -/
theorem attempt_unlocked (h : e.locks.Numbered) (hs : Statement.ofText sql = .ok s)
    (hne : s.table ≠ table) (name : String) :
    (e.unlocked table).attempt name s =
      ((e.attempt name s).1, (e.attempt name s).2.unlocked table) := by
  have hsame := isLocked_unlocked hne e
  cases hl : e.locks.isLocked s.table with
  | false =>
    have hanswer : (e.unlocked table).answer sql = _ := e.answer_unlocked fun s' hs' => by
      rw [hs] at hs'
      exact Except.ok.inj hs' ▸ hne
    rw [hl] at hsame
    rw [attempt_of_free hs hl, attempt_of_free hs hsame, hanswer, forget_unlocked]
  | true =>
    obtain ⟨lock, hlock⟩ := Locks.isLocked_iff.1 hl
    have hlock' : (e.unlocked table).locks.held.get? s.table = some lock :=
      (Locks.get?_held_release hne e.locks).trans hlock
    have hnow : (e.unlocked table).locks.now = e.locks.now := e.locks.now_release table
    rw [attempt_of_locked hlock rfl, attempt_of_locked hlock' rfl, hnow,
      show (e.unlocked table).lockWait = e.lockWait from rfl]
    split_ifs
    · rw [gone_unlocked, forget_unlocked]
    · refine Prod.ext rfl ?_
      unfold unlocked
      dsimp only
      rw [Locks.release_pend h rfl hlock hne]

theorem start_unlocked (h : e.locks.Numbered)
    (hne : ∀ s, Statement.ofText sql = .ok s → s.table ≠ table) (name : String) :
    (e.unlocked table).start name sql =
      ((e.start name sql).1, (e.start name sql).2.unlocked table) := by
  unfold start
  cases hs : Statement.ofText sql with
  | error error =>
    dsimp only
    rw [forget_unlocked]
  | ok s =>
    have hforget : (e.forget name).locks.Numbered := ⟨h.below, h.apart⟩
    dsimp only
    rw [forget_unlocked, attempt_unlocked hforget hs (hne s hs)]

theorem Watched.poll_unlocked {timeout : Option Nat} {watch : Watch}
    (h : Watched timeout watch (fun _ => True) e) (hn : e.locks.Numbered)
    (hne : ∀ s, e.suspended.get? name = some s → s.table ≠ table) :
    (e.unlocked table).poll name =
      (e.poll name).map fun r => (r.1, r.2.unlocked table) := by
  cases hs : e.suspended.get? name with
  | none =>
    have hs' : (e.unlocked table).suspended.get? name = none := hs
    unfold Engine.poll
    rw [hs, hs']
    rfl
  | some s =>
    obtain ⟨w, waiter, -, hread, hwaiter, htable⟩ := h.exists_waiter hs
    obtain ⟨waiter', hwaiter', hsettle⟩ :=
      Locks.settle_release hn h.alert hwaiter (htable ▸ hne s hs)
    have hs' : (e.unlocked table).suspended.get? name = some s := hs
    have hstays := e.locks.stays_settle name waiter
    rw [poll_of_suspended hs hwaiter, poll_of_suspended hs' hwaiter',
      show (e.unlocked table).locks = e.locks.release table from rfl, hsettle]
    rcases hr : e.locks.settle name waiter with ⟨_ | ⟨error | _⟩, locks⟩ <;> rw [hr] at hstays
    · rfl
    · have hforget := forget_unlocked { e with locks } name table
      exact congrArg (fun e => some (Poll.ready (.error error), e)) hforget
    · have hattempt := attempt_unlocked (e := { e with locks }) (hn.stays hstays) hread (hne s hs)
        name
      exact congrArg some hattempt

/-- Calls about statements on other tables do not notice that a table is locked. -/
theorem Reachable.react_unlocked (h : e.Reachable) (hb : e.Beside table call) :
    (e.unlocked table).react call = ((e.react call).1, (e.react call).2.unlocked table) := by
  have hnumbered := h.numbered
  obtain ⟨timeout, watch, hwatched⟩ := h.watched
  cases call with
  | start name sql =>
    unfold react
    dsimp only
    rw [start_unlocked hnumbered hb]
  | poll name =>
    unfold react
    dsimp only
    rw [hwatched.poll_unlocked hnumbered hb]
    cases e.poll name <;> rfl
  | cancel name =>
    unfold react cancel
    dsimp only
    rw [forget_unlocked]
    rfl
  | advance ms =>
    unfold react advance unlocked Locks.advance Locks.release
    dsimp only
    cases e.locks.held.get? table <;> rfl
  | execute sql =>
    unfold react
    dsimp only
    rw [answer_unlocked e hb]
  | lock | release | guard | dropGuard => exact hb.elim

/-! ## Isolation -/

/-- While a table is locked, whatever is called, it is isolated. -/
theorem Reachable.isolated (h : e.Reachable) {locks : Locks} {calls : List Call}
    (hlock : e.locks.lock table = .ok locks) (hcalls : Withholds table { e with locks } calls) :
    Isolated table e ({ e with locks }.after calls) := by
  have hfree : e.locks.isLocked table = false := by
    by_contra hl
    rw [Locks.lock_of_locked (Bool.not_eq_false _ ▸ hl)] at hlock
    cases hlock
  obtain rfl : e.locks.taken table = locks := by
    rw [Locks.lock_of_free hfree] at hlock
    exact Except.ok.inj hlock
  have hreached : Reachable { e with locks := e.locks.taken table } := by
    have hcalled := h.called (.lock table)
    rw [react, Locks.lock_of_free hfree] at hcalled
    exact hcalled
  have htaken : (e.locks.taken table).isLocked table = true :=
    (Locks.isLocked_taken ..).2 (.inl rfl)
  obtain ⟨hlocked, huntouched⟩ := hreached.untouched_after htaken hcalls
  have hlater := hreached.after calls
  obtain ⟨timeout, watch, hwatched⟩ := hlater.watched
  refine ⟨hlocked, huntouched.live, huntouched.catalog, huntouched.file, ?_, ?_, ?_, ?_⟩
  · rintro sql s hs rfl
    exact answer_of_locked hs hlocked
  · rintro name sql s hs rfl
    exact (hwatched.start hs name).1.detained hlocked
  · rintro name s hs rfl
    obtain ⟨w, waiter, hw, hread, -⟩ := hwatched.exists_waiter hs
    obtain ⟨s', r, hread', hr, htried, -⟩ := hwatched.poll hw
    obtain rfl : s = s' := Except.ok.inj (hread.symm.trans hread')
    exact ⟨r, hr, htried.detained hlocked⟩
  · exact fun call hb => hlater.react_unlocked hb

end Engine

end RelStore
