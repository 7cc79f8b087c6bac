import RelStore.Proofs.Engine.Calls

/-!
# Statements that wait take effect once

An engine keeps under each name what an onlooker takes to wait there, with its deadline counted
from its start (`Watched`). A start or a poll tries the statement (`Watched.start`,
`Watched.poll`), and any other call leaves it waiting (`Watched.react`). What is left of the calls
without waiting is answered in the same way, call by call (`Watched.run_serialStep`), since
executing a statement does not depend on what waits.
-/

namespace RelStore.Engine

open Sql (Statement)

/-- What an engine keeps under a name, its statement and what its waiter waits for, is what an
onlooker takes to wait under the name. -/
def Kept (timeout : Option Nat) :
    Option Wait → Option Statement → Option (String × Option Nat) → Prop
  | none, kept, _ => kept = none
  | some w, kept, waiter => ∃ s, Statement.ofText w.sql = .ok s ∧ kept = some s ∧
    waiter = some (s.table, timeout.map (w.since + ·))

/-- Under each of these names an engine keeps what an onlooker takes to wait. -/
structure Watched (timeout : Option Nat) (watch : Watch) (names : String → Prop) (e : Engine) :
    Prop where
  lockWait : e.lockWait = timeout
  now : e.locks.now = watch.now
  alert : e.locks.Alert
  kept : ∀ name, names name →
    Kept timeout (watch.waiting.get? name) (e.suspended.get? name) (e.locks.waits name)

/-- The engine without the waiter of this name. -/
def gone (name : String) (e : Engine) : Engine := { e with locks := (e.locks.cancel name).2 }

/-- What is forgotten under a name is forgotten where nothing waits any more. -/
theorem cancelAll_forget (name : String) (e : Engine) : (e.forget name).cancelAll = e.cancelAll :=
  rfl

variable {timeout : Option Nat} {watch : Watch} {names : String → Prop} {e e' : Engine}
  {name sql : String} {s : Statement} {w : Wait}

namespace Watched

theorem mono {names' : String → Prop} (h : Watched timeout watch names e)
    (hnames : ∀ name, names' name → names name) : Watched timeout watch names' e :=
  ⟨h.lockWait, h.now, h.alert, fun name hn => h.kept name (hnames name hn)⟩

theorem suspended_of_none (h : Watched timeout watch (fun _ => True) e)
    (hw : watch.waiting.get? name = none) : e.suspended.get? name = none := by
  have hkept := h.kept name trivial
  rwa [hw] at hkept

/-- Where nothing waits, a poll finds nothing. -/
theorem poll_of_none (h : Watched timeout watch (fun _ => True) e)
    (hw : watch.waiting.get? name = none) : e.poll name = none := by
  unfold Engine.poll
  rw [h.suspended_of_none hw]

/-- Whoever is roused waits on. -/
theorem rouses (h : Watched timeout watch names e) {locks : Locks} (hr : e.locks.Rouses locks) :
    Watched timeout watch names { e with locks } where
  lockWait := h.lockWait
  now := hr.now.trans h.now
  alert := hr.alert h.alert
  kept name hn := by
    have hkept := h.kept name hn
    rwa [← congrFun hr.waits name] at hkept

theorem setLocks (h : Watched timeout watch names e) {answer : Except Error Locks}
    (hr : ∀ locks, answer = .ok locks → e.locks.Rouses locks) :
    Watched timeout watch names (e.setLocks answer).2 := by
  cases answer with
  | ok locks => exact h.rouses (hr locks rfl)
  | error error => exact h

/-- A query leaves everyone waiting, as long as it can be answered at once. -/
theorem answer (h : Watched timeout watch names e) (sql : String) :
    Watched timeout watch names (e.answer sql).2 := by
  cases hs : Statement.ofText sql with
  | error error => rw [answer_of_error hs]; exact h
  | ok s =>
    cases hl : e.locks.isLocked s.table with
    | true => rw [answer_of_locked hs hl]; exact h
    | false =>
      have hpassed := h.rouses e.locks.rouses_passed
      rw [(answer_of_free hs hl).1]
      exact ⟨hpassed.lockWait, hpassed.now, hpassed.alert, hpassed.kept⟩

/-- Under one name something else is kept. -/
theorem beside (h : Watched timeout watch (· ≠ name) e) {waiters : OrderedMap String Waiter}
    {suspended : OrderedMap String Statement}
    (halert : Locks.Alert { e.locks with waiters })
    (hwaits : ∀ other, other ≠ name →
      Locks.waits { e.locks with waiters } other = e.locks.waits other)
    (hsuspended : ∀ other, other ≠ name → suspended.get? other = e.suspended.get? other) :
    Watched timeout watch (· ≠ name)
      { e with locks := { e.locks with waiters }, suspended } where
  lockWait := h.lockWait
  now := h.now
  alert := halert
  kept other hne := by
    dsimp only
    rw [hwaits other hne, hsuspended other hne]
    exact h.kept other hne

/-- An onlooker learns what is kept under one name. -/
theorem learn (h : Watched timeout watch (· ≠ name) e) {waiting : OrderedMap String Wait}
    (hother : ∀ other, other ≠ name → waiting.get? other = watch.waiting.get? other)
    (hname : Kept timeout (waiting.get? name) (e.suspended.get? name) (e.locks.waits name)) :
    Watched timeout { watch with waiting } (fun _ => True) e where
  lockWait := h.lockWait
  now := h.now
  alert := h.alert
  kept other _ := by
    by_cases hne : other = name
    · exact hne ▸ hname
    · dsimp only
      rw [hother other hne]
      exact h.kept other hne

theorem gone (h : Watched timeout watch (· ≠ name) e) :
    Watched timeout watch (· ≠ name) (e.gone name) :=
  h.beside (h.alert.erase name) (fun _ hne => Locks.waits_erase hne) fun _ _ => rfl

/-- What waits under a name is forgotten. -/
theorem off (h : Watched timeout watch (· ≠ name) e) :
    Watched timeout watch (· ≠ name) (e.forget name) :=
  h.beside (h.alert.erase name) (fun _ hne => Locks.waits_erase hne) fun _ hne =>
    OrderedMap.get?_erase_of_ne hne _

theorem forget (h : Watched timeout watch (· ≠ name) e) :
    Watched timeout { watch with waiting := watch.waiting.erase name } (fun _ => True)
      (e.forget name) := by
  refine h.off.learn (fun _ hne => OrderedMap.get?_erase_of_ne hne _) ?_
  rw [OrderedMap.get?_erase_self]
  exact OrderedMap.get?_erase_self ..

/-- A statement waits for a table that is locked. -/
theorem pend (h : Watched timeout watch (· ≠ name) e) (hs : Statement.ofText w.sql = .ok s)
    {lock : LockId} (hlock : e.locks.held.get? s.table = some lock)
    {suspended : OrderedMap String Statement} (hname : suspended.get? name = some s)
    (hsuspended : ∀ other, other ≠ name → suspended.get? other = e.suspended.get? other)
    {waiting : OrderedMap String Wait} (hw : waiting.get? name = some w)
    (hwaiting : ∀ other, other ≠ name → waiting.get? other = watch.waiting.get? other) :
    Watched timeout { watch with waiting } (fun _ => True)
      { e with
        locks := { e.locks with
          waiters := e.locks.waiters.insert name
            { table := s.table, asleepOn := some lock, deadline := timeout.map (w.since + ·) } }
        suspended } := by
  have halert := h.alert.insert name (w := {
    table := s.table, asleepOn := some lock, deadline := timeout.map (w.since + ·) }) (by
      rintro _ ⟨⟩
      exact hlock)
  refine (h.beside halert (fun _ hne => Locks.waits_insert hne) hsuspended).learn hwaiting ?_
  rw [hw]
  exact ⟨s, hs, hname, Locks.waits_insert_self⟩

end Watched

/-! ## Trying a statement -/

/-- On a free table a statement is answered, and does not wait. -/
theorem attempt_of_free (hs : Statement.ofText sql = .ok s)
    (h : e.locks.isLocked s.table = false) (name : String) :
    e.attempt name s = (.ready (e.answer sql).1, (e.answer sql).2.forget name) := by
  obtain ⟨-, hlocks⟩ := answer_of_free hs h
  unfold attempt
  rw [executeStatement_eq_result hs]
  cases ha : (e.answer sql).1 with
  | ok answer => rfl
  | error error =>
    have hne := hlocks error ha
    cases error with
    | tableAlreadyLocked table => exact absurd trivial hne
    | _ => rfl

/-- On a locked table a statement begins to wait. -/
theorem attempt_of_locked {lock : LockId} {deadline : Option Nat}
    (h : e.locks.held.get? s.table = some lock)
    (hdeadline : e.lockWait.map (e.locks.now + ·) = deadline) (name : String) :
    e.attempt name s =
      if deadline.any (· ≤ e.locks.now) then
        (.ready (.error (.lockTimeout s.table)), (e.gone name).forget name)
      else (.pending, { e with
        locks := { e.locks with
          waiters := e.locks.waiters.insert name
            { table := s.table, asleepOn := some lock, deadline } }
        suspended := e.suspended.insert name s }) := by
  obtain ⟨step, hstep, -⟩ := executeStatement_eq_withLock s
  have hsettle := Locks.settle_of_locked name
    (w := { table := s.table, deadline }) nofun h
  unfold attempt
  rw [hstep, withLock_of_locked (Locks.isLocked_iff.2 ⟨lock, h⟩)]
  dsimp only
  rw [Locks.wait, hdeadline, hsettle]
  split_ifs <;> rfl

theorem any_deadline_iff {since now : Nat} :
    (timeout.map (since + ·)).any (· ≤ now) = true ↔ ∃ ms ∈ timeout, since + ms ≤ now := by
  cases timeout <;> simp

/-- What comes of a statement that is tried does not depend on what waits. -/
theorem Tried.congr {table : String} {e₁ : Engine} {r : Poll QueryResult × Engine}
    (h : Tried timeout e₁ w table r) (he : e₁.cancelAll = e.cancelAll) :
    Tried timeout e w table r := by
  have hanswer : ((e₁.answer w.sql).1, (e₁.answer w.sql).2.cancelAll) =
      ((e.answer w.sql).1, (e.answer w.sql).2.cancelAll) := by
    rw [← answer_cancelAll, ← answer_cancelAll, he]
  obtain ⟨h1, h2⟩ := Prod.mk.inj hanswer
  have hlocked : e₁.locks.isLocked table = e.locks.isLocked table :=
    congrArg (·.locks.isLocked table) he
  have hnow : e₁.locks.now = e.locks.now := congrArg (·.locks.now) he
  have hnext : e₁.locks.nextLock = e.locks.nextLock := congrArg (·.locks.nextLock) he
  have hnext' : (e₁.answer w.sql).2.locks.nextLock = (e.answer w.sql).2.locks.nextLock :=
    congrArg (·.locks.nextLock) h2
  cases h with
  | executed hl hn hlocks hc =>
    rw [h1]
    rw [hlocked] at hl
    rw [h1] at hlocks
    exact .executed hl (hnext' ▸ hnext ▸ hn) hlocks (hc.trans h2)
  | timedOut hl ht hc => exact .timedOut (hlocked ▸ hl) (hnow ▸ ht) (hc.trans he)
  | pending hl ht hc => exact .pending (hlocked ▸ hl) (hnow ▸ ht) (hc.trans he)

/-- A statement that is tried on a free table is through. -/
theorem Watched.attempt (h : Watched timeout watch (· ≠ name) e)
    (hs : Statement.ofText w.sql = .ok s) (hl : e.locks.isLocked s.table = false) :
    ∃ answer e', e.attempt name s = (.ready answer, e') ∧
      Tried timeout e w s.table (.ready answer, e') ∧
      Watched timeout { watch with waiting := watch.waiting.erase name } (fun _ => True) e' := by
  obtain ⟨hpassed, hlocks⟩ := answer_of_free hs hl
  refine ⟨_, _, attempt_of_free hs hl name, ?_, (h.answer w.sql).forget⟩
  exact .executed hl (congrArg (·.locks.nextLock) hpassed) hlocks (cancelAll_forget ..)

/-- A statement that is started is tried, and an onlooker learns what comes of it. -/
theorem Watched.start (h : Watched timeout watch (fun _ => True) e)
    (hs : Statement.ofText sql = .ok s) (name : String) :
    Tried timeout e ⟨sql, watch.now⟩ s.table (e.start name sql) ∧
      Watched timeout (watch.observe (.start name sql) (.polled (some (e.start name sql).1)))
        (fun _ => True) (e.start name sql).2 := by
  have hstart : e.start name sql = (e.forget name).attempt name s := by
    unfold Engine.start
    rw [hs]
  have hoff : Watched timeout watch (· ≠ name) (e.forget name) := (h.mono fun _ _ => trivial).off
  rw [hstart]
  cases hl : e.locks.isLocked s.table with
  | false =>
    obtain ⟨answer, e', ha, htried, hwatched⟩ := hoff.attempt (w := ⟨sql, watch.now⟩) hs hl
    rw [ha]
    exact ⟨htried.congr rfl, hwatched⟩
  | true =>
    obtain ⟨lock, hlock⟩ := Locks.isLocked_iff.1 hl
    have hdeadline : (e.forget name).lockWait.map ((e.forget name).locks.now + ·) =
        timeout.map (watch.now + ·) := by
      rw [hoff.lockWait, hoff.now]
    rw [attempt_of_locked (e := e.forget name) hlock hdeadline]
    split_ifs with ht
    · exact ⟨.timedOut hl (any_deadline_iff.1 ht) rfl, hoff.gone.forget⟩
    · rw [any_deadline_iff] at ht
      push Not at ht
      refine ⟨.pending hl ht rfl, ?_⟩
      exact hoff.pend (w := ⟨sql, watch.now⟩) hs hlock (OrderedMap.get?_insert_self ..)
        (fun _ hne => OrderedMap.get?_insert_of_ne hne ..) (OrderedMap.get?_insert_self ..)
        fun _ hne => OrderedMap.get?_insert_of_ne hne ..

/-- What polling a statement comes to, by what its waiter settles. -/
theorem poll_of_suspended {waiter : Waiter} (hs : e.suspended.get? name = some s)
    (hw : e.locks.waiters.get? name = some waiter) :
    e.poll name = match e.locks.settle name waiter with
      | (.ready (.ok ()), locks) => some (attempt name s { e with locks })
      | (.ready (.error error), locks) => some (.ready (.error error), forget name { e with locks })
      | (.pending, locks) => some (.pending, { e with locks }) := by
  unfold Engine.poll Locks.poll
  rw [hs, hw]
  dsimp only [Option.map_some]
  rcases e.locks.settle name waiter with ⟨_ | ⟨_ | _⟩, _⟩ <;> rfl

/-- A statement that waits is tried when it is polled, and an onlooker learns what comes of it. -/
theorem Watched.poll (h : Watched timeout watch (fun _ => True) e)
    (hw : watch.waiting.get? name = some w) :
    ∃ s r, Statement.ofText w.sql = .ok s ∧ e.poll name = some r ∧ Tried timeout e w s.table r ∧
      Watched timeout (watch.observe (.poll name) (.polled (some r.1))) (fun _ => True) r.2 := by
  have hkept := h.kept name trivial
  rw [hw] at hkept
  obtain ⟨s, hs, hsuspended, hwaits⟩ := hkept
  obtain ⟨waiter, hwaiter, heq⟩ := Option.map_eq_some_iff.1 hwaits
  obtain ⟨htable, hdeadline⟩ := Prod.mk.inj heq
  have halert := fun lock => h.alert name waiter lock hwaiter
  have hoff : Watched timeout watch (· ≠ name) e := h.mono fun _ _ => trivial
  rw [poll_of_suspended hsuspended hwaiter]
  cases hl : e.locks.isLocked s.table with
  | false =>
    obtain ⟨answer, e', ha, htried, hwatched⟩ := hoff.gone.attempt hs hl
    rw [Locks.settle_of_free name halert (htable ▸ hl)]
    exact ⟨s, _, hs, congrArg some ha, htried.congr rfl, hwatched⟩
  | true =>
    obtain ⟨lock, hlock⟩ := Locks.isLocked_iff.1 hl
    rw [Locks.settle_of_locked name halert (htable ▸ hlock), htable, hdeadline]
    split_ifs with ht
    · exact ⟨s, _, hs, rfl, .timedOut hl (any_deadline_iff.1 ht) rfl, hoff.gone.forget⟩
    · rw [any_deadline_iff] at ht
      push Not at ht
      refine ⟨s, _, hs, rfl, .pending hl ht rfl, ?_⟩
      exact hoff.pend hs hlock hsuspended (fun _ _ => rfl) hw fun _ _ => rfl

/-! ## Any call -/

/-- An onlooker goes on knowing what an engine keeps. -/
theorem Watched.react (h : Watched timeout watch (fun _ => True) e) (call : Call) :
    Watched timeout (watch.observe call (e.react call).1) (fun _ => True) (e.react call).2 := by
  have hoff (name : String) : Watched timeout watch (· ≠ name) e := h.mono fun _ _ => trivial
  cases call with
  | start name sql =>
    cases hs : Statement.ofText sql with
    | ok s => exact (h.start hs name).2
    | error error =>
      have hstart : e.start name sql = (.ready (.error error), e.forget name) := by
        unfold Engine.start
        rw [hs]
      unfold Engine.react
      dsimp only
      rw [hstart]
      exact (hoff name).forget
  | poll name =>
    unfold Engine.react
    dsimp only
    cases hw : watch.waiting.get? name with
    | some w =>
      obtain ⟨s, r, -, hr, -, hwatched⟩ := h.poll hw
      rw [hr]
      exact hwatched
    | none =>
      rw [h.poll_of_none hw]
      refine (hoff name).learn (fun _ hne => OrderedMap.get?_erase_of_ne hne _) ?_
      rw [OrderedMap.get?_erase_self]
      exact h.suspended_of_none hw
  | cancel name => exact (hoff name).forget
  | advance ms =>
    exact ⟨h.lockWait, congrArg (· + ms) h.now, h.alert, h.kept⟩
  | execute sql => exact h.answer sql
  | lock table => exact h.setLocks fun _ => Locks.rouses_of_lock
  | release table => exact h.rouses (e.locks.rouses_release table)
  | guard name table => exact h.setLocks fun _ => Locks.rouses_of_takeGuard
  | dropGuard name => exact h.rouses (e.locks.rouses_dropGuard name)

theorem setLocks_cancelAll (e : Engine) (answer : Except Error Locks) :
    e.cancelAll.setLocks (answer.map Locks.clear) =
      ((e.setLocks answer).1, (e.setLocks answer).2.cancelAll) := by
  cases answer <;> rfl

/-- A call that has nothing to do with waiting is answered as if nothing waited. -/
theorem react_cancelAll (e : Engine) {call : Call} (h : call.Immediate) :
    e.cancelAll.react call = ((e.react call).1, (e.react call).2.cancelAll) := by
  cases call with
  | start | poll | cancel => exact h.elim
  | advance ms => rfl
  | execute sql =>
    unfold react
    dsimp only
    rw [answer_cancelAll]
  | lock table =>
    have hclear : e.cancelAll.locks.lock table = _ := e.locks.clear_lock table
    unfold react
    dsimp only
    rw [hclear, setLocks_cancelAll]
  | release table =>
    have hclear : e.cancelAll.locks.release table = _ := e.locks.clear_release table
    unfold react
    dsimp only
    rw [hclear]
    rfl
  | guard name table =>
    have hclear : e.cancelAll.locks.takeGuard name table = _ := e.locks.clear_takeGuard name table
    unfold react
    dsimp only
    rw [hclear, setLocks_cancelAll]
  | dropGuard name =>
    have hclear : e.cancelAll.locks.dropGuard name = _ := e.locks.clear_dropGuard name
    unfold react
    dsimp only
    rw [hclear]
    rfl

/-- A statement that is tried does what is left of it without waiting. -/
theorem Tried.run_settled {table : String} {r : Poll QueryResult × Engine}
    (h : Tried timeout e w table r) :
    run react e.cancelAll ((Watch.settled w.sql r.1).map Prod.fst) =
      ((Watch.settled w.sql r.1).map Prod.snd, r.2.cancelAll) := by
  cases h with
  | pending _ _ hc => rw [hc]; rfl
  | timedOut _ _ hc => rw [hc]; rfl
  | executed _ _ hlocks hc =>
    have hsettled : Watch.settled w.sql (.ready (e.answer w.sql).1) =
        [(.execute w.sql, .executed (e.answer w.sql).1)] := by
      cases ha : (e.answer w.sql).1 with
      | ok answer => rfl
      | error error =>
        cases error with
        | lockTimeout table => exact absurd trivial (hlocks _ ha)
        | _ => rfl
    have hreact : e.cancelAll.react (.execute w.sql) =
        (.executed (e.answer w.sql).1, (e.answer w.sql).2.cancelAll) := by
      unfold react
      dsimp only
      rw [answer_cancelAll]
    rw [hsettled, hc, List.map_singleton, run_cons, hreact]
    rfl

/-- A call does what is left of it without waiting. -/
theorem Watched.run_serialStep (h : Watched timeout watch (fun _ => True) e) {call : Call}
    (hparses : call.Parses) :
    run Engine.react e.cancelAll ((watch.serialStep call (e.react call).1).map Prod.fst) =
      ((watch.serialStep call (e.react call).1).map Prod.snd, (e.react call).2.cancelAll) := by
  have hstays (himmediate : call.Immediate) :
      run Engine.react e.cancelAll [call] = ([(e.react call).1], (e.react call).2.cancelAll) := by
    rw [run_cons, react_cancelAll e himmediate]
    rfl
  cases call with
  | start name sql =>
    obtain ⟨s, hs⟩ := hparses
    exact (h.start hs name).1.run_settled
  | poll name =>
    unfold Engine.react
    dsimp only
    cases hw : watch.waiting.get? name with
    | none => rw [h.poll_of_none hw]; rfl
    | some w =>
      obtain ⟨s, r, -, hr, htried, -⟩ := h.poll hw
      have hstep :
          watch.serialStep (.poll name) (.polled (some r.1)) = Watch.settled w.sql r.1 := by
        unfold Watch.serialStep
        dsimp only
        rw [hw]
      rw [hr]
      dsimp only
      rw [hstep]
      exact htried.run_settled
  | cancel name => rfl
  | advance | execute | lock | release | guard | dropGuard => exact hstays trivial

/-! ## Any calls -/

/-- An onlooker knows what an engine keeps behind any calls. -/
theorem Watched.observeAll (h : Watched timeout watch (fun _ => True) e) (calls : List Call) :
    Watched timeout (watch.observeAll (calls.zip (run Engine.react e calls).1)) (fun _ => True)
      (run Engine.react e calls).2 := by
  induction calls generalizing watch e with
  | nil => exact h
  | cons call rest ih => exact ih (h.react call)

/-- Any calls do what is left of them without waiting. -/
theorem Watched.run_serial (h : Watched timeout watch (fun _ => True) e) {calls : List Call}
    (hparses : ∀ call ∈ calls, call.Parses) :
    run Engine.react e.cancelAll
        ((watch.serial (calls.zip (run Engine.react e calls).1)).map Prod.fst) =
      ((watch.serial (calls.zip (run Engine.react e calls).1)).map Prod.snd,
        (run Engine.react e calls).2.cancelAll) := by
  induction calls generalizing watch e with
  | nil => rfl
  | cons call rest ih =>
    rw [List.forall_mem_cons] at hparses
    rw [run_cons, List.zip_cons_cons]
    dsimp only [Watch.serial]
    rw [List.map_append, List.map_append, run_append, h.run_serialStep hparses.1]
    dsimp only
    rw [ih (h.react call) hparses.2]

/-- On a new engine nothing waits. -/
theorem watched_of_openOn {config : Config} {sink : Sink} (hopen : openOn config sink = .ok e) :
    Watched (config.lockWait.map (·.toNat)) {} (fun _ => True) e ∧ e.cancelAll = e := by
  obtain ⟨-, order, catalog, -, -, rfl⟩ := openOn_eq_ok.1 hopen
  exact ⟨⟨rfl, rfl, nofun, fun _ _ => rfl⟩, rfl⟩

/-- Statements that wait take effect once, and as if they had not waited but were executed where
they were completed. -/
theorem waits_once {config : Config} {sink : Sink} (hopen : openOn config sink = .ok e)
    (calls : List Call) (hparses : ∀ call ∈ calls, call.Parses) :
    WaitsOnce (config.lockWait.map (·.toNat)) e calls := by
  obtain ⟨hnew, hclear⟩ := watched_of_openOn hopen
  have h := hnew.observeAll calls
  refine ⟨h.now.symm, fun name sql s hs => (h.start hs name).1, fun name w hw => ?_,
    fun name hw => h.poll_of_none hw, fun name => rfl, ?_⟩
  · obtain ⟨s, r, hs, hr, htried, -⟩ := h.poll hw
    exact ⟨s, r, hs, hr, htried⟩
  · have hserial := hnew.run_serial hparses
    rw [hclear] at hserial
    exact hserial

/-- A table is created while its name is locked, on the empty root: the statement waits until one
millisecond before its time and is executed when the name was released. -/
theorem waits_once_for_release :
    let sink : Sink := { writer := { directory := .root } }
    let calls : List Call := [.lock "t", .start "w" "CREATE TABLE t (id INT)", .advance 4999,
      .poll "w", .release "t", .poll "w"]
    ∃ e, openOn {} sink = .ok e ∧ (∀ call ∈ calls, call.Parses) ∧
      WaitsOnce (some 5000) e calls := by
  intro sink calls
  have hconfig : ({} : Config).validate = .ok () := by decide
  have hfits : sink.directory.Fits Catalog.reserved := by decide
  have hfresh : sink.directory.Fresh := Directory.fresh_root
  obtain ⟨e, hopen⟩ := exists_openOn hconfig hfresh hfits
  have hread : (Statement.ofText "CREATE TABLE t (id INT)").toOption.isSome = true := by
    decide +kernel
  have hparses : ∀ call ∈ calls, call.Parses := by
    have hs : ∃ s, Statement.ofText "CREATE TABLE t (id INT)" = .ok s := by
      cases h : Statement.ofText "CREATE TABLE t (id INT)" with
      | ok s => exact ⟨s, rfl⟩
      | error error => rw [h] at hread; cases hread
    simp only [calls, List.forall_mem_cons]
    exact ⟨trivial, hs, trivial, trivial, trivial, trivial, nofun⟩
  exact ⟨e, hopen, hparses, waits_once hopen calls hparses⟩

end RelStore.Engine
