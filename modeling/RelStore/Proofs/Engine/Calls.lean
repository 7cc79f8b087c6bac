import RelStore.Engine.Waiting
import RelStore.Proofs.Engine.Locked

/-!
# Callers and onlookers

Callers start, poll and cancel statements that wait, let time pass, execute statements and lock
tables, in any order (`Engine.react`). An onlooker who sees only calls and replies knows what
waits and since when (`Watch.observe`), and which statements were executed in the end
(`Watch.serial`). What callers are promised is said in these terms (`Engine.WaitsOnce`).
-/

namespace RelStore

open Sql (Statement)

/-! ## Calls -/

/-- A call of an engine. -/
inductive Call where
  | start (name sql : String)
  | poll (name : String)
  | cancel (name : String)
  | advance (ms : Nat)
  | execute (sql : String)
  | lock (table : String)
  | release (table : String)
  /-- Locks a table by a guard of this name. -/
  | guard (name table : String)
  | dropGuard (name : String)

/-- The reply to a call. -/
inductive Reply where
  | polled (answer : Option (Poll QueryResult))
  | cancelled (waited : Bool)
  | executed (answer : Except Error QueryResult)
  | locked (answer : Except Error Unit)
  | done

/-- Whether the text of a statement that may wait can be read. -/
def Call.Parses : Call → Prop
  | .start _ sql => ∃ s, Statement.ofText sql = .ok s
  | _ => True

/-- A call that has nothing to do with waiting. -/
def Call.Immediate : Call → Prop
  | .start .. | .poll _ | .cancel _ => False
  | _ => True

namespace Engine

/-- The engine with these locks, if there are any. -/
def setLocks (e : Engine) : Except Error Locks → Reply × Engine
  | .ok locks => (.locked (.ok ()), { e with locks })
  | .error error => (.locked (.error error), e)

/-- The reply to a call. -/
def react (e : Engine) : Call → Reply × Engine
  | .start name sql => (.polled (some (e.start name sql).1), (e.start name sql).2)
  | .poll name =>
    match e.poll name with
    | some (answer, e) => (.polled (some answer), e)
    | none => (.polled none, e)
  | .cancel name => (.cancelled (e.cancel name).1, (e.cancel name).2)
  | .advance ms => (.done, e.advance ms)
  | .execute sql => (.executed (e.answer sql).1, (e.answer sql).2)
  | .lock table => e.setLocks (e.locks.lock table)
  | .release table => (.done, { e with locks := e.locks.release table })
  | .guard name table => e.setLocks (e.locks.takeGuard name table)
  | .dropGuard name => (.done, { e with locks := e.locks.dropGuard name })

end Engine

/-! ## What an onlooker knows -/

/-- A statement that waits: its text, and the time of its start. -/
structure Wait where
  sql : String
  since : Nat

/-- What an onlooker knows from the calls and the replies: the time, and what waits. -/
structure Watch where
  now : Nat := 0
  waiting : OrderedMap String Wait := ∅

namespace Watch

/-- A statement waits from a start on that was answered as pending, to the first other answer. -/
def observe (watch : Watch) : Call → Reply → Watch
  | .start name sql, .polled (some .pending) =>
    { watch with waiting := watch.waiting.insert name ⟨sql, watch.now⟩ }
  | .poll _, .polled (some .pending) => watch
  | .start name _, _ | .poll name, _ | .cancel name, _ =>
    { watch with waiting := watch.waiting.erase name }
  | .advance ms, _ => { watch with now := watch.now + ms }
  | _, _ => watch

/-- What an onlooker knows in the end. -/
def observeAll (watch : Watch) (trace : List (Call × Reply)) : Watch :=
  trace.foldl (fun watch step => watch.observe step.1 step.2) watch

/-- What a statement does that was tried with this answer: nothing unless it was executed. -/
def settled (sql : String) : Poll QueryResult → List (Call × Reply)
  | .pending | .ready (.error (.lockTimeout _)) => []
  | .ready answer => [(.execute sql, .executed answer)]

/-- A step without waiting: a statement is executed where it is completed, and what else has to do
with waiting is left out. -/
def serialStep (watch : Watch) : Call → Reply → List (Call × Reply)
  | .start _ sql, .polled (some answer) => settled sql answer
  | .poll name, .polled (some answer) =>
    match watch.waiting.get? name with
    | some w => settled w.sql answer
    | none => []
  | .start .., _ | .poll _, _ | .cancel _, _ => []
  | call, reply => [(call, reply)]

/-- The steps without waiting. -/
def serial (watch : Watch) : List (Call × Reply) → List (Call × Reply)
  | [] => []
  | (call, reply) :: rest =>
    watch.serialStep call reply ++ (watch.observe call reply).serial rest

end Watch

/-! ## What callers are promised -/

namespace Engine

/-- The engine behind these calls. -/
def after (e : Engine) (calls : List Call) : Engine := (run react e calls).2

/-- The calls with their replies. -/
def trace (e : Engine) (calls : List Call) : List (Call × Reply) :=
  calls.zip (run react e calls).1

/-- What an onlooker knows behind these calls of a new engine. -/
def seen (e : Engine) (calls : List Call) : Watch := ({} : Watch).observeAll (e.trace calls)

/-- The steps without waiting that these calls of a new engine come to. -/
def serial (e : Engine) (calls : List Call) : List (Call × Reply) :=
  ({} : Watch).serial (e.trace calls)

/-- What comes of a statement that is tried, with this longest wait: the answer, and the engine
up to what waits in it. -/
inductive Tried (timeout : Option Nat) (e : Engine) (w : Wait) (table : String) :
    Poll QueryResult × Engine → Prop
  /-- On a free table the statement takes a lock, is executed and does not fail for a lock. -/
  | executed {e' : Engine} : e.locks.isLocked table = false →
    (e.answer w.sql).2.locks.nextLock = e.locks.nextLock + 1 →
    (∀ error, (e.answer w.sql).1 = .error error → ¬ error.OfLocks) →
    e'.cancelAll = (e.answer w.sql).2.cancelAll →
    Tried timeout e w table (.ready (e.answer w.sql).1, e')
  /-- On a locked table it fails if it has waited for too long, and does nothing. -/
  | timedOut {e' : Engine} : e.locks.isLocked table = true →
    (∃ ms ∈ timeout, w.since + ms ≤ e.locks.now) → e'.cancelAll = e.cancelAll →
    Tried timeout e w table (.ready (.error (.lockTimeout table)), e')
  /-- On a locked table it goes on waiting up to that time, and does nothing. -/
  | pending {e' : Engine} : e.locks.isLocked table = true →
    (∀ ms ∈ timeout, e.locks.now < w.since + ms) → e'.cancelAll = e.cancelAll →
    Tried timeout e w table (.pending, e')

/-- What those who wait are promised, where a new engine with this longest wait got these calls: a
statement that waits is tried by its start and by every poll, which executes it or does nothing,
up to the first answer that is not pending. -/
structure WaitsOnce (timeout : Option Nat) (e : Engine) (calls : List Call) : Prop where
  now : (e.seen calls).now = (e.after calls).locks.now
  start (name sql : String) (s : Statement) : Statement.ofText sql = .ok s →
    Tried timeout (e.after calls) ⟨sql, (e.seen calls).now⟩ s.table ((e.after calls).start name sql)
  poll (name : String) (w : Wait) : (e.seen calls).waiting.get? name = some w →
    ∃ s r, Statement.ofText w.sql = .ok s ∧ (e.after calls).poll name = some r ∧
      Tried timeout (e.after calls) w s.table r
  silent (name : String) : (e.seen calls).waiting.get? name = none →
    (e.after calls).poll name = none
  cancel (name : String) : ((e.after calls).cancel name).2.cancelAll = (e.after calls).cancelAll
  /-- All answers, and the engine in the end, are those of the steps without waiting. -/
  serial : run react e ((e.serial calls).map Prod.fst) =
    ((e.serial calls).map Prod.snd, (e.after calls).cancelAll)

end Engine

end RelStore
