import RelStore.Engine.Execute

/-!
# Statements that wait

Where `execute` fails on a locked table, a statement begun by `start` waits for the table and
is tried again when it finds the table free. Its waiter and the statement are kept under a name
of the caller's choice.
-/

namespace RelStore.Engine

open Sql (Statement)

/-- Forgets the statement that waits under a name. -/
def forget (name : String) (e : Engine) : Engine :=
  { e with suspended := e.suspended.erase name, locks := (e.locks.cancel name).2 }

/-- Tries a statement. On a locked table it begins to wait, with a deadline of its own. -/
def attempt (name : String) (statement : Statement) (e : Engine) : Poll QueryResult × Engine :=
  match executeStatement statement e with
  | .ok result e => (.ready (.ok result), e.forget name)
  | .error (.tableAlreadyLocked table) e =>
    match e.locks.wait name table e.lockWait with
    | (.ready (.error error), locks) => (.ready (.error error), { e with locks }.forget name)
    | (_, locks) => (.pending, { e with locks, suspended := e.suspended.insert name statement })
  | .error error e => (.ready (.error error), e.forget name)

/-- Begins a query under a name, in place of what waits under it. -/
def start (name sql : String) (e : Engine) : Poll QueryResult × Engine :=
  match Statement.ofText sql with
  | .error error => (.ready (.error error), e.forget name)
  | .ok statement => (e.forget name).attempt name statement

/-- Polls the statement that waits under a name, if there is one. -/
def poll (name : String) (e : Engine) : Option (Poll QueryResult × Engine) :=
  match e.suspended.get? name, e.locks.poll name with
  | some statement, some (.ready (.ok ()), locks) =>
    some ({ e with locks }.attempt name statement)
  | some _, some (.ready (.error error), locks) =>
    some (.ready (.error error), { e with locks }.forget name)
  | some _, some (.pending, locks) => some (.pending, { e with locks })
  | _, _ => none

/-- Ends the wait under a name and tells whether there was one. -/
def cancel (name : String) (e : Engine) : Bool × Engine :=
  (e.suspended.contains name, e.forget name)

/-- Lets time pass. -/
def advance (ms : Nat) (e : Engine) : Engine := { e with locks := e.locks.advance ms }

end RelStore.Engine
