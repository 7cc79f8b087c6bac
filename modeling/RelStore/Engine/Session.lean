import RelStore.Config
import RelStore.Engine.Waiting

/-!
# Opening and reopening

An engine is opened on the directory that its configuration names, which is created where it
is missing. A session is an engine together with the configuration for its next opening;
reopening gives a new engine on the same files, with nothing in memory and no locks.
-/

namespace RelStore

namespace Engine

/-- An engine on the files of a sink, for a configuration that is valid. -/
def ofSink (config : Config) (order : Index.Order) (sink : Sink) : Except Error Engine := do
  let catalog ← Catalog.load sink.directory
  return { order, lockWait := config.lockWait.map (·.toNat), sink, catalog }

/-- Opens an engine on a sink. -/
def openOn (config : Config) (sink : Sink) : Except Error Engine := do
  config.validate
  ofSink config (← Index.Order.ofNat config.order.toNat) sink

/-- Opens an engine on the directory of its configuration, which is made where it is missing.
What was made stays where the engine cannot be opened. -/
def openIn (config : Config) (around : Directory) (faults : Faults) :
    Except Error Engine × Directory :=
  match config.validate with
  | .error error => (.error error, around)
  | .ok () =>
    match around.make config.dataDir with
    | (.error error, around) => (.error error, around)
    | (.ok (), around) =>
      match around.enter? config.dataDir with
      | some directory => (openOn config { writer := { directory }, faults }, around)
      | none => (.error .io, around)

/-- The engine without anything that waits. -/
def cancelAll (e : Engine) : Engine :=
  { e with suspended := ∅, locks := { e.locks with waiters := ∅ } }

/-- The engine when it is given up. -/
def close (e : Engine) : Engine := { e with sink := e.sink.dispose }

end Engine

/-- An engine and the configuration for its next opening. -/
structure Session where
  config : Config
  engine : Engine

namespace Session

/-- Opens a second engine on the same files and gives up the first; a new order stays
configured in any case. Where the second one cannot be opened the first stays, without anything
that waits. The clock goes on. -/
def reopen (s : Session) (order : Option UInt64) : Except Error Unit × Session :=
  let config := match order with
    | some order => { s.config with order }
    | none => s.config
  let old := s.engine.cancelAll
  match Engine.openOn config old.sink.dispose with
  | .ok engine =>
    (.ok (), { config, engine := { engine with locks := { now := old.locks.now } } })
  | .error error => (.error error, { config, engine := old })

end Session

end RelStore
