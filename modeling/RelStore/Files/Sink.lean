import RelStore.Files.Writer

/-!
# A writer that can fail

The engine reaches its files through a sink. A sink counts its calls from zero, fails those
that its faults name before they reach the files, and keeps a record of all of them.
-/

namespace RelStore

open Text.Utf8 (Bytes)

/-- The calls that fail, by their number. -/
structure Faults where
  /-- The choices of a target that fail. -/
  target : Nat → Bool := fun _ => false
  /-- The writes that fail. -/
  write : Nat → Bool := fun _ => false

/-- A call of a sink. -/
inductive SinkCall where
  | setTarget (name : String)
  | write (bytes : Bytes)
  | dispose
deriving DecidableEq

/-- A writer with its faults and the calls made so far, the last first. -/
structure Sink where
  writer : Writer
  faults : Faults := {}
  targetCalls : Nat := 0
  writeCalls : Nat := 0
  calls : List SinkCall := []

namespace Sink

/-- The files behind the sink. -/
def directory (s : Sink) : Directory := s.writer.directory

/-- The sink with other files behind it. -/
def withDirectory (s : Sink) (directory : Directory) : Sink :=
  { s with writer := { s.writer with directory } }

/-- Chooses a target. -/
def setTarget (s : Sink) (name : String) : Except Error Unit × Sink :=
  let counted := { s with targetCalls := s.targetCalls + 1, calls := .setTarget name :: s.calls }
  if s.faults.target s.targetCalls then (.error .io, counted)
  else
    let (answer, writer) := s.writer.setTarget name
    (answer, { counted with writer })

/-- Appends to the target and tells whether the bytes were taken. -/
def write (s : Sink) (bytes : Bytes) : Bool × Sink :=
  let counted := { s with writeCalls := s.writeCalls + 1, calls := .write bytes :: s.calls }
  if s.faults.write s.writeCalls then (false, counted)
  else
    let (taken, writer) := s.writer.write bytes
    (taken, { counted with writer })

/-- Gives up the target for good. -/
def dispose (s : Sink) : Sink :=
  { s with writer := s.writer.dispose, calls := .dispose :: s.calls }

end Sink

end RelStore
