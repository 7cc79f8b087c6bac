import RelStore.Console.Session

/-!
# The console as a program

The outer layer: it reads files and lines, hands them to `RelStore.Console`, and writes what
comes back. An engine works on the files it was given in memory, so before a query what stands
on the way to its files is read, and behind it what it changed is written.
-/

namespace RelStore.Main

open Console

/-- What stands at a path, if anything does. What cannot be read counts as a directory. -/
def readEntry (path : String) : IO (Option Entry) := do
  match ← (IO.FS.readBinFile path).toBaseIO with
  | .ok contents => return some (.file contents.toList)
  | .error (.noFileOrDirectory ..) => return none
  | .error _ => return some .directory

/-- Writes output on its two streams. -/
def emit (output : Output) : IO Unit := do
  let stdout ← IO.getStdout
  stdout.putStr (String.ofList output.out)
  stdout.flush
  IO.eprint (String.ofList output.err)

/-! ## Files in memory and outside -/

/-- The path of names. -/
def pathOf (absolute : Bool) (names : List String) : String :=
  (if absolute then "/" else "") ++ "/".intercalate names

/-- The directory with what is known to stand where a path leads. -/
def learn (d : Directory) (path : String) (found : Option Entry) : Directory :=
  match d.place path, found with
  | .directory location, some entry | .file location _, some entry | .free location, some entry =>
    if d.get? location = some entry then d else d.put location entry
  | .file location _, none => { d with entries := d.entries.erase location }
  | _, _ => d

/-- Reads what stands at a path and on the way there. -/
def observe (d : Directory) (path : String) : IO Directory :=
  let names := Path.names path
  (List.range names.length).foldlM (fun d i => do
    let part := pathOf (Path.isAbsolute path) (names.take (i + 1))
    return learn d part (← readEntry part)) d

/-- Makes the directories and writes the files that are different now. -/
def commit (before after : Directory) : IO Unit :=
  after.entries.entries.forM fun (location, entry) => do
    if before.get? location ≠ some entry then
      match entry with
      | .directory => IO.FS.createDir (pathOf true location)
      | .file contents => IO.FS.writeBinFile (pathOf true location) contents.toByteArray

/-- The directory that the program runs in. -/
def workingDirectory : IO Directory := do
  let path := (← IO.currentDir).toString
  let (_, made) := Directory.root.make path
  return { (made.enter? path).getD made with lead := 0 }

/-! ## The session -/

/-- The files that a query can reach. -/
def reach (sql : String) : List String :=
  match Sql.Statement.ofText sql with
  | .ok statement => [Catalog.reserved, statement.table]
  | .error _ => []

/-- Answers the lines of the input until one of them ends the session. -/
partial def answerLines (dataDir : String) (around : Directory) (e : Engine) : IO Ending := do
  let stdin ← IO.getStdin
  if ← stdin.isTty then emit { out := prompt.toList }
  let line ← stdin.getLine
  if line.isEmpty then return .finished
  match Request.ofLine line.toList with
  | .nothing => answerLines dataDir around e
  | .exit => return .finished
  | .broken => return .broken
  | .query sql =>
    let before ← (reach sql).foldlM (fun d name => observe d (Path.join dataDir name)) around
    let here := before.seenFrom e.directory
    let (output, ended, e) := runStatement sql { e with sink := e.sink.withDirectory here }
    commit before e.directory
    emit output
    match ended with
    | some ending => return ending
    | none => answerLines dataDir (e.directory.seenFrom before) e

/-- The working directory with what the arguments name: the configuration file, and the
catalog in the data directory. -/
def readAround (args : List String) : IO Directory := do
  let mut around ← workingDirectory
  if let .ok { config := some file, .. } := Options.ofArgs {} args then
    around ← observe around file
  if let .ok config := configOfArgs args around then
    around ← observe around (Path.join config.dataDir Catalog.reserved)
  return around

/-- Runs the console and returns its status. -/
def run (args : List String) : IO UInt32 := do
  let before ← readAround args
  let (opened, around) := openEngine args before
  commit before around
  match configOfArgs args before, opened with
  | .ok config, .ok e =>
    emit (.line greeting)
    let ending ← answerLines config.dataDir around e
    emit ending.output
    return .ofNat ending.status
  | .error refusal, _ | _, .error refusal =>
    emit refusal.output
    return 1

end RelStore.Main

/-- Runs the console with the arguments of the command line. -/
def main (args : List String) : IO UInt32 := RelStore.Main.run args
