import RelStore.Console.Line
import RelStore.Console.Options
import RelStore.Console.ResultTable
import RelStore.Engine.Session

/-!
# The console

One line is one statement. The console echoes what kind of statement it is, executes it and
shows the answer; errors go to the error stream. `EXIT` or the end of the input ends it, and so
do a line that nothing can be made of and an answer that has no table.
-/

namespace RelStore.Console

/-- What is written to the two output streams. -/
structure Output where
  out : List Char := []
  err : List Char := []

namespace Output

/-- One output after the other. -/
def append (a b : Output) : Output := ⟨a.out ++ b.out, a.err ++ b.err⟩

/-- A line of ordinary output. -/
def line (text : String) : Output := { out := text.toList ++ ['\n'] }

/-- A line of errors. -/
def errorLine (text : String) : Output := { err := text.toList ++ ['\n'] }

end Output

/-- What a person at a terminal is asked for input with. -/
def prompt : String := "clutchdb> "

/-- The first line of a session. -/
def greeting : String := "ClutchDB console. Type EXIT to quit."

/-- The last line of a session. -/
def farewell : String := "Bye"

/-- How the lines of the input end. -/
inductive Ending where
  | finished
  /-- Nothing could be made of a line. -/
  | broken
  /-- The answer to a statement had no table. -/
  | tooWide
deriving DecidableEq

/-- The status that the console ends with. -/
def Ending.status : Ending → Nat
  | finished => 0
  | broken | tooWide => 101

/-- What is written last. -/
def Ending.output : Ending → Output
  | finished => .line farewell
  | broken => .errorLine "Error: a backspace takes back a part of a character"
  | tooWide => .errorLine "Formatting argument out of range"

/-- The answer to a statement as output: a table if it has columns, else its message. -/
def Output.ofResult (result : QueryResult) : Option Output :=
  if !result.columns.isEmpty then (resultTable result).map fun table => { out := table }
  else match result.message with
    | some message => some (.line message)
    | none => some {}

/-- Executes one statement, which may end the session. No one else has a lock, so nothing
waits. -/
def runStatement (sql : String) (e : Engine) : Output × Option Ending × Engine :=
  match Sql.Statement.ofText sql with
  | .error error => (.errorLine error.message, none, e)
  | .ok statement =>
    let echo := Output.line
      ("This is a(n) " ++ statement.action.name ++ " query: " ++ statement.source)
    match e.attempt "" statement with
    | (.ready (.ok result), e) =>
      match Output.ofResult result with
      | some output => (echo.append output, none, e)
      | none => (echo, some .tooWide, e)
    | (.ready (.error error), e) => (echo.append (.errorLine error.message), none, e)
    | (.pending, e) => (echo, none, e)

/-- What a line asks of the console. -/
inductive Request where
  | nothing
  | exit
  | query (sql : String)
  /-- Nothing can be made of the line. -/
  | broken

/-- The request of a line as it was typed; blanks around it do not count, nor does the letter
case of EXIT. -/
def Request.ofLine (line : List Char) : Request :=
  match (Typed.line? line).map Text.trim with
  | none => broken
  | some [] => nothing
  | some text => if text.map Char.toUpper = "EXIT".toList then exit else query (String.ofList text)

/-- Runs the lines of the input until one of them ends the session. -/
def runLines (e : Engine) : List (List Char) → Output × Ending × Engine
  | [] => ({}, .finished, e)
  | line :: rest =>
    match Request.ofLine line with
    | .nothing => runLines e rest
    | .exit => ({}, .finished, e)
    | .broken => ({}, .broken, e)
    | .query sql =>
      match runStatement sql e with
      | (output, some ending, e) => (output, ending, e)
      | (output, none, e) =>
        let (more, ending, e) := runLines e rest
        (output.append more, ending, e)

/-- Why the console does not start. -/
structure Refusal where
  message : String
  cause : Option Error := none

/-- What is written about a refusal. -/
def Refusal.output (refusal : Refusal) : Output :=
  let cause := match refusal.cause with
    | some error => "\n\nCaused by:\n    " ++ error.message
    | none => ""
  .errorLine ("Error: " ++ refusal.message ++ cause)

/-- The configuration that the options ask for. -/
def configOf (options : Options) (around : Directory) : Except Refusal Config := do
  let config ← match options.config with
    | none => pure {}
    | some file =>
      match Config.ofFile (around.lookup file) with
      | .ok config => pure config
      | .error error => throw ⟨"failed to load config " ++ file, some error⟩
  match options.dataDir with
  | some dataDir => return { config with dataDir }
  | none => return config

/-- The configuration that the arguments ask for. -/
def configOfArgs (args : List String) (around : Directory) : Except Refusal Config :=
  match Options.ofArgs {} args with
  | .ok options => configOf options around
  | .error message => .error ⟨message, none⟩

/-- Opens the engine that the arguments ask for. -/
def openEngine (args : List String) (around : Directory) : Except Refusal Engine × Directory :=
  match configOfArgs args around with
  | .error refusal => (.error refusal, around)
  | .ok config =>
    match Engine.openIn config around {} with
    | (.ok e, around) => (.ok e, around)
    | (.error error, around) =>
      (.error ⟨"failed to open " ++ config.dataDir, some error⟩, around)

/-- How a run of the console ends. -/
structure Outcome where
  status : Nat
  output : Output
  /-- The directory that the console was run in. -/
  around : Directory

/-- Runs the console with its arguments and its input in a directory. -/
def run (args : List String) (input : String) (around : Directory) : Outcome :=
  match openEngine args around with
  | (.error refusal, around) => { status := 1, output := refusal.output, around }
  | (.ok e, around) =>
    let (output, ending, e) := runLines e (input.toList.splitOn '\n')
    { status := ending.status
      output := (Output.line greeting).append (output.append ending.output)
      around := e.directory.seenFrom around }

end RelStore.Console
