/-
# The command line

Reads arguments, files and random numbers, prints the log, and leaves everything else to the
runner.
-/
import FlowScript.Files
import FlowScript.Runner.Basic

open FlowScript FlowScript.Runner

/-- What the log keeps: everything down to notes on progress. -/
def logLevel : Level := .info

/-- Prints the lines of a log that are kept. -/
def printLines (lines : List LogLine) : IO Unit :=
  for l in lines do
    if l.keptAt logLevel then
      IO.println (printed l)

/-- How the log shows a failed access to a file. -/
def reasonOf : IO.Error → String
  | .noFileOrDirectory .. => FileError.notFound.message
  | .permissionDenied .. => FileError.permissionDenied.message
  | .inappropriateType .. => FileError.isDirectory.message
  | e => toString e

/-- Carries out a plan. -/
def perform : Plan → IO Outcome
  | .stop outcome => pure outcome
  | .read path next => do
    let content ← (IO.FS.readFile path).toBaseIO
    match content with
    | .ok text => pure (next (.ok text))
    | .error e => pure (next (.error (reasonOf e)))
  | .write path text next => do
    let written ← (IO.FS.writeFile path text).toBaseIO
    match written with
    | .ok () => pure (next (.ok ()))
    | .error e => pure (next (.error (reasonOf e)))

/-- Runs the script that the arguments name; a usage error ends with code 2, a failed run
with 1. -/
def main (arguments : List String) : IO UInt32 := do
  match parse arguments with
  | .error e =>
    IO.eprintln e.message
    pure 2
  | .ok .help =>
    IO.println "Usage: ordoplay_run [OPTIONS] <DOCUMENT>"
    pure 0
  | .ok .version =>
    IO.println versionText
    pure 0
  | .ok (.run o) => do
    printLines (opening o)
    let base ← IO.rand 0 0x3fffffffffffffff
    let outcome ← perform (plan (.counting (base * UInt64.size)) o)
    printLines outcome.lines
    pure (if outcome.succeeded then 0 else 1)
