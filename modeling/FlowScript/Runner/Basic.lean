/-
# The script runner

The runner loads a document, starts it, and updates it a fixed number of times, raising events
before the ticks they are scheduled for.  Or it writes a sample document.

What it does with files is left to the caller: `plan` says what to read or write and how to go on
with the result, and `Outcome` holds the lines of the log and whether the run failed.
-/
import FlowScript.Document.Basic
import FlowScript.Runner.Options
import FlowScript.Runner.Sample

namespace FlowScript.Runner

/-! ## 1. The log -/

/-- Something the runner tells besides the events of the script. -/
inductive Remark
  | banner
  /-- The path does not end as script files do. -/
  | oddExtension (path : String)
  | raising (event : String) (tick : Nat)
  | finished (ticks : Nat) (elapsed : Single) (paused : Nat)
  | failed (reason : String)

namespace Remark

/-- The version of the runner. -/
def version : String := "0.1.0"

def level : Remark → Level
  | banner | finished .. => .info
  | oddExtension _ => .warn
  | raising .. => .debug
  | failed _ => .error

def message : Remark → String
  | banner => "OrdoPlay script runner v" ++ version
  | oddExtension path => "'" ++ path ++ "' does not end in ." ++ fileExtension
  | raising event tick => "Raising '" ++ event ++ "' before tick " ++ Notice.count tick
  | finished ticks elapsed paused =>
    "Ran " ++ Notice.count ticks ++ " ticks (" ++ String.ofList (elapsed.fixedText 2) ++
      "s simulated), " ++ Notice.count paused ++ " walks still paused"
  | failed reason => "Script run failed: " ++ reason

def line (r : Remark) : LogLine := ⟨r.level, "ordoplay_run", r.message⟩

end Remark

/-- A line of the log as it is printed. -/
def printed (l : LogLine) : String :=
  l.level.name ++ " " ++ l.source ++ ": " ++ Text.showControls l.message

/-- The lines of a list of events. -/
def logLines (events : List Event) : List LogLine := events.filterMap Event.logLine?

/-! ## 2. Files -/

/-- The last part of a path, unless the path ends in a step upwards. -/
def fileName? (path : String) : Option String :=
  let parts := ((path.splitOn "/").filter fun p => p ≠ "" ∧ p ≠ ".")
  match parts.getLast? with
  | some name => if name = ".." then none else some name
  | none => none

/-- Whether a path ends as script files do. -/
def hasExtension (path : String) : Bool :=
  (fileName? path).any fun name => ("." ++ fileExtension).toList.isSuffixOf name.toList

/-! ## 3. Runs -/

/-- Why a run failed. -/
inductive RunnerError
  | document (e : DocumentError)
  | bind (e : BindError)
  | run (e : RunError)
  | sample (e : SampleError)
deriving DecidableEq

def RunnerError.message : RunnerError → String
  | document e => e.message
  | bind e => e.message
  | run e => e.message
  | sample e => e.message

/-- What a run came to. -/
structure Outcome where
  lines : List LogLine
  succeeded : Bool

namespace Outcome

def success (lines : List LogLine) : Outcome := ⟨lines, true⟩

/-- A run that failed after some lines. -/
def failure (lines : List LogLine) (e : RunnerError) : Outcome :=
  ⟨lines ++ [(Remark.failed e.message).line], false⟩

end Outcome

/-- A script that is running, with the lines of its log, the newest block first. -/
structure Run where
  script : Instance Library.Behavior
  blocks : List (List LogLine)

namespace Run

def lines (r : Run) : List LogLine := r.blocks.reverse.flatten

/-- Adds lines to the log. -/
def tell (r : Run) (ls : List LogLine) : Run := { r with blocks := ls :: r.blocks }

/-- The run after an operation of its script. -/
def after {α : Type} (r : Run) (reply : Reply (Instance Library.Behavior) RunError α) :
    Except Outcome Run :=
  let r := { r.tell (logLines reply.events) with script := reply.state }
  match reply.result with
  | .ok _ => .ok r
  | .error e => .error (.failure r.lines (.run e))

/-- Raises an event before a tick. -/
def raise (tick : Nat) (r : Run) (e : ScheduledEvent) : Except Outcome Run :=
  (r.tell [(Remark.raising e.name tick).line]).after (r.script.deliver (.event e.name e.payload))

/-- Raises the events of a tick, then updates the script. -/
def tick (o : Options) (n : Nat) (r : Run) : Except Outcome Run := do
  let r ← (o.events.filter (·.tick.toNat = n)).foldlM (raise n) r
  r.after (r.script.runUpdate o.delta)

/-- Runs a number of ticks, the first of which has a given number. -/
def ticks (o : Options) : (count first : Nat) → Run → Except Outcome Run
  | 0, _, r => .ok r
  | count + 1, first, r =>
    match r.tick o first with
    | .error e => .error e
    | .ok r => ticks o count (first + 1) r

/-- Starts the script and runs all its ticks. -/
def all (o : Options) (r : Run) : Except Outcome Run := do
  let r ← r.after r.script.init
  let r ← r.after r.script.runStart
  ticks o o.ticks.toNat 0 r

end Run

/-- Runs the document that a file holds, given what reading the file came to. -/
def runDocument (o : Options) (content : Except String String) : Outcome :=
  match Document.load o.document content with
  | (events, .error e) => .failure (logLines events) (.document e)
  | (events, .ok d) =>
    match d.instantiate Library.registry with
    | (bound, .error e) => .failure (logLines (events ++ bound)) (.bind e)
    | (bound, .ok script) =>
      match Run.all o ⟨script, [logLines (events ++ bound)]⟩ with
      | .error outcome => outcome
      | .ok r =>
        let p := r.script.processor
        .success (r.lines ++
          [(Remark.finished o.ticks.toNat p.time.elapsed p.paused.length).line])

/-- What saving the sample came to. -/
def savedSample (o : Options) (d : Document) (written : Except String Unit) : Outcome :=
  match d.save o.document written with
  | (events, .ok ()) => .success (logLines events)
  | (events, .error e) => .failure (logLines events) (.document e)

/-- What to do with a file, and how to go on. -/
inductive Plan
  | read (path : String) (next : Except String String → Outcome)
  | write (path text : String) (next : Except String Unit → Outcome)
  | stop (outcome : Outcome)

/-- What the runner answers when it is asked for its version. -/
def versionText : String := "ordoplay_script_runner " ++ Remark.version

/-- The lines that come first. -/
def opening (o : Options) : List LogLine :=
  Remark.banner.line ::
    if hasExtension o.document then [] else [(Remark.oddExtension o.document).line]

/-- What the options ask for. -/
def plan (s : Supply) (o : Options) : Plan :=
  if o.writeSample then
    match Sample.graph s with
    | .error e => .stop (.failure [] (.sample e))
    | .ok g =>
      let d := Document.ofGraph g
      .write o.document d.toText (savedSample o d)
  else .read o.document (runDocument o)

end FlowScript.Runner
