/-
# The journal

Nothing in this library prints.  Every operation returns the events it caused, in order: notices
for a log, reports of probe nodes, and a record of each evaluation.  A notice is a cause; its
level, its source and its wording are functions of it.
-/
import FlowScript.Evaluation
import FlowScript.Schedule.Basic

namespace FlowScript

/-! ## 1. Notices -/

/-- How urgent a notice is. -/
inductive Level
  | error
  | warn
  | info
  | debug
  | trace
deriving DecidableEq, Inhabited

namespace Level

def name : Level → String
  | error => "ERROR"
  | warn => "WARN"
  | info => "INFO"
  | debug => "DEBUG"
  | trace => "TRACE"

/-- How detailed a level is. -/
def detail : Level → Nat
  | error => 0
  | warn => 1
  | info => 2
  | debug => 3
  | trace => 4

end Level

/-- One line of a log. -/
structure LogLine where
  level : Level
  source : String
  message : String
deriving DecidableEq

/-- Whether a log that goes down to a level keeps a line. -/
def LogLine.keptAt (l : LogLine) (level : Level) : Bool := l.level.detail ≤ level.detail

/-- Something a log tells. -/
inductive Notice
  /-- A log node prints. -/
  | printed (name text : String)
  | diagnosed (d : Diagnostic)
  | scheduled (count : Nat) (graph : String) (entries : Nat)
  | bound (type : String) (node : NodeId)
  | boundAll (count : Nat) (graph : String)
  | unknownSeed (seed : NodeId) (graph : String)
  | reset (graph : String)
  | walkEnded (entry : NodeId) (status : Status) (current : NodeId)
  | unrankedNode (node : NodeId) (graph : String)
  | unrankedData (node : NodeId) (graph : String)
  | suspended (graph : String) (steps : Nat) (node : NodeId)
  | diagnosticCount (graph : String) (count : Nat)
  | initialized (graph : String) (nodes : Nat)
  | noListener (event : String)
  | unnamedEvent (node : NodeId)
  | unnamedZone (node : NodeId)
  | indexed (events zones : Nat)
  | loaded (name path : String)
  | saved (name path : String)

namespace Notice

/-- The decimal text of a count. -/
def count (n : Nat) : String := Value.intText n

def level : Notice → Level
  | diagnosed _ => .error
  | unknownSeed .. | unrankedNode .. | unrankedData .. | suspended .. | diagnosticCount ..
  | unnamedEvent _ | unnamedZone _ => .warn
  | printed .. | initialized .. | loaded .. | saved .. => .info
  | scheduled .. | bound .. | boundAll .. | reset _ | noListener _ | indexed .. => .debug
  | walkEnded .. => .trace

/-- The part of the program that speaks. -/
def source : Notice → String
  | printed .. => "ordoplay_script::nodes::actions"
  | diagnosed _ | scheduled .. => "ordoplay_script::scheduler"
  | bound .. => "ordoplay_script::registry"
  | boundAll .. | unknownSeed .. | reset _ | walkEnded .. | unrankedNode .. | unrankedData ..
  | suspended .. => "ordoplay_script::processor"
  | diagnosticCount .. | initialized .. | noListener _ | unnamedEvent _ | unnamedZone _
  | indexed .. => "ordoplay_script::instance"
  | loaded .. | saved .. => "ordoplay_script::document"

def message : Notice → String
  | printed name text => "[" ++ name ++ "] " ++ text
  | diagnosed (.runawayControlFlow graph frontiers) =>
    "Infinite loop in nodes of graph '" ++ graph ++ "' detected, scheduling stopped after " ++
      count frontiers ++ " frontiers"
  | diagnosed (.dataCycle graph node) =>
    "Cyclic data dependency feeding node " ++ node.label ++ " in graph '" ++ graph ++ "'"
  | scheduled n graph entries =>
    "Scheduled " ++ count n ++ " nodes of graph '" ++ graph ++ "' from " ++ count entries ++
      " entries"
  | bound type node => "Bound behavior '" ++ type ++ "' to node " ++ node.label
  | boundAll n graph => "Bound " ++ count n ++ " behaviors for graph '" ++ graph ++ "'"
  | unknownSeed seed graph => "Seed " ++ seed.label ++ " is not part of graph '" ++ graph ++ "'"
  | reset graph => "Reset graph '" ++ graph ++ "'"
  | walkEnded entry status current =>
    "Walk from " ++ entry.label ++ " ended " ++ status.name ++ " at " ++ current.label
  | unrankedNode node graph =>
    "Node " ++ node.label ++ " of graph '" ++ graph ++ "' has no compute order, skipping"
  | unrankedData node graph =>
    "Data node " ++ node.label ++ " of graph '" ++ graph ++ "' has no compute order, skipping"
  | suspended graph steps node =>
    "Walk in graph '" ++ graph ++ "' evaluated " ++ count steps ++
      " nodes this tick, suspending at " ++ node.label
  | diagnosticCount graph n =>
    "Graph '" ++ graph ++ "' scheduled with " ++ count n ++ " diagnostics"
  | initialized graph nodes =>
    "Initialized script '" ++ graph ++ "' (" ++ count nodes ++ " nodes)"
  | noListener event => "No listener for event '" ++ event ++ "'"
  | unnamedEvent node => "Event node " ++ node.label ++ " has no event name"
  | unnamedZone node => "Zone node " ++ node.label ++ " has no zone name"
  | indexed events zones =>
    "Indexed " ++ count events ++ " event and " ++ count zones ++ " zone listeners"
  | loaded name path => "Loaded script '" ++ name ++ "' from " ++ path
  | saved name path => "Saved script '" ++ name ++ "' to " ++ path

def line (n : Notice) : LogLine := ⟨n.level, n.source, n.message⟩

end Notice

/-- What a log tells about a scheduling pass: each diagnosis, and the totals unless there was no
entry to start from. -/
def Report.notices (r : Report) (graph : String) : List Notice :=
  r.diagnostics.map .diagnosed ++
    if r.entries.isEmpty then [] else [.scheduled r.scheduled graph r.entries.length]

/-! ## 2. Events -/

/-- Why a node was evaluated. -/
inductive Role
  /-- A walk arrived at it. -/
  | control
  /-- A consumer pulled it. -/
  | data
deriving DecidableEq

/-- What a behavior may say while it is evaluated. -/
inductive Remark
  /-- A log node prints. -/
  | printed (name text : String)
  /-- A probe node reports that it was evaluated. -/
  | probed (node : NodeId)

/-- Something that happened. -/
inductive Event
  | notice (n : Notice)
  /-- A probe node reports that it was evaluated. -/
  | probed (node : NodeId)
  /-- A walk evaluated a node, with this status and choice of output, or failed to. -/
  | evaluated (role : Role) (node : NodeId) (outcome : Except EvalError (Status × Option Nat))

/-- How the journal shows a remark. -/
def Remark.event : Remark → Event
  | printed name text => .notice (.printed name text)
  | probed node => .probed node

namespace Event

def logLine? : Event → Option LogLine
  | notice n => some n.line
  | _ => none

def probed? : Event → Option NodeId
  | probed id => some id
  | _ => none

end Event

end FlowScript
