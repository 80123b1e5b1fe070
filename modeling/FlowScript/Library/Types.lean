/-
# The standard node types

One entry for every host signal, three actions and four data nodes, with the registry that binds
them to their behaviors.
-/
import FlowScript.Library.Behavior
import FlowScript.Registry

namespace FlowScript.Library

/-! ## 1. Identifiers -/

def onStart : String := "on_start"

def onUpdate : String := "on_update"

def onTriggerEntered : String := "on_trigger_entered"

def onTriggerExited : String := "on_trigger_exited"

def onCollision : String := "on_collision"

def onEvent : String := "on_event"

def onZoneEvent : String := "on_zone_event"

def log : String := "log"

def branch : String := "branch"

def wait : String := "wait"

def constant : String := "constant"

def add : String := "add"

def greater : String := "greater"

def format : String := "format"

/-! ## 2. Types -/

/-- An input as a node type declares it; nodes of the type give it an identifier of their own. -/
def declareInput (name : String) (type : PortType) : Port := Port.input default name type

/-- An output as a node type declares it. -/
def declareOutput (name : String) (type : PortType) : Port := Port.output default name type

/-- An entry type: a control-flow output, and for most kinds a payload. -/
def entryType (id name : String) (kind : EntryKind) (description : String)
    (payload : Option (String × PortType)) : NodeType where
  id := id
  name := name
  category := .entry kind
  description := description
  inputs := []
  outputs := declareOutput "Exec" .exec ::
    (payload.map fun p => declareOutput p.1 p.2).toList

/-- The entry types, one for each kind. -/
def entryTypes : List NodeType :=
  [ entryType onStart "On Start" .start "Runs once when the script starts" none,
    entryType onUpdate "On Update" .update "Runs every tick" (some ("Delta Time", .float)),
    entryType onTriggerEntered "On Trigger Entered" .triggerEntered
      "An object entered the trigger volume" (some ("Other", .entity)),
    entryType onTriggerExited "On Trigger Exited" .triggerExited
      "An object left the trigger volume" (some ("Other", .entity)),
    entryType onCollision "On Collision" .collision "The owner collided with an object"
      (some ("Other", .entity)),
    entryType onEvent "On Event" .event "A named event was raised" (some ("Payload", .any)),
    entryType onZoneEvent "On Zone Event" .zoneEvent
      "An object entered, stayed in or left a zone" (some ("Other", .entity)) ]

def logType : NodeType where
  id := log
  name := "Log"
  category := .action
  description := "Print text to the log, once per tick, Amount times"
  inputs := [declareInput "Exec" .exec, declareInput "Text" .string,
    (declareInput "Amount" .int).withDefault (.int 1)]
  outputs := [declareOutput "Exec" .exec]

def branchType : NodeType where
  id := branch
  name := "Branch"
  category := .action
  description := "If/else branching"
  inputs := [declareInput "Exec" .exec, declareInput "Condition" .bool]
  outputs := [declareOutput "True" .exec, declareOutput "False" .exec]

def waitType : NodeType where
  id := wait
  name := "Wait"
  category := .action
  description := "Continue after a delay"
  inputs := [declareInput "Exec" .exec,
    (declareInput "Seconds" .float).withDefault (.float .one)]
  outputs := [declareOutput "Exec" .exec]

def constantType : NodeType where
  id := constant
  name := "Constant"
  category := .data
  description := "A fixed value"
  inputs := []
  outputs := [declareOutput "Value" .any]

/-- Two numbers that are zero unless they are linked. -/
def numberInputs : List Port :=
  [(declareInput "A" .float).withDefault (.float .zero),
    (declareInput "B" .float).withDefault (.float .zero)]

def addType : NodeType where
  id := add
  name := "Add"
  category := .data
  description := "A + B"
  inputs := numberInputs
  outputs := [declareOutput "Result" .float]

def greaterType : NodeType where
  id := greater
  name := "Greater"
  category := .data
  description := "A > B"
  inputs := numberInputs
  outputs := [declareOutput "Result" .bool]

def formatType : NodeType where
  id := format
  name := "Format"
  category := .data
  description := "Insert a value into a text template"
  inputs := [declareInput "Value" .any]
  outputs := [declareOutput "Text" .string]

/-! ## 3. The registry -/

/-- A constant holds its setting, zero without one. -/
def makeConstant (n : Node) : Behavior :=
  .constant ((n.setting? valueSetting).getD (.float .zero))

/-- A format node holds its template; without one it shows the value alone. -/
def makeFormat (n : Node) : Behavior :=
  .format (((n.setting? templateSetting).bind Value.asString?).getD (String.ofList mark))

/-- All standard node types with their behaviors. -/
def registry : Registry Behavior :=
  .ofList ((entryTypes.map fun t => (t, fun _ => .entry (t.id = onUpdate))) ++
    [ (logType, fun _ => .log 0),
      (branchType, fun _ => .branch),
      (waitType, fun _ => .wait .zero),
      (constantType, makeConstant),
      (addType, fun _ => .add),
      (greaterType, fun _ => .greater),
      (formatType, makeFormat) ])

end FlowScript.Library
