/-
# Nodes

A node is an instance of a node type: an entry that a host signal starts, an action on the control
path, or a data node that its consumers pull.  Its ports are looked up by slot (position in its
list), by field name or by identifier; an identifier is searched among the inputs first.

`rank` is derived state: the compute order that the last scheduling pass assigned, `unscheduled`
for a node that it did not reach.
-/
import FlowScript.OrderedMap
import FlowScript.Port

namespace FlowScript

/-- The name of a node. -/
structure NodeId where
  uuid : Uuid
deriving DecidableEq, Inhabited

/-- How messages show a node's name. -/
def NodeId.label (id : NodeId) : String := "NodeId(" ++ id.uuid.toText ++ ")"

/-! ## 1. Categories -/

/-- The host signal that starts a walk from an entry node. -/
inductive EntryKind
  | start
  | update
  | triggerEntered
  | triggerExited
  | collision
  | event
  | zoneEvent
deriving DecidableEq, Inhabited

namespace EntryKind

/-- All kinds, in the order in which a processor registers them. -/
def all : List EntryKind :=
  [start, update, triggerEntered, triggerExited, collision, event, zoneEvent]

def name : EntryKind → String
  | start => "Start"
  | update => "Update"
  | triggerEntered => "TriggerEntered"
  | triggerExited => "TriggerExited"
  | collision => "Collision"
  | event => "Event"
  | zoneEvent => "ZoneEvent"

def ofName? (s : String) : Option EntryKind := all.find? (·.name = s)

theorem mem_all (k : EntryKind) : k ∈ all := by cases k <;> decide

end EntryKind

/-- The part a node plays. -/
inductive Category
  /-- Starts a walk when its signal comes. -/
  | entry (kind : EntryKind)
  /-- Runs on the control path, possibly over several ticks. -/
  | action
  /-- Computes values when a consumer needs them. -/
  | data
deriving DecidableEq, Inhabited

namespace Category

/-- Whether a node takes part in control flow. -/
def isFlow : Category → Bool
  | data => false
  | _ => true

def entryKind? : Category → Option EntryKind
  | entry kind => some kind
  | _ => none

end Category

/-! ## 2. Node types and nodes -/

/-- What all nodes of a type have in common. -/
structure NodeType where
  id : String
  name : String
  category : Category
  description : String
  inputs : List Port
  outputs : List Port

/-- The rank of a node that no scheduling pass has reached. -/
def unscheduled : Int := -1

/-- A node of a graph. -/
structure Node where
  id : NodeId
  type : String
  name : String
  category : Category
  /-- Authoring position; it only orders entry nodes. -/
  x : Single
  y : Single
  inputs : List Port
  outputs : List Port
  /-- Configuration that a behavior reads when it is bound. -/
  settings : OrderedMap String Value
  rank : Int

instance : Inhabited Node :=
  ⟨⟨default, "", "", .action, default, default, [], [], .empty, unscheduled⟩⟩

/-- The identifiers that a new node and its ports receive. -/
structure NodeIds where
  node : NodeId
  input : Nat → PortId
  output : Nat → PortId

/-- Gives the ports of a list fresh identifiers by slot, and empty slots. -/
def instantiatePorts (ids : Nat → PortId) (ports : List Port) : List Port :=
  ports.mapIdx fun i p => p.instantiate (ids i)

namespace NodeType

/-- A new node of a type. -/
def instantiate (t : NodeType) (ids : NodeIds) : Node where
  id := ids.node
  type := t.id
  name := t.name
  category := t.category
  x := .zero
  y := .zero
  inputs := instantiatePorts ids.input t.inputs
  outputs := instantiatePorts ids.output t.outputs
  settings := .empty
  rank := unscheduled

end NodeType

namespace Node

def withPosition (n : Node) (x y : Single) : Node := { n with x := x, y := y }

def withSetting (n : Node) (key : String) (v : Value) : Node :=
  { n with settings := n.settings.insert key v }

def setting? (n : Node) (key : String) : Option Value := n.settings.get? key

/-- Applies a function to the first element that passes a test. -/
def modifyFirst {α : Type} (p : α → Bool) (f : α → α) : List α → List α
  | [] => []
  | a :: l => if p a then f a :: l else a :: modifyFirst p f l

/-- Sets the default of the first input with a given field name. -/
def withInputDefault (n : Node) (name : String) (v : Value) : Node :=
  { n with inputs := modifyFirst (·.name = name) (·.withDefault v) n.inputs }

/-! ## 3. Ports of a node -/

/-- All ports, inputs before outputs. -/
def ports (n : Node) : List Port := n.inputs ++ n.outputs

def inputSlot? (n : Node) (name : String) : Option Nat := n.inputs.findIdx? (·.name = name)

def outputSlot? (n : Node) (name : String) : Option Nat := n.outputs.findIdx? (·.name = name)

/-- Side and slot of the port with a given identifier. -/
def slotOf? (n : Node) (id : PortId) : Option (Direction × Nat) :=
  match n.inputs.findIdx? (·.id = id) with
  | some i => some (.input, i)
  | none => (n.outputs.findIdx? (·.id = id)).map (Direction.output, ·)

/-- The port with a given identifier, inputs before outputs. -/
def port? (n : Node) (id : PortId) : Option Port := n.ports.find? (·.id = id)

/-- Applies a function to the port with a given identifier, inputs before outputs. -/
def modifyPort (n : Node) (id : PortId) (f : Port → Port) : Node :=
  if n.inputs.any (·.id = id) then { n with inputs := modifyFirst (·.id = id) f n.inputs }
  else { n with outputs := modifyFirst (·.id = id) f n.outputs }

/-- Puts a value into the slot of the port with a given identifier. -/
def setValue (n : Node) (id : PortId) (v : Option Value) : Node :=
  n.modifyPort id fun p => { p with value? := v }

/-- Puts a value into an output slot; a slot the node does not have is ignored. -/
def setOutput (n : Node) (slot : Nat) (v : Value) : Node :=
  { n with outputs := n.outputs.modify slot fun p => { p with value? := some v } }

/-- The first control-flow output: the path taken unless another one is chosen. -/
def defaultExec? (n : Node) : Option Nat := n.outputs.findIdx? Port.isExec

/-- Whether a scheduling pass has reached the node. -/
def isScheduled (n : Node) : Bool := unscheduled < n.rank

/-- Empties every slot. -/
def clearValues (n : Node) : Node :=
  { n with
    inputs := n.inputs.map fun p => { p with value? := none }
    outputs := n.outputs.map fun p => { p with value? := none } }

end Node

end FlowScript
