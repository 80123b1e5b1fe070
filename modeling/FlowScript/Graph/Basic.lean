/-
# Graphs

A graph owns its nodes and its links, each in insertion order under its identifier.  Every change
of the topology bumps `revision`, which is how a processor notices that its derived state is stale;
changes of slots, settings, positions and ranks do not.

`Graph.connect` checks, in this order: both nodes, both ports, directions and types, the single
provider of a data input, and that no data link returns to its own node.  A looping control path
can be built; scheduling reports it.

`Edit` is the topology interface as data, and `Edit.run` its meaning: a refused edit leaves the
graph as it was.
-/
import FlowScript.Node

namespace FlowScript

/-- The name of a link. -/
structure ConnectionId where
  uuid : Uuid
deriving DecidableEq, Inhabited

/-- A link from an output port to an input port. -/
structure Connection where
  id : ConnectionId
  fromNode : NodeId
  fromPort : PortId
  toNode : NodeId
  toPort : PortId
  /-- Control flow, as opposed to data. -/
  exec : Bool
deriving DecidableEq

namespace Connection

def involvesNode (c : Connection) (id : NodeId) : Bool := c.fromNode = id || c.toNode = id

def involvesPort (c : Connection) (id : PortId) : Bool := c.fromPort = id || c.toPort = id

end Connection

/-- Nodes and links in insertion order. -/
structure Graph where
  name : String
  nodes : OrderedMap NodeId Node
  connections : OrderedMap ConnectionId Connection
  /-- The number of topology changes so far: a natural number, since the `2 ^ 64` edits that would
  overflow a counter of 64 bits are out of reach. -/
  revision : Nat

/-- Why a link is refused. -/
inductive ConnectError
  | nodeNotFound (node : NodeId)
  | portNotFound (port : PortId)
  | portNameNotFound (name : String)
  | incompatiblePorts
  | portAlreadyConnected (port : PortId)
  | selfLoop
deriving DecidableEq

def ConnectError.message : ConnectError → String
  | nodeNotFound node => "Node not found: " ++ node.label
  | portNotFound port => "Port not found: " ++ port.label
  | portNameNotFound name => "No port named '" ++ name ++ "'"
  | incompatiblePorts => "Incompatible port types"
  | portAlreadyConnected port => "Port already connected: " ++ port.label
  | selfLoop => "Self-loop not allowed"

namespace Graph

/-- The graph without nodes. -/
def empty (name : String) : Graph := ⟨name, .empty, .empty, 0⟩

/-- The name of a graph that was given none. -/
def untitled : String := "Untitled"

instance : Inhabited Graph := ⟨empty untitled⟩

def node? (g : Graph) (id : NodeId) : Option Node := g.nodes.get? id

def connection? (g : Graph) (id : ConnectionId) : Option Connection := g.connections.get? id

/-- The links in insertion order. -/
def links (g : Graph) : List Connection := g.connections.values

/-- The rank of a node; a node that is not there is unscheduled. -/
def rank (g : Graph) (id : NodeId) : Int := (g.node? id).elim unscheduled Node.rank

/-! ## 1. Changes of the topology -/

/-- Adds a node; a node of the same name is replaced in its place. -/
def addNode (g : Graph) (n : Node) : Graph :=
  { g with nodes := g.nodes.insert n.id n, revision := g.revision + 1 }

/-- Removes a node together with its links; `none` if there is no such node. -/
def removeNode? (g : Graph) (id : NodeId) : Option (Node × Graph) :=
  (g.node? id).map fun n =>
    (n, { g with
          nodes := g.nodes.erase id
          connections := g.connections.filter fun _ c => !c.involvesNode id
          revision := g.revision + 1 })

/-- Adds a link under a given name, if nothing forbids it. -/
def connect (g : Graph) (id : ConnectionId) (fromNode : NodeId) (fromPort : PortId)
    (toNode : NodeId) (toPort : PortId) : Except ConnectError Graph :=
  match g.node? fromNode, g.node? toNode with
  | none, _ => .error (.nodeNotFound fromNode)
  | some _, none => .error (.nodeNotFound toNode)
  | some source, some target =>
    match source.port? fromPort, target.port? toPort with
    | none, _ => .error (.portNotFound fromPort)
    | some _, none => .error (.portNotFound toPort)
    | some out, some inp =>
      if out.direction ≠ .output ∨ out.canConnect inp = false then .error .incompatiblePorts
      else if inp.multi = false ∧ g.links.any (·.toPort = toPort) then
        .error (.portAlreadyConnected toPort)
      else if fromNode = toNode ∧ out.isExec = false then .error .selfLoop
      else
        .ok { g with
              connections := g.connections.insert id
                { id := id, fromNode := fromNode, fromPort := fromPort, toNode := toNode
                  toPort := toPort, exec := out.isExec }
              revision := g.revision + 1 }

/-- Adds a link between an output and an input that are given by field name. -/
def connectByName (g : Graph) (id : ConnectionId) (fromNode : NodeId) (output : String)
    (toNode : NodeId) (input : String) : Except ConnectError Graph :=
  match g.node? fromNode with
  | none => .error (.nodeNotFound fromNode)
  | some source =>
    match source.outputs.find? (·.name = output) with
    | none => .error (.portNameNotFound output)
    | some out =>
      match g.node? toNode with
      | none => .error (.nodeNotFound toNode)
      | some target =>
        match target.inputs.find? (·.name = input) with
        | none => .error (.portNameNotFound input)
        | some inp => g.connect id fromNode out.id toNode inp.id

/-- Removes a link; `none` if there is no such link. -/
def disconnect? (g : Graph) (id : ConnectionId) : Option (Connection × Graph) :=
  (g.connection? id).map fun c =>
    (c, { g with connections := g.connections.erase id, revision := g.revision + 1 })

/-! ## 2. Changes that leave the topology alone -/

/-- Applies a function to one node. -/
def modifyNode (g : Graph) (id : NodeId) (f : Node → Node) : Graph :=
  { g with nodes := g.nodes.modify id f }

/-- Applies a function to every node. -/
def mapNodes (g : Graph) (f : Node → Node) : Graph :=
  { g with nodes := g.nodes.map fun _ n => f n }

def setRank (g : Graph) (id : NodeId) (r : Int) : Graph :=
  g.modifyNode id fun n => { n with rank := r }

/-- Takes every rank back. -/
def resetRanks (g : Graph) : Graph := g.mapNodes fun n => { n with rank := unscheduled }

/-- Empties every slot of every node. -/
def clearValues (g : Graph) : Graph := g.mapNodes Node.clearValues

/-- One delivery: a value for a port of a node. -/
def deliver (g : Graph) (node : NodeId) (port : PortId) (v : Value) : Graph :=
  g.modifyNode node fun n => n.setValue port (some v)

/-- What the data outputs of a node send over its links: by output slot, then by link. -/
def deliveries (g : Graph) (n : Node) : List (NodeId × PortId × Value) :=
  n.outputs.flatMap fun p =>
    match p.isExec, p.value? with
    | false, some v =>
      (g.links.filter (·.fromPort = p.id)).map fun c => (c.toNode, c.toPort, v)
    | _, _ => []

/-- Copies the data outputs of a node into the ports they are linked to. -/
def pushOutputs (g : Graph) (id : NodeId) : Graph :=
  match g.node? id with
  | none => g
  | some n => (g.deliveries n).foldl (fun g d => g.deliver d.1 d.2.1 d.2.2) g

end Graph

/-! ## 3. Edits as data -/

/-- A change of the topology. -/
inductive Edit
  | addNode (n : Node)
  | removeNode (id : NodeId)
  | connect (id : ConnectionId) (fromNode : NodeId) (fromPort : PortId) (toNode : NodeId)
      (toPort : PortId)
  | connectByName (id : ConnectionId) (fromNode : NodeId) (output : String) (toNode : NodeId)
      (input : String)
  | disconnect (id : ConnectionId)

/-- The graph after an edit; a refused edit changes nothing. -/
def Edit.run (g : Graph) : Edit → Graph
  | addNode n => g.addNode n
  | removeNode id => (g.removeNode? id).elim g Prod.snd
  | connect id a p b q =>
    match g.connect id a p b q with
    | .ok g' => g'
    | .error _ => g
  | connectByName id a o b i =>
    match g.connectByName id a o b i with
    | .ok g' => g'
    | .error _ => g
  | disconnect id => (g.disconnect? id).elim g Prod.snd

end FlowScript
