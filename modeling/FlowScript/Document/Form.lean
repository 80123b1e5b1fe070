/-
# The parts of a document as trees

Every part of a document has a form: the tree that it is written as (`toTree`), the shape that is
asked for when it is read (`shape`), and what it is made of from a tree of that shape (`ofTree?`).
The three lie side by side, so that they can be compared.

Derived state has no form.  What is read has empty slots, no ranks, and a revision of zero.
-/
import FlowScript.Graph.Basic
import FlowScript.Settings
import FlowScript.Tree.Reading
import FlowScript.Tree.View
import FlowScript.Tree.Writer

namespace FlowScript

/-! ## 1. Identifiers -/

namespace Uuid

/-- An identifier inside a wrapper with the name of its kind. -/
def toTree (type : String) (u : Uuid) : Tree := .tuple (some type) [.text u.toText]

def shape (type : String) : Shape := .wrapper type .text

def ofTree? (t : Tree) : Option Uuid := (t.asNamed?.bind fun n => n.2.asText?).bind ofText?

end Uuid

namespace NodeId

def toTree (id : NodeId) : Tree := id.uuid.toTree "NodeId"

def shape : Shape := Uuid.shape "NodeId"

def ofTree? (t : Tree) : Option NodeId := (Uuid.ofTree? t).map .mk

end NodeId

namespace PortId

def toTree (id : PortId) : Tree := id.uuid.toTree "PortId"

def shape : Shape := Uuid.shape "PortId"

def ofTree? (t : Tree) : Option PortId := (Uuid.ofTree? t).map .mk

end PortId

namespace ConnectionId

def toTree (id : ConnectionId) : Tree := id.uuid.toTree "ConnectionId"

def shape : Shape := Uuid.shape "ConnectionId"

def ofTree? (t : Tree) : Option ConnectionId := (Uuid.ofTree? t).map .mk

end ConnectionId

/-! ## 2. Values -/

namespace Value

/-- A value is a variant with the name of its type. -/
def toTree : Value → Tree
  | bool b => .tuple (some "Bool") [.bool b]
  | int n => .tuple (some "Int") [.whole n.toInt]
  | float x => .tuple (some "Float") [.single x]
  | vector3 x y z => .tuple (some "Vector3") [.tuple none [.single x, .single y, .single z]]
  | string s => .tuple (some "String") [.text s]
  | entity id => .tuple (some "Entity") [.tuple (some "EntityId") [.whole id.toNat]]

def shape : Shape :=
  .variant []
    [ ("Bool", .bool),
      ("Int", .whole .int32),
      ("Float", .single),
      ("Vector3", .singles 3),
      ("String", .text),
      ("Entity", .wrapper "EntityId" (.whole .nat64)) ]

/-- Reads a vector. -/
def vectorOf? (t : Tree) : Option Value :=
  match t.asSingles? with
  | some [x, y, z] => some (vector3 x y z)
  | _ => none

/-- Reads an entity inside a wrapper of its own. -/
def entityOf? (t : Tree) : Option Value := do
  let (_, t) ← t.asNamed?
  let n ← t.asWhole?
  return entity (UInt64.ofNat n.toNat)

def ofTree? (t : Tree) : Option Value :=
  match t.asNamed? with
  | none => none
  | some (name, t) =>
    if name = "Bool" then t.asBool?.map bool
    else if name = "Int" then t.asWhole?.map fun n => int (Int32.ofInt n)
    else if name = "Float" then t.asSingle?.map float
    else if name = "Vector3" then vectorOf? t
    else if name = "String" then t.asText?.map string
    else if name = "Entity" then entityOf? t
    else none

/-- An optional value. -/
def optionToTree (v : Option Value) : Tree := v.elim .absent fun v => .present v.toTree

def optionOfTree? (t : Tree) : Option (Option Value) :=
  match t.asOption? with
  | none => none
  | some none => some none
  | some (some t) => (ofTree? t).map some

end Value

/-! ## 3. Ports and nodes -/

namespace Port

def toTree (p : Port) : Tree :=
  .record (some "Port")
    [ ("id", p.id.toTree),
      ("name", .text p.name),
      ("direction", .unit p.direction.name),
      ("port_type", .unit p.type.name),
      ("default_value", Value.optionToTree p.default?),
      ("multi_connect", .bool p.multi) ]

def shape : Shape :=
  .record "Port"
    [ ("id", PortId.shape),
      ("name", .text),
      ("direction", .variant (Direction.all.map Direction.name) []),
      ("port_type", .variant (PortType.all.map PortType.name) []),
      ("default_value", .optional Value.shape),
      ("multi_connect", .bool) ]

def ofTree? (t : Tree) : Option Port := do
  let fields ← t.asRecord?
  let id ← Tree.required fields "id" PortId.ofTree?
  let name ← Tree.required fields "name" Tree.asText?
  let direction ← Tree.required fields "direction" fun t => t.asName?.bind Direction.ofName?
  let type ← Tree.required fields "port_type" fun t => t.asName?.bind PortType.ofName?
  let default? ← Tree.optionalField fields "default_value" Value.optionOfTree? none
  let multi ← Tree.required fields "multi_connect" Tree.asBool?
  return ⟨id, name, direction, type, default?, multi, none⟩

end Port

namespace Category

def toTree : Category → Tree
  | entry kind => .tuple (some "Entry") [.unit kind.name]
  | action => .unit "Action"
  | data => .unit "Data"

def shape : Shape :=
  .variant ["Action", "Data"] [("Entry", .variant (EntryKind.all.map EntryKind.name) [])]

def ofTree? : Tree → Option Category
  | .unit s => if s = "Action" then some action else if s = "Data" then some data else none
  | .tuple _ [t] => (t.asName?.bind EntryKind.ofName?).map entry
  | _ => none

end Category

/-- Reads a list element by element. -/
def listOfTree? {α : Type} (element : Tree → Option α) (t : Tree) : Option (List α) :=
  t.asList?.bind fun ts => ts.mapM element

/-- Reads a map entry by entry; a key that comes again overwrites its value in place. -/
def mapOfTree? {κ ν : Type} [DecidableEq κ] (key : Tree → Option κ) (element : Tree → Option ν)
    (t : Tree) : Option (OrderedMap κ ν) := do
  let entries ← t.asMap?
  let entries ← entries.mapM fun e => do
    let k ← key e.1
    let v ← element e.2
    return (k, v)
  return .ofList entries

/-- A map with the forms of its keys and values. -/
def mapToTree {κ ν : Type} (key : κ → Tree) (element : ν → Tree) (m : OrderedMap κ ν) : Tree :=
  .map (m.entries.map fun e => (key e.1, element e.2))

namespace Node

/-- Reads the two coordinates of a position. -/
def positionOf? (t : Tree) : Option (Single × Single) :=
  match t.asSingles? with
  | some [x, y] => some (x, y)
  | _ => none

def toTree (n : Node) : Tree :=
  .record (some "Node")
    [ ("id", n.id.toTree),
      ("node_type", .text n.type),
      ("name", .text n.name),
      ("category", n.category.toTree),
      ("position", .tuple none [.single n.x, .single n.y]),
      ("inputs", .list (n.inputs.map Port.toTree)),
      ("outputs", .list (n.outputs.map Port.toTree)),
      ("settings", mapToTree Tree.text Value.toTree n.settings) ]

def shape : Shape :=
  .record "Node"
    [ ("id", NodeId.shape),
      ("node_type", .text),
      ("name", .text),
      ("category", Category.shape),
      ("position", .singles 2),
      ("inputs", .list Port.shape),
      ("outputs", .list Port.shape),
      ("settings", .map .text Value.shape) ]

def ofTree? (t : Tree) : Option Node := do
  let fields ← t.asRecord?
  let id ← Tree.required fields "id" NodeId.ofTree?
  let type ← Tree.required fields "node_type" Tree.asText?
  let name ← Tree.required fields "name" Tree.asText?
  let category ← Tree.required fields "category" Category.ofTree?
  let position ← Tree.required fields "position" positionOf?
  let inputs ← Tree.required fields "inputs" (listOfTree? Port.ofTree?)
  let outputs ← Tree.required fields "outputs" (listOfTree? Port.ofTree?)
  let settings ← Tree.optionalField fields "settings"
    (mapOfTree? Tree.asText? Value.ofTree?) .empty
  return ⟨id, type, name, category, position.1, position.2, inputs, outputs, settings,
    unscheduled⟩

end Node

/-! ## 4. Links and graphs -/

namespace Connection

def toTree (c : Connection) : Tree :=
  .record (some "Connection")
    [ ("id", c.id.toTree),
      ("from_node", c.fromNode.toTree),
      ("from_port", c.fromPort.toTree),
      ("to_node", c.toNode.toTree),
      ("to_port", c.toPort.toTree),
      ("exec", .bool c.exec) ]

def shape : Shape :=
  .record "Connection"
    [ ("id", ConnectionId.shape),
      ("from_node", NodeId.shape),
      ("from_port", PortId.shape),
      ("to_node", NodeId.shape),
      ("to_port", PortId.shape),
      ("exec", .bool) ]

def ofTree? (t : Tree) : Option Connection := do
  let fields ← t.asRecord?
  let id ← Tree.required fields "id" ConnectionId.ofTree?
  let fromNode ← Tree.required fields "from_node" NodeId.ofTree?
  let fromPort ← Tree.required fields "from_port" PortId.ofTree?
  let toNode ← Tree.required fields "to_node" NodeId.ofTree?
  let toPort ← Tree.required fields "to_port" PortId.ofTree?
  let exec ← Tree.required fields "exec" Tree.asBool?
  return ⟨id, fromNode, fromPort, toNode, toPort, exec⟩

end Connection

namespace Graph

def toTree (g : Graph) : Tree :=
  .record (some "Graph")
    [ ("name", .text g.name),
      ("nodes", mapToTree NodeId.toTree Node.toTree g.nodes),
      ("connections", mapToTree ConnectionId.toTree Connection.toTree g.connections) ]

def shape : Shape :=
  .record "Graph"
    [ ("name", .text),
      ("nodes", .map NodeId.shape Node.shape),
      ("connections", .map ConnectionId.shape Connection.shape) ]

def ofTree? (t : Tree) : Option Graph := do
  let fields ← t.asRecord?
  let name ← Tree.required fields "name" Tree.asText?
  let nodes ← Tree.required fields "nodes" (mapOfTree? NodeId.ofTree? Node.ofTree?)
  let connections ← Tree.required fields "connections"
    (mapOfTree? ConnectionId.ofTree? Connection.ofTree?)
  return ⟨name, nodes, connections, 0⟩

end Graph

/-! ## 5. Settings -/

namespace Settings

def toTree (s : Settings) : Tree :=
  .record (some "ProcessorSettings")
    [ ("max_frontiers", .whole s.maxFrontiers.toNat),
      ("max_walk_steps", .whole s.maxWalkSteps.toNat),
      ("data_memoization", .unit s.memoization.name) ]

def shape : Shape :=
  .record "ProcessorSettings"
    [ ("max_frontiers", .whole .nat64),
      ("max_walk_steps", .whole .nat64),
      ("data_memoization", .variant (Memoization.all.map Memoization.name) []) ]

/-- Reads a bound. -/
def boundOf? (t : Tree) : Option UInt64 := t.asWhole?.map fun n => UInt64.ofNat n.toNat

/-- Reads settings; a bound that is missing has its standard value. -/
def ofTree? (t : Tree) : Option Settings := do
  let fields ← t.asRecord?
  let maxFrontiers ← Tree.optionalField fields "max_frontiers" boundOf? standard.maxFrontiers
  let maxWalkSteps ← Tree.optionalField fields "max_walk_steps" boundOf? standard.maxWalkSteps
  let memoization ← Tree.optionalField fields "data_memoization"
    (fun t => t.asName?.bind Memoization.ofName?) standard.memoization
  return ⟨maxFrontiers, maxWalkSteps, memoization⟩

end Settings

end FlowScript
