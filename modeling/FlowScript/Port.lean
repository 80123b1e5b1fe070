/-
# Ports

A port is a typed slot of a node.  Outputs fan out and control-flow inputs merge, so both accept
several links by default; a data input accepts one (`Port.make`).  An input without a value of its
own falls back to its default (`Port.current?`).
-/
import FlowScript.Uuid
import FlowScript.Value

namespace FlowScript

/-- The name of a port. -/
structure PortId where
  uuid : Uuid
deriving DecidableEq, Inhabited

/-- How messages show a port's name. -/
def PortId.label (id : PortId) : String := "PortId(" ++ id.uuid.toText ++ ")"

inductive Direction
  | input
  | output
deriving DecidableEq

namespace Direction

def name : Direction → String
  | input => "Input"
  | output => "Output"

def all : List Direction := [input, output]

def ofName? (s : String) : Option Direction := all.find? (·.name = s)

end Direction

/-- A typed slot of a node. -/
structure Port where
  id : PortId
  name : String
  direction : Direction
  type : PortType
  /-- What an input reads while it holds no value. -/
  default? : Option Value
  /-- Whether several links may end at the port. -/
  multi : Bool
  /-- The value the slot holds now. -/
  value? : Option Value
deriving DecidableEq

namespace Port

/-- A port as it is declared: no default, no value; outputs and control flow take several links. -/
def make (id : PortId) (direction : Direction) (name : String) (type : PortType) : Port where
  id := id
  name := name
  direction := direction
  type := type
  default? := none
  multi := direction = .output || type = .exec
  value? := none

def input (id : PortId) (name : String) (type : PortType) : Port := make id .input name type

def output (id : PortId) (name : String) (type : PortType) : Port := make id .output name type

def withDefault (p : Port) (v : Value) : Port := { p with default? := some v }

/-- A copy under another name with an empty slot. -/
def instantiate (p : Port) (id : PortId) : Port := { p with id := id, value? := none }

def isExec (p : Port) : Bool := p.type = .exec

/-- The value of the slot, else the default. -/
def current? (p : Port) : Option Value := p.value?.or p.default?

/-- Whether a link between two ports is allowed, the first being its source. -/
def canConnect (p q : Port) : Bool := p.direction ≠ q.direction && p.type.feeds q.type

end Port

end FlowScript
