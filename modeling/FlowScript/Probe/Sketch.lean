/-
# Sketches of probe graphs

A sketch is a list of steps that build a graph of probe nodes.  Nodes are referred to by the number
under which they were made.  A step whose link is refused ends the sketch without a graph.
-/
import FlowScript.Probe.Basic
import FlowScript.Supply

namespace FlowScript.Probe

/-- One step of a sketch. -/
inductive Step
  /-- Makes an entry at a height. -/
  | entry (kind : EntryKind) (y : Single)
  | action
  | data
  | set (node : Nat) (key : String) (v : Value)
  /-- Links the default control-flow output of a node to another node. -/
  | flow (source target : Nat)
  /-- Links the alternative control-flow output, or the default one of a node without. -/
  | flowAlt (source target : Nat)
  /-- Links the value of a node to a named input of another node. -/
  | feed (source target : Nat) (input : String)
  | rename (name : String)

/-- A graph in the making, with the numbers of the next node and the next link. -/
structure Draft where
  graph : Graph
  nodes : Nat
  links : Nat

namespace Draft

def start (name : String) : Draft := ⟨.empty name, 0, 0⟩

/-- Adds a node of a type. -/
def add (s : Supply) (d : Draft) (type : NodeType) (place : Node → Node) : Draft :=
  { d with
    graph := d.graph.addNode (place (type.instantiate (s.node d.nodes)))
    nodes := d.nodes + 1 }

/-- Adds a link by field names. -/
def link? (s : Supply) (d : Draft) (source : Nat) (output : String) (target : Nat)
    (input : String) : Option Draft :=
  match d.graph.connectByName (s.link d.links) (s.node source).node output (s.node target).node
      input with
  | .ok g => some { d with graph := g, links := d.links + 1 }
  | .error _ => none

/-- The first of two output names, if the node has such an output, else the second. -/
def outputOr (s : Supply) (d : Draft) (source : Nat) (name other : String) : String :=
  if (d.graph.node? (s.node source).node).any (fun n => (n.outputSlot? name).isSome) then name
  else other

/-- The draft after a step. -/
def step? (s : Supply) (d : Draft) : Step → Option Draft
  | .entry kind y => some (d.add s (entryType kind) (·.withPosition .zero y))
  | .action => some (d.add s actionType id)
  | .data => some (d.add s dataType id)
  | .set node key v =>
    some { d with graph := d.graph.modifyNode (s.node node).node (·.withSetting key v) }
  | .flow source target => d.link? s source "Exec" target "Exec"
  | .flowAlt source target =>
    d.link? s source (d.outputOr s source "Alt" "Exec") target "Exec"
  | .feed source target input =>
    d.link? s source (d.outputOr s source "Out" "Payload") target input
  | .rename name => some { d with graph := { d.graph with name := name } }

end Draft

/-- The graph that a sketch builds, at revision zero. -/
def sketch? (s : Supply) (name : String) (steps : List Step) : Option Graph :=
  (steps.foldlM (Draft.step? s) (Draft.start name)).map fun d => { d.graph with revision := 0 }

end FlowScript.Probe
