/-
# Questions to a graph

Neighbourhoods are answered in link order, each node once.  Two different questions lead along
control flow: `nextNodes` gives every node that one control link reaches, which scheduling needs,
and `nextNode?` the node behind the first link of one output slot, which a walk follows.

Entry nodes are ordered from top to bottom: by vertical, then horizontal position in the total
order of number patterns, then by identifier.
-/
import FlowScript.Graph.Basic
import FlowScript.Sorting

namespace FlowScript

namespace Graph

def linksFrom (g : Graph) (port : PortId) : List Connection := g.links.filter (·.fromPort = port)

def linksTo (g : Graph) (port : PortId) : List Connection := g.links.filter (·.toPort = port)

def linksOf (g : Graph) (node : NodeId) : List Connection :=
  g.links.filter (·.involvesNode node)

/-! ## 1. Neighbours -/

/-- The nodes that one control link reaches. -/
def nextNodes (g : Graph) (id : NodeId) : List NodeId :=
  ((g.links.filter fun c => c.exec && c.fromNode = id).map (·.toNode)).eraseDups

/-- The node behind the first link of a control-flow output slot. -/
def nextNode? (g : Graph) (id : NodeId) (slot : Nat) : Option NodeId :=
  match (g.node? id).bind (·.outputs[slot]?) with
  | none => none
  | some p =>
    if p.isExec then (g.links.find? (·.fromPort = p.id)).map (·.toNode) else none

/-- The nodes that feed any input of a node, control or data. -/
def inputNodes (g : Graph) (id : NodeId) : List NodeId :=
  ((g.links.filter (·.toNode = id)).map (·.fromNode)).eraseDups

/-- The nodes that feed the data inputs of a node. -/
def dataInputNodes (g : Graph) (id : NodeId) : List NodeId :=
  ((g.links.filter fun c => !c.exec && c.toNode = id).map (·.fromNode)).eraseDups

def isData (g : Graph) (id : NodeId) : Bool :=
  (g.node? id).any fun n => decide (n.category = .data)

/-- The data nodes that feed the data inputs of a node. -/
def producers (g : Graph) (id : NodeId) : List NodeId := (g.dataInputNodes id).filter g.isData

/-! ## 2. Entries -/

/-- Entry nodes run from top to bottom, then from left to right, then by identifier. -/
def entryLe (a b : Node) : Bool :=
  if a.y.totalKey ≠ b.y.totalKey then a.y.totalKey < b.y.totalKey
  else if a.x.totalKey ≠ b.x.totalKey then a.x.totalKey < b.x.totalKey
  else a.id.uuid.le b.id.uuid

/-- The entry nodes of some kinds, in the order in which they run. -/
def entryNodes (g : Graph) (kinds : List EntryKind) : List NodeId :=
  let entries := g.nodes.values.filter fun n => n.category.entryKind?.any (kinds.contains ·)
  (sortBy entryLe entries).map (·.id)

end Graph

/-! ## 3. Branching -/

/-- Where control flow splits and joins. -/
structure Branches where
  /-- Nodes with a control-flow output that has several links. -/
  begins : List NodeId
  /-- Nodes with a control-flow input that has several links. -/
  ends : List NodeId
deriving DecidableEq

instance : Inhabited Branches := ⟨⟨[], []⟩⟩

namespace Graph

def branches (g : Graph) : Branches where
  begins := ((g.nodes.values.filter fun n =>
    n.outputs.any fun p => p.isExec && 1 < (g.linksFrom p.id).length).map (·.id)).eraseDups
  ends := ((g.nodes.values.filter fun n =>
    n.inputs.any fun p => p.isExec && 1 < (g.linksTo p.id).length).map (·.id)).eraseDups

end Graph

end FlowScript
