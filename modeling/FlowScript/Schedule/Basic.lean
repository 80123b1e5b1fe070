/-
# Compute order

`Graph.schedule` takes all ranks back and assigns new ones: control ranks from the entries of some
kinds, then data ranks.  Its report names the entries, counts the ranked nodes and lists what it
found on the way.  The pass is total: cycles are diagnoses, not failures.

`Graph.orderingViolations` checks the two laws of the order on the links between ranked nodes: a
control link does not lead to a smaller rank, and a data node stands before its consumers.
-/
import FlowScript.Schedule.Control
import FlowScript.Schedule.Data

namespace FlowScript

/-- A problem that scheduling reports without failing. -/
inductive Diagnostic
  /-- The control pass was stopped after this many frontiers. -/
  | runawayControlFlow (graph : String) (frontiers : Nat)
  /-- The producers of this node run into a cycle. -/
  | dataCycle (graph : String) (node : NodeId)
deriving DecidableEq

/-- What a scheduling pass found. -/
structure Report where
  entries : List NodeId
  /-- How many nodes were ranked. -/
  scheduled : Nat
  diagnostics : List Diagnostic
  branches : Branches
deriving DecidableEq

namespace Report

/-- The report before any pass. -/
def none : Report := ⟨[], 0, [], default⟩

instance : Inhabited Report := ⟨none⟩

def isClean (r : Report) : Bool := r.diagnostics.isEmpty

end Report

namespace Graph

/-- Ranks the nodes that the entries of some kinds need. -/
def schedule (g : Graph) (maxFrontiers : Nat) (kinds : List EntryKind) : Graph × Report :=
  let g := g.resetRanks
  let entries := g.entryNodes kinds
  if entries.isEmpty then (g, { Report.none with branches := g.branches })
  else
    let control := g.controlPass maxFrontiers entries
    let data := control.graph.dataPass control.computed
    (data.graph,
      { entries := entries
        scheduled := control.computed.length + data.ranked.size
        diagnostics := control.runaway?.toList.map (.runawayControlFlow g.name ·) ++
          data.cyclic.map (.dataCycle g.name ·)
        branches := g.branches })

/-- Whether a link between ranked nodes breaks the compute order. -/
def violates (g : Graph) (c : Connection) : Bool :=
  let source := g.rank c.fromNode
  let target := g.rank c.toNode
  source ≠ unscheduled && target ≠ unscheduled &&
    if c.exec then target < source else g.isData c.fromNode && target ≤ source

/-- The links that break the compute order, as pairs of nodes. -/
def orderingViolations (g : Graph) : List (NodeId × NodeId) :=
  (g.links.filter g.violates).map fun c => (c.fromNode, c.toNode)

end Graph

end FlowScript
