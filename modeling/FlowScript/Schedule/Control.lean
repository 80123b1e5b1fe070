/-
# Control ranks

The first scheduling pass moves a frontier along control links, starting with all entries at once.
The frontier with number `k` gives rank `k` to every node in it that has a smaller rank, and only
those nodes extend the next frontier.  A node that is reached again later is ranked again, so a
node where branches join stands behind its longest branch.

On a control cycle the frontier never becomes empty.  `max` bounds the number of frontiers: numbers
`0` to `max` are processed, and if the next one is not empty the pass stops and says so.
-/
import FlowScript.Graph.Query

namespace FlowScript

/-- What the control pass leaves behind. -/
structure ControlPass where
  graph : Graph
  /-- The ranked nodes, in the order in which they were first reached. -/
  computed : List NodeId
  /-- The number of frontiers after which the pass was stopped, if it was. -/
  runaway? : Option Nat

namespace Graph

/-- The nodes of a frontier that its number ranks. -/
def advancing (g : Graph) (rank : Nat) (frontier : List NodeId) : List NodeId :=
  frontier.filter fun id => (g.node? id).any fun n => decide (n.rank < (rank : Int))

/-- Gives all nodes of a list one rank. -/
def setRanks (g : Graph) (ids : List NodeId) (rank : Int) : Graph :=
  ids.foldl (fun g id => g.setRank id rank) g

/-- The nodes that one control link reaches from a list of nodes. -/
def nextFrontier (g : Graph) (ids : List NodeId) : List NodeId :=
  (ids.flatMap g.nextNodes).eraseDups

/-- Processes frontiers from number `rank` on, at most `fuel` of them. -/
def advance : (fuel : Nat) → (rank : Nat) → Graph → (frontier computed : List NodeId) → ControlPass
  | _, _, g, [], computed => ⟨g, computed, none⟩
  | 0, rank, g, _ :: _, computed => ⟨g, computed, some rank⟩
  | fuel + 1, rank, g, id :: ids, computed =>
    let moved := g.advancing rank (id :: ids)
    advance fuel (rank + 1) (g.setRanks moved rank) (g.nextFrontier moved)
      (computed ++ moved.filter (!computed.contains ·))

/-- Ranks the nodes that control flow reaches from some entries. -/
def controlPass (g : Graph) (max : Nat) (entries : List NodeId) : ControlPass :=
  advance (max + 1) 0 g entries.eraseDups []

end Graph

end FlowScript
