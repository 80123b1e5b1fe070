/-
# Data ranks

The second scheduling pass makes room for data nodes.  It takes the classes of equal control rank
in ascending order.  A class moves up by the longest chain of producers that feeds one of its
members, and all later classes move with it; then the producers are ranked backwards, each one
below its consumer.  A producer with several consumers keeps the lowest rank it was offered.

A chain is longer than the graph has nodes exactly if it runs into a cycle of producers.  Such a
member is reported, and its chain counts as one more than the number of nodes.
-/
import FlowScript.Graph.Query

namespace FlowScript

/-- What the data pass carries from class to class. -/
structure DataPass where
  graph : Graph
  /-- The producers ranked so far, with their ranks. -/
  ranked : OrderedMap NodeId Int
  /-- How far the classes so far have moved up. -/
  offset : Int
  /-- The members whose chain of producers runs into a cycle. -/
  cyclic : List NodeId

namespace Graph

/-- The data nodes that feed a list of nodes. -/
def producersOf (g : Graph) (ids : List NodeId) : List NodeId :=
  (ids.flatMap g.producers).eraseDups

/-! ## 1. The longest chain -/

/-- The number of producer generations from a list of producers on, and whether they go on after
`fuel` of them. -/
def generations (g : Graph) : (fuel : Nat) → List NodeId → Nat × Bool
  | _, [] => (0, false)
  | 0, _ :: _ => (1, true)
  | fuel + 1, id :: ids =>
    let deeper := generations g fuel (g.producersOf (id :: ids))
    (deeper.1 + 1, deeper.2)

/-- The longest chain of producers that feeds a node, and whether it runs into a cycle. -/
def longestChain (g : Graph) (id : NodeId) : Nat × Bool :=
  g.generations g.nodes.size (g.producers id)

/-! ## 2. Ranking producers -/

/-- Offers a rank to a producer, which keeps the lowest. -/
def offerRank (rank : Int) (s : Graph × OrderedMap NodeId Int) (id : NodeId) :
    Graph × OrderedMap NodeId Int :=
  let kept := (s.2.get? id).elim rank (min · rank)
  (s.1.setRank id kept, s.2.insert id kept)

/-- Ranks generation after generation of producers, each one below the last. -/
def rankGenerations : (fuel : Nat) → (rank : Int) → List NodeId →
    Graph × OrderedMap NodeId Int → Graph × OrderedMap NodeId Int
  | _, _, [], s => s
  | 0, _, _ :: _, s => s
  | fuel + 1, rank, id :: ids, s =>
    rankGenerations fuel (rank - 1) (s.1.producersOf (id :: ids))
      ((id :: ids).foldl (offerRank (rank - 1)) s)

/-- Ranks the producers that feed a node, from the node's own rank downwards. -/
def rankProducers (s : Graph × OrderedMap NodeId Int) (id : NodeId) :
    Graph × OrderedMap NodeId Int :=
  rankGenerations s.1.nodes.size (s.1.rank id) (s.1.producers id) s

/-! ## 3. Class by class -/

/-- The occupied control ranks in ascending order, each with its nodes in the given order. -/
def rankClasses (g : Graph) (computed : List NodeId) : List (Int × List NodeId) :=
  let ranked := computed.map fun id => (g.rank id, id)
  (sortBy (fun a b => decide (a ≤ b)) (ranked.map Prod.fst).eraseDups).map fun r =>
    (r, (ranked.filter (·.1 = r)).map Prod.snd)

/-- Moves one class up and ranks its producers. -/
def placeClass (s : DataPass) (cls : Int × List NodeId) : DataPass :=
  let chains := cls.2.map s.graph.longestChain
  let longest := (chains.map Prod.fst).foldl max 0
  let rank := cls.1 + s.offset + longest
  let placed := cls.2.foldl (fun g id => g.setRank id rank) s.graph
  let (graph, ranked) := cls.2.foldl rankProducers (placed, s.ranked)
  { graph := graph
    ranked := ranked
    offset := s.offset + longest
    cyclic := s.cyclic ++ cls.2.filter fun id => (s.graph.longestChain id).2 }

/-- Moves the classes of control ranks apart and ranks the producers that feed them. -/
def dataPass (g : Graph) (computed : List NodeId) : DataPass :=
  (g.rankClasses computed).foldl placeClass ⟨g, .empty, 0, []⟩

end Graph

end FlowScript
