/-
# Supplies of identifiers

New nodes, ports and links need identifiers that nothing else has.  A supply gives them by number,
so that whatever is built from it is a function of the supply.
-/
import FlowScript.Graph.Basic

namespace FlowScript

/-- Identifiers for the nodes and links of a graph that is being built. -/
structure Supply where
  /-- The identifiers of a node, by its number. -/
  node : Nat → NodeIds
  /-- The identifier of a link, by its number. -/
  link : Nat → ConnectionId

namespace Supply

/-- Numbers for a node and its slots, apart from each other as long as nodes have fewer than
`span` slots on each side. -/
def span : Nat := 256

/-- A supply that numbers everything upwards from a base: links on even places, nodes and slots on
odd ones. -/
def counting (base : Nat) : Supply where
  node k :=
    let place (i : Nat) : Uuid := .ofNat (base + (2 * (k * (2 * span + 1) + i) + 1))
    { node := ⟨place 0⟩
      input := fun i => ⟨place (i + 1)⟩
      output := fun i => ⟨place (i + 1 + span)⟩ }
  link k := ⟨.ofNat (base + 2 * k)⟩

end Supply

end FlowScript
