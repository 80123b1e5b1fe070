/-
# Bounds and memoization

What a document may say about how its graph is scheduled and run.
-/

namespace FlowScript

/-- How long a data node that was evaluated counts as fresh. -/
inductive Memoization
  /-- For the resolution of one control node. -/
  | perNode
  /-- For a whole walk. -/
  | perWalk
deriving DecidableEq, Inhabited

namespace Memoization

def name : Memoization → String
  | perNode => "PerNode"
  | perWalk => "PerWalk"

def all : List Memoization := [perNode, perWalk]

def ofName? (s : String) : Option Memoization := all.find? (·.name = s)

end Memoization

/-- Bounds of scheduling and of walks. -/
structure Settings where
  /-- How many frontiers the control pass may go beyond the entries. -/
  maxFrontiers : UInt64
  /-- How many control nodes one walk may evaluate in a tick. -/
  maxWalkSteps : UInt64
  memoization : Memoization
deriving DecidableEq

/-- The bound on frontiers unless a document or caller sets one. -/
def defaultMaxFrontiers : Nat := 5000

/-- The bound on walk steps unless a document or caller sets one. -/
def defaultMaxWalkSteps : Nat := 10000

def Settings.standard : Settings where
  maxFrontiers := UInt64.ofNat defaultMaxFrontiers
  maxWalkSteps := UInt64.ofNat defaultMaxWalkSteps
  memoization := .perNode

instance : Inhabited Settings := ⟨Settings.standard⟩

end FlowScript
