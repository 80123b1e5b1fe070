/-
# Evaluating one node

During an evaluation a node sees its own slots, the clock, and the control-flow output that will be
followed: the `Context`.  It may write output slots and choose another output; nothing else about
the node can change.  Inputs are read by slot, in the type that the node asks for.
-/
import FlowScript.Node

namespace FlowScript

/-- What one evaluation came to. -/
inductive Status
  /-- The node is done; a walk goes on. -/
  | finished
  /-- The node wants to be evaluated again in the next tick. -/
  | unfinished
deriving DecidableEq, Inhabited

namespace Status

def name : Status → String
  | finished => "Finished"
  | unfinished => "Unfinished"

/-- Finished if both are. -/
def and : Status → Status → Status
  | finished, s => s
  | unfinished, _ => unfinished

end Status

/-- The simulation clock. -/
structure FrameTime where
  /-- Ticks so far: a natural number, since the `2 ^ 64` ticks that would overflow a counter of 64
  bits are out of reach. -/
  frame : Nat
  /-- Seconds of the current tick. -/
  delta : Single
  /-- Seconds since the script started. -/
  elapsed : Single
deriving DecidableEq

namespace FrameTime

def zero : FrameTime := ⟨0, .zero, .zero⟩

instance : Inhabited FrameTime := ⟨zero⟩

/-- Moves the clock on by one tick. -/
def advance (t : FrameTime) (delta : Single) : FrameTime :=
  ⟨t.frame + 1, delta, t.elapsed + delta⟩

end FrameTime

/-- Why an evaluation failed. -/
inductive EvalError
  | nodeNotFound (node : NodeId)
  | unbound (node : NodeId)
  | missingInput (node : NodeId) (port : String)
  | typeMismatch (node : NodeId) (port : String) (expected : PortType)
  | custom (text : String)
deriving DecidableEq

def EvalError.message : EvalError → String
  | nodeNotFound node => "Node not found: " ++ node.label
  | unbound node => "No behavior bound to node " ++ node.label
  | missingInput node port => "Missing required input '" ++ port ++ "' on node " ++ node.label
  | typeMismatch node port expected =>
    "Input '" ++ port ++ "' on node " ++ node.label ++ " is not " ++ expected.name
  | custom text => text

/-- What a node sees while it is evaluated. -/
structure Context where
  node : Node
  time : FrameTime
  /-- The output slot that control flow will follow. -/
  chosen? : Option Nat

namespace Context

/-- The context at the start: the first control-flow output is chosen. -/
def start (node : Node) (time : FrameTime) : Context := ⟨node, time, node.defaultExec?⟩

/-! ## 1. Reading -/

/-- The value of an input slot, else its default. -/
def input? (c : Context) (slot : Nat) : Option Value := c.node.inputs[slot]?.bind Port.current?

/-- What messages call an input slot: its field name, or its number if there is no such slot. -/
def slotName (c : Context) (slot : Nat) : String :=
  (c.node.inputs[slot]?).elim ("#" ++ Value.intText slot) Port.name

/-- An input that must hold a value of a given type. -/
def require {α : Type} (c : Context) (slot : Nat) (expected : PortType)
    (view : Value → Option α) : Except EvalError α :=
  match c.input? slot with
  | none => .error (.missingInput c.node.id (c.slotName slot))
  | some v =>
    match view v with
    | none => .error (.typeMismatch c.node.id (c.slotName slot) expected)
    | some a => .ok a

def float (c : Context) (slot : Nat) : Except EvalError Single :=
  c.require slot .float Value.asFloat?

def int (c : Context) (slot : Nat) : Except EvalError Int32 := c.require slot .int Value.asInt?

def bool (c : Context) (slot : Nat) : Except EvalError Bool := c.require slot .bool Value.asBool?

/-- An input as text; any value can be shown. -/
def text? (c : Context) (slot : Nat) : Option String := (c.input? slot).map Value.toText

def entity? (c : Context) (slot : Nat) : Option UInt64 := (c.input? slot).bind Value.asEntity?

/-! ## 2. Writing -/

/-- Writes an output slot; a slot the node does not have is ignored. -/
def setOutput (c : Context) (slot : Nat) (v : Value) : Context :=
  { c with node := c.node.setOutput slot v }

/-- Chooses the output slot to follow. -/
def follow (c : Context) (slot : Nat) : Context := { c with chosen? := some slot }

end Context

end FlowScript
