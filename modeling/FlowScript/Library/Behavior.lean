/-
# The behaviors of the standard nodes

Entries forward what the host wrote into their payload slot; the update entry writes the length of
the tick there itself.  `log` prints once per tick, `branch` chooses between two paths, `wait`
holds the walk until enough simulated time has passed.  The data nodes compute their single output
from their inputs and settings and keep no progress.
-/
import FlowScript.Behavior

namespace FlowScript.Library

/-- The output slot of an entry that carries its payload. -/
def payloadSlot : Nat := 1

/-- The setting that holds a constant's value. -/
def valueSetting : String := "value"

/-- The setting that holds a text template. -/
def templateSetting : String := "template"

/-- What a standard node keeps between evaluations. -/
inductive Behavior
  /-- Forwards a payload, or writes the length of the tick. -/
  | entry (writesDelta : Bool)
  /-- Prints until it has printed often enough. -/
  | log (printed : Nat)
  | branch
  /-- Holds the walk; remembers the time it has waited. -/
  | wait (waited : Single)
  | constant (v : Value)
  | add
  | greater
  /-- Puts its input into a template. -/
  | format (template : String)
deriving DecidableEq, Inhabited

/-! ## 1. Templates -/

/-- The mark in a template that stands for the value: an opening and a closing brace. -/
def mark : List Char := ['\x7b', '\x7d']

/-- Replaces the first mark of a template. -/
def fillChars (value : List Char) : List Char → List Char
  | [] => []
  | c :: cs =>
    if mark.isPrefixOf (c :: cs) then value ++ cs.drop 1 else c :: fillChars value cs

/-- Puts a text in place of the first mark of a template. -/
def fill (template value : String) : String :=
  String.ofList (fillChars value.toList template.toList)

/-! ## 2. Evaluation -/

/-- Writes a value into the only output of a data node. -/
def emit (b : Behavior) (v : Value) : Effect Behavior := { Effect.done b with writes := [(0, v)] }

/-- Computes the output of a data node from two numbers. -/
def combine (b : Behavior) (c : Context) (f : Single → Single → Value) : Effect Behavior :=
  match c.float 0 with
  | .error e => .fail b e
  | .ok x =>
    match c.float 1 with
    | .error e => .fail b e
    | .ok y => emit b (f x y)

/-- Prints, and goes on until it has printed as often as the third input says, at least once. -/
def print (printed : Nat) (c : Context) : Effect Behavior :=
  match c.int 2 with
  | .error e => .fail (.log printed) e
  | .ok amount =>
    let again : Bool := ((printed + 1 : Nat) : Int) < max amount.toInt 1
    { Effect.done (Behavior.log (if again then printed + 1 else 0)) with
      remarks := [.printed c.node.name ((c.text? 1).getD "")]
      result := .ok (if again then .unfinished else .finished) }

/-- Follows the first output if the condition holds, else the second. -/
def choose (c : Context) : Effect Behavior :=
  match c.bool 1 with
  | .error e => .fail .branch e
  | .ok condition =>
    { Effect.done Behavior.branch with follow? := some (if condition then 0 else 1) }

/-- Adds the tick to the time waited, and goes on while that is less than the second input. -/
def hold (waited : Single) (c : Context) : Effect Behavior :=
  match c.float 1 with
  | .error e => .fail (.wait waited) e
  | .ok seconds =>
    let total := waited + c.time.delta
    if total.lt seconds then
      { Effect.done (Behavior.wait total) with result := .ok .unfinished }
    else .done (.wait .zero)

def Behavior.evaluate : Behavior → Context → Effect Behavior
  | .entry true, c =>
    { Effect.done (Behavior.entry true) with writes := [(payloadSlot, .float c.time.delta)] }
  | .entry false, _ => .done (.entry false)
  | .log printed, c => print printed c
  | .branch, c => choose c
  | .wait waited, c => hold waited c
  | .constant v, _ => emit (.constant v) v
  | .add, c => combine .add c fun x y => .float (x + y)
  | .greater, c => combine .greater c fun x y => .bool (y.lt x)
  | .format template, c =>
    emit (.format template) (.string (fill template ((c.text? 0).getD "")))

def Behavior.reset : Behavior → Behavior
  | .log _ => .log 0
  | .wait _ => .wait .zero
  | b => b

instance : Behaves Behavior := ⟨Behavior.evaluate, Behavior.reset⟩

end FlowScript.Library
