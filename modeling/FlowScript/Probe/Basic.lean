/-
# Probe nodes

Probe nodes report every evaluation, so that a test can tell which nodes ran, how often and in
which order.  A probe action adds up its numeric inputs and can be told to stay unfinished for some
ticks, to follow a certain output, or to fail; a probe data node adds a number to its inputs.
-/
import FlowScript.Registry

namespace FlowScript.Probe

/-- What a probe node keeps between evaluations. -/
inductive Behavior
  | entry
  | action (unfinished : Int32) (follow? : Option Nat) (fails : Bool) (pending : Nat)
  | data (value : Single)
deriving DecidableEq, Inhabited

/-! ## 1. Evaluation -/

/-- The sum of the numbers among some inputs. -/
def sumInputs (c : Context) (slots : List Nat) : Single :=
  Single.sum (slots.filterMap fun i => (c.input? i).bind Value.asFloat?)

/-- The output slot of a probe action that carries its sum. -/
def outSlot : Nat := 2

def Behavior.evaluate : Behavior → Context → Effect Behavior
  | .entry, c => { Effect.done Behavior.entry with remarks := [.probed c.node.id] }
  | .action unfinished follow? fails pending, c =>
    if fails then
      { Effect.fail (Behavior.action unfinished follow? fails pending)
          (.custom ("probe " ++ c.node.id.label ++ " failed")) with
        remarks := [.probed c.node.id] }
    else
      let again : Bool := (pending : Int) < unfinished.toInt
      { state := .action unfinished follow? fails (if again then pending + 1 else 0)
        writes := [(outSlot, .float (sumInputs c [1, 2]))]
        follow? := follow?
        remarks := [.probed c.node.id]
        result := .ok (if again then .unfinished else .finished) }
  | .data value, c =>
    { Effect.done (Behavior.data value) with
      writes := [(0, .float (value + sumInputs c [0, 1]))]
      remarks := [.probed c.node.id] }

def Behavior.reset : Behavior → Behavior
  | .action unfinished follow? fails _ => .action unfinished follow? fails 0
  | b => b

instance : Behaves Behavior := ⟨Behavior.evaluate, Behavior.reset⟩

/-! ## 2. Types -/

/-- The entry type of a kind: control flow and a payload. -/
def entryType (kind : EntryKind) : NodeType where
  id := "probe_entry_" ++ kind.name
  name := "On " ++ kind.name
  category := .entry kind
  description := "Probe entry"
  inputs := []
  outputs := [Port.output default "Exec" .exec, Port.output default "Payload" .any]

def actionType : NodeType where
  id := "probe_action"
  name := "Probe Action"
  category := .action
  description := "Probe action"
  inputs := [Port.input default "Exec" .exec, Port.input default "A" .any,
    Port.input default "B" .any]
  outputs := [Port.output default "Exec" .exec, Port.output default "Alt" .exec,
    Port.output default "Out" .any]

def dataType : NodeType where
  id := "probe_data"
  name := "Probe Data"
  category := .data
  description := "Probe data"
  inputs := [Port.input default "A" .any, Port.input default "B" .any]
  outputs := [Port.output default "Out" .any]

/-! ## 3. The registry -/

/-- An action reads how long it stays unfinished, what it follows and whether it fails. -/
def makeAction (n : Node) : Behavior :=
  .action (((n.setting? "unfinished").bind Value.asInt?).getD 0)
    (((n.setting? "follow").bind Value.asInt?).bind fun s =>
      if 0 ≤ s.toInt then some s.toInt.toNat else none)
    (((n.setting? "fail").bind Value.asBool?).getD false) 0

/-- A data node reads the number it adds, one without a setting. -/
def makeData (n : Node) : Behavior :=
  .data (((n.setting? "value").bind Value.asFloat?).getD .one)

/-- All probe types with their behaviors. -/
def registry : Registry Behavior :=
  .ofList ((EntryKind.all.map fun k => (entryType k, fun _ => .entry)) ++
    [(actionType, makeAction), (dataType, makeData)])

end FlowScript.Probe
