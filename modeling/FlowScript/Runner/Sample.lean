/-
# The sample script

A script that prints on start, once per second, and whenever the event `ping` is raised.
-/
import FlowScript.Library.Types
import FlowScript.Instance
import FlowScript.Supply

namespace FlowScript.Runner

/-- Why the sample cannot be built. -/
inductive SampleError
  | unknownNodeType (type : String)
  | connect (e : ConnectError)
deriving DecidableEq

def SampleError.message : SampleError → String
  | unknownNodeType type => "Node type '" ++ type ++ "' is not registered"
  | connect e => "Failed to build sample script: " ++ e.message

namespace Sample

/-- The type and the settings of a node. -/
structure Part where
  type : String
  place : Node → Node

/-- A link between parts by number, with field names. -/
structure Link where
  source : Nat
  output : String
  target : Nat
  input : String

/-- The height of the update row. -/
def updateY : Single := .ofInt 100

/-- The height of the event row. -/
def eventY : Single := .ofInt 200

/-- A log node that prints a text. -/
def logPart (text : String) : Part :=
  ⟨Library.log, (·.withInputDefault "Text" (.string text))⟩

def parts : List Part :=
  [ ⟨Library.onStart, id⟩,
    logPart "Script started",
    ⟨Library.onUpdate, (·.withPosition .zero updateY)⟩,
    ⟨Library.wait, id⟩,
    logPart "One second passed",
    ⟨Library.onEvent, fun n =>
      (n.withPosition .zero eventY).withSetting eventSetting (.string "ping")⟩,
    ⟨Library.format,
      (·.withSetting Library.templateSetting (.string ("ping: " ++ String.ofList Library.mark)))⟩,
    ⟨Library.log, id⟩ ]

def links : List Link :=
  [ ⟨0, "Exec", 1, "Exec"⟩,
    ⟨2, "Exec", 3, "Exec"⟩,
    ⟨3, "Exec", 4, "Exec"⟩,
    ⟨5, "Exec", 7, "Exec"⟩,
    ⟨5, "Payload", 6, "Value"⟩,
    ⟨6, "Text", 7, "Text"⟩ ]

/-- Adds a part. -/
def addPart (s : Supply) (g : Graph) (p : Part × Nat) : Except SampleError Graph :=
  match Library.registry.create? p.1.type (s.node p.2) with
  | none => .error (.unknownNodeType p.1.type)
  | some n => .ok (g.addNode (p.1.place n))

/-- Adds a link. -/
def addLink (s : Supply) (g : Graph) (l : Link × Nat) : Except SampleError Graph :=
  (g.connectByName (s.link l.2) (s.node l.1.source).node l.1.output (s.node l.1.target).node
    l.1.input).mapError .connect

/-- The sample graph. -/
def graph (s : Supply) : Except SampleError Graph := do
  let g ← parts.zipIdx.foldlM (addPart s) (.empty "Sample")
  links.zipIdx.foldlM (addLink s) g

end Sample

end FlowScript.Runner
