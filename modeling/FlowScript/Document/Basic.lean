/-
# Script documents

A document is a graph under a name, with the bounds to run it by and the version of the format it
was written in.  `toText` and `ofText` convert it; `load` and `save` do so for a file, given what
reading or writing that file came to, and tell the journal.  `instantiate` makes it run.
-/
import FlowScript.Document.Form
import FlowScript.Instance

namespace FlowScript

universe u

/-- A saved script. -/
structure Document where
  version : UInt32
  name : String
  settings : Settings
  graph : Graph

/-- The newest version of the format that can be read, and the one that is written. -/
def formatVersion : UInt32 := 1

/-- How the names of script files end. -/
def fileExtension : String := "script.ron"

/-- Why a document cannot be read or written. -/
inductive DocumentError
  /-- The file cannot be read or written, for this reason. -/
  | io (reason : String)
  /-- The text is no document. -/
  | parse
  /-- The document was written by a newer version. -/
  | unsupportedVersion (found : UInt32)
deriving DecidableEq

namespace DocumentError

/-- How the message about a text that is no document starts. -/
def parseMessage : String := "Failed to parse script document:"

def message : DocumentError → String
  | io reason => "I/O error: " ++ reason
  | parse => parseMessage
  | unsupportedVersion found =>
    "Script version " ++ Value.intText found.toNat ++ " is newer than supported version " ++
      Value.intText formatVersion.toNat

end DocumentError

namespace Document

/-- A document around a graph, with its name and the standard bounds. -/
def ofGraph (g : Graph) : Document := ⟨formatVersion, g.name, .standard, g⟩

/-! ## 1. Text -/

def toTree (d : Document) : Tree :=
  .record (some "ScriptDocument")
    [ ("version", .whole d.version.toNat),
      ("name", .text d.name),
      ("settings", d.settings.toTree),
      ("graph", d.graph.toTree) ]

def shape : Shape :=
  .record "ScriptDocument"
    [ ("version", .whole .nat32),
      ("name", .text),
      ("settings", Settings.shape),
      ("graph", Graph.shape) ]

/-- Reads a document of any version. -/
def ofTree? (t : Tree) : Option Document := do
  let fields ← t.asRecord?
  let version ← Tree.required fields "version" Tree.asWhole?
  let name ← Tree.required fields "name" Tree.asText?
  let settings ← Tree.optionalField fields "settings" Settings.ofTree? .standard
  let graph ← Tree.required fields "graph" Graph.ofTree?
  return ⟨UInt32.ofNat version.toNat, name, settings, graph⟩

/-- The text that a document is stored as. -/
def toText (d : Document) : String := d.toTree.toText

/-- Reads the text of a document; one of a newer version is refused. -/
def ofText (text : String) : Except DocumentError Document :=
  match (Tree.read shape text).bind ofTree? with
  | none => .error .parse
  | some d => if formatVersion < d.version then .error (.unsupportedVersion d.version) else .ok d

/-! ## 2. Files -/

/-- The document that a file holds, given what reading the file came to. -/
def load (path : String) (content : Except String String) :
    List Event × Except DocumentError Document :=
  match content with
  | .error reason => ([], .error (.io reason))
  | .ok text =>
    match ofText text with
    | .error e => ([], .error e)
    | .ok d => ([.notice (.loaded d.name path)], .ok d)

/-- What saving tells, given what writing the file came to. -/
def save (d : Document) (path : String) (written : Except String Unit) :
    List Event × Except DocumentError Unit :=
  match written with
  | .error reason => ([], .error (.io reason))
  | .ok () => ([.notice (.saved d.name path)], .ok ())

/-! ## 3. Running -/

/-- Binds the graph of a document against a registry. -/
def instantiate {σ : Type u} (d : Document) (r : Registry σ) :
    List Event × Except BindError (Instance σ) :=
  let (events, p) := Processor.new d.graph r d.settings
  (events, p.map Instance.new)

end Document

end FlowScript
