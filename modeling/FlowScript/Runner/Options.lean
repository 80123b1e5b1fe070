/-
# Command-line options

The command line names one document and may set the number of ticks, the length of a tick, events to
raise, and that a sample is to be written instead.  The value of an option stands behind it, or is
attached to it with or without `=`; after `--` every argument is a document.

An attached value is checked at once; a value that stands alone is checked when the next option or
document starts, or at the end.  An argument that cannot be placed is reported before that check.

Messages are made for a terminal and printed without what a terminal would act on.
-/
import FlowScript.Runner.Event
import FlowScript.Text.Terminal

namespace FlowScript.Runner

/-- What the command line asks for. -/
structure Options where
  document : String
  ticks : UInt64
  delta : Single
  events : List ScheduledEvent
  writeSample : Bool

/-- The number of ticks unless it is set. -/
def defaultTicks : UInt64 := 60

/-- The seconds of a tick unless they are set. -/
def defaultDelta : Single := .ofDecimal false 16 (-3)

/-- An option that takes a value. -/
inductive Setting
  | ticks
  | delta
  | event
deriving DecidableEq

namespace Setting

def long : Setting → String
  | ticks => "ticks"
  | delta => "delta"
  | event => "event"

def short : Setting → Char
  | ticks => 't'
  | delta => 'd'
  | event => 'e'

def all : List Setting := [ticks, delta, event]

/-- How messages show an option. -/
def label : Setting → String
  | ticks => "--ticks <TICKS>"
  | delta => "--delta <DELTA>"
  | event => "--event <EVENTS>"

end Setting

/-- An option that takes no value. -/
inductive Switch
  | sample
  | help
  | version
deriving DecidableEq

namespace Switch

def long : Switch → String
  | sample => "write-sample"
  | help => "help"
  | version => "version"

def all : List Switch := [sample, help, version]

/-- How messages show an option. -/
def label (s : Switch) : String := "--" ++ s.long

end Switch

/-- Why a command line is refused. -/
inductive UsageError
  | unexpectedArgument (argument : String)
  | invalidValue (value : String) (setting : Setting) (reason : String)
  /-- A value is missing, or the document is the empty path. -/
  | missingValue (label : String)
  | repeated (label : String)
  | unexpectedValue (value label : String)
  | missingDocument
deriving DecidableEq

namespace UsageError

/-- Sets a text off for a terminal. -/
def marked (s : String) : String := "\x1b[1m" ++ s ++ "\x1b[0m"

/-- The cause, as a terminal shows it. -/
def cause : UsageError → String
  | unexpectedArgument a => "unexpected argument '" ++ marked a ++ "' found"
  | invalidValue v s reason =>
    "invalid value '" ++ marked v ++ "' for '" ++ marked s.label ++ "': " ++ reason
  | missingValue label =>
    "a value is required for '" ++ marked label ++ "' but none was supplied"
  | repeated label => "the argument '" ++ marked label ++ "' cannot be used multiple times"
  | unexpectedValue v label =>
    "unexpected value '" ++ marked v ++ "' for '" ++ marked label ++
      "' found; no more were expected"
  | missingDocument =>
    "the following required arguments were not provided:\n  " ++ marked "<DOCUMENT>"

/-- The cause and where to find help, as plain text.  What the user wrote may hold control sequences
of its own, so the text is stripped as a whole. -/
def message (e : UsageError) : String :=
  Text.stripControls
    (marked "error:" ++ " " ++ e.cause ++ "\n\nFor more information, try '" ++ marked "--help" ++
      "'.")

end UsageError

/-- What a command line comes to. -/
inductive Parsed
  | run (o : Options)
  | help
  | version

/-! ## 1. The state of reading -/

/-- What still has to be checked. -/
inductive Pending
  | nothing
  | document (path : String)
  | setting (s : Setting) (v : Option String)

/-- What has been read so far. -/
structure Draft where
  document? : Option String
  ticks? : Option UInt64
  delta? : Option Single
  events : List ScheduledEvent
  writeSample : Bool
  pending : Pending

namespace Draft

def start : Draft := ⟨none, none, none, [], false, .nothing⟩

/-- Stores a checked number of ticks. -/
def setTicks (d : Draft) (v : String) : Except UsageError Draft :=
  if d.ticks?.isSome then .error (.repeated Setting.ticks.label)
  else
    match parseNumber v.toList with
    | .ok n => .ok { d with ticks? := some n }
    | .error e => .error (.invalidValue v .ticks e.message)

/-- Stores a checked length of a tick. -/
def setDelta (d : Draft) (v : String) : Except UsageError Draft :=
  if d.delta?.isSome then .error (.repeated Setting.delta.label)
  else
    match Single.ofText? v.toList with
    | some x => .ok { d with delta? := some x }
    | none =>
      .error (.invalidValue v .delta
        (if v = "" then "cannot parse float from empty string" else "invalid float literal"))

/-- Stores a checked event. -/
def addEvent (d : Draft) (v : String) : Except UsageError Draft :=
  match parseEvent v with
  | .ok e => .ok { d with events := d.events ++ [e] }
  | .error e => .error (.invalidValue v .event e.message)

/-- Checks and stores a value. -/
def store (d : Draft) : Setting → String → Except UsageError Draft
  | .ticks, v => d.setTicks v
  | .delta, v => d.setDelta v
  | .event, v => d.addEvent v

/-- Checks what is pending. -/
def resolve (d : Draft) : Except UsageError Draft :=
  let settled := { d with pending := .nothing }
  match d.pending with
  | .nothing => .ok settled
  | .document path => if path = "" then .error (.missingValue "<DOCUMENT>") else .ok settled
  | .setting s none => .error (.missingValue s.label)
  | .setting s (some v) => settled.store s v

/-- An option that takes a value, with the value that is attached to it. -/
def takeSetting (d : Draft) (s : Setting) (attached : Option String) : Except UsageError Draft := do
  let d ← d.resolve
  match attached with
  | some v => d.store s v
  | none => .ok { d with pending := .setting s none }

/-- An argument that is no option: the value that is waited for, else the document. -/
def takePlain (d : Draft) (afterDashes : Bool) (argument : String) : Except UsageError Draft := do
  match afterDashes, d.pending with
  | false, .setting s none => .ok { d with pending := .setting s (some argument) }
  | _, _ =>
    if d.document?.isSome then .error (.unexpectedArgument argument)
    else
      let d ← d.resolve
      .ok { d with document? := some argument, pending := .document argument }

/-- The option that asks for a sample. -/
def takeSample (d : Draft) : Except UsageError Draft := do
  let d ← d.resolve
  if d.writeSample then .error (.repeated Switch.sample.label)
  else .ok { d with writeSample := true }

/-- The options at the end of the command line. -/
def finish (d : Draft) : Except UsageError Options := do
  let d ← d.resolve
  match d.document? with
  | none => .error .missingDocument
  | some path =>
    .ok ⟨path, d.ticks?.getD defaultTicks, d.delta?.getD defaultDelta, d.events, d.writeSample⟩

end Draft

/-! ## 2. Arguments -/

/-- What one argument does. -/
inductive Argument
  /-- Everything after it is a document. -/
  | dashes
  | setting (s : Setting) (attached : Option String)
  | switch (s : Switch) (attached : Option String)
  /-- An option that does not exist, as it is reported. -/
  | unknown (name : String)
  | plain

/-- An option in its long form, after the dashes. -/
def longArgument (cs : List Char) : Argument :=
  let (name, attached) := match splitOnce '=' cs with
    | some (name, v) => (String.ofList name, some (String.ofList v))
    | none => (String.ofList cs, none)
  match Setting.all.find? (·.long = name), Switch.all.find? (·.long = name) with
  | some s, _ => .setting s attached
  | none, some s => .switch s attached
  | none, none => .unknown ("--" ++ name)

/-- The value attached to an option in its short form. -/
def attachedTo : List Char → Option String
  | [] => none
  | c :: cs => some (String.ofList (if c = '=' then cs else c :: cs))

/-- What an argument does. -/
def Argument.of (argument : String) : Argument :=
  match argument.toList with
  | ['-', '-'] => .dashes
  | '-' :: '-' :: cs => longArgument cs
  | '-' :: c :: cs =>
    if c = 'h' then .switch .help none
    else if c = 'V' then .switch .version none
    else
      match Setting.all.find? (·.short = c) with
      | some s => .setting s (attachedTo cs)
      | none => .unknown (String.ofList ['-', c])
  | _ => .plain

/-- Reads the arguments one after the other. -/
def parseFrom (d : Draft) (afterDashes : Bool) : List String → Except UsageError Parsed
  | [] => d.finish.map .run
  | a :: rest =>
    match if afterDashes then Argument.plain else Argument.of a with
    | .dashes => parseFrom d true rest
    | .setting s attached => do parseFrom (← d.takeSetting s attached) afterDashes rest
    | .switch s (some v) => .error (.unexpectedValue v s.label)
    | .switch .sample none => do parseFrom (← d.takeSample) afterDashes rest
    | .switch .help none => d.resolve.map fun _ => .help
    | .switch .version none => d.resolve.map fun _ => .version
    | .unknown name => .error (.unexpectedArgument name)
    | .plain => do parseFrom (← d.takePlain afterDashes a) afterDashes rest

/-- Reads a command line. -/
def parse (arguments : List String) : Except UsageError Parsed :=
  parseFrom .start false arguments

end FlowScript.Runner
