/-
# Script instances

An instance is what a host object owns: a processor and an index of the entries that listen to
named events and zones.  The host starts it once, updates it every tick and hands over everything
else as messages.  Payloads are written into the payload slots of the listening entries before
their walks run.

The index is built from the node settings and kept until the topology changes.  Its lists are in
the order in which entries run.
-/
import FlowScript.Library.Behavior
import FlowScript.Processor

namespace FlowScript

universe u

/-! ## 1. Messages -/

/-- Phase of an object's presence in a zone. -/
inductive Activation
  | enter
  | stay
  | exit
deriving DecidableEq

namespace Activation

def name : Activation → String
  | enter => "Enter"
  | stay => "Stay"
  | exit => "Exit"

/-- The phase that a node setting names. -/
def ofName? (s : String) : Option Activation := [enter, stay, exit].find? (·.name = s)

end Activation

/-- A signal from the host. -/
inductive Message
  | triggerEntered (other : UInt64)
  | triggerExited (other : UInt64)
  | collisionEntered (other : UInt64)
  | event (name : String) (payload : Option Value)
  | zone (zone : String) (activation : Activation) (other : UInt64)

/-! ## 2. Listeners -/

/-- The setting that holds the name of the event a node listens to. -/
def eventSetting : String := "event"

/-- The setting that holds the name of the zone a node listens to. -/
def zoneSetting : String := "zone"

/-- The setting that holds the phase a zone node listens to. -/
def activationSetting : String := "activation"

/-- An entry that listens to a zone, in one phase or in all. -/
structure ZoneListener where
  node : NodeId
  zone : String
  activation? : Option Activation

/-- Entries by what they listen to. -/
structure Listeners where
  /-- The revision that was indexed; `none` before the first index. -/
  revision? : Option Nat
  events : OrderedMap String (List NodeId)
  zones : List ZoneListener
  collision : Bool

def Listeners.none : Listeners := ⟨Option.none, .empty, [], false⟩

instance : Inhabited Listeners := ⟨.none⟩

namespace Node

/-- The text of a setting. -/
def textSetting? (n : Node) (key : String) : Option String :=
  (n.setting? key).bind Value.asString?

/-- The event that a node listens to. -/
def eventName? (n : Node) : Option String := n.textSetting? eventSetting

/-- The zone that a node listens to, with its phase. -/
def zoneListener? (n : Node) : Option ZoneListener :=
  (n.textSetting? zoneSetting).map fun zone =>
    ⟨n.id, zone, (n.textSetting? activationSetting).bind Activation.ofName?⟩

end Node

namespace Graph

/-- The nodes that are entries of a kind, in insertion order. -/
def nodesOfKind (g : Graph) (kind : EntryKind) : List Node :=
  g.nodes.values.filter (·.category = .entry kind)

/-- Where an entry stands among the event and zone entries. -/
def listenerLe (order : List NodeId) (a b : NodeId) : Bool := order.idxOf a ≤ order.idxOf b

/-- Adds a node to the listeners of an event. -/
def addListener (m : OrderedMap String (List NodeId)) (e : String × NodeId) :
    OrderedMap String (List NodeId) :=
  m.insert e.1 ((m.get? e.1).getD [] ++ [e.2])

/-- Indexes the entries of a graph. -/
def listeners (g : Graph) : Listeners :=
  let order := g.entryNodes [.event, .zoneEvent]
  let named := (g.nodesOfKind .event).filterMap fun n => n.eventName?.map (·, n.id)
  { revision? := some g.revision
    events := (named.foldl addListener .empty).map fun _ ids => sortBy (listenerLe order) ids
    zones := sortBy (fun a b => listenerLe order a.node b.node)
      ((g.nodesOfKind .zoneEvent).filterMap Node.zoneListener?)
    collision := !(g.nodesOfKind .collision).isEmpty }

/-- What a log tells about indexing: event and zone entries without a name, then the totals. -/
def listenerNotices (g : Graph) (l : Listeners) : List Notice :=
  (g.nodes.values.filterMap fun n =>
    if n.category = .entry .event ∧ n.eventName?.isNone then some (.unnamedEvent n.id)
    else if n.category = .entry .zoneEvent ∧ n.zoneListener?.isNone then some (.unnamedZone n.id)
    else none) ++
    [.indexed l.events.values.flatten.length l.zones.length]

end Graph

namespace Listeners

/-- The entries that listen to an event. -/
def forEvent (l : Listeners) (name : String) : List NodeId := (l.events.get? name).getD []

/-- The entries that listen to a zone in a phase. -/
def forZone (l : Listeners) (zone : String) (activation : Activation) : List NodeId :=
  (l.zones.filter fun z => z.zone = zone && z.activation?.all (· = activation)).map (·.node)

end Listeners

/-! ## 3. Instances -/

/-- A running script. -/
structure Instance (σ : Type u) where
  processor : Processor σ
  listeners : Listeners

namespace Instance

variable {σ : Type u}

def new (p : Processor σ) : Instance σ := ⟨p, .none⟩

/-- Indexes the listeners again if the topology has changed. -/
def refresh (i : Instance σ) : Instance σ × List Event :=
  let g := i.processor.graph
  if i.listeners.revision? = some g.revision then (i, [])
  else ({ i with listeners := g.listeners }, (g.listenerNotices g.listeners).map .notice)

/-- Whether any entry listens to collisions. -/
def hasCollision (i : Instance σ) : Bool × Instance σ × List Event :=
  let (i, events) := i.refresh
  (i.listeners.collision, i, events)

/-- The events with at least one listener. -/
def eventNames (i : Instance σ) : List String × Instance σ × List Event :=
  let (i, events) := i.refresh
  (i.listeners.events.keys, i, events)

/-- Writes a value into the payload slot of some entries. -/
def writePayload (i : Instance σ) (ids : List NodeId) (v : Value) : Instance σ :=
  { i with processor :=
      ids.foldl (fun p id => p.setOutput id Library.payloadSlot v) i.processor }

/-- An instance after an operation of its processor. -/
def after {α : Type} (i : Instance σ) (events : List Event)
    (r : Reply (Processor σ) RunError α) : Reply (Instance σ) RunError α :=
  ⟨{ i with processor := r.state }, events ++ r.events, r.result⟩

variable [Behaves σ]

/-- Gives up all walks, brings the processor up to date and indexes the listeners. -/
def init (i : Instance σ) : Reply (Instance σ) RunError Unit :=
  let (p, events) := i.processor.reset
  let ready := p.ensureReady
  match ready.result with
  | .error e => ⟨{ i with processor := ready.state }, events ++ ready.events, .error (.bind e)⟩
  | .ok () =>
    let p := ready.state
    let diagnostics := p.report.diagnostics.length
    let warned := if 0 < diagnostics then [.notice (.diagnosticCount p.graph.name diagnostics)]
      else []
    let (i, indexed) := refresh (Instance.new p)
    ⟨i, events ++ ready.events ++ warned ++ indexed ++
      [.notice (.initialized p.graph.name p.graph.nodes.size)], .ok ()⟩

/-- Runs the start entries. -/
def runStart (i : Instance σ) : Reply (Instance σ) RunError Status :=
  i.after [] (i.processor.run .start)

/-- Moves the clock on, resumes paused walks, then runs the update entries. -/
def runUpdate (i : Instance σ) (delta : Single) : Reply (Instance σ) RunError Status :=
  let resumed := (i.processor.advance delta).runPaused
  match resumed.result with
  | .error e => ⟨{ i with processor := resumed.state }, resumed.events, .error e⟩
  | .ok s =>
    let r := resumed.state.run .update
    i.after resumed.events ⟨r.state, r.events, r.result.map s.and⟩

/-- Writes a payload for all entries of a kind and runs them. -/
def runWithPayload (i : Instance σ) (events : List Event) (kind : EntryKind) (v : Value) :
    Reply (Instance σ) RunError Status :=
  let i := i.writePayload (i.processor.graph.entryNodes [kind]) v
  i.after events (i.processor.run kind)

/-- Routes a message to the entries that listen to it. -/
def deliver (i : Instance σ) (m : Message) : Reply (Instance σ) RunError Status :=
  let (i, events) := i.refresh
  match m with
  | .triggerEntered other => i.runWithPayload events .triggerEntered (.entity other)
  | .triggerExited other => i.runWithPayload events .triggerExited (.entity other)
  | .collisionEntered other =>
    if i.listeners.collision then i.runWithPayload events .collision (.entity other)
    else ⟨i, events, .ok .finished⟩
  | .event name payload =>
    let seeds := i.listeners.forEvent name
    if seeds.isEmpty then ⟨i, events ++ [.notice (.noListener name)], .ok .finished⟩
    else
      let i := payload.elim i (i.writePayload seeds)
      i.after events (i.processor.runFrom seeds .event)
  | .zone zone activation other =>
    let seeds := i.listeners.forZone zone activation
    if seeds.isEmpty then ⟨i, events, .ok .finished⟩
    else
      let i := i.writePayload seeds (.entity other)
      i.after events (i.processor.runFrom seeds .zoneEvent)

end Instance

end FlowScript
