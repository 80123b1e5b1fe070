/-
# Processors

A processor owns a graph with the behaviors bound to it, and remembers where its walks stopped.
Each entry node of a kind has a cursor; `run` continues every walk of a kind and returns a cursor
whose walk has completed to its entry.  `runFrom` starts walks at given nodes; those that do not
complete wait in the list of paused walks for `runPaused`.

Derived state is brought up to date before every run (`ensureReady`): behaviors are bound and
paused walks on lost nodes dropped if the graph changed since the last binding, ranks are assigned
if it changed since the last scheduling.  A failed binding leaves everything else as it was.

A failed walk keeps its place: `run` and `runPaused` keep the cursor at the node that failed and
leave later walks untouched; a walk that `runFrom` had taken from the paused list is given up.
-/
import FlowScript.Walk

namespace FlowScript

universe u

/-! ## 1. State -/

/-- Where a walk is. -/
structure Cursor where
  entry : NodeId
  /-- The node to evaluate next. -/
  current : NodeId
deriving DecidableEq

/-- A walk that has not left its entry. -/
def Cursor.start (entry : NodeId) : Cursor := ⟨entry, entry⟩

/-- A walk that was started at a given node and has not completed. -/
structure PausedWalk where
  kind : EntryKind
  cursor : Cursor
deriving DecidableEq

/-- Whether a paused walk is the one of a kind that started at a node. -/
def PausedWalk.isAt (kind : EntryKind) (seed : NodeId) (w : PausedWalk) : Bool :=
  w.kind = kind && w.cursor.entry = seed

/-- A graph that is being run. -/
structure Processor (σ : Type u) where
  graph : Graph
  registry : Registry σ
  table : Table σ
  settings : Settings
  /-- The kinds of entries that scheduling starts from. -/
  kinds : List EntryKind
  /-- The cursors of each kind that has run. -/
  walks : OrderedMap EntryKind (List Cursor)
  paused : List PausedWalk
  /-- The revision that was scheduled last, unless the kinds have changed since. -/
  scheduledAt : Option Nat
  /-- The revision that was bound last. -/
  boundAt : Nat
  report : Report
  time : FrameTime

/-- Why a run failed. -/
inductive RunError
  | bind (e : BindError)
  | eval (e : EvalError)
deriving DecidableEq

def RunError.message : RunError → String
  | bind e => e.message
  | eval e => e.message

/-- A changed state, the events on the way, and an answer or a failure. -/
structure Reply (S : Type u) (ε : Type) (α : Type) where
  state : S
  events : List Event
  result : Except ε α

namespace Processor

variable {σ : Type u}

/-- Binds a graph against a registry. -/
def new (g : Graph) (r : Registry σ) (settings : Settings) :
    List Event × Except BindError (Processor σ) :=
  let (table, events, result) := Table.sync (.empty : Table σ) r g
  match result with
  | .error e => (events, .error e)
  | .ok () =>
    (events ++ [.notice (.boundAll table.size g.name)],
      .ok
        { graph := g
          registry := r
          table := table
          settings := settings
          kinds := EntryKind.all
          walks := .empty
          paused := []
          scheduledAt := none
          boundAt := g.revision
          report := .none
          time := .zero })

/-! ## 2. Keeping derived state up to date -/

/-- Restricts scheduling to entries of some kinds. -/
def setKinds (p : Processor σ) (kinds : List EntryKind) : Processor σ :=
  { p with kinds := kinds, scheduledAt := none }

/-- Ranks the graph anew. -/
def reschedule (p : Processor σ) : Processor σ × List Event :=
  let (g, report) := p.graph.schedule p.settings.maxFrontiers.toNat p.kinds
  ({ p with graph := g, report := report, scheduledAt := some g.revision },
    (report.notices g.name).map .notice)

/-- Binds again if the graph has changed since the last binding. -/
def rebind (p : Processor σ) : Reply (Processor σ) BindError Unit :=
  if p.boundAt = p.graph.revision then ⟨p, [], .ok ()⟩
  else
    let (table, events, result) := p.table.sync p.registry p.graph
    match result with
    | .error e => ⟨{ p with table := table }, events, .error e⟩
    | .ok () =>
      ⟨{ p with
         table := table
         boundAt := p.graph.revision
         paused := p.paused.filter fun w => (p.graph.node? w.cursor.current).isSome },
        events, .ok ()⟩

/-- Binds and ranks whatever has changed. -/
def ensureReady (p : Processor σ) : Reply (Processor σ) BindError Unit :=
  let bound := p.rebind
  match bound.result with
  | .error e => ⟨bound.state, bound.events, .error e⟩
  | .ok () =>
    if bound.state.scheduledAt = some bound.state.graph.revision then bound
    else
      let (q, events) := bound.state.reschedule
      ⟨q, bound.events ++ events, .ok ()⟩

/-- The node that the walk from an entry will evaluate next. -/
def current? (p : Processor σ) (kind : EntryKind) (entry : NodeId) : Option NodeId :=
  ((p.walks.get? kind).bind (·.find? (·.entry = entry))).map (·.current)

/-- Moves the clock on by one tick. -/
def advance (p : Processor σ) (delta : Single) : Processor σ :=
  { p with time := p.time.advance delta }

/-- Whether a node has an output slot. -/
def hasOutput (p : Processor σ) (id : NodeId) (slot : Nat) : Bool :=
  (p.graph.node? id).any fun n => decide (slot < n.outputs.length)

/-- Writes an output slot of a node, for instance the payload of an entry. -/
def setOutput (p : Processor σ) (id : NodeId) (slot : Nat) (v : Value) : Processor σ :=
  { p with graph := p.graph.modifyNode id (·.setOutput slot v) }

/-- The cursors of the present entries of a kind; a walk keeps its place while its node exists. -/
def cursors (p : Processor σ) (kind : EntryKind) : List Cursor :=
  let previous := (p.walks.get? kind).getD []
  (p.graph.entryNodes [kind]).map fun entry =>
    (previous.find? fun c => c.entry = entry && (p.graph.node? c.current).isSome).getD
      (Cursor.start entry)

variable [Behaves σ]

/-! ## 3. Walking -/

/-- Gives up every walk: behaviors start anew, slots are emptied, cursors return to their entry. -/
def reset (p : Processor σ) : Processor σ × List Event :=
  ({ p with
     table := p.table.reset
     graph := p.graph.clearValues
     walks := p.walks.map fun _ cs => cs.map fun c => Cursor.start c.entry
     paused := [] },
    [.notice (.reset p.graph.name)])

/-- Walks on from a cursor: the processor and the cursor afterwards. -/
def walkCursor (p : Processor σ) (c : Cursor) :
    Processor σ × Cursor × List Event × Except EvalError WalkOutcome :=
  let e := Scene.walk p.settings p.time ⟨p.graph, p.table, []⟩ c.current
  let told := match e.result with
    | .ok o => [.notice (.walkEnded c.entry o.status e.current)]
    | .error _ => []
  ({ p with graph := e.scene.graph, table := e.scene.table }, { c with current := e.current },
    e.events ++ told, e.result)

/-- Continues the walks of a list of cursors, up to the first failure. -/
def walkAll (p : Processor σ) :
    List Cursor → Processor σ × List Cursor × List Event × Except EvalError Status
  | [] => (p, [], [], .ok .finished)
  | c :: cs =>
    match p.walkCursor c with
    | (q, c', events, .error e) => (q, c' :: cs, events, .error e)
    | (q, c', events, .ok o) =>
      let c' := if o = .completed then Cursor.start c.entry else c'
      let (q, cs', events', result) := walkAll q cs
      (q, c' :: cs', events ++ events', result.map o.status.and)

/-- Continues every walk of a kind. -/
def run (p : Processor σ) (kind : EntryKind) : Reply (Processor σ) RunError Status :=
  let ready := p.ensureReady
  match ready.result with
  | .error e => ⟨ready.state, ready.events, .error (.bind e)⟩
  | .ok () =>
    let q := ready.state
    let (q', cs, events, result) := q.walkAll (q.cursors kind)
    ⟨{ q' with walks := (q'.walks.erase kind).insert kind cs }, ready.events ++ events,
      result.mapError .eval⟩

/-- Walks from one node after the other; a paused walk of a node is resumed. -/
def walkSeeds (p : Processor σ) (kind : EntryKind) :
    List NodeId → Reply (Processor σ) EvalError Status
  | [] => ⟨p, [], .ok .finished⟩
  | seed :: seeds =>
    if (p.graph.node? seed).isSome then
      let c := ((p.paused.find? (PausedWalk.isAt kind seed)).map (·.cursor)).getD
        (Cursor.start seed)
      match walkCursor { p with paused := p.paused.eraseP (PausedWalk.isAt kind seed) } c with
      | (q, _, events, .error e) => ⟨q, events, .error e⟩
      | (q, c', events, .ok o) =>
        let q := if o = .completed then q else { q with paused := q.paused ++ [⟨kind, c'⟩] }
        let rest := walkSeeds q kind seeds
        ⟨rest.state, events ++ rest.events, rest.result.map o.status.and⟩
    else
      let rest := walkSeeds p kind seeds
      ⟨rest.state, .notice (.unknownSeed seed p.graph.name) :: rest.events, rest.result⟩

/-- Walks from given nodes instead of the entries of a kind. -/
def runFrom (p : Processor σ) (seeds : List NodeId) (kind : EntryKind) :
    Reply (Processor σ) RunError Status :=
  let ready := p.ensureReady
  match ready.result with
  | .error e => ⟨ready.state, ready.events, .error (.bind e)⟩
  | .ok () =>
    let r := ready.state.walkSeeds kind seeds
    ⟨r.state, ready.events ++ r.events, r.result.mapError .eval⟩

/-- Resumes the walks of a list, up to the first failure: the walks to keep, and the status. -/
def resumeAll (p : Processor σ) :
    List PausedWalk → Processor σ × List PausedWalk × List Event × Except EvalError Status
  | [] => (p, [], [], .ok .finished)
  | w :: ws =>
    match p.walkCursor w.cursor with
    | (q, c, events, .error e) => (q, { w with cursor := c } :: ws, events, .error e)
    | (q, c, events, .ok o) =>
      let (q, kept, events', result) := resumeAll q ws
      (q, if o = .completed then kept else { w with cursor := c } :: kept, events ++ events',
        result.map o.status.and)

/-- Resumes every paused walk once. -/
def runPaused (p : Processor σ) : Reply (Processor σ) RunError Status :=
  let ready := p.ensureReady
  match ready.result with
  | .error e => ⟨ready.state, ready.events, .error (.bind e)⟩
  | .ok () =>
    let (q, kept, events, result) := resumeAll { ready.state with paused := [] } ready.state.paused
    ⟨{ q with paused := kept }, ready.events ++ events, result.mapError .eval⟩

end Processor

end FlowScript
