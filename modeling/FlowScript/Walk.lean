/-
# Walks

A walk evaluates control nodes from a given node along the outputs they choose, within one tick.
Before a control node is evaluated, the data nodes that feed it are pulled, deepest first; after
any evaluation the outputs are copied along their links.

A walk ends in one of four ways: it runs out of control links or meets a node without a rank
(`completed`), a node is unfinished (`paused`), the bound on steps is reached (`suspended`), or an
evaluation fails.  The node it stopped at is part of the answer in each case.

Pulling visits every data node at most once, because the visited ones are remembered.  The depth of
the pull is therefore bounded by the number of nodes, which is the fuel that `Scene.resolve` passes.
-/
import FlowScript.Registry
import FlowScript.Settings

namespace FlowScript

universe u

/-- What a walk reads and changes. -/
structure Scene (σ : Type u) where
  graph : Graph
  table : Table σ
  /-- The data nodes that count as fresh. -/
  resolved : List NodeId

/-- How a walk ended for this tick. -/
inductive WalkOutcome
  | completed
  | paused
  | suspended
deriving DecidableEq

def WalkOutcome.status : WalkOutcome → Status
  | completed => .finished
  | _ => .unfinished

/-- A changed scene, the events on the way, and an answer or a failure. -/
structure Step (σ : Type u) (α : Type) where
  scene : Scene σ
  events : List Event
  result : Except EvalError α

/-- The end of a walk. -/
structure WalkEnd (σ : Type u) where
  scene : Scene σ
  /-- The node that the walk stopped at. -/
  current : NodeId
  events : List Event
  result : Except EvalError WalkOutcome

namespace Scene

variable {σ : Type u} [Behaves σ]

/-! ## 1. One evaluation -/

/-- Evaluates a node: status and chosen output. -/
def evaluate (time : FrameTime) (role : Role) (s : Scene σ) (id : NodeId) :
    Step σ (Status × Option Nat) :=
  match s.table.get? id, s.graph.node? id with
  | none, _ => ⟨s, [], .error (.unbound id)⟩
  | some _, none => ⟨s, [], .error (.nodeNotFound id)⟩
  | some b, some n =>
    let start := Context.start n time
    let effect := Behaves.evaluate b start
    let after := start.apply effect
    let outcome := effect.result.map (·, after.chosen?)
    { scene :=
        { s with
          graph := s.graph.modifyNode id fun _ => after.node
          table := s.table.modify id fun _ => effect.state }
      events := effect.remarks.map Remark.event ++ [.evaluated role id outcome]
      result := outcome }

/-- Copies the outputs of a node along their links. -/
def push (s : Scene σ) (id : NodeId) : Scene σ := { s with graph := s.graph.pushOutputs id }

/-! ## 2. Pulling data -/

/-- Pulls the data nodes of a list one after the other, using `deeper` for what feeds them. -/
def pullWith (time : FrameTime) (deeper : Scene σ → NodeId → Step σ Unit) :
    List NodeId → Scene σ → Step σ Unit
  | [], s => ⟨s, [], .ok ()⟩
  | id :: ids, s =>
    if s.resolved.contains id then pullWith time deeper ids s
    else
      let s := { s with resolved := s.resolved ++ [id] }
      if (s.graph.node? id).any Node.isScheduled then
        let below := deeper s id
        match below.result with
        | .error e => ⟨below.scene, below.events, .error e⟩
        | .ok () =>
          let own := below.scene.evaluate time .data id
          match own.result with
          | .error e => ⟨own.scene, below.events ++ own.events, .error e⟩
          | .ok _ =>
            let rest := pullWith time deeper ids (own.scene.push id)
            ⟨rest.scene, below.events ++ own.events ++ rest.events, rest.result⟩
      else
        let rest := pullWith time deeper ids s
        ⟨rest.scene, .notice (.unrankedData id s.graph.name) :: rest.events, rest.result⟩

/-- Pulls what feeds a node, up to a depth. -/
def resolveWithin (time : FrameTime) : (fuel : Nat) → Scene σ → NodeId → Step σ Unit
  | 0, s, _ => ⟨s, [], .ok ()⟩
  | fuel + 1, s, id => pullWith time (resolveWithin time fuel) (s.graph.producers id) s

/-- Pulls every data node that feeds a node, deepest first. -/
def resolve (time : FrameTime) (s : Scene σ) (id : NodeId) : Step σ Unit :=
  resolveWithin time s.graph.nodes.size s id

/-! ## 3. One walk -/

/-- Pulls the data of a control node, evaluates it and copies its outputs. -/
def step (memo : Memoization) (time : FrameTime) (s : Scene σ) (id : NodeId) :
    Step σ (Status × Option Nat) :=
  let s := if memo = .perNode then { s with resolved := [] } else s
  let below := s.resolve time id
  match below.result with
  | .error e => ⟨below.scene, below.events, .error e⟩
  | .ok () =>
    let own := below.scene.evaluate time .control id
    match own.result with
    | .error e => ⟨own.scene, below.events ++ own.events, .error e⟩
    | .ok r => ⟨own.scene.push id, below.events ++ own.events, .ok r⟩

/-- Walks from a node.  `budget` is what is left of the bound on steps, `bound` the bound. -/
def walkWithin (memo : Memoization) (time : FrameTime) (bound : Nat) :
    (budget : Nat) → Scene σ → NodeId → WalkEnd σ
  | 0, s, id =>
    if (s.graph.node? id).any Node.isScheduled then
      ⟨s, id, [.notice (.suspended s.graph.name bound id)], .ok .suspended⟩
    else ⟨s, id, [.notice (.unrankedNode id s.graph.name)], .ok .completed⟩
  | budget + 1, s, id =>
    if (s.graph.node? id).any Node.isScheduled then
      let here := s.step memo time id
      match here.result with
      | .error e => ⟨here.scene, id, here.events, .error e⟩
      | .ok (.unfinished, _) => ⟨here.scene, id, here.events, .ok .paused⟩
      | .ok (.finished, chosen?) =>
        match chosen?.bind (here.scene.graph.nextNode? id) with
        | none => ⟨here.scene, id, here.events, .ok .completed⟩
        | some next =>
          let rest := walkWithin memo time bound budget here.scene next
          { rest with events := here.events ++ rest.events }
    else ⟨s, id, [.notice (.unrankedNode id s.graph.name)], .ok .completed⟩

/-- Walks from a node, at most as far as the settings allow in one tick. -/
def walk (settings : Settings) (time : FrameTime) (s : Scene σ) (id : NodeId) : WalkEnd σ :=
  walkWithin settings.memoization time settings.maxWalkSteps.toNat settings.maxWalkSteps.toNat
    s id

end Scene

end FlowScript
