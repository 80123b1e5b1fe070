/-
# Node types and bound behaviors

A registry knows node types, each with a way to make the behavior of one node from the node's
settings.  A table holds the behaviors bound to the nodes of a graph.  `Table.sync` brings a table
up to date: behaviors of nodes that are gone are dropped, nodes without a behavior get one, and
the behaviors of nodes that stay keep their progress.  If a node's type is not registered, the
nodes bound before it stay bound.
-/
import FlowScript.Behavior

namespace FlowScript

universe u v

/-- A node type with its behavior. -/
structure Registered (σ : Type u) where
  type : NodeType
  /-- The behavior of one node, made from its settings. -/
  make : Node → σ

/-- Node types by identifier, in registration order. -/
structure Registry (σ : Type u) where
  entries : OrderedMap String (Registered σ)

/-- Why a graph cannot be bound. -/
inductive BindError
  | unknownNodeType (node : NodeId) (type : String)
deriving DecidableEq

def BindError.message : BindError → String
  | unknownNodeType node type => "Unknown node type '" ++ type ++ "' on node " ++ node.label

namespace Registry

variable {σ : Type u} {τ : Type v}

def empty : Registry σ := ⟨.empty⟩

/-- Registers a type; one of the same identifier is replaced in its place. -/
def register (r : Registry σ) (type : NodeType) (make : Node → σ) : Registry σ :=
  ⟨r.entries.insert type.id ⟨type, make⟩⟩

/-- Registers a list of types one after the other. -/
def ofList (l : List (NodeType × (Node → σ))) : Registry σ :=
  l.foldl (fun r e => r.register e.1 e.2) empty

def get? (r : Registry σ) (id : String) : Option NodeType := (r.entries.get? id).map (·.type)

def types (r : Registry σ) : List NodeType := r.entries.values.map (·.type)

def typesIn (r : Registry σ) (category : Category) : List NodeType :=
  r.types.filter (·.category = category)

/-- A new node of a registered type. -/
def create? (r : Registry σ) (id : String) (ids : NodeIds) : Option Node :=
  (r.get? id).map (·.instantiate ids)

/-- The behavior of a node. -/
def bind (r : Registry σ) (n : Node) : Except BindError σ :=
  match r.entries.get? n.type with
  | some e => .ok (e.make n)
  | none => .error (.unknownNodeType n.id n.type)

/-- The same types with their behaviors seen in another type. -/
def mapStates (f : σ → τ) (r : Registry σ) : Registry τ :=
  ⟨r.entries.map fun _ e => ⟨e.type, fun n => f (e.make n)⟩⟩

end Registry

/-- Behaviors by node. -/
abbrev Table (σ : Type u) := OrderedMap NodeId σ

namespace Table

variable {σ : Type u}

/-- Binds the nodes of a list that have no behavior yet, up to the first of unknown type. -/
def bindMissing (r : Registry σ) :
    List Node → Table σ → Table σ × List Event × Except BindError Unit
  | [], t => (t, [], .ok ())
  | n :: ns, t =>
    if t.contains n.id then bindMissing r ns t
    else
      match r.bind n with
      | .error e => (t, [], .error e)
      | .ok b =>
        let (t, events, result) := bindMissing r ns (OrderedMap.insert t n.id b)
        (t, .notice (.bound n.type n.id) :: events, result)

/-- Drops the behaviors of nodes that are gone and binds the nodes that have none. -/
def sync (t : Table σ) (r : Registry σ) (g : Graph) :
    Table σ × List Event × Except BindError Unit :=
  bindMissing r g.nodes.values (OrderedMap.filter (fun id _ => (g.node? id).isSome) t)

/-- Takes back the progress of every behavior. -/
def reset [Behaves σ] (t : Table σ) : Table σ := OrderedMap.map (fun _ b => Behaves.reset b) t

end Table

end FlowScript
