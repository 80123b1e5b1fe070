/-
# What scheduling and running leave alone

Scheduling writes ranks, running writes slots; neither touches the topology.  Both are rewritings of
nodes under their keys (`Graph.touch`), and what they leave alone is the graph without slots and
ranks (`Graph.bare`).  Every question about neighbours, entries and ports has the same answer on two
graphs with the same bare graph, so later modules argue about one graph while the program rewrites
it step by step.

`Graph.clearValues` is the finer view: it forgets slots and keeps ranks, so it is what one walk
leaves alone.  `Graph.withRanks` is the normal form of whatever scheduling makes of a graph.
-/
import FlowScript.Schedule.Basic

namespace FlowScript

/-! ## 1. Lists -/

section Lists

universe u

/-- A loop leaves alone what every pass through it leaves alone. -/
theorem foldl_eq_of_step {α : Type u} {β γ : Type} (view : α → γ) {f : α → β → α}
    (hf : ∀ a b, view (f a b) = view a) : ∀ (l : List β) (a : α), view (l.foldl f a) = view a
  | [], _ => rfl
  | b :: l, a => by rw [List.foldl_cons, foldl_eq_of_step view hf l, hf]

variable {α β : Type}

theorem map_modifyFirst (p : α → Bool) (f : α → α) (h : α → β) (hf : ∀ a, h (f a) = h a) :
    ∀ l : List α, (Node.modifyFirst p f l).map h = l.map h
  | [] => rfl
  | a :: l => by
    unfold Node.modifyFirst
    split
    · simp [hf a]
    · simp [map_modifyFirst p f h hf l]

theorem map_modify_eq (f : α → α) (h : α → β) (hf : ∀ a, h (f a) = h a) (l : List α) (i : Nat) :
    (l.modify i f).map h = l.map h := by
  apply List.ext_getElem?
  intro j
  simp only [List.getElem?_map, List.getElem?_modify]
  cases l[j]? with
  | none => rfl
  | some a => by_cases hij : i = j <;> simp [hij, hf]

theorem map_insertBy {le : α → α → Bool} {le' : β → β → Bool} (f : α → β)
    (h : ∀ a b, le' (f a) (f b) = le a b) (x : α) :
    ∀ l : List α, insertBy le' (f x) (l.map f) = (insertBy le x l).map f
  | [] => rfl
  | y :: l => by
    simp only [insertBy, List.map_cons, h x y]
    split
    · rfl
    · simp [map_insertBy f h x l]

/-- Sorting does not see what the order does not see. -/
theorem map_sortBy {le : α → α → Bool} {le' : β → β → Bool} (f : α → β)
    (h : ∀ a b, le' (f a) (f b) = le a b) :
    ∀ l : List α, sortBy le' (l.map f) = (sortBy le l).map f
  | [] => rfl
  | x :: l => by
    show insertBy le' (f x) (sortBy le' (l.map f)) = (insertBy le x (sortBy le l)).map f
    rw [map_sortBy f h l, map_insertBy f h x]

end Lists

/-! ## 2. Nodes without slots and ranks -/

/-- A port with an empty slot. -/
def Port.blank (p : Port) : Port := { p with value? := none }

namespace Node

/-- A node with empty slots and without a rank. -/
def bare (n : Node) : Node := { n.clearValues with rank := unscheduled }

theorem clearValues_inputs (n : Node) : n.clearValues.inputs = n.inputs.map Port.blank := rfl

theorem clearValues_outputs (n : Node) : n.clearValues.outputs = n.outputs.map Port.blank := rfl

@[simp] theorem bare_clearValues (n : Node) : n.clearValues.bare = n.bare := by
  simp [bare, clearValues, Function.comp_def]

theorem bare_ports (n : Node) : n.bare.ports = n.ports.map Port.blank := by
  simp [bare, ports, clearValues_inputs, clearValues_outputs]

@[simp] theorem clearValues_modifyPort (n : Node) (id : PortId) (f : Port → Port)
    (hf : ∀ p, (f p).blank = p.blank) : (n.modifyPort id f).clearValues = n.clearValues := by
  unfold modifyPort
  split
  · show ({ n with inputs := _ } : Node).clearValues = _
    have h := map_modifyFirst (fun p : Port => decide (p.id = id)) f Port.blank hf n.inputs
    simp only [clearValues]
    exact congrArg (fun l => { n with inputs := l, outputs := n.outputs.map Port.blank }) h
  · have h := map_modifyFirst (fun p : Port => decide (p.id = id)) f Port.blank hf n.outputs
    simp only [clearValues]
    exact congrArg (fun l => { n with inputs := n.inputs.map Port.blank, outputs := l }) h

/-- Filling a slot is invisible without slots. -/
@[simp] theorem clearValues_setValue (n : Node) (id : PortId) (v : Option Value) :
    (n.setValue id v).clearValues = n.clearValues :=
  clearValues_modifyPort n id _ fun _ => rfl

@[simp] theorem clearValues_setOutput (n : Node) (slot : Nat) (v : Value) :
    (n.setOutput slot v).clearValues = n.clearValues := by
  have h := map_modify_eq (fun p : Port => { p with value? := some v }) Port.blank (fun _ => rfl)
    n.outputs slot
  simp only [setOutput, clearValues]
  exact congrArg (fun l => { n with inputs := n.inputs.map Port.blank, outputs := l }) h

end Node

/-! ## 3. Rewriting nodes under their keys -/

namespace OrderedMap

universe u v w

variable {κ : Type u} {ν : Type v} {μ : Type w}

theorem map_map {ξ : Type w} (m : OrderedMap κ ν) (f : κ → ν → μ) (h : κ → μ → ξ) :
    (m.map f).map h = m.map fun k x => h k (f k x) := by
  apply ext
  simp [map, Function.comp_def]

theorem values_map (m : OrderedMap κ ν) (f : ν → μ) :
    (m.map fun _ x => f x).values = m.values.map f := by
  simp [values, map, Function.comp_def]

variable [DecidableEq κ]

theorem get?_eq_some_iff (m : OrderedMap κ ν) (k : κ) (x : ν) :
    m.get? k = some x ↔ (k, x) ∈ m.entries := by
  obtain ⟨l, hl⟩ := m
  show l.lookup k = some x ↔ (k, x) ∈ l
  induction l with
  | nil => simp
  | cons e l ih =>
    obtain ⟨k', y⟩ := e
    simp only [List.map_cons, List.nodup_cons] at hl
    rw [List.lookup_cons, List.mem_cons]
    by_cases hk : k = k'
    · subst hk
      have hnot : (k, x) ∉ l := fun hmem => hl.1 (List.mem_map.2 ⟨_, hmem, rfl⟩)
      simp [hnot, eq_comm]
    · have hb : (k == k') = false := by simpa using hk
      simp [hb, hk, ih hl.2]

theorem mem_values_iff (m : OrderedMap κ ν) (x : ν) : x ∈ m.values ↔ ∃ k, m.get? k = some x := by
  simp only [values, List.mem_map, get?_eq_some_iff, Prod.exists]
  constructor
  · rintro ⟨k, y, hm, rfl⟩
    exact ⟨k, hm⟩
  · rintro ⟨k, hm⟩
    exact ⟨k, x, hm, rfl⟩

/-- A rewriting only matters on the entries that are there. -/
theorem map_congr {m : OrderedMap κ ν} {f h : κ → ν → μ}
    (hfh : ∀ k x, m.get? k = some x → f k x = h k x) : m.map f = m.map h := by
  apply ext
  refine List.map_congr_left fun e he => ?_
  rw [hfh e.1 e.2 ((get?_eq_some_iff m e.1 e.2).2 he)]

end OrderedMap

namespace Graph

/-- Rewrites every node, knowing its key. -/
def touch (g : Graph) (f : NodeId → Node → Node) : Graph := { g with nodes := g.nodes.map f }

variable (g : Graph)

theorem mapNodes_eq_touch (f : Node → Node) : g.mapNodes f = g.touch fun _ => f := rfl

theorem modifyNode_eq_touch (id : NodeId) (f : Node → Node) :
    g.modifyNode id f = g.touch fun k n => if k = id then f n else n := rfl

@[simp] theorem node?_touch (f : NodeId → Node → Node) (id : NodeId) :
    (g.touch f).node? id = (g.node? id).map (f id) := by
  simp [touch, node?]

theorem touch_touch (f h : NodeId → Node → Node) :
    (g.touch f).touch h = g.touch fun id n => h id (f id n) := by
  simp [touch, OrderedMap.map_map]

theorem touch_congr {f h : NodeId → Node → Node}
    (hfh : ∀ id n, g.node? id = some n → f id n = h id n) : g.touch f = g.touch h := by
  simp only [touch]
  rw [OrderedMap.map_congr hfh]

/-! ## 4. The bare graph -/

/-- The graph with empty slots and without ranks: its topology. -/
def bare : Graph := g.mapNodes Node.bare

@[simp] theorem links_bare : g.bare.links = g.links := rfl

@[simp] theorem node?_bare (id : NodeId) : g.bare.node? id = (g.node? id).map Node.bare :=
  node?_touch g _ id

@[simp] theorem node?_clearValues (id : NodeId) :
    g.clearValues.node? id = (g.node? id).map Node.clearValues :=
  node?_touch g _ id

@[simp] theorem bare_clearValues : g.clearValues.bare = g.bare := by
  simp only [bare, clearValues, mapNodes_eq_touch, touch_touch, Node.bare_clearValues]

/-- Rewriting nothing but slots and ranks is invisible on the bare graph. -/
theorem bare_touch {f : NodeId → Node → Node}
    (hf : ∀ id n, g.node? id = some n → (f id n).bare = n.bare) : (g.touch f).bare = g.bare := by
  simp only [bare, mapNodes_eq_touch, touch_touch]
  exact touch_congr g hf

/-- Rewriting nothing but slots is invisible without slots. -/
theorem clearValues_touch {f : NodeId → Node → Node}
    (hf : ∀ id n, g.node? id = some n → (f id n).clearValues = n.clearValues) :
    (g.touch f).clearValues = g.clearValues := by
  simp only [clearValues, mapNodes_eq_touch, touch_touch]
  exact touch_congr g hf

theorem clearValues_modifyNode {id : NodeId} {f : Node → Node}
    (hf : ∀ n, g.node? id = some n → (f n).clearValues = n.clearValues) :
    (g.modifyNode id f).clearValues = g.clearValues := by
  rw [modifyNode_eq_touch]
  refine clearValues_touch g fun k n hn => ?_
  split
  · next hk => exact hf n (hk ▸ hn)
  · rfl

variable {g} {g' : Graph}

theorem bare_eq_of_clearValues_eq (h : g.clearValues = g'.clearValues) : g.bare = g'.bare := by
  rw [← bare_clearValues g, h, bare_clearValues]

theorem links_eq_of_bare (h : g.bare = g'.bare) : g.links = g'.links := by
  rw [← links_bare, h, links_bare]

theorem node?_isSome_eq_of_bare (h : g.bare = g'.bare) (id : NodeId) :
    (g.node? id).isSome = (g'.node? id).isSome := by
  have hid : (g.bare.node? id).isSome = (g'.bare.node? id).isSome := by rw [h]
  simpa using hid

/-- A node and its counterpart in a graph with the same topology. -/
theorem exists_node?_of_bare (h : g.bare = g'.bare) {id : NodeId} {n : Node}
    (hn : g.node? id = some n) : ∃ n', g'.node? id = some n' ∧ n'.bare = n.bare := by
  have hid : g'.bare.node? id = some n.bare := by rw [← h, node?_bare, hn]; rfl
  rw [node?_bare] at hid
  exact Option.map_eq_some_iff.1 hid

/-! ## 5. Questions that only see the bare graph -/

@[simp] theorem isData_bare (id : NodeId) : g.bare.isData id = g.isData id := by
  simp only [isData, node?_bare]
  cases g.node? id <;> rfl

@[simp] theorem dataInputNodes_bare (id : NodeId) :
    g.bare.dataInputNodes id = g.dataInputNodes id :=
  rfl

@[simp] theorem producers_bare (id : NodeId) : g.bare.producers id = g.producers id := by
  simp only [producers, dataInputNodes_bare]
  exact List.filter_congr fun x _ => isData_bare x

@[simp] theorem size_bare : g.bare.nodes.size = g.nodes.size := OrderedMap.size_map _ _

@[simp] theorem nextNode?_bare (id : NodeId) (slot : Nat) :
    g.bare.nextNode? id slot = g.nextNode? id slot := by
  unfold nextNode?
  rw [node?_bare]
  cases hn : g.node? id with
  | none => rfl
  | some n =>
    have hout : n.bare.outputs[slot]? = (n.outputs[slot]?).map Port.blank := by
      show (n.outputs.map Port.blank)[slot]? = _
      exact List.getElem?_map
    simp only [Option.map_some, Option.bind_some, hout]
    cases n.outputs[slot]? <;> rfl

@[simp] theorem entryNodes_bare (kinds : List EntryKind) :
    g.bare.entryNodes kinds = g.entryNodes kinds := by
  have hvalues : g.bare.nodes.values = g.nodes.values.map Node.bare :=
    OrderedMap.values_map _ _
  simp only [entryNodes, hvalues, List.filter_map, Function.comp_def]
  have hsort := map_sortBy Node.bare (fun a b => (rfl : entryLe a.bare b.bare = entryLe a b))
  rw [hsort, List.map_map]
  rfl

theorem isData_eq_of_bare (h : g.bare = g'.bare) : g.isData = g'.isData := by
  funext id; rw [← isData_bare, h, isData_bare]

theorem producers_eq_of_bare (h : g.bare = g'.bare) : g.producers = g'.producers := by
  funext id; rw [← producers_bare, h, producers_bare]

theorem nextNode?_eq_of_bare (h : g.bare = g'.bare) : g.nextNode? = g'.nextNode? := by
  funext id slot; rw [← nextNode?_bare, h, nextNode?_bare]

theorem entryNodes_eq_of_bare (h : g.bare = g'.bare) : g.entryNodes = g'.entryNodes := by
  funext kinds; rw [← entryNodes_bare, h, entryNodes_bare]

theorem size_eq_of_bare (h : g.bare = g'.bare) : g.nodes.size = g'.nodes.size := by
  rw [← size_bare, h, size_bare]

/-! ## 6. Ranks -/

/-- Whether the last scheduling pass has reached a node. -/
def Ranked (g : Graph) (id : NodeId) : Prop := unscheduled < g.rank id

instance (g : Graph) (id : NodeId) : Decidable (g.Ranked id) :=
  inferInstanceAs (Decidable (unscheduled < g.rank id))

theorem any_isScheduled (g : Graph) (id : NodeId) :
    (g.node? id).any Node.isScheduled = decide (g.Ranked id) := by
  rw [Bool.eq_iff_iff, decide_eq_true_iff, Ranked, rank]
  cases g.node? id with
  | none => exact ⟨fun h => absurd h (by decide), fun h => absurd h (by decide)⟩
  | some n => exact decide_eq_true_iff

theorem Ranked.exists_node? {id : NodeId} (h : g.Ranked id) : ∃ n, g.node? id = some n := by
  unfold Ranked rank at h
  cases hn : g.node? id with
  | none => rw [hn] at h; exact absurd h (by decide)
  | some n => exact ⟨n, rfl⟩

theorem rank_clearValues (g : Graph) (id : NodeId) : g.clearValues.rank id = g.rank id := by
  unfold rank
  rw [node?_clearValues]
  cases g.node? id <;> rfl

theorem rank_eq_of_clearValues (h : g.clearValues = g'.clearValues) : g.rank = g'.rank := by
  funext id; rw [← rank_clearValues, h, rank_clearValues]

theorem ranked_iff_of_clearValues (h : g.clearValues = g'.clearValues) (id : NodeId) :
    g.Ranked id ↔ g'.Ranked id := by
  rw [Ranked, Ranked, rank_eq_of_clearValues h]

/-- The graph with given ranks. -/
def withRanks (g : Graph) (ranks : NodeId → Int) : Graph :=
  g.touch fun id n => { n with rank := ranks id }

@[simp] theorem bare_withRanks (g : Graph) (ranks : NodeId → Int) :
    (g.withRanks ranks).bare = g.bare :=
  bare_touch g fun _ _ _ => rfl

theorem rank_withRanks (g : Graph) (ranks : NodeId → Int) (id : NodeId) :
    (g.withRanks ranks).rank id = if (g.node? id).isSome then ranks id else unscheduled := by
  unfold rank withRanks
  rw [node?_touch]
  cases g.node? id <;> rfl

theorem resetRanks_eq (g : Graph) : g.resetRanks = g.withRanks fun _ => unscheduled := rfl

/-- Writing one rank changes one value of the ranks. -/
theorem setRank_withRanks (g : Graph) (ranks : NodeId → Int) (id : NodeId) (r : Int) :
    (g.withRanks ranks).setRank id r =
      g.withRanks fun k => if k = id then r else ranks k := by
  unfold setRank withRanks
  rw [modifyNode_eq_touch, touch_touch]
  refine touch_congr g fun k n _ => ?_
  by_cases hk : k = id
  · simp only [if_pos hk]
  · simp only [if_neg hk]

/-! ## 7. Scheduling -/

@[simp] theorem bare_setRank (g : Graph) (id : NodeId) (r : Int) :
    (g.setRank id r).bare = g.bare := by
  rw [setRank, modifyNode_eq_touch]
  refine bare_touch g fun k n _ => ?_
  split <;> rfl

section Scheduling

variable {γ : Type} {view : Graph → γ}

theorem view_advance (hview : ∀ g id r, view (setRank g id r) = view g) :
    ∀ (fuel rank : Nat) (g : Graph) (frontier computed : List NodeId),
      view (advance fuel rank g frontier computed).graph = view g
  | 0, _, _, [], _ => rfl
  | 0, _, _, _ :: _, _ => rfl
  | _ + 1, _, _, [], _ => rfl
  | fuel + 1, rank, g, id :: ids, _ => by
    unfold advance
    rw [view_advance hview fuel]
    exact foldl_eq_of_step view (fun g k => hview g k rank) _ g

theorem view_rankGenerations (hview : ∀ g id r, view (setRank g id r) = view g) :
    ∀ (fuel : Nat) (rank : Int) (ids : List NodeId) (s : Graph × OrderedMap NodeId Int),
      view (rankGenerations fuel rank ids s).1 = view s.1
  | 0, _, [], _ => rfl
  | 0, _, _ :: _, _ => rfl
  | _ + 1, _, [], _ => rfl
  | fuel + 1, rank, id :: ids, s => by
    unfold rankGenerations
    rw [view_rankGenerations hview fuel]
    exact foldl_eq_of_step (fun s : Graph × OrderedMap NodeId Int => view s.1)
      (fun s k => hview s.1 k _) _ s

theorem view_placeClass (hview : ∀ g id r, view (setRank g id r) = view g) (s : DataPass)
    (cls : Int × List NodeId) : view (placeClass s cls).graph = view s.graph := by
  unfold placeClass
  simp only
  refine (foldl_eq_of_step (fun s : Graph × OrderedMap NodeId Int => view s.1)
    (fun s id => view_rankGenerations hview _ _ _ s) _ _).trans ?_
  exact foldl_eq_of_step view (fun g k => hview g k _) _ _

/-- **Scheduling writes ranks and nothing else**: it cannot be seen by what does not see ranks. -/
theorem view_schedule (hview : ∀ g id r, view (setRank g id r) = view g)
    (hreset : ∀ g, view (resetRanks g) = view g) (g : Graph) (max : Nat) (kinds : List EntryKind) :
    view (g.schedule max kinds).1 = view g := by
  unfold schedule
  simp only
  split
  · exact hreset g
  · show view (dataPass _ _).graph = view g
    rw [dataPass, foldl_eq_of_step (fun s : DataPass => view s.graph) (view_placeClass hview)]
    exact (view_advance hview _ _ _ _ _).trans (hreset g)

end Scheduling

/-- **Scheduling leaves the topology alone.** -/
theorem bare_schedule (g : Graph) (max : Nat) (kinds : List EntryKind) :
    (g.schedule max kinds).1.bare = g.bare := by
  refine view_schedule bare_setRank (fun g => ?_) g max kinds
  rw [resetRanks_eq, bare_withRanks]

/-- **Scheduling leaves the slots alone.** -/
theorem resetRanks_schedule (g : Graph) (max : Nat) (kinds : List EntryKind) :
    (g.schedule max kinds).1.resetRanks = g.resetRanks := by
  refine view_schedule (fun g id r => ?_) (fun g => ?_) g max kinds
  · simp only [setRank, resetRanks, modifyNode_eq_touch, mapNodes_eq_touch, touch_touch]
    refine touch_congr g fun k n _ => ?_
    split <;> rfl
  · simp only [resetRanks, mapNodes_eq_touch, touch_touch]

/-- The two views of a node that leave out slots and ranks tell everything about it. -/
theorem eq_of_node_views {n m : Node} (hslots : n.clearValues = m.clearValues)
    (hranks : ({ n with rank := unscheduled } : Node) = { m with rank := unscheduled }) :
    n = m := by
  have hrank : n.clearValues.rank = m.clearValues.rank := by rw [hslots]
  calc n = { ({ n with rank := unscheduled } : Node) with rank := n.clearValues.rank } := rfl
    _ = { ({ m with rank := unscheduled } : Node) with rank := m.clearValues.rank } := by
      rw [hranks, hrank]
    _ = m := rfl

/-- Two graphs that agree but for their slots, and agree but for their ranks, are the same. -/
theorem eq_of_clearValues_of_resetRanks {g g' : Graph} (hslots : g.clearValues = g'.clearValues)
    (hranks : g.resetRanks = g'.resetRanks) : g = g' := by
  have hboth : g.clearValues.nodes.entries.zip g.resetRanks.nodes.entries =
      g'.clearValues.nodes.entries.zip g'.resetRanks.nodes.entries := by rw [hslots, hranks]
  simp only [clearValues, resetRanks, mapNodes, OrderedMap.map, List.zip_map'] at hboth
  have hentries : g.nodes.entries = g'.nodes.entries := by
    refine (List.map_inj_right fun a b hab => ?_).1 hboth
    obtain ⟨h₁, h₂⟩ := Prod.mk.inj hab
    exact Prod.ext (Prod.mk.inj h₁).1 (eq_of_node_views (Prod.mk.inj h₁).2 (Prod.mk.inj h₂).2)
  obtain ⟨name, nodes, connections, revision⟩ := g
  obtain ⟨name', nodes', connections', revision'⟩ := g'
  obtain rfl : nodes = nodes' := OrderedMap.ext hentries
  have hrest := hslots
  simp only [clearValues, mapNodes, Graph.mk.injEq] at hrest
  obtain ⟨rfl, -, rfl, rfl⟩ := hrest
  rfl

end Graph

end FlowScript
