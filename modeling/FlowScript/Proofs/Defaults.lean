/-
# What unlinked inputs read

An input reads the value in its slot, and its default while the slot is empty.  Values come into
slots over links, and nothing but a reset takes them out again: when a link is removed, or the node
at its other end, the input keeps the value that came last.  An input without a link therefore reads
its default if no link has ended at it since the last reset (`Request.Unlinked`), and not in
general.

To speak of what nodes read, behaviors are watched: a watched behavior does as it did before and
keeps the contexts of its evaluations (`Watched`).
-/
import FlowScript.Proofs.Survival

namespace FlowScript

universe u

/-! ## 1. Watching behaviors -/

/-- A behavior with the contexts in which it was evaluated since the last reset. -/
structure Watched (σ : Type u) where
  state : σ
  seen : List Context

instance {σ : Type u} [Behaves σ] : Behaves (Watched σ) where
  evaluate w c := (Behaves.evaluate w.state c).mapState fun s => ⟨s, w.seen ++ [c]⟩
  reset w := ⟨Behaves.reset w.state, []⟩

/-- The registry with its behaviors watched. -/
def Registry.watched {σ : Type u} (r : Registry σ) : Registry (Watched σ) := r.mapStates (⟨·, []⟩)

theorem Registry.seen_of_bind {σ : Type u} {r : Registry σ} {n : Node} {w : Watched σ}
    (h : r.watched.bind n = .ok w) : w.seen = [] := by
  unfold bind watched mapStates at h
  simp only [OrderedMap.get?_map] at h
  generalize r.entries.get? n.type = e at h
  cases e with
  | none => cases h
  | some e => cases h; rfl

/-! ## 2. Inputs that stay empty -/

namespace Node

/-- The inputs of a name are empty. -/
def Vacant (port : PortId) (n : Node) : Prop := ∀ i ∈ n.inputs, i.id = port → i.value? = none

theorem Vacant.of_inputs {port : PortId} {n m : Node} (h : n.Vacant port)
    (hm : m.inputs = n.inputs) : m.Vacant port := fun i hi => h i (hm ▸ hi)

/-- A value that comes for another port leaves the inputs empty. -/
theorem Vacant.setValue {port other : PortId} {n : Node} (h : n.Vacant port) (hne : other ≠ port)
    (v : Option Value) : (n.setValue other v).Vacant port := by
  unfold Node.setValue modifyPort
  split
  · intro i hi hid
    rcases mem_modifyFirst hi with hold | ⟨j, -, hj, rfl⟩
    · exact h i hold hid
    · exact absurd ((of_decide_eq_true hj).symm.trans hid) hne
  · exact h

end Node

namespace Graph

/-- No input of the name holds a value. -/
def Vacant (port : PortId) (g : Graph) : Prop := ∀ id n, g.node? id = some n → n.Vacant port

/-- No link ends at a port of the name. -/
def Unlinked (port : PortId) (g : Graph) : Prop := ∀ c ∈ g.links, c.toPort ≠ port

variable {port : PortId} {g : Graph}

theorem Unlinked.of_bare {g' : Graph} (h : g.Unlinked port) (hbare : g'.bare = g.bare) :
    g'.Unlinked port := by
  rw [Unlinked, links_eq_of_bare hbare]
  exact h

theorem Vacant.modifyNode (h : g.Vacant port) {id : NodeId} {f : Node → Node}
    (hf : ∀ n, g.node? id = some n → n.Vacant port → (f n).Vacant port) :
    (g.modifyNode id f).Vacant port :=
  forall_node?_modifyNode h hf

theorem Vacant.deliverAll :
    ∀ {l : List (NodeId × PortId × Value)} {g : Graph}, g.Vacant port → (∀ d ∈ l, d.2.1 ≠ port) →
      (l.foldl (fun g d => g.deliver d.1 d.2.1 d.2.2) g).Vacant port
  | [], _, h, _ => h
  | d :: l, g, h, hl => by
    rw [List.forall_mem_cons] at hl
    have hd : (g.deliver d.1 d.2.1 d.2.2).Vacant port :=
      h.modifyNode fun n _ hn => hn.setValue hl.1 (some d.2.2)
    exact hd.deliverAll hl.2

theorem Vacant.pushOutputs (h : g.Vacant port) (hlinks : g.Unlinked port) (id : NodeId) :
    (g.pushOutputs id).Vacant port := by
  unfold Graph.pushOutputs
  cases g.node? id with
  | none => exact h
  | some n =>
    refine h.deliverAll fun d hd => ?_
    obtain ⟨p, -, -, -, c, hc, -, -, hto⟩ := mem_deliveries_iff.1 hd
    exact hto ▸ hlinks c hc

/-- Ranks are not slots. -/
theorem Vacant.of_resetRanks {g' : Graph} (h : g.Vacant port) (hg : g'.resetRanks = g.resetRanks) :
    g'.Vacant port := by
  intro id n hn
  obtain ⟨m, hm, hmn⟩ := exists_node?_of_resetRanks hg hn
  have hinputs := congrArg Node.inputs hmn
  exact (h id m hm).of_inputs hinputs.symm

theorem vacant_clearValues (port : PortId) (g : Graph) : g.clearValues.Vacant port := by
  intro id n hn i hi _
  rw [node?_clearValues] at hn
  obtain ⟨m, -, rfl⟩ := Option.map_eq_some_iff.1 hn
  obtain ⟨j, -, rfl⟩ := List.mem_map.1 hi
  rfl

end Graph

/-! ## 3. What has been seen -/

/-- Wherever a watched behavior was evaluated, the inputs of the name were empty. -/
def Table.Saw {σ : Type u} (port : PortId) (t : Table (Watched σ)) : Prop :=
  ∀ id w, t.get? id = some w → ∀ c ∈ w.seen, c.node.Vacant port

namespace Processor

variable {σ : Type u} {port : PortId} {r : Registry σ} {p q : Processor (Watched σ)}

/-- The inputs of the name are empty, and were whenever their node was evaluated. -/
structure Untouched (r : Registry σ) (port : PortId) (p : Processor (Watched σ)) : Prop where
  registry : p.registry = r.watched
  synced : p.Synced
  vacant : p.graph.Vacant port
  saw : p.table.Saw port

namespace Untouched

/-- What the registry makes has seen nothing. -/
theorem saw_of_bind {g : Graph} {t t' : Table (Watched σ)} (h : t.Saw port)
    (ht : ∀ id w, t'.get? id = some w →
      t.get? id = some w ∨ ∃ n, g.node? id = some n ∧ r.watched.bind n = .ok w) : t'.Saw port := by
  intro id w hw c hc
  rcases ht id w hw with hold | ⟨n, -, hbind⟩
  · exact h id w hold c hc
  · rw [Registry.seen_of_bind hbind] at hc
    cases hc

theorem new {g : Graph} (hkey : ∀ id n, g.node? id = some n → n.id = id) (hvacant : g.Vacant port)
    {settings : Settings} {told : List Event}
    (h : Processor.new g r.watched settings = (told, .ok p)) : Untouched r port p := by
  have hsynced := Synced.new_of_nodeKey hkey h
  obtain ⟨-, rfl⟩ := new_eq_ok h
  exact ⟨rfl, hsynced, hvacant, saw_of_bind (t := .empty) nofun fun id w =>
    Table.get?_sync_eq_some hkey⟩

theorem ensureReady (h : Untouched r port p) : Untouched r port p.ensureReady.state := by
  refine ⟨p.registry_ensureReady.trans h.registry, h.synced.ensureReady.1,
    h.vacant.of_resetRanks p.resetRanks_ensureReady,
    saw_of_bind (g := p.graph) (r := r) h.saw fun id w hw => ?_⟩
  exact h.registry ▸ get?_ensureReady_eq_some h.synced.nodeKey hw

variable [Behaves σ]

/-- An evaluation sees what is there, and a push fills what is linked. -/
theorem survives (port : PortId) (time : FrameTime) :
    Scene.Survives (fun s : Scene (Watched σ) =>
      s.graph.Unlinked port ∧ s.graph.Vacant port ∧ s.table.Saw port) time where
  evaluate := by
    rintro s role id ⟨hlinks, hvacant, hsaw⟩
    have hbare := Graph.bare_eq_of_clearValues_eq (Scene.clearValues_evaluate time role s id)
    refine ⟨hlinks.of_bare hbare, ?_, fun k w hw c hc => ?_⟩
    · unfold Scene.evaluate
      split
      · exact hvacant
      · exact hvacant
      · next b n _ hn =>
        refine hvacant.modifyNode fun m hm hm' => ?_
        obtain rfl : n = m := Option.some.inj (hn.symm.trans hm)
        exact hm'.of_inputs (Context.apply_inputs (Context.start n time) _)
    · rcases Scene.get?_evaluate_cases hw with hold | ⟨w₀, n, hw₀, hn, rfl⟩
      · exact hsaw k w hold c hc
      · rcases List.mem_append.1 hc with hc | hc
        · exact hsaw k w₀ hw₀ c hc
        · rw [List.mem_singleton.1 hc]
          exact hvacant k n hn
  push := by
    rintro s id ⟨hlinks, hvacant, hsaw⟩
    have hbare := Graph.bare_eq_of_clearValues_eq (Scene.clearValues_push s id)
    exact ⟨hlinks.of_bare hbare, hvacant.pushOutputs hlinks id, hsaw⟩
  memory _ _ h := h

theorem lasting (r : Registry σ) (port : PortId) :
    Lasting (fun p => p.graph.Unlinked port ∧ Untouched r port p) fun _ => True where
  walked p c := by
    rintro ⟨hlinks, h⟩
    obtain ⟨hlinks', hvacant, hsaw⟩ :=
      walkCursor_survives (survives port p.time) c ⟨hlinks, h.vacant, h.saw⟩
    exact ⟨hlinks', h.registry, h.synced.still (p.walkCursor_walked c).still, hvacant, hsaw⟩
  failed _ _ _ _ _ := trivial
  placed _ _ _ h :=
    ⟨h.1, h.2.registry, h.2.synced.still ⟨rfl, rfl, rfl, rfl, rfl, rfl⟩, h.2.vacant, h.2.saw⟩
  readied p h := ⟨h.1.of_bare (ensureReady_prepared p).1.bare, h.2.ensureReady⟩

theorem perform (h : Untouched r port p) (hlinks : p.graph.Unlinked port) (c : Call) :
    Untouched r port (c.perform p).state := by
  refine (((lasting r port).perform (fun p delta h => ?_) (fun p node slot v h => ?_) c
    ⟨hlinks, h⟩).1).2
  · exact ⟨h.1, h.2.registry, h.2.synced.still ⟨rfl, rfl, rfl, rfl, rfl, rfl⟩, h.2.vacant, h.2.saw⟩
  · exact ⟨h.1.of_bare (perform_undisturbed p (.setOutput node slot v)).bare, h.2.registry,
      (h.2.synced.perform (.setOutput node slot v)).1,
      h.2.vacant.modifyNode fun _ _ hn => hn.of_inputs rfl, h.2.saw⟩

/-- **A reset empties every input**, and forgets what was seen. -/
theorem of_reset (hregistry : p.registry = r.watched) (hsynced : p.Synced) :
    Untouched r port p.reset.1 := by
  refine ⟨hregistry, hsynced.still p.reset_still, Graph.vacant_clearValues port p.graph,
    fun id w hw c hc => ?_⟩
  have hget : (p.table.get? id).map Behaves.reset = some w :=
    (OrderedMap.get?_map _ _ _).symm.trans hw
  obtain ⟨w₀, -, rfl⟩ := Option.map_eq_some_iff.1 hget
  cases hc

end Untouched

end Processor

/-! ## 4. Requests -/

namespace Request

variable {σ : Type u} [Behaves σ] {r : Registry σ} {port : PortId} {p : Processor (Watched σ)}

/-- The inputs of a node that is added are empty. -/
def Clean : Request → Prop
  | edit (.addNode n) => ∀ i ∈ n.inputs, i.value? = none
  | _ => True

/-- Since the last reset among the requests, no link has ended at a port of the
name when a request came. -/
def Unlinked {σ : Type u} [Behaves σ] (port : PortId) (p : Processor σ) : List Request → Prop
  | [] => True
  | q :: requests =>
    (p.graph.Unlinked port ∨ .reset ∈ q :: requests) ∧ Unlinked port (q.serve p) requests

/-- Only the requests after a reset count. -/
theorem unlinked_of_reset {σ : Type u} [Behaves σ] {after : List Request} :
    ∀ (before : List Request) {p : Processor σ},
      Unlinked port (serveAll p (before ++ [.reset])) after →
      Unlinked port p (before ++ .reset :: after)
  | [], _, h => ⟨.inr List.mem_cons_self, h⟩
  | q :: before, _, h =>
    ⟨.inr (List.mem_append_right (q :: before) List.mem_cons_self), unlinked_of_reset before h⟩

theorem serve_untouched (h : p.Untouched r port) (q : Request) (hq : q.Clean)
    (hlinks : p.graph.Unlinked port ∨ q = .reset) : (q.serve p).Untouched r port := by
  cases q with
  | call c => exact h.perform (hlinks.resolve_right nofun) c
  | edit e =>
    refine ⟨h.registry, h.synced.edit e, fun id n hn => ?_, h.saw⟩
    rcases Edit.run_cases p.graph e with hsame | ⟨-, hnodes⟩
    · exact h.vacant id n (hsame ▸ hn)
    · rcases hnodes id n hn with hold | ⟨rfl, -⟩
      · exact h.vacant id n hold
      · exact fun i hi _ => hq i hi
  | reset => exact .of_reset h.registry h.synced
  | setKinds kinds => exact ⟨h.registry, h.synced.setKinds kinds, h.vacant, h.saw⟩
  | reschedule =>
    exact ⟨h.registry, h.synced.reschedule.1,
      h.vacant.of_resetRanks (Graph.resetRanks_schedule _ _ _), h.saw⟩
  | ensureReady => exact h.ensureReady

theorem serveAll_untouched :
    ∀ (requests : List Request) {p : Processor (Watched σ)}, p.registry = r.watched → p.Synced →
      (p.Untouched r port ∨ .reset ∈ requests) → (∀ q ∈ requests, q.Clean) →
      Unlinked port p requests → (serveAll p requests).Untouched r port
  | [], _, _, _, h, _, _ => h.resolve_right List.not_mem_nil
  | q :: requests, p, hregistry, hsynced, h, hclean, hlinks => by
    rw [List.forall_mem_cons] at hclean
    refine serveAll_untouched requests ((q.registry_serve p).trans hregistry)
      (serve_synced hsynced q) ?_ hclean.2 hlinks.2
    by_cases hlater : .reset ∈ requests
    · exact .inr hlater
    · by_cases hreset : q = .reset
      · exact .inl (hreset ▸ .of_reset hregistry hsynced)
      · -- no reset is to come, so what holds now has to be kept
        have hnone : .reset ∉ q :: requests := by
          rintro (_ | ⟨_, hmem⟩)
          · exact hreset rfl
          · exact hlater hmem
        exact .inl (serve_untouched (h.resolve_right hnone) q hclean.1
          (.inl (hlinks.1.resolve_right hnone)))

end Request

/-! ## 5. The law -/

/-- **An input reads its default if no link has ended at it since the last reset.**  Take any
processor that was made for a graph with empty inputs whose nodes stand under their own names, and
any list of requests: edits that add nodes with empty inputs only, calls, resets, changes of the
kinds, scheduling, failing ones included.  Whenever a behavior was evaluated, each of its inputs at
which no link ended at any time since the last reset read its default. -/
theorem unlinked_inputs_read_defaults {σ : Type u} [Behaves σ] (g : Graph)
    (named : ∀ id n, g.node? id = some n → n.id = id)
    (vacant : ∀ id n, g.node? id = some n → ∀ i ∈ n.inputs, i.value? = none) (r : Registry σ)
    (settings : Settings) (told : List Event) (p : Processor (Watched σ))
    (fresh : Processor.new g r.watched settings = (told, .ok p)) (requests : List Request)
    (clean : ∀ q ∈ requests, q.Clean) :
    ∀ id w, (Request.serveAll p requests).table.get? id = some w → ∀ c ∈ w.seen,
      ∀ slot i, c.node.inputs[slot]? = some i → Request.Unlinked i.id p requests →
        c.input? slot = i.default? := by
  intro id w hw c hc slot i hslot hlinks
  have hstart : p.Untouched r i.id := .new named (fun id n hn j hj _ => vacant id n hn j hj) fresh
  have hend :=
    Request.serveAll_untouched requests hstart.registry hstart.synced (.inl hstart) clean hlinks
  have hnone : i.value? = none := hend.saw id w hw c hc i (List.mem_of_getElem? hslot) rfl
  rw [Context.input?, hslot, Option.bind_some, Port.current?, hnone, Option.none_or]

/-- The example with its behaviors watched. -/
def watchedProcessor : Processor (Watched Library.Behavior) :=
  { Processor.unbound exampleGraph Library.registry.watched .standard with
    table := (Table.sync .empty Library.registry.watched exampleGraph).1 }

theorem watchedProcessor_new :
    ∃ events, Processor.new exampleGraph Library.registry.watched .standard =
      (events, .ok watchedProcessor) :=
  Processor.exists_new_eq .standard (by decide +kernel)

/-- The name of the text input of the printing node. -/
def textPort : PortId := ((Supply.counting 1).node 4).input 1

/-- What the printing node has read as its text at each evaluation. -/
def textsRead (p : Processor (Watched Library.Behavior)) : List (Option Value) :=
  (p.table.get? (exampleId 4)).elim [] fun w => w.seen.map (·.input? 1)

/-- The example is run once, without its waiting node, and then loses the link
that brings the text. -/
def textRequests : List Request :=
  [ .edit (.disconnect ((Supply.counting 1).link 1)),
    .call (.run .update),
    .edit (.disconnect ((Supply.counting 1).link 6)) ]

/-- After a reset the text input reads its default. -/
theorem reset_brings_default_back :
    let q := Request.serveAll watchedProcessor (textRequests ++ [.reset, .call (.run .update)])
    ∃ w c i, q.table.get? (exampleId 4) = some w ∧ w.seen = [c] ∧ c.node.inputs[1]? = some i ∧
      i.id = textPort ∧ c.input? 1 = i.default? := by
  obtain ⟨told, fresh⟩ := watchedProcessor_new
  have hvacant : ∀ n ∈ exampleGraph.nodes.values, ∀ i ∈ n.inputs, i.value? = none := by
    decide +kernel
  have hclean : ∀ q ∈ textRequests ++ [.reset, .call (.run .update)], q.Clean := by
    simp only [textRequests, List.cons_append, List.nil_append, List.forall_mem_cons]
    exact ⟨trivial, trivial, trivial, trivial, trivial, List.forall_mem_nil _⟩
  have hfree : ∀ c ∈ (Request.serveAll watchedProcessor (textRequests ++ [.reset])).graph.links,
      c.toPort ≠ textPort := by decide +kernel
  have hunlinked : Request.Unlinked textPort watchedProcessor
      (textRequests ++ [.reset, .call (.run .update)]) :=
    Request.unlinked_of_reset textRequests ⟨.inl hfree, trivial⟩
  have hseen : ((Request.serveAll watchedProcessor
      (textRequests ++ [.reset, .call (.run .update)])).table.get? (exampleId 4)).map
        (fun w => w.seen.map fun c => (c.node.inputs[1]?).map Port.id) = some [some textPort] := by
    decide +kernel
  have hlaw := unlinked_inputs_read_defaults exampleGraph exampleGraph_built.intact.nodeKey
    (fun id n hn => hvacant n ((OrderedMap.mem_values_iff _ _).2 ⟨id, hn⟩)) Library.registry
      .standard told watchedProcessor fresh _ hclean (exampleId 4)
  -- nothing else about the processor is needed
  generalize Request.serveAll watchedProcessor _ = q at hseen hlaw ⊢
  obtain ⟨w, hw, hseen⟩ := Option.map_eq_some_iff.1 hseen
  obtain ⟨c, hc, hport⟩ := List.map_eq_singleton_iff.1 hseen
  obtain ⟨i, hi, hid⟩ := Option.map_eq_some_iff.1 hport
  exact ⟨w, c, i, hw, hc, hi, hid,
    hlaw w hw c (hc ▸ List.mem_singleton_self c) 1 i hi (hid ▸ hunlinked)⟩

/-- **An input without a link can read what a link has left there.**  The text input of the example
has no default.  Once the link that has brought a text is removed, no link ends at the input; but it
still reads the text in the next run. -/
theorem unlinked_input_reads_leftover :
    let q := Request.serveAll watchedProcessor textRequests
    (∀ c ∈ q.graph.links, c.toPort ≠ textPort) ∧
    (q.graph.port? (exampleId 4) textPort).map Port.default? = some none ∧
    textsRead q = [some (.string "0")] ∧
    textsRead (Request.serve q (.call (.run .update))) =
      [some (.string "0"), some (.string "0")] := by
  decide +kernel

end FlowScript
