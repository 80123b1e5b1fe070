/-
# How long data counts as fresh makes no difference

A walk may remember the data nodes it has evaluated for one control node or for the whole walk.  If
data depends on data only, the two cannot be told apart but by their journals: they end in the same
way at the same node, with the same states and the same value in every slot.

What the longer memory leaves out is a visit of a finished node, and such a visit would change
nothing (`Scene.Steady`): the node would compute the value that its output and the far ends of its
links hold already.  A finished node stays steady while the walk goes on (`Finished.visit`).  A
visit of another node reaches it only through a data link, and no such link is left: by then all the
data nodes that feed it are finished themselves, and nothing else may feed it.

The two walks are then run side by side (`Matched`).  They share graph and table, and the shorter
memory knows less; where it makes up for that by a visit, the other walk stands still.
-/
import FlowScript.Proofs.Climbing
import FlowScript.Proofs.Slots

namespace FlowScript

universe u

variable {σ : Type u}

/-! ## 1. Data that depends on data only -/

namespace Graph

/-- No data node is fed by anything but data nodes. -/
def DataFedByData (g : Graph) : Prop :=
  ∀ c ∈ g.links, c.exec = false → g.isData c.toNode = true → g.isData c.fromNode = true

instance (g : Graph) : Decidable g.DataFedByData :=
  inferInstanceAs (Decidable (∀ c ∈ g.links, _))

/-- Graphs of standard data nodes that depend on each other only, and not in a circle. -/
structure PureData (g : Graph) : Prop where
  intact : g.Intact
  standard : g.StandardData
  acyclic : g.Acyclic
  fed : g.DataFedByData

variable {g : Graph}

theorem PureData.not_mem_producers_self (h : g.PureData) (x : NodeId) : x ∉ g.producers x :=
  fun hx => h.acyclic x (.single hx)

/-- The links of a data node carry data. -/
theorem PureData.exec_eq_false (h : g.PureData) {c : Connection} (hc : c ∈ g.links)
    (hdata : g.isData c.fromNode = true) : c.exec = false := by
  refine Bool.eq_false_iff.2 fun hexec => ?_
  rw [(h.standard.flowApart h.intact c hc hexec).1] at hdata
  cases hdata

/-- A standard data node has one output, which carries data, whatever the slots hold. -/
theorem StandardData.exists_output (h : g.StandardData) {g' : Graph}
    (hshape : g'.clearValues = g.clearValues) {x : NodeId} (hdata : g.isData x = true) {n : Node}
    (hn : g'.node? x = some n) : ∃ p, n.outputs = [p] ∧ p.isExec = false := by
  obtain ⟨m, hm, hcat⟩ := exists_of_isData hdata
  obtain ⟨q, hout, hexec⟩ := (h.of_node? hm hcat).exists_output
  have hclear : n.clearValues = m.clearValues := by
    have hx : g'.clearValues.node? x = g.clearValues.node? x := by rw [hshape]
    simpa [hn, hm] using hx
  obtain ⟨p, hout', -, hflag⟩ := Node.exists_output_of_clearValues hclear hout
  exact ⟨p, hout', hflag.trans hexec⟩

/-- A walk never goes on to a data node. -/
theorem PureData.isData_of_nextNode? (h : g.PureData) {a b : NodeId} {slot : Nat}
    (hab : g.nextNode? a slot = some b) : g.isData a = false ∧ g.isData b = false := by
  obtain ⟨c, hc, hexec, rfl, rfl⟩ :=
    mem_nextNodes_iff.1 (h.intact.mem_nextNodes_of_nextNode? hab)
  exact h.standard.flowApart h.intact c hc hexec

end Graph

/-- The states of data nodes do what some standard data behavior does, and stay as they are. -/
def Table.StandardStates [Behaves σ] (t : Table σ) (g : Graph) : Prop :=
  ∀ id state, g.isData id = true → t.get? id = some state → ∃ b, b.IsData ∧ ActsAs state b

theorem Table.Standard.states [Behaves σ] {t : Table σ} {g : Graph} (h : t.Standard g)
    (hg : g.StandardData) : t.StandardStates g := by
  intro id state hdata hstate
  obtain ⟨n, hn, hcat⟩ := Graph.exists_of_isData hdata
  obtain ⟨state', b, hstate', hbind, hacts⟩ := h id n hn hcat
  obtain ⟨b', hbind', hb⟩ := (hg.of_node? hn hcat).exists_bind
  obtain rfl : b = b' := Except.ok.inj (hbind.symm.trans hbind')
  obtain rfl : state = state' := Option.some.inj (hstate.symm.trans hstate')
  exact ⟨b, hb, hacts⟩

/-- Writing what an output holds changes nothing. -/
theorem Node.setOutput_of_held {n : Node} {v : Value} (h : ∀ p ∈ n.outputs, p.value? = some v)
    (slot : Nat) : n.setOutput slot v = n := by
  have hsame : n.outputs.modify slot (fun p => { p with value? := some v }) = n.outputs := by
    refine List.ext_getElem? fun i => ?_
    rw [List.getElem?_modify]
    cases hp : n.outputs[i]? with
    | none => rfl
    | some p =>
      have hv := h p (List.mem_of_getElem? hp)
      split <;> simp [← hv]
  unfold setOutput
  rw [hsame]

/-! ## 2. Visits -/

namespace Scene

variable [Behaves σ]

/-- Evaluates a node and copies its outputs. -/
def visit (time : FrameTime) (role : Role) (s : Scene σ) (x : NodeId) : Scene σ :=
  (s.evaluate time role x).scene.push x

variable (time : FrameTime) (role : Role) (s : Scene σ)

theorem clearValues_visit (x : NodeId) :
    (s.visit time role x).graph.clearValues = s.graph.clearValues := by
  rw [visit, clearValues_push, clearValues_evaluate]

theorem resolved_visit (x : NodeId) : (s.visit time role x).resolved = s.resolved :=
  resolved_evaluate time role s x

theorem get?_visit_of_ne {x k : NodeId} (h : k ≠ x) :
    (s.visit time role x).table.get? k = s.table.get? k :=
  get?_evaluate_of_ne time role s h

/-- A visit reaches the node it is for and the far ends of its data links. -/
theorem node?_visit_of_ne (hg : s.graph.Intact) {x k : NodeId} (hk : k ≠ x)
    (hlink : ∀ c ∈ s.graph.links, c.exec = false → c.fromNode = x → c.toNode ≠ k) :
    (s.visit time role x).graph.node? k = s.graph.node? k := by
  have hbare := Graph.bare_eq_of_clearValues_eq (clearValues_evaluate time role s x)
  refine (Graph.node?_pushOutputs (hg.of_bare_eq hbare) ?_).trans
    (node?_evaluate_of_ne time role s hk)
  rwa [Graph.links_eq_of_bare hbare]

theorem slot?_visit_of_ne (hg : s.graph.Intact) {x : NodeId} {c : Connection}
    (hc : c ∈ s.graph.links) (hexec : c.exec = false) (hx : c.fromNode ≠ x) :
    (s.visit time role x).graph.slot? c.toNode c.toPort = s.graph.slot? c.toNode c.toPort := by
  have hbare := Graph.bare_eq_of_clearValues_eq (clearValues_evaluate time role s x)
  refine (Graph.slot?_pushOutputs_of_ne (hg.of_bare_eq hbare) ?_ hexec hx).trans
    (slot?_evaluate time role s hg x hc)
  rwa [Graph.links_eq_of_bare hbare]

theorem visit_congr {s t : Scene σ} (hgraph : t.graph = s.graph) (htable : t.table = s.table)
    (x : NodeId) :
    (t.visit time role x).graph = (s.visit time role x).graph ∧
    (t.visit time role x).table = (s.visit time role x).table := by
  obtain ⟨-, hgraph', htable'⟩ := evaluate_congr time role hgraph htable x
  exact ⟨congrArg (Graph.pushOutputs · x) hgraph', htable'⟩

/-- The states of data nodes stay what they are. -/
theorem standardStates_visit {g : Graph} (h : s.table.StandardStates g) (x : NodeId) :
    (s.visit time role x).table.StandardStates g := by
  intro id state hdata hstate
  by_cases hx : id = x
  · subst hx
    change (s.evaluate time role id).scene.table.get? id = some state at hstate
    unfold evaluate at hstate
    split at hstate
    · exact h id state hdata hstate
    · exact h id state hdata hstate
    · next old n hold hn =>
      obtain ⟨b, hb, hacts⟩ := h id old hdata hold
      have hkept : (Behaves.evaluate old (Context.start n time)).state = old :=
        congrArg Effect.state (hacts (Context.start n time))
      simp only [OrderedMap.get?_modify, if_pos, hold, Option.map_some, hkept,
        Option.some.injEq] at hstate
      exact ⟨b, hb, hstate ▸ hacts⟩
  · rw [get?_visit_of_ne time role s hx] at hstate
    exact h id state hdata hstate

/-! ## 3. Steady nodes -/

/-- The node computes a value that its outputs and the far ends of its links hold. -/
structure Holds (y : NodeId) (n : Node) (state : σ) (b : Library.Behavior) (v : Value) : Prop where
  node : s.graph.node? y = some n
  bound : s.table.get? y = some state
  acts : ActsAs state b
  isData : b.IsData
  value : b.value (.start n time) = .ok v
  outputs : ∀ p ∈ n.outputs, p.value? = some v
  sent : ∀ c ∈ s.graph.links, c.fromNode = y → s.graph.slot? c.toNode c.toPort = some v

/-- Another visit of the data node would change nothing. -/
def Steady (y : NodeId) : Prop := ∃ n state b v, s.Holds time y n state b v

variable {time s} {y : NodeId}

theorem Steady.evaluate (h : s.Steady time y) :
    (∃ r, (s.evaluate time .data y).result = .ok r) ∧ (s.evaluate time .data y).scene = s := by
  obtain ⟨n, state, b, v, h⟩ := h
  obtain ⟨hresult, hscene⟩ := (evaluate_of_actsAs h.bound h.node h.acts h.isData time).2 v h.value
  have hgraph : s.graph.modifyNode y (fun _ => n.setOutput 0 v) = s.graph := by
    refine Graph.modifyNode_of_fixed fun m hm => ?_
    rw [Node.setOutput_of_held h.outputs]
    exact Option.some.inj (h.node.symm.trans hm)
  have htable : s.table.modify y (fun _ => state) = s.table :=
    OrderedMap.modify_of_fixed fun m hm => Option.some.inj (h.bound.symm.trans hm)
  exact ⟨⟨_, hresult⟩, by rw [hscene, hgraph, htable]⟩

/-- **A visit of a steady node changes nothing.** -/
theorem Steady.visit_self (h : s.Steady time y) (hg : s.graph.Intact) :
    s.visit time .data y = s := by
  rw [visit, h.evaluate.2]
  obtain ⟨n, state, b, v, h⟩ := h
  unfold push
  rw [Graph.pushOutputs_of_held hg h.node h.outputs h.sent]

/-- A node stays steady while nodes are visited that do not feed it. -/
theorem Steady.visit_of_ne (h : s.Steady time y) (hg : s.graph.Intact) {x : NodeId} (hx : y ≠ x)
    (hdata : ∀ c ∈ s.graph.links, c.fromNode = y → c.exec = false)
    (hlink : ∀ c ∈ s.graph.links, c.exec = false → c.fromNode = x → c.toNode ≠ y) :
    (s.visit time role x).Steady time y := by
  obtain ⟨n, state, b, v, h⟩ := h
  have hlinks : (s.visit time role x).graph.links = s.graph.links :=
    Graph.links_eq_of_bare (Graph.bare_eq_of_clearValues_eq (clearValues_visit time role s x))
  refine ⟨n, state, b, v, ?_, ?_, h.acts, h.isData, h.value, h.outputs, fun c hc hfrom => ?_⟩
  · rw [node?_visit_of_ne time role s hg hx hlink, h.node]
  · rw [get?_visit_of_ne time role s hx, h.bound]
  · rw [hlinks] at hc
    rw [slot?_visit_of_ne time role s hg hc (hdata c hc hfrom) (hfrom ▸ hx), h.sent c hc hfrom]

theorem Steady.congr {t : Scene σ} (h : s.Steady time y) (hgraph : t.graph = s.graph)
    (htable : t.table = s.table) : t.Steady time y := by
  obtain ⟨n, state, b, v, h⟩ := h
  exact ⟨n, state, b, v, hgraph ▸ h.node, htable ▸ h.bound, h.acts, h.isData, h.value, h.outputs,
    hgraph ▸ h.sent⟩

/-- A data node that has been evaluated without a failure has written its value. -/
theorem evaluate_data_of_ok {g : Graph} (hstates : s.table.StandardStates g) {x : NodeId}
    (hdata : g.isData x = true) {r : Status × Option Nat}
    (hok : (s.evaluate time .data x).result = .ok r) :
    ∃ n state b v, s.graph.node? x = some n ∧ ActsAs state b ∧ b.IsData ∧
      b.value (.start n time) = .ok v ∧
      (s.evaluate time .data x).scene.graph.node? x = some (n.setOutput 0 v) ∧
      (s.evaluate time .data x).scene.table.get? x = some state := by
  obtain ⟨n, state, hn, hstate⟩ :
      ∃ n state, s.graph.node? x = some n ∧ s.table.get? x = some state := by
    unfold Scene.evaluate at hok
    split at hok
    · cases hok
    · cases hok
    · next state n hstate hn => exact ⟨n, state, hn, hstate⟩
  obtain ⟨b, hb, hacts⟩ := hstates x state hdata hstate
  obtain ⟨hfail, hwrite⟩ := evaluate_of_actsAs hstate hn hacts hb time
  cases hv : b.value (.start n time) with
  | error e =>
    rw [hfail e hv] at hok
    cases hok
  | ok v =>
    refine ⟨n, state, b, v, hn, hacts, hb, hv, ?_, ?_⟩
    · rw [(hwrite v hv).2, Graph.modifyNode_eq_touch, Graph.node?_touch, hn]
      simp
    · rw [(hwrite v hv).2]
      show (s.table.modify x fun _ => state).get? x = some state
      rw [OrderedMap.get?_modify, if_pos rfl, hstate]
      rfl

/-- **A data node that has been visited without a failure is steady.** -/
theorem steady_of_visit {g : Graph} (hp : g.PureData)
    (hshape : s.graph.clearValues = g.clearValues) (hstates : s.table.StandardStates g)
    {x : NodeId} (hdata : g.isData x = true) {r : Status × Option Nat}
    (hok : (s.evaluate time .data x).result = .ok r) : (s.visit time .data x).Steady time x := by
  obtain ⟨n, state, b, v, hn, hacts, hb, hv, hself, hstate⟩ := evaluate_data_of_ok hstates hdata hok
  have hbare : (s.evaluate time .data x).scene.graph.bare = g.bare :=
    Graph.bare_eq_of_clearValues_eq ((clearValues_evaluate time .data s x).trans hshape)
  have hintact := hp.intact.of_bare_eq hbare
  have hlinks : (s.visit time .data x).graph.links =
      (s.evaluate time .data x).scene.graph.links :=
    Graph.links_eq_of_bare (Graph.bare_eq_of_clearValues_eq (clearValues_push _ x))
  have houts : ∀ q ∈ (n.setOutput 0 v).outputs, q.isExec = false ∧ q.value? = some v := by
    obtain ⟨p, hout, hexec⟩ := hp.standard.exists_output hshape hdata hn
    have hwritten : (n.setOutput 0 v).outputs = [{ p with value? := some v }] := by
      simp [Node.setOutput, hout]
    rw [hwritten]
    exact List.forall_mem_singleton.2 ⟨hexec, rfl⟩
  refine ⟨n.setOutput 0 v, state, b, v, ?_, hstate, hacts, hb, ?_, fun q hq => (houts q hq).2, ?_⟩
  · -- the push does not come back to the node, which does not feed itself
    refine (Graph.node?_pushOutputs hintact fun c hc hexec hfrom hto => ?_).trans hself
    rw [Graph.links_eq_of_bare hbare] at hc
    exact hp.not_mem_producers_self x (Graph.mem_producers_iff.2 ⟨hdata, c, hc, hexec, hfrom, hto⟩)
  · exact (Library.Behavior.value_congr rfl rfl b).trans hv
  · intro c hc hfrom
    exact Graph.slot?_pushOutputs_of_source hintact hself houts (hlinks ▸ hc) hfrom

end Scene

/-! ## 4. Finished nodes -/

variable [Behaves σ]

/-- A scene in which some data nodes are finished.  The ranked ones among them are steady, and what
feeds them is finished; the others are never evaluated. -/
structure Finished (g : Graph) (time : FrameTime) (done : List NodeId) (s : Scene σ) : Prop where
  shape : s.graph.clearValues = g.clearValues
  states : s.table.StandardStates g
  data : ∀ y ∈ done, g.isData y = true
  steady : ∀ y ∈ done, g.Ranked y → s.Steady time y
  closed : ∀ y ∈ done, g.Ranked y → g.producers y ⊆ done

variable {g : Graph} {time : FrameTime} {done : List NodeId} {s : Scene σ}

namespace Finished

theorem bare_eq (h : Finished g time done s) : s.graph.bare = g.bare :=
  Graph.bare_eq_of_clearValues_eq h.shape

theorem intact (h : Finished g time done s) (hp : g.PureData) : s.graph.Intact :=
  hp.intact.of_bare_eq h.bare_eq

theorem any_isScheduled (h : Finished g time done s) (id : NodeId) :
    (s.graph.node? id).any Node.isScheduled = decide (g.Ranked id) := by
  rw [Graph.any_isScheduled]
  exact decide_eq_decide.2 (Graph.ranked_iff_of_clearValues h.shape id)

theorem congr {t : Scene σ} (h : Finished g time done s) (hgraph : t.graph = s.graph)
    (htable : t.table = s.table) : Finished g time done t where
  shape := hgraph ▸ h.shape
  states := htable ▸ h.states
  data := h.data
  steady y hy hranked := (h.steady y hy hranked).congr hgraph htable
  closed := h.closed

/-- **What is finished stays finished**, whatever other node is visited. -/
theorem visit (h : Finished g time done s) (hp : g.PureData) (role : Role) {x : NodeId}
    (hx : x ∉ done) : Finished g time done (s.visit time role x) where
  shape := (Scene.clearValues_visit time role s x).trans h.shape
  states := Scene.standardStates_visit time role s h.states x
  data := h.data
  steady y hy hranked := by
    have hlinks : s.graph.links = g.links := Graph.links_eq_of_bare h.bare_eq
    refine (h.steady y hy hranked).visit_of_ne role (h.intact hp) (fun hyx => hx (hyx ▸ hy)) ?_ ?_
    · rw [hlinks]
      exact fun c hc hfrom => hp.exec_eq_false hc (hfrom ▸ h.data y hy)
    · rw [hlinks]
      intro c hc hexec hfrom hto
      have hdata : g.isData x = true := hfrom ▸ hp.fed c hc hexec (hto ▸ h.data y hy)
      exact hx (h.closed y hy hranked (Graph.mem_producers_iff.2 ⟨hdata, c, hc, hexec, hfrom, hto⟩))
  closed := h.closed

/-- A visit without a failure finishes a data node whose producers are finished. -/
theorem visit_data (h : Finished g time done s) (hp : g.PureData) {x : NodeId} (hx : x ∉ done)
    (hdata : g.isData x = true) (hprod : g.producers x ⊆ done) {r : Status × Option Nat}
    (hok : (s.evaluate time .data x).result = .ok r) :
    Finished g time (x :: done) (s.visit time .data x) where
  shape := (h.visit hp .data hx).shape
  states := (h.visit hp .data hx).states
  data := List.forall_mem_cons.2 ⟨hdata, h.data⟩
  steady := List.forall_mem_cons.2
    ⟨fun _ => Scene.steady_of_visit hp h.shape h.states hdata hok, (h.visit hp .data hx).steady⟩
  closed := List.forall_mem_cons.2
    ⟨fun _ => List.subset_cons_of_subset x hprod,
      fun y hy hranked => List.subset_cons_of_subset x (h.closed y hy hranked)⟩

theorem cons_of_not_ranked (h : Finished g time done s) {x : NodeId} (hdata : g.isData x = true)
    (hx : ¬ g.Ranked x) : Finished g time (x :: done) s where
  shape := h.shape
  states := h.states
  data := List.forall_mem_cons.2 ⟨hdata, h.data⟩
  steady := List.forall_mem_cons.2 ⟨fun hranked => absurd hranked hx, h.steady⟩
  closed := List.forall_mem_cons.2 ⟨fun hranked => absurd hranked hx,
    fun y hy hranked => List.subset_cons_of_subset x (h.closed y hy hranked)⟩

end Finished

/-! ## 5. Pulling what is finished -/

/-- Nothing has changed but that more of the finished nodes may be remembered. -/
structure Idles (done : List NodeId) (s t : Scene σ) : Prop where
  graph : t.graph = s.graph
  table : t.table = s.table
  resolved : ∀ y ∈ t.resolved, y ∈ s.resolved ∨ y ∈ done

namespace Idles

omit [Behaves σ]

theorem refl (done : List NodeId) (s : Scene σ) : Idles done s s := ⟨rfl, rfl, fun _ => Or.inl⟩

theorem trans {s t r : Scene σ} (h : Idles done s t) (h' : Idles done t r) : Idles done s r where
  graph := h'.graph.trans h.graph
  table := h'.table.trans h.table
  resolved y hy := (h'.resolved y hy).elim (h.resolved y) Or.inr

theorem remember (s : Scene σ) {id : NodeId} (hid : id ∈ done) :
    Idles done s { s with resolved := s.resolved ++ [id] } where
  graph := rfl
  table := rfl
  resolved y hy := by
    refine (List.mem_append.1 hy).imp_right fun hy => ?_
    rwa [List.mem_singleton.1 hy]

end Idles

/-- Pulling what feeds a finished node is idle. -/
def IdlesOn (g : Graph) (time : FrameTime) (deeper : Scene σ → NodeId → Step σ Unit) : Prop :=
  ∀ done s y, Finished g time done s → y ∈ done → g.Ranked y →
    (deeper s y).result = .ok () ∧ Idles done s (deeper s y).scene

section Idling

variable {deeper : Scene σ → NodeId → Step σ Unit}

/-- A finished node at the head of a list is passed over, or visited to no effect. -/
theorem pullWith_cons_of_mem_done (hp : g.PureData) (hdeeper : IdlesOn g time deeper)
    (h : Finished g time done s) {id : NodeId} (hid : id ∈ done) (ids : List NodeId) :
    ∃ t, Idles done s t ∧
      (Scene.pullWith time deeper (id :: ids) s).result =
        (Scene.pullWith time deeper ids t).result ∧
      (Scene.pullWith time deeper (id :: ids) s).scene =
        (Scene.pullWith time deeper ids t).scene := by
  by_cases hmem : id ∈ s.resolved
  · refine ⟨s, .refl done s, ?_⟩
    rw [Scene.pullWith, if_pos (List.contains_iff_mem.2 hmem)]
    exact ⟨rfl, rfl⟩
  · have hremember := Idles.remember s hid
    rw [Scene.pullWith, if_neg (fun hc => hmem (List.contains_iff_mem.1 hc))]
    simp only [h.any_isScheduled id, decide_eq_true_eq]
    by_cases hranked : g.Ranked id
    · have h' := h.congr hremember.graph hremember.table
      obtain ⟨hok, hidle⟩ := hdeeper done _ id h' hid hranked
      have h'' := h'.congr hidle.graph hidle.table
      have hsteady := h''.steady id hid hranked
      obtain ⟨⟨r, hown⟩, -⟩ := hsteady.evaluate
      refine ⟨_, hremember.trans hidle, ?_⟩
      have hvisit := hsteady.visit_self (h''.intact hp)
      unfold Scene.visit at hvisit
      simp only [if_pos hranked, hok, hown, hvisit, and_self]
    · refine ⟨_, hremember, ?_⟩
      simp only [if_neg hranked, and_self]

theorem pullWith_idles (hp : g.PureData) (hdeeper : IdlesOn g time deeper) :
    ∀ (ids : List NodeId) (s : Scene σ), ids ⊆ done → Finished g time done s →
      (Scene.pullWith time deeper ids s).result = .ok () ∧
      Idles done s (Scene.pullWith time deeper ids s).scene
  | [], s, _, _ => ⟨rfl, .refl done s⟩
  | id :: ids, s, hids, h => by
    rw [List.cons_subset] at hids
    obtain ⟨t, hidle, hres, hscene⟩ := pullWith_cons_of_mem_done hp hdeeper h hids.1 ids
    obtain ⟨hok, hrest⟩ :=
      pullWith_idles hp hdeeper ids t hids.2 (h.congr hidle.graph hidle.table)
    exact ⟨hres.trans hok, hscene ▸ hidle.trans hrest⟩

end Idling

/-- **A pull for a finished node is idle**, at any depth: all that feeds it is finished. -/
theorem resolveWithin_idles (hp : g.PureData) :
    ∀ fuel : Nat, IdlesOn (σ := σ) g time (Scene.resolveWithin time fuel)
  | 0 => fun done s _ _ _ _ => ⟨rfl, .refl done s⟩
  | fuel + 1 => fun done s y h hy hranked => by
    unfold Scene.resolveWithin
    rw [Graph.producers_eq_of_bare h.bare_eq]
    exact pullWith_idles hp (resolveWithin_idles hp fuel) _ s (h.closed y hy hranked) h

/-! ## 6. Two pulls side by side -/

/-- Two scenes of walks that remember for a different time: `w` is that of the walk that forgets
nothing, and remembers all that is finished. -/
structure Matched (g : Graph) (time : FrameTime) (done : List NodeId) (w n : Scene σ) : Prop where
  graph : n.graph = w.graph
  table : n.table = w.table
  finished : Finished g time done w
  finished_resolved : done ⊆ w.resolved
  resolved : n.resolved ⊆ w.resolved

namespace Matched

variable {w n : Scene σ}

theorem finished_right (h : Matched g time done w n) : Finished g time done n :=
  h.finished.congr h.graph h.table

theorem idle (h : Matched g time done w n) {t : Scene σ} (ht : Idles done n t) :
    Matched g time done w t where
  graph := ht.graph.trans h.graph
  table := ht.table.trans h.table
  finished := h.finished
  finished_resolved := h.finished_resolved
  resolved y hy :=
    (ht.resolved y hy).elim (fun hy => h.resolved hy) fun hy => h.finished_resolved hy

theorem forget (h : Matched g time done w n) : Matched g time done w { n with resolved := [] } where
  graph := h.graph
  table := h.table
  finished := h.finished
  finished_resolved := h.finished_resolved
  resolved := List.nil_subset _

theorem remember (h : Matched g time done w n) (id : NodeId) :
    Matched g time done { w with resolved := w.resolved ++ [id] }
      { n with resolved := n.resolved ++ [id] } where
  graph := h.graph
  table := h.table
  finished := h.finished.congr rfl rfl
  finished_resolved := List.subset_append_of_subset_left _ h.finished_resolved
  resolved := List.append_subset.2 ⟨List.subset_append_of_subset_left _ h.resolved,
    List.subset_append_right _ _⟩

theorem visit (h : Matched g time done w n) (hp : g.PureData) (role : Role) {x : NodeId}
    (hx : x ∉ done) : Matched g time done (w.visit time role x) (n.visit time role x) where
  graph := (Scene.visit_congr time role h.graph h.table x).1
  table := (Scene.visit_congr time role h.graph h.table x).2
  finished := h.finished.visit hp role hx
  finished_resolved := by
    rw [Scene.resolved_visit]
    exact h.finished_resolved
  resolved := by
    rw [Scene.resolved_visit, Scene.resolved_visit]
    exact h.resolved

end Matched

/-- What a pull of the nodes `ids` has made of two matching scenes: more is finished, but nothing
that was remembered before, and all that is remembered in addition is finished. -/
structure Progress (g : Graph) (time : FrameTime) (ids done : List NodeId) (w : Scene σ)
    (done' : List NodeId) (w' n' : Scene σ) : Prop where
  matched : Matched g time done' w' n'
  kept : done ⊆ done'
  pulled : ids ⊆ done'
  fresh : ∀ y ∈ done', y ∈ done ∨ y ∉ w.resolved
  grows : w.resolved ⊆ w'.resolved
  remembered : ∀ y ∈ w'.resolved, y ∈ done' ∨ y ∈ w.resolved

namespace Progress

variable {w w₁ n₁ w₂ n₂ : Scene σ} {ids done₁ done₂ : List NodeId}

/-- Nothing is to be done for what is finished. -/
theorem stay {n : Scene σ} (h : Matched g time done w n) (hids : ids ⊆ done) :
    Progress g time ids done w done w n where
  matched := h
  kept := List.Subset.refl done
  pulled := hids
  fresh _ := Or.inl
  grows := List.Subset.refl _
  remembered _ := Or.inr

theorem cons {id : NodeId} (h : Progress g time [id] done w done₁ w₁ n₁)
    (h' : Progress g time ids done₁ w₁ done₂ w₂ n₂) :
    Progress g time (id :: ids) done w done₂ w₂ n₂ where
  matched := h'.matched
  kept := List.Subset.trans h.kept h'.kept
  pulled := List.cons_subset.2 ⟨h'.kept (h.pulled (List.mem_singleton_self id)), h'.pulled⟩
  fresh y hy := (h'.fresh y hy).elim (h.fresh y) fun hnot => Or.inr fun hy => hnot (h.grows hy)
  grows := List.Subset.trans h.grows h'.grows
  remembered y hy := (h'.remembered y hy).elim Or.inl fun hy =>
    (h.remembered y hy).imp_left fun hy => h'.kept hy

theorem waiting {id : NodeId} (h : Progress g time ids done w done₁ w₁ n₁)
    (hwait : Waiting g done w id) : Waiting g done₁ w₁ id :=
  fun y hy => (h.remembered y hy).elim Or.inl fun hy =>
    (hwait y hy).imp_left fun hy => h.kept hy

/-- To remember a node without a rank is all that is done for it. -/
theorem unranked {n : Scene σ} (h : Matched g time done w n) {id : NodeId}
    (hdata : g.isData id = true) (hid : id ∉ w.resolved) (hranked : ¬ g.Ranked id) :
    Progress g time [id] done w (id :: done) { w with resolved := w.resolved ++ [id] }
      { n with resolved := n.resolved ++ [id] } where
  matched :=
    { h.remember id with
      finished := (h.remember id).finished.cons_of_not_ranked hdata hranked
      finished_resolved := List.cons_subset.2 ⟨by simp, (h.remember id).finished_resolved⟩ }
  kept := List.subset_cons_self id done
  pulled := List.cons_subset_cons id (List.nil_subset done)
  fresh := List.forall_mem_cons.2 ⟨Or.inr hid, fun _ => Or.inl⟩
  grows := List.subset_append_left _ _
  remembered y hy := (List.mem_append.1 hy).elim Or.inr fun hy =>
    Or.inl (List.mem_singleton.1 hy ▸ List.mem_cons_self)

/-- **A node whose producers have been pulled in both scenes is finished by a visit in both.** -/
theorem visited (hp : g.PureData) {id : NodeId} (hdata : g.isData id = true)
    (hremembered : done ⊆ w.resolved) (hid : id ∉ w.resolved)
    (h : Progress g time (g.producers id) done { w with resolved := w.resolved ++ [id] }
      done₁ w₁ n₁)
    {r : Status × Option Nat} (hok : (w₁.evaluate time .data id).result = .ok r) :
    Progress g time [id] done w (id :: done₁) (w₁.visit time .data id)
      (n₁.visit time .data id) := by
  have hnot : id ∉ done₁ := fun hmem =>
    (h.fresh id hmem).elim (fun hmem => hid (hremembered hmem)) fun hwaits => hwaits (by simp)
  have hgrows : w.resolved ++ [id] ⊆ (w₁.visit time .data id).resolved := by
    rw [Scene.resolved_visit]
    exact h.grows
  have hvisit := h.matched.visit hp .data hnot
  constructor
  case matched =>
    exact
      { hvisit with
        finished := h.matched.finished.visit_data hp hnot hdata h.pulled hok
        finished_resolved := List.cons_subset.2 ⟨hgrows (by simp), hvisit.finished_resolved⟩ }
  case kept => exact List.subset_cons_of_subset id h.kept
  case pulled => exact List.cons_subset_cons id (List.nil_subset done₁)
  case fresh =>
    refine List.forall_mem_cons.2 ⟨Or.inr hid,
      fun y hy => (h.fresh y hy).imp_right fun hnot hy => ?_⟩
    exact hnot (List.mem_append_left _ hy)
  case grows => exact fun y hy => hgrows (List.mem_append_left _ hy)
  case remembered =>
    intro y hy
    rw [Scene.resolved_visit] at hy
    rcases h.remembered y hy with hy | hy
    · exact Or.inl (List.mem_cons_of_mem _ hy)
    · exact (List.mem_append.1 hy).elim Or.inr fun hy =>
        Or.inl (List.mem_singleton.1 hy ▸ List.mem_cons_self)

end Progress

/-- Two pulls of the same nodes, the first of which started from `w`, come to the same. -/
structure Agrees (g : Graph) (time : FrameTime) (ids done : List NodeId) (w : Scene σ)
    (a b : Step σ Unit) : Prop where
  result : b.result = a.result
  graph : b.scene.graph = a.scene.graph
  table : b.scene.table = a.scene.table
  progress : a.result = .ok () → ∃ done', Progress g time ids done w done' a.scene b.scene

/-- Two pulls that have failed in the same way. -/
theorem Agrees.failed {w a b : Scene σ} {ids : List NodeId} {events events' : List Event}
    {e : EvalError} (hgraph : b.graph = a.graph) (htable : b.table = a.table) :
    Agrees g time ids done w ⟨a, events, .error e⟩ ⟨b, events', .error e⟩ :=
  ⟨rfl, hgraph, htable, nofun⟩

theorem Agrees.cons {w w₁ n₁ : Scene σ} {ids done₁ : List NodeId} {id : NodeId} {a b : Step σ Unit}
    (hfirst : Progress g time [id] done w done₁ w₁ n₁) (h : Agrees g time ids done₁ w₁ a b) :
    Agrees g time (id :: ids) done w a b where
  result := h.result
  graph := h.graph
  table := h.table
  progress hok := by
    obtain ⟨done₂, hrest⟩ := h.progress hok
    exact ⟨done₂, hfirst.cons hrest⟩

/-- Agreement is a matter of the answers and the scenes. -/
theorem Agrees.of_eq {w : Scene σ} {ids : List NodeId} {a b a' b' : Step σ Unit}
    (h : Agrees g time ids done w a b) (ha : a'.result = a.result) (ha' : a'.scene = a.scene)
    (hb : b'.result = b.result) (hb' : b'.scene = b.scene) : Agrees g time ids done w a' b' where
  result := hb.trans (h.result.trans ha.symm)
  graph := hb' ▸ ha' ▸ h.graph
  table := hb' ▸ ha' ▸ h.table
  progress hok := by
    rw [ha', hb']
    exact h.progress (ha.symm.trans hok)

theorem pullWith_agrees (hp : g.PureData) {deeper : Scene σ → NodeId → Step σ Unit}
    (hidle : IdlesOn g time deeper) {parent : NodeId}
    (hdeeper : ∀ q ∈ g.producers parent, ∀ done w n, Matched g time done w n → Waiting g done w q →
      Agrees g time (g.producers q) done w (deeper w q) (deeper n q)) :
    ∀ (ids done : List NodeId) (w n : Scene σ), ids ⊆ g.producers parent →
      Matched g time done w n → Waiting g done w parent →
      Agrees g time ids done w (Scene.pullWith time deeper ids w) (Scene.pullWith time deeper ids n)
  | [], done, w, n, _, h, _ =>
    ⟨rfl, h.graph, h.table, fun _ => ⟨done, .stay h (List.nil_subset done)⟩⟩
  | id :: ids, done, w, n, hids, h, hwait => by
    obtain ⟨hid, hids'⟩ := List.cons_subset.1 hids
    have hdata : g.isData id = true := (Graph.mem_producers_iff.1 hid).1
    by_cases hmem : id ∈ w.resolved
    · -- the longer memory passes the node over; what the shorter one does here comes to nothing
      have hdone := hwait.mem_done hp.acyclic hid hmem
      obtain ⟨t, ht, hres, hscene⟩ := pullWith_cons_of_mem_done hp hidle h.finished_right hdone ids
      have hskip : Scene.pullWith time deeper (id :: ids) w = Scene.pullWith time deeper ids w := by
        rw [Scene.pullWith, if_pos (List.contains_iff_mem.2 hmem)]
      have hstay := Progress.stay (h.idle ht) (List.cons_subset.2 ⟨hdone, List.nil_subset done⟩)
      have hrest := pullWith_agrees hp hidle hdeeper ids done w t hids' (h.idle ht) hwait
      rw [hskip]
      exact (hrest.cons hstay).of_eq rfl rfl hres hscene
    · have hmem' : id ∉ n.resolved := fun hn => hmem (h.resolved hn)
      have hremember := h.remember id
      rw [Scene.pullWith, Scene.pullWith, if_neg (fun hc => hmem (List.contains_iff_mem.1 hc)),
        if_neg (fun hc => hmem' (List.contains_iff_mem.1 hc))]
      simp only [h.finished.any_isScheduled id, h.finished_right.any_isScheduled id,
        decide_eq_true_eq]
      by_cases hranked : g.Ranked id
      · simp only [if_pos hranked]
        have hbelow := hdeeper id hid done _ _ hremember (hwait.remember hid)
        rw [hbelow.result]
        split
        · exact .failed hbelow.graph hbelow.table
        · next hok =>
          obtain ⟨done₁, hprogress⟩ := hbelow.progress hok
          obtain ⟨hresult, hgraph, htable⟩ :=
            Scene.evaluate_congr time .data hbelow.graph hbelow.table id
          rw [hresult]
          split
          · exact .failed hgraph htable
          · next r hown =>
            have hfirst := hprogress.visited hp hdata h.finished_resolved hmem hown
            have hrest := pullWith_agrees hp hidle hdeeper ids _ _ _ hids' hfirst.matched
              (hfirst.waiting hwait)
            exact (hrest.cons hfirst).of_eq rfl rfl rfl rfl
      · simp only [if_neg hranked]
        have hfirst := Progress.unranked h hdata hmem hranked
        have hrest := pullWith_agrees hp hidle hdeeper ids _ _ _ hids' hfirst.matched
          (hfirst.waiting hwait)
        exact (hrest.cons hfirst).of_eq rfl rfl rfl rfl

/-- **Within enough depth, two pulls for a node agree.** -/
theorem resolveWithin_agrees (hp : g.PureData) :
    ∀ (fuel : Nat) (id : NodeId), (∀ p, ¬ g.DataWalk (fuel + 1) p id) →
      ∀ (done : List NodeId) (w n : Scene σ), Matched g time done w n → Waiting g done w id →
      Agrees g time (g.producers id) done w (Scene.resolveWithin time fuel w id)
        (Scene.resolveWithin time fuel n id)
  | 0, id, hdepth, done, w, n, h, _ => by
    rw [Graph.producers_eq_nil_of_not_dataWalk hdepth]
    exact ⟨rfl, h.graph, h.table, fun _ => ⟨done, .stay h (List.nil_subset done)⟩⟩
  | fuel + 1, id, hdepth, done, w, n, h, hwait => by
    unfold Scene.resolveWithin
    rw [Graph.producers_eq_of_bare h.finished.bare_eq,
      Graph.producers_eq_of_bare h.finished_right.bare_eq]
    refine pullWith_agrees hp (resolveWithin_idles hp fuel) (fun q hq => ?_) _ done w n
      (List.Subset.refl _) h hwait
    exact resolveWithin_agrees hp fuel q fun p hw => hdepth p (hw.snoc hq)

/-! ## 7. Two walks side by side -/

/-- Two steps come to the same; if they have not failed, all that is remembered
is finished again. -/
structure StepsAgree (g : Graph) (time : FrameTime) (a b : Step σ (Status × Option Nat)) :
    Prop where
  result : b.result = a.result
  graph : b.scene.graph = a.scene.graph
  table : b.scene.table = a.scene.table
  matched : ∀ r, a.result = .ok r →
    ∃ done, Matched g time done a.scene b.scene ∧ a.scene.resolved ⊆ done

/-- **One step**: the shorter memory starts from nothing, the longer one from what is finished. -/
theorem step_agrees (hp : g.PureData) {w n : Scene σ} {id : NodeId} (hid : g.isData id = false)
    (h : Matched g time done w n) (hdone : w.resolved ⊆ done) :
    StepsAgree g time (w.step .perWalk time id) (n.step .perNode time id) := by
  have hdepth : ∀ p, ¬ g.DataWalk (w.graph.nodes.size + 1) p id := by
    rw [Graph.size_eq_of_bare h.finished.bare_eq]
    exact fun p hw => absurd (hp.acyclic.le_size hw) (Nat.not_succ_le_self _)
  have hbelow : Agrees g time (g.producers id) done w (w.resolve time id)
      (Scene.resolve time { n with resolved := [] } id) := by
    have hsize : n.graph.nodes.size = w.graph.nodes.size := by rw [h.graph]
    unfold Scene.resolve
    simp only [hsize]
    exact resolveWithin_agrees hp _ id hdepth done w _ h.forget fun y hy => Or.inl (hdone hy)
  unfold Scene.step
  simp only [if_pos, reduceCtorEq, if_false]
  rw [hbelow.result]
  split
  · exact ⟨rfl, hbelow.graph, hbelow.table, nofun⟩
  · next hok =>
    obtain ⟨done₁, hprogress⟩ := hbelow.progress hok
    obtain ⟨hresult, hgraph, htable⟩ :=
      Scene.evaluate_congr time .control hbelow.graph hbelow.table id
    rw [hresult]
    split
    · exact ⟨rfl, hgraph, htable, nofun⟩
    · have hnot : id ∉ done₁ := by
        intro hmem
        rw [hprogress.matched.finished.data id hmem] at hid
        cases hid
      have hmatched := hprogress.matched.visit hp .control hnot
      refine ⟨rfl, hmatched.graph, hmatched.table, fun _ _ => ⟨done₁, hmatched, fun y hy => ?_⟩⟩
      change y ∈ ((w.resolve time id).scene.visit time .control id).resolved at hy
      rw [Scene.resolved_visit] at hy
      exact (hprogress.remembered y hy).elim (fun hy => hy) fun hy => hprogress.kept (hdone hy)

/-- Two walks end in the same way, at the same node, on the same graph and table. -/
structure SameEnd (a b : WalkEnd σ) : Prop where
  result : b.result = a.result
  current : b.current = a.current
  table : b.scene.table = a.scene.table
  graph : b.scene.graph = a.scene.graph

theorem walkWithin_agrees (hp : g.PureData) (bound : Nat) :
    ∀ (budget : Nat) (done : List NodeId) (w n : Scene σ) (id : NodeId), g.isData id = false →
      Matched g time done w n → w.resolved ⊆ done →
      SameEnd (Scene.walkWithin .perWalk time bound budget w id)
        (Scene.walkWithin .perNode time bound budget n id)
  | 0, done, w, n, id, _, h, _ => by
    unfold Scene.walkWithin
    simp only [h.finished.any_isScheduled id, h.finished_right.any_isScheduled id]
    split <;> exact ⟨rfl, rfl, h.table, h.graph⟩
  | budget + 1, done, w, n, id, hid, h, hdone => by
    unfold Scene.walkWithin
    simp only [h.finished.any_isScheduled id, h.finished_right.any_isScheduled id]
    split
    · have hstep := step_agrees hp hid h hdone
      rw [hstep.result]
      split
      · exact ⟨rfl, rfl, hstep.table, hstep.graph⟩
      · exact ⟨rfl, rfl, hstep.table, hstep.graph⟩
      · next chosen? hok =>
        obtain ⟨done', hmatched, hdone'⟩ := hstep.matched _ hok
        rw [hstep.graph]
        split
        · exact ⟨rfl, rfl, hstep.table, hstep.graph⟩
        · next next hnext =>
          obtain ⟨slot, -, hslot⟩ := Option.bind_eq_some_iff.1 hnext
          rw [Graph.nextNode?_eq_of_bare hmatched.finished.bare_eq] at hslot
          have hrest := walkWithin_agrees hp bound budget done' _ _ next
            (hp.isData_of_nextNode? hslot).2 hmatched hdone'
          exact ⟨hrest.result, hrest.current, hrest.table, hrest.graph⟩
    · exact ⟨rfl, rfl, h.table, h.graph⟩

/-- A walk from a data node ends there, before the memory is used twice. -/
theorem walkWithin_of_isData (hp : s.graph.PureData) (fresh : s.resolved = []) {bound : Nat}
    {id : NodeId} (hid : s.graph.isData id = true) :
    ∀ budget : Nat, Scene.walkWithin .perNode time bound budget s id =
      Scene.walkWithin .perWalk time bound budget s id
  | 0 => rfl
  | budget + 1 => by
    have hstep : s.step .perNode time id = s.step .perWalk time id := by
      unfold Scene.step
      simp only [if_pos, reduceCtorEq, if_false]
      rw [← fresh]
    have hend : ∀ chosen? : Option Nat,
        chosen?.bind ((s.step .perWalk time id).scene.graph.nextNode? id) = none := by
      intro chosen?
      rw [Graph.nextNode?_eq_of_bare
        (Graph.bare_eq_of_clearValues_eq (Scene.clearValues_step .perWalk time s id))]
      refine Option.bind_eq_none_iff.2 fun slot _ => Option.eq_none_iff_forall_ne_some.2 ?_
      intro next hnext
      rw [(hp.isData_of_nextNode? hnext).1] at hid
      cases hid
    unfold Scene.walkWithin
    simp only [hstep, hend]

/-! ## 8. The law -/

/-- **Two scopes of memory, one walk.**  On a built graph whose data nodes are standard, are fed
by data nodes only and feed none of themselves, with any ranks, contents of the slots and
progress of the other nodes: a walk that remembers data for the whole walk and a walk that
remembers it for one control node end in the same way at the same node, with the same states and
the same value in every slot. -/
theorem memoization_scopes_agree {σ : Type u} [Behaves σ] (g : Graph) (built : g.Built)
    (s : Scene σ) (shape : s.graph.bare = g.bare) (standard : s.graph.StandardData)
    (acyclic : s.graph.Acyclic) (fed : s.graph.DataFedByData)
    (states : s.table.StandardStates s.graph) (fresh : s.resolved = [])
    (settings : Settings) (time : FrameTime) (start : NodeId) :
    let w := s.walk { settings with memoization := .perWalk } time start
    let n := s.walk { settings with memoization := .perNode } time start
    n.result = w.result ∧ n.current = w.current ∧ n.scene.table = w.scene.table ∧
      n.scene.graph = w.scene.graph := by
  intro w n
  have hp : s.graph.PureData := ⟨built.intact.of_bare_eq shape, standard, acyclic, fed⟩
  cases hstart : s.graph.isData start with
  | true =>
    have hsame : n = w := walkWithin_of_isData hp fresh hstart _
    rw [hsame]
    exact ⟨rfl, rfl, rfl, rfl⟩
  | false =>
    have hfinished : Finished s.graph time [] s := ⟨rfl, states, nofun, nofun, nofun⟩
    have hmatched : Matched s.graph time [] s s :=
      ⟨rfl, rfl, hfinished, List.nil_subset _, List.Subset.refl _⟩
    have hsame : SameEnd w n :=
      walkWithin_agrees hp _ _ [] s s start hstart hmatched
        (by rw [fresh]; exact List.Subset.refl _)
    exact ⟨hsame.result, hsame.current, hsame.table, hsame.graph⟩

/-- The example with a sum that is both printed and waited for. -/
def sharedGraph : Graph := Edit.runAll exampleGraph [exampleLink 8 2 "Result" 5 "Seconds"]

theorem sharedGraph_built : sharedGraph.Built :=
  exampleGraph_built.runAll [exampleLink 8 2 "Result" 5 "Seconds"] (by decide +kernel)

/-- The same right after scheduling and binding. -/
def sharedStart : Scene Library.Behavior :=
  let g := (sharedGraph.schedule 100 [.update]).1
  ⟨g, (Table.sync .empty Library.registry g).1, []⟩

theorem sharedStart_bare : sharedStart.graph.bare = sharedGraph.bare :=
  sharedGraph.bare_schedule 100 [.update]

theorem sharedStart_acyclic : sharedStart.graph.Acyclic :=
  Graph.acyclic_of_numbering (fun id => (sharedStart.graph.rank id).toNat) (by decide +kernel)

theorem sharedStart_states : sharedStart.table.StandardStates sharedStart.graph := by
  have standard : sharedStart.graph.StandardData := by decide +kernel
  have intact := sharedGraph_built.intact.of_bare_eq sharedStart_bare
  exact (Table.standard_of_sync intact standard (by decide +kernel)).states standard

/-- The walk over the example evaluates the sum and what it adds up once or twice, by the scope of
its memory, and ends in the same way with the same values. -/
theorem shared_scopes_agree :
    let w := sharedStart.walk { Settings.standard with memoization := .perWalk } .zero (exampleId 0)
    let n := sharedStart.walk { Settings.standard with memoization := .perNode } .zero (exampleId 0)
    sharedStart.graph.DataFedByData ∧ n.events.length = w.events.length + 2 ∧
      n.result = .ok .completed ∧ n.result = w.result ∧ n.current = w.current ∧
      n.scene.table = w.scene.table ∧ n.scene.graph = w.scene.graph := by
  intro w n
  have fed : sharedStart.graph.DataFedByData := by decide +kernel
  exact ⟨fed, by decide +kernel, by decide +kernel,
    memoization_scopes_agree sharedGraph sharedGraph_built sharedStart sharedStart_bare
      (by decide +kernel) sharedStart_acyclic fed sharedStart_states rfl .standard .zero
      (exampleId 0)⟩

end FlowScript
