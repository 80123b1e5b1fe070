/-
# Pulled data is what plain recursion gives

A pull remembers which data nodes it has visited and pushes values through the slots of many nodes
at once.  Nothing of this can be seen in its answer: the pull for a ranked node fails exactly if
plain recursion over its producers does, with the same failure, and otherwise every input that a
data node feeds holds the value that plain recursion gives for it, whatever the slots held before.

The invariant (`Pulled`) describes the whole graph in the middle of a pull: it is the graph from
before the call in which every input slot that a finished data node feeds holds the plain value of
that node, and every other input slot what it held.  Finished are the nodes whose value has been
pushed; a node that is remembered but not finished is waiting for its producers, so it is fed by the
node at hand and cannot feed it again.
-/
import FlowScript.Proofs.Ordering
import FlowScript.Proofs.Push

namespace FlowScript

universe u

/-! ## 1. Scripts of standard data nodes -/

/-- Every data node is of a standard type. -/
def Graph.StandardData (g : Graph) : Prop :=
  ∀ n ∈ g.nodes.values, n.category = .data → n.StandardData

instance (g : Graph) : Decidable g.StandardData :=
  inferInstanceAs (Decidable (∀ n ∈ g.nodes.values, _))

variable {σ : Type u}

section Standard

variable [Behaves σ]

/-- A state that does what a standard behavior does, and stays as it is. -/
def ActsAs (state : σ) (b : Library.Behavior) : Prop :=
  ∀ c, Behaves.evaluate state c = (b.evaluate c).mapState fun _ => state

theorem actsAs_self {b : Library.Behavior} (hb : b.IsData) : ActsAs b b := by
  intro c
  show b.evaluate c = _
  rw [b.evaluate_of_isData hb]
  cases b.value c <;> rfl

/-- Every data node is bound to a state that does what its type and settings say. -/
def Table.Standard (t : Table σ) (g : Graph) : Prop :=
  ∀ id n, g.node? id = some n → n.category = .data →
    ∃ state b, t.get? id = some state ∧ Library.registry.bind n = .ok b ∧ ActsAs state b

theorem Graph.exists_of_isData {g : Graph} {id : NodeId} (h : g.isData id = true) :
    ∃ n, g.node? id = some n ∧ n.category = .data := by
  obtain ⟨n, hn, hcat⟩ := (Option.any_eq_true _ _).1 h
  exact ⟨n, hn, of_decide_eq_true hcat⟩

theorem Graph.StandardData.of_node? {g : Graph} (h : g.StandardData) {id : NodeId} {n : Node}
    (hn : g.node? id = some n) (hcat : n.category = .data) : n.StandardData :=
  h n ((OrderedMap.mem_values_iff _ _).2 ⟨id, hn⟩) hcat

/-- An evaluation of a standard data node fails, or writes its value into its output. -/
theorem Scene.evaluate_of_actsAs {s : Scene σ} {id : NodeId} {state : σ} {m : Node}
    {b : Library.Behavior} (hstate : s.table.get? id = some state) (hm : s.graph.node? id = some m)
    (hacts : ActsAs state b) (hb : b.IsData) (time : FrameTime) :
    (∀ e, b.value (.start m time) = .error e → (s.evaluate time .data id).result = .error e) ∧
    (∀ v, b.value (.start m time) = .ok v →
      (s.evaluate time .data id).result = .ok (.finished, m.defaultExec?) ∧
      (s.evaluate time .data id).scene =
        { s with
          graph := s.graph.modifyNode id fun _ => m.setOutput 0 v
          table := s.table.modify id fun _ => state }) := by
  have heffect := hacts (.start m time)
  rw [b.evaluate_of_isData hb] at heffect
  unfold evaluate
  rw [hstate, hm]
  simp only [heffect]
  constructor
  · intro e he
    rw [he]
    rfl
  · intro v hv
    rw [hv]
    exact ⟨rfl, rfl⟩

end Standard

/-! ## 2. In the middle of a pull -/

/-- The value that the slot of a port holds. -/
def Graph.slot? (g : Graph) (node : NodeId) (port : PortId) : Option Value :=
  (g.port? node port).bind Port.value?

/-- What an input receives from the finished data nodes. -/
def Graph.received (g : Graph) (acyclic : g.Acyclic) (time : FrameTime) (done : List NodeId)
    (id : NodeId) (port : PortId) : Option Value :=
  (g.provider? id port).bind fun q => if q ∈ done then (g.plain acyclic time q).toOption else none

theorem Graph.received_cons_self {g : Graph} {acyclic : g.Acyclic} {time : FrameTime}
    {done : List NodeId} {id q : NodeId} {port : PortId} {v : Value}
    (hq : g.provider? id port = some q) (hv : g.plain acyclic time q = .ok v) :
    g.received acyclic time (q :: done) id port = some v := by
  simp [received, hq, hv, Except.toOption]

theorem Graph.received_cons_of_ne {g : Graph} {acyclic : g.Acyclic} {time : FrameTime}
    {done : List NodeId} {id q : NodeId} {port : PortId} (hq : g.provider? id port ≠ some q) :
    g.received acyclic time (q :: done) id port = g.received acyclic time done id port := by
  unfold received
  cases hr : g.provider? id port with
  | none => rfl
  | some r =>
    have hne : r ≠ q := fun h => hq (h ▸ hr)
    simp [hne]

/-- The output of a node with one output, whatever its slots hold. -/
theorem Node.exists_output_of_clearValues {m n : Node} {p : Port}
    (h : m.clearValues = n.clearValues) (hout : n.outputs = [p]) :
    ∃ p', m.outputs = [p'] ∧ p'.id = p.id ∧ p'.isExec = p.isExec := by
  have houts : m.outputs.map Port.blank = n.outputs.map Port.blank := congrArg Node.outputs h
  rw [hout] at houts
  obtain ⟨p', hout', hblank⟩ := List.map_eq_singleton_iff.1 houts
  have hid := congrArg Port.id hblank
  have hexec := congrArg Port.isExec hblank
  exact ⟨p', hout', hid, hexec⟩

/-- Writing an output touches no input. -/
theorem Graph.inputs_of_setOutput {g : Graph} {id k : NodeId} {m m' : Node} {slot : Nat} {v : Value}
    (hm : g.node? id = some m)
    (hm' : (g.modifyNode id fun _ => m.setOutput slot v).node? k = some m') :
    ∃ n, g.node? k = some n ∧ m'.inputs = n.inputs := by
  rw [modifyNode_eq_touch, node?_touch] at hm'
  obtain ⟨n, hn, rfl⟩ := Option.map_eq_some_iff.1 hm'
  refine ⟨n, hn, ?_⟩
  split
  · next hk =>
    subst hk
    rw [hm] at hn
    cases hn
    rfl
  · rfl

/-- The scene in the middle of a pull that started on the graph `g` and has finished some nodes. -/
structure Pulled (g : Graph) (acyclic : g.Acyclic) (time : FrameTime) (table : Table σ)
    (done : List NodeId) (s : Scene σ) : Prop where
  shape : s.graph.clearValues = g.clearValues
  /-- The states have not changed. -/
  states : ∀ id, s.table.get? id = table.get? id
  valued : ∀ q ∈ done, ∃ v, g.plain acyclic time q = .ok v
  /-- Inputs that finished nodes feed hold plain values, all others what they held. -/
  inputs : ∀ id n m, g.node? id = some n → s.graph.node? id = some m →
    m.inputs = (n.supply (g.received acyclic time done id)).inputs

namespace Pulled

variable {g : Graph} {acyclic : g.Acyclic} {time : FrameTime} {table : Table σ}
  {done : List NodeId} {s : Scene σ}

theorem rank_eq (h : Pulled g acyclic time table done s) : s.graph.rank = g.rank :=
  Graph.rank_eq_of_clearValues h.shape

theorem producers_eq (h : Pulled g acyclic time table done s) : s.graph.producers = g.producers :=
  Graph.producers_eq_of_bare (Graph.bare_eq_of_clearValues_eq h.shape)

theorem exists_node? (h : Pulled g acyclic time table done s) {id : NodeId} {n : Node}
    (hn : g.node? id = some n) :
    ∃ m, s.graph.node? id = some m ∧ m.clearValues = n.clearValues := by
  have hid : s.graph.clearValues.node? id = some n.clearValues := by
    rw [h.shape, Graph.node?_clearValues, hn]; rfl
  rw [Graph.node?_clearValues] at hid
  exact Option.map_eq_some_iff.1 hid

/-- At the start of a pull nothing is finished. -/
theorem start (acyclic : s.graph.Acyclic) (time : FrameTime) :
    Pulled s.graph acyclic time s.table [] s where
  shape := rfl
  states _ := rfl
  valued _ hq := nomatch hq
  inputs id n m hn hm := by
    rw [hn] at hm
    cases hm
    have hnone : ∀ port, s.graph.received acyclic time [] id port = none := by
      intro port
      simp [Graph.received]
    simp [Node.supply, hnone]

/-- To remember another node changes nothing. -/
theorem remember (h : Pulled g acyclic time table done s) (id : NodeId) :
    Pulled g acyclic time table done { s with resolved := s.resolved ++ [id] } where
  shape := h.shape
  states := h.states
  valued := h.valued
  inputs := h.inputs

/-- **A push of a plain value finishes its node**: the inputs it feeds, and no others, change. -/
theorem finish (h : Pulled g acyclic time table done s) (hg : g.Intact) (hstd : g.StandardData)
    {id : NodeId} {m : Node} {state : σ} {v : Value} (hdata : g.isData id = true)
    (hm : s.graph.node? id = some m) (hstate : s.table.get? id = some state)
    (hv : g.plain acyclic time id = .ok v) :
    Pulled g acyclic time table (id :: done)
      (Scene.push
        { s with
          graph := s.graph.modifyNode id fun _ => m.setOutput 0 v
          table := s.table.modify id fun _ => state } id) := by
  have hshape : (s.graph.modifyNode id fun _ => m.setOutput 0 v).clearValues = g.clearValues := by
    rw [Graph.clearValues_modifyNode s.graph, h.shape]
    intro m' hm'
    rw [hm] at hm'
    cases hm'
    exact Node.clearValues_setOutput m 0 v
  have hintact := hg.of_bare_eq (Graph.bare_eq_of_clearValues_eq hshape)
  constructor
  case shape => exact (Graph.clearValues_pushOutputs _ id).trans hshape
  case states =>
    intro k
    show (s.table.modify id fun _ => state).get? k = _
    rw [OrderedMap.get?_modify, ← h.states k]
    split
    · next hk => rw [hk, hstate]; rfl
    · rfl
  case valued =>
    intro q hq
    rcases List.mem_cons.1 hq with rfl | hq
    · exact ⟨v, hv⟩
    · exact h.valued q hq
  case inputs =>
    intro k n m' hn hm'
    obtain ⟨n', hn', hcat⟩ := Graph.exists_of_isData hdata
    obtain ⟨p, hout, hexec⟩ := (hstd.of_node? hn' hcat).exists_output
    obtain ⟨m₁, hm₁, hclear⟩ := h.exists_node? hn'
    obtain rfl : m = m₁ := Option.some.inj (hm.symm.trans hm₁)
    -- the output of the node as it is now, and after the write
    obtain ⟨p', hout', hport, hflag⟩ := Node.exists_output_of_clearValues hclear hout
    have hself : (s.graph.modifyNode id fun _ => m.setOutput 0 v).node? id =
        some (m.setOutput 0 v) := by
      rw [Graph.modifyNode_eq_touch, Graph.node?_touch, hm]
      simp
    have hwritten : (m.setOutput 0 v).outputs = [{ p' with value? := some v }] := by
      simp [Node.setOutput, hout']
    obtain ⟨m₂, hm₂, hinputs⟩ :=
      Graph.pushOutputs_inputs hintact hself hwritten (hflag.trans hexec) rfl hm'
    obtain ⟨m₃, hm₃, hsame⟩ := Graph.inputs_of_setOutput hm hm₂
    rw [hinputs, hsame, h.inputs k n m₃ hn hm₃]
    simp only [Node.supply, List.map_map]
    refine List.map_congr_left fun q _ => ?_
    have hlinks : (s.graph.modifyNode id fun _ => m.setOutput 0 v).links = g.links :=
      Graph.links_eq_of_bare (Graph.bare_eq_of_clearValues_eq hshape)
    have hiff : (∃ c ∈ g.links, c.fromPort = p.id ∧ c.toNode = k ∧ c.toPort = q.id) ↔
        g.provider? k q.id = some id := Graph.exists_link_iff_provider hg hn' hdata hout hexec
    simp only [Function.comp, hlinks, hport, hiff]
    by_cases hprov : g.provider? k q.id = some id
    · rw [if_pos hprov, Graph.received_cons_self hprov hv]
      rfl
    · rw [if_neg hprov, Graph.received_cons_of_ne hprov]

/-- An input that a finished data node feeds holds the plain value of that node. -/
theorem slot?_eq (h : Pulled g acyclic time table done s) (hg : g.Intact) {c : Connection}
    (hc : c ∈ g.links) (hexec : c.exec = false) (hdata : g.isData c.fromNode = true)
    (hdone : c.fromNode ∈ done) {v : Value} (hv : g.plain acyclic time c.fromNode = .ok v) :
    s.graph.slot? c.toNode c.toPort = some v := by
  obtain ⟨out, inp, hj⟩ := hg.joined c hc
  obtain ⟨n, hn, hinp, hid⟩ := hg.exists_input hj.target hj.toInput
  obtain ⟨m, hm, -⟩ := h.exists_node? hn
  have hprov : g.provider? c.toNode c.toPort = some c.fromNode :=
    (Graph.provider?_eq_some_iff hg).2 ⟨hdata, c, hc, hexec, rfl, rfl, rfl⟩
  have hreceived : g.received acyclic time done c.toNode c.toPort = some v := by
    simp [Graph.received, hprov, hdone, hv, Except.toOption]
  have hfilled : { inp with value? := some v } ∈ m.inputs := by
    rw [h.inputs c.toNode n m hn hm]
    refine List.mem_map.2 ⟨inp, hinp, ?_⟩
    rw [hid, hreceived]
    rfl
  have hintact := hg.of_bare_eq (Graph.bare_eq_of_clearValues_eq h.shape)
  have hport : m.port? inp.id = some { inp with value? := some v } :=
    Node.port?_of_mem (hintact.portsNodup c.toNode m hm) (List.mem_append_left _ hfilled)
  rw [Graph.slot?, Graph.port?_eq_some_iff.2 ⟨m, hm, hid ▸ hport⟩]
  rfl

variable [Behaves σ]

/-- **Once its producers are finished, a data node computes its plain value.** -/
theorem exists_value (h : Pulled g acyclic time table done s) (hg : g.Intact)
    (hstd : g.StandardData) (htable : table.Standard g) {id : NodeId}
    (hdata : g.isData id = true) {values : List (NodeId × Value)}
    (hvalues : g.plainInputs acyclic time id = .ok values) (hdone : g.producers id ⊆ done) :
    ∃ m state b, s.graph.node? id = some m ∧ s.table.get? id = some state ∧ ActsAs state b ∧
      b.IsData ∧ g.plain acyclic time id = b.value (.start m time) := by
  obtain ⟨n, hn, hcat⟩ := Graph.exists_of_isData hdata
  obtain ⟨m, hm, hmn⟩ := h.exists_node? hn
  obtain ⟨state, b, hstate, hbind, hacts⟩ := htable id n hn hcat
  obtain ⟨b', hbind', hb⟩ := (hstd.of_node? hn hcat).exists_bind
  obtain rfl : b = b' := by rw [hbind] at hbind'; exact Except.ok.inj hbind'
  refine ⟨m, state, b, hm, (h.states id).trans hstate, hacts, hb, ?_⟩
  -- all that feeds the node is finished, so its inputs hold the values of the recursion
  have hreceived : g.received acyclic time done id =
      fun port => (g.provider? id port).bind (values.lookup ·) := by
    funext port
    unfold Graph.received
    cases hprov : g.provider? id port with
    | none => rfl
    | some q =>
      obtain ⟨hq, c, hc, hexec, hfrom, hto, -⟩ := (Graph.provider?_eq_some_iff hg).1 hprov
      have hmem : q ∈ g.producers id := Graph.mem_producers_iff.2 ⟨hq, c, hc, hexec, hfrom, hto⟩
      obtain ⟨v, hv, hlookup⟩ := lookup_of_mapM hvalues q hmem
      simp only [Option.bind_some, if_pos (hdone hmem), hv, hlookup]
      rfl
  have hinputs := h.inputs id n m hn hm
  rw [hreceived] at hinputs
  rw [Graph.plain_eq, hvalues]
  show g.valueFrom time id values = _
  simp only [Graph.valueFrom, hn, hbind]
  refine Library.Behavior.value_congr ?_ hinputs.symm b
  exact (congrArg Node.id hmn).symm

end Pulled

/-! ## 3. The whole pull -/

/-- Plain recursion over a list of producers, of which only the failure matters. -/
def Graph.settled (g : Graph) (acyclic : g.Acyclic) (time : FrameTime) (ids : List NodeId) :
    Except EvalError Unit :=
  (ids.mapM fun q => (g.plain acyclic time q).map (q, ·)).map fun _ => ()

theorem Graph.settled_of_error {g : Graph} {acyclic : g.Acyclic} {time : FrameTime} {q : NodeId}
    {e : EvalError} (h : g.plain acyclic time q = .error e) (ids : List NodeId) :
    g.settled acyclic time (q :: ids) = .error e := by
  rw [settled, List.mapM_cons, h]
  rfl

theorem Graph.settled_of_ok {g : Graph} {acyclic : g.Acyclic} {time : FrameTime} {q : NodeId}
    {v : Value} (h : g.plain acyclic time q = .ok v) (ids : List NodeId) :
    g.settled acyclic time (q :: ids) = g.settled acyclic time ids := by
  rw [settled, settled, List.mapM_cons, h]
  cases ids.mapM (fun q => (g.plain acyclic time q).map (q, ·)) <;> rfl

theorem Graph.settled_producers (g : Graph) (acyclic : g.Acyclic) (time : FrameTime) (id : NodeId) :
    g.settled acyclic time (g.producers id) =
      (g.plainInputs acyclic time id).map fun _ => () := rfl

/-- What pulling the producers of a list comes to, from a scene on which `done` is finished. -/
def Settles (g : Graph) (acyclic : g.Acyclic) (time : FrameTime) (table : Table σ)
    (ids done : List NodeId) (s : Scene σ) (r : Step σ Unit) : Prop :=
  r.result = g.settled acyclic time ids ∧
  (r.result = .ok () → ∃ done', Pulled g acyclic time table done' r.scene ∧ done ⊆ done' ∧
    ids ⊆ done' ∧ ∀ x ∈ r.scene.resolved, x ∈ done' ∨ x ∈ s.resolved)

/-- What is remembered is finished, or waits for the node at hand. -/
def Waiting (g : Graph) (done : List NodeId) (s : Scene σ) (id : NodeId) : Prop :=
  ∀ x ∈ s.resolved, x ∈ done ∨ Relation.ReflTransGen g.Feeds id x

section Whole

variable {g : Graph}

/-- A producer of the node at hand that is remembered is finished, since it does not wait for
itself. -/
theorem Waiting.mem_done {done : List NodeId} {s : Scene σ} {id q : NodeId} (acyclic : g.Acyclic)
    (h : Waiting g done s id) (hq : q ∈ g.producers id) (hmem : q ∈ s.resolved) : q ∈ done := by
  refine (h q hmem).resolve_right fun hpath => ?_
  exact acyclic q (Relation.TransGen.head' (show g.Feeds q id from hq) hpath)

/-- A producer that is remembered waits for itself, and so does all that waited for its consumer. -/
theorem Waiting.remember {done : List NodeId} {s : Scene σ} {id q : NodeId}
    (h : Waiting g done s id) (hq : q ∈ g.producers id) :
    Waiting g done { s with resolved := s.resolved ++ [q] } q := by
  intro x hx
  rcases List.mem_append.1 hx with hx | hx
  · exact (h x hx).imp_right fun hpath => .head (show g.Feeds q id from hq) hpath
  · exact Or.inr (List.mem_singleton.1 hx ▸ .refl)

variable [Behaves σ] {acyclic : g.Acyclic} {time : FrameTime} {table : Table σ}

/-- **A data node is pulled as plain recursion evaluates it**: the failure of its producers or its
own failure is the failure of the recursion, and without one the node is finished. -/
theorem visit_settles (hg : g.Intact) (hstd : g.StandardData) (htable : table.Standard g)
    {deeper : Scene σ → NodeId → Step σ Unit} {id : NodeId} (hdata : g.isData id = true)
    {done : List NodeId} {s : Scene σ}
    (hdeeper : Settles g acyclic time table (g.producers id) done s (deeper s id)) :
    (∀ e, g.plain acyclic time id = .error e →
      (deeper s id).result = .error e ∨
      (deeper s id).result = .ok () ∧
        ((deeper s id).scene.evaluate time .data id).result = .error e) ∧
    (∀ v, g.plain acyclic time id = .ok v →
      (deeper s id).result = .ok () ∧
      (∃ r, ((deeper s id).scene.evaluate time .data id).result = .ok r) ∧
      ∃ done', Pulled g acyclic time table done'
          (((deeper s id).scene.evaluate time .data id).scene.push id) ∧
        done ⊆ done' ∧ id ∈ done' ∧
        ∀ x ∈ ((deeper s id).scene.evaluate time .data id).scene.resolved,
          x ∈ done' ∨ x ∈ s.resolved) := by
  obtain ⟨hres, hok⟩ := hdeeper
  have hplain := g.plain_eq acyclic time id
  cases hvalues : g.plainInputs acyclic time id with
  | error e' =>
    have hfail : (deeper s id).result = .error e' := by
      rw [hres, Graph.settled_producers, hvalues]
      rfl
    rw [hvalues] at hplain
    constructor
    · intro e he
      rw [he] at hplain
      cases hplain
      exact Or.inl hfail
    · intro v hv
      rw [hv] at hplain
      cases hplain
  | ok values =>
    have hbelow : (deeper s id).result = .ok () := by
      rw [hres, Graph.settled_producers, hvalues]
      rfl
    obtain ⟨done', h', hsub, hprod, hnew⟩ := hok hbelow
    obtain ⟨m, state, b, hm, hstate, hacts, hb, hvalue⟩ :=
      h'.exists_value hg hstd htable hdata hvalues hprod
    obtain ⟨herror, hwrite⟩ := Scene.evaluate_of_actsAs hstate hm hacts hb time
    constructor
    · intro e he
      exact Or.inr ⟨hbelow, herror e (hvalue.symm.trans he)⟩
    · intro v hv
      obtain ⟨hresult, hscene⟩ := hwrite v (hvalue.symm.trans hv)
      refine ⟨hbelow, ⟨_, hresult⟩, id :: done', ?_, ?_, List.mem_cons_self, ?_⟩
      · rw [hscene]
        exact h'.finish hg hstd hdata hm hstate hv
      · exact fun x hx => List.mem_cons_of_mem _ (hsub hx)
      · rw [hscene]
        exact fun x hx => (hnew x hx).imp_left (List.mem_cons_of_mem _)

theorem pullWith_settles (hg : g.Intact) (hstd : g.StandardData) (htable : table.Standard g)
    {deeper : Scene σ → NodeId → Step σ Unit} {parent : NodeId}
    (hranked : ∀ q ∈ g.producers parent, g.Ranked q)
    (hdeeper : ∀ q ∈ g.producers parent, ∀ done s, Pulled g acyclic time table done s →
      Waiting g done s q → Settles g acyclic time table (g.producers q) done s (deeper s q)) :
    ∀ (ids done : List NodeId) (s : Scene σ), ids ⊆ g.producers parent →
      Pulled g acyclic time table done s → Waiting g done s parent →
      Settles g acyclic time table ids done s (Scene.pullWith time deeper ids s)
  | [], done, s, _, h, _ => by
    refine ⟨rfl, fun _ => ⟨done, h, List.Subset.refl done, List.nil_subset done, ?_⟩⟩
    exact fun x hx => Or.inr hx
  | id :: ids, done, s, hids, h, hwait => by
    have hid : id ∈ g.producers parent := hids List.mem_cons_self
    have hids' : ids ⊆ g.producers parent := fun x hx => hids (List.mem_cons_of_mem _ hx)
    have hdata : g.isData id = true := (Graph.mem_producers_iff.1 hid).1
    unfold Scene.pullWith
    by_cases hmem : id ∈ s.resolved
    · -- the node is finished
      rw [if_pos (List.contains_iff_mem.2 hmem)]
      have hdone := hwait.mem_done acyclic hid hmem
      obtain ⟨v, hv⟩ := h.valued id hdone
      obtain ⟨hres, hok⟩ := pullWith_settles hg hstd htable hranked hdeeper ids done s hids' h hwait
      refine ⟨hres.trans (Graph.settled_of_ok hv ids).symm, fun hr => ?_⟩
      obtain ⟨done', h', hsub, hsub', hnew⟩ := hok hr
      exact ⟨done', h', hsub, List.cons_subset.2 ⟨hsub hdone, hsub'⟩, hnew⟩
    · rw [if_neg (fun hc => hmem (List.contains_iff_mem.1 hc))]
      have hrank : (s.graph.node? id).any Node.isScheduled = true := by
        rw [Graph.any_isScheduled]
        refine decide_eq_true ?_
        rw [Graph.Ranked, h.rank_eq]
        exact hranked id hid
      simp only [hrank, if_true]
      have hdeeper' := hdeeper id hid done _ (h.remember id) (hwait.remember hid)
      obtain ⟨hfail, hfinish⟩ := visit_settles hg hstd htable hdata hdeeper'
      cases hplain : g.plain acyclic time id with
      | error e =>
        rw [Settles, Graph.settled_of_error hplain]
        rcases hfail e hplain with hbelow | ⟨hbelow, hown⟩
        · simp only [hbelow]
          exact ⟨trivial, fun hr => nomatch hr⟩
        · simp only [hbelow, hown]
          exact ⟨trivial, fun hr => nomatch hr⟩
      | ok v =>
        obtain ⟨hbelow, ⟨r, hown⟩, done₁, h₁, hsub₁, hid₁, hnew₁⟩ := hfinish v hplain
        have hold : ∀ x ∈ s.resolved ++ [id], x ∈ done₁ ∨ x ∈ s.resolved := by
          intro x hx
          rcases List.mem_append.1 hx with hx | hx
          · exact Or.inr hx
          · exact Or.inl (List.mem_singleton.1 hx ▸ hid₁)
        have hwait₁ : Waiting g done₁ (Scene.push (Scene.evaluate time .data
            (deeper { s with resolved := s.resolved ++ [id] } id).scene id).scene id) parent := by
          intro x hx
          rcases (hnew₁ x hx).elim Or.inl (hold x) with hx | hx
          · exact Or.inl hx
          · exact (hwait x hx).imp_left fun hx => hsub₁ hx
        obtain ⟨hres, hok⟩ :=
          pullWith_settles hg hstd htable hranked hdeeper ids done₁ _ hids' h₁ hwait₁
        simp only [hbelow, hown]
        refine ⟨hres.trans (Graph.settled_of_ok hplain ids).symm, fun hr => ?_⟩
        obtain ⟨done₂, h₂, hsub₂, hids₂, hnew₂⟩ := hok hr
        refine ⟨done₂, h₂, fun x hx => hsub₂ (hsub₁ hx),
          List.cons_subset.2 ⟨hsub₂ hid₁, hids₂⟩, fun x hx => ?_⟩
        rcases hnew₂ x hx with hx | hx
        · exact Or.inl hx
        · exact ((hnew₁ x hx).elim Or.inl (hold x)).imp_left fun hx => hsub₂ hx

/-- **Within enough depth, a pull settles the producers of its node.** -/
theorem resolveWithin_settles (hg : g.Intact) (hstd : g.StandardData) (htable : table.Standard g)
    (hranked : ∀ p q, g.Ranked q → p ∈ g.producers q → g.Ranked p) :
    ∀ (fuel : Nat) (id : NodeId), g.Ranked id → (∀ p, ¬ g.DataWalk (fuel + 1) p id) →
      ∀ (done : List NodeId) (s : Scene σ), Pulled g acyclic time table done s →
      Waiting g done s id →
      Settles g acyclic time table (g.producers id) done s (Scene.resolveWithin time fuel s id)
  | 0, id, _, hdepth, done, s, h, _ => by
    rw [Graph.producers_eq_nil_of_not_dataWalk hdepth]
    exact ⟨rfl, fun _ => ⟨done, h, List.Subset.refl done, List.nil_subset done,
      fun x hx => Or.inr hx⟩⟩
  | fuel + 1, id, hid, hdepth, done, s, h, hwait => by
    unfold Scene.resolveWithin
    rw [h.producers_eq]
    refine pullWith_settles hg hstd htable (fun q hq => hranked q id hid hq) ?_ _ done s
      (List.Subset.refl _) h hwait
    intro q hq
    exact resolveWithin_settles hg hstd htable hranked fuel q (hranked q id hid hq)
      fun p hw => hdepth p (hw.snoc hq)

end Whole

/-! ## 4. The law -/

namespace Graph

variable {g g' : Graph}

theorem Acyclic.of_bare_eq (h : g.Acyclic) (hb : g'.bare = g.bare) : g'.Acyclic := by
  have hfeeds : g'.Feeds = g.Feeds := by
    unfold Feeds
    rw [producers_eq_of_bare hb]
  intro id
  rw [hfeeds]
  exact h id

theorem FlowApart.of_bare_eq (h : g.FlowApart) (hb : g'.bare = g.bare) : g'.FlowApart := by
  intro c hc hexec
  rw [links_eq_of_bare hb] at hc
  rw [isData_eq_of_bare hb]
  exact h c hc hexec

/-- No data node has a control-flow port. -/
def PortsApart (g : Graph) : Prop :=
  ∀ n ∈ g.nodes.values, n.category = .data → ∀ p ∈ n.ports, p.type ≠ .exec

instance (g : Graph) : Decidable g.PortsApart :=
  inferInstanceAs (Decidable (∀ n ∈ g.nodes.values, _))

/-- A link has a port at each end, so where no data node has a control-flow port, no control link
touches one. -/
theorem PortsApart.flowApart (h : g.PortsApart) (hg : g.Intact) : g.FlowApart := by
  have hend : ∀ {id port p}, g.port? id port = some p → p.type = .exec → g.isData id = false := by
    intro id port p hport htype
    refine Bool.eq_false_iff.2 fun hdata => ?_
    obtain ⟨n, hn, hcat⟩ := exists_of_isData hdata
    obtain ⟨m, hm, hp⟩ := port?_eq_some_iff.1 hport
    obtain rfl : n = m := Option.some.inj (hn.symm.trans hm)
    exact h n ((OrderedMap.mem_values_iff _ _).2 ⟨id, hn⟩) hcat p (Node.port?_mem hp).1 htype
  intro c hc hexec
  obtain ⟨out, inp, hj⟩ := hg.joined c hc
  have hout : out.type = .exec := hj.exec_iff.1 hexec
  exact ⟨hend hj.source hout, hend hj.target ((PortType.feeds_exec_iff hj.feeds).1 hout)⟩

/-- Standard data nodes have no control-flow ports. -/
theorem StandardData.portsApart (h : g.StandardData) : g.PortsApart := by
  intro n hn hcat p hp
  rcases List.mem_append.1 hp with hp | hp
  · exact (h n hn hcat).input_type_ne p hp
  · obtain ⟨q, hout, hexec⟩ := (h n hn hcat).exists_output
    rw [hout, List.mem_singleton] at hp
    exact hp ▸ of_decide_eq_false hexec

theorem StandardData.flowApart (h : g.StandardData) (hg : g.Intact) : g.FlowApart :=
  h.portsApart.flowApart hg

/-- After scheduling, what feeds a ranked node of an acyclic graph is ranked. -/
theorem ranked_of_producer (hg : g.Intact) (hflow : g.FlowApart) (acyclic : g.Acyclic) (max : Nat)
    (kinds : List EntryKind) {p q : NodeId} (hq : (g.schedule max kinds).1.Ranked q)
    (hp : p ∈ g.producers q) : (g.schedule max kinds).1.Ranked p := by
  obtain ⟨first, second, control, classes, hs, hgraph, -⟩ := schedule_spec hg hflow max kinds
  have hshallow : g.Shallow first.computed :=
    fun _ _ _ hw => absurd (acyclic.le_size hw) (Nat.not_succ_le_self _)
  rw [hgraph] at hq ⊢
  have hnonneg := (hs.rank_lt_of_producer hshallow hp (ne_unscheduled_of_ranked hq)).1
  exact Int.lt_of_lt_of_le (by decide) hnonneg

end Graph

/-- **A pull for a ranked node gives what plain recursion gives.**  On a built graph with standard
and acyclic data nodes, right after scheduling and with any contents of the slots, a pull that
remembers nothing yet fails exactly if plain recursion over the producers of the node does, with the
same failure; otherwise every input of the node that is linked from a data node holds the plain
value of that data node. -/
theorem pull_agrees_with_plain {σ : Type u} [Behaves σ] (g : Graph) (built : g.Built) (max : Nat)
    (kinds : List EntryKind) (s : Scene σ)
    (scheduled : s.graph.clearValues = (g.schedule max kinds).1.clearValues)
    (standard : s.graph.StandardData) (bound : s.table.Standard s.graph)
    (acyclic : s.graph.Acyclic) (fresh : s.resolved = []) (time : FrameTime) (id : NodeId)
    (ranked : s.graph.Ranked id) :
    (s.resolve time id).result = (s.graph.plainInputs acyclic time id).map (fun _ => ()) ∧
    ((s.resolve time id).result = .ok () →
      ∀ c ∈ s.graph.links, c.toNode = id → s.graph.isData c.fromNode = true →
        ∃ v, s.graph.plain acyclic time c.fromNode = .ok v ∧
          (s.resolve time id).scene.graph.slot? id c.toPort = some v) := by
  have hbare : s.graph.bare = g.bare :=
    (Graph.bare_eq_of_clearValues_eq scheduled).trans (g.bare_schedule max kinds)
  have hg : s.graph.Intact := built.intact.of_bare_eq hbare
  have hflow := standard.flowApart hg
  have hrank : s.graph.rank = (g.schedule max kinds).1.rank :=
    Graph.rank_eq_of_clearValues scheduled
  have hclosed : ∀ p q, s.graph.Ranked q → p ∈ s.graph.producers q → s.graph.Ranked p := by
    intro p q hq hp
    rw [Graph.producers_eq_of_bare hbare] at hp
    rw [Graph.Ranked, hrank] at hq ⊢
    exact Graph.ranked_of_producer built.intact (hflow.of_bare_eq hbare.symm)
      (acyclic.of_bare_eq hbare.symm) max kinds hq hp
  have hdepth : ∀ p, ¬ s.graph.DataWalk (s.graph.nodes.size + 1) p id :=
    fun _ hw => absurd (acyclic.le_size hw) (Nat.not_succ_le_self _)
  have hwait : Waiting s.graph [] s id := by
    intro x hx
    rw [fresh] at hx
    cases hx
  obtain ⟨hres, hok⟩ := resolveWithin_settles hg standard bound hclosed s.graph.nodes.size id ranked
    hdepth [] s (Pulled.start acyclic time) hwait
  refine ⟨hres, fun hr c hc hto hdata => ?_⟩
  subst hto
  obtain ⟨done, h, -, hdone, -⟩ := hok hr
  have hexec : c.exec = false := by
    refine Bool.eq_false_iff.2 fun hexec => ?_
    rw [(hflow c hc hexec).1] at hdata
    cases hdata
  have hmem : c.fromNode ∈ done :=
    hdone (Graph.mem_producers_iff.2 ⟨hdata, c, hc, hexec, rfl, rfl⟩)
  obtain ⟨v, hv⟩ := h.valued c.fromNode hmem
  exact ⟨v, hv, h.slot?_eq hg hc hexec hdata hmem hv⟩

/-! ### Tables of the standard registry -/

namespace Table

variable {σ : Type u} {r : Registry σ}

/-- Binding keeps what is bound. -/
theorem get?_bindMissing {id : NodeId} {state : σ} :
    ∀ (ns : List Node) {t : Table σ}, t.get? id = some state →
      (bindMissing r ns t).1.get? id = some state
  | [], _, h => h
  | n :: ns, t, h => by
    unfold bindMissing
    split
    · exact get?_bindMissing ns h
    · next hfree =>
      split
      · exact h
      · refine get?_bindMissing ns ?_
        rw [OrderedMap.get?_insert, if_neg, h]
        rintro rfl
        rw [OrderedMap.contains, h] at hfree
        exact hfree rfl

/-- Binding that does not fail binds every node that was not bound. -/
theorem exists_bind_of_bindMissing :
    ∀ {ns : List Node} {t : Table σ}, (ns.map Node.id).Nodup →
      (bindMissing r ns t).2.2 = .ok () → ∀ n ∈ ns, t.get? n.id = none →
      ∃ b, r.bind n = .ok b ∧ (bindMissing r ns t).1.get? n.id = some b
  | [], _, _, _ => fun _ hn => nomatch hn
  | m :: ns, t, hnodup, hok => by
    rw [List.map_cons, List.nodup_cons] at hnodup
    intro n hn hnone
    unfold bindMissing at hok ⊢
    split at hok
    · next hbound =>
      rw [if_pos hbound]
      have hne : n ≠ m := by
        rintro rfl
        rw [OrderedMap.contains, hnone] at hbound
        cases hbound
      exact exists_bind_of_bindMissing hnodup.2 hok n ((List.mem_cons.1 hn).resolve_left hne) hnone
    · next hfree =>
      rw [if_neg hfree]
      split at hok
      · cases hok
      · next b hb =>
        rcases List.mem_cons.1 hn with rfl | hmem
        · refine ⟨b, hb, get?_bindMissing ns ?_⟩
          rw [OrderedMap.get?_insert, if_pos rfl]
        · refine exists_bind_of_bindMissing hnodup.2 hok n hmem ?_
          rw [OrderedMap.get?_insert, if_neg, hnone]
          intro hid
          exact hnodup.1 (hid ▸ List.mem_map.2 ⟨n, hmem, rfl⟩)

/-- **A graph that is bound to the standard behaviors has a standard table.** -/
theorem standard_of_sync {g : Graph} (hg : g.Intact) (hstd : g.StandardData)
    (hok : (sync .empty Library.registry g).2.2 = .ok ()) :
    (sync .empty Library.registry g).1.Standard g := by
  intro id n hn hcat
  obtain ⟨b, hb, hget⟩ := exists_bind_of_bindMissing (hg.map_id_values ▸ g.nodes.keys_nodup) hok n
    ((OrderedMap.mem_values_iff _ _).2 ⟨id, hn⟩) rfl
  obtain ⟨b', hb', hdata⟩ := (hstd.of_node? hn hcat).exists_bind
  obtain rfl : b = b' := Except.ok.inj (hb.symm.trans hb')
  exact ⟨b, b, hg.nodeKey id n hn ▸ hget, hb, actsAs_self hdata⟩

end Table

/-- The example after scheduling, with a leftover text in every input slot. -/
def exampleLeftover : Graph :=
  (exampleGraph.schedule 100 [.update]).1.mapNodes fun n =>
    { n with inputs := n.inputs.map fun p => { p with value? := some (.string "leftover") } }

/-- The example with leftover slots, ready for a pull. -/
def exampleScene : Scene Library.Behavior :=
  ⟨exampleLeftover, (Table.sync .empty Library.registry exampleLeftover).1, []⟩

theorem exampleLeftover_scheduled :
    exampleLeftover.clearValues = (exampleGraph.schedule 100 [.update]).1.clearValues := by
  refine Graph.clearValues_touch _ fun _ n _ => ?_
  simp [Node.clearValues, Function.comp_def]

theorem exampleLeftover_acyclic : exampleLeftover.Acyclic :=
  Graph.acyclic_of_numbering (fun id => (exampleLeftover.rank id).toNat) (by decide +kernel)

theorem exampleScene_standard : exampleScene.table.Standard exampleLeftover := by
  have hbare : exampleLeftover.bare = exampleGraph.bare :=
    (Graph.bare_eq_of_clearValues_eq exampleLeftover_scheduled).trans
      (Graph.bare_schedule exampleGraph 100 [.update])
  exact Table.standard_of_sync (exampleGraph_built.intact.of_bare_eq hbare) (by decide +kernel)
    (by decide +kernel)

/-- The text that the example prints is pulled through an adder and a template: the leftovers in the
slots on the way are not seen. -/
theorem example_pull_agrees :
    exampleLeftover.Ranked (exampleId 4) ∧
    (exampleScene.resolve .zero (exampleId 4)).result = .ok () ∧
    ∀ c ∈ exampleLeftover.links, c.toNode = exampleId 4 →
      exampleLeftover.isData c.fromNode = true →
      exampleLeftover.plain exampleLeftover_acyclic .zero c.fromNode = .ok (.string "0") ∧
      (exampleScene.resolve .zero (exampleId 4)).scene.graph.slot? (exampleId 4) c.toPort =
        some (.string "0") := by
  have ranked : exampleLeftover.Ranked (exampleId 4) := by decide +kernel
  have hok : (exampleScene.resolve .zero (exampleId 4)).result = .ok () := by decide +kernel
  have hslot : ∀ c ∈ exampleLeftover.links, c.toNode = exampleId 4 →
      exampleLeftover.isData c.fromNode = true →
      (exampleScene.resolve .zero (exampleId 4)).scene.graph.slot? (exampleId 4) c.toPort =
        some (.string "0") := by decide +kernel
  refine ⟨ranked, hok, fun c hc hto hdata => ?_⟩
  obtain ⟨v, hv, hheld⟩ := (pull_agrees_with_plain exampleGraph exampleGraph_built 100 [.update]
    exampleScene exampleLeftover_scheduled (by decide +kernel) exampleScene_standard
    exampleLeftover_acyclic rfl .zero (exampleId 4) ranked).2 hok c hc hto hdata
  have hzero : some v = some (Value.string "0") := hheld.symm.trans (hslot c hc hto hdata)
  exact ⟨Option.some.inj hzero ▸ hv, hslot c hc hto hdata⟩

end FlowScript
