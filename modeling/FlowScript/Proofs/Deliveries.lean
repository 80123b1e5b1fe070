/-
# Pushes follow the links exactly

A push looks up the links of each output by the name of its port, and writes each value through a
search by name among the inputs and then the outputs of the node at the other end.  Nothing in this
says that what is found is the far end of a link of the pushing node, or that it is written once.
Integrity does: a name belongs to one port, and a data input takes one link.

* `Graph.Sends` says what a push carries where, read off the outputs; `sends_iff` says the same of
  the links.
* `Sends.unique` is the fact that carries the rest: whatever is sent to a port comes from one node,
  and is one value.
* `port?_pushOutputs` is the effect of a push on any port: the value that is sent there, or nothing.

A push does not touch what pushes read (`sends_pushOutputs`), and two graphs of one shape with the
same ports are the same.  So it is enough to look at one port to see that a push may be repeated,
and that two of them may be made in either order (`pushes_follow_links`).
-/
import FlowScript.Proofs.Independence

namespace FlowScript

/-- The port with a given value in its slot. -/
def Port.holding (p : Port) (v : Value) : Port := { p with value? := some v }

namespace Graph

/-! ## 1. What a push carries -/

/-- A push of the node `id` carries the value `v` to the port `q` of the node `k`: some data output
of the node holds the value, and a link from that output ends at the port. -/
def Sends (g : Graph) (id k : NodeId) (q : PortId) (v : Value) : Prop :=
  ∃ n p c, g.node? id = some n ∧ p ∈ n.outputs ∧ p.isExec = false ∧ p.value? = some v ∧
    c ∈ g.linksFrom p.id ∧ c.toNode = k ∧ c.toPort = q

variable {g : Graph} {id k : NodeId} {q : PortId} {v : Value}

theorem mem_deliveries_iff_sends {n : Node} (hn : g.node? id = some n) :
    (k, q, v) ∈ g.deliveries n ↔ g.Sends id k q v := by
  rw [mem_deliveries_iff]
  constructor
  · rintro ⟨p, hp, hexec, hv, c, hc, hfrom, hto, hport⟩
    exact ⟨n, p, c, hn, hp, hexec, hv, List.mem_filter.2 ⟨hc, decide_eq_true hfrom⟩, hto, hport⟩
  · rintro ⟨m, p, c, hm, hp, hexec, hv, hc, hto, hport⟩
    obtain rfl : n = m := Option.some.inj (hn.symm.trans hm)
    obtain ⟨hlink, hfrom⟩ := List.mem_filter.1 hc
    exact ⟨p, hp, hexec, hv, c, hlink, of_decide_eq_true hfrom, hto, hport⟩

/-- **Values go over the data links of the node**, each from the slot that its link starts at. -/
theorem Intact.sends_iff (hg : g.Intact) :
    g.Sends id k q v ↔ ∃ c ∈ g.links, c.exec = false ∧ c.fromNode = id ∧
      g.slot? c.fromNode c.fromPort = some v ∧ c.toNode = k ∧ c.toPort = q := by
  constructor
  · rintro ⟨n, p, c, hn, hp, hexec, hv, hc, hto, hport⟩
    obtain ⟨hlink, hfrom⟩ := List.mem_filter.1 hc
    have hid : c.fromPort = p.id := of_decide_eq_true hfrom
    have hmem : p ∈ n.ports := List.mem_append_right _ hp
    obtain ⟨hnode, hflag⟩ := hg.source_of_fromPort hlink hn hmem hid
    refine ⟨c, hlink, Bool.eq_false_iff.2 fun h => ?_, hnode, ?_, hto, hport⟩
    · exact of_decide_eq_false hexec (hflag.1 h)
    · rw [slot?, port?, hnode, hn, hid, Option.bind_some,
        Node.port?_of_mem (hg.portsNodup id n hn) hmem]
      exact hv
  · rintro ⟨c, hc, hexec, rfl, hslot, hto, hport⟩
    obtain ⟨out, inp, hj⟩ := hg.joined c hc
    obtain ⟨n, hn, hp, hid⟩ := hg.exists_output hj.source hj.fromOutput
    have hdata : out.isExec = false := decide_eq_false fun h => by
      rw [hj.exec_iff.2 h] at hexec
      cases hexec
    rw [slot?, hj.source] at hslot
    exact ⟨n, out, c, hn, hp, hdata, hslot, List.mem_filter.2 ⟨hc, decide_eq_true hid.symm⟩,
      hto, hport⟩

/-- **A port is sent one value, by one node.** -/
theorem Sends.unique (hg : g.Intact) {a b : NodeId} {w : Value} (ha : g.Sends a k q v)
    (hb : g.Sends b k q w) : a = b ∧ v = w := by
  obtain ⟨c, hc, hexec, rfl, hv, -, hport⟩ := hg.sends_iff.1 ha
  obtain ⟨d, hd, -, rfl, hw, -, hport'⟩ := hg.sends_iff.1 hb
  have hdc : d = c := hg.eq_of_toPort_eq hc hd hexec (hport'.trans hport.symm)
  subst hdc
  exact ⟨rfl, Option.some.inj (hv.symm.trans hw)⟩

/-- What is sent goes to an input. -/
theorem Sends.exists_input (hg : g.Intact) (h : g.Sends id k q v) :
    ∃ p, g.port? k q = some p ∧ p.direction = .input := by
  obtain ⟨c, hc, -, -, -, rfl, rfl⟩ := hg.sends_iff.1 h
  obtain ⟨out, inp, hj⟩ := hg.joined c hc
  exact ⟨inp, hj.target, hj.toInput⟩

/-! ## 2. The effect on one port -/

/-- Deliveries that agree about a port leave it with the value that they are for. -/
theorem port?_deliverAll_of_mem :
    ∀ {l : List (NodeId × PortId × Value)} {g : Graph}, (∀ w, (k, q, w) ∈ l → w = v) →
      (k, q, v) ∈ l →
      (l.foldl (fun g d => g.deliver d.1 d.2.1 d.2.2) g).port? k q = (g.port? k q).map (·.holding v)
  | [], _, _, hmem => nomatch hmem
  | (k', q', w) :: l, g, hagree, hmem => by
    have hfirst := port?_deliver g k' q' w k q
    have hagree' : ∀ w', (k, q, w') ∈ l → w' = v :=
      fun w' hw => hagree w' (List.mem_cons_of_mem _ hw)
    rw [List.foldl_cons]
    by_cases hlater : (k, q, v) ∈ l
    · -- the port is written again: what it gets now does not last
      rw [port?_deliverAll_of_mem hagree' hlater, hfirst]
      split
      · rw [Option.map_map]
        rfl
      · rfl
    · obtain ⟨rfl, rfl, rfl⟩ : k = k' ∧ q = q' ∧ v = w := by
        simpa using (List.mem_cons.1 hmem).resolve_right hlater
      rw [port?_deliverAll_of_not_mem, hfirst, if_pos ⟨rfl, rfl⟩]
      · rfl
      · rintro ⟨k', q', w'⟩ hd ⟨rfl, rfl⟩
        exact hlater (hagree' w' hd ▸ hd)

theorem port?_pushOutputs_of_sends (hg : g.Intact) (h : g.Sends id k q v) :
    (g.pushOutputs id).port? k q = (g.port? k q).map (·.holding v) := by
  have ⟨n, _, _, hn, _⟩ := h
  unfold pushOutputs
  rw [hn]
  refine port?_deliverAll_of_mem (fun w hw => ?_) ((mem_deliveries_iff_sends hn).2 h)
  exact (((mem_deliveries_iff_sends hn).1 hw).unique hg h).2

theorem port?_pushOutputs_of_not_sends (h : ∀ v, ¬ g.Sends id k q v) :
    (g.pushOutputs id).port? k q = g.port? k q := by
  unfold pushOutputs
  cases hn : g.node? id with
  | none => rfl
  | some n =>
    refine port?_deliverAll_of_not_mem ?_
    rintro ⟨k', q', w⟩ hd ⟨rfl, rfl⟩
    exact h w ((mem_deliveries_iff_sends hn).1 hd)

/-- **What a push does to a port**: it gets the one value that is sent there,
or it stays as it is. -/
theorem port?_pushOutputs (hg : g.Intact) (id k : NodeId) (q : PortId) :
    (∃ v, g.Sends id k q v ∧ (g.pushOutputs id).port? k q = (g.port? k q).map (·.holding v)) ∨
      (∀ v, ¬ g.Sends id k q v) ∧ (g.pushOutputs id).port? k q = g.port? k q := by
  by_cases h : ∃ v, g.Sends id k q v
  · obtain ⟨v, hv⟩ := h
    exact .inl ⟨v, hv, port?_pushOutputs_of_sends hg hv⟩
  · have hnone : ∀ v, ¬ g.Sends id k q v := fun v hv => h ⟨v, hv⟩
    exact .inr ⟨hnone, port?_pushOutputs_of_not_sends hnone⟩

/-- The near end of a link is an output, and nothing is sent to outputs. -/
theorem slot?_pushOutputs_source (hg : g.Intact) (a : NodeId) {c : Connection} (hc : c ∈ g.links) :
    (g.pushOutputs a).slot? c.fromNode c.fromPort = g.slot? c.fromNode c.fromPort := by
  rw [slot?, port?_pushOutputs_of_not_sends, slot?]
  intro w hw
  obtain ⟨out, inp, hj⟩ := hg.joined c hc
  obtain ⟨p, hp, hside⟩ := hw.exists_input hg
  obtain rfl : out = p := Option.some.inj (hj.source.symm.trans hp)
  rw [hj.fromOutput] at hside
  cases hside

/-- **A push does not change what any push sends.** -/
theorem sends_pushOutputs (hg : g.Intact) (a : NodeId) :
    (g.pushOutputs a).Sends id k q v ↔ g.Sends id k q v := by
  have hbare : (g.pushOutputs a).bare = g.bare :=
    bare_eq_of_clearValues_eq (clearValues_pushOutputs g a)
  rw [hg.sends_iff, (hg.of_bare_eq hbare).sends_iff, links_eq_of_bare hbare]
  refine exists_congr fun c => and_congr_right fun hc => ?_
  rw [slot?_pushOutputs_source hg a hc]

/-! ## 3. Several pushes -/

theorem Intact.pushOutputs (hg : g.Intact) (a : NodeId) : (g.pushOutputs a).Intact :=
  hg.of_bare_eq (bare_eq_of_clearValues_eq (clearValues_pushOutputs g a))

/-- A second push of the same node sends what the first has sent. -/
theorem pushOutputs_idem (hg : g.Intact) (a : NodeId) :
    (g.pushOutputs a).pushOutputs a = g.pushOutputs a := by
  refine eq_of_ports (hg.pushOutputs a) (clearValues_pushOutputs _ a) fun k q => ?_
  rcases port?_pushOutputs hg a k q with ⟨v, hv, hport⟩ | ⟨hnone, -⟩
  · rw [port?_pushOutputs_of_sends (hg.pushOutputs a) ((sends_pushOutputs hg a).2 hv), hport,
      Option.map_map]
    rfl
  · exact port?_pushOutputs_of_not_sends fun v hv => hnone v ((sends_pushOutputs hg a).1 hv)

/-- **Pushes commute**: a port that both nodes send to is sent the same by both. -/
theorem pushOutputs_comm (hg : g.Intact) (a b : NodeId) :
    (g.pushOutputs a).pushOutputs b = (g.pushOutputs b).pushOutputs a := by
  have hthen : ∀ {a b k q v}, g.Sends b k q v →
      ((g.pushOutputs a).pushOutputs b).port? k q =
        ((g.pushOutputs a).port? k q).map (·.holding v) :=
    fun h => port?_pushOutputs_of_sends (hg.pushOutputs _) ((sends_pushOutputs hg _).2 h)
  have hskip : ∀ {a b k q}, (∀ v, ¬ g.Sends b k q v) →
      ((g.pushOutputs a).pushOutputs b).port? k q = (g.pushOutputs a).port? k q := fun h =>
    port?_pushOutputs_of_not_sends fun v hv => h v ((sends_pushOutputs hg _).1 hv)
  refine eq_of_ports ((hg.pushOutputs b).pushOutputs a) ?_ fun k q => ?_
  · simp only [clearValues_pushOutputs]
  rcases port?_pushOutputs hg a k q with ⟨v, hv, ha⟩ | ⟨hna, ha⟩
  · rcases port?_pushOutputs hg b k q with ⟨w, hw, hb⟩ | ⟨hnb, hb⟩
    · obtain ⟨-, rfl⟩ := hv.unique hg hw
      rw [hthen hw, hthen hv, ha, hb]
    · rw [hskip hnb, hthen hv, ha, hb]
  · rcases port?_pushOutputs hg b k q with ⟨w, hw, hb⟩ | ⟨hnb, hb⟩
    · rw [hthen hw, hskip hna, ha, hb]
    · rw [hskip hnb, hskip hna, ha, hb]

end Graph

/-! ## 4. The law -/

/-- **A push delivers exactly along the links.**  On a built graph, after a push of a node:

* for each of its data outputs that holds a value, the input at the end of every link from that
  output holds this value;
* every port that nothing was sent to is as it was; among these are the ends of control links, of
  links from outputs without a value, and of links from other nodes;
* but for slots, the graph is the same: ranks, defaults, settings, links and revision.

So a push may be repeated without effect.  And two pushes may be made in either order: on a built
graph no data input accepts several links. -/
theorem pushes_follow_links (g : Graph) (built : g.Built) :
    (∀ id n p v c, g.node? id = some n → p ∈ n.outputs → p.isExec = false → p.value? = some v →
      c ∈ g.linksFrom p.id → ∃ q, (g.pushOutputs id).port? c.toNode c.toPort = some q ∧
        q.direction = .input ∧ q.value? = some v) ∧
    (∀ id k q, (∀ v, ¬ g.Sends id k q v) → (g.pushOutputs id).port? k q = g.port? k q) ∧
    (∀ id, ∀ c ∈ g.links,
      c.exec = true ∨ c.fromNode ≠ id ∨ g.slot? c.fromNode c.fromPort = none →
        (g.pushOutputs id).port? c.toNode c.toPort = g.port? c.toNode c.toPort) ∧
    (∀ id, (g.pushOutputs id).clearValues = g.clearValues) ∧
    (∀ id, (g.pushOutputs id).pushOutputs id = g.pushOutputs id) ∧
    ∀ a b, (g.pushOutputs a).pushOutputs b = (g.pushOutputs b).pushOutputs a := by
  have hg := built.intact
  refine ⟨?_, fun _ _ _ => Graph.port?_pushOutputs_of_not_sends, ?_,
    Graph.clearValues_pushOutputs g, Graph.pushOutputs_idem hg, Graph.pushOutputs_comm hg⟩
  · intro id n p v c hn hp hexec hv hc
    have hsent : g.Sends id c.toNode c.toPort v := ⟨n, p, c, hn, hp, hexec, hv, hc, rfl, rfl⟩
    obtain ⟨q, hq, hside⟩ := hsent.exists_input hg
    refine ⟨q.holding v, ?_, hside, rfl⟩
    rw [Graph.port?_pushOutputs_of_sends hg hsent, hq]
    rfl
  · intro id c hc hother
    refine Graph.port?_pushOutputs_of_not_sends fun v hv => ?_
    obtain ⟨d, hd, hexec, rfl, hslot, -, hport⟩ := hg.sends_iff.1 hv
    -- whatever is sent to this port comes over the link at hand
    obtain rfl : c = d := hg.eq_of_toPort_eq hd hc hexec hport.symm
    rcases hother with hflow | hfrom | hempty
    · rw [hexec] at hflow
      cases hflow
    · exact hfrom rfl
    · rw [hempty] at hslot
      cases hslot

/-- The constant of the example with a text in its output. -/
def filledConstant : Node := (exampleNode 1 Library.constantType).setOutput 0 (.string "constant")

/-- The example with texts in the outputs of the constant and of the template.  The adder between
them is without a value. -/
def filledGraph : Graph :=
  (exampleGraph.modifyNode (exampleId 1) fun _ => filledConstant).modifyNode (exampleId 3)
    (·.setOutput 0 (.string "template"))

theorem node?_filledGraph : filledGraph.node? (exampleId 1) = some filledConstant := rfl

theorem filledGraph_built : filledGraph.Built := by
  refine .written exampleGraph_built (Graph.bare_eq_of_clearValues_eq ?_)
  refine (Graph.clearValues_modifyNode _ fun n _ => Node.clearValues_setOutput n 0 _).trans ?_
  refine Graph.clearValues_modifyNode _ fun n hn => ?_
  obtain rfl : exampleNode 1 Library.constantType = n := Option.some.inj hn
  exact Node.clearValues_setOutput _ 0 _

/-- The constant comes to the adder and nothing else changes; the adder has nothing to send; and it
does not matter whether the template comes to what is printed before or after. -/
theorem filled_pushes_follow_links :
    filledGraph.Built ∧
      (∃ q,
        (filledGraph.pushOutputs (exampleId 1)).port? (exampleId 2)
          (((Supply.counting 1).node 2).input 0) = some q ∧
        q.direction = .input ∧ q.value? = some (.string "constant")) ∧
      (∀ c ∈ filledGraph.links, c.fromNode ≠ exampleId 1 →
        (filledGraph.pushOutputs (exampleId 1)).port? c.toNode c.toPort =
          filledGraph.port? c.toNode c.toPort) ∧
      (filledGraph.pushOutputs (exampleId 2)).slot? (exampleId 3)
        (((Supply.counting 1).node 3).input 0) = none ∧
      (filledGraph.pushOutputs (exampleId 1)).pushOutputs (exampleId 3) =
        (filledGraph.pushOutputs (exampleId 3)).pushOutputs (exampleId 1) := by
  obtain ⟨hsent, -, hother, -, -, hcomm⟩ := pushes_follow_links filledGraph filledGraph_built
  have hconstant := hsent (exampleId 1) filledConstant _ (.string "constant")
    ⟨(Supply.counting 1).link 2, exampleId 1, ((Supply.counting 1).node 1).output 0, exampleId 2,
      ((Supply.counting 1).node 2).input 0, false⟩
    node?_filledGraph List.mem_cons_self rfl rfl (by decide +kernel)
  exact ⟨filledGraph_built, hconstant,
    fun c hc hfrom => hother _ c hc (.inr (.inl hfrom)), by decide +kernel, hcomm _ _⟩

end FlowScript
