/-
# What a push delivers

A node that has been evaluated pushes the values of its outputs along its links.  On an intact graph
this is one write for each input at the other end:

* `provider?_eq_some_iff`: an input that data flows into has one link, so one provider;
* `pushOutputs_inputs`: a push of a node with one output fills the inputs that are linked to it, and
  no others;
* `exists_link_iff_provider`: for a data node these are the inputs that it provides.
-/
import FlowScript.Proofs.Frame
import FlowScript.Proofs.Integrity
import FlowScript.Proofs.Plain

namespace FlowScript

/-! ## 1. Who feeds an input -/

namespace Graph

variable {g : Graph}

theorem Intact.exists_input (hg : g.Intact) {node : NodeId} {port : PortId} {p : Port}
    (hp : g.port? node port = some p) (hside : p.direction = .input) :
    ∃ n, g.node? node = some n ∧ p ∈ n.inputs ∧ p.id = port := by
  obtain ⟨n, hn, hport⟩ := port?_eq_some_iff.1 hp
  obtain ⟨hmem, hid⟩ := Node.port?_mem hport
  rcases List.mem_append.1 hmem with hin | hout
  · exact ⟨n, hn, hin, hid⟩
  · rw [(hg.outputs node n hn p hout).direction_eq] at hside
    cases hside

theorem Intact.exists_output (hg : g.Intact) {node : NodeId} {port : PortId} {p : Port}
    (hp : g.port? node port = some p) (hside : p.direction = .output) :
    ∃ n, g.node? node = some n ∧ p ∈ n.outputs ∧ p.id = port := by
  obtain ⟨n, hn, hport⟩ := port?_eq_some_iff.1 hp
  obtain ⟨hmem, hid⟩ := Node.port?_mem hport
  rcases List.mem_append.1 hmem with hin | hout
  · rw [(hg.inputs node n hn p hin).direction_eq] at hside
    cases hside
  · exact ⟨n, hn, hout, hid⟩

/-- A data link is the only link to its input. -/
theorem Intact.eq_of_toPort_eq (hg : g.Intact) {c d : Connection} (hc : c ∈ g.links)
    (hd : d ∈ g.links) (hexec : c.exec = false) (hport : d.toPort = c.toPort) : d = c := by
  obtain ⟨out, inp, hj⟩ := hg.joined c hc
  obtain ⟨n, hn, hin, -⟩ := hg.exists_input hj.target hj.toInput
  have hout : out.type ≠ .exec := fun h => by rw [hj.exec_iff.2 h] at hexec; cases hexec
  have htype : inp.type ≠ .exec := fun h => hout ((PortType.feeds_exec_iff hj.feeds).2 h)
  have hmulti : inp.multi = false := by
    rw [(hg.inputs _ n hn inp hin).multi_eq]
    simp [htype]
  have hone := hg.single _ _ inp hj.target hmulti
  have hcmem : c ∈ g.linksTo c.toPort := List.mem_filter.2 ⟨hc, decide_eq_true rfl⟩
  have hdmem : d ∈ g.linksTo c.toPort := List.mem_filter.2 ⟨hd, decide_eq_true hport⟩
  generalize g.linksTo c.toPort = l at hone hcmem hdmem
  match l, hone with
  | [x], _ => rw [List.mem_singleton.1 hcmem, List.mem_singleton.1 hdmem]

/-- **An input of an intact graph has one provider**: the data node behind any data link to it. -/
theorem provider?_eq_some_iff (hg : g.Intact) {node : NodeId} {port : PortId} {q : NodeId} :
    g.provider? node port = some q ↔
      g.isData q = true ∧
        ∃ c ∈ g.links, c.exec = false ∧ c.fromNode = q ∧ c.toNode = node ∧ c.toPort = port := by
  have hfound : ∀ {c : Connection},
      (!c.exec && c.toNode = node && c.toPort = port && g.isData c.fromNode) =
      true ↔ c.exec = false ∧ c.toNode = node ∧ c.toPort = port ∧ g.isData c.fromNode = true := by
    intro c
    simp [and_assoc]
  unfold provider?
  rw [Option.map_eq_some_iff]
  constructor
  · rintro ⟨c, hc, rfl⟩
    have hpass := List.find?_some hc
    obtain ⟨hexec, hto, hport, hdata⟩ := hfound.1 hpass
    exact ⟨hdata, c, List.mem_of_find?_eq_some hc, hexec, rfl, hto, hport⟩
  · rintro ⟨hdata, c, hc, hexec, rfl, rfl, rfl⟩
    cases hfind : g.links.find? fun d =>
        !d.exec && d.toNode = c.toNode && d.toPort = c.toPort && g.isData d.fromNode with
    | none =>
      exact absurd (hfound.2 ⟨hexec, rfl, rfl, hdata⟩) (List.find?_eq_none.1 hfind c hc)
    | some d =>
      -- the input takes one link, so the first link found is the link at hand
      have hpass := List.find?_some hfind
      obtain ⟨-, -, hport, -⟩ := hfound.1 hpass
      have hd : d ∈ g.links := List.mem_of_find?_eq_some hfind
      exact ⟨d, rfl, congrArg Connection.fromNode (hg.eq_of_toPort_eq hc hd hexec hport)⟩

end Graph

/-! ## 2. What a push delivers -/

theorem modifyFirst_eq_map {α β : Type} [DecidableEq β] (key : α → β) (b : β) (f : α → α) :
    ∀ l : List α, (l.map key).Nodup →
      Node.modifyFirst (fun a => decide (key a = b)) f l =
        l.map fun a => if key a = b then f a else a
  | [], _ => rfl
  | a :: l, h => by
    rw [List.map_cons, List.nodup_cons] at h
    unfold Node.modifyFirst
    by_cases ha : key a = b
    · -- the key does not come again, so the rest stays as it is
      have hrest : ∀ x ∈ l, (if key x = b then f x else x) = x := by
        intro x hx
        exact if_neg fun hxb => h.1 (List.mem_map.2 ⟨x, hx, hxb.trans ha.symm⟩)
      simp only [ha, decide_true, if_true, List.map_cons, List.map_congr_left hrest, List.map_id']
    · simp only [ha, decide_false, Bool.false_eq_true, if_false, List.map_cons,
        modifyFirst_eq_map key b f l h.2]

namespace Node

/-- Filling the slot of a port writes at most that input. -/
theorem setValue_inputs {n : Node} (hn : (n.ports.map Port.id).Nodup) (port : PortId)
    (v : Option Value) :
    (n.setValue port v).inputs =
      n.inputs.map fun p => if p.id = port then { p with value? := v } else p := by
  have hin : (n.inputs.map Port.id).Nodup := by
    rw [ports, List.map_append] at hn
    exact hn.of_append_left
  unfold setValue modifyPort
  split
  · exact modifyFirst_eq_map Port.id port _ n.inputs hin
  · next hnone =>
    have hsame : ∀ p ∈ n.inputs, (if p.id = port then { p with value? := v } else p) = p := by
      intro p hp
      exact if_neg fun hid => hnone (List.any_eq_true.2 ⟨p, hp, decide_eq_true hid⟩)
    simp only [List.map_congr_left hsame, List.map_id']

theorem ports_id_eq_of_clearValues {n m : Node} (h : n.clearValues = m.clearValues) :
    n.ports.map Port.id = m.ports.map Port.id := by
  have hids : n.clearValues.ports.map Port.id = m.clearValues.ports.map Port.id := by rw [h]
  simpa [ports, clearValues, Function.comp_def] using hids

/-- A node after some deliveries to it and to others. -/
def receive (id : NodeId) (n : Node) (l : List (NodeId × PortId × Value)) : Node :=
  l.foldl (fun n d => if d.1 = id then n.setValue d.2.1 (some d.2.2) else n) n

/-- Deliveries of one value write it into the inputs that they are for. -/
theorem receive_inputs {id : NodeId} {v : Value} :
    ∀ {l : List (NodeId × PortId × Value)} {n : Node}, (n.ports.map Port.id).Nodup →
      (∀ d ∈ l, d.2.2 = v) →
      (n.receive id l).inputs = n.inputs.map fun p =>
        if (id, p.id, v) ∈ l then { p with value? := some v } else p
  | [], n, _, _ => by simp [receive]
  | d :: l, n, hn, hl => by
    obtain ⟨node, port, w⟩ := d
    obtain rfl : w = v := hl _ List.mem_cons_self
    have hrest : ∀ d ∈ l, d.2.2 = w := fun d hd => hl d (List.mem_cons_of_mem _ hd)
    by_cases hnode : node = id
    · have hset : ((n.setValue port (some w)).ports.map Port.id).Nodup := by
        rw [ports_id_eq_of_clearValues (clearValues_setValue n port (some w))]
        exact hn
      have hstep : n.receive id ((node, port, w) :: l) =
          (n.setValue port (some w)).receive id l := by
        rw [receive, List.foldl_cons, if_pos hnode, receive]
      rw [hstep, receive_inputs hset hrest, setValue_inputs hn, List.map_map]
      refine List.map_congr_left fun p _ => ?_
      subst hnode
      by_cases hp : p.id = port
      · subst hp
        by_cases hmem : (node, p.id, w) ∈ l <;> simp [hmem]
      · by_cases hmem : (node, p.id, w) ∈ l <;> simp [hmem, hp]
    · have hstep : n.receive id ((node, port, w) :: l) = n.receive id l := by
        rw [receive, List.foldl_cons, if_neg hnode, receive]
      rw [hstep, receive_inputs hn hrest]
      refine List.map_congr_left fun p _ => ?_
      simp [Ne.symm hnode]

end Node

theorem Graph.node?_deliverAll (id : NodeId) :
    ∀ (l : List (NodeId × PortId × Value)) (g : Graph),
      (l.foldl (fun g d => g.deliver d.1 d.2.1 d.2.2) g).node? id =
        (g.node? id).map (·.receive id l)
  | [], g => by simp [Node.receive]
  | d :: l, g => by
    rw [List.foldl_cons, node?_deliverAll id l, deliver, modifyNode_eq_touch, node?_touch,
      Option.map_map]
    congr 1
    funext n
    simp only [Function.comp, Node.receive, List.foldl_cons]
    by_cases h : id = d.1
    · rw [if_pos h, if_pos h.symm]
    · rw [if_neg h, if_neg (Ne.symm h)]

namespace Graph

variable {g : Graph}

/-- A push from a node with one data output fills the inputs that are linked to that output. -/
theorem pushOutputs_inputs (hg : g.Intact) {id : NodeId} {m : Node} {p : Port} {v : Value}
    (hm : g.node? id = some m) (hout : m.outputs = [p]) (hexec : p.isExec = false)
    (hv : p.value? = some v) {k : NodeId} {m' : Node} (hm' : (g.pushOutputs id).node? k = some m') :
    ∃ m₀, g.node? k = some m₀ ∧ m'.inputs = m₀.inputs.map fun q =>
      if ∃ c ∈ g.links, c.fromPort = p.id ∧ c.toNode = k ∧ c.toPort = q.id then
        { q with value? := some v }
      else q := by
  have hsent : g.deliveries m =
      (g.links.filter (·.fromPort = p.id)).map fun c => (c.toNode, c.toPort, v) := by
    simp [deliveries, hout, hexec, hv]
  unfold pushOutputs at hm'
  rw [hm] at hm'
  simp only [hsent] at hm'
  rw [node?_deliverAll] at hm'
  obtain ⟨m₀, hm₀, rfl⟩ := Option.map_eq_some_iff.1 hm'
  refine ⟨m₀, hm₀, ?_⟩
  rw [Node.receive_inputs (v := v) (hg.portsNodup k m₀ hm₀)]
  · refine List.map_congr_left fun q _ => ?_
    have hiff : (k, q.id, v) ∈
        (g.links.filter (·.fromPort = p.id)).map (fun c => (c.toNode, c.toPort, v)) ↔
        ∃ c ∈ g.links, c.fromPort = p.id ∧ c.toNode = k ∧ c.toPort = q.id := by
      simp [and_assoc]
    simp only [hiff]
  · intro d hd
    obtain ⟨c, -, rfl⟩ := List.mem_map.1 hd
    rfl

/-- The inputs that are linked to the one output of a data node are those that it provides for. -/
theorem exists_link_iff_provider (hg : g.Intact) {id : NodeId} {n : Node} {p : Port}
    (hn : g.node? id = some n) (hdata : g.isData id = true) (hout : n.outputs = [p])
    (hexec : p.isExec = false) {k : NodeId} {port : PortId} :
    (∃ c ∈ g.links, c.fromPort = p.id ∧ c.toNode = k ∧ c.toPort = port) ↔
      g.provider? k port = some id := by
  rw [provider?_eq_some_iff hg]
  have hmem : p ∈ n.ports := List.mem_append_right _ (hout ▸ List.mem_singleton_self p)
  constructor
  · rintro ⟨c, hc, hfrom, hto, htoPort⟩
    obtain ⟨hnode, hflag⟩ := hg.source_of_fromPort hc hn hmem hfrom
    refine ⟨hdata, c, hc, Bool.eq_false_iff.2 fun h => ?_, hnode, hto, htoPort⟩
    exact of_decide_eq_false hexec (hflag.1 h)
  · rintro ⟨-, c, hc, -, hfrom, hto, htoPort⟩
    obtain ⟨out, inp, hj⟩ := hg.joined c hc
    obtain ⟨m, hm, hmem, hid⟩ := hg.exists_output hj.source hj.fromOutput
    rw [hfrom, hn] at hm
    cases hm
    rw [hout] at hmem
    exact ⟨c, hc, by rw [← hid, List.mem_singleton.1 hmem], hto, htoPort⟩

end Graph

end FlowScript
