/-
# What a visit writes

A visit evaluates a node and pushes its outputs.  Seen from the slots it reaches little: the
evaluation writes output slots of its own node, the push writes the slots at the far ends of the
node's data links.  On an intact graph a data link is the only one to its far end, so

* a node at which no data link of the visited node ends is left as it is (`node?_pushOutputs`);
* the far end of a link from another node is left as it is (`slot?_pushOutputs_of_ne`);
* the far ends of the links from a node whose outputs hold one value hold that value afterwards
  (`slot?_pushOutputs_of_source`), and if they did before, the push changes nothing at all
  (`pushOutputs_of_held`).
-/
import FlowScript.Proofs.Pull

namespace FlowScript

universe u

/-! ## 1. One slot -/

section Ports

variable {f : Port → Port} {q : PortId}

theorem find?_modifyFirst (hf : ∀ p, (f p).id = p.id) (q' : PortId) :
    ∀ l : List Port,
      (Node.modifyFirst (fun p => decide (p.id = q)) f l).find? (fun p => decide (p.id = q')) =
        if q' = q then (l.find? fun p => decide (p.id = q)).map f
        else l.find? fun p => decide (p.id = q')
  | [] => by simp [Node.modifyFirst]
  | p :: l => by
    have ih := find?_modifyFirst hf q' l
    unfold Node.modifyFirst
    by_cases hp : p.id = q
    · by_cases hq : q' = q
      · simp [hp, hq, hf]
      · simp [hp, hq, hf, Ne.symm hq]
    · by_cases hq : p.id = q'
      · have hne : q' ≠ q := fun h => hp (hq.trans h)
        simp [hq, hne]
      · simp [hp, hq, ih]

theorem modifyFirst_of_fixed {test : Port → Bool} :
    ∀ {l : List Port}, (∀ p, l.find? test = some p → f p = p) → Node.modifyFirst test f l = l
  | [], _ => rfl
  | p :: l, h => by
    unfold Node.modifyFirst
    by_cases hp : test p = true
    · rw [if_pos hp, h p (List.find?_cons_of_pos hp)]
    · rw [if_neg hp, modifyFirst_of_fixed fun x hx => h x ((List.find?_cons_of_neg hp).trans hx)]

end Ports

namespace Node

theorem find?_eq_none_of_not_any {l : List Port} {test : Port → Bool} (h : ¬ l.any test = true) :
    l.find? test = none := by
  rw [List.find?_eq_none]
  exact fun p hp htest => h (List.any_eq_true.2 ⟨p, hp, htest⟩)

/-- Filling a slot is seen under its own name only. -/
theorem port?_setValue (n : Node) (q : PortId) (v : Option Value) (q' : PortId) :
    (n.setValue q v).port? q' =
      if q' = q then (n.port? q).map fun p => { p with value? := v } else n.port? q' := by
  have hfind := find?_modifyFirst (f := fun p : Port => { p with value? := v }) (q := q)
    (fun _ => rfl) q'
  unfold setValue modifyPort port? ports
  split
  · next hany =>
    obtain ⟨p, hp⟩ := Option.isSome_iff_exists.1 (List.find?_isSome.2 (List.any_eq_true.1 hany))
    simp only [List.find?_append, hfind]
    by_cases hq : q' = q
    · simp [hq, hp]
    · simp [hq]
  · next hany =>
    simp only [List.find?_append, hfind]
    by_cases hq : q' = q
    · subst hq
      simp [find?_eq_none_of_not_any hany]
    · simp [hq]

/-- Filling a slot with what it holds changes nothing. -/
theorem setValue_of_port? {n : Node} {q : PortId} {p : Port} (h : n.port? q = some p) :
    n.setValue q p.value? = n := by
  unfold port? ports at h
  rw [List.find?_append] at h
  unfold setValue modifyPort
  split
  · rw [modifyFirst_of_fixed]
    intro p' hp'
    rw [hp', Option.some_or] at h
    cases h
    rfl
  · next hany =>
    rw [find?_eq_none_of_not_any hany, Option.none_or] at h
    rw [modifyFirst_of_fixed]
    intro p' hp'
    rw [h] at hp'
    cases hp'
    rfl

/-- A port among the inputs is found there, whatever the outputs are. -/
theorem port?_eq_of_inputs {m n : Node} (h : m.inputs = n.inputs) {q : PortId}
    (hq : ∃ p ∈ n.inputs, p.id = q) : m.port? q = n.port? q := by
  obtain ⟨p, hp, hid⟩ := hq
  obtain ⟨p', hp'⟩ := Option.isSome_iff_exists.1
    (List.find?_isSome (p := fun x : Port => decide (x.id = q)).2 ⟨p, hp, decide_eq_true hid⟩)
  simp only [port?, ports, List.find?_append, h, hp', Option.some_or]

end Node

theorem OrderedMap.modify_of_fixed {κ : Type} {ν : Type u} [DecidableEq κ]
    {m : OrderedMap κ ν} {k : κ} {f : ν → ν}
    (h : ∀ x, m.get? k = some x → f x = x) : m.modify k f = m := by
  have hsame : m.map (fun _ x => x) = m := by simp [map]
  refine (map_congr fun k' x hx => ?_).trans hsame
  split
  · next hk => exact h x (hk ▸ hx)
  · rfl

namespace Graph

theorem modifyNode_of_fixed {g : Graph} {id : NodeId} {f : Node → Node}
    (h : ∀ n, g.node? id = some n → f n = n) : g.modifyNode id f = g := by
  rw [modifyNode, OrderedMap.modify_of_fixed h]

theorem port?_deliver (g : Graph) (k : NodeId) (q : PortId) (v : Value) (k' : NodeId)
    (q' : PortId) :
    (g.deliver k q v).port? k' q' =
      if k' = k ∧ q' = q then (g.port? k' q').map fun p => { p with value? := some v }
      else g.port? k' q' := by
  unfold port? deliver
  rw [modifyNode_eq_touch, node?_touch]
  cases g.node? k' with
  | none => simp
  | some n =>
    by_cases hk : k' = k
    · by_cases hq : q' = q <;> simp [hk, hq, Node.port?_setValue]
    · simp [hk]

theorem slot?_deliver_self {g : Graph} {k : NodeId} {q : PortId} (h : (g.port? k q).isSome)
    (v : Value) : (g.deliver k q v).slot? k q = some v := by
  obtain ⟨p, hp⟩ := Option.isSome_iff_exists.1 h
  rw [slot?, port?_deliver, if_pos ⟨rfl, rfl⟩, hp]
  rfl

theorem slot?_deliver_of_ne {g : Graph} {k k' : NodeId} {q q' : PortId} (h : ¬ (k' = k ∧ q' = q))
    (v : Value) : (g.deliver k q v).slot? k' q' = g.slot? k' q' := by
  rw [slot?, port?_deliver, if_neg h, slot?]

/-- Delivering what a slot holds changes nothing. -/
theorem deliver_of_slot? {g : Graph} {k : NodeId} {q : PortId} {v : Value}
    (h : g.slot? k q = some v) : g.deliver k q v = g := by
  refine modifyNode_of_fixed fun n hn => ?_
  obtain ⟨p, hp, hv⟩ := Option.bind_eq_some_iff.1 h
  obtain ⟨m, hm, hport⟩ := port?_eq_some_iff.1 hp
  obtain rfl : n = m := Option.some.inj (hn.symm.trans hm)
  rw [← hv]
  exact Node.setValue_of_port? hport

/-! ## 2. Many deliveries -/

theorem slot?_deliverAll_of_not_mem {k : NodeId} {q : PortId} :
    ∀ {l : List (NodeId × PortId × Value)} {g : Graph}, (∀ d ∈ l, ¬ (k = d.1 ∧ q = d.2.1)) →
      (l.foldl (fun g d => g.deliver d.1 d.2.1 d.2.2) g).slot? k q = g.slot? k q
  | [], _, _ => rfl
  | d :: l, g, h => by
    rw [List.forall_mem_cons] at h
    rw [List.foldl_cons, slot?_deliverAll_of_not_mem h.2, slot?_deliver_of_ne h.1]

/-- Deliveries of one value to a slot leave it there, if there is one or the slot held it before. -/
theorem slot?_deliverAll {k : NodeId} {q : PortId} {v : Value} :
    ∀ {l : List (NodeId × PortId × Value)} {g : Graph}, (g.port? k q).isSome →
      (∀ d ∈ l, d.2.2 = v) → (g.slot? k q = some v ∨ (k, q, v) ∈ l) →
      (l.foldl (fun g d => g.deliver d.1 d.2.1 d.2.2) g).slot? k q = some v
  | [], _, _, _, h => h.resolve_right List.not_mem_nil
  | d :: l, g, hport, hvalue, h => by
    rw [List.forall_mem_cons] at hvalue
    have hport' : ((g.deliver d.1 d.2.1 d.2.2).port? k q).isSome := by
      rw [port?_deliver]
      split <;> simpa using hport
    rw [List.foldl_cons]
    refine slot?_deliverAll hport' hvalue.2 ?_
    by_cases hd : k = d.1 ∧ q = d.2.1
    · obtain ⟨rfl, rfl⟩ := hd
      exact Or.inl ((slot?_deliver_self hport d.2.2).trans (congrArg some hvalue.1))
    · rw [slot?_deliver_of_ne hd]
      refine h.imp_right fun hmem => (List.mem_cons.1 hmem).resolve_left ?_
      rintro rfl
      exact hd ⟨rfl, rfl⟩

theorem node?_deliverAll_of_not_mem {k : NodeId} {l : List (NodeId × PortId × Value)} {g : Graph}
    (h : ∀ d ∈ l, d.1 ≠ k) :
    (l.foldl (fun g d => g.deliver d.1 d.2.1 d.2.2) g).node? k = g.node? k := by
  have hreceive : ∀ {l : List (NodeId × PortId × Value)} (n : Node), (∀ d ∈ l, d.1 ≠ k) →
      n.receive k l = n := by
    intro l n h
    induction l with
    | nil => rfl
    | cons d l ih =>
      rw [List.forall_mem_cons] at h
      rw [Node.receive, List.foldl_cons, if_neg h.1]
      exact ih h.2
  rw [node?_deliverAll]
  cases g.node? k with
  | none => rfl
  | some n => exact congrArg some (hreceive n h)

theorem deliverAll_of_held :
    ∀ {l : List (NodeId × PortId × Value)} {g : Graph},
      (∀ d ∈ l, g.slot? d.1 d.2.1 = some d.2.2) →
      l.foldl (fun g d => g.deliver d.1 d.2.1 d.2.2) g = g
  | [], _, _ => rfl
  | d :: l, g, h => by
    rw [List.forall_mem_cons] at h
    rw [List.foldl_cons, deliver_of_slot? h.1]
    exact deliverAll_of_held h.2

/-! ## 3. One push -/

variable {g : Graph} {x : NodeId} {n : Node}

/-- What a node sends: for each data output that holds a value, that value over
each of its links. -/
theorem mem_deliveries_iff {d : NodeId × PortId × Value} :
    d ∈ g.deliveries n ↔ ∃ p ∈ n.outputs, p.isExec = false ∧ p.value? = some d.2.2 ∧
      ∃ c ∈ g.links, c.fromPort = p.id ∧ c.toNode = d.1 ∧ c.toPort = d.2.1 := by
  simp only [deliveries, List.mem_flatMap]
  refine exists_congr fun p => and_congr_right fun _ => ?_
  split
  · next v hexec hvalue =>
    simp only [hexec, hvalue, List.mem_map, List.mem_filter, decide_eq_true_eq, true_and,
      Option.some.injEq]
    constructor
    · rintro ⟨c, ⟨hc, hfrom⟩, rfl⟩
      exact ⟨rfl, c, hc, hfrom, rfl, rfl⟩
    · rintro ⟨rfl, c, hc, hfrom, hto, hport⟩
      exact ⟨c, ⟨hc, hfrom⟩, by rw [hto, hport]⟩
  · next hnot =>
    constructor
    · intro h
      cases h
    · rintro ⟨hexec, hvalue, -⟩
      exact (hnot d.2.2 hexec hvalue).elim

/-- A node sends over its own data links. -/
theorem Intact.exists_link_of_mem_deliveries (hg : g.Intact) (hn : g.node? x = some n)
    {d : NodeId × PortId × Value} (hd : d ∈ g.deliveries n) :
    ∃ c ∈ g.links, c.exec = false ∧ c.fromNode = x ∧ c.toNode = d.1 ∧ c.toPort = d.2.1 := by
  obtain ⟨p, hp, hexec, -, c, hc, hfrom, hto, hport⟩ := mem_deliveries_iff.1 hd
  obtain ⟨hnode, hflag⟩ := hg.source_of_fromPort hc hn (List.mem_append_right _ hp) hfrom
  refine ⟨c, hc, Bool.eq_false_iff.2 fun h => ?_, hnode, hto, hport⟩
  exact of_decide_eq_false hexec (hflag.1 h)

theorem node?_pushOutputs (hg : g.Intact) {k : NodeId}
    (h : ∀ c ∈ g.links, c.exec = false → c.fromNode = x → c.toNode ≠ k) :
    (g.pushOutputs x).node? k = g.node? k := by
  unfold pushOutputs
  cases hn : g.node? x with
  | none => rfl
  | some n =>
    refine node?_deliverAll_of_not_mem fun d hd => ?_
    obtain ⟨c, hc, hexec, hfrom, hto, -⟩ := hg.exists_link_of_mem_deliveries hn hd
    exact hto ▸ h c hc hexec hfrom

/-- A data link is the only one to its far end, so a push from another node leaves that alone. -/
theorem slot?_pushOutputs_of_ne (hg : g.Intact) {c : Connection} (hc : c ∈ g.links)
    (hexec : c.exec = false) (hx : c.fromNode ≠ x) :
    (g.pushOutputs x).slot? c.toNode c.toPort = g.slot? c.toNode c.toPort := by
  unfold pushOutputs
  cases hn : g.node? x with
  | none => rfl
  | some n =>
    refine slot?_deliverAll_of_not_mem fun d hd hsame => ?_
    obtain ⟨e, he, -, hfrom, -, hport⟩ := hg.exists_link_of_mem_deliveries hn hd
    have hec : e = c := hg.eq_of_toPort_eq hc he hexec (hport.trans hsame.2.symm)
    exact hx (hec ▸ hfrom)

variable {v : Value}

/-- **The links of a node whose outputs hold one value carry that value to their far ends.** -/
theorem slot?_pushOutputs_of_source (hg : g.Intact) (hn : g.node? x = some n)
    (hout : ∀ p ∈ n.outputs, p.isExec = false ∧ p.value? = some v) {c : Connection}
    (hc : c ∈ g.links) (hfrom : c.fromNode = x) :
    (g.pushOutputs x).slot? c.toNode c.toPort = some v := by
  obtain ⟨out, inp, hj⟩ := hg.joined c hc
  obtain ⟨m, hm, hmem, hid⟩ := hg.exists_output hj.source hj.fromOutput
  obtain rfl : n = m := Option.some.inj (hn.symm.trans (hfrom ▸ hm))
  have hsent : (c.toNode, c.toPort, v) ∈ g.deliveries n :=
    mem_deliveries_iff.2 ⟨out, hmem, (hout out hmem).1, (hout out hmem).2, c, hc, hid.symm,
      rfl, rfl⟩
  unfold pushOutputs
  rw [hn]
  refine slot?_deliverAll (by rw [hj.target]; rfl) (fun d hd => ?_) (Or.inr hsent)
  obtain ⟨p, hp, -, hvalue, -⟩ := mem_deliveries_iff.1 hd
  exact Option.some.inj (hvalue.symm.trans (hout p hp).2)

/-- **A push of what is already there changes nothing.** -/
theorem pushOutputs_of_held (hg : g.Intact) (hn : g.node? x = some n)
    (hout : ∀ p ∈ n.outputs, p.value? = some v)
    (hheld : ∀ c ∈ g.links, c.fromNode = x → g.slot? c.toNode c.toPort = some v) :
    g.pushOutputs x = g := by
  unfold pushOutputs
  rw [hn]
  refine deliverAll_of_held fun d hd => ?_
  obtain ⟨p, hp, -, hvalue, -⟩ := mem_deliveries_iff.1 hd
  obtain ⟨c, hc, -, hfrom, hto, hport⟩ := hg.exists_link_of_mem_deliveries hn hd
  rw [← hto, ← hport, hheld c hc hfrom, ← hvalue, hout p hp]

end Graph

/-! ## 4. One evaluation -/

theorem Context.apply_inputs {σ : Type u} (c : Context) (e : Effect σ) :
    (c.apply e).node.inputs = c.node.inputs := by
  have hwrites := foldl_eq_of_step (fun c : Context => c.node.inputs)
    (f := fun c (w : Nat × Value) => c.setOutput w.1 w.2) (fun _ _ => rfl) e.writes c
  unfold apply
  cases e.follow? with
  | none => exact hwrites
  | some slot => exact hwrites

namespace Scene

variable {σ : Type u} [Behaves σ] (time : FrameTime) (role : Role)

theorem resolved_evaluate (s : Scene σ) (x : NodeId) :
    (s.evaluate time role x).scene.resolved = s.resolved := by
  unfold evaluate
  split <;> rfl

/-- An evaluation sees the graph and the table, and nothing of what is remembered. -/
theorem evaluate_congr {s t : Scene σ} (hgraph : t.graph = s.graph) (htable : t.table = s.table)
    (x : NodeId) :
    (t.evaluate time role x).result = (s.evaluate time role x).result ∧
    (t.evaluate time role x).scene.graph = (s.evaluate time role x).scene.graph ∧
    (t.evaluate time role x).scene.table = (s.evaluate time role x).scene.table := by
  obtain ⟨_, _, _⟩ := s
  obtain ⟨g, tab, _⟩ := t
  subst hgraph htable
  unfold evaluate
  simp only
  cases tab.get? x with
  | none => exact ⟨rfl, rfl, rfl⟩
  | some b =>
    cases g.node? x with
    | none => exact ⟨rfl, rfl, rfl⟩
    | some n => exact ⟨rfl, rfl, rfl⟩

theorem node?_evaluate_of_ne (s : Scene σ) {x k : NodeId} (h : k ≠ x) :
    (s.evaluate time role x).scene.graph.node? k = s.graph.node? k := by
  unfold evaluate
  split
  · rfl
  · rfl
  · simp only [Graph.modifyNode_eq_touch, Graph.node?_touch, if_neg h]
    exact Option.map_id'

theorem get?_evaluate_of_ne (s : Scene σ) {x k : NodeId} (h : k ≠ x) :
    (s.evaluate time role x).scene.table.get? k = s.table.get? k := by
  unfold evaluate
  split
  · rfl
  · rfl
  · exact (OrderedMap.get?_modify _ _ _ _).trans (if_neg h)

/-- The far end of a link is an input, and no evaluation writes an input. -/
theorem slot?_evaluate (s : Scene σ) (hg : s.graph.Intact) (x : NodeId) {c : Connection}
    (hc : c ∈ s.graph.links) :
    (s.evaluate time role x).scene.graph.slot? c.toNode c.toPort =
      s.graph.slot? c.toNode c.toPort := by
  obtain ⟨out, inp, hj⟩ := hg.joined c hc
  obtain ⟨n, hn, hin, hid⟩ := hg.exists_input hj.target hj.toInput
  by_cases hx : c.toNode = x
  · rw [hx] at hn ⊢
    unfold evaluate
    split
    · rfl
    · rfl
    · next b m hb hm =>
      obtain rfl : n = m := Option.some.inj (hn.symm.trans hm)
      simp only [Graph.slot?, Graph.port?, Graph.modifyNode_eq_touch, Graph.node?_touch, hn,
        Option.map_some, if_pos, Option.bind_some]
      rw [Node.port?_eq_of_inputs (Context.apply_inputs (Context.start n time) _) ⟨inp, hin, hid⟩]
      rfl
  · rw [Graph.slot?, Graph.slot?, Graph.port?, Graph.port?, s.node?_evaluate_of_ne time role hx]

end Scene

end FlowScript
