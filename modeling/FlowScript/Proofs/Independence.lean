/-
# Walks that keep apart

Walks share one graph and one table, and a push writes into nodes that the walk itself never visits.
This module says how far a walk reaches, and proves that walks which do not reach into each other
commute.

* `Graph.Region` is what a walk can visit: the nodes that control links lead to, with the data nodes
  that feed them.  `Graph.Footprint` is what it can read or write among the slots: those of its
  region, and those at the far ends of its data links.
* `Confined`: a walk leaves alone what lies outside of its region and its footprint.
* `AgreesOn`: two walks on scenes that agree inside do the same, and agree again afterwards.

Both are proved by one induction along a walk (`Lockstep`).  Regions without a common node and
without a data link between them have footprints without a common slot, because a data input has one
provider.  Then either walk finds its part of the graph as if the other had not been there, and
whatever of the graph is in neither part stays as it was (`independent_walks_commute`).
-/
import FlowScript.Proofs.Climbing
import FlowScript.Proofs.Freshness
import FlowScript.Proofs.Slots

namespace FlowScript

universe u

/-! ## 1. Regions and footprints -/

namespace Graph

/-- Control links lead from one node to the other. -/
def Leads (g : Graph) : NodeId → NodeId → Prop :=
  Relation.ReflTransGen fun a b => b ∈ g.nextNodes a

/-- The nodes that a walk from `start` can visit. -/
inductive Region (g : Graph) (start : NodeId) : NodeId → Prop
  | control {k : NodeId} : g.Leads start k → Region g start k
  | data {k m : NodeId} : Region g start m → g.Feeds k m → Region g start k

/-- A region lies in every set that holds its start and goes along with links. -/
theorem Region.mem_of_closed {g : Graph} {start k : NodeId} {ids : List NodeId}
    (hstart : start ∈ ids) (hnext : ∀ a ∈ ids, g.nextNodes a ⊆ ids)
    (hfeed : ∀ a ∈ ids, g.producers a ⊆ ids) (h : g.Region start k) : k ∈ ids := by
  induction h with
  | control hleads =>
    induction hleads with
    | refl => exact hstart
    | tail _ hstep ih => exact hnext _ ih hstep
  | data _ hfeeds ih => exact hfeed _ ih hfeeds

/-- The slots that visits of the nodes `R` can read or write: their own, and those behind their data
links. -/
def Footprint (g : Graph) (R : NodeId → Prop) (k : NodeId) (q : PortId) : Prop :=
  R k ∨ ∃ c ∈ g.links, c.exec = false ∧ R c.fromNode ∧ c.toNode = k ∧ c.toPort = q

/-- No data link leads from the nodes `R` to the nodes `S`. -/
def Unfed (g : Graph) (R S : NodeId → Prop) : Prop :=
  ∀ c ∈ g.links, c.exec = false → R c.fromNode → ¬ S c.toNode

/-- **Sets of nodes that keep apart have footprints that keep apart.** -/
theorem Intact.footprint_disjoint {g : Graph} (hg : g.Intact) {R S : NodeId → Prop}
    (hdisjoint : ∀ k, R k → ¬ S k) (hRS : g.Unfed R S) (hSR : g.Unfed S R) {k : NodeId} {q : PortId}
    (hR : g.Footprint R k q) : ¬ g.Footprint S k q := by
  rintro (hS | ⟨d, hd, hdexec, hdfrom, hdto, hdport⟩)
  · rcases hR with hR | ⟨c, hc, hexec, hfrom, rfl, -⟩
    · exact hdisjoint k hR hS
    · exact hRS c hc hexec hfrom hS
  · rcases hR with hR | ⟨c, hc, hexec, hfrom, -, hport⟩
    · exact hSR d hd hdexec hdfrom (hdto ▸ hR)
    · -- two data links to one input are the same link
      have hsame : d = c := hg.eq_of_toPort_eq hc hd hexec (hdport.trans hport.symm)
      exact hdisjoint c.fromNode hfrom (hsame ▸ hdfrom)

end Graph

/-! ## 2. What the ports of a graph tell -/

/-- Nodes with the same ports under the same names, but for their slots, are the same. -/
theorem Node.eq_of_ports {n m : Node} (hshape : n.clearValues = m.clearValues)
    (hnodup : (n.ports.map Port.id).Nodup) (hports : ∀ q, n.port? q = m.port? q) : n = m := by
  have hids := ports_id_eq_of_clearValues hshape
  have hlength : n.inputs.length = m.inputs.length := by
    have hinputs := congrArg (fun n : Node => n.inputs.length) hshape
    simpa [clearValues] using hinputs
  have hall : n.ports.map some = m.ports.map some := by
    calc n.ports.map some = (n.ports.map Port.id).map n.port? := by
          rw [List.map_map]
          exact List.map_congr_left fun p hp => (port?_of_mem hnodup hp).symm
      _ = (m.ports.map Port.id).map m.port? := by rw [hids, funext hports]
      _ = m.ports.map some := by
          rw [List.map_map]
          exact List.map_congr_left fun p hp => port?_of_mem (hids ▸ hnodup) hp
  have happend : n.ports = m.ports := (List.map_inj_right fun _ _ h => Option.some.inj h).1 hall
  obtain ⟨hinputs, houtputs⟩ := List.append_inj happend hlength
  calc n = { n.clearValues with inputs := n.inputs, outputs := n.outputs } := rfl
    _ = { m.clearValues with inputs := m.inputs, outputs := m.outputs } := by
      rw [hshape, hinputs, houtputs]
    _ = m := rfl

/-- Maps with the same keys in the same order, and the same values under them, are the same. -/
theorem OrderedMap.eq_of_get? {κ : Type} {ν : Type u} [DecidableEq κ] {m m' : OrderedMap κ ν}
    (hkeys : m.keys = m'.keys) (hget : ∀ k, m.get? k = m'.get? k) : m = m' := by
  have hvalue : ∀ {m : OrderedMap κ ν} {e : κ × ν}, e ∈ m.entries →
      (e.1, m.get? e.1) = (e.1, some e.2) := fun he =>
    congrArg _ ((get?_eq_some_iff _ _ _).2 he)
  have hentries : m.entries.map (fun e => (e.1, some e.2)) =
      m'.entries.map fun e => (e.1, some e.2) := by
    calc m.entries.map (fun e => (e.1, some e.2)) = m.keys.map fun k => (k, m.get? k) := by
          rw [keys, List.map_map]
          exact List.map_congr_left fun e he => (hvalue he).symm
      _ = m'.keys.map fun k => (k, m'.get? k) := by rw [hkeys, funext hget]
      _ = m'.entries.map fun e => (e.1, some e.2) := by
          rw [keys, List.map_map]
          exact List.map_congr_left fun e he => hvalue he
  refine OrderedMap.ext ((List.map_inj_right fun a b hab => ?_).1 hentries)
  exact Prod.ext (Prod.mk.inj hab).1 (Option.some.inj (Prod.mk.inj hab).2)

namespace Graph

variable {g g' : Graph}

theorem node?_eq_of_ports (hg : g.Intact) (hshape : g'.clearValues = g.clearValues) {k : NodeId}
    (hports : ∀ q, g'.port? k q = g.port? k q) : g'.node? k = g.node? k := by
  have hnode : (g'.node? k).map Node.clearValues = (g.node? k).map Node.clearValues := by
    rw [← node?_clearValues, hshape, node?_clearValues]
  unfold port? at hports
  cases hn : g.node? k with
  | none =>
    rw [hn] at hnode
    exact Option.map_eq_none_iff.1 hnode
  | some n =>
    rw [hn] at hnode hports
    obtain ⟨m, hm, hmn⟩ := Option.map_eq_some_iff.1 hnode
    rw [hm] at hports ⊢
    rw [Node.eq_of_ports hmn.symm (hg.portsNodup k n hn) fun q => (hports q).symm]

/-- **A graph is told by its shape and its ports.** -/
theorem eq_of_ports (hg : g.Intact) (hshape : g'.clearValues = g.clearValues)
    (hports : ∀ k q, g'.port? k q = g.port? k q) : g' = g := by
  have hkeys : g'.nodes.keys = g.nodes.keys := by
    have h := congrArg (fun g : Graph => g.nodes.keys) hshape
    simpa only [clearValues, mapNodes, OrderedMap.keys_map] using h
  have hnodes : g'.nodes = g.nodes :=
    OrderedMap.eq_of_get? hkeys fun k => node?_eq_of_ports hg hshape (hports k)
  calc g' = { g'.clearValues with nodes := g'.nodes } := rfl
    _ = { g.clearValues with nodes := g.nodes } := by rw [hshape, hnodes]
    _ = g := rfl

theorem port?_deliverAll_of_not_mem {k : NodeId} {q : PortId} :
    ∀ {l : List (NodeId × PortId × Value)} {g : Graph}, (∀ d ∈ l, ¬ (k = d.1 ∧ q = d.2.1)) →
      (l.foldl (fun g d => g.deliver d.1 d.2.1 d.2.2) g).port? k q = g.port? k q
  | [], _, _ => rfl
  | d :: l, g, h => by
    rw [List.forall_mem_cons] at h
    rw [List.foldl_cons, port?_deliverAll_of_not_mem h.2, port?_deliver, if_neg h.1]

theorem port?_deliverAll_congr {k : NodeId} {q : PortId} :
    ∀ {l : List (NodeId × PortId × Value)} {g g' : Graph}, g'.port? k q = g.port? k q →
      (l.foldl (fun g d => g.deliver d.1 d.2.1 d.2.2) g').port? k q =
        (l.foldl (fun g d => g.deliver d.1 d.2.1 d.2.2) g).port? k q
  | [], _, _, h => h
  | d :: l, g, g', h => by
    rw [List.foldl_cons, List.foldl_cons]
    refine port?_deliverAll_congr ?_
    rw [port?_deliver, port?_deliver, h]

end Graph

/-! ## 3. Two walks in lockstep -/

section Lockstep

variable {σ : Type u} {α : Type}

/-- The steps lead to related scenes, and tell and answer the same. -/
structure Step.Matches (Q : Scene σ → Scene σ → Prop) (x y : Step σ α) : Prop where
  scene : Q x.scene y.scene
  events : y.events = x.events
  result : y.result = x.result

/-- The walks stop at one node, in related scenes, and tell and answer the same. -/
structure WalkEnd.Matches (Q : Scene σ → Scene σ → Prop) (x y : WalkEnd σ) : Prop where
  scene : Q x.scene y.scene
  current : y.current = x.current
  events : y.events = x.events
  result : y.result = x.result

end Lockstep

namespace Scene

variable {σ : Type u} [Behaves σ]

/-- A relation between scenes of the shape of `g` that visits of the nodes `R`, made on both sides,
keep without telling the sides apart. -/
structure Lockstep (g : Graph) (R : NodeId → Prop) (time : FrameTime)
    (Q : Scene σ → Scene σ → Prop) : Prop where
  shape : ∀ {s t}, Q s t → s.graph.clearValues = g.clearValues ∧ t.graph.clearValues = g.clearValues
  resolved : ∀ {s t}, Q s t → t.resolved = s.resolved
  memory : ∀ {s t} ids, Q s t → Q { s with resolved := ids } { t with resolved := ids }
  evaluate : ∀ {s t id} role, R id → Q s t →
    (s.evaluate time role id).Matches Q (t.evaluate time role id)
  push : ∀ {s t id}, R id → Q s t → Q (s.push id) (t.push id)

namespace Lockstep

variable {g : Graph} {R : NodeId → Prop} {time : FrameTime} {Q : Scene σ → Scene σ → Prop}
  {s t : Scene σ}

theorem name_eq (h : Lockstep g R time Q) (hst : Q s t) :
    t.graph.name = s.graph.name := by
  have hname := congrArg Graph.name ((h.shape hst).2.trans (h.shape hst).1.symm)
  exact hname

theorem any_isScheduled_eq (h : Lockstep g R time Q) (hst : Q s t) (id : NodeId) :
    (t.graph.node? id).any Node.isScheduled = (s.graph.node? id).any Node.isScheduled := by
  have hshape := (h.shape hst).2.trans (h.shape hst).1.symm
  rw [Graph.any_isScheduled, Graph.any_isScheduled, decide_eq_decide]
  exact Graph.ranked_iff_of_clearValues hshape id

theorem pullWith (h : Lockstep g R time Q) {deeper : Scene σ → NodeId → Step σ Unit}
    (hdeeper : ∀ {s t id}, R id → Q s t → (deeper s id).Matches Q (deeper t id)) :
    ∀ (ids : List NodeId) {s t : Scene σ}, (∀ id ∈ ids, R id) → Q s t →
      (Scene.pullWith time deeper ids s).Matches Q (Scene.pullWith time deeper ids t)
  | [], _, _, _, hst => ⟨hst, rfl, rfl⟩
  | id :: ids, s, t, hids, hst => by
    rw [List.forall_mem_cons] at hids
    unfold Scene.pullWith
    rw [h.resolved hst]
    by_cases hdone : s.resolved.contains id = true
    · rw [if_pos hdone, if_pos hdone]
      exact pullWith h hdeeper ids hids.2 hst
    · have hmark := h.memory (s.resolved ++ [id]) hst
      rw [if_neg hdone, if_neg hdone]
      simp only [h.any_isScheduled_eq hst, h.name_eq hst]
      split
      · have hbelow := hdeeper hids.1 hmark
        have hown := h.evaluate .data hids.1 hbelow.scene
        rw [hbelow.result, hown.result, hbelow.events, hown.events]
        split
        · exact ⟨hbelow.scene, rfl, rfl⟩
        · split
          · exact ⟨hown.scene, rfl, rfl⟩
          · have hrest := pullWith h hdeeper ids hids.2 (h.push hids.1 hown.scene)
            exact ⟨hrest.scene, by rw [hrest.events], hrest.result⟩
      · have hrest := pullWith h hdeeper ids hids.2 hmark
        exact ⟨hrest.scene, by rw [hrest.events], hrest.result⟩

variable (hfeeds : ∀ {k m}, R m → g.Feeds k m → R k)
include hfeeds

/-- What feeds a visited node is visited. -/
theorem resolveWithin (h : Lockstep g R time Q) :
    ∀ (fuel : Nat) {s t : Scene σ} {id : NodeId}, R id → Q s t →
      (Scene.resolveWithin time fuel s id).Matches Q (Scene.resolveWithin time fuel t id)
  | 0, _, _, _, _, hst => ⟨hst, rfl, rfl⟩
  | fuel + 1, s, t, id, hid, hst => by
    obtain ⟨hs, ht⟩ := h.shape hst
    unfold Scene.resolveWithin
    rw [Graph.producers_eq_of_bare (Graph.bare_eq_of_clearValues_eq hs),
      Graph.producers_eq_of_bare (Graph.bare_eq_of_clearValues_eq ht)]
    exact h.pullWith (h.resolveWithin fuel) _ (fun _ hk => hfeeds hid hk) hst

theorem step (h : Lockstep g R time Q) (memo : Memoization) {id : NodeId} (hid : R id)
    (hst : Q s t) : (s.step memo time id).Matches Q (t.step memo time id) := by
  have hforget : Q (if memo = .perNode then { s with resolved := [] } else s)
      (if memo = .perNode then { t with resolved := [] } else t) := by
    split
    · exact h.memory [] hst
    · exact hst
  unfold Scene.step
  generalize (if memo = .perNode then { s with resolved := [] } else s) = s' at hforget
  generalize (if memo = .perNode then { t with resolved := [] } else t) = t' at hforget
  obtain ⟨hs, ht⟩ := h.shape hforget
  have hbelow : (s'.resolve time id).Matches Q (t'.resolve time id) := by
    unfold resolve
    rw [Graph.size_eq_of_bare (Graph.bare_eq_of_clearValues_eq hs),
      Graph.size_eq_of_bare (Graph.bare_eq_of_clearValues_eq ht)]
    exact h.resolveWithin hfeeds _ hid hforget
  have hown := h.evaluate .control hid hbelow.scene
  simp only
  rw [hbelow.result, hown.result, hbelow.events, hown.events]
  split
  · exact ⟨hbelow.scene, rfl, rfl⟩
  · split
    · exact ⟨hown.scene, rfl, rfl⟩
    · exact ⟨h.push hid hown.scene, rfl, rfl⟩

/-- **Walks in lockstep**: where control flow stays among the nodes `C`, and these are in `R`, two
walks from one of them visit the same nodes and end alike. -/
theorem walkWithin (h : Lockstep g R time Q) {C : NodeId → Prop} (hC : ∀ {k}, C k → R k)
    (hnext : ∀ {a b slot}, C a → g.nextNode? a slot = some b → C b) (memo : Memoization)
    (bound : Nat) :
    ∀ (budget : Nat) {s t : Scene σ} {id : NodeId}, C id → Q s t →
      (Scene.walkWithin memo time bound budget s id).Matches Q
        (Scene.walkWithin memo time bound budget t id)
  | 0, s, t, id, _, hst => by
    unfold Scene.walkWithin
    rw [h.any_isScheduled_eq hst, h.name_eq hst]
    split <;> exact ⟨hst, rfl, rfl, rfl⟩
  | budget + 1, s, t, id, hid, hst => by
    unfold Scene.walkWithin
    rw [h.any_isScheduled_eq hst, h.name_eq hst]
    split
    · have hstep := h.step hfeeds memo (hC hid) hst
      obtain ⟨hs, ht⟩ := h.shape hstep.scene
      simp only
      rw [hstep.result, hstep.events,
        Graph.nextNode?_eq_of_bare (Graph.bare_eq_of_clearValues_eq hs),
        Graph.nextNode?_eq_of_bare (Graph.bare_eq_of_clearValues_eq ht)]
      split
      · exact ⟨hstep.scene, rfl, rfl, rfl⟩
      · exact ⟨hstep.scene, rfl, rfl, rfl⟩
      · split
        · exact ⟨hstep.scene, rfl, rfl, rfl⟩
        · next chosen? _ next hchosen =>
          obtain ⟨slot, -, hslot⟩ := Option.bind_eq_some_iff.1 hchosen
          have hrest := walkWithin h hC hnext memo bound budget (hnext hid hslot) hstep.scene
          exact ⟨hrest.scene, hrest.current, by rw [hrest.events], hrest.result⟩
    · exact ⟨hst, rfl, rfl, rfl⟩

end Lockstep

end Scene

/-! ## 4. What a walk touches, and what it sees -/

namespace Scene

variable {σ : Type u}

/-- From one scene to the other nothing has changed that lies outside of `R` and its footprint. -/
structure Confined (g : Graph) (R : NodeId → Prop) (s t : Scene σ) : Prop where
  shape : t.graph.clearValues = s.graph.clearValues
  table : ∀ k, ¬ R k → t.table.get? k = s.table.get? k
  ports : ∀ k q, ¬ g.Footprint R k q → t.graph.port? k q = s.graph.port? k q

/-- The scenes have the shape of `g` and agree on `R` and its footprint. -/
structure AgreesOn (g : Graph) (R : NodeId → Prop) (s t : Scene σ) : Prop where
  left : s.graph.clearValues = g.clearValues
  right : t.graph.clearValues = g.clearValues
  resolved : t.resolved = s.resolved
  table : ∀ k, R k → t.table.get? k = s.table.get? k
  ports : ∀ k q, g.Footprint R k q → t.graph.port? k q = s.graph.port? k q

variable {g : Graph} {R : NodeId → Prop} {s t : Scene σ} {id : NodeId}

namespace Confined

theorem refl (s : Scene σ) : Confined g R s s := ⟨rfl, fun _ _ => rfl, fun _ _ _ => rfl⟩

theorem trans {r : Scene σ} (h : Confined g R s t) (h' : Confined g R t r) : Confined g R s r :=
  ⟨h'.shape.trans h.shape, fun k hk => (h'.table k hk).trans (h.table k hk),
    fun k q hq => (h'.ports k q hq).trans (h.ports k q hq)⟩

theorem evaluate [Behaves σ] (s : Scene σ) (time : FrameTime) (role : Role) (hid : R id) :
    Confined g R s (s.evaluate time role id).scene := by
  have hne : ∀ {k}, ¬ R k → k ≠ id := fun hk hkid => hk (hkid ▸ hid)
  refine ⟨clearValues_evaluate time role s id, fun k hk => s.get?_evaluate_of_ne time role (hne hk),
    fun k q hq => ?_⟩
  rw [Graph.port?, Graph.port?, s.node?_evaluate_of_ne time role (hne fun hk => hq (.inl hk))]

theorem push (hg : g.Intact) (hs : s.graph.clearValues = g.clearValues) (hid : R id) :
    Confined g R s (s.push id) := by
  have hbare := Graph.bare_eq_of_clearValues_eq hs
  refine ⟨clearValues_push s id, fun _ _ => rfl, fun k q hq => ?_⟩
  show (s.graph.pushOutputs id).port? k q = s.graph.port? k q
  unfold Graph.pushOutputs
  cases hn : s.graph.node? id with
  | none => rfl
  | some n =>
    refine Graph.port?_deliverAll_of_not_mem fun d hd hkq => hq (.inr ?_)
    obtain ⟨c, hc, hexec, hfrom, hto, hport⟩ :=
      (hg.of_bare_eq hbare).exists_link_of_mem_deliveries hn hd
    exact ⟨c, Graph.links_eq_of_bare hbare ▸ hc, hexec, hfrom ▸ hid, hto.trans hkq.1.symm,
      hport.trans hkq.2.symm⟩

end Confined

namespace AgreesOn

/-- Where scenes agree, they hold the same nodes. -/
theorem node?_eq (h : AgreesOn g R s t) (hg : g.Intact) (hid : R id) :
    t.graph.node? id = s.graph.node? id := by
  have hbare := Graph.bare_eq_of_clearValues_eq h.left
  exact Graph.node?_eq_of_ports (hg.of_bare_eq hbare) (h.right.trans h.left.symm)
    fun q => h.ports id q (.inl hid)

theorem evaluate [Behaves σ] (h : AgreesOn g R s t) (hg : g.Intact) (time : FrameTime) (role : Role)
    (hid : R id) : (s.evaluate time role id).Matches (AgreesOn g R) (t.evaluate time role id) := by
  have hs := clearValues_evaluate time role s id
  have ht := clearValues_evaluate time role t id
  unfold Scene.evaluate at hs ht ⊢
  rw [h.table id hid, h.node?_eq hg hid] at ht ⊢
  cases hb : s.table.get? id with
  | none => exact ⟨h, rfl, rfl⟩
  | some b =>
    cases hn : s.graph.node? id with
    | none => exact ⟨h, rfl, rfl⟩
    | some n =>
      rw [hb, hn] at hs ht
      refine ⟨⟨hs.trans h.left, ht.trans h.right, h.resolved, fun k hk => ?_, fun k q hq => ?_⟩,
        rfl, rfl⟩
      · simp only [OrderedMap.get?_modify, h.table k hk]
      · have hports := h.ports k q hq
        simp only [Graph.port?, Graph.modifyNode_eq_touch, Graph.node?_touch] at hports ⊢
        by_cases hk : k = id
        · subst hk
          rw [h.node?_eq hg hid]
        · simp only [if_neg hk, Option.map_id']
          exact hports

theorem push (h : AgreesOn g R s t) (hg : g.Intact) (hid : R id) :
    AgreesOn g R (s.push id) (t.push id) := by
  refine ⟨(clearValues_push s id).trans h.left, (clearValues_push t id).trans h.right, h.resolved,
    h.table, fun k q hq => ?_⟩
  have hbare := Graph.bare_eq_of_clearValues_eq (h.right.trans h.left.symm)
  show (t.graph.pushOutputs id).port? k q = (s.graph.pushOutputs id).port? k q
  unfold Graph.pushOutputs
  rw [h.node?_eq hg hid]
  cases s.graph.node? id with
  | none => exact h.ports k q hq
  | some n =>
    have hsent : t.graph.deliveries n = s.graph.deliveries n := by
      rw [Graph.deliveries, Graph.deliveries, Graph.links_eq_of_bare hbare]
    simp only
    rw [hsent]
    exact Graph.port?_deliverAll_congr (h.ports k q hq)

end AgreesOn

/-- Two walks that agree at first, each of them confined since. -/
structure Together (g : Graph) (R : NodeId → Prop) (s₀ t₀ s t : Scene σ) : Prop where
  agrees : AgreesOn g R s t
  left : Confined g R s₀ s
  right : Confined g R t₀ t

variable [Behaves σ]

theorem together_lockstep (hg : g.Intact) (R : NodeId → Prop) (time : FrameTime) (s₀ t₀ : Scene σ) :
    Lockstep g R time (Together g R s₀ t₀) where
  shape h := ⟨h.agrees.left, h.agrees.right⟩
  resolved h := h.agrees.resolved
  memory ids h :=
    ⟨⟨h.agrees.left, h.agrees.right, rfl, h.agrees.table, h.agrees.ports⟩,
      ⟨h.left.shape, h.left.table, h.left.ports⟩, ⟨h.right.shape, h.right.table, h.right.ports⟩⟩
  evaluate role hid h := by
    have hvisit := h.agrees.evaluate hg time role hid
    exact ⟨⟨hvisit.scene, h.left.trans (.evaluate _ time role hid),
      h.right.trans (.evaluate _ time role hid)⟩, hvisit.events, hvisit.result⟩
  push hid h :=
    ⟨h.agrees.push hg hid, h.left.trans (.push hg h.agrees.left hid),
      h.right.trans (.push hg h.agrees.right hid)⟩

/-- **A walk depends on the footprint of its region and changes nothing else**: from two
scenes that agree there, it goes the same way, leaves scenes that agree there again, and
leaves the rest of either alone. -/
theorem walkWithin_together (hg : g.Intact) (memo : Memoization) (time : FrameTime)
    (bound budget : Nat) {start : NodeId} (h : AgreesOn g (g.Region start) s t) :
    (walkWithin memo time bound budget s start).Matches (Together g (g.Region start) s t)
      (walkWithin memo time bound budget t start) := by
  refine (together_lockstep hg (g.Region start) time s t).walkWithin (C := g.Leads start)
    (fun hm hk => .data hm hk) .control (fun ha hab => ?_) memo bound budget .refl
    ⟨h, .refl s, .refl t⟩
  exact ha.tail (hg.mem_nextNodes_of_nextNode? hab)

end Scene

/-! ## 5. Two walks, one after the other -/

namespace Scene

variable {σ : Type u} {g : Graph} {R S : NodeId → Prop} {s a b ab ba : Scene σ}

/-- What is changed within one footprint is not seen from another that keeps apart. -/
theorem Confined.agreesOn (h : Confined g R s a) (hs : s.graph.clearValues = g.clearValues)
    (hresolved : a.resolved = s.resolved) (hnodes : ∀ k, S k → ¬ R k)
    (hslots : ∀ k q, g.Footprint S k q → ¬ g.Footprint R k q) : AgreesOn g S s a :=
  ⟨hs, h.shape.trans hs, hresolved, fun k hk => h.table k (hnodes k hk),
    fun k q hq => h.ports k q (hslots k q hq)⟩

/-- Two changes within footprints that keep apart, made in either order, meet: `a` and `b` are `s`
after the one and the other, `ab` and `ba` after both. -/
theorem Confined.meet (hnodes : ∀ k, R k → ¬ S k)
    (hslots : ∀ k q, g.Footprint R k q → ¬ g.Footprint S k q) (ha : Confined g R s a)
    (hb : Confined g S s b) (hab : Confined g S a ab) (hba : Confined g R b ba)
    (hR : AgreesOn g R a ba) (hS : AgreesOn g S b ab) :
    (∀ k, ba.table.get? k = ab.table.get? k) ∧ ∀ k q, ba.graph.port? k q = ab.graph.port? k q := by
  constructor
  · intro k
    by_cases hRk : R k
    · rw [hR.table k hRk, hab.table k (hnodes k hRk)]
    · rw [hba.table k hRk]
      by_cases hSk : S k
      · rw [hS.table k hSk]
      · rw [hb.table k hSk, hab.table k hSk, ha.table k hRk]
  · intro k q
    by_cases hRk : g.Footprint R k q
    · rw [hR.ports k q hRk, hab.ports k q (hslots k q hRk)]
    · rw [hba.ports k q hRk]
      by_cases hSk : g.Footprint S k q
      · rw [hS.ports k q hSk]
      · rw [hb.ports k q hSk, hab.ports k q hSk, ha.ports k q hRk]

end Scene

namespace Processor

variable {σ : Type u}

/-- What the next walk starts from. -/
def scene (p : Processor σ) : Scene σ := ⟨p.graph, p.table, []⟩

variable [Behaves σ]

/-- The walks from one cursor, on processors that agree where the cursor's walk can reach. -/
theorem walkCursor_together {g : Graph} (hg : g.Intact) {p q : Processor σ}
    (hsettings : q.settings = p.settings) (htime : q.time = p.time) (c : Cursor)
    (h : Scene.AgreesOn g (g.Region c.current) p.scene q.scene) :
    (q.walkCursor c).2 = (p.walkCursor c).2 ∧
      Scene.Together g (g.Region c.current) p.scene q.scene (p.walkCursor c).1.scene
        (q.walkCursor c).1.scene := by
  have hwalk := Scene.walkWithin_together hg p.settings.memoization p.time
    p.settings.maxWalkSteps.toNat p.settings.maxWalkSteps.toNat h
  obtain ⟨hagrees, hleft, hright⟩ := hwalk.scene
  unfold walkCursor Scene.walk
  rw [hsettings, htime]
  constructor
  · show ({ c with current := _ }, _, _) = ({ c with current := _ }, _, _)
    simp only [scene] at hwalk
    rw [hwalk.current, hwalk.events, hwalk.result]
  · exact ⟨⟨hagrees.left, hagrees.right, rfl, hagrees.table, hagrees.ports⟩,
      ⟨hleft.shape, hleft.table, hleft.ports⟩, ⟨hright.shape, hright.table, hright.ports⟩⟩

end Processor

/-- **Independent walks commute.**  Take a processor on a built graph and two cursors, and call a
node within reach of a cursor if control links lead to it from the node that the cursor stands at,
or if it is a data node that feeds such a node through a chain of data nodes.  If no node is within
reach of both, and no data link joins a node within reach of the one with a node within reach of the
other, then it does not matter which of the two walks is made first: each tells the same, answers
the same and leaves its cursor at the same node as if it were made alone, and the two leave the same
processor behind, with every behavior and every slot.  This holds for any behaviors, for either mode
of memoization, and whether the walks fail or not. -/
theorem independent_walks_commute {σ : Type u} [Behaves σ] (p : Processor σ) (built : p.graph.Built)
    (c d : Cursor)
    (disjoint : ∀ k, p.graph.Region c.current k → ¬ p.graph.Region d.current k)
    (apart : ∀ l ∈ p.graph.links, l.exec = false →
      ¬ (p.graph.Region c.current l.fromNode ∧ p.graph.Region d.current l.toNode) ∧
      ¬ (p.graph.Region d.current l.fromNode ∧ p.graph.Region c.current l.toNode)) :
    let first := p.walkCursor c
    let second := p.walkCursor d
    (first.1.walkCursor d).2 = second.2 ∧
    (second.1.walkCursor c).2 = first.2 ∧
    (first.1.walkCursor d).1 = (second.1.walkCursor c).1 := by
  intro first second
  have hg : p.graph.Intact := built.intact
  have hslots : ∀ k q, p.graph.Footprint (p.graph.Region c.current) k q →
      ¬ p.graph.Footprint (p.graph.Region d.current) k q := fun k q =>
    hg.footprint_disjoint disjoint (fun l hl hexec hfrom hto => (apart l hl hexec).1 ⟨hfrom, hto⟩)
      fun l hl hexec hfrom hto => (apart l hl hexec).2 ⟨hfrom, hto⟩
  have hself : ∀ R, Scene.AgreesOn p.graph R p.scene p.scene := fun R =>
    ⟨rfl, rfl, rfl, fun _ _ => rfl, fun _ _ _ => rfl⟩
  obtain ⟨-, -, hfirst, -⟩ := Processor.walkCursor_together hg rfl rfl c (hself _)
  obtain ⟨-, -, hsecond, -⟩ := Processor.walkCursor_together hg rfl rfl d (hself _)
  -- neither walk is seen from the region of the other
  have hseen : Scene.AgreesOn p.graph (p.graph.Region d.current) p.scene first.1.scene :=
    hfirst.agreesOn rfl rfl (fun k hd hc => disjoint k hc hd) fun k q hd hc => hslots k q hc hd
  have hseen' : Scene.AgreesOn p.graph (p.graph.Region c.current) p.scene second.1.scene :=
    hsecond.agreesOn rfl rfl disjoint hslots
  obtain ⟨hsame, hagrees, -, hthen⟩ :=
    Processor.walkCursor_together hg (p := p) (q := first.1) rfl rfl d hseen
  obtain ⟨hsame', hagrees', -, hthen'⟩ :=
    Processor.walkCursor_together hg (p := p) (q := second.1) rfl rfl c hseen'
  obtain ⟨htable, hports⟩ := Scene.Confined.meet disjoint hslots hfirst hsecond hthen hthen'
    hagrees' hagrees
  have hshape : (second.1.walkCursor c).1.graph.clearValues = p.graph.clearValues := hagrees'.right
  have hgraph : (first.1.walkCursor d).1.graph = (second.1.walkCursor c).1.graph :=
    Graph.eq_of_ports (hg.of_bare_eq (Graph.bare_eq_of_clearValues_eq hshape))
      (hagrees.right.trans hshape.symm) fun k q => (hports k q).symm
  have hkeys : ∀ (q : Processor σ) (c : Cursor), (q.walkCursor c).1.table.keys = q.table.keys :=
    fun q c => (q.walkCursor_walked c).still.keys
  have htables : (first.1.walkCursor d).1.table = (second.1.walkCursor c).1.table := by
    refine OrderedMap.eq_of_get? ?_ fun k => (htable k).symm
    rw [hkeys, hkeys, hkeys, hkeys]
  refine ⟨hsame, hsame', ?_⟩
  calc (first.1.walkCursor d).1 =
        { p with
          graph := (first.1.walkCursor d).1.graph
          table := (first.1.walkCursor d).1.table } := rfl
    _ = { p with
          graph := (second.1.walkCursor c).1.graph
          table := (second.1.walkCursor c).1.table } := by
      rw [hgraph, htables]
    _ = (second.1.walkCursor c).1 := rfl

/-- Two scripts in one graph: one prints a constant, the other waits as long as a constant says.
The constant that is printed is also shown by a node that no walk comes to. -/
def pairEdits : List Edit :=
  [ .addNode (exampleNode 0 (Library.entryType Library.onUpdate "On Update" .update "" none)),
    .addNode (exampleNode 1 Library.logType),
    .addNode (exampleNode 2 Library.constantType),
    .addNode (exampleNode 3 (Library.entryType Library.onUpdate "On Update" .update "" none)),
    .addNode (exampleNode 4 Library.waitType),
    .addNode ((exampleNode 5 Library.constantType).withSetting Library.valueSetting (.float .one)),
    .addNode (exampleNode 6 Library.formatType),
    exampleLink 0 0 "Exec" 1 "Exec",
    exampleLink 1 2 "Value" 1 "Text",
    exampleLink 2 3 "Exec" 4 "Exec",
    exampleLink 3 5 "Value" 4 "Seconds",
    exampleLink 4 2 "Value" 6 "Value" ]

def pairGraph : Graph := Edit.runAll (.empty "pair") pairEdits

def pairProcessor : Processor Library.Behavior :=
  (Processor.ensureReady
    { exampleProcessor with
      graph := pairGraph
      table := (Table.sync .empty Library.registry pairGraph).1
      boundAt := pairGraph.revision }).state

theorem pairProcessor_built : pairProcessor.graph.Built :=
  .written ((Graph.Built.empty "pair").runAll pairEdits (by decide +kernel))
    (Processor.ensureReady_prepared _).1.bare

/-- The two scripts reach three nodes each. -/
theorem pair_regions {k : NodeId} :
    (pairProcessor.graph.Region (exampleId 0) k → k ∈ [exampleId 0, exampleId 1, exampleId 2]) ∧
    (pairProcessor.graph.Region (exampleId 3) k → k ∈ [exampleId 3, exampleId 4, exampleId 5]) :=
  ⟨Graph.Region.mem_of_closed (by decide +kernel) (by decide +kernel) (by decide +kernel),
    Graph.Region.mem_of_closed (by decide +kernel) (by decide +kernel) (by decide +kernel)⟩

/-- The one walk completes, the other one pauses, and their order does not matter. -/
theorem pair_walks_commute :
    let c := Cursor.start (exampleId 0)
    let d := Cursor.start (exampleId 3)
    (pairProcessor.walkCursor c).2.2.2 = .ok .completed ∧
    (pairProcessor.walkCursor d).2.2.2 = .ok .paused ∧
    ((pairProcessor.walkCursor c).1.walkCursor d).1 =
      ((pairProcessor.walkCursor d).1.walkCursor c).1 := by
  have hlinks : ∀ l ∈ pairProcessor.graph.links, l.exec = false →
      ¬ (l.fromNode ∈ [exampleId 0, exampleId 1, exampleId 2] ∧
        l.toNode ∈ [exampleId 3, exampleId 4, exampleId 5]) ∧
      ¬ (l.fromNode ∈ [exampleId 3, exampleId 4, exampleId 5] ∧
        l.toNode ∈ [exampleId 0, exampleId 1, exampleId 2]) := by decide +kernel
  have hlists : ∀ k ∈ [exampleId 0, exampleId 1, exampleId 2],
      k ∉ [exampleId 3, exampleId 4, exampleId 5] := by decide +kernel
  refine ⟨by decide +kernel, by decide +kernel, ?_⟩
  exact (independent_walks_commute pairProcessor pairProcessor_built (.start (exampleId 0))
    (.start (exampleId 3)) (fun k hc hd => hlists k (pair_regions.1 hc) (pair_regions.2 hd))
    fun l hl hexec => ⟨fun h => (hlinks l hl hexec).1 (h.imp pair_regions.1 pair_regions.2),
      fun h => (hlinks l hl hexec).2 (h.imp pair_regions.2 pair_regions.1)⟩).2.2

end FlowScript
