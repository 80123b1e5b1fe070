/-
# Derived state is never stale

A processor keeps two things that it derives from its graph, the behaviors bound to nodes and the
ranks of nodes, and three revision marks that say how old they are.  Different requests move
different marks at different moments, some of them when they fail halfway.  This module proves that
the marks can be relied on, whatever has been asked of a processor since it was made.

* `Synced` is the invariant: no mark is ahead of the graph, and what is marked with the revision of
  the graph is what the graph needs.  An edit leaves the graph alone or makes every mark too old
  (`Edit.run_cases`), so nothing has to be said about behaviors and ranks in between.
* Walking keeps the graph but for its slots, and the set of bound nodes (`Scene.Keeps`).  While
  every node is bound, a walk can only fail in the evaluation of a node, with what the behavior
  bound to it answers there (`Scene.Raised`).
* The kinds that scheduling works for are those that were set last (`Request.kinds_serveAll`).
* `resync_is_never_stale` is the law over all lists of requests.

That ranks stay right while slots are written is `Graph.clearValues_schedule`.
-/
import FlowScript.Probe.Basic
import FlowScript.Proofs.Chains
import FlowScript.Proofs.Sessions
import FlowScript.Proofs.Topology

namespace FlowScript

open Relation (ReflTransGen TransGen)

universe u v

/-! ## 1. Failures of behaviors -/

/-- The failure says that a node or its behavior was not found. -/
def EvalError.isLookup : EvalError → Bool
  | nodeNotFound _ | unbound _ => true
  | _ => false

/-- No behavior answers that a node or a behavior was not found. -/
def Candid (σ : Type u) [Behaves σ] : Prop :=
  ∀ (b : σ) (c : Context) e, (Behaves.evaluate b c).result = .error e → e.isLookup = false

theorem Context.isLookup_of_require {α : Type} {c : Context} {slot : Nat} {expected : PortType}
    {view : Value → Option α} {e : EvalError} (h : c.require slot expected view = .error e) :
    e.isLookup = false := by
  unfold require at h
  split at h
  · cases h; rfl
  · split at h <;> cases h
    rfl

theorem Library.candid : Candid Library.Behavior := by
  intro b c e h
  have hcombine : ∀ b f, (combine b c f).result = .error e → e.isLookup = false := by
    intro b f h
    unfold combine at h
    split at h
    · next hx => cases h; exact Context.isLookup_of_require hx
    · split at h
      · next hy => cases h; exact Context.isLookup_of_require hy
      · cases h
  change (b.evaluate c).result = .error e at h
  cases b with
  | entry writesDelta => cases writesDelta <;> cases h
  | log printed =>
    change (print printed c).result = .error e at h
    unfold print at h
    split at h
    · next hx => cases h; exact Context.isLookup_of_require hx
    · cases h
  | branch =>
    change (choose c).result = .error e at h
    unfold choose at h
    split at h
    · next hx => cases h; exact Context.isLookup_of_require hx
    · cases h
  | wait waited =>
    change (hold waited c).result = .error e at h
    unfold hold at h
    split at h
    · next hx => cases h; exact Context.isLookup_of_require hx
    · simp only at h
      split at h <;> cases h
  | constant v => cases h
  | add => exact hcombine _ _ h
  | greater => exact hcombine _ _ h
  | format template => cases h

theorem Probe.candid : Candid Probe.Behavior := by
  intro b c e h
  change (b.evaluate c).result = .error e at h
  cases b with
  | entry => cases h
  | action unfinished follow? fails pending =>
    simp only [Behavior.evaluate] at h
    split at h
    · cases h; rfl
    · cases h
  | data value => cases h

theorem Candid.sum {σ : Type u} {τ : Type v} [Behaves σ] [Behaves τ] (hσ : Candid σ)
    (hτ : Candid τ) : Candid (σ ⊕ τ)
  | .inl b, c, e, h => hσ b c e h
  | .inr b, c, e, h => hτ b c e h

/-! ## 2. Walks on bound graphs -/

namespace Scene

variable {σ : Type u}

/-- Every node has a behavior. -/
def Bound (s : Scene σ) : Prop := ∀ id, (s.graph.node? id).isSome → (s.table.get? id).isSome

theorem node?_isSome_of_shape {s t : Scene σ} (h : t.graph.clearValues = s.graph.clearValues)
    (id : NodeId) : (t.graph.node? id).isSome = (s.graph.node? id).isSome :=
  Graph.node?_isSome_eq_of_bare (Graph.bare_eq_of_clearValues_eq h) id

/-- What a part of a walk leaves alone: everything of the graph but slots, and which nodes are
bound. -/
structure Keeps (s t : Scene σ) : Prop where
  shape : t.graph.clearValues = s.graph.clearValues
  keys : t.table.keys = s.table.keys

namespace Keeps

variable {s t t' : Scene σ}

theorem refl (s : Scene σ) : Keeps s s := ⟨rfl, rfl⟩

theorem trans (h : Keeps s t) (h' : Keeps t t') : Keeps s t' :=
  ⟨h'.shape.trans h.shape, h'.keys.trans h.keys⟩

/-- What counts as fresh is neither in the graph nor in the table. -/
theorem remember (s : Scene σ) (ids : List NodeId) : Keeps s { s with resolved := ids } :=
  ⟨rfl, rfl⟩

/-- A step may begin by forgetting what is fresh. -/
theorem forget (memo : Memoization) (s : Scene σ) :
    Keeps s (if memo = .perNode then { s with resolved := [] } else s) := by
  split
  · exact remember s []
  · exact refl s

theorem push (s : Scene σ) (id : NodeId) : Keeps s (s.push id) := ⟨clearValues_push s id, rfl⟩

theorem node?_isSome (h : Keeps s t) (id : NodeId) :
    (t.graph.node? id).isSome = (s.graph.node? id).isSome := node?_isSome_of_shape h.shape id

theorem bound (h : Keeps s t) (hs : s.Bound) : t.Bound := by
  intro id hid
  rw [h.node?_isSome] at hid
  rw [OrderedMap.get?_isSome_iff, h.keys, ← OrderedMap.get?_isSome_iff]
  exact hs id hid

end Keeps

variable [Behaves σ]

theorem evaluate_keeps (time : FrameTime) (role : Role) (s : Scene σ) (id : NodeId) :
    Keeps s (s.evaluate time role id).scene := by
  refine ⟨clearValues_evaluate time role s id, ?_⟩
  unfold evaluate
  split
  · rfl
  · rfl
  · exact OrderedMap.keys_modify _ _ _

theorem pullWith_keeps {time : FrameTime} {deeper : Scene σ → NodeId → Step σ Unit}
    (hdeeper : ∀ s id, Keeps s (deeper s id).scene) :
    ∀ (ids : List NodeId) (s : Scene σ), Keeps s (pullWith time deeper ids s).scene
  | [], s => .refl s
  | id :: ids, s => by
    unfold pullWith
    split
    · exact pullWith_keeps hdeeper ids s
    · have hremember := Keeps.remember s (s.resolved ++ [id])
      simp only
      split
      · have hbelow := hremember.trans (hdeeper { s with resolved := s.resolved ++ [id] } id)
        have hown := hbelow.trans (evaluate_keeps time .data _ id)
        split
        · exact hbelow
        · split
          · exact hown
          · exact (hown.trans (.push _ id)).trans (pullWith_keeps hdeeper ids _)
      · exact hremember.trans (pullWith_keeps hdeeper ids _)

theorem resolveWithin_keeps (time : FrameTime) :
    ∀ (fuel : Nat) (s : Scene σ) (id : NodeId), Keeps s (resolveWithin time fuel s id).scene
  | 0, s, _ => .refl s
  | fuel + 1, s, _ => pullWith_keeps (resolveWithin_keeps time fuel) _ s

theorem step_keeps (memo : Memoization) (time : FrameTime) (s : Scene σ) (id : NodeId) :
    Keeps s (s.step memo time id).scene := by
  have hforget := Keeps.forget memo s
  unfold step
  generalize (if memo = .perNode then { s with resolved := [] } else s) = s' at hforget
  have hbelow : Keeps s (s'.resolve time id).scene :=
    hforget.trans (resolveWithin_keeps time _ s' id)
  have hown := hbelow.trans (evaluate_keeps time .control _ id)
  simp only
  split
  · exact hbelow
  · split
    · exact hown
    · exact hown.trans (.push _ id)

theorem walkWithin_keeps (memo : Memoization) (time : FrameTime) (bound : Nat) :
    ∀ (budget : Nat) (s : Scene σ) (id : NodeId),
      Keeps s (walkWithin memo time bound budget s id).scene
  | 0, s, id => by
    unfold walkWithin
    split <;> exact .refl s
  | budget + 1, s, id => by
    have hstep := step_keeps memo time s id
    unfold walkWithin
    split
    · simp only
      split
      · exact hstep
      · exact hstep
      · split
        · exact hstep
        · exact hstep.trans (walkWithin_keeps memo time bound budget _ _)
    · exact .refl s

/-! ## 3. Where a walk fails -/

/-- The behavior that is bound to the node answers with the error, when it sees the node as it
stands here at the start of an evaluation. -/
def Raises (time : FrameTime) (s : Scene σ) (id : NodeId) (e : EvalError) : Prop :=
  ∃ b n, s.table.get? id = some b ∧ s.graph.node? id = some n ∧
    (Behaves.evaluate b (.start n time)).result = .error e

/-- **A failure is the answer of the behavior that is bound to a node.**  On the way from `s` to `t`
there was a scene with the nodes, links and bound nodes of `s`, where the behavior bound to the node
answered with the error.  The journal ends with the evaluation of the node in that scene, and `t` is
what this evaluation has left. -/
def Raised (time : FrameTime) (s t : Scene σ) (events : List Event) (role : Role) (id : NodeId)
    (e : EvalError) : Prop :=
  ∃ u before, Keeps s u ∧ u.Raises time id e ∧
    t.graph = (u.evaluate time role id).scene.graph ∧
    t.table = (u.evaluate time role id).scene.table ∧
    events = before ++ (u.evaluate time role id).events

variable {g : Graph} {time : FrameTime} {s t t' : Scene σ} {e : EvalError}

theorem Raises.raised {id : NodeId} (h : s.Raises time id e) (role : Role) :
    Raised time s (s.evaluate time role id).scene (s.evaluate time role id).events role id e :=
  ⟨s, [], .refl s, h, rfl, rfl, rfl⟩

/-- A failure after something else has been done. -/
theorem Raised.after {events : List Event} {role : Role} {id : NodeId}
    (h : Raised time t t' events role id e) (hkeeps : Keeps s t) (before : List Event) :
    Raised time s t' (before ++ events) role id e := by
  obtain ⟨u, told, hu, hraises, hgraph, htable, rfl⟩ := h
  exact ⟨u, before ++ told, hkeeps.trans hu, hraises, hgraph, htable,
    (List.append_assoc ..).symm⟩

/-- While all nodes are bound, only behaviors fail. -/
theorem evaluate_raises {role : Role} {id : NodeId} (hs : s.Bound)
    (hid : (s.graph.node? id).isSome) (h : (s.evaluate time role id).result = .error e) :
    s.Raises time id e := by
  obtain ⟨b, hb⟩ := Option.isSome_iff_exists.1 (hs id hid)
  obtain ⟨n, hn⟩ := Option.isSome_iff_exists.1 hid
  unfold evaluate at h
  rw [hb, hn] at h
  exact ⟨b, n, hb, hn, eq_error_of_map h⟩

theorem pullWith_raised {deeper : Scene σ → NodeId → Step σ Unit}
    (hkeeps : ∀ s id, Keeps s (deeper s id).scene)
    (hdeeper : ∀ s id e, s.graph.clearValues = g.clearValues → s.Bound →
      (deeper s id).result = .error e →
      ∃ node, Raised time s (deeper s id).scene (deeper s id).events .data node e ∧
        TransGen g.Supplies node id) :
    ∀ (ids : List NodeId) (s : Scene σ), s.graph.clearValues = g.clearValues → s.Bound →
      (pullWith time deeper ids s).result = .error e →
      ∃ node, Raised time s (pullWith time deeper ids s).scene
          (pullWith time deeper ids s).events .data node e ∧
        ∃ q ∈ ids, ReflTransGen g.Supplies node q
  | [], _, _, _, h => nomatch h
  | id :: ids, s, hshape, hs, h => by
    -- a failure of the rest of the list
    have hrest : ∀ {t t' : Scene σ} {events : List Event} (before : List Event), Keeps s t →
        (∃ node, Raised time t t' events .data node e ∧
          ∃ q ∈ ids, ReflTransGen g.Supplies node q) →
        ∃ node, Raised time s t' (before ++ events) .data node e ∧
          ∃ q ∈ id :: ids, ReflTransGen g.Supplies node q :=
      fun before hst ⟨node, hraised, q, hq, hpath⟩ =>
        ⟨node, hraised.after hst before, q, List.mem_cons_of_mem _ hq, hpath⟩
    unfold pullWith at h ⊢
    split at h
    · next hmem =>
      rw [if_pos hmem]
      exact hrest [] (.refl s) (pullWith_raised hkeeps hdeeper ids s hshape hs h)
    · next hmem =>
      have hremember := Keeps.remember s (s.resolved ++ [id])
      rw [if_neg hmem]
      simp only at h ⊢
      split at h
      · next hranked =>
        rw [if_pos hranked]
        have hbelow := hremember.trans (hkeeps { s with resolved := s.resolved ++ [id] } id)
        have hown := hbelow.trans (evaluate_keeps time .data _ id)
        split at h
        · next herror =>
          cases h
          obtain ⟨node, hraised, hpath⟩ :=
            hdeeper { s with resolved := s.resolved ++ [id] } id e hshape hs herror
          exact ⟨node, hraised.after hremember [], id, List.mem_cons_self,
            hpath.to_reflTransGen⟩
        · split at h
          · next herror =>
            cases h
            have hnode : (s.graph.node? id).isSome := Option.isSome_of_any hranked
            rw [← hbelow.node?_isSome] at hnode
            have hraised := (evaluate_raises (hbelow.bound hs) hnode herror).raised .data
            exact ⟨id, hraised.after hbelow _, id, List.mem_cons_self, .refl⟩
          · have hpush := hown.trans (.push _ id)
            exact hrest _ hpush
              (pullWith_raised hkeeps hdeeper ids _ (hpush.shape.trans hshape) (hpush.bound hs) h)
      · next hranked =>
        rw [if_neg hranked]
        exact hrest [_] hremember (pullWith_raised hkeeps hdeeper ids
          { s with resolved := s.resolved ++ [id] } hshape hs h)

/-- **A pull fails at a data node above the node at hand.** -/
theorem resolveWithin_raised (g : Graph) (time : FrameTime) :
    ∀ (fuel : Nat) (s : Scene σ) (id : NodeId) (e : EvalError),
      s.graph.clearValues = g.clearValues → s.Bound →
      (resolveWithin time fuel s id).result = .error e →
      ∃ node, Raised time s (resolveWithin time fuel s id).scene
          (resolveWithin time fuel s id).events .data node e ∧ TransGen g.Supplies node id
  | 0, _, _, _, _, _, h => nomatch h
  | fuel + 1, s, id, e, hshape, hs, h => by
    have hproducers := Graph.producers_eq_of_bare (Graph.bare_eq_of_clearValues_eq hshape)
    obtain ⟨node, hraised, q, hq, hpath⟩ := pullWith_raised (resolveWithin_keeps time fuel)
      (resolveWithin_raised g time fuel) _ s hshape hs h
    rw [hproducers] at hq
    exact ⟨node, hraised, .tail' hpath (Graph.mem_producers_iff.1 hq)⟩

/-- **A step fails at its node, or at a data node above it.** -/
theorem step_raised {memo : Memoization} {id : NodeId}
    (hshape : s.graph.clearValues = g.clearValues) (hs : s.Bound)
    (hid : (s.graph.node? id).isSome) (h : (s.step memo time id).result = .error e) :
    ∃ role node,
      Raised time s (s.step memo time id).scene (s.step memo time id).events role node e ∧
      (role = .control ∧ node = id ∨ role = .data ∧ TransGen g.Supplies node id) := by
  -- what is remembered makes no difference
  have hforget := Keeps.forget memo s
  unfold step at h ⊢
  generalize (if memo = .perNode then { s with resolved := [] } else s) = s' at h hforget ⊢
  have hbelow : Keeps s (s'.resolve time id).scene :=
    hforget.trans (resolveWithin_keeps time _ s' id)
  simp only at h ⊢
  split at h
  · next herror =>
    cases h
    obtain ⟨node, hraised, hpath⟩ := resolveWithin_raised g time _ s' id e
      (hforget.shape.trans hshape) (hforget.bound hs) herror
    exact ⟨.data, node, hraised.after hforget [], .inr ⟨rfl, hpath⟩⟩
  · split at h
    · next herror =>
      cases h
      rw [← hbelow.node?_isSome] at hid
      have hraised := (evaluate_raises (hbelow.bound hs) hid herror).raised .control
      exact ⟨.control, id, hraised.after hbelow _, .inl ⟨rfl, rfl⟩⟩
    · cases h

/-- **A walk fails as the behavior of a node does**, if all nodes are bound. -/
theorem walkWithin_raised {memo : Memoization} {bound : Nat} :
    ∀ (budget : Nat) (s : Scene σ) (id : NodeId), s.Bound →
      (walkWithin memo time bound budget s id).result = .error e →
      ∃ role node, Raised time s (walkWithin memo time bound budget s id).scene
        (walkWithin memo time bound budget s id).events role node e
  | 0, s, id, _, h => by
    unfold walkWithin at h
    split at h <;> cases h
  | budget + 1, s, id, hs, h => by
    have hkeeps := step_keeps memo time s id
    unfold walkWithin at h ⊢
    split at h
    · next hranked =>
      rw [if_pos hranked]
      simp only at h ⊢
      split at h
      · next herror =>
        cases h
        obtain ⟨role, node, hraised, -⟩ :=
          step_raised rfl hs (Option.isSome_of_any hranked) herror
        exact ⟨role, node, hraised⟩
      · cases h
      · split at h
        · cases h
        · obtain ⟨role, node, hraised⟩ :=
            walkWithin_raised budget (s.step memo time id).scene _ (hkeeps.bound hs) h
          exact ⟨role, node, hraised.after hkeeps _⟩
    · cases h

end Scene

/-! ## 4. What each request does to the marks -/

namespace Table

variable {σ : Type u}

/-- Binding that does not fail binds the nodes it is given, and no others. -/
theorem mem_keys_bindMissing {r : Registry σ} {id : NodeId} :
    ∀ {ns : List Node} {t : Table σ}, (bindMissing r ns t).2.2 = .ok () →
      (id ∈ (bindMissing r ns t).1.keys ↔ id ∈ t.keys ∨ id ∈ ns.map Node.id)
  | [], _, _ => by simp [bindMissing]
  | n :: ns, t, hok => by
    unfold bindMissing at hok ⊢
    split at hok
    · next hbound =>
      rw [if_pos hbound, mem_keys_bindMissing hok, List.map_cons, List.mem_cons]
      have hn : n.id ∈ t.keys := (OrderedMap.get?_isSome_iff t n.id).1 hbound
      constructor
      · exact Or.imp_right Or.inr
      · rintro (h | rfl | h)
        · exact Or.inl h
        · exact Or.inl hn
        · exact Or.inr h
    · next hfree =>
      rw [if_neg hfree]
      split at hok
      · cases hok
      · next b hb =>
        simp only
        rw [mem_keys_bindMissing hok, OrderedMap.mem_keys_insert, List.map_cons, List.mem_cons,
          or_assoc, or_left_comm]

/-- **A table that was brought up to date without failure holds exactly the nodes of the graph.** -/
theorem mem_keys_sync {t : Table σ} {r : Registry σ} {g : Graph}
    (hkeys : ∀ id n, g.node? id = some n → n.id = id) (hok : (t.sync r g).2.2 = .ok ())
    (id : NodeId) : id ∈ (t.sync r g).1.keys ↔ id ∈ g.nodes.keys := by
  have hkept : id ∈ (OrderedMap.filter (fun id _ => (g.node? id).isSome) t).keys →
      id ∈ g.nodes.keys := by
    rw [← OrderedMap.get?_isSome_iff, ← OrderedMap.get?_isSome_iff]
    intro h
    obtain ⟨b, hb⟩ := Option.isSome_iff_exists.1 h
    exact ((OrderedMap.get?_filter_eq_some_iff _ _ _ _).1 hb).2
  rw [sync, mem_keys_bindMissing hok, Graph.map_id_values_of_nodeKey hkeys]
  exact ⟨fun h => h.elim hkept fun hid => hid, Or.inr⟩

end Table

/-- **What an edit can do**: nothing, or it takes the graph to its next revision, where every node
is an old one or the one that was added, under its own name. -/
theorem Edit.run_cases (g : Graph) (e : Edit) :
    e.run g = g ∨
    (e.run g).revision = g.revision + 1 ∧
      ∀ id n, (e.run g).node? id = some n → g.node? id = some n ∨ e = .addNode n ∧ n.id = id := by
  cases e with
  | addNode n =>
    refine Or.inr ⟨rfl, fun id m hm => ?_⟩
    rw [run, Graph.node?_addNode] at hm
    split at hm
    · next hid => cases hm; exact Or.inr ⟨rfl, hid.symm⟩
    · exact Or.inl hm
  | removeNode id =>
    simp only [run]
    cases hrm : g.removeNode? id with
    | none => exact Or.inl rfl
    | some r =>
      obtain ⟨n, g'⟩ := r
      obtain rfl := Graph.removeNode?_eq_some hrm
      refine Or.inr ⟨rfl, fun k m hm => Or.inl ?_⟩
      have hget : (if k = id then none else g.node? k) = some m :=
        (OrderedMap.get?_erase _ _ _).symm.trans hm
      split at hget
      · cases hget
      · exact hget
  | connect id a p b q =>
    simp only [run]
    split
    · next g' hok =>
      obtain ⟨out, inp, -, -, rfl⟩ := Graph.connect_ok hok
      exact Or.inr ⟨rfl, fun _ _ hm => Or.inl hm⟩
    · exact Or.inl rfl
  | connectByName id a o b i =>
    simp only [run]
    split
    · next g' hok =>
      obtain ⟨p, q, hconn⟩ := Graph.connectByName_ok hok
      obtain ⟨out, inp, -, -, rfl⟩ := Graph.connect_ok hconn
      exact Or.inr ⟨rfl, fun _ _ hm => Or.inl hm⟩
    · exact Or.inl rfl
  | disconnect id =>
    simp only [run]
    cases hok : g.disconnect? id with
    | none => exact Or.inl rfl
    | some r =>
      obtain ⟨c, g'⟩ := r
      obtain rfl := Graph.disconnect?_eq_some hok
      exact Or.inr ⟨rfl, fun _ _ hm => Or.inl hm⟩

namespace Processor

variable {σ : Type u}

/-- The bound nodes are exactly the nodes of the graph. -/
def BindsAll (p : Processor σ) : Prop := ∀ id, id ∈ p.table.keys ↔ id ∈ p.graph.nodes.keys

/-- The ranks are those that scheduling gives to the graph for the present kinds. -/
def RanksRight (p : Processor σ) : Prop :=
  p.graph.clearValues =
    (p.graph.schedule p.settings.maxFrontiers.toNat p.kinds).1.clearValues

/-- The revision marks can be relied on. -/
structure Synced (p : Processor σ) : Prop where
  nodeKey : ∀ id n, p.graph.node? id = some n → n.id = id
  boundAt_le : p.boundAt ≤ p.graph.revision
  binds : p.boundAt = p.graph.revision → p.BindsAll
  scheduledAt_le : ∀ r, p.scheduledAt = some r → r ≤ p.graph.revision
  ranks : p.scheduledAt = some p.graph.revision → p.RanksRight

/-- The processors agree in everything that freshness is about. -/
structure Still (p q : Processor σ) : Prop where
  shape : q.graph.clearValues = p.graph.clearValues
  keys : q.table.keys = p.table.keys
  settings : q.settings = p.settings
  kinds : q.kinds = p.kinds
  boundAt : q.boundAt = p.boundAt
  scheduledAt : q.scheduledAt = p.scheduledAt

theorem Still.refl (p : Processor σ) : Still p p := ⟨rfl, rfl, rfl, rfl, rfl, rfl⟩

theorem Still.trans {p q r : Processor σ} (h : Still p q) (h' : Still q r) : Still p r :=
  ⟨h'.shape.trans h.shape, h'.keys.trans h.keys, h'.settings.trans h.settings,
    h'.kinds.trans h.kinds, h'.boundAt.trans h.boundAt, h'.scheduledAt.trans h.scheduledAt⟩

theorem revision_eq_of_bare {g g' : Graph} (h : g'.bare = g.bare) : g'.revision = g.revision :=
  show g'.bare.revision = g.bare.revision by rw [h]

theorem mem_keys_iff_of_bare {g g' : Graph} (h : g'.bare = g.bare) (id : NodeId) :
    id ∈ g'.nodes.keys ↔ id ∈ g.nodes.keys := by
  rw [← OrderedMap.get?_isSome_iff, ← OrderedMap.get?_isSome_iff]
  exact iff_of_eq (congrArg (· = true) (Graph.node?_isSome_eq_of_bare h id))

theorem nodeKey_of_bare {g g' : Graph} (h : g'.bare = g.bare)
    (hkey : ∀ id n, g.node? id = some n → n.id = id) :
    ∀ id n, g'.node? id = some n → n.id = id := by
  intro id n hn
  obtain ⟨m, hm, hmn⟩ := Graph.exists_node?_of_bare h hn
  have hid : m.bare.id = n.bare.id := congrArg Node.id hmn
  exact hid.symm.trans (hkey id m hm)

theorem BindsAll.still {p q : Processor σ} (h : p.BindsAll) (hs : Still p q) : q.BindsAll := by
  intro id
  rw [hs.keys, mem_keys_iff_of_bare (Graph.bare_eq_of_clearValues_eq hs.shape)]
  exact h id

theorem kinds_new {g : Graph} {r : Registry σ} {settings : Settings} {told : List Event}
    {p : Processor σ} (h : Processor.new g r settings = (told, .ok p)) :
    p.kinds = EntryKind.all := by
  unfold Processor.new at h
  simp only at h
  split at h
  · cases h
  · cases h
    rfl

/-- To bind touches the table, its mark and the paused walks only. -/
theorem rebind_state (p : Processor σ) :
    ∃ table boundAt paused,
      p.rebind.state = { p with table := table, boundAt := boundAt, paused := paused } := by
  unfold rebind
  split
  · exact ⟨_, _, _, rfl⟩
  · simp only
    split <;> exact ⟨_, _, _, rfl⟩

theorem kinds_ensureReady (p : Processor σ) : p.ensureReady.state.kinds = p.kinds := by
  have hkinds : p.rebind.state.kinds = p.kinds := by
    obtain ⟨_, _, _, hstate⟩ := p.rebind_state
    rw [hstate]
  unfold ensureReady
  simp only
  split
  · exact hkinds
  · split
    · exact hkinds
    · exact hkinds

/-- **Setting the kinds makes ranks old**: a processor that gets ready after it has scheduled its
graph for these kinds, whatever it was scheduled for before. -/
theorem ensureReady_setKinds (p : Processor σ) (kinds : List EntryKind)
    (hok : (p.setKinds kinds).ensureReady.result = .ok ()) :
    let ready := (p.setKinds kinds).ensureReady.state
    let (g, report) := p.graph.schedule p.settings.maxFrontiers.toNat kinds
    ready.kinds = kinds ∧ ready.graph = g ∧ ready.report = report := by
  obtain ⟨table, boundAt, paused, hstate⟩ := (p.setKinds kinds).rebind_state
  unfold ensureReady at hok ⊢
  simp only at hok ⊢
  split at hok
  · cases hok
  · have hold : ¬ (p.setKinds kinds).rebind.state.scheduledAt =
        some (p.setKinds kinds).rebind.state.graph.revision := by
      rw [hstate]
      exact nofun
    rw [if_neg hold, hstate]
    exact ⟨rfl, rfl, rfl⟩

namespace Synced

variable {p q : Processor σ}

theorem still (h : p.Synced) (hs : Still p q) : q.Synced := by
  have hbare := Graph.bare_eq_of_clearValues_eq hs.shape
  have hrev := revision_eq_of_bare hbare
  constructor
  case nodeKey => exact nodeKey_of_bare hbare h.nodeKey
  case boundAt_le => rw [hs.boundAt, hrev]; exact h.boundAt_le
  case binds => rw [hs.boundAt, hrev]; exact fun hbound => (h.binds hbound).still hs
  case scheduledAt_le => rw [hs.scheduledAt, hrev]; exact h.scheduledAt_le
  case ranks =>
    intro hsched
    rw [hs.scheduledAt, hrev] at hsched
    rw [RanksRight, hs.shape, hs.settings, hs.kinds, Graph.clearValues_schedule_congr hbare]
    exact h.ranks hsched

/-- An edit makes marks old, if it does anything. -/
theorem edit (h : p.Synced) (e : Edit) : Synced { p with graph := e.run p.graph } := by
  rcases Edit.run_cases p.graph e with hsame | ⟨hrev, hnodes⟩
  · rw [hsame]
    exact h
  · have hle := h.boundAt_le
    constructor
    case nodeKey => exact fun id n hn => (hnodes id n hn).elim (h.nodeKey id n) And.right
    case boundAt_le => simp only [hrev]; omega
    case binds => simp only [hrev]; omega
    case scheduledAt_le =>
      intro r hr
      have hr' := h.scheduledAt_le r hr
      simp only [hrev]
      omega
    case ranks =>
      intro hr
      have hr' := h.scheduledAt_le _ hr
      simp only [hrev] at hr'
      omega

theorem setKinds (h : p.Synced) (kinds : List EntryKind) : (p.setKinds kinds).Synced :=
  ⟨h.nodeKey, h.boundAt_le, h.binds, nofun, nofun⟩

theorem reschedule (h : p.Synced) : p.reschedule.1.Synced ∧ p.reschedule.1.RanksRight := by
  have hbare : p.reschedule.1.graph.bare = p.graph.bare := Graph.bare_schedule _ _ _
  have hrev := revision_eq_of_bare hbare
  have hranks : p.reschedule.1.RanksRight := Graph.clearValues_schedule_congr hbare.symm _ _
  refine ⟨⟨nodeKey_of_bare hbare h.nodeKey, ?_, ?_, ?_, fun _ => hranks⟩, hranks⟩
  · rw [hrev]
    exact h.boundAt_le
  · intro hbound id
    rw [mem_keys_iff_of_bare hbare]
    exact h.binds (hbound.trans hrev) id
  · intro r hr
    cases hr
    exact Nat.le_refl _

/-- A binding that fails halfway leaves its mark too old. -/
theorem rebind (h : p.Synced) :
    p.rebind.state.Synced ∧ (p.rebind.result = .ok () → p.rebind.state.BindsAll) := by
  unfold Processor.rebind
  split
  · next hbound => exact ⟨h, fun _ => h.binds hbound⟩
  · next hold =>
    simp only
    split
    · exact ⟨⟨h.nodeKey, h.boundAt_le, fun hbound => absurd hbound hold, h.scheduledAt_le, h.ranks⟩,
        fun hok => nomatch hok⟩
    · next hok =>
      have hbinds := Table.mem_keys_sync h.nodeKey hok
      exact ⟨⟨h.nodeKey, Nat.le_refl _, fun _ => hbinds, h.scheduledAt_le, h.ranks⟩,
        fun _ => hbinds⟩

/-- **Where a processor says that it is up to date, it is.** -/
theorem ensureReady (h : p.Synced) :
    p.ensureReady.state.Synced ∧
    (p.ensureReady.result = .ok () →
      p.ensureReady.state.BindsAll ∧ p.ensureReady.state.RanksRight) := by
  obtain ⟨hrebind, hbinds⟩ := h.rebind
  unfold Processor.ensureReady
  simp only
  split
  · exact ⟨hrebind, fun hok => nomatch hok⟩
  · next hok =>
    split
    · next hcurrent => exact ⟨hrebind, fun _ => ⟨hbinds hok, hrebind.ranks hcurrent⟩⟩
    · obtain ⟨hsched, hranks⟩ := hrebind.reschedule
      have hbare : p.rebind.state.reschedule.1.graph.bare = p.rebind.state.graph.bare :=
        Graph.bare_schedule _ _ _
      refine ⟨hsched, fun _ => ⟨fun id => ?_, hranks⟩⟩
      rw [mem_keys_iff_of_bare hbare]
      exact hbinds hok id

/-- A new processor is in sync, if nodes stand under their own names. -/
theorem new_of_nodeKey {g : Graph} (hkey : ∀ id n, g.node? id = some n → n.id = id) {r : Registry σ}
    {settings : Settings} {told : List Event} (h : Processor.new g r settings = (told, .ok p)) :
    p.Synced := by
  unfold Processor.new at h
  simp only at h
  split at h
  · cases h
  · next hok =>
    cases h
    exact ⟨hkey, Nat.le_refl _, fun _ => Table.mem_keys_sync hkey hok, nofun, nofun⟩

theorem new {g : Graph} (hg : g.Intact) {r : Registry σ} {settings : Settings} {told : List Event}
    (h : Processor.new g r settings = (told, .ok p)) : p.Synced := new_of_nodeKey hg.nodeKey h

end Synced

/-! ## 5. Requests -/

theorem BindsAll.bound {p : Processor σ} (h : p.BindsAll) :
    (⟨p.graph, p.table, []⟩ : Scene σ).Bound := by
  intro id hid
  rw [OrderedMap.get?_isSome_iff, h id, ← OrderedMap.get?_isSome_iff]
  exact hid

section Walking

variable [Behaves σ]

/-- A failure between two states of a processor is the answer of the behavior that was bound to a
node.  The journal ends with the evaluation of this node. -/
def Raised (p q : Processor σ) (events : List Event) (e : EvalError) : Prop :=
  ∃ role id, Scene.Raised p.time ⟨p.graph, p.table, []⟩ ⟨q.graph, q.table, []⟩ events role id e

/-- A failure after something else has been done. -/
theorem Raised.after {p q r : Processor σ} {events : List Event} {e : EvalError}
    (h : q.Raised r events e) (still : Still p q) (time : q.time = p.time) (before : List Event) :
    p.Raised r (before ++ events) e := by
  obtain ⟨role, id, hraised⟩ := h
  rw [time] at hraised
  exact ⟨role, id, hraised.after ⟨still.shape, still.keys⟩ before⟩

/-- A processor after some walking, failing or not.  While all nodes are bound, only behaviors
fail. -/
structure Walked {α : Type} (p q : Processor σ) (events : List Event)
    (result : Except EvalError α) : Prop where
  still : Still p q
  time : q.time = p.time
  raised : p.BindsAll → ∀ e, result = .error e → p.Raised q events e

namespace Walked

variable {α β : Type} {p q r : Processor σ} {events events' : List Event}

theorem of_ok (still : Still p q) (time : q.time = p.time) (events : List Event) (a : α) :
    Walked p q events (.ok a) := ⟨still, time, nofun⟩

theorem done (p : Processor σ) (a : α) : Walked p p [] (.ok a) := .of_ok (.refl p) rfl [] a

theorem trans {x : Except EvalError α} {y : Except EvalError β} (h : Walked p q events x)
    (h' : Walked q r events' y) : Walked p r (events ++ events') y :=
  ⟨h.still.trans h'.still, h'.time.trans h.time,
    fun hp e he => (h'.raised (hp.still h.still) e he).after h.still h.time events⟩

/-- The answer of a walk matters only where it is a failure. -/
theorem congr {x : Except EvalError α} {y : Except EvalError β} (h : Walked p q events x)
    (hxy : ∀ e, y = .error e → x = .error e) : Walked p q events y :=
  ⟨h.still, h.time, fun hp e he => h.raised hp e (hxy e he)⟩

theorem map {x : Except EvalError α} (h : Walked p q events x) (f : α → β) :
    Walked p q events (x.map f) := h.congr fun _ => eq_error_of_map

end Walked

theorem walkCursor_walked (p : Processor σ) (c : Cursor) :
    Walked p (p.walkCursor c).1 (p.walkCursor c).2.2.1 (p.walkCursor c).2.2.2 := by
  have hkeeps := Scene.walkWithin_keeps p.settings.memoization p.time
    p.settings.maxWalkSteps.toNat p.settings.maxWalkSteps.toNat ⟨p.graph, p.table, []⟩ c.current
  refine ⟨⟨hkeeps.shape, hkeeps.keys, rfl, rfl, rfl, rfl⟩, rfl, fun hp e he => ?_⟩
  obtain ⟨role, id, hraised⟩ := Scene.walkWithin_raised _ _ _ hp.bound he
  -- a walk that fails has no end to tell of
  have htold : (p.walkCursor c).2.2.1 =
      (Scene.walk p.settings p.time ⟨p.graph, p.table, []⟩ c.current).events := by
    unfold walkCursor at he ⊢
    simp only at he ⊢
    rw [he, List.append_nil]
  rw [htold]
  exact ⟨role, id, hraised⟩

theorem walkCursor_raised {p last : Processor σ} {c c' : Cursor} {told : List Event}
    {e : EvalError} (hp : p.BindsAll) (h : p.walkCursor c = (last, c', told, .error e)) :
    p.Raised last told e := by
  have hraised := (p.walkCursor_walked c).raised hp e
  rw [h] at hraised
  exact hraised rfl

theorem walkAll_walked :
    ∀ (cs : List Cursor) (p : Processor σ),
      Walked p (p.walkAll cs).1 (p.walkAll cs).2.2.1 (p.walkAll cs).2.2.2
  | [], p => .done p _
  | c :: cs, p => by
    have hc := p.walkCursor_walked c
    unfold walkAll
    split
    · next h =>
      rw [h] at hc
      exact hc.congr fun _ he => by cases he; rfl
    · next q _ _ _ h =>
      rw [h] at hc
      exact hc.trans ((walkAll_walked cs q).map _)

theorem resumeAll_walked :
    ∀ (ws : List PausedWalk) (p : Processor σ),
      Walked p (p.resumeAll ws).1 (p.resumeAll ws).2.2.1 (p.resumeAll ws).2.2.2
  | [], p => .done p _
  | w :: ws, p => by
    have hw := p.walkCursor_walked w.cursor
    unfold resumeAll
    split
    · next h =>
      rw [h] at hw
      exact hw.congr fun _ he => by cases he; rfl
    · next q _ _ _ h =>
      rw [h] at hw
      exact hw.trans ((resumeAll_walked ws q).map _)

theorem walkKind_walked (kind : EntryKind) (p : Processor σ) :
    Walked p (walkKind kind p).state (walkKind kind p).events (walkKind kind p).result := by
  have hwalked := walkAll_walked (p.cursors kind) p
  have hput : Still (p.walkAll (p.cursors kind)).1 (walkKind kind p).state :=
    ⟨rfl, rfl, rfl, rfl, rfl, rfl⟩
  exact ⟨hwalked.still.trans hput, hwalked.time, hwalked.raised⟩

theorem walkSeeds_walked (kind : EntryKind) :
    ∀ (seeds : List NodeId) (p : Processor σ),
      Walked p (p.walkSeeds kind seeds).state (p.walkSeeds kind seeds).events
        (p.walkSeeds kind seeds).result
  | [], p => .done p _
  | seed :: seeds, p => by
    have hseed : Still p (p.withoutSeed kind seed) := ⟨rfl, rfl, rfl, rfl, rfl, rfl⟩
    have hwalk := (Walked.of_ok hseed rfl [] ()).trans
      (walkCursor_walked (p.withoutSeed kind seed) (p.seedCursor kind seed))
    rcases p.walkSeeds_cases kind seed seeds with
      ⟨-, h⟩ | ⟨q, c, events, e, hfail, h⟩ | ⟨q, c, events, outcome, hok, h⟩
    · rw [h]
      have hnotice := Walked.of_ok (.refl p) rfl [.notice (.unknownSeed seed p.graph.name)] ()
      exact hnotice.trans (walkSeeds_walked kind seeds p)
    · rw [h]
      rw [hfail] at hwalk
      exact hwalk.congr fun _ he => by cases he; rfl
    · rw [h]
      rw [hok] at hwalk
      have hkeep : Still q (q.keep kind outcome c) ∧ (q.keep kind outcome c).time = q.time := by
        unfold keep
        split <;> exact ⟨⟨rfl, rfl, rfl, rfl, rfl, rfl⟩, rfl⟩
      have hrest := (walkSeeds_walked kind seeds (q.keep kind outcome c)).map outcome.status.and
      exact hwalk.trans ((Walked.of_ok hkeep.1 hkeep.2 [] ()).trans hrest)

theorem walkPaused_walked (p : Processor σ) :
    Walked p p.walkPaused.state p.walkPaused.events p.walkPaused.result := by
  have hempty : Still p { p with paused := [] } := ⟨rfl, rfl, rfl, rfl, rfl, rfl⟩
  have hwalked := (Walked.of_ok hempty rfl [] ()).trans
    (resumeAll_walked p.paused { p with paused := [] })
  have hput : Still (resumeAll { p with paused := [] } p.paused).1 p.walkPaused.state :=
    ⟨rfl, rfl, rfl, rfl, rfl, rfl⟩
  exact ⟨hwalked.still.trans hput, hwalked.time, hwalked.raised⟩

/-- A call that gets ready and walks stays in sync and fails as behaviors do, or to bind. -/
theorem Synced.onReady {p : Processor σ} (h : p.Synced)
    {walking : Processor σ → Reply (Processor σ) EvalError Status}
    (hwalking : ∀ q, Walked q (walking q).state (walking q).events (walking q).result) :
    (p.onReady walking).state.Synced ∧
      ∀ e, (p.onReady walking).result = .error (.eval e) →
        p.ensureReady.state.Raised (p.onReady walking).state (p.onReady walking).events e := by
  obtain ⟨hready, hfresh⟩ := h.ensureReady
  unfold Processor.onReady
  split
  · exact ⟨hready, fun e he => nomatch he⟩
  · next hok =>
    have hwalked := hwalking p.ensureReady.state
    refine ⟨hready.still hwalked.still, fun e he => ?_⟩
    have hraised := hwalked.raised (hfresh hok).1 e (eq_error_of_mapError he)
    exact hraised.after (.refl _) rfl p.ensureReady.events

/-- **Every call keeps the marks reliable, and fails to bind or as one of the behaviors does.** -/
theorem Synced.perform {p : Processor σ} (h : p.Synced) (c : Call) :
    (c.perform p).state.Synced ∧
      ∀ e, (c.perform p).result = .error (.eval e) →
        p.ensureReady.state.Raised (c.perform p).state (c.perform p).events e := by
  cases c with
  | run kind =>
    rw [Call.perform, run_eq]
    exact h.onReady (walkKind_walked kind)
  | runFrom seeds kind =>
    rw [Call.perform, runFrom_eq]
    exact h.onReady (walkSeeds_walked kind seeds)
  | runPaused =>
    rw [Call.perform, runPaused_eq]
    exact h.onReady walkPaused_walked
  | advance delta =>
    refine ⟨h.still (q := p.advance delta) ⟨rfl, rfl, rfl, rfl, rfl, rfl⟩, fun e he => ?_⟩
    cases he
  | setOutput node slot v =>
    have hshape : (p.setOutput node slot v).graph.clearValues = p.graph.clearValues :=
      Graph.clearValues_modifyNode p.graph fun n _ => Node.clearValues_setOutput n slot v
    refine ⟨h.still (q := p.setOutput node slot v) ⟨hshape, rfl, rfl, rfl, rfl, rfl⟩,
      fun e he => ?_⟩
    cases he

theorem reset_still (p : Processor σ) : Still p p.reset.1 := by
  refine ⟨?_, OrderedMap.keys_map _ _, rfl, rfl, rfl, rfl⟩
  refine Graph.clearValues_touch p.graph fun _ n _ => ?_
  simp [Node.clearValues, Function.comp_def]

theorem kinds_onReady {walking : Processor σ → Reply (Processor σ) EvalError Status}
    (hwalking : ∀ q, Walked q (walking q).state (walking q).events (walking q).result)
    (p : Processor σ) : (p.onReady walking).state.kinds = p.kinds := by
  unfold onReady
  split
  · exact p.kinds_ensureReady
  · exact (hwalking _).still.kinds.trans p.kinds_ensureReady

/-- No call sets the kinds. -/
theorem kinds_perform (p : Processor σ) (c : Call) : (c.perform p).state.kinds = p.kinds := by
  cases c with
  | run kind =>
    rw [Call.perform, run_eq]
    exact kinds_onReady (walkKind_walked kind) p
  | runFrom seeds kind =>
    rw [Call.perform, runFrom_eq]
    exact kinds_onReady (walkSeeds_walked kind seeds) p
  | runPaused =>
    rw [Call.perform, runPaused_eq]
    exact kinds_onReady walkPaused_walked p
  | advance delta => rfl
  | setOutput node slot v => rfl

end Walking

end Processor

/-- What can be asked of a processor and its graph. -/
inductive Request
  | call (c : Call)
  | edit (e : Edit)
  | reset
  | setKinds (kinds : List EntryKind)
  | reschedule
  | ensureReady

namespace Request

/-- The kinds that a request sets. -/
def kinds? : Request → Option (List EntryKind)
  | setKinds kinds => some kinds
  | _ => none

variable {σ : Type u} [Behaves σ]

/-- The processor after a request, failing or not. -/
def serve (p : Processor σ) : Request → Processor σ
  | call c => (c.perform p).state
  | edit e => { p with graph := e.run p.graph }
  | reset => p.reset.1
  | setKinds kinds => p.setKinds kinds
  | reschedule => p.reschedule.1
  | ensureReady => p.ensureReady.state

/-- The processor after a list of requests. -/
def serveAll (p : Processor σ) (requests : List Request) : Processor σ := requests.foldl serve p

/-- **Every request keeps the marks reliable.** -/
theorem serve_synced {p : Processor σ} (h : p.Synced) : (r : Request) → (r.serve p).Synced
  | call c => (h.perform c).1
  | edit e => h.edit e
  | reset => h.still p.reset_still
  | setKinds kinds => h.setKinds kinds
  | reschedule => h.reschedule.1
  | ensureReady => h.ensureReady.1

theorem serveAll_synced :
    ∀ (requests : List Request) {p : Processor σ}, p.Synced → (serveAll p requests).Synced
  | [], _, h => h
  | r :: requests, _, h => serveAll_synced requests (serve_synced h r)

theorem kinds_serve (p : Processor σ) : (r : Request) → (r.serve p).kinds = r.kinds?.getD p.kinds
  | call c => p.kinds_perform c
  | edit _ => rfl
  | reset => p.reset_still.kinds
  | setKinds _ => rfl
  | reschedule => rfl
  | ensureReady => p.kinds_ensureReady

/-- **The present kinds are those that were set last**, if any were. -/
theorem kinds_serveAll :
    ∀ (requests : List Request) (p : Processor σ),
      (serveAll p requests).kinds = ((requests.filterMap kinds?).getLast?).getD p.kinds
  | [], _ => rfl
  | r :: requests, p => by
    have hrest : (serveAll p (r :: requests)).kinds =
        ((requests.filterMap kinds?).getLast?).getD (r.kinds?.getD p.kinds) :=
      (kinds_serveAll requests (r.serve p)).trans (by rw [kinds_serve])
    rw [hrest, List.filterMap_cons]
    cases r.kinds? with
    | none => rfl
    | some kinds =>
      rw [List.getLast?_cons]
      rfl

end Request

/-! ## 6. The law -/

/-- **Derived state is never stale, and no node is left unbound.**  Take any processor that was made
for a built graph and any list of requests to it: edits, calls, resets, changes of the kinds,
scheduling, failing ones included.  The present kinds are those that were set last.  Where the
processor then says that it is up to date, the bound nodes are exactly the nodes of the graph, and
every rank is the one that scheduling the graph for the present kinds gives.  A call that fails does
so because a node cannot be bound, or in the evaluation of a node, with the answer of the behavior
that is bound to it; so if no behavior answers that a node or its behavior was not found, no call
does. -/
theorem resync_is_never_stale {σ : Type u} [Behaves σ] (g : Graph) (built : g.Built)
    (r : Registry σ) (settings : Settings) (told : List Event) (p : Processor σ)
    (fresh : Processor.new g r settings = (told, .ok p)) (requests : List Request) :
    let q := Request.serveAll p requests
    q.ensureReady.state.kinds =
      ((requests.filterMap Request.kinds?).getLast?).getD EntryKind.all ∧
    (q.ensureReady.result = .ok () →
      let ready := q.ensureReady.state
      (∀ id, id ∈ ready.table.keys ↔ id ∈ ready.graph.nodes.keys) ∧
      ∀ id, ready.graph.rank id =
        (ready.graph.schedule ready.settings.maxFrontiers.toNat ready.kinds).1.rank id) ∧
    (∀ (c : Call) e, (c.perform q).result = .error (.eval e) →
      q.ensureReady.state.Raised (c.perform q).state (c.perform q).events e) ∧
    (Candid σ → ∀ (c : Call) id,
      (c.perform q).result ≠ .error (.eval (.unbound id)) ∧
      (c.perform q).result ≠ .error (.eval (.nodeNotFound id))) := by
  intro q
  have hq : q.Synced := Request.serveAll_synced requests (.new built.intact fresh)
  have hlookup : Candid σ → ∀ (c : Call) e, (c.perform q).result = .error (.eval e) →
      e.isLookup = false := by
    intro hcandid c e he
    obtain ⟨_, _, _, _, -, ⟨b, n, -, -, hanswer⟩, -⟩ := (hq.perform c).2 e he
    exact hcandid b _ e hanswer
  refine ⟨?_, fun hok => ?_, fun c => (hq.perform c).2,
    fun hcandid c id => ⟨fun hresult => ?_, fun hresult => ?_⟩⟩
  · rw [Processor.kinds_ensureReady, Request.kinds_serveAll, Processor.kinds_new fresh]
  · obtain ⟨hbinds, hranks⟩ := hq.ensureReady.2 hok
    exact ⟨hbinds, congrFun (Graph.rank_eq_of_clearValues hranks)⟩
  · cases hlookup hcandid c _ hresult
  · cases hlookup hcandid c _ hresult

/-- The example is run, then given a node of a type that nobody knows, run in vain, freed of that
node and of the node that it waited at, and restricted to other kinds. -/
def exampleRequests : List Request :=
  [ .call (.run .update),
    .edit (.addNode { exampleNode 6 Library.waitType with type := "unknown" }),
    .call (.run .update),
    .ensureReady,
    .edit (.removeNode (exampleId 6)),
    .edit (.removeNode (exampleId 5)),
    .edit (.addNode (exampleNode 7 Library.branchType)),
    .edit (exampleLink 8 4 "Exec" 7 "Exec"),
    .setKinds [.start],
    .reschedule,
    .setKinds [.update] ]

/-- The example is up to date after all this: the kinds are those that were set last, the node that
came last is bound and ranked, and a call still walks. -/
theorem example_is_never_stale :
    let q := Request.serveAll exampleProcessor exampleRequests
    q.ensureReady.result = .ok () ∧ q.ensureReady.state.kinds = [.update] ∧
    exampleId 7 ∈ q.ensureReady.state.table.keys ∧
    (∀ id, q.ensureReady.state.graph.rank id = (q.ensureReady.state.graph.schedule
      q.ensureReady.state.settings.maxFrontiers.toNat q.ensureReady.state.kinds).1.rank id) ∧
    ∀ id, (q.run .update).result ≠ .error (.eval (.unbound id)) := by
  obtain ⟨told, fresh⟩ := exampleProcessor_new
  have hlaw := resync_is_never_stale exampleGraph exampleGraph_built Library.registry _ told
    exampleProcessor fresh exampleRequests
  have hok : (Request.serveAll exampleProcessor exampleRequests).ensureReady.result = .ok () := by
    decide +kernel
  have hnode : exampleId 7 ∈ (Request.serveAll exampleProcessor
      exampleRequests).ensureReady.state.graph.nodes.keys := by decide +kernel
  -- nothing else about the processor is needed
  generalize Request.serveAll exampleProcessor exampleRequests = q at hlaw hok hnode ⊢
  obtain ⟨hkinds, hready, -, hnever⟩ := hlaw
  obtain ⟨hbinds, hranks⟩ := hready hok
  exact ⟨hok, hkinds, (hbinds _).2 hnode, hranks,
    fun id => (hnever Library.candid (.run .update) id).1⟩

end FlowScript
