/-
# Walks climb the compute order

Scheduling and walking find the next node by different questions.  A walk follows the first link of
the output slot that a behavior has chosen (`Graph.nextNode?`); scheduling takes every control link
of the node (`Graph.nextNodes`).  On an intact graph the first answer is always among the second, so
after a scheduling pass that was not stopped a walk climbs, whatever the behaviors choose
(`Graph.Climbs`).

The rest is about the path of a walk, failing or not, and holds on any graph:

* `Trail` is the path: the nodes that the walk has left, and the node where it stopped;
* `Journey` is what a walk with a budget does along its path, and `Scene.walkWithin_journey` proves
  it.

Where walks climb, the ranks along a trail increase strictly.  A trail is therefore no longer than
the graph has nodes, and a walk that may take so many steps is never suspended.
-/
import FlowScript.Proofs.Pull
import FlowScript.Proofs.Turns

namespace FlowScript

universe u

/-! ## 1. The nodes of a trail -/

/-- The node of a control evaluation, whether it has failed or not. -/
def Event.controlled? : Event → Option NodeId
  | evaluated .control node _ => some node
  | _ => none

/-- The nodes that a journal tells were evaluated on the control path. -/
def controlled (events : List Event) : List NodeId := events.filterMap Event.controlled?

@[simp] theorem controlled_append (a b : List Event) :
    controlled (a ++ b) = controlled a ++ controlled b :=
  List.filterMap_append

theorem controlled_of_ofPull {events : List Event} (h : ∀ e ∈ events, e.OfPull) :
    controlled events = [] := by
  refine List.filterMap_eq_nil_iff.2 fun e he => ?_
  cases h e he <;> rfl

theorem unrankedNode_not_ofPull {id : NodeId} {name : String} :
    ¬ Event.OfPull (.notice (.unrankedNode id name)) := nofun

/-- The path of a walk from a node: the ranked nodes that it has left along one of their outputs,
and the node where it stopped. -/
inductive Trail (g : Graph) : NodeId → List NodeId → NodeId → Prop
  | here (id : NodeId) : Trail g id [] id
  | onward {id next current : NodeId} {slot : Nat} {left : List NodeId} :
    g.Ranked id → g.nextNode? id slot = some next → Trail g next left current →
    Trail g id (id :: left) current

namespace Graph

variable {g : Graph}

/-- Control flow out of a ranked node leads upwards, whichever output is followed. -/
def Climbs (g : Graph) : Prop :=
  ∀ a b slot, g.Ranked a → g.nextNode? a slot = some b → g.rank a < g.rank b

theorem Climbs.ranked (h : g.Climbs) {a b : NodeId} {slot : Nat} (ha : g.Ranked a)
    (hab : g.nextNode? a slot = some b) : g.Ranked b :=
  Int.lt_trans ha (h a b slot ha hab)

/-- **What a walk follows is a control link**: the first link of an output slot leads to one of the
nodes that scheduling knows to come next. -/
theorem Intact.mem_nextNodes_of_nextNode? (hg : g.Intact) {a b : NodeId} {slot : Nat}
    (h : g.nextNode? a slot = some b) : b ∈ g.nextNodes a := by
  unfold nextNode? at h
  split at h
  · cases h
  · next p hp =>
    obtain ⟨n, hn, hslot⟩ := Option.bind_eq_some_iff.1 hp
    split at h
    · next hexec =>
      obtain ⟨c, hc, rfl⟩ := Option.map_eq_some_iff.1 h
      have hmem : c ∈ g.links := List.mem_of_find?_eq_some hc
      have hfrom : c.fromPort = p.id := by simpa using List.find?_some hc
      obtain ⟨hnode, hflag⟩ := hg.source_of_fromPort hmem hn
        (List.mem_append_right _ (List.mem_of_getElem? hslot)) hfrom
      exact mem_nextNodes_iff.2 ⟨c, hmem, hflag.2 (of_decide_eq_true hexec), hnode, rfl⟩
    · cases h

/-- **After a scheduling pass that was not stopped, control flow climbs.** -/
theorem climbs_of_schedule (hg : g.Intact) (hflow : g.FlowApart) (max : Nat)
    (kinds : List EntryKind)
    (hrun : ∀ name k, .runawayControlFlow name k ∉ (g.schedule max kinds).2.diagnostics) :
    (g.schedule max kinds).1.Climbs := by
  obtain ⟨first, second, control, classes, hs, hgraph, hreport⟩ :=
    schedule_passes hg hflow max kinds
  have hfirst : first.runaway? = none := by
    cases hstop : first.runaway? with
    | none => rfl
    | some k =>
      refine absurd ?_ (hrun g.name k)
      rw [hreport, hstop]
      exact List.mem_append_left _ (List.mem_singleton_self _)
  rw [hgraph]
  intro a b slot ha hab
  rw [nextNode?_eq_of_bare hs.bare_graph] at hab
  have hnext := hg.mem_nextNodes_of_nextNode? hab
  obtain ⟨c, hc, hexec, rfl, -⟩ := mem_nextNodes_iff.1 hnext
  exact (hs.rank_lt_of_link hfirst hnext (hflow c hc hexec).1 (ne_unscheduled_of_ranked ha)).2

theorem Climbs.of_clearValues_eq {g' : Graph} (h : g.Climbs)
    (hshape : g'.clearValues = g.clearValues) : g'.Climbs := by
  intro a b slot ha hab
  rw [nextNode?_eq_of_bare (bare_eq_of_clearValues_eq hshape)] at hab
  rw [rank_eq_of_clearValues hshape]
  exact h a b slot ((ranked_iff_of_clearValues hshape a).1 ha) hab

end Graph

namespace Trail

variable {g : Graph} {id current : NodeId} {left : List NodeId}

theorem head?_eq (h : Trail g id left current) : (left ++ [current]).head? = some id := by
  cases h <;> rfl

/-- Ranks increase strictly along a trail. -/
theorem pairwise_rank (h : Trail g id left current) (hg : g.Climbs) :
    ((left ++ [current]).map g.rank).Pairwise (· < ·) := by
  refine List.isChain_iff_pairwise.1 ?_
  induction h with
  | here id => exact List.isChain_singleton _
  | @onward id next current slot left hid hnext htrail ih =>
    rw [List.cons_append, List.map_cons]
    refine List.isChain_cons.2 ⟨fun r hr => ?_, ih⟩
    rw [List.head?_map, htrail.head?_eq] at hr
    cases hr
    exact hg id next slot hid hnext

theorem nodup (h : Trail g id left current) (hg : g.Climbs) : (left ++ [current]).Nodup :=
  List.Nodup.of_map g.rank ((h.pairwise_rank hg).imp Int.ne_of_lt)

/-- Every node of a trail but the first is ranked. -/
theorem ranked (h : Trail g id left current) (hg : g.Climbs) :
    ∀ x ∈ left ++ [current], x = id ∨ g.Ranked x := by
  induction h with
  | here id => exact fun x hx => Or.inl (List.mem_singleton.1 hx)
  | onward hid hnext _ ih =>
    intro x hx
    rcases List.mem_cons.1 hx with rfl | hx
    · exact Or.inl rfl
    · refine Or.inr ((ih x hx).elim (fun hfirst => ?_) fun hx => hx)
      exact hfirst ▸ hg.ranked hid hnext

theorem ranked_tail (h : Trail g id left current) (hg : g.Climbs) :
    ∀ x ∈ (left ++ [current]).tail, g.Ranked x := by
  cases h with
  | here id => exact List.forall_mem_nil _
  | onward hid hnext htrail =>
    exact fun x hx => (htrail.ranked hg x hx).elim (· ▸ hg.ranked hid hnext) fun hx => hx

/-- **A trail to a ranked node is shorter than the graph has nodes.** -/
theorem length_lt_size (h : Trail g id left current) (hg : g.Climbs) (hcurrent : g.Ranked current) :
    left.length < g.nodes.size := by
  have hid : g.Ranked id := by
    cases h with
    | here id => exact hcurrent
    | onward hid _ _ => exact hid
  have hsub : left ++ [current] ⊆ g.nodes.keys := by
    intro x hx
    have hranked : g.Ranked x := (h.ranked hg x hx).elim (· ▸ hid) fun hx => hx
    obtain ⟨n, hn⟩ := hranked.exists_node?
    exact (OrderedMap.get?_isSome_iff _ _).1 (by rw [show g.nodes.get? x = some n from hn]; rfl)
  have hle := (h.nodup hg).length_le_of_subset hsub
  rw [List.length_append, OrderedMap.keys, List.length_map] at hle
  exact hle

end Trail

/-! ## 2. The journey of a walk -/

namespace Scene

variable {σ : Type u} [Behaves σ]

/-- A step evaluates its node on the control path, unless it fails before, and no other node. -/
theorem step_controlled (memo : Memoization) (time : FrameTime) (s : Scene σ) (id : NodeId) :
    (controlled (s.step memo time id).events = [id] ∨
      controlled (s.step memo time id).events = [] ∧ ∃ e, (s.step memo time id).result = .error e) ∧
    ∀ x name, .notice (.unrankedNode x name) ∉ (s.step memo time id).events := by
  have hpull : ∀ s : Scene σ, ∀ e ∈ (s.resolve time id).events, e.OfPull :=
    fun s => ofPull_resolveWithin time _ s id
  -- what is told when the evaluation of the node itself has been tried
  have hown : ∀ s : Scene σ,
      (controlled ((s.resolve time id).events ++
          ((s.resolve time id).scene.evaluate time .control id).events) = [id] ∨
        controlled ((s.resolve time id).events ++
            ((s.resolve time id).scene.evaluate time .control id).events) = [] ∧
          ∃ e, ((s.resolve time id).scene.evaluate time .control id).result = .error e) ∧
      ∀ x name, .notice (.unrankedNode x name) ∉ (s.resolve time id).events ++
        ((s.resolve time id).scene.evaluate time .control id).events := by
    intro s
    rw [controlled_append, controlled_of_ofPull (hpull s), List.nil_append]
    rcases (s.resolve time id).scene.evaluate_events time .control id with
      ⟨hnil, herror⟩ | ⟨remarks, hevents⟩
    · rw [hnil, List.append_nil]
      exact ⟨Or.inr ⟨rfl, herror⟩, fun x name hx => unrankedNode_not_ofPull (hpull s _ hx)⟩
    · have hremarks : ∀ e ∈ remarks.map Remark.event, e.OfPull :=
        List.forall_mem_map.2 fun r _ => r.ofPull
      rw [hevents]
      refine ⟨Or.inl ?_, fun x name hx => ?_⟩
      · rw [controlled_append, controlled_of_ofPull hremarks]
        rfl
      · rcases List.mem_append.1 hx with hx | hx
        · exact unrankedNode_not_ofPull (hpull s _ hx)
        · rcases List.mem_append.1 hx with hx | hx
          · exact unrankedNode_not_ofPull (hremarks _ hx)
          · cases List.mem_singleton.1 hx
  unfold step
  simp only
  split
  · next e _ =>
    exact ⟨Or.inr ⟨controlled_of_ofPull (hpull _), e, rfl⟩,
      fun x name hx => unrankedNode_not_ofPull (hpull _ _ hx)⟩
  · split
    · next e _ => exact ⟨(hown _).1.imp_right fun h => ⟨h.1, e, rfl⟩, (hown _).2⟩
    · next r hok =>
      refine ⟨Or.inl ((hown _).1.resolve_right ?_), (hown _).2⟩
      rintro ⟨-, e, herror⟩
      rw [hok] at herror
      cases herror

end Scene

/-- What a walk from a node does along its trail: it evaluates the nodes that it leaves, and the
node where it stops unless it fails before that; it meets no node without a rank but the one where
it stops; and it is suspended at a ranked node only, after as many steps as it may take. -/
structure Journey {σ : Type u} (g : Graph) (budget : Nat) (start : NodeId) (left : List NodeId)
    (w : WalkEnd σ) : Prop where
  trail : Trail g start left w.current
  evaluated : controlled w.events = left ∨ controlled w.events = left ++ [w.current]
  unranked : ∀ id name, .notice (.unrankedNode id name) ∈ w.events →
    id = w.current ∧ ¬ g.Ranked id
  suspended : w.result = .ok .suspended → g.Ranked w.current ∧ left.length = budget

/-- A walk that stops where it starts, after one step or none. -/
theorem Journey.stop {σ : Type u} {g : Graph} {budget : Nat} {id : NodeId} {scene : Scene σ}
    {events : List Event} {result : Except EvalError WalkOutcome}
    (hevaluated : controlled events = [] ∨ controlled events = [id])
    (hunranked : ∀ x name, .notice (.unrankedNode x name) ∉ events)
    (hresult : result ≠ .ok .suspended) :
    Journey g budget id [] ⟨scene, id, events, result⟩ where
  trail := .here id
  evaluated := hevaluated
  unranked x name hx := absurd hx (hunranked x name)
  suspended h := absurd h hresult

/-- A walk from a node without a rank. -/
theorem Journey.idle {σ : Type u} {g : Graph} {budget : Nat} {id : NodeId} {scene : Scene σ}
    {name : String} (hid : ¬ g.Ranked id) :
    Journey g budget id [] ⟨scene, id, [.notice (.unrankedNode id name)], .ok .completed⟩ where
  trail := .here id
  evaluated := Or.inl rfl
  unranked x name hx := by
    cases List.mem_singleton.1 hx
    exact ⟨rfl, hid⟩
  suspended h := nomatch h

/-- **Every walk is a journey**, on any graph that differs in its slots at most. -/
theorem Scene.walkWithin_journey {σ : Type u} [Behaves σ] {g : Graph} {memo : Memoization}
    {time : FrameTime} {bound : Nat} :
    ∀ (budget : Nat) (s : Scene σ) (id : NodeId), s.graph.clearValues = g.clearValues →
      ∃ left, Journey g budget id left (walkWithin memo time bound budget s id)
  | 0, s, id, hshape => by
    unfold walkWithin
    simp only [Graph.any_isScheduled, Graph.ranked_iff_of_clearValues hshape id, decide_eq_true_eq]
    split
    · next hid =>
      refine ⟨[], .here id, Or.inl rfl, fun x name hx => ?_, fun _ => ⟨hid, rfl⟩⟩
      cases List.mem_singleton.1 hx
    · next hid => exact ⟨[], .idle hid⟩
  | budget + 1, s, id, hshape => by
    unfold walkWithin
    simp only [Graph.any_isScheduled, Graph.ranked_iff_of_clearValues hshape id, decide_eq_true_eq]
    split
    · next hid =>
      have hstep := (clearValues_step memo time s id).trans hshape
      obtain ⟨hcontrolled, hunranked⟩ := step_controlled memo time s id
      have hhere : controlled (s.step memo time id).events = [] ∨
          controlled (s.step memo time id).events = [id] :=
        hcontrolled.elim Or.inr fun h => Or.inl h.1
      split
      · exact ⟨[], .stop hhere hunranked (by simp)⟩
      · exact ⟨[], .stop hhere hunranked (by simp)⟩
      · next chosen? hok =>
        have hone : controlled (s.step memo time id).events = [id] := by
          refine hcontrolled.resolve_right ?_
          rintro ⟨-, e, herror⟩
          rw [hok] at herror
          cases herror
        rw [Graph.nextNode?_eq_of_bare (Graph.bare_eq_of_clearValues_eq hstep)]
        split
        · exact ⟨[], .stop hhere hunranked (by simp)⟩
        · next next hnext =>
          obtain ⟨slot, -, hslot⟩ := Option.bind_eq_some_iff.1 hnext
          obtain ⟨left, hrest⟩ := walkWithin_journey budget (s.step memo time id).scene next hstep
          refine ⟨id :: left, .onward hid hslot hrest.trail, ?_, fun x name hx => ?_, fun h => ?_⟩
          · simp only [controlled_append, hone]
            exact hrest.evaluated.imp (congrArg (id :: ·)) (congrArg (id :: ·))
          · exact hrest.unranked x name ((List.mem_append.1 hx).resolve_left (hunranked x name))
          · exact ⟨(hrest.suspended h).1, congrArg Nat.succ (hrest.suspended h).2⟩
    · next hid => exact ⟨[], .idle hid⟩

/-! ## 3. The law -/

/-- **A walk climbs the ranks that scheduling gave.**  On a built graph in which no data node has a
control-flow port, after a scheduling pass that was not stopped, whatever the behaviors do and
wherever the walk starts: the nodes it evaluates on the control path are those of its trail, the
last one possibly excepted; their ranks increase strictly, so none comes twice; every node to which
the walk advances is ranked, so that it can only meet a node without a rank where it starts; and it
is not suspended if it may take as many steps as the graph has nodes. -/
theorem walk_climbs_ranks {σ : Type u} [Behaves σ] (g : Graph) (built : g.Built)
    (apart : g.PortsApart) (max : Nat) (kinds : List EntryKind)
    (unstopped : ∀ name k, .runawayControlFlow name k ∉ (g.schedule max kinds).2.diagnostics)
    (s : Scene σ) (scheduled : s.graph.clearValues = (g.schedule max kinds).1.clearValues)
    (settings : Settings) (time : FrameTime) (start : NodeId) :
    let w := s.walk settings time start
    ∃ left, Trail s.graph start left w.current ∧
      (controlled w.events = left ∨ controlled w.events = left ++ [w.current]) ∧
      ((controlled w.events).map s.graph.rank).Pairwise (· < ·) ∧ (controlled w.events).Nodup ∧
      (∀ id ∈ (left ++ [w.current]).tail, s.graph.Ranked id) ∧
      (∀ id name, .notice (.unrankedNode id name) ∈ w.events →
        id = start ∧ ¬ s.graph.Ranked start) ∧
      (s.graph.nodes.size ≤ settings.maxWalkSteps.toNat → w.result ≠ .ok .suspended) := by
  intro w
  have hg := built.intact
  have hclimbs : s.graph.Climbs :=
    (Graph.climbs_of_schedule hg (apart.flowApart hg) max kinds
      unstopped).of_clearValues_eq scheduled
  obtain ⟨left, hw⟩ : ∃ left, Journey s.graph settings.maxWalkSteps.toNat start left w :=
    Scene.walkWithin_journey _ s start rfl
  have hsub : (controlled w.events).Sublist (left ++ [w.current]) := by
    rcases hw.evaluated with h | h <;> rw [h]
    exact List.sublist_append_left left [w.current]
  refine ⟨left, hw.trail, hw.evaluated, (hw.trail.pairwise_rank hclimbs).sublist (hsub.map _),
    (hw.trail.nodup hclimbs).sublist hsub, hw.trail.ranked_tail hclimbs, ?_, ?_⟩
  · intro id name hid
    obtain ⟨rfl, hunranked⟩ := hw.unranked id name hid
    have hstart : w.current = start :=
      (hw.trail.ranked hclimbs w.current (by simp)).resolve_right hunranked
    exact ⟨hstart, hstart ▸ hunranked⟩
  · intro hbound hsuspended
    obtain ⟨hranked, hlength⟩ := hw.suspended hsuspended
    have hlt := hw.trail.length_lt_size hclimbs hranked
    omega

/-- The example right after scheduling and binding. -/
def exampleStart : Scene Library.Behavior :=
  ⟨(exampleGraph.schedule 100 [.update]).1, (Table.sync .empty Library.registry exampleGraph).1, []⟩

/-- The example walks from its entry over what it prints to where it waits, upwards. -/
theorem example_walk_climbs :
    exampleGraph.PortsApart ∧
    (∀ name k, .runawayControlFlow name k ∉ (exampleGraph.schedule 100 [.update]).2.diagnostics) ∧
    controlled (exampleStart.walk .standard .zero (exampleId 0)).events =
      [exampleId 0, exampleId 4, exampleId 5] ∧
    ([exampleId 0, exampleId 4, exampleId 5].map exampleStart.graph.rank).Pairwise (· < ·) := by
  have apart : exampleGraph.PortsApart := by decide +kernel
  have clean : (exampleGraph.schedule 100 [.update]).2.diagnostics = [] := by decide +kernel
  have unstopped : ∀ name k,
      .runawayControlFlow name k ∉ (exampleGraph.schedule 100 [.update]).2.diagnostics := by
    rw [clean]
    exact fun _ _ => List.not_mem_nil
  have path : controlled (exampleStart.walk .standard .zero (exampleId 0)).events =
      [exampleId 0, exampleId 4, exampleId 5] := by decide +kernel
  obtain ⟨left, -, -, hrising, -⟩ := walk_climbs_ranks exampleGraph exampleGraph_built apart 100
    [.update] unstopped exampleStart rfl .standard .zero (exampleId 0)
  rw [path] at hrising
  exact ⟨apart, unstopped, path, hrising⟩

end FlowScript
