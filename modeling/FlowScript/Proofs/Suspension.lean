/-
# The bound on steps cuts a walk and nothing else

A walk that has used up its steps stops before a node, and the next tick takes it up there.  Under
per-node memoization nothing is lost or repeated at the cut: a walk of `a + b` steps is a walk of
`a` steps and, where that one is suspended, a walk of `b` steps from the node it stopped at.

* `Scene.walkWithin_add` says so of walks that share one scene, whatever the memoization: spending
  `a + b` steps is spending `a` and going on with `b` (`WalkEnd.goOn`).
* The next tick does not share the scene, since all its data nodes count as stale again.  A walk
  that pulls anew for each control node does not see the difference
  (`Scene.walkWithin_reads_apart`); this is the only place where the memoization matters.
* `step_bound_only_cuts_walks` puts both together for the walks of a processor.

Ends of walks are compared without the notices about the cut itself (`deeds`), which name the bound.
-/
import FlowScript.Proofs.Sessions

namespace FlowScript

universe u

/-! ## 1. Ends of walks, compared apart from the cut -/

namespace Event

/-- Whether an event tells of the place where a walk stopped, not of what it did. -/
def isCut : Event → Bool
  | notice (.suspended ..) => true
  | notice (.walkEnded ..) => true
  | _ => false

end Event

/-- What a journal tells about what was done. -/
def deeds (events : List Event) : List Event := events.filter (!·.isCut)

@[simp] theorem deeds_append (a b : List Event) : deeds (a ++ b) = deeds a ++ deeds b :=
  List.filter_append a b

@[simp] theorem deeds_walkEnded (entry : NodeId) (status : Status) (current : NodeId) :
    deeds [.notice (.walkEnded entry status current)] = [] := rfl

namespace WalkEnd

variable {σ : Type u}

/-- Two ends of walks that have the same effect.  What counts as fresh may differ, and so may what
was said about the cut. -/
structure Agrees (x y : WalkEnd σ) : Prop where
  graph : x.scene.graph = y.scene.graph
  table : x.scene.table = y.scene.table
  current : x.current = y.current
  result : x.result = y.result
  deeds : deeds x.events = deeds y.events

theorem Agrees.refl (x : WalkEnd σ) : x.Agrees x := ⟨rfl, rfl, rfl, rfl, rfl⟩

theorem Agrees.trans {x y z : WalkEnd σ} (h : x.Agrees y) (h' : y.Agrees z) : x.Agrees z :=
  ⟨h.graph.trans h'.graph, h.table.trans h'.table, h.current.trans h'.current,
    h.result.trans h'.result, h.deeds.trans h'.deeds⟩

/-- The same end, after something else has happened. -/
def prepend (events : List Event) (x : WalkEnd σ) : WalkEnd σ :=
  { x with events := events ++ x.events }

theorem Agrees.prepend {x y : WalkEnd σ} (h : x.Agrees y) (events : List Event) :
    (x.prepend events).Agrees (y.prepend events) :=
  ⟨h.graph, h.table, h.current, h.result, by
    simp only [WalkEnd.prepend, deeds_append, h.deeds]⟩

/-- A walk that was suspended is taken up where it stopped; any other is left as it is. -/
def goOn (x : WalkEnd σ) (walk : Scene σ → NodeId → WalkEnd σ) : WalkEnd σ :=
  match x.result with
  | .ok .suspended => (walk x.scene x.current).prepend x.events
  | _ => x

theorem goOn_of_suspended {x : WalkEnd σ} (h : x.result = .ok .suspended)
    (walk : Scene σ → NodeId → WalkEnd σ) :
    x.goOn walk = (walk x.scene x.current).prepend x.events := by
  unfold goOn
  rw [h]

theorem goOn_of_ne {x : WalkEnd σ} (h : x.result ≠ .ok .suspended)
    (walk : Scene σ → NodeId → WalkEnd σ) : x.goOn walk = x := by
  unfold goOn
  split
  · next hsuspended => exact absurd hsuspended h
  · rfl

/-- Ends with the same effect lead on to ends with the same effect, if the walks from there do. -/
theorem Agrees.goOn {x y : WalkEnd σ} (h : x.Agrees y) {walk walk' : Scene σ → NodeId → WalkEnd σ}
    (hwalk : ∀ (s t : Scene σ) (id : NodeId), s.graph = t.graph → s.table = t.table →
      (walk s id).Agrees (walk' t id)) :
    (x.goOn walk).Agrees (y.goOn walk') := by
  by_cases hx : x.result = .ok .suspended
  · have hy : y.result = .ok .suspended := h.result.symm.trans hx
    have hrest := hwalk x.scene y.scene x.current h.graph h.table
    rw [goOn_of_suspended hx, goOn_of_suspended hy, ← h.current]
    refine ⟨hrest.graph, hrest.table, hrest.current, hrest.result, ?_⟩
    simp only [WalkEnd.prepend, deeds_append, h.deeds, hrest.deeds]
  · have hy : y.result ≠ .ok .suspended := fun hy => hx (h.result.trans hy)
    rw [goOn_of_ne hx, goOn_of_ne hy]
    exact h

/-- Whatever happened before, the walk goes on alike. -/
theorem goOn_prepend (x : WalkEnd σ) (events : List Event) (walk : Scene σ → NodeId → WalkEnd σ) :
    (x.prepend events).goOn walk = (x.goOn walk).prepend events := by
  by_cases h : x.result = .ok .suspended
  · rw [goOn_of_suspended (x := x.prepend events) h, goOn_of_suspended h]
    simp only [prepend, List.append_assoc]
  · rw [goOn_of_ne (x := x.prepend events) h, goOn_of_ne h]

end WalkEnd

/-! ## 2. Spending a budget in two parts -/

namespace Scene

variable {σ : Type u} [Behaves σ]

/-- A walk that meets a node without a rank is over, whatever is left of its budget. -/
theorem walkWithin_unranked (memo : Memoization) (time : FrameTime) (bound budget : Nat)
    {s : Scene σ} {id : NodeId} (h : ¬ (s.graph.node? id).any Node.isScheduled = true) :
    walkWithin memo time bound budget s id =
      ⟨s, id, [.notice (.unrankedNode id s.graph.name)], .ok .completed⟩ := by
  cases budget <;> exact if_neg h

/-- **A budget may be spent in two parts**, within one scene. -/
theorem walkWithin_add (memo : Memoization) (time : FrameTime) (bound b : Nat) :
    ∀ (a : Nat) (s : Scene σ) (id : NodeId),
      (walkWithin memo time bound (a + b) s id).Agrees
        ((walkWithin memo time bound a s id).goOn (walkWithin memo time bound b))
  | 0, s, id => by
    rw [Nat.zero_add]
    by_cases hranked : (s.graph.node? id).any Node.isScheduled = true
    · have hcut : walkWithin memo time bound 0 s id =
          ⟨s, id, [.notice (.suspended s.graph.name bound id)], .ok .suspended⟩ := if_pos hranked
      rw [hcut, WalkEnd.goOn_of_suspended rfl]
      exact ⟨rfl, rfl, rfl, rfl, rfl⟩
    · rw [walkWithin_unranked memo time bound b hranked,
        walkWithin_unranked memo time bound 0 hranked]
      exact .refl _
  | a + 1, s, id => by
    rw [Nat.succ_add]
    unfold walkWithin
    split
    · simp only
      split
      · exact .refl _
      · exact .refl _
      · split
        · exact .refl _
        · next next _ =>
          -- The rest of both walks starts from here; what this node did comes first in both.
          have hrest := walkWithin_add memo time bound b a (s.step memo time id).scene next
          have hprepend := hrest.prepend (s.step memo time id).events
          rw [← WalkEnd.goOn_prepend] at hprepend
          exact hprepend
    · exact .refl _

/-! ## 3. What a walk takes from the tick before -/

/-- A step that pulls anew does not read which data nodes are fresh. -/
theorem step_perNode_congr (time : FrameTime) {s t : Scene σ} (hgraph : s.graph = t.graph)
    (htable : s.table = t.table) (id : NodeId) :
    s.step .perNode time id = t.step .perNode time id := by
  unfold step
  simp only [if_pos, hgraph, htable]

/-- **Under per-node memoization a walk reads the graph and the behaviors only**: neither what was
fresh before nor the bound that its notice will name. -/
theorem walkWithin_reads_apart (time : FrameTime) (bound bound' budget : Nat) {s t : Scene σ}
    (hgraph : s.graph = t.graph) (htable : s.table = t.table) (id : NodeId) :
    (walkWithin .perNode time bound budget s id).Agrees
      (walkWithin .perNode time bound' budget t id) := by
  induction budget generalizing s t id with
  | zero =>
    unfold walkWithin
    rw [hgraph]
    split <;> exact ⟨hgraph, htable, rfl, rfl, rfl⟩
  | succ budget ih =>
    unfold walkWithin
    rw [hgraph, step_perNode_congr time hgraph htable id]
    split
    · simp only
      split
      · exact .refl _
      · exact .refl _
      · split
        · exact .refl _
        · exact (ih rfl rfl _).prepend _
    · exact ⟨hgraph, htable, rfl, rfl, rfl⟩

/-- **The next tick takes a suspended walk up** as if there had been no cut. -/
theorem walkWithin_two_ticks (time : FrameTime) (a b : Nat) (s : Scene σ) (id : NodeId) :
    (walkWithin .perNode time (a + b) (a + b) s id).Agrees
      ((walkWithin .perNode time a a s id).goOn fun t next =>
        walkWithin .perNode time b b { t with resolved := [] } next) := by
  refine (walkWithin_add .perNode time (a + b) b a s id).trans ?_
  refine WalkEnd.Agrees.goOn (walkWithin_reads_apart time (a + b) a a rfl rfl id) ?_
  intro t t' next hgraph htable
  exact walkWithin_reads_apart (t := { t' with resolved := [] }) time (a + b) b b hgraph htable next

end Scene

/-! ## 4. The walks of a processor -/

namespace Processor

variable {σ : Type u}

/-- The same processor with another bound on the steps of a walk. -/
def bounded (p : Processor σ) (steps : UInt64) : Processor σ :=
  { p with settings := { p.settings with maxWalkSteps := steps } }

/-- The processor after a walk has ended. -/
def leaveAt (p : Processor σ) (e : WalkEnd σ) : Processor σ :=
  { p with graph := e.scene.graph, table := e.scene.table }

theorem leaveAt_congr (p : Processor σ) {x y : WalkEnd σ} (h : x.Agrees y) :
    p.leaveAt x = p.leaveAt y := by
  unfold leaveAt
  rw [h.graph, h.table]

variable [Behaves σ]

/-- The end of the walk from a cursor. -/
def walkEnd (p : Processor σ) (c : Cursor) : WalkEnd σ :=
  Scene.walk p.settings p.time ⟨p.graph, p.table, []⟩ c.current

theorem walkEnd_bounded {p : Processor σ} (perNode : p.settings.memoization = .perNode)
    (steps : UInt64) (c : Cursor) :
    (p.bounded steps).walkEnd c = Scene.walkWithin .perNode p.time steps.toNat steps.toNat
      ⟨p.graph, p.table, []⟩ c.current := by
  unfold walkEnd Scene.walk
  rw [show (p.bounded steps).settings.memoization = .perNode from perNode]
  rfl

/-- A walk adds to what its end tells only that it has ended. -/
theorem deeds_walkCursor (p : Processor σ) (c : Cursor) :
    deeds (p.walkCursor c).2.2.1 = deeds (p.walkEnd c).events := by
  unfold walkCursor
  simp only
  split <;> simp only [deeds_append, deeds_walkEnded, List.append_nil] <;> rfl

/-- **A larger bound is a smaller one, and going on** from the processor and
the cursor it leaves. -/
theorem walkEnd_two_ticks {p : Processor σ} (perNode : p.settings.memoization = .perNode)
    (c : Cursor) {a b n : UInt64} (sum : n.toNat = a.toNat + b.toNat) :
    ((p.bounded n).walkEnd c).Agrees (((p.bounded a).walkEnd c).goOn fun _ _ =>
      (((p.bounded a).walkCursor c).1.bounded b).walkEnd ((p.bounded a).walkCursor c).2.1) := by
  have hticks := Scene.walkWithin_two_ticks p.time a.toNat b.toNat ⟨p.graph, p.table, []⟩ c.current
  rw [← sum, ← walkEnd_bounded perNode n c, ← walkEnd_bounded perNode a c] at hticks
  by_cases hsuspended : ((p.bounded a).walkEnd c).result = .ok .suspended
  · rw [WalkEnd.goOn_of_suspended hsuspended] at hticks ⊢
    rw [walkEnd_bounded (p := ((p.bounded a).walkCursor c).1) perNode b]
    exact hticks
  · rw [WalkEnd.goOn_of_ne hsuspended] at hticks ⊢
    exact hticks

end Processor

/-- **The bound on steps only cuts a walk.**  Under per-node memoization, on any graph and for any
behaviors, cursor and bounds, a walk of up to `a + b` steps comes to the same as a walk of up to `a`
steps, followed, exactly if that one was suspended, by a walk of up to `b` steps from the cursor it
left, at the same clock: the same outcome or error, the same cursor, the same processor with all its
behaviors, slots and ranks, and the same evaluations and remarks in the same order. -/
theorem step_bound_only_cuts_walks {σ : Type u} [Behaves σ] (p : Processor σ)
    (perNode : p.settings.memoization = .perNode) (c : Cursor) (a b n : UInt64)
    (sum : n.toNat = a.toNat + b.toNat) :
    let whole := (p.bounded n).walkCursor c
    let first := (p.bounded a).walkCursor c
    let second := (first.1.bounded b).walkCursor first.2.1
    (first.2.2.2 = .ok .suspended →
      whole.2.2.2 = second.2.2.2 ∧ whole.2.1 = second.2.1 ∧ whole.1 = second.1.bounded n ∧
        deeds whole.2.2.1 = deeds first.2.2.1 ++ deeds second.2.2.1) ∧
    (first.2.2.2 ≠ .ok .suspended →
      whole.2.2.2 = first.2.2.2 ∧ whole.2.1 = first.2.1 ∧ whole.1 = first.1.bounded n ∧
        deeds whole.2.2.1 = deeds first.2.2.1) := by
  intro whole first second
  have hticks := Processor.walkEnd_two_ticks perNode c sum
  have hwhole : deeds whole.2.2.1 = deeds ((p.bounded n).walkEnd c).events :=
    Processor.deeds_walkCursor (p.bounded n) c
  have hfirst : deeds first.2.2.1 = deeds ((p.bounded a).walkEnd c).events :=
    Processor.deeds_walkCursor (p.bounded a) c
  constructor
  · intro hsuspended
    have hsecond : deeds second.2.2.1 = deeds ((first.1.bounded b).walkEnd first.2.1).events :=
      Processor.deeds_walkCursor (first.1.bounded b) first.2.1
    rw [WalkEnd.goOn_of_suspended (x := (p.bounded a).walkEnd c) hsuspended] at hticks
    have hstate := (p.bounded n).leaveAt_congr hticks
    refine ⟨hticks.result, congrArg (Cursor.mk c.entry) hticks.current, hstate, ?_⟩
    rw [hwhole, hfirst, hsecond, hticks.deeds]
    exact deeds_append _ _
  · intro hne
    rw [WalkEnd.goOn_of_ne (x := (p.bounded a).walkEnd c) hne] at hticks
    have hstate := (p.bounded n).leaveAt_congr hticks
    refine ⟨hticks.result, congrArg (Cursor.mk c.entry) hticks.current, hstate, ?_⟩
    rw [hwhole, hfirst, hticks.deeds]

/-- The example, cut after its first step: the second tick goes on at the print and reaches the
wait, as one tick of three steps does. -/
theorem example_cut_after_one_step :
    let p := exampleProcessor.ensureReady.state
    let c := Cursor.start (exampleId 0)
    let first := (p.bounded 1).walkCursor c
    let second := (first.1.bounded 2).walkCursor first.2.1
    p.settings.memoization = .perNode ∧
    (3 : UInt64).toNat = (1 : UInt64).toNat + (2 : UInt64).toNat ∧
      first.2.2.2 = .ok .suspended ∧ first.2.1 = ⟨exampleId 0, exampleId 4⟩ ∧
      second.2.2.2 = .ok .paused ∧ second.2.1 = ⟨exampleId 0, exampleId 5⟩ ∧
      ((p.bounded 3).walkCursor c).1 = second.1.bounded 3 := by
  intro p c first second
  have perNode : p.settings.memoization = .perNode := by decide +kernel
  have sum : (3 : UInt64).toNat = (1 : UInt64).toNat + (2 : UInt64).toNat := by decide
  have hsuspended : first.2.2.2 = .ok .suspended := by decide +kernel
  obtain ⟨hresult, hcursor, hstate, -⟩ :=
    (step_bound_only_cuts_walks p perNode c 1 2 3 sum).1 hsuspended
  exact ⟨perNode, sum, hsuspended, by decide +kernel, by decide +kernel, by decide +kernel, hstate⟩

end FlowScript
