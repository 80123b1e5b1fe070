/-
# What a walk leaves alone

An evaluation writes output slots of its own node, a push fills the input slots behind its links,
and pulling and walking are made of these two.  None of them touches anything but slots: the graph
with empty slots (`Graph.clearValues`) is the same before and after, and with it ranks, neighbours
and entries.  Each function has one equation that says so.
-/
import FlowScript.Proofs.Shape
import FlowScript.Walk

namespace FlowScript

universe u

variable {σ : Type u}

/-! ## 1. One evaluation -/

namespace Context

/-- An effect reaches the output slots of its node and nothing else of it. -/
theorem clearValues_apply (c : Context) (e : Effect σ) :
    (c.apply e).node.clearValues = c.node.clearValues := by
  have hwrites := foldl_eq_of_step (fun c : Context => c.node.clearValues)
    (f := fun c (w : Nat × Value) => c.setOutput w.1 w.2)
    (fun c w => Node.clearValues_setOutput c.node w.1 w.2) e.writes c
  unfold apply
  cases e.follow? with
  | none => exact hwrites
  | some slot => exact hwrites

end Context

namespace Graph

theorem clearValues_deliver (g : Graph) (node : NodeId) (port : PortId) (v : Value) :
    (g.deliver node port v).clearValues = g.clearValues :=
  clearValues_modifyNode g fun n _ => Node.clearValues_setValue n port (some v)

@[simp] theorem clearValues_pushOutputs (g : Graph) (id : NodeId) :
    (g.pushOutputs id).clearValues = g.clearValues := by
  unfold pushOutputs
  cases g.node? id with
  | none => rfl
  | some n => exact foldl_eq_of_step clearValues (fun g d => clearValues_deliver g ..) _ g

end Graph

/-! ## 2. Pulling and walking -/

namespace Scene

@[simp] theorem clearValues_push (s : Scene σ) (id : NodeId) :
    (s.push id).graph.clearValues = s.graph.clearValues :=
  Graph.clearValues_pushOutputs s.graph id

variable [Behaves σ]

@[simp] theorem clearValues_evaluate (time : FrameTime) (role : Role) (s : Scene σ) (id : NodeId) :
    (s.evaluate time role id).scene.graph.clearValues = s.graph.clearValues := by
  unfold evaluate
  cases s.table.get? id with
  | none => rfl
  | some b =>
    cases hn : s.graph.node? id with
    | none => rfl
    | some n =>
      refine Graph.clearValues_modifyNode s.graph fun m hm => ?_
      rw [hn] at hm
      cases hm
      exact Context.clearValues_apply (Context.start n time) (Behaves.evaluate b _)

/-- Pulling a list leaves alone whatever pulling one level deeper does. -/
theorem clearValues_pullWith {time : FrameTime} {deeper : Scene σ → NodeId → Step σ Unit}
    (hdeeper : ∀ s id, (deeper s id).scene.graph.clearValues = s.graph.clearValues) :
    ∀ (ids : List NodeId) (s : Scene σ),
      (pullWith time deeper ids s).scene.graph.clearValues = s.graph.clearValues
  | [], _ => rfl
  | id :: ids, s => by
    unfold pullWith
    split
    · exact clearValues_pullWith hdeeper ids s
    · simp only
      split
      · split
        · exact hdeeper _ id
        · split
          · exact (clearValues_evaluate ..).trans (hdeeper _ id)
          · rw [clearValues_pullWith hdeeper ids, clearValues_push, clearValues_evaluate, hdeeper]
      · exact clearValues_pullWith hdeeper ids _

theorem clearValues_resolveWithin (time : FrameTime) :
    ∀ (fuel : Nat) (s : Scene σ) (id : NodeId),
      (resolveWithin time fuel s id).scene.graph.clearValues = s.graph.clearValues
  | 0, _, _ => rfl
  | fuel + 1, s, _ => clearValues_pullWith (clearValues_resolveWithin time fuel) _ s

@[simp] theorem clearValues_resolve (time : FrameTime) (s : Scene σ) (id : NodeId) :
    (s.resolve time id).scene.graph.clearValues = s.graph.clearValues :=
  clearValues_resolveWithin time _ s id

/-- **One step of a walk writes nothing but slots.** -/
@[simp] theorem clearValues_step (memo : Memoization) (time : FrameTime) (s : Scene σ)
    (id : NodeId) : (s.step memo time id).scene.graph.clearValues = s.graph.clearValues := by
  have hforget : (if memo = .perNode then { s with resolved := [] } else s).graph = s.graph := by
    split <;> rfl
  unfold step
  simp only
  split
  · rw [clearValues_resolve, hforget]
  · split
    · rw [clearValues_evaluate, clearValues_resolve, hforget]
    · rw [clearValues_push, clearValues_evaluate, clearValues_resolve, hforget]

/-- **A walk writes nothing but slots.** -/
@[simp] theorem clearValues_walkWithin (memo : Memoization) (time : FrameTime) (bound : Nat) :
    ∀ (budget : Nat) (s : Scene σ) (id : NodeId),
      (walkWithin memo time bound budget s id).scene.graph.clearValues = s.graph.clearValues
  | 0, s, id => by
    unfold walkWithin
    split <;> rfl
  | budget + 1, s, id => by
    unfold walkWithin
    split
    · simp only
      split
      · exact clearValues_step memo time s id
      · exact clearValues_step memo time s id
      · split
        · exact clearValues_step memo time s id
        · exact (clearValues_walkWithin memo time bound budget _ _).trans
            (clearValues_step memo time s id)
    · rfl

end Scene

end FlowScript
