/-
# Behaviors

A behavior is the state that a node keeps between evaluations, together with what an evaluation
does with it.  The library is written for any type of such states: an instance of `Behaves` says
what an evaluation of a state in a context does (`Effect`), and how progress is taken back.

An effect lists what the evaluation writes, chooses and says; it cannot touch anything but the
output slots of its own node, and what it says is never mistaken for the record of a walk.
-/
import FlowScript.Journal

namespace FlowScript

universe u v

/-- What an evaluation does. -/
structure Effect (σ : Type u) where
  /-- The state to keep. -/
  state : σ
  /-- Output slots written, in order. -/
  writes : List (Nat × Value)
  /-- The output slot to follow instead of the default one. -/
  follow? : Option Nat
  remarks : List Remark
  result : Except EvalError Status

namespace Effect

variable {σ : Type u}

/-- An evaluation that only keeps a state and ends. -/
def done (state : σ) : Effect σ := ⟨state, [], none, [], .ok .finished⟩

/-- An evaluation that fails before it does anything. -/
def fail (state : σ) (e : EvalError) : Effect σ := ⟨state, [], none, [], .error e⟩

end Effect

/-- States that can be evaluated as behaviors. -/
class Behaves (σ : Type u) where
  evaluate : σ → Context → Effect σ
  /-- Takes back progress over several ticks. -/
  reset : σ → σ

/-- The same effect with its state seen in another type. -/
def Effect.mapState {σ : Type u} {τ : Type v} (f : σ → τ) (e : Effect σ) : Effect τ :=
  ⟨f e.state, e.writes, e.follow?, e.remarks, e.result⟩

/-- States of either of two types. -/
instance {σ : Type u} {τ : Type v} [Behaves σ] [Behaves τ] : Behaves (σ ⊕ τ) where
  evaluate
    | .inl s, c => (Behaves.evaluate s c).mapState .inl
    | .inr t, c => (Behaves.evaluate t c).mapState .inr
  reset
    | .inl s => .inl (Behaves.reset s)
    | .inr t => .inr (Behaves.reset t)

/-- The context after an evaluation. -/
def Context.apply {σ : Type u} (c : Context) (e : Effect σ) : Context :=
  let written := e.writes.foldl (fun c w => c.setOutput w.1 w.2) c
  e.follow?.elim written written.follow

end FlowScript
