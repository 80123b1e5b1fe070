/-
# One tick of a walk, and many

A walk that is resumed tick after tick goes on as if there were no ticks: a node that is unfinished
is evaluated again, a finished one hands over to the ranked node behind its chosen output, and only
the place where a tick ends depends on the bound of steps.  This module says so for one walk on a
graph that stays as it is.

* `Turn` is what one tick of a walk can do, one constructor for each way it goes on or stops;
  `Scene.walkWithin_turn` proves it of the walk.
* `Ticks` chains turns: where a tick leaves the walk, the next one takes it up; a walk that has
  completed starts again from a given node (`home`), or is over.
* `WalkLaw` is the law over the sequence of all control evaluations, numbered by tick and by place
  in the tick, and `Ticks.law` proves it of every chain of turns.

Control evaluations are read off the journal (`visits`), in which no behavior can write them.
-/
import FlowScript.Processor
import FlowScript.Proofs.Frame
import Mathlib.Data.List.Chain

namespace FlowScript

universe u

/-! ## 1. What the journal tells -/

/-- A control evaluation: its node, what it came to, and the output slot to follow. -/
structure Visit where
  node : NodeId
  status : Status
  chosen? : Option Nat
deriving DecidableEq

namespace Event

/-- The control evaluation that an event records. -/
def visit? : Event → Option Visit
  | evaluated .control node (.ok (status, chosen?)) => some ⟨node, status, chosen?⟩
  | _ => none

/-- The walk that an event ends, by the node from which it started. -/
def ended? : Event → Option NodeId
  | notice (.walkEnded entry _ _) => some entry
  | _ => none

/-- What a pull may tell: what a behavior says, a data evaluation, a data node without a rank. -/
inductive OfPull : Event → Prop
  | printed (name text : String) : OfPull (notice (.printed name text))
  | probed (node : NodeId) : OfPull (probed node)
  | evaluated (node : NodeId) (outcome : Except EvalError (Status × Option Nat)) :
    OfPull (evaluated .data node outcome)
  | unranked (node : NodeId) (graph : String) : OfPull (notice (.unrankedData node graph))

end Event

/-- The control evaluations of a journal. -/
def visits (events : List Event) : List Visit := events.filterMap Event.visit?

/-- No walk ends in the journal. -/
def Unended (events : List Event) : Prop := ∀ e ∈ events, e.ended? = none

/-- The journal tells nothing about walks. -/
def Quiet (events : List Event) : Prop := ∀ e ∈ events, e.visit? = none ∧ e.ended? = none

@[simp] theorem visits_append (a b : List Event) : visits (a ++ b) = visits a ++ visits b :=
  List.filterMap_append

theorem Quiet.visits_eq {events : List Event} (h : Quiet events) : visits events = [] :=
  List.filterMap_eq_nil_iff.2 fun e he => (h e he).1

theorem Quiet.unended {events : List Event} (h : Quiet events) : Unended events :=
  fun e he => (h e he).2

theorem Quiet.append {a b : List Event} (ha : Quiet a) (hb : Quiet b) : Quiet (a ++ b) :=
  fun e he => (List.mem_append.1 he).elim (ha e) (hb e)

theorem Unended.append {a b : List Event} (ha : Unended a) (hb : Unended b) : Unended (a ++ b) :=
  fun e he => (List.mem_append.1 he).elim (ha e) (hb e)

theorem quiet_nil : Quiet [] := fun _ he => nomatch he

/-- What a behavior may say is among it. -/
theorem Remark.ofPull : (r : Remark) → r.event.OfPull
  | .printed name text => .printed name text
  | .probed node => .probed node

theorem Event.OfPull.quiet {e : Event} (h : e.OfPull) : e.visit? = none ∧ e.ended? = none := by
  cases h <;> exact ⟨rfl, rfl⟩

theorem quiet_remarks (l : List Remark) : Quiet (l.map Remark.event) := by
  intro e he
  obtain ⟨r, -, rfl⟩ := List.mem_map.1 he
  exact r.ofPull.quiet

namespace Scene

variable {σ : Type u} [Behaves σ]

/-- An evaluation that gets as far as the behavior says what the behavior says,
then records itself. -/
theorem evaluate_events (time : FrameTime) (role : Role) (s : Scene σ) (id : NodeId) :
    ((s.evaluate time role id).events = [] ∧ ∃ e, (s.evaluate time role id).result = .error e) ∨
    ∃ remarks : List Remark, (s.evaluate time role id).events =
      remarks.map Remark.event ++ [.evaluated role id (s.evaluate time role id).result] := by
  unfold evaluate
  cases s.table.get? id with
  | none => exact Or.inl ⟨rfl, _, rfl⟩
  | some b =>
    cases s.graph.node? id with
    | none => exact Or.inl ⟨rfl, _, rfl⟩
    | some n => exact Or.inr ⟨_, rfl⟩

theorem ofPull_evaluate (time : FrameTime) (s : Scene σ) (id : NodeId) :
    ∀ e ∈ (s.evaluate time .data id).events, e.OfPull := by
  intro e he
  rcases s.evaluate_events time .data id with ⟨hnil, -⟩ | ⟨remarks, hevents⟩
  · rw [hnil] at he
    cases he
  · rw [hevents] at he
    rcases List.mem_append.1 he with he | he
    · obtain ⟨r, -, rfl⟩ := List.mem_map.1 he
      exact r.ofPull
    · rw [List.mem_singleton.1 he]
      exact .evaluated id _

/-- A pull tells what a pull may tell, if the pulls one level deeper do. -/
theorem ofPull_pullWith {time : FrameTime} {deeper : Scene σ → NodeId → Step σ Unit}
    (hdeeper : ∀ s id, ∀ e ∈ (deeper s id).events, e.OfPull) :
    ∀ (ids : List NodeId) (s : Scene σ), ∀ e ∈ (pullWith time deeper ids s).events, e.OfPull
  | [], _ => List.forall_mem_nil _
  | id :: ids, s => by
    unfold pullWith
    split
    · exact ofPull_pullWith hdeeper ids s
    · simp only
      split
      · split
        · exact hdeeper _ id
        · split
          · exact List.forall_mem_append.2 ⟨hdeeper _ id, ofPull_evaluate time _ id⟩
          · exact List.forall_mem_append.2
              ⟨List.forall_mem_append.2 ⟨hdeeper _ id, ofPull_evaluate time _ id⟩,
                ofPull_pullWith hdeeper ids _⟩
      · exact List.forall_mem_cons.2 ⟨.unranked id _, ofPull_pullWith hdeeper ids _⟩

theorem ofPull_resolveWithin (time : FrameTime) :
    ∀ (fuel : Nat) (s : Scene σ) (id : NodeId),
      ∀ e ∈ (resolveWithin time fuel s id).events, e.OfPull
  | 0, _, _ => List.forall_mem_nil _
  | fuel + 1, s, _ => ofPull_pullWith (ofPull_resolveWithin time fuel) _ s

theorem quiet_resolve (time : FrameTime) (s : Scene σ) (id : NodeId) :
    Quiet (s.resolve time id).events :=
  fun e he => (ofPull_resolveWithin time _ s id e he).quiet

theorem visits_evaluate_control {time : FrameTime} {s : Scene σ} {id : NodeId} {status : Status}
    {chosen? : Option Nat} (h : (s.evaluate time .control id).result = .ok (status, chosen?)) :
    visits (s.evaluate time .control id).events = [⟨id, status, chosen?⟩] ∧
      Unended (s.evaluate time .control id).events := by
  rcases s.evaluate_events time .control id with ⟨-, e, he⟩ | ⟨remarks, hevents⟩
  · rw [h] at he
    cases he
  · have hquiet := quiet_remarks remarks
    rw [hevents, h]
    refine ⟨?_, hquiet.unended.append fun e he => ?_⟩
    · rw [visits_append, hquiet.visits_eq]
      rfl
    · rw [List.mem_singleton.1 he]
      rfl

/-- **A step records its node, and nothing else is a visit.** -/
theorem visits_step {memo : Memoization} {time : FrameTime} {s : Scene σ} {id : NodeId}
    {status : Status} {chosen? : Option Nat}
    (h : (s.step memo time id).result = .ok (status, chosen?)) :
    visits (s.step memo time id).events = [⟨id, status, chosen?⟩] ∧
      Unended (s.step memo time id).events := by
  unfold step at h ⊢
  simp only at h ⊢
  split at h
  · cases h
  · next hbelow =>
    split at h
    · cases h
    · next r hown =>
      cases h
      obtain ⟨hvisits, hunended⟩ := visits_evaluate_control hown
      rw [visits_append, hvisits]
      refine ⟨?_, (quiet_resolve time _ id).unended.append hunended⟩
      rw [(quiet_resolve time _ id).visits_eq]
      rfl

end Scene

/-! ## 2. One tick -/

namespace Graph

/-- The ranked node to which control flow goes on after a visit. -/
def successor? (g : Graph) (v : Visit) : Option NodeId :=
  (v.chosen?.bind (g.nextNode? v.node)).filter fun next => decide (g.Ranked next)

/-- With the visit, the walk has come to its end. -/
def Ends (g : Graph) (v : Visit) : Prop := v.status = .finished ∧ g.successor? v = none

instance (g : Graph) (v : Visit) : Decidable (g.Ends v) :=
  inferInstanceAs (Decidable (_ ∧ _))

end Graph

/-- What one tick of a walk can do from a node with a budget of steps: its visits, how it ends for
this tick, and the node it stops at. -/
inductive Turn (g : Graph) : (budget : Nat) → NodeId → List Visit → WalkOutcome → NodeId → Prop
  | suspended {id : NodeId} : g.Ranked id → Turn g 0 id [] .suspended id
  | unranked {budget : Nat} {id : NodeId} : ¬ g.Ranked id → Turn g budget id [] .completed id
  | paused {budget : Nat} {id : NodeId} {chosen? : Option Nat} :
    g.Ranked id → Turn g (budget + 1) id [⟨id, .unfinished, chosen?⟩] .paused id
  | ended {budget : Nat} {id : NodeId} {chosen? : Option Nat} :
    g.Ranked id → chosen?.bind (g.nextNode? id) = none →
    Turn g (budget + 1) id [⟨id, .finished, chosen?⟩] .completed id
  | onward {budget : Nat} {id next current : NodeId} {chosen? : Option Nat} {vs : List Visit}
      {outcome : WalkOutcome} :
    g.Ranked id → chosen?.bind (g.nextNode? id) = some next →
    Turn g budget next vs outcome current →
    Turn g (budget + 1) id (⟨id, .finished, chosen?⟩ :: vs) outcome current

/-- **A walk that does not fail takes a turn**, on any graph that differs in its slots at most. -/
theorem Scene.walkWithin_turn {σ : Type u} [Behaves σ] {g : Graph} {memo : Memoization}
    {time : FrameTime} {bound : Nat} {outcome : WalkOutcome} :
    ∀ (budget : Nat) (s : Scene σ) (id : NodeId), s.graph.clearValues = g.clearValues →
      (walkWithin memo time bound budget s id).result = .ok outcome →
      Turn g budget id (visits (walkWithin memo time bound budget s id).events) outcome
        (walkWithin memo time bound budget s id).current ∧
      Unended (walkWithin memo time bound budget s id).events
  | 0, s, id, hshape, h => by
    have hrank := Graph.ranked_iff_of_clearValues hshape id
    have hquiet : ∀ n : Notice, Event.ended? (.notice n) = none → Quiet [.notice n] := by
      intro n hn e he
      rw [List.mem_singleton.1 he]
      exact ⟨rfl, hn⟩
    unfold walkWithin at h ⊢
    simp only [Graph.any_isScheduled, hrank, decide_eq_true_eq] at h ⊢
    split at h
    · next hid =>
      cases h
      rw [if_pos hid]
      exact ⟨.suspended hid, (hquiet _ rfl).unended⟩
    · next hid =>
      cases h
      rw [if_neg hid]
      exact ⟨.unranked hid, (hquiet _ rfl).unended⟩
  | budget + 1, s, id, hshape, h => by
    have hrank := Graph.ranked_iff_of_clearValues hshape id
    unfold walkWithin at h ⊢
    simp only [Graph.any_isScheduled, hrank, decide_eq_true_eq] at h ⊢
    split at h
    · next hid =>
      rw [if_pos hid]
      have hstep := (clearValues_step memo time s id).trans hshape
      split at h
      · cases h
      · next chosen? hres =>
        cases h
        obtain ⟨hvisits, hunended⟩ := visits_step hres
        rw [hvisits]
        exact ⟨.paused hid, hunended⟩
      · next chosen? hres =>
        obtain ⟨hvisits, hunended⟩ := visits_step hres
        rw [Graph.nextNode?_eq_of_bare (Graph.bare_eq_of_clearValues_eq hstep)] at h ⊢
        split at h
        · next hnext =>
          cases h
          rw [hvisits]
          exact ⟨.ended hid hnext, hunended⟩
        · next next hnext =>
          obtain ⟨hturn, hrest⟩ := walkWithin_turn budget (s.step memo time id).scene next hstep h
          rw [visits_append, hvisits]
          exact ⟨.onward hid hnext hturn, hunended.append hrest⟩
    · next hid =>
      cases h
      rw [if_neg hid]
      refine ⟨.unranked hid, fun e he => ?_⟩
      rw [List.mem_singleton.1 he]
      rfl

namespace Graph

variable {g : Graph}

theorem successor?_of_ranked {v : Visit} {next : NodeId}
    (h : v.chosen?.bind (g.nextNode? v.node) = some next) (hnext : g.Ranked next) :
    g.successor? v = some next := by
  rw [successor?, h]
  exact Option.filter_some_pos (decide_eq_true hnext)

theorem successor?_of_not_ranked {v : Visit} {next : NodeId}
    (h : v.chosen?.bind (g.nextNode? v.node) = some next) (hnext : ¬ g.Ranked next) :
    g.successor? v = none := by
  rw [successor?, h]
  exact Option.filter_some_neg (by simpa using hnext)

theorem successor?_of_none {v : Visit} (h : v.chosen?.bind (g.nextNode? v.node) = none) :
    g.successor? v = none := by
  rw [successor?, h]
  rfl

end Graph

namespace Turn

variable {g : Graph} {budget : Nat} {id current : NodeId} {vs : List Visit} {outcome : WalkOutcome}

theorem length_le (h : Turn g budget id vs outcome current) : vs.length ≤ budget := by
  induction h with
  | suspended _ => exact Nat.le_refl 0
  | unranked _ => exact Nat.zero_le _
  | paused _ => exact Nat.succ_le_succ (Nat.zero_le _)
  | ended _ _ => exact Nat.succ_le_succ (Nat.zero_le _)
  | onward _ _ _ ih => exact Nat.succ_le_succ ih

/-- A tick that has a step left visits the ranked node where it starts. -/
theorem exists_head (h : Turn g budget id vs outcome current) (hid : g.Ranked id)
    (hbudget : 0 < budget) : ∃ v rest, vs = v :: rest ∧ v.node = id := by
  cases h with
  | suspended _ => exact absurd hbudget (Nat.lt_irrefl 0)
  | unranked hnot => exact absurd hid hnot
  | paused _ => exact ⟨_, _, rfl, rfl⟩
  | ended _ _ => exact ⟨_, _, rfl, rfl⟩
  | onward _ _ _ => exact ⟨_, _, rfl, rfl⟩

/-- A walk that has not completed stops at a ranked node. -/
theorem ranked_current (h : Turn g budget id vs outcome current) (hout : outcome ≠ .completed) :
    g.Ranked current := by
  induction h with
  | suspended hid => exact hid
  | unranked _ => exact absurd rfl hout
  | paused hid => exact hid
  | ended _ _ => exact absurd rfl hout
  | onward _ _ _ ih => exact ih hout

/-- A walk completes in a tick exactly if one of its visits ends it. -/
theorem exists_ends_iff (h : Turn g budget id vs outcome current) (hid : g.Ranked id) :
    (∃ v ∈ vs, g.Ends v) ↔ outcome = .completed := by
  induction h with
  | suspended _ => exact ⟨fun ⟨_, hv, _⟩ => (nomatch hv), fun h => nomatch h⟩
  | unranked hnot => exact absurd hid hnot
  | paused _ =>
    refine ⟨fun ⟨v, hv, hends⟩ => ?_, fun h => nomatch h⟩
    rw [List.mem_singleton.1 hv] at hends
    exact nomatch hends.1
  | ended _ hnext =>
    exact ⟨fun _ => rfl,
      fun _ => ⟨_, List.mem_singleton_self _, rfl, Graph.successor?_of_none hnext⟩⟩
  | @onward budget id next current chosen? vs outcome _ hnext hturn ih =>
    by_cases hranked : g.Ranked next
    · -- the first visit does not end the walk, so the question is about the rest
      have hsucc : g.successor? ⟨id, .finished, chosen?⟩ = some next :=
        Graph.successor?_of_ranked hnext hranked
      rw [← ih hranked]
      refine ⟨fun ⟨v, hv, hends⟩ => ?_, fun ⟨v, hv, hends⟩ => ⟨v, List.mem_cons_of_mem _ hv, hends⟩⟩
      rcases List.mem_cons.1 hv with rfl | hv
      · have hnone := hends.2
        rw [hsucc] at hnone
        cases hnone
      · exact ⟨v, hv, hends⟩
    · have hout : outcome = .completed := by
        cases hturn with
        | suspended h => exact absurd h hranked
        | unranked _ => rfl
        | paused h => exact absurd h hranked
        | ended h _ => exact absurd h hranked
        | onward h _ _ => exact absurd h hranked
      exact ⟨fun _ => hout, fun _ => ⟨_, List.mem_cons_self, rfl,
        Graph.successor?_of_not_ranked hnext hranked⟩⟩

end Turn

/-! ## 3. The law over all ticks -/

/-- A visit with the number of its tick and its place in the tick, from one. -/
structure Record where
  tick : Nat
  place : Nat
  visit : Visit

/-- The visits of one tick, numbered from a place on. -/
def placed (tick : Nat) : (place : Nat) → List Visit → List Record
  | _, [] => []
  | place, v :: vs => ⟨tick, place, v⟩ :: placed tick (place + 1) vs

/-- The visits of all ticks in one sequence, numbered from a tick on. -/
def numbered : (tick : Nat) → List (List Visit) → List Record
  | _, [] => []
  | tick, vs :: ticks => placed tick 1 vs ++ numbered (tick + 1) ticks

/-- Which visit may follow on which: after an unfinished one, the same node in the next
tick; after a finished one its successor, in the next tick if the bound is reached and in
the same tick otherwise; without a successor, the node where the walk starts again, if there
is one, in the next tick. -/
def Follows (g : Graph) (bound : Nat) (home : Option NodeId) (a b : Record) : Prop :=
  match a.visit.status, g.successor? a.visit with
  | .unfinished, _ => b.visit.node = a.visit.node ∧ b.tick = a.tick + 1
  | .finished, some next =>
    b.visit.node = next ∧ b.tick = if a.place = bound then a.tick + 1 else a.tick
  | .finished, none => home = some b.visit.node ∧ b.tick = a.tick + 1

/-- **Tick boundaries are invisible to a walk** that starts at a node, takes at most
`bound` steps in a tick, and starts again from `home` when it has completed, or is over
then if `home` is nothing. -/
structure WalkLaw (g : Graph) (bound : Nat) (entry : NodeId) (home : Option NodeId)
    (ticks : List (List Visit)) : Prop where
  first : ∀ a ∈ (numbered 0 ticks).head?, a.visit.node = entry
  next : (numbered 0 ticks).IsChain (Follows g bound home)
  atMost : ∀ vs ∈ ticks, vs.length ≤ bound
  /-- A tick has a visit, unless the walk was over before. -/
  atLeast : ∀ before vs after, ticks = before ++ vs :: after →
    (0 < vs.length ↔ home.isSome = true ∨ ∀ v ∈ before.flatten, ¬ g.Ends v)

/-- Turns one after the other, each from where the last one has left the walk. -/
inductive Ticks (g : Graph) (bound : Nat) (home : Option NodeId) :
    Option NodeId → List (List Visit) → Prop
  | nil (at? : Option NodeId) : Ticks g bound home at? []
  | idle {ticks : List (List Visit)} : Ticks g bound home none ticks →
    Ticks g bound home none ([] :: ticks)
  | turn {id current : NodeId} {vs : List Visit} {outcome : WalkOutcome}
      {ticks : List (List Visit)} : g.Ranked id → Turn g bound id vs outcome current →
    Ticks g bound home (if outcome = .completed then home else some current) ticks →
    Ticks g bound home (some id) (vs :: ticks)

variable {g : Graph} {bound : Nat} {home : Option NodeId}

/-- One tick in front of a sequence that continues it.  The steps that are left and the places that
are taken make up the bound. -/
theorem Turn.isChain_append {budget : Nat} {id current : NodeId} {vs : List Visit}
    {outcome : WalkOutcome} (h : Turn g budget id vs outcome current) {tick place : Nat}
    (hplace : place + budget = bound + 1) {rest : List Record}
    (hrest : rest.IsChain (Follows g bound home))
    (hhead : ∀ b ∈ rest.head?,
      (if outcome = .completed then home else some current) = some b.visit.node ∧
        b.tick = tick + 1) :
    (placed tick place vs ++ rest).IsChain (Follows g bound home) := by
  induction h generalizing place with
  | suspended _ => exact hrest
  | unranked _ => exact hrest
  | paused hid =>
    refine List.isChain_cons.2 ⟨fun b hb => ?_, hrest⟩
    obtain ⟨hnode, htick⟩ := hhead b hb
    exact ⟨(Option.some.inj hnode).symm, htick⟩
  | @ended budget id chosen? hid hnext =>
    refine List.isChain_cons.2 ⟨fun b hb => ?_, hrest⟩
    have hsucc : g.successor? ⟨id, .finished, chosen?⟩ = none := Graph.successor?_of_none hnext
    simp only [Follows, hsucc]
    exact hhead b hb
  | @onward budget id next current chosen? vs outcome hid hnext hturn ih =>
    have hchain := @ih (place + 1) (by omega) hhead
    refine List.isChain_cons.2 ⟨fun b hb => ?_, hchain⟩
    by_cases hranked : g.Ranked next
    · have hsucc : g.successor? ⟨id, .finished, chosen?⟩ = some next :=
        Graph.successor?_of_ranked hnext hranked
      simp only [Follows, hsucc]
      cases budget with
      | zero =>
        -- the bound is reached: the tick ends here and the next one starts at the successor
        have hbound : place = bound := by omega
        cases hturn with
        | unranked hnot => exact absurd hranked hnot
        | suspended _ =>
          obtain ⟨hnode, htick⟩ := hhead b hb
          rw [if_pos hbound]
          exact ⟨(Option.some.inj hnode).symm, htick⟩
      | succ budget =>
        obtain ⟨v, vs', rfl, hv⟩ := hturn.exists_head hranked (Nat.succ_pos budget)
        obtain rfl : (⟨tick, place + 1, v⟩ : Record) = b := Option.some.inj hb
        rw [if_neg (by omega)]
        exact ⟨hv, rfl⟩
    · have hsucc : g.successor? ⟨id, .finished, chosen?⟩ = none :=
        Graph.successor?_of_not_ranked hnext hranked
      simp only [Follows, hsucc]
      cases hturn with
      | unranked _ => exact hhead b hb
      | suspended h => exact absurd h hranked
      | paused h => exact absurd h hranked
      | ended h _ => exact absurd h hranked
      | onward h _ _ => exact absurd h hranked

namespace Ticks

/-- The visits of chained turns follow on one another, from where the walk stands. -/
theorem isChain (hbound : 0 < bound) {at? : Option NodeId} {ticks : List (List Visit)}
    (h : Ticks g bound home at? ticks) (tick : Nat) :
    (numbered tick ticks).IsChain (Follows g bound home) ∧
      ∀ b ∈ (numbered tick ticks).head?, at? = some b.visit.node ∧ b.tick = tick := by
  induction h generalizing tick with
  | nil at? => exact ⟨List.isChain_nil, fun b hb => nomatch hb⟩
  | idle _ ih =>
    obtain ⟨hchain, hhead⟩ := ih (tick + 1)
    exact ⟨hchain, fun b hb => nomatch (hhead b hb).1⟩
  | turn hid hturn _ ih =>
    obtain ⟨hchain, hhead⟩ := ih (tick + 1)
    refine ⟨hturn.isChain_append (Nat.add_comm 1 bound) hchain hhead, fun b hb => ?_⟩
    obtain ⟨v, vs, rfl, hv⟩ := hturn.exists_head hid hbound
    obtain rfl : (⟨tick, 1, v⟩ : Record) = b := Option.some.inj hb
    exact ⟨congrArg some hv.symm, rfl⟩

theorem length_le {at? : Option NodeId} {ticks : List (List Visit)}
    (h : Ticks g bound home at? ticks) : ∀ vs ∈ ticks, vs.length ≤ bound := by
  induction h with
  | nil _ => exact fun vs hvs => nomatch hvs
  | idle _ ih => exact fun vs hvs => (List.mem_cons.1 hvs).elim (· ▸ Nat.zero_le bound) (ih vs)
  | turn _ hturn _ ih =>
    exact fun vs hvs => (List.mem_cons.1 hvs).elim (· ▸ hturn.length_le) (ih vs)

/-- A tick has a visit exactly if the walk stands somewhere and has not ended for good before. -/
theorem pos_iff (hbound : 0 < bound) {at? : Option NodeId} {ticks : List (List Visit)}
    (h : Ticks g bound home at? ticks) :
    ∀ before vs after, ticks = before ++ vs :: after →
      (0 < vs.length ↔ at?.isSome = true ∧
        (home.isSome = true ∨ ∀ v ∈ before.flatten, ¬ g.Ends v)) := by
  induction h with
  | nil _ => exact fun before vs after h => absurd h (by simp)
  | idle _ ih =>
    intro before vs after hsplit
    cases before with
    | nil =>
      cases hsplit
      exact ⟨fun h => absurd h (Nat.lt_irrefl 0), fun h => nomatch h.1⟩
    | cons _ before =>
      cases hsplit
      exact ih before vs after rfl
  | @turn id current us outcome ticks hid hturn _ ih =>
    intro before vs after hsplit
    cases before with
    | nil =>
      cases hsplit
      obtain ⟨v, rest, rfl, -⟩ := hturn.exists_head hid hbound
      exact ⟨fun _ => ⟨rfl, Or.inr fun _ hv => nomatch hv⟩, fun _ => Nat.succ_pos _⟩
    | cons _ before =>
      cases hsplit
      rw [ih before vs after rfl]
      have hends := hturn.exists_ends_iff hid
      simp only [List.flatten_cons, List.mem_append]
      by_cases hout : outcome = .completed
      · -- the walk is over now, unless it starts again
        obtain ⟨v, hv, hend⟩ := hends.2 hout
        rw [if_pos hout]
        refine ⟨fun h => ⟨rfl, Or.inl h.1⟩, fun h => ?_⟩
        rcases h.2 with hhome | hnone
        · exact ⟨hhome, Or.inl hhome⟩
        · exact absurd hend (hnone v (Or.inl hv))
      · have hnone : ∀ v ∈ us, ¬ g.Ends v := fun v hv hend => hout (hends.1 ⟨v, hv, hend⟩)
        rw [if_neg hout]
        refine and_congr (Iff.refl _) (or_congr Iff.rfl ⟨fun h v hv => ?_, fun h v hv => ?_⟩)
        · exact hv.elim (hnone v) (h v)
        · exact h v (Or.inr hv)

/-- **Chained turns obey the law.** -/
theorem law (hbound : 0 < bound) {entry : NodeId} {ticks : List (List Visit)}
    (h : Ticks g bound home (some entry) ticks) : WalkLaw g bound entry home ticks where
  first a ha := (Option.some.inj ((h.isChain hbound 0).2 a ha).1).symm
  next := (h.isChain hbound 0).1
  atMost := h.length_le
  atLeast before vs after hsplit := by
    rw [h.pos_iff hbound before vs after hsplit]
    exact ⟨And.right, fun h => ⟨rfl, h⟩⟩

end Ticks

end FlowScript
