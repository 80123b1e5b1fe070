/-
# Exactly what is needed is ranked

Scheduling ranks a node if control flow reaches it or if it is a data node whose value is needed by
one that is reached, and it ranks nothing else, whatever cycles there are.  Offers go down one step
for each link, for as many links as the graph has nodes; that none falls below zero is due to the
classes, which have moved up far enough before (`Scheduled.nonneg_of_offered`).  That no node is
missed is due to the shortest chain, which is never longer than offers go
(`Scheduled.exists_offered_iff`).

The needed nodes are closed under producers.  So a pull that starts at a ranked node stays among
ranked nodes, and the journal never tells of a data node without a rank
(`Scene.allRanked_resolveWithin`).
-/
import FlowScript.Proofs.ExactRanks
import FlowScript.Proofs.Turns

namespace FlowScript

open Relation (TransGen)

universe u

/-! ## 1. The nodes that are ranked -/

namespace Graph

variable {g : Graph} {kinds : List EntryKind} {max : Nat} {p q v : NodeId}

/-- Control flow reaches the node, or it is a data node and a chain of producers leads from it to a
node that control flow reaches. -/
def Needed (g : Graph) (kinds : List EntryKind) (max : Nat) (v : NodeId) : Prop :=
  g.Reached kinds max v ∨ g.isData v = true ∧ ∃ s, g.Reached kinds max s ∧ TransGen g.Supplies v s

/-- What feeds a needed node is needed. -/
theorem Needed.of_supplies (h : g.Needed kinds max q) (hpq : g.Supplies p q) :
    g.Needed kinds max p := by
  rcases h with hq | ⟨-, s, hs, hqs⟩
  · exact .inr ⟨hpq.1, q, hq, .single hpq⟩
  · exact .inr ⟨hpq.1, s, hs, .head hpq hqs⟩

theorem ranked_iff_nonneg (g : Graph) (v : NodeId) : g.Ranked v ↔ 0 ≤ g.rank v :=
  Int.lt_iff_add_one_le

namespace Scheduled

variable {starts : List NodeId} {bound : Nat} {first : ControlPass} {second : DataPass}
  {control : NodeId → Int} {classes : List (Int × List NodeId)}

theorem nonneg_rank_iff (h : g.Scheduled starts bound first second control classes) :
    0 ≤ second.graph.rank v ↔
      v ∈ first.computed ∨ ∃ s ∈ first.computed, TransGen g.Supplies v s := by
  rw [← h.exists_offered_iff]
  constructor
  · intro hv
    refine h.computed_or_offered fun hnone => ?_
    rw [hnone] at hv
    exact absurd hv (by decide)
  · rintro (hv | ⟨r, hr⟩)
    · rw [h.rank_of_computed hv]
      exact Int.le_trans (Int.natCast_nonneg _) (h.depth_le_placedRank hv)
    · rw [h.rank_of_offered hr]
      exact h.nonneg_of_offered hr

/-- A rank in use is not negative. -/
theorem rank_eq_unscheduled (h : g.Scheduled starts bound first second control classes)
    (hv : ¬ 0 ≤ second.graph.rank v) : second.graph.rank v = unscheduled := by
  by_contra hne
  exact hv (h.nonneg_rank_iff.2 ((h.computed_or_offered hne).imp_right h.exists_offered_iff.1))

/-- **Both passes count what they rank**, and no node is ranked by both. -/
theorem length_add_size (h : g.Scheduled starts bound first second control classes) :
    first.computed.length + second.ranked.size = g.nodes.keys.countP (0 ≤ second.graph.rank ·) := by
  have hoffered : ∀ v, v ∈ second.ranked.keys ↔ ∃ s ∈ first.computed, TransGen g.Supplies v s := by
    intro v
    rw [← OrderedMap.get?_isSome_iff, Option.isSome_iff_exists]
    exact h.exists_offered_iff
  have hnodup : (first.computed ++ second.ranked.keys).Nodup := by
    refine h.ranked.nodup_computed.append second.ranked.keys_nodup fun v hv hv' => ?_
    obtain ⟨s, -, hvs⟩ := (hoffered v).1 hv'
    have hflow := (h.flow v hv).2
    rw [isData_of_transGen hvs] at hflow
    cases hflow
  have hperm : (first.computed ++ second.ranked.keys).Perm
      (g.nodes.keys.filter (0 ≤ second.graph.rank ·)) := by
    refine (List.perm_ext_iff_of_nodup hnodup (g.nodes.keys_nodup.filter _)).2 fun v => ?_
    rw [List.mem_append, hoffered, ← h.nonneg_rank_iff, List.mem_filter, decide_eq_true_iff]
    refine ⟨fun hv => ⟨?_, hv⟩, And.right⟩
    rcases h.nonneg_rank_iff.1 hv with hcomp | ⟨s, -, hvs⟩
    · exact (OrderedMap.get?_isSome_iff _ _).1 (h.flow v hcomp).1
    · exact mem_keys_of_isData (isData_of_transGen hvs)
  have hlength := hperm.length_eq
  rw [List.length_append, ← List.countP_eq_length_filter] at hlength
  rw [← hlength, OrderedMap.keys, List.length_map, OrderedMap.size]

end Scheduled

end Graph

/-! ## 2. Pulls among ranked nodes -/

/-- The journal tells of no data node without a rank. -/
def AllRanked (events : List Event) : Prop :=
  ∀ node graph, .notice (.unrankedData node graph) ∉ events

theorem allRanked_nil : AllRanked [] := fun _ _ => List.not_mem_nil

theorem AllRanked.append {a b : List Event} (ha : AllRanked a) (hb : AllRanked b) :
    AllRanked (a ++ b) :=
  fun node graph he => (List.mem_append.1 he).elim (ha node graph) (hb node graph)

namespace Scene

variable {σ : Type u} [Behaves σ] {g : Graph}

/-- What a behavior says is nothing about ranks. -/
theorem allRanked_evaluate (time : FrameTime) (role : Role) (s : Scene σ) (id : NodeId) :
    AllRanked (s.evaluate time role id).events := by
  intro node graph he
  rcases s.evaluate_events time role id with ⟨hnil, -⟩ | ⟨remarks, hevents⟩
  · rw [hnil] at he
    cases he
  · rw [hevents, List.mem_append, List.mem_singleton] at he
    rcases he with he | he
    · obtain ⟨r, -, hr⟩ := List.mem_map.1 he
      cases r <;> cases hr
    · cases he

/-- A pull of ranked nodes tells of no other, if the pulls one level deeper do not. -/
theorem allRanked_pullWith {time : FrameTime} {deeper : Scene σ → NodeId → Step σ Unit}
    (hframe : ∀ s id, (deeper s id).scene.graph.clearValues = s.graph.clearValues)
    (hdeeper : ∀ s id, s.graph.clearValues = g.clearValues → g.Ranked id →
      AllRanked (deeper s id).events) :
    ∀ (ids : List NodeId) (s : Scene σ), s.graph.clearValues = g.clearValues →
      (∀ id ∈ ids, g.Ranked id) → AllRanked (pullWith time deeper ids s).events
  | [], _, _, _ => allRanked_nil
  | id :: ids, s, hshape, hids => by
    have hid : g.Ranked id := hids id List.mem_cons_self
    have hrest : ∀ k ∈ ids, g.Ranked k := fun k hk => hids k (List.mem_cons_of_mem _ hk)
    have hrank := Graph.ranked_iff_of_clearValues hshape id
    unfold pullWith
    split
    · exact allRanked_pullWith hframe hdeeper ids s hshape hrest
    · simp only [Graph.any_isScheduled, decide_eq_true (hrank.2 hid), if_true]
      -- to remember the node changes no slot
      have hbelow := hdeeper { s with resolved := s.resolved ++ [id] } id hshape hid
      split
      · exact hbelow
      · split
        · exact hbelow.append (allRanked_evaluate time .data _ id)
        · refine (hbelow.append (allRanked_evaluate time .data _ id)).append
            (allRanked_pullWith hframe hdeeper ids _ ?_ hrest)
          rw [clearValues_push, clearValues_evaluate, hframe]
          exact hshape

/-- **A pull from a ranked node stays among ranked nodes**, on any graph that differs in its slots
at most from one on which producers of ranked nodes are ranked. -/
theorem allRanked_resolveWithin (time : FrameTime)
    (hclosed : ∀ p q, g.Supplies p q → g.Ranked q → g.Ranked p) :
    ∀ (fuel : Nat) (s : Scene σ) (id : NodeId), s.graph.clearValues = g.clearValues → g.Ranked id →
      AllRanked (resolveWithin time fuel s id).events
  | 0, _, _, _, _ => allRanked_nil
  | fuel + 1, s, id, hshape, hid => by
    refine allRanked_pullWith (clearValues_resolveWithin time fuel)
      (allRanked_resolveWithin time hclosed fuel) _ s hshape fun p hp => hclosed p id ?_ hid
    rw [Graph.producers_eq_of_bare (Graph.bare_eq_of_clearValues_eq hshape)] at hp
    exact Graph.mem_producers_iff.1 hp

end Scene

/-! ## 3. The law -/

/-- **Scheduling ranks exactly what is needed**, on every built graph in which no control link
touches a data node, with whatever cycles.  A node has a rank that is not negative exactly if it is
needed, and every other node is unscheduled; the report counts the nodes with a rank; a data node
that feeds one with a rank has one; and whatever the slots hold and the behaviors do, a pull for a
node with a rank never comes upon a data node without one. -/
theorem exactly_needed_nodes_are_ranked {σ : Type u} [Behaves σ] (g : Graph) (built : g.Built)
    (apart : g.FlowApart) (max : Nat) (kinds : List EntryKind) :
    let final := (g.schedule max kinds).1
    (∀ v, 0 ≤ final.rank v ↔ g.Needed kinds max v) ∧
    (∀ v, ¬ g.Needed kinds max v → final.rank v = unscheduled) ∧
    (g.schedule max kinds).2.scheduled = final.nodes.keys.countP (0 ≤ final.rank ·) ∧
    (∀ c ∈ final.links, c.exec = false → final.isData c.fromNode = true → 0 ≤ final.rank c.toNode →
      0 ≤ final.rank c.fromNode) ∧
    (∀ (time : FrameTime) (s : Scene σ) (id : NodeId), s.graph.clearValues = final.clearValues →
      0 ≤ final.rank id →
      ∀ node graph, .notice (.unrankedData node graph) ∉ (s.resolve time id).events) := by
  have hg := built.intact
  obtain ⟨control, classes, hs⟩ := Graph.passes_scheduled hg apart max kinds
  intro final
  have hfinal : final = (g.secondPass max kinds).graph := by simp only [final, Graph.schedule_eq]
  have hbare : final.bare = g.bare := hfinal ▸ hs.bare_graph
  have hranked : ∀ v, 0 ≤ final.rank v ↔ g.Needed kinds max v := by
    intro v
    rw [hfinal, hs.nonneg_rank_iff]
    simp only [Graph.mem_firstPass_iff hg]
    refine or_congr Iff.rfl ⟨fun ⟨s, hsr, hvs⟩ => ?_, And.right⟩
    exact ⟨Graph.isData_of_transGen hvs, s, hsr, hvs⟩
  have hclosed : ∀ p q, final.Supplies p q → 0 ≤ final.rank q → 0 ≤ final.rank p := by
    intro p q hpq hq
    rw [Graph.Supplies, Graph.isData_eq_of_bare hbare, Graph.links_eq_of_bare hbare] at hpq
    exact (hranked p).2 (((hranked q).1 hq).of_supplies hpq)
  refine ⟨hranked, fun v hv => ?_, ?_, fun c hc hexec hdata hq => ?_,
    fun time s id hshape hid => ?_⟩
  · rw [← hranked, hfinal] at hv
    rw [hfinal]
    exact hs.rank_eq_unscheduled hv
  · have hkeys : final.nodes.keys = g.nodes.keys := by
      have hnodes := congrArg (fun g : Graph => g.nodes.keys) hbare
      simpa [Graph.bare, Graph.mapNodes] using hnodes
    rw [hkeys, hfinal, ← hs.length_add_size]
    simp only [Graph.schedule_eq]
  · exact hclosed c.fromNode c.toNode ⟨hdata, c, hc, hexec, rfl, rfl⟩ hq
  · simp only [← Graph.ranked_iff_nonneg] at hclosed hid
    exact Scene.allRanked_resolveWithin time hclosed _ s id hshape hid

/-- With a bound of one the loop is cut off behind what is printed.  The template and the two
adders are needed, and the offers that go around the adders do not fall below zero; the node
that waits is not needed. -/
theorem loop_needed_nodes :
    loopGraph.FlowApart ∧
      (List.range 6).map (fun k => (loopGraph.schedule 1 [.update]).1.rank (exampleId k)) =
        [0, 8, -1, 7, 2, 3] ∧
      loopGraph.Needed [.update] 1 (exampleId 5) ∧ ¬ loopGraph.Needed [.update] 1 (exampleId 2) ∧
      (loopGraph.schedule 1 [.update]).2.scheduled = 5 := by
  have apart : loopGraph.FlowApart := by decide +kernel
  obtain ⟨hranked, -, hcount, -⟩ := exactly_needed_nodes_are_ranked (σ := Library.Behavior)
    loopGraph loopGraph_built apart 1 [.update]
  exact ⟨apart, by decide +kernel, (hranked (exampleId 5)).1 (by decide +kernel),
    fun h => absurd ((hranked (exampleId 2)).2 h) (by decide +kernel),
    by rw [hcount]; decide +kernel⟩

end FlowScript
