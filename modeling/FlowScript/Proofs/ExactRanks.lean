/-
# The ranks in closed form

What scheduling computes with frontiers, classes and offers is determined by the links of the graph:

* after the control pass, the rank of a node is the length of the longest walk along control links
  that leads to it from an entry, among those within the bound (`control_ranks_are_longest_walks`);
* after both passes, a node that control flow reaches has moved up by the depth of every occupied
  control rank up to its own, and a data node has the lowest rank that leaves a step for every link
  of every chain down to a reached node (`ranks_have_closed_form`).

The first holds of any control flow: on a cycle the longest walk is as long as the bound allows.
For the second, no cycle of producers may lead into a reached node, since otherwise its chains have
no longest one.
-/
import FlowScript.Proofs.Cycles
import FlowScript.Proofs.Plain
import Mathlib.Data.Finset.Lattice.Fold
import Mathlib.Order.Lattice.Nat

namespace FlowScript

open Relation (ReflTransGen TransGen)

namespace Graph

variable {g : Graph} {starts : List NodeId} {max : Nat} {v : NodeId} {r : Int}

/-! ## 1. Control ranks -/

/-- The lengths of the walks along control links that lead from one of the nodes `starts` to a node,
as far as a bound allows. -/
def controlLengths (g : Graph) (max : Nat) (starts : List NodeId) (v : NodeId) : Set Nat :=
  {k | k ≤ max ∧ ∃ e ∈ starts, Steps g.Flows k e v}

theorem mem_controlLengths_iff {k : Nat} :
    k ∈ g.controlLengths max starts v ↔ k < max + 1 ∧ g.ControlWalk starts k v := by
  rw [controlWalk_iff, Nat.lt_succ_iff]
  exact Iff.rfl

theorem LongestWalk.eq_natCast_iff (h : g.LongestWalk starts (max + 1) v r) {k : Nat} :
    r = k ↔ IsGreatest (g.controlLengths max starts v) k := by
  rcases h with ⟨m, rfl, hm, hw, hmax⟩ | ⟨rfl, hnone⟩
  · have hgreatest : IsGreatest (g.controlLengths max starts v) m := by
      refine ⟨mem_controlLengths_iff.2 ⟨hm, hw⟩, fun j hj => ?_⟩
      obtain ⟨hlt, hwalk⟩ := mem_controlLengths_iff.1 hj
      exact hmax j hlt hwalk
    rw [Int.natCast_inj]
    exact ⟨fun hk => hk ▸ hgreatest, fun hk => hgreatest.unique hk⟩
  · constructor
    · intro hk
      rw [unscheduled] at hk
      omega
    · rintro ⟨hk, -⟩
      obtain ⟨hlt, hwalk⟩ := mem_controlLengths_iff.1 hk
      exact absurd hwalk (hnone k hlt)

theorem LongestWalk.eq_unscheduled_iff (h : g.LongestWalk starts (max + 1) v r) :
    r = unscheduled ↔ g.controlLengths max starts v = ∅ := by
  rcases h with ⟨m, rfl, hm, hw, -⟩ | ⟨rfl, hnone⟩
  · constructor
    · intro hr
      rw [unscheduled] at hr
      omega
    · intro hempty
      exact absurd (mem_controlLengths_iff.2 ⟨hm, hw⟩) (hempty ▸ Set.notMem_empty m)
  · refine ⟨fun _ => Set.eq_empty_of_forall_notMem fun j hj => ?_, fun _ => rfl⟩
    obtain ⟨hlt, hwalk⟩ := mem_controlLengths_iff.1 hj
    exact hnone j hlt hwalk

/-- The ranks that the control pass leaves in the graph; a node that is not there has none. -/
theorem ControlRanked.rank_eq {bound : Nat} {first : ControlPass} {control : NodeId → Int}
    (h : g.ControlRanked starts bound first control) (hg : g.Intact)
    (hs : ∀ e ∈ starts, (g.node? e).isSome) : first.graph.rank = control := by
  funext v
  rw [h.graph_eq, rank_withRanks]
  split
  · rfl
  · next hnode =>
    refine (h.eq_unscheduled fun hv => hnode ?_).symm
    obtain ⟨k, -, hw⟩ := (h.mem_computed v).1 hv
    exact hw.exists_node? hg hs

/-! ## 2. Depths -/

/-- The lengths of the chains of producers that end in a node. -/
def chainLengths (g : Graph) (v : NodeId) : Set Nat := {k | ∃ p, Steps g.Supplies k p v}

/-- The length of the longest chain of producers that ends in a node. -/
noncomputable def depth (g : Graph) (v : NodeId) : Nat := sSup (g.chainLengths v)

/-- Without a cycle that leads into it, the chains of producers that end in a node are no longer
than the graph has nodes. -/
theorem shallow_of_no_cycle {ids : List NodeId} (hids : ∀ s ∈ ids, s ∈ g.nodes.keys)
    (acyclic : ∀ s ∈ ids, ∀ p, TransGen g.Supplies p p → ¬ ReflTransGen g.Supplies p s) :
    g.Shallow ids := by
  intro s hs p hp
  obtain ⟨x, hx, hxs⟩ :=
    (longestChain_cyclic_iff (hids s hs)).1 ((longestChain_spec g s).2.2 ⟨p, hp⟩)
  exact acyclic s hs x hx hxs

/-- So there is a longest one, and its length is what is counted. -/
theorem isGreatest_longestChain (hv : v ∈ g.nodes.keys)
    (acyclic : ∀ p, TransGen g.Supplies p p → ¬ ReflTransGen g.Supplies p v) :
    IsGreatest (g.chainLengths v) (g.longestChain v).1 := by
  have hshallow : g.Shallow [v] :=
    shallow_of_no_cycle (List.forall_mem_singleton.2 hv) (List.forall_mem_singleton.2 acyclic)
  have hcount := (longestChain_spec g v).1
  constructor
  · rcases Nat.eq_zero_or_pos (g.longestChain v).1 with hzero | hpos
    · rw [hzero]
      exact ⟨v, .refl v⟩
    · have hle : (g.longestChain v).1 ≤ g.nodes.size + 1 := by
        by_contra hlong
        obtain ⟨p, hp⟩ := (hcount _ (Nat.succ_pos _) (Nat.le_refl _)).2 (Nat.le_of_not_le hlong)
        exact hshallow v (List.mem_singleton_self v) p hp
      obtain ⟨p, hp⟩ := (hcount _ hpos hle).2 (Nat.le_refl _)
      exact ⟨p, dataWalk_iff.1 hp⟩
  · rintro k ⟨p, hp⟩
    have hle : k ≤ g.nodes.size := hshallow.le_size (List.mem_singleton_self v) (dataWalk_iff.2 hp)
    rcases Nat.eq_zero_or_pos k with rfl | hpos
    · exact Nat.zero_le _
    · exact (hcount k hpos (Nat.le_succ_of_le hle)).1 ⟨p, dataWalk_iff.2 hp⟩

theorem depth_eq (hv : v ∈ g.nodes.keys)
    (acyclic : ∀ p, TransGen g.Supplies p p → ¬ ReflTransGen g.Supplies p v) :
    g.depth v = (g.longestChain v).1 :=
  (isGreatest_longestChain hv acyclic).csSup_eq

theorem classDepth_eq_sup (g : Graph) (ids : List NodeId) :
    g.classDepth ids = ids.toFinset.sup fun v => (g.longestChain v).1 := by
  refine Nat.le_antisymm (classDepth_le fun v hv => ?_) (Finset.sup_le fun v hv => ?_)
  · exact Finset.le_sup (f := fun v => (g.longestChain v).1) (List.mem_toFinset.2 hv)
  · exact le_classDepth (List.mem_toFinset.1 hv)

end Graph

namespace ControlPass

/-- The control ranks that occur. -/
def ranks (first : ControlPass) : Finset Int := (first.computed.map first.graph.rank).toFinset

/-- The nodes of one control rank. -/
def rankClass (first : ControlPass) (r : Int) : Finset NodeId :=
  (first.computed.filter (first.graph.rank · = r)).toFinset

end ControlPass

namespace Graph.Scheduled

variable {g : Graph} {starts : List NodeId} {bound : Nat} {first : ControlPass} {second : DataPass}
  {control : NodeId → Int} {classes : List (Int × List NodeId)} {p v : NodeId} {r : Int}

/-- How far a reached node moves up, by the depths of its producers. -/
theorem rank_eq_sum (h : g.Scheduled starts bound first second control classes)
    (hcontrol : first.graph.rank = control) (hv : v ∈ first.computed) :
    second.graph.rank v = first.graph.rank v +
      (∑ ρ ∈ first.ranks with ρ ≤ first.graph.rank v,
        (first.rankClass ρ).sup fun w => (g.longestChain w).1 : Nat) := by
  subst hcontrol
  rw [h.rank_of_computed hv, placedRank, h.isClasses.shift_eq]
  simp only [depthAt, classDepth_eq_sup, ControlPass.ranks, ControlPass.rankClass]

/-! ## 3. Offers -/

/-- A data node is not itself reached. -/
theorem pos_of_steps (h : g.Scheduled starts bound first second control classes)
    (hp : g.isData p = true) {s : NodeId} (hs : s ∈ first.computed) {k : Nat}
    (hsteps : Steps g.Supplies k p s) : 0 < k := by
  refine Nat.pos_of_ne_zero ?_
  rintro rfl
  cases hsteps
  have hflow := (h.flow p hs).2
  rw [hp] at hflow
  cases hflow

/-- **Offers are made to what feeds a reached node**, however long the chain: if the shortest one
that leads there is not longer than offers go, none is missed. -/
theorem exists_offered_iff (h : g.Scheduled starts bound first second control classes) :
    (∃ r, second.ranked.get? p = some r) ↔ ∃ s ∈ first.computed, TransGen g.Supplies p s := by
  constructor
  · rintro ⟨r, hr⟩
    obtain ⟨s, hs, k, hk, -, hw, -⟩ := h.stage.offered.offered p r hr
    exact ⟨s, h.mem_members.1 hs, (dataWalk_iff.1 hw).transGen hk⟩
  · rintro ⟨s, hs, hps⟩
    obtain ⟨_, -, hsteps⟩ := exists_steps_of_transGen hps
    obtain ⟨k, hk, hshort⟩ := hsteps.exists_lt (fun _ _ hxy => hxy.mem_keys)
      ((OrderedMap.get?_isSome_iff _ _).1 (h.flow s hs).1)
    rw [length_keys] at hk
    have hpos := h.pos_of_steps (isData_of_transGen hps) hs hshort
    obtain ⟨r, hr, -⟩ := h.stage.offered.least p _ ⟨s, h.mem_members.2 hs, k, hpos, Nat.le_of_lt hk,
      dataWalk_iff.2 hshort, rfl⟩
    exact ⟨r, hr⟩

/-- **A producer has the lowest rank that leaves room for all its chains.** -/
theorem isLeast_of_offered (h : g.Scheduled starts bound first second control classes)
    (hshallow : g.Shallow first.computed) (hr : second.ranked.get? p = some r) :
    IsLeast {ρ : Int | ∃ s ∈ first.computed, ∃ k : Nat, Steps g.Supplies k p s ∧
      ρ = second.graph.rank s - k} r := by
  constructor
  · obtain ⟨s, hs, k, -, -, hw, rfl⟩ := h.stage.offered.offered p r hr
    have hcomp := h.mem_members.1 hs
    exact ⟨s, hcomp, k, dataWalk_iff.1 hw, by rw [h.rank_of_computed hcomp]⟩
  · rintro ρ ⟨s, hs, k, hsteps, rfl⟩
    have hw := dataWalk_iff.2 hsteps
    obtain ⟨_, -, ho⟩ := h.stage.offered.offered p r hr
    have hpos := h.pos_of_steps ho.isData hs hsteps
    obtain ⟨low, hlow, hle⟩ := h.stage.offered.least p _
      ⟨s, h.mem_members.2 hs, k, hpos, hshallow.le_size hs hw, hw, rfl⟩
    rw [show second.ranked.get? p = some low from hlow] at hr
    cases hr
    rw [h.rank_of_computed hs]
    exact hle

end Graph.Scheduled

/-! ## 4. The laws -/

/-- **Control ranks are the lengths of longest walks.**  On a built graph, with any control
flow, from any nodes of the graph: after a control pass on cleared ranks, a node has rank `k`
exactly if `k` is the greatest number of links, up to the bound, over which one of the entries
leads to it; it is unscheduled exactly if there is no such number; and the pass gives back the
nodes with a rank, each once. -/
theorem control_ranks_are_longest_walks (g : Graph) (built : g.Built) (max : Nat)
    (entries : List NodeId) (present : ∀ e ∈ entries, (g.node? e).isSome) :
    let done := g.resetRanks.controlPass max entries
    (∀ v (k : Nat), done.graph.rank v = k ↔ IsGreatest (g.controlLengths max entries v) k) ∧
    (∀ v, done.graph.rank v = unscheduled ↔ g.controlLengths max entries v = ∅) ∧
    (∀ v, v ∈ done.computed ↔ 0 ≤ done.graph.rank v) ∧
    done.computed.Nodup := by
  obtain ⟨control, hr⟩ := Graph.controlPass_spec built.intact present max
  intro done
  rw [hr.rank_eq built.intact present]
  refine ⟨fun v k => (hr.ranks v).eq_natCast_iff, fun v => (hr.ranks v).eq_unscheduled_iff, ?_,
    hr.nodup_computed⟩
  exact fun v => (hr.nonneg_iff v).symm

/-- Around the loop the pass goes on up to its bound: what is printed is reached over one link and
over three, and what waits over two and over four. -/
theorem loop_control_ranks :
    (∀ e ∈ [exampleId 0], (loopGraph.node? e).isSome) ∧
      (loopGraph.resetRanks.controlPass 4 [exampleId 0]).computed =
        [exampleId 0, exampleId 1, exampleId 2] ∧
      IsGreatest (loopGraph.controlLengths 4 [exampleId 0] (exampleId 1)) 3 ∧
      IsGreatest (loopGraph.controlLengths 4 [exampleId 0] (exampleId 2)) 4 ∧
      loopGraph.controlLengths 4 [exampleId 0] (exampleId 3) = ∅ := by
  have present : ∀ e ∈ [exampleId 0], (loopGraph.node? e).isSome := by decide +kernel
  obtain ⟨hrank, hnone, -, -⟩ :=
    control_ranks_are_longest_walks loopGraph loopGraph_built 4 [exampleId 0] present
  exact ⟨present, by decide +kernel, (hrank (exampleId 1) 3).1 (by decide +kernel),
    (hrank (exampleId 2) 4).1 (by decide +kernel), (hnone (exampleId 3)).1 (by decide +kernel)⟩

/-- **Final ranks in closed form.**  On a built graph in which no control link touches a data node
and no cycle of producers leads into a reached node: a reached node has its control rank and, on top
of it, the greatest depth of each control rank that occurs up to its own; a data node that feeds a
reached node has the least of the numbers that the ranks of reached nodes leave below them, less one
for each link of a chain that leads there. -/
theorem ranks_have_closed_form (g : Graph) (built : g.Built) (apart : g.FlowApart) (max : Nat)
    (kinds : List EntryKind)
    (acyclic : ∀ s, g.Reached kinds max s →
      ∀ p, TransGen g.Supplies p p → ¬ ReflTransGen g.Supplies p s) :
    let first := g.firstPass max kinds
    let control := first.graph.rank
    let final := (g.schedule max kinds).1.rank
    (∀ v, g.Reached kinds max v → IsGreatest (g.chainLengths v) (g.depth v)) ∧
    (∀ v, g.Reached kinds max v → final v = control v +
      (∑ r ∈ first.ranks with r ≤ control v, (first.rankClass r).sup g.depth : Nat)) ∧
    (∀ p, g.isData p = true → (∃ s, g.Reached kinds max s ∧ ReflTransGen g.Supplies p s) →
      IsLeast {r : Int | ∃ s, g.Reached kinds max s ∧
        ∃ k : Nat, Steps g.Supplies k p s ∧ r = final s - k} (final p)) := by
  have hg := built.intact
  obtain ⟨control, classes, hs⟩ := Graph.passes_scheduled hg apart max kinds
  have hreached : ∀ v, v ∈ (g.firstPass max kinds).computed ↔ g.Reached kinds max v := fun v =>
    Graph.mem_firstPass_iff hg
  have hcontrol := hs.ranked.rank_eq hg fun _ hv => Graph.isSome_of_mem_entryNodes hg hv
  have hdepth : ∀ v, g.Reached kinds max v → g.depth v = (g.longestChain v).1 := fun v hv =>
    Graph.depth_eq (hv.mem_keys hg) (acyclic v hv)
  have hshallow : g.Shallow (g.firstPass max kinds).computed :=
    Graph.shallow_of_no_cycle (fun s hcomp => ((hreached s).1 hcomp).mem_keys hg) fun s hcomp =>
      acyclic s ((hreached s).1 hcomp)
  rw [Graph.schedule_eq]
  refine ⟨fun v hv => ?_, fun v hv => ?_, fun p hp ⟨s, hsr, hps⟩ => ?_⟩
  · rw [hdepth v hv]
    exact Graph.isGreatest_longestChain (hv.mem_keys hg) (acyclic v hv)
  · rw [hs.rank_eq_sum hcontrol ((hreached v).2 hv)]
    -- every member of a class is reached, so its depth is what was counted
    have hclass : ∀ r, ((g.firstPass max kinds).rankClass r).sup (fun w => (g.longestChain w).1) =
        ((g.firstPass max kinds).rankClass r).sup g.depth := by
      intro r
      refine Finset.sup_congr rfl fun w hw => (hdepth w ((hreached w).1 ?_)).symm
      exact List.mem_of_mem_filter (List.mem_toFinset.1 hw)
    simp only [hclass]
  · have hcomp := (hreached s).2 hsr
    obtain ⟨_, hsteps⟩ := exists_steps_of_reflTransGen hps
    have hfeeds := hsteps.transGen (hs.pos_of_steps hp hcomp hsteps)
    obtain ⟨r, hr⟩ := hs.exists_offered_iff.2 ⟨s, hcomp, hfeeds⟩
    have hleast := hs.isLeast_of_offered hshallow hr
    simp only [hreached] at hleast
    rw [hs.rank_of_offered hr]
    exact hleast

/-- Every tick, print two texts.  An adder feeds the first text over one template, and the second
one over another adder and another template. -/
def tieredEdits : List Edit :=
  [ .addNode (exampleNode 0 (Library.entryType Library.onUpdate "On Update" .update "" none)),
    .addNode (exampleNode 1 Library.logType),
    .addNode (exampleNode 2 Library.logType),
    .addNode (exampleNode 3 Library.formatType),
    .addNode (exampleNode 4 Library.addType),
    .addNode (exampleNode 5 Library.addType),
    .addNode (exampleNode 6 Library.formatType),
    exampleLink 0 0 "Exec" 1 "Exec",
    exampleLink 1 1 "Exec" 2 "Exec",
    exampleLink 2 3 "Text" 1 "Text",
    exampleLink 3 4 "Result" 3 "Value",
    exampleLink 4 4 "Result" 5 "A",
    exampleLink 5 5 "Result" 6 "Value",
    exampleLink 6 6 "Text" 2 "Text" ]

def tieredGraph : Graph := Edit.runAll (.empty "tiers") tieredEdits

theorem tieredGraph_built : tieredGraph.Built :=
  (Graph.Built.empty "tiers").runAll tieredEdits (by decide +kernel)

theorem tieredGraph_acyclic : tieredGraph.Acyclic :=
  Graph.acyclic_of_numbering (fun id => ((tieredGraph.schedule 100 [.update]).1.rank id).toNat)
    (by decide +kernel)

/-- The second text is reached over two links and moves up by two for the chain of the first
and by three for its own.  The shared adder makes room for both: it is one of the numbers
that the first text leaves. -/
theorem tiered_ranks :
    tieredGraph.FlowApart ∧
      (∀ s, tieredGraph.Reached [.update] 100 s → ∀ p, TransGen tieredGraph.Supplies p p →
        ¬ ReflTransGen tieredGraph.Supplies p s) ∧
      (List.range 7).map (fun k => (tieredGraph.schedule 100 [.update]).1.rank (exampleId k)) =
        [0, 3, 7, 2, 1, 5, 6] ∧
      IsLeast {r : Int | ∃ s, tieredGraph.Reached [.update] 100 s ∧
        ∃ k : Nat, Steps tieredGraph.Supplies k (exampleId 4) s ∧
          r = (tieredGraph.schedule 100 [.update]).1.rank s - k} 1 := by
  have apart : tieredGraph.FlowApart := by decide +kernel
  have acyclic : ∀ s, tieredGraph.Reached [.update] 100 s → ∀ p, TransGen tieredGraph.Supplies p p →
      ¬ ReflTransGen tieredGraph.Supplies p s := by
    intro _ _ p hp
    exact absurd (tieredGraph.feeds_eq ▸ hp) (tieredGraph_acyclic p)
  obtain ⟨-, -, hleast⟩ :=
    ranks_have_closed_form tieredGraph tieredGraph_built apart 100 [.update] acyclic
  have hreached : tieredGraph.Reached [.update] 100 (exampleId 1) :=
    (Graph.mem_firstPass_iff tieredGraph_built.intact).1 (by decide +kernel)
  -- the adder feeds the first template, which feeds the first text
  have hfeeds : ReflTransGen tieredGraph.Supplies (exampleId 4) (exampleId 1) :=
    (Steps.head (b := exampleId 3) (Graph.mem_producers_iff.1 (by decide +kernel))
      (.single (Graph.mem_producers_iff.1 (by decide +kernel)))).reflTransGen
  have hrank : (tieredGraph.schedule 100 [.update]).1.rank (exampleId 4) = 1 := by decide +kernel
  have hadder := hleast (exampleId 4) (by decide +kernel) ⟨exampleId 1, hreached, hfeeds⟩
  rw [hrank] at hadder
  exact ⟨apart, acyclic, by decide +kernel, hadder⟩

end FlowScript
