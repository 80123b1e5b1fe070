/-
# The ordering law of compute orders

A scheduling pass without diagnoses puts every control link upwards and every data node before what
it feeds.  The two passes write the same ranks, so the law is read off what both of them leave
behind (`Scheduled`):

* a node that control flow reaches has its place (`placedRank`), and places grow strictly with
  control ranks, because a class never moves further than a later one;
* a producer has the lowest of its offers.  If it feeds a ranked node, it was made an offer below
  the rank of that node; and no offer falls below zero, because a class moves up by its depth at
  least.

The second argument needs no more of the graph than that the chains into the reached nodes are no
longer than the graph has nodes (`Shallow`); a clean report says so, and an acyclic graph is so.
-/
import FlowScript.Proofs.DataRanks
import FlowScript.Schedule.Basic

namespace FlowScript

namespace Graph

variable {g : Graph}

/-! ## 1. What scheduling leaves behind -/

/-- No control link touches a data node. -/
def FlowApart (g : Graph) : Prop :=
  ∀ c ∈ g.links, c.exec = true → g.isData c.fromNode = false ∧ g.isData c.toNode = false

instance (g : Graph) : Decidable g.FlowApart :=
  inferInstanceAs (Decidable (∀ c ∈ g.links, _))

theorem mem_entryNodes_iff (hg : g.Intact) {kinds : List EntryKind} {v : NodeId} :
    v ∈ g.entryNodes kinds ↔
      ∃ n kind, g.node? v = some n ∧ n.category = .entry kind ∧ kind ∈ kinds := by
  simp only [entryNodes, List.mem_map, mem_sortBy, List.mem_filter, OrderedMap.mem_values_iff]
  constructor
  · rintro ⟨n, ⟨⟨k, hk⟩, hkind⟩, rfl⟩
    have hkey : n.id = k := hg.nodeKey k n hk
    cases hcat : n.category with
    | entry kind =>
      rw [hcat] at hkind
      exact ⟨n, kind, hkey ▸ hk, hcat, by simpa [Category.entryKind?] using hkind⟩
    | action => rw [hcat] at hkind; cases hkind
    | data => rw [hcat] at hkind; cases hkind
  · rintro ⟨n, kind, hn, hcat, hkind⟩
    exact ⟨n, ⟨⟨v, hn⟩, by simpa [hcat, Category.entryKind?] using hkind⟩, hg.nodeKey v n hn⟩

theorem isData_of_entry {v : NodeId} {n : Node} {kind : EntryKind} (hn : g.node? v = some n)
    (hcat : n.category = .entry kind) : g.isData v = false := by
  rw [isData, hn, Option.any_some, hcat]
  rfl

/-- Control flow from entries stays among nodes of the graph that are no data nodes. -/
theorem ControlWalk.flow (hg : g.Intact) (hflow : g.FlowApart) {kinds : List EntryKind} {k : Nat}
    {v : NodeId} (h : g.ControlWalk (g.entryNodes kinds) k v) :
    (g.node? v).isSome ∧ g.isData v = false := by
  cases h with
  | start hv =>
    obtain ⟨n, kind, hn, hcat, -⟩ := (mem_entryNodes_iff hg).1 hv
    exact ⟨by rw [hn]; rfl, isData_of_entry hn hcat⟩
  | step _ hb =>
    obtain ⟨c, hc, hexec, -, rfl⟩ := mem_nextNodes_iff.1 hb
    obtain ⟨n, hn⟩ := (hg.exists_ends hc).2
    exact ⟨by rw [hn]; rfl, (hflow c hc hexec).2⟩

/-- What the two passes leave behind, one after the other. -/
structure Scheduled (g : Graph) (starts : List NodeId) (bound : Nat) (first : ControlPass)
    (second : DataPass) (control : NodeId → Int) (classes : List (Int × List NodeId)) : Prop where
  ranked : g.ControlRanked starts bound first control
  isClasses : Classes control first.computed classes
  stage : g.Stage control classes classes second
  flow : ∀ v ∈ first.computed, (g.node? v).isSome ∧ g.isData v = false

/-- The control pass of scheduling. -/
def firstPass (g : Graph) (max : Nat) (kinds : List EntryKind) : ControlPass :=
  g.resetRanks.controlPass max (g.entryNodes kinds)

/-- The data pass of scheduling. -/
def secondPass (g : Graph) (max : Nat) (kinds : List EntryKind) : DataPass :=
  (g.firstPass max kinds).graph.dataPass (g.firstPass max kinds).computed

theorem entryNodes_resetRanks (g : Graph) : g.resetRanks.entryNodes = g.entryNodes := by
  rw [resetRanks_eq, entryNodes_eq_of_bare (bare_withRanks g _)]

/-- **Scheduling is one pass after the other**: the graph is the one that the second leaves behind,
and the report tells what each of them has found. -/
theorem schedule_eq (g : Graph) (max : Nat) (kinds : List EntryKind) :
    g.schedule max kinds = ((g.secondPass max kinds).graph,
      { entries := g.entryNodes kinds
        scheduled := (g.firstPass max kinds).computed.length + (g.secondPass max kinds).ranked.size
        diagnostics := (g.firstPass max kinds).runaway?.toList.map (.runawayControlFlow g.name ·) ++
          (g.secondPass max kinds).cyclic.map (.dataCycle g.name ·)
        branches := g.resetRanks.branches }) := by
  simp only [schedule, secondPass, firstPass, entryNodes_resetRanks]
  cases hnil : g.entryNodes kinds with
  | nil =>
    -- without entries both passes do nothing
    rfl
  | cons v vs => rfl

theorem isSome_of_mem_entryNodes (hg : g.Intact) {kinds : List EntryKind} {v : NodeId}
    (hv : v ∈ g.entryNodes kinds) : (g.node? v).isSome := by
  obtain ⟨n, -, hn, -⟩ := (mem_entryNodes_iff hg).1 hv
  rw [hn]; rfl

theorem firstPass_ranked (hg : g.Intact) (max : Nat) (kinds : List EntryKind) :
    ∃ control, g.ControlRanked (g.entryNodes kinds) (max + 1) (g.firstPass max kinds) control :=
  controlPass_spec hg (fun _ hv => isSome_of_mem_entryNodes hg hv) max

theorem passes_scheduled (hg : g.Intact) (hflow : g.FlowApart) (max : Nat)
    (kinds : List EntryKind) :
    ∃ control classes, g.Scheduled (g.entryNodes kinds) (max + 1) (g.firstPass max kinds)
      (g.secondPass max kinds) control classes := by
  obtain ⟨control, hranked⟩ := firstPass_ranked hg max kinds
  have hcomputed : ∀ v ∈ (g.firstPass max kinds).computed,
      (g.node? v).isSome ∧ g.isData v = false := by
    intro v hv
    obtain ⟨k, -, hw⟩ := (hranked.mem_computed v).1 hv
    exact hw.flow hg hflow
  obtain ⟨classes, hclasses, hstage⟩ := dataPass_spec control hcomputed
  rw [← hranked.graph_eq] at hstage
  exact ⟨control, classes, hranked, hclasses, hstage, hcomputed⟩

theorem schedule_eq_passes (hg : g.Intact) (hflow : g.FlowApart) (max : Nat)
    (kinds : List EntryKind) :
    ∃ first second control classes,
      g.Scheduled (g.entryNodes kinds) (max + 1) first second control classes ∧
      g.schedule max kinds = (second.graph,
        { entries := g.entryNodes kinds
          scheduled := first.computed.length + second.ranked.size
          diagnostics := first.runaway?.toList.map (.runawayControlFlow g.name ·) ++
            second.cyclic.map (.dataCycle g.name ·)
          branches := g.resetRanks.branches }) := by
  obtain ⟨control, classes, hs⟩ := passes_scheduled hg hflow max kinds
  exact ⟨_, _, control, classes, hs, g.schedule_eq max kinds⟩

theorem schedule_passes (hg : g.Intact) (hflow : g.FlowApart) (max : Nat) (kinds : List EntryKind) :
    ∃ first second control classes,
      g.Scheduled (g.entryNodes kinds) (max + 1) first second control classes ∧
      (g.schedule max kinds).1 = second.graph ∧
      (g.schedule max kinds).2.diagnostics =
        first.runaway?.toList.map (.runawayControlFlow g.name ·) ++
          second.cyclic.map (.dataCycle g.name ·) := by
  obtain ⟨first, second, control, classes, hs, heq⟩ := schedule_eq_passes hg hflow max kinds
  exact ⟨first, second, control, classes, hs, by rw [heq], by rw [heq]⟩

/-- The report is clean if neither pass has found anything. -/
theorem schedule_spec (hg : g.Intact) (hflow : g.FlowApart) (max : Nat) (kinds : List EntryKind) :
    ∃ first second control classes,
      g.Scheduled (g.entryNodes kinds) (max + 1) first second control classes ∧
      (g.schedule max kinds).1 = second.graph ∧
      ((g.schedule max kinds).2.diagnostics = [] → first.runaway? = none ∧ second.cyclic = []) := by
  obtain ⟨first, second, control, classes, hs, hgraph, hreport⟩ :=
    schedule_passes hg hflow max kinds
  refine ⟨first, second, control, classes, hs, hgraph, fun hclean => ?_⟩
  rw [hreport, List.append_eq_nil_iff, List.map_eq_nil_iff, List.map_eq_nil_iff,
    Option.toList_eq_nil_iff] at hclean
  exact hclean

/-! ## 2. Ranks after both passes -/

/-- No chain of producers into one of the nodes is longer than the graph has nodes. -/
def Shallow (g : Graph) (ids : List NodeId) : Prop :=
  ∀ s ∈ ids, ∀ p, ¬ g.DataWalk (g.nodes.size + 1) p s

theorem Shallow.le_size {ids : List NodeId} (h : g.Shallow ids) {s : NodeId} (hs : s ∈ ids)
    {k : Nat} {p : NodeId} (hw : g.DataWalk k p s) : k ≤ g.nodes.size := by
  by_contra hlt
  obtain ⟨q, hq⟩ := hw.exists_of_le (Nat.succ_le_of_lt (Nat.lt_of_not_le hlt))
  exact h s hs q hq

namespace Scheduled

variable {starts : List NodeId} {bound : Nat} {first : ControlPass} {second : DataPass}
  {control : NodeId → Int} {classes : List (Int × List NodeId)}

theorem bare_graph (h : g.Scheduled starts bound first second control classes) :
    second.graph.bare = g.bare := by
  rw [h.stage.graph_eq, bare_withRanks]

theorem mem_members (h : g.Scheduled starts bound first second control classes) {v : NodeId} :
    v ∈ members classes ↔ v ∈ first.computed := h.isClasses.mem_members

/-- The rank of a node that is made offers is the lowest of them. -/
theorem rank_of_offered (h : g.Scheduled starts bound first second control classes) {p : NodeId}
    {r : Int} (hr : second.ranked.get? p = some r) : second.graph.rank p = r := by
  obtain ⟨v, -, ho⟩ := h.stage.offered.offered p r hr
  have hnode := exists_node?_of_isData ho.isData
  rw [h.stage.graph_eq, rank_withRanks, if_pos hnode]
  simp only [hr, Option.getD_some]

/-- A node that control flow reaches has its place. -/
theorem rank_of_computed (h : g.Scheduled starts bound first second control classes) {v : NodeId}
    (hv : v ∈ first.computed) : second.graph.rank v = g.placedRank classes control v := by
  obtain ⟨hnode, hflow⟩ := h.flow v hv
  have hnone := h.stage.offered.get?_eq_none (fun p r ⟨_, _, ho⟩ => ho.isData) hflow
  simp only at hnone
  rw [h.stage.graph_eq, rank_withRanks, if_pos hnode]
  simp only [hnone, Option.getD_none, stageRank, if_pos (h.mem_members.2 hv)]

/-- A ranked node is reached by control flow or was made an offer. -/
theorem computed_or_offered (h : g.Scheduled starts bound first second control classes)
    {v : NodeId} (hv : second.graph.rank v ≠ unscheduled) :
    v ∈ first.computed ∨ ∃ r, second.ranked.get? v = some r := by
  by_contra hnot
  rw [not_or] at hnot
  obtain ⟨hcomp, hoffer⟩ := hnot
  have hnone : second.ranked.get? v = none := by
    cases hget : second.ranked.get? v with
    | none => rfl
    | some r => exact absurd ⟨r, hget⟩ hoffer
  refine hv ?_
  rw [h.stage.graph_eq, rank_withRanks]
  simp only [hnone, Option.getD_none, stageRank, h.mem_members, if_neg hcomp,
    h.ranked.eq_unscheduled hcomp, ite_self]

/-- A place leaves room for the longest chain of producers below it. -/
theorem depth_le_placedRank (h : g.Scheduled starts bound first second control classes)
    {v : NodeId} (hv : v ∈ first.computed) :
    ((g.longestChain v).1 : Int) ≤ g.placedRank classes control v := by
  obtain ⟨c, hc, hvc⟩ := h.isClasses.exists_class v hv
  have hcontrol := ((h.isClasses.mem c hc v).1 hvc).2
  have hle := Nat.le_trans (le_classDepth (g := g) hvc)
    (classDepth_le_shift hc (Int.le_of_eq hcontrol.symm))
  have hnonneg := (h.ranked.nonneg_iff v).2 hv
  rw [placedRank]
  omega

/-- **No offer falls below zero**: a place leaves room for as many links as
offers are made along. -/
theorem nonneg_of_offered (h : g.Scheduled starts bound first second control classes) {p : NodeId}
    {r : Int} (hr : second.ranked.get? p = some r) : 0 ≤ r := by
  obtain ⟨v, hv, k, hpos, hk, hw, rfl⟩ := h.stage.offered.offered p r hr
  have hdepth := ((longestChain_spec g v).1 k hpos (Nat.le_succ_of_le hk)).1 ⟨p, hw⟩
  have hplace := h.depth_le_placedRank (h.mem_members.1 hv)
  omega

/-- **A producer stands before what it feeds**: if a ranked node has a producer, the producer has a
smaller rank, which is not negative. -/
theorem rank_lt_of_producer (h : g.Scheduled starts bound first second control classes)
    (hs : g.Shallow first.computed) {p q : NodeId} (hpq : p ∈ g.producers q)
    (hq : second.graph.rank q ≠ unscheduled) :
    0 ≤ second.graph.rank p ∧ second.graph.rank p < second.graph.rank q := by
  -- some reached node has offered the consumer its rank, or is the consumer: `k` links lead to it
  obtain ⟨v, k, hv, hw, hrank⟩ : ∃ v k, v ∈ first.computed ∧ g.DataWalk k q v ∧
      second.graph.rank q = g.placedRank classes control v - (k : Nat) := by
    rcases h.computed_or_offered hq with hcomp | ⟨r, hr⟩
    · refine ⟨q, 0, hcomp, .refl q, ?_⟩
      rw [h.rank_of_computed hcomp]
      omega
    · obtain ⟨v, hv, k, -, -, hw, hrk⟩ := h.stage.offered.offered q r hr
      exact ⟨v, k, h.mem_members.1 hv, hw, (h.rank_of_offered hr).trans hrk⟩
  have hwp : g.DataWalk (k + 1) p v := .step hpq hw
  have hoffer : g.OffersOf v (g.placedRank classes control v) p
      (g.placedRank classes control v - ((k + 1 : Nat) : Int)) :=
    ⟨k + 1, Nat.succ_pos k, hs.le_size hv hwp, hwp, rfl⟩
  obtain ⟨r, hr, hle⟩ := h.stage.offered.least p _ ⟨v, h.mem_members.2 hv, hoffer⟩
  rw [h.rank_of_offered hr, hrank]
  refine ⟨h.nonneg_of_offered hr, ?_⟩
  omega

/-- **A control link leads upwards** after a pass that was not stopped. -/
theorem rank_lt_of_link (h : g.Scheduled starts bound first second control classes)
    (hrun : first.runaway? = none) {a b : NodeId} (hab : b ∈ g.nextNodes a)
    (hflow : g.isData a = false) (ha : second.graph.rank a ≠ unscheduled) :
    0 ≤ second.graph.rank a ∧ second.graph.rank a < second.graph.rank b := by
  have hcomp : a ∈ first.computed := by
    refine (h.computed_or_offered ha).resolve_right ?_
    rintro ⟨r, hr⟩
    obtain ⟨v, -, ho⟩ := h.stage.offered.offered a r hr
    rw [ho.isData] at hflow
    cases hflow
  obtain ⟨hb, hlt⟩ := h.ranked.lt_of_link hrun hcomp hab
  have hnonneg := (h.ranked.nonneg_iff a).2 hcomp
  have hshift := shift_mono (g := g) classes (Int.le_of_lt hlt)
  rw [h.rank_of_computed hcomp, h.rank_of_computed hb, placedRank, placedRank]
  omega

/-- Without a cyclic node, chains into the reached nodes are no longer than the graph has nodes. -/
theorem shallow_of_cyclic_nil (h : g.Scheduled starts bound first second control classes)
    (hcyc : second.cyclic = []) : g.Shallow first.computed := by
  intro s hs p hw
  have hflag := (longestChain_spec g s).2.2 ⟨p, hw⟩
  have hmem := (h.stage.mem_cyclic s).2 ⟨h.mem_members.2 hs, hflag⟩
  rw [hcyc] at hmem
  cases hmem

end Scheduled

end Graph

/-! ## 3. The law -/

/-- A link between ranked nodes breaks the order if it is a control link that leads downwards, or a
data link out of a data node that does not lead upwards. -/
theorem Graph.violates_iff {g : Graph} {c : Connection} :
    g.violates c = true ↔
      g.rank c.fromNode ≠ unscheduled ∧ g.rank c.toNode ≠ unscheduled ∧
      (c.exec = true ∧ g.rank c.toNode < g.rank c.fromNode ∨
        c.exec = false ∧ g.isData c.fromNode = true ∧ g.rank c.toNode ≤ g.rank c.fromNode) := by
  simp only [violates, Bool.and_eq_true, decide_eq_true_eq, and_assoc]
  cases c.exec <;> simp

/-- **What is listed is what breaks the order**: the ends of every link that does, and nothing
else. -/
theorem Graph.mem_orderingViolations_iff {g : Graph} {a b : NodeId} :
    (a, b) ∈ g.orderingViolations ↔ ∃ c ∈ g.links, c.fromNode = a ∧ c.toNode = b ∧
      g.rank a ≠ unscheduled ∧ g.rank b ≠ unscheduled ∧
      (c.exec = true ∧ g.rank b < g.rank a ∨
        c.exec = false ∧ g.isData a = true ∧ g.rank b ≤ g.rank a) := by
  simp only [orderingViolations, List.mem_map, List.mem_filter, violates_iff, Prod.mk.injEq]
  constructor
  · rintro ⟨c, ⟨hc, hbad⟩, rfl, rfl⟩
    exact ⟨c, hc, rfl, rfl, hbad⟩
  · rintro ⟨c, hc, rfl, rfl, hbad⟩
    exact ⟨c, ⟨hc, hbad⟩, rfl, rfl⟩

theorem Graph.ne_unscheduled_of_ranked {g : Graph} {id : NodeId} (h : g.Ranked id) :
    g.rank id ≠ unscheduled := Int.ne_of_gt h

/-- **The compute orders of a clean scheduling pass respect every link.**  No link violates the
order; a control link out of a ranked node leads to a ranked node of greater rank; and a data node
that feeds a ranked node is ranked, not below zero, and stands before it. -/
theorem clean_schedule_is_ordered (g : Graph) (built : g.Built) (apart : g.FlowApart) (max : Nat)
    (kinds : List EntryKind) (clean : (g.schedule max kinds).2.diagnostics = []) :
    let g' := (g.schedule max kinds).1
    g'.orderingViolations = [] ∧
    (∀ c ∈ g'.links, c.exec = true → g'.Ranked c.fromNode →
      g'.Ranked c.toNode ∧ g'.rank c.fromNode < g'.rank c.toNode) ∧
    (∀ c ∈ g'.links, c.exec = false → g'.isData c.fromNode = true → g'.Ranked c.toNode →
      g'.Ranked c.fromNode ∧ 0 ≤ g'.rank c.fromNode ∧ g'.rank c.fromNode < g'.rank c.toNode) := by
  obtain ⟨first, second, control, classes, hs, hgraph, hclean⟩ :=
    Graph.schedule_spec built.intact apart max kinds
  obtain ⟨hrun, hcyc⟩ := hclean clean
  have hshallow := hs.shallow_of_cyclic_nil hcyc
  have hlinks : second.graph.links = g.links := Graph.links_eq_of_bare hs.bare_graph
  have hdata : second.graph.isData = g.isData := Graph.isData_eq_of_bare hs.bare_graph
  rw [hgraph]
  intro g'
  have hcontrol : ∀ c ∈ g'.links, c.exec = true → g'.rank c.fromNode ≠ unscheduled →
      0 ≤ g'.rank c.fromNode ∧ g'.rank c.fromNode < g'.rank c.toNode := by
    intro c hc hexec hrank
    have hmem : c ∈ g.links := hlinks ▸ hc
    have hnext : c.toNode ∈ g.nextNodes c.fromNode :=
      Graph.mem_nextNodes_iff.2 ⟨c, hmem, hexec, rfl, rfl⟩
    exact hs.rank_lt_of_link hrun hnext (apart c hmem hexec).1 hrank
  have hfeeds : ∀ c ∈ g'.links, c.exec = false → g'.isData c.fromNode = true →
      g'.rank c.toNode ≠ unscheduled →
      0 ≤ g'.rank c.fromNode ∧ g'.rank c.fromNode < g'.rank c.toNode := by
    intro c hc hexec hisData hrank
    have hprod : c.fromNode ∈ g.producers c.toNode :=
      Graph.mem_producers_iff.2 ⟨hdata ▸ hisData, c, hlinks ▸ hc, hexec, rfl, rfl⟩
    exact hs.rank_lt_of_producer hshallow hprod hrank
  refine ⟨?_, ?_, ?_⟩
  · refine List.eq_nil_iff_forall_not_mem.2 fun ⟨a, b⟩ hpair => ?_
    obtain ⟨c, hc, rfl, rfl, hsource, htarget, ⟨hexec, hlt⟩ | ⟨hexec, hisData, hle⟩⟩ :=
      Graph.mem_orderingViolations_iff.1 hpair
    · have hup := (hcontrol c hc hexec hsource).2
      omega
    · have hup := (hfeeds c hc hexec hisData htarget).2
      omega
  · intro c hc hexec hrank
    obtain ⟨hnonneg, hlt⟩ := hcontrol c hc hexec (Graph.ne_unscheduled_of_ranked hrank)
    exact ⟨Int.lt_trans hrank hlt, hlt⟩
  · intro c hc hexec hisData hrank
    obtain ⟨hnonneg, hlt⟩ := hfeeds c hc hexec hisData (Graph.ne_unscheduled_of_ranked hrank)
    exact ⟨Int.lt_of_lt_of_le (by decide) hnonneg, hnonneg, hlt⟩

/-- The example is scheduled without diagnoses: the constant feeds an adder, the adder a template,
the template what is printed, and each of them stands before its consumer. -/
theorem example_schedule_is_ordered :
    exampleGraph.FlowApart ∧ (exampleGraph.schedule 100 [.update]).2.diagnostics = [] ∧
      (exampleGraph.schedule 100 [.update]).1.orderingViolations = [] ∧
      (List.range 6).map (fun k => (exampleGraph.schedule 100 [.update]).1.rank (exampleId k)) =
        [0, 1, 2, 3, 4, 5] :=
  have apart : exampleGraph.FlowApart := by decide +kernel
  have clean : (exampleGraph.schedule 100 [.update]).2.diagnostics = [] := by decide +kernel
  ⟨apart, clean, (clean_schedule_is_ordered exampleGraph exampleGraph_built apart 100 [.update]
    clean).1, by decide +kernel⟩

end FlowScript
