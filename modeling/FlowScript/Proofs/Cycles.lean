/-
# Which cycles scheduling reports

Neither pass looks for a cycle.  The control pass is stopped if a frontier is left after number
`max`, and a node is called cyclic if its producers go on for more generations than the graph has
nodes.  Both counts are exact where they have room for every node:

* a frontier is left after as many links as there are nodes exactly if control flow from an entry
  goes around a cycle (`runaway_iff_cycle`);
* a generation is left after as many links exactly if a cycle of producers leads into the node
  (`longestChain_cyclic_iff`).

The second count is a matter of links alone, and it does not see what the classes do to the ranks.
So the law needs no more of a graph than that it was built: control links may touch data nodes.
-/
import FlowScript.Proofs.Chains
import FlowScript.Proofs.Rearranged

namespace FlowScript

open Relation (ReflTransGen TransGen)

namespace Graph

variable {g : Graph} {kinds : List EntryKind} {max : Nat}

/-! ## 1. What control flow reaches -/

/-- An entry node of one of some kinds. -/
def IsEntry (g : Graph) (kinds : List EntryKind) (v : NodeId) : Prop :=
  ∃ n kind, g.node? v = some n ∧ n.category = .entry kind ∧ kind ∈ kinds

/-- At most `max` control links lead from an entry to the node. -/
def Reached (g : Graph) (kinds : List EntryKind) (max : Nat) (v : NodeId) : Prop :=
  ∃ e k, g.IsEntry kinds e ∧ k ≤ max ∧ Steps g.Flows k e v

theorem controlWalk_entries_iff (hg : g.Intact) {k : Nat} {v : NodeId} :
    g.ControlWalk (g.entryNodes kinds) k v ↔ ∃ e, g.IsEntry kinds e ∧ Steps g.Flows k e v := by
  rw [controlWalk_iff]
  exact exists_congr fun e => and_congr_left fun _ => mem_entryNodes_iff hg

/-- **The control pass ranks what control flow reaches.** -/
theorem mem_firstPass_iff (hg : g.Intact) {v : NodeId} :
    v ∈ (g.firstPass max kinds).computed ↔ g.Reached kinds max v := by
  obtain ⟨control, hr⟩ := firstPass_ranked hg max kinds
  rw [hr.mem_computed]
  constructor
  · rintro ⟨k, hk, hw⟩
    obtain ⟨e, he, hsteps⟩ := (controlWalk_entries_iff hg).1 hw
    exact ⟨e, k, he, Nat.le_of_lt_succ hk, hsteps⟩
  · rintro ⟨e, k, he, hk, hsteps⟩
    exact ⟨k, Nat.lt_succ_of_le hk, (controlWalk_entries_iff hg).2 ⟨e, he, hsteps⟩⟩

theorem Reached.mem_keys (hg : g.Intact) {v : NodeId} (h : g.Reached kinds max v) :
    v ∈ g.nodes.keys := by
  obtain ⟨e, k, he, -, hsteps⟩ := h
  have hw : g.ControlWalk (g.entryNodes kinds) k v := (controlWalk_entries_iff hg).2 ⟨e, he, hsteps⟩
  exact (OrderedMap.get?_isSome_iff _ _).1
    (hw.exists_node? hg fun _ hv => isSome_of_mem_entryNodes hg hv)

/-! ## 2. Cycles of control flow -/

/-- **The control pass is stopped by cycles and by nothing else**, if its bound leaves room for
every node once. -/
theorem runaway_iff_cycle (hg : g.Intact) (hsize : g.nodes.size ≤ max + 1) {m : Nat} :
    (g.firstPass max kinds).runaway? = some m ↔
      m = max + 1 ∧ ∃ e v, g.IsEntry kinds e ∧ ReflTransGen g.Flows e v ∧ TransGen g.Flows v v := by
  obtain ⟨control, hr⟩ := firstPass_ranked hg max kinds
  constructor
  · intro hm
    refine ⟨hr.runaway_some m hm, ?_⟩
    obtain ⟨v, hv⟩ : ∃ v, g.ControlWalk (g.entryNodes kinds) (max + 1) v := by
      by_contra hnone
      have hfinished := hr.runaway_none.2 (not_exists.1 hnone)
      rw [hm] at hfinished
      cases hfinished
    -- the walk to `v` has as many links as the graph has nodes
    obtain ⟨e, he, hsteps⟩ := (controlWalk_entries_iff hg).1 hv
    have hmem : v ∈ g.nodes.keys := Reached.mem_keys hg ⟨e, max + 1, he, Nat.le_refl _, hsteps⟩
    obtain ⟨x, hex, hx, -⟩ := hsteps.exists_cycle (fun _ _ h => h.mem_keys hg) hmem
      (by rw [length_keys]; exact hsize)
    exact ⟨e, x, he, hex, hx⟩
  · rintro ⟨rfl, e, v, he, hev, hv⟩
    obtain ⟨k, hk, hsteps⟩ := exists_steps_of_cycle hev hv .refl (max + 1)
    obtain ⟨u, hu⟩ := ((controlWalk_entries_iff hg).2 ⟨e, he, hsteps⟩).exists_of_le hk
    cases hstop : (g.firstPass max kinds).runaway? with
    | none => exact absurd hu (hr.runaway_none.1 hstop u)
    | some m => rw [hr.runaway_some m hstop]

/-! ## 3. Cycles of producers -/

/-- **A node is called cyclic exactly if a cycle of producers leads into it.** -/
theorem longestChain_cyclic_iff {s : NodeId} (hs : s ∈ g.nodes.keys) :
    (g.longestChain s).2 = true ↔ ∃ p, TransGen g.Supplies p p ∧ ReflTransGen g.Supplies p s := by
  rw [(longestChain_spec g s).2]
  constructor
  · rintro ⟨p, hp⟩
    obtain ⟨x, -, hx, hxs⟩ := (dataWalk_iff.1 hp).exists_cycle (fun _ _ h => h.mem_keys) hs
      (by rw [length_keys]; exact Nat.le_succ _)
    exact ⟨x, hx, hxs⟩
  · rintro ⟨p, hp, hps⟩
    obtain ⟨k, hk, hsteps⟩ := exists_steps_of_cycle .refl hp hps (g.nodes.size + 1)
    exact (dataWalk_iff.2 hsteps).exists_of_le hk

/-- What the data pass reports does not depend on the ranks it writes. -/
theorem cyclic_foldl_placeClass :
    ∀ (classes : List (Int × List NodeId)) (s : DataPass), s.graph.bare = g.bare →
      (classes.foldl placeClass s).cyclic =
        s.cyclic ++ (members classes).filter fun v => (g.longestChain v).2
  | [], s, _ => (List.append_nil s.cyclic).symm
  | c :: classes, s, hs => by
    have hplaced : (placeClass s c).graph.bare = g.bare :=
      (view_placeClass bare_setRank s c).trans hs
    rw [List.foldl_cons, cyclic_foldl_placeClass classes _ hplaced]
    simp only [placeClass, longestChain_eq_of_bare hs, members, List.flatMap_cons,
      List.filter_append, List.append_assoc]

theorem nodup_members_rankClasses (g : Graph) {computed : List NodeId} (h : computed.Nodup) :
    (members (g.rankClasses computed)).Nodup := by
  rw [rankClasses_eq, members, List.flatMap_map, List.nodup_flatMap]
  refine ⟨fun r _ => h.filter _, ?_⟩
  refine (pairwise_lt_sorted _).imp fun {r r'} hlt v hv hv' => Int.ne_of_lt hlt ?_
  rw [← of_decide_eq_true (List.mem_filter.1 hv).2, of_decide_eq_true (List.mem_filter.1 hv').2]

/-- **The data pass reports every cyclic node that control flow has reached, once.** -/
theorem cyclic_secondPass (hg : g.Intact) (max : Nat) (kinds : List EntryKind) :
    (g.secondPass max kinds).cyclic.Nodup ∧
      ∀ s, s ∈ (g.secondPass max kinds).cyclic ↔
        s ∈ (g.firstPass max kinds).computed ∧ (g.longestChain s).2 = true := by
  obtain ⟨control, hr⟩ := firstPass_ranked hg max kinds
  have hbare : (g.firstPass max kinds).graph.bare = g.bare := by rw [hr.graph_eq, bare_withRanks]
  have hnode : ∀ v ∈ (g.firstPass max kinds).computed, (g.node? v).isSome := fun v hv =>
    (OrderedMap.get?_isSome_iff _ _).2 (((mem_firstPass_iff hg).1 hv).mem_keys hg)
  have hclasses : Classes control _ ((g.withRanks control).rankClasses _) := rankClasses_spec hnode
  rw [← hr.graph_eq] at hclasses
  rw [secondPass, dataPass, cyclic_foldl_placeClass _ _ hbare, List.nil_append]
  refine ⟨(nodup_members_rankClasses _ hr.nodup_computed).filter _, fun s => ?_⟩
  rw [List.mem_filter, hclasses.mem_members]

end Graph

/-! ## 4. The law -/

/-- **Scheduling reports the cycles there are.**  No diagnosis is made twice.  If every node has
room below the bound on frontiers, the runaway of control flow is reported, after `max + 1`
frontiers, exactly if a cycle of control links can be reached from an entry; and whatever the bound,
a cycle of producers is reported for a node exactly if control flow reaches the node, over at most
`max` links, and the cycle leads into it. -/
theorem cycles_are_diagnosed (g : Graph) (built : g.Built) (max : Nat) (kinds : List EntryKind) :
    let found := (g.schedule max kinds).2.diagnostics
    found.Nodup ∧
    (g.nodes.size ≤ max + 1 → ∀ name frontiers, .runawayControlFlow name frontiers ∈ found ↔
      name = g.name ∧ frontiers = max + 1 ∧
        ∃ e v, g.IsEntry kinds e ∧ ReflTransGen g.Flows e v ∧ TransGen g.Flows v v) ∧
    (∀ name s, .dataCycle name s ∈ found ↔
      name = g.name ∧ g.Reached kinds max s ∧
        ∃ p, TransGen g.Supplies p p ∧ ReflTransGen g.Supplies p s) := by
  have hg := built.intact
  obtain ⟨hnodup, hcyclic⟩ := Graph.cyclic_secondPass hg max kinds
  intro found
  have hfound : found =
      (g.firstPass max kinds).runaway?.toList.map (Diagnostic.runawayControlFlow g.name ·) ++
        (g.secondPass max kinds).cyclic.map (Diagnostic.dataCycle g.name ·) := by
    simp only [found, Graph.schedule_eq]
  refine ⟨?_, fun hsize name frontiers => ?_, fun name s => ?_⟩
  · rw [hfound]
    refine List.Nodup.append ?_ (hnodup.map fun a b h => (Diagnostic.dataCycle.inj h).2) ?_
    · cases (g.firstPass max kinds).runaway? with
      | none => exact List.nodup_nil
      | some m => exact List.nodup_singleton _
    · intro d hd hd'
      obtain ⟨m, -, rfl⟩ := List.mem_map.1 hd
      obtain ⟨s, -, hs⟩ := List.mem_map.1 hd'
      cases hs
  · rw [hfound, ← Graph.runaway_iff_cycle hg hsize]
    simp only [List.mem_append, List.mem_map, Option.mem_toList, reduceCtorEq, and_false,
      exists_false, or_false, Diagnostic.runawayControlFlow.injEq]
    constructor
    · rintro ⟨m, hm, hname, rfl⟩
      exact ⟨hname.symm, hm⟩
    · rintro ⟨rfl, hm⟩
      exact ⟨frontiers, hm, rfl, rfl⟩
  · rw [hfound]
    simp only [List.mem_append, List.mem_map, reduceCtorEq, and_false, exists_false, false_or,
      Diagnostic.dataCycle.injEq, hcyclic, Graph.mem_firstPass_iff hg]
    constructor
    · rintro ⟨_, ⟨hreached, hs⟩, rfl, rfl⟩
      exact ⟨rfl, hreached, (Graph.longestChain_cyclic_iff (hreached.mem_keys hg)).1 hs⟩
    · rintro ⟨rfl, hreached, hs⟩
      exact ⟨s, ⟨hreached, (Graph.longestChain_cyclic_iff (hreached.mem_keys hg)).2 hs⟩, rfl, rfl⟩

/-- Six nodes and six frontiers: the bound just leaves room for every node, and both cycles of the
loop are found in the report. -/
theorem loop_cycles_are_diagnosed :
    loopGraph.nodes.size = 6 ∧
      (loopGraph.schedule 5 [.update]).2.diagnostics =
        [.runawayControlFlow "loop" 6, .dataCycle "loop" (exampleId 1)] ∧
      (∃ e v, loopGraph.IsEntry [.update] e ∧ ReflTransGen loopGraph.Flows e v ∧
        TransGen loopGraph.Flows v v) ∧
      loopGraph.Reached [.update] 5 (exampleId 1) ∧
      ∃ p, TransGen loopGraph.Supplies p p ∧ ReflTransGen loopGraph.Supplies p (exampleId 1) := by
  have size : loopGraph.nodes.size = 6 := by decide +kernel
  have found : (loopGraph.schedule 5 [.update]).2.diagnostics =
      [.runawayControlFlow "loop" 6, .dataCycle "loop" (exampleId 1)] := by decide +kernel
  obtain ⟨-, hcontrol, hdata⟩ := cycles_are_diagnosed loopGraph loopGraph_built 5 [.update]
  have runaway :=
    (hcontrol (Nat.le_of_eq size) "loop" 6).1 (by rw [found]; exact List.mem_cons_self)
  have cyclic := (hdata "loop" (exampleId 1)).1
    (by rw [found]; exact List.mem_cons_of_mem _ List.mem_cons_self)
  exact ⟨size, found, runaway.2.2, cyclic.2⟩

end FlowScript
