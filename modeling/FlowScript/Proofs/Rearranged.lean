/-
# Ranks do not depend on the order of insertion

Both scheduling passes go through nodes and links in the order in which a graph lists them.  The
ranks do not show that order.  Two graphs are rearrangements of each other if they list the same
nodes and the same links, in whatever order and whatever slots and ranks the nodes have
(`Graph.Rearranged`); a scheduling pass gives both of them the same ranks and makes the same report
(`ranks_of_rearranged`).

The passes were read as statements about walks (`Scheduled`): a control rank is the length of a
longest walk, and the rank of a producer is the lowest of its offers.  Walks depend on which links
there are, so what is left to show is that the statements determine their answers:

* a sorted list is determined by its elements (`Rearranged.entryNodes_eq`);
* a rank moves up by a sum over the control ranks that occur (`Classes.shift_eq`);
* a lowest offer is determined by the offers (`Offered.get?_eq_some_iff`).
-/
import FlowScript.Proofs.Ordering
import Mathlib.Algebra.BigOperators.Group.Finset.Basic

namespace FlowScript

/-! ## 1. Maps that answer alike -/

namespace OrderedMap

universe u v

variable {κ : Type u} {ν : Type v}

theorem nodup_entries (m : OrderedMap κ ν) : m.entries.Nodup := m.nodup.of_map

theorem perm_values {m m' : OrderedMap κ ν} (h : m'.entries.Perm m.entries) :
    m'.values.Perm m.values := h.map Prod.snd

variable [DecidableEq κ]

/-- Maps answer alike exactly if they list the same entries. -/
theorem perm_entries_iff {m m' : OrderedMap κ ν} :
    m'.entries.Perm m.entries ↔ ∀ k, m'.get? k = m.get? k := by
  rw [List.perm_ext_iff_of_nodup m'.nodup_entries m.nodup_entries]
  constructor
  · intro h k
    refine Option.ext fun x => ?_
    rw [get?_eq_some_iff, get?_eq_some_iff, h]
  · rintro h ⟨k, x⟩
    rw [← get?_eq_some_iff, ← get?_eq_some_iff, h]

instance [DecidableEq ν] : DecidableEq (OrderedMap κ ν) := fun _ _ =>
  decidable_of_iff _ OrderedMap.ext_iff.symm

end OrderedMap

deriving instance DecidableEq for Node

namespace Graph

/-- The second graph lists the nodes and links of the first, in any order, with
any slots and ranks. -/
structure Rearranged (g g' : Graph) : Prop where
  name : g'.name = g.name
  nodes : g'.bare.nodes.entries.Perm g.bare.nodes.entries
  links : g'.connections.entries.Perm g.connections.entries

namespace Rearranged

variable {g g' : Graph}

theorem symm (h : g.Rearranged g') : g'.Rearranged g := ⟨h.name.symm, h.nodes.symm, h.links.symm⟩

theorem node?_eq (h : g.Rearranged g') (id : NodeId) : g'.bare.node? id = g.bare.node? id :=
  OrderedMap.perm_entries_iff.1 h.nodes id

theorem isSome_node? (h : g.Rearranged g') (id : NodeId) :
    (g'.node? id).isSome = (g.node? id).isSome := by
  have hid := congrArg Option.isSome (h.node?_eq id)
  simpa using hid

theorem mem_links (h : g.Rearranged g') (c : Connection) : c ∈ g'.links ↔ c ∈ g.links :=
  (OrderedMap.perm_values h.links).mem_iff

theorem isData_eq (h : g.Rearranged g') : g'.isData = g.isData := by
  funext id
  rw [← isData_bare, ← isData_bare (g := g), isData, isData, h.node?_eq]

theorem size_eq (h : g.Rearranged g') : g'.nodes.size = g.nodes.size := by
  rw [← size_bare, ← size_bare (g := g)]
  exact h.nodes.length_eq

/-! ## 2. Neighbours and walks -/

theorem mem_nextNodes (h : g.Rearranged g') (a b : NodeId) :
    b ∈ g'.nextNodes a ↔ b ∈ g.nextNodes a := by
  simp only [mem_nextNodes_iff, h.mem_links]

theorem mem_producers (h : g.Rearranged g') (p s : NodeId) :
    p ∈ g'.producers s ↔ p ∈ g.producers s := by
  simp only [mem_producers_iff, h.mem_links, h.isData_eq]

theorem controlWalk (h : g.Rearranged g') (starts : List NodeId) :
    ∀ (k : Nat) (v : NodeId), g'.ControlWalk starts k v ↔ g.ControlWalk starts k v
  | 0, v => by rw [controlWalk_zero_iff, controlWalk_zero_iff]
  | k + 1, v => by
    simp only [controlWalk_succ_iff, h.mem_nextNodes, controlWalk h starts k]

theorem dataWalk (h : g.Rearranged g') :
    ∀ (k : Nat) (p s : NodeId), g'.DataWalk k p s ↔ g.DataWalk k p s
  | 0, p, s => ⟨fun hw => by cases hw; exact .refl p, fun hw => by cases hw; exact .refl p⟩
  | k + 1, p, s => by
    simp only [dataWalk_succ_iff, h.mem_producers, dataWalk h k]

theorem flowApart (h : g.Rearranged g') (hflow : g.FlowApart) : g'.FlowApart := by
  intro c hc hexec
  rw [h.isData_eq]
  exact hflow c ((h.mem_links c).1 hc) hexec

end Rearranged

/-! ## 3. Entries -/

theorem entryLe_iff (a b : Node) :
    entryLe a b = true ↔
      a.y.totalKey < b.y.totalKey ∨ a.y.totalKey = b.y.totalKey ∧
        (a.x.totalKey < b.x.totalKey ∨ a.x.totalKey = b.x.totalKey ∧
          a.id.uuid.toNat ≤ b.id.uuid.toNat) := by
  unfold entryLe Uuid.le
  split
  · rw [decide_eq_true_iff]; omega
  · split
    · rw [decide_eq_true_iff]; omega
    · rw [decide_eq_true_iff]; omega

theorem entryLe_trans (a b c : Node) (hab : entryLe a b = true) (hbc : entryLe b c = true) :
    entryLe a c = true := by
  rw [entryLe_iff] at hab hbc ⊢
  omega

theorem entryLe_total (a b : Node) : (entryLe a b || entryLe b a) = true := by
  rw [Bool.or_eq_true, entryLe_iff, entryLe_iff]
  omega

/-- Only nodes of one name stand in the same place. -/
theorem entryLe_antisymm {a b : Node} (hab : entryLe a b = true) (hba : entryLe b a = true) :
    a.id = b.id := by
  rw [entryLe_iff] at hab hba
  have huuid : a.id.uuid.toNat = b.id.uuid.toNat := by omega
  rw [NodeId.mk.injEq, Uuid.mk.injEq]
  exact BitVec.eq_of_toNat_eq huuid

/-- **The entries are listed alike**: sorting leaves no trace of the order of insertion, because no
two nodes of a graph stand in the same place. -/
theorem Rearranged.entryNodes_eq {g g' : Graph} (h : g.Rearranged g') (hg : g.Intact)
    {kinds kinds' : List EntryKind} (hkinds : ∀ kind, kind ∈ kinds' ↔ kind ∈ kinds) :
    g'.entryNodes kinds' = g.entryNodes kinds := by
  rw [← entryNodes_bare, ← entryNodes_bare (g := g)]
  have hwanted : (fun n : Node => n.category.entryKind?.any (kinds'.contains ·)) =
      fun n => n.category.entryKind?.any (kinds.contains ·) := by
    simp only [List.contains_eq_mem, hkinds]
  have hperm := (OrderedMap.perm_values h.nodes).filter
    fun n : Node => n.category.entryKind?.any (kinds.contains ·)
  simp only [entryNodes, hwanted]
  refine congrArg (List.map Node.id) (List.Perm.eq_of_pairwise ?_
    (sortBy_pairwise entryLe_trans entryLe_total _) (sortBy_pairwise entryLe_trans entryLe_total _)
    ((sortBy_perm entryLe _).trans (hperm.trans (sortBy_perm entryLe _).symm)))
  intro a b ha hb hab hba
  rw [mem_sortBy, hperm.mem_iff] at ha
  rw [mem_sortBy] at hb
  -- nodes stand under their own names
  have hnode : ∀ n ∈ g.bare.nodes.values, g.bare.node? n.id = some n := by
    intro n hn
    obtain ⟨k, hk⟩ := (OrderedMap.mem_values_iff _ n).1 hn
    obtain ⟨m, hm, rfl⟩ := Option.map_eq_some_iff.1 ((node?_bare g k).symm.trans hk)
    have hid : m.bare.id = k := hg.nodeKey k m hm
    rw [hid]
    exact hk
  have hsame := hnode a (List.mem_of_mem_filter ha)
  rw [entryLe_antisymm hab hba, hnode b (List.mem_of_mem_filter hb)] at hsame
  exact (Option.some.inj hsame).symm

/-! ## 4. Depths and places -/

/-- How many generations there are depends on which producers there are. -/
theorem Rearranged.generations_eq {g g' : Graph} (h : g.Rearranged g') :
    ∀ (fuel : Nat) {ids ids' : List NodeId}, (∀ v, v ∈ ids' ↔ v ∈ ids) →
      g'.generations fuel ids' = g.generations fuel ids
  | fuel, [], [], _ => by cases fuel <;> rfl
  | _, [], v :: _, hids => absurd ((hids v).1 List.mem_cons_self) List.not_mem_nil
  | _, v :: _, [], hids => absurd ((hids v).2 List.mem_cons_self) List.not_mem_nil
  | 0, _ :: _, _ :: _, _ => rfl
  | fuel + 1, a :: ids, b :: ids', hids => by
    have hdeeper : ∀ v, v ∈ g'.producersOf (b :: ids') ↔ v ∈ g.producersOf (a :: ids) := by
      intro v
      simp only [producersOf, List.mem_eraseDups, List.mem_flatMap, h.mem_producers, hids]
    simp only [generations, generations_eq h fuel hdeeper]

theorem Rearranged.longestChain_eq {g g' : Graph} (h : g.Rearranged g') :
    g'.longestChain = g.longestChain := by
  funext id
  rw [longestChain, longestChain, h.size_eq, h.generations_eq _ (h.mem_producers · id)]

theorem foldl_max_le {d : Nat} :
    ∀ (l : List Nat) {b : Nat}, b ≤ d → (∀ a ∈ l, a ≤ d) → l.foldl max b ≤ d
  | [], _, hb, _ => hb
  | x :: l, _, hb, hl =>
    foldl_max_le l (Nat.max_le.2 ⟨hb, hl x List.mem_cons_self⟩) fun a ha =>
      hl a (List.mem_cons_of_mem x ha)

theorem classDepth_le {g : Graph} {ids : List NodeId} {d : Nat}
    (h : ∀ v ∈ ids, (g.longestChain v).1 ≤ d) : g.classDepth ids ≤ d := by
  refine foldl_max_le _ (Nat.zero_le d) fun a ha => ?_
  rw [List.map_map] at ha
  obtain ⟨v, hv, rfl⟩ := List.mem_map.1 ha
  exact h v hv

/-- The depth of a class depends on who its members are. -/
theorem classDepth_congr {g g' : Graph} (hchain : g'.longestChain = g.longestChain)
    {ids ids' : List NodeId} (hids : ∀ v, v ∈ ids' ↔ v ∈ ids) :
    g'.classDepth ids' = g.classDepth ids := by
  refine Nat.le_antisymm (classDepth_le fun v hv => ?_) (classDepth_le fun v hv => ?_)
  · rw [hchain]
    exact le_classDepth ((hids v).1 hv)
  · rw [← hchain]
    exact le_classDepth ((hids v).2 hv)

/-- The depth of the nodes of one control rank. -/
def depthAt (g : Graph) (control : NodeId → Int) (computed : List NodeId) (r : Int) : Nat :=
  g.classDepth (computed.filter fun v => control v = r)

/-- **How far a rank moves up**: by the depths at all control ranks up to it that occur. -/
theorem Classes.shift_eq {g : Graph} {control : NodeId → Int} {computed : List NodeId}
    {classes : List (Int × List NodeId)} (hc : Classes control computed classes) (r : Int) :
    g.shift classes r =
      ∑ ρ ∈ (computed.map control).toFinset with ρ ≤ r, g.depthAt control computed ρ := by
  have hdepth : ∀ c ∈ classes, g.classDepth c.2 = g.depthAt control computed c.1 := by
    intro c hcm
    refine classDepth_congr rfl fun v => ?_
    rw [hc.mem c hcm, List.mem_filter, decide_eq_true_iff]
  have hnodup : (classes.map Prod.fst).Nodup :=
    List.pairwise_map.2 (hc.ascending.imp Int.ne_of_lt)
  have hlist : g.shift classes r =
      (((classes.map Prod.fst).filter (· ≤ r)).map (g.depthAt control computed)).sum := by
    rw [List.filter_map, List.map_map, shift]
    refine congrArg List.sum (List.map_congr_left fun c hcm => ?_)
    exact hdepth c (List.mem_of_mem_filter hcm)
  rw [hlist, ← List.sum_toFinset _ (hnodup.filter _), List.toFinset_filter]
  symm
  refine Finset.sum_subset (fun ρ hρ => ?_) fun ρ hρ hnot => ?_
  · simp only [Finset.mem_filter, List.mem_toFinset, List.mem_map, decide_eq_true_iff] at hρ ⊢
    obtain ⟨⟨v, hv, rfl⟩, hle⟩ := hρ
    obtain ⟨c, hcm, hvc⟩ := hc.exists_class v hv
    exact ⟨⟨c, hcm, ((hc.mem c hcm v).1 hvc).2.symm⟩, hle⟩
  · -- a class without members has no depth
    simp only [Finset.mem_filter, List.mem_toFinset, List.mem_map, decide_eq_true_iff] at hρ hnot
    have hempty : computed.filter (fun v => control v = ρ) = [] :=
      List.filter_eq_nil_iff.2 fun v hv hr => hnot ⟨⟨v, hv, of_decide_eq_true hr⟩, hρ.2⟩
    rw [depthAt, hempty]
    rfl

/-! ## 5. What the passes leave behind is determined -/

/-- The longest walk is one. -/
theorem LongestWalk.unique {g : Graph} {starts : List NodeId} {bound : Nat} {v : NodeId}
    {r r' : Int} (h : g.LongestWalk starts bound v r)
    (h' : g.LongestWalk starts bound v r') : r' = r := by
  rcases h with ⟨k, rfl, hk, hw, hmax⟩ | ⟨rfl, hnone⟩ <;>
    rcases h' with ⟨k', rfl, hk', hw', hmax'⟩ | ⟨rfl, hnone'⟩
  · rw [Nat.le_antisymm (hmax k' hk' hw') (hmax' k hk hw)]
  · exact absurd hw (hnone' k hk)
  · exact absurd hw' (hnone k' hk')
  · rfl

/-- A producer has the lowest of its offers. -/
theorem Offered.get?_eq_some_iff {g : Graph} {base : NodeId → Int} {offers : NodeId → Int → Prop}
    {s : Graph × OrderedMap NodeId Int} (h : g.Offered base offers s) (p : NodeId) (r : Int) :
    s.2.get? p = some r ↔ offers p r ∧ ∀ r', offers p r' → r ≤ r' := by
  constructor
  · intro hr
    refine ⟨h.offered p r hr, fun r' hr' => ?_⟩
    obtain ⟨low, hlow, hle⟩ := h.least p r' hr'
    rw [hr] at hlow
    exact Option.some.inj hlow ▸ hle
  · rintro ⟨hr, hmin⟩
    obtain ⟨low, hlow, hle⟩ := h.least p r hr
    rw [hlow, Int.le_antisymm hle (hmin low (h.offered p low hlow))]

/-! ## 6. Both passes on two arrangements -/

namespace Rearranged

variable {g g' : Graph} {starts : List NodeId} {bound : Nat} {first first' : ControlPass}
  {second second' : DataPass} {control control' : NodeId → Int}
  {classes classes' : List (Int × List NodeId)}

theorem control_eq (h : g.Rearranged g')
    (hs : g.Scheduled starts bound first second control classes)
    (hs' : g'.Scheduled starts bound first' second' control' classes') : control' = control := by
  funext v
  have hv := hs'.ranked.ranks v
  simp only [LongestWalk, h.controlWalk] at hv
  exact (hs.ranked.ranks v).unique hv

theorem mem_computed (h : g.Rearranged g')
    (hs : g.Scheduled starts bound first second control classes)
    (hs' : g'.Scheduled starts bound first' second' control' classes') (v : NodeId) :
    v ∈ first'.computed ↔ v ∈ first.computed := by
  rw [hs'.ranked.mem_computed, hs.ranked.mem_computed]
  simp only [h.controlWalk]

theorem runaway_eq (h : g.Rearranged g')
    (hs : g.Scheduled starts bound first second control classes)
    (hs' : g'.Scheduled starts bound first' second' control' classes') :
    first'.runaway? = first.runaway? := by
  have hnone : first'.runaway? = none ↔ first.runaway? = none := by
    rw [hs'.ranked.runaway_none, hs.ranked.runaway_none]
    simp only [h.controlWalk]
  cases hrun : first.runaway? with
  | none => exact hnone.2 hrun
  | some m =>
    cases hrun' : first'.runaway? with
    | none => exact absurd (hnone.1 hrun') (by rw [hrun]; exact Option.some_ne_none m)
    | some m' => rw [hs.ranked.runaway_some m hrun, hs'.ranked.runaway_some m' hrun']

theorem placedRank_eq (h : g.Rearranged g')
    (hs : g.Scheduled starts bound first second control classes)
    (hs' : g'.Scheduled starts bound first' second' control' classes') :
    g'.placedRank classes' control' = g.placedRank classes control := by
  obtain rfl := h.control_eq hs hs'
  have hcomputed := h.mem_computed hs hs'
  have hoccur : (first'.computed.map control').toFinset =
      (first.computed.map control').toFinset := by
    ext ρ
    simp only [List.mem_toFinset, List.mem_map, hcomputed]
  have hdepth : g'.depthAt control' first'.computed = g.depthAt control' first.computed := by
    funext ρ
    refine classDepth_congr h.longestChain_eq fun v => ?_
    rw [List.mem_filter, List.mem_filter, hcomputed]
  funext v
  rw [placedRank, placedRank, hs'.isClasses.shift_eq, hs.isClasses.shift_eq, hoccur, hdepth]

theorem ranked_eq (h : g.Rearranged g')
    (hs : g.Scheduled starts bound first second control classes)
    (hs' : g'.Scheduled starts bound first' second' control' classes') (p : NodeId) :
    second'.ranked.get? p = second.ranked.get? p := by
  have hoffers : ∀ q r,
      (∃ v ∈ members classes', g'.OffersOf v (g'.placedRank classes' control' v) q r) ↔
        ∃ v ∈ members classes, g.OffersOf v (g.placedRank classes control v) q r := by
    intro q r
    simp only [hs'.mem_members, hs.mem_members, h.mem_computed hs hs', h.placedRank_eq hs hs',
      OffersOf, h.size_eq, h.dataWalk]
  refine Option.ext fun r => ?_
  exact ((hs'.stage.offered.congr hoffers).get?_eq_some_iff p r).trans
    (hs.stage.offered.get?_eq_some_iff p r).symm

/-- **Both arrangements are given the same ranks.** -/
theorem exists_ranks (h : g.Rearranged g')
    (hs : g.Scheduled starts bound first second control classes)
    (hs' : g'.Scheduled starts bound first' second' control' classes') :
    ∃ ranks, second.graph = g.withRanks ranks ∧ second'.graph = g'.withRanks ranks := by
  obtain rfl := h.control_eq hs hs'
  refine ⟨_, hs.stage.graph_eq,
    hs'.stage.graph_eq.trans (congrArg g'.withRanks (funext fun v => ?_))⟩
  simp only [h.ranked_eq hs hs', stageRank, hs'.mem_members, hs.mem_members,
    h.mem_computed hs hs', h.placedRank_eq hs hs']

theorem scheduled_eq (h : g.Rearranged g')
    (hs : g.Scheduled starts bound first second control classes)
    (hs' : g'.Scheduled starts bound first' second' control' classes') :
    first'.computed.length + second'.ranked.size = first.computed.length + second.ranked.size := by
  have hcomputed : first'.computed.Perm first.computed :=
    (List.perm_ext_iff_of_nodup hs'.ranked.nodup_computed hs.ranked.nodup_computed).2
      (h.mem_computed hs hs')
  have hranked : second'.ranked.entries.Perm second.ranked.entries :=
    OrderedMap.perm_entries_iff.2 (h.ranked_eq hs hs')
  rw [OrderedMap.size, OrderedMap.size, hcomputed.length_eq, hranked.length_eq]

theorem mem_cyclic (h : g.Rearranged g')
    (hs : g.Scheduled starts bound first second control classes)
    (hs' : g'.Scheduled starts bound first' second' control' classes') (v : NodeId) :
    v ∈ second'.cyclic ↔ v ∈ second.cyclic := by
  rw [hs'.stage.mem_cyclic, hs.stage.mem_cyclic, hs'.mem_members, hs.mem_members,
    h.mem_computed hs hs', h.longestChain_eq]

end Rearranged

end Graph

/-! ## 7. The whole pass -/

/-- **Ranks are a matter of which nodes and links there are.**  Take two graphs with the same name,
the same nodes and the same links, inserted in any orders, with any slots and ranks, and two lists
of the same kinds.  Scheduling gives every node the same rank in both and changes nothing else; it
reports the same entries in the same order, the same number of ranked nodes and the same diagnoses,
cycles included. -/
theorem ranks_of_rearranged (g g' : Graph) (built : g.Built) (built' : g'.Built)
    (same : g.Rearranged g') (apart : g.FlowApart) (max : Nat) (kinds kinds' : List EntryKind)
    (sameKinds : ∀ kind, kind ∈ kinds' ↔ kind ∈ kinds) :
    let done := g.schedule max kinds
    let done' := g'.schedule max kinds'
    (∃ ranks, done.1 = g.withRanks ranks ∧ done'.1 = g'.withRanks ranks) ∧
    (∀ id, done'.1.rank id = done.1.rank id) ∧
    done'.2.entries = done.2.entries ∧
    done'.2.scheduled = done.2.scheduled ∧
    ∀ d, d ∈ done'.2.diagnostics ↔ d ∈ done.2.diagnostics := by
  obtain ⟨first, second, control, classes, hs, heq⟩ :=
    Graph.schedule_eq_passes built.intact apart max kinds
  obtain ⟨first', second', control', classes', hs', heq'⟩ :=
    Graph.schedule_eq_passes built'.intact (same.flowApart apart) max kinds'
  have hentries := same.entryNodes_eq built.intact sameKinds
  rw [hentries] at hs'
  obtain ⟨ranks, hranks, hranks'⟩ := same.exists_ranks hs hs'
  intro done done'
  simp only [done, done', heq, heq']
  refine ⟨⟨ranks, hranks, hranks'⟩, fun id => ?_, hentries, same.scheduled_eq hs hs', fun d => ?_⟩
  · rw [hranks, hranks', Graph.rank_withRanks, Graph.rank_withRanks, same.isSome_node?]
  · simp only [List.mem_append, List.mem_map, same.runaway_eq hs hs', same.name,
      same.mem_cyclic hs hs']

/-! ### Two cycles in two arrangements -/

/-- Every tick, print and wait for ever.  The printed text comes from two
adders that feed each other. -/
def loopNodes : List Edit :=
  [ .addNode (exampleNode 0 (Library.entryType Library.onUpdate "On Update" .update "" none)),
    .addNode (exampleNode 1 Library.logType),
    .addNode (exampleNode 2 Library.waitType),
    .addNode (exampleNode 3 Library.formatType),
    .addNode (exampleNode 4 Library.addType),
    .addNode (exampleNode 5 Library.addType) ]

def loopLinks : List Edit :=
  [ exampleLink 0 0 "Exec" 1 "Exec",
    exampleLink 1 1 "Exec" 2 "Exec",
    exampleLink 2 2 "Exec" 1 "Exec",
    exampleLink 3 3 "Text" 1 "Text",
    exampleLink 4 4 "Result" 3 "Value",
    exampleLink 5 5 "Result" 4 "A",
    exampleLink 6 4 "Result" 5 "A" ]

def loopGraph : Graph := Edit.runAll (.empty "loop") (loopNodes ++ loopLinks)

/-- The other way round, and with ranks from an earlier pass. -/
def loopGraphReversed : Graph :=
  ((Edit.runAll (.empty "loop") (loopNodes.reverse ++ loopLinks.reverse)).schedule 1 [.update]).1

theorem loopGraph_built : loopGraph.Built :=
  (Graph.Built.empty "loop").runAll _ (by decide +kernel)

theorem loopGraphReversed_built : loopGraphReversed.Built :=
  .written ((Graph.Built.empty "loop").runAll (loopNodes.reverse ++ loopLinks.reverse)
    (by decide +kernel)) (Graph.bare_schedule _ _ _)

theorem loopGraph_rearranged : loopGraph.Rearranged loopGraphReversed :=
  ⟨by decide +kernel, by decide +kernel, by decide +kernel⟩

/-- The loop of control flow stops the pass and the adders are reported, in either arrangement; the
ranks are the same, and they are not those that the second one came with. -/
theorem loop_ranks_of_rearranged :
    loopGraph.Rearranged loopGraphReversed ∧ loopGraph.FlowApart ∧
      (loopGraph.schedule 4 [.update]).2.diagnostics =
        [.runawayControlFlow "loop" 5, .dataCycle "loop" (exampleId 1)] ∧
      loopGraphReversed.rank (exampleId 1) ≠ (loopGraph.schedule 4 [.update]).1.rank (exampleId 1) ∧
      ∀ id, (loopGraphReversed.schedule 4 [.update, .start, .update]).1.rank id =
        (loopGraph.schedule 4 [.start, .update]).1.rank id :=
  have apart : loopGraph.FlowApart := by decide +kernel
  ⟨loopGraph_rearranged, apart, by decide +kernel, by decide +kernel,
    (ranks_of_rearranged loopGraph loopGraphReversed loopGraph_built loopGraphReversed_built
      loopGraph_rearranged apart 4 [.start, .update] [.update, .start, .update]
      (fun kind => by cases kind <;> decide)).2.1⟩

end FlowScript
