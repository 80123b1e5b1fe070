/-
# What the control pass computes

The control pass ranks a node by the number of the last frontier that holds it.  The frontier with
number `k` holds exactly the nodes that a walk of `k` control links reaches from an entry
(`ControlWalk`), so the rank of a node is the length of its longest walk within the bound, and a
node that no walk reaches stays without a rank (`LongestWalk`).

The pass rewrites the graph while it runs.  It is read here on the graph it started from, as a
change of ranks (`Graph.withRanks`): all questions about links have the same answer throughout.

* `advance_spec` is the induction over frontiers;
* `controlPass_spec` is what the whole pass leaves behind, cycles of control flow included;
* `ControlRanked.lt_of_link` is what a pass that was not stopped means for one link.
-/
import FlowScript.Proofs.Integrity
import FlowScript.Schedule.Control

namespace FlowScript

/-! ## 1. Lists without repetition -/

theorem nodup_eraseDups {α : Type} [BEq α] [LawfulBEq α] : ∀ l : List α, l.eraseDups.Nodup
  | [] => by simp
  | a :: l => by
    rw [List.eraseDups_cons, List.nodup_cons]
    refine ⟨fun h => ?_, nodup_eraseDups _⟩
    simp [List.mem_eraseDups] at h
termination_by l => l.length
decreasing_by exact Nat.lt_succ_of_le (List.length_filter_le _ l)

/-! ## 2. Walks along control links -/

namespace Graph

/-- A walk of exactly `k` control links leads from one of the nodes `starts` to a node. -/
inductive ControlWalk (g : Graph) (starts : List NodeId) : Nat → NodeId → Prop
  | start {id : NodeId} : id ∈ starts → ControlWalk g starts 0 id
  | step {k : Nat} {a b : NodeId} :
    ControlWalk g starts k a → b ∈ g.nextNodes a → ControlWalk g starts (k + 1) b

variable {g : Graph} {starts : List NodeId}

theorem mem_nextNodes_iff {a b : NodeId} :
    b ∈ g.nextNodes a ↔ ∃ c ∈ g.links, c.exec = true ∧ c.fromNode = a ∧ c.toNode = b := by
  simp only [nextNodes, List.mem_eraseDups, List.mem_map, List.mem_filter, Bool.and_eq_true,
    decide_eq_true_eq, and_assoc]

theorem controlWalk_zero_iff {v : NodeId} : g.ControlWalk starts 0 v ↔ v ∈ starts :=
  ⟨fun h => by cases h; assumption, .start⟩

theorem controlWalk_succ_iff {k : Nat} {v : NodeId} :
    g.ControlWalk starts (k + 1) v ↔ ∃ a, g.ControlWalk starts k a ∧ v ∈ g.nextNodes a :=
  ⟨fun h => by cases h with | step ha hv => exact ⟨_, ha, hv⟩, fun ⟨_, ha, hv⟩ => .step ha hv⟩

/-- A walk passes every smaller length on its way. -/
theorem ControlWalk.exists_of_le {k : Nat} {v : NodeId} (h : g.ControlWalk starts k v) :
    ∀ {j : Nat}, j ≤ k → ∃ u, g.ControlWalk starts j u := by
  induction h with
  | start hv =>
    intro j hj
    obtain rfl : j = 0 := Nat.le_zero.1 hj
    exact ⟨_, .start hv⟩
  | step ha hb ih =>
    intro j hj
    rcases Nat.lt_or_eq_of_le hj with hlt | rfl
    · exact ih (Nat.le_of_lt_succ hlt)
    · exact ⟨_, .step ha hb⟩

/-- On an intact graph, walks from nodes of the graph stay in it. -/
theorem ControlWalk.exists_node? (hg : g.Intact) (hs : ∀ v ∈ starts, (g.node? v).isSome) {k : Nat}
    {v : NodeId} (h : g.ControlWalk starts k v) : (g.node? v).isSome := by
  cases h with
  | start hv => exact hs v hv
  | step _ hb =>
    obtain ⟨c, hc, -, -, rfl⟩ := mem_nextNodes_iff.1 hb
    obtain ⟨n, hn⟩ := (hg.exists_ends hc).2
    rw [hn]; rfl

/-- `r` is the length of the longest walk to `v` among those of fewer than `bound` links, or the
mark of an unscheduled node if there is none. -/
def LongestWalk (g : Graph) (starts : List NodeId) (bound : Nat) (v : NodeId) (r : Int) : Prop :=
  (∃ k : Nat, r = k ∧ k < bound ∧ g.ControlWalk starts k v ∧
    ∀ j, j < bound → g.ControlWalk starts j v → j ≤ k) ∨
  (r = unscheduled ∧ ∀ j, j < bound → ¬ g.ControlWalk starts j v)

theorem LongestWalk.lt {bound : Nat} {v : NodeId} {r : Int} (h : g.LongestWalk starts bound v r) :
    r < bound := by
  rcases h with ⟨k, rfl, hk, -⟩ | ⟨rfl, -⟩
  · exact Int.ofNat_lt.2 hk
  · exact Int.lt_of_lt_of_le (by decide) (Int.natCast_nonneg bound)

/-- One more frontier: its members take its number, the others keep what they have. -/
theorem LongestWalk.succ {bound : Nat} {v : NodeId} {r : Int} (h : g.LongestWalk starts bound v r) :
    (g.ControlWalk starts bound v → g.LongestWalk starts (bound + 1) v bound) ∧
    (¬ g.ControlWalk starts bound v → g.LongestWalk starts (bound + 1) v r) := by
  constructor
  · intro hv
    exact .inl ⟨bound, rfl, Nat.lt_succ_self _, hv, fun j hj _ => Nat.le_of_lt_succ hj⟩
  · intro hv
    have hne : ∀ j, j < bound + 1 → g.ControlWalk starts j v → j < bound := by
      intro j hj hw
      rcases Nat.lt_or_eq_of_le (Nat.le_of_lt_succ hj) with hlt | rfl
      · exact hlt
      · exact absurd hw hv
    rcases h with ⟨k, rfl, hk, hw, hmax⟩ | ⟨rfl, hnone⟩
    · exact .inl ⟨k, rfl, Nat.lt_succ_of_lt hk, hw, fun j hj hj' => hmax j (hne j hj hj') hj'⟩
    · exact .inr ⟨rfl, fun j hj hj' => hnone j (hne j hj hj') hj'⟩

/-- Where walks end, a larger bound changes nothing. -/
theorem LongestWalk.extend {bound bound' : Nat} {v : NodeId} {r : Int}
    (h : g.LongestWalk starts bound v r) (hle : bound ≤ bound')
    (hend : ∀ u, ¬ g.ControlWalk starts bound u) : g.LongestWalk starts bound' v r := by
  have hlt : ∀ j u, g.ControlWalk starts j u → j < bound := by
    intro j u hw
    by_contra hge
    obtain ⟨w, hw'⟩ := hw.exists_of_le (Nat.le_of_not_lt hge)
    exact hend w hw'
  rcases h with ⟨k, rfl, hk, hw, hmax⟩ | ⟨rfl, hnone⟩
  · exact .inl ⟨k, rfl, Nat.lt_of_lt_of_le hk hle, hw, fun j _ hj => hmax j (hlt j v hj) hj⟩
  · exact .inr ⟨rfl, fun j _ hj => hnone j (hlt j v hj) hj⟩

/-! ## 3. One frontier -/

theorem setRanks_withRanks (g : Graph) (r : Int) :
    ∀ (ids : List NodeId) (ranks : NodeId → Int),
      (g.withRanks ranks).setRanks ids r = g.withRanks fun v => if v ∈ ids then r else ranks v
  | [], ranks => by simp [setRanks]
  | id :: ids, ranks => by
    have ih := setRanks_withRanks g r ids fun k => if k = id then r else ranks k
    simp only [setRanks, List.foldl_cons, setRank_withRanks] at ih ⊢
    rw [ih]
    congr 1
    funext v
    by_cases hv : v = id <;> by_cases hm : v ∈ ids <;> simp [hv, hm]

theorem nextFrontier_withRanks (g : Graph) (ranks : NodeId → Int) (ids : List NodeId) :
    (g.withRanks ranks).nextFrontier ids = g.nextFrontier ids := rfl

theorem mem_nextFrontier_iff {ids : List NodeId} {v : NodeId} :
    v ∈ g.nextFrontier ids ↔ ∃ a ∈ ids, v ∈ g.nextNodes a := by
  simp [nextFrontier, List.mem_eraseDups]

/-- What the frontiers before number `k` have done, and the frontier with that number. -/
structure Frontier (g : Graph) (starts : List NodeId) (k : Nat) (ranks : NodeId → Int)
    (frontier computed : List NodeId) : Prop where
  mem_frontier : ∀ v, v ∈ frontier ↔ g.ControlWalk starts k v
  nodup_frontier : frontier.Nodup
  ranks : ∀ v, g.LongestWalk starts k v (ranks v)
  mem_computed : ∀ v, v ∈ computed ↔ ∃ j, j < k ∧ g.ControlWalk starts j v
  nodup_computed : computed.Nodup

/-- Every member of a frontier is ranked by it: none has a rank as high as its number. -/
theorem Frontier.advancing_eq {k : Nat} {ranks : NodeId → Int} {frontier computed : List NodeId}
    (h : g.Frontier starts k ranks frontier computed) (hg : g.Intact)
    (hs : ∀ v ∈ starts, (g.node? v).isSome) :
    (g.withRanks ranks).advancing k frontier = frontier := by
  refine List.filter_eq_self.2 fun v hv => ?_
  have hnode := ((h.mem_frontier v).1 hv).exists_node? hg hs
  obtain ⟨n, hn⟩ := Option.isSome_iff_exists.1 hnode
  have hmapped : (g.withRanks ranks).node? v = some { n with rank := ranks v } := by
    rw [withRanks, node?_touch, hn]; rfl
  rw [hmapped]
  exact decide_eq_true (h.ranks v).lt

/-- **One frontier**: its members take its number and are ranked, and what control links reach from
them is the next frontier. -/
theorem Frontier.next {k : Nat} {ranks : NodeId → Int} {frontier computed : List NodeId}
    (h : g.Frontier starts k ranks frontier computed) :
    g.Frontier starts (k + 1) (fun v => if v ∈ frontier then (k : Int) else ranks v)
      (g.nextFrontier frontier) (computed ++ frontier.filter (!computed.contains ·)) where
  mem_frontier v := by
    rw [mem_nextFrontier_iff, controlWalk_succ_iff]
    simp only [h.mem_frontier]
  nodup_frontier := nodup_eraseDups _
  ranks v := by
    obtain ⟨hin, hout⟩ := (h.ranks v).succ
    by_cases hv : v ∈ frontier
    · rw [if_pos hv]; exact hin ((h.mem_frontier v).1 hv)
    · rw [if_neg hv]; exact hout fun hw => hv ((h.mem_frontier v).2 hw)
  mem_computed v := by
    simp only [List.mem_append, List.mem_filter, Bool.not_eq_true', List.contains_eq_mem,
      decide_eq_false_iff_not, h.mem_computed, h.mem_frontier]
    constructor
    · rintro (⟨j, hj, hw⟩ | ⟨hw, -⟩)
      · exact ⟨j, Nat.lt_succ_of_lt hj, hw⟩
      · exact ⟨k, Nat.lt_succ_self k, hw⟩
    · rintro ⟨j, hj, hw⟩
      by_cases hold : ∃ j, j < k ∧ g.ControlWalk starts j v
      · exact .inl hold
      · rcases Nat.lt_or_eq_of_le (Nat.le_of_lt_succ hj) with hlt | rfl
        · exact absurd ⟨j, hlt, hw⟩ hold
        · exact .inr ⟨hw, hold⟩
  nodup_computed := by
    refine h.nodup_computed.append (h.nodup_frontier.filter _) ?_
    intro v hc hf
    simp only [List.mem_filter, Bool.not_eq_true', List.contains_eq_mem,
      decide_eq_false_iff_not] at hf
    exact hf.2 hc

/-! ## 4. The whole pass -/

/-- What a control pass with a given bound leaves behind: the graph with the lengths of longest
walks as ranks, the nodes that walks reach, and whether a walk reaches the bound. -/
structure ControlRanked (g : Graph) (starts : List NodeId) (bound : Nat) (r : ControlPass)
    (ranks : NodeId → Int) : Prop where
  graph_eq : r.graph = g.withRanks ranks
  ranks : ∀ v, g.LongestWalk starts bound v (ranks v)
  mem_computed : ∀ v, v ∈ r.computed ↔ ∃ j, j < bound ∧ g.ControlWalk starts j v
  nodup_computed : r.computed.Nodup
  runaway_none : r.runaway? = none ↔ ∀ v, ¬ g.ControlWalk starts bound v
  runaway_some : ∀ m, r.runaway? = some m → m = bound

/-- The pass from frontier `k` on, by induction on the number of frontiers it may still process. -/
theorem advance_spec (hg : g.Intact) (hs : ∀ v ∈ starts, (g.node? v).isSome) :
    ∀ (fuel k : Nat) (ranks : NodeId → Int) (frontier computed : List NodeId),
      g.Frontier starts k ranks frontier computed →
      ∃ ranks', g.ControlRanked starts (k + fuel)
        (advance fuel k (g.withRanks ranks) frontier computed) ranks'
  | fuel, k, ranks, [], computed, h => by
    -- an empty frontier: no walk is as long as its number, so no longer one exists either
    have hend : ∀ u, ¬ g.ControlWalk starts k u := fun u hu =>
      absurd ((h.mem_frontier u).2 hu) List.not_mem_nil
    have hlt : ∀ j u, g.ControlWalk starts j u → j < k := by
      intro j u hw
      by_contra hge
      obtain ⟨w, hw'⟩ := hw.exists_of_le (Nat.le_of_not_lt hge)
      exact hend w hw'
    have hadv : advance fuel k (g.withRanks ranks) [] computed
        = ⟨g.withRanks ranks, computed, none⟩ := by cases fuel <;> rfl
    rw [hadv]
    refine ⟨ranks, rfl, fun v => (h.ranks v).extend (Nat.le_add_right k fuel) hend, ?_,
      h.nodup_computed, ?_, fun m hm => nomatch hm⟩
    · intro v
      rw [h.mem_computed]
      exact ⟨fun ⟨j, _, hw⟩ => ⟨j, Nat.lt_of_lt_of_le (hlt j v hw) (Nat.le_add_right k fuel), hw⟩,
        fun ⟨j, _, hw⟩ => ⟨j, hlt j v hw, hw⟩⟩
    · refine ⟨fun _ v hv => ?_, fun _ => rfl⟩
      exact absurd (hlt _ v hv) (Nat.not_lt.2 (Nat.le_add_right k fuel))
  | 0, k, ranks, id :: ids, computed, h => by
    refine ⟨ranks, rfl, h.ranks, h.mem_computed, h.nodup_computed, ?_, ?_⟩
    · refine ⟨fun hnone => (nomatch hnone), fun hnone => ?_⟩
      exact absurd ((h.mem_frontier id).1 List.mem_cons_self) (hnone id)
    · intro m hm
      exact (Option.some.inj hm).symm
  | fuel + 1, k, ranks, id :: ids, computed, h => by
    obtain ⟨ranks', hr⟩ := advance_spec hg hs fuel (k + 1) _ _ _ h.next
    refine ⟨ranks', ?_⟩
    simp only [advance, h.advancing_eq hg hs, setRanks_withRanks, nextFrontier_withRanks]
    rw [Nat.add_right_comm, Nat.add_assoc] at hr
    exact hr

/-- **The control pass ranks by longest walks.** -/
theorem controlPass_spec (hg : g.Intact) (hs : ∀ v ∈ starts, (g.node? v).isSome) (max : Nat) :
    ∃ ranks, g.ControlRanked starts (max + 1) (g.resetRanks.controlPass max starts) ranks := by
  have h0 : g.Frontier starts 0 (fun _ => unscheduled) starts.eraseDups [] :=
    { mem_frontier := fun v => by rw [List.mem_eraseDups, controlWalk_zero_iff]
      nodup_frontier := nodup_eraseDups _
      ranks := fun v => .inr ⟨rfl, fun j hj => absurd hj (Nat.not_lt_zero j)⟩
      mem_computed := fun v => by simp
      nodup_computed := List.nodup_nil }
  have h := advance_spec hg hs (max + 1) 0 _ _ _ h0
  rw [Nat.zero_add] at h
  exact h

namespace ControlRanked

variable {bound : Nat} {r : ControlPass} {ranks : NodeId → Int}

/-- A node has a rank exactly if the pass has reached it. -/
theorem nonneg_iff (h : g.ControlRanked starts bound r ranks) (v : NodeId) :
    0 ≤ ranks v ↔ v ∈ r.computed := by
  rw [h.mem_computed]
  rcases h.ranks v with ⟨k, hk, hlt, hw, -⟩ | ⟨hk, hnone⟩
  · exact ⟨fun _ => ⟨k, hlt, hw⟩, fun _ => hk ▸ Int.natCast_nonneg k⟩
  · refine ⟨fun hge => ?_, fun ⟨j, hj, hw⟩ => absurd hw (hnone j hj)⟩
    rw [hk] at hge
    exact absurd hge (by decide)

theorem eq_unscheduled (h : g.ControlRanked starts bound r ranks) {v : NodeId}
    (hv : v ∉ r.computed) : ranks v = unscheduled := by
  rcases h.ranks v with ⟨k, -, hlt, hw, -⟩ | ⟨hk, -⟩
  · exact absurd ((h.mem_computed v).2 ⟨k, hlt, hw⟩) hv
  · exact hk

/-- **A pass that was not stopped ranks along links**: what a control link reaches from a ranked
node is ranked, and higher. -/
theorem lt_of_link (h : g.ControlRanked starts bound r ranks) (hrun : r.runaway? = none)
    {a b : NodeId} (ha : a ∈ r.computed) (hab : b ∈ g.nextNodes a) :
    b ∈ r.computed ∧ ranks a < ranks b := by
  rcases h.ranks a with ⟨k, hk, hlt, hw, -⟩ | ⟨hk, -⟩
  · have hb : g.ControlWalk starts (k + 1) b := .step hw hab
    have hne : k + 1 ≠ bound := fun he => h.runaway_none.1 hrun b (he ▸ hb)
    have hkb : k + 1 < bound := Nat.lt_of_le_of_ne hlt hne
    refine ⟨(h.mem_computed b).2 ⟨k + 1, hkb, hb⟩, ?_⟩
    rcases h.ranks b with ⟨m, hm, -, -, hmax⟩ | ⟨-, hnone⟩
    · have hle := hmax (k + 1) hkb hb
      rw [hk, hm]
      omega
    · exact absurd hb (hnone _ hkb)
  · have hge := (h.nonneg_iff a).2 ha
    rw [hk] at hge
    exact absurd hge (by decide)

end ControlRanked

end Graph

end FlowScript
