/-
# What the data pass computes

The data pass works on the classes of equal control rank.  It moves a class up by the depth of the
deepest chain of producers that feeds a member, together with all later classes, and offers each
producer the rank of the member less the number of links between them; the lowest offer stays.

Both halves are stated over chains of producer links (`DataWalk`):

* `longestChain_spec`: the depth of a node is the length of its longest chain, and the node is
  called cyclic exactly if some chain is longer than the graph has nodes;
* `dataPass_spec`: after the pass, a member of a class has its control rank plus the depths of all
  classes up to its own (`placedRank`), and every other node the lowest rank it was offered, if any
  (`Offered`).

The invariant `Offered` ties the two copies of the ranks together that the pass keeps, in the graph
and in the map of producers.
-/
import FlowScript.Proofs.ControlRanks
import FlowScript.Schedule.Data
import Mathlib.Algebra.GroupWithZero.Nat
import Mathlib.Algebra.Order.BigOperators.Group.List
import Mathlib.Algebra.Order.Group.Nat

namespace FlowScript

namespace Graph

variable {g : Graph}

/-! ## 1. Chains of producers -/

/-- A chain of exactly `k` links out of data nodes leads from the node `p` to the node `s`. -/
inductive DataWalk (g : Graph) : Nat → NodeId → NodeId → Prop
  | refl (s : NodeId) : DataWalk g 0 s s
  | step {k : Nat} {p q s : NodeId} :
    p ∈ g.producers q → DataWalk g k q s → DataWalk g (k + 1) p s

theorem mem_producers_iff {p s : NodeId} :
    p ∈ g.producers s ↔
      g.isData p = true ∧ ∃ c ∈ g.links, c.exec = false ∧ c.fromNode = p ∧ c.toNode = s := by
  simp only [producers, dataInputNodes, List.mem_filter, List.mem_eraseDups, List.mem_map,
    Bool.and_eq_true, Bool.not_eq_true', decide_eq_true_eq]
  constructor
  · rintro ⟨⟨c, ⟨hc, hexec, hto⟩, rfl⟩, hdata⟩
    exact ⟨hdata, c, hc, hexec, rfl, hto⟩
  · rintro ⟨hdata, c, hc, hexec, rfl, hto⟩
    exact ⟨⟨c, ⟨hc, hexec, hto⟩, rfl⟩, hdata⟩

theorem exists_node?_of_isData {p : NodeId} (h : g.isData p = true) : (g.node? p).isSome := by
  rw [isData] at h
  cases hp : g.node? p with
  | none => rw [hp] at h; cases h
  | some n => rfl

theorem dataWalk_succ_iff {k : Nat} {p s : NodeId} :
    g.DataWalk (k + 1) p s ↔ ∃ q, p ∈ g.producers q ∧ g.DataWalk k q s :=
  ⟨fun h => by cases h with | step hp hq => exact ⟨_, hp, hq⟩, fun ⟨_, hp, hq⟩ => .step hp hq⟩

theorem dataWalk_one_iff {p s : NodeId} : g.DataWalk 1 p s ↔ p ∈ g.producers s := by
  rw [dataWalk_succ_iff]
  constructor
  · rintro ⟨q, hp, hq⟩
    cases hq
    exact hp
  · exact fun hp => ⟨s, hp, .refl s⟩

theorem DataWalk.isData {k : Nat} {p s : NodeId} (h : g.DataWalk k p s) (hk : 0 < k) :
    g.isData p = true := by
  cases h with
  | refl => exact absurd hk (Nat.lt_irrefl 0)
  | step hp _ => exact (mem_producers_iff.1 hp).1

/-- A chain ends in chains of every smaller length. -/
theorem DataWalk.exists_of_le {k : Nat} {p s : NodeId} (h : g.DataWalk k p s) :
    ∀ {j : Nat}, j ≤ k → ∃ q, g.DataWalk j q s := by
  induction h with
  | refl s =>
    intro j hj
    obtain rfl : j = 0 := Nat.le_zero.1 hj
    exact ⟨s, .refl s⟩
  | step hp hq ih =>
    intro j hj
    rcases Nat.lt_or_eq_of_le hj with hlt | rfl
    · exact ih (Nat.le_of_lt_succ hlt)
    · exact ⟨_, .step hp hq⟩

/-- The list holds exactly the nodes that a chain of `k` links leads from to `s`. -/
def Generation (g : Graph) (s : NodeId) (k : Nat) (ids : List NodeId) : Prop :=
  ∀ p, p ∈ ids ↔ g.DataWalk k p s

theorem generation_producers (s : NodeId) : g.Generation s 1 (g.producers s) := fun _ =>
  dataWalk_one_iff.symm

theorem Generation.producersOf {s : NodeId} {k : Nat} {ids : List NodeId}
    (h : g.Generation s k ids) : g.Generation s (k + 1) (g.producersOf ids) := by
  intro p
  rw [dataWalk_succ_iff, Graph.producersOf, List.mem_eraseDups, List.mem_flatMap]
  constructor
  · rintro ⟨q, hq, hp⟩
    exact ⟨q, hp, (h q).1 hq⟩
  · rintro ⟨q, hp, hq⟩
    exact ⟨q, (h q).2 hq, hp⟩

/-- After an empty generation there is no longer chain. -/
theorem Generation.not_dataWalk {s : NodeId} {k : Nat} (h : g.Generation s k []) {j : Nat}
    (hj : k ≤ j) (p : NodeId) : ¬ g.DataWalk j p s := by
  intro hp
  obtain ⟨q, hq⟩ := hp.exists_of_le hj
  exact absurd ((h q).2 hq) List.not_mem_nil

/-! ## 2. The longest chain -/

/-- Generations from number `d + 1` on, by induction on how many may still be counted. -/
theorem generations_spec {s : NodeId} :
    ∀ (fuel d : Nat) (ids : List NodeId), g.Generation s (d + 1) ids →
      (∀ k, k ≤ fuel →
        ((∃ p, g.DataWalk (d + 1 + k) p s) ↔ k < (g.generations fuel ids).1)) ∧
      ((g.generations fuel ids).2 = true ↔ ∃ p, g.DataWalk (d + 1 + fuel) p s)
  | fuel, d, [], h => by
    have hgen : g.generations fuel [] = (0, false) := by cases fuel <;> rfl
    have hnone : ∀ k, ¬ ∃ p, g.DataWalk (d + 1 + k) p s := fun k ⟨p, hp⟩ =>
      h.not_dataWalk (Nat.le_add_right _ _) p hp
    rw [hgen]
    exact ⟨fun k _ => ⟨fun hk => absurd hk (hnone k), fun hk => absurd hk (Nat.not_lt_zero k)⟩,
      ⟨fun hk => (nomatch hk), fun hk => absurd hk (hnone fuel)⟩⟩
  | 0, d, id :: ids, h => by
    have hsome : ∃ p, g.DataWalk (d + 1) p s := ⟨id, (h id).1 List.mem_cons_self⟩
    refine ⟨fun k hk => ?_, ⟨fun _ => hsome, fun _ => rfl⟩⟩
    obtain rfl : k = 0 := Nat.le_zero.1 hk
    exact ⟨fun _ => Nat.zero_lt_one, fun _ => hsome⟩
  | fuel + 1, d, id :: ids, h => by
    obtain ⟨ihk, ihflag⟩ := generations_spec fuel (d + 1) _ h.producersOf
    have hsome : ∃ p, g.DataWalk (d + 1) p s := ⟨id, (h id).1 List.mem_cons_self⟩
    refine ⟨fun k hk => ?_, ?_⟩
    · cases k with
      | zero => exact ⟨fun _ => Nat.succ_pos _, fun _ => hsome⟩
      | succ k =>
        have hkk := ihk k (Nat.le_of_succ_le_succ hk)
        rw [show d + 1 + (k + 1) = d + 1 + 1 + k by omega, hkk]
        exact Nat.succ_lt_succ_iff.symm
    · rw [show d + 1 + (fuel + 1) = d + 1 + 1 + fuel by omega, ← ihflag]
      rfl

/-- **The depth of a node is the length of its longest chain of producers**, and a node is called
cyclic exactly if a chain is longer than the graph has nodes. -/
theorem longestChain_spec (g : Graph) (s : NodeId) :
    (∀ k, 0 < k → k ≤ g.nodes.size + 1 →
      ((∃ p, g.DataWalk k p s) ↔ k ≤ (g.longestChain s).1)) ∧
    ((g.longestChain s).2 = true ↔ ∃ p, g.DataWalk (g.nodes.size + 1) p s) := by
  obtain ⟨hk, hflag⟩ := generations_spec g.nodes.size 0 _ (generation_producers s)
  refine ⟨fun k hpos hle => ?_, ?_⟩
  · obtain ⟨j, rfl⟩ := Nat.exists_eq_succ_of_ne_zero (Nat.pos_iff_ne_zero.1 hpos)
    have hj := hk j (Nat.le_of_succ_le_succ hle)
    rw [show 0 + 1 + j = j.succ by omega] at hj
    exact hj
  · rw [show 0 + 1 + g.nodes.size = g.nodes.size + 1 by omega] at hflag
    exact hflag

/-! ## 3. Offers -/

/-- A graph and a map of ranked producers after some offers: the map holds the lowest offer of each
node that was made one, and the graph has that rank for it, else the rank in `base`. -/
structure Offered (g : Graph) (base : NodeId → Int) (offers : NodeId → Int → Prop)
    (s : Graph × OrderedMap NodeId Int) : Prop where
  graph_eq : s.1 = g.withRanks fun p => (s.2.get? p).getD (base p)
  offered : ∀ p r, s.2.get? p = some r → offers p r
  least : ∀ p r, offers p r → ∃ r', s.2.get? p = some r' ∧ r' ≤ r

section Offers

variable {base : NodeId → Int} {offers offers' : NodeId → Int → Prop}
  {s : Graph × OrderedMap NodeId Int}

theorem Offered.congr (h : g.Offered base offers s) (he : ∀ p r, offers p r ↔ offers' p r) :
    g.Offered base offers' s :=
  ⟨h.graph_eq, fun p r hr => (he p r).1 (h.offered p r hr),
    fun p r hr => h.least p r ((he p r).2 hr)⟩

/-- One offer more. -/
theorem Offered.offerRank (h : g.Offered base offers s) (rank : Int) (id : NodeId) :
    g.Offered base (fun p r => offers p r ∨ (p = id ∧ r = rank)) (offerRank rank s id) := by
  obtain ⟨graph, ranked⟩ := s
  obtain ⟨hgraph, hoffered, hleast⟩ := h
  simp only at hgraph hoffered hleast
  subst hgraph
  simp only [Graph.offerRank]
  refine ⟨?_, ?_, ?_⟩
  · rw [setRank_withRanks]
    refine congrArg g.withRanks (funext fun p => ?_)
    simp only [OrderedMap.get?_insert]
    split <;> rfl
  · intro p r hr
    simp only [OrderedMap.get?_insert] at hr
    split at hr
    · next hp =>
      subst hp
      cases hid : ranked.get? p with
      | none => rw [hid] at hr; exact .inr ⟨rfl, (Option.some.inj hr).symm⟩
      | some old =>
        rw [hid] at hr
        have hr' : min old rank = r := Option.some.inj hr
        rcases Int.le_total old rank with hle | hle
        · rw [Int.min_eq_left hle] at hr'; exact .inl (hr' ▸ hoffered p old hid)
        · rw [Int.min_eq_right hle] at hr'; exact .inr ⟨rfl, hr'.symm⟩
    · exact .inl (hoffered p r hr)
  · intro p r hr
    simp only [OrderedMap.get?_insert]
    by_cases hp : p = id
    · subst hp
      rw [if_pos rfl]
      refine ⟨_, rfl, ?_⟩
      cases hid : ranked.get? p with
      | none =>
        rcases hr with hr | ⟨-, rfl⟩
        · obtain ⟨r', hr', -⟩ := hleast p r hr
          rw [hid] at hr'
          cases hr'
        · exact Int.le_refl _
      | some old =>
        show min old rank ≤ r
        rcases hr with hr | ⟨-, rfl⟩
        · obtain ⟨r', hr', hle⟩ := hleast p r hr
          rw [hid] at hr'
          cases hr'
          exact Int.le_trans (Int.min_le_left _ _) hle
        · exact Int.min_le_right _ _
    · rw [if_neg hp]
      rcases hr with hr | ⟨hp', -⟩
      · exact hleast p r hr
      · exact absurd hp' hp

theorem Offered.foldl_offerRank (rank : Int) :
    ∀ (ids : List NodeId) {offers : NodeId → Int → Prop} {s : Graph × OrderedMap NodeId Int},
      g.Offered base offers s →
      g.Offered base (fun p r => offers p r ∨ (p ∈ ids ∧ r = rank))
        (ids.foldl (Graph.offerRank rank) s)
  | [], _, _, h => h.congr fun p r => by simp
  | id :: ids, _, _, h => by
    refine (foldl_offerRank rank ids (h.offerRank rank id)).congr fun p r => ?_
    simp only [List.mem_cons]
    tauto

theorem Offered.bare_eq (h : g.Offered base offers s) : s.1.bare = g.bare := by
  rw [h.graph_eq, bare_withRanks]

theorem Offered.producers_eq (h : g.Offered base offers s) : s.1.producers = g.producers :=
  producers_eq_of_bare h.bare_eq

/-- Generation after generation: every producer is offered the rank of the node `v`, which is `top`,
less the number of links between them. -/
theorem Offered.rankGenerations {v : NodeId} (top : Int) :
    ∀ (fuel d : Nat) (ids : List NodeId) {offers : NodeId → Int → Prop}
      {s : Graph × OrderedMap NodeId Int}, g.Generation v (d + 1) ids → g.Offered base offers s →
      g.Offered base
        (fun p r => offers p r ∨ ∃ k : Nat, d < k ∧ k ≤ d + fuel ∧ g.DataWalk k p v ∧ r = top - k)
        (Graph.rankGenerations fuel (top - d) ids s)
  | fuel, d, [], _, s, hgen, h => by
    have hrun : Graph.rankGenerations fuel (top - d) [] s = s := by cases fuel <;> rfl
    rw [hrun]
    refine h.congr fun p r => ⟨.inl, ?_⟩
    rintro (hr | ⟨k, hk, -, hw, -⟩)
    · exact hr
    · exact absurd hw (hgen.not_dataWalk hk p)
  | 0, d, id :: ids, _, _, _, h => by
    refine h.congr fun p r => ⟨.inl, ?_⟩
    rintro (hr | ⟨k, hk, hle, -⟩)
    · exact hr
    · exact absurd hle (Nat.not_le.2 hk)
  | fuel + 1, d, id :: ids, _, s, hgen, h => by
    have hnext : g.Generation v (d + 1 + 1) (s.1.producersOf (id :: ids)) := by
      rw [Graph.producersOf, h.producers_eq]
      exact hgen.producersOf
    have ih := rankGenerations top fuel (d + 1) _ hnext
      (h.foldl_offerRank (top - d - 1) (id :: ids))
    rw [show top - ((d + 1 : Nat) : Int) = top - d - 1 by omega] at ih
    refine ih.congr fun p r => ?_
    -- the first generation is what the fold offers, the others are those of the recursion
    constructor
    · rintro ((hr | ⟨hp, rfl⟩) | ⟨k, hk, hle, hw, rfl⟩)
      · exact .inl hr
      · exact .inr ⟨d + 1, by omega, by omega, (hgen p).1 hp, by omega⟩
      · exact .inr ⟨k, by omega, by omega, hw, rfl⟩
    · rintro (hr | ⟨k, hk, hle, hw, rfl⟩)
      · exact .inl (.inl hr)
      · by_cases hkd : k = d + 1
        · subst hkd
          exact .inl (.inr ⟨(hgen p).2 hw, by omega⟩)
        · exact .inr ⟨k, by omega, by omega, hw, rfl⟩

/-- What a node `v` of rank `top` offers to the producers that feed it. -/
def OffersOf (g : Graph) (v : NodeId) (top : Int) (p : NodeId) (r : Int) : Prop :=
  ∃ k : Nat, 0 < k ∧ k ≤ g.nodes.size ∧ g.DataWalk k p v ∧ r = top - k

theorem OffersOf.isData {v p : NodeId} {top r : Int} (h : g.OffersOf v top p r) :
    g.isData p = true := by
  obtain ⟨k, hk, -, hw, -⟩ := h
  exact hw.isData hk

/-- Only data nodes are made offers. -/
theorem Offered.get?_eq_none (h : g.Offered base offers s)
    (hdata : ∀ p r, offers p r → g.isData p = true) {v : NodeId} (hflow : g.isData v = false) :
    s.2.get? v = none := by
  cases hget : s.2.get? v with
  | none => rfl
  | some r => rw [hdata v r (h.offered v r hget)] at hflow; cases hflow

/-- Nodes that take no offers may be ranked without disturbing those that do. -/
theorem Offered.setRanks (h : g.Offered base offers s)
    (hdata : ∀ p r, offers p r → g.isData p = true) {ids : List NodeId}
    (hids : ∀ v ∈ ids, g.isData v = false) (rank : Int) :
    g.Offered (fun v => if v ∈ ids then rank else base v) offers (s.1.setRanks ids rank, s.2) := by
  refine ⟨?_, h.offered, h.least⟩
  rw [h.graph_eq, setRanks_withRanks]
  refine congrArg g.withRanks (funext fun v => ?_)
  by_cases hv : v ∈ ids
  · rw [if_pos hv, if_pos hv, h.get?_eq_none hdata (hids v hv)]; rfl
  · rw [if_neg hv, if_neg hv]

/-- A node that takes no offers keeps its rank. -/
theorem Offered.rank_eq (h : g.Offered base offers s)
    (hdata : ∀ p r, offers p r → g.isData p = true) {v : NodeId} (hv : (g.node? v).isSome)
    (hflow : g.isData v = false) : s.1.rank v = base v := by
  rw [h.graph_eq, rank_withRanks, if_pos hv, h.get?_eq_none hdata hflow]
  rfl

/-- Such a node hands its rank down to its producers. -/
theorem Offered.rankProducers (h : g.Offered base offers s)
    (hdata : ∀ p r, offers p r → g.isData p = true) {v : NodeId} (hv : (g.node? v).isSome)
    (hflow : g.isData v = false) :
    g.Offered base (fun p r => offers p r ∨ g.OffersOf v (base v) p r)
      (Graph.rankProducers s v) := by
  have hrank := h.rank_eq hdata hv hflow
  have hsize : s.1.nodes.size = g.nodes.size := size_eq_of_bare h.bare_eq
  have hrun := h.rankGenerations (base v) g.nodes.size 0 _ (generation_producers v)
  rw [Graph.rankProducers, hsize, hrank, h.producers_eq]
  rw [show base v - ((0 : Nat) : Int) = base v by omega] at hrun
  exact hrun.congr fun p r => by rw [OffersOf, Nat.zero_add]

theorem Offered.foldl_rankProducers :
    ∀ (ids : List NodeId) {offers : NodeId → Int → Prop} {s : Graph × OrderedMap NodeId Int},
      g.Offered base offers s → (∀ p r, offers p r → g.isData p = true) →
      (∀ v ∈ ids, (g.node? v).isSome ∧ g.isData v = false) →
      g.Offered base (fun p r => offers p r ∨ ∃ v ∈ ids, g.OffersOf v (base v) p r)
        (ids.foldl Graph.rankProducers s)
  | [], _, _, h, _, _ => h.congr fun p r => by simp
  | id :: ids, _, _, h, hdata, hids => by
    obtain ⟨hnode, hflow⟩ := hids id List.mem_cons_self
    have hstep := h.rankProducers hdata hnode hflow
    have hdata' : ∀ p r, _ ∨ g.OffersOf id (base id) p r → g.isData p = true := fun p r hr =>
      hr.elim (hdata p r) OffersOf.isData
    refine (foldl_rankProducers ids hstep hdata' fun v hv =>
      hids v (List.mem_cons_of_mem id hv)).congr fun p r => ?_
    simp only [List.mem_cons, exists_eq_or_imp]
    exact or_assoc

end Offers

/-! ## 4. Classes -/

theorem foldl_max_ge : ∀ (l : List Nat) (b : Nat), b ≤ l.foldl max b ∧ ∀ a ∈ l, a ≤ l.foldl max b
  | [], b => ⟨Nat.le_refl b, fun _ ha => nomatch ha⟩
  | x :: l, b => by
    obtain ⟨hb, hl⟩ := foldl_max_ge l (max b x)
    refine ⟨Nat.le_trans (Nat.le_max_left b x) hb, fun a ha => ?_⟩
    rcases List.mem_cons.1 ha with rfl | ha
    · exact Nat.le_trans (Nat.le_max_right b a) hb
    · exact hl a ha

/-- The depth of a class: that of its deepest member. -/
def classDepth (g : Graph) (ids : List NodeId) : Nat :=
  ((ids.map g.longestChain).map Prod.fst).foldl max 0

theorem le_classDepth {ids : List NodeId} {v : NodeId} (hv : v ∈ ids) :
    (g.longestChain v).1 ≤ g.classDepth ids :=
  (foldl_max_ge _ 0).2 _ (List.mem_map_of_mem (List.mem_map_of_mem hv))

theorem producersOf_eq_of_bare {g' : Graph} (h : g.bare = g'.bare) (ids : List NodeId) :
    g.producersOf ids = g'.producersOf ids := by
  rw [producersOf, producersOf, producers_eq_of_bare h]

theorem generations_eq_of_bare {g' : Graph} (h : g.bare = g'.bare) :
    ∀ (fuel : Nat) (ids : List NodeId), g.generations fuel ids = g'.generations fuel ids
  | fuel, [] => by cases fuel <;> rfl
  | 0, _ :: _ => rfl
  | fuel + 1, id :: ids => by
    simp only [generations, producersOf_eq_of_bare h, generations_eq_of_bare h fuel]

theorem longestChain_eq_of_bare {g' : Graph} (h : g.bare = g'.bare) :
    g.longestChain = g'.longestChain := by
  funext id
  rw [longestChain, longestChain, generations_eq_of_bare h, size_eq_of_bare h,
    producers_eq_of_bare h]

/-- How far a control rank moves up: by the depths of all classes up to it. -/
def shift (g : Graph) (classes : List (Int × List NodeId)) (r : Int) : Nat :=
  ((classes.filter fun c => c.1 ≤ r).map fun c => g.classDepth c.2).sum

theorem shift_mono (classes : List (Int × List NodeId)) {r r' : Int} (h : r ≤ r') :
    g.shift classes r ≤ g.shift classes r' := by
  induction classes with
  | nil => exact Nat.le_refl _
  | cons c classes ih =>
    simp only [shift, List.filter_cons] at ih ⊢
    by_cases hr : c.1 ≤ r
    · have hr' : c.1 ≤ r' := Int.le_trans hr h
      simp only [hr, hr', decide_true, if_true, List.map_cons, List.sum_cons]
      exact Nat.add_le_add_left ih _
    · by_cases hr' : c.1 ≤ r'
      · simp only [hr, hr', decide_true, decide_false, if_true, Bool.false_eq_true, if_false,
          List.map_cons, List.sum_cons]
        exact Nat.le_trans ih (Nat.le_add_left _ _)
      · simp only [hr, hr', decide_false, Bool.false_eq_true, if_false]
        exact ih

/-- A class moves up by its own depth at least. -/
theorem classDepth_le_shift {classes : List (Int × List NodeId)} {c : Int × List NodeId}
    (hc : c ∈ classes) {r : Int} (hr : c.1 ≤ r) : g.classDepth c.2 ≤ g.shift classes r := by
  have hmem : c ∈ classes.filter fun c => c.1 ≤ r := List.mem_filter.2 ⟨hc, decide_eq_true hr⟩
  exact List.le_sum_of_mem (List.mem_map.2 ⟨c, hmem, rfl⟩)

/-- The rank of a node that the control pass has ranked, after the data pass. -/
def placedRank (g : Graph) (classes : List (Int × List NodeId)) (control : NodeId → Int)
    (v : NodeId) : Int :=
  control v + g.shift classes (control v)

/-- The classes of control ranks: ascending, each with the reached nodes of its rank. -/
structure Classes (control : NodeId → Int) (computed : List NodeId)
    (classes : List (Int × List NodeId)) : Prop where
  ascending : classes.Pairwise fun c d => c.1 < d.1
  mem : ∀ c ∈ classes, ∀ v, v ∈ c.2 ↔ v ∈ computed ∧ control v = c.1
  exists_class : ∀ v ∈ computed, ∃ c ∈ classes, v ∈ c.2

/-- A class holds the ranked nodes of one rank. -/
theorem rankClasses_eq (g : Graph) (computed : List NodeId) :
    g.rankClasses computed =
      (sortBy (fun a b => decide (a ≤ b)) (computed.map g.rank).eraseDups).map fun r =>
        (r, computed.filter (g.rank · = r)) := by
  simp only [rankClasses, List.map_map, List.filter_map, Function.comp_def, List.map_id']

/-- Sorted ranks ascend strictly if none is listed twice. -/
theorem pairwise_lt_sorted (ranks : List Int) :
    (sortBy (fun a b => decide (a ≤ b)) ranks.eraseDups).Pairwise (· < ·) := by
  have htrans : ∀ a b c : Int, decide (a ≤ b) = true → decide (b ≤ c) = true →
      decide (a ≤ c) = true := fun a b c hab hbc =>
    decide_eq_true (Int.le_trans (of_decide_eq_true hab) (of_decide_eq_true hbc))
  have htotal : ∀ a b : Int, (decide (a ≤ b) || decide (b ≤ a)) = true := fun a b => by
    simpa using Int.le_total a b
  have hsorted := sortBy_pairwise htrans htotal ranks.eraseDups
  have hnodup :=
    (sortBy_perm (fun a b : Int => decide (a ≤ b)) _).nodup_iff.2 (nodup_eraseDups ranks)
  exact (hsorted.and hnodup).imp fun ⟨hle, hne⟩ =>
    Int.lt_iff_le_and_ne.2 ⟨of_decide_eq_true hle, hne⟩

theorem rankClasses_spec {control : NodeId → Int} {computed : List NodeId}
    (hnode : ∀ v ∈ computed, (g.node? v).isSome) :
    Classes control computed ((g.withRanks control).rankClasses computed) := by
  have hrank : ∀ v ∈ computed, (g.withRanks control).rank v = control v := fun v hv => by
    rw [rank_withRanks, if_pos (hnode v hv)]
  have hmem : ∀ r v, v ∈ computed.filter ((g.withRanks control).rank · = r) ↔
      v ∈ computed ∧ control v = r := by
    intro r v
    rw [List.mem_filter, decide_eq_true_iff]
    exact and_congr_right fun hv => by rw [hrank v hv]
  rw [rankClasses_eq]
  refine ⟨List.pairwise_map.2 (pairwise_lt_sorted _), ?_, ?_⟩
  · intro c hc v
    obtain ⟨r, -, rfl⟩ := List.mem_map.1 hc
    exact hmem r v
  · intro v hv
    refine ⟨_, List.mem_map.2 ⟨control v, ?_, rfl⟩, (hmem (control v) v).2 ⟨hv, rfl⟩⟩
    rw [mem_sortBy, List.mem_eraseDups]
    exact List.mem_map.2 ⟨v, hv, hrank v hv⟩

/-! ## 5. Class after class -/

/-- The members of some classes. -/
def members (classes : List (Int × List NodeId)) : List NodeId := classes.flatMap Prod.snd

theorem Classes.mem_members {control : NodeId → Int} {computed : List NodeId}
    {classes : List (Int × List NodeId)} (h : Classes control computed classes) {v : NodeId} :
    v ∈ members classes ↔ v ∈ computed := by
  rw [members, List.mem_flatMap]
  constructor
  · rintro ⟨c, hc, hv⟩
    exact ((h.mem c hc v).1 hv).1
  · exact h.exists_class v

/-- The ranks of nodes that take no offers, once the classes in `done` are placed. -/
def stageRank (g : Graph) (control : NodeId → Int) (classes done : List (Int × List NodeId))
    (v : NodeId) : Int :=
  if v ∈ members done then g.placedRank classes control v else control v

/-- What the data pass has done after the classes in `done`, a first part of all classes. -/
structure Stage (g : Graph) (control : NodeId → Int) (classes done : List (Int × List NodeId))
    (s : DataPass) : Prop where
  offered : g.Offered (g.stageRank control classes done)
    (fun p r => ∃ v ∈ members done, g.OffersOf v (g.placedRank classes control v) p r)
    (s.graph, s.ranked)
  offset_eq : s.offset = ((done.map fun c => g.classDepth c.2).sum : Nat)
  mem_cyclic : ∀ v, v ∈ s.cyclic ↔ v ∈ members done ∧ (g.longestChain v).2 = true

section Stages

variable {control : NodeId → Int} {computed : List NodeId}
  {classes done rest : List (Int × List NodeId)} {c : Int × List NodeId} {s : DataPass}

theorem Stage.graph_eq (h : g.Stage control classes done s) :
    s.graph = g.withRanks fun p => (s.ranked.get? p).getD (g.stageRank control classes done p) :=
  h.offered.graph_eq

/-- In ascending order, the classes up to a class are those before it and itself. -/
theorem shift_of_split (hasc : (done ++ c :: rest).Pairwise fun c d => c.1 < d.1) :
    g.shift (done ++ c :: rest) c.1
      = (done.map fun c => g.classDepth c.2).sum + g.classDepth c.2 := by
  obtain ⟨-, hcons, hbefore⟩ := List.pairwise_append.1 hasc
  obtain ⟨hafter, -⟩ := List.pairwise_cons.1 hcons
  have hdone : done.filter (fun d => d.1 ≤ c.1) = done :=
    List.filter_eq_self.2 fun d hd =>
      decide_eq_true (Int.le_of_lt (hbefore d hd c List.mem_cons_self))
  have hrest : rest.filter (fun d => d.1 ≤ c.1) = [] :=
    List.filter_eq_nil_iff.2 fun d hd hle =>
      absurd (of_decide_eq_true hle) (Int.not_le.2 (hafter d hd))
  simp [shift, List.filter_append, hdone, hrest]

theorem Stage.longestChain_eq (h : g.Stage control classes done s) :
    s.graph.longestChain = g.longestChain := longestChain_eq_of_bare h.offered.bare_eq

theorem Stage.classDepth_eq (h : g.Stage control classes done s) (ids : List NodeId) :
    ((ids.map s.graph.longestChain).map Prod.fst).foldl max 0 = g.classDepth ids := by
  rw [h.longestChain_eq, classDepth]

/-- The members of one more class. -/
theorem mem_members_append_singleton {v : NodeId} :
    v ∈ members (done ++ [c]) ↔ v ∈ members done ∨ v ∈ c.2 := by
  simp [members, List.flatMap_append]

theorem stageRank_of_mem {v : NodeId} (hv : v ∈ c.2) :
    g.stageRank control classes (done ++ [c]) v = g.placedRank classes control v :=
  if_pos (mem_members_append_singleton.2 (.inr hv))

/-- The next rank is the place of each member of the next class. -/
theorem Stage.place_eq (h : g.Stage control classes done s) (hc : Classes control computed classes)
    (hsplit : classes = done ++ c :: rest) {v : NodeId} (hv : v ∈ c.2) :
    c.1 + s.offset + (g.classDepth c.2 : Nat) = g.placedRank classes control v := by
  have hcmem : c ∈ classes := List.mem_iff_append.2 ⟨_, _, hsplit⟩
  rw [placedRank, ((hc.mem c hcmem v).1 hv).2, hsplit, shift_of_split (hsplit ▸ hc.ascending),
    h.offset_eq]
  omega

/-- The members of the next class take their place. -/
theorem Stage.placed (h : g.Stage control classes done s) (hc : Classes control computed classes)
    (hsplit : classes = done ++ c :: rest) (hflow : ∀ v ∈ c.2, g.isData v = false) :
    g.Offered (g.stageRank control classes (done ++ [c]))
      (fun p r => ∃ v ∈ members done, g.OffersOf v (g.placedRank classes control v) p r)
      (s.graph.setRanks c.2 (c.1 + s.offset + (g.classDepth c.2 : Nat)), s.ranked) := by
  have hbase : (fun v => if v ∈ c.2 then c.1 + s.offset + (g.classDepth c.2 : Nat)
      else g.stageRank control classes done v) = g.stageRank control classes (done ++ [c]) := by
    funext v
    by_cases hv : v ∈ c.2
    · rw [if_pos hv, h.place_eq hc hsplit hv, stageRank_of_mem hv]
    · rw [if_neg hv, stageRank, stageRank]
      simp only [mem_members_append_singleton, hv, or_false]
  rw [← hbase]
  exact h.offered.setRanks (fun p r ⟨_, _, ho⟩ => ho.isData) hflow _

/-- **One class**: its members take their place, and hand their rank down to their producers. -/
theorem Stage.placeClass (h : g.Stage control classes done s)
    (hc : Classes control computed classes) (hsplit : classes = done ++ c :: rest)
    (hcomputed : ∀ v ∈ computed, (g.node? v).isSome ∧ g.isData v = false) :
    g.Stage control classes (done ++ [c]) (Graph.placeClass s c) := by
  have hcmem : c ∈ classes := List.mem_iff_append.2 ⟨_, _, hsplit⟩
  have hids : ∀ v ∈ c.2, (g.node? v).isSome ∧ g.isData v = false := fun v hv =>
    hcomputed v ((hc.mem c hcmem v).1 hv).1
  have hdepth := h.classDepth_eq c.2
  have hfinal := Offered.foldl_rankProducers c.2 (h.placed hc hsplit fun v hv => (hids v hv).2)
    (fun p r ⟨_, _, ho⟩ => ho.isData) hids
  refine ⟨?_, ?_, ?_⟩
  · simp only [Graph.placeClass, hdepth]
    refine hfinal.congr fun p r => ?_
    simp only [mem_members_append_singleton, or_and_right, exists_or]
    refine or_congr Iff.rfl (exists_congr fun v => and_congr_right fun hv => ?_)
    rw [stageRank_of_mem hv]
  · simp only [Graph.placeClass, hdepth, h.offset_eq, List.map_append, List.sum_append,
      List.map_cons, List.map_nil, List.sum_cons, List.sum_nil]
    omega
  · intro v
    simp only [Graph.placeClass, List.mem_append, List.mem_filter, h.longestChain_eq, h.mem_cyclic,
      mem_members_append_singleton, or_and_right]

/-- Before the first class. -/
theorem stage_nil (g : Graph) (control : NodeId → Int) (classes : List (Int × List NodeId)) :
    g.Stage control classes [] ⟨g.withRanks control, .empty, 0, []⟩ := by
  refine ⟨⟨rfl, ?_, ?_⟩, rfl, ?_⟩
  · exact fun p r hr => nomatch hr
  · rintro p r ⟨v, hv, -⟩
    exact nomatch hv
  · exact fun v => ⟨fun hv => (nomatch hv), fun hv => (nomatch hv.1)⟩

/-- The pass over the classes that are left, one after the other. -/
theorem Stage.foldl_placeClass (hc : Classes control computed classes)
    (hcomputed : ∀ v ∈ computed, (g.node? v).isSome ∧ g.isData v = false) :
    ∀ (rest done : List (Int × List NodeId)) (s : DataPass), classes = done ++ rest →
      g.Stage control classes done s →
      g.Stage control classes classes (rest.foldl Graph.placeClass s)
  | [], done, s, hsplit, h => by
    rw [List.append_nil] at hsplit
    rw [← hsplit] at h
    exact h
  | c :: rest, done, s, hsplit, h =>
    foldl_placeClass hc hcomputed rest (done ++ [c]) (Graph.placeClass s c)
      (by rw [hsplit, List.append_assoc]; rfl) (h.placeClass hc hsplit hcomputed)

end Stages

/-- **What the data pass leaves behind**, on a graph whose reached nodes are no data nodes. -/
theorem dataPass_spec (control : NodeId → Int) {computed : List NodeId}
    (hcomputed : ∀ v ∈ computed, (g.node? v).isSome ∧ g.isData v = false) :
    ∃ classes, Classes control computed classes ∧
      g.Stage control classes classes ((g.withRanks control).dataPass computed) := by
  have hc : Classes control computed ((g.withRanks control).rankClasses computed) :=
    rankClasses_spec fun v hv => (hcomputed v hv).1
  exact ⟨_, hc, Stage.foldl_placeClass hc hcomputed _ [] _ rfl (stage_nil g control _)⟩

end Graph

end FlowScript
