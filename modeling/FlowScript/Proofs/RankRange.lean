/-
# Ranks fit into words

Frontiers, generations of producers and ranks are counted in signed words.  `scheduleInWords` is the
scheduler with a check on every sum and difference it computes: it gives up as soon as one of them
is below the mark of unscheduled nodes or above the greatest word.  (The least or the greatest of
some words is one of them.)  It does not give up, and what it computes is `schedule`, if `rankBound`
is a word (`scheduleInWords_eq`).

The bound is a product because the data pass moves all later classes with each class.  Three facts
meet in it:

* no chain is counted as longer than one more than the number of nodes, not even in a cycle
  (`longestChain_le`);
* no more ranks occur after the control pass than it may process frontiers, or than there are nodes
  (`ControlRanked.card_ranks_le`);
* so no place lies above the bound (`Classes.placedRank_le`), and none below the chains that hang
  from it, which is what keeps the ranks of producers from running below zero.
-/
import FlowScript.Proofs.ExactRanks
import Mathlib.Algebra.Order.BigOperators.Group.Finset

namespace FlowScript

/-! ## 1. Words -/

/-- A number, if it is no less than the mark of unscheduled nodes and no more
than the greatest word. -/
def word? (high x : Int) : Option Int := if unscheduled ≤ x ∧ x ≤ high then some x else none

/-- A count, if it is a word. -/
def count? (high : Int) (n : Nat) : Option Nat := (word? high n).map Int.toNat

variable {high : Int}

theorem word?_eq_some {x : Int} (hx : 0 ≤ x) (hhigh : x ≤ high) : word? high x = some x :=
  if_pos ⟨Int.le_trans (by decide) hx, hhigh⟩

theorem count?_eq_some {n : Nat} (h : (n : Int) ≤ high) : count? high n = some n := by
  rw [count?, word?_eq_some (Int.natCast_nonneg n) h]
  rfl

/-- A loop does not give up if no pass through it does in a state that the passes lead to. -/
theorem foldlM_eq_some {α β : Type} {attempt : β → α → Option β} {step : β → α → β}
    (inv : β → Prop) :
    ∀ {l : List α} {b : β}, inv b →
      (∀ b, inv b → ∀ a ∈ l, attempt b a = some (step b a) ∧ inv (step b a)) →
      l.foldlM attempt b = some (l.foldl step b)
  | [], _, _, _ => rfl
  | a :: l, b, hb, hstep => by
    obtain ⟨hsome, hnext⟩ := hstep b hb a List.mem_cons_self
    rw [List.foldlM_cons, hsome, List.foldl_cons]
    exact foldlM_eq_some inv hnext fun b hb x hx => hstep b hb x (List.mem_cons_of_mem a hx)

namespace Graph

variable {g : Graph}

/-! ## 2. Room -/

/-- No rank lies above this: each rank that occurs after a control pass that stops at `max` may move
up by a chain that is one longer than the graph has nodes. -/
def rankBound (g : Graph) (max : Nat) : Nat := max + min (max + 1) g.nodes.size * (g.nodes.size + 1)

/-- What the data pass needs to stay within words: classes of reached nodes with words for their
places, and words for all chains. -/
structure Room (g : Graph) (high : Int) (control : NodeId → Int) (computed : List NodeId)
    (classes : List (Int × List NodeId)) : Prop where
  isClasses : Classes control computed classes
  exists_member : ∀ c ∈ classes, ∃ v, v ∈ c.2
  flow : ∀ v ∈ computed, (g.node? v).isSome ∧ g.isData v = false
  nonneg : ∀ v ∈ computed, 0 ≤ control v
  place_le : ∀ v ∈ computed, g.placedRank classes control v ≤ high
  chain_le : (g.nodes.size : Int) + 1 ≤ high

theorem generations_le : ∀ (fuel : Nat) (ids : List NodeId), (g.generations fuel ids).1 ≤ fuel + 1
  | fuel, [] => by cases fuel <;> exact Nat.zero_le _
  | 0, _ :: _ => Nat.le_refl 1
  | fuel + 1, _ :: _ => Nat.succ_le_succ (generations_le fuel _)

/-- A chain counts as one more than the number of nodes at most, which is what a cycle counts as. -/
theorem longestChain_le (g : Graph) (id : NodeId) : (g.longestChain id).1 ≤ g.nodes.size + 1 :=
  generations_le _ _

/-- A class has a member. -/
theorem exists_of_mem_rankClasses {computed : List NodeId} {c : Int × List NodeId}
    (hc : c ∈ g.rankClasses computed) : ∃ v, v ∈ c.2 := by
  rw [rankClasses_eq] at hc
  obtain ⟨r, hr, rfl⟩ := List.mem_map.1 hc
  rw [mem_sortBy, List.mem_eraseDups] at hr
  obtain ⟨v, hv, hrank⟩ := List.mem_map.1 hr
  exact ⟨v, List.mem_filter.2 ⟨hv, decide_eq_true hrank⟩⟩

section Bound

variable {starts : List NodeId} {max : Nat} {first : ControlPass} {control : NodeId → Int}
  {classes : List (Int × List NodeId)}

/-- A reached node was reached within the bound. -/
theorem ControlRanked.bounds (h : g.ControlRanked starts (max + 1) first control) {v : NodeId}
    (hv : v ∈ first.computed) : 0 ≤ control v ∧ control v ≤ max := by
  have hlt := (h.ranks v).lt
  exact ⟨(h.nonneg_iff v).2 hv, by omega⟩

/-- **No more ranks occur than frontiers were processed, and no more than there are nodes.** -/
theorem ControlRanked.card_ranks_le (h : g.ControlRanked starts (max + 1) first control)
    (hnode : ∀ v ∈ first.computed, (g.node? v).isSome) :
    (first.computed.map control).toFinset.card ≤ min (max + 1) g.nodes.size := by
  refine Nat.le_min.2 ⟨?_, ?_⟩
  · have hsub : (first.computed.map control).toFinset ⊆
        (Finset.range (max + 1)).image Nat.cast := by
      intro r hr
      obtain ⟨v, hv, rfl⟩ := List.mem_map.1 (List.mem_toFinset.1 hr)
      obtain ⟨hlow, hhigh⟩ := h.bounds hv
      exact Finset.mem_image.2 ⟨(control v).toNat, Finset.mem_range.2 (by omega),
        Int.toNat_of_nonneg hlow⟩
    exact (Finset.card_le_card hsub).trans (Finset.card_image_le.trans (Finset.card_range _).le)
  · have hkeys : first.computed ⊆ g.nodes.keys := fun v hv =>
      (OrderedMap.get?_isSome_iff _ _).1 (hnode v hv)
    have hlen := (List.subperm_of_subset h.nodup_computed hkeys).length_le
    rw [length_keys] at hlen
    exact ((List.toFinset_card_le _).trans (List.length_map _).le).trans hlen

/-- **No place lies above the bound.** -/
theorem Classes.placedRank_le (hc : Classes control first.computed classes)
    (h : g.ControlRanked starts (max + 1) first control)
    (hnode : ∀ v ∈ first.computed, (g.node? v).isSome) {v : NodeId} (hv : v ∈ first.computed) :
    g.placedRank classes control v ≤ g.rankBound max := by
  have hshift : g.shift classes (control v) ≤ min (max + 1) g.nodes.size * (g.nodes.size + 1) := by
    calc g.shift classes (control v)
        = ∑ ρ ∈ (first.computed.map control).toFinset with ρ ≤ control v,
            g.depthAt control first.computed ρ := hc.shift_eq _
      _ ≤ _ • (g.nodes.size + 1) :=
          Finset.sum_le_card_nsmul _ _ _ fun _ _ => classDepth_le fun w _ => g.longestChain_le w
      _ ≤ (first.computed.map control).toFinset.card * (g.nodes.size + 1) :=
          Nat.mul_le_mul_right _ (Finset.card_filter_le _ _)
      _ ≤ min (max + 1) g.nodes.size * (g.nodes.size + 1) :=
          Nat.mul_le_mul_right _ (h.card_ranks_le hnode)
  have hcontrol := (h.bounds hv).2
  rw [placedRank, rankBound]
  omega

/-- A graph with a node leaves room for one more frontier and for the longest chain. -/
theorem le_rankBound (hsize : 0 < g.nodes.size) (max : Nat) :
    max + 1 ≤ g.rankBound max ∧ g.nodes.size + 1 ≤ g.rankBound max := by
  have hmin : 1 ≤ min (max + 1) g.nodes.size := Nat.le_min.2 ⟨Nat.succ_pos max, hsize⟩
  have hprod := Nat.mul_le_mul_right (g.nodes.size + 1) hmin
  rw [rankBound]
  omega

/-- **The bound makes room** for the classes that the control pass leaves behind. -/
theorem ControlRanked.room (h : g.ControlRanked starts (max + 1) first control)
    (hflow : ∀ v ∈ first.computed, (g.node? v).isSome ∧ g.isData v = false)
    (hsize : 0 < g.nodes.size) (hbound : (g.rankBound max : Int) ≤ high) :
    g.Room high control first.computed ((g.withRanks control).rankClasses first.computed) := by
  have hc : Classes control first.computed ((g.withRanks control).rankClasses first.computed) :=
    rankClasses_spec fun v hv => (hflow v hv).1
  have hchain := (le_rankBound hsize max).2
  exact
    { isClasses := hc
      exists_member := fun _ => exists_of_mem_rankClasses
      flow := hflow
      nonneg := fun _ hv => (h.bounds hv).1
      place_le := fun _ hv =>
        Int.le_trans (hc.placedRank_le h (fun w hw => (hflow w hw).1) hv) hbound
      chain_le := by omega }

end Bound

/-! ## 3. Scheduling in words -/

/-- `advance` in words: it counts the frontiers. -/
def advanceInWords (high : Int) :
    (fuel rank : Nat) → Graph → (frontier computed : List NodeId) → Option ControlPass
  | _, _, g, [], computed => some ⟨g, computed, none⟩
  | 0, rank, g, _ :: _, computed => some ⟨g, computed, some rank⟩
  | fuel + 1, rank, g, id :: ids, computed => do
    let moved := g.advancing rank (id :: ids)
    let next ← count? high (rank + 1)
    advanceInWords high fuel next (g.setRanks moved rank) (g.nextFrontier moved)
      (computed ++ moved.filter (!computed.contains ·))

/-- `controlPass` in words. -/
def controlPassInWords (g : Graph) (high : Int) (max : Nat) (entries : List NodeId) :
    Option ControlPass :=
  advanceInWords high (max + 1) 0 g entries.eraseDups []

/-- `generations` in words: it counts them from the first one on. -/
def generationsInWords (g : Graph) (high : Int) :
    (fuel length : Nat) → List NodeId → Option (Nat × Bool)
  | _, length, [] => some (length, false)
  | 0, length, _ :: _ => do
    let length ← count? high (length + 1)
    some (length, true)
  | fuel + 1, length, id :: ids => do
    let length ← count? high (length + 1)
    generationsInWords g high fuel length (g.producersOf (id :: ids))

/-- `longestChain` in words. -/
def longestChainInWords (g : Graph) (high : Int) (id : NodeId) : Option (Nat × Bool) :=
  g.generationsInWords high g.nodes.size 0 (g.producers id)

/-- `rankGenerations` in words: each generation is ranked one below the last. -/
def rankGenerationsInWords (high : Int) : (fuel : Nat) → (rank : Int) → List NodeId →
    Graph × OrderedMap NodeId Int → Option (Graph × OrderedMap NodeId Int)
  | _, _, [], s => some s
  | 0, _, _ :: _, s => some s
  | fuel + 1, rank, id :: ids, s => do
    let rank ← word? high (rank - 1)
    rankGenerationsInWords high fuel rank (s.1.producersOf (id :: ids))
      ((id :: ids).foldl (offerRank rank) s)

/-- `rankProducers` in words. -/
def rankProducersInWords (high : Int) (s : Graph × OrderedMap NodeId Int) (id : NodeId) :
    Option (Graph × OrderedMap NodeId Int) :=
  rankGenerationsInWords high s.1.nodes.size (s.1.rank id) (s.1.producers id) s

/-- `placeClass` in words: the rank of the class is a sum of three numbers, and the offset grows. -/
def placeClassInWords (high : Int) (s : DataPass) (cls : Int × List NodeId) : Option DataPass := do
  let chains ← cls.2.mapM (s.graph.longestChainInWords high)
  let longest := (chains.map Prod.fst).foldl max 0
  let moved ← word? high (cls.1 + s.offset)
  let rank ← word? high (moved + longest)
  let placed := cls.2.foldl (fun g id => g.setRank id rank) s.graph
  let done ← cls.2.foldlM (rankProducersInWords high) (placed, s.ranked)
  let offset ← word? high (s.offset + longest)
  some
    { graph := done.1
      ranked := done.2
      offset := offset
      cyclic := s.cyclic ++ cls.2.filter fun id => (s.graph.longestChain id).2 }

/-- `dataPass` in words. -/
def dataPassInWords (g : Graph) (high : Int) (computed : List NodeId) : Option DataPass :=
  (g.rankClasses computed).foldlM (placeClassInWords high) ⟨g, .empty, 0, []⟩

/-- **Scheduling in words**, the greatest of which is `high`: the steps of `schedule`, and nothing
if one of the numbers they compute is no word. -/
def scheduleInWords (g : Graph) (high : Int) (maxFrontiers : Nat) (kinds : List EntryKind) :
    Option (Graph × Report) :=
  let g := g.resetRanks
  let entries := g.entryNodes kinds
  if entries.isEmpty then some (g, { Report.none with branches := g.branches })
  else do
    let control ← g.controlPassInWords high maxFrontiers entries
    let data ← control.graph.dataPassInWords high control.computed
    some (data.graph,
      { entries := entries
        scheduled := control.computed.length + data.ranked.size
        diagnostics := control.runaway?.toList.map (.runawayControlFlow g.name ·) ++
          data.cyclic.map (.dataCycle g.name ·)
        branches := g.branches })

/-! ## 4. Counting frontiers and generations -/

theorem advanceInWords_eq :
    ∀ (fuel rank : Nat) (g : Graph) (frontier computed : List NodeId),
      ((rank + fuel : Nat) : Int) ≤ high →
      advanceInWords high fuel rank g frontier computed =
        some (advance fuel rank g frontier computed)
  | fuel, _, _, [], _, _ => by cases fuel <;> rfl
  | 0, _, _, _ :: _, _, _ => rfl
  | fuel + 1, rank, g, id :: ids, computed, h => by
    have hnext : ((rank + 1 : Nat) : Int) ≤ high := by omega
    simp only [advanceInWords, advance, count?_eq_some hnext, Option.bind_eq_bind, Option.bind_some]
    exact advanceInWords_eq fuel (rank + 1) _ _ _ (by omega)

theorem controlPassInWords_eq (g : Graph) {max : Nat} (h : (max : Int) + 1 ≤ high)
    (entries : List NodeId) :
    g.controlPassInWords high max entries = some (g.controlPass max entries) :=
  advanceInWords_eq (max + 1) 0 g _ [] (by omega)

/-- Counting from the first generation on comes to the same as counting from the last one back. -/
theorem generationsInWords_eq :
    ∀ (fuel length : Nat) (ids : List NodeId), ((length + fuel + 1 : Nat) : Int) ≤ high →
      g.generationsInWords high fuel length ids =
        some (length + (g.generations fuel ids).1, (g.generations fuel ids).2)
  | fuel, _, [], _ => by cases fuel <;> rfl
  | 0, length, _ :: _, h => by
    simp only [generationsInWords, generations, count?_eq_some h, Option.bind_eq_bind,
      Option.bind_some]
  | fuel + 1, length, id :: ids, h => by
    have hnext : ((length + 1 : Nat) : Int) ≤ high := by omega
    simp only [generationsInWords, generations, count?_eq_some hnext, Option.bind_eq_bind,
      Option.bind_some]
    rw [generationsInWords_eq fuel (length + 1) _ (by omega), Nat.add_right_comm, Nat.add_assoc]

theorem longestChainInWords_eq (h : (g.nodes.size : Int) + 1 ≤ high) (id : NodeId) :
    g.longestChainInWords high id = some (g.longestChain id) := by
  rw [longestChainInWords, generationsInWords_eq _ 0 _ (by omega), Nat.zero_add, longestChain]

theorem mapM_longestChainInWords (h : (g.nodes.size : Int) + 1 ≤ high) (ids : List NodeId) :
    ids.mapM (g.longestChainInWords high) = some (ids.map g.longestChain) := by
  rw [show g.longestChainInWords high = fun id => pure (g.longestChain id) from
    funext (longestChainInWords_eq h), List.mapM_pure]
  rfl

/-! ## 5. Ranking producers -/

theorem bare_foldl_offerRank (rank : Int) (ids : List NodeId) (s : Graph × OrderedMap NodeId Int) :
    (ids.foldl (offerRank rank) s).1.bare = s.1.bare :=
  foldl_eq_of_step (fun s : Graph × OrderedMap NodeId Int => s.1.bare)
    (fun s id => bare_setRank s.1 id _) ids s

/-- From a rank that leaves room for all generations the ranks do not run below zero. -/
theorem rankGenerationsInWords_eq :
    ∀ (fuel : Nat) {rank : Int} (ids : List NodeId) {s : Graph × OrderedMap NodeId Int},
      s.1.bare = g.bare →
      ((g.generations fuel ids).1 : Int) ≤ rank → rank ≤ high →
      rankGenerationsInWords high fuel rank ids s = some (rankGenerations fuel rank ids s)
  | fuel, _, [], _, _, _, _ => by cases fuel <;> rfl
  | 0, _, _ :: _, _, _, _, _ => rfl
  | fuel + 1, rank, id :: ids, s, hbare, hroom, hhigh => by
    have hdeeper : ((g.generations fuel (g.producersOf (id :: ids))).1 : Int) ≤ rank - 1 := by
      simp only [generations] at hroom
      omega
    have hword : word? high (rank - 1) = some (rank - 1) := word?_eq_some (by omega) (by omega)
    simp only [rankGenerationsInWords, rankGenerations, hword, Option.bind_eq_bind,
      Option.bind_some]
    rw [producersOf_eq_of_bare hbare]
    exact rankGenerationsInWords_eq fuel _ ((bare_foldl_offerRank _ _ s).trans hbare) hdeeper
      (by omega)

theorem rankProducersInWords_eq {s : Graph × OrderedMap NodeId Int} {id : NodeId}
    (hbare : s.1.bare = g.bare) (hroom : ((g.longestChain id).1 : Int) ≤ s.1.rank id)
    (hhigh : s.1.rank id ≤ high) :
    rankProducersInWords high s id = some (rankProducers s id) := by
  refine rankGenerationsInWords_eq _ _ hbare ?_ hhigh
  rw [size_eq_of_bare hbare, producers_eq_of_bare hbare]
  exact hroom

/-- Members of a class keep their rank while their producers are ranked, one
member after the other. -/
theorem Offered.foldlM_rankProducersInWords {base : NodeId → Int} {offers : NodeId → Int → Prop}
    {s : Graph × OrderedMap NodeId Int} (h : g.Offered base offers s)
    (hdata : ∀ p r, offers p r → g.isData p = true) {ids : List NodeId}
    (hids : ∀ v ∈ ids, (g.node? v).isSome ∧ g.isData v = false)
    (hroom : ∀ v ∈ ids, ((g.longestChain v).1 : Int) ≤ base v ∧ base v ≤ high) :
    ids.foldlM (rankProducersInWords high) s = some (ids.foldl Graph.rankProducers s) := by
  refine foldlM_eq_some
    (fun s => ∃ offers, g.Offered base offers s ∧ ∀ p r, offers p r → g.isData p = true)
    ⟨offers, h, hdata⟩ ?_
  rintro s ⟨offers, h, hdata⟩ v hv
  obtain ⟨hnode, hflow⟩ := hids v hv
  have hrank := h.rank_eq hdata hnode hflow
  obtain ⟨hlow, hhigh⟩ := hroom v hv
  rw [← hrank] at hlow hhigh
  exact ⟨rankProducersInWords_eq h.bare_eq hlow hhigh, _, h.rankProducers hdata hnode hflow,
    fun p r hr => hr.elim (hdata p r) OffersOf.isData⟩

/-! ## 6. Class after class -/

section Stages

variable {control : NodeId → Int} {computed : List NodeId}
  {classes done rest : List (Int × List NodeId)} {c : Int × List NodeId} {s : DataPass}

/-- The place of a member bounds what is added up on the way to it. -/
theorem Room.bounds (room : g.Room high control computed classes)
    (h : g.Stage control classes done s) (hsplit : classes = done ++ c :: rest) :
    0 ≤ c.1 ∧ 0 ≤ s.offset ∧ c.1 + s.offset + (g.classDepth c.2 : Nat) ≤ high := by
  have hcmem : c ∈ classes := List.mem_iff_append.2 ⟨_, _, hsplit⟩
  obtain ⟨v, hv⟩ := room.exists_member c hcmem
  obtain ⟨hcomp, hcontrol⟩ := (room.isClasses.mem c hcmem v).1 hv
  refine ⟨hcontrol ▸ room.nonneg v hcomp, h.offset_eq ▸ Int.natCast_nonneg _, ?_⟩
  rw [h.place_eq room.isClasses hsplit hv]
  exact room.place_le v hcomp

/-- **One class**: no number is out of words. -/
theorem Room.placeClassInWords_eq (room : g.Room high control computed classes)
    (h : g.Stage control classes done s) (hsplit : classes = done ++ c :: rest) :
    placeClassInWords high s c = some (Graph.placeClass s c) := by
  have hcmem : c ∈ classes := List.mem_iff_append.2 ⟨_, _, hsplit⟩
  have hids : ∀ v ∈ c.2, (g.node? v).isSome ∧ g.isData v = false := fun v hv =>
    room.flow v ((room.isClasses.mem c hcmem v).1 hv).1
  obtain ⟨hclass, hoffset, hhigh⟩ := room.bounds h hsplit
  -- every member has the place of the class, which leaves room for its depth
  have hranks : ∀ v ∈ c.2,
      ((g.longestChain v).1 : Int) ≤ g.stageRank control classes (done ++ [c]) v ∧
      g.stageRank control classes (done ++ [c]) v ≤ high := by
    intro v hv
    have hdeep := le_classDepth (g := g) hv
    rw [stageRank_of_mem hv, ← h.place_eq room.isClasses hsplit hv]
    omega
  have hsize : s.graph.nodes.size = g.nodes.size := size_eq_of_bare h.offered.bare_eq
  have hlongest := mapM_longestChainInWords (hsize ▸ room.chain_le) c.2
  have hmoved : word? high (c.1 + s.offset) = some (c.1 + s.offset) :=
    word?_eq_some (by omega) (by omega)
  have hrank : word? high (c.1 + s.offset + (g.classDepth c.2 : Nat)) =
      some (c.1 + s.offset + (g.classDepth c.2 : Nat)) := word?_eq_some (by omega) (by omega)
  have hnext : word? high (s.offset + (g.classDepth c.2 : Nat)) =
      some (s.offset + (g.classDepth c.2 : Nat)) := word?_eq_some (by omega) (by omega)
  have hplaced := h.placed room.isClasses hsplit fun v hv => (hids v hv).2
  have hfold := hplaced.foldlM_rankProducersInWords (fun p r ⟨_, _, ho⟩ => ho.isData) hids hranks
  rw [Graph.setRanks] at hfold
  simp only [placeClassInWords, Graph.placeClass, hlongest, h.classDepth_eq, hmoved, hrank,
    hnext, hfold, Option.bind_eq_bind, Option.bind_some]

/-- The classes that are left, one after the other. -/
theorem Room.foldlM_placeClassInWords (room : g.Room high control computed classes) :
    ∀ (rest done : List (Int × List NodeId)) (s : DataPass), classes = done ++ rest →
      g.Stage control classes done s →
      rest.foldlM (placeClassInWords high) s = some (rest.foldl Graph.placeClass s)
  | [], _, _, _, _ => rfl
  | c :: rest, done, s, hsplit, h => by
    rw [List.foldlM_cons, room.placeClassInWords_eq h hsplit, List.foldl_cons]
    exact room.foldlM_placeClassInWords rest (done ++ [c]) _
      (by rw [hsplit, List.append_assoc]; rfl) (h.placeClass room.isClasses hsplit room.flow)

end Stages

/-- **The data pass in words** after a control pass that leaves room. -/
theorem ControlRanked.dataPassInWords_eq {starts : List NodeId} {max : Nat} {first : ControlPass}
    {control : NodeId → Int} (h : g.ControlRanked starts (max + 1) first control)
    (hflow : ∀ v ∈ first.computed, (g.node? v).isSome ∧ g.isData v = false)
    (hsize : 0 < g.nodes.size) (room : (g.rankBound max : Int) ≤ high) :
    first.graph.dataPassInWords high first.computed =
      some (first.graph.dataPass first.computed) := by
  rw [h.graph_eq]
  exact (h.room hflow hsize room).foldlM_placeClassInWords _ [] _ rfl (stage_nil g control _)

/-- **Scheduling in words is scheduling**, if the words leave room. -/
theorem scheduleInWords_eq (hg : g.Intact) (hflow : g.FlowApart) {max : Nat}
    (kinds : List EntryKind) (room : (g.rankBound max : Int) ≤ high) :
    g.scheduleInWords high max kinds = some (g.schedule max kinds) := by
  obtain ⟨control, classes, hs⟩ := passes_scheduled hg hflow max kinds
  simp only [scheduleInWords, schedule, entryNodes_resetRanks]
  cases hnil : g.entryNodes kinds with
  | nil => rfl
  | cons v vs =>
    -- an entry is a node, so there is room for one more frontier and for the longest chain
    have hsize : 0 < g.nodes.size := by
      have hv : v ∈ g.nodes.keys := (OrderedMap.get?_isSome_iff _ _).1
        (isSome_of_mem_entryNodes hg (hnil ▸ List.mem_cons_self))
      exact length_keys g ▸ List.length_pos_of_mem hv
    have hfrontiers := (le_rankBound hsize max).1
    have hcontrol :=
      controlPassInWords_eq g.resetRanks (show (max : Int) + 1 ≤ high by omega) (v :: vs)
    have hdata := hs.ranked.dataPassInWords_eq hs.flow hsize room
    rw [firstPass, hnil] at hdata
    simp only [List.isEmpty_cons, Bool.false_eq_true, if_false, hcontrol, hdata,
      Option.bind_eq_bind, Option.bind_some]

/-- **Final ranks lie below the bound**, and above the mark of unscheduled nodes. -/
theorem Scheduled.rank_bounds {starts : List NodeId} {max : Nat} {first : ControlPass}
    {second : DataPass} {control : NodeId → Int} {classes : List (Int × List NodeId)}
    (h : g.Scheduled starts (max + 1) first second control classes) (v : NodeId) :
    unscheduled ≤ second.graph.rank v ∧ second.graph.rank v ≤ g.rankBound max := by
  have hplace : ∀ w ∈ first.computed, g.placedRank classes control w ≤ g.rankBound max :=
    fun w hw => h.isClasses.placedRank_le h.ranked (fun u hu => (h.flow u hu).1) hw
  have hmark : unscheduled < 0 := by decide
  by_cases hrank : second.graph.rank v = unscheduled
  · rw [hrank]
    exact ⟨Int.le_refl _, by omega⟩
  rcases h.computed_or_offered hrank with hv | ⟨r, hr⟩
  · have hlow := h.depth_le_placedRank hv
    have hhigh := hplace v hv
    rw [h.rank_of_computed hv]
    omega
  · -- an offer is below the place of the node that makes it
    obtain ⟨w, hw, k, -, -, -, hk⟩ := h.stage.offered.offered v r hr
    have hlow := h.nonneg_of_offered hr
    have hhigh := hplace w (h.mem_members.1 hw)
    rw [h.rank_of_offered hr]
    omega

end Graph

/-! ## 7. The law -/

/-- **Ranks stay within words.**  On a built graph in which no control link touches a data node,
with or without cycles: if the bound on its ranks is a word of 32 bits, scheduling in such words
does not give up and computes what scheduling computes.  All ranks then lie between the mark of
unscheduled nodes and the bound. -/
theorem ranks_stay_in_words (g : Graph) (built : g.Built) (apart : g.FlowApart) (max : Nat)
    (kinds : List EntryKind)
    (room : max + min (max + 1) g.nodes.size * (g.nodes.size + 1) ≤ 2 ^ 31 - 1) :
    g.scheduleInWords (2 ^ 31 - 1) max kinds = some (g.schedule max kinds) ∧
      ∀ id, -1 ≤ (g.schedule max kinds).1.rank id ∧
        (g.schedule max kinds).1.rank id ≤
          (max + min (max + 1) g.nodes.size * (g.nodes.size + 1) : Nat) := by
  have hroom : (g.rankBound max : Int) ≤ 2 ^ 31 - 1 := by
    rw [Graph.rankBound]
    omega
  refine ⟨Graph.scheduleInWords_eq built.intact apart kinds hroom, fun id => ?_⟩
  obtain ⟨control, classes, hs⟩ := Graph.passes_scheduled built.intact apart max kinds
  rw [Graph.schedule_eq]
  exact hs.rank_bounds id

/-- In the graph with two cycles the waiting node of the last frontier moves up with the printing
one, by a chain that does not end. -/
theorem loop_ranks_stay_in_words :
    loopGraph.FlowApart ∧
      4 + min (4 + 1) loopGraph.nodes.size * (loopGraph.nodes.size + 1) = 39 ∧
      loopGraph.scheduleInWords (2 ^ 31 - 1) 4 [.update] = some (loopGraph.schedule 4 [.update]) ∧
      (loopGraph.schedule 4 [.update]).1.rank (exampleId 2) = 11 ∧
      ∀ id, -1 ≤ (loopGraph.schedule 4 [.update]).1.rank id ∧
        (loopGraph.schedule 4 [.update]).1.rank id ≤ 39 := by
  have apart : loopGraph.FlowApart := by decide +kernel
  have hbound : 4 + min (4 + 1) loopGraph.nodes.size * (loopGraph.nodes.size + 1) = 39 := by
    decide +kernel
  obtain ⟨hwords, hranks⟩ :=
    ranks_stay_in_words loopGraph loopGraph_built apart 4 [.update] (by rw [hbound]; decide)
  rw [hbound] at hranks
  exact ⟨apart, hbound, hwords, by decide +kernel, hranks⟩

/-- If that rank is no word, scheduling in words gives up. -/
example : (loopGraph.scheduleInWords 10 4 [.update]).isNone := by decide +kernel

end FlowScript
