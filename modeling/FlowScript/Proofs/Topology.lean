/-
# Ranks are a matter of the topology

Scheduling reads links, categories and positions.  It never reads a slot, and it takes all old ranks
back before it starts; so the ranks it gives depend on the topology alone
(`Graph.clearValues_schedule`), and ranking a graph anew that has only been run since gives what it
has.

Both passes are loops that rewrite a graph.  Emptying all slots commutes with each function they are
made of, from the write of one rank up to a whole pass.
-/
import FlowScript.Proofs.Shape

namespace FlowScript

namespace Graph

/-! ## 1. Writing and reading ranks -/

variable (g : Graph)

theorem setRank_clearValues (id : NodeId) (r : Int) :
    g.clearValues.setRank id r = (g.setRank id r).clearValues := by
  simp only [setRank, clearValues, modifyNode_eq_touch, mapNodes_eq_touch, touch_touch]
  refine touch_congr g fun k n _ => ?_
  split <;> rfl

/-- A loop that writes ranks does so with or without slots. -/
theorem foldl_setRank_clearValues (ids : List NodeId) (r : Int) :
    ids.foldl (fun g id => g.setRank id r) g.clearValues =
      (ids.foldl (fun g id => g.setRank id r) g).clearValues :=
  List.foldl_hom clearValues fun g id => setRank_clearValues g id r

theorem producers_clearValues : g.clearValues.producers = g.producers :=
  producers_eq_of_bare (bare_clearValues g)

theorem size_clearValues : g.clearValues.nodes.size = g.nodes.size :=
  size_eq_of_bare (bare_clearValues g)

/-! ## 2. The control pass -/

theorem advancing_clearValues (rank : Nat) (frontier : List NodeId) :
    g.clearValues.advancing rank frontier = g.advancing rank frontier := by
  refine List.filter_congr fun id _ => ?_
  rw [node?_clearValues]
  cases g.node? id <;> rfl

theorem advance_clearValues :
    ∀ (fuel rank : Nat) (g : Graph) (frontier computed : List NodeId),
      advance fuel rank g.clearValues frontier computed =
        { advance fuel rank g frontier computed with
          graph := (advance fuel rank g frontier computed).graph.clearValues }
  | 0, _, _, [], _ => rfl
  | 0, _, _, _ :: _, _ => rfl
  | _ + 1, _, _, [], _ => rfl
  | fuel + 1, rank, g, id :: ids, computed => by
    unfold advance
    simp only [advancing_clearValues, setRanks, foldl_setRank_clearValues]
    exact advance_clearValues fuel (rank + 1) _ _ _

theorem controlPass_clearValues (max : Nat) (entries : List NodeId) :
    g.clearValues.controlPass max entries =
      { g.controlPass max entries with graph := (g.controlPass max entries).graph.clearValues } :=
  advance_clearValues _ _ g _ _

/-! ## 3. The data pass -/

theorem producersOf_clearValues (ids : List NodeId) :
    g.clearValues.producersOf ids = g.producersOf ids := by
  rw [producersOf, producersOf, producers_clearValues]

theorem generations_clearValues :
    ∀ (fuel : Nat) (ids : List NodeId), g.clearValues.generations fuel ids = g.generations fuel ids
  | 0, [] => rfl
  | 0, _ :: _ => rfl
  | _ + 1, [] => rfl
  | fuel + 1, id :: ids => by
    simp only [generations, producersOf_clearValues, generations_clearValues fuel]

theorem longestChain_clearValues : g.clearValues.longestChain = g.longestChain := by
  funext id
  simp only [longestChain, size_clearValues, producers_clearValues, generations_clearValues]

/-- The graph of a ranking loop with empty slots. -/
def emptied (s : Graph × OrderedMap NodeId Int) : Graph × OrderedMap NodeId Int :=
  (s.1.clearValues, s.2)

theorem offerRank_emptied (rank : Int) (s : Graph × OrderedMap NodeId Int) (id : NodeId) :
    offerRank rank (emptied s) id = emptied (offerRank rank s id) := by
  simp only [offerRank, emptied, setRank_clearValues]

theorem rankGenerations_emptied :
    ∀ (fuel : Nat) (rank : Int) (ids : List NodeId) (s : Graph × OrderedMap NodeId Int),
      rankGenerations fuel rank ids (emptied s) = emptied (rankGenerations fuel rank ids s)
  | 0, _, [], _ => rfl
  | 0, _, _ :: _, _ => rfl
  | _ + 1, _, [], _ => rfl
  | fuel + 1, rank, id :: ids, s => by
    have hoffers : (id :: ids).foldl (offerRank (rank - 1)) (emptied s) =
        emptied ((id :: ids).foldl (offerRank (rank - 1)) s) :=
      List.foldl_hom emptied (offerRank_emptied (rank - 1))
    have hproducers : (emptied s).1.producersOf (id :: ids) = s.1.producersOf (id :: ids) :=
      producersOf_clearValues s.1 _
    unfold rankGenerations
    rw [hoffers, hproducers]
    exact rankGenerations_emptied fuel (rank - 1) _ _

theorem rankProducers_emptied (s : Graph × OrderedMap NodeId Int) (id : NodeId) :
    rankProducers (emptied s) id = emptied (rankProducers s id) := by
  have hsize : (emptied s).1.nodes.size = s.1.nodes.size := size_clearValues s.1
  have hrank : (emptied s).1.rank id = s.1.rank id := rank_clearValues s.1 id
  have hproducers : (emptied s).1.producers id = s.1.producers id := by
    rw [emptied, producers_clearValues]
  rw [rankProducers, hsize, hrank, hproducers]
  exact rankGenerations_emptied _ _ _ s

/-- A data pass on the way, with empty slots. -/
def emptiedPass (s : DataPass) : DataPass := { s with graph := s.graph.clearValues }

theorem placeClass_emptied (s : DataPass) (cls : Int × List NodeId) :
    placeClass (emptiedPass s) cls = emptiedPass (placeClass s cls) := by
  have hproducers : ∀ placed : Graph, cls.2.foldl rankProducers (placed.clearValues, s.ranked) =
      emptied (cls.2.foldl rankProducers (placed, s.ranked)) := fun placed =>
    show cls.2.foldl rankProducers (emptied (placed, s.ranked)) = _ from
      List.foldl_hom emptied rankProducers_emptied
  simp only [placeClass, emptiedPass, longestChain_clearValues, foldl_setRank_clearValues,
    hproducers, emptied]

theorem dataPass_clearValues (computed : List NodeId) :
    g.clearValues.dataPass computed = emptiedPass (g.dataPass computed) := by
  have hclasses : g.clearValues.rankClasses computed = g.rankClasses computed := by
    simp only [rankClasses, rank_clearValues]
  have hloop : (g.rankClasses computed).foldl placeClass (emptiedPass ⟨g, .empty, 0, []⟩) =
      emptiedPass ((g.rankClasses computed).foldl placeClass ⟨g, .empty, 0, []⟩) :=
    List.foldl_hom emptiedPass placeClass_emptied
  rw [dataPass, hclasses]
  exact hloop

/-! ## 4. The whole pass -/

theorem clearValues_resetRanks : g.resetRanks.clearValues = g.bare := by
  simp only [resetRanks, clearValues, bare, mapNodes_eq_touch, touch_touch]
  rfl

theorem resetRanks_bare : g.bare.resetRanks = g.bare := by
  simp only [resetRanks, bare, mapNodes_eq_touch, touch_touch]
  rfl

/-- **The ranks that scheduling gives are those of the bare graph.** -/
theorem clearValues_schedule (max : Nat) (kinds : List EntryKind) :
    (g.schedule max kinds).1.clearValues = (g.bare.schedule max kinds).1 := by
  have hentries : g.bare.entryNodes kinds = g.resetRanks.entryNodes kinds := by
    rw [← clearValues_resetRanks, entryNodes_eq_of_bare (bare_clearValues _)]
  unfold schedule
  simp only [resetRanks_bare, hentries]
  split
  · exact clearValues_resetRanks g
  · rw [← clearValues_resetRanks, controlPass_clearValues, dataPass_clearValues]
    simp only [emptiedPass]

/-- Graphs with the same topology are given the same ranks. -/
theorem clearValues_schedule_congr {g g' : Graph} (h : g.bare = g'.bare) (max : Nat)
    (kinds : List EntryKind) :
    (g.schedule max kinds).1.clearValues = (g'.schedule max kinds).1.clearValues := by
  rw [clearValues_schedule, clearValues_schedule, h]

end Graph

end FlowScript
