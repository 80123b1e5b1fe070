/-
# The walks of a processor are kept in order

A processor keeps its walks in two stores: cursors by kind, and the list of paused walks.  Four
calls take these lists apart and put them together again, some of them when they fail halfway, and
the graph may lose nodes between any two calls.  If one entry ever had two walks, its nodes would be
evaluated twice in a tick; if a paused walk were at a node that is gone, it could never go on.

* `InOrder` is what walking keeps of the list of paused walks: no two of one kind from one node, and
  each at a node of the graph.  A walk that has not completed has stopped at a node of the graph
  (`Scene.walkWithin_stopped`), so what is put back is in order if what was taken was.
* `Tracked` is the invariant between requests.  Places are only promised while the binding is up to
  date: an edit that takes nodes away makes it old, and the next binding drops the walks that have
  lost their node.
* `walks_stay_in_order` is the law over all lists of requests.
-/
import FlowScript.Proofs.Freshness

namespace FlowScript

universe u

/-! ## 1. Where a walk stops -/

/-- A walk that has not completed, because it is paused, suspended or has failed, is
at a node of the graph. -/
theorem Scene.walkWithin_stopped {σ : Type u} [Behaves σ] {memo : Memoization} {time : FrameTime}
    {bound : Nat} :
    ∀ {budget : Nat} {s : Scene σ} {id : NodeId},
      (walkWithin memo time bound budget s id).result ≠ .ok .completed →
      (s.graph.node? (walkWithin memo time bound budget s id).current).isSome
  | 0, s, id, h => by
    unfold walkWithin at h ⊢
    split at h
    · next hranked =>
      rw [if_pos hranked]
      exact Option.isSome_of_any hranked
    · exact absurd rfl h
  | budget + 1, s, id, h => by
    unfold walkWithin at h ⊢
    split at h
    · next hranked =>
      have hid := Option.isSome_of_any hranked
      rw [if_pos hranked]
      simp only at h ⊢
      split at h
      · exact hid
      · exact hid
      · split at h
        · exact absurd rfl h
        · next next _ =>
          have hshape := clearValues_step memo time s id
          rw [← node?_isSome_of_shape hshape]
          exact walkWithin_stopped h
    · exact absurd rfl h

/-- What tells two walks apart: the kind, and the node from which the walk was started. -/
def PausedWalk.key (w : PausedWalk) : EntryKind × NodeId := (w.kind, w.cursor.entry)

theorem PausedWalk.isAt_iff {kind : EntryKind} {seed : NodeId} {w : PausedWalk} :
    w.isAt kind seed = true ↔ w.key = (kind, seed) := by
  simp [isAt, key]

namespace Processor

variable {σ : Type u}

/-- No two paused walks have the same kind and the same start, and each is at a node of the
graph. -/
structure InOrder (p : Processor σ) : Prop where
  nodup : (p.paused.map PausedWalk.key).Nodup
  placed : ∀ w ∈ p.paused, (p.graph.node? w.cursor.current).isSome

/-- Fewer walks on a graph with the same nodes are in order as well. -/
theorem InOrder.of_sublist {p q : Processor σ} (h : p.InOrder) (hsub : q.paused.Sublist p.paused)
    (hbare : q.graph.bare = p.graph.bare) : q.InOrder := by
  refine ⟨(hsub.map _).nodup h.nodup, fun w hw => ?_⟩
  rw [Graph.node?_isSome_eq_of_bare hbare]
  exact h.placed w (hsub.subset hw)

/-- Among walks that can be told apart, there is one of a kind from a node at most. -/
theorem not_mem_eraseP_isAt {kind : EntryKind} {seed : NodeId} :
    ∀ {ws : List PausedWalk}, (ws.map PausedWalk.key).Nodup →
      (kind, seed) ∉ (ws.eraseP (PausedWalk.isAt kind seed)).map PausedWalk.key
  | [], _ => List.not_mem_nil
  | w :: ws, h => by
    rw [List.map_cons, List.nodup_cons] at h
    by_cases hat : w.isAt kind seed = true
    · rw [List.eraseP_cons_of_pos hat, ← PausedWalk.isAt_iff.1 hat]
      exact h.1
    · rw [List.eraseP_cons_of_neg hat, List.map_cons, List.mem_cons, not_or]
      exact ⟨fun hkey => hat (PausedWalk.isAt_iff.2 hkey.symm), not_mem_eraseP_isAt h.2⟩

/-! ## 2. Bringing a processor up to date -/

/-- The walks of a processor are kept in order: no two of one kind from one node are paused, no two
cursors of one kind have the same entry, and while the binding is up to date, every paused walk is
at a node of the graph. -/
structure Tracked (p : Processor σ) : Prop where
  paused : (p.paused.map PausedWalk.key).Nodup
  cursors : ∀ kind cs, p.walks.get? kind = some cs → (cs.map Cursor.entry).Nodup
  placed : p.boundAt = p.graph.revision → ∀ w ∈ p.paused, (p.graph.node? w.cursor.current).isSome

namespace Tracked

variable {p q : Processor σ}

theorem inOrder (h : p.Tracked) (hbound : p.boundAt = p.graph.revision) : p.InOrder :=
  ⟨h.paused, h.placed hbound⟩

/-- What leaves the cursors alone keeps the walks in order, if it keeps the paused ones so. -/
theorem of_inOrder (h : p.Tracked) (hq : q.InOrder) (hwalks : q.walks = p.walks) : q.Tracked :=
  ⟨hq.nodup, hwalks ▸ h.cursors, fun _ => hq.placed⟩

theorem new {g : Graph} {r : Registry σ} {settings : Settings} {told : List Event}
    (h : Processor.new g r settings = (told, .ok p)) : p.Tracked := by
  unfold Processor.new at h
  simp only at h
  split at h
  · cases h
  · cases h
    exact ⟨List.nodup_nil, nofun, fun _ => List.forall_mem_nil _⟩

theorem rebind (h : p.Tracked) : p.rebind.state.Tracked := by
  unfold Processor.rebind
  split
  · exact h
  · next hold =>
    simp only
    split
    · exact ⟨h.paused, h.cursors, fun hbound => absurd hbound hold⟩
    · refine ⟨(List.filter_sublist.map _).nodup h.paused, h.cursors, fun _ w hw => ?_⟩
      exact (List.mem_filter.1 hw).2

theorem reschedule (h : p.Tracked) : p.reschedule.1.Tracked := by
  have hbare : p.reschedule.1.graph.bare = p.graph.bare := Graph.bare_schedule _ _ _
  refine ⟨h.paused, h.cursors, fun hbound w hw => ?_⟩
  rw [Graph.node?_isSome_eq_of_bare hbare]
  exact h.placed (hbound.trans (revision_eq_of_bare hbare)) w hw

/-- **Bringing a processor up to date keeps its walks in order**, and drops those
that have lost their node. -/
theorem ensureReady (h : p.Tracked) : p.ensureReady.state.Tracked := by
  unfold Processor.ensureReady
  simp only
  split
  · exact h.rebind
  · split
    · exact h.rebind
    · exact h.rebind.reschedule

/-- An edit makes the binding old, if it does anything; then nothing is promised about places. -/
theorem edit (h : p.Tracked) (hbound : p.boundAt ≤ p.graph.revision) (e : Edit) :
    Tracked { p with graph := e.run p.graph } := by
  rcases Edit.run_cases p.graph e with hsame | ⟨hrev, -⟩
  · rw [hsame]
    exact h
  · refine ⟨h.paused, h.cursors, fun hcurrent => ?_⟩
    simp only [hrev] at hcurrent
    omega

/-- A call that gets ready and walks keeps the walks in order, if walking does. -/
theorem onReady (h : p.Tracked) (hsynced : p.Synced)
    {walking : Processor σ → Reply (Processor σ) EvalError Status}
    (hwalking : ∀ q, q.Tracked → q.InOrder → q.Synced → (walking q).state.Tracked) :
    (p.onReady walking).state.Tracked := by
  rcases p.onReady_cases walking with ⟨hstate, -⟩ | ⟨hready, hstate, -⟩
  · rw [hstate]
    exact h.ensureReady
  · rw [hstate]
    exact hwalking _ h.ensureReady (h.ensureReady.inOrder hready.1) hsynced.ensureReady.1

end Tracked

/-! ## 3. Walks are put back in order -/

variable [Behaves σ]

theorem walkCursor_entry (p : Processor σ) (c : Cursor) : (p.walkCursor c).2.1.entry = c.entry :=
  rfl

theorem walkCursor_stopped {p : Processor σ} {c : Cursor}
    (h : (p.walkCursor c).2.2.2 ≠ .ok .completed) :
    ((p.walkCursor c).1.graph.node? (p.walkCursor c).2.1.current).isSome := by
  rw [Graph.node?_isSome_eq_of_bare (walkCursor_moved p c).1.bare]
  exact Scene.walkWithin_stopped (s := ⟨p.graph, p.table, []⟩) h

/-- A run keeps the cursors it was given: as many, with the same entries, in the same order. -/
theorem walkAll_entries :
    ∀ (cs : List Cursor) (p : Processor σ),
      (p.walkAll cs).2.1.map Cursor.entry = cs.map Cursor.entry
  | [], _ => rfl
  | c :: cs, p => by
    have hentry := walkCursor_entry p c
    unfold walkAll
    split
    · next h =>
      rw [h] at hentry
      rw [List.map_cons, List.map_cons, hentry]
    · next q c' events outcome h =>
      rw [h] at hentry
      simp only [List.map_cons, walkAll_entries cs q]
      split
      · rfl
      · rw [hentry]

/-- Resuming keeps some of the walks it was given, each at a node of the graph. -/
theorem resumeAll_kept :
    ∀ (ws : List PausedWalk) (p : Processor σ),
      (∀ w ∈ ws, (p.graph.node? w.cursor.current).isSome) →
      ((p.resumeAll ws).2.1.map PausedWalk.key).Sublist (ws.map PausedWalk.key) ∧
      ∀ w ∈ (p.resumeAll ws).2.1, ((p.resumeAll ws).1.graph.node? w.cursor.current).isSome
  | [], _, _ => ⟨List.Sublist.refl _, List.forall_mem_nil _⟩
  | w :: ws, p, hws => by
    have hmoved := (walkCursor_moved p w.cursor).1
    have hentry := walkCursor_entry p w.cursor
    have hstopped := @walkCursor_stopped _ _ p w.cursor
    have hrest : ∀ v ∈ ws, ((p.walkCursor w.cursor).1.graph.node? v.cursor.current).isSome := by
      intro v hv
      rw [Graph.node?_isSome_eq_of_bare hmoved.bare]
      exact hws v (List.mem_cons_of_mem _ hv)
    unfold resumeAll
    split
    · -- the walk that has failed is put back, and so are the walks that come after it
      next q c events e h =>
      rw [h] at hentry hstopped hrest
      have hkey : PausedWalk.key { w with cursor := c } = w.key := congrArg (Prod.mk w.kind) hentry
      refine ⟨?_, List.forall_mem_cons.2 ⟨hstopped nofun, hrest⟩⟩
      rw [List.map_cons, List.map_cons, hkey]
    · next q c events outcome h =>
      rw [h] at hentry hstopped hrest
      obtain ⟨hsub, hplaced⟩ := resumeAll_kept ws q hrest
      have hkey : PausedWalk.key { w with cursor := c } = w.key := congrArg (Prod.mk w.kind) hentry
      simp only
      split
      · exact ⟨hsub.cons _, hplaced⟩
      · next hgoes =>
        rw [List.map_cons, List.map_cons, hkey]
        refine ⟨hsub.cons_cons _, List.forall_mem_cons.2 ⟨?_, hplaced⟩⟩
        rw [Graph.node?_isSome_eq_of_bare (resumeAll_moved ws q).bare]
        exact hstopped fun hok => hgoes (Except.ok.inj hok)

theorem InOrder.walkPaused {p : Processor σ} (h : p.InOrder) : p.walkPaused.state.InOrder := by
  obtain ⟨hsub, hplaced⟩ := resumeAll_kept p.paused { p with paused := [] } h.placed
  exact ⟨hsub.nodup h.nodup, hplaced⟩

/-- One seed: the walk that it resumes is taken out, and put back if it has not completed. -/
theorem InOrder.keep {p q : Processor σ} (h : p.InOrder) {kind : EntryKind} {seed : NodeId}
    {c : Cursor} {events : List Event} {outcome : WalkOutcome}
    (hwalk : (p.withoutSeed kind seed).walkCursor (p.seedCursor kind seed) =
      (q, c, events, .ok outcome)) : (q.keep kind outcome c).InOrder := by
  have hmoved := walkCursor_moved (p.withoutSeed kind seed) (p.seedCursor kind seed)
  have hentry := walkCursor_entry (p.withoutSeed kind seed) (p.seedCursor kind seed)
  have hstopped := @walkCursor_stopped _ _ (p.withoutSeed kind seed) (p.seedCursor kind seed)
  rw [hwalk] at hmoved hentry hstopped
  have hseed : c.entry = seed := hentry.trans (entry_seedCursor p kind seed)
  have hq : q.InOrder := by
    refine h.of_sublist ?_ hmoved.1.bare
    rw [hmoved.2]
    exact List.eraseP_sublist
  unfold Processor.keep
  split
  · exact hq
  · next hgoes =>
    constructor
    · have hfree : (kind, c.entry) ∉ q.paused.map PausedWalk.key := by
        rw [hmoved.2, hseed]
        exact not_mem_eraseP_isAt h.nodup
      rw [List.map_append]
      exact hq.nodup.append (List.nodup_singleton _) (List.disjoint_singleton.2 hfree)
    · refine List.forall_mem_append.2 ⟨hq.placed, List.forall_mem_singleton.2 ?_⟩
      exact hstopped fun hok => hgoes (Except.ok.inj hok)

/-- **Walking from seeds keeps the paused walks in order**, whether a seed is
given once or often. -/
theorem InOrder.walkSeeds {kind : EntryKind} :
    ∀ (seeds : List NodeId) {p : Processor σ}, p.InOrder → (p.walkSeeds kind seeds).state.InOrder
  | [], _, h => h
  | seed :: seeds, p, h => by
    rcases p.walkSeeds_cases kind seed seeds with
      ⟨-, heq⟩ | ⟨q, c, events, e, hwalk, heq⟩ | ⟨q, c, events, outcome, hwalk, heq⟩
    · rw [heq]
      exact walkSeeds seeds h
    · have hmoved := walkCursor_moved (p.withoutSeed kind seed) (p.seedCursor kind seed)
      rw [hwalk] at hmoved
      rw [heq]
      refine h.of_sublist ?_ hmoved.1.bare
      rw [hmoved.2]
      exact List.eraseP_sublist
    · rw [heq]
      exact walkSeeds seeds (h.keep hwalk)

/-! ## 4. Requests -/

/-- **A run leaves one cursor for each entry of its kind**, in the order of the entries. -/
theorem walkKind_entries (p : Processor σ) (kind : EntryKind) :
    (p.walkAll (p.cursors kind)).2.1.map Cursor.entry = p.graph.entryNodes [kind] := by
  have hentries : Cursor.entry ∘ p.cursorOf kind = id := funext (entry_cursorOf p kind)
  rw [walkAll_entries, cursors_eq, List.map_map, hentries, List.map_id]

namespace Tracked

variable {p : Processor σ}

theorem walkKind (h : p.Tracked) (horder : p.InOrder) (hsynced : p.Synced) (kind : EntryKind) :
    (Processor.walkKind kind p).state.Tracked := by
  have hmoved := walkAll_moved (p.cursors kind) p
  have hq : (Processor.walkKind kind p).state.InOrder :=
    horder.of_sublist (walkKind_paused kind p ▸ List.Sublist.refl _) hmoved.1.bare
  refine ⟨hq.nodup, fun other cs hget => ?_, fun _ => hq.placed⟩
  rw [walkKind_walks, OrderedMap.get?_insert, OrderedMap.get?_erase] at hget
  split at hget
  · cases hget
    rw [walkKind_entries]
    exact Graph.nodup_entryNodes_of_nodeKey hsynced.nodeKey [kind]
  · rw [hmoved.1.walks] at hget
    exact h.cursors other cs hget

theorem perform (h : p.Tracked) (hsynced : p.Synced) (c : Call) : (c.perform p).state.Tracked := by
  cases c with
  | run kind =>
    rw [Call.perform, run_eq]
    exact h.onReady hsynced fun q hq horder hs => hq.walkKind horder hs kind
  | runFrom seeds kind =>
    rw [Call.perform, runFrom_eq]
    exact h.onReady hsynced fun q hq horder _ =>
      hq.of_inOrder (horder.walkSeeds seeds) (walkSeeds_moved kind seeds q).walks
  | runPaused =>
    rw [Call.perform, runPaused_eq]
    exact h.onReady hsynced fun q hq horder _ =>
      hq.of_inOrder horder.walkPaused (walkPaused_walks q)
  | advance delta => exact ⟨h.paused, h.cursors, h.placed⟩
  | setOutput node slot v =>
    have hbare : (p.setOutput node slot v).graph.bare = p.graph.bare :=
      (perform_undisturbed p (.setOutput node slot v)).bare
    refine ⟨h.paused, h.cursors, fun hbound w hw => ?_⟩
    rw [Call.perform, Graph.node?_isSome_eq_of_bare hbare]
    exact h.placed (hbound.trans (revision_eq_of_bare hbare)) w hw

/-- A reset returns every cursor to its entry and keeps no paused walk. -/
theorem reset (h : p.Tracked) : p.reset.1.Tracked := by
  refine ⟨List.nodup_nil, fun kind cs hget => ?_, fun _ => List.forall_mem_nil _⟩
  have hmap : (p.walks.map fun _ cs => cs.map fun c => Cursor.start c.entry).get? kind = some cs :=
    hget
  rw [OrderedMap.get?_map] at hmap
  obtain ⟨cs', hcs', rfl⟩ := Option.map_eq_some_iff.1 hmap
  rw [List.map_map]
  exact h.cursors kind cs' hcs'

end Tracked

end Processor

namespace Request

variable {σ : Type u} [Behaves σ]

/-- **Every request keeps the walks in order.** -/
theorem serve_tracked {p : Processor σ} (h : p.Tracked) (hsynced : p.Synced) :
    (r : Request) → (r.serve p).Tracked
  | call c => h.perform hsynced c
  | edit e => h.edit hsynced.boundAt_le e
  | reset => h.reset
  | setKinds _ => ⟨h.paused, h.cursors, h.placed⟩
  | reschedule => h.reschedule
  | ensureReady => h.ensureReady

theorem serveAll_tracked :
    ∀ (requests : List Request) {p : Processor σ}, p.Tracked → p.Synced →
      (serveAll p requests).Tracked
  | [], _, h, _ => h
  | r :: requests, _, h, hs =>
    serveAll_tracked requests (serve_tracked h hs r) (serve_synced hs r)

end Request

/-! ## 5. The law -/

/-- **The walks of a processor stay in order.**  Take any processor that was made for a built graph
and any list of requests to it, failing ones included.  Then no two paused walks have the same kind
and entry; no two cursors of one kind have the same entry; a run that gets ready, whatever comes of
its walks, leaves exactly one cursor for each entry of its kind, in the order of the entries; and
where the processor is brought up to date, every paused walk is at a node of the graph. -/
theorem walks_stay_in_order {σ : Type u} [Behaves σ] (g : Graph) (built : g.Built) (r : Registry σ)
    (settings : Settings) (told : List Event) (p : Processor σ)
    (fresh : Processor.new g r settings = (told, .ok p)) (requests : List Request) :
    let q := Request.serveAll p requests
    (q.paused.map fun w => (w.kind, w.cursor.entry)).Nodup ∧
    (∀ kind cs, q.walks.get? kind = some cs → (cs.map Cursor.entry).Nodup) ∧
    (q.ensureReady.result = .ok () → ∀ kind, ∃ cs,
      (q.run kind).state.walks.get? kind = some cs ∧
      cs.map Cursor.entry = (q.run kind).state.graph.entryNodes [kind]) ∧
    (q.ensureReady.result = .ok () → ∀ w ∈ q.ensureReady.state.paused,
      (q.ensureReady.state.graph.node? w.cursor.current).isSome) := by
  intro q
  have hsynced : p.Synced := .new built.intact fresh
  have hq : q.Tracked := Request.serveAll_tracked requests (.new fresh) hsynced
  refine ⟨hq.paused, hq.cursors, fun hok kind => ?_, fun hok => ?_⟩
  · have hstate : (q.run kind).state = (Processor.walkKind kind q.ensureReady.state).state := by
      rw [Processor.run_eq, Processor.onReady]
      simp only [hok]
    have hmoved :=
      (Processor.walkAll_moved (q.ensureReady.state.cursors kind) q.ensureReady.state).1
    rw [hstate]
    refine ⟨(q.ensureReady.state.walkAll (q.ensureReady.state.cursors kind)).2.1, ?_, ?_⟩
    · rw [Processor.walkKind_walks, OrderedMap.get?_insert, if_pos rfl]
    · rw [Processor.walkKind_entries, Processor.walkKind_graph,
        Graph.entryNodes_eq_of_bare hmoved.bare]
  · exact hq.ensureReady.placed ((Processor.ensureReady_prepared q).2.2 hok).1

/-- The example is started twice from its entry in one call, resumed, started again for another
kind, twice, and run. -/
def exampleReseeding : List Request :=
  [ .call (.runFrom [exampleId 0, exampleId 0] .event),
    .call .runPaused,
    .call (.runFrom [exampleId 0] .zoneEvent),
    .call (.runFrom [exampleId 0, exampleId 1, exampleId 0] .zoneEvent),
    .call (.run .update) ]

/-- Of the walks of the example, one for each kind is paused.  They wait at the same node, and both
are dropped once it is gone and the processor is up to date again. -/
theorem example_walks_stay_in_order :
    let q := Request.serveAll exampleProcessor exampleReseeding
    let lost := Request.serveAll exampleProcessor
      (exampleReseeding ++ [.edit (.removeNode (exampleId 5))])
    q.paused.map (·.cursor.current) = [exampleId 5, exampleId 5] ∧
    (q.paused.map fun w => (w.kind, w.cursor.entry)).Nodup ∧
    lost.paused.length = 2 ∧ lost.ensureReady.result = .ok () ∧
    (∀ w ∈ lost.ensureReady.state.paused,
      (lost.ensureReady.state.graph.node? w.cursor.current).isSome) ∧
    lost.ensureReady.state.paused = [] := by
  obtain ⟨told, fresh⟩ := exampleProcessor_new
  have hlaw := walks_stay_in_order exampleGraph exampleGraph_built Library.registry _ told
    exampleProcessor fresh
  have hok : (Request.serveAll exampleProcessor (exampleReseeding ++
      [.edit (.removeNode (exampleId 5))])).ensureReady.result = .ok () := by decide +kernel
  exact ⟨by decide +kernel, (hlaw exampleReseeding).1, by decide +kernel, hok,
    (hlaw _).2.2.2 hok, by decide +kernel⟩

end FlowScript
