/-
# A reset is a fresh start

A reset takes back what running has left behind: progress, slots, cursors and paused walks.  It does
not touch the marks that say what has been bound and scheduled, the order in which nodes were bound,
or the list of cursors, and a new processor differs in all of these.  This module proves that none
of it can be noticed, by any list of further requests (`reset_is_a_fresh_start`).

The proof relates two processors by what they have in common:

* `Alike`: one face, the same behaviors bound to the same nodes, and walks that go on from the same
  places.  Walking cannot tell such processors apart, because it looks nodes up and never lists the
  table (`Scene.Alike.walkWithin`).
* `Twin`: the same, but a node may be bound in one of them and still to be bound in the other.  This
  is what holds between requests.  Bringing twins up to date makes them alike, or fails for the same
  node, whichever of them had more to do (`ensureReady_readied`, `Twin.ensureReady`).
-/
import FlowScript.Proofs.Progress

namespace FlowScript

universe u

/-! ## 1. Walks look things up -/

section Alike

variable {σ : Type u} {α : Type}

/-- The scenes agree in all but the order of their tables. -/
structure Scene.Alike (s t : Scene σ) : Prop where
  graph : t.graph = s.graph
  resolved : t.resolved = s.resolved
  table : ∀ id, t.table.get? id = s.table.get? id

/-- The steps lead to scenes that are alike, and tell and answer the same. -/
structure Step.Alike (x y : Step σ α) : Prop where
  scene : x.scene.Alike y.scene
  events : y.events = x.events
  result : y.result = x.result

/-- The walks stop at one node, in scenes that are alike, and tell and answer the same. -/
structure WalkEnd.Alike (x y : WalkEnd σ) : Prop where
  scene : x.scene.Alike y.scene
  current : y.current = x.current
  events : y.events = x.events
  result : y.result = x.result

end Alike

namespace Scene

variable {σ : Type u} {s t : Scene σ}

theorem Alike.memory (h : s.Alike t) (ids : List NodeId) :
    Alike { s with resolved := ids } { t with resolved := ids } := ⟨h.graph, rfl, h.table⟩

theorem Alike.push (h : s.Alike t) (id : NodeId) : (s.push id).Alike (t.push id) :=
  ⟨congrArg (Graph.pushOutputs · id) h.graph, h.resolved, h.table⟩

variable [Behaves σ]

theorem Alike.evaluate (h : s.Alike t) (time : FrameTime) (role : Role) (id : NodeId) :
    (s.evaluate time role id).Alike (t.evaluate time role id) := by
  unfold Scene.evaluate
  rw [h.table, h.graph]
  cases hb : s.table.get? id with
  | none => exact ⟨h, rfl, rfl⟩
  | some b =>
    cases s.graph.node? id with
    | none => exact ⟨h, rfl, rfl⟩
    | some n =>
      refine ⟨⟨rfl, h.resolved, fun k => ?_⟩, rfl, rfl⟩
      simp only [OrderedMap.get?_modify, h.table]

theorem Alike.pullWith (time : FrameTime) {deeper : Scene σ → NodeId → Step σ Unit}
    (hdeeper : ∀ {s t : Scene σ} (id : NodeId), s.Alike t → (deeper s id).Alike (deeper t id)) :
    ∀ (ids : List NodeId) {s t : Scene σ}, s.Alike t →
      (Scene.pullWith time deeper ids s).Alike (Scene.pullWith time deeper ids t)
  | [], _, _, h => ⟨h, rfl, rfl⟩
  | id :: ids, s, t, h => by
    unfold Scene.pullWith
    rw [h.resolved, h.graph]
    by_cases hdone : s.resolved.contains id = true
    · rw [if_pos hdone, if_pos hdone]
      exact Alike.pullWith time hdeeper ids h
    · rw [if_neg hdone, if_neg hdone]
      have hmark := h.memory (s.resolved ++ [id])
      rw [h.graph] at hmark
      simp only
      by_cases hranked : (s.graph.node? id).any Node.isScheduled = true
      · rw [if_pos hranked, if_pos hranked]
        have hbelow := hdeeper id hmark
        have hown := hbelow.scene.evaluate time .data id
        rw [hbelow.result, hown.result, hbelow.events, hown.events]
        split
        · exact ⟨hbelow.scene, rfl, rfl⟩
        · split
          · exact ⟨hown.scene, rfl, rfl⟩
          · have hrest := Alike.pullWith time hdeeper ids (hown.scene.push id)
            exact ⟨hrest.scene, by rw [hrest.events], hrest.result⟩
      · rw [if_neg hranked, if_neg hranked]
        have hrest := Alike.pullWith time hdeeper ids hmark
        exact ⟨hrest.scene, by rw [hrest.events], hrest.result⟩

theorem Alike.resolveWithin (time : FrameTime) :
    ∀ (fuel : Nat) {s t : Scene σ} (id : NodeId), s.Alike t →
      (Scene.resolveWithin time fuel s id).Alike (Scene.resolveWithin time fuel t id)
  | 0, _, _, _, h => ⟨h, rfl, rfl⟩
  | fuel + 1, s, t, id, h => by
    unfold Scene.resolveWithin
    rw [h.graph]
    exact Alike.pullWith time (Alike.resolveWithin time fuel) _ h

theorem Alike.step (h : s.Alike t) (memo : Memoization) (time : FrameTime) (id : NodeId) :
    (s.step memo time id).Alike (t.step memo time id) := by
  have hforget : Alike (if memo = .perNode then { s with resolved := [] } else s)
      (if memo = .perNode then { t with resolved := [] } else t) := by
    split
    · exact h.memory []
    · exact h
  unfold Scene.step
  generalize (if memo = .perNode then { s with resolved := [] } else s) = s' at hforget
  generalize (if memo = .perNode then { t with resolved := [] } else t) = t' at hforget
  have hbelow : (s'.resolve time id).Alike (t'.resolve time id) := by
    unfold resolve
    rw [hforget.graph]
    exact Alike.resolveWithin time _ id hforget
  have hown := hbelow.scene.evaluate time .control id
  simp only
  rw [hbelow.result, hown.result, hbelow.events, hown.events]
  split
  · exact ⟨hbelow.scene, rfl, rfl⟩
  · split
    · exact ⟨hown.scene, rfl, rfl⟩
    · exact ⟨hown.scene.push id, rfl, rfl⟩

/-- **A walk does not see the order of the table.** -/
theorem Alike.walkWithin (memo : Memoization) (time : FrameTime) (bound : Nat) :
    ∀ (budget : Nat) {s t : Scene σ} (id : NodeId), s.Alike t →
      (Scene.walkWithin memo time bound budget s id).Alike
        (Scene.walkWithin memo time bound budget t id)
  | 0, s, t, id, h => by
    unfold Scene.walkWithin
    rw [h.graph]
    split <;> exact ⟨h, rfl, rfl, rfl⟩
  | budget + 1, s, t, id, h => by
    unfold Scene.walkWithin
    rw [h.graph]
    split
    · have hstep := h.step memo time id
      simp only
      rw [hstep.result, hstep.events, hstep.scene.graph]
      split
      · exact ⟨hstep.scene, rfl, rfl, rfl⟩
      · exact ⟨hstep.scene, rfl, rfl, rfl⟩
      · split
        · exact ⟨hstep.scene, rfl, rfl, rfl⟩
        · next next _ =>
          have hrest := Alike.walkWithin memo time bound budget next hstep.scene
          exact ⟨hrest.scene, hrest.current, by rw [hrest.events], hrest.result⟩
    · exact ⟨h, rfl, rfl, rfl⟩

end Scene

/-! ## 2. Bringing a processor up to date -/

/-- The first failure to bind a node of a list. -/
def Registry.check {σ : Type u} (r : Registry σ) : List Node → Except BindError Unit
  | [] => .ok ()
  | n :: ns =>
    match r.bind n with
    | .error e => .error e
    | .ok _ => r.check ns

theorem Registry.check_eq_ok {σ : Type u} {r : Registry σ} :
    ∀ {ns : List Node}, (∀ n ∈ ns, ∃ b, r.bind n = .ok b) → r.check ns = .ok ()
  | [], _ => rfl
  | n :: ns, h => by
    obtain ⟨b, hb⟩ := h n List.mem_cons_self
    rw [check, hb]
    exact check_eq_ok fun m hm => h m (List.mem_cons_of_mem n hm)

/-- Binding fails as the first node does that cannot be bound, if what is bound
already could be bound. -/
theorem Table.result_bindMissing {σ : Type u} {r : Registry σ} :
    ∀ {ns : List Node} {t : Table σ}, (ns.map Node.id).Nodup →
      (∀ n ∈ ns, (t.get? n.id).isSome → ∃ b, r.bind n = .ok b) →
      (bindMissing r ns t).2.2 = r.check ns
  | [], _, _, _ => rfl
  | n :: ns, t, hnodup, ht => by
    rw [List.map_cons, List.nodup_cons] at hnodup
    unfold bindMissing
    split
    · next hbound =>
      obtain ⟨b, hb⟩ := ht n List.mem_cons_self hbound
      rw [Registry.check, hb]
      exact result_bindMissing hnodup.2 fun m hm => ht m (List.mem_cons_of_mem n hm)
    · cases hb : r.bind n with
      | error e => rw [Registry.check, hb]
      | ok b =>
        rw [Registry.check, hb]
        refine result_bindMissing hnodup.2 fun m hm hsome => ht m (List.mem_cons_of_mem n hm) ?_
        rw [OrderedMap.get?_insert, if_neg] at hsome
        · exact hsome
        · exact fun hid => hnodup.1 (hid ▸ List.mem_map_of_mem hm)

namespace Processor

variable {σ : Type u}

/-- A processor without its table, its cursors and its marks: what is left is
all that a host can see. -/
def face (p : Processor σ) : Processor σ :=
  { p with table := .empty, walks := .empty, scheduledAt := none, boundAt := 0, report := .none }

/-- The processor without the paused walks that have lost their node. -/
def dropLost (p : Processor σ) : Processor σ :=
  { p with paused := p.paused.filter fun w => (p.graph.node? w.cursor.current).isSome }

/-- What bringing a processor up to date makes of its face. -/
def refresh (p : Processor σ) : Processor σ :=
  { p.dropLost with graph := (p.graph.schedule p.settings.maxFrontiers.toNat p.kinds).1 }

/-- The behavior that a node has, or would be bound to. -/
def upcoming (p : Processor σ) (id : NodeId) : Option σ :=
  (p.table.get? id).or ((p.graph.node? id).bind fun n => (p.registry.bind n).toOption)

/-- **Binding keeps what a node has coming**, whether it fails or not. -/
theorem upcoming_sync {p : Processor σ} (hkey : ∀ id n, p.graph.node? id = some n → n.id = id)
    {id : NodeId} (hid : (p.graph.node? id).isSome) :
    upcoming { p with table := (p.table.sync p.registry p.graph).1 } id = p.upcoming id := by
  obtain ⟨n, hn⟩ := Option.isSome_iff_exists.1 hid
  simp only [upcoming, hn, Option.bind_some]
  rcases Table.get?_sync_cases (t := p.table) (r := p.registry) hkey hn with
    hsame | ⟨hnone, b, hb, hget⟩
  · rw [hsame]
  · rw [hget, hnone, hb]
    rfl

/-- What bringing a processor up to date answers and leaves behind, given the
processor and its reply. -/
structure Readied (p : Processor σ) (made : Processor σ) (x : Reply (Processor σ) BindError Unit) :
    Prop where
  result : x.result = p.registry.check p.graph.nodes.values
  walks : x.state.walks = p.walks
  failed : x.result ≠ .ok () → x.state.face = p.face ∧
    ∀ id, (p.graph.node? id).isSome → x.state.upcoming id = p.upcoming id
  ready : x.result = .ok () → x.state.face = made ∧
    ∀ id, x.state.table.get? id = if (p.graph.node? id).isSome then p.upcoming id else none

variable [Behaves σ] {r : Registry σ} {used : List NodeId} {p : Processor σ}

theorem rebind_readied (h : Faithful r used p) (hs : p.Synced) (ht : p.Tracked) :
    Readied p p.face.dropLost p.rebind := by
  have hvalues : ∀ n ∈ p.graph.nodes.values, p.graph.node? n.id = some n := fun n =>
    Graph.node?_of_mem_values hs.nodeKey
  have hbindable : ∀ n ∈ p.graph.nodes.values, (p.table.get? n.id).isSome →
      ∃ b, p.registry.bind n = .ok b := by
    intro n hn hsome
    obtain ⟨b, hb⟩ := Option.isSome_iff_exists.1 hsome
    exact ⟨_, h.registry ▸ h.bound n.id n b (hvalues n hn) hb⟩
  unfold rebind
  split
  · next hbound =>
    -- nothing is done: every node is bound, and no walk has lost its node
    have hbinds : ∀ id, (p.table.get? id).isSome ↔ (p.graph.node? id).isSome := by
      intro id
      rw [OrderedMap.get?_isSome_iff, hs.binds hbound, ← OrderedMap.get?_isSome_iff]
      exact Iff.rfl
    have hpaused : p.paused.filter (fun w => (p.graph.node? w.cursor.current).isSome) = p.paused :=
      List.filter_eq_self.2 fun w hw => ht.placed hbound w hw
    refine ⟨(Registry.check_eq_ok fun n hn => ?_).symm, rfl, fun hfail => absurd rfl hfail,
      fun _ => ⟨?_, fun id => ?_⟩⟩
    · exact hbindable n hn ((hbinds n.id).2 (by rw [hvalues n hn]; rfl))
    · show p.face = { p.face with
        paused := p.paused.filter fun w => (p.graph.node? w.cursor.current).isSome }
      rw [hpaused]
      rfl
    · split
      · next hid =>
        obtain ⟨b, hb⟩ := Option.isSome_iff_exists.1 ((hbinds id).2 hid)
        rw [upcoming, hb]
        rfl
      · next hid =>
        rw [← Option.not_isSome_iff_eq_none, hbinds]
        exact hid
  · have hresult : (p.table.sync p.registry p.graph).2.2 =
        p.registry.check p.graph.nodes.values := by
      refine Table.result_bindMissing ?_ fun n hn hsome => hbindable n hn ?_
      · rw [Graph.map_id_values_of_nodeKey hs.nodeKey]
        exact p.graph.nodes.keys_nodup
      · rw [Table.get?_kept_of_isSome (by rw [hvalues n hn]; rfl)] at hsome
        exact hsome
    have hsync : ∀ id, (p.graph.node? id).isSome →
        ((p.table.sync p.registry p.graph).1.get? id = p.table.get? id ∨
          (p.table.sync p.registry p.graph).1.get? id = p.upcoming id) := by
      intro id hid
      obtain ⟨n, hn⟩ := Option.isSome_iff_exists.1 hid
      rcases Table.get?_sync_cases (t := p.table) (r := p.registry) hs.nodeKey hn with
        hsame | ⟨hnone, b, hb, hget⟩
      · exact .inl hsame
      · right
        rw [hget, upcoming, hnone, hn, Option.none_or, Option.bind_some, hb]
        rfl
    simp only
    split
    · next e herror =>
      refine ⟨herror.symm.trans hresult, rfl, fun _ => ⟨rfl, fun id => upcoming_sync hs.nodeKey⟩,
        fun hok => ?_⟩
      cases hok
    · next hok =>
      refine ⟨hok.symm.trans hresult, rfl, fun hfail => absurd rfl hfail,
        fun _ => ⟨rfl, fun id => ?_⟩⟩
      split
      · next hid =>
        rcases hsync id hid with hsame | hnew
        · have hkeys : id ∈ (p.table.sync p.registry p.graph).1.keys :=
            (Table.mem_keys_sync hs.nodeKey hok id).2 ((OrderedMap.get?_isSome_iff _ _).1 hid)
          obtain ⟨b, hb⟩ := Option.isSome_iff_exists.1 ((OrderedMap.get?_isSome_iff _ _).2 hkeys)
          rw [hb, upcoming, ← hsame, hb]
          rfl
        · exact hnew
      · next hid => exact Table.get?_sync_of_none hs.nodeKey (Option.not_isSome_iff_eq_none.1 hid)

/-- **Bringing a processor up to date**: what it answers and leaves behind depends on its face and
on the behaviors that its nodes have or would be bound to, not on its marks. -/
theorem ensureReady_readied (h : Faithful r used p) (hs : p.Synced) (ht : p.Tracked) :
    Readied p p.face.refresh p.ensureReady := by
  have hrebind := rebind_readied h hs ht
  have hsynced := hs.rebind.1
  unfold ensureReady
  simp only
  split
  · next e herror =>
    refine ⟨herror.symm.trans hrebind.result, hrebind.walks, fun _ => ?_, nofun⟩
    exact hrebind.failed (by rw [herror]; exact nofun)
  · next hok =>
    obtain ⟨hface, htable⟩ := hrebind.ready hok
    have hgraph : p.rebind.state.graph = p.graph := (congrArg Processor.graph hface :)
    have hsettings : p.rebind.state.settings = p.settings := (congrArg Processor.settings hface :)
    have hkinds : p.rebind.state.kinds = p.kinds := (congrArg Processor.kinds hface :)
    split
    · next hcurrent =>
      refine ⟨hrebind.result, hrebind.walks, fun hfail => absurd hok hfail, fun _ => ⟨?_, htable⟩⟩
      -- the ranks are right already, so scheduling would change nothing
      have hranks := hsynced.ranks hcurrent
      rw [RanksRight, hgraph, hsettings, hkinds] at hranks
      have hsame := Graph.eq_of_clearValues_of_resetRanks hranks
        (Graph.resetRanks_schedule p.graph _ _).symm
      refine hface.trans ?_
      show p.face.dropLost = { p.face.dropLost with
        graph := (p.graph.schedule p.settings.maxFrontiers.toNat p.kinds).1 }
      rw [← hsame]
      rfl
    · refine ⟨hok.symm.trans hrebind.result, hrebind.walks, fun hfail => absurd rfl hfail,
        fun _ => ⟨?_, htable⟩⟩
      have hmoved : p.rebind.state.reschedule.1.face = { p.rebind.state.face with
          graph := (p.rebind.state.graph.schedule p.rebind.state.settings.maxFrontiers.toNat
            p.rebind.state.kinds).1 } := rfl
      rw [hmoved, hface, hgraph, hsettings, hkinds]
      rfl

end Processor

/-! ## 3. Processors that cannot be told apart -/

namespace Processor

variable {σ : Type u}

/-- The processors have one face, and their walks go on from the same places: where their cursors of
a kind differ, they are all at their entries, which is where a walk without a cursor starts. -/
structure Akin (a b : Processor σ) : Prop where
  face : b.face = a.face
  walks : ∀ kind, b.walks.get? kind = a.walks.get? kind ∨ a.Rests kind ∧ b.Rests kind

/-- Akin processors whose nodes are bound to the same behaviors. -/
structure Alike (a b : Processor σ) : Prop extends Akin a b where
  table : ∀ id, b.table.get? id = a.table.get? id

/-- Akin processors whose nodes are bound to the same behaviors, or will be. -/
structure Twin (a b : Processor σ) : Prop extends Akin a b where
  upcoming : ∀ id, (a.graph.node? id).isSome → b.upcoming id = a.upcoming id

theorem Rests.congr {p q : Processor σ} {kind : EntryKind} (h : p.Rests kind)
    (hwalks : q.walks.get? kind = p.walks.get? kind) : q.Rests kind := fun cs hcs =>
  h cs (hwalks.symm.trans hcs)

/-- If the nodes of two processors have the same behaviors coming, so they do after an edit that
adds no node which is bound in one of them. -/
theorem upcoming_edit {a b : Processor σ} {e : Edit} (hgraph : b.graph = a.graph)
    (hregistry : b.registry = a.registry)
    (h : ∀ id, (a.graph.node? id).isSome → b.upcoming id = a.upcoming id)
    (hnew : ∀ id ∈ (Request.edit e).added?, a.table.get? id = none ∧ b.table.get? id = none)
    {id : NodeId} (hid : ((e.run a.graph).node? id).isSome) :
    upcoming { b with graph := e.run b.graph } id =
      upcoming { a with graph := e.run a.graph } id := by
  obtain ⟨n, hn⟩ := Option.isSome_iff_exists.1 hid
  have hold : a.graph.node? id = some n ∨ e = .addNode n ∧ n.id = id := by
    rcases Edit.run_cases a.graph e with hsame | ⟨-, hnodes⟩
    · exact .inl (hsame ▸ hn)
    · exact hnodes id n hn
  simp only [upcoming, hgraph, hregistry, hn]
  rcases hold with hn | ⟨rfl, rfl⟩
  · have hupcoming := h id (by rw [hn]; rfl)
    simp only [upcoming, hgraph, hregistry, hn] at hupcoming
    exact hupcoming
  · obtain ⟨ha, hb⟩ := hnew n.id rfl
    rw [ha, hb]

namespace Akin

variable {a b : Processor σ}

theorem graph (h : Akin a b) : b.graph = a.graph := (congrArg Processor.graph h.face :)

theorem registry (h : Akin a b) : b.registry = a.registry := (congrArg Processor.registry h.face :)

theorem settings (h : Akin a b) : b.settings = a.settings := (congrArg Processor.settings h.face :)

theorem kinds (h : Akin a b) : b.kinds = a.kinds := (congrArg Processor.kinds h.face :)

theorem paused (h : Akin a b) : b.paused = a.paused := (congrArg Processor.paused h.face :)

theorem time (h : Akin a b) : b.time = a.time := (congrArg Processor.time h.face :)

/-- **The next run of a kind starts from the same cursors.** -/
theorem cursors (h : Akin a b) (kind : EntryKind) : b.cursors kind = a.cursors kind := by
  rw [cursors_eq, cursors_eq, h.graph]
  refine List.map_congr_left fun entry _ => ?_
  rcases h.walks kind with hsame | ⟨ha, hb⟩
  · exact cursorOf_congr (congrArg Graph.bare h.graph) hsame entry
  · rw [ha.cursorOf_eq, hb.cursorOf_eq]

end Akin

namespace Alike

variable {a b : Processor σ}

theorem twin (h : Alike a b) : Twin a b := by
  refine ⟨h.toAkin, fun id _ => ?_⟩
  rw [upcoming, upcoming, h.table, h.graph, h.registry]

theorem withPaused (h : Alike a b) (ws : List PausedWalk) :
    Alike { a with paused := ws } { b with paused := ws } :=
  ⟨⟨congrArg (fun p : Processor σ => { p with paused := ws }) h.face, h.walks⟩, h.table⟩

theorem keep (h : Alike a b) (kind : EntryKind) (o : WalkOutcome) (c : Cursor) :
    Alike (a.keep kind o c) (b.keep kind o c) := by
  unfold Processor.keep
  split
  · exact h
  · rw [h.paused]
    exact h.withPaused _

theorem withoutSeed (h : Alike a b) (kind : EntryKind) (seed : NodeId) :
    Alike (a.withoutSeed kind seed) (b.withoutSeed kind seed) := by
  unfold Processor.withoutSeed
  rw [h.paused]
  exact h.withPaused _

variable [Behaves σ]

theorem face_walkCursor (p : Processor σ) (c : Cursor) :
    (p.walkCursor c).1.face = { p.face with
      graph := (Scene.walk p.settings p.time ⟨p.graph, p.table, []⟩ c.current).scene.graph } := rfl

theorem walkCursor (h : Alike a b) (c : Cursor) :
    Alike (a.walkCursor c).1 (b.walkCursor c).1 ∧ (b.walkCursor c).2 = (a.walkCursor c).2 := by
  have hscene : Scene.Alike ⟨a.graph, a.table, []⟩ ⟨b.graph, b.table, []⟩ :=
    ⟨h.graph, rfl, h.table⟩
  have hwalk : (Scene.walk a.settings a.time ⟨a.graph, a.table, []⟩ c.current).Alike
      (Scene.walk b.settings b.time ⟨b.graph, b.table, []⟩ c.current) := by
    rw [h.settings, h.time]
    exact hscene.walkWithin _ _ _ _ _
  refine ⟨⟨⟨?_, h.walks⟩, hwalk.scene.table⟩, ?_⟩
  · rw [face_walkCursor, face_walkCursor, h.face, hwalk.scene.graph]
  · simp only [Processor.walkCursor, hwalk.current, hwalk.events, hwalk.result]

theorem walkAll :
    ∀ (cs : List Cursor) {a b : Processor σ}, Alike a b →
      Alike (a.walkAll cs).1 (b.walkAll cs).1 ∧ (b.walkAll cs).2 = (a.walkAll cs).2
  | [], _, _, h => ⟨h, rfl⟩
  | c :: cs, a, b, h => by
    obtain ⟨hstate, htold⟩ := h.walkCursor c
    unfold Processor.walkAll
    rcases ha : a.walkCursor c with ⟨q, c', events, result⟩
    rcases hb : b.walkCursor c with ⟨q', told⟩
    rw [ha, hb] at hstate htold
    obtain rfl : told = (c', events, result) := htold
    cases result with
    | error e => exact ⟨hstate, rfl⟩
    | ok o =>
      obtain ⟨hrest, htold'⟩ := walkAll cs hstate
      refine ⟨hrest, ?_⟩
      simp only [htold']

theorem resumeAll :
    ∀ (ws : List PausedWalk) {a b : Processor σ}, Alike a b →
      Alike (a.resumeAll ws).1 (b.resumeAll ws).1 ∧ (b.resumeAll ws).2 = (a.resumeAll ws).2
  | [], _, _, h => ⟨h, rfl⟩
  | w :: ws, a, b, h => by
    obtain ⟨hstate, htold⟩ := h.walkCursor w.cursor
    unfold Processor.resumeAll
    rcases ha : a.walkCursor w.cursor with ⟨q, c', events, result⟩
    rcases hb : b.walkCursor w.cursor with ⟨q', told⟩
    rw [ha, hb] at hstate htold
    obtain rfl : told = (c', events, result) := htold
    cases result with
    | error e => exact ⟨hstate, rfl⟩
    | ok o =>
      obtain ⟨hrest, htold'⟩ := resumeAll ws hstate
      refine ⟨hrest, ?_⟩
      simp only [htold']

end Alike

end Processor

/-- The replies leave processors that satisfy a relation, and tell and answer the same. -/
structure Reply.Matches {σ : Type u} {ε α : Type} (R : Processor σ → Processor σ → Prop)
    (x y : Reply (Processor σ) ε α) : Prop where
  state : R x.state y.state
  events : y.events = x.events
  result : y.result = x.result

namespace Processor

variable {σ : Type u} [Behaves σ]

theorem walkSeeds_cons (p : Processor σ) (kind : EntryKind) (seed : NodeId) (seeds : List NodeId) :
    p.walkSeeds kind (seed :: seeds) =
      if (p.graph.node? seed).isSome then
        match (p.withoutSeed kind seed).walkCursor (p.seedCursor kind seed) with
        | (q, _, events, .error e) => ⟨q, events, .error e⟩
        | (q, c, events, .ok o) =>
          let rest := (q.keep kind o c).walkSeeds kind seeds
          ⟨rest.state, events ++ rest.events, rest.result.map o.status.and⟩
      else
        let rest := p.walkSeeds kind seeds
        ⟨rest.state, .notice (.unknownSeed seed p.graph.name) :: rest.events, rest.result⟩ := rfl

theorem Alike.walkSeeds (kind : EntryKind) :
    ∀ (seeds : List NodeId) {a b : Processor σ}, Alike a b →
      Reply.Matches Alike (a.walkSeeds kind seeds) (b.walkSeeds kind seeds)
  | [], _, _, h => ⟨h, rfl, rfl⟩
  | seed :: seeds, a, b, h => by
    have hcursor : b.seedCursor kind seed = a.seedCursor kind seed := by
      rw [Processor.seedCursor, Processor.seedCursor, h.paused]
    obtain ⟨hstate, htold⟩ := (h.withoutSeed kind seed).walkCursor (a.seedCursor kind seed)
    rw [walkSeeds_cons, walkSeeds_cons, h.graph, hcursor]
    split
    · rcases ha : (a.withoutSeed kind seed).walkCursor (a.seedCursor kind seed) with
        ⟨q, c, events, result⟩
      rcases hb : (b.withoutSeed kind seed).walkCursor (a.seedCursor kind seed) with ⟨q', told⟩
      rw [ha, hb] at hstate htold
      obtain rfl : told = (c, events, result) := htold
      cases result with
      | error e => exact ⟨hstate, rfl, rfl⟩
      | ok o =>
        have hrest := Alike.walkSeeds kind seeds (hstate.keep kind o c)
        exact ⟨hrest.state, congrArg (events ++ ·) hrest.events,
          congrArg (Except.map o.status.and) hrest.result⟩
    · have hrest := Alike.walkSeeds kind seeds h
      exact ⟨hrest.state, congrArg (List.cons _) hrest.events, hrest.result⟩

theorem Alike.walkKind {a b : Processor σ} (h : Alike a b) (kind : EntryKind) :
    Reply.Matches Alike (a.walkKind kind) (b.walkKind kind) := by
  obtain ⟨hstate, htold⟩ := Alike.walkAll (a.cursors kind) h
  unfold Processor.walkKind
  rw [h.cursors]
  refine ⟨⟨⟨hstate.face, fun other => ?_⟩, hstate.table⟩, by rw [htold], by rw [htold]⟩
  have hother : ∀ (w : OrderedMap EntryKind (List Cursor)) (cs : List Cursor), other ≠ kind →
      ((w.erase kind).insert kind cs).get? other = w.get? other := by
    intro w cs hne
    rw [OrderedMap.get?_insert, if_neg hne, OrderedMap.get?_erase, if_neg hne]
  by_cases hkind : other = kind
  · left
    simp only [OrderedMap.get?_insert, if_pos hkind, htold]
  · rcases hstate.walks other with hsame | ⟨ha, hb⟩
    · left
      simp only [hother _ _ hkind]
      exact hsame
    · exact .inr ⟨ha.congr (hother _ _ hkind), hb.congr (hother _ _ hkind)⟩

theorem Alike.walkPaused {a b : Processor σ} (h : Alike a b) :
    Reply.Matches Alike a.walkPaused b.walkPaused := by
  obtain ⟨hstate, htold⟩ := Alike.resumeAll a.paused (h.withPaused [])
  unfold Processor.walkPaused
  rw [h.paused, htold]
  exact ⟨hstate.withPaused _, rfl, rfl⟩

end Processor

/-! ## 4. Requests to twins -/

/-- The event tells of binding or scheduling, which is done when it is due. -/
def Event.isUpkeep : Event → Bool
  | notice (.bound ..) | notice (.diagnosed _) | notice (.scheduled ..) => true
  | _ => false

theorem Table.isUpkeep_of_mem_bindMissing {σ : Type u} {r : Registry σ} {e : Event} :
    ∀ {ns : List Node} {t : Table σ}, e ∈ (bindMissing r ns t).2.1 → e.isUpkeep = true
  | [], _, he => nomatch he
  | n :: ns, t, he => by
    unfold bindMissing at he
    split at he
    · exact isUpkeep_of_mem_bindMissing he
    · split at he
      · cases he
      · rcases List.mem_cons.1 he with rfl | he
        · rfl
        · exact isUpkeep_of_mem_bindMissing he

namespace Processor

variable {σ : Type u}

theorem isUpkeep_of_mem_reschedule {p : Processor σ} {e : Event} (he : e ∈ p.reschedule.2) :
    e.isUpkeep = true := by
  obtain ⟨n, hn, rfl⟩ := List.mem_map.1 he
  rcases List.mem_append.1 hn with hn | hn
  · obtain ⟨d, -, rfl⟩ := List.mem_map.1 hn
    rfl
  · split at hn
    · cases hn
    · rw [List.mem_singleton.1 hn]
      rfl

theorem isUpkeep_of_mem_ensureReady {p : Processor σ} {e : Event} (he : e ∈ p.ensureReady.events) :
    e.isUpkeep = true := by
  have hrebind : e ∈ p.rebind.events → e.isUpkeep = true := by
    intro h
    unfold rebind at h
    split at h
    · cases h
    · simp only at h
      split at h <;> exact Table.isUpkeep_of_mem_bindMissing h
  unfold ensureReady at he
  simp only at he
  split at he
  · exact hrebind he
  · split at he
    · exact hrebind he
    · exact (List.mem_append.1 he).elim hrebind isUpkeep_of_mem_reschedule

end Processor

/-- The events but for those of upkeep. -/
def heard (events : List Event) : List Event := events.filter (!·.isUpkeep)

theorem heard_append (a b : List Event) : heard (a ++ b) = heard a ++ heard b :=
  List.filter_append _ _

theorem heard_eq_nil {events : List Event} (h : ∀ e ∈ events, e.isUpkeep = true) :
    heard events = [] :=
  List.filter_eq_nil_iff.2 fun e he => by rw [h e he]; exact Bool.false_ne_true

namespace Processor

variable {σ : Type u} [Behaves σ] {r : Registry σ} {used : List NodeId} {a b p q : Processor σ}

/-- What requests keep of a processor. -/
structure Sound (r : Registry σ) (used : List NodeId) (p : Processor σ) : Prop where
  faithful : Faithful r used p
  synced : p.Synced
  tracked : p.Tracked

/-- The replies leave twins, and tell and answer the same but for upkeep. -/
structure Resembles (x y : Reply (Processor σ) RunError Status) : Prop where
  twin : Twin x.state y.state
  heard : FlowScript.heard y.events = FlowScript.heard x.events
  result : y.result = x.result

/-- **Twins get ready alike**: both fail for the same node, or both are ready and alike. -/
theorem Twin.ensureReady (h : Twin a b) (ha : Sound r used a) (hb : Sound r used b) :
    b.ensureReady.result = a.ensureReady.result ∧
    Twin a.ensureReady.state b.ensureReady.state ∧
    (a.ensureReady.result = .ok () → Alike a.ensureReady.state b.ensureReady.state) := by
  have hra := ensureReady_readied ha.faithful ha.synced ha.tracked
  have hrb := ensureReady_readied hb.faithful hb.synced hb.tracked
  have hresult : b.ensureReady.result = a.ensureReady.result := by
    rw [hrb.result, hra.result, h.registry, h.graph]
  have hwalks : ∀ kind, b.ensureReady.state.walks.get? kind = a.ensureReady.state.walks.get? kind ∨
      a.ensureReady.state.Rests kind ∧ b.ensureReady.state.Rests kind := by
    intro kind
    rcases h.walks kind with hsame | ⟨hresta, hrestb⟩
    · left
      rw [hra.walks, hrb.walks]
      exact hsame
    · exact .inr ⟨hresta.congr (by rw [hra.walks]), hrestb.congr (by rw [hrb.walks])⟩
  by_cases hok : a.ensureReady.result = .ok ()
  · obtain ⟨hfacea, htablea⟩ := hra.ready hok
    obtain ⟨hfaceb, htableb⟩ := hrb.ready (hresult.trans hok)
    have halike : Alike a.ensureReady.state b.ensureReady.state := by
      refine ⟨⟨by rw [hfacea, hfaceb, h.face], hwalks⟩, fun id => ?_⟩
      rw [htablea, htableb, h.graph]
      split
      · next hid => exact h.upcoming id hid
      · rfl
    exact ⟨hresult, halike.twin, fun _ => halike⟩
  · obtain ⟨hfacea, hnexta⟩ := hra.failed hok
    obtain ⟨hfaceb, hnextb⟩ := hrb.failed fun hok' => hok (hresult.symm.trans hok')
    have hgraph : a.ensureReady.state.graph = a.graph := (congrArg Processor.graph hfacea :)
    refine ⟨hresult, ⟨⟨by rw [hfacea, hfaceb, h.face], hwalks⟩, fun id hid => ?_⟩,
      fun hok' => absurd hok' hok⟩
    rw [hgraph] at hid
    rw [hnexta id hid, hnextb id (by rw [h.graph]; exact hid), h.upcoming id hid]

/-- A call that gets ready and walks cannot tell twins apart, if walking cannot
tell apart what is alike. -/
theorem Twin.onReady (h : Twin a b) (ha : Sound r used a) (hb : Sound r used b)
    {walking : Processor σ → Reply (Processor σ) EvalError Status}
    (hwalking : ∀ {a b : Processor σ}, Alike a b → Reply.Matches Alike (walking a) (walking b)) :
    Resembles (a.onReady walking) (b.onReady walking) := by
  obtain ⟨hresult, htwin, halike⟩ := h.ensureReady ha hb
  have hquieta : heard a.ensureReady.events = [] :=
    heard_eq_nil fun _ => isUpkeep_of_mem_ensureReady
  have hquietb : heard b.ensureReady.events = [] :=
    heard_eq_nil fun _ => isUpkeep_of_mem_ensureReady
  unfold Processor.onReady
  rw [hresult]
  split
  · exact ⟨htwin, hquietb.trans hquieta.symm, rfl⟩
  · next hok =>
    have hwalk := hwalking (halike hok)
    refine ⟨hwalk.state.twin, ?_, by rw [hwalk.result]⟩
    rw [heard_append, heard_append, hquieta, hquietb, hwalk.events]

/-- Neither the table nor the cursors nor the topology have changed. -/
structure Stays (p q : Processor σ) : Prop where
  table : q.table = p.table
  walks : q.walks = p.walks
  registry : q.registry = p.registry
  bare : q.graph.bare = p.graph.bare

theorem Stays.upcoming (h : Stays p q) (hr : r.Restarts) (hp : p.registry = r) (id : NodeId) :
    q.upcoming id = p.upcoming id := by
  rw [Processor.upcoming, Processor.upcoming, h.table, h.registry, hp]
  refine congrArg (Option.or _) ?_
  cases hn : q.graph.node? id with
  | none =>
    have hnone : p.graph.node? id = none := by
      rw [← Option.not_isSome_iff_eq_none, ← Graph.node?_isSome_eq_of_bare h.bare, hn]
      exact Bool.false_ne_true
    rw [hnone]
  | some n =>
    obtain ⟨m, hm, hmn⟩ := Graph.exists_node?_of_bare h.bare hn
    rw [hm, Option.bind_some, Option.bind_some, hr.bind_congr hmn]

/-- Twins stay twins while their faces change alike. -/
theorem Twin.stays (h : Twin a b) (hr : r.Restarts) (ha : a.registry = r) (hp : Stays a p)
    (hq : Stays b q) (hface : q.face = p.face) : Twin p q := by
  refine ⟨⟨hface, fun kind => ?_⟩, fun id hid => ?_⟩
  · rcases h.walks kind with hsame | ⟨hresta, hrestb⟩
    · left
      rw [hp.walks, hq.walks]
      exact hsame
    · exact .inr ⟨hresta.congr (by rw [hp.walks]), hrestb.congr (by rw [hq.walks])⟩
  · rw [Graph.node?_isSome_eq_of_bare hp.bare] at hid
    rw [hp.upcoming hr ha, hq.upcoming hr (h.registry.trans ha), h.upcoming id hid]

/-- **No call can tell twins apart.** -/
theorem Twin.perform (h : Twin a b) (hr : r.Restarts) (ha : Sound r used a) (hb : Sound r used b)
    (c : Call) : Resembles (c.perform a) (c.perform b) := by
  have hregistry := ha.faithful.registry
  cases c with
  | run kind =>
    rw [Call.perform, Call.perform, run_eq, run_eq]
    exact h.onReady ha hb fun halike => halike.walkKind kind
  | runFrom seeds kind =>
    rw [Call.perform, Call.perform, runFrom_eq, runFrom_eq]
    exact h.onReady ha hb (Alike.walkSeeds kind seeds)
  | runPaused =>
    rw [Call.perform, Call.perform, runPaused_eq, runPaused_eq]
    exact h.onReady ha hb Alike.walkPaused
  | advance delta =>
    refine ⟨h.stays hr hregistry ⟨rfl, rfl, rfl, rfl⟩ ⟨rfl, rfl, rfl, rfl⟩ ?_, rfl, rfl⟩
    exact congrArg (Processor.advance · delta) h.face
  | setOutput node slot v =>
    have hbare := fun p : Processor σ => (perform_undisturbed p (.setOutput node slot v)).bare
    refine ⟨h.stays hr hregistry ⟨rfl, rfl, rfl, hbare a⟩ ⟨rfl, rfl, rfl, hbare b⟩ ?_, rfl, rfl⟩
    exact congrArg (Processor.setOutput · node slot v) h.face

/-- Editing keeps twins alike if a node is added under a name that was never used. -/
theorem Twin.edit (h : Twin a b) (ha : Faithful r used a) (hb : Faithful r used b) {e : Edit}
    (hnew : ∀ id ∈ (Request.edit e).added?, id ∉ used) :
    Twin { a with graph := e.run a.graph } { b with graph := e.run b.graph } := by
  have hnone : ∀ {p : Processor σ}, Faithful r used p →
      ∀ id ∈ (Request.edit e).added?, p.table.get? id = none := by
    intro p hp id hid
    rw [← Option.not_isSome_iff_eq_none]
    exact fun hsome => hnew id hid (hp.table id hsome)
  exact ⟨⟨congrArg (fun p : Processor σ => { p with graph := e.run p.graph }) h.face, h.walks⟩,
    fun _ => upcoming_edit h.graph h.registry h.upcoming fun id hid =>
      ⟨hnone ha id hid, hnone hb id hid⟩⟩

/-- What a reset leaves to come is what was to come, without progress. -/
theorem upcoming_reset (hr : r.Restarts) (hp : p.registry = r) (id : NodeId) :
    p.reset.1.upcoming id = (p.upcoming id).map Behaves.reset := by
  have htable : p.reset.1.table.get? id = (p.table.get? id).map Behaves.reset :=
    OrderedMap.get?_map _ p.table id
  have hstays : Stays p { p with graph := p.graph.clearValues } :=
    ⟨rfl, rfl, rfl, Graph.bare_clearValues p.graph⟩
  have hnext := hstays.upcoming hr hp id
  simp only [upcoming] at hnext ⊢
  rw [htable]
  cases hget : p.table.get? id with
  | some b => rfl
  | none =>
    rw [hget, Option.none_or, Option.none_or] at hnext
    rw [Option.map_none, Option.none_or, Option.none_or]
    refine hnext.trans ?_
    cases hn : p.graph.node? id with
    | none => rfl
    | some n =>
      rw [Option.bind_some]
      cases hbind : p.registry.bind n with
      | error e => rfl
      | ok b =>
        have hreset := hr.reset_of_bind (hp ▸ hbind)
        show some b = some (Behaves.reset b)
        rw [hreset]

theorem Twin.reset (h : Twin a b) (hr : r.Restarts) (ha : a.registry = r) :
    Twin a.reset.1 b.reset.1 := by
  refine ⟨⟨?_, fun kind => .inr ⟨a.atRest_reset kind, b.atRest_reset kind⟩⟩, fun id hid => ?_⟩
  · exact congrArg (fun p : Processor σ => { p with graph := p.graph.clearValues, paused := [] })
      h.face
  · have hnode : (a.graph.node? id).isSome := by
      rw [← Graph.node?_isSome_eq_of_bare (Graph.bare_clearValues a.graph)]
      exact hid
    rw [upcoming_reset hr ha, upcoming_reset hr (h.registry.trans ha), h.upcoming id hnode]

theorem Twin.reschedule (h : Twin a b) (hr : r.Restarts) (ha : a.registry = r) :
    Twin a.reschedule.1 b.reschedule.1 := by
  refine h.stays hr ha ⟨rfl, rfl, rfl, Graph.bare_schedule _ _ _⟩
    ⟨rfl, rfl, rfl, Graph.bare_schedule _ _ _⟩ ?_
  exact congrArg (fun p : Processor σ => { p with
    graph := (p.graph.schedule p.settings.maxFrontiers.toNat p.kinds).1 }) h.face

end Processor

/-! ## 5. The law -/

namespace Request

variable {σ : Type u} [Behaves σ] {r : Registry σ} {used : List NodeId} {a b p : Processor σ}

/-- The reply to a request. -/
def reply (p : Processor σ) : Request → Reply (Processor σ) RunError Status
  | call c => c.perform p
  | edit e => ⟨{ p with graph := e.run p.graph }, [], .ok .finished⟩
  | reset => ⟨p.reset.1, p.reset.2, .ok .finished⟩
  | setKinds kinds => ⟨p.setKinds kinds, [], .ok .finished⟩
  | reschedule => ⟨p.reschedule.1, p.reschedule.2, .ok .finished⟩
  | ensureReady => ⟨p.ensureReady.state, p.ensureReady.events,
      (p.ensureReady.result.map fun _ => .finished).mapError .bind⟩

theorem reply_state (p : Processor σ) (q : Request) : (q.reply p).state = q.serve p := by
  cases q <;> rfl

theorem serve_sound (h : p.Sound r used) (hr : r.Restarts) {q : Request}
    (hnew : ∀ id ∈ q.added?, id ∉ used) : (q.serve p).Sound r (used ++ q.added?.toList) :=
  ⟨serve_faithful h.faithful hr h.synced q hnew, serve_synced h.synced q,
    serve_tracked h.tracked h.synced q⟩

/-- **No request can tell twins apart.** -/
theorem reply_resembles (h : a.Twin b) (hr : r.Restarts) (ha : a.Sound r used) (hb : b.Sound r used)
    {q : Request} (hnew : ∀ id ∈ q.added?, id ∉ used) :
    Processor.Resembles (q.reply a) (q.reply b) := by
  have hregistry := ha.faithful.registry
  cases q with
  | call c => exact h.perform hr ha hb c
  | edit e => exact ⟨h.edit ha.faithful hb.faithful hnew, rfl, rfl⟩
  | reset =>
    refine ⟨h.reset hr hregistry, ?_, rfl⟩
    show heard b.reset.2 = heard a.reset.2
    rw [Processor.reset, Processor.reset, h.graph]
  | setKinds kinds =>
    have hface := congrArg (fun p : Processor σ => { p with kinds := kinds }) h.face
    exact ⟨⟨⟨hface, h.walks⟩, h.upcoming⟩, rfl, rfl⟩
  | reschedule =>
    refine ⟨h.reschedule hr hregistry, ?_, rfl⟩
    exact (heard_eq_nil fun _ => Processor.isUpkeep_of_mem_reschedule).trans
      (heard_eq_nil fun _ => Processor.isUpkeep_of_mem_reschedule).symm
  | ensureReady =>
    obtain ⟨hresult, htwin, -⟩ := h.ensureReady ha hb
    refine ⟨htwin, ?_, ?_⟩
    · exact (heard_eq_nil fun _ => Processor.isUpkeep_of_mem_ensureReady).trans
        (heard_eq_nil fun _ => Processor.isUpkeep_of_mem_ensureReady).symm
    · show (b.ensureReady.result.map _).mapError _ = _
      rw [hresult]
      rfl

end Request

/-- What a host notices of one request: what is told but for upkeep, the answer, and then the graph
with its slots and ranks, the paused walks and the clock. -/
structure Notices where
  events : List Event
  answer : Except RunError Status
  graph : Graph
  paused : List PausedWalk
  time : FrameTime

namespace Request

variable {σ : Type u} [Behaves σ] {r : Registry σ} {used : List NodeId} {a b p : Processor σ}

/-- What a host notices of a list of requests, one after the other. -/
def notices (p : Processor σ) : List Request → List Notices
  | [] => []
  | q :: requests =>
    { events := heard (q.reply p).events
      answer := (q.reply p).result
      graph := (q.serve p).graph
      paused := (q.serve p).paused
      time := (q.serve p).time } :: notices (q.serve p) requests

/-- **Twins are never told apart**, while nodes are added under new names. -/
theorem notices_eq (hr : r.Restarts) :
    ∀ (requests : List Request) {used : List NodeId} {a b : Processor σ}, a.Twin b →
      a.Sound r used →
      b.Sound r used → (used ++ requests.filterMap added?).Nodup →
      notices b requests = notices a requests
  | [], _, _, _, _, _, _, _ => rfl
  | q :: requests, used, a, b, h, ha, hb, hnew => by
    have hq := notMem_of_nodup hnew
    have hreply := reply_resembles h hr ha hb hq
    have htwin := hreply.twin
    rw [reply_state, reply_state] at htwin
    rw [filterMap_added?_cons, ← List.append_assoc] at hnew
    have hrest := notices_eq hr requests htwin (serve_sound ha hr hq) (serve_sound hb hr hq) hnew
    rw [notices, notices, hrest, hreply.heard, hreply.result, htwin.graph, htwin.paused, htwin.time]

end Request

namespace Processor

/-- A graph can be bound if the types of all its nodes are registered. -/
theorem exists_new {σ : Type u} {r : Registry σ} {g : Graph}
    (hkey : ∀ id n, g.node? id = some n → n.id = id)
    (known : ∀ n ∈ g.nodes.values, (r.get? n.type).isSome) (settings : Settings) :
    ∃ told f, new g r settings = (told, .ok f) := by
  have hcheck : (Table.sync .empty r g).2.2 = .ok () := by
    refine (Table.result_bindMissing ?_ fun n _ hsome => ?_).trans
      (Registry.check_eq_ok fun n hn => ?_)
    · rw [Graph.map_id_values_of_nodeKey hkey]
      exact g.nodes.keys_nodup
    · cases hsome
    · obtain ⟨t, ht⟩ := Option.isSome_iff_exists.1 (known n hn)
      obtain ⟨e, he, -⟩ := Option.map_eq_some_iff.1 ht
      exact ⟨e.make n, by rw [Registry.bind, he]⟩
  unfold new
  simp only [hcheck]
  exact ⟨_, _, rfl⟩

variable {σ : Type u} [Behaves σ] {r : Registry σ} {used : List NodeId} {p f : Processor σ}

/-- But for progress, a node has the behavior that binding it would give, or will have it. -/
theorem Faithful.upcoming (h : Faithful r used p) (hr : r.Restarts) {id : NodeId} {n : Node}
    (hn : p.graph.node? id = some n) :
    (p.upcoming id).map Behaves.reset = (r.bind n).toOption := by
  rw [Processor.upcoming, hn, Option.bind_some, h.registry]
  cases hget : p.table.get? id with
  | some b =>
    rw [h.bound id n b hn hget]
    rfl
  | none =>
    rw [Option.none_or]
    cases hbind : r.bind n with
    | error e => rfl
    | ok b =>
      show some (Behaves.reset b) = some b
      rw [hr.reset_of_bind hbind]

/-- **A processor after a reset and a new one on the emptied graph are twins**, if the new one is
given the same kinds and clock. -/
theorem twin_of_new (hp : Sound r used p) (hr : r.Restarts) {told : List Event}
    (h : new p.graph.clearValues r p.settings = (told, .ok f)) :
    Twin p.reset.1 { f.setKinds p.kinds with time := p.time } := by
  have hatRest := atRest_new h
  obtain ⟨-, rfl⟩ := new_eq_ok h
  refine ⟨⟨?_, fun kind => .inr ⟨p.atRest_reset kind, hatRest kind⟩⟩, fun id hid => ?_⟩
  · have hregistry := hp.faithful.registry
    subst hregistry
    rfl
  · obtain ⟨n, hn⟩ := Option.isSome_iff_exists.1 hid
    have hn' : p.graph.clearValues.node? id = some n := hn
    obtain ⟨m, hm, hmn⟩ := Graph.exists_node?_of_bare (Graph.bare_clearValues p.graph) hn'
    rw [upcoming_reset hr hp.faithful.registry, hp.faithful.upcoming hr hm, hr.bind_congr hmn]
    -- the new table holds what binding gives
    show ((Table.sync .empty r p.graph.clearValues).1.get? id).or
      ((p.graph.clearValues.node? id).bind fun n => (r.bind n).toOption) = _
    rw [hn', Option.bind_some]
    rcases Table.get?_sync_cases (t := .empty) (r := r)
      (nodeKey_of_bare (Graph.bare_clearValues p.graph) hp.synced.nodeKey) hn' with
      hsame | ⟨-, b, hb, hget⟩
    · rw [hsame, OrderedMap.get?_empty, Option.none_or]
    · rw [hget, hb]
      rfl

theorem sound_new {g : Graph} (hkey : ∀ id n, g.node? id = some n → n.id = id) (hr : r.Restarts)
    {settings : Settings} {told : List Event} (h : new g r settings = (told, .ok p)) :
    Sound r g.nodes.keys p :=
  ⟨.new hkey hr h, .new_of_nodeKey hkey h, .new h⟩

/-- A fresh processor may be given other kinds and another clock. -/
theorem Sound.fresh {used' : List NodeId} (h : Sound r used p) (hsub : ∀ id ∈ used, id ∈ used')
    (kinds : List EntryKind) (time : FrameTime) :
    Sound r used' { p.setKinds kinds with time := time } := by
  have hsynced := h.synced.setKinds kinds
  exact ⟨⟨h.faithful.registry, fun id hid => hsub id (h.faithful.nodes id hid),
      fun id hid => hsub id (h.faithful.table id hid), h.faithful.bound⟩,
    ⟨hsynced.nodeKey, hsynced.boundAt_le, hsynced.binds, hsynced.scheduledAt_le, hsynced.ranks⟩,
    ⟨h.tracked.paused, h.tracked.cursors, h.tracked.placed⟩⟩

end Processor

/-- **A reset is a fresh start.**  The standard types and the probes have the laws of progress.
Over any registry that has them, take any processor that was made for a built graph and any list of
requests to it, failing ones included, in which every node is added under a new name, and reset it.
If the types of all nodes are registered by then, a new processor can be made for a copy of the
graph with empty slots, and if it is given the same settings, kinds and clock, no list of further
requests tells the two apart: whatever is told but for upkeep, every answer, and after each request
the graph with its slots and ranks, the paused walks and the clock are the same. -/
theorem reset_is_a_fresh_start :
    Library.registry.Restarts ∧ Probe.registry.Restarts ∧
    ∀ {σ : Type u} [Behaves σ] (r : Registry σ), r.Restarts →
      ∀ (g : Graph), g.Built → ∀ (settings : Settings) (told : List Event) (p : Processor σ),
      Processor.new g r settings = (told, .ok p) →
      ∀ past future : List Request,
      (g.nodes.keys ++ (past ++ future).filterMap Request.added?).Nodup →
      let q := Request.serveAll p past
      (∀ n ∈ q.graph.nodes.values, (r.get? n.type).isSome) →
      ∃ told' fresh, Processor.new q.graph.clearValues r q.settings = (told', .ok fresh) ∧
        Request.notices { fresh.setKinds q.kinds with time := q.time } future =
          Request.notices q.reset.1 future := by
  refine ⟨Library.restarts, Probe.restarts, ?_⟩
  intro σ _ r restarts g built settings told p new past future names q known
  rw [List.filterMap_append, ← List.append_assoc] at names
  have hp : p.Sound r g.nodes.keys := Processor.sound_new built.intact.nodeKey restarts new
  have hq : q.Sound r (g.nodes.keys ++ past.filterMap Request.added?) :=
    ⟨Request.serveAll_faithful restarts past hp.faithful hp.synced names.of_append_left,
      Request.serveAll_synced past hp.synced, Request.serveAll_tracked past hp.tracked hp.synced⟩
  have hreset : q.reset.1.Sound r (g.nodes.keys ++ past.filterMap Request.added?) :=
    ⟨hq.faithful.reset restarts, hq.synced.still q.reset_still, hq.tracked.reset⟩
  -- the emptied graph has the nodes of the graph
  have hkey := Processor.nodeKey_of_bare (Graph.bare_clearValues q.graph) hq.synced.nodeKey
  have known' : ∀ n ∈ q.graph.clearValues.nodes.values, (r.get? n.type).isSome := by
    intro n hn
    rw [show q.graph.clearValues.nodes.values = q.graph.nodes.values.map Node.clearValues from
      OrderedMap.values_map _ _] at hn
    obtain ⟨m, hm, rfl⟩ := List.mem_map.1 hn
    exact known m hm
  obtain ⟨told', fresh, hfresh⟩ := Processor.exists_new hkey known' q.settings
  have hsound := (Processor.sound_new hkey restarts hfresh).fresh
    (fun id hid => hreset.faithful.nodes id ((OrderedMap.get?_isSome_iff _ _).2 hid)) q.kinds q.time
  exact ⟨told', fresh, hfresh, Request.notices_eq restarts future
    (Processor.twin_of_new hq restarts hfresh) hreset hsound names⟩

/-- The example waits for half a second in its run and in a walk of its own, and has just lost a
node that could not be bound. -/
def examplePast : List Request :=
  [ .setKinds [.update],
    .call (.run .update),
    .call (.run .update),
    .call (.advance ⟨0x3f000000⟩),
    .call (.run .update),
    .call (.runFrom [exampleId 0] .event),
    .edit (.addNode { exampleNode 7 Library.waitType with type := "unknown" }),
    .call .runPaused,
    .edit (.removeNode (exampleId 7)) ]

/-- It is run through its wait, started from its entry, and goes on to a new node. -/
def exampleFuture : List Request :=
  [ .call (.run .update),
    .call (.run .update),
    .call (.advance .one),
    .edit (.addNode (exampleNode 8 Library.branchType)),
    .edit (exampleLink 9 5 "Exec" 8 "Exec"),
    .call (.run .update),
    .call (.runFrom [exampleId 0] .event) ]

/-- Before the reset the example has waited, has a walk on hold and a table that is out of date;
none of this is noticed afterwards. -/
theorem example_reset_is_a_fresh_start :
    let q := Request.serveAll exampleProcessor examplePast
    q.table.get? (exampleId 5) = some (.wait ⟨0x3f000000⟩) ∧ q.paused.length = 1 ∧
    q.boundAt ≠ q.graph.revision ∧
    (exampleGraph.nodes.keys ++ (examplePast ++ exampleFuture).filterMap Request.added?).Nodup ∧
    (∀ n ∈ q.graph.nodes.values, (Library.registry.get? n.type).isSome) ∧
    ∃ told fresh,
      Processor.new q.graph.clearValues Library.registry q.settings = (told, .ok fresh) ∧
      Request.notices { fresh.setKinds q.kinds with time := q.time } exampleFuture =
        Request.notices q.reset.1 exampleFuture := by
  obtain ⟨told, hnew⟩ := exampleProcessor_new
  have hnames : (exampleGraph.nodes.keys ++
      (examplePast ++ exampleFuture).filterMap Request.added?).Nodup := by decide +kernel
  have hknown : ∀ n ∈ (Request.serveAll exampleProcessor examplePast).graph.nodes.values,
      (Library.registry.get? n.type).isSome := by decide +kernel
  exact ⟨by decide +kernel, by decide +kernel, by decide +kernel, hnames, hknown,
    reset_is_a_fresh_start.2.2 Library.registry Library.restarts exampleGraph
      exampleGraph_built _ told exampleProcessor hnew examplePast exampleFuture hnames hknown⟩

end FlowScript
