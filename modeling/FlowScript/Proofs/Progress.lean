/-
# The progress of behaviors can be taken back

A behavior is made from the settings of its node, and then changes as it is evaluated: it counts
ticks, or adds up time.  That is its progress, and a reset takes it back.  What a reset leaves is
what the node would be bound to if it were bound now, whatever has been asked of the processor in
between.

* `Registry.Restarts` says which laws of behaviors this rests on; the standard types and the probes
  have them.
* Walking does not change what a reset shows of the behaviors (`Scene.reset_walkWithin`).
* `Faithful` is the invariant over requests: a bound node is bound to what binding it again would
  give, but for progress.  It needs every node to be added under a name that was never used before:
  a node that is replaced under its name keeps the behavior of the old one.
-/
import FlowScript.Proofs.Bookkeeping

namespace FlowScript

universe u v

/-! ## 1. Behaviors that can be restarted -/

/-- A new behavior has no progress, and depends on the settings of its node alone. -/
structure Registered.Plain {σ : Type u} [Behaves σ] (e : Registered σ) : Prop where
  made : ∀ n, Behaves.reset (e.make n) = e.make n
  fromSettings : ∀ n m : Node, n.settings = m.settings → e.make n = e.make m

/-- The laws of progress: an evaluation changes nothing else, a second reset changes nothing, and
new behaviors are plain. -/
structure Registry.Restarts {σ : Type u} [Behaves σ] (r : Registry σ) : Prop where
  evaluated : ∀ (b : σ) (c : Context), Behaves.reset (Behaves.evaluate b c).state = Behaves.reset b
  twice : ∀ b : σ, Behaves.reset (Behaves.reset b) = Behaves.reset b
  plain : ∀ type e, r.entries.get? type = some e → e.Plain

namespace Registry

/-- What is registered is one of the listed types. -/
theorem forall_ofList {σ : Type u} {P : Registered σ → Prop} :
    ∀ (l : List (NodeType × (Node → σ))) (r : Registry σ),
      (∀ type e, r.entries.get? type = some e → P e) → (∀ e ∈ l, P ⟨e.1, e.2⟩) →
      ∀ type e, (l.foldl (fun r e => r.register e.1 e.2) r).entries.get? type = some e → P e
  | [], _, hr, _ => hr
  | (t, make) :: l, r, hr, hl => by
    refine forall_ofList l (r.register t make) (fun type e he => ?_) fun e he =>
      hl e (List.mem_cons_of_mem _ he)
    rw [register, OrderedMap.get?_insert] at he
    split at he
    · cases he
      exact hl (t, make) List.mem_cons_self
    · exact hr type e he

namespace Restarts

variable {σ : Type u} [Behaves σ] {r : Registry σ}

theorem reset_of_bind (h : r.Restarts) {n : Node} {b : σ} (hb : r.bind n = .ok b) :
    Behaves.reset b = b := by
  unfold bind at hb
  split at hb
  · next e he =>
    cases hb
    exact (h.plain _ e he).made n
  · cases hb

theorem bind_congr (h : r.Restarts) {n m : Node} (hbare : n.bare = m.bare) :
    r.bind n = r.bind m := by
  have htype : n.type = m.type := show n.bare.type = m.bare.type by rw [hbare]
  have hid : n.id = m.id := show n.bare.id = m.bare.id by rw [hbare]
  have hsettings : n.settings = m.settings := show n.bare.settings = m.bare.settings by rw [hbare]
  unfold bind
  rw [htype, hid]
  split
  · next e he => rw [(h.plain _ e he).fromSettings n m hsettings]
  · rfl

end Restarts

end Registry

namespace Library

theorem reset_evaluate (b : Behavior) (c : Context) : (b.evaluate c).state.reset = b.reset := by
  have hcombine : ∀ b f, (combine b c f).state = b := by
    intro b f
    unfold combine
    split
    · rfl
    · split <;> rfl
  cases b with
  | entry writesDelta => cases writesDelta <;> rfl
  | log printed =>
    show (print printed c).state.reset = _
    unfold print
    split <;> rfl
  | branch =>
    show (choose c).state.reset = _
    unfold choose
    split <;> rfl
  | wait waited =>
    show (hold waited c).state.reset = _
    unfold hold
    split
    · rfl
    · simp only
      split <;> rfl
  | constant v => rfl
  | add => exact congrArg Behavior.reset (hcombine _ _)
  | greater => exact congrArg Behavior.reset (hcombine _ _)
  | format template => rfl

/-- **The standard nodes can be restarted.** -/
theorem restarts : registry.Restarts := by
  refine ⟨reset_evaluate, fun b => by cases b <;> rfl, Registry.forall_ofList _ .empty nofun ?_⟩
  refine List.forall_mem_append.2 ⟨fun e he => ?_, ?_⟩
  · obtain ⟨t, -, rfl⟩ := List.mem_map.1 he
    exact ⟨fun _ => rfl, fun _ _ _ => rfl⟩
  · simp only [List.forall_mem_cons]
    exact ⟨⟨fun _ => rfl, fun _ _ _ => rfl⟩, ⟨fun _ => rfl, fun _ _ _ => rfl⟩,
      ⟨fun _ => rfl, fun _ _ _ => rfl⟩,
      ⟨fun _ => rfl, fun n m h => by simp only [makeConstant, Node.setting?, h]⟩,
      ⟨fun _ => rfl, fun _ _ _ => rfl⟩, ⟨fun _ => rfl, fun _ _ _ => rfl⟩,
      ⟨fun _ => rfl, fun n m h => by simp only [makeFormat, Node.setting?, h]⟩,
      List.forall_mem_nil _⟩

end Library

namespace Probe

theorem reset_evaluate (b : Behavior) (c : Context) : (b.evaluate c).state.reset = b.reset := by
  cases b with
  | entry => rfl
  | action unfinished follow? fails pending =>
    simp only [Behavior.evaluate]
    split <;> rfl
  | data value => rfl

/-- **The probes can be restarted.** -/
theorem restarts : registry.Restarts := by
  refine ⟨reset_evaluate, fun b => by cases b <;> rfl, Registry.forall_ofList _ .empty nofun ?_⟩
  refine List.forall_mem_append.2 ⟨fun e he => ?_, ?_⟩
  · obtain ⟨kind, -, rfl⟩ := List.mem_map.1 he
    exact ⟨fun _ => rfl, fun _ _ _ => rfl⟩
  · simp only [List.forall_mem_cons]
    exact ⟨⟨fun _ => rfl, fun n m h => by simp only [makeAction, Node.setting?, h]⟩,
      ⟨fun _ => rfl, fun n m h => by simp only [makeData, Node.setting?, h]⟩, List.forall_mem_nil _⟩

end Probe

/-! ## 2. Walking and what a reset shows -/

namespace Scene

variable {σ : Type u} [Behaves σ] {P : Scene σ → Prop} {time : FrameTime}

/-- The property survives an evaluation, a push, and changes of what is remembered. -/
structure Survives (P : Scene σ → Prop) (time : FrameTime) : Prop where
  evaluate : ∀ s role id, P s → P (s.evaluate time role id).scene
  push : ∀ s id, P s → P (s.push id)
  memory : ∀ s ids, P s → P { s with resolved := ids }

namespace Survives

theorem pullWith (h : Survives P time) {deeper : Scene σ → NodeId → Step σ Unit}
    (hdeeper : ∀ s id, P s → P (deeper s id).scene) :
    ∀ (ids : List NodeId) (s : Scene σ), P s → P (pullWith time deeper ids s).scene
  | [], _, hs => hs
  | id :: ids, s, hs => by
    have hs' := h.memory s (s.resolved ++ [id]) hs
    unfold Scene.pullWith
    split
    · exact pullWith h hdeeper ids s hs
    · simp only
      split
      · have hbelow := hdeeper _ id hs'
        have hown := h.evaluate _ .data id hbelow
        split
        · exact hbelow
        · split
          · exact hown
          · exact pullWith h hdeeper ids _ (h.push _ id hown)
      · exact pullWith h hdeeper ids _ hs'

theorem resolveWithin (h : Survives P time) :
    ∀ (fuel : Nat) (s : Scene σ) (id : NodeId), P s → P (resolveWithin time fuel s id).scene
  | 0, _, _, hs => hs
  | fuel + 1, s, _, hs => h.pullWith (h.resolveWithin fuel) _ s hs

theorem step (h : Survives P time) (memo : Memoization) (s : Scene σ) (id : NodeId) (hs : P s) :
    P (s.step memo time id).scene := by
  have hforget : P (if memo = .perNode then { s with resolved := [] } else s) := by
    split
    · exact h.memory s [] hs
    · exact hs
  unfold Scene.step
  generalize (if memo = .perNode then { s with resolved := [] } else s) = s' at hforget
  have hbelow : P (s'.resolve time id).scene := h.resolveWithin _ s' id hforget
  have hown := h.evaluate _ .control id hbelow
  simp only
  split
  · exact hbelow
  · split
    · exact hown
    · exact h.push _ id hown

/-- **What survives the parts of a walk survives the walk.** -/
theorem walkWithin (h : Survives P time) (memo : Memoization) (bound : Nat) :
    ∀ (budget : Nat) (s : Scene σ) (id : NodeId),
      P s → P (walkWithin memo time bound budget s id).scene
  | 0, s, id, hs => by
    unfold Scene.walkWithin
    split <;> exact hs
  | budget + 1, s, id, hs => by
    have hstep := h.step memo s id hs
    unfold Scene.walkWithin
    split
    · simp only
      split
      · exact hstep
      · exact hstep
      · split
        · exact hstep
        · exact walkWithin h memo bound budget _ _ hstep
    · exact hs

end Survives

/-- An evaluation makes progress at most. -/
theorem reset_evaluate {r : Registry σ} (hr : r.Restarts) (s : Scene σ) (role : Role)
    (id : NodeId) : (s.evaluate time role id).scene.table.reset = s.table.reset := by
  unfold evaluate
  split
  · rfl
  · rfl
  · next b n hb _ =>
    simp only [Table.reset, OrderedMap.modify, OrderedMap.map_map]
    refine OrderedMap.map_congr fun k x hx => ?_
    split
    · next hk =>
      subst hk
      rw [hb] at hx
      cases hx
      exact hr.evaluated b _
    · rfl

/-- **A walk makes progress at most.** -/
theorem reset_walkWithin {r : Registry σ} (hr : r.Restarts) (memo : Memoization)
    (bound budget : Nat) (s : Scene σ) (id : NodeId) :
    (walkWithin memo time bound budget s id).scene.table.reset = s.table.reset :=
  Survives.walkWithin (P := fun t => t.table.reset = s.table.reset)
    ⟨fun _ role id h => (reset_evaluate hr _ role id).trans h, fun _ _ h => h, fun _ _ h => h⟩
    memo bound budget s id rfl

end Scene

/-! ## 3. What a table can hold -/

namespace Table

variable {σ : Type u} {r : Registry σ}

/-- **What binding does to one look-up**: nothing, or it binds a node that was not bound. -/
theorem get?_bindMissing_cases (id : NodeId) :
    ∀ (ns : List Node) (t : Table σ),
      (bindMissing r ns t).1.get? id = t.get? id ∨
      t.get? id = none ∧ ∃ n ∈ ns, n.id = id ∧ ∃ b, r.bind n = .ok b ∧
        (bindMissing r ns t).1.get? id = some b
  | [], _ => .inl rfl
  | n :: ns, t => by
    unfold bindMissing
    split
    · rcases get?_bindMissing_cases id ns t with h | ⟨hnone, m, hm, h⟩
      · exact .inl h
      · exact .inr ⟨hnone, m, List.mem_cons_of_mem n hm, h⟩
    · next hfree =>
      split
      · exact .inl rfl
      · next b hb =>
        simp only
        have hinsert := OrderedMap.get?_insert t n.id id b
        rcases get?_bindMissing_cases id ns (OrderedMap.insert t n.id b) with
          h | ⟨hnone, m, hm, h⟩
        · rw [h, hinsert]
          split
          · next hid =>
            subst hid
            have hnone : t.get? n.id = none := by
              rw [← Option.not_isSome_iff_eq_none]
              exact hfree
            exact .inr ⟨hnone, n, List.mem_cons_self, rfl, b, hb, rfl⟩
          · exact .inl rfl
        · rw [hinsert] at hnone
          split at hnone
          · cases hnone
          · exact .inr ⟨hnone, m, List.mem_cons_of_mem n hm, h⟩

variable {g : Graph} {t : Table σ} {id : NodeId}

theorem get?_kept_of_isSome (hid : (g.node? id).isSome) :
    (OrderedMap.filter (fun id _ => (g.node? id).isSome) t).get? id = t.get? id := by
  refine Option.ext fun b => ?_
  rw [OrderedMap.get?_filter_eq_some_iff]
  exact and_iff_left hid

/-- Bringing a table up to date keeps the behavior of a node that has one, and may
bind one that has none. -/
theorem get?_sync_cases (hkey : ∀ id n, g.node? id = some n → n.id = id) {n : Node}
    (hn : g.node? id = some n) :
    (t.sync r g).1.get? id = t.get? id ∨
    t.get? id = none ∧ ∃ b, r.bind n = .ok b ∧ (t.sync r g).1.get? id = some b := by
  have hkept : (OrderedMap.filter (fun id _ => (g.node? id).isSome) t).get? id = t.get? id :=
    get?_kept_of_isSome (by rw [hn]; rfl)
  rcases get?_bindMissing_cases (r := r) id g.nodes.values
    (OrderedMap.filter (fun id _ => (g.node? id).isSome) t) with h | ⟨hnone, m, hm, hid, b, hb, h⟩
  · exact .inl (h.trans hkept)
  · obtain ⟨k, hk⟩ := (OrderedMap.mem_values_iff _ _).1 hm
    obtain rfl : k = id := (hkey k m hk).symm.trans hid
    obtain rfl : m = n := Option.some.inj (hk.symm.trans hn)
    exact .inr ⟨hkept.symm.trans hnone, b, hb, h⟩

/-- Bringing a table up to date leaves no behavior of a node that is gone. -/
theorem get?_sync_of_none (hkey : ∀ id n, g.node? id = some n → n.id = id)
    (hid : g.node? id = none) : (t.sync r g).1.get? id = none := by
  rcases get?_bindMissing_cases (r := r) id g.nodes.values
    (OrderedMap.filter (fun id _ => (g.node? id).isSome) t) with h | ⟨-, m, hm, rfl, -⟩
  · refine h.trans ?_
    rw [Option.eq_none_iff_forall_ne_some]
    intro b hb
    have hkept := ((OrderedMap.get?_filter_eq_some_iff _ _ _ _).1 hb).2
    rw [hid] at hkept
    cases hkept
  · obtain ⟨k, hk⟩ := (OrderedMap.mem_values_iff _ _).1 hm
    rw [hkey k m hk] at hid
    cases hid.symm.trans hk

end Table

/-! ## 4. Requests -/

/-- The node that a request adds. -/
def Request.added? : Request → Option NodeId
  | edit (.addNode n) => some n.id
  | _ => none

namespace Processor

variable {σ : Type u} [Behaves σ] {used : List NodeId} {p q : Processor σ}

/-- A new processor before anything is bound. -/
def unbound {σ : Type u} (g : Graph) (r : Registry σ) (settings : Settings) : Processor σ where
  graph := g
  registry := r
  table := .empty
  settings := settings
  kinds := EntryKind.all
  walks := .empty
  paused := []
  scheduledAt := none
  boundAt := g.revision
  report := .none
  time := .zero

theorem new_eq_ok {σ : Type u} {g : Graph} {r : Registry σ} {settings : Settings}
    {told : List Event} {p : Processor σ} (h : new g r settings = (told, .ok p)) :
    (Table.sync .empty r g).2.2 = .ok () ∧
      p = { unbound g r settings with table := (Table.sync .empty r g).1 } := by
  unfold new at h
  simp only at h
  split at h
  · cases h
  · next hok =>
    cases h
    exact ⟨hok, rfl⟩

/-! ### What survives walking from one cursor -/

section Survival

variable {P : Processor σ → Prop}

theorem walkAll_survives (hwalk : ∀ p c, P p → P (p.walkCursor c).1) :
    ∀ (cs : List Cursor) (p : Processor σ), P p → P (p.walkAll cs).1
  | [], _, hp => hp
  | c :: cs, p, hp => by
    have hc := hwalk p c hp
    unfold walkAll
    split
    · next h =>
      rw [h] at hc
      exact hc
    · next q _ _ _ h =>
      rw [h] at hc
      exact walkAll_survives hwalk cs q hc

theorem resumeAll_survives (hwalk : ∀ p c, P p → P (p.walkCursor c).1) :
    ∀ (ws : List PausedWalk) (p : Processor σ), P p → P (p.resumeAll ws).1
  | [], _, hp => hp
  | w :: ws, p, hp => by
    have hw := hwalk p w.cursor hp
    unfold resumeAll
    split
    · next h =>
      rw [h] at hw
      exact hw
    · next q _ _ _ h =>
      rw [h] at hw
      exact resumeAll_survives hwalk ws q hw

theorem walkSeeds_survives (hwalk : ∀ p c, P p → P (p.walkCursor c).1)
    (hpaused : ∀ p ws, P p → P { p with paused := ws }) (kind : EntryKind) :
    ∀ (seeds : List NodeId) (p : Processor σ), P p → P (p.walkSeeds kind seeds).state
  | [], _, hp => hp
  | seed :: seeds, p, hp => by
    have hseed := hwalk (p.withoutSeed kind seed) (p.seedCursor kind seed) (hpaused p _ hp)
    rcases p.walkSeeds_cases kind seed seeds with
      ⟨-, h⟩ | ⟨q, c, events, e, hfail, h⟩ | ⟨q, c, events, outcome, hok, h⟩
    · rw [h]
      exact walkSeeds_survives hwalk hpaused kind seeds p hp
    · rw [h]
      rw [hfail] at hseed
      exact hseed
    · rw [h]
      rw [hok] at hseed
      refine walkSeeds_survives hwalk hpaused kind seeds _ ?_
      unfold keep
      split
      · exact hseed
      · exact hpaused q _ hseed

end Survival

/-! ### Faithful tables -/

/-- Every node of the graph and the table has one of the names, and a bound node is bound to what
binding it would give, but for progress. -/
structure Faithful (r : Registry σ) (used : List NodeId) (p : Processor σ) : Prop where
  registry : p.registry = r
  nodes : ∀ id, (p.graph.node? id).isSome → id ∈ used
  table : ∀ id, (p.table.get? id).isSome → id ∈ used
  bound : ∀ id n b, p.graph.node? id = some n → p.table.get? id = some b →
    r.bind n = .ok (Behaves.reset b)

namespace Faithful

variable {r : Registry σ}

/-- The invariant sees the topology, and of the behaviors what a reset shows. -/
theorem congr (h : Faithful r used p) (hr : r.Restarts) (hregistry : q.registry = p.registry)
    (hbare : q.graph.bare = p.graph.bare) (htable : q.table.reset = p.table.reset) :
    Faithful r used q := by
  have hget : ∀ id, (q.table.get? id).map Behaves.reset = (p.table.get? id).map Behaves.reset := by
    intro id
    rw [← OrderedMap.get?_map fun _ => Behaves.reset, ← OrderedMap.get?_map fun _ => Behaves.reset]
    exact congrArg (OrderedMap.get? · id) htable
  refine ⟨hregistry.trans h.registry, fun id hid => h.nodes id ?_, fun id hid => h.table id ?_,
    fun id n b hn hb => ?_⟩
  · rw [← Graph.node?_isSome_eq_of_bare hbare]
    exact hid
  · have hsome := congrArg Option.isSome (hget id)
    rw [Option.isSome_map, Option.isSome_map] at hsome
    exact hsome ▸ hid
  · obtain ⟨m, hm, hmn⟩ := Graph.exists_node?_of_bare hbare hn
    have hreset := hget id
    rw [hb, Option.map_some] at hreset
    obtain ⟨b', hb', hbb'⟩ := Option.map_eq_some_iff.1 hreset.symm
    rw [← hr.bind_congr hmn, h.bound id m b' hm hb', hbb']

/-- Binding keeps the invariant, whether it fails or not. -/
theorem sync (h : Faithful r used p) (hr : r.Restarts)
    (hkey : ∀ id n, p.graph.node? id = some n → n.id = id) :
    Faithful r used { p with table := (p.table.sync p.registry p.graph).1 } := by
  rw [h.registry]
  refine ⟨rfl, h.nodes, fun id hid => ?_, fun id n b hn hb => ?_⟩
  · cases hnode : p.graph.node? id with
    | none =>
      simp only [Table.get?_sync_of_none hkey hnode] at hid
      cases hid
    | some n => exact h.nodes id (by rw [hnode]; rfl)
  · rcases Table.get?_sync_cases (t := p.table) (r := r) hkey hn with hsame | ⟨-, b', hb', hget⟩
    · exact h.bound id n b hn (hsame.symm.trans hb)
    · obtain rfl : b = b' := Option.some.inj (hb.symm.trans hget)
      rw [hr.reset_of_bind hb']
      exact hb'

theorem new {g : Graph} (hkey : ∀ id n, g.node? id = some n → n.id = id) (hr : r.Restarts)
    {settings : Settings} {told : List Event}
    (h : Processor.new g r settings = (told, .ok p)) : Faithful r g.nodes.keys p := by
  obtain ⟨-, rfl⟩ := new_eq_ok h
  have hunbound : Faithful r g.nodes.keys (unbound g r settings) :=
    ⟨rfl, fun id hid => (OrderedMap.get?_isSome_iff _ _).1 hid, nofun, nofun⟩
  exact hunbound.sync hr hkey

theorem rebind (h : Faithful r used p) (hr : r.Restarts) (hs : p.Synced) :
    Faithful r used p.rebind.state := by
  have hsync := h.sync hr hs.nodeKey
  unfold Processor.rebind
  split
  · exact h
  · simp only
    split
    · exact hsync
    · exact ⟨hsync.registry, hsync.nodes, hsync.table, hsync.bound⟩

theorem reschedule (h : Faithful r used p) (hr : r.Restarts) : Faithful r used p.reschedule.1 :=
  h.congr hr rfl (Graph.bare_schedule _ _ _) rfl

theorem ensureReady (h : Faithful r used p) (hr : r.Restarts) (hs : p.Synced) :
    Faithful r used p.ensureReady.state := by
  have hrebind := h.rebind hr hs
  unfold Processor.ensureReady
  simp only
  split
  · exact hrebind
  · split
    · exact hrebind
    · exact hrebind.reschedule hr

/-- Walking keeps the invariant. -/
theorem walkCursor (h : Faithful r used p) (hr : r.Restarts) (c : Cursor) :
    Faithful r used (p.walkCursor c).1 :=
  h.congr hr rfl (walkCursor_moved p c).1.bare (Scene.reset_walkWithin hr _ _ _ _ _)

/-- An edit keeps the invariant if it adds a node under a name that was never used. -/
theorem edit (h : Faithful r used p) {e : Edit} (hnew : ∀ id ∈ (Request.edit e).added?, id ∉ used) :
    Faithful r (used ++ (Request.edit e).added?.toList) { p with graph := e.run p.graph } := by
  have hold : ∀ id n, (e.run p.graph).node? id = some n →
      p.graph.node? id = some n ∨ e = .addNode n ∧ n.id = id := by
    rcases Edit.run_cases p.graph e with hsame | ⟨-, hnodes⟩
    · rw [hsame]
      exact fun id n hn => .inl hn
    · exact hnodes
  refine ⟨h.registry, fun id hid => ?_, fun id hid => List.mem_append_left _ (h.table id hid),
    fun id n b hn hb => ?_⟩
  · obtain ⟨n, hn⟩ := Option.isSome_iff_exists.1 hid
    rcases hold id n hn with hn | ⟨rfl, rfl⟩
    · exact List.mem_append_left _ (h.nodes id (by rw [hn]; rfl))
    · exact List.mem_append_right _ (List.mem_singleton_self n.id)
  · rcases hold id n hn with hn | ⟨rfl, rfl⟩
    · exact h.bound id n b hn hb
    · -- the name of a new node is not in the table
      exact absurd (h.table n.id (by rw [hb]; rfl)) (hnew n.id rfl)

/-- A call that gets ready and walks keeps the invariant, if walking does. -/
theorem onReady (h : Faithful r used p) (hr : r.Restarts) (hs : p.Synced)
    {walking : Processor σ → Reply (Processor σ) EvalError Status}
    (hwalking : ∀ q, Faithful r used q → Faithful r used (walking q).state) :
    Faithful r used (p.onReady walking).state := by
  rcases p.onReady_cases walking with ⟨hstate, -⟩ | ⟨-, hstate, -⟩
  · rw [hstate]
    exact h.ensureReady hr hs
  · rw [hstate]
    exact hwalking _ (h.ensureReady hr hs)

theorem perform (h : Faithful r used p) (hr : r.Restarts) (hs : p.Synced) (c : Call) :
    Faithful r used (c.perform p).state := by
  have hwalk : ∀ q c, Faithful r used q → Faithful r used (Processor.walkCursor q c).1 :=
    fun q c hq => hq.walkCursor hr c
  cases c with
  | run kind =>
    rw [Call.perform, run_eq]
    refine h.onReady hr hs fun q hq => ?_
    have hq' := walkAll_survives hwalk (q.cursors kind) q hq
    exact ⟨hq'.registry, hq'.nodes, hq'.table, hq'.bound⟩
  | runFrom seeds kind =>
    rw [Call.perform, runFrom_eq]
    exact h.onReady hr hs fun q hq => walkSeeds_survives hwalk
      (fun _ _ hp => ⟨hp.registry, hp.nodes, hp.table, hp.bound⟩) kind seeds q hq
  | runPaused =>
    rw [Call.perform, runPaused_eq]
    refine h.onReady hr hs fun q hq => ?_
    have hq' := resumeAll_survives hwalk q.paused { q with paused := [] }
      ⟨hq.registry, hq.nodes, hq.table, hq.bound⟩
    exact ⟨hq'.registry, hq'.nodes, hq'.table, hq'.bound⟩
  | advance delta => exact ⟨h.registry, h.nodes, h.table, h.bound⟩
  | setOutput node slot v =>
    exact h.congr hr rfl (perform_undisturbed p (.setOutput node slot v)).bare rfl

/-- **A reset binds every node to what it would be bound to now.** -/
theorem reset (h : Faithful r used p) (hr : r.Restarts) : Faithful r used p.reset.1 := by
  refine h.congr hr rfl (Graph.bare_clearValues p.graph) ?_
  show (p.table.reset).reset = p.table.reset
  rw [Table.reset, Table.reset, OrderedMap.map_map]
  exact OrderedMap.map_congr fun _ b _ => hr.twice b

end Faithful

end Processor

namespace Request

variable {σ : Type u} [Behaves σ] {r : Registry σ} {used : List NodeId} {p : Processor σ}

theorem serve_faithful (h : p.Faithful r used) (hr : r.Restarts) (hs : p.Synced) (q : Request)
    (hnew : ∀ id ∈ q.added?, id ∉ used) : (q.serve p).Faithful r (used ++ q.added?.toList) := by
  have hnone : ∀ {q' : Processor σ}, q'.Faithful r used → q'.Faithful r (used ++ []) := by
    intro q' hq'
    rw [List.append_nil]
    exact hq'
  cases q with
  | call c => exact hnone (h.perform hr hs c)
  | edit e => exact h.edit hnew
  | reset => exact hnone (h.reset hr)
  | setKinds kinds => exact hnone ⟨h.registry, h.nodes, h.table, h.bound⟩
  | reschedule => exact hnone (h.reschedule hr)
  | ensureReady => exact hnone (h.ensureReady hr hs)

theorem filterMap_added?_cons (q : Request) (requests : List Request) :
    (q :: requests).filterMap added? = q.added?.toList ++ requests.filterMap added? := by
  cases h : q.added? with
  | none => exact List.filterMap_cons_none h
  | some id => exact List.filterMap_cons_some h

/-- Names that were never used before are not those of the nodes so far. -/
theorem notMem_of_nodup {q : Request} {requests : List Request}
    (hnew : (used ++ (q :: requests).filterMap added?).Nodup) : ∀ id ∈ q.added?, id ∉ used := by
  intro id hid hused
  rw [filterMap_added?_cons, List.nodup_append] at hnew
  exact hnew.2.2 id hused id (List.mem_append_left _ (Option.mem_toList.2 hid)) rfl

/-- **Every bound node stays bound to what binding it would give, but for progress**, while nodes
are added under new names. -/
theorem serveAll_faithful (hr : r.Restarts) :
    ∀ (requests : List Request) {used : List NodeId} {p : Processor σ}, p.Faithful r used →
      p.Synced →
      (used ++ requests.filterMap added?).Nodup →
      (serveAll p requests).Faithful r (used ++ requests.filterMap added?)
  | [], used, p, h, _, _ => by
    rw [List.filterMap_nil, List.append_nil]
    exact h
  | q :: requests, used, p, h, hs, hnew => by
    have hserve := serve_faithful h hr hs q (notMem_of_nodup hnew)
    rw [filterMap_added?_cons, ← List.append_assoc] at hnew ⊢
    exact serveAll_faithful hr requests hserve (serve_synced hs q) hnew

end Request

end FlowScript
