/-
# What lasts through calls

Many laws say that something is so however long a processor has been used.  A call does few things
to a processor: it brings it up to date, lets walks go on from cursors, and keeps cursors and paused
walks.  What survives each of these survives the call, and if walks from such processors fail in
certain ways only, so does the call (`Processor.Lasting`).

The same for one walk: what survives evaluations and pushes survives the walk (`Scene.Survives`),
and a walk fails in no other way than an evaluation that it can come to
(`Scene.Survives.walkWithin_error`).
-/
import FlowScript.Proofs.Progress
import FlowScript.Proofs.Slots

namespace FlowScript

universe u

variable {σ : Type u}

/-! ## 1. What becomes of one behavior and one node -/

/-- After bringing a table up to date, a behavior is an old one or was made for its node. -/
theorem Table.get?_sync_eq_some {r : Registry σ} {g : Graph} {t : Table σ} {id : NodeId} {b : σ}
    (hkey : ∀ id n, g.node? id = some n → n.id = id) (h : (t.sync r g).1.get? id = some b) :
    t.get? id = some b ∨ ∃ n, g.node? id = some n ∧ r.bind n = .ok b := by
  cases hn : g.node? id with
  | none => cases h.symm.trans (get?_sync_of_none hkey hn)
  | some n =>
    rcases get?_sync_cases (t := t) (r := r) hkey hn with hsame | ⟨-, b', hbind, hget⟩
    · exact .inl (hsame.symm.trans h)
    · obtain rfl : b = b' := Option.some.inj (h.symm.trans hget)
      exact .inr ⟨n, rfl, hbind⟩

namespace Processor

/-- Binding again changes the table, its mark and the paused walks, and nothing else. -/
theorem rebind_kept (p : Processor σ) :
    ∃ t boundAt paused, (t = p.table ∨ t = (p.table.sync p.registry p.graph).1) ∧
      p.rebind.state = { p with table := t, boundAt := boundAt, paused := paused } := by
  unfold rebind
  split
  · exact ⟨_, _, _, .inl rfl, rfl⟩
  · simp only
    split
    · exact ⟨_, _, _, .inr rfl, rfl⟩
    · exact ⟨_, _, _, .inr rfl, rfl⟩

/-- **What bringing a processor up to date can change**: the ranks in its graph, its table, the
paused walks, the marks and the report. -/
theorem ensureReady_kept (p : Processor σ) :
    ∃ g t paused scheduledAt boundAt report, g.resetRanks = p.graph.resetRanks ∧
      (t = p.table ∨ t = (p.table.sync p.registry p.graph).1) ∧
      p.ensureReady.state =
        { p with graph := g, table := t, paused := paused, scheduledAt := scheduledAt,
                 boundAt := boundAt, report := report } := by
  obtain ⟨t, boundAt, paused, ht, hrebind⟩ := p.rebind_kept
  unfold ensureReady
  simp only
  split
  · exact ⟨_, _, _, _, _, _, rfl, ht, hrebind⟩
  · split
    · exact ⟨_, _, _, _, _, _, rfl, ht, hrebind⟩
    · rw [hrebind]
      exact ⟨_, _, _, _, _, _, Graph.resetRanks_schedule _ _ _, ht, rfl⟩

theorem registry_ensureReady (p : Processor σ) : p.ensureReady.state.registry = p.registry := by
  obtain ⟨_, _, _, _, _, _, -, -, h⟩ := p.ensureReady_kept
  rw [h]

theorem time_ensureReady (p : Processor σ) : p.ensureReady.state.time = p.time := by
  obtain ⟨_, _, _, _, _, _, -, -, h⟩ := p.ensureReady_kept
  rw [h]

theorem table_ensureReady (p : Processor σ) :
    p.ensureReady.state.table = p.table ∨
      p.ensureReady.state.table = (p.table.sync p.registry p.graph).1 := by
  obtain ⟨_, t, _, _, _, _, -, ht, h⟩ := p.ensureReady_kept
  rw [h]
  exact ht

/-- Bringing a processor up to date leaves the slots alone. -/
theorem resetRanks_ensureReady (p : Processor σ) :
    p.ensureReady.state.graph.resetRanks = p.graph.resetRanks := by
  obtain ⟨g, _, _, _, _, _, hg, -, h⟩ := p.ensureReady_kept
  rw [h]
  exact hg

variable {p : Processor σ} {id : NodeId} {b : σ}

/-- **Bringing a processor up to date keeps the behavior of a node that has one**,
whether it fails or not. -/
theorem get?_ensureReady_of_some (hkey : ∀ id n, p.graph.node? id = some n → n.id = id) {n : Node}
    (hn : p.graph.node? id = some n) (hb : p.table.get? id = some b) :
    p.ensureReady.state.table.get? id = some b := by
  rcases p.table_ensureReady with h | h
  · rw [h]
    exact hb
  · rw [h]
    rcases Table.get?_sync_cases (t := p.table) (r := p.registry) hkey hn with hsame | ⟨hnone, -⟩
    · exact hsame.trans hb
    · cases hb.symm.trans hnone

/-- After bringing a processor up to date, a behavior is an old one or was made for its node. -/
theorem get?_ensureReady_eq_some (hkey : ∀ id n, p.graph.node? id = some n → n.id = id)
    (h : p.ensureReady.state.table.get? id = some b) :
    p.table.get? id = some b ∨ ∃ n, p.graph.node? id = some n ∧ p.registry.bind n = .ok b := by
  rcases p.table_ensureReady with htable | htable
  · rw [htable] at h
    exact .inl h
  · rw [htable] at h
    exact Table.get?_sync_eq_some hkey h

end Processor

/-- Where every node of a graph can be bound, there is a new processor for it. -/
theorem Processor.exists_new_eq {g : Graph} {r : Registry σ} (settings : Settings)
    (h : (Table.sync .empty r g).2.2 = .ok ()) :
    ∃ told, new g r settings =
      (told, .ok { unbound g r settings with table := (Table.sync .empty r g).1 }) := by
  unfold new
  simp only [h]
  exact ⟨_, rfl⟩

/-- What a list holds after its first fitting element was rewritten. -/
theorem Node.mem_modifyFirst {α : Type} {test : α → Bool} {f : α → α} {a : α} :
    ∀ {l : List α}, a ∈ modifyFirst test f l → a ∈ l ∨ ∃ b ∈ l, test b = true ∧ a = f b
  | [], h => nomatch h
  | b :: l, h => by
    unfold modifyFirst at h
    split at h
    · next hb =>
      rcases List.mem_cons.1 h with rfl | h
      · exact .inr ⟨b, List.mem_cons_self, hb, rfl⟩
      · exact .inl (List.mem_cons_of_mem b h)
    · rcases List.mem_cons.1 h with rfl | h
      · exact .inl List.mem_cons_self
      · rcases mem_modifyFirst h with h | ⟨c, hc, htest, rfl⟩
        · exact .inl (List.mem_cons_of_mem b h)
        · exact .inr ⟨c, List.mem_cons_of_mem b hc, htest, rfl⟩

/-- A node and its counterpart in a graph that differs in its ranks at most. -/
theorem Graph.exists_node?_of_resetRanks {g g' : Graph} (h : g.resetRanks = g'.resetRanks)
    {id : NodeId} {n : Node} (hn : g.node? id = some n) :
    ∃ m, g'.node? id = some m ∧
      ({ m with rank := unscheduled } : Node) = { n with rank := unscheduled } := by
  have hnode : g'.resetRanks.node? id = some { n with rank := unscheduled } := by
    rw [← h, resetRanks, mapNodes_eq_touch, node?_touch, hn]
    rfl
  rw [resetRanks, mapNodes_eq_touch, node?_touch] at hnode
  exact Option.map_eq_some_iff.1 hnode

/-- What holds of every node still does after one node was rewritten, if it does of that one. -/
theorem Graph.forall_node?_modifyNode {P : Node → Prop} {g : Graph}
    (h : ∀ k n, g.node? k = some n → P n) {id : NodeId} {f : Node → Node}
    (hf : ∀ n, g.node? id = some n → P n → P (f n)) :
    ∀ k n, (g.modifyNode id f).node? k = some n → P n := by
  intro k n hn
  rw [modifyNode_eq_touch, node?_touch] at hn
  obtain ⟨m, hm, rfl⟩ := Option.map_eq_some_iff.1 hn
  split
  · next hk => exact hf m (hk ▸ hm) (h k m hm)
  · exact h k m hm

variable [Behaves σ] {E : EvalError → Prop}

/-- After an evaluation a behavior is the one it was, or the evaluated one. -/
theorem Scene.get?_evaluate_cases {time : FrameTime} {role : Role} {s : Scene σ} {id k : NodeId}
    {b : σ} (h : (s.evaluate time role id).scene.table.get? k = some b) :
    s.table.get? k = some b ∨
      ∃ b₀ n, s.table.get? k = some b₀ ∧ s.graph.node? k = some n ∧
        b = (Behaves.evaluate b₀ (.start n time)).state := by
  by_cases hk : k = id
  · subst hk
    unfold evaluate at h
    split at h
    · exact .inl h
    · exact .inl h
    · next b₀ n hb hn =>
      refine .inr ⟨b₀, n, hb, hn, ?_⟩
      simp only [OrderedMap.get?_modify, if_pos, hb, Option.map_some] at h
      exact (Option.some.inj h).symm
  · rw [s.get?_evaluate_of_ne time role hk] at h
    exact .inl h

/-! ## 2. How walks fail -/

namespace Scene.Survives

variable {P : Scene σ → Prop} {time : FrameTime}

theorem pullWith_error (h : Survives P time)
    (hown : ∀ s role id e, P s → (s.evaluate time role id).result = .error e → E e)
    {deeper : Scene σ → NodeId → Step σ Unit} (hdeeper : ∀ s id, P s → P (deeper s id).scene)
    (hbelow : ∀ s id e, P s → (deeper s id).result = .error e → E e) :
    ∀ (ids : List NodeId) (s : Scene σ) (e : EvalError), P s →
      (Scene.pullWith time deeper ids s).result = .error e → E e
  | [], _, _, _, he => nomatch he
  | id :: ids, s, e, hs, he => by
    have hmark := h.memory s (s.resolved ++ [id]) hs
    unfold Scene.pullWith at he
    split at he
    · exact pullWith_error h hown hdeeper hbelow ids s e hs he
    · simp only at he
      split at he
      · have hstart := hdeeper _ id hmark
        split at he
        · next e' he' =>
          cases he
          exact hbelow _ id _ hmark he'
        · split at he
          · next e' he' =>
            cases he
            exact hown _ _ _ _ hstart he'
          · exact pullWith_error h hown hdeeper hbelow ids _ e
              (h.push _ id (h.evaluate _ .data id hstart)) he
      · exact pullWith_error h hown hdeeper hbelow ids _ e hmark he

theorem resolveWithin_error (h : Survives P time)
    (hown : ∀ s role id e, P s → (s.evaluate time role id).result = .error e → E e) :
    ∀ (fuel : Nat) (s : Scene σ) (id : NodeId) (e : EvalError), P s →
      (Scene.resolveWithin time fuel s id).result = .error e → E e
  | 0, _, _, _, _, he => nomatch he
  | fuel + 1, s, _, e, hs, he =>
    h.pullWith_error hown (h.resolveWithin fuel) (h.resolveWithin_error hown fuel) _ s e hs he

theorem step_error (h : Survives P time)
    (hown : ∀ s role id e, P s → (s.evaluate time role id).result = .error e → E e)
    (memo : Memoization) {s : Scene σ} {id : NodeId} {e : EvalError} (hs : P s)
    (he : (s.step memo time id).result = .error e) : E e := by
  have hforget : P (if memo = .perNode then { s with resolved := [] } else s) := by
    split
    · exact h.memory s [] hs
    · exact hs
  unfold Scene.step at he
  generalize (if memo = .perNode then { s with resolved := [] } else s) = s' at hforget he
  simp only at he
  split at he
  · next e' he' =>
    cases he
    exact h.resolveWithin_error hown _ s' id _ hforget he'
  · split at he
    · next e' he' =>
      cases he
      exact hown _ _ _ _ (h.resolveWithin _ s' id hforget) he'
    · cases he

/-- **A walk fails as an evaluation does** that it can come to. -/
theorem walkWithin_error (h : Survives P time)
    (hown : ∀ s role id e, P s → (s.evaluate time role id).result = .error e → E e)
    (memo : Memoization) (bound : Nat) :
    ∀ (budget : Nat) (s : Scene σ) (id : NodeId) (e : EvalError), P s →
      (Scene.walkWithin memo time bound budget s id).result = .error e → E e
  | 0, s, id, e, _, he => by
    unfold Scene.walkWithin at he
    split at he <;> cases he
  | budget + 1, s, id, e, hs, he => by
    unfold Scene.walkWithin at he
    split at he
    · simp only at he
      split at he
      · next e' he' =>
        cases he
        exact h.step_error hown memo hs he'
      · cases he
      · split at he
        · cases he
        · exact walkWithin_error h hown memo bound budget _ _ e (h.step memo s id hs) he
    · cases he

end Scene.Survives

/-! ## 3. Calls -/

namespace Processor

variable {P : Processor σ → Prop} {p : Processor σ}

/-- The property survives all that calls which walk do to a processor, and where it holds, walks
fail in the ways of `E` only. -/
structure Lasting (P : Processor σ → Prop) (E : EvalError → Prop) : Prop where
  walked : ∀ p c, P p → P (p.walkCursor c).1
  failed : ∀ p c e, P p → (p.walkCursor c).2.2.2 = .error e → E e
  placed : ∀ p walks paused, P p → P { p with walks := walks, paused := paused }
  readied : ∀ p, P p → P p.ensureReady.state

/-- A property that walks from a processor's scene keep, is kept by walking from a cursor. -/
theorem walkCursor_survives {Q : Scene σ → Prop} {p : Processor σ} (h : Scene.Survives Q p.time)
    (c : Cursor) (hp : Q ⟨p.graph, p.table, []⟩) :
    Q ⟨(p.walkCursor c).1.graph, (p.walkCursor c).1.table, []⟩ :=
  h.memory _ [] (h.walkWithin _ _ _ _ _ hp)

namespace Lasting

theorem walkAll_error (h : Lasting P E) :
    ∀ (cs : List Cursor) (p : Processor σ) (e : EvalError), P p →
      (p.walkAll cs).2.2.2 = .error e → E e
  | [], _, _, _, he => nomatch he
  | c :: cs, p, e, hp, he => by
    have hc := h.walked p c hp
    have hfailed := h.failed p c
    unfold walkAll at he
    split at he
    · next heq =>
      cases he
      exact hfailed _ hp (by rw [heq])
    · next q _ _ _ heq =>
      rw [heq] at hc
      exact walkAll_error h cs q e hc (eq_error_of_map (x := (q.walkAll cs).2.2.2) he)

theorem resumeAll_error (h : Lasting P E) :
    ∀ (ws : List PausedWalk) (p : Processor σ) (e : EvalError), P p →
      (p.resumeAll ws).2.2.2 = .error e → E e
  | [], _, _, _, he => nomatch he
  | w :: ws, p, e, hp, he => by
    have hw := h.walked p w.cursor hp
    have hfailed := h.failed p w.cursor
    unfold resumeAll at he
    split at he
    · next heq =>
      cases he
      exact hfailed _ hp (by rw [heq])
    · next q _ _ _ heq =>
      rw [heq] at hw
      exact resumeAll_error h ws q e hw (eq_error_of_map (x := (q.resumeAll ws).2.2.2) he)

theorem walkSeeds_error (h : Lasting P E) (kind : EntryKind) :
    ∀ (seeds : List NodeId) (p : Processor σ) (e : EvalError), P p →
      (p.walkSeeds kind seeds).result = .error e → E e
  | [], _, _, _, he => nomatch he
  | seed :: seeds, p, e, hp, he => by
    have hseed : P (p.withoutSeed kind seed) := h.placed p p.walks _ hp
    have hwalked := h.walked _ (p.seedCursor kind seed) hseed
    rcases p.walkSeeds_cases kind seed seeds with
      ⟨-, heq⟩ | ⟨q, c, events, e', hfail, heq⟩ | ⟨q, c, events, outcome, hok, heq⟩
    · rw [heq] at he
      exact walkSeeds_error h kind seeds p e hp he
    · rw [heq] at he
      cases he
      exact h.failed _ _ _ hseed (by rw [hfail])
    · rw [heq] at he
      rw [hok] at hwalked
      have hkeep : P (q.keep kind outcome c) := by
        unfold keep
        split
        · exact hwalked
        · exact h.placed q q.walks _ hwalked
      exact walkSeeds_error h kind seeds _ e hkeep (eq_error_of_map he)

/-- A call that gets ready and walks leaves the property standing and fails as
its walks do, or to bind. -/
theorem onReady (h : Lasting P E) {walking : Processor σ → Reply (Processor σ) EvalError Status}
    (hwalking : ∀ q, P q → P (walking q).state ∧ ∀ e, (walking q).result = .error e → E e)
    (hp : P p) :
    P (p.onReady walking).state ∧ ∀ e, (p.onReady walking).result = .error (.eval e) → E e := by
  have hready := h.readied p hp
  unfold Processor.onReady
  split
  · exact ⟨hready, fun e he => nomatch he⟩
  · obtain ⟨hstate, herror⟩ := hwalking _ hready
    exact ⟨hstate, fun e he => herror e (eq_error_of_mapError he)⟩

theorem run (h : Lasting P E) (kind : EntryKind) (hp : P p) :
    P (p.run kind).state ∧ ∀ e, (p.run kind).result = .error (.eval e) → E e := by
  rw [run_eq]
  refine h.onReady (fun q hq => ⟨?_, fun e => h.walkAll_error _ q e hq⟩) hp
  have hwalked := walkAll_survives h.walked (q.cursors kind) q hq
  exact h.placed _ _ (q.walkAll (q.cursors kind)).1.paused hwalked

theorem runFrom (h : Lasting P E) (seeds : List NodeId) (kind : EntryKind) (hp : P p) :
    P (p.runFrom seeds kind).state ∧
      ∀ e, (p.runFrom seeds kind).result = .error (.eval e) → E e := by
  rw [runFrom_eq]
  exact h.onReady (fun q hq => ⟨walkSeeds_survives h.walked (fun p ws => h.placed p p.walks ws)
    kind seeds q hq, fun e => h.walkSeeds_error kind seeds q e hq⟩) hp

theorem runPaused (h : Lasting P E) (hp : P p) :
    P p.runPaused.state ∧ ∀ e, p.runPaused.result = .error (.eval e) → E e := by
  rw [runPaused_eq]
  refine h.onReady (fun q hq => ?_) hp
  have hnone : P { q with paused := [] } := h.placed q q.walks [] hq
  refine ⟨?_, fun e => h.resumeAll_error q.paused _ e hnone⟩
  have hresumed := resumeAll_survives h.walked q.paused _ hnone
  exact h.placed _ (resumeAll { q with paused := [] } q.paused).1.walks _ hresumed

/-- **What lasts through walking lasts through every call**, if neither the clock nor what a host
writes touches it. -/
theorem perform (h : Lasting P E) (hclock : ∀ p delta, P p → P (p.advance delta))
    (houtput : ∀ p node slot v, P p → P (p.setOutput node slot v)) (c : Call) (hp : P p) :
    P (c.perform p).state ∧ ∀ e, (c.perform p).result = .error (.eval e) → E e := by
  cases c with
  | run kind => exact h.run kind hp
  | runFrom seeds kind => exact h.runFrom seeds kind hp
  | runPaused => exact h.runPaused hp
  | advance delta => exact ⟨hclock p delta hp, nofun⟩
  | setOutput node slot v => exact ⟨houtput p node slot v hp, nofun⟩

end Lasting

end Processor

/-- No request registers anything. -/
theorem Request.registry_serve (p : Processor σ) (q : Request) :
    (q.serve p).registry = p.registry := by
  have hlasting :
      Processor.Lasting (fun q : Processor σ => q.registry = p.registry) fun _ => True :=
    ⟨fun _ _ h => h, fun _ _ _ _ _ => trivial, fun _ _ _ h => h,
      fun q h => q.registry_ensureReady.trans h⟩
  cases q with
  | call c => exact (hlasting.perform (fun _ _ h => h) (fun _ _ _ _ h => h) c rfl).1
  | edit e => rfl
  | reset => rfl
  | setKinds kinds => rfl
  | reschedule => rfl
  | ensureReady => exact p.registry_ensureReady

end FlowScript
