/-
# Where behaviors come from

A node is bound when its processor is brought up to date, and what decides then is the name of the
node alone: a behavior that is bound under the name stays, and only where there is none the registry
makes one.  A node that was replaced, or was removed and added again, is not bound anew if nothing
was brought up to date while its name was free.

So what matters is the table at the moment when a node is added.  This module proves both sides:

* If no node is added under a name that is bound to a behavior of another type (`Request.Fits`),
  then every node is driven by what its own type makes, however long the processor has been used
  (`behaviors_fit_types`).
* A node that is added under a bound name is driven by the behavior that it finds there; so the
  condition cannot be dropped (`readded_node_keeps_behavior`).
-/
import FlowScript.Proofs.Survival

namespace FlowScript

universe u

/-! ## 1. Descent -/

/-- What evaluations and resets can make of a behavior. -/
inductive Descends {σ : Type u} [Behaves σ] (b₀ : σ) : σ → Prop
  | same : Descends b₀ b₀
  | evaluated {b : σ} (c : Context) : Descends b₀ b → Descends b₀ (Behaves.evaluate b c).state
  | reset {b : σ} : Descends b₀ b → Descends b₀ (Behaves.reset b)

namespace Registry

variable {σ : Type u} [Behaves σ] {r : Registry σ} {type : String} {b : σ}

/-- The behavior is what the registry has made for some node of the type, after some use. -/
def Makes (r : Registry σ) (type : String) (b : σ) : Prop :=
  ∃ n b₀, n.type = type ∧ r.bind n = .ok b₀ ∧ Descends b₀ b

theorem Makes.of_bind {n : Node} (h : r.bind n = .ok b) : r.Makes n.type b := ⟨n, b, rfl, h, .same⟩

theorem Makes.evaluated (h : r.Makes type b) (c : Context) :
    r.Makes type (Behaves.evaluate b c).state := by
  obtain ⟨n, b₀, htype, hbind, hdescends⟩ := h
  exact ⟨n, b₀, htype, hbind, hdescends.evaluated c⟩

theorem Makes.reset (h : r.Makes type b) : r.Makes type (Behaves.reset b) := by
  obtain ⟨n, b₀, htype, hbind, hdescends⟩ := h
  exact ⟨n, b₀, htype, hbind, hdescends.reset⟩

/-- A reset shows what a behavior has descended from. -/
theorem Restarts.reset_of_descends (hr : r.Restarts) {b₀ : σ} (h : Descends b₀ b) :
    Behaves.reset b = Behaves.reset b₀ := by
  induction h with
  | same => rfl
  | evaluated c _ ih => exact (hr.evaluated _ c).trans ih
  | reset _ ih => exact (hr.twice _).trans ih

end Registry

/-! ## 2. Nodes and their behaviors -/

namespace Processor

variable {σ : Type u} [Behaves σ] {r : Registry σ} {p q : Processor σ}

/-- A node that has a behavior has one that the registry has made for its type. -/
structure Proper (r : Registry σ) (p : Processor σ) : Prop where
  registry : p.registry = r
  synced : p.Synced
  made : ∀ id n b, p.graph.node? id = some n → p.table.get? id = some b → r.Makes n.type b

namespace Proper

/-- The types of nodes are part of the topology. -/
theorem congr (h : Proper r p) (hregistry : q.registry = p.registry) (hsynced : q.Synced)
    (hbare : q.graph.bare = p.graph.bare)
    (hmade : ∀ id n b, p.graph.node? id = some n → q.table.get? id = some b → r.Makes n.type b) :
    Proper r q := by
  refine ⟨hregistry.trans h.registry, hsynced, fun id n b hn hb => ?_⟩
  obtain ⟨m, hm, hmn⟩ := Graph.exists_node?_of_bare hbare hn
  have htype : m.type = n.type := show m.bare.type = n.bare.type by rw [hmn]
  exact htype ▸ hmade id m b hm hb

theorem ensureReady (h : Proper r p) : Proper r p.ensureReady.state := by
  refine h.congr p.registry_ensureReady h.synced.ensureReady.1 (ensureReady_prepared p).1.bare
    fun id n b hn hb => ?_
  rcases get?_ensureReady_eq_some h.synced.nodeKey hb with hold | ⟨m, hm, hbind⟩
  · exact h.made id n b hn hold
  · obtain rfl : n = m := Option.some.inj (hn.symm.trans hm)
    exact .of_bind (h.registry ▸ hbind)

theorem new {g : Graph} (hkey : ∀ id n, g.node? id = some n → n.id = id) {settings : Settings}
    {told : List Event} (h : Processor.new g r settings = (told, .ok p)) : Proper r p := by
  have hsynced := Synced.new_of_nodeKey hkey h
  obtain ⟨-, rfl⟩ := new_eq_ok h
  refine ⟨rfl, hsynced, fun id n b hn hb => ?_⟩
  rcases Table.get?_sync_eq_some hkey hb with hold | ⟨m, hm, hbind⟩
  · cases hold
  · obtain rfl : n = m := Option.some.inj (hn.symm.trans hm)
    exact .of_bind hbind

theorem walkCursor (h : Proper r p) (c : Cursor) : Proper r (p.walkCursor c).1 := by
  have hsurvives : Scene.Survives (fun s : Scene σ => ∀ id n b, p.graph.node? id = some n →
      s.table.get? id = some b → r.Makes n.type b) p.time := by
    refine ⟨fun s role id hs k n b hn hb => ?_, fun s id hs => hs, fun s ids hs => hs⟩
    rcases Scene.get?_evaluate_cases hb with hsame | ⟨b₀, m, hb₀, -, rfl⟩
    · exact hs k n b hn hsame
    · exact (hs k n b₀ hn hb₀).evaluated _
  exact h.congr rfl (h.synced.still (p.walkCursor_walked c).still) (walkCursor_moved p c).1.bare
    (walkCursor_survives hsurvives c h.made)

theorem lasting (r : Registry σ) : Lasting (Proper r) fun _ => True where
  walked _ c h := h.walkCursor c
  failed _ _ _ _ _ := trivial
  placed _ _ _ h := ⟨h.registry, h.synced.still ⟨rfl, rfl, rfl, rfl, rfl, rfl⟩, h.made⟩
  readied _ h := h.ensureReady

theorem perform (h : Proper r p) (c : Call) : Proper r (c.perform p).state := by
  refine ((lasting r).perform (fun p delta h => ?_) (fun p node slot v h => ?_) c h).1
  · exact ⟨h.registry, h.synced.still ⟨rfl, rfl, rfl, rfl, rfl, rfl⟩, h.made⟩
  · exact h.congr rfl (h.synced.perform (.setOutput node slot v)).1
      (perform_undisturbed p (.setOutput node slot v)).bare h.made

theorem reset (h : Proper r p) : Proper r p.reset.1 := by
  refine h.congr rfl (h.synced.still p.reset_still) (Graph.bare_clearValues p.graph)
    fun id n b hn hb => ?_
  have hget : (p.table.get? id).map Behaves.reset = some b :=
    (OrderedMap.get?_map _ _ _).symm.trans hb
  obtain ⟨b₀, hb₀, rfl⟩ := Option.map_eq_some_iff.1 hget
  exact (h.made id n b₀ hn hb₀).reset

end Proper

end Processor

/-! ## 3. Requests -/

namespace Request

variable {σ : Type u} [Behaves σ] {r : Registry σ} {p : Processor σ}

/-- If the request adds a node under a name that is bound, then to a behavior of its type. -/
def Fits (p : Processor σ) : Request → Prop
  | edit (.addNode n) => ∀ b, p.table.get? n.id = some b → p.registry.Makes n.type b
  | _ => True

/-- Each request of a list fits at its time. -/
def FitAll (p : Processor σ) : List Request → Prop
  | [] => True
  | q :: requests => q.Fits p ∧ FitAll (q.serve p) requests

theorem serve_proper (h : p.Proper r) (q : Request) (hq : q.Fits p) : (q.serve p).Proper r := by
  cases q with
  | call c => exact h.perform c
  | edit e =>
    refine ⟨h.registry, h.synced.edit e, fun id n b hn hb => ?_⟩
    rcases Edit.run_cases p.graph e with hsame | ⟨-, hnodes⟩
    · exact h.made id n b (hsame ▸ hn) hb
    · rcases hnodes id n hn with hold | ⟨rfl, rfl⟩
      · exact h.made id n b hold hb
      · exact h.registry ▸ hq b hb
  | reset => exact h.reset
  | setKinds kinds => exact ⟨h.registry, h.synced.setKinds kinds, h.made⟩
  | reschedule =>
    exact h.congr rfl h.synced.reschedule.1 (Graph.bare_schedule _ _ _) h.made
  | ensureReady => exact h.ensureReady

theorem serveAll_proper :
    ∀ (requests : List Request) {p : Processor σ}, p.Proper r → FitAll p requests →
      (serveAll p requests).Proper r
  | [], _, h, _ => h
  | q :: requests, _, h, hfit => serveAll_proper requests (serve_proper h q hfit.1) hfit.2

end Request

/-! ## 4. The law -/

/-- **A node is driven by a behavior of its own type, unless it was added under the name of
another.**  Take any processor that was made for a graph whose nodes stand under their own
names, and any list of requests: edits, calls, resets, changes of the kinds, scheduling, failing
ones included.  Suppose that no request adds a node while its name is bound to a behavior of
another type.  Then, where the processor says that it is up to date, every node is bound, and
its behavior is what the registry has made for its type, after some use.  And nothing less will
do: a node that is added under a name that is bound is driven by the behavior which it finds
there, whatever its type. -/
theorem behaviors_fit_types {σ : Type u} [Behaves σ] (g : Graph)
    (named : ∀ id n, g.node? id = some n → n.id = id) (r : Registry σ) (settings : Settings)
    (told : List Event) (p : Processor σ) (fresh : Processor.new g r settings = (told, .ok p))
    (requests : List Request) (fitting : Request.FitAll p requests) :
    let q := Request.serveAll p requests
    (q.ensureReady.result = .ok () →
      ∀ id n, q.ensureReady.state.graph.node? id = some n →
        ∃ b, q.ensureReady.state.table.get? id = some b ∧ r.Makes n.type b) ∧
    ∀ (n : Node) (b : σ), q.table.get? n.id = some b →
      let replaced := Request.serve q (.edit (.addNode n))
      replaced.ensureReady.state.table.get? n.id = some b := by
  intro q
  have hq : q.Proper r := Request.serveAll_proper requests (.new named fresh) fitting
  refine ⟨fun hok id n hn => ?_, fun n b hb => ?_⟩
  · have hbinds := (hq.synced.ensureReady.2 hok).1 id
    have hkeys := hbinds.2 ((OrderedMap.get?_isSome_iff _ _).1 (Option.isSome_of_eq_some hn))
    obtain ⟨b, hb⟩ := Option.isSome_iff_exists.1 ((OrderedMap.get?_isSome_iff _ _).2 hkeys)
    exact ⟨b, hb, hq.ensureReady.made id n b hn hb⟩
  · have hnode : (Request.serve q (.edit (.addNode n))).graph.node? n.id = some n := by
      show (q.graph.addNode n).node? n.id = some n
      rw [Graph.node?_addNode, if_pos rfl]
    exact Processor.get?_ensureReady_of_some (hq.synced.edit (.addNode n)).nodeKey hnode hb

/-- The printing node of the example is removed, and what is left is brought up to date before a
waiting node is added in its place. -/
def swapRequests : List Request :=
  [ .edit (.removeNode (exampleId 4)),
    .ensureReady,
    .edit (.addNode (exampleNode 4 Library.waitType)),
    .edit (exampleLink 8 0 "Exec" 4 "Exec") ]

/-- The new node waits. -/
theorem swapped_node_is_bound_anew :
    let q := Request.serveAll exampleProcessor swapRequests
    q.ensureReady.result = .ok () ∧
    (∃ b, q.ensureReady.state.table.get? (exampleId 4) = some b ∧
      Library.registry.Makes Library.wait b) ∧
    (q.run .update).result = .ok .unfinished := by
  obtain ⟨told, fresh⟩ := exampleProcessor_new
  have hfree : (Request.serveAll exampleProcessor (swapRequests.take 2)).table.get?
      (exampleNode 4 Library.waitType).id = none := by decide +kernel
  have hfit : Request.FitAll exampleProcessor swapRequests :=
    ⟨trivial, trivial, fun b hb => (nomatch hfree.symm.trans hb), trivial, trivial⟩
  have hok : (Request.serveAll exampleProcessor swapRequests).ensureReady.result = .ok () := by
    decide +kernel
  have hnode : ((Request.serveAll exampleProcessor swapRequests).ensureReady.state.graph.node?
      (exampleId 4)).map (·.type) = some Library.wait := by decide +kernel
  have hlaw := behaviors_fit_types exampleGraph exampleGraph_built.intact.nodeKey Library.registry
    _ told exampleProcessor fresh swapRequests hfit
  refine ⟨hok, ?_, by decide +kernel⟩
  obtain ⟨n, hn, htype⟩ := Option.map_eq_some_iff.1 hnode
  exact htype ▸ hlaw.1 hok (exampleId 4) n hn

/-- **A node that is added again can be driven by the behavior of the node that was there before.**
The printing node of the example is removed, and a waiting node is added under its name and linked.
The processor says that it is up to date, but the waiting node prints: its behavior is none that its
type makes, and the next run fails for want of the third input of a printing node. -/
theorem readded_node_keeps_behavior :
    let q := Request.serveAll exampleProcessor
      [ .edit (.removeNode (exampleId 4)),
        .edit (.addNode (exampleNode 4 Library.waitType)),
        .edit (exampleLink 8 0 "Exec" 4 "Exec") ]
    q.ensureReady.result = .ok () ∧
    (q.ensureReady.state.graph.node? (exampleId 4)).map (·.type) = some Library.wait ∧
    (∃ b, q.ensureReady.state.table.get? (exampleId 4) = some b ∧
      ¬ Library.registry.Makes Library.wait b) ∧
    (q.run .update).result = .error (.eval (.missingInput (exampleId 4) "#2")) := by
  refine ⟨by decide +kernel, by decide +kernel, ⟨.log 0, by decide +kernel, ?_⟩, by decide +kernel⟩
  rintro ⟨n, b₀, htype, hbind, hdescends⟩
  have hentry : Library.registry.entries.get? Library.wait =
      some ⟨Library.waitType, fun _ => .wait .zero⟩ := rfl
  rw [Registry.bind, htype, hentry] at hbind
  cases hbind
  cases Library.restarts.reset_of_descends hdescends

end FlowScript
