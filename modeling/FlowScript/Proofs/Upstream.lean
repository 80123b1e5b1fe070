/-
# What lies upstream stays as it is

`runFrom` starts in the middle of a script.  What comes before is not evaluated and not written:
this module bounds what such a call touches by what its start nodes lead to.

* `Processor.Start` are the nodes at which the walks of a call can set out: where a paused walk of a
  seed stands, and the seeds themselves.
* A visit writes the outputs of its own node, and inputs at the far ends of its data links.
  `Scene.Spares` says what this leaves alone; it is finer than `Confined`, which gives up every
  port of a visited node.
* `Stays` adds that only nodes of a set are evaluated.  It is kept by pulls, steps and walks for
  every set of nodes that holds the producers of its members, by one induction along a walk, and
  carried over the seeds of a call (`Processor.walkSeeds_stays`), whose later walks may resume the
  earlier ones.
-/
import FlowScript.Proofs.GivenUp
import FlowScript.Proofs.Independence

namespace FlowScript

universe u

/-! ## 1. Inputs and outputs, apart -/

theorem Node.setValue_of_input {n : Node} {q : PortId} (h : ∃ p ∈ n.inputs, p.id = q)
    (v : Option Value) : n.setValue q v =
      { n with inputs := modifyFirst (·.id = q) (fun p => { p with value? := v }) n.inputs } :=
  if_pos (List.any_eq_true.2 (h.imp fun _ hp => ⟨hp.1, decide_eq_true hp.2⟩))

namespace Graph

/-- The outputs of a node, with what they hold. -/
def outputs? (g : Graph) (k : NodeId) : Option (List Port) := (g.node? k).map (·.outputs)

/-- The input of a node with a given name, with what it holds. -/
def input? (g : Graph) (k : NodeId) (q : PortId) : Option Port :=
  (g.node? k).bind fun n => n.inputs.find? (·.id = q)

/-- A data link from one of the nodes `R` ends at the input. -/
def FedFrom (g : Graph) (R : NodeId → Prop) (k : NodeId) (q : PortId) : Prop :=
  ∃ c ∈ g.links, c.exec = false ∧ R c.fromNode ∧ c.toNode = k ∧ c.toPort = q

variable {g : Graph}

theorem outputs?_eq_of_node? {g' : Graph} {k : NodeId} (h : g'.node? k = g.node? k) :
    g'.outputs? k = g.outputs? k := by
  rw [outputs?, outputs?, h]

theorem input?_eq_of_node? {g' : Graph} {k : NodeId} (h : g'.node? k = g.node? k) (q : PortId) :
    g'.input? k q = g.input? k q := by
  rw [input?, input?, h]

/-- What is delivered over a link goes into an input. -/
theorem Intact.deliver_over (hg : g.Intact) {c : Connection} (hc : c ∈ g.links) (v : Value) :
    (∀ k, (g.deliver c.toNode c.toPort v).outputs? k = g.outputs? k) ∧
    ∀ k q, ¬ (k = c.toNode ∧ q = c.toPort) →
      (g.deliver c.toNode c.toPort v).input? k q = g.input? k q := by
  obtain ⟨out, inp, hj⟩ := hg.joined c hc
  obtain ⟨n, hn, hin, hid⟩ := hg.exists_input hj.target hj.toInput
  have hset := Node.setValue_of_input ⟨inp, hin, hid⟩ (some v)
  have hnode : ∀ k, (g.deliver c.toNode c.toPort v).node? k =
      if k = c.toNode then some (n.setValue c.toPort (some v)) else g.node? k := by
    intro k
    rw [deliver, modifyNode_eq_touch, node?_touch]
    by_cases hk : k = c.toNode
    · simp [hk, hn]
    · simp [hk]
  constructor
  · intro k
    rw [outputs?, outputs?, hnode]
    split
    · next hk => rw [hk, hn, hset]; rfl
    · rfl
  · intro k q hne
    rw [input?, input?, hnode]
    split
    · next hk =>
      have hq : ¬ q = c.toPort := fun hq => hne ⟨hk, hq⟩
      rw [hk, hn, hset]
      exact (find?_modifyFirst (f := fun p => { p with value? := some v }) (fun _ => rfl) q
        n.inputs).trans (if_neg hq)
    · rfl

/-- What is delivered over links from the nodes `R` changes no output, and no input but at
the ends of such links. -/
theorem Intact.deliverAll_over (hg : g.Intact) {R : NodeId → Prop}
    {l : List (NodeId × PortId × Value)}
    (hl : ∀ d ∈ l, ∃ c ∈ g.links, c.exec = false ∧ R c.fromNode ∧ c.toNode = d.1 ∧
      c.toPort = d.2.1) :
    (∀ k, (l.foldl (fun g d => g.deliver d.1 d.2.1 d.2.2) g).outputs? k = g.outputs? k) ∧
    ∀ k q, ¬ g.FedFrom R k q →
      (l.foldl (fun g d => g.deliver d.1 d.2.1 d.2.2) g).input? k q = g.input? k q := by
  induction l generalizing g with
  | nil => exact ⟨fun _ => rfl, fun _ _ _ => rfl⟩
  | cons d l ih =>
    rw [List.forall_mem_cons] at hl
    obtain ⟨⟨c, hc, hexec, hfrom, hto, hport⟩, hrest⟩ := hl
    have hbare : (g.deliver d.1 d.2.1 d.2.2).bare = g.bare :=
      bare_eq_of_clearValues_eq (clearValues_deliver g ..)
    have hlinks := links_eq_of_bare hbare
    obtain ⟨houtputs, hinputs⟩ := hg.deliver_over hc d.2.2
    rw [hto, hport] at houtputs hinputs
    obtain ⟨houtputs', hinputs'⟩ := ih (hg.of_bare_eq hbare) (by rw [hlinks]; exact hrest)
    rw [List.foldl_cons]
    refine ⟨fun k => (houtputs' k).trans (houtputs k), fun k q hfed => ?_⟩
    have hfed' : ¬ (g.deliver d.1 d.2.1 d.2.2).FedFrom R k q := by
      unfold FedFrom
      rw [hlinks]
      exact hfed
    refine (hinputs' k q hfed').trans (hinputs k q ?_)
    rintro ⟨rfl, rfl⟩
    exact hfed ⟨c, hc, hexec, hfrom, hto, hport⟩

end Graph

/-! ## 2. What visits of some nodes leave alone -/

namespace Scene

variable {σ : Type u}

/-- From one scene to the other, nothing has changed but slots and behaviors; among them only
behaviors and outputs of the nodes `R`, and inputs at the far ends of data links from these. -/
structure Spares (g : Graph) (R : NodeId → Prop) (s t : Scene σ) : Prop where
  shape : t.graph.clearValues = s.graph.clearValues
  table : ∀ k, ¬ R k → t.table.get? k = s.table.get? k
  outputs : ∀ k, ¬ R k → t.graph.outputs? k = s.graph.outputs? k
  inputs : ∀ k q, ¬ g.FedFrom R k q → t.graph.input? k q = s.graph.input? k q

variable {g : Graph} {R : NodeId → Prop} {s t : Scene σ} {id : NodeId}

namespace Spares

theorem refl (s : Scene σ) : Spares g R s s :=
  ⟨rfl, fun _ _ => rfl, fun _ _ => rfl, fun _ _ _ => rfl⟩

theorem trans {r : Scene σ} (h : Spares g R s t) (h' : Spares g R t r) : Spares g R s r :=
  ⟨h'.shape.trans h.shape, fun k hk => (h'.table k hk).trans (h.table k hk),
    fun k hk => (h'.outputs k hk).trans (h.outputs k hk),
    fun k q hq => (h'.inputs k q hq).trans (h.inputs k q hq)⟩

/-- What counts as fresh is not looked at. -/
theorem of_eq (hgraph : t.graph = s.graph) (htable : t.table = s.table) : Spares g R s t := by
  obtain ⟨_, _, _⟩ := s
  obtain ⟨_, _, _⟩ := t
  subst hgraph htable
  exact ⟨rfl, fun _ _ => rfl, fun _ _ => rfl, fun _ _ _ => rfl⟩

theorem evaluate [Behaves σ] (s : Scene σ) (time : FrameTime) (role : Role) (hid : R id) :
    Spares g R s (s.evaluate time role id).scene := by
  have hne : ∀ {k}, ¬ R k → k ≠ id := fun hk hkid => hk (hkid ▸ hid)
  refine ⟨clearValues_evaluate time role s id, fun k hk => s.get?_evaluate_of_ne time role (hne hk),
    fun k hk => Graph.outputs?_eq_of_node? (s.node?_evaluate_of_ne time role (hne hk)), ?_⟩
  intro k q _
  by_cases hk : k = id
  · subst hk
    unfold Scene.evaluate
    split
    · rfl
    · rfl
    · next b n _ hn =>
      simp only [Graph.input?, Graph.modifyNode_eq_touch, Graph.node?_touch, hn,
        Option.map_some, if_pos, Option.bind_some]
      rw [Context.apply_inputs]
      rfl
  · exact Graph.input?_eq_of_node? (s.node?_evaluate_of_ne time role hk) q

theorem push (hg : g.Intact) (hs : s.graph.clearValues = g.clearValues) (hid : R id) :
    Spares g R s (s.push id) := by
  have hbare := Graph.bare_eq_of_clearValues_eq hs
  have hlinks := Graph.links_eq_of_bare hbare
  have hsame : (∀ k, (s.graph.pushOutputs id).outputs? k = s.graph.outputs? k) ∧
      ∀ k q, ¬ s.graph.FedFrom R k q →
        (s.graph.pushOutputs id).input? k q = s.graph.input? k q := by
    unfold Graph.pushOutputs
    cases hn : s.graph.node? id with
    | none => exact ⟨fun _ => rfl, fun _ _ _ => rfl⟩
    | some n =>
      refine (hg.of_bare_eq hbare).deliverAll_over fun d hd => ?_
      obtain ⟨c, hc, hexec, hfrom, hto, hport⟩ :=
        (hg.of_bare_eq hbare).exists_link_of_mem_deliveries hn hd
      exact ⟨c, hc, hexec, hfrom ▸ hid, hto, hport⟩
  refine ⟨clearValues_push s id, fun _ _ => rfl, fun k _ => hsame.1 k, fun k q hq => ?_⟩
  refine hsame.2 k q ?_
  unfold Graph.FedFrom
  rw [hlinks]
  exact hq

end Spares

end Scene

/-! ## 3. Staying among some nodes -/

/-- No other nodes than `R` are evaluated. -/
def Within (R : NodeId → Prop) (events : List Event) : Prop :=
  ∀ role id outcome, Event.evaluated role id outcome ∈ events → R id

theorem Within.append {R : NodeId → Prop} {a b : List Event} (ha : Within R a) (hb : Within R b) :
    Within R (a ++ b) :=
  fun role id outcome h => (List.mem_append.1 h).elim (ha role id outcome) (hb role id outcome)

theorem within_nil {R : NodeId → Prop} : Within R [] := fun _ _ _ h => nomatch h

theorem Within.cons_notice {R : NodeId → Prop} {n : Notice} {events : List Event}
    (h : Within R events) : Within R (.notice n :: events) := fun role id outcome hmem =>
  (List.mem_cons.1 hmem).elim (fun he => nomatch he) (h role id outcome)

/-- A step from a scene evaluates the nodes `R` only, and spares what they leave alone. -/
structure Step.Stays {σ : Type u} {α : Type} (g : Graph) (R : NodeId → Prop) (s : Scene σ)
    (x : Step σ α) : Prop where
  spares : Scene.Spares g R s x.scene
  within : Within R x.events

namespace Scene

variable {σ : Type u} [Behaves σ] {g : Graph} {R : NodeId → Prop} (time : FrameTime)

theorem evaluate_stays (s : Scene σ) (role : Role) {id : NodeId} (hid : R id) :
    (s.evaluate time role id).Stays g R s := by
  refine ⟨.evaluate s time role hid, ?_⟩
  rcases s.evaluate_events time role id with ⟨hnil, -⟩ | ⟨remarks, hevents⟩
  · rw [hnil]
    exact within_nil
  · rw [hevents]
    intro role' k outcome hmem
    rcases List.mem_append.1 hmem with hremark | hown
    · obtain ⟨r, -, hr⟩ := List.mem_map.1 hremark
      cases r <;> cases hr
    · cases List.mem_singleton.1 hown
      exact hid

theorem pullWith_stays (hg : g.Intact) {deeper : Scene σ → NodeId → Step σ Unit}
    (hdeeper : ∀ s id, s.graph.clearValues = g.clearValues → R id → (deeper s id).Stays g R s)
    (ids : List NodeId) (s : Scene σ) (hs : s.graph.clearValues = g.clearValues)
    (hids : ∀ id ∈ ids, R id) : (pullWith time deeper ids s).Stays g R s := by
  induction ids generalizing s with
  | nil => exact ⟨.refl s, within_nil⟩
  | cons id ids ih =>
    rw [List.forall_mem_cons] at hids
    unfold pullWith
    split
    · exact ih s hs hids.2
    · simp only
      generalize hmarked : ({ s with resolved := s.resolved ++ [id] } : Scene σ) = marked
      have hs' : marked.graph.clearValues = g.clearValues := hmarked ▸ hs
      have hmark : Spares g R s marked := hmarked ▸ .of_eq rfl rfl
      split
      · have hbelow := hdeeper marked id hs' hids.1
        have hs₁ := hbelow.spares.shape.trans hs'
        split
        · exact ⟨hmark.trans hbelow.spares, hbelow.within⟩
        · have hown := (deeper marked id).scene.evaluate_stays (g := g) time .data hids.1
          have hs₂ := hown.spares.shape.trans hs₁
          split
          · exact ⟨hmark.trans (hbelow.spares.trans hown.spares), hbelow.within.append hown.within⟩
          · have hpush := Spares.push hg hs₂ hids.1
            have hrest := ih _ (hpush.shape.trans hs₂) hids.2
            exact ⟨hmark.trans (hbelow.spares.trans (hown.spares.trans (hpush.trans hrest.spares))),
              (hbelow.within.append hown.within).append hrest.within⟩
      · have hrest := ih marked hs' hids.2
        exact ⟨hmark.trans hrest.spares, hrest.within.cons_notice⟩

variable (hg : g.Intact) (hfeeds : ∀ {k m}, R m → g.Feeds k m → R k)
include hg hfeeds

theorem resolveWithin_stays (fuel : Nat) (s : Scene σ) {id : NodeId}
    (hs : s.graph.clearValues = g.clearValues) (hid : R id) :
    (resolveWithin time fuel s id).Stays g R s := by
  induction fuel generalizing s id with
  | zero => exact ⟨.refl s, within_nil⟩
  | succ fuel ih =>
    unfold resolveWithin
    rw [Graph.producers_eq_of_bare (Graph.bare_eq_of_clearValues_eq hs)]
    exact pullWith_stays time hg (fun s id hs hid => ih s hs hid) _ s hs fun _ hk => hfeeds hid hk

theorem step_stays (memo : Memoization) (s : Scene σ) {id : NodeId}
    (hs : s.graph.clearValues = g.clearValues) (hid : R id) :
    (s.step memo time id).Stays g R s := by
  have hforget : Spares g R s (if memo = .perNode then { s with resolved := [] } else s) := by
    split
    · exact .of_eq rfl rfl
    · exact .refl s
  unfold step
  generalize (if memo = .perNode then { s with resolved := [] } else s) = s' at hforget
  have hs' := hforget.shape.trans hs
  have hbelow : (s'.resolve time id).Stays g R s' := resolveWithin_stays time hg hfeeds _ s' hs' hid
  have hs₁ := hbelow.spares.shape.trans hs'
  have hown := (s'.resolve time id).scene.evaluate_stays (g := g) time .control hid
  have hs₂ := hown.spares.shape.trans hs₁
  simp only
  split
  · exact ⟨hforget.trans hbelow.spares, hbelow.within⟩
  · split
    · exact ⟨hforget.trans (hbelow.spares.trans hown.spares), hbelow.within.append hown.within⟩
    · exact ⟨hforget.trans (hbelow.spares.trans (hown.spares.trans (.push hg hs₂ hid))),
        hbelow.within.append hown.within⟩

/-- **A walk stays among nodes that control flow does not leave**, and among what feeds them. -/
theorem walkWithin_stays {C : NodeId → Prop} (hC : ∀ {k}, C k → R k)
    (hnext : ∀ {a b slot}, C a → g.nextNode? a slot = some b → C b) (memo : Memoization)
    (bound budget : Nat) (s : Scene σ) {id : NodeId} (hs : s.graph.clearValues = g.clearValues)
    (hid : C id) :
    Spares g R s (walkWithin memo time bound budget s id).scene ∧
      Within R (walkWithin memo time bound budget s id).events ∧
      C (walkWithin memo time bound budget s id).current := by
  induction budget generalizing s id with
  | zero =>
    unfold walkWithin
    split <;> exact ⟨.refl s, within_nil.cons_notice, hid⟩
  | succ budget ih =>
    unfold walkWithin
    split
    · have hstep := step_stays time hg hfeeds memo s hs (hC hid)
      have hs' := hstep.spares.shape.trans hs
      simp only
      split
      · exact ⟨hstep.spares, hstep.within, hid⟩
      · exact ⟨hstep.spares, hstep.within, hid⟩
      · split
        · exact ⟨hstep.spares, hstep.within, hid⟩
        · next chosen? _ next hchosen =>
          -- the walk goes on inside, because the links are those of `g`
          obtain ⟨slot, -, hslot⟩ := Option.bind_eq_some_iff.1 hchosen
          rw [Graph.nextNode?_eq_of_bare (Graph.bare_eq_of_clearValues_eq hs')] at hslot
          obtain ⟨hspares, hwithin, hcurrent⟩ :=
            ih (s.step memo time id).scene hs' (hnext hid hslot)
          exact ⟨hstep.spares.trans hspares, hstep.within.append hwithin, hcurrent⟩
    · exact ⟨.refl s, within_nil.cons_notice, hid⟩

end Scene

/-! ## 4. The walks of a call -/

namespace Processor

variable {σ : Type u}

/-- A node at which a walk of a call can set out: where a paused walk of a seed stands, or
a seed.  A seed with a paused walk is a start only if it is listed again, as its walk may
have completed by then. -/
def Start (p : Processor σ) (kind : EntryKind) (seeds : List NodeId) (k : NodeId) : Prop :=
  ∃ seed ∈ seeds, (p.graph.node? seed).isSome ∧
    ((∃ w ∈ p.paused, w.isAt kind seed ∧ w.cursor.current = k) ∨
      (k = seed ∧ (p.holding kind seed = [] ∨ 2 ≤ seeds.count seed)))

/-- The paused walks that a call does not resume. -/
def aside (p : Processor σ) (kind : EntryKind) (seeds : List NodeId) : List PausedWalk :=
  p.paused.filter fun w => !(w.kind = kind && seeds.contains w.cursor.entry)

/-- The walk of the first seed sets out at a start. -/
theorem start_seedCursor {p : Processor σ} {kind : EntryKind} {seed : NodeId} {seeds : List NodeId}
    (hseed : (p.graph.node? seed).isSome) :
    p.Start kind (seed :: seeds) (p.seedCursor kind seed).current := by
  refine ⟨seed, List.mem_cons_self, hseed, ?_⟩
  unfold seedCursor
  cases h : p.paused.find? (PausedWalk.isAt kind seed) with
  | some w => exact Or.inl ⟨w, List.mem_of_find?_eq_some h, List.find?_some h, rfl⟩
  | none => exact Or.inr ⟨rfl, Or.inl (List.filter_eq_nil_iff.2 (List.find?_eq_none.1 h))⟩

/-- Nor does a longer list of seeds lose a start. -/
theorem Start.cons {p : Processor σ} {kind : EntryKind} {seeds : List NodeId} {k : NodeId}
    (h : p.Start kind seeds k) (seed : NodeId) : p.Start kind (seed :: seeds) k := by
  obtain ⟨other, hmem, hother, hw | ⟨rfl, hfree | hcount⟩⟩ := h
  · exact ⟨other, List.mem_cons_of_mem _ hmem, hother, Or.inl hw⟩
  · exact ⟨k, List.mem_cons_of_mem _ hmem, hother, Or.inr ⟨rfl, Or.inl hfree⟩⟩
  · exact ⟨k, List.mem_cons_of_mem _ hmem, hother,
      Or.inr ⟨rfl, Or.inr (hcount.trans (List.count_le_count_cons ..))⟩⟩

theorem graph_keep (p : Processor σ) (kind : EntryKind) (outcome : WalkOutcome) (c : Cursor) :
    (p.keep kind outcome c).graph = p.graph := by
  unfold keep
  split <;> rfl

theorem table_keep (p : Processor σ) (kind : EntryKind) (outcome : WalkOutcome) (c : Cursor) :
    (p.keep kind outcome c).table = p.table := by
  unfold keep
  split <;> rfl

theorem time_keep (p : Processor σ) (kind : EntryKind) (outcome : WalkOutcome) (c : Cursor) :
    (p.keep kind outcome c).time = p.time := by
  unfold keep
  split <;> rfl

theorem mem_paused_keep {p : Processor σ} {kind : EntryKind} {outcome : WalkOutcome} {c : Cursor}
    {w : PausedWalk} (h : w ∈ (p.keep kind outcome c).paused) : w ∈ p.paused ∨ w = ⟨kind, c⟩ := by
  unfold keep at h
  split at h
  · exact Or.inl h
  · exact (List.mem_append.1 h).imp_right List.mem_singleton.1

/-- **A later walk of the call sets out** at a start as well, or where the walk of the
first seed has stopped. -/
theorem Start.after_walk {p q : Processor σ} {kind : EntryKind} {seed : NodeId}
    {seeds : List NodeId} {outcome : WalkOutcome} {c : Cursor} {k : NodeId}
    (hpaused : q.paused = (p.withoutSeed kind seed).paused) (hshape : q.graph.bare = p.graph.bare)
    (hentry : c.entry = seed) (h : (q.keep kind outcome c).Start kind seeds k) :
    p.Start kind (seed :: seeds) k ∨ k = c.current := by
  obtain ⟨other, hmem, hother, hstart⟩ := h
  rw [graph_keep, Graph.node?_isSome_eq_of_bare hshape] at hother
  have hmem' : other ∈ seed :: seeds := List.mem_cons_of_mem _ hmem
  rcases hstart with ⟨w, hw, hat, hk⟩ | ⟨rfl, hfree | hcount⟩
  · rcases mem_paused_keep hw with hw | rfl
    · rw [hpaused] at hw
      exact Or.inl ⟨other, hmem', hother, Or.inl ⟨w, List.mem_of_mem_eraseP hw, hat, hk⟩⟩
    · exact Or.inr hk.symm
  · refine Or.inl ⟨k, hmem', hother, Or.inr ⟨rfl, ?_⟩⟩
    by_cases hseed : seed = k
    · -- the seed is listed again
      refine Or.inr ?_
      rw [hseed, List.count_cons_self]
      exact Nat.succ_le_succ (List.count_pos_iff.2 hmem)
    · refine Or.inl ?_
      have hkept : (q.keep kind outcome c).holding kind k = q.holding kind k :=
        holding_keep_of_not fun h => hseed (hentry.symm.trans h.2)
      rw [hkept, holding, hpaused] at hfree
      exact (holding_withoutSeed p fun h => hseed h.2).symm.trans hfree
  · exact Or.inl ⟨k, hmem', hother,
      Or.inr ⟨rfl, Or.inr (hcount.trans (List.count_le_count_cons ..))⟩⟩

variable [Behaves σ]

section Walks

variable {g : Graph} {R C : NodeId → Prop} (hg : g.Intact) (hC : ∀ {k}, C k → R k)
  (hfeeds : ∀ {k m}, R m → g.Feeds k m → R k)
  (hnext : ∀ {a b slot}, C a → g.nextNode? a slot = some b → C b)
include hg hC hfeeds hnext

theorem walkCursor_stays (p : Processor σ) (c : Cursor)
    (hshape : p.graph.clearValues = g.clearValues)
    (hc : C c.current) : Scene.Spares g R p.scene (p.walkCursor c).1.scene ∧
      Within R (p.walkCursor c).2.2.1 ∧ C (p.walkCursor c).2.1.current := by
  obtain ⟨hspares, hwithin, hcurrent⟩ := Scene.walkWithin_stays p.time hg hfeeds hC hnext
    p.settings.memoization p.settings.maxWalkSteps.toNat p.settings.maxWalkSteps.toNat p.scene
      hshape hc
  refine ⟨hspares.trans (.of_eq rfl rfl), ?_, hcurrent⟩
  unfold walkCursor
  refine Within.append hwithin ?_
  split
  · exact within_nil.cons_notice
  · exact within_nil

/-- **The walks of a call stay where its starts lead**, failing or not. -/
theorem walkSeeds_stays (kind : EntryKind) (seeds : List NodeId) (p : Processor σ)
    (hshape : p.graph.clearValues = g.clearValues) (hstart : ∀ k, p.Start kind seeds k → C k) :
    Scene.Spares g R p.scene (p.walkSeeds kind seeds).state.scene ∧
      Within R (p.walkSeeds kind seeds).events := by
  induction seeds generalizing p with
  | nil => exact ⟨.refl _, within_nil⟩
  | cons seed seeds ih =>
    cases hseed : p.graph.node? seed with
    | none =>
      rw [walkSeeds_unknown hseed]
      obtain ⟨hspares, hwithin⟩ := ih p hshape fun k hk => hstart k (hk.cons seed)
      exact ⟨hspares, hwithin.cons_notice⟩
    | some n =>
      have hknown : (p.graph.node? seed).isSome := by rw [hseed]; rfl
      have hwalk := walkCursor_stays hg hC hfeeds hnext (p.withoutSeed kind seed)
        (p.seedCursor kind seed) hshape (hstart _ (start_seedCursor hknown))
      have hmoved := walkCursor_moved (p.withoutSeed kind seed) (p.seedCursor kind seed)
      have hentry : ((p.withoutSeed kind seed).walkCursor (p.seedCursor kind seed)).2.1.entry =
          seed := entry_seedCursor p kind seed
      rw [walkSeeds_known hknown]
      generalize (p.withoutSeed kind seed).walkCursor (p.seedCursor kind seed) = done at *
      obtain ⟨q, c, events, e | outcome⟩ := done
      · exact ⟨hwalk.1, hwalk.2.1⟩
      · -- the other walks set out from the processor that this one leaves
        have hshape' : (q.keep kind outcome c).graph.clearValues = g.clearValues := by
          rw [graph_keep]
          exact hmoved.1.shape.trans hshape
        have hstart' : ∀ k, (q.keep kind outcome c).Start kind seeds k → C k := by
          intro k hk
          rcases hk.after_walk hmoved.2 hmoved.1.bare hentry with hk | rfl
          · exact hstart k hk
          · exact hwalk.2.2
        obtain ⟨hspares, hwithin⟩ := ih (q.keep kind outcome c) hshape' hstart'
        have hkeep : Scene.Spares g R q.scene (q.keep kind outcome c).scene :=
          .of_eq (graph_keep ..) (table_keep ..)
        exact ⟨hwalk.1.trans (hkeep.trans hspares), hwalk.2.1.append hwithin⟩

end Walks

theorem walkSeeds_time (kind : EntryKind) (seeds : List NodeId) (p : Processor σ) :
    (p.walkSeeds kind seeds).state.time = p.time := by
  induction seeds generalizing p with
  | nil => rfl
  | cons seed seeds ih =>
    have hwalk : ((p.withoutSeed kind seed).walkCursor (p.seedCursor kind seed)).1.time = p.time :=
      rfl
    rcases p.walkSeeds_cases kind seed seeds with
      ⟨-, h⟩ | ⟨q, c, events, e, hdone, h⟩ | ⟨q, c, events, outcome, hdone, h⟩
    · rw [h]
      exact ih p
    · rw [hdone] at hwalk
      rw [h]
      exact hwalk
    · rw [hdone] at hwalk
      rw [h]
      exact (ih _).trans ((time_keep ..).trans hwalk)

/-- **Paused walks of other kinds or other seeds are put back as they were**, in their order. -/
theorem walkSeeds_aside (kind : EntryKind) {all seeds : List NodeId} (p : Processor σ)
    (hall : seeds ⊆ all) : (p.walkSeeds kind seeds).state.aside kind all = p.aside kind all := by
  induction seeds generalizing p with
  | nil => rfl
  | cons seed seeds ih =>
    have hmem : seed ∈ all := hall List.mem_cons_self
    have hrest : seeds ⊆ all := fun x hx => hall (List.mem_cons_of_mem _ hx)
    have hwithout : (p.withoutSeed kind seed).aside kind all = p.aside kind all := by
      refine filter_eraseP_of_disjoint (fun w hat => ?_) p.paused
      obtain ⟨hkind, hentry⟩ : w.kind = kind ∧ w.cursor.entry = seed := by
        simpa [PausedWalk.isAt] using hat
      simp [hkind, hentry, hmem]
    have hpaused := (walkCursor_moved (p.withoutSeed kind seed) (p.seedCursor kind seed)).2
    have hentry : ((p.withoutSeed kind seed).walkCursor (p.seedCursor kind seed)).2.1.entry =
        seed := entry_seedCursor p kind seed
    rcases p.walkSeeds_cases kind seed seeds with
      ⟨-, h⟩ | ⟨q, c, events, e, hdone, h⟩ | ⟨q, c, events, outcome, hdone, h⟩
    · rw [h]
      exact ih p hrest
    · rw [hdone] at hpaused
      rw [h]
      exact (congrArg (List.filter _) hpaused).trans hwithout
    · rw [hdone] at hpaused hentry
      have hc : c.entry ∈ all := hentry.symm ▸ hmem
      have hkeep : (q.keep kind outcome c).aside kind all = q.aside kind all := by
        unfold keep aside
        split
        · rfl
        · rw [List.filter_append, List.filter_cons_of_neg (by simp [hc])]
          exact List.append_nil _
      rw [h]
      exact (ih _ hrest).trans
        (hkeep.trans ((congrArg (List.filter _) hpaused).trans hwithout))

end Processor

/-! ## 5. Bringing the processor up to date -/

namespace Processor

variable {σ : Type u}

/-- Fresh ranks are left alone. -/
theorem graph_ensureReady_of_fresh {p : Processor σ} (h : p.scheduledAt = some p.graph.revision) :
    p.ensureReady.state.graph = p.graph := by
  obtain ⟨_, _, _, -, hrebind⟩ := p.rebind_kept
  unfold ensureReady
  simp only [hrebind]
  split
  · rfl
  · rw [if_pos h, hrebind]

/-- Binding only gives notice. -/
theorem within_bindMissing {R : NodeId → Prop} (r : Registry σ) (ns : List Node) (t : Table σ) :
    Within R (Table.bindMissing r ns t).2.1 := by
  induction ns generalizing t with
  | nil => exact within_nil
  | cons n ns ih =>
    unfold Table.bindMissing
    split
    · exact ih t
    · split
      · exact within_nil
      · exact (ih _).cons_notice

/-- Binding and scheduling evaluate nothing. -/
theorem within_ensureReady {R : NodeId → Prop} (p : Processor σ) :
    Within R p.ensureReady.events := by
  have hsync : Within R (p.table.sync p.registry p.graph).2.1 := within_bindMissing _ _ _
  have hrebind : Within R p.rebind.events := by
    unfold rebind
    split
    · exact within_nil
    · simp only
      split <;> exact hsync
  unfold ensureReady
  simp only
  split
  · exact hrebind
  · split
    · exact hrebind
    · refine hrebind.append fun role id outcome hmem => ?_
      obtain ⟨n, -, hn⟩ := List.mem_map.1 hmem
      cases hn

/-- The nodes that the walks of a call can evaluate: those that its starts lead to over control
links, with the data nodes that feed them. -/
def Downstream (p : Processor σ) (kind : EntryKind) (seeds : List NodeId) (k : NodeId) : Prop :=
  ∃ start, p.Start kind seeds start ∧ p.graph.Region start k

variable [Behaves σ]

/-- What a call from seeds comes to, once the processor is up to date. -/
theorem walkSeeds_downstream {p : Processor σ} (hg : p.graph.Intact) (kind : EntryKind)
    (seeds : List NodeId) :
    Scene.Spares p.graph (p.Downstream kind seeds) p.scene (p.walkSeeds kind seeds).state.scene ∧
      Within (p.Downstream kind seeds) (p.walkSeeds kind seeds).events := by
  refine walkSeeds_stays (C := fun k => ∃ start, p.Start kind seeds start ∧ p.graph.Leads start k)
    hg ?_ ?_ ?_ kind seeds p rfl fun k hk => ⟨k, hk, .refl⟩
  · rintro k ⟨start, hstart, hleads⟩
    exact ⟨start, hstart, .control hleads⟩
  · rintro k m ⟨start, hstart, hregion⟩ hfeeds
    exact ⟨start, hstart, .data hregion hfeeds⟩
  · rintro a b slot ⟨start, hstart, hleads⟩ hslot
    exact ⟨start, hstart, hleads.tail (hg.mem_nextNodes_of_nextNode? hslot)⟩

end Processor

/-- **A call from seeds touches nothing upstream.**  Take any processor on a built graph, with any
behaviors, and any seeds of any kind, and let `ready` be the processor once it is up to date: the
same one if it was, and with the same graph if its ranks were fresh.  The walks of the call set out
from its seeds, or from where their paused walks stand, and a node is downstream if control links
lead to it from there, or if it is a data node that feeds such a node through a chain of data nodes.
Then, whether the call fails or not:

* only nodes downstream are evaluated;
* the behavior and the outputs of any other node are as before, and an input of whatever node has
  changed only if a data link from a node downstream ends at it;
* topology and ranks, the clock, the cursors of all kinds, and the paused walks of other kinds or
  other entries are as before. -/
theorem run_from_touches_nothing_upstream {σ : Type u} [Behaves σ] (p : Processor σ)
    (built : p.graph.Built) (seeds : List NodeId) (kind : EntryKind) :
    let ready := p.ensureReady.state
    let reply := p.runFrom seeds kind
    let done := reply.state
    let downstream := ready.Downstream kind seeds
    (p.Ready → ready = p) ∧ (p.scheduledAt = some p.graph.revision → ready.graph = p.graph) ∧
    (∀ role id outcome, .evaluated role id outcome ∈ reply.events → downstream id) ∧
    (∀ id, ¬ downstream id →
      done.table.get? id = ready.table.get? id ∧ done.graph.outputs? id = ready.graph.outputs? id) ∧
    (∀ id port, done.graph.input? id port ≠ ready.graph.input? id port →
      ∃ c ∈ p.graph.links, c.exec = false ∧ downstream c.fromNode ∧ c.toNode = id ∧
        c.toPort = port) ∧
    done.graph.clearValues = ready.graph.clearValues ∧
    done.time = p.time ∧ done.walks = p.walks ∧ done.aside kind seeds = ready.aside kind seeds := by
  intro ready reply done downstream
  have hprepared : Processor.Prepared p ready := (Processor.ensureReady_prepared p).1
  have hg : ready.graph.Intact := built.intact.of_bare_eq hprepared.bare
  obtain ⟨hspares, hwithin, htime, hwalks, haside⟩ :
      Scene.Spares ready.graph downstream ready.scene done.scene ∧ Within downstream reply.events ∧
        done.time = ready.time ∧ done.walks = ready.walks ∧
        done.aside kind seeds = ready.aside kind seeds := by
    have hready : Within downstream p.ensureReady.events := Processor.within_ensureReady p
    have hreply : reply = p.onReady (Processor.walkSeeds · kind seeds) :=
      Processor.runFrom_eq p seeds kind
    have hdone : done = reply.state := rfl
    cases hresult : p.ensureReady.result with
    | error e =>
      -- nothing could be bound, and nothing is walked
      rw [hdone, hreply, Processor.onReady_of_error hresult]
      exact ⟨.refl _, hready, rfl, rfl, rfl⟩
    | ok _ =>
      obtain ⟨hspares, hwithin⟩ := Processor.walkSeeds_downstream hg kind seeds
      rw [hdone, hreply, Processor.onReady_of_ok hresult]
      exact ⟨hspares, hready.append hwithin, Processor.walkSeeds_time kind seeds ready,
        (Processor.walkSeeds_moved kind seeds ready).walks,
        Processor.walkSeeds_aside kind ready (List.Subset.refl _)⟩
  refine ⟨fun h => ?_, Processor.graph_ensureReady_of_fresh, hwithin,
    fun id hid => ⟨hspares.table id hid, hspares.outputs id hid⟩, fun id port hne => ?_,
    hspares.shape, htime.trans (Processor.time_ensureReady p), hwalks.trans hprepared.walks, haside⟩
  · exact congrArg Reply.state (Processor.ensureReady_of_ready h)
  · by_contra hnone
    refine hne (hspares.inputs id port ?_)
    rintro ⟨c, hc, hrest⟩
    exact hnone ⟨c, Graph.links_eq_of_bare hprepared.bare ▸ hc, hrest⟩

/-- The example, started from its entry and suspended before the wait.  The call resumes the walk
there, so that only the wait is downstream: the entry that it was started from, the print and all
that feeds the print are left alone. -/
theorem example_resumed_walk_leaves_upstream :
    let p := (exampleProcessor.runFrom [exampleId 0] .event).state
    let done := (p.runFrom [exampleId 0] .event).state
    p.graph.Built ∧ p.paused = [⟨.event, exampleId 0, exampleId 5⟩] ∧
    (∀ id, p.Downstream .event [exampleId 0] id → id = exampleId 5) ∧
    ∀ id, id ≠ exampleId 5 →
      done.table.get? id = p.table.get? id ∧ done.graph.outputs? id = p.graph.outputs? id := by
  intro p done
  have built : p.graph.Built := .written exampleGraph_built
    (Processor.perform_undisturbed exampleProcessor (.runFrom [exampleId 0] .event)).bare
  have hready : p.Ready := ⟨by decide +kernel, by decide +kernel⟩
  have hpaused : p.paused = [⟨.event, exampleId 0, exampleId 5⟩] := by decide +kernel
  have hheld : ¬ (p.holding .event (exampleId 0) = [] ∨ 2 ≤ [exampleId 0].count (exampleId 0)) := by
    decide +kernel
  have hdown : ∀ id, p.Downstream .event [exampleId 0] id → id = exampleId 5 := by
    rintro id ⟨start, ⟨seed, hseed, -, hstart⟩, hregion⟩
    obtain rfl : start = exampleId 5 := by
      rcases hstart with ⟨w, hw, -, rfl⟩ | ⟨-, hfree⟩
      · rw [hpaused, List.mem_singleton] at hw
        rw [hw]
      · rw [List.mem_singleton.1 hseed] at hfree
        exact absurd hfree hheld
    have hmem : id ∈ [exampleId 5] :=
      hregion.mem_of_closed (by decide) (by decide +kernel) (by decide +kernel)
    exact List.mem_singleton.1 hmem
  obtain ⟨hsame, -, -, hspared, -⟩ :=
    run_from_touches_nothing_upstream p built [exampleId 0] .event
  rw [hsame hready] at hspared
  exact ⟨built, hpaused, hdown, fun id hid => hspared id fun h => hid (hdown id h)⟩

end FlowScript
