/-
# Link type checking is sound

A script is a graph of standard nodes that a host edits and runs: it starts the script, updates it
tick by tick, and hands over signals whose payloads go into the slots of entries.  Slots keep their
values from call to call and from edit to edit.

`links_prevent_mismatches` says that the check which a link passes when it is made is enough for all
that time: as long as no data link starts at an output of type `any`, no call fails because an input
holds a value that its node cannot read.

What has to be added to `Processor.Typed` is the host's side.  Payloads are written without a check,
so each kind of entry must declare the slot for the payload that the host has for it
(`EntryKind.payload?`), and the index of listeners must name entries of the right kind whenever it
is used (`Listeners.Current`).
-/
import FlowScript.Proofs.Coverage
import FlowScript.Proofs.Ordering
import FlowScript.Proofs.Typing

namespace FlowScript

/-! ## 1. Processors -/

/-- The node that an edit adds. -/
def Edit.node? : Edit → Option Node
  | addNode n => some n
  | _ => none

theorem Request.added?_edit (e : Edit) : (Request.edit e).added? = e.node?.map Node.id := by
  cases e <;> rfl

namespace Processor

variable {used : List NodeId} {p q : Processor Library.Behavior}

/-- A typed processor whose revision marks can be relied on. -/
structure Steady (used : List NodeId) (p : Processor Library.Behavior) : Prop
    extends p.Typed used where
  synced : p.Synced

namespace Steady

theorem new {g : Graph} (built : g.Built) (pristine : ∀ id n, g.node? id = some n → n.Pristine)
    (definite : g.Definite) {settings : Settings} {told : List Event}
    (h : Processor.new g Library.registry settings = (told, .ok p)) : p.Steady g.nodes.keys := by
  have hfaithful := Faithful.new built.intact.nodeKey Library.restarts h
  have hsynced := Synced.new built.intact h
  obtain ⟨-, rfl⟩ := new_eq_ok h
  exact ⟨⟨hfaithful, ⟨built.intact, fun id n hn => (pristine id n hn).standard, definite⟩,
    fun id n hn => (pristine id n hn).filled⟩, hsynced⟩

/-- What leaves graph and table alone. -/
theorem congr (h : p.Steady used) (hstill : Still p q) (hregistry : q.registry = p.registry)
    (hgraph : q.graph = p.graph) (htable : q.table = p.table) : q.Steady used :=
  ⟨⟨h.faithful.congr Library.restarts hregistry (congrArg Graph.bare hgraph)
    (congrArg Table.reset htable), hgraph ▸ h.sound, hgraph ▸ h.filled⟩, h.synced.still hstill⟩

theorem ensureReady (h : p.Steady used) : p.ensureReady.state.Steady used :=
  ⟨⟨h.faithful.ensureReady Library.restarts h.synced,
    h.sound.of_bare (ensureReady_prepared p).1.bare,
    h.filled.of_resetRanks p.resetRanks_ensureReady⟩, h.synced.ensureReady.1⟩

theorem reset (h : p.Steady used) : p.reset.1.Steady used :=
  ⟨⟨h.faithful.reset Library.restarts, h.sound.of_bare (Graph.bare_clearValues p.graph),
    Graph.filled_clearValues p.graph⟩, h.synced.still p.reset_still⟩

theorem setOutput (h : p.Steady used) {id : NodeId} {slot : Nat} {v : Value}
    (hv : ∀ n, p.graph.node? id = some n → n.Carries slot v) :
    (p.setOutput id slot v).Steady used := by
  have hbare := (perform_undisturbed p (.setOutput id slot v)).bare
  refine ⟨⟨h.faithful.congr Library.restarts rfl hbare rfl, h.sound.of_bare hbare, ?_⟩,
    (h.synced.perform (.setOutput id slot v)).1⟩
  exact h.filled.modifyNode fun n hn hfilled => hfilled.setOutput (hv n hn)

/-- An edit adds at most a pristine node under a name that was never used. -/
theorem edit (h : p.Steady used) {e : Edit} (hfresh : e.Fresh p.graph)
    (hnode : ∀ n ∈ e.node?, n.id ∉ used ∧ n.Pristine) (hdefinite : (e.run p.graph).Definite) :
    Steady (used ++ (e.node?.map Node.id).toList) { p with graph := e.run p.graph } := by
  have hnodes : ∀ id n, (e.run p.graph).node? id = some n →
      p.graph.node? id = some n ∨ n.Pristine := by
    intro id n hn
    rcases Edit.run_cases p.graph e with hsame | ⟨-, hcases⟩
    · exact .inl (hsame ▸ hn)
    · rcases hcases id n hn with hold | ⟨rfl, -⟩
      · exact .inl hold
      · exact .inr (hnode n rfl).2
  have hnew : ∀ id ∈ (Request.edit e).added?, id ∉ used := by
    intro id hid
    rw [Request.added?_edit] at hid
    obtain ⟨n, hn, rfl⟩ := Option.map_eq_some_iff.1 hid
    exact (hnode n hn).1
  refine ⟨⟨?_, ⟨Edit.run_intact h.sound.intact e hfresh, fun id n hn => ?_, hdefinite⟩,
    fun id n hn => ?_⟩, h.synced.edit e⟩
  · rw [← Request.added?_edit]
    exact h.faithful.edit hnew
  · exact (hnodes id n hn).elim (h.sound.standard id n) Node.Pristine.standard
  · exact (hnodes id n hn).elim (h.filled id n) Node.Pristine.filled

/-- **Walking keeps a processor steady, and no walk meets a mismatch.** -/
theorem lasting (used : List NodeId) : Lasting (Steady used) fun e => e.isMismatch = false where
  walked p c h := ⟨(h.walkCursor c).1, h.synced.still (p.walkCursor_walked c).still⟩
  failed _ c e h he := (h.walkCursor c).2 e he
  placed _ _ _ h := h.congr ⟨rfl, rfl, rfl, rfl, rfl, rfl⟩ rfl rfl rfl
  readied _ h := h.ensureReady

end Steady

end Processor

/-! ## 2. Payloads and listeners -/

/-- What a host writes into the payload slot of entries of a kind. -/
def EntryKind.payload? : EntryKind → Option PortType
  | start => none
  | update => some .float
  | event => some .any
  | triggerEntered | triggerExited | collision | zoneEvent => some .entity

/-- **Entries are declared for the payloads of their kinds.** -/
theorem Node.Standard.carries_payload {n : Node} {kind : EntryKind} {v : Value} (hn : n.Standard)
    (hcategory : n.category = .entry kind) (hv : ∀ t ∈ kind.payload?, t.Carries v) :
    n.Carries Library.payloadSlot v := by
  have hdeclared : ∀ e ∈ Library.registry.entries.entries, ∀ kind ∈ EntryKind.all,
      e.2.type.category = .entry kind →
        (e.2.type.outputs[Library.payloadSlot]?).map Port.type = kind.payload? := by decide
  obtain ⟨t, ht, hof⟩ := hn.ofType
  obtain ⟨e, he, rfl⟩ := Option.map_eq_some_iff.1 ht
  have hslot := hdeclared (n.type, e) ((OrderedMap.get?_eq_some_iff _ _ _).1 he) kind kind.mem_all
    (hof.1.symm.trans hcategory)
  rw [Node.Carries, hof.outputType, hslot]
  exact hv

namespace Listeners

/-- The listeners are entries of the kinds that they are told about, unless they are gone. -/
structure Aims (l : Listeners) (g : Graph) : Prop where
  events : ∀ name, ∀ id ∈ l.forEvent name, ∀ n, g.node? id = some n → n.category = .entry .event
  zones : ∀ zone activation, ∀ id ∈ l.forZone zone activation, ∀ n, g.node? id = some n →
    n.category = .entry .zoneEvent

/-- An index that is not from a later revision, and that can be relied on if it is from this one. -/
structure Current (l : Listeners) (g : Graph) : Prop where
  le : ∀ r, l.revision? = some r → r ≤ g.revision
  aims : l.revision? = some g.revision → l.Aims g

variable {l : Listeners} {g g' : Graph}

theorem current_none (g : Graph) : Listeners.none.Current g := ⟨nofun, nofun⟩

theorem Current.of_bare (h : l.Current g) (hbare : g'.bare = g.bare) : l.Current g' := by
  have hrevision := Processor.revision_eq_of_bare hbare
  have hcategory : ∀ id n kind, (∀ m, g.node? id = some m → m.category = .entry kind) →
      g'.node? id = some n → n.category = .entry kind := by
    intro id n kind hg hn
    obtain ⟨m, hm, hmn⟩ := Graph.exists_node?_of_bare hbare hn
    exact (show n.bare.category = m.bare.category by rw [hmn]).trans (hg m hm)
  refine ⟨fun r hr => hrevision ▸ h.le r hr, fun hr => ?_⟩
  have haims := h.aims (hrevision ▸ hr)
  exact ⟨fun name id hid n => hcategory id n .event (haims.events name id hid),
    fun zone activation id hid n => hcategory id n .zoneEvent (haims.zones zone activation id hid)⟩

/-- An edit outdates the index unless it changes nothing. -/
theorem Current.edit (h : l.Current g) (e : Edit) : l.Current (e.run g) := by
  rcases Edit.run_cases g e with hsame | ⟨hrevision, -⟩
  · rw [hsame]
    exact h
  · refine ⟨fun r hr => ?_, fun hr => ?_⟩
    · have hle := h.le r hr
      omega
    · have hle := h.le _ hr
      omega

/-- Whoever is listed for an event was there before or has been added. -/
theorem forall_addListener {Q : NodeId → Prop} :
    ∀ (named : List (String × NodeId)) (m : OrderedMap String (List NodeId)),
      (∀ name ids, m.get? name = some ids → ∀ id ∈ ids, Q id) → (∀ e ∈ named, Q e.2) →
      ∀ name ids, (named.foldl Graph.addListener m).get? name = some ids → ∀ id ∈ ids, Q id
  | [], _, hm, _ => hm
  | e :: named, m, hm, hnamed => by
    rw [List.forall_mem_cons] at hnamed
    refine forall_addListener named (Graph.addListener m e) (fun name ids hget id hid => ?_)
      hnamed.2
    rw [Graph.addListener, OrderedMap.get?_insert] at hget
    split at hget
    · cases hget
      rcases List.mem_append.1 hid with hid | hid
      · cases hold : m.get? e.1 with
        | none => rw [hold] at hid; cases hid
        | some ids => rw [hold] at hid; exact hm e.1 ids hold id hid
      · rw [List.mem_singleton.1 hid]
        exact hnamed.1
    · exact hm name ids hget id hid

/-- **The index names entries of the right kinds.** -/
theorem aims_listeners (hkey : ∀ id n, g.node? id = some n → n.id = id) : g.listeners.Aims g := by
  have hkind : ∀ kind, ∀ m ∈ g.nodesOfKind kind, ∀ n, g.node? m.id = some n →
      n.category = .entry kind := by
    intro kind m hm n hn
    obtain ⟨hvalue, hcategory⟩ := List.mem_filter.1 hm
    obtain rfl : m = n := Option.some.inj ((Graph.node?_of_mem_values hkey hvalue).symm.trans hn)
    exact of_decide_eq_true hcategory
  constructor
  case events =>
    intro name id hid
    unfold forEvent Graph.listeners at hid
    simp only [OrderedMap.get?_map] at hid
    cases hget : (List.foldl Graph.addListener .empty
        ((g.nodesOfKind .event).filterMap fun n => n.eventName?.map (·, n.id))).get? name with
    | none => rw [hget] at hid; cases hid
    | some ids =>
      rw [hget, Option.map_some, Option.getD_some, mem_sortBy] at hid
      refine forall_addListener
        (Q := fun id => ∀ n, g.node? id = some n → n.category = .entry .event)
        _ .empty (fun _ _ h => by cases h) (fun e he => ?_) name ids hget id hid
      obtain ⟨m, hm, hname⟩ := List.mem_filterMap.1 he
      obtain ⟨event, -, rfl⟩ := Option.map_eq_some_iff.1 hname
      exact hkind .event m hm
  case zones =>
    intro zone activation id hid
    obtain ⟨z, hz, rfl⟩ := List.mem_map.1 hid
    have hlisted := (mem_sortBy _ _ _).1 (List.mem_filter.1 hz).1
    obtain ⟨m, hm, hzone⟩ := List.mem_filterMap.1 hlisted
    obtain ⟨_, -, rfl⟩ := Option.map_eq_some_iff.1 hzone
    exact hkind .zoneEvent m hm

end Listeners

/-! ## 3. Calls of a host -/

/-- The failure in an answer. -/
def Reply.failure? {S : Type} {ε α : Type} (r : Reply S ε α) : Option ε :=
  match r.result with
  | .error e => some e
  | .ok _ => none

namespace Instance

variable {used : List NodeId} {i : Instance Library.Behavior} {α : Type}

/-- A steady processor with an index of listeners that is not wrong. -/
structure Steady (used : List NodeId) (i : Instance Library.Behavior) : Prop where
  processor : i.processor.Steady used
  listeners : i.listeners.Current i.processor.graph

/-- The answer leaves a steady instance and fails, if at all, without a mismatch. -/
structure Answered (used : List NodeId) (r : Reply (Instance Library.Behavior) RunError α) :
    Prop where
  state : r.state.Steady used
  result : ∀ e, r.result = .error (.eval e) → e.isMismatch = false

namespace Steady

theorem withProcessor (h : i.Steady used) {q : Processor Library.Behavior} (hq : q.Steady used)
    (hbare : q.graph.bare = i.processor.graph.bare) : Steady used { i with processor := q } :=
  ⟨hq, h.listeners.of_bare hbare⟩

theorem refresh (h : i.Steady used) :
    i.refresh.1.Steady used ∧ i.refresh.1.listeners.Aims i.refresh.1.processor.graph := by
  unfold Instance.refresh
  simp only
  split
  · next hcurrent => exact ⟨h, h.listeners.aims hcurrent⟩
  · have haims := Listeners.aims_listeners h.processor.sound.intact.nodeKey
    exact ⟨⟨h.processor, fun r hr => Nat.le_of_eq (Option.some.inj hr).symm, fun _ => haims⟩, haims⟩

/-- A payload that is for the kind of its entries. -/
theorem writePayload {kind : EntryKind} {v : Value} (hv : ∀ t ∈ kind.payload?, t.Carries v) :
    ∀ (ids : List NodeId) {i : Instance Library.Behavior}, i.Steady used →
      (∀ id ∈ ids, ∀ n, i.processor.graph.node? id = some n → n.category = .entry kind) →
      (i.writePayload ids v).Steady used
  | [], _, h, _ => h
  | id :: ids, i, h, hids => by
    rw [List.forall_mem_cons] at hids
    have hwritten : (i.processor.setOutput id Library.payloadSlot v).Steady used :=
      h.processor.setOutput fun n hn =>
        (h.processor.sound.standard id n hn).carries_payload (hids.1 n hn) hv
    have hbare := (Processor.perform_undisturbed i.processor
      (.setOutput id Library.payloadSlot v)).bare
    refine writePayload hv ids (h.withProcessor hwritten hbare) fun id' hid' n hn => ?_
    obtain ⟨m, hm, hmn⟩ := Graph.exists_node?_of_bare hbare hn
    exact (show n.bare.category = m.bare.category by rw [hmn]).trans (hids.2 id' hid' m hm)

theorem after (h : i.Steady used) {r : Reply (Processor Library.Behavior) RunError α}
    (hr : r.state.Steady used ∧ ∀ e, r.result = .error (.eval e) → e.isMismatch = false)
    (hbare : r.state.graph.bare = i.processor.graph.bare) (events : List Event) :
    Answered used (i.after events r) := ⟨h.withProcessor hr.1 hbare, hr.2⟩

theorem run (h : i.Steady used) (events : List Event) (kind : EntryKind) :
    Answered used (i.after events (i.processor.run kind)) :=
  h.after ((Processor.Steady.lasting used).run kind h.processor)
    (Processor.perform_undisturbed i.processor (.run kind)).bare events

theorem runFrom (h : i.Steady used) (events : List Event) (seeds : List NodeId) (kind : EntryKind) :
    Answered used (i.after events (i.processor.runFrom seeds kind)) :=
  h.after ((Processor.Steady.lasting used).runFrom seeds kind h.processor)
    (Processor.perform_undisturbed i.processor (.runFrom seeds kind)).bare events

theorem init (h : i.Steady used) : Answered used i.init := by
  have hready := h.processor.reset.ensureReady
  have hbare : i.processor.reset.1.ensureReady.state.graph.bare = i.processor.graph.bare :=
    (Processor.ensureReady_prepared _).1.bare.trans (Graph.bare_clearValues _)
  unfold Instance.init
  simp only
  split
  · exact ⟨h.withProcessor hready hbare, nofun⟩
  · have hnew : (Instance.new i.processor.reset.1.ensureReady.state).Steady used :=
      ⟨hready, Listeners.current_none _⟩
    exact ⟨hnew.refresh.1, nofun⟩

theorem runUpdate (h : i.Steady used) (delta : Single) : Answered used (i.runUpdate delta) := by
  have hadvanced : (i.processor.advance delta).Steady used :=
    h.processor.congr ⟨rfl, rfl, rfl, rfl, rfl, rfl⟩ rfl rfl rfl
  have hpaused := (Processor.Steady.lasting used).runPaused hadvanced
  have hbare := (Processor.perform_undisturbed (i.processor.advance delta) .runPaused).bare
  have hresumed := h.withProcessor hpaused.1 hbare
  unfold Instance.runUpdate
  simp only
  split
  · next e he => exact ⟨hresumed, fun e' he' => hpaused.2 e' (he.trans he')⟩
  · have hrun := hresumed.run [] .update
    exact ⟨hrun.state, fun e he => hrun.result e (eq_error_of_map he)⟩

theorem runWithPayload (h : i.Steady used) (events : List Event) {kind : EntryKind} {v : Value}
    (hv : ∀ t ∈ kind.payload?, t.Carries v) : Answered used (i.runWithPayload events kind v) := by
  refine run (writePayload hv _ h fun id hid n hn => ?_) events kind
  obtain ⟨m, kind', hm, hcategory, hkind⟩ :=
    (Graph.mem_entryNodes_iff h.processor.sound.intact).1 hid
  obtain rfl : m = n := Option.some.inj (hm.symm.trans hn)
  exact List.mem_singleton.1 hkind ▸ hcategory

/-- **Whatever the host signals**, it writes payloads of the declared types only. -/
theorem deliver (h : i.Steady used) (m : Message) : Answered used (i.deliver m) := by
  obtain ⟨hrefreshed, haims⟩ := h.refresh
  have hentity : ∀ {kind : EntryKind}, kind.payload? = some .entity →
      ∀ id, ∀ t ∈ kind.payload?, t.Carries (.entity id) := by
    intro kind hkind id t ht
    rw [hkind] at ht
    cases ht
    exact .inr rfl
  have hany : ∀ v, ∀ t ∈ EntryKind.event.payload?, t.Carries v := by
    rintro v _ ⟨⟩
    exact .inl rfl
  unfold Instance.deliver
  generalize i.refresh = refreshed at hrefreshed haims
  obtain ⟨i', events⟩ := refreshed
  cases m with
  | triggerEntered other => exact hrefreshed.runWithPayload events (hentity rfl other)
  | triggerExited other => exact hrefreshed.runWithPayload events (hentity rfl other)
  | collisionEntered other =>
    simp only
    split
    · exact hrefreshed.runWithPayload events (hentity rfl other)
    · exact ⟨hrefreshed, nofun⟩
  | event name payload =>
    simp only
    split
    · exact ⟨hrefreshed, nofun⟩
    · cases payload with
      | none => exact hrefreshed.runFrom events _ .event
      | some v =>
        exact (writePayload (hany v) _ hrefreshed (haims.events name)).runFrom events _ .event
  | zone zone activation other =>
    simp only
    split
    · exact ⟨hrefreshed, nofun⟩
    · have hwritten := writePayload (hentity rfl other) _ hrefreshed (haims.zones zone activation)
      exact hwritten.runFrom events _ .zoneEvent

end Steady

theorem Answered.failure? {r : Reply (Instance Library.Behavior) RunError α} (h : Answered used r)
    {e : EvalError} (he : r.failure? = some (.eval e)) : e.isMismatch = false := by
  unfold Reply.failure? at he
  split at he
  · next e' heq =>
    cases he
    exact h.result e heq
  · cases he

end Instance

/-- The failure that a call answers. -/
def HostCall.failure? (i : Instance Library.Behavior) : HostCall → Option RunError
  | init => i.init.failure?
  | runStart => i.runStart.failure?
  | runUpdate delta => (i.runUpdate delta).failure?
  | deliver m => (i.deliver m).failure?

theorem HostCall.steady {used : List NodeId} {i : Instance Library.Behavior} (h : i.Steady used)
    (c : HostCall) : (c.perform i).Steady used ∧
      ∀ e, c.failure? i = some (.eval e) → e.isMismatch = false := by
  cases c with
  | init => exact ⟨h.init.state, fun _ => h.init.failure?⟩
  | runStart => exact ⟨(h.run [] .start).state, fun _ => (h.run [] .start).failure?⟩
  | runUpdate delta => exact ⟨(h.runUpdate delta).state, fun _ => (h.runUpdate delta).failure?⟩
  | deliver m => exact ⟨(h.deliver m).state, fun _ => (h.deliver m).failure?⟩

/-! ## 4. Edits and calls -/

/-- What a host does with a script. -/
inductive Action
  | call (c : HostCall)
  | edit (e : Edit)

namespace Action

variable {used : List NodeId} {i : Instance Library.Behavior}

/-- The instance after an action, failing or not. -/
def take (i : Instance Library.Behavior) : Action → Instance Library.Behavior
  | call c => c.perform i
  | edit e => { i with processor := { i.processor with graph := e.run i.processor.graph } }

/-- The failures that the calls among some actions answer, in order. -/
def failures (i : Instance Library.Behavior) : List Action → List RunError
  | [] => []
  | call c :: actions => (c.failure? i).toList ++ failures ((call c).take i) actions
  | edit e :: actions => failures ((edit e).take i) actions

/-- The name of the node that an action adds. -/
def added? : Action → Option NodeId
  | call _ => none
  | edit e => e.node?.map Node.id

/-- The action may be taken: an edit brings new names only, adds no other node than a pristine one,
under a name that was never used, and leaves no data link that starts at an output of type `any`. -/
def Allowed (used : List NodeId) (g : Graph) : Action → Prop
  | call _ => True
  | edit e => e.Fresh g ∧ (∀ n ∈ e.node?, n.id ∉ used ∧ n.Pristine) ∧ (e.run g).Definite

/-- Each action of a list may be taken at its time. -/
def AllAllowed (used : List NodeId) (i : Instance Library.Behavior) : List Action → Prop
  | [] => True
  | a :: actions => a.Allowed used i.processor.graph ∧
      AllAllowed (used ++ a.added?.toList) (a.take i) actions

instance (used : List NodeId) (g : Graph) : (a : Action) → Decidable (a.Allowed used g)
  | call _ => inferInstanceAs (Decidable True)
  | edit _ => inferInstanceAs (Decidable (_ ∧ _ ∧ _))

instance instDecidableAllAllowed (used : List NodeId) (i : Instance Library.Behavior) :
    (actions : List Action) → Decidable (AllAllowed used i actions)
  | [] => inferInstanceAs (Decidable True)
  | a :: actions =>
    have := instDecidableAllAllowed (used ++ a.added?.toList) (a.take i) actions
    inferInstanceAs (Decidable (_ ∧ _))

theorem take_steady (h : i.Steady used) (a : Action) (ha : a.Allowed used i.processor.graph) :
    (a.take i).Steady (used ++ a.added?.toList) := by
  cases a with
  | call c =>
    show (c.perform i).Steady (used ++ [])
    rw [List.append_nil]
    exact (c.steady h).1
  | edit e => exact ⟨h.processor.edit ha.1 ha.2.1 ha.2.2, h.listeners.edit e⟩

/-- **No action leads to a mismatch.** -/
theorem isMismatch_of_mem_failures :
    ∀ (actions : List Action) {used : List NodeId} {i : Instance Library.Behavior}, i.Steady used →
      AllAllowed used i actions → ∀ e, .eval e ∈ failures i actions → e.isMismatch = false
  | [], _, _, _, _, _, he => nomatch he
  | call c :: actions, _, _, h, hallowed, e, he => by
    rcases List.mem_append.1 he with hc | hrest
    · exact (c.steady h).2 e (Option.mem_toList.1 hc)
    · exact isMismatch_of_mem_failures actions (take_steady h (call c) hallowed.1)
        hallowed.2 e hrest
  | edit ed :: actions, _, _, h, hallowed, e, he =>
    isMismatch_of_mem_failures actions (take_steady h (edit ed) hallowed.1) hallowed.2 e he

end Action

/-! ## 5. The law -/

/-- **Link type checking is sound for the standard nodes.**  Take any graph that was built from
pristine nodes of the standard types, whatever their settings and whichever defaults their inputs
admit, such that no data link starts at an output of type `any`; and any sequence of edits that keep
this, with nodes under names that were never used, and of initializing, starting and updating the
script and delivering messages, failing calls included.  No call fails because an input holds a
value of a wrong type. -/
theorem links_prevent_mismatches (g : Graph) (built : g.Built)
    (pristine : ∀ id n, g.node? id = some n → n.Pristine) (definite : g.Definite)
    (settings : Settings) (told : List Event) (p : Processor Library.Behavior)
    (fresh : Processor.new g Library.registry settings = (told, .ok p)) (actions : List Action)
    (allowed : Action.AllAllowed g.nodes.keys (.new p) actions) :
    ∀ node port expected,
      .eval (.typeMismatch node port expected) ∉ Action.failures (.new p) actions := by
  intro node port expected hmem
  have hstart : (Instance.new p).Steady g.nodes.keys :=
    ⟨.new built pristine definite fresh, Listeners.current_none _⟩
  cases Action.isMismatch_of_mem_failures actions hstart allowed _ hmem

/-- A node of the example script, by number. -/
def createdNode (k : Nat) (type : String) : Node :=
  (Library.registry.create? type ((Supply.counting 1).node k)).getD default

/-- Every tick, wait for the length of the tick and print who came last, as often
as the tick has seconds. -/
def meterEdits : List Edit :=
  [ .addNode (createdNode 0 Library.onUpdate),
    .addNode (createdNode 1 Library.add),
    .addNode (createdNode 2 Library.wait),
    .addNode (createdNode 3 Library.log),
    .addNode (createdNode 4 Library.onTriggerEntered),
    .addNode (createdNode 5 Library.branch),
    exampleLink 0 0 "Exec" 2 "Exec",
    exampleLink 1 2 "Exec" 3 "Exec",
    exampleLink 2 0 "Delta Time" 1 "A",
    exampleLink 3 1 "Result" 2 "Seconds",
    exampleLink 4 1 "Result" 3 "Amount",
    exampleLink 5 4 "Other" 3 "Text",
    exampleLink 6 4 "Exec" 5 "Exec" ]

def meterGraph : Graph := Edit.runAll (.empty "meter") meterEdits

def meterProcessor : Processor Library.Behavior :=
  { Processor.unbound meterGraph Library.registry .standard with
    table := (Table.sync .empty Library.registry meterGraph).1 }

theorem meterProcessor_new :
    ∃ told, Processor.new meterGraph Library.registry .standard = (told, .ok meterProcessor) :=
  Processor.exists_new_eq .standard (by decide +kernel)

/-- The script is run, and while it runs the condition of the branch is linked
and a listener added. -/
def meterActions : List Action :=
  [ .call .init,
    .call (.runUpdate .one),
    .call (.deliver (.triggerEntered 7)),
    .edit (.addNode (createdNode 6 Library.greater)),
    .edit (exampleLink 7 1 "Result" 6 "A"),
    .edit (exampleLink 8 6 "Result" 5 "Condition"),
    .call (.deliver (.triggerEntered 8)),
    .edit (.addNode ((createdNode 7 Library.onEvent).withSetting eventSetting (.string "go"))),
    .call (.deliver (.event "go" (some (.bool true)))),
    .call (.runUpdate .one) ]

/-- The script fails once, for want of the condition, and never for a value of a wrong type. -/
theorem meter_fails_without_mismatch :
    Action.failures (.new meterProcessor) meterActions =
      [.eval (.missingInput (exampleId 5) "Condition")] ∧
    ∀ node port expected,
      .eval (.typeMismatch node port expected) ∉
        Action.failures (.new meterProcessor) meterActions := by
  obtain ⟨told, fresh⟩ := meterProcessor_new
  have hfresh : Edit.FreshAll (.empty "meter") meterEdits := by decide +kernel
  have hpristine : ∀ n ∈ meterGraph.nodes.values, n.Pristine := by decide +kernel
  have hdefinite : meterGraph.Definite := by decide +kernel
  have hallowed : Action.AllAllowed meterGraph.nodes.keys (.new meterProcessor) meterActions := by
    decide +kernel
  exact ⟨by decide +kernel, links_prevent_mismatches meterGraph
    ((Graph.Built.empty "meter").runAll meterEdits hfresh)
    (fun id n hn => hpristine n ((OrderedMap.mem_values_iff _ _).2 ⟨id, hn⟩)) hdefinite
      .standard told meterProcessor fresh meterActions hallowed⟩

end FlowScript
