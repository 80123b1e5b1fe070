/-
# The index of listeners is a scan of the entries

An instance does not search its graph for every message.  It keeps an index: event entries grouped
by the name they listen to, zone entries in one list, each in the order in which entries run.  The
index is built once per revision of the graph.  This module says that a message reaches exactly the
entries that a search of the graph would find (`Graph.scan`), in the order of `entryNodes`.

* A stable sort commutes with a selection (`sortBy_filter`), and sorting by the places in a list
  recovers any part of that list (`sortBy_listenerLe`).  Therefore it does not matter that the index
  is sorted in the combined order of two kinds after it was grouped (`forEvent_listeners`,
  `forZone_listeners`).
* The index reads names, settings, categories and positions, none of which a call writes
  (`listeners_eq_of_bare`), and every edit that does anything raises the revision.  So an index is
  right whenever it is used (`Instance.Indexed`), whatever was done with the instance before.
* `Instance.Routes` is what a delivery comes to, and `messages_reach_their_listeners` the law over
  all uses of an instance.
-/
import FlowScript.Proofs.Rearranged
import FlowScript.Proofs.Soundness

namespace FlowScript

universe u

/-! ## 1. Sorting and selecting -/

section Sorting

variable {α : Type u} {le : α → α → Bool}

/-- An element that exceeds nothing goes to the front. -/
theorem insertBy_of_forall {x : α} {l : List α} (h : ∀ y ∈ l, le x y = true) :
    insertBy le x l = x :: l := by
  cases l with
  | nil => rfl
  | cons y l => exact if_pos (h y List.mem_cons_self)

theorem filter_insertBy (trans : ∀ a b c, le a b = true → le b c = true → le a c = true)
    (p : α → Bool) (x : α) {l : List α} (hl : l.Pairwise fun a b => le a b = true) :
    (insertBy le x l).filter p = if p x then insertBy le x (l.filter p) else l.filter p := by
  induction l with
  | nil => by_cases hx : p x <;> simp [insertBy, hx]
  | cons y l ih =>
    obtain ⟨hy, hsorted⟩ := List.pairwise_cons.1 hl
    by_cases hxy : le x y = true
    · -- whatever is selected of the list comes after `x`
      have hle : ∀ z ∈ (y :: l).filter p, le x z = true := by
        intro z hz
        rcases List.mem_cons.1 (List.mem_of_mem_filter hz) with rfl | hz
        · exact hxy
        · exact trans x y z hxy (hy z hz)
      rw [insertBy_of_forall hle, insertBy, if_pos hxy, List.filter_cons]
    · rw [insertBy, if_neg hxy, List.filter_cons, ih hsorted, List.filter_cons]
      by_cases hpy : p y = true
      · by_cases hpx : p x = true
        · simp [hpx, hpy, insertBy, hxy]
        · simp [hpx, hpy]
      · simp [hpy]

/-- **A sort commutes with a selection**, because it is stable. -/
theorem sortBy_filter (trans : ∀ a b c, le a b = true → le b c = true → le a c = true)
    (total : ∀ a b, (le a b || le b a) = true) (p : α → Bool) (l : List α) :
    sortBy le (l.filter p) = (sortBy le l).filter p := by
  induction l with
  | nil => rfl
  | cons x l ih =>
    have hinsert := filter_insertBy trans p x (sortBy_pairwise trans total l)
    have hcons : sortBy le (x :: l) = insertBy le x (sortBy le l) := rfl
    rw [hcons, hinsert, ← ih, List.filter_cons]
    split <;> rfl

/-- Entries of an index that pass a test come from the elements that pass the corresponding one. -/
theorem map_filter_filterMap {β γ : Type} {f : α → Option β} {test : β → Bool} {key : β → γ}
    {own : α → γ} {P : α → Bool} (hnone : ∀ a, f a = none → P a = false)
    (hsome : ∀ a b, f a = some b → P a = test b ∧ key b = own a) (l : List α) :
    ((l.filterMap f).filter test).map key = (l.filter P).map own := by
  induction l with
  | nil => rfl
  | cons a l ih =>
    cases ha : f a with
    | none => simpa [ha, hnone a ha] using ih
    | some b =>
      obtain ⟨htest, hkey⟩ := hsome a b ha
      by_cases hb : test b = true
      · simp [ha, htest, hb, hkey, ih]
      · simp [ha, htest, hb, ih]

end Sorting

namespace Graph

/-- A list without repetition is in the order of its own places. -/
theorem pairwise_listenerLe {order : List NodeId} (h : order.Nodup) :
    order.Pairwise fun a b => listenerLe order a b = true := by
  rw [List.pairwise_iff_getElem]
  intro i j hi hj hij
  rw [listenerLe, h.idxOf_getElem, h.idxOf_getElem]
  exact decide_eq_true hij.le

theorem listenerLe_trans (order : List NodeId) (a b c : NodeId) (hab : listenerLe order a b = true)
    (hbc : listenerLe order b c = true) : listenerLe order a c = true := by
  simp only [listenerLe, decide_eq_true_eq] at *
  omega

theorem listenerLe_total (order : List NodeId) (a b : NodeId) :
    (listenerLe order a b || listenerLe order b a) = true := by
  simp only [listenerLe, Bool.or_eq_true, decide_eq_true_eq]
  omega

/-- **Sorting by the places in a list recovers any part of it.** -/
theorem sortBy_listenerLe {order part ids : List NodeId} (h : order.Nodup)
    (hpart : part.Sublist order)
    (hperm : ids.Perm part) : sortBy (listenerLe order) ids = part := by
  refine ((sortBy_perm _ ids).trans hperm).eq_of_pairwise ?_
    (sortBy_pairwise (listenerLe_trans order) (listenerLe_total order) ids)
    ((pairwise_listenerLe h).sublist hpart)
  intro a b ha hb hab hba
  have hmem : a ∈ order := hpart.subset (hperm.mem_iff.1 ((mem_sortBy _ ids a).1 ha))
  simp only [listenerLe, decide_eq_true_eq] at hab hba
  exact (List.idxOf_inj hmem).1 (Nat.le_antisymm hab hba)

/-! ## 2. The scan -/

end Graph

namespace Node

/-- The node names the event it listens to. -/
def ListensTo (n : Node) (event : String) : Prop := n.setting? eventSetting = some (.string event)

instance (n : Node) (event : String) : Decidable (n.ListensTo event) :=
  inferInstanceAs (Decidable (_ = _))

/-- The node names the zone it listens to, and no other phase than the given one: if its phase is
missing, not a text or not the name of a phase, it listens to all of them. -/
def ListensIn (n : Node) (zone : String) (phase : Activation) : Prop :=
  n.setting? zoneSetting = some (.string zone) ∧
    ∀ other : Activation, n.setting? activationSetting = some (.string other.name) → other = phase

instance (n : Node) (zone : String) (phase : Activation) : Decidable (n.ListensIn zone phase) :=
  have : Decidable (∀ other : Activation,
      n.setting? activationSetting = some (.string other.name) → other = phase) :=
    decidable_of_iff (∀ other ∈ [Activation.enter, .stay, .exit],
      n.setting? activationSetting = some (.string other.name) → other = phase)
      ⟨fun h other => h other (by cases other <;> decide), fun h other _ => h other⟩
  inferInstanceAs (Decidable (_ ∧ _))

end Node

/-- The index has the listener answer a movement in a zone. -/
def ZoneListener.hears (l : ZoneListener) (zone : String) (phase : Activation) : Bool :=
  l.zone = zone && l.activation?.all (· = phase)

namespace Graph

variable {g : Graph}

/-- The entries of a kind that pass a test, in the order in which entries run. -/
def scan (g : Graph) (kind : EntryKind) (P : Node → Prop) [DecidablePred P] : List NodeId :=
  (g.entryNodes [kind]).filter fun id => (g.node? id).any fun n => decide (P n)

theorem entryNodes_singleton (g : Graph) (kind : EntryKind) :
    g.entryNodes [kind] = (sortBy entryLe (g.nodesOfKind kind)).map Node.id := by
  have hkind : (fun n : Node => n.category.entryKind?.any ([kind].contains ·)) =
      fun n => decide (n.category = .entry kind) := by
    funext n
    cases n.category <;> simp [Category.entryKind?]
  unfold entryNodes nodesOfKind
  rw [hkind]

section Scan

variable {kind : EntryKind} {P : Node → Prop} [DecidablePred P]

/-- It does not matter whether the test comes before the sorting. -/
theorem scan_eq (hkey : ∀ id n, g.node? id = some n → n.id = id) :
    g.scan kind P =
      (sortBy entryLe ((g.nodesOfKind kind).filter fun n => decide (P n))).map Node.id := by
  rw [sortBy_filter entryLe_trans entryLe_total, scan, entryNodes_singleton, List.filter_map]
  refine congrArg (List.map Node.id) (List.filter_congr fun n hn => ?_)
  have hvalue : n ∈ g.nodes.values := List.mem_of_mem_filter ((mem_sortBy entryLe _ n).1 hn)
  simp only [Function.comp_apply, node?_of_mem_values hkey hvalue, Option.any_some]

/-- A scan is part of the order of more kinds. -/
theorem scan_sublist (hkey : ∀ id n, g.node? id = some n → n.id = id) {kinds : List EntryKind}
    (hkind : kind ∈ kinds) : (g.scan kind P).Sublist (g.entryNodes kinds) := by
  have hselected : (g.nodesOfKind kind).filter (fun n => decide (P n)) =
      (g.nodes.values.filter fun n => n.category.entryKind?.any (kinds.contains ·)).filter
        fun n => decide (n.category = .entry kind) && decide (P n) := by
    rw [nodesOfKind, List.filter_filter, List.filter_filter]
    refine List.filter_congr fun n _ => ?_
    by_cases hn : n.category = .entry kind
    · simp [hn, Category.entryKind?, hkind]
    · simp [hn]
  rw [scan_eq hkey, hselected, sortBy_filter entryLe_trans entryLe_total]
  exact List.filter_sublist.map Node.id

theorem nodup_scan (hkey : ∀ id n, g.node? id = some n → n.id = id) : (g.scan kind P).Nodup :=
  (nodup_entryNodes_of_nodeKey hkey [kind]).filter _

theorem scan_perm (hkey : ∀ id n, g.node? id = some n → n.id = id) :
    (((g.nodesOfKind kind).filter fun n => decide (P n)).map Node.id).Perm (g.scan kind P) := by
  rw [scan_eq hkey]
  exact ((sortBy_perm entryLe _).map Node.id).symm

/-- **Listed in any order and sorted by place, the entries that pass a test are
those of the scan.** -/
theorem sortBy_listenerLe_eq_scan (hkey : ∀ id n, g.node? id = some n → n.id = id)
    {kinds : List EntryKind} (hkind : kind ∈ kinds) :
    sortBy (listenerLe (g.entryNodes kinds))
      (((g.nodesOfKind kind).filter fun n => decide (P n)).map Node.id) = g.scan kind P :=
  sortBy_listenerLe (nodup_entryNodes_of_nodeKey hkey kinds) (scan_sublist hkey hkind)
    (scan_perm hkey)

end Scan

/-! ## 3. The index -/

/-- Grouping by name keeps the order of listing. -/
theorem getD_foldl_addListener (name : String) (named : List (String × NodeId))
    (m : OrderedMap String (List NodeId)) :
    ((named.foldl addListener m).get? name).getD [] =
      (m.get? name).getD [] ++ (named.filter (·.1 = name)).map Prod.snd := by
  induction named generalizing m with
  | nil => simp
  | cons e named ih =>
    rw [List.foldl_cons, ih, addListener, OrderedMap.get?_insert]
    by_cases he : name = e.1
    · subst he
      simp
    · simp [he, Ne.symm he]

theorem textSetting?_eq_some {n : Node} {key text : String} :
    n.textSetting? key = some text ↔ n.setting? key = some (.string text) := by
  unfold Node.textSetting?
  cases n.setting? key with
  | none => simp
  | some v => cases v <;> simp [Value.asString?]

theorem eventName?_eq_some {n : Node} {name : String} :
    n.eventName? = some name ↔ n.ListensTo name :=
  textSetting?_eq_some

/-- What is grouped under a name are the nodes that listen to it. -/
theorem grouped_eq (name : String) (ns : List Node) :
    ((ns.filterMap fun n => n.eventName?.map (·, n.id)).filter (·.1 = name)).map Prod.snd =
      (ns.filter fun n => decide (n.ListensTo name)).map Node.id := by
  refine map_filter_filterMap (fun n hn => ?_) (fun n e he => ?_) ns
  · have hname : n.eventName? = none := Option.map_eq_none_iff.1 hn
    rw [decide_eq_false_iff_not, ← eventName?_eq_some, hname]
    exact nofun
  · obtain ⟨own, hown, rfl⟩ := Option.map_eq_some_iff.1 he
    rw [decide_eq_decide, ← eventName?_eq_some, hown, Option.some.injEq]
    exact ⟨Iff.rfl, rfl⟩

/-- **An event is routed to the entries that the scan finds.** -/
theorem forEvent_listeners (hkey : ∀ id n, g.node? id = some n → n.id = id) (name : String) :
    g.listeners.forEvent name = g.scan .event (·.ListensTo name) := by
  have hgroup := getD_foldl_addListener name
    ((g.nodesOfKind .event).filterMap fun n => n.eventName?.map (·, n.id)) .empty
  rw [grouped_eq] at hgroup
  calc g.listeners.forEvent name
      = sortBy (listenerLe (g.entryNodes [.event, .zoneEvent])) ((((g.nodesOfKind .event).filterMap
          fun n => n.eventName?.map (·, n.id)).foldl addListener .empty).get? name |>.getD []) := by
        rw [Listeners.forEvent, listeners]
        simp only [OrderedMap.get?_map]
        cases OrderedMap.get? _ name <;> rfl
    _ = sortBy (listenerLe (g.entryNodes [.event, .zoneEvent]))
          (((g.nodesOfKind .event).filter fun n => decide (n.ListensTo name)).map Node.id) :=
        congrArg _ hgroup
    _ = g.scan .event (·.ListensTo name) := sortBy_listenerLe_eq_scan hkey (by decide)

theorem ofName?_eq_some {text : String} {phase : Activation} :
    Activation.ofName? text = some phase ↔ text = phase.name := by
  constructor
  · intro h
    have hname := List.find?_some h
    exact (of_decide_eq_true hname).symm
  · rintro rfl
    cases phase <;> decide

theorem phase_eq_some {n : Node} {phase : Activation} :
    (n.textSetting? activationSetting).bind Activation.ofName? = some phase ↔
      n.setting? activationSetting = some (.string phase.name) := by
  simp only [Option.bind_eq_some_iff, textSetting?_eq_some, ofName?_eq_some]
  exact ⟨fun ⟨_, htext, hname⟩ => hname ▸ htext, fun h => ⟨_, h, rfl⟩⟩

/-- What is listed for a zone and a phase are the nodes that listen there. -/
theorem listed_eq (zone : String) (phase : Activation) (ns : List Node) :
    ((ns.filterMap Node.zoneListener?).filter (·.hears zone phase)).map ZoneListener.node =
      (ns.filter fun n => decide (n.ListensIn zone phase)).map Node.id := by
  refine map_filter_filterMap (fun n hn => ?_) (fun n l hl => ?_) ns
  · have hzone : n.textSetting? zoneSetting = none := Option.map_eq_none_iff.1 hn
    rw [decide_eq_false_iff_not, Node.ListensIn, ← textSetting?_eq_some, hzone]
    exact fun h => nomatch h.1
  · obtain ⟨own, hown, rfl⟩ := Option.map_eq_some_iff.1 hl
    refine ⟨?_, rfl⟩
    have hzone : own = zone ↔ n.setting? zoneSetting = some (.string zone) := by
      rw [← textSetting?_eq_some, hown, Option.some.injEq]
    have hphase :
        ((n.textSetting? activationSetting).bind Activation.ofName?).all (· = phase) = true ↔
          ∀ other : Activation, n.setting? activationSetting = some (.string other.name) →
            other = phase := by
      simp only [← phase_eq_some]
      cases (n.textSetting? activationSetting).bind Activation.ofName? <;> simp
    rw [ZoneListener.hears, Bool.eq_iff_iff, decide_eq_true_iff, Bool.and_eq_true,
      decide_eq_true_iff, Node.ListensIn, hzone, hphase]

/-- **A movement in a zone is routed to the entries that the scan finds.** -/
theorem forZone_listeners (hkey : ∀ id n, g.node? id = some n → n.id = id) (zone : String)
    (phase : Activation) :
    g.listeners.forZone zone phase = g.scan .zoneEvent (·.ListensIn zone phase) := by
  let order := g.entryNodes [.event, .zoneEvent]
  let listed := (g.nodesOfKind .zoneEvent).filterMap Node.zoneListener?
  have hmap : ∀ l : List ZoneListener, sortBy (listenerLe order) (l.map ZoneListener.node) =
      (sortBy (fun a b => listenerLe order a.node b.node) l).map ZoneListener.node :=
    map_sortBy ZoneListener.node fun _ _ => rfl
  calc g.listeners.forZone zone phase
      = ((sortBy (fun a b => listenerLe order a.node b.node) listed).filter
          (·.hears zone phase)).map ZoneListener.node := rfl
    _ = sortBy (listenerLe order) ((listed.filter (·.hears zone phase)).map ZoneListener.node) := by
        rw [hmap, sortBy_filter (fun a b c => listenerLe_trans order a.node b.node c.node)
          fun a b => listenerLe_total order a.node b.node]
    _ = sortBy (listenerLe order)
          (((g.nodesOfKind .zoneEvent).filter fun n => decide (n.ListensIn zone phase)).map
            Node.id) :=
        congrArg _ (listed_eq zone phase _)
    _ = g.scan .zoneEvent (·.ListensIn zone phase) := sortBy_listenerLe_eq_scan hkey (by decide)

theorem nodesOfKind_bare (g : Graph) (kind : EntryKind) :
    g.bare.nodesOfKind kind = (g.nodesOfKind kind).map Node.bare := by
  have hvalues : g.bare.nodes.values = g.nodes.values.map Node.bare := OrderedMap.values_map _ _
  rw [nodesOfKind, hvalues, List.filter_map]
  rfl

/-- **The index reads nothing that a call writes.** -/
theorem listeners_bare (g : Graph) : g.bare.listeners = g.listeners := by
  have hevent : (fun n : Node => n.bare.eventName?.map (·, n.bare.id)) =
    fun n => n.eventName?.map (·, n.id) := rfl
  have hzone : (fun n : Node => n.bare.zoneListener?) = Node.zoneListener? := rfl
  unfold listeners
  simp only [nodesOfKind_bare, entryNodes_bare, List.filterMap_map, List.isEmpty_map,
    Function.comp_def, hevent, hzone]
  rfl

theorem listeners_eq_of_bare {g g' : Graph} (h : g'.bare = g.bare) :
    g'.listeners = g.listeners := by
  rw [← listeners_bare, h, listeners_bare]

end Graph

/-! ## 4. What may be done with an instance -/

/-- What may be done with an instance: a call of the host, a question about what it listens to, or a
request to its processor, edits included. -/
inductive Use
  | call (c : HostCall)
  | ask
  | request (r : Request)

namespace Use

variable {σ : Type u} [Behaves σ]

/-- The instance after a use, failing or not. -/
def make (i : Instance σ) : Use → Instance σ
  | call c => c.perform i
  | ask => i.refresh.1
  | request r => { i with processor := r.serve i.processor }

/-- The instance after a list of uses. -/
def makeAll (i : Instance σ) (uses : List Use) : Instance σ := uses.foldl make i

end Use

namespace Instance

variable {σ : Type u}

/-- The index is not from a later revision, and if it is from this one, it is
the index of this graph. -/
structure Indexed (i : Instance σ) : Prop where
  nodeKey : ∀ id n, i.processor.graph.node? id = some n → n.id = id
  le : ∀ r, i.listeners.revision? = some r → r ≤ i.processor.graph.revision
  index : i.listeners.revision? = some i.processor.graph.revision →
    i.listeners = i.processor.graph.listeners

namespace Indexed

variable {i : Instance σ}

theorem new {p : Processor σ} (h : ∀ id n, p.graph.node? id = some n → n.id = id) :
    (Instance.new p).Indexed := ⟨h, nofun, nofun⟩

/-- Slots and ranks may change. -/
theorem withProcessor (h : i.Indexed) {q : Processor σ}
    (hbare : q.graph.bare = i.processor.graph.bare) : Indexed { i with processor := q } := by
  have hrevision := Processor.revision_eq_of_bare hbare
  refine ⟨Processor.nodeKey_of_bare hbare h.nodeKey, fun r hr => ?_, fun hr => ?_⟩
  · exact (h.le r hr).trans hrevision.ge
  · exact (h.index (hr.trans (congrArg some hrevision))).trans
      (Graph.listeners_eq_of_bare hbare).symm

/-- An edit that does anything outdates the index. -/
theorem edit (h : i.Indexed) (e : Edit) :
    Indexed { i with processor := { i.processor with graph := e.run i.processor.graph } } := by
  rcases Edit.run_cases i.processor.graph e with hsame | ⟨hrevision, hnodes⟩
  · rw [hsame]
    exact h
  · refine ⟨fun id n hn => (hnodes id n hn).elim (h.nodeKey id n) And.right, fun r hr => ?_,
      fun hr => ?_⟩
    · have hle := h.le r hr
      simp only [hrevision]
      omega
    · have hle := h.le _ hr
      simp only [hrevision] at hle
      omega

/-- **A refreshed index is that of the graph**, whether it was built anew or not. -/
theorem refresh (h : i.Indexed) :
    i.refresh.1.Indexed ∧ i.refresh.1.listeners = i.processor.graph.listeners := by
  unfold Instance.refresh
  simp only
  split
  · next hcurrent => exact ⟨h, h.index hcurrent⟩
  · exact ⟨⟨h.nodeKey, fun r hr => (Option.some.inj hr).ge, fun _ => rfl⟩, rfl⟩

variable [Behaves σ]

theorem call (h : i.Indexed) (c : Call) :
    Indexed { i with processor := (c.perform i.processor).state } :=
  h.withProcessor (Processor.perform_undisturbed i.processor c).bare

theorem writePayload (h : i.Indexed) (ids : List NodeId) (v : Value) :
    (i.writePayload ids v).Indexed := by
  induction ids generalizing i with
  | nil => exact h
  | cons id ids ih => exact ih (h.call (.setOutput id Library.payloadSlot v))

theorem runWithPayload (h : i.Indexed) (events : List Event) (kind : EntryKind) (v : Value) :
    (i.runWithPayload events kind v).state.Indexed :=
  (h.writePayload (i.processor.graph.entryNodes [kind]) v).call (.run kind)

theorem deliver (h : i.Indexed) (m : Message) : (i.deliver m).state.Indexed := by
  have hrefreshed := h.refresh.1
  unfold Instance.deliver
  generalize i.refresh = refreshed at hrefreshed
  obtain ⟨i', events⟩ := refreshed
  cases m with
  | triggerEntered other => exact hrefreshed.runWithPayload events .triggerEntered (.entity other)
  | triggerExited other => exact hrefreshed.runWithPayload events .triggerExited (.entity other)
  | collisionEntered other =>
    simp only
    split
    · exact hrefreshed.runWithPayload events .collision (.entity other)
    · exact hrefreshed
  | event name payload =>
    simp only
    split
    · exact hrefreshed
    · cases payload with
      | none => exact hrefreshed.call (.runFrom (i'.listeners.forEvent name) .event)
      | some v =>
        exact (hrefreshed.writePayload (i'.listeners.forEvent name) v).call
          (.runFrom (i'.listeners.forEvent name) .event)
  | zone zone activation other =>
    simp only
    split
    · exact hrefreshed
    · exact (hrefreshed.writePayload (i'.listeners.forZone zone activation) (.entity other)).call
        (.runFrom (i'.listeners.forZone zone activation) .zoneEvent)

theorem init (h : i.Indexed) : i.init.state.Indexed := by
  have hready := h.withProcessor (q := i.processor.reset.1.ensureReady.state)
    ((Processor.ensureReady_prepared _).1.bare.trans (Graph.bare_clearValues _))
  unfold Instance.init
  simp only
  split
  · exact hready
  · exact (new hready.nodeKey).refresh.1

theorem runUpdate (h : i.Indexed) (delta : Single) : (i.runUpdate delta).state.Indexed := by
  have hresumed := (h.call (.advance delta)).call .runPaused
  unfold Instance.runUpdate
  simp only
  split
  · exact hresumed
  · exact hresumed.call (.run .update)

theorem request (h : i.Indexed) (r : Request) :
    Indexed { i with processor := r.serve i.processor } := by
  cases r with
  | call c => exact h.call c
  | edit e => exact h.edit e
  | reset => exact h.withProcessor (Graph.bare_clearValues _)
  | setKinds kinds => exact h.withProcessor rfl
  | reschedule => exact h.withProcessor (Graph.bare_schedule _ _ _)
  | ensureReady => exact h.withProcessor (Processor.ensureReady_prepared i.processor).1.bare

/-- **Every use keeps the index reliable.** -/
theorem make (h : i.Indexed) (u : Use) : (u.make i).Indexed := by
  cases u with
  | call c =>
    cases c with
    | init => exact h.init
    | runStart => exact h.call (.run .start)
    | runUpdate delta => exact h.runUpdate delta
    | deliver m => exact h.deliver m
  | ask => exact h.refresh.1
  | request r => exact h.request r

theorem makeAll (h : i.Indexed) (uses : List Use) : (Use.makeAll i uses).Indexed := by
  induction uses generalizing i with
  | nil => exact h
  | cons u uses ih => exact ih (h.make u)

end Indexed

end Instance

/-! ## 5. What a delivery comes to -/

theorem Node.setOutput_setOutput (n : Node) (slot : Nat) (v : Value) :
    (n.setOutput slot v).setOutput slot v = n.setOutput slot v := by
  have houtputs : ((n.setOutput slot v).setOutput slot v).outputs =
      (n.setOutput slot v).outputs := by
    refine List.ext_getElem? fun k => ?_
    simp only [setOutput, List.getElem?_modify]
    cases n.outputs[k]? with
    | none => rfl
    | some p => by_cases hk : slot = k <;> simp [hk]
  exact congrArg (fun l => { n with outputs := l }) houtputs

/-- A slot that the node has holds what is written there. -/
theorem Node.value?_setOutput {n : Node} {slot : Nat} {v : Value} {p : Port}
    (h : (n.setOutput slot v).outputs[slot]? = some p) : p.value? = some v := by
  simp only [setOutput, List.getElem?_modify, if_true] at h
  obtain ⟨p', -, rfl⟩ := Option.map_eq_some_iff.1 h
  rfl

namespace Processor

variable {σ : Type u}

/-- A processor after a payload, if there is one, was written for some nodes.  Each of them that has
a payload slot holds it there, and nothing else has changed. -/
structure Primed (p q : Processor σ) (ids : List NodeId) (v? : Option Value) : Prop where
  rest : q = { p with graph := q.graph }
  shape : q.graph.clearValues = p.graph.clearValues
  payload : ∀ v ∈ v?, ∀ id ∈ ids, ∀ n ∈ q.graph.node? id, ∀ port ∈ n.outputs[Library.payloadSlot]?,
    port.value? = some v
  nodes : ∀ id, q.graph.node? id = (p.graph.node? id).map fun n =>
    if id ∈ ids then v?.elim n (n.setOutput Library.payloadSlot) else n

theorem Primed.none (p : Processor σ) (ids : List NodeId) : Primed p p ids none where
  rest := rfl
  shape := rfl
  payload := nofun
  nodes id := by simp

theorem node?_setOutput (p : Processor σ) (id : NodeId) (slot : Nat) (v : Value) (k : NodeId) :
    (p.setOutput id slot v).graph.node? k =
      (p.graph.node? k).map fun n => if k = id then n.setOutput slot v else n := by
  rw [setOutput, Graph.modifyNode_eq_touch, Graph.node?_touch]

end Processor

namespace Instance

variable {σ : Type u}

/-- What is written as a payload is written once, however often the node is listed. -/
theorem node?_writePayload (i : Instance σ) (ids : List NodeId) (v : Value) (k : NodeId) :
    (i.writePayload ids v).processor.graph.node? k = (i.processor.graph.node? k).map fun n =>
      if k ∈ ids then n.setOutput Library.payloadSlot v else n := by
  induction ids generalizing i with
  | nil => simp [writePayload]
  | cons id ids ih =>
    have hstep := ih { i with processor := i.processor.setOutput id Library.payloadSlot v }
    rw [Processor.node?_setOutput, Option.map_map] at hstep
    refine hstep.trans (congrArg (Option.map · _) (funext fun n => ?_))
    by_cases hid : k = id <;> by_cases hmem : k ∈ ids <;> simp [hid, hmem, Node.setOutput_setOutput]

/-- Writing a payload touches nothing but slots. -/
theorem writePayload_rest (i : Instance σ) (ids : List NodeId) (v : Value) :
    (i.writePayload ids v).processor =
        { i.processor with graph := (i.writePayload ids v).processor.graph } ∧
      (i.writePayload ids v).processor.graph.clearValues = i.processor.graph.clearValues := by
  induction ids generalizing i with
  | nil => exact ⟨rfl, rfl⟩
  | cons id ids ih =>
    obtain ⟨hrest, hshape⟩ :=
      ih { i with processor := i.processor.setOutput id Library.payloadSlot v }
    exact ⟨hrest, hshape.trans (Graph.clearValues_modifyNode i.processor.graph fun n _ =>
      Node.clearValues_setOutput n Library.payloadSlot v)⟩

theorem primed_writePayload (i : Instance σ) (ids : List NodeId) (v : Value) :
    i.processor.Primed (i.writePayload ids v).processor ids (some v) where
  rest := (writePayload_rest i ids v).1
  shape := (writePayload_rest i ids v).2
  payload := by
    rintro _ ⟨⟩ id hid n hn port hport
    rw [Option.mem_def, node?_writePayload] at hn
    obtain ⟨m, -, rfl⟩ := Option.map_eq_some_iff.1 hn
    rw [if_pos hid] at hport
    exact Node.value?_setOutput hport
  nodes := node?_writePayload i ids v

theorem refresh_told (i : Instance σ) : ∀ e ∈ i.refresh.2, ∃ n, e = Event.notice n := by
  unfold refresh
  simp only
  split
  · exact nofun
  · intro e he
    obtain ⟨n, -, rfl⟩ := List.mem_map.1 he
    exact ⟨n, rfl⟩

variable [Behaves σ]

/-- What becomes of a message that is for some entries of a kind.  If there are none, nothing
happens.  If there are, the processor walks from them, in that order, after the payload was written;
all that comes before is told in notices. -/
structure Routes (i : Instance σ) (m : Message) (kind : EntryKind) (seeds : List NodeId)
    (payload? : Option Value) : Prop where
  nodup : seeds.Nodup
  silent : seeds = [] →
    (i.deliver m).state.processor = i.processor ∧ (i.deliver m).result = .ok .finished
  walked : seeds ≠ [] → ∃ q told, i.processor.Primed q seeds payload? ∧
    (∀ e ∈ told, ∃ n, e = Event.notice n) ∧
    (i.deliver m).state.processor = (q.runFrom seeds kind).state ∧
    (i.deliver m).events = told ++ (q.runFrom seeds kind).events ∧
    (i.deliver m).result = (q.runFrom seeds kind).result

/-- Both kinds of messages are delivered alike: `j` is the refreshed instance with the payload. -/
theorem Routes.of_deliver {i j : Instance σ} {m : Message} {kind : EntryKind} {seeds : List NodeId}
    {payload? : Option Value} {told : List Event} (nodup : seeds.Nodup)
    (hprimed : i.refresh.1.processor.Primed j.processor seeds payload?)
    (h : i.deliver m = if seeds.isEmpty then ⟨i.refresh.1, told, .ok .finished⟩
      else j.after i.refresh.2 (j.processor.runFrom seeds kind)) :
    i.Routes m kind seeds payload? := by
  rw [i.refresh_processor] at hprimed
  refine ⟨nodup, ?_, ?_⟩
  · rintro rfl
    rw [h]
    exact ⟨i.refresh_processor, rfl⟩
  · intro hseeds
    rw [if_neg (by simpa using hseeds)] at h
    rw [h]
    exact ⟨j.processor, i.refresh.2, hprimed, i.refresh_told, rfl, rfl, rfl⟩

theorem Indexed.routes_event {i : Instance σ} (h : i.Indexed) (name : String)
    (payload : Option Value) :
    i.Routes (.event name payload) .event (i.processor.graph.scan .event (·.ListensTo name))
      payload := by
  have hnodup : (i.processor.graph.scan .event (·.ListensTo name)).Nodup :=
    Graph.nodup_scan h.nodeKey
  rw [← Graph.forEvent_listeners h.nodeKey, ← h.refresh.2] at hnodup ⊢
  cases payload with
  | none => exact .of_deliver (j := i.refresh.1) hnodup (.none _ _) rfl
  | some v => exact .of_deliver hnodup (primed_writePayload _ _ v) rfl

theorem Indexed.routes_zone {i : Instance σ} (h : i.Indexed) (zone : String) (phase : Activation)
    (other : UInt64) : i.Routes (.zone zone phase other) .zoneEvent
      (i.processor.graph.scan .zoneEvent (·.ListensIn zone phase)) (some (.entity other)) := by
  have hnodup : (i.processor.graph.scan .zoneEvent (·.ListensIn zone phase)).Nodup :=
    Graph.nodup_scan h.nodeKey
  rw [← Graph.forZone_listeners h.nodeKey, ← h.refresh.2] at hnodup ⊢
  exact .of_deliver hnodup (primed_writePayload _ _ (.entity other)) rfl

end Instance

/-! ## 6. The law -/

/-- **Messages reach the entries that a scan of the graph finds.**  Take a new instance on any built
graph and do with it whatever a host may do: deliver messages, start and update the script, ask what
it listens to, call the processor and edit the graph, failing or not.  Then an event goes to the
event entries that name it, and a movement in a zone to the zone entries that name the zone and no
other phase: each of them once, in the order in which entries run, after the payload was written
into the payload slots of those that have one.  If there is no such entry, the processor is left as
it was and the answer is that all is finished. -/
theorem messages_reach_their_listeners {σ : Type u} [Behaves σ] (g : Graph) (built : g.Built)
    (r : Registry σ) (settings : Settings) (told : List Event) (p : Processor σ)
    (fresh : Processor.new g r settings = (told, .ok p)) (uses : List Use) :
    let i := Use.makeAll (.new p) uses
    (∀ name payload,
      i.Routes (.event name payload) .event (i.processor.graph.scan .event (·.ListensTo name))
        payload) ∧
    ∀ zone phase other,
      i.Routes (.zone zone phase other) .zoneEvent
        (i.processor.graph.scan .zoneEvent (·.ListensIn zone phase)) (some (.entity other)) := by
  intro i
  have hkey : ∀ id n, p.graph.node? id = some n → n.id = id :=
    (Processor.Synced.new built.intact fresh).nodeKey
  have hindexed : i.Indexed := (Instance.Indexed.new hkey).makeAll uses
  exact ⟨hindexed.routes_event, hindexed.routes_zone⟩

/-- A node of the hall that listens to events. -/
def hallEvent (k : Nat) : Node :=
  exampleNode k (Library.entryType Library.onEvent "On Event" .event "" (some ("Payload", .any)))

/-- A node of the hall that listens to a zone, with a setting for its phase. -/
def hallZone (k : Nat) (phase : Value) : Node :=
  ((exampleNode k (Library.entryType Library.onZoneEvent "On Zone Event" .zoneEvent ""
    (some ("Entity", .entity)))).withSetting zoneSetting
      (.string "hall")).withSetting activationSetting phase

/-- Two nodes listen to the same event, the lower one first; one names no event and one
names it badly.  Three nodes listen to the same zone, to one phase, to another, and to a
phase that does not exist. -/
def hallEdits : List Edit :=
  [ .addNode (((hallEvent 0).withSetting eventSetting (.string "open")).withPosition .zero .one),
    .addNode ((hallEvent 1).withSetting eventSetting (.string "open")),
    .addNode (hallEvent 2),
    .addNode ((hallEvent 3).withSetting eventSetting (.bool true)),
    .addNode (hallZone 4 (.string "Enter")),
    .addNode (hallZone 5 (.string "Stay")),
    .addNode ((hallZone 6 (.string "Sideways")).withPosition .zero .one) ]

def hallGraph : Graph := Edit.runAll (.empty "hall") hallEdits

theorem hallGraph_built : hallGraph.Built :=
  (Graph.Built.empty "hall").runAll hallEdits (by decide +kernel)

def hallProcessor : Processor Library.Behavior :=
  { exampleProcessor with
    graph := hallGraph
    table := (Table.sync .empty Library.registry hallGraph).1
    boundAt := hallGraph.revision }

theorem hallProcessor_new :
    ∃ told, Processor.new hallGraph Library.registry exampleProcessor.settings =
      (told, .ok hallProcessor) := by
  have hok : (Table.sync .empty Library.registry hallGraph).2.2 = .ok () := by decide +kernel
  unfold Processor.new
  simp only [hok]
  exact ⟨_, rfl⟩

/-- The hall is asked what it listens to, and then another listener is added between the two that
there were.  The next message finds all three, from top to bottom. -/
theorem hall_messages_reach_their_listeners :
    let uses := [.ask, .request (.edit (.addNode
      (((hallEvent 7).withSetting eventSetting (.string "open")).withPosition .one .zero)))]
    let i := Use.makeAll (.new hallProcessor) uses
    (Use.makeAll (.new hallProcessor) [.ask]).listeners.forEvent "open" =
      [exampleId 1, exampleId 0] ∧
    i.Routes (.event "open" (some (.bool true))) .event [exampleId 1, exampleId 7, exampleId 0]
      (some (.bool true)) ∧
    i.Routes (.event "close" none) .event [] none ∧
    i.Routes (.zone "hall" .stay 9) .zoneEvent [exampleId 5, exampleId 6] (some (.entity 9)) := by
  intro uses i
  obtain ⟨told, fresh⟩ := hallProcessor_new
  obtain ⟨hevent, hzone⟩ := messages_reach_their_listeners hallGraph hallGraph_built
    Library.registry exampleProcessor.settings told hallProcessor fresh uses
  have hopen : i.processor.graph.scan .event (·.ListensTo "open") =
      [exampleId 1, exampleId 7, exampleId 0] := by decide +kernel
  have hclose : i.processor.graph.scan .event (·.ListensTo "close") = [] := by decide +kernel
  have hhall : i.processor.graph.scan .zoneEvent (·.ListensIn "hall" .stay) =
      [exampleId 5, exampleId 6] := by decide +kernel
  exact ⟨by decide +kernel, hopen ▸ hevent "open" _, hclose ▸ hevent "close" _,
    hhall ▸ hzone "hall" .stay 9⟩

end FlowScript
