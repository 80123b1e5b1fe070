/-
# A failed binding leaves no trace

Bringing a processor up to date fails while a node of the graph cannot be bound.  By then the table
has been changed: the behaviors of nodes that are gone have been dropped, and the nodes in front of
the one that cannot be bound have got theirs.  This module proves that nobody can tell afterwards,
however often it is tried and whatever is edited in between (`failed_bind_leaves_no_trace`).

The argument is about what a node has coming (`Processor.upcoming`): the behavior that it is bound
to, or else the one that it would be bound to.

* Whether binding fails, and for which node, depends on the graph and on what its nodes have coming
  (`Synced.result_ensureReady`).
* Binding does not change what a node has coming, and where it succeeds every node has got it
  (`upcoming_sync`, `Synced.get?_ensureReady`).
* An edit does not change it either, as long as a node that is added is bound in neither of two
  processors.  This is why no name may be used twice (`Double.edit`).
-/
import FlowScript.Proofs.Rearranged
import FlowScript.Proofs.Restart
import FlowScript.Proofs.Survival
import Mathlib.Data.List.Find

namespace FlowScript

universe u

/-! ## 1. When binding fails -/

namespace Table

variable {σ : Type u} {r : Registry σ} {t : Table σ}

/-- The node has no behavior, and its type is not registered. -/
def lacks (t : Table σ) (r : Registry σ) (n : Node) : Bool :=
  (t.get? n.id).isNone && (r.get? n.type).isNone

/-- The failure to bind a node. -/
def failureAt (n? : Option Node) : Except BindError Unit :=
  n?.elim (.ok ()) fun n => .error (.unknownNodeType n.id n.type)

theorem failureAt_eq_error_iff {n? : Option Node} :
    (∃ e, failureAt n? = .error e) ↔ n?.isSome = true := by
  cases n? with
  | none =>
    constructor
    · rintro ⟨e, he⟩
      cases he
    · intro h
      cases h
  | some n => exact ⟨fun _ => rfl, fun _ => ⟨_, rfl⟩⟩

theorem lacks_congr {t' : Table σ} {n : Node} (h : t'.get? n.id = t.get? n.id) :
    t'.lacks r n = t.lacks r n := by
  rw [lacks, lacks, h]

/-- **Binding fails for the first node that has no behavior and whose type is not registered.** -/
theorem bindMissing_fails {ns : List Node} (hnodup : (ns.map Node.id).Nodup) :
    (bindMissing r ns t).2.2 = failureAt (ns.find? (t.lacks r)) := by
  induction ns generalizing t with
  | nil => rfl
  | cons n ns ih =>
    rw [List.map_cons, List.nodup_cons] at hnodup
    unfold bindMissing
    split
    · next hbound =>
      have hsome : (t.get? n.id).isSome = true := hbound
      have hn : ¬ t.lacks r n = true := by
        rw [lacks, ← Option.not_isSome, hsome]
        exact Bool.false_ne_true
      rw [List.find?_cons_of_neg hn]
      exact ih hnodup.2
    · next hfree =>
      have hnone : t.get? n.id = none := Option.not_isSome_iff_eq_none.1 hfree
      cases htype : r.entries.get? n.type with
      | none =>
        have hn : t.lacks r n = true := by rw [lacks, hnone, Registry.get?, htype]; rfl
        rw [Registry.bind, htype, List.find?_cons_of_pos hn]
        rfl
      | some e =>
        have hn : ¬ t.lacks r n = true := by
          rw [lacks, hnone, Registry.get?, htype]
          exact Bool.false_ne_true
        rw [Registry.bind, htype, List.find?_cons_of_neg hn]
        -- the other nodes have other names
        refine (ih hnodup.2).trans
          (congrArg failureAt (List.find?_congr fun m hm => lacks_congr ?_))
        rw [OrderedMap.get?_insert, if_neg]
        exact fun hid => hnodup.1 (hid ▸ List.mem_map_of_mem hm)

variable {g : Graph}

theorem sync_fails (hkey : ∀ id n, g.node? id = some n → n.id = id) :
    (t.sync r g).2.2 = failureAt (g.nodes.values.find? (t.lacks r)) := by
  have hnodup : (g.nodes.values.map Node.id).Nodup := by
    rw [Graph.map_id_values_of_nodeKey hkey]
    exact g.nodes.keys_nodup
  refine (bindMissing_fails hnodup).trans
    (congrArg failureAt (List.find?_congr fun n hn => lacks_congr ?_))
  exact get?_kept_of_isSome (Option.isSome_of_eq_some (Graph.node?_of_mem_values hkey hn))

end Table

namespace Processor

variable {σ : Type u} {p : Processor σ}

/-- The first node of the graph that has no behavior and cannot be bound to one. -/
def unbindable? (p : Processor σ) : Option Node :=
  p.graph.nodes.values.find? (p.table.lacks p.registry)

theorem unbindable?_isSome_iff (hkey : ∀ id n, p.graph.node? id = some n → n.id = id) :
    p.unbindable?.isSome = true ↔
      ∃ id n, p.graph.node? id = some n ∧ p.table.get? id = none ∧
        p.registry.get? n.type = none := by
  rw [unbindable?, List.find?_isSome]
  constructor
  · rintro ⟨n, hn, hlacks⟩
    rw [Table.lacks, Bool.and_eq_true, Option.isNone_iff_eq_none,
      Option.isNone_iff_eq_none] at hlacks
    exact ⟨n.id, n, Graph.node?_of_mem_values hkey hn, hlacks⟩
  · rintro ⟨id, n, hn, hfree, hunknown⟩
    obtain rfl := hkey id n hn
    refine ⟨n, (OrderedMap.mem_values_iff _ _).2 ⟨n.id, hn⟩, ?_⟩
    rw [Table.lacks, hfree, hunknown]
    rfl

theorem Synced.result_rebind (h : p.Synced) : p.rebind.result = Table.failureAt p.unbindable? := by
  unfold Processor.rebind
  split
  · next hbound =>
    -- every node is bound, so there is none that cannot be
    have hnone : p.unbindable? = none := by
      rw [unbindable?, List.find?_eq_none]
      intro n hn hlacks
      have hnode := Graph.node?_of_mem_values h.nodeKey hn
      have hkeys := (h.binds hbound n.id).2
        ((OrderedMap.get?_isSome_iff _ _).1 (Option.isSome_of_eq_some hnode))
      rw [Table.lacks, Bool.and_eq_true, Option.isNone_iff_eq_none,
        OrderedMap.get?_eq_none_iff] at hlacks
      exact hlacks.1 hkeys
    rw [hnone]
    rfl
  · have hsync := Table.sync_fails (t := p.table) (r := p.registry) h.nodeKey
    simp only
    split
    · next e he => exact he.symm.trans hsync
    · next hok => exact hok.symm.trans hsync

theorem result_ensureReady_eq (p : Processor σ) : p.ensureReady.result = p.rebind.result := by
  unfold ensureReady
  simp only
  split
  · next e he => exact he.symm
  · next hok =>
    split
    · rfl
    · exact hok.symm

/-- **Bringing a processor up to date fails for the first node that has no behavior and whose type
is not registered**, and for no other reason. -/
theorem Synced.result_ensureReady (h : p.Synced) :
    p.ensureReady.result = Table.failureAt p.unbindable? :=
  p.result_ensureReady_eq.trans h.result_rebind

/-- A failed binding changes the table, and nothing else. -/
theorem state_ensureReady_of_error {e : BindError} (h : p.ensureReady.result = .error e) :
    p.ensureReady.state = { p with table := (p.table.sync p.registry p.graph).1 } := by
  have hrebind : p.rebind.result = .error e := p.result_ensureReady_eq.symm.trans h
  have hstate : p.ensureReady.state = p.rebind.state := by
    unfold ensureReady
    simp only [hrebind]
  rw [hstate]
  unfold rebind at hrebind ⊢
  split at hrebind
  · cases hrebind
  · next hold =>
    rw [if_neg hold]
    simp only at hrebind ⊢
    split at hrebind
    · rfl
    · cases hrebind

/-! ## 2. What the nodes have coming -/

/-- A node has nothing coming exactly if it cannot be bound. -/
theorem upcoming_eq_none_iff (hkey : ∀ id n, p.graph.node? id = some n → n.id = id) {n : Node}
    (hn : n ∈ p.graph.nodes.values) :
    p.upcoming n.id = none ↔ p.table.lacks p.registry n = true := by
  rw [upcoming, Option.or_eq_none_iff, Graph.node?_of_mem_values hkey hn, Option.bind_some,
    Table.lacks, Bool.and_eq_true, Option.isNone_iff_eq_none, Option.isNone_iff_eq_none,
    Registry.get?, Option.map_eq_none_iff, Registry.bind]
  refine and_congr_right fun _ => ?_
  cases p.registry.entries.get? n.type with
  | none => exact ⟨fun _ => rfl, fun _ => rfl⟩
  | some e =>
    constructor
    · intro h
      cases h
    · intro h
      cases h

/-- **Where binding succeeds, every node has got what it had coming**, and no
other name is bound. -/
theorem Synced.get?_ensureReady (h : p.Synced) (hok : p.ensureReady.result = .ok ()) (id : NodeId) :
    p.ensureReady.state.table.get? id =
      if (p.graph.node? id).isSome then p.upcoming id else none := by
  have hbinds := (h.ensureReady.2 hok).1 id
  rw [mem_keys_iff_of_bare (ensureReady_prepared p).1.bare, ← OrderedMap.get?_isSome_iff,
    ← OrderedMap.get?_isSome_iff] at hbinds
  split
  · next hid =>
    obtain ⟨b, hb⟩ := Option.isSome_iff_exists.1 (hbinds.2 hid)
    have hkept : upcoming { p with table := p.ensureReady.state.table } id = p.upcoming id := by
      rcases p.table_ensureReady with htable | htable
      · rw [htable]
      · rw [htable]
        exact upcoming_sync h.nodeKey hid
    rw [← hkept, upcoming, hb]
    rfl
  · next hid =>
    rw [← Option.not_isSome_iff_eq_none]
    exact fun hsome => hid (hbinds.1 hsome)

end Processor

/-! ## 3. Processors that differ in their tables -/

namespace Processor

variable {σ : Type u} {a b p : Processor σ}

/-- The second processor is the first one but for its table, and the nodes have
the same behaviors coming. -/
structure Double (a b : Processor σ) : Prop where
  state : b = { a with table := b.table }
  upcoming : ∀ id, (a.graph.node? id).isSome → b.upcoming id = a.upcoming id

namespace Double

theorem refl (p : Processor σ) : Double p p := ⟨rfl, fun _ _ => rfl⟩

theorem graph (h : Double a b) : b.graph = a.graph := (congrArg Processor.graph h.state :)

theorem registry (h : Double a b) : b.registry = a.registry :=
  (congrArg Processor.registry h.state :)

/-- Both have the same node that cannot be bound, if there is one. -/
theorem unbindable?_eq (h : Double a b) (hkey : ∀ id n, a.graph.node? id = some n → n.id = id) :
    b.unbindable? = a.unbindable? := by
  unfold unbindable?
  rw [h.graph]
  refine List.find?_congr fun n hn => ?_
  have hnode := Graph.node?_of_mem_values hkey hn
  have hn' : n ∈ b.graph.nodes.values := h.graph ▸ hn
  rw [Bool.eq_iff_iff, ← upcoming_eq_none_iff hkey hn, ← upcoming_eq_none_iff (h.graph ▸ hkey) hn',
    h.upcoming n.id (Option.isSome_of_eq_some hnode)]

/-- An edit keeps doubles, if a node that it adds is bound in neither. -/
theorem edit (h : Double a b) {e : Edit}
    (hnew : ∀ id ∈ (Request.edit e).added?, a.table.get? id = none ∧ b.table.get? id = none) :
    Double { a with graph := e.run a.graph } { b with graph := e.run b.graph } :=
  ⟨congrArg (fun p : Processor σ => { p with graph := e.run p.graph }) h.state,
    fun _ => upcoming_edit h.graph h.registry h.upcoming hnew⟩

/-- A binding of the second one keeps doubles, even if it fails. -/
theorem sync (h : Double a b) (hkey : ∀ id n, b.graph.node? id = some n → n.id = id) :
    Double a { b with table := (b.table.sync b.registry b.graph).1 } := by
  refine ⟨congrArg (fun p : Processor σ => { p with table := (b.table.sync b.registry b.graph).1 })
    h.state, fun id hid => ?_⟩
  rw [upcoming_sync hkey (h.graph ▸ hid)]
  exact h.upcoming id hid

end Double

/-- Where binding again succeeds, what it does to all but the table does not depend on the table. -/
theorem rebind_withTable {t : Table σ} (hok : p.rebind.result = .ok ())
    (hok' : ({ p with table := t } : Processor σ).rebind.result = .ok ()) :
    ∃ t', ({ p with table := t } : Processor σ).rebind.state =
      { p.rebind.state with table := t' } := by
  unfold rebind at hok hok' ⊢
  by_cases hbound : p.boundAt = p.graph.revision
  · rw [if_pos hbound, if_pos hbound]
    exact ⟨t, rfl⟩
  · rw [if_neg hbound] at hok hok'
    rw [if_neg hbound, if_neg hbound]
    simp only at hok hok' ⊢
    split at hok
    · cases hok
    · split at hok'
      · cases hok'
      · exact ⟨_, rfl⟩

theorem state_ensureReady_of_ok (hok : p.ensureReady.result = .ok ()) :
    p.ensureReady.state =
      if p.rebind.state.scheduledAt = some p.rebind.state.graph.revision then p.rebind.state
      else p.rebind.state.reschedule.1 := by
  have hrebind : p.rebind.result = .ok () := p.result_ensureReady_eq.symm.trans hok
  unfold ensureReady
  simp only [hrebind]
  split <;> rfl

/-- The same of bringing a processor up to date. -/
theorem ensureReady_withTable {t : Table σ} (hok : p.ensureReady.result = .ok ())
    (hok' : ({ p with table := t } : Processor σ).ensureReady.result = .ok ()) :
    ∃ t', ({ p with table := t } : Processor σ).ensureReady.state =
      { p.ensureReady.state with table := t' } := by
  obtain ⟨t', ht'⟩ := rebind_withTable (p.result_ensureReady_eq.symm.trans hok)
    ((result_ensureReady_eq _).symm.trans hok')
  rw [state_ensureReady_of_ok hok, state_ensureReady_of_ok hok', ht']
  split
  · exact ⟨t', rfl⟩
  · exact ⟨t', rfl⟩

/-- **Doubles get ready alike**: if one of them does, so does the other, and then they differ in the
order of their tables at most. -/
theorem Double.ensureReady (h : Double a b) (ha : a.Synced) (hb : b.Synced) :
    b.ensureReady.result = a.ensureReady.result ∧
    (a.ensureReady.result = .ok () →
      b.ensureReady.state = { a.ensureReady.state with table := b.ensureReady.state.table } ∧
      b.ensureReady.state.table.entries.Perm a.ensureReady.state.table.entries) := by
  have hresult : b.ensureReady.result = a.ensureReady.result := by
    rw [ha.result_ensureReady, hb.result_ensureReady, h.unbindable?_eq ha.nodeKey]
  refine ⟨hresult, fun hok => ⟨?_, ?_⟩⟩
  · have hok' := hresult.trans hok
    rw [h.state] at hok'
    obtain ⟨t, ht⟩ := ensureReady_withTable hok hok'
    rw [← h.state] at ht
    rw [ht]
  · rw [OrderedMap.perm_entries_iff]
    intro id
    rw [ha.get?_ensureReady hok, hb.get?_ensureReady (hresult.trans hok), h.graph]
    split
    · next hid => exact h.upcoming id hid
    · rfl

/-! ### Names in use -/

/-- The marks can be relied on, and all nodes of the graph and the table have one of the names. -/
structure Named (used : List NodeId) (p : Processor σ) : Prop where
  synced : p.Synced
  nodes : ∀ id, (p.graph.node? id).isSome → id ∈ used
  table : ∀ id, (p.table.get? id).isSome → id ∈ used

namespace Named

variable {used : List NodeId} {q : Processor σ}

theorem congr (h : p.Named used) (hsynced : q.Synced) (hbare : q.graph.bare = p.graph.bare)
    (htable : ∀ id, (q.table.get? id).isSome → id ∈ used) : q.Named used := by
  refine ⟨hsynced, fun id hid => h.nodes id ?_, htable⟩
  rw [← Graph.node?_isSome_eq_of_bare hbare]
  exact hid

theorem mono {used' : List NodeId} (h : p.Named used) (hsub : ∀ id ∈ used, id ∈ used') :
    p.Named used' :=
  ⟨h.synced, fun id hid => hsub id (h.nodes id hid), fun id hid => hsub id (h.table id hid)⟩

theorem get?_eq_none (h : p.Named used) {id : NodeId} (hid : id ∉ used) : p.table.get? id = none :=
  Option.not_isSome_iff_eq_none.1 fun hsome => hid (h.table id hsome)

/-- What keeps the shape of the graph and the names in the table. -/
theorem still (h : p.Named used) (hstill : Still p q) : q.Named used := by
  refine h.congr (h.synced.still hstill) (Graph.bare_eq_of_clearValues_eq hstill.shape)
    fun id hid => ?_
  rw [OrderedMap.get?_isSome_iff, hstill.keys, ← OrderedMap.get?_isSome_iff] at hid
  exact h.table id hid

theorem ensureReady (h : p.Named used) : p.ensureReady.state.Named used := by
  refine h.congr h.synced.ensureReady.1 (ensureReady_prepared p).1.bare fun id hid => ?_
  obtain ⟨b, hb⟩ := Option.isSome_iff_exists.1 hid
  rcases get?_ensureReady_eq_some h.synced.nodeKey hb with hold | ⟨n, hn, -⟩
  · exact h.table id (Option.isSome_of_eq_some hold)
  · exact h.nodes id (Option.isSome_of_eq_some hn)

/-- An edit brings in the name of the node that it adds, and no other. -/
theorem edit (h : p.Named used) (e : Edit) :
    Named (used ++ (Request.edit e).added?.toList) { p with graph := e.run p.graph } := by
  refine ⟨h.synced.edit e, fun id hid => ?_, fun id hid => List.mem_append_left _ (h.table id hid)⟩
  obtain ⟨n, hn⟩ := Option.isSome_iff_exists.1 hid
  rcases Edit.run_cases p.graph e with hsame | ⟨-, hnodes⟩
  · exact List.mem_append_left _ (h.nodes id (hsame ▸ hid))
  · rcases hnodes id n hn with hold | ⟨rfl, rfl⟩
    · exact List.mem_append_left _ (h.nodes id (Option.isSome_of_eq_some hold))
    · exact List.mem_append_right _ (List.mem_singleton_self n.id)

theorem new {r : Registry σ} {g : Graph} (hkey : ∀ id n, g.node? id = some n → n.id = id)
    {settings : Settings} {told : List Event} (h : Processor.new g r settings = (told, .ok p)) :
    p.Named g.nodes.keys := by
  have hsynced := Synced.new_of_nodeKey hkey h
  obtain ⟨-, rfl⟩ := new_eq_ok h
  refine ⟨hsynced, fun id hid => (OrderedMap.get?_isSome_iff _ _).1 hid, fun id hid => ?_⟩
  obtain ⟨b, hb⟩ := Option.isSome_iff_exists.1 hid
  rcases Table.get?_sync_eq_some hkey hb with hold | ⟨n, hn, -⟩
  · cases hold
  · exact (OrderedMap.get?_isSome_iff _ _).1 (Option.isSome_of_eq_some hn)

variable [Behaves σ]

theorem lasting (used : List NodeId) : Lasting (Named (σ := σ) used) fun _ => True where
  walked p c h := h.still (p.walkCursor_walked c).still
  failed _ _ _ _ _ := trivial
  placed _ _ _ h := h.still ⟨rfl, rfl, rfl, rfl, rfl, rfl⟩
  readied _ h := h.ensureReady

theorem perform (h : p.Named used) (c : Call) : (c.perform p).state.Named used := by
  refine ((lasting used).perform (fun p delta h => ?_) (fun p node slot v h => ?_) c h).1
  · exact h.still ⟨rfl, rfl, rfl, rfl, rfl, rfl⟩
  · exact h.congr (h.synced.perform (.setOutput node slot v)).1
      (perform_undisturbed p (.setOutput node slot v)).bare h.table

end Named

/-- A call that gets ready and walks fails to bind exactly if getting ready fails. -/
theorem onReady_bind_iff {walking : Processor σ → Reply (Processor σ) EvalError Status} :
    (∃ e, (p.onReady walking).result = .error (.bind e)) ↔
    ∃ e, p.ensureReady.result = .error e := by
  cases h : p.ensureReady.result with
  | error e =>
    rw [onReady_of_error h]
    exact ⟨fun _ => ⟨e, rfl⟩, fun _ => ⟨e, rfl⟩⟩
  | ok _ =>
    rw [onReady_of_ok h]
    constructor
    · rintro ⟨e, he⟩
      cases hwalk : (walking p.ensureReady.state).result with
      | error e => rw [hwalk] at he; cases he
      | ok s => rw [hwalk] at he; cases he
    · rintro ⟨e, he⟩
      cases he

end Processor

/-! ## 4. Requests that are refused -/

namespace Request

variable {σ : Type u} [Behaves σ] {a b p : Processor σ} {used : List NodeId}

/-- The request brings the processor up to date before it does anything else. -/
def readies : Request → Bool
  | call (.run _) | call (.runFrom _ _) | call .runPaused | ensureReady => true
  | _ => false

def isEdit : Request → Bool
  | edit _ => true
  | _ => false

/-- The request fails because a node cannot be bound. -/
def Refused (p : Processor σ) (q : Request) : Prop := ∃ e, (q.reply p).result = .error (.bind e)

/-- Every request of the list is an edit or, when its turn comes, refused. -/
def EditsOrRefused (p : Processor σ) : List Request → Prop
  | [] => True
  | q :: requests => (q.isEdit = true ∨ q.Refused p) ∧ EditsOrRefused (q.serve p) requests

instance (p : Processor σ) (q : Request) : Decidable (q.Refused p) :=
  match h : (q.reply p).result with
  | .error (.bind e) => .isTrue ⟨e, h⟩
  | .error (.eval _) => .isFalse fun ⟨_, he⟩ => nomatch h.symm.trans he
  | .ok _ => .isFalse fun ⟨_, he⟩ => nomatch h.symm.trans he

instance decidableEditsOrRefused (p : Processor σ) :
    (requests : List Request) → Decidable (EditsOrRefused p requests)
  | [] => .isTrue trivial
  | q :: requests =>
    have := decidableEditsOrRefused (q.serve p) requests
    inferInstanceAs
      (Decidable ((q.isEdit = true ∨ q.Refused p) ∧ EditsOrRefused (q.serve p) requests))

/-- Getting ready is all that such requests have in common. -/
theorem exists_reply_eq {q : Request} (h : q.readies = true) :
    ∃ walking, ∀ p : Processor σ, q.reply p = p.onReady walking := by
  cases q with
  | call c =>
    cases c with
    | run kind => exact ⟨_, fun p => p.run_eq kind⟩
    | runFrom seeds kind => exact ⟨_, fun p => p.runFrom_eq seeds kind⟩
    | runPaused => exact ⟨_, Processor.runPaused_eq⟩
    | advance delta => cases h
    | setOutput node slot v => cases h
  | ensureReady =>
    refine ⟨fun p => ⟨p, [], .ok .finished⟩, fun p => ?_⟩
    rw [reply]
    cases hready : p.ensureReady.result with
    | error e => exact (Processor.onReady_of_error hready _).symm
    | ok _ =>
      rw [Processor.onReady_of_ok hready, List.append_nil]
      rfl
  | edit e => cases h
  | reset => cases h
  | setKinds kinds => cases h
  | reschedule => cases h

theorem reply_of_not_readies {q : Request} (h : q.readies = false) :
    (q.reply p).result = .ok .finished := by
  cases q with
  | call c =>
    cases c with
    | advance delta => rfl
    | setOutput node slot v => rfl
    | _ => cases h
  | ensureReady => cases h
  | _ => rfl

/-- **The requests that are refused** are those that need the processor up to
date, when that fails. -/
theorem refused_iff {q : Request} :
    q.Refused p ↔ q.readies = true ∧ ∃ e, p.ensureReady.result = .error e := by
  cases hready : q.readies with
  | true =>
    obtain ⟨walking, hreply⟩ := exists_reply_eq (σ := σ) hready
    rw [Refused, hreply p, Processor.onReady_bind_iff]
    exact (and_iff_right rfl).symm
  | false =>
    constructor
    · rintro ⟨e, he⟩
      rw [reply_of_not_readies hready] at he
      cases he
    · rintro ⟨hno, -⟩
      cases hno

/-- A refused request leaves what trying to get ready has left. -/
theorem serve_of_refused {q : Request} (h : q.Refused p) : q.serve p = p.ensureReady.state := by
  obtain ⟨hready, e, he⟩ := refused_iff.1 h
  obtain ⟨walking, hreply⟩ := exists_reply_eq (σ := σ) hready
  rw [← reply_state, hreply p, Processor.onReady_of_error he]

/-- **A refused request changes the table alone**, and there it binds nodes that are not bound and
drops those that are gone. -/
theorem serve_refused {q : Request} (h : q.Refused p) :
    q.serve p = { p with table := (p.table.sync p.registry p.graph).1 } := by
  obtain ⟨-, e, he⟩ := refused_iff.1 h
  exact (serve_of_refused h).trans (Processor.state_ensureReady_of_error he)

/-! ### Lists of requests -/

theorem serve_named (h : p.Named used) (q : Request) :
    (q.serve p).Named (used ++ q.added?.toList) := by
  have hnone : ∀ {q' : Processor σ}, q'.Named used → q'.Named (used ++ []) := by
    intro q' hq'
    rw [List.append_nil]
    exact hq'
  cases q with
  | call c => exact hnone (h.perform c)
  | edit e => exact h.edit e
  | reset => exact hnone (h.still p.reset_still)
  | setKinds kinds => exact hnone ⟨h.synced.setKinds kinds, h.nodes, h.table⟩
  | reschedule => exact hnone (h.congr h.synced.reschedule.1 (Graph.bare_schedule _ _ _) h.table)
  | ensureReady => exact hnone h.ensureReady

theorem serveAll_named {requests : List Request} (h : p.Named used) :
    (serveAll p requests).Named (used ++ requests.filterMap added?) := by
  induction requests generalizing p used with
  | nil =>
    rw [List.filterMap_nil, List.append_nil]
    exact h
  | cons q requests ih =>
    rw [filterMap_added?_cons, ← List.append_assoc]
    exact ih (serve_named h q)

theorem registry_serveAll (p : Processor σ) (requests : List Request) :
    (serveAll p requests).registry = p.registry := by
  induction requests generalizing p with
  | nil => rfl
  | cons q requests ih => exact (ih (q.serve p)).trans (registry_serve p q)

theorem eq_edit {q : Request} (h : q.isEdit = true) : ∃ e, q = edit e := by
  cases q with
  | edit e => exact ⟨e, rfl⟩
  | _ => cases h

theorem added?_eq_none {q : Request} (h : q.isEdit = false) : q.added? = none := by
  cases q with
  | edit e => cases h
  | _ => rfl

/-- **Refused requests among edits lead to a double** of the processor that is edited only. -/
theorem serveAll_double {later : List Request} (h : a.Double b) (ha : a.Named used)
    (hb : b.Named used) (hlater : EditsOrRefused b later)
    (hnames : (used ++ later.filterMap added?).Nodup) :
    (serveAll a (later.filter isEdit)).Double (serveAll b later) := by
  induction later generalizing a b used with
  | nil => exact h
  | cons q later ih =>
    obtain ⟨hq, hlater⟩ := hlater
    have hnew := notMem_of_nodup hnames
    have hb' := serve_named hb q
    rw [filterMap_added?_cons, ← List.append_assoc] at hnames
    cases hedit : q.isEdit with
    | true =>
      rw [List.filter_cons_of_pos hedit]
      refine ih ?_ (serve_named ha q) hb' hlater hnames
      obtain ⟨e, rfl⟩ := eq_edit hedit
      exact h.edit fun id hid => ⟨ha.get?_eq_none (hnew id hid), hb.get?_eq_none (hnew id hid)⟩
    | false =>
      -- only the second processor is asked
      have hno : ¬ q.isEdit = true := by
        rw [hedit]
        exact Bool.false_ne_true
      rw [List.filter_cons_of_neg hno]
      rw [added?_eq_none hedit, Option.toList_none, List.append_nil] at hb' hnames
      refine ih ?_ ha hb' hlater hnames
      rw [serve_refused (hq.resolve_left hno)]
      exact h.sync hb.synced.nodeKey

end Request

/-! ## 5. The law -/

/-- **A failed binding leaves no trace.**  Take any registry, any processor that was made for a
graph whose nodes stand under their own names, and any list of requests to it, failing ones
included.

* The requests that bring it up to date are refused exactly if some node has no behavior, and a type
  that is not registered.
* A refused request changes the table alone: the graph with its ranks and slots, the cursors, the
  paused walks, the report and the clock are what they were, and so are the behaviors of the nodes
  that are still there.
* Let edits follow, which add nodes only under names that were never used before.  Then it makes no
  difference how often, and where among them, requests have been refused: the processor gets ready
  in the end if it would have without, and then is the same but for the order of its table. -/
theorem failed_bind_leaves_no_trace {σ : Type u} [Behaves σ] (r : Registry σ) (g : Graph)
    (named : ∀ id n, g.node? id = some n → n.id = id) (settings : Settings) (told : List Event)
    (p : Processor σ) (fresh : Processor.new g r settings = (told, .ok p)) (past : List Request) :
    let q := Request.serveAll p past
    (∀ ask : Request, ask.readies = true →
      (ask.Refused q ↔
        ∃ id n, q.graph.node? id = some n ∧ q.table.get? id = none ∧ r.get? n.type = none)) ∧
    (∀ ask : Request, ask.Refused q →
      ask.serve q = { q with table := (ask.serve q).table } ∧
      ∀ id b, (q.graph.node? id).isSome → q.table.get? id = some b →
        (ask.serve q).table.get? id = some b) ∧
    ∀ later : List Request, Request.EditsOrRefused q later →
      (later.filterMap Request.added?).Nodup →
      (∀ id ∈ later.filterMap Request.added?, id ∉ g.nodes.keys ++ past.filterMap Request.added?) →
      let edited := (Request.serveAll q (later.filter Request.isEdit)).ensureReady
      let retried := (Request.serveAll q later).ensureReady
      retried.result = edited.result ∧
      (edited.result = .ok () →
        retried.state = { edited.state with table := retried.state.table } ∧
        retried.state.table.entries.Perm edited.state.table.entries) := by
  intro q
  have hp := Processor.Named.new named fresh
  have hq : q.Named (g.nodes.keys ++ past.filterMap Request.added?) := Request.serveAll_named hp
  have hregistry : q.registry = r := by
    refine (Request.registry_serveAll p past).trans ?_
    obtain ⟨-, rfl⟩ := Processor.new_eq_ok fresh
    rfl
  refine ⟨fun ask hready => ?_, fun ask hrefused => ⟨?_, fun id b hid hb => ?_⟩,
    fun later hlater hnodup hnew => ?_⟩
  · rw [Request.refused_iff, and_iff_right hready, hq.synced.result_ensureReady,
      Table.failureAt_eq_error_iff, Processor.unbindable?_isSome_iff hq.synced.nodeKey, hregistry]
  · rw [Request.serve_refused hrefused]
  · obtain ⟨n, hn⟩ := Option.isSome_iff_exists.1 hid
    rw [Request.serve_of_refused hrefused]
    exact Processor.get?_ensureReady_of_some hq.synced.nodeKey hn hb
  · -- the names that were used before may have been used twice
    have hused := hq.mono fun id hid => List.mem_dedup.2 hid
    have hnames : ((g.nodes.keys ++ past.filterMap Request.added?).dedup ++
        later.filterMap Request.added?).Nodup := by
      refine List.nodup_append'.2 ⟨List.nodup_dedup _, hnodup, fun id hid hlater => ?_⟩
      exact hnew id hlater (List.mem_dedup.1 hid)
    have hdouble := Request.serveAll_double (.refl q) hused hused hlater hnames
    exact hdouble.ensureReady (Request.serveAll_synced _ hq.synced)
      (Request.serveAll_synced _ hq.synced)

/-- Four requests are refused because of a node of a type that nobody knows, until that node is
taken out again.  In between, a node is removed and two others are added. -/
def exampleRetries : List Request :=
  [ .edit (.addNode (exampleNode 8 Library.branchType)),
    .edit (.addNode { exampleNode 9 Library.waitType with type := "unknown" }),
    .ensureReady,
    .edit (.removeNode (exampleId 4)),
    .call (.run .update),
    .edit (.addNode (exampleNode 10 Library.waitType)),
    .edit (exampleLink 10 8 "True" 10 "Exec"),
    .call (.runFrom [exampleId 0] .event),
    .call .runPaused,
    .edit (.removeNode (exampleId 9)) ]

/-- By then the first of the added nodes is bound and the removed one is not; without the
refused requests it is the other way round.  Once the processor is ready there is no
difference, and the wait goes on. -/
theorem example_failed_bind_leaves_no_trace :
    let q := Request.serveAll exampleProcessor examplePast
    let edited := Request.serveAll q (exampleRetries.filter Request.isEdit)
    let retried := Request.serveAll q exampleRetries
    Request.EditsOrRefused q exampleRetries ∧
    (exampleRetries.filterMap Request.added?).Nodup ∧
    (∀ id ∈ exampleRetries.filterMap Request.added?,
      id ∉ exampleGraph.nodes.keys ++ examplePast.filterMap Request.added?) ∧
    (edited.table.contains (exampleId 8), edited.table.contains (exampleId 4)) = (false, true) ∧
    (retried.table.contains (exampleId 8), retried.table.contains (exampleId 4)) = (true, false) ∧
    retried.ensureReady.state.table.get? (exampleId 5) = some (.wait ⟨0x3f000000⟩) ∧
    retried.ensureReady.state =
      { edited.ensureReady.state with table := retried.ensureReady.state.table } ∧
    retried.ensureReady.state.table.entries.Perm edited.ensureReady.state.table.entries := by
  obtain ⟨told, fresh⟩ := exampleProcessor_new
  have hlater :
      Request.EditsOrRefused (Request.serveAll exampleProcessor examplePast) exampleRetries := by
    decide +kernel
  have hnodup : (exampleRetries.filterMap Request.added?).Nodup := by decide +kernel
  have hnew : ∀ id ∈ exampleRetries.filterMap Request.added?,
      id ∉ exampleGraph.nodes.keys ++ examplePast.filterMap Request.added? := by decide +kernel
  have hok : (Request.serveAll (Request.serveAll exampleProcessor examplePast)
      (exampleRetries.filter Request.isEdit)).ensureReady.result = .ok () := by decide +kernel
  have hready := (failed_bind_leaves_no_trace Library.registry exampleGraph
    exampleGraph_built.intact.nodeKey _ told exampleProcessor fresh
    examplePast).2.2 exampleRetries hlater hnodup hnew
  exact ⟨hlater, hnodup, hnew, by decide +kernel, by decide +kernel, by decide +kernel,
    hready.2 hok⟩

end FlowScript
