/-
# Tick boundaries are invisible to a walk

A processor keeps the place of its walks between calls: `run` in a cursor for each entry, `runFrom`
and `runPaused` in a list of paused walks.  This module follows one walk through a session of calls
that edit nothing.  Whatever the behaviors do and whatever other calls come in between, the ticks of
the walk are turns, each from the place that the last one has left; so the sequence of its control
evaluations obeys `WalkLaw`.

The place is `cursorOf` for a walk that `run` continues and `holding` for one that `runFrom` has
started; calls that do not continue the walk leave its place alone.
-/
import FlowScript.Library.Types
import FlowScript.Proofs.Calls
import FlowScript.Proofs.Integrity

namespace FlowScript

universe u

/-! ## 1. The place of a walk that runs continue -/

theorem find?_of_filter_eq {α : Type} {l : List α} {p q : α → Bool} {a : α}
    (h : l.filter p = [a]) (hq : q a = true) : (l.find? fun x => p x && q x) = some a := by
  have hboth : (l.filter fun x => p x && q x) = [a] := by
    have hcomm : (fun x => p x && q x) = fun x => q x && p x := by
      funext x
      exact Bool.and_comm _ _
    rw [hcomm, ← List.filter_filter, h]
    exact List.filter_cons_of_pos hq
  rw [← List.head?_filter, hboth]
  rfl

/-- Where nodes stand under their own names, entries are listed once each. -/
theorem Graph.nodup_entryNodes_of_nodeKey {g : Graph}
    (h : ∀ id n, g.node? id = some n → n.id = id) (kinds : List EntryKind) :
    (g.entryNodes kinds).Nodup := by
  have hkeys : (g.nodes.values.map Node.id).Nodup :=
    map_id_values_of_nodeKey h ▸ g.nodes.keys_nodup
  refine ((sortBy_perm _ _).map Node.id).nodup_iff.2 ?_
  exact (List.filter_sublist.map Node.id).nodup hkeys

theorem Graph.Intact.nodup_entryNodes {g : Graph} (h : g.Intact) (kinds : List EntryKind) :
    (g.entryNodes kinds).Nodup := nodup_entryNodes_of_nodeKey h.nodeKey kinds

theorem exists_ok_of_isOk {ε α : Type} {x : Except ε α} (h : x.isOk = true) : ∃ a, x = .ok a := by
  cases x with
  | error e => cases h
  | ok a => exact ⟨a, rfl⟩

/-- The visits of the walk from an entry, in each of the runs of its kind. -/
def runTicks {σ : Type u} (kind : EntryKind) (entry : NodeId) (l : List (Exchange σ)) :
    List (List Visit) :=
  (l.filter fun x => x.call = .run kind).map fun x => visitsOf entry x.reply.events

namespace Processor

variable {σ : Type u}

/-- The cursor of an entry. -/
def cursorOf (p : Processor σ) (kind : EntryKind) (entry : NodeId) : Cursor :=
  (((p.walks.get? kind).getD []).find? fun c =>
    c.entry = entry && (p.graph.node? c.current).isSome).getD (Cursor.start entry)

theorem cursors_eq (p : Processor σ) (kind : EntryKind) :
    p.cursors kind = (p.graph.entryNodes [kind]).map (p.cursorOf kind) := rfl

theorem entry_cursorOf (p : Processor σ) (kind : EntryKind) (entry : NodeId) :
    (p.cursorOf kind entry).entry = entry := by
  unfold cursorOf
  cases h : ((p.walks.get? kind).getD []).find? fun c =>
      c.entry = entry && (p.graph.node? c.current).isSome with
  | none => rfl
  | some c =>
    have hc := List.find?_some h
    simp only [Bool.and_eq_true, decide_eq_true_eq] at hc
    exact hc.1

theorem cursorOf_congr {p q : Processor σ} {kind : EntryKind}
    (hbare : q.graph.bare = p.graph.bare) (hwalks : q.walks.get? kind = p.walks.get? kind)
    (entry : NodeId) : q.cursorOf kind entry = p.cursorOf kind entry := by
  unfold cursorOf
  simp only [hwalks, Graph.node?_isSome_eq_of_bare hbare]

/-- Every entry has one cursor. -/
theorem filter_cursors {p : Processor σ} (hg : p.graph.Intact) {kind : EntryKind} {entry : NodeId}
    (he : entry ∈ p.graph.entryNodes [kind]) :
    ((p.cursors kind).filter fun c => c.entry = entry) = [p.cursorOf kind entry] := by
  have hentry : ((fun c : Cursor => decide (c.entry = entry)) ∘ p.cursorOf kind) =
      fun e => decide (e = entry) := by
    funext e
    simp only [Function.comp, entry_cursorOf]
  have hcount := List.count_eq_one_of_mem (hg.nodup_entryNodes [kind]) he
  have hone : (p.graph.entryNodes [kind]).filter (fun e => decide (e = entry)) = [entry] := by
    rw [List.filter_eq, hcount]
    rfl
  rw [cursors_eq, List.filter_map, hentry, hone]
  rfl

/-- The cursors of a kind are at their entries. -/
def Rests (p : Processor σ) (kind : EntryKind) : Prop :=
  ∀ cs, p.walks.get? kind = some cs → ∀ c ∈ cs, c.current = c.entry

theorem Rests.cursorOf_eq {p : Processor σ} {kind : EntryKind} (h : p.Rests kind) (entry : NodeId) :
    p.cursorOf kind entry = Cursor.start entry := by
  have hentry := entry_cursorOf p kind entry
  unfold cursorOf at hentry ⊢
  cases hfind : ((p.walks.get? kind).getD []).find? fun c =>
      c.entry = entry && (p.graph.node? c.current).isSome with
  | none => rfl
  | some c =>
    rw [hfind] at hentry
    have hmem := List.mem_of_find?_eq_some hfind
    cases hget : p.walks.get? kind with
    | none => rw [hget] at hmem; cases hmem
    | some cs =>
      rw [hget] at hmem
      have hcurrent := h cs hget c hmem
      have hc : c.entry = entry := hentry
      obtain ⟨e, n⟩ := c
      obtain rfl : e = entry := hc
      obtain rfl : n = e := hcurrent
      rfl

/-- All cursors are at their entries. -/
def AtRest (p : Processor σ) : Prop :=
  ∀ kind cs, p.walks.get? kind = some cs → ∀ c ∈ cs, c.current = c.entry

theorem AtRest.cursorOf_eq {p : Processor σ} (h : p.AtRest) (kind : EntryKind) (entry : NodeId) :
    p.cursorOf kind entry = Cursor.start entry := Rests.cursorOf_eq (h kind) entry

theorem atRest_new {g : Graph} {r : Registry σ} {settings : Settings} {events : List Event}
    {p : Processor σ} (h : new g r settings = (events, .ok p)) : p.AtRest := by
  unfold new at h
  simp only at h
  split at h
  · cases h
  · cases h
    exact fun _ _ hget => nomatch hget

theorem atRest_reset [Behaves σ] (p : Processor σ) : p.reset.1.AtRest := by
  intro kind cs hget c hc
  have hmap : (p.walks.map fun _ cs => cs.map fun c => Cursor.start c.entry).get? kind =
      some cs := hget
  rw [OrderedMap.get?_map] at hmap
  obtain ⟨cs', -, rfl⟩ := Option.map_eq_some_iff.1 hmap
  obtain ⟨c', -, rfl⟩ := List.mem_map.1 hc
  rfl

variable [Behaves σ] {g : Graph} {bound : Nat}

/-- The visits of one walk among those that a call tells. -/
theorem visitsOf_legs {events : List Event} {legs : List Leg} {l : Leg} {entry : NodeId}
    (h : Tells events (legs.map Leg.record))
    (hone : (legs.filter fun l => l.cursor.entry = entry) = [l]) :
    visitsOf entry events = l.visits := by
  have hrecords : ((legs.map Leg.record).filter fun r => r.1 = entry) = [l.record] := by
    rw [List.filter_map]
    exact congrArg (List.map Leg.record) hone
  rw [h.visitsOf_eq, hrecords]
  exact List.append_nil _

/-- **A run takes one turn from the cursor of an entry**, and keeps the place where it has ended. -/
theorem run_leg {p : Processor σ} (hg : p.graph.Intact) {kind : EntryKind} {entry : NodeId}
    (he : entry ∈ p.graph.entryNodes [kind]) {status : Status}
    (hok : (p.run kind).result = .ok status)
    (hshape : (p.run kind).state.graph.clearValues = g.clearValues)
    (hbound : p.settings.maxWalkSteps.toNat = bound) :
    (p.run kind).state.Ready ∧ ∃ l : Leg, l.Valid g bound ∧ l.cursor = p.cursorOf kind entry ∧
      visitsOf entry (p.run kind).events = l.visits ∧
      (g.Ranked l.returned.current → (p.run kind).state.cursorOf kind entry = l.returned) := by
  rw [run_eq] at hok hshape ⊢
  obtain ⟨hprepared, hquiet, -⟩ := ensureReady_prepared p
  obtain ⟨hready, hstate, hevents, hwalked⟩ := onReady_ok hok
  rw [hstate] at hshape ⊢
  rw [hevents, walkKind_events]
  rw [walkKind_result] at hwalked
  rw [walkKind_graph] at hshape
  have hmoved := (walkAll_moved (p.ensureReady.state.cursors kind) p.ensureReady.state).1
  obtain ⟨legs, hvalid, hcursors, hreturned, htells⟩ := walkAll_legs
    (p.ensureReady.state.cursors kind) p.ensureReady.state (hmoved.shape.symm.trans hshape)
    (hprepared.settings ▸ hbound) hwalked
  have hentry : entry ∈ p.ensureReady.state.graph.entryNodes [kind] := by
    rw [Graph.entryNodes_eq_of_bare hprepared.bare]
    exact he
  obtain ⟨l, hone, hcursor⟩ : ∃ l, (legs.filter fun l => l.cursor.entry = entry) = [l] ∧
      l.cursor = p.cursorOf kind entry := by
    have hfilter := filter_cursors (hg.of_bare_eq hprepared.bare) hentry
    rw [← hcursors, List.filter_map, cursorOf_congr hprepared.bare (by rw [hprepared.walks])]
      at hfilter
    exact List.map_eq_singleton_iff.1 hfilter
  have hmem : l ∈ legs := List.mem_of_mem_filter (hone ▸ List.mem_singleton_self l)
  refine ⟨walkKind_ready hready, l, hvalid l hmem, hcursor,
    visitsOf_legs (htells.quiet_append hquiet) hone, ?_⟩
  intro hranked
  -- the place that the run has written down is the one that the next call reads
  have hwritten : (walkKind kind p.ensureReady.state).state.walks.get? kind =
      some (legs.map Leg.returned) := by
    rw [walkKind_walks, OrderedMap.get?_insert, if_pos rfl, hreturned]
  have hback : ((legs.map Leg.returned).filter fun c => c.entry = entry) = [l.returned] := by
    have hsame : ((fun c : Cursor => decide (c.entry = entry)) ∘ Leg.returned) =
        fun l => decide (l.cursor.entry = entry) := by
      funext l
      simp only [Function.comp, Leg.entry_returned]
    rw [List.filter_map, hsame, hone]
    rfl
  obtain ⟨n, hn⟩ := ((Graph.ranked_iff_of_clearValues hshape _).2 hranked).exists_node?
  have hfind := find?_of_filter_eq (q := fun c => ((walkKind kind
    p.ensureReady.state).state.graph.node? c.current).isSome) hback
    (by rw [walkKind_graph, hn]; rfl)
  rw [cursorOf, hwritten, Option.getD_some, hfind]
  rfl

/-- Only a run of a kind moves the cursors of that kind. -/
theorem perform_walks (p : Processor σ) {c : Call} {kind : EntryKind} (h : c ≠ .run kind) :
    (c.perform p).state.walks.get? kind = p.walks.get? kind := by
  have hprepared := (ensureReady_prepared p).1.walks
  have hready : ∀ walking : Processor σ → Reply (Processor σ) EvalError Status,
      (∀ q, (walking q).state.walks.get? kind = q.walks.get? kind) →
      (p.onReady walking).state.walks.get? kind = p.walks.get? kind := by
    intro walking hwalking
    rcases p.onReady_cases walking with ⟨hstate, -⟩ | ⟨-, hstate, -⟩
    · rw [hstate, hprepared]
    · rw [hstate, hwalking, hprepared]
  cases c with
  | run other =>
    have hne : kind ≠ other := fun he => h (he ▸ rfl)
    rw [Call.perform, run_eq]
    refine hready _ fun q => ?_
    rw [walkKind_walks, OrderedMap.get?_insert, if_neg hne, OrderedMap.get?_erase, if_neg hne,
      (walkAll_moved (q.cursors other) q).1.walks]
  | runFrom seeds other =>
    rw [Call.perform, runFrom_eq]
    exact hready _ fun q => by rw [(walkSeeds_moved other seeds q).walks]
  | runPaused =>
    rw [Call.perform, runPaused_eq]
    exact hready _ fun q => by rw [walkPaused_walks]
  | advance delta => rfl
  | setOutput node slot v => rfl

theorem runTicks_cons_run (p : Processor σ) (kind : EntryKind) (entry : NodeId)
    (calls : List Call) :
    runTicks kind entry (p.transcript (.run kind :: calls)) =
      visitsOf entry (p.run kind).events ::
        runTicks kind entry ((p.run kind).state.transcript calls) := by
  rw [runTicks, transcript, List.filter_cons_of_pos (by simp), runTicks]
  rfl

theorem runTicks_cons_of_ne {p : Processor σ} {kind : EntryKind} {entry : NodeId} {c : Call}
    (h : c ≠ .run kind) (calls : List Call) :
    runTicks kind entry (p.transcript (c :: calls)) =
      runTicks kind entry ((c.perform p).state.transcript calls) := by
  rw [runTicks, transcript, List.filter_cons_of_neg (by simpa using h), runTicks]

/-- **The runs of a session chain the turns of an entry's walk.** -/
theorem run_ticks {kind : EntryKind} {entry : NodeId} :
    ∀ (calls : List Call) (p : Processor σ), p.graph.Intact →
      entry ∈ p.graph.entryNodes [kind] → p.settings.maxWalkSteps.toNat = bound →
      (∀ x ∈ p.transcript calls, x.call = .run kind → x.reply.result.isOk = true) →
      (p.after calls).graph.Ranked entry →
      (p.after calls).graph.Ranked (p.cursorOf kind entry).current →
      Ticks (p.after calls).graph bound (some entry) (some (p.cursorOf kind entry).current)
        (runTicks kind entry (p.transcript calls))
  | [], _, _, _, _, _, _, _ => .nil _
  | c :: calls, p, hg, he, hbound, hok, hhome, hplace => by
    have hc := perform_undisturbed p c
    have hrest := after_undisturbed calls (c.perform p).state
    have hg' := hg.of_bare_eq hc.bare
    have he' : entry ∈ (c.perform p).state.graph.entryNodes [kind] := by
      rw [Graph.entryNodes_eq_of_bare hc.bare]
      exact he
    have hbound' : (c.perform p).state.settings.maxWalkSteps.toNat = bound := by
      rw [hc.settings]
      exact hbound
    have hok' : ∀ x ∈ (c.perform p).state.transcript calls, x.call = .run kind →
        x.reply.result.isOk = true := fun x hx => hok x (List.mem_cons_of_mem _ hx)
    by_cases hcall : c = .run kind
    · subst hcall
      obtain ⟨status, hstatus⟩ := exists_ok_of_isOk (hok _ List.mem_cons_self rfl)
      have hready := (run_leg hg he hstatus rfl hbound).1
      obtain ⟨-, l, hvalid, hcursor, hvisits, hnext⟩ :=
        run_leg hg he hstatus (hrest.ready hready).2.symm hbound
      have hentry : l.cursor.entry = entry := by rw [hcursor, entry_cursorOf]
      have hranked := hvalid.ranked_returned (hentry.symm ▸ hhome)
      have hmoved := hnext hranked
      have hplaced : (p.after (.run kind :: calls)).graph.Ranked
          ((p.run kind).state.cursorOf kind entry).current := by
        rw [hmoved]
        exact hranked
      have htail := run_ticks calls _ hg' he' hbound' hok' hhome hplaced
      have hturn : Turn (p.after (.run kind :: calls)).graph bound (p.cursorOf kind entry).current
          l.visits l.outcome l.current := by
        rw [← hcursor]
        exact hvalid
      rw [runTicks_cons_run, hvisits]
      refine .turn hplace hturn ?_
      -- the next tick starts at the entry again or where this one has stopped
      rw [← hentry, ← l.some_current_returned, hentry, ← congrArg Cursor.current hmoved]
      exact htail
    · -- the walk stays where it is
      have hsame := cursorOf_congr hc.bare (perform_walks p hcall) entry
      have htail := run_ticks calls _ hg' he' hbound' hok' hhome (hsame ▸ hplace)
      rw [hsame] at htail
      rw [runTicks_cons_of_ne hcall]
      exact htail

end Processor

/-! ## 2. The place of a walk that was started from a node -/

/-- The visits of the paused walk of a kind from a node in a resumption: walks are resumed in the
order in which they wait, and the journal tells one record of each. -/
def Exchange.resumed {σ : Type u} (kind : EntryKind) (entry : NodeId) (x : Exchange σ) :
    List Visit :=
  ((x.before.paused.zip (walkRecords [] x.reply.events)).filter fun r =>
    r.1.isAt kind entry).flatMap fun r => r.2.2

/-- The visits of the walk of a kind from a node, in each of the resumptions. -/
def resumeTicks {σ : Type u} (kind : EntryKind) (entry : NodeId) (l : List (Exchange σ)) :
    List (List Visit) :=
  (l.filter fun x => x.call = .runPaused).map (Exchange.resumed kind entry)

namespace Processor

variable {σ : Type u} [Behaves σ] {g : Graph} {bound : Nat}

/-- **Starting from a node takes one turn from it**, and keeps the place where it has ended, unless
the walk has completed. -/
theorem runFrom_leg {p : Processor σ} {kind : EntryKind} {entry : NodeId} {seeds : List NodeId}
    (hseed : seeds.count entry = 1) (hnode : (p.graph.node? entry).isSome)
    (hfree : p.holding kind entry = []) {status : Status}
    (hok : (p.runFrom seeds kind).result = .ok status)
    (hshape : (p.runFrom seeds kind).state.graph.clearValues = g.clearValues)
    (hbound : p.settings.maxWalkSteps.toNat = bound) :
    (p.runFrom seeds kind).state.Ready ∧ ∃ l : Leg, l.Valid g bound ∧
      l.cursor = Cursor.start entry ∧ visitsOf entry (p.runFrom seeds kind).events = l.visits ∧
      (p.runFrom seeds kind).state.holding kind entry = (l.paused? kind).toList := by
  rw [runFrom_eq] at hok hshape ⊢
  obtain ⟨hprepared, hquiet, -⟩ := ensureReady_prepared p
  obtain ⟨hready, hstate, hevents, hwalked⟩ := onReady_ok hok
  rw [hstate] at hshape ⊢
  rw [hevents]
  have hmoved := walkSeeds_moved kind seeds p.ensureReady.state
  have hnode' : (p.ensureReady.state.graph.node? entry).isSome := by
    rw [Graph.node?_isSome_eq_of_bare hprepared.bare]
    exact hnode
  have hfree' : p.ensureReady.state.holding kind entry = [] := by
    have hsub := hprepared.paused.filter (PausedWalk.isAt kind entry)
    exact List.sublist_nil.1 (hfree ▸ hsub)
  obtain ⟨l, hvalid, hcursor, hhold, records, hrecords, hone⟩ := walkSeeds_start seeds
    p.ensureReady.state (hmoved.shape.symm.trans hshape) (hprepared.settings ▸ hbound) hseed hnode'
    hfree' hwalked
  refine ⟨hmoved.ready hready, l, hvalid, hcursor, ?_, hhold⟩
  rw [(hrecords.quiet_append hquiet).visitsOf_eq, hone]
  exact List.append_nil _

/-- Calls that neither resume paused walks nor take up a walk of the kind from the node leave that
walk alone. -/
theorem perform_holding {p : Processor σ} (hp : p.Ready) {c : Call} {kind : EntryKind}
    {entry : NodeId} (hcall : c ≠ .runPaused) (hseeds : entry ∉ c.seeds kind) :
    (c.perform p).state.holding kind entry = p.holding kind entry := by
  cases c with
  | run other =>
    rw [Call.perform, run_eq, onReady_of_ready hp, holding, walkKind_paused, holding]
  | runFrom seeds other =>
    rw [Call.perform, runFrom_eq, onReady_of_ready hp]
    refine walkSeeds_holding seeds p fun hkind he => hseeds ?_
    rw [Call.seeds, if_pos hkind]
    exact he
  | runPaused => exact absurd rfl hcall
  | advance delta => rfl
  | setOutput node slot v => rfl

theorem filter_paused? (kind : EntryKind) (entry : NodeId) :
    ∀ legs : List (EntryKind × Leg),
      (legs.filterMap fun l => l.2.paused? l.1).filter (PausedWalk.isAt kind entry) =
        (legs.filter fun l => PausedWalk.isAt kind entry ⟨l.1, l.2.cursor⟩).filterMap fun l =>
          l.2.paused? l.1
  | [] => rfl
  | l :: legs => by
    have ih := filter_paused? kind entry legs
    by_cases hout : l.2.outcome = .completed
    · have hnone : l.2.paused? l.1 = none := if_pos hout
      simp only [List.filterMap_cons, hnone, ih, List.filter_cons]
      split
      · simp only [List.filterMap_cons, hnone]
      · rfl
    · have hsome : l.2.paused? l.1 = some ⟨l.1, l.2.stopped⟩ := if_neg hout
      have hat : PausedWalk.isAt kind entry ⟨l.1, l.2.stopped⟩ =
          PausedWalk.isAt kind entry ⟨l.1, l.2.cursor⟩ := rfl
      simp only [List.filterMap_cons, hsome, List.filter_cons, ih, hat]
      split
      · simp only [List.filterMap_cons, hsome]
      · rfl

/-- **Resuming takes one turn from the place of each paused walk**, and keeps the place where it has
ended, unless the walk has completed. -/
theorem runPaused_legs {p : Processor σ} (hp : p.Ready) {status : Status}
    (hok : p.runPaused.result = .ok status) (hshape : p.graph.clearValues = g.clearValues)
    (hbound : p.settings.maxWalkSteps.toNat = bound) (kind : EntryKind) (entry : NodeId) :
    ∃ legs : List (EntryKind × Leg), (∀ l ∈ legs, l.2.Valid g bound) ∧
      legs.map (fun l => ⟨l.1, l.2.cursor⟩) = p.holding kind entry ∧
      legs.filterMap (fun l => l.2.paused? l.1) = p.runPaused.state.holding kind entry ∧
      Exchange.resumed kind entry ⟨p, .runPaused, p.runPaused⟩ =
        legs.flatMap fun l => l.2.visits := by
  rw [runPaused_eq, onReady_of_ready hp] at hok ⊢
  obtain ⟨legs, hvalid, hwalks, hkept, htells⟩ :=
    resumeAll_legs p.paused { p with paused := [] } hshape hbound (eq_ok_of_mapError hok)
  refine ⟨legs.filter fun l => PausedWalk.isAt kind entry ⟨l.1, l.2.cursor⟩, ?_, ?_, ?_, ?_⟩
  · exact fun l hl => hvalid l (List.mem_of_mem_filter hl)
  · rw [holding, ← hwalks, List.filter_map]
    rfl
  · rw [holding, walkPaused_paused, ← hkept, filter_paused?]
  · rw [Exchange.resumed, walkPaused_events, htells.walkRecords_eq]
    simp only
    rw [← hwalks, List.zip_map', List.filter_map, List.flatMap_map]
    rfl

theorem resumeTicks_cons_runPaused (p : Processor σ) (kind : EntryKind) (entry : NodeId)
    (calls : List Call) :
    resumeTicks kind entry (p.transcript (.runPaused :: calls)) =
      Exchange.resumed kind entry ⟨p, .runPaused, p.runPaused⟩ ::
        resumeTicks kind entry (p.runPaused.state.transcript calls) := by
  rw [resumeTicks, transcript, List.filter_cons_of_pos (by simp), resumeTicks]
  rfl

theorem resumeTicks_cons_of_ne {p : Processor σ} {kind : EntryKind} {entry : NodeId} {c : Call}
    (h : c ≠ .runPaused) (calls : List Call) :
    resumeTicks kind entry (p.transcript (c :: calls)) =
      resumeTicks kind entry ((c.perform p).state.transcript calls) := by
  rw [resumeTicks, transcript, List.filter_cons_of_neg (by simpa using h), resumeTicks]

/-- **The resumptions of a session chain the turns of a walk that was started from a
node**, until it completes. -/
theorem paused_ticks {kind : EntryKind} {entry : NodeId} :
    ∀ (calls : List Call) (p : Processor σ) (at? : Option NodeId), p.Ready →
      p.settings.maxWalkSteps.toNat = bound →
      p.holding kind entry = at?.toList.map (fun n => ⟨kind, ⟨entry, n⟩⟩) →
      (∀ c ∈ calls, entry ∉ c.seeds kind) →
      (∀ x ∈ p.transcript calls, x.call = .runPaused → x.reply.result.isOk = true) →
      (∀ n ∈ at?, (p.after calls).graph.Ranked n) →
      Ticks (p.after calls).graph bound none at? (resumeTicks kind entry (p.transcript calls))
  | [], _, at?, _, _, _, _, _, _ => .nil at?
  | c :: calls, p, at?, hp, hbound, hhold, hseeds, hok, hranked => by
    have hc := perform_undisturbed p c
    have hrest := after_undisturbed calls (c.perform p).state
    have hp' := (hc.ready hp).1
    have hbound' : (c.perform p).state.settings.maxWalkSteps.toNat = bound := by
      rw [hc.settings]
      exact hbound
    have hseeds' : ∀ d ∈ calls, entry ∉ d.seeds kind := fun d hd =>
      hseeds d (List.mem_cons_of_mem _ hd)
    have hok' : ∀ x ∈ (c.perform p).state.transcript calls, x.call = .runPaused →
        x.reply.result.isOk = true := fun x hx => hok x (List.mem_cons_of_mem _ hx)
    by_cases hcall : c = .runPaused
    · subst hcall
      obtain ⟨status, hstatus⟩ := exists_ok_of_isOk (hok _ List.mem_cons_self rfl)
      have hshape : p.graph.clearValues = (p.after (.runPaused :: calls)).graph.clearValues :=
        ((hrest.ready hp').2.trans (hc.ready hp).2).symm
      obtain ⟨legs, hvalid, hwalks, hkept, hvisits⟩ :=
        runPaused_legs hp hstatus hshape hbound kind entry
      rw [resumeTicks_cons_runPaused, hvisits]
      rw [hhold] at hwalks
      cases at? with
      | none =>
        -- the walk is over, and there is nothing to resume
        obtain rfl : legs = [] := List.map_eq_nil_iff.1 hwalks
        exact .idle (paused_ticks calls _ none hp' hbound' hkept.symm hseeds' hok' hranked)
      | some n =>
        obtain ⟨⟨kind', l⟩, rfl, hl⟩ := List.map_eq_singleton_iff.1 hwalks
        obtain ⟨rfl, hcursor⟩ := PausedWalk.mk.inj hl
        have hleg : l.Valid _ bound := hvalid _ (List.mem_singleton_self _)
        have hturn : Turn (p.after (.runPaused :: calls)).graph bound n l.visits l.outcome
            l.current := by rwa [Leg.Valid, hcursor] at hleg
        have hhold' : p.runPaused.state.holding kind' entry =
            l.place?.toList.map fun n => ⟨kind', ⟨entry, n⟩⟩ := by
          have hentry : l.cursor.entry = entry := by rw [hcursor]
          rw [← hkept, ← hentry, ← Leg.toList_paused?, List.filterMap_cons, List.filterMap_nil]
          cases l.paused? kind' <;> rfl
        rw [List.flatMap_singleton]
        exact .turn (hranked n rfl) hturn
          (paused_ticks calls _ l.place? hp' hbound' hhold' hseeds' hok' hleg.ranked_place?)
    · have hsame := perform_holding hp hcall (hseeds c List.mem_cons_self)
      have htail := paused_ticks calls _ at? hp' hbound' (hsame.trans hhold) hseeds' hok' hranked
      rw [resumeTicks_cons_of_ne hcall]
      exact htail

/-! ## 3. The law -/

/-- The walk of an entry obeys the law through any session on a processor at rest. -/
theorem run_law {p : Processor σ} (hg : p.graph.Intact)
    (hsteps : 0 < p.settings.maxWalkSteps.toNat) (hrest : p.AtRest) {kind : EntryKind}
    {entry : NodeId} (calls : List Call)
    (hok : ∀ x ∈ p.transcript calls, x.call = .run kind → x.reply.result.isOk = true)
    (he : entry ∈ (p.after calls).graph.entryNodes [kind])
    (hranked : (p.after calls).graph.Ranked entry) :
    WalkLaw (p.after calls).graph p.settings.maxWalkSteps.toNat entry (some entry)
      (runTicks kind entry (p.transcript calls)) := by
  have hbare := (after_undisturbed calls p).bare
  rw [Graph.entryNodes_eq_of_bare hbare] at he
  have hstart : (p.cursorOf kind entry).current = entry := by
    rw [hrest.cursorOf_eq]
    rfl
  have hticks := run_ticks calls p hg he rfl hok hranked (hstart.symm ▸ hranked)
  rw [hstart] at hticks
  exact hticks.law hsteps

/-- A walk that is started from a node obeys the law through any session that resumes it, and is
over when it has completed. -/
theorem runFrom_law {p : Processor σ} (hsteps : 0 < p.settings.maxWalkSteps.toNat)
    {kind : EntryKind} {entry : NodeId} {seeds : List NodeId} (hseed : seeds.count entry = 1)
    (hfree : p.holding kind entry = []) {status : Status}
    (hstatus : (p.runFrom seeds kind).result = .ok status) (calls : List Call)
    (hothers : ∀ c ∈ calls, entry ∉ c.seeds kind)
    (hok : ∀ x ∈ (p.runFrom seeds kind).state.transcript calls, x.call = .runPaused →
      x.reply.result.isOk = true)
    (hranked : ((p.runFrom seeds kind).state.after calls).graph.Ranked entry) :
    WalkLaw ((p.runFrom seeds kind).state.after calls).graph p.settings.maxWalkSteps.toNat
      entry none (visitsOf entry (p.runFrom seeds kind).events ::
        resumeTicks kind entry ((p.runFrom seeds kind).state.transcript calls)) := by
  have hbare := (after_undisturbed (.runFrom seeds kind :: calls) p).bare
  have hsettings := (perform_undisturbed p (.runFrom seeds kind)).settings
  have hrest := after_undisturbed calls (p.runFrom seeds kind).state
  have hnode : (p.graph.node? entry).isSome := by
    obtain ⟨n, hn⟩ := hranked.exists_node?
    rw [← Graph.node?_isSome_eq_of_bare hbare]
    exact hn ▸ rfl
  have hready := (runFrom_leg hseed hnode hfree hstatus rfl rfl).1
  obtain ⟨-, l, hvalid, hcursor, hvisits, hhold⟩ :=
    runFrom_leg hseed hnode hfree hstatus (hrest.ready hready).2.symm rfl
  have hturn : Turn ((p.runFrom seeds kind).state.after calls).graph p.settings.maxWalkSteps.toNat
      entry l.visits l.outcome l.current := by rwa [Leg.Valid, hcursor] at hvalid
  rw [Leg.toList_paused?, hcursor] at hhold
  have hticks := paused_ticks calls _ l.place? hready (congrArg (·.maxWalkSteps.toNat) hsettings)
    hhold hothers hok hvalid.ranked_place?
  rw [hvisits]
  exact (Ticks.turn hranked hturn hticks).law hsteps

end Processor

/-- **Tick boundaries are invisible to a walk.**  On a processor whose graph was built by edits,
with any behaviors and any positive bound of steps:

* through a session on a processor that is new or was just reset, the runs of a kind make the
  control evaluations of each ranked entry of that kind as `WalkLaw` has them, starting again at the
  entry when the walk has completed;
* so do `runFrom`, called once for a node without a paused walk of that kind, and the `runPaused` of
  the session after it, except that the walk is dropped when it has completed.

A session edits neither the graph nor the kinds and resets nothing; it may run other kinds and other
walks, move the clock and write output slots in between. -/
theorem tick_boundaries_are_invisible {σ : Type u} [Behaves σ] (p : Processor σ)
    (built : p.graph.Built) (steps : 1 ≤ p.settings.maxWalkSteps.toNat) (kind : EntryKind)
    (entry : NodeId) :
    (∀ calls : List Call,
      ((∃ g r settings events, Processor.new g r settings = (events, .ok p)) ∨
        ∃ q : Processor σ, p = q.reset.1) →
      (∀ x ∈ p.transcript calls, x.call = .run kind → x.reply.result.isOk = true) →
      entry ∈ (p.after calls).graph.entryNodes [kind] → (p.after calls).graph.Ranked entry →
      WalkLaw (p.after calls).graph p.settings.maxWalkSteps.toNat entry (some entry)
        (runTicks kind entry (p.transcript calls))) ∧
    (∀ (seeds : List NodeId) (calls : List Call),
      seeds.count entry = 1 → p.holding kind entry = [] → (∀ c ∈ calls, entry ∉ c.seeds kind) →
      (p.runFrom seeds kind).result.isOk = true →
      (∀ x ∈ (p.runFrom seeds kind).state.transcript calls, x.call = .runPaused →
        x.reply.result.isOk = true) →
      ((p.runFrom seeds kind).state.after calls).graph.Ranked entry →
      WalkLaw ((p.runFrom seeds kind).state.after calls).graph p.settings.maxWalkSteps.toNat entry
        none (visitsOf entry (p.runFrom seeds kind).events ::
          resumeTicks kind entry ((p.runFrom seeds kind).state.transcript calls))) := by
  refine ⟨fun calls fresh ok mem ranked => ?_, fun seeds calls once free others ok oks ranked => ?_⟩
  · have hrest : p.AtRest := by
      rcases fresh with ⟨g, r, settings, events, hnew⟩ | ⟨q, rfl⟩
      · exact Processor.atRest_new hnew
      · exact Processor.atRest_reset q
    exact Processor.run_law built.intact steps hrest calls ok mem ranked
  · obtain ⟨status, hstatus⟩ := exists_ok_of_isOk ok
    exact Processor.runFrom_law steps once free hstatus calls others oks ranked

/-- The example on a new processor, with two steps to a tick. -/
def exampleProcessor : Processor Library.Behavior where
  graph := exampleGraph
  registry := Library.registry
  table := (Table.sync .empty Library.registry exampleGraph).1
  settings := { Settings.standard with maxWalkSteps := 2 }
  kinds := EntryKind.all
  walks := .empty
  paused := []
  scheduledAt := none
  boundAt := exampleGraph.revision
  report := .none
  time := .zero

theorem exampleProcessor_new :
    ∃ events, Processor.new exampleGraph Library.registry exampleProcessor.settings =
      (events, .ok exampleProcessor) := by
  have hok : (Table.sync .empty Library.registry exampleGraph).2.2 = .ok () := by decide +kernel
  unfold Processor.new
  simp only [hok]
  exact ⟨_, rfl⟩

/-- The wait of the example is reached in the second tick and goes on into the third, when a second
has passed.  Then a run starts again, and a walk that was started from the entry is over. -/
theorem example_ticks_are_invisible :
    let p := exampleProcessor
    let runs : List Call := [.run .update, .run .update, .advance .one, .run .update, .run .update]
    let resumes : List Call := [.runPaused, .advance .one, .runPaused, .runPaused]
    let q := (p.runFrom [exampleId 0] .event).state
    let ticks := runTicks .update (exampleId 0) (p.transcript runs)
    let paused := visitsOf (exampleId 0) (p.runFrom [exampleId 0] .event).events ::
      resumeTicks .event (exampleId 0) (q.transcript resumes)
    ticks.map (·.map Visit.node) =
      [[exampleId 0, exampleId 4], [exampleId 5], [exampleId 5], [exampleId 0, exampleId 4]] ∧
    paused.map (·.map Visit.node) =
      [[exampleId 0, exampleId 4], [exampleId 5], [exampleId 5], []] ∧
    WalkLaw (p.after runs).graph 2 (exampleId 0) (some (exampleId 0)) ticks ∧
    WalkLaw (q.after resumes).graph 2 (exampleId 0) none paused := by
  obtain ⟨events, hnew⟩ := exampleProcessor_new
  refine ⟨by decide +kernel, by decide +kernel, ?_, ?_⟩
  · exact (tick_boundaries_are_invisible exampleProcessor exampleGraph_built (by decide) .update
      (exampleId 0)).1 _ (Or.inl ⟨_, _, _, events, hnew⟩) (by decide +kernel) (by decide +kernel)
      (by decide +kernel)
  · exact (tick_boundaries_are_invisible exampleProcessor exampleGraph_built (by decide) .event
      (exampleId 0)).2 _ _ (by decide +kernel) rfl (by decide +kernel) (by decide +kernel)
      (by decide +kernel) (by decide +kernel)

end FlowScript
