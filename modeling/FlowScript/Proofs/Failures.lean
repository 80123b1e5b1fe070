/-
# What a failing walk leaves behind

A call walks a list of walks one after the other and stops at the first that fails.  The list has
been taken out of the processor before, and is put back in pieces: what has been walked, what has
failed, what is left.  This module says that nothing is lost, doubled or touched on the way.

* `BrokenOff` is what the journal tells of a walk that fails: it visits nodes up to the one at which
  it is kept, and ends with the evaluation of this node, or of a data node that feeds it, to which a
  behavior has answered with the error (`Scene.walkWithin_brokenOff`).  That it was a behavior needs
  every node to be bound.
* `walkAll_failed` and `resumeAll_failed` split a list at the walk that fails.  What comes before it
  has been walked as if it were alone, and what comes after it is as it was.
* `Resumed` says which of the paused walks are kept: in their order those that have not completed.
-/
import FlowScript.Probe.Basic
import FlowScript.Proofs.Bookkeeping
import FlowScript.Proofs.Chains
import FlowScript.Proofs.Coverage
import FlowScript.Proofs.Survival

namespace FlowScript

open Relation (TransGen)

universe u

/-! ## 1. Where a walk fails -/

/-- The last event of the journal is an evaluation that has failed. -/
def EndsInFailure (events : List Event) (role : Role) (node : NodeId) (e : EvalError) : Prop :=
  events.getLast? = some (.evaluated role node (.error e))

theorem EndsInFailure.append {events : List Event} {role : Role} {node : NodeId} {e : EvalError}
    (h : EndsInFailure events role node e) (before : List Event) :
    EndsInFailure (before ++ events) role node e := by
  rw [EndsInFailure, List.getLast?_append, show events.getLast? = _ from h]
  rfl

/-- What a walk with a budget of steps can do before it fails: the visits of the nodes that it
leaves, and the node at which it fails. -/
inductive Breakdown (g : Graph) : (budget : Nat) → NodeId → List Visit → NodeId → Prop
  | here {budget : Nat} {id : NodeId} : g.Ranked id → Breakdown g (budget + 1) id [] id
  | onward {budget : Nat} {id next current : NodeId} {chosen? : Option Nat} {vs : List Visit} :
    g.Ranked id → chosen?.bind (g.nextNode? id) = some next → Breakdown g budget next vs current →
    Breakdown g (budget + 1) id (⟨id, .finished, chosen?⟩ :: vs) current

/-- The evaluation that fails a step at a node: that of the node, or of a data
node that feeds it. -/
def FailsStep (g : Graph) (id : NodeId) (e : EvalError) (events : List Event) : Prop :=
  ∃ role node, EndsInFailure events role node e ∧
    (role = .control ∧ node = id ∨ role = .data ∧ TransGen g.Supplies node id)

/-- What the journal tells of a walk that fails: its visits up to the node where it stops, then the
evaluation that has failed there, and no end. -/
structure BrokenOff (g : Graph) (bound : Nat) (start current : NodeId) (e : EvalError)
    (events : List Event) : Prop where
  path : Breakdown g bound start (visits events) current
  failure : FailsStep g current e events
  unended : Unended events

theorem FailsStep.append {g : Graph} {id : NodeId} {e : EvalError} {events : List Event}
    (h : FailsStep g id e events) (before : List Event) : FailsStep g id e (before ++ events) := by
  obtain ⟨role, node, hend, hnode⟩ := h
  exact ⟨role, node, hend.append before, hnode⟩

namespace Scene

variable {σ : Type u} [Behaves σ] {g : Graph} {time : FrameTime} {s : Scene σ} {e : EvalError}

/-- The journal of a failure ends with the evaluation of the node that has failed. -/
theorem Raised.endsInFailure {t : Scene σ} {events : List Event} {role : Role} {id : NodeId}
    (h : Raised time s t events role id e) : EndsInFailure events role id e := by
  obtain ⟨u, before, -, ⟨b, n, hb, hn, hanswer⟩, -, -, rfl⟩ := h
  have hend : EndsInFailure (u.evaluate time role id).events role id e := by
    unfold evaluate
    rw [hb, hn]
    simp only
    rw [hanswer, EndsInFailure, List.getLast?_append]
    rfl
  exact hend.append before

/-- An evaluation that fails is no visit. -/
theorem quiet_evaluate_of_failed {role : Role} {id : NodeId}
    (h : (s.evaluate time role id).result = .error e) : Quiet (s.evaluate time role id).events := by
  rcases s.evaluate_events time role id with ⟨hnil, -⟩ | ⟨remarks, hevents⟩
  · rw [hnil]
    exact quiet_nil
  · rw [hevents, h]
    refine (quiet_remarks remarks).append fun x hx => ?_
    rw [List.mem_singleton.1 hx]
    cases role <;> exact ⟨rfl, rfl⟩

theorem quiet_step_of_failed {memo : Memoization} {id : NodeId}
    (h : (s.step memo time id).result = .error e) : Quiet (s.step memo time id).events := by
  unfold step at h ⊢
  generalize (if memo = .perNode then { s with resolved := [] } else s) = s' at h ⊢
  have hquiet := quiet_resolve time s' id
  simp only at h ⊢
  split at h
  · exact hquiet
  · split at h
    · next herror => exact hquiet.append (quiet_evaluate_of_failed herror)
    · cases h

/-- A step that fails visits nothing, and ends where it fails. -/
theorem step_failed {memo : Memoization} {id : NodeId}
    (hshape : s.graph.clearValues = g.clearValues) (hs : s.Bound)
    (hid : (s.graph.node? id).isSome) (h : (s.step memo time id).result = .error e) :
    Quiet (s.step memo time id).events ∧ FailsStep g id e (s.step memo time id).events := by
  obtain ⟨role, node, hraised, hnode⟩ := step_raised hshape hs hid h
  exact ⟨quiet_step_of_failed h, role, node, hraised.endsInFailure, hnode⟩

/-- **A walk that fails breaks off at the node where a behavior has failed**, on any graph that
differs in its slots at most, while all nodes are bound. -/
theorem walkWithin_brokenOff {memo : Memoization} {bound : Nat} :
    ∀ (budget : Nat) (s : Scene σ) (id : NodeId), s.graph.clearValues = g.clearValues → s.Bound →
      (walkWithin memo time bound budget s id).result = .error e →
      BrokenOff g budget id (walkWithin memo time bound budget s id).current e
        (walkWithin memo time bound budget s id).events
  | 0, s, id, _, _, h => by
    unfold walkWithin at h
    split at h <;> cases h
  | budget + 1, s, id, hshape, hs, h => by
    have hrank := Graph.ranked_iff_of_clearValues hshape id
    unfold walkWithin at h ⊢
    simp only [Graph.any_isScheduled, hrank, decide_eq_true_eq] at h ⊢
    split at h
    · next hranked =>
      rw [if_pos hranked]
      have hid : (s.graph.node? id).isSome := by
        obtain ⟨n, hn⟩ := (hrank.2 hranked).exists_node?
        rw [hn]
        rfl
      have hkeeps := step_keeps memo time s id
      split at h
      · next herror =>
        cases h
        obtain ⟨hquiet, hfails⟩ := step_failed hshape hs hid herror
        exact ⟨by rw [hquiet.visits_eq]; exact .here hranked, hfails, hquiet.unended⟩
      · cases h
      · next chosen? hres =>
        obtain ⟨hvisits, hunended⟩ := visits_step hres
        have hshape' := hkeeps.shape.trans hshape
        rw [Graph.nextNode?_eq_of_bare (Graph.bare_eq_of_clearValues_eq hshape')] at h ⊢
        split at h
        · cases h
        · next next hnext =>
          have hrest := walkWithin_brokenOff budget (s.step memo time id).scene next hshape'
            (hkeeps.bound hs) h
          refine ⟨?_, hrest.failure.append _, hunended.append hrest.unended⟩
          rw [visits_append, hvisits]
          exact .onward hranked hnext hrest.path
    · cases h

end Scene

/-! ## 2. Where a list of walks fails -/

/-- With different keys, only one element can be found. -/
theorem find?_key_of_mem {α β : Type} [DecidableEq β] (key : α → β) {a : α} :
    ∀ {l : List α}, (l.map key).Nodup → a ∈ l → (l.find? fun x => key x = key a) = some a
  | [], _, h => nomatch h
  | x :: l, hnodup, h => by
    rw [List.map_cons, List.nodup_cons] at hnodup
    by_cases hx : key x = key a
    · rw [List.find?_cons_of_pos (by simpa using hx)]
      rcases List.mem_cons.1 h with rfl | h
      · rfl
      · exact absurd (List.mem_map.2 ⟨a, h, hx.symm⟩) hnodup.1
    · rw [List.find?_cons_of_neg (by simpa using hx)]
      refine find?_key_of_mem key hnodup.2 ((List.mem_cons.1 h).resolve_left ?_)
      rintro rfl
      exact hx rfl

/-- With different keys, a test can wait until the element is found. -/
theorem find?_key_and {α β : Type} [DecidableEq β] (key : α → β) (b : β) (q : α → Bool) :
    ∀ {l : List α}, (l.map key).Nodup →
      (l.find? fun x => key x = b && q x) = (l.find? fun x => key x = b).filter q
  | [], _ => rfl
  | x :: l, hnodup => by
    rw [List.map_cons, List.nodup_cons] at hnodup
    by_cases hx : key x = b
    · rw [List.find?_cons_of_pos (l := l) (p := fun x => decide (key x = b)) (by simpa using hx)]
      by_cases hq : q x = true
      · rw [List.find?_cons_of_pos (by simp [hx, hq]), Option.filter_some_pos hq]
      · -- the key does not come again
        have hnone : (l.find? fun x => key x = b && q x) = none := by
          refine List.find?_eq_none.2 fun y hy hpass => hnodup.1 (List.mem_map.2 ⟨y, hy, ?_⟩)
          simp only [Bool.and_eq_true, decide_eq_true_eq] at hpass
          exact hpass.1.trans hx.symm
        rw [List.find?_cons_of_neg (by simp [hq]), hnone,
          Option.filter_some_neg (Bool.eq_false_iff.2 hq)]
    · rw [List.find?_cons_of_neg (by simp [hx]), List.find?_cons_of_neg (by simpa using hx)]
      exact find?_key_and key b q hnodup.2

/-- **Which paused walks are kept**: each has taken one turn, of which the journal tells, and those
that have not completed are kept, in their order, at the node where they have stopped. -/
def Resumed (g : Graph) (bound : Nat) (ws kept : List PausedWalk) (events : List Event) : Prop :=
  ∃ legs : List (EntryKind × Leg), (∀ l ∈ legs, l.2.Valid g bound) ∧
    legs.map (fun l => ⟨l.1, l.2.cursor⟩) = ws ∧
    legs.filterMap (fun l => l.2.paused? l.1) = kept ∧
    walkRecords [] events = legs.map fun l => l.2.record

namespace Processor

variable {σ : Type u}

/-- A call that fails as a behavior does was ready before it walked. -/
theorem onReady_failed {p : Processor σ}
    {walking : Processor σ → Reply (Processor σ) EvalError Status} {e : EvalError}
    (h : (p.onReady walking).result = .error (.eval e)) :
    p.ensureReady.result = .ok () ∧
    (p.onReady walking).state = (walking p.ensureReady.state).state ∧
      (p.onReady walking).events = p.ensureReady.events ++ (walking p.ensureReady.state).events ∧
      (walking p.ensureReady.state).result = .error e := by
  unfold onReady at h ⊢
  cases hready : p.ensureReady.result with
  | error e' => rw [hready] at h; cases h
  | ok _ =>
    rw [hready] at h
    exact ⟨rfl, rfl, rfl, eq_error_of_mapError h⟩

/-- A call that is ready to walk fails in its walks only. -/
theorem onReady_ne_bind {p : Processor σ}
    {walking : Processor σ → Reply (Processor σ) EvalError Status}
    (h : p.ensureReady.result = .ok ()) (e : BindError) :
    (p.onReady walking).result ≠ .error (.bind e) := by
  unfold onReady
  rw [h]
  intro hbind
  cases hresult : (walking p.ensureReady.state).result with
  | error e' => rw [hresult] at hbind; cases hbind
  | ok status => rw [hresult] at hbind; cases hbind

/-- The place of a walk is that of the cursor that is kept for its entry. -/
theorem current?_of_mem {p : Processor σ} {kind : EntryKind} {cs : List Cursor} {c : Cursor}
    (hget : p.walks.get? kind = some cs) (hnodup : (cs.map Cursor.entry).Nodup) (hc : c ∈ cs) :
    p.current? kind c.entry = some c.current := by
  rw [current?, hget, Option.bind_some, find?_key_of_mem Cursor.entry hnodup hc]
  rfl

/-- The place of the walk from an entry, told by the node that is asked for. -/
theorem current_cursorOf {p : Processor σ} {kind : EntryKind}
    (h : ∀ cs, p.walks.get? kind = some cs → (cs.map Cursor.entry).Nodup) (entry : NodeId) :
    (p.cursorOf kind entry).current =
      ((p.current? kind entry).filter fun n => (p.graph.node? n).isSome).getD entry := by
  have hnodup : (((p.walks.get? kind).getD []).map Cursor.entry).Nodup := by
    cases hget : p.walks.get? kind with
    | none => exact List.nodup_nil
    | some cs => exact h cs hget
  have hasked : p.current? kind entry =
      (((p.walks.get? kind).getD []).find? fun c => c.entry = entry).map (·.current) := by
    unfold current?
    cases p.walks.get? kind <;> rfl
  rw [hasked, cursorOf, find?_key_and Cursor.entry entry _ hnodup]
  cases ((p.walks.get? kind).getD []).find? fun c => c.entry = entry with
  | none => rfl
  | some c =>
    rw [Option.filter_some, Option.map_some, Option.filter_some]
    cases (p.graph.node? c.current).isSome <;> rfl

variable [Behaves σ] {g : Graph} {bound : Nat}

theorem walkCursor_brokenOff {p last : Processor σ} {c c' : Cursor} {told : List Event}
    {e : EvalError} (hshape : p.graph.clearValues = g.clearValues)
    (hbound : p.settings.maxWalkSteps.toNat = bound) (hp : p.BindsAll)
    (h : p.walkCursor c = (last, c', told, .error e)) :
    BrokenOff g bound c.current c'.current e told := by
  subst hbound
  unfold walkCursor at h
  simp only [Prod.mk.injEq] at h
  obtain ⟨-, rfl, hevents, hresult⟩ := h
  have hbroken :=
    Scene.walkWithin_brokenOff _ ⟨p.graph, p.table, []⟩ c.current hshape hp.bound hresult
  rw [hresult] at hevents
  simp only [List.append_nil] at hevents
  rw [← hevents]
  exact hbroken

/-- **Continuing a list of cursors stops at the first walk that fails**: the cursors before it have
been walked as if they were alone, those after it are left as they were. -/
theorem walkAll_failed {e : EvalError} :
    ∀ (cs : List Cursor) (p : Processor σ), (p.walkAll cs).2.2.2 = .error e →
      ∃ before c rest mid done told status last current told',
        cs = before ++ c :: rest ∧ p.walkAll before = (mid, done, told, .ok status) ∧
        mid.walkCursor c = (last, ⟨c.entry, current⟩, told', .error e) ∧
        p.walkAll cs = (last, done ++ ⟨c.entry, current⟩ :: rest, told ++ told', .error e)
  | [], _, h => nomatch h
  | c :: cs, p, h => by
    rcases hwalk : p.walkCursor c with ⟨q, c', events, e' | outcome⟩
    · have hentry : c' = ⟨c.entry, c'.current⟩ := by
        have hkept := walkCursor_entry p c
        rw [hwalk] at hkept
        rw [← hkept]
      rw [walkAll, hwalk] at h ⊢
      cases h
      refine ⟨[], c, cs, p, [], [], .finished, q, c'.current, events, rfl, rfl, ?_, ?_⟩
      · rw [hwalk, ← hentry]
      · rw [← hentry]
        rfl
    · rw [walkAll, hwalk] at h
      obtain ⟨before, d, rest, mid, done, told, status, last, current, told', hcs, hbefore, hfail,
        hall⟩ := walkAll_failed cs q (eq_error_of_map h)
      refine ⟨c :: before, d, rest, mid,
        (if outcome = .completed then Cursor.start c.entry else c') :: done, events ++ told,
        outcome.status.and status, last, current, told', by rw [hcs]; rfl, ?_, hfail, ?_⟩
      · rw [walkAll, hwalk]
        simp only [hbefore]
        rfl
      · rw [walkAll, hwalk]
        simp only [hall, List.append_assoc]
        rfl

/-- **Resuming a list of paused walks stops at the first that fails**: those before it have been
resumed as if they were alone, those after it are left as they were. -/
theorem resumeAll_failed {e : EvalError} :
    ∀ (ws : List PausedWalk) (p : Processor σ), (p.resumeAll ws).2.2.2 = .error e →
      ∃ before w rest mid kept told status last current told',
        ws = before ++ w :: rest ∧ p.resumeAll before = (mid, kept, told, .ok status) ∧
        mid.walkCursor w.cursor = (last, ⟨w.cursor.entry, current⟩, told', .error e) ∧
        p.resumeAll ws =
          (last, kept ++ ⟨w.kind, ⟨w.cursor.entry, current⟩⟩ :: rest, told ++ told', .error e)
  | [], _, h => nomatch h
  | w :: ws, p, h => by
    rcases hwalk : p.walkCursor w.cursor with ⟨q, c, events, e' | outcome⟩
    · have hentry : c = ⟨w.cursor.entry, c.current⟩ := by
        have hkept := walkCursor_entry p w.cursor
        rw [hwalk] at hkept
        rw [← hkept]
      rw [resumeAll, hwalk] at h ⊢
      cases h
      refine ⟨[], w, ws, p, [], [], .finished, q, c.current, events, rfl, rfl, ?_, ?_⟩
      · rw [hwalk, ← hentry]
      · rw [← hentry]
        rfl
    · rw [resumeAll, hwalk] at h
      obtain ⟨before, v, rest, mid, kept, told, status, last, current, told', hws, hbefore, hfail,
        hall⟩ := resumeAll_failed ws q (eq_error_of_map h)
      refine ⟨w :: before, v, rest, mid,
        if outcome = .completed then kept else { w with cursor := c } :: kept,
        events ++ told, outcome.status.and status, last, current,
        told', by rw [hws]; rfl, ?_, hfail, ?_⟩
      · rw [resumeAll, hwalk]
        simp only [hbefore]
        rfl
      · rw [resumeAll, hwalk]
        simp only [hall, List.append_assoc]
        split <;> rfl

theorem resumeAll_resumed {p : Processor σ} {ws : List PausedWalk} {status : Status}
    (hshape : p.graph.clearValues = g.clearValues) (hbound : p.settings.maxWalkSteps.toNat = bound)
    (h : (p.resumeAll ws).2.2.2 = .ok status) {before : List Event} (hbefore : Quiet before) :
    Resumed g bound ws (p.resumeAll ws).2.1 (before ++ (p.resumeAll ws).2.2.1) := by
  obtain ⟨legs, hvalid, hwalks, hkept, hrecords⟩ := resumeAll_legs ws p hshape hbound h
  exact ⟨legs, hvalid, hwalks, hkept, (hrecords.quiet_append hbefore).walkRecords_eq⟩

/-- Where resuming keeps no walk, everything is finished. -/
theorem finished_of_resumeAll_eq_nil {status : Status} :
    ∀ (ws : List PausedWalk) (p : Processor σ), (p.resumeAll ws).2.2.2 = .ok status →
      (p.resumeAll ws).2.1 = [] → status = .finished
  | [], _, h, _ => by
    cases h
    rfl
  | w :: ws, p, h, hnil => by
    rcases hwalk : p.walkCursor w.cursor with ⟨q, c, events, e | outcome⟩
    · rw [resumeAll, hwalk] at h
      cases h
    · rw [resumeAll, hwalk] at h hnil
      obtain ⟨status', hrest⟩ := exists_ok_of_map h
      cases outcome with
      | completed =>
        have hfinished : status' = .finished := finished_of_resumeAll_eq_nil ws q hrest hnil
        subst hfinished
        simp only [hrest] at h
        exact (Except.ok.inj h).symm
      | paused => cases hnil
      | suspended => cases hnil

/-- **A run that fails stops at an entry**: the walks of the entries before it have gone on as if
they were alone, and the cursors of those after it are put back as they were. -/
theorem walkKind_failed {p : Processor σ} {kind : EntryKind} {e : EvalError}
    (h : (walkKind kind p).result = .error e) :
    ∃ before entry rest mid done told status last current told',
      p.graph.entryNodes [kind] = before ++ entry :: rest ∧
      p.walkAll (before.map (p.cursorOf kind)) = (mid, done, told, .ok status) ∧
      mid.walkCursor (p.cursorOf kind entry) = (last, ⟨entry, current⟩, told', .error e) ∧
      (walkKind kind p).events = told ++ told' ∧
      (done ++ ⟨entry, current⟩ :: rest.map (p.cursorOf kind)).map Cursor.entry =
        p.graph.entryNodes [kind] ∧
      (walkKind kind p).state = { last with
        walks := (p.walks.erase kind).insert kind
          (done ++ ⟨entry, current⟩ :: rest.map (p.cursorOf kind)) } := by
  obtain ⟨cs, c, cs', mid, done, told, status, last, current, told', hcs, hbefore, hfail, hall⟩ :=
    walkAll_failed (p.cursors kind) p h
  -- the cursors are those of the entries
  rw [cursors_eq] at hcs
  obtain ⟨before, tail, hentries, rfl, htail⟩ := List.map_eq_append_iff.1 hcs
  obtain ⟨entry, rest, rfl, rfl, rfl⟩ := List.map_eq_cons_iff.1 htail
  have hwalks := (walkAll_moved (p.cursors kind) p).1.walks
  have hkept := walkKind_entries p kind
  rw [entry_cursorOf] at hfail hall
  rw [hall] at hwalks hkept
  refine ⟨before, entry, rest, mid, done, told, status, last, current, told', hentries, hbefore,
    hfail, ?_, hkept, ?_⟩
  · rw [walkKind_events, hall]
  · rw [walkKind, hall, ← hwalks]

end Processor

/-! ## 3. The laws -/

/-- **A failing entry disturbs no other.**  Take any processor that was made for a built graph and
any list of requests to it, and a run that fails in a walk.  Then the entries of the kind are those
before the one that fails, this one, and the rest.

* The cursors before are those of walking the entries before alone, and so is what their nodes have
  done: the walk that fails sets out from there, and nothing is evaluated after it.
* The cursor of the entry that fails is at the node where the walk has broken off.  The error is the
  answer of the behavior that was bound there, or to a data node above.
* The cursors of the rest are where they were before the call, or at their entry if they are new or
  have lost their node.

Together they are one cursor for each entry, in the order of the entries.  The cursors of other
kinds and the paused walks are as they were when the processor was ready to run. -/
theorem failing_entry_disturbs_no_other {σ : Type u} [Behaves σ] (g : Graph) (built : g.Built)
    (r : Registry σ) (settings : Settings) (told : List Event) (p : Processor σ)
    (fresh : Processor.new g r settings = (told, .ok p)) (requests : List Request)
    (kind : EntryKind) (e : EvalError)
    (failed : ((Request.serveAll p requests).run kind).result = .error (.eval e)) :
    let q := Request.serveAll p requests
    let ready := q.ensureReady.state
    let after := (q.run kind).state
    ∃ before entry rest mid done told₁ status last current told₂,
      ready.graph.entryNodes [kind] = before ++ entry :: rest ∧
      ready.walkAll (before.map (ready.cursorOf kind)) = (mid, done, told₁, .ok status) ∧
      mid.walkCursor (ready.cursorOf kind entry) = (last, ⟨entry, current⟩, told₂, .error e) ∧
      BrokenOff ready.graph ready.settings.maxWalkSteps.toNat (ready.cursorOf kind entry).current
        current e told₂ ∧
      mid.Raised last told₂ e ∧
      (q.run kind).events = q.ensureReady.events ++ told₁ ++ told₂ ∧
      after.walks.get? kind = some (done ++ ⟨entry, current⟩ :: rest.map (ready.cursorOf kind)) ∧
      (done ++ ⟨entry, current⟩ :: rest.map (ready.cursorOf kind)).map Cursor.entry =
        after.graph.entryNodes [kind] ∧
      (∀ x ∈ rest, after.current? kind x =
        some (((q.current? kind x).filter fun n => (q.graph.node? n).isSome).getD x)) ∧
      after = { last with walks := after.walks } ∧
      (∀ other ≠ kind, after.walks.get? other = ready.walks.get? other) ∧
      after.paused = ready.paused := by
  intro q ready after
  have hsynced : p.Synced := .new built.intact fresh
  have hq : q.Synced := Request.serveAll_synced requests hsynced
  have htracked : q.Tracked := Request.serveAll_tracked requests (.new fresh) hsynced
  have hprepared := q.ensureReady_prepared.1
  obtain ⟨hready, hstate, hevents, hresult⟩ := Processor.onReady_failed (q.run_eq kind ▸ failed)
  rw [← q.run_eq kind] at hstate hevents
  obtain ⟨before, entry, rest, mid, done, told₁, status, last, current, told₂, hentries,
    hbefore, hfail, hwalked, hkept, hleft⟩ := Processor.walkKind_failed hresult
  have hafter : after = _ := hstate.trans hleft
  have hmid := Processor.walkAll_moved (before.map (ready.cursorOf kind)) ready
  have hstill := (Processor.walkAll_walked (before.map (ready.cursorOf kind)) ready).still
  have hlast := Processor.walkCursor_moved mid (ready.cursorOf kind entry)
  rw [hbefore] at hmid hstill
  rw [hfail] at hlast
  have hbinds : mid.BindsAll := (hq.ensureReady.2 hready).1.still hstill
  have hbroken : BrokenOff ready.graph ready.settings.maxWalkSteps.toNat
      (ready.cursorOf kind entry).current current e told₂ :=
    Processor.walkCursor_brokenOff hmid.1.shape (by rw [hmid.1.settings]) hbinds hfail
  have hget : after.walks.get? kind =
      some (done ++ ⟨entry, current⟩ :: rest.map (ready.cursorOf kind)) := by
    rw [hafter, OrderedMap.get?_insert, if_pos rfl]
  refine ⟨before, entry, rest, mid, done, told₁, status, last, current, told₂, hentries,
    hbefore, hfail, hbroken, Processor.walkCursor_raised hbinds hfail, ?_, hget, ?_,
    fun x hx => ?_, ?_, fun other hother => ?_, ?_⟩
  · rw [hevents, hwalked, List.append_assoc]
  · rw [hkept, hafter, Graph.entryNodes_eq_of_bare (hmid.1.trans hlast.1).bare]
  · -- the cursor of the entry is kept, and was made from that of the last call
    have hmem : ready.cursorOf kind x ∈
        done ++ ⟨entry, current⟩ :: rest.map (ready.cursorOf kind) :=
      List.mem_append_right _ (List.mem_cons_of_mem _ (List.mem_map_of_mem hx))
    have hplace := Processor.current?_of_mem hget
      (hkept ▸ Graph.nodup_entryNodes_of_nodeKey hq.ensureReady.1.nodeKey [kind]) hmem
    rw [Processor.entry_cursorOf, Processor.current_cursorOf (htracked.ensureReady.cursors kind),
      Processor.current?_congr (congrArg (OrderedMap.get? · kind) hprepared.walks)] at hplace
    rw [hplace]
    simp only [Graph.node?_isSome_eq_of_bare hprepared.bare]
  · rw [hafter]
  · rw [hafter, OrderedMap.get?_insert, if_neg hother, OrderedMap.get?_erase, if_neg hother]
  · rw [hafter]
    exact hlast.2.trans hmid.2

/-- Four entries.  Below the first a node waits for one tick, below the second and the last for
five; below the third a node fails after another has waited for one tick. -/
def brittleEdits : List Edit :=
  [ .addNode (exampleNode 0 (Probe.entryType .update)),
    .addNode ((exampleNode 1 Probe.actionType).withSetting "unfinished" (.int 1)),
    .addNode (exampleNode 2 (Probe.entryType .update)),
    .addNode ((exampleNode 3 Probe.actionType).withSetting "unfinished" (.int 5)),
    .addNode (exampleNode 4 (Probe.entryType .update)),
    .addNode ((exampleNode 5 Probe.actionType).withSetting "unfinished" (.int 1)),
    .addNode ((exampleNode 6 Probe.actionType).withSetting "fail" (.bool true)),
    .addNode (exampleNode 7 (Probe.entryType .update)),
    .addNode ((exampleNode 8 Probe.actionType).withSetting "unfinished" (.int 5)),
    exampleLink 0 0 "Exec" 1 "Exec",
    exampleLink 1 2 "Exec" 3 "Exec",
    exampleLink 2 4 "Exec" 5 "Exec",
    exampleLink 3 5 "Exec" 6 "Exec",
    exampleLink 4 7 "Exec" 8 "Exec" ]

def brittleGraph : Graph := Edit.runAll (.empty "brittle") brittleEdits

theorem brittleGraph_built : brittleGraph.Built :=
  (Graph.Built.empty "brittle").runAll brittleEdits (by decide +kernel)

/-- The brittle script on a new processor. -/
def brittleProcessor : Processor Probe.Behavior where
  graph := brittleGraph
  registry := Probe.registry
  table := (Table.sync .empty Probe.registry brittleGraph).1
  settings := .standard
  kinds := EntryKind.all
  walks := .empty
  paused := []
  scheduledAt := none
  boundAt := brittleGraph.revision
  report := .none
  time := .zero

theorem brittleProcessor_new :
    ∃ told, Processor.new brittleGraph Probe.registry .standard = (told, .ok brittleProcessor) := by
  have hok : (Table.sync .empty Probe.registry brittleGraph).2.2 = .ok () := by decide +kernel
  unfold Processor.new
  simp only [hok]
  exact ⟨_, rfl⟩

/-- The error of the node that fails in the brittle script. -/
def brittleError : EvalError := .custom ("probe " ++ (exampleId 6).label ++ " failed")

/-- The second run of the brittle script fails below its third entry.  The first walk has come to
its end by then, the second has gone on waiting, and the last is where the first run has left it. -/
theorem brittle_run_disturbs_no_other :
    let q := Request.serveAll brittleProcessor [.call (.run .update)]
    let ready := q.ensureReady.state
    let cursors : List Cursor := [⟨exampleId 0, exampleId 0⟩, ⟨exampleId 2, exampleId 3⟩,
      ⟨exampleId 4, exampleId 6⟩, ⟨exampleId 7, exampleId 8⟩]
    (q.run .update).result = .error (.eval brittleError) ∧
    (q.run .update).state.walks.get? .update = some cursors ∧
    (q.run .update).state.paused = ready.paused ∧
    ∃ entry current told, ⟨entry, current⟩ ∈ cursors ∧
      BrokenOff ready.graph ready.settings.maxWalkSteps.toNat
        (ready.cursorOf .update entry).current current brittleError told := by
  obtain ⟨told, fresh⟩ := brittleProcessor_new
  have hlaw := failing_entry_disturbs_no_other brittleGraph brittleGraph_built Probe.registry
    .standard told brittleProcessor fresh [.call (.run .update)] .update brittleError
  have failed : ((Request.serveAll brittleProcessor [.call (.run .update)]).run .update).result =
      .error (.eval brittleError) := by decide +kernel
  have left : ((Request.serveAll brittleProcessor [.call (.run .update)]).run
      .update).state.walks.get? .update = some [⟨exampleId 0, exampleId 0⟩,
        ⟨exampleId 2, exampleId 3⟩, ⟨exampleId 4, exampleId 6⟩, ⟨exampleId 7, exampleId 8⟩] := by
    decide +kernel
  -- nothing else about the processor is needed
  generalize Request.serveAll brittleProcessor [.call (.run .update)] = q at hlaw failed left ⊢
  obtain ⟨_, entry, _, _, _, _, _, _, current, told', -, -, -, hbroken, -, -, hget, -, -, -, -,
    hpaused⟩ := hlaw failed
  refine ⟨failed, left, hpaused, entry, current, told', ?_, hbroken⟩
  rw [← Option.some.inj (hget.symm.trans left)]
  exact List.mem_append_right _ List.mem_cons_self

/-- **Resuming neither loses nor doubles a paused walk.**  Take any processor that was made for a
graph whose nodes stand under their own names, any list of requests to it, and resume the paused
walks.  Once the processor is ready, there are two cases.

* If no walk fails, those that have not completed are kept, and the answer is that everything is
  finished exactly if there are none of these.
* If a walk fails, those before it are kept as if they had been resumed alone, with what their nodes
  have done.  The walk that fails is put back at the node where it has broken off, and its error is
  the answer of the behavior that was bound there, or to a data node above.  Those after it are put
  back as they were, and nothing of theirs is evaluated. -/
theorem paused_walks_are_neither_lost_nor_doubled {σ : Type u} [Behaves σ] (g : Graph)
    (keyed : ∀ id n, g.node? id = some n → n.id = id) (r : Registry σ) (settings : Settings)
    (told : List Event) (p : Processor σ) (fresh : Processor.new g r settings = (told, .ok p))
    (requests : List Request) :
    let q := Request.serveAll p requests
    let ready := q.ensureReady.state
    let after := q.runPaused.state
    let bound := ready.settings.maxWalkSteps.toNat
    (q.ensureReady.result = .ok () → ∀ e, q.runPaused.result ≠ .error (.bind e)) ∧
    (∀ status, q.runPaused.result = .ok status →
      Resumed ready.graph bound ready.paused after.paused q.runPaused.events ∧
      (status = .finished ↔ after.paused = [])) ∧
    ∀ e, q.runPaused.result = .error (.eval e) →
      ∃ before w rest mid kept told₁ status last current told₂,
        ready.paused = before ++ w :: rest ∧
        Processor.resumeAll { ready with paused := [] } before = (mid, kept, told₁, .ok status) ∧
        Resumed ready.graph bound before kept told₁ ∧
        mid.walkCursor w.cursor = (last, ⟨w.cursor.entry, current⟩, told₂, .error e) ∧
        BrokenOff ready.graph bound w.cursor.current current e told₂ ∧
        mid.Raised last told₂ e ∧
        q.runPaused.events = q.ensureReady.events ++ told₁ ++ told₂ ∧
        after = { last with paused := kept ++ ⟨w.kind, ⟨w.cursor.entry, current⟩⟩ :: rest } := by
  intro q ready after bound
  have hq : q.Synced := Request.serveAll_synced requests (.new_of_nodeKey keyed fresh)
  obtain ⟨-, hquiet, -⟩ := q.ensureReady_prepared
  refine ⟨fun hready e => ?_, fun status hok => ?_, fun e failed => ?_⟩
  · rw [Processor.runPaused_eq]
    exact Processor.onReady_ne_bind hready e
  · obtain ⟨-, hstate, hevents, hresult⟩ := Processor.onReady_ok (q.runPaused_eq ▸ hok)
    rw [← q.runPaused_eq] at hstate hevents
    have hafter : after.paused = _ := congrArg Processor.paused hstate
    rw [hafter, hevents]
    refine ⟨Processor.resumeAll_resumed rfl rfl hresult hquiet, ?_,
      Processor.finished_of_resumeAll_eq_nil _ _ hresult⟩
    rintro rfl
    exact Processor.resumeAll_finished _ _ hresult
  · obtain ⟨hready, hstate, hevents, hresult⟩ := Processor.onReady_failed (q.runPaused_eq ▸ failed)
    rw [← q.runPaused_eq] at hstate hevents
    obtain ⟨before, w, rest, mid, kept, told₁, status, last, current, told₂, hwalks, hbefore, hfail,
      hall⟩ := Processor.resumeAll_failed ready.paused { ready with paused := [] } hresult
    have hmid := Processor.resumeAll_moved before { ready with paused := [] }
    have hstill := (Processor.resumeAll_walked before { ready with paused := [] }).still
    have hresumed : Resumed ready.graph bound before
        (Processor.resumeAll { ready with paused := [] } before).2.1
        (Processor.resumeAll { ready with paused := [] } before).2.2.1 :=
      Processor.resumeAll_resumed rfl rfl (by rw [hbefore]) quiet_nil
    rw [hbefore] at hmid hstill hresumed
    have hready : Processor.BindsAll { ready with paused := [] } := (hq.ensureReady.2 hready).1
    have hbinds : mid.BindsAll := hready.still hstill
    have hbroken : BrokenOff ready.graph bound w.cursor.current current e told₂ :=
      Processor.walkCursor_brokenOff hmid.shape (by rw [hmid.settings]) hbinds hfail
    refine ⟨before, w, rest, mid, kept, told₁, status, last, current, told₂, hwalks, hbefore,
      hresumed, hfail, hbroken, Processor.walkCursor_raised hbinds hfail, ?_, ?_⟩
    · rw [hevents, Processor.walkPaused_events, hall, List.append_assoc]
    · show q.runPaused.state = _
      rw [hstate, Processor.walkPaused, hall]

/-- Of four walks that were started in the brittle script, resuming ends the first, keeps
the second, fails in the third, and leaves the last alone.  Without the third and the
last, it does not fail. -/
theorem brittle_walks_are_kept :
    let q := Request.serveAll brittleProcessor
      [.call (.runFrom [exampleId 0, exampleId 2, exampleId 4, exampleId 7] .event)]
    let sound :=
      Request.serveAll brittleProcessor [.call (.runFrom [exampleId 0, exampleId 2] .event)]
    q.runPaused.result = .error (.eval brittleError) ∧
    q.runPaused.state.paused = [⟨.event, ⟨exampleId 2, exampleId 3⟩⟩,
      ⟨.event, ⟨exampleId 4, exampleId 6⟩⟩, ⟨.event, ⟨exampleId 7, exampleId 8⟩⟩] ∧
    (∃ mid last : Processor Probe.Behavior, ∃ told₂, mid.Raised last told₂ brittleError ∧
      q.runPaused.state.graph = last.graph) ∧
    sound.runPaused.result = .ok .unfinished ∧
    sound.runPaused.state.paused = [⟨.event, ⟨exampleId 2, exampleId 3⟩⟩] ∧
    Resumed sound.ensureReady.state.graph sound.ensureReady.state.settings.maxWalkSteps.toNat
      sound.ensureReady.state.paused sound.runPaused.state.paused sound.runPaused.events := by
  obtain ⟨told, fresh⟩ := brittleProcessor_new
  have hlaw := paused_walks_are_neither_lost_nor_doubled brittleGraph
    brittleGraph_built.intact.nodeKey Probe.registry .standard told brittleProcessor fresh
  have hq := hlaw [.call (.runFrom [exampleId 0, exampleId 2, exampleId 4, exampleId 7] .event)]
  have hsound := hlaw [.call (.runFrom [exampleId 0, exampleId 2] .event)]
  have failed : (Request.serveAll brittleProcessor [.call (.runFrom [exampleId 0, exampleId 2,
      exampleId 4, exampleId 7] .event)]).runPaused.result = .error (.eval brittleError) := by
    decide +kernel
  have put : (Request.serveAll brittleProcessor [.call (.runFrom [exampleId 0, exampleId 2,
      exampleId 4, exampleId 7] .event)]).runPaused.state.paused =
      [⟨.event, ⟨exampleId 2, exampleId 3⟩⟩, ⟨.event, ⟨exampleId 4, exampleId 6⟩⟩,
        ⟨.event, ⟨exampleId 7, exampleId 8⟩⟩] := by decide +kernel
  have done : (Request.serveAll brittleProcessor [.call (.runFrom [exampleId 0, exampleId 2]
      .event)]).runPaused.result = .ok .unfinished := by decide +kernel
  have left : (Request.serveAll brittleProcessor [.call (.runFrom [exampleId 0, exampleId 2]
      .event)]).runPaused.state.paused = [⟨.event, ⟨exampleId 2, exampleId 3⟩⟩] := by decide +kernel
  generalize Request.serveAll brittleProcessor _ = q at hq failed put ⊢
  generalize Request.serveAll brittleProcessor _ = sound at hsound done left ⊢
  obtain ⟨_, _, _, mid, _, _, _, last, _, told₂, -, -, -, -, -, hraised, -, hafter⟩ :=
    hq.2.2 brittleError failed
  exact ⟨failed, put, ⟨mid, last, told₂, hraised, by rw [hafter]⟩, done, left,
    (hsound.2.1 _ done).1⟩

end FlowScript
