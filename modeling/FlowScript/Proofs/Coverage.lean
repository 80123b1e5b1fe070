/-
# Which walks an update covers

An instance keeps unfinished walks in two stores: a cursor for each entry that a run has walked
from, and the list of paused walks from events and zones.  An update resumes the list and runs the
update entries.  It does not touch the cursors of the other kinds, so the status it answers says
nothing about them:

* `Instance.finished_update_covers`: after an update that answers that everything is finished, no
  walk is paused and the update entries are at rest; the instance is settled exactly if the walks
  from start, trigger and collision entries were at rest before the update;
* `finished_update_misses_start`: one tick after the start of a script that waits below its start
  entry, an update answers so while the walk is still at the waiting node.

Events and zones never leave a cursor (`HostCall.perform_uncursored`), which is why the four other
kinds are all that an update can miss.
-/
import FlowScript.Instance
import FlowScript.Proofs.Sessions

namespace FlowScript

universe u

/-! ## 1. A finished status -/

theorem Status.and_eq_finished {a b : Status} (h : a.and b = .finished) :
    a = .finished ∧ b = .finished := by
  cases a with
  | finished => exact ⟨rfl, h⟩
  | unfinished => cases h

theorem WalkOutcome.eq_completed {o : WalkOutcome} (h : o.status = .finished) : o = .completed := by
  cases o with
  | completed => rfl
  | paused => cases h
  | suspended => cases h

/-- A combined status is finished if both of its parts are. -/
theorem finished_of_map_and {ε : Type} {s : Status} {x : Except ε Status}
    (h : x.map s.and = .ok .finished) : s = .finished ∧ x = .ok .finished := by
  cases x with
  | error e => cases h
  | ok t =>
    obtain ⟨hs, rfl⟩ := Status.and_eq_finished (Except.ok.inj h)
    exact ⟨hs, rfl⟩

namespace Processor

variable {σ : Type u}

/-- The walks from the entries of a kind have not left them. -/
def Resting (p : Processor σ) (kind : EntryKind) : Prop :=
  ∀ entry node, p.current? kind entry = some node → node = entry

theorem current?_congr {p q : Processor σ} {kind : EntryKind}
    (h : q.walks.get? kind = p.walks.get? kind) (entry : NodeId) :
    q.current? kind entry = p.current? kind entry := by
  rw [current?, current?, h]

theorem Resting.congr {p q : Processor σ} {kind : EntryKind}
    (h : q.walks.get? kind = p.walks.get? kind) : q.Resting kind ↔ p.Resting kind := by
  simp only [Resting, current?_congr h]

theorem resting_of_walks {p : Processor σ} {kind : EntryKind} {cs : List Cursor}
    (hwalks : p.walks.get? kind = some cs) (hcs : ∀ c ∈ cs, c.current = c.entry) :
    p.Resting kind := by
  intro entry node h
  rw [current?, hwalks] at h
  obtain ⟨c, hfind, rfl⟩ := Option.map_eq_some_iff.1 h
  have hentry : c.entry = entry := by simpa using List.find?_some hfind
  rw [hcs c (List.mem_of_find?_eq_some hfind), hentry]

theorem resting_of_none {p : Processor σ} {kind : EntryKind} (hwalks : p.walks.get? kind = none) :
    p.Resting kind := by
  intro entry node h
  rw [current?, hwalks] at h
  cases h

theorem AtRest.resting {p : Processor σ} (h : p.AtRest) (kind : EntryKind) : p.Resting kind := by
  cases hwalks : p.walks.get? kind with
  | none => exact resting_of_none hwalks
  | some cs => exact resting_of_walks hwalks (h kind cs hwalks)

variable [Behaves σ]

/-- Where continuing a list of cursors is finished, every cursor is back at its entry. -/
theorem walkAll_finished :
    ∀ (cs : List Cursor) (p : Processor σ), (p.walkAll cs).2.2.2 = .ok .finished →
      ∀ c ∈ (p.walkAll cs).2.1, c.current = c.entry
  | [], _, _ => List.forall_mem_nil _
  | c :: cs, p, h => by
    unfold walkAll at h ⊢
    split at h
    · cases h
    · next q c' events outcome hwalk =>
      obtain ⟨hstatus, hrest⟩ := finished_of_map_and (x := (q.walkAll cs).2.2.2) h
      refine List.forall_mem_cons.2 ⟨?_, walkAll_finished cs q hrest⟩
      rw [if_pos (WalkOutcome.eq_completed hstatus)]
      rfl

/-- Where resuming a list of paused walks is finished, none of them is kept. -/
theorem resumeAll_finished :
    ∀ (ws : List PausedWalk) (p : Processor σ), (p.resumeAll ws).2.2.2 = .ok .finished →
      (p.resumeAll ws).2.1 = []
  | [], _, _ => rfl
  | w :: ws, p, h => by
    unfold resumeAll at h ⊢
    split at h
    · cases h
    · next q c events outcome hwalk =>
      obtain ⟨hstatus, hrest⟩ := finished_of_map_and (x := (q.resumeAll ws).2.2.2) h
      show (if outcome = .completed then (q.resumeAll ws).2.1 else _) = []
      rw [if_pos (WalkOutcome.eq_completed hstatus)]
      exact resumeAll_finished ws q hrest

theorem runPaused_finished {p : Processor σ} (h : p.runPaused.result = .ok .finished) :
    p.runPaused.state.paused = [] := by
  rw [runPaused_eq] at h ⊢
  obtain ⟨-, hstate, -, hresult⟩ := onReady_ok h
  rw [hstate, walkPaused_paused]
  exact resumeAll_finished _ _ hresult

/-- A run that is finished leaves the entries of its kind at rest and pauses no walk. -/
theorem run_finished {p : Processor σ} {kind : EntryKind}
    (h : (p.run kind).result = .ok .finished) :
    (p.run kind).state.Resting kind ∧ (p.run kind).state.paused.Sublist p.paused := by
  rw [run_eq] at h ⊢
  obtain ⟨-, hstate, -, hresult⟩ := onReady_ok h
  rw [hstate]
  refine ⟨resting_of_walks ?_ (walkAll_finished _ _ hresult), ?_⟩
  · rw [walkKind_walks, OrderedMap.get?_insert, if_pos rfl]
  · rw [walkKind_paused]
    exact (ensureReady_prepared p).1.paused

end Processor

/-! ## 2. Calls of a host -/

/-- What a host asks of an instance. -/
inductive HostCall
  | init
  | runStart
  | runUpdate (delta : Single)
  | deliver (m : Message)

namespace EntryKind

/-- The kinds whose entries a host reaches as seeds only. -/
def seeded : List EntryKind := [event, zoneEvent]

/-- The kinds whose entries a host runs, but not in an update. -/
def signalled : List EntryKind := [start, triggerEntered, triggerExited, collision]

theorem mem_signalled_iff (kind : EntryKind) :
    kind ∈ signalled ↔ kind ≠ update ∧ kind ∉ seeded := by
  cases kind <;> decide

end EntryKind

namespace Instance

variable {σ : Type u}

/-- No walk of the instance is left unfinished. -/
def Settled (i : Instance σ) : Prop :=
  i.processor.paused = [] ∧ ∀ kind, i.processor.Resting kind

theorem refresh_processor (i : Instance σ) : i.refresh.1.processor = i.processor := by
  unfold refresh
  simp only
  split <;> rfl

theorem writePayload_walks (i : Instance σ) (ids : List NodeId) (v : Value) :
    (i.writePayload ids v).processor.walks = i.processor.walks :=
  foldl_eq_of_step (f := fun p id => p.setOutput id Library.payloadSlot v) Processor.walks
    (fun _ _ => rfl) ids i.processor

variable [Behaves σ]

/-- What an update does to the processor: it moves the clock, resumes what is paused, and runs the
update entries unless that has failed. -/
theorem runUpdate_processor (i : Instance σ) (delta : Single) :
    (i.runUpdate delta).state.processor = (i.processor.advance delta).runPaused.state ∨
    (i.runUpdate delta).state.processor =
      ((i.processor.advance delta).runPaused.state.run .update).state := by
  unfold runUpdate
  simp only
  split
  · exact Or.inl rfl
  · exact Or.inr rfl

/-- An update moves no cursor of another kind, whatever comes of it. -/
theorem runUpdate_walks (i : Instance σ) (delta : Single) {kind : EntryKind} (h : kind ≠ .update) :
    (i.runUpdate delta).state.processor.walks.get? kind = i.processor.walks.get? kind := by
  have hpaused : (i.processor.advance delta).runPaused.state.walks.get? kind =
      i.processor.walks.get? kind :=
    Processor.perform_walks (i.processor.advance delta) (c := .runPaused) nofun
  have hrun : ((i.processor.advance delta).runPaused.state.run .update).state.walks.get? kind =
      (i.processor.advance delta).runPaused.state.walks.get? kind :=
    Processor.perform_walks _ (c := .run .update) fun hcall => h (Call.run.inj hcall).symm
  rcases runUpdate_processor i delta with hstate | hstate
  · rw [hstate]
    exact hpaused
  · rw [hstate]
    exact hrun.trans hpaused

/-- **What a finished update has covered**: the paused walks and the update entries. -/
theorem runUpdate_finished {i : Instance σ} {delta : Single}
    (h : (i.runUpdate delta).result = .ok .finished) :
    (i.runUpdate delta).state.processor.paused = [] ∧
      (i.runUpdate delta).state.processor.Resting .update := by
  unfold runUpdate at h ⊢
  simp only at h ⊢
  split at h
  · cases h
  · next s hresumed =>
    obtain ⟨rfl, hrun⟩ := finished_of_map_and h
    obtain ⟨hresting, hsub⟩ := Processor.run_finished hrun
    rw [Processor.runPaused_finished hresumed, List.sublist_nil] at hsub
    exact ⟨hsub, hresting⟩

end Instance

namespace HostCall

variable {σ : Type u} [Behaves σ]

/-- The instance after a call, failing or not. -/
def perform (i : Instance σ) : HostCall → Instance σ
  | init => i.init.state
  | runStart => i.runStart.state
  | runUpdate delta => (i.runUpdate delta).state
  | deliver m => (i.deliver m).state

/-- The instance after a list of calls. -/
def performAll (i : Instance σ) (calls : List HostCall) : Instance σ := calls.foldl perform i

/-- A run with a payload moves the cursors of its own kind only. -/
theorem runWithPayload_walks (i : Instance σ) (events : List Event) {kind other : EntryKind}
    (v : Value) (h : kind ≠ other) :
    (i.runWithPayload events other v).state.processor.walks.get? kind =
      i.processor.walks.get? kind := by
  have hrun : (i.runWithPayload events other v).state.processor.walks.get? kind =
      (i.writePayload (i.processor.graph.entryNodes [other]) v).processor.walks.get? kind :=
    Processor.perform_walks _ (c := .run other) fun hcall => h (Call.run.inj hcall).symm
  rw [hrun, Instance.writePayload_walks]

/-- Walks from seeds move no cursor. -/
theorem runFrom_walks (i : Instance σ) (events : List Event) (seeds : List NodeId)
    (other kind : EntryKind) :
    (i.after events (i.processor.runFrom seeds other)).state.processor.walks.get? kind =
      i.processor.walks.get? kind :=
  Processor.perform_walks i.processor (c := .runFrom seeds other) nofun

/-- A message moves no cursor of events and zones. -/
theorem deliver_walks (i : Instance σ) (m : Message) {kind : EntryKind}
    (h : kind ∈ EntryKind.seeded) :
    (i.deliver m).state.processor.walks.get? kind = i.processor.walks.get? kind := by
  have hrefresh := i.refresh_processor
  unfold Instance.deliver
  generalize i.refresh = r at hrefresh
  obtain ⟨j, events⟩ := r
  simp only at hrefresh
  rw [← hrefresh]
  cases m with
  | triggerEntered other =>
    exact runWithPayload_walks j events _ (ne_of_mem_of_not_mem h (by decide))
  | triggerExited other =>
    exact runWithPayload_walks j events _ (ne_of_mem_of_not_mem h (by decide))
  | collisionEntered other =>
    simp only
    split
    · exact runWithPayload_walks j events _ (ne_of_mem_of_not_mem h (by decide))
    · rfl
  | event name payload =>
    simp only
    split
    · rfl
    · rw [runFrom_walks]
      cases payload with
      | none => rfl
      | some v => exact congrArg (OrderedMap.get? · kind) (j.writePayload_walks _ v)
  | zone zone activation other =>
    simp only
    split
    · rfl
    · rw [runFrom_walks]
      exact congrArg (OrderedMap.get? · kind) (j.writePayload_walks _ _)

theorem init_walks (i : Instance σ) (kind : EntryKind) :
    i.init.state.processor.walks.get? kind = i.processor.reset.1.walks.get? kind := by
  have hprepared := (Processor.ensureReady_prepared i.processor.reset.1).1.walks
  unfold Instance.init
  simp only
  split
  · rw [hprepared]
  · show ((Instance.new _).refresh.1.processor.walks).get? kind = _
    rw [Instance.refresh_processor]
    exact congrArg (OrderedMap.get? · kind) hprepared

/-- **Events and zones have no cursors**, and no call gives them one. -/
theorem perform_uncursored {i : Instance σ} (c : HostCall) {kind : EntryKind}
    (hkind : kind ∈ EntryKind.seeded) (h : i.processor.walks.get? kind = none) :
    (c.perform i).processor.walks.get? kind = none := by
  cases c with
  | init =>
    rw [perform, init_walks]
    show (i.processor.walks.map _).get? kind = none
    rw [OrderedMap.get?_map, h]
    rfl
  | runStart =>
    have hrun : i.runStart.state.processor.walks.get? kind = i.processor.walks.get? kind :=
      Processor.perform_walks i.processor (c := .run .start)
        fun hcall => ne_of_mem_of_not_mem hkind (by decide) (Call.run.inj hcall).symm
    exact hrun.trans h
  | runUpdate delta =>
    exact (i.runUpdate_walks delta (ne_of_mem_of_not_mem hkind (by decide))).trans h
  | deliver m => exact (deliver_walks i m hkind).trans h

theorem performAll_uncursored {kind : EntryKind} (hkind : kind ∈ EntryKind.seeded) :
    ∀ (calls : List HostCall) (i : Instance σ), i.processor.walks.get? kind = none →
      (performAll i calls).processor.walks.get? kind = none
  | [], _, h => h
  | c :: calls, _, h => performAll_uncursored hkind calls _ (c.perform_uncursored hkind h)

end HostCall

/-! ## 3. The law, and what it does not cover -/

namespace Instance

variable {σ : Type u} [Behaves σ]

/-- **What a finished update says about the walks of an instance.**  Whatever a host has asked of a
new instance before, if an update answers that everything is finished, then no walk is paused and
the walks from update entries are back at them; the walks from entries of every other kind are where
they were before the update; and so no walk is left unfinished exactly if none from a start, trigger
or collision entry was under way before the update. -/
theorem finished_update_covers (g : Graph) (r : Registry σ) (settings : Settings)
    (told : List Event) (p : Processor σ) (fresh : Processor.new g r settings = (told, .ok p))
    (calls : List HostCall) (delta : Single)
    (finished : ((HostCall.performAll (.new p) calls).runUpdate delta).result = .ok .finished) :
    let before := HostCall.performAll (.new p) calls
    let after := (before.runUpdate delta).state
    after.processor.paused = [] ∧ after.processor.Resting .update ∧
    (∀ kind entry, kind ≠ .update →
      after.processor.current? kind entry = before.processor.current? kind entry) ∧
    (after.Settled ↔ ∀ kind ∈ EntryKind.signalled, before.processor.Resting kind) := by
  intro before after
  obtain ⟨hpaused, hupdate⟩ := runUpdate_finished finished
  have hwalks : ∀ kind ≠ .update,
      after.processor.walks.get? kind = before.processor.walks.get? kind :=
    fun kind hkind => before.runUpdate_walks delta hkind
  have hempty : p.walks = .empty := by
    unfold Processor.new at fresh
    simp only at fresh
    split at fresh
    · cases fresh
    · cases fresh
      rfl
  have hseeded : ∀ kind ∈ EntryKind.seeded, before.processor.Resting kind := by
    intro kind hkind
    exact Processor.resting_of_none (HostCall.performAll_uncursored hkind calls (.new p)
      (show p.walks.get? kind = none by rw [hempty]; rfl))
  refine ⟨hpaused, hupdate,
    fun kind entry hkind => Processor.current?_congr (hwalks kind hkind) entry,
    fun hsettled kind hkind => ?_, fun hresting => ⟨hpaused, fun kind => ?_⟩⟩
  · have hne := ((EntryKind.mem_signalled_iff kind).1 hkind).1
    exact (Processor.Resting.congr (hwalks kind hne)).1 (hsettled.2 kind)
  · by_cases hne : kind = .update
    · exact hne ▸ hupdate
    · refine (Processor.Resting.congr (hwalks kind hne)).2 ?_
      by_cases hkind : kind ∈ EntryKind.seeded
      · exact hseeded kind hkind
      · exact hresting kind ((EntryKind.mem_signalled_iff kind).2 ⟨hne, hkind⟩)

end Instance

/-- A script that waits below its start entry. -/
def waitingEdits : List Edit :=
  [ .addNode (exampleNode 0 (Library.entryType Library.onStart "On Start" .start "" none)),
    .addNode (exampleNode 1 Library.waitType),
    exampleLink 0 0 "Exec" 1 "Exec" ]

def waitingGraph : Graph := Edit.runAll (.empty "waiting") waitingEdits

/-- The script on a new processor. -/
def waitingProcessor : Processor Library.Behavior :=
  { exampleProcessor with
    graph := waitingGraph
    table := (Table.sync .empty Library.registry waitingGraph).1
    settings := .standard
    boundAt := waitingGraph.revision }

theorem waitingProcessor_new :
    ∃ told, Processor.new waitingGraph Library.registry .standard =
      (told, .ok waitingProcessor) := by
  have hok : (Table.sync .empty Library.registry waitingGraph).2.2 = .ok () := by decide +kernel
  unfold Processor.new
  simp only [hok]
  exact ⟨_, rfl⟩

/-- When the wait is over and the start entries have been run once more, an update finishes with no
walk left unfinished. -/
theorem waiting_is_settled_in_the_end :
    let calls : List HostCall := [.init, .runStart, .runUpdate .one, .runStart]
    let before := HostCall.performAll (.new waitingProcessor) calls
    (before.runUpdate .one).result = .ok .finished ∧ (before.runUpdate .one).state.Settled := by
  intro calls before
  obtain ⟨told, fresh⟩ := waitingProcessor_new
  have finished : (before.runUpdate .one).result = .ok .finished := by decide +kernel
  have rest : ∀ e ∈ before.processor.walks.entries, ∀ c ∈ e.2, c.current = c.entry := by
    decide +kernel
  have resting : before.processor.AtRest := fun kind cs hget =>
    rest (kind, cs) ((OrderedMap.get?_eq_some_iff _ _ _).1 hget)
  exact ⟨finished, (Instance.finished_update_covers waitingGraph Library.registry .standard told
    waitingProcessor fresh calls .one finished).2.2.2.2 fun kind _ => resting.resting kind⟩

/-- **An update can finish while a walk is under way.**  Half a second after the start of the
script, which waits for one second, the update answers that everything is finished, although the
walk from the start entry is at the waiting node. -/
theorem finished_update_misses_start :
    Edit.FreshAll (.empty "waiting") waitingEdits ∧
    (∃ told, Processor.new waitingGraph Library.registry .standard = (told, .ok waitingProcessor)) ∧
    let before := HostCall.performAll (.new waitingProcessor) [.init, .runStart]
    (before.runUpdate ⟨0x3f000000⟩).result = .ok .finished ∧
    (before.runUpdate ⟨0x3f000000⟩).state.processor.current? .start (exampleId 0) =
      some (exampleId 1) ∧
    exampleId 1 ≠ exampleId 0 ∧ ¬ (before.runUpdate ⟨0x3f000000⟩).state.Settled := by
  have held : ((HostCall.performAll (.new waitingProcessor) [.init, .runStart]).runUpdate
      ⟨0x3f000000⟩).state.processor.current? .start (exampleId 0) = some (exampleId 1) := by
    decide +kernel
  have apart : exampleId 1 ≠ exampleId 0 := by decide +kernel
  exact ⟨by decide +kernel, waitingProcessor_new, by decide +kernel, held, apart,
    fun settled => apart (settled.2 .start _ _ held)⟩

end FlowScript
