/-
# The calls of a processor

What a call does to the walks of a processor, and what it leaves alone.

* The visits of a walk are read off the journal of each call, which tells where a walk ends and from
  which node it had started (`visitsOf`).
* Frames are stated once: `Moved` for walking, `Prepared` for bringing a processor up to date,
  `Undisturbed` for whole calls.  From the first call that gets as far as walking, the graph stays
  as it is but for its slots.
* `walkAll` and `resumeAll` take one turn for each of their walks (`Leg`) and keep the place where
  it has ended; a completed walk returns to its entry in the one and is dropped in the other.
  `walkSeeds` starts a walk for a seed that has none.
-/
import FlowScript.Proofs.Turns

namespace FlowScript

universe u

/-! ## 1. A journal in walks -/

/-- The walks that a journal tells from a point on, each with the node it started from and its
visits; `begun` are the visits since the last end of a walk. -/
def walkRecords (begun : List Visit) : List Event → List (NodeId × List Visit)
  | [] => []
  | e :: events =>
    match e.ended? with
    | some entry => (entry, begun) :: walkRecords [] events
    | none => walkRecords (begun ++ e.visit?.toList) events

/-- The visits that a journal tells of walks from a node. -/
def visitsOf (entry : NodeId) (events : List Event) : List Visit :=
  ((walkRecords [] events).filter fun r => r.1 = entry).flatMap Prod.snd

theorem walkRecords_append {rest : List Event} :
    ∀ {events : List Event} (begun : List Visit), Unended events →
      walkRecords begun (events ++ rest) = walkRecords (begun ++ visits events) rest
  | [], begun, _ => by simp [visits]
  | e :: events, begun, h => by
    have he : e.ended? = none := h e List.mem_cons_self
    have htail : Unended events := fun x hx => h x (List.mem_cons_of_mem _ hx)
    have hvisits : visits (e :: events) = e.visit?.toList ++ visits events := by
      cases hv : e.visit? <;> simp [visits, hv]
    rw [List.cons_append, walkRecords, he, hvisits, ← List.append_assoc]
    exact walkRecords_append (begun ++ e.visit?.toList) htail

theorem walkRecords_of_quiet {events : List Event} (h : Quiet events) (rest : List Event) :
    walkRecords [] (events ++ rest) = walkRecords [] rest := by
  rw [walkRecords_append [] h.unended, h.visits_eq]
  rfl

/-- A walk that ends is one record. -/
theorem walkRecords_walk {events : List Event} (h : Unended events) (entry : NodeId)
    (status : Status) (current : NodeId) (rest : List Event) :
    walkRecords [] (events ++ [.notice (.walkEnded entry status current)] ++ rest) =
      (entry, visits events) :: walkRecords [] rest := by
  rw [List.append_assoc, walkRecords_append [] h]
  rfl

/-- The journal tells these walks, whatever comes after it. -/
def Tells (events : List Event) (records : List (NodeId × List Visit)) : Prop :=
  ∀ rest, walkRecords [] (events ++ rest) = records ++ walkRecords [] rest

theorem Tells.append {a b : List Event} {r t : List (NodeId × List Visit)} (ha : Tells a r)
    (hb : Tells b t) : Tells (a ++ b) (r ++ t) := by
  intro rest
  rw [List.append_assoc, ha, hb, List.append_assoc]

theorem Tells.quiet_append {a b : List Event} {r : List (NodeId × List Visit)} (ha : Quiet a)
    (hb : Tells b r) : Tells (a ++ b) r := by
  intro rest
  rw [List.append_assoc, walkRecords_of_quiet ha, hb]

theorem Tells.walkRecords_eq {events : List Event} {records : List (NodeId × List Visit)}
    (h : Tells events records) : walkRecords [] events = records := by
  simpa [walkRecords] using h []

theorem Tells.visitsOf_eq {events : List Event} {records : List (NodeId × List Visit)}
    (h : Tells events records) (entry : NodeId) :
    visitsOf entry events = (records.filter fun r => r.1 = entry).flatMap Prod.snd := by
  rw [visitsOf, h.walkRecords_eq]

/-! ## 2. What calls leave alone -/

/-- One walk of a call: where it took up, what it visited, how it ended for this tick, and where. -/
structure Leg where
  cursor : Cursor
  visits : List Visit
  outcome : WalkOutcome
  current : NodeId

namespace Leg

/-- The walk takes a turn. -/
def Valid (g : Graph) (bound : Nat) (l : Leg) : Prop :=
  Turn g bound l.cursor.current l.visits l.outcome l.current

/-- What the journal tells of the walk. -/
def record (l : Leg) : NodeId × List Visit := (l.cursor.entry, l.visits)

/-- The cursor where the walk has stopped. -/
def stopped (l : Leg) : Cursor := { l.cursor with current := l.current }

/-- The cursor where the walk has stopped, returned to its entry if the walk has completed. -/
def returned (l : Leg) : Cursor :=
  if l.outcome = .completed then Cursor.start l.cursor.entry else l.stopped

theorem entry_returned (l : Leg) : l.returned.entry = l.cursor.entry := by
  unfold returned
  split <;> rfl

theorem some_current_returned (l : Leg) :
    some l.returned.current =
      if l.outcome = .completed then some l.cursor.entry else some l.current := by
  unfold returned
  split <;> rfl

theorem Valid.ranked_returned {g : Graph} {bound : Nat} {l : Leg} (h : l.Valid g bound)
    (hhome : g.Ranked l.cursor.entry) : g.Ranked l.returned.current := by
  unfold returned
  split
  · exact hhome
  · next hout => exact h.ranked_current hout

/-- The paused walk that is left, unless the walk has completed. -/
def paused? (kind : EntryKind) (l : Leg) : Option PausedWalk :=
  if l.outcome = .completed then none else some ⟨kind, l.stopped⟩

/-- The node where the walk goes on, unless it has completed. -/
def place? (l : Leg) : Option NodeId := if l.outcome = .completed then none else some l.current

theorem toList_paused? (kind : EntryKind) (l : Leg) :
    (l.paused? kind).toList = l.place?.toList.map fun n => ⟨kind, ⟨l.cursor.entry, n⟩⟩ := by
  unfold paused? place?
  split <;> rfl

theorem Valid.ranked_place? {g : Graph} {bound : Nat} {l : Leg} (h : l.Valid g bound) :
    ∀ n ∈ l.place?, g.Ranked n := by
  intro n hn
  unfold place? at hn
  split at hn
  · cases hn
  · next hout =>
    cases hn
    exact h.ranked_current hout

end Leg

theorem filter_eraseP_of_disjoint {α : Type} {p q : α → Bool} (h : ∀ a, q a = true → p a = false) :
    ∀ l : List α, (l.eraseP q).filter p = l.filter p
  | [] => rfl
  | a :: l => by
    by_cases hq : q a = true
    · rw [List.eraseP_cons_of_pos hq,
        List.filter_cons_of_neg (by rw [h a hq]; exact Bool.false_ne_true)]
    · rw [List.eraseP_cons_of_neg hq, List.filter_cons, List.filter_cons,
        filter_eraseP_of_disjoint h l]

theorem quiet_cons_notice {n : Notice} {events : List Event} (hn : Event.ended? (.notice n) = none)
    (h : Quiet events) : Quiet (.notice n :: events) := by
  intro e he
  rcases List.mem_cons.1 he with rfl | he
  · exact ⟨rfl, hn⟩
  · exact h e he

theorem quiet_bindMissing {σ : Type u} (r : Registry σ) :
    ∀ (ns : List Node) (t : Table σ), Quiet (Table.bindMissing r ns t).2.1
  | [], _ => quiet_nil
  | n :: ns, t => by
    unfold Table.bindMissing
    split
    · exact quiet_bindMissing r ns t
    · split
      · exact quiet_nil
      · exact quiet_cons_notice rfl (quiet_bindMissing r ns _)

theorem eq_ok_of_mapError {ε δ α : Type} {f : ε → δ} {x : Except ε α} {a : α}
    (h : x.mapError f = .ok a) : x = .ok a := by
  cases x with
  | error e => cases h
  | ok b => cases h; rfl

namespace Processor

variable {σ : Type u}

/-- Bindings and ranks are up to date. -/
def Ready (p : Processor σ) : Prop :=
  p.boundAt = p.graph.revision ∧ p.scheduledAt = some p.graph.revision

/-- A processor after some walking. -/
structure Moved (p q : Processor σ) : Prop where
  shape : q.graph.clearValues = p.graph.clearValues
  settings : q.settings = p.settings
  walks : q.walks = p.walks
  boundAt : q.boundAt = p.boundAt
  scheduledAt : q.scheduledAt = p.scheduledAt

namespace Moved

variable {p q r : Processor σ}

theorem refl (p : Processor σ) : Moved p p := ⟨rfl, rfl, rfl, rfl, rfl⟩

theorem trans (h : Moved p q) (h' : Moved q r) : Moved p r :=
  ⟨h'.shape.trans h.shape, h'.settings.trans h.settings, h'.walks.trans h.walks,
    h'.boundAt.trans h.boundAt, h'.scheduledAt.trans h.scheduledAt⟩

theorem bare (h : Moved p q) : q.graph.bare = p.graph.bare :=
  Graph.bare_eq_of_clearValues_eq h.shape

theorem ready (h : Moved p q) (hp : p.Ready) : q.Ready := by
  have hrev : q.graph.revision = p.graph.revision := by
    have hshape := congrArg Graph.revision h.shape
    exact hshape
  rw [Ready, h.boundAt, h.scheduledAt, hrev]
  exact hp

end Moved

/-- A processor after it was brought up to date. -/
structure Prepared (p q : Processor σ) : Prop where
  bare : q.graph.bare = p.graph.bare
  settings : q.settings = p.settings
  walks : q.walks = p.walks
  paused : q.paused.Sublist p.paused

theorem Prepared.trans {p q r : Processor σ} (h : Prepared p q) (h' : Prepared q r) :
    Prepared p r :=
  ⟨h'.bare.trans h.bare, h'.settings.trans h.settings, h'.walks.trans h.walks,
    h'.paused.trans h.paused⟩

theorem rebind_prepared (p : Processor σ) :
    Prepared p p.rebind.state ∧ Quiet p.rebind.events ∧
      (p.rebind.result = .ok () → p.rebind.state.boundAt = p.rebind.state.graph.revision) := by
  have hquiet : Quiet (p.table.sync p.registry p.graph).2.1 := quiet_bindMissing _ _ _
  unfold rebind
  split
  · next hbound => exact ⟨⟨rfl, rfl, rfl, List.Sublist.refl _⟩, quiet_nil, fun _ => hbound⟩
  · simp only
    split
    · exact ⟨⟨rfl, rfl, rfl, List.Sublist.refl _⟩, hquiet, fun h => nomatch h⟩
    · exact ⟨⟨rfl, rfl, rfl, List.filter_sublist⟩, hquiet, fun _ => rfl⟩

theorem reschedule_prepared (p : Processor σ) :
    Prepared p p.reschedule.1 ∧ Quiet p.reschedule.2 := by
  refine ⟨⟨Graph.bare_schedule _ _ _, rfl, rfl, List.Sublist.refl _⟩, fun e he => ?_⟩
  obtain ⟨n, hn, rfl⟩ := List.mem_map.1 he
  rcases List.mem_append.1 hn with hn | hn
  · obtain ⟨d, -, rfl⟩ := List.mem_map.1 hn
    exact ⟨rfl, rfl⟩
  · split at hn
    · cases hn
    · rw [List.mem_singleton.1 hn]
      exact ⟨rfl, rfl⟩

/-- **Bringing a processor up to date** touches neither its topology nor its walks. -/
theorem ensureReady_prepared (p : Processor σ) :
    Prepared p p.ensureReady.state ∧ Quiet p.ensureReady.events ∧
      (p.ensureReady.result = .ok () → p.ensureReady.state.Ready) := by
  obtain ⟨hrebind, hquiet, hbound⟩ := rebind_prepared p
  unfold ensureReady
  simp only
  split
  · exact ⟨hrebind, hquiet, fun h => nomatch h⟩
  · next hok =>
    split
    · next hcurrent => exact ⟨hrebind, hquiet, fun _ => ⟨hbound hok, hcurrent⟩⟩
    · obtain ⟨hsched, hquiet'⟩ := reschedule_prepared p.rebind.state
      refine ⟨hrebind.trans hsched, hquiet.append hquiet', fun _ => ⟨?_, rfl⟩⟩
      have hrev : (p.rebind.state.graph.schedule p.rebind.state.settings.maxFrontiers.toNat
          p.rebind.state.kinds).1.revision = p.rebind.state.graph.revision := by
        have hbare := congrArg Graph.revision hsched.bare
        exact hbare
      exact (hbound hok).trans hrev.symm

theorem ensureReady_of_ready {p : Processor σ} (h : p.Ready) :
    p.ensureReady = ⟨p, [], .ok ()⟩ := by
  have hrebind : p.rebind = ⟨p, [], .ok ()⟩ := if_pos h.1
  unfold ensureReady
  rw [hrebind]
  exact if_pos h.2

/-- What every call leaves alone. -/
structure Undisturbed (p q : Processor σ) : Prop where
  bare : q.graph.bare = p.graph.bare
  settings : q.settings = p.settings
  /-- Once a processor is up to date, it stays so, and its graph changes in its slots at most. -/
  ready : p.Ready → q.Ready ∧ q.graph.clearValues = p.graph.clearValues

theorem Undisturbed.of_prepared {p : Processor σ} : Undisturbed p p.ensureReady.state where
  bare := (ensureReady_prepared p).1.bare
  settings := (ensureReady_prepared p).1.settings
  ready hp := by
    rw [ensureReady_of_ready hp]
    exact ⟨hp, rfl⟩

theorem Undisturbed.moved {p q r : Processor σ} (h : Undisturbed p q) (hm : Moved q r) :
    Undisturbed p r where
  bare := hm.bare.trans h.bare
  settings := hm.settings.trans h.settings
  ready hp := ⟨hm.ready (h.ready hp).1, hm.shape.trans (h.ready hp).2⟩

/-- Brings a processor up to date, then lets it walk. -/
def onReady (p : Processor σ) (walking : Processor σ → Reply (Processor σ) EvalError Status) :
    Reply (Processor σ) RunError Status :=
  match p.ensureReady.result with
  | .error e => ⟨p.ensureReady.state, p.ensureReady.events, .error (.bind e)⟩
  | .ok () =>
    ⟨(walking p.ensureReady.state).state,
      p.ensureReady.events ++ (walking p.ensureReady.state).events,
      (walking p.ensureReady.state).result.mapError .eval⟩

theorem onReady_of_error {p : Processor σ} {e : BindError} (h : p.ensureReady.result = .error e)
    (walking : Processor σ → Reply (Processor σ) EvalError Status) :
    p.onReady walking = ⟨p.ensureReady.state, p.ensureReady.events, .error (.bind e)⟩ := by
  unfold onReady
  rw [h]

theorem onReady_of_ok {p : Processor σ} (h : p.ensureReady.result = .ok ())
    (walking : Processor σ → Reply (Processor σ) EvalError Status) :
    p.onReady walking = ⟨(walking p.ensureReady.state).state,
      p.ensureReady.events ++ (walking p.ensureReady.state).events,
      (walking p.ensureReady.state).result.mapError .eval⟩ := by
  unfold onReady
  rw [h]

/-- A call that walks either fails to get ready or walks on a processor that is. -/
theorem onReady_cases (p : Processor σ)
    (walking : Processor σ → Reply (Processor σ) EvalError Status) :
    ((p.onReady walking).state = p.ensureReady.state ∧ ∃ e, (p.onReady walking).result = .error e) ∨
    p.ensureReady.state.Ready ∧ (p.onReady walking).state = (walking p.ensureReady.state).state ∧
      (p.onReady walking).events = p.ensureReady.events ++ (walking p.ensureReady.state).events ∧
      (p.onReady walking).result = (walking p.ensureReady.state).result.mapError .eval := by
  unfold onReady
  cases h : p.ensureReady.result with
  | error e => exact Or.inl ⟨rfl, _, rfl⟩
  | ok _ => exact Or.inr ⟨(ensureReady_prepared p).2.2 h, rfl, rfl, rfl⟩

theorem onReady_ok {p : Processor σ} {walking : Processor σ → Reply (Processor σ) EvalError Status}
    {status : Status} (h : (p.onReady walking).result = .ok status) :
    p.ensureReady.state.Ready ∧ (p.onReady walking).state = (walking p.ensureReady.state).state ∧
      (p.onReady walking).events = p.ensureReady.events ++ (walking p.ensureReady.state).events ∧
      (walking p.ensureReady.state).result = .ok status := by
  rcases p.onReady_cases walking with ⟨-, e, herror⟩ | ⟨hready, hstate, hevents, hresult⟩
  · rw [h] at herror
    cases herror
  · rw [hresult] at h
    exact ⟨hready, hstate, hevents, eq_ok_of_mapError h⟩

theorem onReady_of_ready {p : Processor σ} (h : p.Ready)
    (walking : Processor σ → Reply (Processor σ) EvalError Status) :
    p.onReady walking =
      ⟨(walking p).state, (walking p).events, (walking p).result.mapError .eval⟩ := by
  unfold onReady
  rw [ensureReady_of_ready h]
  rfl

/-- The paused walks of a kind from a node. -/
def holding (p : Processor σ) (kind : EntryKind) (entry : NodeId) : List PausedWalk :=
  p.paused.filter (PausedWalk.isAt kind entry)

/-- The cursor from which a seed is walked. -/
def seedCursor (p : Processor σ) (kind : EntryKind) (seed : NodeId) : Cursor :=
  ((p.paused.find? (PausedWalk.isAt kind seed)).map (·.cursor)).getD (Cursor.start seed)

theorem entry_seedCursor (p : Processor σ) (kind : EntryKind) (seed : NodeId) :
    (p.seedCursor kind seed).entry = seed := by
  unfold seedCursor
  cases h : p.paused.find? (PausedWalk.isAt kind seed) with
  | none => rfl
  | some w =>
    have hat := List.find?_some h
    simp only [PausedWalk.isAt, Bool.and_eq_true, decide_eq_true_eq] at hat
    exact hat.2

/-- The processor without the paused walk of a seed. -/
def withoutSeed (p : Processor σ) (kind : EntryKind) (seed : NodeId) : Processor σ :=
  { p with paused := p.paused.eraseP (PausedWalk.isAt kind seed) }

/-- The processor with one more paused walk, unless the walk has completed. -/
def keep (p : Processor σ) (kind : EntryKind) (outcome : WalkOutcome) (c : Cursor) : Processor σ :=
  if outcome = .completed then p else { p with paused := p.paused ++ [⟨kind, c⟩] }

theorem keep_moved (p : Processor σ) (kind : EntryKind) (outcome : WalkOutcome) (c : Cursor) :
    Moved p (p.keep kind outcome c) := by
  unfold keep
  split <;> exact ⟨rfl, rfl, rfl, rfl, rfl⟩

theorem holding_keep_of_not {p : Processor σ} {kind other : EntryKind} {outcome : WalkOutcome}
    {c : Cursor} {entry : NodeId} (h : ¬ (other = kind ∧ c.entry = entry)) :
    (p.keep other outcome c).holding kind entry = p.holding kind entry := by
  unfold keep
  split
  · rfl
  · have hnot : ¬ PausedWalk.isAt kind entry ⟨other, c⟩ = true := by
      simpa [PausedWalk.isAt] using h
    rw [holding, List.filter_append, List.filter_cons_of_neg hnot]
    exact List.append_nil _

theorem holding_keep {p : Processor σ} {kind : EntryKind} (l : Leg) :
    (p.keep kind l.outcome l.stopped).holding kind l.cursor.entry =
      p.holding kind l.cursor.entry ++ (l.paused? kind).toList := by
  unfold keep Leg.paused?
  split
  · rw [Option.toList_none, List.append_nil]
  · have hat : PausedWalk.isAt kind l.cursor.entry ⟨kind, l.stopped⟩ = true := by
      simp [PausedWalk.isAt, Leg.stopped]
    rw [holding, List.filter_append, List.filter_cons_of_pos hat]
    rfl

theorem holding_withoutSeed (p : Processor σ) {kind other : EntryKind} {seed entry : NodeId}
    (h : ¬ (other = kind ∧ seed = entry)) :
    (p.withoutSeed other seed).holding kind entry = p.holding kind entry := by
  refine filter_eraseP_of_disjoint (fun w hw => ?_) p.paused
  simp only [PausedWalk.isAt, Bool.and_eq_true, decide_eq_true_eq] at hw
  rw [Bool.eq_false_iff]
  intro hat
  simp only [PausedWalk.isAt, Bool.and_eq_true, decide_eq_true_eq] at hat
  exact h ⟨hw.1.symm.trans hat.1, hw.2.symm.trans hat.2⟩

end Processor

/-! ## 3. The walks of one call -/

theorem eq_error_of_map {ε α β : Type} {f : α → β} {x : Except ε α} {e : ε}
    (h : x.map f = .error e) : x = .error e := by
  cases x with
  | error e' => cases h; rfl
  | ok a => cases h

theorem eq_error_of_mapError {α : Type} {x : Except EvalError α} {e : EvalError}
    (h : x.mapError RunError.eval = .error (.eval e)) : x = .error e := by
  cases x with
  | error e' => cases h; rfl
  | ok a => cases h

theorem exists_ok_of_map {ε α β : Type} {f : α → β} {x : Except ε α} {b : β}
    (h : x.map f = .ok b) : ∃ a, x = .ok a := by
  cases x with
  | error e => cases h
  | ok a => exact ⟨a, rfl⟩

namespace Processor

variable {σ : Type u} [Behaves σ] {g : Graph} {bound : Nat}

theorem walkCursor_moved (p : Processor σ) (c : Cursor) :
    Moved p (p.walkCursor c).1 ∧ (p.walkCursor c).1.paused = p.paused :=
  ⟨⟨Scene.clearValues_walkWithin .., rfl, rfl, rfl, rfl⟩, rfl⟩

/-- **One walk of a call is a turn**, and one record of the journal. -/
theorem walkCursor_leg {p q : Processor σ} {c c' : Cursor} {events : List Event}
    {outcome : WalkOutcome} (hshape : p.graph.clearValues = g.clearValues)
    (hbound : p.settings.maxWalkSteps.toNat = bound)
    (h : p.walkCursor c = (q, c', events, .ok outcome)) :
    ∃ l : Leg, l.Valid g bound ∧ l.cursor = c ∧ l.outcome = outcome ∧ l.stopped = c' ∧
      Tells events [l.record] := by
  subst hbound
  unfold walkCursor at h
  simp only [Prod.mk.injEq] at h
  obtain ⟨-, hcursor, hevents, hresult⟩ := h
  obtain ⟨hturn, hunended⟩ :=
    Scene.walkWithin_turn _ ⟨p.graph, p.table, []⟩ c.current hshape hresult
  rw [hresult] at hevents
  refine ⟨⟨c, _, outcome, _⟩, hturn, rfl, rfl, hcursor, fun rest => ?_⟩
  rw [← hevents]
  exact walkRecords_walk hunended c.entry _ _ rest

theorem walkAll_moved :
    ∀ (cs : List Cursor) (p : Processor σ),
      Moved p (p.walkAll cs).1 ∧ (p.walkAll cs).1.paused = p.paused
  | [], p => ⟨.refl p, rfl⟩
  | c :: cs, p => by
    obtain ⟨hmoved, hpaused⟩ := walkCursor_moved p c
    unfold walkAll
    split
    · next h => rw [h] at hmoved hpaused; exact ⟨hmoved, hpaused⟩
    · next q _ _ _ h =>
      rw [h] at hmoved hpaused
      obtain ⟨hrest, hpaused'⟩ := walkAll_moved cs q
      exact ⟨hmoved.trans hrest, hpaused'.trans hpaused⟩

/-- **Continuing a list of cursors** takes one turn for each of them. -/
theorem walkAll_legs {status : Status} :
    ∀ (cs : List Cursor) (p : Processor σ), p.graph.clearValues = g.clearValues →
      p.settings.maxWalkSteps.toNat = bound → (p.walkAll cs).2.2.2 = .ok status →
      ∃ legs : List Leg, (∀ l ∈ legs, l.Valid g bound) ∧ legs.map Leg.cursor = cs ∧
        legs.map Leg.returned = (p.walkAll cs).2.1 ∧
        Tells (p.walkAll cs).2.2.1 (legs.map Leg.record)
  | [], _, _, _, _ => ⟨[], List.forall_mem_nil _, rfl, rfl, fun _ => rfl⟩
  | c :: cs, p, hshape, hbound, hok => by
    have hmoved := (walkCursor_moved p c).1
    unfold walkAll at hok ⊢
    split at hok
    · cases hok
    · next q c' events outcome h =>
      rw [h] at hmoved
      obtain ⟨l, hvalid, rfl, hout, hstop, hrecord⟩ := walkCursor_leg hshape hbound h
      obtain ⟨status', hrest⟩ := exists_ok_of_map (x := (q.walkAll cs).2.2.2) hok
      obtain ⟨legs, hvalids, hcursors, hreturned, hrecords⟩ := walkAll_legs cs q
        (hmoved.shape.trans hshape) (hmoved.settings ▸ hbound) hrest
      refine ⟨l :: legs, ?_, ?_, ?_, hrecord.append hrecords⟩
      · exact fun x hx => (List.mem_cons.1 hx).elim (· ▸ hvalid) (hvalids x)
      · rw [List.map_cons, hcursors]
      · rw [List.map_cons, hreturned, Leg.returned, hout, hstop]

theorem resumeAll_moved :
    ∀ (ws : List PausedWalk) (p : Processor σ), Moved p (p.resumeAll ws).1
  | [], p => .refl p
  | w :: ws, p => by
    have hmoved := (walkCursor_moved p w.cursor).1
    unfold resumeAll
    split
    · next h => rw [h] at hmoved; exact hmoved
    · next q _ _ _ h =>
      rw [h] at hmoved
      exact hmoved.trans (resumeAll_moved ws q)

/-- **Resuming a list of paused walks** takes one turn for each of them, and keeps those that have
not completed. -/
theorem resumeAll_legs {status : Status} :
    ∀ (ws : List PausedWalk) (p : Processor σ), p.graph.clearValues = g.clearValues →
      p.settings.maxWalkSteps.toNat = bound → (p.resumeAll ws).2.2.2 = .ok status →
      ∃ legs : List (EntryKind × Leg), (∀ l ∈ legs, l.2.Valid g bound) ∧
        legs.map (fun l => ⟨l.1, l.2.cursor⟩) = ws ∧
        legs.filterMap (fun l => l.2.paused? l.1) = (p.resumeAll ws).2.1 ∧
        Tells (p.resumeAll ws).2.2.1 (legs.map fun l => l.2.record)
  | [], _, _, _, _ => ⟨[], List.forall_mem_nil _, rfl, rfl, fun _ => rfl⟩
  | w :: ws, p, hshape, hbound, hok => by
    have hmoved := (walkCursor_moved p w.cursor).1
    unfold resumeAll at hok ⊢
    split at hok
    · cases hok
    · next q c' events outcome h =>
      rw [h] at hmoved
      obtain ⟨l, hvalid, hcursor, hout, hstop, hrecord⟩ := walkCursor_leg hshape hbound h
      obtain ⟨status', hrest⟩ := exists_ok_of_map (x := (q.resumeAll ws).2.2.2) hok
      obtain ⟨legs, hvalids, hwalks, hkept, hrecords⟩ := resumeAll_legs ws q
        (hmoved.shape.trans hshape) (hmoved.settings ▸ hbound) hrest
      refine ⟨(w.kind, l) :: legs, ?_, ?_, ?_, hrecord.append hrecords⟩
      · exact fun x hx => (List.mem_cons.1 hx).elim (· ▸ hvalid) (hvalids x)
      · rw [List.map_cons, hwalks, hcursor]
      · show _ = if outcome = .completed then (q.resumeAll ws).2.1
          else { w with cursor := c' } :: (q.resumeAll ws).2.1
        rw [List.filterMap_cons, hkept, Leg.paused?, hout, hstop]
        by_cases hcompleted : outcome = .completed
        · rw [if_pos hcompleted, if_pos hcompleted]
        · rw [if_neg hcompleted, if_neg hcompleted]

/-- **What one seed comes to**: it is not in the graph, its walk fails, or its walk takes place and
leaves a paused walk behind unless it has completed. -/
theorem walkSeeds_cases (p : Processor σ) (kind : EntryKind) (seed : NodeId) (seeds : List NodeId) :
    (p.graph.node? seed = none ∧ p.walkSeeds kind (seed :: seeds) =
      ⟨(p.walkSeeds kind seeds).state,
        .notice (.unknownSeed seed p.graph.name) :: (p.walkSeeds kind seeds).events,
        (p.walkSeeds kind seeds).result⟩) ∨
    (∃ q c events e,
      (p.withoutSeed kind seed).walkCursor (p.seedCursor kind seed) = (q, c, events, .error e) ∧
      p.walkSeeds kind (seed :: seeds) = ⟨q, events, .error e⟩) ∨
    ∃ q c events outcome,
      (p.withoutSeed kind seed).walkCursor (p.seedCursor kind seed) = (q, c, events, .ok outcome) ∧
      p.walkSeeds kind (seed :: seeds) =
        ⟨((q.keep kind outcome c).walkSeeds kind seeds).state,
          events ++ ((q.keep kind outcome c).walkSeeds kind seeds).events,
          ((q.keep kind outcome c).walkSeeds kind seeds).result.map outcome.status.and⟩ := by
  cases hnode : p.graph.node? seed with
  | none => exact Or.inl ⟨rfl, by rw [walkSeeds, hnode]; rfl⟩
  | some n =>
    refine Or.inr ?_
    rcases hwalk : (p.withoutSeed kind seed).walkCursor (p.seedCursor kind seed) with
      ⟨q, c, events, e | outcome⟩
    · refine Or.inl ⟨q, c, events, e, rfl, ?_⟩
      unfold withoutSeed seedCursor at hwalk
      rw [walkSeeds, hnode]
      simp only [Option.isSome_some, if_true, hwalk]
    · refine Or.inr ⟨q, c, events, outcome, rfl, ?_⟩
      unfold withoutSeed seedCursor at hwalk
      rw [walkSeeds, hnode]
      simp only [Option.isSome_some, if_true, hwalk]
      rfl

theorem walkSeeds_moved (kind : EntryKind) :
    ∀ (seeds : List NodeId) (p : Processor σ), Moved p (p.walkSeeds kind seeds).state
  | [], p => .refl p
  | seed :: seeds, p => by
    have hseed : Moved p (p.withoutSeed kind seed) := ⟨rfl, rfl, rfl, rfl, rfl⟩
    have hmoved := (walkCursor_moved (p.withoutSeed kind seed) (p.seedCursor kind seed)).1
    rcases p.walkSeeds_cases kind seed seeds with
      ⟨-, h⟩ | ⟨q, c, events, e, hwalk, h⟩ | ⟨q, c, events, outcome, hwalk, h⟩
    · rw [h]
      exact walkSeeds_moved kind seeds p
    · rw [h]
      rw [hwalk] at hmoved
      exact hseed.trans hmoved
    · rw [h]
      rw [hwalk] at hmoved
      exact (hseed.trans hmoved).trans
        ((keep_moved q kind outcome c).trans (walkSeeds_moved kind seeds _))

/-- Walks of other kinds or from other nodes leave a paused walk alone, failing or not. -/
theorem walkSeeds_holding {kind other : EntryKind} {entry : NodeId} :
    ∀ (seeds : List NodeId) (p : Processor σ), (other = kind → entry ∉ seeds) →
      (p.walkSeeds other seeds).state.holding kind entry = p.holding kind entry
  | [], p, _ => rfl
  | seed :: seeds, p, hnot => by
    have hseed : ¬ (other = kind ∧ seed = entry) := by
      rintro ⟨hkind, rfl⟩
      exact hnot hkind List.mem_cons_self
    have hrest : other = kind → entry ∉ seeds := fun hk he => hnot hk (List.mem_cons_of_mem _ he)
    have hpaused := (walkCursor_moved (p.withoutSeed other seed) (p.seedCursor other seed)).2
    rcases p.walkSeeds_cases other seed seeds with
      ⟨-, h⟩ | ⟨q, c, events, e, hwalk, h⟩ | ⟨q, c, events, outcome, hwalk, h⟩
    · rw [h]
      exact walkSeeds_holding seeds p hrest
    · rw [hwalk] at hpaused
      rw [h, holding, hpaused]
      exact holding_withoutSeed p hseed
    · obtain ⟨l, -, hcursor, -, hstop, -⟩ := walkCursor_leg rfl rfl hwalk
      have hentry : c.entry = seed := by
        rw [← hstop]
        exact (congrArg Cursor.entry hcursor).trans (entry_seedCursor p other seed)
      rw [hwalk] at hpaused
      rw [h, walkSeeds_holding seeds _ hrest, holding_keep_of_not (hentry ▸ hseed), holding,
        hpaused]
      exact holding_withoutSeed p hseed

/-- Walks from other nodes tell nothing of the walks from a node. -/
theorem walkSeeds_records {kind : EntryKind} {entry : NodeId} {status : Status} :
    ∀ (seeds : List NodeId) (p : Processor σ), entry ∉ seeds →
      (p.walkSeeds kind seeds).result = .ok status →
      ∃ records, Tells (p.walkSeeds kind seeds).events records ∧
        (records.filter fun r => r.1 = entry) = []
  | [], _, _, _ => ⟨[], fun _ => rfl, rfl⟩
  | seed :: seeds, p, hnot, hok => by
    rw [List.mem_cons, not_or] at hnot
    rcases p.walkSeeds_cases kind seed seeds with
      ⟨-, h⟩ | ⟨q, c, events, e, hwalk, h⟩ | ⟨q, c, events, outcome, hwalk, h⟩
    · rw [h] at hok ⊢
      obtain ⟨records, hrecords, hnone⟩ := walkSeeds_records seeds p hnot.2 hok
      exact ⟨records, hrecords.quiet_append (quiet_cons_notice rfl quiet_nil), hnone⟩
    · rw [h] at hok
      cases hok
    · obtain ⟨l, -, hcursor, -, -, hrecord⟩ := walkCursor_leg rfl rfl hwalk
      have hentry : l.cursor.entry = seed := by rw [hcursor, entry_seedCursor]
      rw [h] at hok ⊢
      obtain ⟨status', hok'⟩ := exists_ok_of_map hok
      obtain ⟨records, hrecords, hnone⟩ := walkSeeds_records seeds _ hnot.2 hok'
      refine ⟨[l.record] ++ records, hrecord.append hrecords, ?_⟩
      rw [List.filter_append, hnone, List.append_nil]
      exact List.filter_cons_of_neg (by simpa [Leg.record, hentry] using Ne.symm hnot.1)

/-- **A seed without a paused walk starts a walk**, whose turn is its only record, and which is
paused afterwards unless it has completed. -/
theorem walkSeeds_start {kind : EntryKind} {entry : NodeId} {status : Status} :
    ∀ (seeds : List NodeId) (p : Processor σ), p.graph.clearValues = g.clearValues →
      p.settings.maxWalkSteps.toNat = bound → seeds.count entry = 1 →
      (p.graph.node? entry).isSome → p.holding kind entry = [] →
      (p.walkSeeds kind seeds).result = .ok status →
      ∃ l : Leg, l.Valid g bound ∧ l.cursor = Cursor.start entry ∧
        (p.walkSeeds kind seeds).state.holding kind entry = (l.paused? kind).toList ∧
        ∃ records, Tells (p.walkSeeds kind seeds).events records ∧
          (records.filter fun r => r.1 = entry) = [l.record]
  | [], p, _, _, hcount, _, _, _ => nomatch hcount
  | seed :: seeds, p, hshape, hbound, hcount, hnode, hfree, hok => by
    have hmoved := walkCursor_moved (p.withoutSeed kind seed) (p.seedCursor kind seed)
    rcases p.walkSeeds_cases kind seed seeds with
      ⟨hnone, h⟩ | ⟨q, c, events, e, hwalk, h⟩ | ⟨q, c, events, outcome, hwalk, h⟩
    · have hseed : seed ≠ entry := by
        rintro rfl
        rw [hnone] at hnode
        cases hnode
      rw [List.count_cons_of_ne hseed] at hcount
      rw [h] at hok ⊢
      obtain ⟨l, hvalid, hcursor, hhold, records, hrecords, hone⟩ :=
        walkSeeds_start seeds p hshape hbound hcount hnode hfree hok
      exact ⟨l, hvalid, hcursor, hhold, records,
        hrecords.quiet_append (quiet_cons_notice rfl quiet_nil), hone⟩
    · rw [h] at hok
      cases hok
    · have hshape' : (p.withoutSeed kind seed).graph.clearValues = g.clearValues := hshape
      have hbound' : (p.withoutSeed kind seed).settings.maxWalkSteps.toNat = bound := hbound
      rw [hwalk] at hmoved
      obtain ⟨l, hvalid, hcursor, rfl, rfl, hrecord⟩ := walkCursor_leg hshape' hbound' hwalk
      have hentry : l.cursor.entry = seed := by rw [hcursor, entry_seedCursor]
      rw [h] at hok ⊢
      obtain ⟨status', hok'⟩ := exists_ok_of_map hok
      by_cases hseed : seed = entry
      · -- the walk starts here, and the other seeds leave it alone
        subst hseed
        have hnot : seed ∉ seeds := by
          rw [List.count_cons_self] at hcount
          exact List.count_eq_zero.1 (Nat.succ.inj hcount)
        have hat : ∀ w ∈ p.paused, ¬ PausedWalk.isAt kind seed w = true :=
          List.filter_eq_nil_iff.1 hfree
        have hstart : p.seedCursor kind seed = Cursor.start seed := by
          rw [seedCursor, List.find?_eq_none.2 hat]
          rfl
        have hpaused : q.holding kind seed = [] := by
          rw [holding, hmoved.2, withoutSeed, List.eraseP_of_forall_not hat]
          exact hfree
        have hhold : ((q.keep kind l.outcome l.stopped).walkSeeds kind seeds).state.holding
            kind seed = (q.keep kind l.outcome l.stopped).holding kind seed :=
          walkSeeds_holding seeds _ fun _ => hnot
        obtain ⟨records, hrecords, hnone⟩ := walkSeeds_records seeds _ hnot hok'
        refine ⟨l, hvalid, hcursor.trans hstart, ?_, [l.record] ++ records,
          hrecord.append hrecords, ?_⟩
        · rw [hhold, ← hentry, holding_keep, hentry, hpaused, List.nil_append]
        · rw [List.filter_append, hnone, List.append_nil]
          exact List.filter_cons_of_pos (decide_eq_true hentry)
      · rw [List.count_cons_of_ne hseed] at hcount
        have hmoved' := hmoved.1.trans (keep_moved q kind l.outcome l.stopped)
        have hfree' : (q.keep kind l.outcome l.stopped).holding kind entry = [] := by
          have hstopped : ¬ (kind = kind ∧ l.stopped.entry = entry) := fun h =>
            hseed (hentry.symm.trans h.2)
          rw [holding_keep_of_not hstopped, holding, hmoved.2]
          exact (holding_withoutSeed p fun h => hseed h.2).trans hfree
        have hnode' : ((q.keep kind l.outcome l.stopped).graph.node? entry).isSome := by
          rw [Graph.node?_isSome_eq_of_bare hmoved'.bare]
          exact hnode
        obtain ⟨l', hvalid', hcursor', hhold, records, hrecords, hone⟩ :=
          walkSeeds_start seeds (q.keep kind l.outcome l.stopped)
            (hmoved'.shape.trans hshape') (hmoved'.settings ▸ hbound') hcount hnode' hfree' hok'
        refine ⟨l', hvalid', hcursor', hhold, [l.record] ++ records, hrecord.append hrecords, ?_⟩
        rw [List.filter_append, hone, List.filter_cons_of_neg]
        · rfl
        · simpa [Leg.record, hentry] using hseed

end Processor

/-! ## 4. Sessions -/

/-- A call that edits neither the graph nor the kinds. -/
inductive Call
  | run (kind : EntryKind)
  | runFrom (seeds : List NodeId) (kind : EntryKind)
  | runPaused
  | advance (delta : Single)
  | setOutput (node : NodeId) (slot : Nat) (v : Value)
deriving DecidableEq

namespace Call

/-- The nodes from which the call takes up walks of a kind. -/
def seeds (kind : EntryKind) : Call → List NodeId
  | runFrom seeds other => if other = kind then seeds else []
  | _ => []

variable {σ : Type u} [Behaves σ]

def perform (p : Processor σ) : Call → Reply (Processor σ) RunError Status
  | run kind => p.run kind
  | runFrom seeds kind => p.runFrom seeds kind
  | runPaused => p.runPaused
  | advance delta => ⟨p.advance delta, [], .ok .finished⟩
  | setOutput node slot v => ⟨p.setOutput node slot v, [], .ok .finished⟩

end Call

/-- A call with the processor before it and its reply. -/
structure Exchange (σ : Type u) where
  before : Processor σ
  call : Call
  reply : Reply (Processor σ) RunError Status

namespace Processor

variable {σ : Type u} [Behaves σ]

/-- The processor after a session. -/
def after (p : Processor σ) : List Call → Processor σ
  | [] => p
  | c :: calls => (c.perform p).state.after calls

/-- The calls of a session with their replies. -/
def transcript (p : Processor σ) : List Call → List (Exchange σ)
  | [] => []
  | c :: calls => ⟨p, c, c.perform p⟩ :: (c.perform p).state.transcript calls

/-- What a run does once the processor is up to date. -/
def walkKind (kind : EntryKind) (p : Processor σ) : Reply (Processor σ) EvalError Status :=
  ⟨{ (p.walkAll (p.cursors kind)).1 with
      walks := ((p.walkAll (p.cursors kind)).1.walks.erase kind).insert kind
        (p.walkAll (p.cursors kind)).2.1 },
    (p.walkAll (p.cursors kind)).2.2.1, (p.walkAll (p.cursors kind)).2.2.2⟩

/-- What resuming the paused walks does once the processor is up to date. -/
def walkPaused (p : Processor σ) : Reply (Processor σ) EvalError Status :=
  ⟨{ (resumeAll { p with paused := [] } p.paused).1 with
      paused := (resumeAll { p with paused := [] } p.paused).2.1 },
    (resumeAll { p with paused := [] } p.paused).2.2.1,
    (resumeAll { p with paused := [] } p.paused).2.2.2⟩

theorem walkKind_events (kind : EntryKind) (p : Processor σ) :
    (walkKind kind p).events = (p.walkAll (p.cursors kind)).2.2.1 := rfl

theorem walkKind_result (kind : EntryKind) (p : Processor σ) :
    (walkKind kind p).result = (p.walkAll (p.cursors kind)).2.2.2 := rfl

theorem walkKind_graph (kind : EntryKind) (p : Processor σ) :
    (walkKind kind p).state.graph = (p.walkAll (p.cursors kind)).1.graph := rfl

theorem walkKind_walks (kind : EntryKind) (p : Processor σ) :
    (walkKind kind p).state.walks = ((p.walkAll (p.cursors kind)).1.walks.erase kind).insert kind
      (p.walkAll (p.cursors kind)).2.1 := rfl

theorem walkKind_paused (kind : EntryKind) (p : Processor σ) :
    (walkKind kind p).state.paused = p.paused := (walkAll_moved (p.cursors kind) p).2

theorem walkKind_ready {kind : EntryKind} {p : Processor σ} (hp : p.Ready) :
    (walkKind kind p).state.Ready := (walkAll_moved (p.cursors kind) p).1.ready hp

theorem walkPaused_events (p : Processor σ) :
    p.walkPaused.events = (resumeAll { p with paused := [] } p.paused).2.2.1 := rfl

theorem walkPaused_paused (p : Processor σ) :
    p.walkPaused.state.paused = (resumeAll { p with paused := [] } p.paused).2.1 := rfl

theorem walkPaused_walks (p : Processor σ) : p.walkPaused.state.walks = p.walks :=
  (resumeAll_moved p.paused { p with paused := [] }).walks

theorem run_eq (p : Processor σ) (kind : EntryKind) : p.run kind = p.onReady (walkKind kind) := by
  unfold run onReady
  cases h : p.ensureReady.result with
  | error e => simp only [h]
  | ok _ => simp only [h, walkKind]

theorem runFrom_eq (p : Processor σ) (seeds : List NodeId) (kind : EntryKind) :
    p.runFrom seeds kind = p.onReady (walkSeeds · kind seeds) := by
  unfold runFrom onReady
  cases h : p.ensureReady.result with
  | error e => simp only [h]
  | ok _ => simp only [h]

theorem runPaused_eq (p : Processor σ) : p.runPaused = p.onReady walkPaused := by
  unfold runPaused onReady
  cases h : p.ensureReady.result with
  | error e => simp only [h]
  | ok _ => simp only [h, walkPaused]

/-- **No call disturbs a session**: topology and settings stay, and once the processor is up to
date, nothing of its graph changes but slots. -/
theorem perform_undisturbed (p : Processor σ) (c : Call) : Undisturbed p (c.perform p).state := by
  have hready : ∀ walking : Processor σ → Reply (Processor σ) EvalError Status,
      (∀ q, Undisturbed p q → Undisturbed p (walking q).state) →
      Undisturbed p (p.onReady walking).state := by
    intro walking h
    rcases p.onReady_cases walking with ⟨hstate, -⟩ | ⟨-, hstate, -⟩
    · rw [hstate]
      exact .of_prepared
    · rw [hstate]
      exact h _ .of_prepared
  cases c with
  | run kind =>
    rw [Call.perform, run_eq]
    refine hready _ fun q hq => ?_
    have hmoved := hq.moved (walkAll_moved (q.cursors kind) q).1
    exact ⟨hmoved.bare, hmoved.settings, hmoved.ready⟩
  | runFrom seeds kind =>
    rw [Call.perform, runFrom_eq]
    exact hready _ fun q hq => hq.moved (walkSeeds_moved kind seeds q)
  | runPaused =>
    rw [Call.perform, runPaused_eq]
    refine hready _ fun q hq => ?_
    have hmoved := hq.moved (r := { q with paused := [] }) ⟨rfl, rfl, rfl, rfl, rfl⟩
    have hresumed := hmoved.moved (resumeAll_moved q.paused _)
    exact ⟨hresumed.bare, hresumed.settings, hresumed.ready⟩
  | advance delta => exact ⟨rfl, rfl, fun hp => ⟨hp, rfl⟩⟩
  | setOutput node slot v =>
    have hmoved : Moved p (p.setOutput node slot v) :=
      ⟨Graph.clearValues_modifyNode p.graph fun n _ => Node.clearValues_setOutput n slot v,
        rfl, rfl, rfl, rfl⟩
    exact ⟨hmoved.bare, rfl, fun hp => ⟨hmoved.ready hp, hmoved.shape⟩⟩

theorem after_undisturbed : ∀ (calls : List Call) (p : Processor σ), Undisturbed p (p.after calls)
  | [], p => ⟨rfl, rfl, fun hp => ⟨hp, rfl⟩⟩
  | c :: calls, p => by
    have hc := perform_undisturbed p c
    have hrest := after_undisturbed calls (c.perform p).state
    refine ⟨hrest.bare.trans hc.bare, hrest.settings.trans hc.settings, fun hp => ?_⟩
    obtain ⟨hready, hshape⟩ := hc.ready hp
    exact ⟨(hrest.ready hready).1, (hrest.ready hready).2.trans hshape⟩

end Processor

end FlowScript
