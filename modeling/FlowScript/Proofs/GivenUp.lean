/-
# What a failing seed gives up

Walking from seeds takes the paused walk of a seed out of the list before it goes on with it, and
puts it back only if the walk does not fail.  So a failure gives this one walk up, unlike a failure
of `run` or `runPaused`; the walks of the other seeds, and those that no seed asks for, are kept.

* `walkSeeds_failed` splits the seeds at the one whose walk fails.
* `walkSeeds_kept` carries a paused walk through the seeds before: it is left alone, or it goes on
  and is put back, unless the journal tells that it has completed.
-/
import FlowScript.Proofs.Failures

namespace FlowScript

universe u

namespace Processor

variable {σ : Type u} {kind : EntryKind}

/-- Taking a seed's walk out of the list leaves the others in it. -/
theorem mem_withoutSeed {p : Processor σ} {seed : NodeId} {key : EntryKind × NodeId}
    (h : key ≠ (kind, seed)) (hkey : key ∈ p.paused.map PausedWalk.key) :
    key ∈ (p.withoutSeed kind seed).paused.map PausedWalk.key := by
  obtain ⟨w, hw, rfl⟩ := List.mem_map.1 hkey
  refine List.mem_map_of_mem ((List.mem_eraseP_of_neg fun hat => ?_).2 hw)
  exact h (PausedWalk.isAt_iff.1 hat)

variable [Behaves σ]

/-- A walk that does not fail tells how it has ended. -/
theorem walkCursor_told {p q : Processor σ} {c c' : Cursor} {told : List Event}
    {outcome : WalkOutcome} (h : p.walkCursor c = (q, c', told, .ok outcome)) :
    .notice (.walkEnded c.entry outcome.status c'.current) ∈ told := by
  unfold walkCursor at h
  simp only [Prod.mk.injEq] at h
  obtain ⟨-, rfl, rfl, hresult⟩ := h
  rw [hresult]
  exact List.mem_append_right _ List.mem_cons_self

theorem walkSeeds_unknown {p : Processor σ} {seed : NodeId} (h : p.graph.node? seed = none)
    (seeds : List NodeId) :
    p.walkSeeds kind (seed :: seeds) =
      ⟨(p.walkSeeds kind seeds).state,
        .notice (.unknownSeed seed p.graph.name) :: (p.walkSeeds kind seeds).events,
        (p.walkSeeds kind seeds).result⟩ := by
  rw [walkSeeds, h]
  rfl

theorem walkSeeds_known {p : Processor σ} {seed : NodeId} (h : (p.graph.node? seed).isSome)
    (seeds : List NodeId) :
    p.walkSeeds kind (seed :: seeds) =
      match (p.withoutSeed kind seed).walkCursor (p.seedCursor kind seed) with
      | (q, _, events, .error e) => ⟨q, events, .error e⟩
      | (q, c, events, .ok outcome) =>
        ⟨((q.keep kind outcome c).walkSeeds kind seeds).state,
          events ++ ((q.keep kind outcome c).walkSeeds kind seeds).events,
          ((q.keep kind outcome c).walkSeeds kind seeds).result.map outcome.status.and⟩ := by
  rw [walkSeeds, if_pos h]
  rfl

/-- **Walking from seeds stops at the first walk that fails**: the seeds before it have been walked
from as if they were alone, and those after it are not reached. -/
theorem walkSeeds_failed {e : EvalError} :
    ∀ (seeds : List NodeId) (p : Processor σ), (p.walkSeeds kind seeds).result = .error e →
      ∃ before seed rest mid told status last c told',
        seeds = before ++ seed :: rest ∧ p.walkSeeds kind before = ⟨mid, told, .ok status⟩ ∧
        (mid.withoutSeed kind seed).walkCursor (mid.seedCursor kind seed) =
          (last, c, told', .error e) ∧
        p.walkSeeds kind seeds = ⟨last, told ++ told', .error e⟩
  | [], _, h => nomatch h
  | seed :: seeds, p, h => by
    cases hnode : p.graph.node? seed with
    | none =>
      rw [walkSeeds_unknown hnode] at h ⊢
      obtain ⟨before, x, rest, mid, told, status, last, c, told', rfl, hbefore, hfail, hall⟩ :=
        walkSeeds_failed seeds p h
      refine ⟨seed :: before, x, rest, mid, .notice (.unknownSeed seed p.graph.name) :: told,
        status, last, c, told', rfl, ?_, hfail, ?_⟩
      · rw [walkSeeds_unknown hnode, hbefore]
      · rw [hall]
        rfl
    | some n =>
      have hknown : (p.graph.node? seed).isSome := by rw [hnode]; rfl
      rw [walkSeeds_known hknown] at h ⊢
      rcases hwalk : (p.withoutSeed kind seed).walkCursor (p.seedCursor kind seed) with
        ⟨q, c, events, e' | outcome⟩
      · rw [hwalk] at h
        cases h
        exact ⟨[], seed, seeds, p, [], .finished, q, c, events, rfl, rfl, hwalk, rfl⟩
      · rw [hwalk] at h
        obtain ⟨before, x, rest, mid, told, status, last, d, told', rfl, hbefore, hfail, hall⟩ :=
          walkSeeds_failed seeds (q.keep kind outcome c) (eq_error_of_map h)
        refine ⟨seed :: before, x, rest, mid, events ++ told, outcome.status.and status, last, d,
          told', rfl, ?_, hfail, ?_⟩
        · rw [walkSeeds_known hknown, hwalk]
          simp only [hbefore]
          rfl
        · simp only [hall, List.append_assoc]
          rfl

/-- **A paused walk stays paused through seeds that do not fail**, unless it is
told that it has completed. -/
theorem walkSeeds_kept {key : EntryKind × NodeId} {status : Status} :
    ∀ (seeds : List NodeId) (p : Processor σ), (p.walkSeeds kind seeds).result = .ok status →
      (key.1 = kind → ∀ current,
        .notice (.walkEnded key.2 .finished current) ∉ (p.walkSeeds kind seeds).events) →
      key ∈ p.paused.map PausedWalk.key →
      key ∈ (p.walkSeeds kind seeds).state.paused.map PausedWalk.key
  | [], _, _, _, hkey => hkey
  | seed :: seeds, p, hok, hgoes, hkey => by
    rcases p.walkSeeds_cases kind seed seeds with
      ⟨-, heq⟩ | ⟨q, c, events, e, hwalk, heq⟩ | ⟨q, c, events, outcome, hwalk, heq⟩
    · rw [heq] at hok hgoes ⊢
      exact walkSeeds_kept seeds p hok (fun hkind n hn => hgoes hkind n (List.mem_cons_of_mem _ hn))
        hkey
    · rw [heq] at hok
      cases hok
    · rw [heq] at hok hgoes ⊢
      obtain ⟨status', hok'⟩ := exists_ok_of_map hok
      refine walkSeeds_kept seeds _ hok'
        (fun hkind n hn => hgoes hkind n (List.mem_append_right _ hn)) ?_
      have hpaused := (walkCursor_moved (p.withoutSeed kind seed) (p.seedCursor kind seed)).2
      have hentry := walkCursor_entry (p.withoutSeed kind seed) (p.seedCursor kind seed)
      have htold := walkCursor_told hwalk
      rw [hwalk] at hpaused hentry
      rw [entry_seedCursor] at hentry htold
      unfold keep
      by_cases hseed : key = (kind, seed)
      · -- the walk has not completed, so it is put back
        subst hseed
        have hout : outcome ≠ .completed := by
          rintro rfl
          exact hgoes rfl c.current (List.mem_append_left _ htold)
        rw [if_neg hout, List.map_append]
        exact List.mem_append_right _ (List.mem_singleton.2 (congrArg (Prod.mk kind) hentry.symm))
      · have hkept : key ∈ q.paused.map PausedWalk.key := hpaused ▸ mem_withoutSeed hseed hkey
        split
        · exact hkept
        · rw [List.map_append]
          exact List.mem_append_left _ hkept

end Processor

/-- **Walking from seeds gives up the walk of the seed that fails, and no other.**  The walks of the
seeds before it have been taken up as if they were alone.  The walk that fails is out of the list,
and every other walk that was paused when the processor was ready is paused still, unless the
journal tells that it has completed. -/
theorem failing_seed_gives_up_one_walk {σ : Type u} [Behaves σ] (p : Processor σ)
    (seeds : List NodeId) (kind : EntryKind) (e : EvalError)
    (failed : (p.runFrom seeds kind).result = .error (.eval e)) :
    let ready := p.ensureReady.state
    let after := (p.runFrom seeds kind).state
    ∃ before seed rest mid told status current told',
      seeds = before ++ seed :: rest ∧
      ready.walkSeeds kind before = ⟨mid, told, .ok status⟩ ∧
      (mid.withoutSeed kind seed).walkCursor (mid.seedCursor kind seed) =
        (after, ⟨seed, current⟩, told', .error e) ∧
      (p.runFrom seeds kind).events = p.ensureReady.events ++ told ++ told' ∧
      after.paused = mid.paused.eraseP (PausedWalk.isAt kind seed) ∧
      (ready.InOrder → (kind, seed) ∉ after.paused.map PausedWalk.key) ∧
      ∀ w ∈ ready.paused, w.key ≠ (kind, seed) →
        (w.kind = kind → ∀ current,
          .notice (.walkEnded w.cursor.entry .finished current) ∉ (p.runFrom seeds kind).events) →
        w.key ∈ after.paused.map PausedWalk.key := by
  intro ready after
  obtain ⟨-, hstate, hevents, hresult⟩ :=
    Processor.onReady_failed (p.runFrom_eq seeds kind ▸ failed)
  rw [← p.runFrom_eq seeds kind] at hstate hevents
  obtain ⟨before, seed, rest, mid, told, status, last, c, told', hseeds, hbefore, hfail, hall⟩ :=
    Processor.walkSeeds_failed seeds ready hresult
  have hlast : last = after := by
    show last = (p.runFrom seeds kind).state
    rw [hstate, hall]
  have htold : (p.runFrom seeds kind).events = p.ensureReady.events ++ told ++ told' := by
    rw [hevents, hall, List.append_assoc]
  have hentry := Processor.walkCursor_entry (mid.withoutSeed kind seed) (mid.seedCursor kind seed)
  have hpaused :=
    (Processor.walkCursor_moved (mid.withoutSeed kind seed) (mid.seedCursor kind seed)).2
  rw [hfail, hlast] at hpaused
  rw [hfail, Processor.entry_seedCursor] at hentry
  subst hlast hentry
  refine ⟨before, c.entry, rest, mid, told, status, c.current, told', hseeds, hbefore, hfail, htold,
    hpaused, fun horder => ?_, fun w hw hkey hgoes => ?_⟩
  · have hmid : (ready.walkSeeds kind before).state.InOrder := horder.walkSeeds before
    rw [hbefore] at hmid
    rw [hpaused]
    exact Processor.not_mem_eraseP_isAt hmid.nodup
  · have hok : (ready.walkSeeds kind before).result = .ok status := by rw [hbefore]
    have hkept : w.key ∈ (ready.walkSeeds kind before).state.paused.map PausedWalk.key := by
      refine Processor.walkSeeds_kept before ready hok (fun hkind n hn => hgoes hkind n ?_)
        (List.mem_map_of_mem hw)
      rw [hbefore] at hn
      rw [htold]
      exact List.mem_append_left _ (List.mem_append_right _ hn)
    rw [hbefore] at hkept
    rw [hpaused]
    exact Processor.mem_withoutSeed hkey hkept

/-- Four walks were started in the brittle script.  Taking up the first, the third and the last ends
the first and fails in the third, which is given up; the second and the last are paused still. -/
theorem brittle_seed_gives_up_one_walk :
    let q := Request.serveAll brittleProcessor
      [.call (.runFrom [exampleId 0, exampleId 2, exampleId 4, exampleId 7] .event)]
    let reply := q.runFrom [exampleId 0, exampleId 4, exampleId 7] .event
    reply.result = .error (.eval brittleError) ∧
    reply.state.paused =
      [⟨.event, ⟨exampleId 2, exampleId 3⟩⟩, ⟨.event, ⟨exampleId 7, exampleId 8⟩⟩] ∧
    ∃ before seed rest mid told status,
      [exampleId 0, exampleId 4, exampleId 7] = before ++ seed :: rest ∧
      q.ensureReady.state.walkSeeds .event before = ⟨mid, told, .ok status⟩ ∧
      reply.state.paused = mid.paused.eraseP (PausedWalk.isAt .event seed) := by
  have hlaw := failing_seed_gives_up_one_walk (Request.serveAll brittleProcessor
    [.call (.runFrom [exampleId 0, exampleId 2, exampleId 4, exampleId 7] .event)])
    [exampleId 0, exampleId 4, exampleId 7] .event brittleError
  have failed : ((Request.serveAll brittleProcessor [.call (.runFrom [exampleId 0, exampleId 2,
      exampleId 4, exampleId 7] .event)]).runFrom
        [exampleId 0, exampleId 4, exampleId 7] .event).result =
      .error (.eval brittleError) := by decide +kernel
  have left : ((Request.serveAll brittleProcessor [.call (.runFrom [exampleId 0, exampleId 2,
      exampleId 4, exampleId 7] .event)]).runFrom
        [exampleId 0, exampleId 4, exampleId 7] .event).state.paused =
      [⟨.event, ⟨exampleId 2, exampleId 3⟩⟩, ⟨.event, ⟨exampleId 7, exampleId 8⟩⟩] := by
    decide +kernel
  generalize Request.serveAll brittleProcessor _ = q at hlaw failed left ⊢
  obtain ⟨before, seed, rest, mid, told, status, -, -, hseeds, hbefore, -, -, hpaused, -⟩ :=
    hlaw failed
  exact ⟨failed, left, before, seed, rest, mid, told, status, hseeds, hbefore, hpaused⟩

/-- **A paused walk can be lost.**  A walk of the brittle script waits for one tick; when it is
taken up again from its seed, it fails further on without having come to an end, and no walk is
paused any more.  Resumed with the paused walks instead, it is kept at the node that has failed. -/
theorem failing_seed_loses_its_walk :
    let q := Request.serveAll brittleProcessor [.call (.runFrom [exampleId 4] .event)]
    let reply := q.runFrom [exampleId 4] .event
    (∃ told, Processor.new brittleGraph Probe.registry .standard = (told, .ok brittleProcessor)) ∧
    q.ensureReady.state.paused = [⟨.event, ⟨exampleId 4, exampleId 5⟩⟩] ∧
    reply.result = .error (.eval brittleError) ∧ (∀ x ∈ reply.events, x.ended? = none) ∧
    reply.state.paused = [] ∧
    q.runPaused.result = .error (.eval brittleError) ∧
    q.runPaused.state.paused = [⟨.event, ⟨exampleId 4, exampleId 6⟩⟩] := by
  refine ⟨brittleProcessor_new, ?_⟩
  decide +kernel

end FlowScript
