/-
# What the slots of standard nodes hold

A link is checked once, when it is made: the type of its source has to feed the type of its target
(`PortType.feeds`).  What an input is read as is decided later, by the behavior of its node.  This
module joins the two for the standard nodes.

* An output of a definite type only ever holds values of that type (`PortType.Carries`), so an input
  only ever gets values whose type feeds its own (`PortType.Admits`): `Graph.Filled` is kept by
  evaluations, pushes and scheduling.
* Every input that a standard behavior reads as a number or a truth value is declared such that the
  reading succeeds on all that it admits (`Library.suits_of_bind`).

Outputs of type `any` are apart: they hold anything and feed everything, so nothing is said about
graphs in which data links start at them (`Graph.Definite`).
-/
import FlowScript.Proofs.Survival

namespace FlowScript

/-- The failure says that an input holds a value that cannot be read as its node asks. -/
def EvalError.isMismatch : EvalError → Bool
  | typeMismatch .. => true
  | _ => false

/-! ## 1. Types and values -/

namespace PortType

/-- The values that may come to an input of the type. -/
def Admits (t : PortType) (v : Value) : Prop := v.type.feeds t = true

/-- The values that may stand in an output of the type. -/
def Carries (t : PortType) (v : Value) : Prop := t = any ∨ v.type = t

instance (t : PortType) (v : Value) : Decidable (t.Admits v) := inferInstanceAs (Decidable (_ = _))

/-- Over a link from an output of a definite type comes what its target admits. -/
theorem Carries.admits {t u : PortType} {v : Value} (h : t.Carries v) (ht : t ≠ any)
    (hfeeds : t.feeds u = true) : u.Admits v := by
  obtain rfl : v.type = t := h.resolve_left ht
  exact hfeeds

end PortType

namespace Value

variable {v : Value}

theorem isSome_asFloat? (h : PortType.float.Admits v) : v.asFloat?.isSome := by
  cases v <;> first | rfl | cases h

theorem isSome_asInt? (h : PortType.int.Admits v) : v.asInt?.isSome := by
  cases v <;> first | rfl | cases h

theorem isSome_asBool? (h : PortType.bool.Admits v) : v.asBool?.isSome := by
  cases v <;> first | rfl | cases h

end Value

/-! ## 2. Nodes -/

/-- What a node type says about a port: everything but its name, its default and what it holds. -/
def Port.signature (p : Port) : Port := { p with id := default, default? := none, value? := none }

namespace Node

/-- The node has the category and the ports of a type. -/
def IsOf (n : Node) (t : NodeType) : Prop :=
  n.category = t.category ∧ n.inputs.map Port.signature = t.inputs.map Port.signature ∧
    n.outputs.map Port.signature = t.outputs.map Port.signature

/-- A node of a standard type with the ports of its type, whose defaults its inputs admit. -/
structure Standard (n : Node) : Prop where
  ofType : ∃ t ∈ Library.registry.get? n.type, n.IsOf t
  defaults : ∀ p ∈ n.inputs, ∀ v ∈ p.default?, p.type.Admits v

/-- The inputs hold what they admit, the outputs what they carry. -/
structure Filled (n : Node) : Prop where
  inputs : ∀ p ∈ n.inputs, ∀ v ∈ p.value?, p.type.Admits v
  outputs : ∀ p ∈ n.outputs, ∀ v ∈ p.value?, p.type.Carries v

/-- A standard node with empty slots: a new one. -/
structure Pristine (n : Node) : Prop where
  standard : n.Standard
  empty : ∀ p ∈ n.ports, p.value? = none

/-- The output slot can hold the value. -/
def Carries (n : Node) (slot : Nat) (v : Value) : Prop :=
  ∀ t ∈ (n.outputs[slot]?).map Port.type, t.Carries v

instance (n : Node) (t : NodeType) : Decidable (n.IsOf t) := inferInstanceAs (Decidable (_ ∧ _ ∧ _))

instance (n : Node) : Decidable n.Standard :=
  decidable_of_iff ((∃ t ∈ Library.registry.get? n.type, n.IsOf t) ∧
      ∀ p ∈ n.inputs, ∀ v ∈ p.default?, p.type.Admits v)
    ⟨fun h => ⟨h.1, h.2⟩, fun h => ⟨h.ofType, h.defaults⟩⟩

instance (n : Node) : Decidable n.Pristine :=
  decidable_of_iff (n.Standard ∧ ∀ p ∈ n.ports, p.value? = none)
    ⟨fun h => ⟨h.1, h.2⟩, fun h => ⟨h.standard, h.empty⟩⟩

variable {n m : Node} {t : NodeType}

theorem getElem?_type_of_signatures {l l' : List Port}
    (h : l.map Port.signature = l'.map Port.signature)
    (slot : Nat) : (l[slot]?).map Port.type = (l'[slot]?).map Port.type := by
  have hslot := congrArg (fun s : List Port => (s[slot]?).map Port.type) h
  simp only [List.getElem?_map, Option.map_map] at hslot
  exact hslot

theorem IsOf.inputType (h : n.IsOf t) (slot : Nat) :
    (n.inputs[slot]?).map Port.type = (t.inputs[slot]?).map Port.type :=
  getElem?_type_of_signatures h.2.1 slot

theorem IsOf.outputType (h : n.IsOf t) (slot : Nat) :
    (n.outputs[slot]?).map Port.type = (t.outputs[slot]?).map Port.type :=
  getElem?_type_of_signatures h.2.2 slot

theorem signatures_of_bare (h : n.bare = m.bare) :
    n.inputs.map Port.signature = m.inputs.map Port.signature ∧
      n.outputs.map Port.signature = m.outputs.map Port.signature := by
  have hinputs := congrArg (fun n : Node => n.inputs.map Port.signature) h
  have houtputs := congrArg (fun n : Node => n.outputs.map Port.signature) h
  simp only [bare, clearValues_inputs, clearValues_outputs, List.map_map] at hinputs houtputs
  exact ⟨hinputs, houtputs⟩

/-- What a node holds does not matter for its being a standard one. -/
theorem Standard.of_bare (h : n.Standard) (hbare : n.bare = m.bare) : m.Standard := by
  obtain ⟨t, ht, hcategory, hinputs, houtputs⟩ := h.ofType
  obtain ⟨hin, hout⟩ := signatures_of_bare hbare
  have htype : n.bare.type = m.bare.type := by rw [hbare]
  have hcat : n.bare.category = m.bare.category := by rw [hbare]
  have hblank : n.bare.inputs = m.bare.inputs := by rw [hbare]
  refine ⟨⟨t, htype ▸ ht, hcat.symm.trans hcategory, hin.symm.trans hinputs,
    hout.symm.trans houtputs⟩, fun p hp v hv => ?_⟩
  have hmem : p.blank ∈ n.bare.inputs := hblank ▸ List.mem_map_of_mem hp
  obtain ⟨q, hq, hqp : q.blank = p.blank⟩ := List.mem_map.1 hmem
  have hdefault : q.blank.default? = p.blank.default? := congrArg Port.default? hqp
  have hport : q.type = p.type := show q.blank.type = p.blank.type by rw [hqp]
  exact hport ▸ h.defaults q hq v (hdefault.trans hv)

theorem map_signature_instantiatePorts (ids : Nat → PortId) (l : List Port) :
    (instantiatePorts ids l).map Port.signature = l.map Port.signature := by
  refine List.ext_getElem? fun i => ?_
  simp only [instantiatePorts, List.getElem?_map, List.getElem?_mapIdx, Option.map_map]
  rfl

/-- A new port is empty and has type and default from a port of the node type. -/
theorem exists_of_mem_instantiatePorts {ids : Nat → PortId} {l : List Port} {p : Port}
    (hp : p ∈ instantiatePorts ids l) :
    p.value? = none ∧ ∃ q ∈ l, q.type = p.type ∧ q.default? = p.default? := by
  obtain ⟨i, hi, rfl⟩ := List.mem_mapIdx.1 hp
  exact ⟨rfl, l[i], List.getElem_mem hi, rfl, rfl⟩

/-- **What the library creates is pristine.** -/
theorem pristine_of_create? {id : String} {ids : NodeIds}
    (h : Library.registry.create? id ids = some n) : n.Pristine := by
  obtain ⟨t, ht, rfl⟩ := Option.map_eq_some_iff.1 h
  obtain ⟨e, he, rfl⟩ := Option.map_eq_some_iff.1 ht
  have hentry := (OrderedMap.get?_eq_some_iff _ _ _).1 he
  have hkeys : ∀ e ∈ Library.registry.entries.entries, e.2.type.id = e.1 := by decide
  have hdefaults : ∀ e ∈ Library.registry.entries.entries, ∀ p ∈ e.2.type.inputs, ∀ v ∈ p.default?,
      p.type.Admits v := by decide
  have hof : (e.type.instantiate ids).IsOf e.type :=
    ⟨rfl, map_signature_instantiatePorts _ _, map_signature_instantiatePorts _ _⟩
  refine ⟨⟨⟨e.type, ?_, hof⟩, fun p hp v hv => ?_⟩, fun p hp => ?_⟩
  · show Library.registry.get? e.type.id = some e.type
    rw [hkeys _ hentry]
    exact ht
  · obtain ⟨-, q, hq, htype, hdefault⟩ := exists_of_mem_instantiatePorts hp
    exact htype ▸ hdefaults _ hentry q hq v (hdefault ▸ hv)
  · exact (List.mem_append.1 hp).elim (fun hp => (exists_of_mem_instantiatePorts hp).1)
      fun hp => (exists_of_mem_instantiatePorts hp).1

theorem filled_of_empty (h : ∀ p ∈ n.ports, p.value? = none) : n.Filled where
  inputs p hp _ hv := nomatch (h p (List.mem_append_left _ hp)).symm.trans hv
  outputs p hp _ hv := nomatch (h p (List.mem_append_right _ hp)).symm.trans hv

theorem Pristine.filled (h : n.Pristine) : n.Filled := filled_of_empty h.empty

/-- Slots are read as they are, or by their defaults. -/
theorem Filled.admits (h : n.Filled) (hn : n.Standard) {p : Port} (hp : p ∈ n.inputs) {v : Value}
    (hv : p.current? = some v) : p.type.Admits v := by
  rcases Option.or_eq_some_iff.1 hv with hvalue | ⟨-, hdefault⟩
  · exact h.inputs p hp v hvalue
  · exact hn.defaults p hp v hdefault

theorem Filled.of_slots (h : n.Filled) (hin : m.inputs = n.inputs) (hout : m.outputs = n.outputs) :
    m.Filled := ⟨hin ▸ h.inputs, hout ▸ h.outputs⟩

theorem Filled.setOutput (h : n.Filled) {slot : Nat} {v : Value} (hv : n.Carries slot v) :
    (n.setOutput slot v).Filled := by
  refine ⟨h.inputs, fun p hp w hw => ?_⟩
  obtain ⟨k, hk⟩ := List.mem_iff_getElem?.1 hp
  rw [Node.setOutput, List.getElem?_modify] at hk
  obtain ⟨q, hq, rfl⟩ := Option.map_eq_some_iff.1 hk
  split at hw
  · next hslot =>
    cases hw
    rw [if_pos hslot]
    exact hv q.type (by rw [hslot, hq]; rfl)
  · next hslot =>
    rw [if_neg hslot]
    exact h.outputs q (List.mem_of_getElem? hq) w hw

theorem carries_setOutput {slot other : Nat} {v w : Value} :
    (n.setOutput slot v).Carries other w ↔ n.Carries other w := by
  have htypes : ((n.setOutput slot v).outputs[other]?).map Port.type =
      (n.outputs[other]?).map Port.type := by
    rw [← List.getElem?_map, ← List.getElem?_map]
    exact congrArg (·[other]?) (map_modify_eq (fun p : Port => { p with value? := some v })
      Port.type (fun _ => rfl) n.outputs slot)
  rw [Carries, htypes]
  rfl

/-- Filling an input with what it admits. -/
theorem Filled.setValue (h : n.Filled) (hnodup : (n.ports.map Port.id).Nodup) {p : Port}
    (hp : p ∈ n.inputs) {v : Value} (hv : p.type.Admits v) :
    (n.setValue p.id (some v)).Filled := by
  have hany : n.inputs.any (·.id = p.id) = true := List.any_eq_true.2 ⟨p, hp, decide_eq_true rfl⟩
  rw [Node.setValue, modifyPort, if_pos hany]
  refine ⟨fun q hq w hw => ?_, h.outputs⟩
  rcases mem_modifyFirst hq with hold | ⟨q, hmem, hid, rfl⟩
  · exact h.inputs q hold w hw
  · cases hw
    -- no other port has the name
    have hfound := port?_of_mem hnodup (List.mem_append_left _ hmem)
    rw [of_decide_eq_true hid, port?_of_mem hnodup (List.mem_append_left _ hp)] at hfound
    obtain rfl : p = q := Option.some.inj hfound
    exact hv

end Node

/-! ## 3. Behaviors -/

/-- An input is read without a mismatch if the view reads all that its type admits. -/
theorem Context.isMismatch_of_require {α : Type} {c : Context} (hn : c.node.Standard)
    (hfilled : c.node.Filled) {slot : Nat} {t expected : PortType} {view : Value → Option α}
    (hslot : (c.node.inputs[slot]?).map Port.type = some t)
    (hview : ∀ v, t.Admits v → (view v).isSome) {e : EvalError}
    (h : c.require slot expected view = .error e) : e.isMismatch = false := by
  unfold require at h
  split at h
  · cases h
    rfl
  · next v hv =>
    obtain ⟨p, hp, hcurrent⟩ := Option.bind_eq_some_iff.1 hv
    rw [hp] at hslot
    have htype : p.type = t := Option.some.inj hslot
    have hadmits := hfilled.admits hn (List.mem_of_getElem? hp) hcurrent
    obtain ⟨a, ha⟩ := Option.isSome_iff_exists.1 (hview v (htype ▸ hadmits))
    rw [ha] at h
    cases h

namespace Library

/-- The behavior reads what the inputs of the node admit, and writes what its outputs carry. -/
structure Behavior.Suits (b : Behavior) (n : Node) : Prop where
  writes : ∀ time, ∀ w ∈ (b.evaluate (.start n time)).writes, n.Carries w.1 w.2
  reads : ∀ time e, (b.evaluate (.start n time)).result = .error e → e.isMismatch = false

variable {n : Node} {t : NodeType}

/-- The two numbers of a data node. -/
theorem suits_of_combine {b : Behavior} {f : Single → Single → Value} (hn : n.Standard)
    (hfilled : n.Filled) (hof : n.IsOf t) (hinputs : t.inputs = numberInputs) {u : PortType}
    (houtput : (t.outputs[0]?).map Port.type = some u) (hf : ∀ x y, u.Carries (f x y))
    (heval : ∀ c, b.evaluate c = combine b c f) : b.Suits n := by
  have hslot : ∀ slot, slot < 2 → (n.inputs[slot]?).map Port.type = some .float := by
    intro slot hslot
    rw [hof.inputType, hinputs]
    match slot, hslot with
    | 0, _ => rfl
    | 1, _ => rfl
  refine ⟨fun time w hw => ?_, fun time e he => ?_⟩
  · rw [heval, combine] at hw
    split at hw
    · cases hw
    · split at hw
      · cases hw
      · obtain rfl := List.mem_singleton.1 hw
        intro u' hu'
        rw [hof.outputType, houtput] at hu'
        exact Option.some.inj hu' ▸ hf _ _
  · rw [heval, combine] at he
    split at he
    · next hx =>
      cases he
      exact Context.isMismatch_of_require hn hfilled (hslot 0 (by decide))
        (fun _ => Value.isSome_asFloat?) hx
    · split at he
      · next hy =>
        cases he
        exact Context.isMismatch_of_require hn hfilled (hslot 1 (by decide))
          (fun _ => Value.isSome_asFloat?) hy
      · cases he

/-- What writes nothing and fails only to read one input suits a node whose
input admits what is read. -/
theorem suits_of_require {α : Type} {b : Behavior} {view : Value → Option α} {u : PortType}
    (hn : n.Standard) (hfilled : n.Filled) (hof : n.IsOf t) (slot : Nat)
    (hinput : (t.inputs[slot]?).map Port.type = some u) (hview : ∀ v, u.Admits v → (view v).isSome)
    (hwrites : ∀ c, (b.evaluate c).writes = [])
    (hresult : ∀ c e, (b.evaluate c).result = .error e → c.require slot u view = .error e) :
    b.Suits n := by
  refine ⟨fun time w hw => ?_, fun time e he => ?_⟩
  · rw [hwrites] at hw
    cases hw
  · exact Context.isMismatch_of_require (c := .start n time) hn hfilled
      ((hof.inputType slot).trans hinput) hview (hresult _ e he)

theorem suits_log (hn : n.Standard) (hfilled : n.Filled) (hof : n.IsOf logType) (printed : Nat) :
    (Behavior.log printed).Suits n := by
  refine suits_of_require hn hfilled hof 2 rfl (fun _ => Value.isSome_asInt?) (fun c => ?_)
    fun c e he => ?_
  · show (print printed c).writes = []
    unfold print
    split <;> rfl
  · change (print printed c).result = .error e at he
    unfold print at he
    split at he
    · next hread =>
      cases he
      exact hread
    · cases he

theorem suits_branch (hn : n.Standard) (hfilled : n.Filled) (hof : n.IsOf branchType) :
    Behavior.branch.Suits n := by
  refine suits_of_require hn hfilled hof 1 rfl (fun _ => Value.isSome_asBool?) (fun c => ?_)
    fun c e he => ?_
  · show (choose c).writes = []
    unfold choose
    split <;> rfl
  · change (choose c).result = .error e at he
    unfold choose at he
    split at he
    · next hread =>
      cases he
      exact hread
    · cases he

theorem suits_wait (hn : n.Standard) (hfilled : n.Filled) (hof : n.IsOf waitType)
    (waited : Single) : (Behavior.wait waited).Suits n := by
  refine suits_of_require hn hfilled hof 1 rfl (fun _ => Value.isSome_asFloat?) (fun c => ?_)
    fun c e he => ?_
  · show (hold waited c).writes = []
    unfold hold
    split
    · rfl
    · simp only
      split <;> rfl
  · change (hold waited c).result = .error e at he
    unfold hold at he
    split at he
    · next hread =>
      cases he
      exact hread
    · simp only at he
      split at he <;> cases he

/-- What reads nothing that could mismatch suits a node that carries what it emits. -/
theorem suits_of_emit {b : Behavior} (hof : n.IsOf t) {u : PortType}
    (houtput : (t.outputs[0]?).map Port.type = some u) {f : Context → Value}
    (hf : ∀ c, u.Carries (f c)) (heval : ∀ c, b.evaluate c = emit b (f c)) : b.Suits n := by
  refine ⟨fun time w hw => ?_, fun time e he => ?_⟩
  · rw [heval] at hw
    obtain rfl := List.mem_singleton.1 hw
    intro u' hu'
    rw [hof.outputType, houtput] at hu'
    exact Option.some.inj hu' ▸ hf _
  · rw [heval] at he
    cases he

/-- An entry writes at most the length of the tick, and only one kind of entry carries it. -/
theorem suits_entry (hof : n.IsOf t) (ht : t ∈ entryTypes) :
    (Behavior.entry (t.id = onUpdate)).Suits n := by
  have hdelta : ∀ t ∈ entryTypes, t.id = onUpdate →
      (t.outputs[payloadSlot]?).map Port.type = some .float := by decide
  by_cases hid : t.id = onUpdate
  · rw [decide_eq_true hid]
    refine ⟨fun time w hw u hu => ?_, nofun⟩
    obtain rfl := List.mem_singleton.1 hw
    rw [hof.outputType, hdelta t ht hid] at hu
    cases hu
    exact .inr rfl
  · rw [decide_eq_false hid]
    exact ⟨fun _ _ hw => (nomatch hw), nofun⟩

/-- **Every standard type declares its ports as its behavior uses them**: on a node of the type,
what the type makes suits the node, whatever progress it has made. -/
theorem suits_of_made : ∀ type e, registry.entries.get? type = some e → ∀ (n : Node) (b : Behavior),
    n.Standard → n.Filled → n.IsOf e.type → b.reset = e.make n → b.Suits n := by
  refine Registry.forall_ofList (P := fun e => ∀ (n : Node) (b : Behavior), n.Standard → n.Filled →
    n.IsOf e.type → b.reset = e.make n → b.Suits n) _ .empty nofun ?_
  refine List.forall_mem_append.2 ⟨fun e he n b hn hfilled hof hb => ?_, ?_⟩
  · obtain ⟨t, ht, rfl⟩ := List.mem_map.1 he
    cases b with
    | entry writesDelta =>
      obtain rfl := Behavior.entry.inj hb
      exact suits_entry hof ht
    | _ => cases hb
  · simp only [List.forall_mem_cons]
    refine ⟨fun n b hn hfilled hof hb => ?_, fun n b hn hfilled hof hb => ?_,
      fun n b hn hfilled hof hb => ?_, fun n b hn hfilled hof hb => ?_,
      fun n b hn hfilled hof hb => ?_, fun n b hn hfilled hof hb => ?_,
      fun n b hn hfilled hof hb => ?_, List.forall_mem_nil _⟩ <;> cases b <;> cases hb
    · exact suits_log hn hfilled hof _
    · exact suits_branch hn hfilled hof
    · exact suits_wait hn hfilled hof _
    · exact suits_of_emit hof rfl (fun _ => .inl rfl) fun _ => rfl
    · exact suits_of_combine hn hfilled hof rfl rfl (fun _ _ => .inr rfl) fun _ => rfl
    · exact suits_of_combine hn hfilled hof rfl rfl (fun _ _ => .inr rfl) fun _ => rfl
    · exact suits_of_emit hof rfl (fun _ => .inr rfl) fun _ => rfl

/-- A node is bound to what suits it. -/
theorem suits_of_bind {b : Behavior} (hn : n.Standard) (hfilled : n.Filled)
    (hb : registry.bind n = .ok b.reset) : b.Suits n := by
  obtain ⟨t, ht, hof⟩ := hn.ofType
  unfold Registry.bind at hb
  split at hb
  · next e he =>
    obtain ⟨e', he', rfl⟩ := Option.map_eq_some_iff.1 ht
    obtain rfl : e = e' := Option.some.inj (he.symm.trans he')
    exact suits_of_made n.type e he n b hn hfilled hof (Except.ok.inj hb).symm
  · cases hb

end Library

/-- Writing what a node carries. -/
theorem Context.filled_setOutputs :
    ∀ (writes : List (Nat × Value)) (c : Context), c.node.Filled →
      (∀ w ∈ writes, c.node.Carries w.1 w.2) →
      (writes.foldl (fun c w => c.setOutput w.1 w.2) c).node.Filled
  | [], _, hc, _ => hc
  | w :: writes, c, hc, hwrites => by
    rw [List.forall_mem_cons] at hwrites
    refine filled_setOutputs writes (c.setOutput w.1 w.2) (hc.setOutput hwrites.1) fun w' hw' => ?_
    exact Node.carries_setOutput.2 (hwrites.2 w' hw')

theorem Context.filled_apply {σ : Type} {c : Context} (hc : c.node.Filled) {e : Effect σ}
    (hwrites : ∀ w ∈ e.writes, c.node.Carries w.1 w.2) : (c.apply e).node.Filled := by
  have hwritten := filled_setOutputs e.writes c hc hwrites
  unfold apply
  cases e.follow? with
  | none => exact hwritten
  | some slot => exact hwritten

/-! ## 4. Graphs -/

namespace Graph

/-- No data link starts at an output of type `any`. -/
def Definite (g : Graph) : Prop :=
  ∀ c ∈ g.links, c.exec = false → ∀ out ∈ g.port? c.fromNode c.fromPort, out.type ≠ .any

instance (g : Graph) : Decidable g.Definite := inferInstanceAs (Decidable (∀ c ∈ g.links, _))

/-- An intact graph of standard nodes whose data links have definite types.  Slots do not matter. -/
structure Sound (g : Graph) : Prop where
  intact : g.Intact
  standard : ∀ id n, g.node? id = some n → n.Standard
  definite : g.Definite

/-- Every slot of the graph holds what it may. -/
def Filled (g : Graph) : Prop := ∀ id n, g.node? id = some n → n.Filled

variable {g g' : Graph}

theorem Sound.of_bare (h : g.Sound) (hbare : g'.bare = g.bare) : g'.Sound where
  intact := h.intact.of_bare_eq hbare
  standard id n hn := by
    obtain ⟨m, hm, hmn⟩ := exists_node?_of_bare hbare hn
    exact (h.standard id m hm).of_bare hmn
  definite c hc hexec out hout := by
    obtain ⟨out', hout', hsame⟩ := exists_port?_of_bare hbare hout
    have htype : out'.type = out.type := show out'.blank.type = out.blank.type by rw [hsame]
    exact htype ▸ h.definite c (links_eq_of_bare hbare ▸ hc) hexec out' hout'

theorem Filled.modifyNode (h : g.Filled) {id : NodeId} {f : Node → Node}
    (hf : ∀ n, g.node? id = some n → n.Filled → (f n).Filled) : (g.modifyNode id f).Filled :=
  forall_node?_modifyNode h hf

/-- Ranks are not slots. -/
theorem Filled.of_resetRanks (h : g.Filled) (hg : g'.resetRanks = g.resetRanks) : g'.Filled := by
  intro id n hn
  obtain ⟨m, hm, hmn⟩ := exists_node?_of_resetRanks hg hn
  have hinputs := congrArg Node.inputs hmn
  have houtputs := congrArg Node.outputs hmn
  exact (h id m hm).of_slots hinputs.symm houtputs.symm

theorem filled_clearValues (g : Graph) : g.clearValues.Filled := by
  intro id n hn
  rw [node?_clearValues] at hn
  obtain ⟨m, -, rfl⟩ := Option.map_eq_some_iff.1 hn
  refine Node.filled_of_empty fun p hp => ?_
  rcases List.mem_append.1 hp with hp | hp
  · obtain ⟨q, -, rfl⟩ := List.mem_map.1 hp
    rfl
  · obtain ⟨q, -, rfl⟩ := List.mem_map.1 hp
    rfl

/-- The port is an input that admits the value. -/
def Takes (g : Graph) (node : NodeId) (port : PortId) (v : Value) : Prop :=
  ∃ inp, g.port? node port = some inp ∧ inp.direction = .input ∧ inp.type.Admits v

theorem Takes.of_bare {node : NodeId} {port : PortId} {v : Value} (h : g.Takes node port v)
    (hbare : g.bare = g'.bare) : g'.Takes node port v := by
  obtain ⟨inp, hinp, hside, hv⟩ := h
  obtain ⟨inp', hinp', hsame⟩ := exists_port?_of_bare hbare hinp
  have htype : inp'.type = inp.type := show inp'.blank.type = inp.blank.type by rw [hsame]
  have hdirection : inp'.direction = inp.direction :=
    show inp'.blank.direction = inp.blank.direction by rw [hsame]
  exact ⟨inp', hinp', hdirection.trans hside, htype.symm ▸ hv⟩

theorem Filled.deliver (h : g.Filled) (hg : g.Intact) {node : NodeId} {port : PortId} {v : Value}
    (hv : g.Takes node port v) : (g.deliver node port v).Filled := by
  obtain ⟨inp, hinp, hside, hv⟩ := hv
  obtain ⟨n, hn, hmem, rfl⟩ := hg.exists_input hinp hside
  refine h.modifyNode fun m hm hfilled => ?_
  obtain rfl : n = m := Option.some.inj (hn.symm.trans hm)
  exact hfilled.setValue (hg.portsNodup node n hn) hmem hv

theorem Filled.deliverAll :
    ∀ {l : List (NodeId × PortId × Value)} {g : Graph}, g.Filled → g.Intact →
      (∀ d ∈ l, g.Takes d.1 d.2.1 d.2.2) →
      (l.foldl (fun g d => g.deliver d.1 d.2.1 d.2.2) g).Filled
  | [], _, h, _, _ => h
  | d :: l, g, h, hg, hl => by
    rw [List.forall_mem_cons] at hl
    have hbare : (g.deliver d.1 d.2.1 d.2.2).bare = g.bare :=
      bare_eq_of_clearValues_eq (clearValues_deliver g d.1 d.2.1 d.2.2)
    exact (h.deliver hg hl.1).deliverAll (hg.of_bare_eq hbare) fun d' hd' =>
      (hl.2 d' hd').of_bare hbare.symm

/-- **What a push delivers is admitted**: the source carries it, and a link leads only from a type
to one that it feeds. -/
theorem Filled.pushOutputs (h : g.Filled) (hg : g.Sound) (id : NodeId) :
    (g.pushOutputs id).Filled := by
  unfold Graph.pushOutputs
  cases hn : g.node? id with
  | none => exact h
  | some n =>
    refine h.deliverAll hg.intact fun d hd => ?_
    obtain ⟨p, hp, hdata, hvalue, c, hc, hfrom, hto, hport⟩ := mem_deliveries_iff.1 hd
    obtain ⟨hnode, hexec⟩ := hg.intact.source_of_fromPort hc hn (List.mem_append_right _ hp) hfrom
    have hsource : g.port? c.fromNode c.fromPort = some p := by
      rw [hnode, hfrom, port?_eq_some_iff]
      exact ⟨n, hn, Node.port?_of_mem (hg.intact.portsNodup id n hn) (List.mem_append_right _ hp)⟩
    have hflag : c.exec = false :=
      Bool.eq_false_iff.2 fun hc => of_decide_eq_false hdata (hexec.1 hc)
    obtain ⟨out, inp, hj⟩ := hg.intact.joined c hc
    obtain rfl : p = out := Option.some.inj (hsource.symm.trans hj.source)
    refine ⟨inp, hto ▸ hport ▸ hj.target, hj.toInput, ?_⟩
    exact ((h id n hn).outputs p hp _ hvalue).admits (hg.definite c hc hflag p hsource) hj.feeds

end Graph

/-! ## 5. Walks -/

namespace Processor

variable {used : List NodeId} {p : Processor Library.Behavior}

/-- A processor for a sound graph whose nodes are bound to behaviors of their
types, with filled slots. -/
structure Typed (used : List NodeId) (p : Processor Library.Behavior) : Prop where
  faithful : p.Faithful Library.registry used
  sound : p.graph.Sound
  filled : p.graph.Filled

namespace Typed

variable {time : FrameTime} {s : Scene Library.Behavior}

/-- **One evaluation writes what outputs carry, and no input mismatches.** -/
theorem evaluate (h : Typed used { p with graph := s.graph, table := s.table }) (role : Role)
    (id : NodeId) :
    Typed used { p with
      graph := (s.evaluate time role id).scene.graph
      table := (s.evaluate time role id).scene.table } ∧
    ∀ e, (s.evaluate time role id).result = .error e → e.isMismatch = false := by
  have hbare := Graph.bare_eq_of_clearValues_eq (Scene.clearValues_evaluate time role s id)
  have hreset : (s.evaluate time role id).scene.table.reset = s.table.reset :=
    Scene.reset_evaluate Library.restarts s role id
  refine ⟨⟨h.faithful.congr Library.restarts rfl hbare hreset, h.sound.of_bare hbare, ?_⟩,
    fun e he => ?_⟩
  · show (s.evaluate time role id).scene.graph.Filled
    unfold Scene.evaluate
    split
    · exact h.filled
    · exact h.filled
    · next b n hb hn =>
      have hsuits := Library.suits_of_bind (h.sound.standard id n hn) (h.filled id n hn)
        (h.faithful.bound id n b hn hb)
      exact Graph.Filled.modifyNode h.filled fun _ _ _ =>
        Context.filled_apply (h.filled id n hn) (hsuits.writes time)
  · unfold Scene.evaluate at he
    split at he
    · cases he
      rfl
    · cases he
      rfl
    · next b n hb hn =>
      have hsuits := Library.suits_of_bind (h.sound.standard id n hn) (h.filled id n hn)
        (h.faithful.bound id n b hn hb)
      exact hsuits.reads time e (eq_error_of_map he)

theorem survives (used : List NodeId) (p : Processor Library.Behavior) (time : FrameTime) :
    Scene.Survives (fun s => Typed used { p with graph := s.graph, table := s.table }) time where
  evaluate _ role id h := (h.evaluate role id).1
  push s id h :=
    have hbare := Graph.bare_eq_of_clearValues_eq (Scene.clearValues_push s id)
    ⟨h.faithful.congr Library.restarts rfl hbare rfl, h.sound.of_bare hbare,
      Graph.Filled.pushOutputs h.filled h.sound id⟩
  memory _ _ h := h

/-- No walk from a typed processor meets a mismatch. -/
theorem walkCursor (h : p.Typed used) (c : Cursor) :
    (p.walkCursor c).1.Typed used ∧
      ∀ e, (p.walkCursor c).2.2.2 = .error e → e.isMismatch = false := by
  have hsurvives := survives used p p.time
  refine ⟨walkCursor_survives hsurvives c h, fun e he => ?_⟩
  exact hsurvives.walkWithin_error (fun s role id e hs he => (hs.evaluate role id).2 e he) _ _ _ _
    _ e h he

end Typed

end Processor

end FlowScript
