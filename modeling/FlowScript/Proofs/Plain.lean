/-
# Plain evaluation of data nodes

What a data node gives is a matter of recursion: evaluate the data nodes that feed it, put their
values into its input slots, compute.  `Graph.plain` is this recursion without any memory: a shared
producer is evaluated anew wherever it is used, in link order, and the first failure is the answer.
Inputs that no data node feeds keep what their slots hold, else their defaults.

The recursion ends because no data node feeds itself over any number of links (`Graph.Acyclic`).  In
such a graph a chain of producers has no more links than the graph has nodes, which is also why the
depth that a pull is allowed is enough.

`Library.Behavior.value` says what the standard data nodes compute, and `ActsAs` that a state of any
other type behaves like one of them.
-/
import FlowScript.Library.Types
import FlowScript.Proofs.Chains

namespace FlowScript

/-! ## 1. Acyclic graphs -/

namespace Graph

variable {g : Graph}

/-- The data node `p` feeds a data input of the node `q`. -/
def Feeds (g : Graph) (p q : NodeId) : Prop := p ∈ g.producers q

/-- No data node feeds itself, over any number of links. -/
def Acyclic (g : Graph) : Prop := ∀ id, ¬ Relation.TransGen g.Feeds id id

/-- A graph is acyclic if its data links lead upwards in some numbering of its nodes. -/
theorem acyclic_of_numbering (number : NodeId → Nat)
    (h : ∀ c ∈ g.links, c.exec = false → g.isData c.fromNode = true →
      number c.fromNode < number c.toNode) : g.Acyclic := by
  intro id hcycle
  have hup : ∀ {p q}, Relation.TransGen g.Feeds p q → number p < number q := by
    intro p q hpq
    induction hpq with
    | single hf =>
      obtain ⟨hdata, c, hc, hexec, rfl, rfl⟩ := mem_producers_iff.1 hf
      exact h c hc hexec hdata
    | tail _ hf ih =>
      obtain ⟨hdata, c, hc, hexec, rfl, rfl⟩ := mem_producers_iff.1 hf
      exact Nat.lt_trans ih (h c hc hexec hdata)
  exact Nat.lt_irrefl _ (hup hcycle)

theorem feeds_eq (g : Graph) : g.Feeds = g.Supplies :=
  funext fun _ => funext fun _ => propext mem_producers_iff

/-- **A chain of producers has no more links than the graph has nodes.** -/
theorem Acyclic.le_size (h : g.Acyclic) {k : Nat} {p s : NodeId} (hw : g.DataWalk k p s) :
    k ≤ g.nodes.size := by
  by_contra hlong
  -- the end of a chain need not be a node of the graph, so it is counted apart
  have hplaces : ∀ x y, g.Supplies x y → x ∈ s :: g.nodes.keys := fun _ _ hxy =>
    List.mem_cons_of_mem s hxy.mem_keys
  obtain ⟨x, -, hx, -⟩ := (dataWalk_iff.1 hw).exists_cycle hplaces List.mem_cons_self
    (by rw [List.length_cons, length_keys]; omega)
  exact h x (g.feeds_eq ▸ hx)

theorem DataWalk.snoc {k : Nat} {p q s : NodeId} (hw : g.DataWalk k p q) (hq : q ∈ g.producers s) :
    g.DataWalk (k + 1) p s := by
  induction hw with
  | refl q => exact .step hq (.refl s)
  | step hp _ ih => exact .step hp (ih hq)

theorem producers_eq_nil_of_not_dataWalk {id : NodeId} (h : ∀ p, ¬ g.DataWalk 1 p id) :
    g.producers id = [] :=
  List.eq_nil_iff_forall_not_mem.2 fun p hp => h p (dataWalk_one_iff.2 hp)

theorem acc_of_not_dataWalk :
    ∀ (k : Nat) (id : NodeId), (∀ p, ¬ g.DataWalk k p id) → Acc g.Feeds id
  | 0, id, h => absurd (.refl id) (h id)
  | k + 1, id, h => ⟨id, fun q hq => acc_of_not_dataWalk k q fun p hw => h p (hw.snoc hq)⟩

/-- Recursion over producers ends. -/
theorem Acyclic.wellFounded (h : g.Acyclic) : WellFounded g.Feeds :=
  ⟨fun id => acc_of_not_dataWalk (g.nodes.size + 1) id fun _ hw =>
    absurd (h.le_size hw) (Nat.not_succ_le_self _)⟩

end Graph

/-! ## 2. What the standard data nodes compute -/

namespace Library

/-- The types of the standard data nodes. -/
def dataTypes : List NodeType := [constantType, addType, greaterType, formatType]

/-- What a data node gives for what it sees in its input slots; the other nodes give nothing. -/
def Behavior.value (c : Context) : Behavior → Except EvalError Value
  | .constant v => .ok v
  | .add => do
    let a ← c.float 0
    let b ← c.float 1
    return .float (a + b)
  | .greater => do
    let a ← c.float 0
    let b ← c.float 1
    return .bool (b.lt a)
  | .format template => .ok (.string (fill template ((c.text? 0).getD "")))
  | _ => .error (.unbound c.node.id)

/-- The behaviors of data nodes. -/
def Behavior.IsData : Behavior → Prop
  | .constant _ | .add | .greater | .format _ => True
  | _ => False

/-- An evaluation of a data node puts its value into the first output slot, or fails without having
done anything. -/
theorem Behavior.evaluate_of_isData {b : Behavior} (hb : b.IsData) (c : Context) :
    b.evaluate c = (b.value c).casesOn (fun e => .fail b e) (fun v => emit b v) := by
  have hcombine : ∀ (b : Behavior) (f : Single → Single → Value),
      combine b c f = (do
        let x ← c.float 0
        let y ← c.float 1
        return f x y : Except EvalError Value).casesOn (fun e => .fail b e) fun v => emit b v := by
    intro b f
    unfold combine
    cases c.float 0 with
    | error e => rfl
    | ok x => cases c.float 1 <;> rfl
  cases b with
  | constant v => rfl
  | add => exact hcombine .add _
  | greater => exact hcombine .greater _
  | format template => rfl
  | entry _ => exact hb.elim
  | log _ => exact hb.elim
  | branch => exact hb.elim
  | wait _ => exact hb.elim

/-- The value of a data node is a function of its input slots and its name. -/
theorem Behavior.value_congr {c c' : Context} (hid : c.node.id = c'.node.id)
    (hin : c.node.inputs = c'.node.inputs) (b : Behavior) : b.value c = b.value c' := by
  have hinput : c.input? = c'.input? := by
    funext slot
    rw [Context.input?, Context.input?, hin]
  have hname : c.slotName = c'.slotName := by
    funext slot
    rw [Context.slotName, Context.slotName, hin]
  have hfloat : c.float = c'.float := by
    funext slot
    simp only [Context.float, Context.require, hinput, hname, hid]
  cases b <;> simp only [value, hfloat, Context.text?, hinput, hid]

end Library

/-- The node is of a standard data type: it has ports of the same types. -/
def Node.StandardData (n : Node) : Prop :=
  ∃ t ∈ Library.dataTypes, n.type = t.id ∧ n.inputs.map Port.type = t.inputs.map Port.type ∧
    n.outputs.map Port.type = t.outputs.map Port.type

instance (n : Node) : Decidable n.StandardData :=
  inferInstanceAs (Decidable (∃ t ∈ Library.dataTypes, _))

namespace Node.StandardData

variable {n : Node}

theorem exists_bind (h : n.StandardData) :
    ∃ b, Library.registry.bind n = .ok b ∧ b.IsData := by
  obtain ⟨t, ht, htype, -⟩ := h
  simp only [Library.dataTypes, List.mem_cons, List.not_mem_nil, or_false] at ht
  unfold Registry.bind
  rw [htype]
  rcases ht with rfl | rfl | rfl | rfl
  · exact ⟨Library.makeConstant n, rfl, trivial⟩
  · exact ⟨.add, rfl, trivial⟩
  · exact ⟨.greater, rfl, trivial⟩
  · exact ⟨Library.makeFormat n, rfl, trivial⟩

/-- A standard data node has no control-flow input. -/
theorem input_type_ne (h : n.StandardData) : ∀ p ∈ n.inputs, p.type ≠ .exec := by
  obtain ⟨t, ht, -, hin, -⟩ := h
  have hall : ∀ t ∈ Library.dataTypes, ∀ x ∈ t.inputs.map Port.type, x ≠ .exec := by decide
  intro p hp
  exact hall t ht p.type (hin ▸ List.mem_map.2 ⟨p, hp, rfl⟩)

/-- A standard data node has one output, which carries data. -/
theorem exists_output (h : n.StandardData) : ∃ p, n.outputs = [p] ∧ p.isExec = false := by
  obtain ⟨t, ht, -, -, hout⟩ := h
  have hall : ∀ t ∈ Library.dataTypes, (t.outputs.map Port.type).length = 1 ∧
      ∀ x ∈ t.outputs.map Port.type, x ≠ .exec := by decide
  obtain ⟨hlen, hexec⟩ := hall t ht
  rw [← hout, List.length_map] at hlen
  obtain ⟨p, hp⟩ := List.length_eq_one_iff.1 hlen
  refine ⟨p, hp, decide_eq_false (hexec p.type ?_)⟩
  rw [← hout, hp]
  exact List.mem_singleton_self _

end Node.StandardData

/-! ## 3. Plain recursion -/

/-- A node with given values in its input slots. -/
def Node.supply (n : Node) (given : PortId → Option Value) : Node :=
  { n with inputs := n.inputs.map fun p => { p with value? := (given p.id).or p.value? } }

namespace Graph

/-- The data node that feeds an input. -/
def provider? (g : Graph) (node : NodeId) (port : PortId) : Option NodeId :=
  (g.links.find? fun c =>
    !c.exec && c.toNode = node && c.toPort = port && g.isData c.fromNode).map (·.fromNode)

/-- The value of a data node, once the values of its producers are known. -/
def valueFrom (g : Graph) (time : FrameTime) (id : NodeId) (values : List (NodeId × Value)) :
    Except EvalError Value :=
  match g.node? id with
  | none => .error (.nodeNotFound id)
  | some n =>
    match Library.registry.bind n with
    | .error _ => .error (.unbound id)
    | .ok b =>
      b.value (.start (n.supply fun port => (g.provider? id port).bind (values.lookup ·)) time)

/-- The value of a data node by plain recursion over its producers. -/
def plain (g : Graph) (acyclic : g.Acyclic) (time : FrameTime) (id : NodeId) :
    Except EvalError Value := do
  let values ← (g.producers id).attach.mapM fun q =>
    (plain g acyclic time q.1).map (q.1, ·)
  g.valueFrom time id values
termination_by acyclic.wellFounded.wrap id
decreasing_by exact q.2

/-- The values of the data nodes that feed a node, by plain recursion. -/
def plainInputs (g : Graph) (acyclic : g.Acyclic) (time : FrameTime) (id : NodeId) :
    Except EvalError (List (NodeId × Value)) :=
  (g.producers id).mapM fun q => (g.plain acyclic time q).map (q, ·)

/-- **The recursion**: the values of the producers, then the node's own. -/
theorem plain_eq (g : Graph) (acyclic : g.Acyclic) (time : FrameTime) (id : NodeId) :
    g.plain acyclic time id = g.plainInputs acyclic time id >>= g.valueFrom time id := by
  rw [plain, plainInputs,
    List.mapM_subtype (g := fun q => (g.plain acyclic time q).map (q, ·)) fun _ _ => rfl,
    List.unattach_attach]

end Graph

/-- The values of a list of producers, looked up by producer. -/
theorem lookup_of_mapM {ε : Type} {f : NodeId → Except ε Value} :
    ∀ {l : List NodeId} {values : List (NodeId × Value)},
      l.mapM (fun q => (f q).map (q, ·)) = .ok values →
      ∀ q ∈ l, ∃ v, f q = .ok v ∧ values.lookup q = some v
  | [], _, _ => fun _ hq => nomatch hq
  | x :: l, values, h => by
    rw [List.mapM_cons] at h
    cases hx : f x with
    | error e => rw [hx] at h; cases h
    | ok v =>
      cases hl : l.mapM (fun q => (f q).map (q, ·)) with
      | error e => rw [hx, hl] at h; cases h
      | ok rest =>
        rw [hx, hl] at h
        cases h
        intro q hq
        by_cases hqx : q = x
        · subst hqx
          exact ⟨v, hx, by simp⟩
        · have hmem : q ∈ l := (List.mem_cons.1 hq).resolve_left hqx
          obtain ⟨w, hw, hlookup⟩ := lookup_of_mapM hl q hmem
          have hbeq : (q == x) = false := by simpa using hqx
          exact ⟨w, hw, by rw [List.lookup_cons, hbeq]; exact hlookup⟩

end FlowScript
