/-
# The integrity of a graph

Scheduling, walking and pushing follow links without checking them again: that a link's ends exist,
that its flag agrees with the types of its ports, that a data input has one provider.  This module
says what they rely on (`Graph.Intact`) and proves that every edit keeps it, refused edits included.

`Graph.Built` is the class of graphs that the other laws speak about: whatever edits make of the
empty graph, as long as new nodes, ports and links come under names that the graph does not use.  It
is closed under rewriting slots and ranks, so the graph of a running processor is in it as well.
-/
import FlowScript.Library.Types
import FlowScript.Proofs.Shape
import FlowScript.Supply
import Mathlib.Data.List.Nodup

namespace FlowScript

/-! ## 1. Ports of a graph -/

/-- The port is declared for one side of a node; its default and its content are free. -/
def Port.Declared (side : Direction) (p : Port) : Prop :=
  { p with default? := none, value? := none } = Port.make p.id side p.name p.type

instance (side : Direction) (p : Port) : Decidable (p.Declared side) :=
  inferInstanceAs (Decidable (_ = _))

theorem Port.Declared.direction_eq {side : Direction} {p : Port} (h : p.Declared side) :
    p.direction = side := congrArg Port.direction h

theorem Port.Declared.multi_eq {side : Direction} {p : Port} (h : p.Declared side) :
    p.multi = (side = .output || p.type = .exec) := congrArg Port.multi h

theorem Port.declared_blank {side : Direction} {p : Port} :
    p.blank.Declared side ↔ p.Declared side := Iff.rfl

namespace Node

theorem port?_mem {n : Node} {id : PortId} {p : Port} (h : n.port? id = some p) :
    p ∈ n.ports ∧ p.id = id :=
  ⟨List.mem_of_find?_eq_some h, by simpa using List.find?_some h⟩

theorem port?_isSome_iff (n : Node) (id : PortId) :
    (n.port? id).isSome ↔ id ∈ n.ports.map Port.id := by
  simp [port?]

/-- With different names, the port found under a port's name is that port. -/
theorem port?_of_mem {n : Node} (hn : (n.ports.map Port.id).Nodup) {p : Port} (hp : p ∈ n.ports) :
    n.port? p.id = some p := by
  obtain ⟨q, hq⟩ := Option.isSome_iff_exists.1
    ((port?_isSome_iff n p.id).2 (List.mem_map.2 ⟨p, hp, rfl⟩))
  obtain ⟨hqm, hqid⟩ := port?_mem hq
  have hpq : p = q := List.inj_on_of_nodup_map hn hp hqm hqid.symm
  rw [hq, hpq]

theorem port?_bare (n : Node) (id : PortId) : n.bare.port? id = (n.port? id).map Port.blank := by
  simp only [port?, bare_ports, List.find?_map]
  rfl

end Node

namespace Graph

/-- The port of a node under a given name. -/
def port? (g : Graph) (node : NodeId) (port : PortId) : Option Port :=
  (g.node? node).bind (·.port? port)

/-- The names of all ports. -/
def portIds (g : Graph) : List PortId := g.nodes.values.flatMap fun n => n.ports.map Port.id

theorem port?_eq_some_iff {g : Graph} {node : NodeId} {port : PortId} {p : Port} :
    g.port? node port = some p ↔ ∃ n, g.node? node = some n ∧ n.port? port = some p :=
  Option.bind_eq_some_iff

@[simp] theorem port?_bare (g : Graph) (node : NodeId) (port : PortId) :
    g.bare.port? node port = (g.port? node port).map Port.blank := by
  simp only [port?, node?_bare]
  cases g.node? node with
  | none => rfl
  | some n => exact Node.port?_bare n port

theorem mem_portIds_of_port? {g : Graph} {node : NodeId} {port : PortId} {p : Port}
    (h : g.port? node port = some p) : port ∈ g.portIds := by
  obtain ⟨n, hn, hp⟩ := port?_eq_some_iff.1 h
  obtain ⟨hmem, hid⟩ := Node.port?_mem hp
  refine List.mem_flatMap.2 ⟨n, (OrderedMap.mem_values_iff _ _).2 ⟨node, hn⟩, ?_⟩
  exact List.mem_map.2 ⟨p, hmem, hid⟩

/-- A port and its counterpart in a graph with the same topology. -/
theorem exists_port?_of_bare {g g' : Graph} (h : g.bare = g'.bare) {node : NodeId} {port : PortId}
    {p : Port} (hp : g.port? node port = some p) :
    ∃ q, g'.port? node port = some q ∧ q.blank = p.blank := by
  have hq : (g'.port? node port).map Port.blank = some p.blank := by
    rw [← port?_bare, ← h, port?_bare, hp]; rfl
  exact Option.map_eq_some_iff.1 hq

end Graph

/-! ## 2. The invariant -/

namespace Graph

/-- The link `c` leads from the output `out` to the input `inp`, and may do so. -/
structure Joins (g : Graph) (c : Connection) (out inp : Port) : Prop where
  source : g.port? c.fromNode c.fromPort = some out
  target : g.port? c.toNode c.toPort = some inp
  fromOutput : out.direction = .output
  toInput : inp.direction = .input
  feeds : out.type.feeds inp.type = true
  exec_iff : c.exec = true ↔ out.type = .exec
  /-- A data link does not return to its own node. -/
  noLoop : c.exec = false → c.fromNode ≠ c.toNode

/-- What every edit keeps and everything else relies on. -/
structure Intact (g : Graph) : Prop where
  /-- A node stands under its own name, and so does a link. -/
  nodeKey : ∀ id n, g.node? id = some n → n.id = id
  linkKey : ∀ id c, g.connection? id = some c → c.id = id
  /-- Inputs are declared as inputs, outputs as outputs. -/
  inputs : ∀ id n, g.node? id = some n → ∀ p ∈ n.inputs, p.Declared .input
  outputs : ∀ id n, g.node? id = some n → ∀ p ∈ n.outputs, p.Declared .output
  /-- No two ports share a name: neither on one node nor on two. -/
  portsNodup : ∀ id n, g.node? id = some n → (n.ports.map Port.id).Nodup
  portOwner : ∀ a b port, (g.port? a port).isSome → (g.port? b port).isSome → a = b
  joined : ∀ c ∈ g.links, ∃ out inp, g.Joins c out inp
  /-- A port that does not accept several links is the target of at most one. -/
  single : ∀ node port p, g.port? node port = some p → p.multi = false →
    (g.linksTo port).length ≤ 1

theorem intact_empty (name : String) : (empty name).Intact where
  nodeKey _ _ h := nomatch h
  linkKey _ _ h := nomatch h
  inputs _ _ h := nomatch h
  outputs _ _ h := nomatch h
  portsNodup _ _ h := nomatch h
  portOwner _ _ _ h := nomatch h
  joined _ h := nomatch h
  single _ _ _ h := nomatch h

theorem Joins.of_bare_eq {g g' : Graph} {c : Connection} {out inp : Port} (h : g.Joins c out inp)
    (hb : g.bare = g'.bare) : ∃ out' inp', g'.Joins c out' inp' := by
  obtain ⟨out', hout, ho⟩ := exists_port?_of_bare hb h.source
  obtain ⟨inp', hinp, hi⟩ := exists_port?_of_bare hb h.target
  have hot : out'.blank.type = out.blank.type := congrArg Port.type ho
  have hit : inp'.blank.type = inp.blank.type := congrArg Port.type hi
  have hod : out'.blank.direction = out.blank.direction := congrArg Port.direction ho
  have hid : inp'.blank.direction = inp.blank.direction := congrArg Port.direction hi
  refine ⟨out', inp', hout, hinp, hod.trans h.fromOutput, hid.trans h.toInput, ?_, ?_, h.noLoop⟩
  · show out'.blank.type.feeds inp'.blank.type = true
    rw [hot, hit]
    exact h.feeds
  · show c.exec = true ↔ out'.blank.type = .exec
    rw [hot]
    exact h.exec_iff

/-- Lists of ports with the same blank ports are declared alike. -/
theorem declared_of_map_blank_eq {side : Direction} {l l' : List Port}
    (h : l.map Port.blank = l'.map Port.blank) (hl : ∀ p ∈ l, p.Declared side) :
    ∀ p ∈ l', p.Declared side := by
  intro p hp
  have hmem : p.blank ∈ l.map Port.blank := h ▸ List.mem_map.2 ⟨p, hp, rfl⟩
  obtain ⟨q, hq, hqp⟩ := List.mem_map.1 hmem
  exact Port.declared_blank.1 (hqp ▸ Port.declared_blank.2 (hl q hq))

/-- **Integrity is a matter of the topology alone.** -/
theorem Intact.of_bare_eq {g g' : Graph} (h : g.Intact) (hb : g'.bare = g.bare) : g'.Intact := by
  have hlinks : g'.links = g.links := links_eq_of_bare hb
  have hconn : g'.bare.connections = g.bare.connections := congrArg Graph.connections hb
  have hsome : ∀ {a port}, (g'.port? a port).isSome → (g.port? a port).isSome := by
    intro a port ha
    obtain ⟨p, hp⟩ := Option.isSome_iff_exists.1 ha
    obtain ⟨q, hq, -⟩ := exists_port?_of_bare hb hp
    exact Option.isSome_iff_exists.2 ⟨q, hq⟩
  constructor
  case nodeKey =>
    intro id n hn
    obtain ⟨m, hm, hmn⟩ := exists_node?_of_bare hb hn
    have hid : m.bare.id = n.bare.id := congrArg Node.id hmn
    exact hid.symm.trans (h.nodeKey id m hm)
  case linkKey =>
    intro id c hc
    refine h.linkKey id c ?_
    show g.bare.connections.get? id = some c
    rw [← hconn]
    exact hc
  case inputs =>
    intro id n hn
    obtain ⟨m, hm, hmn⟩ := exists_node?_of_bare hb hn
    exact declared_of_map_blank_eq (congrArg Node.inputs hmn) (h.inputs id m hm)
  case outputs =>
    intro id n hn
    obtain ⟨m, hm, hmn⟩ := exists_node?_of_bare hb hn
    exact declared_of_map_blank_eq (congrArg Node.outputs hmn) (h.outputs id m hm)
  case portsNodup =>
    intro id n hn
    obtain ⟨m, hm, hmn⟩ := exists_node?_of_bare hb hn
    have hids : m.bare.ports.map Port.id = n.bare.ports.map Port.id := by rw [hmn]
    simp only [Node.bare_ports, List.map_map] at hids
    exact (show m.ports.map Port.id = n.ports.map Port.id from hids) ▸ h.portsNodup id m hm
  case portOwner => exact fun a b port ha hb => h.portOwner a b port (hsome ha) (hsome hb)
  case joined =>
    intro c hc
    obtain ⟨out, inp, hj⟩ := h.joined c (hlinks ▸ hc)
    exact hj.of_bare_eq hb.symm
  case single =>
    intro node port p hp hm
    obtain ⟨q, hq, hqp⟩ := exists_port?_of_bare hb hp
    have hmulti : q.blank.multi = p.blank.multi := congrArg Port.multi hqp
    rw [linksTo, hlinks]
    exact h.single node port q hq (hmulti.trans hm)

end Graph

/-! ## 3. What each operation does to nodes, ports and links -/

namespace OrderedMap

universe u v

variable {κ : Type u} {ν : Type v}

theorem values_filter (m : OrderedMap κ ν) (p : ν → Bool) :
    (m.filter fun _ x => p x).values = m.values.filter p := by
  simp [values, filter, List.filter_map, Function.comp_def]

variable [DecidableEq κ]

theorem get?_filter_eq_some_iff (m : OrderedMap κ ν) (p : κ → ν → Bool) (k : κ) (x : ν) :
    (m.filter p).get? k = some x ↔ m.get? k = some x ∧ p k x = true := by
  simp [get?_eq_some_iff, filter]

theorem values_insert_of_notMem {m : OrderedMap κ ν} {k : κ} (hk : k ∉ m.keys) (x : ν) :
    (m.insert k x).values = m.values ++ [x] := by
  simp [insert, hk, values]

theorem values_erase_sublist (m : OrderedMap κ ν) (k : κ) : (m.erase k).values.Sublist m.values :=
  List.filter_sublist.map Prod.snd

end OrderedMap

namespace Graph

/-- The graph with one more link. -/
def withLink (g : Graph) (c : Connection) : Graph :=
  { g with connections := g.connections.insert c.id c, revision := g.revision + 1 }

/-- **What a link that is not refused has passed**: its ends exist, it may lead from the one to the
other, an input of one link is free, and a data link joins two nodes. -/
theorem connect_ok {g g' : Graph} {id : ConnectionId} {a b : NodeId} {p q : PortId}
    (h : g.connect id a p b q = .ok g') :
    ∃ out inp, g.Joins ⟨id, a, p, b, q, out.isExec⟩ out inp ∧
      (inp.multi = false → ∀ d ∈ g.links, d.toPort ≠ q) ∧
      g' = g.withLink ⟨id, a, p, b, q, out.isExec⟩ := by
  unfold connect at h
  split at h
  · cases h
  · cases h
  · next source target hsource htarget =>
    split at h
    · cases h
    · cases h
    · next out inp hout hinp =>
      split at h
      · cases h
      · next hcompatible =>
        split at h
        · cases h
        · next hfree =>
          split at h
          · cases h
          · next hloop =>
            cases h
            simp only [not_or, Bool.not_eq_false, not_not] at hcompatible
            obtain ⟨hdir, hconn⟩ := hcompatible
            simp only [Port.canConnect, Bool.and_eq_true, decide_eq_true_eq, ne_eq] at hconn
            refine ⟨out, inp, ?_, ?_, rfl⟩
            · refine ⟨port?_eq_some_iff.2 ⟨source, hsource, hout⟩,
                port?_eq_some_iff.2 ⟨target, htarget, hinp⟩, hdir, ?_, hconn.2, ?_, ?_⟩
              · -- the target faces the other way
                cases hside : inp.direction with
                | input => rfl
                | output => exact absurd (hdir.trans hside.symm) hconn.1
              · simp [Port.isExec]
              · exact fun hexec hab => hloop ⟨hab, hexec⟩
            · intro hmulti d hd hdq
              exact hfree ⟨hmulti, List.any_eq_true.2 ⟨d, hd, decide_eq_true hdq⟩⟩

/-- Linking by field names is linking the ports that bear them. -/
theorem connectByName_ok {g g' : Graph} {id : ConnectionId} {a b : NodeId} {o i : String}
    (h : g.connectByName id a o b i = .ok g') : ∃ p q, g.connect id a p b q = .ok g' := by
  unfold connectByName at h
  split at h
  · cases h
  · split at h
    · cases h
    · split at h
      · cases h
      · split at h
        · cases h
        · exact ⟨_, _, h⟩

theorem removeNode?_eq_some {g g' : Graph} {id : NodeId} {n : Node}
    (h : g.removeNode? id = some (n, g')) :
    g' = { g with
      nodes := g.nodes.erase id
      connections := g.connections.filter fun _ c => !c.involvesNode id
      revision := g.revision + 1 } := by
  obtain ⟨m, -, hm⟩ := Option.map_eq_some_iff.1 h
  exact (congrArg Prod.snd hm).symm

theorem disconnect?_eq_some {g g' : Graph} {id : ConnectionId} {c : Connection}
    (h : g.disconnect? id = some (c, g')) :
    g' = { g with connections := g.connections.erase id, revision := g.revision + 1 } := by
  obtain ⟨m, -, hm⟩ := Option.map_eq_some_iff.1 h
  exact (congrArg Prod.snd hm).symm

theorem node?_addNode (g : Graph) (n : Node) (id : NodeId) :
    (g.addNode n).node? id = if id = n.id then some n else g.node? id :=
  OrderedMap.get?_insert _ _ _ _

theorem port?_addNode (g : Graph) (n : Node) (node : NodeId) (port : PortId) :
    (g.addNode n).port? node port = if node = n.id then n.port? port else g.port? node port := by
  unfold port?
  rw [node?_addNode]
  split <;> rfl

end Graph

/-! ## 4. Each operation keeps the invariant -/

namespace Graph

variable {g : Graph}

/-- Both ends of a link are nodes of the graph. -/
theorem Intact.exists_ends (h : g.Intact) {c : Connection} (hc : c ∈ g.links) :
    (∃ n, g.node? c.fromNode = some n) ∧ ∃ n, g.node? c.toNode = some n := by
  obtain ⟨out, inp, hj⟩ := h.joined c hc
  obtain ⟨n, hn, -⟩ := port?_eq_some_iff.1 hj.source
  obtain ⟨m, hm, -⟩ := port?_eq_some_iff.1 hj.target
  exact ⟨⟨n, hn⟩, m, hm⟩

/-- A port has one owner, so a link that bears the name of a port of a node
starts at that node and port. -/
theorem Intact.source_of_fromPort (h : g.Intact) {c : Connection} (hc : c ∈ g.links) {id : NodeId}
    {n : Node} {p : Port} (hn : g.node? id = some n) (hp : p ∈ n.ports)
    (hfrom : c.fromPort = p.id) : c.fromNode = id ∧ (c.exec = true ↔ p.type = .exec) := by
  obtain ⟨out, inp, hj⟩ := h.joined c hc
  have hport : g.port? id p.id = some p :=
    port?_eq_some_iff.2 ⟨n, hn, Node.port?_of_mem (h.portsNodup id n hn) hp⟩
  have hnode : c.fromNode = id := by
    refine h.portOwner c.fromNode id c.fromPort ?_ ?_
    · rw [hj.source]; rfl
    · rw [hfrom, hport]; rfl
  have hout : out = p := by
    have hsource := hj.source
    rw [hnode, hfrom, hport] at hsource
    exact (Option.some.inj hsource).symm
  exact ⟨hnode, hout ▸ hj.exec_iff⟩

/-- A node that is listed is found under its own name. -/
theorem node?_of_mem_values (hkey : ∀ id n, g.node? id = some n → n.id = id) {n : Node}
    (hn : n ∈ g.nodes.values) : g.node? n.id = some n := by
  obtain ⟨id, hid⟩ := (OrderedMap.mem_values_iff _ n).1 hn
  rw [hkey id n hid]
  exact hid

/-- If nodes stand under their own names, these names are the keys. -/
theorem map_id_values_of_nodeKey (h : ∀ id n, g.node? id = some n → n.id = id) :
    g.nodes.values.map Node.id = g.nodes.keys := by
  rw [OrderedMap.values, OrderedMap.keys, List.map_map]
  refine List.map_congr_left fun e he => ?_
  exact h e.1 e.2 ((OrderedMap.get?_eq_some_iff _ _ _).2 he)

theorem Intact.map_id_values (h : g.Intact) : g.nodes.values.map Node.id = g.nodes.keys :=
  map_id_values_of_nodeKey h.nodeKey

theorem Intact.addNode (h : g.Intact) {n : Node} (hid : n.id ∉ g.nodes.keys)
    (hnodup : (n.ports.map Port.id).Nodup) (hports : ∀ p ∈ n.ports, p.id ∉ g.portIds)
    (hin : ∀ p ∈ n.inputs, p.Declared .input) (hout : ∀ p ∈ n.outputs, p.Declared .output) :
    (g.addNode n).Intact := by
  have hnone : g.node? n.id = none := (OrderedMap.get?_eq_none_iff _ _).2 hid
  -- the old ports are where they were, and none of them bears the name of a new one
  have hold : ∀ {a port p}, g.port? a port = some p → (g.addNode n).port? a port = some p := by
    intro a port p hp
    rw [port?_addNode, if_neg, hp]
    rintro rfl
    rw [port?, hnone] at hp
    cases hp
  have hnew : ∀ {a port p}, n.port? port = some p → g.port? a port = none := by
    intro a port p hp
    obtain ⟨hmem, rfl⟩ := Node.port?_mem hp
    by_contra hsome
    obtain ⟨q, hq⟩ := Option.ne_none_iff_exists'.1 hsome
    exact hports p hmem (mem_portIds_of_port? hq)
  constructor
  case nodeKey =>
    intro id m hm
    rw [node?_addNode] at hm
    split at hm
    · next hidn => cases hm; exact hidn.symm
    · exact h.nodeKey id m hm
  case linkKey => exact h.linkKey
  case inputs =>
    intro id m hm
    rw [node?_addNode] at hm
    split at hm
    · cases hm; exact hin
    · exact h.inputs id m hm
  case outputs =>
    intro id m hm
    rw [node?_addNode] at hm
    split at hm
    · cases hm; exact hout
    · exact h.outputs id m hm
  case portsNodup =>
    intro id m hm
    rw [node?_addNode] at hm
    split at hm
    · cases hm; exact hnodup
    · exact h.portsNodup id m hm
  case portOwner =>
    intro a b port ha hb
    obtain ⟨p, hp⟩ := Option.isSome_iff_exists.1 ha
    obtain ⟨q, hq⟩ := Option.isSome_iff_exists.1 hb
    rw [port?_addNode] at hp hq
    split at hp <;> split at hq
    · next ha hb => rw [ha, hb]
    · rw [hnew hp] at hq; cases hq
    · rw [hnew hq] at hp; cases hp
    · exact h.portOwner a b port (by rw [hp]; rfl) (by rw [hq]; rfl)
  case joined =>
    intro c hc
    obtain ⟨out, inp, hj⟩ := h.joined c hc
    exact ⟨out, inp, hold hj.source, hold hj.target, hj.fromOutput, hj.toInput, hj.feeds,
      hj.exec_iff, hj.noLoop⟩
  case single =>
    intro node port p hp hmulti
    rw [port?_addNode] at hp
    split at hp
    · -- no link can end at a port whose name is new
      have hnil : g.linksTo port = [] := by
        refine List.filter_eq_nil_iff.2 fun c hc hto => ?_
        obtain ⟨out, inp, hj⟩ := h.joined c hc
        have htarget := hj.target
        rw [of_decide_eq_true hto, hnew hp] at htarget
        cases htarget
      show (g.linksTo port).length ≤ 1
      rw [hnil]
      exact Nat.zero_le 1
    · exact h.single node port p hp hmulti

theorem Intact.removeNode (h : g.Intact) {id : NodeId} {n : Node} {g' : Graph}
    (hrm : g.removeNode? id = some (n, g')) : g'.Intact := by
  have hg' := removeNode?_eq_some hrm
  have hnode : ∀ k, g'.node? k = if k = id then none else g.node? k := by
    intro k; rw [hg']; exact OrderedMap.get?_erase _ _ _
  have hport : ∀ k port, g'.port? k port = if k = id then none else g.port? k port := by
    intro k port; rw [port?, hnode]; split <;> rfl
  have hlinks : g'.links = g.links.filter fun c => !c.involvesNode id := by
    rw [hg']; exact OrderedMap.values_filter _ _
  have hsub : ∀ {k m}, g'.node? k = some m → g.node? k = some m := by
    intro k m hm
    rw [hnode] at hm
    split at hm
    · cases hm
    · exact hm
  have hsome : ∀ {k port}, (g'.port? k port).isSome → (g.port? k port).isSome := by
    intro k port hk
    rw [hport] at hk
    split at hk
    · cases hk
    · exact hk
  constructor
  case nodeKey => exact fun k m hm => h.nodeKey k m (hsub hm)
  case linkKey =>
    intro k c hc
    rw [hg'] at hc
    exact h.linkKey k c ((OrderedMap.get?_filter_eq_some_iff _ _ _ _).1 hc).1
  case inputs => exact fun k m hm => h.inputs k m (hsub hm)
  case outputs => exact fun k m hm => h.outputs k m (hsub hm)
  case portsNodup => exact fun k m hm => h.portsNodup k m (hsub hm)
  case portOwner => exact fun a b port ha hb => h.portOwner a b port (hsome ha) (hsome hb)
  case joined =>
    intro c hc
    rw [hlinks, List.mem_filter] at hc
    obtain ⟨hc, hinv⟩ := hc
    simp only [Connection.involvesNode, Bool.not_eq_true', Bool.or_eq_false_iff,
      decide_eq_false_iff_not] at hinv
    obtain ⟨out, inp, hj⟩ := h.joined c hc
    refine ⟨out, inp, ?_, ?_, hj.fromOutput, hj.toInput, hj.feeds, hj.exec_iff, hj.noLoop⟩
    · rw [hport, if_neg hinv.1]; exact hj.source
    · rw [hport, if_neg hinv.2]; exact hj.target
  case single =>
    intro node port p hp hmulti
    rw [hport] at hp
    split at hp
    · cases hp
    · refine Nat.le_trans ?_ (h.single node port p hp hmulti)
      rw [linksTo, hlinks]
      exact (List.filter_sublist.filter _).length_le

/-- A link between ports that may be joined, into a free input, keeps the invariant. -/
theorem Intact.withLink (h : g.Intact) {c : Connection} {out inp : Port} (hj : g.Joins c out inp)
    (hid : c.id ∉ g.connections.keys)
    (hfree : inp.multi = false → ∀ d ∈ g.links, d.toPort ≠ c.toPort) : (g.withLink c).Intact := by
  have hlinks : (g.withLink c).links = g.links ++ [c] := OrderedMap.values_insert_of_notMem hid c
  constructor
  case nodeKey => exact h.nodeKey
  case linkKey =>
    intro k d hd
    have hd' : (if k = c.id then some c else g.connection? k) = some d :=
      (OrderedMap.get?_insert _ _ _ _).symm.trans hd
    split at hd'
    · next hk => cases hd'; exact hk.symm
    · exact h.linkKey k d hd'
  case inputs => exact h.inputs
  case outputs => exact h.outputs
  case portsNodup => exact h.portsNodup
  case portOwner => exact h.portOwner
  case joined =>
    intro d hd
    rw [hlinks, List.mem_append, List.mem_singleton] at hd
    rcases hd with hd | rfl
    · obtain ⟨out', inp', hj'⟩ := h.joined d hd
      exact ⟨out', inp', hj'.source, hj'.target, hj'.fromOutput, hj'.toInput, hj'.feeds,
        hj'.exec_iff, hj'.noLoop⟩
    · exact ⟨out, inp, hj.source, hj.target, hj.fromOutput, hj.toInput, hj.feeds, hj.exec_iff,
        hj.noLoop⟩
  case single =>
    intro node port p hp hmulti
    have hp' : g.port? node port = some p := hp
    rw [linksTo, hlinks, List.filter_append, List.length_append]
    by_cases hto : c.toPort = port
    · -- the port is the target of the new link, and the check found no other link to it
      have hown : node = c.toNode := h.portOwner node c.toNode port (by rw [hp']; rfl)
        (by rw [← hto, hj.target]; rfl)
      have hpi : some p = some inp := by rw [← hp', ← hj.target, hown, hto]
      have hinp : inp.multi = false := by cases hpi; exact hmulti
      have hnil : g.links.filter (fun d => decide (d.toPort = port)) = [] :=
        List.filter_eq_nil_iff.2 fun d hd hdp =>
          hfree hinp d hd ((of_decide_eq_true hdp).trans hto.symm)
      rw [hnil, List.length_nil, Nat.zero_add]
      exact List.length_filter_le _ [c]
    · have hnil : [c].filter (fun d => decide (d.toPort = port)) = [] := by simp [hto]
      rw [hnil]
      exact h.single node port p hp' hmulti

theorem Intact.connect (h : g.Intact) {id : ConnectionId} {a b : NodeId} {p q : PortId}
    {g' : Graph} (hid : id ∉ g.connections.keys) (hok : g.connect id a p b q = .ok g') :
    g'.Intact := by
  obtain ⟨out, inp, hj, hfree, rfl⟩ := connect_ok hok
  exact h.withLink hj hid hfree

theorem Intact.disconnect (h : g.Intact) {id : ConnectionId} {c : Connection} {g' : Graph}
    (hok : g.disconnect? id = some (c, g')) : g'.Intact := by
  have hg' := disconnect?_eq_some hok
  have hlinks : g'.links.Sublist g.links := by
    rw [hg']; exact OrderedMap.values_erase_sublist _ _
  have hport : g'.port? = g.port? := by rw [hg']; rfl
  have hnode : g'.node? = g.node? := by rw [hg']; rfl
  constructor
  case nodeKey => rw [hnode]; exact h.nodeKey
  case linkKey =>
    intro k d hd
    rw [hg'] at hd
    have hd' : (if k = id then none else g.connection? k) = some d :=
      (OrderedMap.get?_erase _ _ _).symm.trans hd
    split at hd'
    · cases hd'
    · exact h.linkKey k d hd'
  case inputs => rw [hnode]; exact h.inputs
  case outputs => rw [hnode]; exact h.outputs
  case portsNodup => rw [hnode]; exact h.portsNodup
  case portOwner => rw [hport]; exact h.portOwner
  case joined =>
    intro d hd
    obtain ⟨out, inp, hj⟩ := h.joined d (hlinks.subset hd)
    exact ⟨out, inp, by rw [hport]; exact hj.source, by rw [hport]; exact hj.target,
      hj.fromOutput, hj.toInput, hj.feeds, hj.exec_iff, hj.noLoop⟩
  case single =>
    intro node port p hp hmulti
    rw [hport] at hp
    exact Nat.le_trans (hlinks.filter _).length_le (h.single node port p hp hmulti)

end Graph

/-! ## 5. Edits with new names, and the graphs they build -/

namespace Edit

/-- The edit brings new names only: a node under a name that the graph does not use, with ports
declared for their sides under names that neither the graph nor another of them uses; a link under
a name that the graph does not use.  Names that were never used before are such names. -/
def Fresh (g : Graph) : Edit → Prop
  | addNode n =>
    n.id ∉ g.nodes.keys ∧ (n.ports.map Port.id).Nodup ∧ (∀ p ∈ n.ports, p.id ∉ g.portIds) ∧
      (∀ p ∈ n.inputs, p.Declared .input) ∧ ∀ p ∈ n.outputs, p.Declared .output
  | connect id .. => id ∉ g.connections.keys
  | connectByName id .. => id ∉ g.connections.keys
  | removeNode _ => True
  | disconnect _ => True

instance (g : Graph) : (e : Edit) → Decidable (e.Fresh g)
  | addNode _ => inferInstanceAs (Decidable (_ ∧ _ ∧ _ ∧ _ ∧ _))
  | connect .. => inferInstanceAs (Decidable (_ ∉ _))
  | connectByName .. => inferInstanceAs (Decidable (_ ∉ _))
  | removeNode _ => inferInstanceAs (Decidable True)
  | disconnect _ => inferInstanceAs (Decidable True)

/-- The graph after a list of edits, of which some may be refused. -/
def runAll (g : Graph) (edits : List Edit) : Graph := edits.foldl run g

/-- Each edit of a list brings new names only, at its time. -/
def FreshAll (g : Graph) : List Edit → Prop
  | [] => True
  | e :: edits => e.Fresh g ∧ FreshAll (e.run g) edits

instance (g : Graph) : (edits : List Edit) → Decidable (FreshAll g edits)
  | [] => inferInstanceAs (Decidable True)
  | e :: edits =>
    have := instDecidableFreshAll (e.run g) edits
    inferInstanceAs (Decidable (_ ∧ _))

/-- **One edit keeps the integrity of a graph**, whether it is carried out or refused. -/
theorem run_intact {g : Graph} (h : g.Intact) (e : Edit) (hf : e.Fresh g) : (e.run g).Intact := by
  cases e with
  | addNode n =>
    obtain ⟨hid, hnodup, hports, hin, hout⟩ := hf
    exact h.addNode hid hnodup hports hin hout
  | removeNode id =>
    simp only [run]
    cases hrm : g.removeNode? id with
    | none => exact h
    | some r => exact h.removeNode hrm
  | connect id a p b q =>
    simp only [run]
    cases hok : g.connect id a p b q with
    | error _ => exact h
    | ok g' => exact h.connect hf hok
  | connectByName id a o b i =>
    simp only [run]
    cases hok : g.connectByName id a o b i with
    | error _ => exact h
    | ok g' =>
      obtain ⟨p, q, hconn⟩ := Graph.connectByName_ok hok
      exact h.connect hf hconn
  | disconnect id =>
    simp only [run]
    cases hok : g.disconnect? id with
    | none => exact h
    | some r => exact h.disconnect hok

end Edit

namespace Graph

/-- The graphs that edits build from the empty one, each edit bringing new names only.  Between two
edits, slots and ranks may have been written. -/
inductive Built : Graph → Prop
  | empty (name : String) : Built (.empty name)
  | edit {g : Graph} (e : Edit) : Built g → e.Fresh g → Built (e.run g)
  | written {g g' : Graph} : Built g → g'.bare = g.bare → Built g'

/-- **Every graph that edits build is intact.** -/
theorem Built.intact {g : Graph} (h : g.Built) : g.Intact := by
  induction h with
  | empty name => exact intact_empty name
  | edit e _ hf ih => exact Edit.run_intact ih e hf
  | written _ hb ih => exact ih.of_bare_eq hb

theorem Built.runAll {g : Graph} (h : g.Built) :
    ∀ edits : List Edit, Edit.FreshAll g edits → (Edit.runAll g edits).Built := by
  intro edits
  induction edits generalizing g with
  | nil => exact fun _ => h
  | cons e edits ih => exact fun hf => ih (h.edit e hf.1) hf.2

end Graph

/-! ## 6. Any run of edits -/

/-- **The integrity of a graph survives any run of edits**, refused ones included: nodes and links
stand under their own names; every link leads from an output of one of its nodes to an input of the
other, of a type that the source feeds, and is a control link exactly if its source is control flow,
which is exactly if its target is; no data link returns to its own node; and an input that does not
accept several links has at most one. -/
theorem integrity_after_edits (name : String) (edits : List Edit)
    (fresh : Edit.FreshAll (.empty name) edits) :
    let g := Edit.runAll (.empty name) edits
    (∀ id n, g.node? id = some n → n.id = id) ∧
    (∀ id c, g.connection? id = some c → c.id = id) ∧
    (∀ c ∈ g.links, ∃ out inp,
      g.port? c.fromNode c.fromPort = some out ∧ out.direction = .output ∧
      g.port? c.toNode c.toPort = some inp ∧ inp.direction = .input ∧
      out.type.feeds inp.type = true ∧
      (c.exec = true ↔ out.type = .exec) ∧ (out.type = .exec ↔ inp.type = .exec) ∧
      (c.exec = false → c.fromNode ≠ c.toNode)) ∧
    (∀ node port p, g.port? node port = some p → p.direction = .input → p.multi = false →
      (g.linksTo port).length ≤ 1) := by
  intro g
  have h : g.Intact := ((Graph.Built.empty name).runAll edits fresh).intact
  refine ⟨h.nodeKey, h.linkKey, ?_, fun node port p hp _ => h.single node port p hp⟩
  intro c hc
  obtain ⟨out, inp, hj⟩ := h.joined c hc
  exact ⟨out, inp, hj.source, hj.fromOutput, hj.target, hj.toInput, hj.feeds, hj.exec_iff,
    PortType.feeds_exec_iff hj.feeds, hj.noLoop⟩

/-! ### A script to try the laws on -/

/-- The name of a node of the example, by number. -/
def exampleId (k : Nat) : NodeId := ((Supply.counting 1).node k).node

/-- A node of the example, by number. -/
def exampleNode (k : Nat) (t : NodeType) : Node := t.instantiate ((Supply.counting 1).node k)

/-- A link of the example, by number. -/
def exampleLink (k source : Nat) (output : String) (target : Nat) (input : String) : Edit :=
  .connectByName ((Supply.counting 1).link k) (exampleId source) output (exampleId target) input

/-- Every tick, print twice a constant and wait.  A link of a node to itself and a second provider
of the printed text are refused; the provider that came first is unlinked, and a node that was
linked is removed again. -/
def exampleEdits : List Edit :=
  [ .addNode (exampleNode 0 (Library.entryType Library.onUpdate "On Update" .update "" none)),
    .addNode (exampleNode 1 Library.constantType),
    .addNode (exampleNode 2 Library.addType),
    .addNode (exampleNode 3 Library.formatType),
    .addNode (exampleNode 4 Library.logType),
    .addNode (exampleNode 5 Library.waitType),
    .addNode (exampleNode 6 Library.branchType),
    exampleLink 0 0 "Exec" 4 "Exec",
    exampleLink 1 4 "Exec" 5 "Exec",
    exampleLink 2 1 "Value" 2 "A",
    exampleLink 3 2 "Result" 2 "B",
    exampleLink 3 1 "Value" 2 "B",
    exampleLink 4 2 "Result" 3 "Value",
    exampleLink 5 1 "Value" 4 "Text",
    exampleLink 6 3 "Text" 4 "Text",
    .disconnect ((Supply.counting 1).link 5),
    exampleLink 6 3 "Text" 4 "Text",
    exampleLink 7 5 "Exec" 6 "Exec",
    .removeNode (exampleId 6) ]

def exampleGraph : Graph := Edit.runAll (.empty "example") exampleEdits

theorem exampleEdits_fresh : Edit.FreshAll (.empty "example") exampleEdits := by decide +kernel

theorem exampleGraph_built : exampleGraph.Built :=
  (Graph.Built.empty "example").runAll exampleEdits exampleEdits_fresh

/-- The example keeps six of its links, and each of its inputs has at most one provider. -/
theorem integrity_of_example :
    Edit.FreshAll (.empty "example") exampleEdits ∧ exampleGraph.links.length = 6 ∧
      ∀ node port p, exampleGraph.port? node port = some p → p.direction = .input →
        p.multi = false → (exampleGraph.linksTo port).length ≤ 1 :=
  ⟨exampleEdits_fresh, by decide +kernel,
    (integrity_after_edits "example" exampleEdits exampleEdits_fresh).2.2.2⟩

end FlowScript
