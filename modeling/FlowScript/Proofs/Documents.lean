/-
# Documents read back

The text of a document is read as the document, but for what has no form: slots are empty, no node
has a rank, the revision is zero, and of a NaN only the sign is kept.  `Document.stored` is the
document with just this forgotten: everything else is as it was, down to the order of nodes, links
and settings.  The main statement is that `d.stored` is what is read of the text of `d`, and has the
same text (`documents_read_back`).

Each part of a document has three facts.  What is forgotten does not show in its text
(`write_stored`), the tree of what is left fits its shape (`fits_stored`), and the tree is read as
what is left (`ofTree?_stored`).  The module goes through the parts from the inside to the outside.
-/
import FlowScript.Document.Basic
import FlowScript.Proofs.Spelling

namespace FlowScript

/-! ## 1. What is kept -/

/-- The value with what is kept of its numbers. -/
def Value.stored : Value → Value
  | float x => float x.quiet
  | vector3 x y z => vector3 x.quiet y.quiet z.quiet
  | v => v

/-- The port with an empty slot. -/
def Port.stored (p : Port) : Port :=
  { p with default? := p.default?.map Value.stored, value? := none }

/-- The node without a rank, with empty slots. -/
def Node.stored (n : Node) : Node where
  id := n.id
  type := n.type
  name := n.name
  category := n.category
  x := n.x.quiet
  y := n.y.quiet
  inputs := n.inputs.map Port.stored
  outputs := n.outputs.map Port.stored
  settings := n.settings.map fun _ => Value.stored
  rank := unscheduled

/-- The graph as it was built, without what was derived from it. -/
def Graph.stored (g : Graph) : Graph :=
  { g with nodes := g.nodes.map fun _ => Node.stored, revision := 0 }

/-- The document as it is stored. -/
def Document.stored (d : Document) : Document := { d with graph := d.graph.stored }

/-! ## 2. What is forgotten does not show -/

open FlowScript.Tree

theorem Value.write_stored (depth : Nat) (v : Value) :
    write depth v.stored.toTree = write depth v.toTree := by
  cases v <;> simp [Value.stored, Value.toTree, write, writeAll]

theorem Value.write_map_stored (depth : Nat) (v? : Option Value) :
    write depth (Value.optionToTree (v?.map Value.stored)) =
      write depth (Value.optionToTree v?) := by
  cases v? with
  | none => rfl
  | some v => simp [Value.optionToTree, write, Value.write_stored]

/-- A map is written by the texts of its values. -/
theorem write_mapToTree {κ ν : Type} (key : κ → Tree) {element : ν → Tree} {f : ν → ν}
    (h : ∀ depth x, write depth (element (f x)) = write depth (element x)) (depth : Nat)
    (m : OrderedMap κ ν) : write depth (mapToTree key element (m.map fun _ => f)) =
      write depth (mapToTree key element m) := by
  simp [mapToTree, OrderedMap.map, write, writeEntries_eq, Function.comp_def, h]

theorem Port.write_stored (depth : Nat) (p : Port) :
    write depth p.stored.toTree = write depth p.toTree := by
  simp [Port.stored, Port.toTree, write, writeFields, Value.write_map_stored]

theorem Port.write_map_stored (depth : Nat) (ps : List Port) :
    write depth (.list ((ps.map Port.stored).map Port.toTree)) =
      write depth (.list (ps.map Port.toTree)) := by
  simp [write, writeAll_eq, Function.comp_def, Port.write_stored]

theorem Node.write_stored (depth : Nat) (n : Node) :
    write depth n.stored.toTree = write depth n.toTree := by
  have hsettings := write_mapToTree Tree.text Value.write_stored (depth + 1) n.settings
  have hinputs := Port.write_map_stored (depth + 1) n.inputs
  have houtputs := Port.write_map_stored (depth + 1) n.outputs
  simp only [Node.stored, Node.toTree, write_record, writeFields, hsettings, hinputs, houtputs]
  simp [write, writeAll]

theorem Graph.write_stored (depth : Nat) (g : Graph) :
    write depth g.stored.toTree = write depth g.toTree := by
  have hnodes := write_mapToTree NodeId.toTree Node.write_stored (depth + 1) g.nodes
  simp only [Graph.stored, Graph.toTree, write_record, writeFields, hnodes]

theorem Document.toText_stored (d : Document) : d.stored.toText = d.toText := by
  simp only [Document.toText, Tree.toText, Document.stored, Document.toTree, write_record,
    writeFields, Graph.write_stored]

/-! ## 3. The trees fit their shapes -/

theorem Uuid.fits {type : String} (htype : isPlainName type = true) (u : Uuid) :
    Fits (Uuid.shape type) (u.toTree type) := .wrapper htype (.text _)

theorem NodeId.fits (id : NodeId) : Fits NodeId.shape id.toTree := Uuid.fits (by decide) id.uuid

theorem PortId.fits (id : PortId) : Fits PortId.shape id.toTree := Uuid.fits (by decide) id.uuid

theorem ConnectionId.fits (id : ConnectionId) : Fits ConnectionId.shape id.toTree :=
  Uuid.fits (by decide) id.uuid

/-- A number of a type fits it: every type is within the widest ones. -/
theorem fits_whole {type : WholeType} {n : Int} (hleast : type.least ≤ n)
    (hgreatest : n ≤ type.greatest) (hlow : -9223372036854775808 ≤ n)
    (hhigh : n ≤ 18446744073709551615) : Fits (.whole type) (.whole n) := by
  refine .whole ?_ ?_
  · rw [WholeType.contains, decide_eq_true hleast, decide_eq_true hgreatest, Bool.and_self]
  · by_cases hneg : n < 0
    · rw [decide_eq_true hneg]
      show (decide (-9223372036854775808 ≤ n) && decide (n ≤ 9223372036854775807)) = true
      rw [decide_eq_true hlow, decide_eq_true (by omega), Bool.and_self]
    · rw [decide_eq_false hneg]
      show (decide (0 ≤ n) && decide (n ≤ 18446744073709551615)) = true
      rw [decide_eq_true (by omega), decide_eq_true hhigh, Bool.and_self]

theorem fits_nat32 (n : UInt32) : Fits (.whole .nat32) (.whole (n.toNat : Int)) := by
  have hlt := n.toNat_lt
  have hgreatest : (n.toNat : Int) ≤ 4294967295 := by omega
  exact fits_whole (Int.natCast_nonneg _) hgreatest (by omega) (by omega)

theorem fits_nat64 (n : UInt64) : Fits (.whole .nat64) (.whole (n.toNat : Int)) := by
  have hlt := n.toNat_lt
  have hgreatest : (n.toNat : Int) ≤ 18446744073709551615 := by omega
  exact fits_whole (Int.natCast_nonneg _) hgreatest (by omega) hgreatest

theorem fits_int32 (n : Int32) : Fits (.whole .int32) (.whole n.toInt) := by
  have hlt := n.toInt_lt
  have hleast : -2147483648 ≤ n.toInt := n.le_toInt
  have hgreatest : n.toInt ≤ 2147483647 := by omega
  exact fits_whole hleast hgreatest (by omega) (by omega)

theorem Value.fits_stored (v : Value) : Fits Value.shape v.stored.toTree := by
  cases v with
  | bool b => exact .payload (by decide) List.not_mem_nil rfl (.bool b)
  | int n => exact .payload (by decide) List.not_mem_nil rfl (fits_int32 n)
  | float x => exact .payload (by decide) List.not_mem_nil rfl (.single x.quiet_quiet)
  | vector3 x y z =>
    refine .payload (by decide) List.not_mem_nil rfl ?_
    have hquiet : ∀ a ∈ [x.quiet, y.quiet, z.quiet], a.quiet = a := by simp
    exact .singles hquiet
  | string s => exact .payload (by decide) List.not_mem_nil rfl (.text s)
  | entity id =>
    exact .payload (by decide) List.not_mem_nil rfl (.wrapper (by decide) (fits_nat64 id))

theorem Value.fits_map_stored (v? : Option Value) :
    Fits (.optional Value.shape) (Value.optionToTree (v?.map Value.stored)) := by
  cases v? with
  | none => exact .absent _
  | some v => exact .present v.fits_stored

/-- A map fits if its keys and values do. -/
theorem fits_mapToTree {κ ν : Type} {key : κ → Tree} {element : ν → Tree} {k v : Shape}
    (hkey : ∀ x, Fits k (key x)) {m : OrderedMap κ ν} (h : ∀ e ∈ m.entries, Fits v (element e.2)) :
    Fits (.map k v) (mapToTree key element m) := by
  refine .map ?_ ?_
  · intro e he
    obtain ⟨a, _, rfl⟩ := List.mem_map.1 he
    exact hkey a.1
  · intro e he
    obtain ⟨a, ha, rfl⟩ := List.mem_map.1 he
    exact h a ha

theorem Port.fits_stored (p : Port) : Fits Port.shape p.stored.toTree := by
  refine Fits.ofKeys
    ["id", "name", "direction", "port_type", "default_value", "multi_connect"]
    [ ("id", PortId.shape, p.id.toTree),
      ("name", .text, .text p.name),
      ("direction", .variant (Direction.all.map Direction.name) [], .unit p.direction.name),
      ("port_type", .variant (PortType.all.map PortType.name) [], .unit p.type.name),
      ("default_value", .optional Value.shape, Value.optionToTree (p.default?.map Value.stored)),
      ("multi_connect", .bool, .bool p.multi) ] (by decide) (by decide) rfl ?_
  have hdirection : p.direction ∈ Direction.all := by cases p.direction <;> decide
  have htype : p.type ∈ PortType.all := by cases p.type <;> decide
  simp only [List.forall_mem_cons]
  exact ⟨PortId.fits p.id, .text p.name, .ofNames hdirection (by decide) [],
    .ofNames htype (by decide) [], Value.fits_map_stored p.default?, .bool p.multi,
    fun _ hf => nomatch hf⟩

theorem Port.fits_map_stored (ps : List Port) :
    Fits (.list Port.shape) (.list ((ps.map Port.stored).map Port.toTree)) := by
  refine .list fun t ht => ?_
  obtain ⟨q, hq, rfl⟩ := List.mem_map.1 ht
  obtain ⟨p, _, rfl⟩ := List.mem_map.1 hq
  exact p.fits_stored

theorem Category.fits (c : Category) : Fits Category.shape c.toTree := by
  cases c with
  | entry kind =>
    exact .payload (by decide) (by decide) rfl (.ofNames (EntryKind.mem_all kind) (by decide) [])
  | action => exact .unit (by decide) (by decide)
  | data => exact .unit (by decide) (by decide)

theorem Node.fits_stored (n : Node) : Fits Node.shape n.stored.toTree := by
  refine Fits.ofKeys
    ["id", "node_type", "name", "category", "position", "inputs", "outputs", "settings"]
    [ ("id", NodeId.shape, n.id.toTree),
      ("node_type", .text, .text n.type),
      ("name", .text, .text n.name),
      ("category", Category.shape, n.category.toTree),
      ("position", .singles 2, .tuple none [.single n.x.quiet, .single n.y.quiet]),
      ("inputs", .list Port.shape, .list ((n.inputs.map Port.stored).map Port.toTree)),
      ("outputs", .list Port.shape, .list ((n.outputs.map Port.stored).map Port.toTree)),
      ("settings", .map .text Value.shape,
        mapToTree Tree.text Value.toTree (n.settings.map fun _ => Value.stored)) ]
    (by decide) (by decide) rfl ?_
  have hposition : ∀ a ∈ [n.x.quiet, n.y.quiet], a.quiet = a := by simp
  have hsettings : ∀ e ∈ (n.settings.map fun _ => Value.stored).entries,
      Fits Value.shape e.2.toTree := by
    intro e he
    obtain ⟨a, _, rfl⟩ := List.mem_map.1 he
    exact a.2.fits_stored
  simp only [List.forall_mem_cons]
  exact ⟨NodeId.fits n.id, .text n.type, .text n.name, Category.fits n.category, .singles hposition,
    Port.fits_map_stored n.inputs, Port.fits_map_stored n.outputs, fits_mapToTree .text hsettings,
    fun _ hf => nomatch hf⟩

theorem Connection.fits (c : Connection) : Fits Connection.shape c.toTree := by
  refine Fits.ofKeys ["id", "from_node", "from_port", "to_node", "to_port", "exec"]
    [ ("id", ConnectionId.shape, c.id.toTree),
      ("from_node", NodeId.shape, c.fromNode.toTree),
      ("from_port", PortId.shape, c.fromPort.toTree),
      ("to_node", NodeId.shape, c.toNode.toTree),
      ("to_port", PortId.shape, c.toPort.toTree),
      ("exec", .bool, .bool c.exec) ] (by decide) (by decide) rfl ?_
  simp only [List.forall_mem_cons]
  exact ⟨ConnectionId.fits c.id, NodeId.fits c.fromNode, PortId.fits c.fromPort,
    NodeId.fits c.toNode, PortId.fits c.toPort, .bool c.exec, fun _ hf => nomatch hf⟩

theorem Graph.fits_stored (g : Graph) : Fits Graph.shape g.stored.toTree := by
  refine Fits.ofKeys ["name", "nodes", "connections"]
    [ ("name", .text, .text g.name),
      ("nodes", .map NodeId.shape Node.shape,
        mapToTree NodeId.toTree Node.toTree (g.nodes.map fun _ => Node.stored)),
      ("connections", .map ConnectionId.shape Connection.shape,
        mapToTree ConnectionId.toTree Connection.toTree g.connections) ]
    (by decide) (by decide) rfl ?_
  have hnodes : ∀ e ∈ (g.nodes.map fun _ => Node.stored).entries, Fits Node.shape e.2.toTree := by
    intro e he
    obtain ⟨a, _, rfl⟩ := List.mem_map.1 he
    exact a.2.fits_stored
  simp only [List.forall_mem_cons]
  exact ⟨.text g.name, fits_mapToTree NodeId.fits hnodes,
    fits_mapToTree ConnectionId.fits fun e _ => e.2.fits, fun _ hf => nomatch hf⟩

theorem Settings.fits (s : Settings) : Fits Settings.shape s.toTree := by
  refine Fits.ofKeys ["max_frontiers", "max_walk_steps", "data_memoization"]
    [ ("max_frontiers", .whole .nat64, .whole s.maxFrontiers.toNat),
      ("max_walk_steps", .whole .nat64, .whole s.maxWalkSteps.toNat),
      ("data_memoization", .variant (Memoization.all.map Memoization.name) [],
        .unit s.memoization.name) ] (by decide) (by decide) rfl ?_
  have hmemoization : s.memoization ∈ Memoization.all := by cases s.memoization <;> decide
  simp only [List.forall_mem_cons]
  exact ⟨fits_nat64 s.maxFrontiers, fits_nat64 s.maxWalkSteps, .ofNames hmemoization (by decide) [],
    fun _ hf => nomatch hf⟩

theorem Document.fits_stored (d : Document) : Fits Document.shape d.stored.toTree := by
  refine Fits.ofKeys ["version", "name", "settings", "graph"]
    [ ("version", .whole .nat32, .whole d.version.toNat),
      ("name", .text, .text d.name),
      ("settings", Settings.shape, d.settings.toTree),
      ("graph", Graph.shape, d.graph.stored.toTree) ] (by decide) (by decide) rfl ?_
  simp only [List.forall_mem_cons]
  exact ⟨fits_nat32 d.version, .text d.name, d.settings.fits, d.graph.fits_stored,
    fun _ hf => nomatch hf⟩

/-! ## 4. The trees are read as the parts -/

theorem Uuid.ofTree?_toTree (type : String) (u : Uuid) : Uuid.ofTree? (u.toTree type) = some u := by
  simp only [Uuid.ofTree?, Uuid.toTree, asNamed?, Option.bind_some, asText?, Uuid.ofText?_toText]

theorem NodeId.ofTree?_toTree (id : NodeId) : NodeId.ofTree? id.toTree = some id := by
  rw [NodeId.ofTree?, NodeId.toTree, Uuid.ofTree?_toTree, Option.map_some]

theorem PortId.ofTree?_toTree (id : PortId) : PortId.ofTree? id.toTree = some id := by
  rw [PortId.ofTree?, PortId.toTree, Uuid.ofTree?_toTree, Option.map_some]

theorem ConnectionId.ofTree?_toTree (id : ConnectionId) :
    ConnectionId.ofTree? id.toTree = some id := by
  rw [ConnectionId.ofTree?, ConnectionId.toTree, Uuid.ofTree?_toTree, Option.map_some]

theorem Value.ofTree?_toTree (v : Value) : Value.ofTree? v.toTree = some v := by
  cases v <;> simp [Value.ofTree?, Value.toTree, asNamed?, Tree.asBool?, asWhole?, asSingle?,
    asText?, asSingles?, vectorOf?, entityOf?]

theorem Value.optionOfTree?_toTree (v? : Option Value) :
    Value.optionOfTree? (Value.optionToTree v?) = some v? := by
  cases v? with
  | none => rfl
  | some v => simp [optionOfTree?, optionToTree, asOption?, ofTree?_toTree]

theorem Direction.ofName?_name (d : Direction) : Direction.ofName? d.name = some d := by
  cases d <;> decide

theorem PortType.ofName?_name (t : PortType) : PortType.ofName? t.name = some t := by
  cases t <;> decide

theorem EntryKind.ofName?_name (k : EntryKind) : EntryKind.ofName? k.name = some k := by
  cases k <;> decide

theorem Memoization.ofName?_name (m : Memoization) : Memoization.ofName? m.name = some m := by
  cases m <;> decide

theorem Port.ofTree?_stored (p : Port) : Port.ofTree? p.stored.toTree = some p.stored := by
  simp [Port.ofTree?, Port.toTree, Port.stored, asRecord?, required, optionalField, asText?,
    asName?, Tree.asBool?, List.lookup_cons, PortId.ofTree?_toTree, Direction.ofName?_name,
    PortType.ofName?_name, Value.optionOfTree?_toTree]

theorem Category.ofTree?_toTree (c : Category) : Category.ofTree? c.toTree = some c := by
  cases c <;> simp [Category.ofTree?, Category.toTree, asName?, EntryKind.ofName?_name]

/-- A list is read if its elements are. -/
theorem listOfTree?_map {α : Type} {element : Tree → Option α} {toTree : α → Tree} {as : List α}
    (h : ∀ a ∈ as, element (toTree a) = some a) :
    listOfTree? element (.list (as.map toTree)) = some as := by
  rw [listOfTree?, asList?, Option.bind_some, List.mapM_map]
  induction as with
  | nil => rfl
  | cons a as ih =>
    rw [List.mapM_cons, Function.comp_apply, h a List.mem_cons_self,
      ih fun b hb => h b (List.mem_cons_of_mem a hb)]
    rfl

/-- Entries with distinct keys are written one after the other. -/
theorem OrderedMap.foldl_insert_entries {κ ν : Type} [DecidableEq κ] :
    ∀ (l : List (κ × ν)) (m : OrderedMap κ ν), (m.keys ++ l.map Prod.fst).Nodup →
      (l.foldl (fun m e => m.insert e.1 e.2) m).entries = m.entries ++ l
  | [], m, _ => (List.append_nil m.entries).symm
  | e :: l, m, h => by
    have hfree : e.1 ∉ m.keys := fun hmem =>
      (List.nodup_append.1 h).2.2 _ hmem _ List.mem_cons_self rfl
    have hentries : (m.insert e.1 e.2).entries = m.entries ++ [e] := by
      rw [OrderedMap.insert, dif_neg hfree]
    have hkeys : (m.insert e.1 e.2).keys = m.keys ++ [e.1] := by
      rw [OrderedMap.keys, hentries, List.map_append, OrderedMap.keys, List.map_cons, List.map_nil]
    rw [List.foldl_cons, OrderedMap.foldl_insert_entries l, hentries, List.append_assoc,
      List.singleton_append]
    rwa [hkeys, List.append_assoc, List.singleton_append]

theorem OrderedMap.ofList_entries {κ ν : Type} [DecidableEq κ] (m : OrderedMap κ ν) :
    OrderedMap.ofList m.entries = m := by
  refine OrderedMap.ext ?_
  rw [OrderedMap.ofList, OrderedMap.foldl_insert_entries]
  · rfl
  · exact m.nodup

/-- **A map is read in its order** if its keys and values are read. -/
theorem mapOfTree?_mapToTree {κ ν : Type} [DecidableEq κ] {key : Tree → Option κ}
    {element : Tree → Option ν} {keyTree : κ → Tree} {elementTree : ν → Tree}
    (hkey : ∀ k, key (keyTree k) = some k) {m : OrderedMap κ ν}
    (h : ∀ e ∈ m.entries, element (elementTree e.2) = some e.2) :
    mapOfTree? key element (mapToTree keyTree elementTree m) = some m := by
  have hentries : (m.entries.map fun e => (keyTree e.1, elementTree e.2)).mapM (fun e => do
      let k ← key e.1
      let v ← element e.2
      return (k, v)) = some m.entries := by
    generalize m.entries = l at h
    rw [List.mapM_map]
    induction l with
    | nil => rfl
    | cons e l ih =>
      rw [List.mapM_cons, ih fun a ha => h a (List.mem_cons_of_mem e ha)]
      simp [hkey, h e List.mem_cons_self]
  simp only [Option.bind_eq_bind] at hentries
  simp only [mapOfTree?, mapToTree, asMap?, Option.bind_eq_bind, Option.bind_some, hentries,
    OrderedMap.ofList_entries]
  rfl

theorem Node.ofTree?_stored (n : Node) : Node.ofTree? n.stored.toTree = some n.stored := by
  have hports : ∀ ps : List Port, listOfTree? Port.ofTree?
      (.list ((ps.map Port.stored).map Port.toTree)) = some (ps.map Port.stored) := by
    intro ps
    refine listOfTree?_map fun q hq => ?_
    obtain ⟨p, _, rfl⟩ := List.mem_map.1 hq
    exact p.ofTree?_stored
  have hsettings : mapOfTree? asText? Value.ofTree?
      (mapToTree Tree.text Value.toTree (n.settings.map fun _ => Value.stored)) =
        some (n.settings.map fun _ => Value.stored) := by
    refine mapOfTree?_mapToTree (fun s => ?_) fun e _ => e.2.ofTree?_toTree
    rfl
  simp [-List.map_map, Node.ofTree?, Node.toTree, Node.stored, asRecord?, required, optionalField,
    asText?, positionOf?, asSingles?, asSingle?, List.lookup_cons, NodeId.ofTree?_toTree,
    Category.ofTree?_toTree, hports, hsettings]

theorem Connection.ofTree?_toTree (c : Connection) : Connection.ofTree? c.toTree = some c := by
  simp [Connection.ofTree?, Connection.toTree, asRecord?, required, Tree.asBool?, List.lookup_cons,
    ConnectionId.ofTree?_toTree, NodeId.ofTree?_toTree, PortId.ofTree?_toTree]

theorem Graph.ofTree?_stored (g : Graph) : Graph.ofTree? g.stored.toTree = some g.stored := by
  have hnodes : mapOfTree? NodeId.ofTree? Node.ofTree?
      (mapToTree NodeId.toTree Node.toTree (g.nodes.map fun _ => Node.stored)) =
        some (g.nodes.map fun _ => Node.stored) := by
    refine mapOfTree?_mapToTree NodeId.ofTree?_toTree fun e he => ?_
    obtain ⟨a, _, rfl⟩ := List.mem_map.1 he
    exact a.2.ofTree?_stored
  have hlinks : mapOfTree? ConnectionId.ofTree? Connection.ofTree?
      (mapToTree ConnectionId.toTree Connection.toTree g.connections) = some g.connections :=
    mapOfTree?_mapToTree ConnectionId.ofTree?_toTree fun e _ => e.2.ofTree?_toTree
  simp [Graph.ofTree?, Graph.toTree, Graph.stored, asRecord?, required, asText?, List.lookup_cons,
    hnodes, hlinks]

theorem Settings.ofTree?_toTree (s : Settings) : Settings.ofTree? s.toTree = some s := by
  simp [Settings.ofTree?, Settings.toTree, boundOf?, asRecord?, optionalField, asWhole?, asName?,
    List.lookup_cons, Memoization.ofName?_name]

theorem Document.ofTree?_stored (d : Document) :
    Document.ofTree? d.stored.toTree = some d.stored := by
  simp [Document.ofTree?, Document.toTree, Document.stored, asRecord?, required, optionalField,
    asText?, asWhole?, List.lookup_cons, Settings.ofTree?_toTree, Graph.ofTree?_stored]

/-! ## 5. Documents -/

/-- **A document is read back from its text** as it is stored, and that has the same text.  Reading
refuses a version that is not supported, so the document is of one that is. -/
theorem documents_read_back (d : Document) (hversion : d.version ≤ formatVersion) :
    Document.ofText d.toText = .ok d.stored ∧ d.stored.toText = d.toText := by
  have htext := d.toText_stored
  have hhead : (write 0 d.stored.toTree).head? = some 'S' := by
    rw [Document.toTree, write_record]
    rfl
  have hread : Tree.read Document.shape d.toText = some d.stored.toTree := by
    rw [← htext]
    exact read_toText d.fits_stored (by rw [hhead]; decide)
  refine ⟨?_, htext⟩
  rw [Document.ofText, hread, Option.bind_some, d.ofTree?_stored]
  exact if_neg (UInt32.not_lt.2 hversion)

/-- An input whose default is in part no number, with a value in its slot. -/
def oddInput : Port where
  id := ⟨.ofNat 11⟩
  name := "in\tput"
  direction := .input
  type := .vector3
  default? := some (.vector3 ⟨0x7fa00001⟩ (.infinity true) ⟨0x00000001⟩)
  multi := false
  value? := some (.int 7)

/-- A node with text that needs escapes, and numbers at the bounds of their types. -/
def oddNode : Node where
  id := ⟨.ofNat 10⟩
  type := "math/\"clamp\""
  name := "line\nbreak \x01 \u0301 \\ ü"
  category := .entry .triggerEntered
  x := ⟨0xffc00123⟩
  y := ⟨0xcb18967f⟩
  inputs := [oddInput, { oddInput with id := ⟨.ofNat 12⟩, default? := none }]
  outputs := []
  settings := .ofList
    [("b", .int Int32.minValue), ("a: {1}", .entity 18446744073709551615), ("", .string "\x00'")]
  rank := 3

/-- A document with a map whose key is not the name of its node, and a graph that has a history. -/
def oddDocument : Document where
  version := 0
  name := "#![enable(implicit_some)]"
  settings := ⟨18446744073709551615, 0, .perWalk⟩
  graph :=
    { name := ""
      nodes := .ofList [(⟨.ofNat 20⟩, oddNode), (⟨.ofNat 10⟩, { oddNode with rank := 0 })]
      connections := .ofList
        [(⟨.ofNat 5⟩, ⟨⟨.ofNat 5⟩, ⟨.ofNat 20⟩, ⟨.ofNat 11⟩, ⟨.ofNat 10⟩, ⟨.ofNat 12⟩, true⟩)]
      revision := 9 }

/-- It is read back, without its ranks, its value and its history. -/
theorem odd_document_reads_back :
    oddDocument.version ≤ formatVersion ∧
    Document.ofText oddDocument.toText = .ok oddDocument.stored ∧
    oddDocument.stored.toText = oddDocument.toText ∧
    oddDocument.graph.revision = 9 ∧ oddDocument.stored.graph.revision = 0 ∧
    oddDocument.stored.graph.nodes.keys = [⟨.ofNat 20⟩, ⟨.ofNat 10⟩] := by
  have hversion : oddDocument.version ≤ formatVersion := by decide
  obtain ⟨hread, hagain⟩ := documents_read_back oddDocument hversion
  exact ⟨hversion, hread, hagain, rfl, rfl, rfl⟩

end FlowScript
