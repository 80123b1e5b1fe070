/-
# Each producer once, deepest first

A pull is a depth-first search against the data links.  It marks a data node before it goes below
it, so it ends on cycles as well; the price is that a marked node need not have been evaluated yet.
This module says what is left of the usual laws of such a search, on every graph and whatever the
behaviors do.

* `Dive` is the search without its scenes: which nodes are marked before and after, and which are
  evaluated, in order, with one constructor for each way it goes on or stops.  It has no bound on
  its depth.  `Scene.resolveWithin_dive` proves it of a pull that may go as deep as there are
  unmarked nodes (`room`), and `Scene.resolveWithin_eq` that a pull which may go deeper does the
  same.
* `Marked` says that what is evaluated was unmarked before and is marked afterwards; so nothing is
  evaluated twice, in one pull or in all the pulls that share their marks.
* `Dive.complete`: a search that does not fail leaves the marks closed under producers.
* `Dive.producersFirst`: a marked node that was not evaluated waits for the nodes at hand, which
  therefore feed it.  If it fed them as well, there would be a cycle.
-/
import FlowScript.Proofs.Needed
import FlowScript.Proofs.Slots

namespace FlowScript

open Relation (ReflTransGen TransGen)

universe u

/-! ## 1. What the journal tells -/

/-- The node of a data evaluation, whether it has failed or not. -/
def Event.pulled? : Event → Option NodeId
  | evaluated .data node _ => some node
  | _ => none

/-- The nodes that a journal tells were evaluated as data, in order. -/
def pulled (events : List Event) : List NodeId := events.filterMap Event.pulled?

@[simp] theorem pulled_append (a b : List Event) : pulled (a ++ b) = pulled a ++ pulled b :=
  List.filterMap_append

theorem pulled_remarks (l : List Remark) : pulled (l.map Remark.event) = [] := by
  refine List.filterMap_eq_nil_iff.2 fun e he => ?_
  obtain ⟨r, -, rfl⟩ := List.mem_map.1 he
  cases r <;> rfl

namespace Scene

variable {σ : Type u} [Behaves σ]

/-- A data evaluation records its node, unless the node has no behavior. -/
theorem pulled_evaluate_data (time : FrameTime) (s : Scene σ) (id : NodeId) :
    pulled (s.evaluate time .data id).events = [id] ∨
      pulled (s.evaluate time .data id).events = [] ∧
        ∃ e, (s.evaluate time .data id).result = .error e := by
  rcases s.evaluate_events time .data id with ⟨hnil, herror⟩ | ⟨remarks, hevents⟩
  · exact .inr ⟨by rw [hnil]; rfl, herror⟩
  · refine .inl ?_
    rw [hevents, pulled_append, pulled_remarks]
    rfl

theorem pulled_evaluate_control (time : FrameTime) (s : Scene σ) (id : NodeId) :
    pulled (s.evaluate time .control id).events = [] := by
  rcases s.evaluate_events time .control id with ⟨hnil, -⟩ | ⟨remarks, hevents⟩
  · rw [hnil]
    rfl
  · rw [hevents, pulled_append, pulled_remarks]
    rfl

end Scene

/-! ## 2. The search -/

/-- What is evaluated was not marked before and is marked afterwards, and comes once; marks stay. -/
structure Marked (visited order visited' : List NodeId) : Prop where
  nodup : order.Nodup
  fresh : ∀ x ∈ order, x ∉ visited
  kept : visited ⊆ visited'
  marked : order ⊆ visited'

namespace Marked

variable {visited visited' visited'' order order' : List NodeId} {id : NodeId}

theorem refl (visited : List NodeId) : Marked visited [] visited :=
  ⟨List.nodup_nil, List.forall_mem_nil _, List.Subset.refl visited, List.nil_subset visited⟩

theorem trans (h : Marked visited order visited') (h' : Marked visited' order' visited'') :
    Marked visited (order ++ order') visited'' where
  nodup := h.nodup.append h'.nodup fun x hx hx' => h'.fresh x hx' (h.marked hx)
  fresh := List.forall_mem_append.2 ⟨h.fresh, fun x hx hold => h'.fresh x hx (h.kept hold)⟩
  kept := List.Subset.trans h.kept h'.kept
  marked := List.append_subset.2 ⟨List.Subset.trans h.marked h'.kept, h'.marked⟩

/-- A node is marked, then what is below it is searched. -/
theorem under (h : Marked (visited ++ [id]) order visited') : Marked visited order visited' where
  nodup := h.nodup
  fresh x hx hold := h.fresh x hx (List.mem_append_left _ hold)
  kept := (List.append_subset.1 h.kept).1
  marked := h.marked

/-- A node is marked, then what is below it is searched, then the node is evaluated. -/
theorem around (h : Marked (visited ++ [id]) order visited') (hid : id ∉ visited) :
    Marked visited (order ++ [id]) visited' where
  nodup := h.nodup.append (List.nodup_singleton id) <| List.disjoint_singleton.2 fun hx =>
    h.fresh id hx (List.mem_append_right _ (List.mem_singleton_self id))
  fresh := List.forall_mem_append.2 ⟨h.under.fresh, List.forall_mem_singleton.2 hid⟩
  kept := h.under.kept
  marked := List.append_subset.2 ⟨h.marked, (List.append_subset.1 h.kept).2⟩

end Marked

/-- A search below a list of nodes: the nodes that are marked before, the list, the nodes
that are evaluated, the nodes that are marked afterwards, and whether the search gets
through.  A node may be marked and have no rank; then it is left out.  It may fail before it
is evaluated, if it has no behavior. -/
inductive Dive (g : Graph) : (visited ids order visited' : List NodeId) → (through : Bool) → Prop
  | nil {visited : List NodeId} : Dive g visited [] [] visited true
  | again {id : NodeId} {ids visited order visited' : List NodeId} {through : Bool} :
    id ∈ visited → Dive g visited ids order visited' through →
    Dive g visited (id :: ids) order visited' through
  | unranked {id : NodeId} {ids visited order visited' : List NodeId} {through : Bool} :
    id ∉ visited → ¬ g.Ranked id → Dive g (visited ++ [id]) ids order visited' through →
    Dive g visited (id :: ids) order visited' through
  | blocked {id : NodeId} {ids visited order visited' : List NodeId} :
    id ∉ visited → Dive g (visited ++ [id]) (g.producers id) order visited' false →
    Dive g visited (id :: ids) order visited' false
  | failed {id : NodeId} {ids visited order own visited' : List NodeId} :
    id ∉ visited → Dive g (visited ++ [id]) (g.producers id) order visited' true →
    own = [id] ∨ own = [] → Dive g visited (id :: ids) (order ++ own) visited' false
  | onward {id : NodeId} {ids visited order visited₁ order' visited' : List NodeId}
      {through : Bool} :
    id ∉ visited → Dive g (visited ++ [id]) (g.producers id) order visited₁ true →
    Dive g visited₁ ids order' visited' through →
    Dive g visited (id :: ids) (order ++ [id] ++ order') visited' through

/-- Every node of a list comes after all of its producers, some of which may
have come before the list. -/
def Graph.ProducersFirst (g : Graph) (done : List NodeId) : List NodeId → Prop
  | [] => True
  | id :: ids => g.producers id ⊆ done ∧ g.ProducersFirst (done ++ [id]) ids

namespace Graph.ProducersFirst

variable {g : Graph}

theorem append_iff {b : List NodeId} :
    ∀ {a done : List NodeId}, g.ProducersFirst done (a ++ b) ↔
      g.ProducersFirst done a ∧ g.ProducersFirst (done ++ a) b
  | [], done => by simp [ProducersFirst]
  | id :: a, done => by
    rw [List.cons_append, ProducersFirst, ProducersFirst, append_iff (a := a), List.append_assoc,
      and_assoc]
    rfl

theorem producers_subset {before after order : List NodeId} {x : NodeId}
    (h : g.ProducersFirst [] order) (horder : order = before ++ x :: after) :
    g.producers x ⊆ before := by
  rw [horder, append_iff] at h
  exact h.2.1

end Graph.ProducersFirst

namespace Dive

variable {g : Graph} {visited ids order visited' done : List NodeId} {through : Bool}

theorem marked (h : Dive g visited ids order visited' through) : Marked visited order visited' := by
  induction h with
  | nil => exact .refl _
  | again _ _ ih => exact ih
  | unranked _ _ _ ih => exact ih.under
  | blocked _ _ ih => exact ih.under
  | failed hid _ hown ih =>
    rcases hown with rfl | rfl
    · exact ih.around hid
    · rw [List.append_nil]
      exact ih.under
  | onward hid _ _ ih ih' => exact (ih.around hid).trans ih'

/-- Nodes that are marked already are passed over. -/
theorem of_subset : ∀ {ids : List NodeId}, ids ⊆ visited → Dive g visited ids [] visited true
  | [], _ => .nil
  | _ :: _, h => .again (h List.mem_cons_self) (of_subset fun _ hx => h (List.mem_cons_of_mem _ hx))

/-- The search only goes against data links. -/
theorem reached (h : Dive g visited ids order visited' through) :
    ∀ x ∈ order, ∃ q ∈ ids, ReflTransGen g.Supplies x q := by
  -- what is found below a node feeds it
  have hstep : ∀ {id x}, (∃ q ∈ g.producers id, ReflTransGen g.Supplies x q) →
      ReflTransGen g.Supplies x id :=
    fun ⟨_, hq, hx⟩ => hx.tail (Graph.mem_producers_iff.1 hq)
  have hrest : ∀ {id : NodeId} {ids : List NodeId} {x}, (∃ q ∈ ids, ReflTransGen g.Supplies x q) →
      ∃ q ∈ id :: ids, ReflTransGen g.Supplies x q :=
    fun ⟨q, hq, hx⟩ => ⟨q, List.mem_cons_of_mem _ hq, hx⟩
  induction h with
  | nil => exact List.forall_mem_nil _
  | again _ _ ih => exact fun x hx => hrest (ih x hx)
  | unranked _ _ _ ih => exact fun x hx => hrest (ih x hx)
  | blocked _ _ ih => exact fun x hx => ⟨_, List.mem_cons_self, hstep (ih x hx)⟩
  | failed _ _ hown ih =>
    intro x hx
    rcases List.mem_append.1 hx with hx | hx
    · exact ⟨_, List.mem_cons_self, hstep (ih x hx)⟩
    · rcases hown with rfl | rfl
      · exact ⟨_, List.mem_cons_self, List.mem_singleton.1 hx ▸ .refl⟩
      · cases hx
  | onward _ _ _ ih ih' =>
    intro x hx
    rcases List.mem_append.1 hx with hx | hx
    · rcases List.mem_append.1 hx with hx | hx
      · exact ⟨_, List.mem_cons_self, hstep (ih x hx)⟩
      · exact ⟨_, List.mem_cons_self, List.mem_singleton.1 hx ▸ .refl⟩
    · exact hrest (ih' x hx)

/-- **A search that gets through leaves out nothing**: on a graph on which producers of ranked nodes
are ranked, it marks the nodes it was given, evaluates what it marks, and marks the producers of
what it evaluates. -/
theorem complete (hclosed : ∀ p q, g.Supplies p q → g.Ranked q → g.Ranked p)
    (h : Dive g visited ids order visited' through) (hids : ∀ id ∈ ids, g.Ranked id)
    (hthrough : through = true) :
    ids ⊆ visited' ∧ (∀ x ∈ visited', x ∈ visited ∨ x ∈ order) ∧
      ∀ x ∈ order, g.producers x ⊆ visited' := by
  have hproducers : ∀ {id}, g.Ranked id → ∀ p ∈ g.producers id, g.Ranked p :=
    fun hid p hp => hclosed p _ (Graph.mem_producers_iff.1 hp) hid
  induction h with
  | nil => exact ⟨List.nil_subset _, fun x hx => .inl hx, List.forall_mem_nil _⟩
  | again hid hrest ih =>
    obtain ⟨hsub, hnew, hprod⟩ := ih (fun x hx => hids x (List.mem_cons_of_mem _ hx)) hthrough
    exact ⟨List.cons_subset.2 ⟨hrest.marked.kept hid, hsub⟩, hnew, hprod⟩
  | unranked _ hnot _ _ => exact absurd (hids _ List.mem_cons_self) hnot
  | blocked _ _ _ => cases hthrough
  | failed _ _ _ _ => cases hthrough
  | @onward id ids visited order visited₁ order' visited' through _ hbelow hrest ih ih' =>
    obtain ⟨hsub, hnew, hprod⟩ := ih (hproducers (hids id List.mem_cons_self)) rfl
    obtain ⟨hsub', hnew', hprod'⟩ := ih' (fun x hx => hids x (List.mem_cons_of_mem _ hx)) hthrough
    have hkept := hrest.marked.kept
    have hid : id ∈ visited₁ :=
      hbelow.marked.kept (List.mem_append_right _ (List.mem_singleton_self id))
    refine ⟨List.cons_subset.2 ⟨hkept hid, hsub'⟩, fun x hx => ?_, ?_⟩
    · rcases hnew' x hx with hx | hx
      · rcases hnew x hx with hx | hx
        · exact (List.mem_append.1 hx).imp_right fun hx =>
            List.mem_append_left _ (List.mem_append_right _ hx)
        · exact .inr (List.mem_append_left _ (List.mem_append_left _ hx))
      · exact .inr (List.mem_append_right _ hx)
    · refine List.forall_mem_append.2 ⟨List.forall_mem_append.2 ⟨?_, ?_⟩, hprod'⟩
      · exact fun x hx => List.Subset.trans (hprod x hx) hkept
      · exact List.forall_mem_singleton.2 (List.Subset.trans hsub hkept)

/-- **Producers come first**, unless there is a cycle above the nodes that are given.  A marked node
is done, or it waits for the nodes at hand, which feed it then. -/
theorem producersFirst (hclosed : ∀ p q, g.Supplies p q → g.Ranked q → g.Ranked p)
    (h : Dive g visited ids order visited' through) (hids : ∀ id ∈ ids, g.Ranked id)
    (hcycle : ∀ id ∈ ids, ∀ x, ReflTransGen g.Supplies x id → ¬ TransGen g.Supplies x x)
    (hwait : ∀ x ∈ visited, x ∈ done ∨ ∀ id ∈ ids, TransGen g.Supplies id x) :
    g.ProducersFirst done order := by
  -- below a node: its producers are ranked, have no cycle above them, and feed the node and what it
  -- feeds
  have hproducers : ∀ {id}, g.Ranked id → ∀ p ∈ g.producers id, g.Ranked p :=
    fun hid p hp => hclosed p _ (Graph.mem_producers_iff.1 hp) hid
  have hbelow : ∀ {id}, (∀ x, ReflTransGen g.Supplies x id → ¬ TransGen g.Supplies x x) →
      ∀ p ∈ g.producers id, ∀ x, ReflTransGen g.Supplies x p → ¬ TransGen g.Supplies x x :=
    fun hid p hp x hx => hid x (hx.tail (Graph.mem_producers_iff.1 hp))
  have hwaiting : ∀ {id : NodeId} {visited done : List NodeId},
      (∀ x ∈ visited, x ∈ done ∨ TransGen g.Supplies id x) → ∀ x ∈ visited ++ [id],
        x ∈ done ∨ ∀ p ∈ g.producers id, TransGen g.Supplies p x := by
    intro id visited done hw
    refine List.forall_mem_append.2 ⟨fun x hx => ?_,
      List.forall_mem_singleton.2 (.inr fun p hp => ?_)⟩
    · exact (hw x hx).imp_right fun hx p hp => .head (Graph.mem_producers_iff.1 hp) hx
    · exact .single (Graph.mem_producers_iff.1 hp)
  -- once the search below a node is through, its producers are done
  have hdone : ∀ {id : NodeId} {visited done order visited₁ : List NodeId}, g.Ranked id →
      ¬ TransGen g.Supplies id id → (∀ x ∈ visited, x ∈ done ∨ TransGen g.Supplies id x) →
      Dive g (visited ++ [id]) (g.producers id) order visited₁ true →
      g.producers id ⊆ done ++ order := by
    intro id visited done order visited₁ hid hfree hw hdive p hp
    have hpid := Graph.mem_producers_iff.1 hp
    obtain ⟨hsub, hnew, -⟩ := hdive.complete hclosed (hproducers hid) rfl
    rcases hnew p (hsub hp) with hmem | hmem
    · rcases List.mem_append.1 hmem with hmem | hmem
      · exact List.mem_append_left _ ((hw p hmem).resolve_right fun hpath =>
          hfree (hpath.tail hpid))
      · rw [List.mem_singleton.1 hmem] at hpid
        exact absurd (.single hpid) hfree
    · exact List.mem_append_right _ hmem
  induction h generalizing done with
  | nil => exact trivial
  | again _ _ ih =>
    exact ih (fun x hx => hids x (List.mem_cons_of_mem _ hx))
      (fun x hx => hcycle x (List.mem_cons_of_mem _ hx))
      fun x hx => (hwait x hx).imp_right fun hx id hid => hx id (List.mem_cons_of_mem _ hid)
  | unranked _ hnot _ _ => exact absurd (hids _ List.mem_cons_self) hnot
  | @blocked id ids _ _ _ _ _ ih =>
    have hw := fun x hx => (hwait x hx).imp_right fun hx => hx id List.mem_cons_self
    exact ih (hproducers (hids id List.mem_cons_self)) (hbelow (hcycle id List.mem_cons_self))
      (hwaiting hw)
  | @failed id ids _ order _ _ _ hdive hown ih =>
    have hid := hids id List.mem_cons_self
    have hfree := hcycle id List.mem_cons_self
    have hw := fun x hx => (hwait x hx).imp_right fun hx => hx id List.mem_cons_self
    refine Graph.ProducersFirst.append_iff.2 ⟨ih (hproducers hid) (hbelow hfree) (hwaiting hw), ?_⟩
    rcases hown with rfl | rfl
    · exact ⟨hdone hid (hfree id .refl) hw hdive, trivial⟩
    · exact trivial
  | @onward id ids visited order visited₁ order' _ _ _ hdive _ ih ih' =>
    have hid := hids id List.mem_cons_self
    have hfree := hcycle id List.mem_cons_self
    have hw := fun x hx => (hwait x hx).imp_right fun hx => hx id List.mem_cons_self
    obtain ⟨-, hnew, -⟩ := hdive.complete hclosed (hproducers hid) rfl
    refine Graph.ProducersFirst.append_iff.2 ⟨Graph.ProducersFirst.append_iff.2
      ⟨ih (hproducers hid) (hbelow hfree) (hwaiting hw), hdone hid (hfree id .refl) hw hdive,
        trivial⟩,
      ih' (fun x hx => hids x (List.mem_cons_of_mem _ hx))
        (fun x hx => hcycle x (List.mem_cons_of_mem _ hx)) fun x hx => ?_⟩
    -- what is marked by now was marked before, or is done
    rcases hnew x hx with hx | hx
    · rcases List.mem_append.1 hx with hx | hx
      · exact (hwait x hx).imp (List.mem_append_left _) fun hx id hid =>
          hx id (List.mem_cons_of_mem _ hid)
      · exact .inl (List.mem_append_right _ (List.mem_append_right _ hx))
    · exact .inl (List.mem_append_right _ (List.mem_append_left _ hx))

end Dive

/-! ## 3. Pulls are searches -/

namespace Graph

/-- How many nodes of the graph are not marked. -/
def room (g : Graph) (visited : List NodeId) : Nat :=
  (g.nodes.keys.toFinset \ visited.toFinset).card

theorem room_le_size (g : Graph) (visited : List NodeId) : g.room visited ≤ g.nodes.size := by
  rw [← g.length_keys]
  exact (Finset.card_le_card Finset.sdiff_subset).trans (List.toFinset_card_le _)

variable {g : Graph} {visited visited' : List NodeId}

theorem room_le_of_subset (h : visited ⊆ visited') : g.room visited' ≤ g.room visited :=
  Finset.card_le_card <| Finset.sdiff_subset_sdiff (Finset.Subset.refl _) fun _ hx =>
    List.mem_toFinset.2 (h (List.mem_toFinset.1 hx))

theorem room_append_lt {id : NodeId} (hkey : id ∈ g.nodes.keys) (hid : id ∉ visited) :
    g.room (visited ++ [id]) < g.room visited := by
  refine Finset.card_lt_card ((Finset.ssubset_iff_of_subset ?_).2 ⟨id, ?_, ?_⟩)
  · exact Finset.sdiff_subset_sdiff (Finset.Subset.refl _) fun _ hx =>
      List.mem_toFinset.2 (List.mem_append_left _ (List.mem_toFinset.1 hx))
  · simp [hkey, hid]
  · simp

theorem subset_of_room_eq_zero (h : g.room visited = 0) : g.nodes.keys ⊆ visited := by
  intro id hkey
  by_contra hid
  have hlt := room_append_lt hkey hid
  omega

theorem producers_subset_keys (g : Graph) (id : NodeId) : g.producers id ⊆ g.nodes.keys :=
  fun _ hp => mem_keys_of_isData (mem_producers_iff.1 hp).1

end Graph

namespace Scene

variable {σ : Type u} [Behaves σ] {g : Graph} {time : FrameTime} {fuel : Nat}
  {deeper deeper' : Scene σ → NodeId → Step σ Unit}

/-- What a pull one level deeper has to do: it stays on the graph, and where it may go deep
enough, it is a search. -/
structure Searches (g : Graph) (fuel : Nat) (deeper : Scene σ → NodeId → Step σ Unit) : Prop where
  frame : ∀ s id, (deeper s id).scene.graph.clearValues = s.graph.clearValues
  dive : ∀ s id, s.graph.clearValues = g.clearValues → g.room s.resolved ≤ fuel →
    Dive g s.resolved (g.producers id) (pulled (deeper s id).events) (deeper s id).scene.resolved
      (deeper s id).result.isOk

/-- Where the search goes on once a node was evaluated. -/
theorem Searches.onward (h : Searches g fuel deeper) (time : FrameTime) (t : Scene σ) (id : NodeId)
    (hshape : t.graph.clearValues = g.clearValues) (hroom : g.room t.resolved ≤ fuel) :
    let next := ((deeper t id).scene.evaluate time .data id).scene.push id
    next.graph.clearValues = g.clearValues ∧ next.resolved = (deeper t id).scene.resolved ∧
      g.room next.resolved ≤ fuel := by
  have hmarks : (((deeper t id).scene.evaluate time .data id).scene.push id).resolved =
      (deeper t id).scene.resolved := resolved_evaluate time .data _ id
  refine ⟨?_, hmarks, ?_⟩
  · rw [clearValues_push, clearValues_evaluate, h.frame, hshape]
  · rw [hmarks]
    exact (Graph.room_le_of_subset (h.dive t id hshape hroom).marked.kept).trans hroom

theorem pullWith_dive (h : Searches g fuel deeper) :
    ∀ (ids : List NodeId) (s : Scene σ), s.graph.clearValues = g.clearValues → ids ⊆ g.nodes.keys →
      g.room s.resolved ≤ fuel + 1 →
      Dive g s.resolved ids (pulled (pullWith time deeper ids s).events)
        (pullWith time deeper ids s).scene.resolved (pullWith time deeper ids s).result.isOk
  | [], _, _, _, _ => .nil
  | id :: ids, s, hshape, hkeys, hroom => by
    have hkeys' : ids ⊆ g.nodes.keys := fun x hx => hkeys (List.mem_cons_of_mem _ hx)
    unfold pullWith
    by_cases hmem : id ∈ s.resolved
    · rw [if_pos (List.contains_iff_mem.2 hmem)]
      exact .again hmem (pullWith_dive h ids s hshape hkeys' hroom)
    · rw [if_neg fun hc => hmem (List.contains_iff_mem.1 hc)]
      have hroom' : g.room (s.resolved ++ [id]) ≤ fuel :=
        Nat.le_of_lt_succ ((Graph.room_append_lt (hkeys List.mem_cons_self) hmem).trans_le hroom)
      simp only [Graph.any_isScheduled, Graph.ranked_iff_of_clearValues hshape id,
        decide_eq_true_eq]
      split
      · have hbelow := h.dive { s with resolved := s.resolved ++ [id] } id hshape hroom'
        obtain ⟨hshape', hmarks, hroom''⟩ :=
          h.onward time { s with resolved := s.resolved ++ [id] } id hshape hroom'
        have hown :=
          pulled_evaluate_data time (deeper { s with resolved := s.resolved ++ [id] } id).scene id
        split
        · next herror =>
          rw [herror] at hbelow
          exact .blocked hmem hbelow
        · next hok =>
          rw [hok] at hbelow
          split
          · rw [pulled_append, resolved_evaluate]
            exact .failed hmem hbelow (hown.imp_right And.left)
          · next r hr =>
            have hpulled := hown.resolve_right <| by
              rintro ⟨-, e, he⟩
              rw [hr] at he
              cases he
            rw [pulled_append, pulled_append, hpulled]
            refine .onward hmem hbelow ?_
            rw [← hmarks]
            exact pullWith_dive h ids _ hshape' hkeys' (Nat.le_succ_of_le hroom'')
      · next hnot =>
        exact .unranked hmem hnot (pullWith_dive h ids { s with resolved := s.resolved ++ [id] }
          hshape hkeys' (Nat.le_succ_of_le hroom'))

/-- **A pull is a search**, if it may go as deep as there are unmarked nodes. -/
theorem resolveWithin_dive (g : Graph) (time : FrameTime) :
    ∀ fuel : Nat, Searches g fuel (resolveWithin (σ := σ) time fuel)
  | 0 => by
    refine ⟨clearValues_resolveWithin time 0, fun s id _ hroom => .of_subset ?_⟩
    exact List.Subset.trans (g.producers_subset_keys id)
      (Graph.subset_of_room_eq_zero (Nat.le_zero.1 hroom))
  | fuel + 1 => by
    refine ⟨clearValues_resolveWithin time (fuel + 1), fun s id hshape hroom => ?_⟩
    have hproducers := Graph.producers_eq_of_bare (Graph.bare_eq_of_clearValues_eq hshape)
    unfold resolveWithin
    rw [hproducers]
    exact pullWith_dive (resolveWithin_dive g time fuel) _ s hshape
      (g.producers_subset_keys id) hroom

theorem pullWith_of_subset : ∀ {ids : List NodeId} {s : Scene σ}, ids ⊆ s.resolved →
    pullWith time deeper ids s = ⟨s, [], .ok ()⟩
  | [], _, _ => rfl
  | _ :: _, _, h => by
    unfold pullWith
    rw [if_pos (List.contains_iff_mem.2 (h List.mem_cons_self))]
    exact pullWith_of_subset fun _ hx => h (List.mem_cons_of_mem _ hx)

theorem pullWith_congr (h : Searches g fuel deeper)
    (hsame : ∀ s id, s.graph.clearValues = g.clearValues → g.room s.resolved ≤ fuel →
      deeper' s id = deeper s id) :
    ∀ (ids : List NodeId) (s : Scene σ), s.graph.clearValues = g.clearValues → ids ⊆ g.nodes.keys →
      g.room s.resolved ≤ fuel + 1 → pullWith time deeper' ids s = pullWith time deeper ids s
  | [], _, _, _, _ => rfl
  | id :: ids, s, hshape, hkeys, hroom => by
    have hid : id ∈ g.nodes.keys := hkeys List.mem_cons_self
    have hkeys' : ids ⊆ g.nodes.keys := fun x hx => hkeys (List.mem_cons_of_mem _ hx)
    unfold pullWith
    split
    · exact pullWith_congr h hsame ids s hshape hkeys' hroom
    · next hnot =>
      have hroom' : g.room (s.resolved ++ [id]) ≤ fuel := Nat.le_of_lt_succ <|
        (Graph.room_append_lt hid fun hmem => hnot (List.contains_iff_mem.2 hmem)).trans_le hroom
      obtain ⟨hshape', -, hroom''⟩ :=
        h.onward time { s with resolved := s.resolved ++ [id] } id hshape hroom'
      simp only [hsame { s with resolved := s.resolved ++ [id] } id hshape hroom',
        pullWith_congr h hsame ids _ hshape' hkeys' (Nat.le_succ_of_le hroom''),
        pullWith_congr h hsame ids { s with resolved := s.resolved ++ [id] } hshape hkeys'
          (Nat.le_succ_of_le hroom')]

/-- **The bound on the depth is never met**: a pull that may go deeper than there are
unmarked nodes does the same. -/
theorem resolveWithin_eq (time : FrameTime) :
    ∀ (fuel : Nat) (s : Scene σ) (id : NodeId), s.graph.clearValues = g.clearValues →
      g.room s.resolved ≤ fuel → resolveWithin time (fuel + 1) s id = resolveWithin time fuel s id
  | 0, s, id, hshape, hroom => by
    have hproducers := Graph.producers_eq_of_bare (Graph.bare_eq_of_clearValues_eq hshape)
    refine pullWith_of_subset ?_
    rw [hproducers]
    exact List.Subset.trans (g.producers_subset_keys id)
      (Graph.subset_of_room_eq_zero (Nat.le_zero.1 hroom))
  | fuel + 1, s, id, hshape, hroom => by
    have hproducers := Graph.producers_eq_of_bare (Graph.bare_eq_of_clearValues_eq hshape)
    unfold resolveWithin
    rw [hproducers]
    exact pullWith_congr (resolveWithin_dive g time fuel)
      (fun t k ht hr => resolveWithin_eq time fuel t k ht hr) _ s hshape
        (g.producers_subset_keys id) hroom

theorem resolveWithin_eq_resolve (time : FrameTime) (s : Scene σ) (id : NodeId) {depth : Nat}
    (h : s.graph.nodes.size ≤ depth) : resolveWithin time depth s id = s.resolve time id := by
  induction depth, h using Nat.le_induction with
  | base => rfl
  | succ depth hdepth ih =>
    exact (resolveWithin_eq time depth s id rfl ((Graph.room_le_size _ _).trans hdepth)).trans ih

theorem resolve_dive (time : FrameTime) (s : Scene σ) (id : NodeId) :
    Dive s.graph s.resolved (s.graph.producers id) (pulled (s.resolve time id).events)
      (s.resolve time id).scene.resolved (s.resolve time id).result.isOk :=
  (resolveWithin_dive s.graph time _).dive s id rfl (Graph.room_le_size _ _)

/-! ## 4. Walks that keep their marks -/

theorem marked_step (time : FrameTime) (s : Scene σ) (id : NodeId) :
    Marked s.resolved (pulled (s.step .perWalk time id).events)
      (s.step .perWalk time id).scene.resolved := by
  have hdive := (resolve_dive time s id).marked
  unfold step
  simp only [reduceCtorEq, if_false]
  split
  · exact hdive
  · split
    · rw [pulled_append, pulled_evaluate_control, List.append_nil, resolved_evaluate]
      exact hdive
    · rw [pulled_append, pulled_evaluate_control, List.append_nil]
      show Marked _ _ (evaluate time .control _ id).scene.resolved
      rw [resolved_evaluate]
      exact hdive

/-- **A walk that remembers what it has pulled pulls nothing twice.** -/
theorem marked_walkWithin (time : FrameTime) (bound : Nat) :
    ∀ (budget : Nat) (s : Scene σ) (id : NodeId),
      Marked s.resolved (pulled (walkWithin .perWalk time bound budget s id).events)
        (walkWithin .perWalk time bound budget s id).scene.resolved
  | 0, s, id => by
    unfold walkWithin
    split <;> exact .refl _
  | budget + 1, s, id => by
    have hstep := marked_step time s id
    unfold walkWithin
    split
    · simp only
      split
      · exact hstep
      · exact hstep
      · split
        · exact hstep
        · rw [pulled_append]
          exact hstep.trans (marked_walkWithin time bound budget _ _)
    · exact .refl _

end Scene

/-! ## 5. The law -/

namespace Graph

/-- What feeds a ranked node is ranked once the graph was scheduled, cycles or not. -/
theorem ranked_of_supplies {g : Graph} (hg : g.Intact) (hflow : g.FlowApart) (max : Nat)
    (kinds : List EntryKind) {p q : NodeId} (hpq : (g.schedule max kinds).1.Supplies p q)
    (hq : (g.schedule max kinds).1.Ranked q) : (g.schedule max kinds).1.Ranked p := by
  obtain ⟨control, classes, hs⟩ := passes_scheduled hg hflow max kinds
  have hbare : (g.schedule max kinds).1.bare = g.bare := bare_schedule g max kinds
  have hfinal : (g.schedule max kinds).1 = (g.secondPass max kinds).graph := by
    simp only [schedule_eq]
  rw [Supplies, isData_eq_of_bare hbare, links_eq_of_bare hbare] at hpq
  rw [ranked_iff_nonneg, hfinal, hs.nonneg_rank_iff] at hq ⊢
  rcases hq with hq | ⟨v, hv, hqv⟩
  · exact .inr ⟨q, hq, .single hpq⟩
  · exact .inr ⟨v, hv, .head hpq hqv⟩

end Graph

/-- **Each producer is pulled once, and producers come first.**  Take a built graph in which no
control link touches a data node, with whatever cycles, right after scheduling and with any contents
of the slots.  Whatever the behaviors do, a pull for a ranked node that remembers nothing yet ends:
it is a search, which goes on until nothing is left or an evaluation fails, and no larger bound on
its depth makes a difference.  No data node is evaluated twice, and none that does not feed the node
over some number of data links; if the pull does not fail, all of those are evaluated.  If there is
no cycle among them, each is evaluated after all of its own producers.  And all pulls of one walk
that remembers what it has pulled, wherever it starts, evaluate no data node twice. -/
theorem producers_are_pulled_once_and_first {σ : Type u} [Behaves σ] (g : Graph) (built : g.Built)
    (apart : g.FlowApart) (max : Nat) (kinds : List EntryKind) (s : Scene σ)
    (scheduled : s.graph.clearValues = (g.schedule max kinds).1.clearValues)
    (fresh : s.resolved = []) (time : FrameTime) (id : NodeId) (ranked : s.graph.Ranked id) :
    let order := pulled (s.resolve time id).events
    Dive s.graph [] (s.graph.producers id) order (s.resolve time id).scene.resolved
      (s.resolve time id).result.isOk ∧
    (∀ depth, s.graph.nodes.size ≤ depth →
      Scene.resolveWithin time depth s id = s.resolve time id) ∧
    order.Nodup ∧
    (∀ x ∈ order, TransGen s.graph.Supplies x id) ∧
    ((s.resolve time id).result = .ok () → ∀ x, TransGen s.graph.Supplies x id → x ∈ order) ∧
    ((∀ x, TransGen s.graph.Supplies x id → ¬ TransGen s.graph.Supplies x x) →
      ∀ before x after, order = before ++ x :: after → ∀ p, s.graph.Supplies p x → p ∈ before) ∧
    ∀ (settings : Settings) (start : NodeId), settings.memoization = .perWalk →
      (pulled (s.walk settings time start).events).Nodup := by
  intro order
  have hbare := Graph.bare_eq_of_clearValues_eq scheduled
  have hclosed : ∀ p q, s.graph.Supplies p q → s.graph.Ranked q → s.graph.Ranked p := by
    intro p q hpq hq
    rw [Graph.Supplies, Graph.isData_eq_of_bare hbare, Graph.links_eq_of_bare hbare] at hpq
    rw [Graph.ranked_iff_of_clearValues scheduled] at hq ⊢
    exact Graph.ranked_of_supplies built.intact apart max kinds hpq hq
  have hproducers : ∀ p ∈ s.graph.producers id, s.graph.Ranked p :=
    fun p hp => hclosed p id (Graph.mem_producers_iff.1 hp) ranked
  have hdive := Scene.resolve_dive time s id
  rw [fresh] at hdive
  refine ⟨hdive, fun depth hdepth => Scene.resolveWithin_eq_resolve time s id hdepth,
    hdive.marked.nodup,
    fun x hx => ?_, fun hok x hx => ?_, fun hfree before x after horder p hp => ?_,
    fun settings start hmemo => ?_⟩
  · obtain ⟨q, hq, hxq⟩ := hdive.reached x hx
    exact .tail' hxq (Graph.mem_producers_iff.1 hq)
  · -- what is marked is what was evaluated, and it is closed under producers
    obtain ⟨hsub, hnew, hprod⟩ := hdive.complete hclosed hproducers (by rw [hok]; rfl)
    have heval : ∀ y ∈ (s.resolve time id).scene.resolved, y ∈ order :=
      fun y hy => (hnew y hy).resolve_left List.not_mem_nil
    induction hx using TransGen.head_induction_on with
    | single hxid => exact heval _ (hsub (Graph.mem_producers_iff.2 hxid))
    | head hxy _ ih => exact heval _ (hprod _ ih (Graph.mem_producers_iff.2 hxy))
  · have hfirst : s.graph.ProducersFirst [] order := hdive.producersFirst hclosed hproducers
      (fun q hq y hy => hfree y (.tail' hy (Graph.mem_producers_iff.1 hq))) (List.forall_mem_nil _)
    exact hfirst.producers_subset horder (Graph.mem_producers_iff.2 hp)
  · rw [Scene.walk, hmemo]
    exact (Scene.marked_walkWithin time _ _ s start).nodup

/-- The looping script after scheduling with a bound of one. -/
def loopScene : Scene Library.Behavior :=
  ⟨(loopGraph.schedule 1 [.update]).1, (Table.sync .empty Library.registry loopGraph).1, []⟩

/-- What the looping script prints comes from two adders that feed each other, behind a template:
each is evaluated once, so they are all that feeds what is printed.  In the example, which has no
cycle, a constant comes before the adder that takes it twice, and the adder before the template. -/
theorem loop_producers_are_pulled_once :
    loopGraph.FlowApart ∧ loopScene.graph.Ranked (exampleId 1) ∧
    pulled (loopScene.resolve .zero (exampleId 1)).events =
      [exampleId 5, exampleId 4, exampleId 3] ∧
    (∀ x, TransGen loopScene.graph.Supplies x (exampleId 1) ↔
      x ∈ [exampleId 5, exampleId 4, exampleId 3]) ∧
    pulled (exampleScene.resolve .zero (exampleId 4)).events =
      [exampleId 1, exampleId 2, exampleId 3] ∧
    ∀ p, exampleLeftover.Supplies p (exampleId 3) → p ∈ [exampleId 1, exampleId 2] := by
  have apart : loopGraph.FlowApart := by decide +kernel
  have ranked : loopScene.graph.Ranked (exampleId 1) := by decide +kernel
  have order : pulled (loopScene.resolve .zero (exampleId 1)).events =
      [exampleId 5, exampleId 4, exampleId 3] := by decide +kernel
  have hok : (loopScene.resolve .zero (exampleId 1)).result = .ok () := by decide +kernel
  obtain ⟨-, -, -, hfeeds, hall, -⟩ := producers_are_pulled_once_and_first loopGraph
    loopGraph_built apart 1 [.update] loopScene rfl rfl .zero (exampleId 1) ranked
  rw [order] at hfeeds hall
  have straight : pulled (exampleScene.resolve .zero (exampleId 4)).events =
      [exampleId 1, exampleId 2, exampleId 3] := by decide +kernel
  obtain ⟨-, -, -, -, -, hfirst, -⟩ := producers_are_pulled_once_and_first exampleGraph
    exampleGraph_built (by decide +kernel) 100 [.update] exampleScene exampleLeftover_scheduled rfl
    .zero (exampleId 4) (by decide +kernel)
  rw [straight] at hfirst
  have hfeeds' : exampleLeftover.Supplies ≤ exampleLeftover.Feeds :=
    fun _ _ => Graph.mem_producers_iff.2
  have hfree : ∀ x, ¬ TransGen exampleLeftover.Supplies x x :=
    fun x hx => exampleLeftover_acyclic x (TransGen.mono hfeeds' x x hx)
  exact ⟨apart, ranked, order, fun x => ⟨hall hok x, hfeeds x⟩, straight,
    hfirst (fun x _ => hfree x) [exampleId 1, exampleId 2] (exampleId 3) [] rfl⟩

end FlowScript
