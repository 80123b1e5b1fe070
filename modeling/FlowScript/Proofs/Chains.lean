/-
# Walks of counted steps

A control rank is the length of a walk along control links, and a depth that of a chain of
producers.  Both are read here as counted steps of a relation (`Steps`), and the relations as what
the links of a graph say: `Graph.Flows` for control links, `Graph.Supplies` for links out of data
nodes.

Scheduling never searches for a cycle; it counts until a bound is passed.  What makes the bounds
right is one argument about finite graphs, made here once: a walk visits different places or goes
around a cycle (`Steps.nodup_or_repeat`).  Two consequences carry the laws of scheduling:

* a walk with as many steps as there are nodes passes a cycle (`Steps.exists_cycle`), and a cycle on
  the way makes walks of any length (`exists_steps_of_cycle`);
* what a walk reaches, a walk with fewer steps than there are nodes reaches (`Steps.exists_lt`).
-/
import FlowScript.Proofs.DataRanks
import Mathlib.Logic.Relation

namespace FlowScript

open Relation (ReflTransGen TransGen)

/-! ## 1. Steps of a relation -/

universe u

variable {α : Type u} {r : α → α → Prop} {k m : Nat} {a b c x : α}

/-- Exactly `k` steps of a relation lead from one place to another. -/
inductive Steps (r : α → α → Prop) : Nat → α → α → Prop
  | refl (a : α) : Steps r 0 a a
  | head {k : Nat} {a b c : α} : r a b → Steps r k b c → Steps r (k + 1) a c

namespace Steps

theorem single (h : r a b) : Steps r 1 a b := .head h (.refl b)

theorem trans (h : Steps r k a b) (h' : Steps r m b c) : Steps r (m + k) a c := by
  induction h with
  | refl a => exact h'
  | head hab _ ih => exact .head hab (ih h')

theorem reflTransGen (h : Steps r k a b) : ReflTransGen r a b := by
  induction h with
  | refl a => exact .refl
  | head hab _ ih => exact .head hab ih

theorem transGen (h : Steps r k a b) (hk : 0 < k) : TransGen r a b := by
  cases h with
  | refl => exact absurd hk (Nat.lt_irrefl 0)
  | head hab hbc => exact .head' hab hbc.reflTransGen

/-- Any number of rounds along a cycle. -/
theorem rounds (h : Steps r k a a) : ∀ n : Nat, Steps r (n * k) a a
  | 0 => by rw [Nat.zero_mul]; exact .refl a
  | n + 1 => by rw [Nat.succ_mul]; exact h.trans (h.rounds n)

end Steps

theorem exists_steps_of_reflTransGen (h : ReflTransGen r a b) : ∃ k, Steps r k a b := by
  induction h with
  | refl => exact ⟨0, .refl a⟩
  | tail _ hbc ih =>
    obtain ⟨k, hk⟩ := ih
    exact ⟨1 + k, hk.trans (.single hbc)⟩

theorem exists_steps_of_transGen (h : TransGen r a b) : ∃ k, 0 < k ∧ Steps r k a b := by
  obtain ⟨c, hac, hcb⟩ := TransGen.head'_iff.1 h
  obtain ⟨k, hk⟩ := exists_steps_of_reflTransGen hcb
  exact ⟨k + 1, Nat.succ_pos k, .head hac hk⟩

/-- **A cycle on the way makes walks of any length.** -/
theorem exists_steps_of_cycle (hax : ReflTransGen r a x) (hx : TransGen r x x)
    (hxb : ReflTransGen r x b) (n : Nat) : ∃ k, n ≤ k ∧ Steps r k a b := by
  obtain ⟨i, hi⟩ := exists_steps_of_reflTransGen hax
  obtain ⟨m, hm, hround⟩ := exists_steps_of_transGen hx
  obtain ⟨j, hj⟩ := exists_steps_of_reflTransGen hxb
  have hlong : n ≤ n * m := Nat.le_mul_of_pos_right n hm
  exact ⟨j + (n * m + i), by omega, (hi.trans (hround.rounds n)).trans hj⟩

/-! ## 2. Walks among finitely many places -/

namespace Steps

/-- **A walk visits different places, or it goes around a cycle.** -/
theorem nodup_or_repeat (h : Steps r k a b) :
    (∃ visited : List α, visited.length = k + 1 ∧ visited.Nodup ∧
      ∀ x ∈ visited, ∃ i j, j + i = k ∧ Steps r i a x ∧ Steps r j x b) ∨
    ∃ x i m j, 0 < m ∧ j + m + i = k ∧ Steps r i a x ∧ Steps r m x x ∧ Steps r j x b := by
  induction h with
  | refl a =>
    refine .inl ⟨[a], rfl, List.nodup_singleton a, fun x hx => ?_⟩
    rw [List.mem_singleton.1 hx]
    exact ⟨0, 0, rfl, .refl a, .refl a⟩
  | @head k a b c hab hbc ih =>
    rcases ih with ⟨visited, hlen, hnodup, hvisited⟩ | ⟨x, i, m, j, hm, hk, hi, hround, hj⟩
    · by_cases ha : a ∈ visited
      · -- the walk comes back to the place where it starts
        obtain ⟨i, j, hk, hi, hj⟩ := hvisited a ha
        exact .inr ⟨a, 0, i + 1, j, Nat.succ_pos i, by omega, .refl a, .head hab hi, hj⟩
      · refine .inl
          ⟨a :: visited, by rw [List.length_cons, hlen], List.nodup_cons.2 ⟨ha, hnodup⟩, ?_⟩
        intro x hx
        rcases List.mem_cons.1 hx with rfl | hx
        · exact ⟨0, k + 1, rfl, .refl x, .head hab hbc⟩
        · obtain ⟨i, j, hk, hi, hj⟩ := hvisited x hx
          exact ⟨i + 1, j, by omega, .head hab hi, hj⟩
    · exact .inr ⟨x, i + 1, m, j, hm, by omega, .head hab hi, hround, hj⟩

variable {places : List α}

/-- A walk with as many steps as there are places visits one of them twice. -/
theorem exists_repeat (h : Steps r k a b) (hfrom : ∀ x y, r x y → x ∈ places) (hb : b ∈ places)
    (hk : places.length ≤ k) :
    ∃ x i m j, 0 < m ∧ j + m + i = k ∧ Steps r i a x ∧ Steps r m x x ∧ Steps r j x b := by
  refine h.nodup_or_repeat.resolve_left ?_
  rintro ⟨visited, hlen, hnodup, hvisited⟩
  have hsub : visited ⊆ places := by
    intro x hx
    obtain ⟨_, _, -, -, hxb⟩ := hvisited x hx
    cases hxb with
    | refl => exact hb
    | head hxy _ => exact hfrom _ _ hxy
  have hle := hnodup.length_le_of_subset hsub
  omega

/-- **A long walk passes a cycle.** -/
theorem exists_cycle (h : Steps r k a b) (hfrom : ∀ x y, r x y → x ∈ places) (hb : b ∈ places)
    (hk : places.length ≤ k) :
    ∃ x, ReflTransGen r a x ∧ TransGen r x x ∧ ReflTransGen r x b := by
  obtain ⟨x, i, m, j, hm, -, hi, hround, hj⟩ := h.exists_repeat hfrom hb hk
  exact ⟨x, hi.reflTransGen, hround.transGen hm, hj.reflTransGen⟩

/-- **What a walk reaches, a short walk reaches**: cycles can be left out. -/
theorem exists_lt (h : Steps r k a b) (hfrom : ∀ x y, r x y → x ∈ places) (hb : b ∈ places) :
    ∃ j, j < places.length ∧ Steps r j a b := by
  induction k using Nat.strong_induction_on with
  | _ k ih =>
    by_cases hk : k < places.length
    · exact ⟨k, hk, h⟩
    · obtain ⟨x, i, m, j, hm, hsum, hi, -, hj⟩ := h.exists_repeat hfrom hb (Nat.le_of_not_lt hk)
      exact ih (j + i) (by omega) (hi.trans hj)

end Steps

/-! ## 3. Steps along links -/

namespace Graph

variable {g : Graph} {starts : List NodeId} {p q s v : NodeId}

/-- A control link leads from one node to another. -/
def Flows (g : Graph) (v w : NodeId) : Prop :=
  ∃ c ∈ g.links, c.exec = true ∧ c.fromNode = v ∧ c.toNode = w

/-- A data link leads from a data node to another node. -/
def Supplies (g : Graph) (p q : NodeId) : Prop :=
  g.isData p = true ∧ ∃ c ∈ g.links, c.exec = false ∧ c.fromNode = p ∧ c.toNode = q

theorem controlWalk_iff {k : Nat} :
    g.ControlWalk starts k v ↔ ∃ e ∈ starts, Steps g.Flows k e v := by
  constructor
  · intro h
    induction h with
    | start hv => exact ⟨_, hv, .refl _⟩
    | @step k a b _ hb ih =>
      obtain ⟨e, he, hsteps⟩ := ih
      exact ⟨e, he, Nat.add_comm 1 k ▸ hsteps.trans (.single (mem_nextNodes_iff.1 hb))⟩
  · rintro ⟨e, he, hsteps⟩
    -- the walk grows at its end, the steps at their beginning
    have hgrow : ∀ {i j : Nat} {a b : NodeId}, Steps g.Flows j a b → g.ControlWalk starts i a →
        g.ControlWalk starts (j + i) b := by
      intro i j a b h
      induction h generalizing i with
      | refl a => intro ha; rwa [Nat.zero_add]
      | @head j a b c hab _ ih =>
        intro ha
        rw [Nat.add_right_comm]
        exact ih (.step ha (mem_nextNodes_iff.2 hab))
    exact hgrow hsteps (.start he)

theorem dataWalk_iff {k : Nat} : g.DataWalk k p s ↔ Steps g.Supplies k p s := by
  constructor
  · intro h
    induction h with
    | refl s => exact .refl s
    | step hp _ ih => exact .head (mem_producers_iff.1 hp) ih
  · intro h
    induction h with
    | refl s => exact .refl s
    | head hp _ ih => exact .step (mem_producers_iff.2 hp) ih

theorem mem_keys_of_isData (h : g.isData p = true) : p ∈ g.nodes.keys :=
  (OrderedMap.get?_isSome_iff _ _).1 (exists_node?_of_isData h)

theorem Supplies.mem_keys (h : g.Supplies p q) : p ∈ g.nodes.keys := mem_keys_of_isData h.1

theorem isData_of_transGen (h : TransGen g.Supplies p q) : g.isData p = true := by
  obtain ⟨_, hlink, -⟩ := TransGen.head'_iff.1 h
  exact hlink.1

theorem Flows.mem_keys (hg : g.Intact) {w : NodeId} (h : g.Flows v w) : v ∈ g.nodes.keys := by
  obtain ⟨c, hc, -, rfl, -⟩ := h
  obtain ⟨n, hn⟩ := (hg.exists_ends hc).1
  exact (OrderedMap.get?_isSome_iff _ _).1
    (by rw [show g.nodes.get? c.fromNode = some n from hn]; rfl)

theorem length_keys (g : Graph) : g.nodes.keys.length = g.nodes.size := List.length_map _

end Graph

end FlowScript
