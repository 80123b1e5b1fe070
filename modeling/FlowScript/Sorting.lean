/-
# Stable sorting by insertion

Entry nodes are ordered by authoring position, and ranked nodes by their class.  Both sorts are
stable: elements that compare equal keep the order in which they were listed.  `sortBy` inserts
from the right, each element in front of the first one it does not exceed.
-/

namespace FlowScript

universe u

variable {α : Type u}

/-- Puts an element in front of the first one that it does not exceed. -/
def insertBy (le : α → α → Bool) (x : α) : List α → List α
  | [] => [x]
  | y :: ys => if le x y then x :: y :: ys else y :: insertBy le x ys

/-- The list in ascending order; elements that compare equal keep their order. -/
def sortBy (le : α → α → Bool) (l : List α) : List α := l.foldr (insertBy le) []

theorem insertBy_perm (le : α → α → Bool) (x : α) : ∀ l : List α, (insertBy le x l).Perm (x :: l)
  | [] => List.Perm.refl _
  | y :: ys => by
    unfold insertBy
    split
    · exact List.Perm.refl _
    · exact ((insertBy_perm le x ys).cons y).trans (List.Perm.swap x y ys)

theorem sortBy_perm (le : α → α → Bool) : ∀ l : List α, (sortBy le l).Perm l
  | [] => List.Perm.refl _
  | x :: l => (insertBy_perm le x (sortBy le l)).trans ((sortBy_perm le l).cons x)

@[simp] theorem mem_sortBy (le : α → α → Bool) (l : List α) (a : α) : a ∈ sortBy le l ↔ a ∈ l :=
  (sortBy_perm le l).mem_iff

@[simp] theorem length_sortBy (le : α → α → Bool) (l : List α) :
    (sortBy le l).length = l.length :=
  (sortBy_perm le l).length_eq

theorem insertBy_pairwise {le : α → α → Bool}
    (trans : ∀ a b c, le a b = true → le b c = true → le a c = true)
    (total : ∀ a b, (le a b || le b a) = true) (x : α) :
    ∀ l : List α, l.Pairwise (fun a b => le a b = true) →
      (insertBy le x l).Pairwise fun a b => le a b = true
  | [], _ => by simp [insertBy]
  | y :: ys, h => by
    obtain ⟨hy, hys⟩ := List.pairwise_cons.1 h
    unfold insertBy
    split
    · next hxy =>
      refine List.pairwise_cons.2 ⟨?_, h⟩
      intro z hz
      rcases List.mem_cons.1 hz with rfl | hz
      · exact hxy
      · exact trans x y z hxy (hy z hz)
    · next hxy =>
      have hyx : le y x = true := by
        have := total x y
        simp only [Bool.or_eq_true] at this
        exact this.resolve_left hxy
      refine List.pairwise_cons.2 ⟨?_, insertBy_pairwise trans total x ys hys⟩
      intro z hz
      rcases List.mem_cons.1 ((insertBy_perm le x ys).mem_iff.1 hz) with rfl | hz
      · exact hyx
      · exact hy z hz

/-- **Sorting sorts**, for an order that is transitive and total. -/
theorem sortBy_pairwise {le : α → α → Bool}
    (trans : ∀ a b c, le a b = true → le b c = true → le a c = true)
    (total : ∀ a b, (le a b || le b a) = true) :
    ∀ l : List α, (sortBy le l).Pairwise fun a b => le a b = true
  | [] => List.Pairwise.nil
  | x :: l => insertBy_pairwise trans total x (sortBy le l) (sortBy_pairwise trans total l)

end FlowScript
