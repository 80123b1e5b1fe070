/-
# Maps that remember insertion order

A graph lists its nodes, its links and a node's settings in the order in which they were added,
and every answer that enumerates them shows that order.  `OrderedMap` is an association list
whose keys are pairwise different:

* `insert` writes a key in its place if the map has it, and appends it otherwise;
* `erase` closes the gap and keeps the order of the rest.

The distinct-keys invariant is a field of the type, so no caller restates it.  The lemmas say
what each operation does to the two views `get?` and `keys`.
-/

namespace FlowScript

universe u v w

/-- Key-value pairs with pairwise different keys, in insertion order. -/
structure OrderedMap (κ : Type u) (ν : Type v) where
  entries : List (κ × ν)
  nodup : (entries.map Prod.fst).Nodup

namespace OrderedMap

variable {κ : Type u} {ν : Type v} {μ : Type w}

/-- The map without entries. -/
def empty : OrderedMap κ ν := ⟨[], by simp⟩

instance : Inhabited (OrderedMap κ ν) := ⟨empty⟩

def keys (m : OrderedMap κ ν) : List κ := m.entries.map Prod.fst

def values (m : OrderedMap κ ν) : List ν := m.entries.map Prod.snd

def size (m : OrderedMap κ ν) : Nat := m.entries.length

def isEmpty (m : OrderedMap κ ν) : Bool := m.entries.isEmpty

@[ext] theorem ext {m n : OrderedMap κ ν} (h : m.entries = n.entries) : m = n := by
  cases m; cases n; cases h; rfl

theorem keys_nodup (m : OrderedMap κ ν) : m.keys.Nodup := m.nodup

/-! ## 1. Operations that leave the keys alone -/

/-- Replaces every value by a function of it and its key. -/
def map (f : κ → ν → μ) (m : OrderedMap κ ν) : OrderedMap κ μ where
  entries := m.entries.map fun e => (e.1, f e.1 e.2)
  nodup := by simpa [List.map_map, Function.comp_def] using m.nodup

/-- Keeps the entries that pass a test. -/
def filter (p : κ → ν → Bool) (m : OrderedMap κ ν) : OrderedMap κ ν where
  entries := m.entries.filter fun e => p e.1 e.2
  nodup := (List.Sublist.map Prod.fst List.filter_sublist).nodup m.nodup

@[simp] theorem keys_map (f : κ → ν → μ) (m : OrderedMap κ ν) : (m.map f).keys = m.keys := by
  simp [keys, map, Function.comp_def]

@[simp] theorem size_map (f : κ → ν → μ) (m : OrderedMap κ ν) : (m.map f).size = m.size := by
  simp [size, map]

variable [DecidableEq κ]

/-! ## 2. Look-up -/

/-- The value stored under a key. -/
def get? (m : OrderedMap κ ν) (k : κ) : Option ν := m.entries.lookup k

def contains (m : OrderedMap κ ν) (k : κ) : Bool := (m.get? k).isSome

/-- Applies a function to the value of one key; a missing key changes nothing. -/
def modify (m : OrderedMap κ ν) (k : κ) (f : ν → ν) : OrderedMap κ ν :=
  m.map fun k' v => if k' = k then f v else v

/-- Writes a value: in place for a key the map has, at the end for a new one. -/
def insert (m : OrderedMap κ ν) (k : κ) (x : ν) : OrderedMap κ ν :=
  if h : k ∈ m.keys then m.modify k fun _ => x
  else
    { entries := m.entries ++ [(k, x)]
      nodup := by
        rw [List.map_append, List.nodup_append]
        refine ⟨m.nodup, by simp, ?_⟩
        intro a ha b hb hab
        simp only [List.map_cons, List.map_nil, List.mem_singleton] at hb
        exact h (hb ▸ hab ▸ ha) }

/-- Removes a key and closes the gap. -/
def erase (m : OrderedMap κ ν) (k : κ) : OrderedMap κ ν := m.filter fun k' _ => k' ≠ k

/-- Writes a list of entries one after the other. -/
def ofList (l : List (κ × ν)) : OrderedMap κ ν := l.foldl (fun m e => m.insert e.1 e.2) empty

/-! ## 3. What the operations do to `get?` and `keys` -/

theorem lookup_map_values (f : κ → ν → μ) (k : κ) :
    ∀ l : List (κ × ν), (l.map fun e => (e.1, f e.1 e.2)).lookup k = (l.lookup k).map (f k)
  | [] => rfl
  | (k', x) :: l => by
    simp only [List.map_cons, List.lookup_cons]
    by_cases h : k = k'
    · subst h; simp
    · have hb : (k == k') = false := by simpa using h
      simp [hb, lookup_map_values f k l]

@[simp] theorem get?_map (f : κ → ν → μ) (m : OrderedMap κ ν) (k : κ) :
    (m.map f).get? k = (m.get? k).map (f k) :=
  lookup_map_values f k m.entries

@[simp] theorem get?_empty (k : κ) : (empty : OrderedMap κ ν).get? k = none := rfl

@[simp] theorem keys_modify (m : OrderedMap κ ν) (k : κ) (f : ν → ν) :
    (m.modify k f).keys = m.keys := keys_map _ m

theorem get?_modify (m : OrderedMap κ ν) (k k' : κ) (f : ν → ν) :
    (m.modify k f).get? k' = if k' = k then (m.get? k').map f else m.get? k' := by
  simp only [modify, get?_map]
  split <;> cases m.get? k' <;> simp_all

theorem get?_isSome_iff (m : OrderedMap κ ν) (k : κ) : (m.get? k).isSome ↔ k ∈ m.keys := by
  rw [Option.isSome_iff_ne_none, ne_eq, get?, List.lookup_eq_none_iff, keys, List.mem_map]
  constructor
  · intro h
    apply Classical.byContradiction
    intro hn
    exact h fun p hp => by
      simp only [bne_iff_ne, ne_eq]
      exact fun e => hn ⟨p, hp, e.symm⟩
  · rintro ⟨p, hp, rfl⟩ h
    simpa using h p hp

theorem get?_eq_none_iff (m : OrderedMap κ ν) (k : κ) : m.get? k = none ↔ k ∉ m.keys := by
  rw [← get?_isSome_iff]; cases m.get? k <;> simp

theorem lookup_append_single (k k' : κ) (x : ν) :
    ∀ l : List (κ × ν),
      (l ++ [(k, x)]).lookup k' = (l.lookup k').or (if k' = k then some x else none)
  | [] => by
    by_cases h : k' = k
    · subst h; simp
    · have hb : (k' == k) = false := by simpa using h
      simp [List.lookup_cons, hb, h]
  | (a, y) :: l => by
    simp only [List.cons_append, List.lookup_cons]
    cases h : k' == a <;> simp [lookup_append_single k k' x l]

theorem get?_insert (m : OrderedMap κ ν) (k k' : κ) (x : ν) :
    (m.insert k x).get? k' = if k' = k then some x else m.get? k' := by
  unfold insert
  split
  · next h =>
    rw [get?_modify]
    split
    · next e =>
      subst e
      obtain ⟨y, hy⟩ := Option.isSome_iff_exists.1 ((get?_isSome_iff m k').2 h)
      simp [hy]
    · rfl
  · next h =>
    show (m.entries ++ [(k, x)]).lookup k' = _
    rw [lookup_append_single]
    split
    · next e =>
      subst e
      have hn : m.entries.lookup k' = none := (get?_eq_none_iff m k').2 h
      simp [hn]
    · simp [get?]

theorem keys_insert (m : OrderedMap κ ν) (k : κ) (x : ν) :
    (m.insert k x).keys = if k ∈ m.keys then m.keys else m.keys ++ [k] := by
  unfold insert
  split
  · exact keys_modify m k _
  · simp [keys]

@[simp] theorem mem_keys_insert (m : OrderedMap κ ν) (k k' : κ) (x : ν) :
    k' ∈ (m.insert k x).keys ↔ k' = k ∨ k' ∈ m.keys := by
  rw [keys_insert]
  split
  · next h => exact ⟨Or.inr, fun e => e.elim (fun e => e ▸ h) id⟩
  · simp [or_comm]

@[simp] theorem keys_erase (m : OrderedMap κ ν) (k : κ) :
    (m.erase k).keys = m.keys.filter (· ≠ k) := by
  simp [keys, erase, filter, List.filter_map, Function.comp_def]

theorem lookup_filter_ne (k k' : κ) :
    ∀ l : List (κ × ν),
      (l.filter fun e => decide (e.1 ≠ k)).lookup k' = if k' = k then none else l.lookup k'
  | [] => by simp
  | (a, y) :: l => by
    rw [List.filter_cons]
    by_cases ha : a = k
    · subst ha
      simp only [ne_eq, not_true_eq_false, decide_false, Bool.false_eq_true, if_false,
        lookup_filter_ne a k' l, List.lookup_cons]
      by_cases hk : k' = a
      · simp [hk]
      · have hb : (k' == a) = false := by simpa using hk
        simp [hk, hb]
    · simp only [ne_eq, ha, not_false_eq_true, decide_true, if_true, List.lookup_cons,
        lookup_filter_ne k k' l]
      cases h : k' == a
      · rfl
      · have e : k' = a := by simpa using h
        simp [e, ha]

theorem get?_erase (m : OrderedMap κ ν) (k k' : κ) :
    (m.erase k).get? k' = if k' = k then none else m.get? k' :=
  lookup_filter_ne k k' m.entries

end OrderedMap

end FlowScript
