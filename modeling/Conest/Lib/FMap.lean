import Mathlib

/-!
# Finite maps

A finite map is its lookup function with the finite set of keys on which it is defined; the field
`mem_keys` ties the two, so a map is determined by its lookups (`FMap.ext`) and iteration order
is not part of it. It stands for a hash map of a program that only looks keys up, replaces and
drops entries, and asks how many entries there are.
-/

namespace Lib

/-- A finite map from `K` to `V`. -/
structure FMap (K V : Type) where
  get : K → Option V
  keys : Finset K
  mem_keys : ∀ k, k ∈ keys ↔ (get k).isSome

namespace FMap

variable {K V W : Type}

@[ext] theorem ext {m n : FMap K V} (h : ∀ k, m.get k = n.get k) : m = n := by
  obtain ⟨g, ks, hks⟩ := m
  obtain ⟨g', ks', hks'⟩ := n
  obtain rfl : g = g' := funext h
  obtain rfl : ks = ks' := by
    ext k
    rw [hks, hks']
  rfl

/-- The map with no entry. -/
def empty : FMap K V where
  get _ := none
  keys := ∅
  mem_keys := by simp

@[simp] theorem get_empty (k : K) : (empty : FMap K V).get k = none := rfl

/-- How many entries there are. -/
def size (m : FMap K V) : ℕ := m.keys.card

/-- Whether `k` has an entry. -/
def contains (m : FMap K V) (k : K) : Bool := (m.get k).isSome

theorem contains_eq_false {m : FMap K V} {k : K} : m.contains k = false ↔ m.get k = none := by
  simp [contains]

theorem mem_keys_iff {m : FMap K V} {k : K} : k ∈ m.keys ↔ ∃ v, m.get k = some v := by
  rw [m.mem_keys, Option.isSome_iff_exists]

/-- Keep the entries that `p` accepts. -/
def retain (m : FMap K V) (p : K → V → Bool) : FMap K V where
  get k := (m.get k).filter (p k)
  keys := m.keys.filter fun k => ((m.get k).filter (p k)).isSome
  mem_keys k := by
    rw [Finset.mem_filter, m.mem_keys, and_iff_right_iff_imp]
    intro h
    cases hg : m.get k with
    | none => rw [hg] at h; exact absurd h (by simp)
    | some v => rfl

@[simp] theorem get_retain (m : FMap K V) (p : K → V → Bool) (k : K) :
    (m.retain p).get k = (m.get k).filter (p k) := rfl

/-- Apply `f` to every value. -/
def map (f : V → W) (m : FMap K V) : FMap K W where
  get k := (m.get k).map f
  keys := m.keys
  mem_keys k := by rw [m.mem_keys, Option.isSome_map]

@[simp] theorem get_map (f : V → W) (m : FMap K V) (k : K) :
    (m.map f).get k = (m.get k).map f := rfl

section Update

variable [DecidableEq K]

/-- Set the entry of `k`. -/
def insert (m : FMap K V) (k : K) (v : V) : FMap K V where
  get k' := if k' = k then some v else m.get k'
  keys := Insert.insert k m.keys
  mem_keys k' := by
    rw [Finset.mem_insert]
    by_cases h : k' = k
    · simp [h]
    · simp [h, m.mem_keys]

@[simp] theorem get_insert (m : FMap K V) (k : K) (v : V) (k' : K) :
    (m.insert k v).get k' = if k' = k then some v else m.get k' := rfl

end Update

end FMap

end Lib
