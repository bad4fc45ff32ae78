import Conest.Lib.LinkedMap
import Conest.Lib.Sorted

/-!
# Maps in the order of their keys

An `OrderedMap` is a list of entries that is strictly sorted by the key: what iterating over a tree
map gives. As for the maps in order of insertion, lookups come down to memberships (`get_eq_some`),
and the lookups and sizes after an operation follow.
-/

namespace Lib

open Sorted List

/-- A map with its entries in the order of the keys. -/
structure OrderedMap (K V : Type) [LinearOrder K] where
  entries : List (K × V)
  sorted : SortedBy Prod.fst entries

namespace OrderedMap

variable {K V : Type} [LinearOrder K]

def empty : OrderedMap K V := ⟨[], List.Pairwise.nil⟩

/-- The keys, the smallest first. -/
def keys (m : OrderedMap K V) : List K := m.entries.map Prod.fst

def size (m : OrderedMap K V) : ℕ := m.entries.length

def get (m : OrderedMap K V) (k : K) : Option V :=
  (m.entries.find? fun entry => decide (entry.1 = k)).map Prod.snd

def contains (m : OrderedMap K V) (k : K) : Bool := (m.get k).isSome

/-- Drop the entry of a key. -/
def remove (m : OrderedMap K V) (k : K) : OrderedMap K V where
  entries := m.entries.filter fun entry => decide (entry.1 ≠ k)
  sorted := m.sorted.sublist List.filter_sublist

/-- Set the entry of a key. -/
def insert (m : OrderedMap K V) (k : K) (v : V) : OrderedMap K V where
  entries := insertSorted Prod.fst (k, v) (m.remove k).entries
  sorted := (m.remove k).sorted.insertSorted fun _ hmem => of_decide_eq_true (List.mem_filter.mp hmem).2

variable {m : OrderedMap K V} {k k' : K} {v : V}

theorem nodup_keys (m : OrderedMap K V) : m.keys.Nodup :=
  pairwise_map.mpr (m.sorted.imp ne_of_lt)

theorem get_eq_some : m.get k = some v ↔ (k, v) ∈ m.entries :=
  LinkedMap.get_eq_some (m := ⟨m.entries, m.nodup_keys⟩)

theorem get_remove (m : OrderedMap K V) (k k' : K) :
    (m.remove k).get k' = if k' = k then none else m.get k' :=
  LinkedMap.get_remove (m := ⟨m.entries, m.nodup_keys⟩) k'

theorem get_insert (m : OrderedMap K V) (k : K) (v : V) (k' : K) :
    (m.insert k v).get k' = if k' = k then some v else m.get k' := by
  ext w
  rw [get_eq_some]
  show (k', w) ∈ insertSorted Prod.fst (k, v) _ ↔ _
  rw [mem_insertSorted, ← get_eq_some, get_remove, Prod.mk.injEq]
  by_cases hk : k' = k
  · rw [if_pos hk, if_pos hk]
    constructor
    · rintro (⟨-, rfl⟩ | hnone)
      · rfl
      · cases hnone
    · rintro hw
      cases hw
      exact .inl ⟨hk, rfl⟩
  · rw [if_neg hk, if_neg hk]
    exact or_iff_right fun h => hk h.1

/-! ### Sizes -/

theorem size_remove_le (m : OrderedMap K V) (k : K) : (m.remove k).size ≤ m.size :=
  length_filter_le _ _

theorem size_remove_lt (h : m.get k = some v) : (m.remove k).size < m.size := by
  apply length_filter_lt_length_iff_exists.mpr
  exact ⟨(k, v), get_eq_some.mp h, fun hne => of_decide_eq_true hne rfl⟩

theorem size_insert (m : OrderedMap K V) (k : K) (v : V) :
    (m.insert k v).size = (m.remove k).size + 1 :=
  (insertSorted_perm (k, v) (m.remove k).entries).length_eq

theorem size_insert_le (m : OrderedMap K V) (k : K) (v : V) : (m.insert k v).size ≤ m.size + 1 := by
  rw [size_insert]
  exact Nat.succ_le_succ (m.size_remove_le k)

theorem size_insert_of_get {w : V} (h : m.get k = some w) : (m.insert k v).size ≤ m.size := by
  rw [size_insert]
  exact size_remove_lt h

end OrderedMap

end Lib
