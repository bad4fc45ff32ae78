import Mathlib

/-!
# Maps that remember the order of insertion

A `LinkedMap` is a list of entries with different keys: the literal maps of Dart, JavaScript and
Python keep their entries in the order in which the keys were first put. Replacing a value leaves the
order alone, and `keys.head?` is the oldest key.

Every lookup comes down to membership (`get_eq_some`), from which the lookups after `put`, `remove`
and `filter` follow.
-/

namespace Lib

open List Option

/-- A map with its entries in the order of insertion. -/
structure LinkedMap (K V : Type) where
  entries : List (K × V)
  nodup : (entries.map Prod.fst).Nodup

namespace LinkedMap

variable {K V : Type}

theorem ext_entries {m n : LinkedMap K V} (h : m.entries = n.entries) : m = n := by
  cases m
  cases n
  cases h
  rfl

def empty : LinkedMap K V := ⟨[], List.nodup_nil⟩

/-- The keys, the oldest first. -/
def keys (m : LinkedMap K V) : List K := m.entries.map Prod.fst

def size (m : LinkedMap K V) : ℕ := m.entries.length

theorem keys_nodup (m : LinkedMap K V) : m.keys.Nodup := m.nodup

theorem length_keys (m : LinkedMap K V) : m.keys.length = m.size := length_map _

/-- Keep the entries that `p` accepts. -/
def filter (m : LinkedMap K V) (p : K → V → Bool) : LinkedMap K V where
  entries := m.entries.filter fun entry => p entry.1 entry.2
  nodup := m.nodup.sublist (List.filter_sublist.map Prod.fst)

theorem mem_entries_filter {m : LinkedMap K V} {p : K → V → Bool} {entry : K × V} :
    entry ∈ (m.filter p).entries ↔ entry ∈ m.entries ∧ p entry.1 entry.2 = true :=
  mem_filter

theorem filter_filter (m : LinkedMap K V) (p q : K → V → Bool) :
    (m.filter p).filter q = m.filter fun k v => q k v && p k v := by
  apply ext_entries
  show (m.entries.filter _).filter _ = _
  rw [List.filter_filter]
  rfl

theorem filter_congr {m : LinkedMap K V} {p q : K → V → Bool} (h : ∀ k v, p k v = q k v) :
    m.filter p = m.filter q := by
  have hpq : p = q := funext fun k => funext fun v => h k v
  rw [hpq]

theorem size_filter_le (m : LinkedMap K V) (p : K → V → Bool) : (m.filter p).size ≤ m.size :=
  length_filter_le _ _

variable [DecidableEq K]

def get (m : LinkedMap K V) (k : K) : Option V :=
  (m.entries.find? fun entry => decide (entry.1 = k)).map Prod.snd

def contains (m : LinkedMap K V) (k : K) : Bool := (m.get k).isSome

/-- Drop the entry of a key. -/
def remove (m : LinkedMap K V) (k : K) : LinkedMap K V := m.filter fun k' _ => decide (k' ≠ k)

/-- Set the entry of a key: a new key comes last. -/
def put (m : LinkedMap K V) (k : K) (v : V) : LinkedMap K V :=
  if h : k ∈ m.keys then
    { entries := m.entries.map fun entry => if entry.1 = k then (k, v) else entry
      nodup := by
        have hkeys : (m.entries.map fun entry => if entry.1 = k then (k, v) else entry).map Prod.fst =
            m.entries.map Prod.fst := by
          rw [List.map_map]
          refine List.map_congr_left fun entry _ => ?_
          show (if entry.1 = k then (k, v) else entry).1 = entry.1
          split
          next hentry => exact hentry.symm
          · rfl
        rw [hkeys]
        exact m.nodup }
  else
    { entries := m.entries ++ [(k, v)]
      nodup := by
        rw [List.map_append, List.nodup_append]
        refine ⟨m.nodup, List.nodup_singleton k, fun a ha b hb => ?_⟩
        rw [List.map_cons, List.map_nil, List.mem_singleton] at hb
        intro hab
        rw [hab, hb] at ha
        exact h ha }

variable {m : LinkedMap K V} {k : K} {v : V}

theorem get_eq_some : m.get k = some v ↔ (k, v) ∈ m.entries := by
  unfold get
  constructor
  · intro h
    obtain ⟨entry, hfind, rfl⟩ := map_eq_some_iff.mp h
    have hkey : entry.1 = k := by simpa using find?_some hfind
    rw [← hkey]
    exact mem_of_find?_eq_some hfind
  intro hmem
  have hsome : (m.entries.find? fun entry => decide (entry.1 = k)).isSome := by
    rw [find?_isSome]
    exact ⟨(k, v), hmem, decide_eq_true rfl⟩
  obtain ⟨entry, hfind⟩ := isSome_iff_exists.mp hsome
  have hkey : entry.1 = k := by simpa using find?_some hfind
  have hmem' := mem_of_find?_eq_some hfind
  have heq : entry = (k, v) := inj_on_of_nodup_map m.nodup hmem' hmem hkey
  rw [hfind, heq]
  rfl

theorem get_eq_none : m.get k = none ↔ k ∉ m.keys := by
  constructor
  · intro hnone hmem
    obtain ⟨entry, hentry, rfl⟩ := mem_map.mp hmem
    rw [get_eq_some.mpr hentry] at hnone
    cases hnone
  · intro hnot
    cases hget : m.get k with
    | none => rfl
    | some v => exact absurd (mem_map.mpr ⟨(k, v), get_eq_some.mp hget, rfl⟩) hnot

theorem contains_iff : m.contains k = true ↔ k ∈ m.keys := by
  unfold contains
  cases hget : m.get k with
  | none => simp [get_eq_none.mp hget]
  | some v =>
    have hmem : k ∈ m.keys := mem_map.mpr ⟨(k, v), get_eq_some.mp hget, rfl⟩
    simp [hmem]

@[simp] theorem get_empty : (empty : LinkedMap K V).get k = none := rfl

theorem get_filter (p : K → V → Bool) : (m.filter p).get k = (m.get k).filter (p k) := by
  ext v
  rw [get_eq_some, mem_entries_filter, filter_eq_some_iff, get_eq_some]

theorem get_remove (k' : K) : (m.remove k).get k' = if k' = k then none else m.get k' := by
  unfold remove
  rw [get_filter]
  split
  next hk =>
    cases m.get k' with
    | none => rfl
    | some _ => simp [hk]
  next hk =>
    cases m.get k' with
    | none => rfl
    | some _ => simp [hk]

theorem get_put (k' : K) : (m.put k v).get k' = if k' = k then some v else m.get k' := by
  unfold put
  split
  · next hmem =>
    ext w
    rw [get_eq_some, List.mem_map]
    constructor
    · rintro ⟨entry, hentry, heq⟩
      split at heq
      · cases heq
        rw [if_pos rfl]
      next hne =>
      subst heq
      rw [if_neg hne]
      exact get_eq_some.mpr hentry
    intro hw
    split at hw
    · next hk =>
      subst hk
      cases hw
      obtain ⟨entry, hentry, hkey⟩ := mem_map.mp hmem
      exact ⟨entry, hentry, if_pos hkey⟩
    next hne => exact ⟨(k', w), get_eq_some.mp hw, if_neg hne⟩
  next hnot =>
  ext w
  rw [get_eq_some, mem_append, mem_singleton, ← get_eq_some]
  by_cases hk : k' = k
  · subst hk
    rw [if_pos rfl, get_eq_none.mpr hnot]
    constructor
    · rintro (h | h)
      · cases h
      · cases h
        rfl
    · rintro h
      cases h
      exact .inr rfl
  · simp [hk]

theorem keys_put_of_not_mem (h : k ∉ m.keys) : (m.put k v).keys = m.keys ++ [k] := by
  unfold put
  rw [dif_neg h]
  show (m.entries ++ [(k, v)]).map Prod.fst = m.entries.map Prod.fst ++ [k]
  rw [map_append]
  rfl

theorem keys_put_of_mem (h : k ∈ m.keys) : (m.put k v).keys = m.keys := by
  unfold put
  rw [dif_pos h]
  show (m.entries.map _).map Prod.fst = m.entries.map Prod.fst
  rw [List.map_map]
  refine List.map_congr_left fun entry _ => ?_
  show (if entry.1 = k then (k, v) else entry).1 = entry.1
  split
  next hentry => exact hentry.symm
  · rfl

theorem mem_keys_put {k' : K} : k' ∈ (m.put k v).keys ↔ k' ∈ m.keys ∨ k' = k := by
  by_cases hmem : k ∈ m.keys
  · rw [keys_put_of_mem hmem]
    constructor
    · exact .inl
    · rintro (h | rfl)
      · exact h
      · exact hmem
  · rw [keys_put_of_not_mem hmem, mem_append, mem_singleton]

theorem size_put_le (m : LinkedMap K V) (k : K) (v : V) : (m.put k v).size ≤ m.size + 1 := by
  rw [← length_keys, ← length_keys]
  by_cases hmem : k ∈ m.keys
  · rw [keys_put_of_mem hmem]
    exact Nat.le_succ _
  · rw [keys_put_of_not_mem hmem, length_append, length_singleton]

/-! ### From a list -/

/-- `Map.fromEntries`. -/
def ofEntries (entries : List (K × V)) : LinkedMap K V :=
  entries.foldl (fun m entry => m.put entry.1 entry.2) empty

theorem entries_put_of_not_mem (h : k ∉ m.keys) : (m.put k v).entries = m.entries ++ [(k, v)] := by
  unfold put
  rw [dif_neg h]

theorem entries_ofEntries {entries : List (K × V)} (h : (entries.map Prod.fst).Nodup) :
    (ofEntries entries).entries = entries := by
  have hfold : ∀ m : LinkedMap K V, (m.keys ++ entries.map Prod.fst).Nodup →
      (entries.foldl (fun m entry => m.put entry.1 entry.2) m).entries = m.entries ++ entries := by
    clear h
    induction entries with
    | nil => intro m _; exact (append_nil _).symm
    | cons entry entries ih =>
    intro m hnodup
    have hnew : entry.1 ∉ m.keys := by
      intro hmem
      rw [nodup_append] at hnodup
      exact hnodup.2.2 entry.1 hmem entry.1 (by simp) rfl
    rw [foldl_cons, ih]
    · rw [entries_put_of_not_mem hnew, append_assoc]
      rfl
    · rw [keys_put_of_not_mem hnew, append_assoc]
      exact hnodup
  exact hfold empty h

/-! ### The weight of a map -/

/-- The weights of the values together. -/
def total (weight : V → ℕ) (m : LinkedMap K V) : ℕ :=
  (m.entries.map fun entry => weight entry.2).sum

variable (weight : V → ℕ)

omit [DecidableEq K] in
theorem total_filter_le (p : K → V → Bool) : (m.filter p).total weight ≤ m.total weight :=
  List.Sublist.sum_le_sum (filter_sublist.map _) fun _ _ => Nat.zero_le _

theorem total_remove (h : m.get k = some v) :
    m.total weight = weight v + (m.remove k).total weight := by
  obtain ⟨entries, hnodup⟩ := m
  have hmem : (k, v) ∈ entries := get_eq_some.mp h
  show (entries.map fun entry => weight entry.2).sum = weight v +
    ((entries.filter fun entry => decide (entry.1 ≠ k)).map fun entry => weight entry.2).sum
  clear h
  induction entries with
  | nil => cases hmem
  | cons entry entries ih =>
  rw [map_cons, nodup_cons] at hnodup
  rcases mem_cons.mp hmem with rfl | hlater
  · -- the other entries have other keys
    have hrest : entries.filter (fun entry => decide (entry.1 ≠ k)) = entries := by
      rw [filter_eq_self]
      intro entry hentry
      apply decide_eq_true
      intro hkey
      exact hnodup.1 (mem_map.mpr ⟨entry, hentry, hkey⟩)
    rw [filter_cons_of_neg (by simp), hrest]
    rfl
  · have hne : entry.1 ≠ k := by
      intro hkey
      exact hnodup.1 (mem_map.mpr ⟨(k, v), hlater, hkey.symm⟩)
    rw [filter_cons_of_pos (by simpa using hne)]
    calc (((entry :: entries).map fun entry => weight entry.2).sum)
        = weight entry.2 + (entries.map fun entry => weight entry.2).sum := by simp
      _ = weight entry.2 + (weight v + ((entries.filter fun entry => decide (entry.1 ≠ k)).map
            fun entry => weight entry.2).sum) := by rw [ih hnodup.2 hlater]
      _ = _ := by simp; omega

theorem total_remove_le : (m.remove k).total weight ≤ m.total weight := total_filter_le weight _

theorem total_put_of_not_mem (h : k ∉ m.keys) :
    (m.put k v).total weight = m.total weight + weight v := by
  unfold total
  rw [entries_put_of_not_mem h, map_append]
  simp

theorem sum_get_le {ks : List K} (hnodup : ks.Nodup) :
    (ks.map fun k => ((m.get k).map weight).getD 0).sum ≤ m.total weight := by
  induction ks generalizing m with
  | nil => exact Nat.zero_le _
  | cons k ks ih =>
  rw [nodup_cons] at hnodup
  rw [map_cons, sum_cons]
  have hothers : (ks.map fun k' => ((m.get k').map weight).getD 0) =
      ks.map fun k' => (((m.remove k).get k').map weight).getD 0 := by
    refine map_congr_left fun k' hk' => ?_
    have hne : k' ≠ k := by
      rintro rfl
      exact hnodup.1 hk'
    rw [get_remove, if_neg hne]
  have hrest := @ih (m.remove k) hnodup.2
  rw [← hothers] at hrest
  cases hget : m.get k with
  | none =>
    have hle : (m.remove k).total weight ≤ m.total weight := total_remove_le weight
    simp only [map_none, getD_none]
    omega
  | some v =>
    have htotal := total_remove weight hget
    simp only [map_some, getD_some]
    omega

end LinkedMap

end Lib
