import Mathlib.Data.List.Nodup

/-!
# Sets that keep the latest

A set with room for `capacity` elements, which makes room by dropping the oldest. It says whether an
element is among the latest, and nothing of the others; so what was put in is either there or
dropped (`Known`), and only that is preserved when more is put in (`known_add`).

The dropped elements are kept for what is said about a set over time. Nothing else reads them.
-/

namespace Lib

open List

/-- A set of the latest elements, in the order they came. -/
structure RecentSet (α : Type) (capacity : ℕ) where
  ids : List α
  dropped : List α
  nodup : ids.Nodup
  length_le : ids.length ≤ capacity

namespace RecentSet

variable {α : Type} {capacity : ℕ}

def empty : RecentSet α capacity := ⟨[], [], List.nodup_nil, Nat.zero_le _⟩

variable (s : RecentSet α capacity) {a b : α}

/-- Put in at some time, and not taken out since. -/
def Known (a : α) : Prop := a ∈ s.ids ∨ a ∈ s.dropped

variable {s}

theorem not_known (hids : a ∉ s.ids) (hdropped : a ∉ s.dropped) : ¬ s.Known a := by
  rintro (h | h)
  · exact hids h
  · exact hdropped h

variable [DecidableEq α] (s)

def contains (a : α) : Bool := decide (a ∈ s.ids)

/-- Put an element in, at the cost of the oldest if there are too many. -/
def add (a : α) : RecentSet α capacity :=
  if hmem : a ∈ s.ids then s
  else
    have hnodup : (s.ids ++ [a]).Nodup :=
      List.nodup_append.mpr ⟨s.nodup, List.nodup_singleton a, fun x hx y hy heq =>
        hmem (List.mem_singleton.mp hy ▸ heq ▸ hx)⟩
    have hlength : (s.ids ++ [a]).length = s.ids.length + 1 := by simp
    if hroom : s.ids.length < capacity then
      ⟨s.ids ++ [a], s.dropped, hnodup, hlength ▸ hroom⟩
    else
      ⟨(s.ids ++ [a]).tail, s.dropped ++ (s.ids ++ [a]).take 1, hnodup.tail, by
        have hfull := s.length_le
        rw [List.length_tail]
        omega⟩

def remove (a : α) : RecentSet α capacity where
  ids := s.ids.filter fun x => decide (x ≠ a)
  dropped := s.dropped
  nodup := s.nodup.filter _
  length_le := Nat.le_trans (List.length_filter_le _ _) s.length_le

@[simp] theorem contains_eq_false : s.contains a = false ↔ a ∉ s.ids := decide_eq_false_iff_not

variable {s}

/-- **Putting an element in** makes it known, and all that was known stays so. -/
theorem known_add : (s.add a).Known b ↔ s.Known b ∨ b = a := by
  by_cases hmem : a ∈ s.ids
  · rw [add, dif_pos hmem]
    exact ⟨.inl, fun h => h.elim id fun hb => .inl (hb ▸ hmem)⟩
  by_cases hroom : s.ids.length < capacity
  · rw [add, dif_neg hmem, dif_pos hroom]
    simp only [Known, mem_append, mem_singleton]
    tauto
  rw [add, dif_neg hmem, dif_neg hroom]
  -- the oldest goes from the elements to the dropped ones
  have hsplit : b ∈ s.ids ++ [a] ↔ b ∈ (s.ids ++ [a]).take 1 ∨ b ∈ (s.ids ++ [a]).tail := by
    rw [← drop_one, ← mem_append, take_append_drop]
  rw [mem_append, mem_singleton] at hsplit
  simp only [Known, mem_append]
  tauto

theorem mem_dropped_add (h : b ∈ s.dropped) : b ∈ (s.add a).dropped := by
  by_cases hmem : a ∈ s.ids
  · rwa [add, dif_pos hmem]
  by_cases hroom : s.ids.length < capacity
  · rwa [add, dif_neg hmem, dif_pos hroom]
  · rw [add, dif_neg hmem, dif_neg hroom]
    exact mem_append_left _ h

theorem known_remove (hne : b ≠ a) (h : s.Known b) : (s.remove a).Known b :=
  h.imp (fun hb => mem_filter.mpr ⟨hb, decide_eq_true hne⟩) id

end RecentSet

end Lib
