import Mathlib

/-!
# Lists cut into slices

`slice size l i` is the `i`-th piece of `size` elements of a list, the last piece being shorter when
the length is no multiple. The pieces put together are the list (`flatMap_slice`), there are
`sliceCount` of them, and none of these is empty.
-/

namespace Lib

open List

variable {α : Type*} {size : ℕ}

/-- The piece at an index. -/
def slice (size : ℕ) (l : List α) (index : ℕ) : List α := (l.drop (index * size)).take size

/-- How many pieces a list of this length has. -/
def sliceCount (size length : ℕ) : ℕ := (length + size - 1) / size

theorem length_slice_le (size : ℕ) (l : List α) (index : ℕ) : (slice size l index).length ≤ size := by
  unfold slice
  rw [length_take]
  exact Nat.min_le_left _ _

theorem length_slice_le_length (size : ℕ) (l : List α) (index : ℕ) :
    (slice size l index).length ≤ l.length := by
  unfold slice
  rw [length_take, length_drop]
  omega

theorem flatMap_range_slice (size : ℕ) (l : List α) (count : ℕ) :
    (range count).flatMap (slice size l) = l.take (count * size) := by
  induction count with
  | zero => simp
  | succ count ih =>
    rw [range_succ, flatMap_append, ih, flatMap_singleton, slice, ← take_add,
      Nat.succ_mul]

theorem le_sliceCount_mul (hsize : 0 < size) (length : ℕ) :
    length ≤ sliceCount size length * size := by
  have hdiv := Nat.div_add_mod (length + size - 1) size
  have hmod := Nat.mod_lt (length + size - 1) hsize
  unfold sliceCount
  rw [Nat.mul_comm]
  omega

theorem sliceCount_mul_lt (hsize : 0 < size) (length : ℕ) :
    sliceCount size length * size < length + size := by
  have hle := Nat.div_mul_le_self (length + size - 1) size
  unfold sliceCount
  omega

theorem flatMap_slice (hsize : 0 < size) (l : List α) :
    (range (sliceCount size l.length)).flatMap (slice size l) = l := by
  rw [flatMap_range_slice]
  exact take_of_length_le (le_sliceCount_mul hsize l.length)

theorem sum_length_slice (hsize : 0 < size) (l : List α) :
    ∑ index ∈ Finset.range (sliceCount size l.length), (slice size l index).length = l.length := by
  have hlength := congrArg length (flatMap_slice hsize l)
  rw [length_flatMap] at hlength
  exact hlength

theorem slice_ne_nil (hsize : 0 < size) {l : List α} {index : ℕ}
    (hindex : index < sliceCount size l.length) : slice size l index ≠ [] := by
  have hoffset : index * size < l.length := by
    have hmul := (Nat.le_div_iff_mul_le hsize).mp (Nat.succ_le_of_lt hindex)
    rw [Nat.succ_mul] at hmul
    omega
  unfold slice
  rw [← length_pos_iff, length_take, length_drop]
  omega

end Lib
