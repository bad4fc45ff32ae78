import Mathlib

/-!
# Records of a fixed size

A log of records of one size is read in chunks. What is appended to it may be cut at any point: the
chunks of a log are then its whole records, and what is left over at the end is shorter than a record
(`chunks_append`).
-/

namespace Lib
namespace Records

variable {α : Type}

/-- The whole records of a log. -/
def chunks (size : ℕ) : ℕ → List α → List (List α)
  | 0, _ => []
  | count + 1, log => log.take size :: chunks size count (log.drop size)

/-- How many whole records there are. -/
def count (size : ℕ) (log : List α) : ℕ := log.length / size

variable {size : ℕ} {records : List (List α)} {torn : List α}

section

variable (h : ∀ r ∈ records, r.length = size)

include h

theorem length_flatten : records.flatten.length = records.length * size := by
  induction records with
  | nil => simp
  | cons r records ih =>
    rw [List.flatten_cons, List.length_append, h r List.mem_cons_self,
      ih fun r' hr' => h r' (List.mem_cons_of_mem r hr'), List.length_cons, Nat.succ_mul]
    exact Nat.add_comm _ _

theorem count_append (htorn : torn.length < size) :
    count size (records.flatten ++ torn) = records.length := by
  unfold count
  rw [List.length_append, length_flatten h]
  calc (records.length * size + torn.length) / size
      = records.length + torn.length / size := by
        rw [Nat.add_comm, Nat.add_mul_div_right _ _ (Nat.zero_lt_of_lt htorn), Nat.add_comm]
    _ = records.length := by rw [Nat.div_eq_of_lt htorn, Nat.add_zero]

theorem chunks_append : chunks size records.length (records.flatten ++ torn) = records := by
  induction records with
  | nil => rfl
  | cons r records ih =>
    have hr : r.length = size := h r List.mem_cons_self
    rw [List.length_cons, chunks, List.flatten_cons, List.append_assoc, List.take_left' hr,
      List.drop_left' hr, ih fun r' hr' => h r' (List.mem_cons_of_mem r hr')]

end

end Records
end Lib
