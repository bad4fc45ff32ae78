import Mathlib

/-!
# Sums over the rows of a table

`tally f p l` adds up `f` over the rows of `l` that meet `p`: a quota on rows, on bytes or on the
rows of one owner is a bound on a tally. Deleting rows never raises a tally
(`tally_le_of_sublist`), and inserting one row raises it by at most that row's share
(`tally_concat`), which is all that an eviction loop followed by an insert needs.
-/

namespace Lib

open List

variable {α : Type}

/-- The sum of `f` over the rows of `l` that meet `p`. -/
def tally (f : α → ℕ) (p : α → Bool) (l : List α) : ℕ := ((l.filter p).map f).sum

theorem tally_concat (f : α → ℕ) (p : α → Bool) (l : List α) (a : α) :
    tally f p (l ++ [a]) = tally f p l + if p a then f a else 0 := by
  by_cases h : p a = true
  · simp [tally, h]
  · simp [tally, h]

theorem tally_le_of_sublist {f : α → ℕ} {p : α → Bool} {l l' : List α} (h : l.Sublist l') :
    tally f p l ≤ tally f p l' :=
  ((h.filter p).map f).sum_le_sum (fun _ _ => Nat.zero_le _)

theorem tally_le_total (f : α → ℕ) (p : α → Bool) (l : List α) :
    tally f p l ≤ tally f (fun _ => true) l := by
  have h : (l.filter p).Sublist (l.filter fun _ => true) := by
    rw [filter_true]
    exact filter_sublist
  exact (h.map f).sum_le_sum (fun _ _ => Nat.zero_le _)

theorem tally_filter_add_filter_not (f : α → ℕ) (p : α → Bool) (l : List α) :
    tally f (fun _ => true) (l.filter fun a => !p a) + tally f p l =
      tally f (fun _ => true) l := by
  induction l with
  | nil => rfl
  | cons a l ih =>
    cases h : p a <;> simp [tally, h] at ih ⊢ <;> omega

theorem tally_map {f : α → ℕ} {p : α → Bool} {g : α → α} (hf : ∀ a, f (g a) = f a)
    (hp : ∀ a, p (g a) = p a) (l : List α) : tally f p (l.map g) = tally f p l := by
  induction l with
  | nil => rfl
  | cons a l ih =>
    cases h : p a <;> simp [tally, h, hp, hf] at ih ⊢ <;> exact ih

end Lib
