import Mathlib

/-!
# Bits in groups

A number of a few bits, written as those bits from the highest down (`bitsOf`), and a list of such
numbers as the bits of one after the other (`groupBits`). Regrouping bits from one width into
another is then a statement about one list: the bits stay what they are, and a list of groups is
determined by its bits (`groupBits_inj`).
-/

namespace Lib

open List

variable {width : ℕ}

/-- The bits of `f` below `width`, the highest first. -/
def bitsOf (f : ℕ → Bool) : ℕ → List Bool
  | 0 => []
  | width + 1 => f width :: bitsOf f width

@[simp] theorem length_bitsOf (f : ℕ → Bool) (width : ℕ) : (bitsOf f width).length = width := by
  induction width with
  | zero => rfl
  | succ width ih => rw [bitsOf, length_cons, ih]

theorem bitsOf_congr {f g : ℕ → Bool} (h : ∀ i < width, f i = g i) :
    bitsOf f width = bitsOf g width := by
  induction width with
  | zero => rfl
  | succ width ih =>
    rw [bitsOf, bitsOf, h width (Nat.lt_succ_self _), ih fun i hi => h i (Nat.lt_succ_of_lt hi)]

theorem eq_of_bitsOf {f g : ℕ → Bool} (h : bitsOf f width = bitsOf g width) :
    ∀ i < width, f i = g i := by
  induction width with
  | zero => exact fun i hi => absurd hi (Nat.not_lt_zero i)
  | succ width ih =>
  obtain ⟨hhead, htail⟩ := cons.inj h
  intro i hi
  rcases Nat.lt_succ_iff_lt_or_eq.mp hi with hlt | rfl
  · exact ih htail i hlt
  · exact hhead

theorem bitsOf_add (f : ℕ → Bool) (high low : ℕ) :
    bitsOf f (high + low) = bitsOf (fun i => f (i + low)) high ++ bitsOf f low := by
  induction high with
  | zero => rw [Nat.zero_add, bitsOf, nil_append]
  | succ high ih => rw [Nat.succ_add, bitsOf, ih, bitsOf, cons_append]

theorem bitsOf_eq_replicate {f : ℕ → Bool} :
    bitsOf f width = replicate width false ↔ ∀ i < width, f i = false := by
  have hzero : bitsOf (fun _ => false) width = replicate width false := by
    induction width with
    | zero => rfl
    | succ width ih => rw [bitsOf, ih, replicate_succ]
  rw [← hzero]
  exact ⟨eq_of_bitsOf, bitsOf_congr⟩

/-! ### Groups -/

/-- The bits of numbers of `width` bits, one after the other. -/
def groupBits (width : ℕ) (values : List ℕ) : List Bool :=
  values.flatMap fun value => bitsOf value.testBit width

@[simp] theorem groupBits_nil (width : ℕ) : groupBits width [] = [] := rfl

@[simp] theorem groupBits_cons (width value : ℕ) (values : List ℕ) :
    groupBits width (value :: values) = bitsOf value.testBit width ++ groupBits width values := rfl

@[simp] theorem groupBits_append (width : ℕ) (values more : List ℕ) :
    groupBits width (values ++ more) = groupBits width values ++ groupBits width more :=
  flatMap_append

theorem length_groupBits (width : ℕ) (values : List ℕ) :
    (groupBits width values).length = width * values.length := by
  induction values with
  | nil => rfl
  | cons value values ih =>
    rw [groupBits_cons, length_append, length_bitsOf, ih, length_cons]
    ring

theorem eq_of_testBit_bitsOf {a b : ℕ} (ha : a < 2 ^ width) (hb : b < 2 ^ width)
    (h : bitsOf a.testBit width = bitsOf b.testBit width) : a = b := by
  apply Nat.eq_of_testBit_eq
  intro i
  by_cases hi : i < width
  · exact eq_of_bitsOf h i hi
  · have hpow : 2 ^ width ≤ 2 ^ i := Nat.pow_le_pow_right Nat.zero_lt_two (not_lt.mp hi)
    rw [Nat.testBit_lt_two_pow (ha.trans_le hpow), Nat.testBit_lt_two_pow (hb.trans_le hpow)]

/-- **Groups are their bits**: two lists of numbers of `width` bits with the same bits are equal. -/
theorem groupBits_inj (hwidth : 0 < width) {values others : List ℕ}
    (hvalues : ∀ v ∈ values, v < 2 ^ width) (hothers : ∀ v ∈ others, v < 2 ^ width)
    (h : groupBits width values = groupBits width others) : values = others := by
  induction values generalizing others with
  | nil =>
    have hlength := congrArg length h
    rw [length_groupBits, length_groupBits, length_nil] at hlength
    have hzero : others.length = 0 := by
      rcases Nat.mul_eq_zero.mp hlength.symm with hwidth' | hzero
      · omega
      · exact hzero
    exact (length_eq_zero_iff.mp hzero).symm
  | cons value values ih =>
  cases others with
  | nil =>
    have hlength := congrArg length h
    rw [length_groupBits, length_groupBits, length_cons] at hlength
    rcases Nat.mul_eq_zero.mp hlength with hwidth' | hzero <;> omega
  | cons other others =>
  obtain ⟨hhead, htail⟩ := append_inj h (by rw [length_bitsOf, length_bitsOf])
  rw [eq_of_testBit_bitsOf (hvalues _ mem_cons_self) (hothers _ mem_cons_self) hhead,
    ih (fun v hv => hvalues v (mem_cons_of_mem _ hv))
      (fun v hv => hothers v (mem_cons_of_mem _ hv)) htail]

end Lib
